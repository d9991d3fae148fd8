import ArgumentContract.Proofs.Report.ShortLead

/-!
# Restating in one pass

A restatement that is made in one pass cuts the message at character boundaries only, and it comes
to what replacing the text comes to.  The one exception is a message with a short lead, where
checked arithmetic stops at the first token.

A pass is described by three parts of the message: what it has dealt with up to the last
occurrence, what it has passed over since, and the rest.  Every step takes a token or an occurrence
off the rest, and what is written so far is always made up to the replacement of the whole message
by the replacement of the rest.
-/

namespace ArgumentContract

open Token Text

namespace Restatement

/-! ## Cutting a text -/

/-- An offset that lies between two characters of a text or at one of its ends. -/
def IsBoundary (text : List Char) (offset : Nat) : Prop :=
  ∃ before after, text = before ++ after ∧ width before = offset

theorem isBoundary_append (before after : List Char) :
    isBoundary (before ++ after) (width before) = true := by
  rw [isBoundary, takeBytes_width]
  exact beq_self_eq_true _

theorem cut_append (before part after : List Char) :
    cut (before ++ part ++ after) ⟨width before, width (before ++ part)⟩ = .ok part := by
  have hstart : isBoundary (before ++ part ++ after) (width before) = true := by
    rw [List.append_assoc]
    exact isBoundary_append before _
  have hle : width before ≤ width (before ++ part) := by
    rw [width_append]
    exact Nat.le_add_right _ _
  have hlength : width (before ++ part) - width before = width part := by
    rw [width_append, Nat.add_sub_cancel_left]
  rw [cut, if_pos ⟨hle, hstart, isBoundary_append (before ++ part) after⟩, hlength,
    List.append_assoc, dropBytes_width, takeBytes_width]

/-! ## A pass over a message -/

namespace Pass

variable {pass : Pass} {progress next : Progress} {front pending rest : List Char}

/-- The tokens that a pass has not come to yet. -/
def unread (pass : Pass) (progress : Progress) : List Located :=
  (tokenize pass.message).drop progress.index

/-- What a pass goes through, from its start on. -/
inductive Visits (pass : Pass) : Progress → Prop
  | start : Visits pass start
  | advance {progress next : Progress} (hvisits : Visits pass progress)
      (hmore : progress.index < (tokenize pass.message).length)
      (hnext : pass.advance progress = .ok next) : Visits pass next

/-- The one place where an offset comes out below zero, if this is checked. -/
structure Faults (pass : Pass) (progress : Progress) : Prop where
  checked : pass.arithmetic = .checked
  index_eq : progress.index = 0
  shortLead : ShortLead pass.message

theorem takesOffset_unread_iff {lead : Span} :
    TakesOffset (pass.unread progress) 0 lead ↔
      TakesOffset (tokenize pass.message) progress.index lead := by
  constructor
  · rintro ⟨hfirst, hlast⟩
    simp only [unread, List.getElem?_drop, Nat.add_zero, Nat.zero_add] at hfirst hlast
    exact ⟨hfirst, hlast⟩
  · rintro ⟨hfirst, hlast⟩
    refine ⟨?_, ?_⟩
    · simpa only [unread, List.getElem?_drop, Nat.add_zero] using hfirst
    · simpa only [unread, List.getElem?_drop, Nat.zero_add] using hlast

theorem Faults.occurrenceByOffset_unread (hfaults : pass.Faults progress) :
    occurrenceByOffset pass.arithmetic (pass.unread progress) =
      .error (.negativeOffset 1 2) := by
  obtain ⟨lead, htakes, hstop⟩ := hfaults.shortLead.exists_takesOffset
  rw [← hfaults.index_eq, ← takesOffset_unread_iff] at htakes
  rw [hfaults.checked, occurrenceByOffset_of_stop_lt_two htakes (by omega), hstop]

/-- Everywhere else an occurrence is found as it is without offsets. -/
theorem occurrenceByOffset_unread (hnot : ¬ pass.Faults progress) :
    occurrenceByOffset pass.arithmetic (pass.unread progress) =
      .ok (occurrence? (pass.unread progress)) := by
  cases harithmetic : pass.arithmetic with
  | checked =>
      apply occurrenceByOffset_eq_ok
      intro lead htakes
      rw [takesOffset_unread_iff] at htakes
      rw [← Nat.not_lt, htakes.stop_lt_two_iff]
      rintro ⟨hindex, hshort⟩
      exact hnot ⟨harithmetic, hindex, hshort⟩
  | wrapping =>
      apply occurrenceByOffset_wrapping
      intro letters lead hfirst
      exact width_text_le_stop (List.mem_of_mem_drop (List.mem_of_getElem? hfirst))

/-- A pass divides the message into what it has dealt with up to the last occurrence, what it has
passed over since, and the rest.  What it has written is made up to the replacement of the message
by the two latter. -/
structure Invariant (pass : Pass) (progress : Progress) (front pending rest : List Char) :
    Prop where
  message_eq : pass.message.toList = front ++ pending ++ rest
  copied_eq : progress.copied = width front
  unread_eq : pass.unread progress = locate (width (front ++ pending)) (scan rest)
  written_eq : progress.written ++ (pending ++ replace pass.phrase.toList rest) =
    replace pass.phrase.toList pass.message.toList

theorem invariant_start (pass : Pass) :
    pass.Invariant start [] [] pass.message.toList :=
  ⟨rfl, rfl, rfl, rfl⟩

theorem unread_passed (pass : Pass) (progress : Progress) (count : Nat) (copied : Nat)
    (written : List Char) :
    pass.unread ⟨progress.index + count, copied, written⟩ =
      (pass.unread progress).drop count := by
  rw [unread, unread, List.drop_drop]

/-- A token in which no occurrence begins is passed over. -/
theorem Invariant.token_append
    {token : Token} (hinv : pass.Invariant progress front pending (token.text ++ rest))
    (hstands : token.StandsBefore rest) (hnot : ¬ BeginsIn token rest) :
    occurrence? (pass.unread progress) = none ∧
      pass.Invariant { progress with index := progress.index + 1 } front
        (pending ++ token.text) rest := by
  have hunread := hinv.unread_eq
  rw [scan_text_append hstands] at hunread
  constructor
  · rw [hunread, Option.eq_none_iff_forall_ne_some]
    intro part hpart
    exact hnot (beginsIn_of_occurrence hpart)
  · refine ⟨?_, hinv.copied_eq, ?_, ?_⟩
    · rw [hinv.message_eq]
      simp only [List.append_assoc]
    · rw [unread_passed, hunread, locate, List.drop_succ_cons, List.drop_zero,
        ← List.append_assoc, width_append (front ++ pending)]
    · rw [← hinv.written_eq, replace_text_append hstands hnot, List.append_assoc]

/-- How far a pass has come when it has put the phrase in place of an occurrence. -/
def stated
    (pass : Pass) (progress : Progress) (front pending stem name : List Char) : Progress where
  index := progress.index + occurrenceLength
  copied := width (front ++ pending ++ stem ++ lead ++ name)
  written := progress.written ++ (pending ++ stem) ++ pass.phrase.toList

/-- An occurrence is found at its offsets, and the phrase is written behind what precedes it. -/
theorem Invariant.occurrence_append
    {stem name : List Char}
    (hinv : pass.Invariant progress front pending (stem ++ (lead ++ name ++ rest)))
    (hstem : IsName (stem ++ "an".toList)) (hname : IsName name)
    (hafter : startsWord rest = false) :
    occurrence? (pass.unread progress) =
        some ⟨width (front ++ pending ++ stem),
          width (front ++ pending ++ stem ++ lead ++ name)⟩ ∧
      pass.Invariant (pass.stated progress front pending stem name)
        (front ++ pending ++ stem ++ lead ++ name) [] rest := by
  have hscan := scan_stem_append hstem hname hafter
  have hunread := hinv.unread_eq
  rw [hscan, locate_append, flatMap_text_occurrenceTokens] at hunread
  constructor
  · rw [hunread, occurrence?_locate]
    simp only [List.append_assoc, width_append, Nat.add_assoc]
  · refine ⟨?_, rfl, ?_, ?_⟩
    · rw [hinv.message_eq]
      simp only [List.append_assoc, List.append_nil]
    · rw [stated, unread_passed, hunread, List.drop_left' (by rw [length_locate]; rfl)]
      simp only [List.append_assoc, List.append_nil, width_append, Nat.add_assoc]
    · rw [← hinv.written_eq, replace_stem_append hstem hname hafter]
      simp only [stated, List.append_assoc, List.nil_append]

theorem Invariant.lt_length_iff (hinv : pass.Invariant progress front pending rest) :
    progress.index < (tokenize pass.message).length ↔ rest ≠ [] := by
  have hlength := congrArg List.length hinv.unread_eq
  rw [unread, List.length_drop, length_locate] at hlength
  rw [← Nat.sub_pos_iff_lt, hlength, List.length_pos_iff, ne_eq, scan_eq_nil_iff]

/-! ## Steps of a pass -/

theorem advance_of_faults (hfaults : pass.Faults progress) :
    pass.advance progress = .error (.negativeOffset 1 2) := by
  have hfound := hfaults.occurrenceByOffset_unread
  rw [unread] at hfound
  simp only [advance, hfound, bind, Except.bind]

theorem advance_of_none
    (hnot : ¬ pass.Faults progress) (hnone : occurrence? (pass.unread progress) = none) :
    pass.advance progress = .ok { progress with index := progress.index + 1 } := by
  have hfound := occurrenceByOffset_unread hnot
  rw [hnone, unread] at hfound
  simp only [advance, hfound, bind, Except.bind]
  rfl

theorem advance_of_some
    {part : Span} {kept : List Char} (hnot : ¬ pass.Faults progress)
    (hsome : occurrence? (pass.unread progress) = some part)
    (hcut : cut pass.message.toList ⟨progress.copied, part.start⟩ = .ok kept) :
    pass.advance progress =
      .ok ⟨progress.index + occurrenceLength, part.stop,
        progress.written ++ kept ++ pass.phrase.toList⟩ := by
  have hfound := occurrenceByOffset_unread hnot
  rw [hsome, unread] at hfound
  simp only [advance, hfound, hcut, bind, Except.bind]
  rfl

/-- A pass that has not come to the end goes on, except where an offset comes out below zero. -/
theorem Invariant.exists_advance
    (hinv : pass.Invariant progress front pending rest) (hne : rest ≠ [])
    (hnot : ¬ pass.Faults progress) :
    ∃ next front pending rest,
      pass.advance progress = .ok next ∧ pass.Invariant next front pending rest := by
  rcases exists_next_part hne with
    ⟨token, after, rfl, hstands, hbegins⟩ | ⟨stem, name, after, rfl, hstem, hname, hafter⟩
  · obtain ⟨hnone, hnext⟩ := hinv.token_append hstands hbegins
    exact ⟨_, _, _, _, advance_of_none hnot hnone, hnext⟩
  · obtain ⟨hsome, hnext⟩ := hinv.occurrence_append hstem hname hafter
    have hcut := cut_append front (pending ++ stem) (lead ++ name ++ after)
    have hmessage : front ++ (pending ++ stem) ++ (lead ++ name ++ after) =
        pass.message.toList := by
      rw [hinv.message_eq]
      simp only [List.append_assoc]
    rw [hmessage, ← hinv.copied_eq, ← List.append_assoc] at hcut
    exact ⟨_, _, _, _, advance_of_some hnot hsome hcut, hnext⟩

theorem Visits.exists_invariant (hvisits : pass.Visits progress) :
    ∃ front pending rest, pass.Invariant progress front pending rest := by
  induction hvisits with
  | start => exact ⟨_, _, _, pass.invariant_start⟩
  | @advance progress next hvisits hmore hnext ih =>
      obtain ⟨front, pending, rest, hinv⟩ := ih
      by_cases hfaults : pass.Faults progress
      · rw [advance_of_faults hfaults] at hnext
        contradiction
      · obtain ⟨other, front, pending, rest, hother, hkept⟩ :=
          hinv.exists_advance (hinv.lt_length_iff.mp hmore) hfaults
        obtain rfl := Except.ok.inj (hnext.symm.trans hother)
        exact ⟨front, pending, rest, hkept⟩

/-! ## Occurrences that are found -/

/-- What makes it safe to cut out an occurrence that is found. -/
structure SafePart (pass : Pass) (progress : Progress) (part : Span) : Prop where
  copied_le_start : progress.copied ≤ part.start
  start_lt_stop : part.start < part.stop
  stop_le_width : part.stop ≤ width pass.message.toList
  copied_isBoundary : IsBoundary pass.message.toList progress.copied
  start_isBoundary : IsBoundary pass.message.toList part.start
  stop_isBoundary : IsBoundary pass.message.toList part.stop
  next_le_length : progress.index + occurrenceLength ≤ (tokenize pass.message).length

theorem occurrenceLength_le_of_occurrence
    {tokens : List Located} {part : Span} (hfound : occurrence? tokens = some part) :
    occurrenceLength ≤ tokens.length := by
  obtain ⟨stem, name, others, htokens⟩ := map_token_of_occurrence hfound
  have hlength := congrArg List.length htokens
  rw [List.length_map, List.length_append] at hlength
  rw [hlength]
  exact Nat.le_add_right occurrenceLength others.length

theorem Invariant.safePart
    {part : Span} (hinv : pass.Invariant progress front pending rest)
    (hfound : occurrence? (pass.unread progress) = some part) :
    pass.SafePart progress part := by
  have hlength := occurrenceLength_le_of_occurrence hfound
  rw [unread, List.length_drop] at hlength
  have hpos : 0 < occurrenceLength := by decide
  have hne : rest ≠ [] := hinv.lt_length_iff.mp (by omega)
  rcases exists_next_part hne with
    ⟨token, after, rfl, hstands, hbegins⟩ | ⟨stem, name, after, rfl, hstem, hname, hafter⟩
  · rw [(hinv.token_append hstands hbegins).1] at hfound
    contradiction
  · rw [(hinv.occurrence_append hstem hname hafter).1] at hfound
    obtain rfl := Option.some.inj hfound
    have hmessage : pass.message.toList =
        front ++ pending ++ stem ++ lead ++ name ++ after := by
      rw [hinv.message_eq]
      simp only [List.append_assoc]
    have hlead : 0 < width lead := by decide
    refine ⟨?_, ?_, ?_, ?_, ?_, ?_, by omega⟩
    · rw [hinv.copied_eq]
      simp only [width_append]
      omega
    · simp only [width_append]
      omega
    · rw [hmessage, width_append _ after]
      exact Nat.le_add_right _ _
    · exact ⟨front, pending ++ (stem ++ (lead ++ name ++ after)),
        by rw [hinv.message_eq, List.append_assoc], hinv.copied_eq.symm⟩
    · exact ⟨front ++ pending ++ stem, lead ++ name ++ after,
        by rw [hinv.message_eq, List.append_assoc _ stem], rfl⟩
    · exact ⟨front ++ pending ++ stem ++ lead ++ name, after, hmessage, rfl⟩

/-! ## The whole pass -/

theorem finish_of_advance
    (hmore : progress.index < (tokenize pass.message).length)
    (hnext : pass.advance progress = .ok next) :
    pass.finish progress = pass.finish next := by
  rw [finish, if_pos hmore]
  split
  next fault hfault =>
    rw [hnext] at hfault
    contradiction
  next other hother =>
    rw [Except.ok.inj (hnext.symm.trans hother)]

theorem finish_of_faults
    (hmore : progress.index < (tokenize pass.message).length) (hfaults : pass.Faults progress) :
    pass.finish progress = .error (.negativeOffset 1 2) := by
  have hstop := advance_of_faults hfaults
  rw [finish, if_pos hmore]
  split
  next fault hfault => rw [← Except.error.inj (hstop.symm.trans hfault)]
  next other hother =>
    rw [hstop] at hother
    contradiction

theorem Invariant.finish_of_nil (hinv : pass.Invariant progress front pending []) :
    pass.finish progress = .ok (replace pass.phrase.toList pass.message.toList) := by
  have hdone : ¬ progress.index < (tokenize pass.message).length := by
    rw [hinv.lt_length_iff]
    exact not_not_intro rfl
  have hcut := cut_append front pending []
  rw [← hinv.copied_eq, ← List.append_nil (front ++ pending), List.append_nil (_ ++ []),
    ← hinv.message_eq] at hcut
  rw [finish, if_neg hdone, hcut, ← hinv.written_eq, replace_nil, List.append_nil]
  rfl

/-- A pass that goes on without a fault writes what replacing the text comes to. -/
theorem Invariant.finish_eq
    (hinv : pass.Invariant progress front pending rest) (hnot : ¬ pass.Faults progress) :
    pass.finish progress = .ok (replace pass.phrase.toList pass.message.toList) := by
  -- Every step moves the index on, and behind the first token no step faults.
  induction hleft : (tokenize pass.message).length - progress.index
    using Nat.strong_induction_on generalizing progress front pending rest with
  | h left ih =>
      by_cases hne : rest = []
      · subst hne
        exact hinv.finish_of_nil
      · have hmore := hinv.lt_length_iff.mpr hne
        obtain ⟨next, front, pending, rest, hnext, hkept⟩ := hinv.exists_advance hne hnot
        have hlt := index_lt_of_advance hnext
        have hsound : ¬ pass.Faults next := by
          intro hfaults
          have hzero := hfaults.index_eq
          omega
        rw [finish_of_advance hmore hnext]
        exact ih _ (by omega) hkept hsound rfl

theorem finish_start
    (pass : Pass) (hnot : ¬ (pass.arithmetic = .checked ∧ ShortLead pass.message)) :
    pass.finish start = .ok (replace pass.phrase.toList pass.message.toList) :=
  pass.invariant_start.finish_eq fun hfaults => hnot ⟨hfaults.checked, hfaults.shortLead⟩

theorem finish_start_of_shortLead
    (pass : Pass) (hchecked : pass.arithmetic = .checked) (hshort : ShortLead pass.message) :
    pass.finish start = .error (.negativeOffset 1 2) := by
  obtain ⟨letters, span, hfirst, -⟩ := hshort.first
  exact finish_of_faults (List.getElem?_eq_some_iff.mp hfirst).1 ⟨hchecked, rfl, hshort⟩

end Pass

theorem restateInOnePass_eq_ok
    {arithmetic : Arithmetic} {message : String}
    (hnot : ¬ (arithmetic = .checked ∧ ShortLead message)) (phrase : String) :
    restateInOnePass arithmetic message phrase = .ok (restate message phrase) := by
  have hfinish := Pass.finish_start ⟨arithmetic, message, phrase⟩ hnot
  rw [restateInOnePass, hfinish, restate_eq_ofList_replace]
  rfl

theorem restateInOnePass_of_shortLead
    {message : String} (hshort : ShortLead message) (phrase : String) :
    restateInOnePass .checked message phrase = .error (.negativeOffset 1 2) := by
  have hfinish := Pass.finish_start_of_shortLead ⟨.checked, message, phrase⟩ rfl hshort
  rw [restateInOnePass, hfinish]
  rfl

/-- A restatement in one pass keeps to valid offsets, with one exception.  Wherever it computes the
offset of an occurrence, this lies in front of the message only at the first token of a message
with a short lead, which no accepted message has.  Checked arithmetic stops there; otherwise a pass
goes on to the restatement of the message.  Every occurrence on the way is cut out at character
boundaries, behind what has been copied, and all of its tokens are there. -/
theorem restateInOnePass_offsets (arithmetic : Arithmetic) (message phrase : String) :
    let pass : Pass := ⟨arithmetic, message, phrase⟩
    (∀ progress, pass.Visits progress → ∀ lead,
        TakesOffset (tokenize message) progress.index lead →
          (lead.stop < 2 ↔ progress.index = 0 ∧ ShortLead message)) ∧
      (ShortLead message ↔ ∃ progress lead, pass.Visits progress ∧
        TakesOffset (tokenize message) progress.index lead ∧ lead.stop < 2) ∧
      (∀ violation, Violation.parse message = .ok violation → ¬ ShortLead message) ∧
      (∀ fault, restateInOnePass arithmetic message phrase = .error fault ↔
        (arithmetic = .checked ∧ ShortLead message) ∧ fault = .negativeOffset 1 2) ∧
      (∀ text, restateInOnePass arithmetic message phrase = .ok text ↔
        ¬ (arithmetic = .checked ∧ ShortLead message) ∧ text = restate message phrase) ∧
      ∀ progress part, pass.Visits progress →
        occurrenceByOffset arithmetic (pass.unread progress) = .ok (some part) →
          pass.SafePart progress part := by
  intro pass
  refine ⟨fun _ _ _ htakes => htakes.stop_lt_two_iff, ?_,
    fun _ hparse => not_shortLead_of_parse hparse, ?_, ?_, ?_⟩
  · constructor
    · intro hshort
      obtain ⟨lead, htakes, hstop⟩ := hshort.exists_takesOffset
      exact ⟨Pass.start, lead, .start, htakes, by omega⟩
    · rintro ⟨progress, lead, -, htakes, hstop⟩
      exact (htakes.stop_lt_two_iff.mp hstop).2
  · intro fault
    by_cases hstops : arithmetic = .checked ∧ ShortLead message
    · obtain ⟨rfl, hshort⟩ := hstops
      rw [restateInOnePass_of_shortLead hshort]
      simp [hshort, eq_comm]
    · rw [restateInOnePass_eq_ok hstops]
      simp [hstops]
  · intro text
    by_cases hstops : arithmetic = .checked ∧ ShortLead message
    · obtain ⟨rfl, hshort⟩ := hstops
      rw [restateInOnePass_of_shortLead hshort]
      simp [hshort]
    · rw [restateInOnePass_eq_ok hstops]
      simp [hstops, eq_comm]
  · intro progress part hvisits hfound
    obtain ⟨front, pending, rest, hinv⟩ := hvisits.exists_invariant
    by_cases hfaults : pass.Faults progress
    · have hstop := hfaults.occurrenceByOffset_unread
      rw [hfound] at hstop
      contradiction
    · have hsound := Pass.occurrenceByOffset_unread hfaults
      rw [hfound] at hsound
      exact hinv.safePart (Except.ok.inj hsound).symm

/-- A message that starts with an article of one letter, and two that do not. -/
theorem restateInOnePass_around_article :
    let article := "a instance of Moon, an instance of int"
    let ending := "Titan instance of Moon"
    let accepted := "Argument 1 passed to f() must be an instance of int, string given"
    ShortLead article ∧
      restateInOnePass .checked article "X" = .error (.negativeOffset 1 2) ∧
      restateInOnePass .wrapping article "X" = .ok "a instance of Moon, X" ∧
      TakesOffset (tokenize ending) 0 ⟨0, 5⟩ ∧ ¬ ShortLead ending ∧
      Pass.SafePart ⟨.checked, ending, "X"⟩ Pass.start ⟨3, 22⟩ ∧
      restateInOnePass .checked ending "X" = .ok "TitX" ∧
      ¬ ShortLead accepted := by
  intro article ending accepted
  have hshort : ShortLead article :=
    ⟨⟨['a'], ⟨0, 1⟩, by decide +kernel, rfl⟩, ⟨"Moon".toList, ⟨14, 18⟩, by decide +kernel⟩⟩
  let violation : Violation :=
    ⟨⟨"1", by decide, List.all_eq_true.mp rfl⟩, none, "f", "int", "string"⟩
  have hparse :
      Violation.parse "Argument 1 passed to f() must be an instance of int, string given" =
        .ok violation := rfl
  have htakes : TakesOffset (tokenize ending) 0 ⟨0, 5⟩ :=
    ⟨⟨"Titan".toList, by decide +kernel⟩, ⟨"Moon".toList, ⟨18, 22⟩, by decide +kernel⟩⟩
  obtain ⟨-, -, -, hchecked, -, -⟩ := restateInOnePass_offsets .checked article "X"
  obtain ⟨-, -, -, -, hwrapping, -⟩ := restateInOnePass_offsets .wrapping article "X"
  obtain ⟨hoffset, -, -, -, htext, hsafe⟩ := restateInOnePass_offsets .checked ending "X"
  obtain ⟨-, -, haccepted, -⟩ := restateInOnePass_offsets .checked accepted "X"
  have hlong : ¬ ShortLead ending := by
    intro hlead
    have hstop := (hoffset Pass.start .start _ htakes).mpr ⟨rfl, hlead⟩
    contradiction
  refine ⟨hshort, (hchecked _).mpr ⟨⟨rfl, hshort⟩, rfl⟩,
    (hwrapping _).mpr ⟨by simp, by decide +kernel⟩, htakes, hlong,
    hsafe Pass.start ⟨3, 22⟩ .start (by decide +kernel),
    (htext _).mpr ⟨by simp [hlong], by decide +kernel⟩,
    haccepted violation hparse⟩

end Restatement

end ArgumentContract
