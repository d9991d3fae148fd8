import ArgumentContract.Proofs.Message.Recognition
import ArgumentContract.Proofs.Report.Replacement
import ArgumentContract.Report.RestatementPass

/-!
# Offsets of occurrences

A restatement in one pass computes the offset of an occurrence from a word alone, two bytes in front
of its end.  If a message starts with a word of a single byte, this lies in front of the message.
No other token ends that early, since every token in front of it has a byte at least.  Nothing comes
of such an offset: a word of one byte does not end in `an`.  Only checked arithmetic takes notice.
-/

namespace ArgumentContract

open Token Text

/-! ## Offsets of tokens -/

theorem Token.Tiles.length_le_width
    {rest : List Char} {tokens : List Token} (htiles : Tiles rest tokens) :
    tokens.length ≤ width (tokens.flatMap text) := by
  induction tokens with
  | nil => exact Nat.le_refl _
  | cons token tokens ih =>
      have hrest := ih htiles.2
      have hpos := width_pos htiles.1.text_ne_nil
      rw [List.flatMap_cons, width_append, List.length_cons]
      omega

theorem Token.Tiles.take
    {rest : List Char} {tokens : List Token} (htiles : Tiles rest tokens) (count : Nat) :
    Tiles ((tokens.drop count).flatMap text ++ rest) (tokens.take count) := by
  rw [← List.take_append_drop count tokens, tiles_append] at htiles
  exact htiles.1

theorem stop_of_getElem?_locate
    {offset index : Nat} {tokens : List Token} {located : Located}
    (hlocated : (locate offset tokens)[index]? = some located) :
    located.span.stop = offset + width ((tokens.take (index + 1)).flatMap text) := by
  induction tokens generalizing offset index with
  | nil => simp [locate] at hlocated
  | cons token tokens ih =>
      rw [locate] at hlocated
      rw [List.take_succ_cons, List.flatMap_cons, width_append]
      cases index with
      | zero =>
          rw [List.getElem?_cons_zero, Option.some.injEq] at hlocated
          subst hlocated
          simp [width]
      | succ index =>
          rw [List.getElem?_cons_succ] at hlocated
          rw [ih hlocated, Nat.add_assoc]

/-- A token of a message ends behind the bytes of all tokens up to it. -/
theorem index_lt_stop_of_getElem?_tokenize
    {message : String} {index : Nat} {located : Located}
    (hlocated : (tokenize message)[index]? = some located) :
    index < located.span.stop := by
  have hindex : index < (scan message.toList).length := by
    have hlt := (List.getElem?_eq_some_iff.mp hlocated).1
    rwa [tokenize, length_locate] at hlt
  have hwidth := ((tiles_scan message.toList).take (index + 1)).length_le_width
  rw [List.length_take] at hwidth
  rw [stop_of_getElem?_locate hlocated]
  omega

theorem width_text_le_stop
    {offset : Nat} {tokens : List Token} {located : Located}
    (hmem : located ∈ locate offset tokens) :
    width located.token.text ≤ located.span.stop := by
  induction tokens generalizing offset with
  | nil => contradiction
  | cons token tokens ih =>
      rcases List.mem_cons.mp hmem with rfl | hmem
      · exact Nat.le_add_left _ _
      · exact ih hmem

theorem stop_of_head_tokenize
    {message : String} {located : Located}
    (hlocated : (tokenize message)[0]? = some located) :
    located.span.stop = width located.token.text := by
  have hstop := stop_of_getElem?_locate hlocated
  rw [tokenize] at hlocated
  cases hscan : scan message.toList with
  | nil => simp [hscan, locate] at hlocated
  | cons token tokens =>
      rw [hscan, locate, List.getElem?_cons_zero, Option.some.injEq] at hlocated
      subst hlocated
      simp

namespace Restatement

/-! ## Offsets below zero -/

/-- The offset of an occurrence is computed at an index if the first and the last of seven tokens
are words there. -/
structure TakesOffset (tokens : List Located) (index : Nat) (lead : Span) : Prop where
  first : ∃ letters, tokens[index]? = some ⟨.word letters, lead⟩
  last : ∃ letters span, tokens[index + 6]? = some ⟨.word letters, span⟩

/-- The messages that start with a word of one byte and have a word for their seventh token. -/
structure ShortLead (message : String) : Prop where
  first : ∃ letters span,
    (tokenize message)[0]? = some ⟨.word letters, span⟩ ∧ width letters = 1
  last : ∃ letters span, (tokenize message)[6]? = some ⟨.word letters, span⟩

theorem TakesOffset.stop_lt_two_iff
    {message : String} {index : Nat} {lead : Span}
    (htakes : TakesOffset (tokenize message) index lead) :
    lead.stop < 2 ↔ index = 0 ∧ ShortLead message := by
  obtain ⟨letters, hfirst⟩ := htakes.first
  have hindex := index_lt_stop_of_getElem?_tokenize hfirst
  constructor
  · intro hstop
    obtain rfl : index = 0 := by
      dsimp only at hindex
      omega
    have hwidth := stop_of_head_tokenize hfirst
    refine ⟨rfl, ⟨letters, lead, hfirst, ?_⟩, htakes.last⟩
    dsimp only [Token.text] at hindex hwidth
    omega
  · rintro ⟨rfl, hshort⟩
    obtain ⟨others, span, hothers, hwidth⟩ := hshort.first
    rw [hfirst, Option.some.injEq, Located.mk.injEq, word.injEq] at hothers
    obtain ⟨rfl, rfl⟩ := hothers
    have hstop := stop_of_head_tokenize hfirst
    dsimp only [Token.text] at hstop
    omega

theorem ShortLead.exists_takesOffset {message : String} (hshort : ShortLead message) :
    ∃ lead, TakesOffset (tokenize message) 0 lead ∧ lead.stop = 1 := by
  obtain ⟨letters, lead, hfirst, hwidth⟩ := hshort.first
  exact ⟨lead, ⟨⟨letters, hfirst⟩, hshort.last⟩, (stop_of_head_tokenize hfirst).trans hwidth⟩

theorem not_shortLead_of_parse
    {message : String} {violation : Violation}
    (hparse : Violation.parse message = .ok violation) :
    ¬ ShortLead message := by
  rintro ⟨⟨letters, span, hfirst, hwidth⟩, -⟩
  obtain ⟨hwell, trailing, rfl⟩ := (Violation.parse_eq_ok_iff _ _).mp hparse
  obtain ⟨more, rest, hscan⟩ := hwell.scan_render_append trailing
  have htokens : scan (violation.render ++ trailing).toList =
      word "Argument".toList ::
        (violation.tokens.tail ++ word ("given".toList ++ more) :: rest) := hscan
  rw [tokenize, htokens, locate, List.getElem?_cons_zero, Option.some.injEq,
    Located.mk.injEq, word.injEq] at hfirst
  rw [← hfirst.1] at hwidth
  contradiction

/-! ## Looking for an occurrence -/

theorem Arithmetic.minus_of_le (arithmetic : Arithmetic) {stop count : Nat} (hle : count ≤ stop) :
    arithmetic.minus stop count = .ok (stop - count) :=
  if_pos hle

theorem TakesOffset.exists_eq
    {tokens : List Located} {lead : Span} (htakes : TakesOffset tokens 0 lead) :
    ∃ first second third fourth fifth sixth name typeSpan rest,
      tokens = ⟨.word first, lead⟩ :: second :: third :: fourth :: fifth :: sixth ::
        ⟨.word name, typeSpan⟩ :: rest := by
  obtain ⟨⟨first, hfirst⟩, ⟨name, typeSpan, hlast⟩⟩ := htakes
  match tokens with
  | [] | [_] | [_, _] | [_, _, _] | [_, _, _, _] | [_, _, _, _, _] | [_, _, _, _, _, _] =>
      simp at hlast
  | _ :: second :: third :: fourth :: fifth :: sixth :: _ :: rest =>
      obtain rfl := Option.some.inj hfirst
      obtain rfl := Option.some.inj hlast
      exact ⟨first, second, third, fourth, fifth, sixth, name, typeSpan, rest, rfl⟩

section

variable {first name : List Char} {leadSpan typeSpan : Span}
  {second third fourth fifth sixth : Located} {rest : List Located}

/-- Between words at both ends, the tokens of an occurrence are known. -/
theorem occurrence?_of_ends :
    occurrence? (⟨.word first, leadSpan⟩ :: second :: third :: fourth :: fifth :: sixth ::
        ⟨.word name, typeSpan⟩ :: rest) =
      if "an".toList <:+ first ∧
          [second, third, fourth, fifth, sixth].map Located.token = middle then
        some ⟨leadSpan.stop - 2, typeSpan.stop⟩
      else none := by
  obtain ⟨secondToken, secondSpan⟩ := second
  obtain ⟨thirdToken, thirdSpan⟩ := third
  obtain ⟨fourthToken, fourthSpan⟩ := fourth
  obtain ⟨fifthToken, fifthSpan⟩ := fifth
  obtain ⟨sixthToken, sixthSpan⟩ := sixth
  split
  next h =>
    obtain ⟨hlead, hmiddle⟩ := h
    simp only [List.map_cons, List.map_nil, middle, List.cons.injEq, and_true] at hmiddle
    obtain ⟨rfl, rfl, rfl, rfl, rfl⟩ := hmiddle
    exact if_pos ⟨hlead, rfl, rfl⟩
  next hnot =>
    rw [Option.eq_none_iff_forall_ne_some]
    intro part hpart
    obtain ⟨stem, letters, more, htokens⟩ := map_token_of_occurrence hpart
    apply hnot
    simp only [occurrenceTokens, List.map_cons, List.cons_append, List.cons.injEq] at htokens
    obtain ⟨hfirst, rfl, rfl, rfl, rfl, rfl, -⟩ := htokens
    rw [word.inj hfirst]
    exact ⟨List.suffix_append stem _, rfl⟩

end

theorem occurrence?_of_not_takesOffset
    {tokens : List Located} (hnot : ∀ lead, ¬ TakesOffset tokens 0 lead) :
    occurrence? tokens = none := by
  unfold occurrence?
  split
  next => exact absurd ⟨⟨_, rfl⟩, ⟨_, _, rfl⟩⟩ (hnot _)
  next => rfl

theorem occurrenceByOffset_of_not_takesOffset
    {tokens : List Located} (hnot : ∀ lead, ¬ TakesOffset tokens 0 lead)
    (arithmetic : Arithmetic) :
    occurrenceByOffset arithmetic tokens = .ok none := by
  unfold occurrenceByOffset
  split
  next => exact absurd ⟨⟨_, rfl⟩, ⟨_, _, rfl⟩⟩ (hnot _)
  next => rfl

/-- Away from the start of a message an occurrence is found as it is without offsets. -/
theorem occurrenceByOffset_eq_ok
    {tokens : List Located} (hstop : ∀ lead, TakesOffset tokens 0 lead → 2 ≤ lead.stop)
    (arithmetic : Arithmetic) :
    occurrenceByOffset arithmetic tokens = .ok (occurrence? tokens) := by
  by_cases htakes : ∃ lead, TakesOffset tokens 0 lead
  · obtain ⟨lead, htakes⟩ := htakes
    have hminus : arithmetic.minus lead.stop (width "an".toList) = .ok (lead.stop - 2) :=
      arithmetic.minus_of_le (hstop lead htakes)
    obtain ⟨first, second, third, fourth, fifth, sixth, name, typeSpan, rest, rfl⟩ :=
      htakes.exists_eq
    rw [occurrence?_of_ends]
    simp only [occurrenceByOffset, hminus, bind, Except.bind]
    rfl
  · have hnot := not_exists.mp htakes
    rw [occurrenceByOffset_of_not_takesOffset hnot, occurrence?_of_not_takesOffset hnot]

/-- At a word of less than two bytes there is no occurrence, but its offset is computed. -/
theorem occurrenceByOffset_of_stop_lt_two
    {tokens : List Located} {lead : Span} (htakes : TakesOffset tokens 0 lead)
    (hstop : lead.stop < 2) :
    occurrenceByOffset .checked tokens = .error (.negativeOffset lead.stop 2) := by
  have hminus : Arithmetic.checked.minus lead.stop (width "an".toList) =
      .error (.negativeOffset lead.stop 2) :=
    if_neg (Nat.not_le.mpr hstop)
  obtain ⟨first, second, third, fourth, fifth, sixth, name, typeSpan, rest, rfl⟩ :=
    htakes.exists_eq
  simp only [occurrenceByOffset, hminus, bind, Except.bind]

theorem occurrenceByOffset_wrapping
    {tokens : List Located}
    (hwidth : ∀ letters lead, tokens[0]? = some ⟨.word letters, lead⟩ → width letters ≤ lead.stop) :
    occurrenceByOffset .wrapping tokens = .ok (occurrence? tokens) := by
  by_cases hstop : ∀ lead, TakesOffset tokens 0 lead → 2 ≤ lead.stop
  · exact occurrenceByOffset_eq_ok hstop .wrapping
  · simp only [not_forall, Nat.not_le] at hstop
    obtain ⟨lead, htakes, hstop⟩ := hstop
    obtain ⟨first, second, third, fourth, fifth, sixth, name, typeSpan, rest, rfl⟩ :=
      htakes.exists_eq
    have hminus : Arithmetic.wrapping.minus lead.stop (width "an".toList) =
        .ok (0x10000000000000000 + lead.stop - 2) :=
      if_neg (Nat.not_le.mpr hstop)
    have hshort : ¬ "an".toList <:+ first := by
      rintro ⟨stem, rfl⟩
      have hfirst := hwidth _ lead rfl
      rw [width_append] at hfirst
      have han : width "an".toList = 2 := rfl
      omega
    rw [occurrence?_of_ends]
    simp only [occurrenceByOffset, hminus, bind, Except.bind, hshort, false_and, if_false]
    rfl

end Restatement

end ArgumentContract
