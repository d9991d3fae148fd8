import ArgumentContract.Proofs.Message.Tiling
import ArgumentContract.Report.Restatement

/-!
# Stating a contract is a replacement of text

Occurrences are found on tokens and cut out by byte offsets.  The text that results can be told
without either: go through the message from the left, put the phrase in place of every
`an instance of` that a word follows, together with that word, and copy every other character.

A word of the message is copied as a whole unless it ends in `an` and the text after it goes on
with ` instance of ` and a word.  These are also the words at which the tokens show an occurrence.
-/

namespace ArgumentContract.Restatement

open Token Text

/-- The text in front of the type name of an occurrence. -/
def lead : List Char := "an instance of ".toList

/-- Whether an occurrence begins where a text begins. -/
def Begins (text : List Char) : Prop :=
  lead <+: text ∧ startsWord (text.drop lead.length) = true

instance (text : List Char) : Decidable (Begins text) :=
  inferInstanceAs (Decidable (_ ∧ _))

/-- What follows an occurrence at the start of a text.  Its type name is as long as possible. -/
def afterOccurrence (text : List Char) : List Char :=
  (text.drop lead.length).dropWhile isWordChar

theorem length_afterOccurrence_lt (c : Char) (rest : List Char) :
    (afterOccurrence (c :: rest)).length < (c :: rest).length := by
  have hdropWhile := (List.dropWhile_sublist isWordChar
    (l := (c :: rest).drop lead.length)).length_le
  have hdrop : ((c :: rest).drop lead.length).length = (c :: rest).length - 15 :=
    List.length_drop
  rw [afterOccurrence]
  rw [List.length_cons] at hdrop ⊢
  omega

/-- Goes through a text from the left and puts the phrase in place of every occurrence. -/
def replace (phrase : List Char) : List Char → List Char
  | [] => []
  | c :: rest =>
      if Begins (c :: rest) then
        phrase ++ replace phrase (afterOccurrence (c :: rest))
      else c :: replace phrase rest
termination_by text => text.length
decreasing_by
  · exact length_afterOccurrence_lt c rest
  · exact Nat.lt_succ_self rest.length

variable {phrase : List Char}

@[simp] theorem replace_nil : replace phrase [] = [] := by
  rw [replace]

/-! ## Where occurrences begin -/

theorem begins_iff {text : List Char} :
    Begins text ↔
      ∃ name rest, text = lead ++ name ++ rest ∧ IsName name ∧ startsWord rest = false := by
  constructor
  · intro h
    obtain ⟨⟨after, rfl⟩, hstarts⟩ := h
    rw [List.drop_left] at hstarts
    obtain ⟨name, rest, rfl, hname, hrest⟩ := exists_name_of_startsWord hstarts
    exact ⟨name, rest, (List.append_assoc ..).symm, hname, hrest⟩
  · intro h
    obtain ⟨name, rest, rfl, hname, -⟩ := h
    refine ⟨⟨name ++ rest, (List.append_assoc ..).symm⟩, ?_⟩
    rw [List.append_assoc, List.drop_left]
    exact hname.startsWord_append rest

theorem not_begins_of_not_startsWord
    {text : List Char} (hstarts : startsWord text = false) :
    ¬ Begins text := by
  intro h
  obtain ⟨⟨after, rfl⟩, -⟩ := h
  have hlead : startsWord (lead ++ after) = true := rfl
  rw [hlead] at hstarts
  contradiction

theorem lead_append (after : List Char) :
    lead ++ after = 'a' :: 'n' :: ' ' :: ("instance of ".toList ++ after) := rfl

/-- In a longest run of word characters an occurrence can only begin with the last two. -/
theorem eq_an_of_begins
    {letters rest : List Char} (hname : IsName letters)
    (hrest : startsWord rest = false) (hbegins : Begins (letters ++ rest)) :
    letters = "an".toList := by
  obtain ⟨hne, hletters⟩ := hname
  obtain ⟨⟨after, hlead⟩, -⟩ := hbegins
  rw [lead_append] at hlead
  cases letters with
  | nil => contradiction
  | cons a letters =>
      rw [List.cons_append, List.cons.injEq] at hlead
      obtain ⟨rfl, hlead⟩ := hlead
      cases letters with
      | nil =>
          rw [List.nil_append] at hlead
          rw [← hlead] at hrest
          contradiction
      | cons n letters =>
          rw [List.cons_append, List.cons.injEq] at hlead
          obtain ⟨rfl, hlead⟩ := hlead
          cases letters with
          | nil => rfl
          | cons c letters =>
              rw [List.cons_append, List.cons.injEq] at hlead
              have hspace := hletters c (by simp)
              rw [← hlead.1] at hspace
              contradiction

/-! ## What is copied and what is replaced -/

theorem replace_append_of_not_begins
    {kept rest : List Char}
    (hnot : ∀ suffix, suffix <:+ kept → suffix ≠ [] → ¬ Begins (suffix ++ rest)) :
    replace phrase (kept ++ rest) = kept ++ replace phrase rest := by
  induction kept with
  | nil => rfl
  | cons c kept ih =>
      have hhead : ¬ Begins (c :: (kept ++ rest)) :=
        hnot (c :: kept) List.suffix_rfl (List.cons_ne_nil c kept)
      rw [List.cons_append, replace, if_neg hhead, ih]
      · rfl
      · intro suffix hsuffix
        exact hnot suffix (hsuffix.trans (List.suffix_cons c kept))

theorem replace_of_begins {text : List Char} (hbegins : Begins text) :
    replace phrase text = phrase ++ replace phrase (afterOccurrence text) := by
  cases text with
  | nil => exact absurd hbegins (not_begins_of_not_startsWord rfl)
  | cons c rest => rw [replace, if_pos hbegins]

theorem afterOccurrence_append
    {name rest : List Char} (hname : IsName name) (hrest : startsWord rest = false) :
    afterOccurrence (lead ++ name ++ rest) = rest := by
  rw [afterOccurrence, List.append_assoc, List.drop_left,
    List.dropWhile_append_of_pos hname.2]
  cases rest with
  | nil => rfl
  | cons c rest =>
      rw [startsWord_cons] at hrest
      rw [List.dropWhile_cons_of_neg (by simp [hrest])]

theorem replace_occurrence_append
    {name rest : List Char} (hname : IsName name) (hrest : startsWord rest = false) :
    replace phrase (lead ++ name ++ rest) = phrase ++ replace phrase rest := by
  rw [replace_of_begins (begins_iff.mpr ⟨name, rest, rfl, hname, hrest⟩),
    afterOccurrence_append hname hrest]

theorem replace_mark_append
    {mark rest : List Char} (hmark : ∀ c ∈ mark, isWordChar c = false) :
    replace phrase (mark ++ rest) = mark ++ replace phrase rest := by
  apply replace_append_of_not_begins
  intro suffix hsuffix hne
  cases suffix with
  | nil => contradiction
  | cons c suffix =>
      apply not_begins_of_not_startsWord
      exact hmark c (hsuffix.subset (List.mem_cons_self ..))

theorem replace_name_append
    {letters rest : List Char} (hname : IsName letters) (hrest : startsWord rest = false)
    (hnot : "an".toList <:+ letters → ¬ Begins ("an".toList ++ rest)) :
    replace phrase (letters ++ rest) = letters ++ replace phrase rest := by
  apply replace_append_of_not_begins
  intro suffix hsuffix hne hbegins
  have hsuffixName : IsName suffix :=
    ⟨hne, fun c hmem => hname.2 c (hsuffix.subset hmem)⟩
  have han := eq_an_of_begins hsuffixName hrest hbegins
  rw [han] at hsuffix hbegins
  exact hnot hsuffix hbegins

/-- Whether an occurrence begins in a token, which is then a word and ends in `an`. -/
def BeginsIn (token : Token) (rest : List Char) : Prop :=
  ∃ stem, token = word (stem ++ "an".toList) ∧ Begins ("an".toList ++ rest)

theorem replace_text_append
    {token : Token} {rest : List Char} (hstands : token.StandsBefore rest)
    (hnot : ¬ BeginsIn token rest) :
    replace phrase (token.text ++ rest) = token.text ++ replace phrase rest := by
  cases token with
  | word letters =>
      apply replace_name_append hstands.1 hstands.2
      intro hsuffix hbegins
      obtain ⟨stem, rfl⟩ := hsuffix
      exact hnot ⟨stem, rfl, hbegins⟩
  | other c =>
      apply replace_mark_append
      intro d hmem
      rw [List.mem_singleton.mp hmem]
      exact hstands.1
  | space | scopeMark | parens | comma =>
      exact replace_mark_append (by simp [Token.text, isWordChar])

theorem replace_stem_append
    {stem name rest : List Char} (hstem : IsName (stem ++ "an".toList))
    (hname : IsName name) (hrest : startsWord rest = false) :
    replace phrase (stem ++ (lead ++ name ++ rest)) =
      stem ++ (phrase ++ replace phrase rest) := by
  rw [replace_append_of_not_begins, replace_occurrence_append hname hrest]
  intro suffix hsuffix hne hbegins
  have hletters : IsName (suffix ++ "an".toList) := by
    refine ⟨List.append_ne_nil_of_left_ne_nil hne _, fun c hmem => hstem.2 c ?_⟩
    exact ((List.suffix_append_inj_of_length_eq rfl).mpr ⟨hsuffix, rfl⟩).subset hmem
  -- The end of the stem and the `an` after it are a run of word characters of more than two.
  have hsplit :
      suffix ++ (lead ++ name ++ rest) =
        (suffix ++ "an".toList) ++ (" instance of ".toList ++ name ++ rest) := by
    rw [List.append_assoc, List.append_assoc]
    rfl
  rw [hsplit] at hbegins
  have han := eq_an_of_begins hletters rfl hbegins
  exact hne (List.append_left_eq_self.mp han)

/-! ## Occurrences on tokens -/

def occurrenceTokens (stem name : List Char) : List Token :=
  [word (stem ++ "an".toList), space, word "instance".toList, space, word "of".toList, space,
    word name]

theorem flatMap_text_occurrenceTokens (stem name : List Char) :
    (occurrenceTokens stem name).flatMap Token.text = stem ++ lead ++ name := by
  simp only [occurrenceTokens, List.flatMap_cons, List.flatMap_nil, Token.text,
    List.append_assoc]
  rw [List.append_nil]
  rfl

theorem tiles_occurrenceTokens
    {stem name rest : List Char} (hstem : IsName (stem ++ "an".toList))
    (hname : IsName name) (hrest : startsWord rest = false) :
    Tiles rest (occurrenceTokens stem name) :=
  ⟨⟨hstem, rfl⟩, trivial, ⟨by decide, rfl⟩, trivial, ⟨by decide, rfl⟩, trivial,
    ⟨hname, hrest⟩, trivial⟩

theorem scan_stem_append
    {stem name rest : List Char} (hstem : IsName (stem ++ "an".toList))
    (hname : IsName name) (hrest : startsWord rest = false) :
    scan (stem ++ (lead ++ name ++ rest)) = occurrenceTokens stem name ++ scan rest := by
  rw [← (tiles_occurrenceTokens hstem hname hrest).scan_append,
    flatMap_text_occurrenceTokens]
  simp only [List.append_assoc]

theorem map_token_of_occurrence
    {tokens : List Located} {span : Span} (hoccurrence : occurrence? tokens = some span) :
    ∃ stem name rest,
      tokens.map Located.token = occurrenceTokens stem name ++ rest := by
  unfold occurrence? at hoccurrence
  split at hoccurrence
  next lead _ _ second _ _ third _ _ name _ rest =>
    split at hoccurrence
    next hwords =>
      obtain ⟨⟨stem, rfl⟩, rfl, rfl⟩ := hwords
      exact ⟨stem, name, rest.map Located.token, rfl⟩
    next => contradiction
  next => contradiction

theorem occurrence?_locate
    (offset : Nat) (stem name : List Char) (rest : List Located) :
    occurrence? (locate offset (occurrenceTokens stem name) ++ rest) =
      some ⟨offset + width stem, offset + width (stem ++ lead ++ name)⟩ := by
  have hwidth :
      offset + width (stem ++ "an".toList) - width "an".toList = offset + width stem := by
    rw [width_append]
    omega
  have hstop :
      offset + width (stem ++ lead ++ name) =
        offset + width (stem ++ "an".toList) + 1 + width "instance".toList + 1
          + width "of".toList + 1 + width name := by
    have hlead : width lead =
        width "an".toList + 1 + width "instance".toList + 1 + width "of".toList + 1 := rfl
    rw [width_append, width_append, width_append, hlead]
    omega
  rw [hstop, ← hwidth]
  simp only [occurrenceTokens, locate, List.cons_append, List.nil_append]
  rw [occurrence?, if_pos ⟨List.suffix_append stem "an".toList, rfl, rfl⟩]
  rfl

theorem attempts_eq_drop (skipped : Nat) (tokens : List Located) :
    attempts skipped tokens = attempts 0 (tokens.drop skipped) := by
  induction tokens generalizing skipped with
  | nil => simp [attempts]
  | cons token rest ih =>
      cases skipped with
      | zero => rfl
      | succ skipped =>
          rw [attempts, ih, List.drop_succ_cons]

theorem occurrences_of_none
    {token : Located} {rest : List Located} (hnone : occurrence? (token :: rest) = none) :
    occurrences (token :: rest) = occurrences rest := by
  simp [occurrences, attempts, hnone]

theorem occurrences_of_some
    {tokens rest : List Located} {span : Span}
    (hlength : tokens.length = occurrenceLength)
    (hsome : occurrence? (tokens ++ rest) = some span) :
    occurrences (tokens ++ rest) = span :: occurrences rest := by
  cases tokens with
  | nil => contradiction
  | cons token others =>
      have hothers : others.length = occurrenceLength - 1 := by
        rw [← hlength]
        rfl
      rw [List.cons_append] at hsome ⊢
      simp only [occurrences, attempts, hsome, Option.isSome_some, if_true]
      rw [List.filterMap_cons_some hsome, attempts_eq_drop, ← hothers, List.drop_left]

theorem beginsIn_of_occurrence
    {token : Token} {rest : List Char} {offset : Nat} {span : Span}
    (hoccurrence : occurrence? (locate offset (token :: scan rest)) = some span) :
    BeginsIn token rest := by
  obtain ⟨stem, name, tail, htokens⟩ := map_token_of_occurrence hoccurrence
  rw [map_token_locate] at htokens
  obtain ⟨rfl, hscan⟩ := List.cons.inj htokens
  have hname : IsName name := by
    apply (tiles_scan rest).named
    rw [hscan]
    simp
  have htext := congrArg (List.flatMap Token.text) htokens
  rw [List.flatMap_cons, flatMap_text_scan, List.flatMap_append,
    flatMap_text_occurrenceTokens, Token.text] at htext
  simp only [List.append_assoc, List.append_cancel_left_eq] at htext
  refine ⟨stem, rfl, ?_⟩
  rw [htext]
  refine ⟨List.prefix_append lead _, ?_⟩
  rw [List.drop_left]
  exact hname.startsWord_append _

theorem BeginsIn.exists_occurrence
    {token : Token} {rest : List Char} (hstands : token.StandsBefore rest)
    (hbegins : BeginsIn token rest) :
    ∃ stem name more,
      token.text ++ rest = stem ++ (lead ++ name ++ more) ∧
        IsName (stem ++ "an".toList) ∧ IsName name ∧ startsWord more = false := by
  obtain ⟨stem, rfl, hbegins⟩ := hbegins
  obtain ⟨name, more, hrest, hname, hmore⟩ := begins_iff.mp hbegins
  refine ⟨stem, name, more, ?_, hstands.1, hname, hmore⟩
  rw [← hrest, Token.text, List.append_assoc]

/-- A text that is left begins with a token to pass over, or with an occurrence and what precedes
it in its first word. -/
theorem exists_next_part {rest : List Char} (hne : rest ≠ []) :
    (∃ token after, rest = token.text ++ after ∧ token.StandsBefore after ∧
        ¬ BeginsIn token after) ∨
      ∃ stem name after, rest = stem ++ (lead ++ name ++ after) ∧
        IsName (stem ++ "an".toList) ∧ IsName name ∧ startsWord after = false := by
  cases hscan : scan rest with
  | nil => exact absurd (scan_eq_nil_iff.mp hscan) hne
  | cons token tokens =>
      obtain ⟨after, htext, hstands, -⟩ := exists_rest_of_scan_eq_cons hscan
      by_cases hbegins : BeginsIn token after
      · rw [htext]
        exact .inr (hbegins.exists_occurrence hstands)
      · exact .inl ⟨token, after, htext, hstands, hbegins⟩

/-! ## Splicing replaces -/

/-- What the loop of a restatement achieves on the text that is still to be scanned: `pending` is
the text between the end of the last occurrence and the place that the scan has reached. -/
def SpliceInvariant (phrase text : List Char) : Prop :=
  ∀ (pending : List Char) (copied offset : Nat), offset = copied + width pending →
    splice phrase copied (pending ++ text) (occurrences (locate offset (scan text))) =
      pending ++ replace phrase text

theorem spliceInvariant_nil : SpliceInvariant phrase [] := by
  intro pending copied offset _
  rw [replace_nil]
  rfl

theorem SpliceInvariant.token_append
    {token : Token} {rest : List Char} (hrest : SpliceInvariant phrase rest)
    (hstands : token.StandsBefore rest) (hnot : ¬ BeginsIn token rest) :
    SpliceInvariant phrase (token.text ++ rest) := by
  intro pending copied offset hoffset
  have hnone : occurrence? (locate offset (token :: scan rest)) = none := by
    rw [Option.eq_none_iff_forall_ne_some]
    intro span hsome
    exact hnot (beginsIn_of_occurrence hsome)
  have hnext :
      offset + width token.text = copied + width (pending ++ token.text) := by
    rw [width_append, hoffset, Nat.add_assoc]
  rw [scan_text_append hstands, locate, occurrences_of_none hnone,
    replace_text_append hstands hnot, ← List.append_assoc, ← List.append_assoc]
  exact hrest (pending ++ token.text) copied (offset + width token.text) hnext

theorem SpliceInvariant.occurrence_append
    {stem name rest : List Char} (hrest : SpliceInvariant phrase rest)
    (hstem : IsName (stem ++ "an".toList)) (hname : IsName name)
    (hafter : startsWord rest = false) :
    SpliceInvariant phrase (stem ++ (lead ++ name ++ rest)) := by
  intro pending copied offset hoffset
  have hscan := scan_stem_append hstem hname hafter
  have hstart : offset + width stem - copied = width (pending ++ stem) := by
    rw [width_append]
    omega
  have hstop :
      offset + width (stem ++ lead ++ name) - copied =
        width (pending ++ (stem ++ lead ++ name)) := by
    rw [width_append pending]
    omega
  have htake :
      takeBytes (width (pending ++ stem)) (pending ++ (stem ++ (lead ++ name ++ rest))) =
        pending ++ stem := by
    rw [← List.append_assoc]
    exact takeBytes_width _ _
  have hdrop :
      dropBytes (width (pending ++ (stem ++ lead ++ name)))
          (pending ++ (stem ++ (lead ++ name ++ rest))) = rest := by
    have hsplit :
        pending ++ (stem ++ (lead ++ name ++ rest)) =
          (pending ++ (stem ++ lead ++ name)) ++ rest := by
      simp only [List.append_assoc]
    rw [hsplit]
    exact dropBytes_width _ _
  have hspliced :=
    hrest [] (offset + width (stem ++ lead ++ name)) (offset + width (stem ++ lead ++ name)) rfl
  rw [List.nil_append, List.nil_append] at hspliced
  rw [hscan, locate_append, flatMap_text_occurrenceTokens,
    occurrences_of_some rfl (occurrence?_locate offset stem name _),
    replace_stem_append hstem hname hafter, splice, hstart, hstop, htake, hdrop, hspliced]
  simp only [List.append_assoc]

theorem spliceInvariant (phrase text : List Char) : SpliceInvariant phrase text := by
  -- An occurrence takes seven tokens at once, so the induction is on the length of the text.
  induction hlength : text.length using Nat.strong_induction_on generalizing text with
  | h length ih =>
      subst hlength
      by_cases hne : text = []
      · subst hne
        exact spliceInvariant_nil
      · rcases exists_next_part hne with
          ⟨token, rest, rfl, hstands, hnot⟩ | ⟨stem, name, more, rfl, hstem, hname, hmore⟩
        · refine SpliceInvariant.token_append ?_ hstands hnot
          apply ih rest.length _ rest rfl
          have hpos := List.length_pos_of_ne_nil hstands.text_ne_nil
          rw [List.length_append]
          omega
        · refine SpliceInvariant.occurrence_append ?_ hstem hname hmore
          apply ih more.length _ more rfl
          simp [lead_append]
          omega

theorem restate_eq_ofList_replace (message phrase : String) :
    restate message phrase = String.ofList (replace phrase.toList message.toList) := by
  have hspliced := spliceInvariant phrase.toList message.toList [] 0 0 rfl
  rw [List.nil_append, List.nil_append] at hspliced
  rw [restate, tokenize, hspliced]

/-! ## Leftmost occurrences -/

/-- A message falls into occurrences and single characters outside of them. -/
inductive Piece
  | kept (c : Char)
  | occurrence (name : List Char)
deriving DecidableEq, Repr

namespace Piece

def source : Piece → List Char
  | kept c => [c]
  | occurrence name => lead ++ name

def stated (phrase : List Char) : Piece → List Char
  | kept c => [c]
  | occurrence _ => phrase

end Piece

/-- From left to right, no occurrence is missed and every type name is taken as a whole. -/
def Leftmost : List Piece → Prop
  | [] => True
  | .kept c :: pieces =>
      ¬ Begins (c :: pieces.flatMap Piece.source) ∧ Leftmost pieces
  | .occurrence name :: pieces =>
      IsName name ∧ startsWord (pieces.flatMap Piece.source) = false ∧ Leftmost pieces

theorem exists_leftmost (text : List Char) :
    ∃ pieces, Leftmost pieces ∧ pieces.flatMap Piece.source = text := by
  fun_induction replace [] text with
  | case1 => exact ⟨[], trivial, rfl⟩
  | case2 c rest hbegins ih =>
      obtain ⟨pieces, hleftmost, hsource⟩ := ih
      obtain ⟨name, more, htext, hname, hmore⟩ := begins_iff.mp hbegins
      rw [htext, afterOccurrence_append hname hmore] at hsource
      refine ⟨.occurrence name :: pieces, ⟨hname, ?_, hleftmost⟩, ?_⟩
      · rw [hsource]
        exact hmore
      · rw [List.flatMap_cons, hsource, htext]
        rfl
  | case3 c rest hbegins ih =>
      obtain ⟨pieces, hleftmost, hsource⟩ := ih
      refine ⟨.kept c :: pieces, ⟨?_, hleftmost⟩, ?_⟩
      · rw [hsource]
        exact hbegins
      · rw [List.flatMap_cons, hsource]
        rfl

theorem Leftmost.replace_flatMap_source
    {pieces : List Piece} (hleftmost : Leftmost pieces) :
    replace phrase (pieces.flatMap Piece.source) = pieces.flatMap (Piece.stated phrase) := by
  induction pieces with
  | nil => exact replace_nil
  | cons piece pieces ih =>
      rw [List.flatMap_cons, List.flatMap_cons]
      cases piece with
      | kept c =>
          obtain ⟨hbegins, hleftmost⟩ := hleftmost
          rw [← ih hleftmost, Piece.source, List.singleton_append, replace, if_neg hbegins]
          rfl
      | occurrence name =>
          obtain ⟨hname, hafter, hleftmost⟩ := hleftmost
          rw [← ih hleftmost, Piece.source, replace_occurrence_append hname hafter]
          rfl

theorem name_eq_of_append_eq
    {first second firstRest secondRest : List Char}
    (hfirst : IsName first) (hsecond : IsName second)
    (hfirstRest : startsWord firstRest = false) (hsecondRest : startsWord secondRest = false)
    (htext : first ++ firstRest = second ++ secondRest) :
    first = second ∧ firstRest = secondRest := by
  have htokens : scan (first ++ firstRest) = scan (second ++ secondRest) := by rw [htext]
  rw [scan_name_append hfirst hfirstRest, scan_name_append hsecond hsecondRest] at htokens
  have hname : first = second := word.inj (List.cons.inj htokens).1
  subst hname
  exact ⟨rfl, List.append_cancel_left htext⟩

theorem Piece.flatMap_source_cons_ne_nil (piece : Piece) (pieces : List Piece) :
    (piece :: pieces).flatMap Piece.source ≠ [] := by
  rw [List.flatMap_cons]
  cases piece with
  | kept c => exact List.cons_ne_nil c _
  | occurrence name =>
      rw [Piece.source, List.append_assoc, lead_append]
      exact List.cons_ne_nil _ _

theorem Leftmost.begins_iff
    {piece : Piece} {pieces : List Piece} (hleftmost : Leftmost (piece :: pieces)) :
    Begins ((piece :: pieces).flatMap Piece.source) ↔ ∃ name, piece = .occurrence name := by
  rw [List.flatMap_cons]
  cases piece with
  | kept c =>
      refine iff_of_false hleftmost.1 ?_
      intro h
      obtain ⟨name, hname⟩ := h
      contradiction
  | occurrence name =>
      obtain ⟨hname, hafter, -⟩ := hleftmost
      exact iff_of_true (Restatement.begins_iff.mpr ⟨name, _, rfl, hname, hafter⟩) ⟨name, rfl⟩

/-- A message falls into occurrences and kept characters in one way only. -/
theorem Leftmost.eq_of_source_eq
    {first second : List Piece} (hfirst : Leftmost first) (hsecond : Leftmost second)
    (hsource : first.flatMap Piece.source = second.flatMap Piece.source) :
    first = second := by
  induction first generalizing second with
  | nil =>
      cases second with
      | nil => rfl
      | cons other second => exact absurd hsource.symm (other.flatMap_source_cons_ne_nil second)
  | cons piece first ih =>
      cases second with
      | nil => exact absurd hsource (piece.flatMap_source_cons_ne_nil first)
      | cons other second =>
          -- The text alone tells an occurrence from a kept character.
          have hkind :
              (∃ name, piece = .occurrence name) ↔ ∃ name, other = .occurrence name := by
            rw [← hfirst.begins_iff, ← hsecond.begins_iff, hsource]
          rw [List.flatMap_cons, List.flatMap_cons] at hsource
          cases piece with
          | kept c =>
              cases other with
              | occurrence name =>
                  obtain ⟨found, hfound⟩ := hkind.mpr ⟨name, rfl⟩
                  contradiction
              | kept d =>
                  obtain ⟨rfl, hrest⟩ := List.cons.inj hsource
                  rw [ih hfirst.2 hsecond.2 hrest]
          | occurrence name =>
              cases other with
              | kept d =>
                  obtain ⟨found, hfound⟩ := hkind.mp ⟨name, rfl⟩
                  contradiction
              | occurrence found =>
                  rw [Piece.source, Piece.source, List.append_assoc, List.append_assoc,
                    List.append_cancel_left_eq] at hsource
                  obtain ⟨rfl, hrest⟩ := name_eq_of_append_eq hfirst.1 hsecond.1
                    hfirst.2.1 hsecond.2.1 hsource
                  rw [ih hfirst.2.2 hsecond.2.2 hrest]

/-- A restatement replaces text.  The message falls into occurrences and kept characters in one
way only; each occurrence becomes the phrase, and all else is copied in order. -/
theorem restate_eq_replace (message : String) :
    (∀ phrase : String,
        restate message phrase = String.ofList (replace phrase.toList message.toList)) ∧
      ∃ pieces : List Piece,
        (∀ others : List Piece,
          Leftmost others ∧ others.flatMap Piece.source = message.toList ↔
            others = pieces) ∧
          ∀ phrase : String,
            restate message phrase =
              String.ofList (pieces.flatMap (Piece.stated phrase.toList)) := by
  obtain ⟨pieces, hleftmost, hsource⟩ := exists_leftmost message.toList
  refine ⟨restate_eq_ofList_replace message, pieces, ?_, ?_⟩
  · intro others
    constructor
    · intro h
      exact h.1.eq_of_source_eq hleftmost (h.2.trans hsource.symm)
    · intro h
      subst h
      exact ⟨hleftmost, hsource⟩
  · intro phrase
    rw [restate_eq_ofList_replace, ← hsource, hleftmost.replace_flatMap_source]

example : restate "Titan instance of Moon, an instance of int" "X" = "TitX, X" := by
  decide +kernel

example : restate "an instance of an instance of int" "X" = "X instance of int" := by
  decide +kernel

end ArgumentContract.Restatement
