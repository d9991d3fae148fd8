import ArgumentContract.Contract
import ArgumentContract.Proofs.Report.Replacement
import Mathlib.Data.List.Infix

/-!
# Occurrences that a restatement leaves behind

A restatement goes through a message once.  The text that it leaves can have occurrences again, at
the seams between what was copied and what was put in: `an instance an instance of X` turns into
`an instance of the type integer`.  A phrase rules this out if it has nothing in common with an
occurrence, neither at its own end nor at its beginning.  What is left then has no occurrence, since
one that lies in copied text would have been one of the message.  The phrases of four contracts are
of this kind, and the phrases of the others are not.
-/

namespace ArgumentContract.Restatement

/-- No occurrence begins anywhere in a text. -/
def OccurrenceFree (text : List Char) : Prop :=
  ∀ suffix, suffix <:+ text → ¬ Begins suffix

theorem occurrenceFree_iff {text : List Char} :
    OccurrenceFree text ↔
      ¬ ∃ before c after, text = before ++ (lead ++ c :: after) ∧ isWordChar c = true := by
  constructor
  · intro hfree hoccurs
    obtain ⟨before, c, after, htext, hword⟩ := hoccurs
    apply hfree (lead ++ c :: after) ⟨before, htext.symm⟩
    refine ⟨List.prefix_append lead _, ?_⟩
    rw [List.drop_left]
    exact hword
  · intro hnone suffix hsuffix hbegins
    obtain ⟨before, rfl⟩ := hsuffix
    obtain ⟨name, rest, rfl, hname, -⟩ := begins_iff.mp hbegins
    cases name with
    | nil => exact hname.1 rfl
    | cons c name =>
        apply hnone
        refine ⟨before, c, name ++ rest, ?_, hname.2 c (List.mem_cons_self ..)⟩
        simp only [List.append_assoc, List.cons_append]

/-- A further restatement, with whatever phrase, finds nothing to replace. -/
theorem OccurrenceFree.replace_eq
    {text : List Char} (hfree : OccurrenceFree text) (phrase : List Char) :
    replace phrase text = text := by
  have hcopied : replace phrase (text ++ []) = text ++ replace phrase [] := by
    apply replace_append_of_not_begins
    intro suffix hsuffix _
    rw [List.append_nil]
    exact hfree suffix hsuffix
  rw [replace_nil, List.append_nil] at hcopied
  exact hcopied

/-! ## Phrases that take no part in an occurrence -/

/-- Two texts agree as far as both of them go. -/
def Agree (left right : List Char) : Prop := left <+: right ∨ right <+: left

instance (left right : List Char) : Decidable (Agree left right) :=
  inferInstanceAs (Decidable (_ ∨ _))

theorem agree_of_prefix_append
    {left right rest : List Char} (hbegins : left <+: right ++ rest) :
    Agree left right :=
  List.prefix_or_prefix_of_prefix hbegins (List.prefix_append right rest)

/-- No occurrence can begin in a phrase, and none that begins in front of it can go on into it. -/
structure Inert (phrase : List Char) : Prop where
  begins_none : ∀ suffix ∈ phrase.tails, suffix ≠ [] → ¬ Agree lead suffix
  enters_none : ∀ todo ∈ lead.tail.tails, todo ≠ [] → ¬ Agree todo phrase

instance (phrase : List Char) : Decidable (Inert phrase) :=
  decidable_of_iff
    ((∀ suffix ∈ phrase.tails, suffix ≠ [] → ¬ Agree lead suffix) ∧
      ∀ todo ∈ lead.tail.tails, todo ≠ [] → ¬ Agree todo phrase)
    ⟨fun h => ⟨h.1, h.2⟩, fun h => ⟨h.begins_none, h.enters_none⟩⟩

/-- An occurrence of which `todo` and a name are still missing goes on in a text. -/
def GoesOn (todo text : List Char) : Prop :=
  todo <+: text ∧ startsWord (text.drop todo.length) = true

theorem goesOn_cons_cons {c d : Char} {todo text : List Char} :
    GoesOn (d :: todo) (c :: text) ↔ d = c ∧ GoesOn todo text := by
  rw [GoesOn, GoesOn, List.cons_prefix_cons, List.length_cons, List.drop_succ_cons, and_assoc]

variable {phrase : List Char} {pieces : List Piece}

/-- What goes on behind a kept character of a restated message went on in the message. -/
theorem Inert.goesOn_source
    (hinert : Inert phrase) {todo : List Char} (htodo : todo <:+ lead.tail)
    (hstated : GoesOn todo (pieces.flatMap (Piece.stated phrase))) :
    GoesOn todo (pieces.flatMap Piece.source) := by
  induction pieces generalizing todo with
  | nil => exact hstated
  | cons piece pieces ih =>
      rw [List.flatMap_cons] at hstated ⊢
      cases piece with
      | kept c =>
          rw [Piece.stated, List.singleton_append] at hstated
          rw [Piece.source, List.singleton_append]
          cases todo with
          | nil => exact ⟨List.nil_prefix, hstated.2⟩
          | cons d todo =>
              rw [goesOn_cons_cons] at hstated ⊢
              have hrest : todo <:+ lead.tail := (List.suffix_cons d todo).trans htodo
              exact ⟨hstated.1, ih hrest hstated.2⟩
      | occurrence name =>
          cases todo with
          | nil => exact ⟨List.nil_prefix, rfl⟩
          | cons d todo =>
              have hagree : Agree (d :: todo) phrase := agree_of_prefix_append hstated.1
              exact absurd hagree
                (hinert.enters_none _ ((List.mem_tails _ _).mpr htodo) (List.cons_ne_nil d todo))

theorem Inert.not_begins_kept
    (hinert : Inert phrase) {c : Char}
    (hnot : ¬ Begins (c :: pieces.flatMap Piece.source)) :
    ¬ Begins (c :: pieces.flatMap (Piece.stated phrase)) := by
  intro hbegins
  have hlead : lead = 'a' :: lead.tail := rfl
  rw [Begins, hlead] at hbegins
  obtain ⟨hc, hrest⟩ := goesOn_cons_cons.mp hbegins
  apply hnot
  rw [Begins, hlead]
  exact goesOn_cons_cons.mpr ⟨hc, hinert.goesOn_source List.suffix_rfl hrest⟩

theorem Inert.not_begins_suffix
    (hinert : Inert phrase) {suffix : List Char} (hsuffix : suffix <:+ phrase)
    (hne : suffix ≠ []) (rest : List Char) :
    ¬ Begins (suffix ++ rest) := by
  intro hbegins
  exact hinert.begins_none suffix ((List.mem_tails _ _).mpr hsuffix) hne
    (agree_of_prefix_append hbegins.1)

theorem Inert.occurrenceFree_stated
    (hinert : Inert phrase) (hleftmost : Leftmost pieces) :
    OccurrenceFree (pieces.flatMap (Piece.stated phrase)) := by
  induction pieces with
  | nil =>
      intro suffix hsuffix
      rw [List.flatMap_nil, List.suffix_nil] at hsuffix
      subst hsuffix
      exact not_begins_of_not_startsWord rfl
  | cons piece pieces ih =>
      intro suffix hsuffix
      rw [List.flatMap_cons] at hsuffix
      cases piece with
      | kept c =>
          rw [Piece.stated, List.singleton_append, List.suffix_cons_iff] at hsuffix
          rcases hsuffix with rfl | hsuffix
          · exact hinert.not_begins_kept hleftmost.1
          · exact ih hleftmost.2 suffix hsuffix
      | occurrence name =>
          obtain ⟨before, hbefore⟩ := hsuffix
          rcases List.append_eq_append_iff.mp hbefore with
            ⟨inside, hphrase, rfl⟩ | ⟨skipped, -, hrest⟩
          · by_cases hinside : inside = []
            · subst hinside
              exact ih hleftmost.2.2 _ List.suffix_rfl
            · exact hinert.not_begins_suffix ⟨before, hphrase.symm⟩ hinside _
          · exact ih hleftmost.2.2 suffix ⟨skipped, hrest.symm⟩

theorem Inert.occurrenceFree_restate
    {phrase : String} (hinert : Inert phrase.toList) (message : String) :
    OccurrenceFree (restate message phrase).toList := by
  obtain ⟨pieces, hleftmost, hsource⟩ := exists_leftmost message.toList
  rw [restate_eq_ofList_replace, String.toList_ofList, ← hsource,
    hleftmost.replace_flatMap_source]
  exact hinert.occurrenceFree_stated hleftmost

/-! ## The phrases of contracts -/

theorem inert_phrase_of_mem
    {contract : Contract} (hmem : contract ∈ [.number, .scalar, .numeric, .callable]) :
    Inert contract.phrase.toList := by
  simp only [List.mem_cons, List.not_mem_nil, or_false] at hmem
  rcases hmem with rfl | rfl | rfl | rfl <;> decide

theorem exists_residue_of_not_mem
    {contract : Contract} (hmem : contract ∉ [.number, .scalar, .numeric, .callable]) :
    ∃ before c after,
      (restate "an instance an instance of X" contract.phrase).toList =
          before ++ (lead ++ c :: after) ∧
        isWordChar c = true := by
  refine ⟨[], 't', ("he type " ++ contract.name).toList, ?_⟩
  cases contract with
  | number | scalar | numeric | callable => simp at hmem
  | boolean | integer | double | string | resource | mixed => decide +kernel

/-- Stating one of four contracts leaves no occurrence in a message, whatever occurrences overlap or
follow each other in it, so that a second restatement changes nothing.  The phrases of all other
contracts can make up a new occurrence with the text around them. -/
theorem restate_leaves_no_occurrence :
    (∀ contract ∈ [Contract.number, .scalar, .numeric, .callable], ∀ message : String,
        (¬ ∃ before c after,
            (restate message contract.phrase).toList =
                before ++ ("an instance of ".toList ++ c :: after) ∧
              isWordChar c = true) ∧
          ∀ again : String,
            restate (restate message contract.phrase) again = restate message contract.phrase) ∧
      ∀ contract ∉ [Contract.number, .scalar, .numeric, .callable], ∃ message : String,
        ∃ before c after,
          (restate message contract.phrase).toList =
              before ++ ("an instance of ".toList ++ c :: after) ∧
            isWordChar c = true := by
  constructor
  · intro contract hmem message
    have hfree := (inert_phrase_of_mem hmem).occurrenceFree_restate message
    refine ⟨occurrenceFree_iff.mp hfree, fun again => ?_⟩
    rw [restate_eq_ofList_replace (restate message contract.phrase) again, hfree.replace_eq,
      String.ofList_toList]
  · intro contract hmem
    exact ⟨"an instance an instance of X", exists_residue_of_not_mem hmem⟩

/-- Occurrences that overlap and follow each other, and text that almost makes one up. -/
theorem restate_chained_leaves_no_occurrence :
    let message := "Titan instance of an instance of Moon an instance an instance of X"
    let restated := "Tita number instance of Moon an instance a number"
    (Contract.number ∈ [Contract.number, .scalar, .numeric, .callable] ∧
        Contract.integer ∉ [Contract.number, .scalar, .numeric, .callable]) ∧
      restate message Contract.number.phrase = restated ∧
      (¬ ∃ before c after,
        restated.toList = before ++ ("an instance of ".toList ++ c :: after) ∧
          isWordChar c = true) ∧
      restate restated Contract.integer.phrase = restated ∧
      ∃ message : String, ∃ before c after,
        (restate message Contract.integer.phrase).toList =
            before ++ ("an instance of ".toList ++ c :: after) ∧
          isWordChar c = true := by
  intro message restated
  have hmem : Contract.number ∈ [Contract.number, .scalar, .numeric, .callable] := by decide
  have hother : Contract.integer ∉ [Contract.number, .scalar, .numeric, .callable] := by decide
  have hrestated : restate message Contract.number.phrase = restated := by decide +kernel
  obtain ⟨hnone, hagain⟩ := restate_leaves_no_occurrence.1 Contract.number hmem message
  rw [hrestated] at hnone hagain
  exact ⟨⟨hmem, hother⟩, hrestated, hnone, hagain _,
    restate_leaves_no_occurrence.2 Contract.integer hother⟩

end ArgumentContract.Restatement
