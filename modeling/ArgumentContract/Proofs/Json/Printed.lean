import ArgumentContract.Json.Shape
import ArgumentContract.Proofs.Json.NumberLiteral
import ArgumentContract.Proofs.Json.StringLiteral
import Mathlib.Data.List.Forall2

/-!
# Printed lists and objects are read back

What stands behind a part of a printed document is the end of the text, a comma, or the mark that
closes the list or the object around it.  None of these belongs to the part, so that every reader
stops exactly where the part ends.  A list is read back if all of its elements are, and an object if
all of the values of its members are.
-/

namespace ArgumentContract.Json

/-! ## Parts of a document -/

/-- A text that can stand behind a part of a printed document. -/
def Follows (rest : List Char) : Prop := ∀ c ∈ rest.head?, c = ',' ∨ c = ']' ∨ c = '\x7d'

/-- A text that begins with a part, and neither with a blank nor with a mark behind a part. -/
def StartsPart (part : List Char) : Prop :=
  ∃ c more, part = c :: more ∧ isBlank c = false ∧ c ≠ ',' ∧ c ≠ ']'

/-- A reader takes a printed part for what it stands for, and leaves what stands behind it. -/
structure Reads {α : Type} (reader : Reader α) (part : List Char) (found : α) : Prop where
  starts : StartsPart part
  eq_ok : ∀ rest, Follows rest → reader (part ++ rest) = .ok (found, rest)

theorem follows_nil : Follows [] := by
  intro c hc
  contradiction

theorem follows_cons {c : Char} (hmark : c = ',' ∨ c = ']' ∨ c = '\x7d') (rest : List Char) :
    Follows (c :: rest) := by
  intro d hd
  obtain rfl : c = d := Option.some.inj hd
  exact hmark

theorem Follows.endsNumber {rest : List Char} (hfollows : Follows rest) : EndsNumber rest := by
  intro c hc
  rcases hfollows c hc with rfl | rfl | rfl <;> rfl

theorem skipBlanks_cons {c : Char} (hblank : isBlank c = false) (text : List Char) :
    skipBlanks (c :: text) = c :: text := by
  simp [skipBlanks, hblank]

theorem StartsPart.ne_nil {part : List Char} (hstarts : StartsPart part) : part ≠ [] := by
  obtain ⟨c, more, rfl, -⟩ := hstarts
  exact List.cons_ne_nil c more

/-! ## Parts between commas -/

/-- What stands in front of a part: a comma, unless it is the first one. -/
def comma (first : Bool) : List Char := if first then [] else [',']

/-- Parts between commas, with a comma in front of all of them unless they are the first ones. -/
def separated (first : Bool) (parts : List (List Char)) : List Char :=
  if first then separate [','] parts else parts.flatMap (',' :: ·)

theorem separate_cons (part : List Char) (parts : List (List Char)) :
    separate [','] (part :: parts) = part ++ parts.flatMap (',' :: ·) := by
  induction parts generalizing part with
  | nil => simp [separate]
  | cons next parts ih => simp [separate, ih]

theorem separated_nil (first : Bool) : separated first [] = [] := by
  cases first <;> rfl

theorem separated_cons (first : Bool) (part : List Char) (parts : List (List Char)) :
    separated first (part :: parts) = comma first ++ (part ++ separated false parts) := by
  cases first with
  | false => rfl
  | true => exact separate_cons part parts

theorem follows_separated
    {closing : Char} (hclosing : closing = ']' ∨ closing = '\x7d')
    (parts : List (List Char)) (rest : List Char) :
    Follows (separated false parts ++ closing :: rest) := by
  cases parts with
  | nil => exact follows_cons (Or.inr hclosing) rest
  | cons part parts => exact follows_cons (Or.inl rfl) _

theorem length_lt_separated_append
    {parts : List (List Char)} (hne : ∀ part ∈ parts, part ≠ []) (first : Bool)
    (closing : Char) (rest : List Char) :
    parts.length < (separated first parts ++ closing :: rest).length := by
  induction parts generalizing first with
  | nil => simp [separated_nil]
  | cons part parts ih =>
      rw [List.forall_mem_cons] at hne
      have hpart : 0 < part.length := List.length_pos_of_ne_nil hne.1
      have hrest := ih hne.2 false
      simp only [separated_cons, List.length_append, List.length_cons] at hrest ⊢
      omega

/-! ## Lists -/

theorem StartsPart.nextItem
    {part : List Char} (hstarts : StartsPart part) (first : Bool) (rest : List Char) :
    nextItem first (comma first ++ (part ++ rest)) = .ok (.element (part ++ rest)) := by
  obtain ⟨c, more, rfl, hblank, hcomma, hclose⟩ := hstarts
  cases first with
  | false =>
      change Json.nextItem false (',' :: c :: (more ++ rest)) = _
      rw [Json.nextItem, skipBlanks_cons rfl]
      simp only [skipBlanks_cons hblank]
      split <;> simp_all
  | true =>
      change Json.nextItem true (c :: (more ++ rest)) = _
      rw [Json.nextItem, skipBlanks_cons hblank]
      split <;> simp_all

theorem readItems_separated
    {α : Type} {item : Reader α} {parts : List (List Char)} {found : List α}
    (hparts : List.Forall₂ (Reads item) parts found) (first : Bool) {count : Nat}
    (hcount : parts.length < count) (rest : List Char) :
    readItems item count first (separated first parts ++ ']' :: rest) = .ok (found, rest) := by
  induction hparts generalizing first count with
  | nil =>
      obtain ⟨count, rfl⟩ := Nat.exists_eq_add_of_lt hcount
      cases first <;> rfl
  | @cons part head parts found hpart hparts ih =>
      obtain ⟨count, rfl⟩ : ∃ smaller, count = smaller + 1 := ⟨count - 1, by omega⟩
      have hrest := ih false (Nat.lt_of_succ_lt_succ hcount)
      have hitem := hpart.eq_ok _ (follows_separated (Or.inl rfl) parts rest)
      simp only [separated_cons, List.append_assoc]
      rw [readItems, hpart.starts.nextItem]
      simp only [bind, Except.bind, hitem, hrest]
      rfl

theorem ne_nil_of_reads
    {α : Type} {item : Reader α} {parts : List (List Char)} {found : List α}
    (hparts : List.Forall₂ (Reads item) parts found) :
    ∀ part ∈ parts, part ≠ [] := by
  induction hparts with
  | nil => simp
  | cons hpart hparts ih =>
      rw [List.forall_mem_cons]
      exact ⟨hpart.starts.ne_nil, ih⟩

/-- A printed list is read back if all of its elements are. -/
theorem readItems_printed
    {α : Type} {item : Reader α} {parts : List (List Char)} {found : List α}
    (hparts : List.Forall₂ (Reads item) parts found) (rest : List Char) :
    readItems item (separate [','] parts ++ ']' :: rest).length true
        (separate [','] parts ++ ']' :: rest) =
      .ok (found, rest) :=
  readItems_separated hparts true
    (length_lt_separated_append (ne_nil_of_reads hparts) true ']' rest) rest

theorem startsPart_bracket (text : List Char) : StartsPart ('[' :: text) :=
  ⟨'[', text, rfl, rfl, by decide, by decide⟩

theorem startsPart_brace (text : List Char) : StartsPart ('\x7b' :: text) :=
  ⟨'\x7b', text, rfl, rfl, by decide, by decide⟩

theorem reads_readList
    {α : Type} {item : Nat → Reader α} {depth : Nat} {parts : List (List Char)}
    {found : List α} (hparts : List.Forall₂ (Reads (item depth)) parts found) :
    Reads (readList item (depth + 1)) ('[' :: separate [','] parts ++ [']']) found where
  starts := startsPart_bracket _
  eq_ok rest _ := by
    simp only [List.cons_append, List.append_assoc, List.nil_append]
    exact readItems_printed hparts rest

/-! ## Members of an object -/

theorem nextKey_printString (first : Bool) (key : String) (rest : List Char) :
    nextKey first (comma first ++ (printString key ++ rest)) =
      .ok (.element (key.toList.flatMap escapeChar ++ '"' :: rest)) := by
  rw [printString_append]
  cases first <;> rfl

theorem readColon_colon (rest : List Char) : readColon (':' :: rest) = .ok rest := rfl

/-- A printed member of an object, with a value that is read back. -/
def ReadsMember {α : Type} (value : Reader α) (printed : List Char) (member : String × α) :
    Prop :=
  ∃ part, printed = printString member.1 ++ ':' :: part ∧ Reads value part member.2

theorem readMembers_separated
    {α : Type} {value : Reader α} {parts : List (List Char)} {members : List (String × α)}
    (hparts : List.Forall₂ (ReadsMember value) parts members) (first : Bool) {count : Nat}
    (hcount : parts.length < count) (rest : List Char) :
    readMembers value count first (separated first parts ++ '\x7d' :: rest) =
      .ok (members, rest) := by
  induction hparts generalizing first count with
  | nil =>
      obtain ⟨count, rfl⟩ := Nat.exists_eq_add_of_lt hcount
      cases first <;> rfl
  | @cons printed member parts members hmember hparts ih =>
      obtain ⟨count, rfl⟩ : ∃ smaller, count = smaller + 1 := ⟨count - 1, by omega⟩
      obtain ⟨part, rfl, hpart⟩ := hmember
      have hrest := ih false (Nat.lt_of_succ_lt_succ hcount)
      have hvalue := hpart.eq_ok _ (follows_separated (Or.inr rfl) parts rest)
      simp only [separated_cons, List.append_assoc, List.cons_append]
      rw [readMembers, nextKey_printString]
      simp only [bind, Except.bind, readString_printed, readColon_colon, hvalue, hrest]
      rfl

theorem ne_nil_of_readsMember
    {α : Type} {value : Reader α} {parts : List (List Char)} {members : List (String × α)}
    (hparts : List.Forall₂ (ReadsMember value) parts members) :
    ∀ part ∈ parts, part ≠ [] := by
  induction hparts with
  | nil => simp
  | cons hmember hparts ih =>
      obtain ⟨part, rfl, -⟩ := hmember
      rw [List.forall_mem_cons]
      exact ⟨List.cons_ne_nil _ _, ih⟩

/-- The members of a printed object are read back if all of their values are. -/
theorem readMembers_printed
    {α : Type} {value : Reader α} {parts : List (List Char)} {members : List (String × α)}
    (hparts : List.Forall₂ (ReadsMember value) parts members) (rest : List Char) :
    readMembers value (separate [','] parts ++ '\x7d' :: rest).length true
        (separate [','] parts ++ '\x7d' :: rest) =
      .ok (members, rest) :=
  readMembers_separated hparts true
    (length_lt_separated_append (ne_nil_of_readsMember hparts) true '\x7d' rest) rest

end ArgumentContract.Json
