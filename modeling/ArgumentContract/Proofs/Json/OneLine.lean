import ArgumentContract.Proofs.Json.PrintedTree

/-!
# Printed documents stand on one line

A printed document has no blanks between its parts, and its strings escape every control character.
So no line break and no other control character stands in it, whatever its strings hold.
-/

namespace ArgumentContract.Json

/-- A text without line breaks and other control characters. -/
def ControlFree (text : List Char) : Prop := ∀ c ∈ text, 0x20 ≤ c.toNat

instance (text : List Char) : Decidable (ControlFree text) :=
  decidable_of_iff (text.all fun c => 0x20 ≤ c.toNat) (by simp [ControlFree])

theorem controlFree_nil : ControlFree [] := by
  simp [ControlFree]

theorem controlFree_append {left right : List Char} :
    ControlFree (left ++ right) ↔ ControlFree left ∧ ControlFree right :=
  List.forall_mem_append

theorem controlFree_cons {c : Char} {text : List Char} :
    ControlFree (c :: text) ↔ 0x20 ≤ c.toNat ∧ ControlFree text :=
  List.forall_mem_cons

/-! ## Strings and numbers -/

theorem le_toNat_hexDigit (n : Nat) : 0x20 ≤ (hexDigit n).toNat := by
  have hdigits : ∀ digit < 16, 0x20 ≤ (Nat.digitChar digit).toNat := by decide
  exact hdigits (n % 16) (Nat.mod_lt n (by decide))

theorem controlFree_escapeChar (c : Char) : ControlFree (escapeChar c) := by
  unfold escapeChar
  split
  case h_8 =>
    split
    next =>
      simp only [controlFree_cons]
      exact ⟨by decide, by decide, by decide, by decide, le_toNat_hexDigit _,
        le_toNat_hexDigit _, controlFree_nil⟩
    next hprinted =>
      simpa [ControlFree] using hprinted
  all_goals decide

theorem controlFree_printString (text : String) : ControlFree (printString text) := by
  have hcontent : ControlFree (text.toList.flatMap escapeChar) := by
    intro c hmem
    obtain ⟨written, -, hc⟩ := List.mem_flatMap.mp hmem
    exact controlFree_escapeChar written c hc
  rw [printString, controlFree_append, controlFree_cons, controlFree_cons]
  exact ⟨⟨by decide, hcontent⟩, by decide, controlFree_nil⟩

theorem controlFree_integerText (n : Int) : ControlFree (Text.integerText n) := by
  have hdigits : ControlFree (Text.decimalDigits n.natAbs) := by
    intro c hmem
    have hdigit := Char.isDigit_iff_toNat.mp (Text.isDigit_of_mem_decimalDigits hmem)
    have hzero : '0'.toNat = 48 := rfl
    omega
  rw [Text.integerText]
  split
  · exact controlFree_cons.mpr ⟨by decide, hdigits⟩
  · exact hdigits

/-! ## Documents -/

theorem controlFree_separate
    {parts : List (List Char)} (hparts : ∀ part ∈ parts, ControlFree part) :
    ControlFree (separate [','] parts) := by
  cases parts with
  | nil => exact controlFree_nil
  | cons part parts =>
      rw [List.forall_mem_cons] at hparts
      rw [separate_cons, controlFree_append]
      refine ⟨hparts.1, fun c hmem => ?_⟩
      obtain ⟨next, hnext, hc⟩ := List.mem_flatMap.mp hmem
      exact controlFree_cons.mpr ⟨by decide, hparts.2 next hnext⟩ c hc

/-- Parts between brackets and commas. -/
theorem controlFree_enclosed
    {opening closing : Char} (hopening : 0x20 ≤ opening.toNat) (hclosing : 0x20 ≤ closing.toNat)
    {parts : List (List Char)} (hparts : ∀ part ∈ parts, ControlFree part) :
    ControlFree (opening :: separate [','] parts ++ [closing]) := by
  rw [controlFree_append, controlFree_cons, controlFree_cons]
  exact ⟨⟨hopening, controlFree_separate hparts⟩, hclosing, controlFree_nil⟩

/-- A printed document whose numbers are integers has no control character in it. -/
theorem Integral.controlFree_compact {document : Json} (hintegral : document.Integral) :
    ControlFree document.compact := by
  induction hintegral with
  | null => decide
  | bool b => cases b <;> decide
  | @integer n hfits => exact controlFree_integerText n
  | string text => exact controlFree_printString text
  | @array items hitems ih =>
      apply controlFree_enclosed (by decide) (by decide)
      rw [compactItems_eq_map, List.forall_mem_map]
      exact ih
  | @object members hmembers ih =>
      apply controlFree_enclosed (by decide) (by decide)
      rw [compactMembers_eq_map, List.forall_mem_map]
      intro member hmem
      rw [controlFree_append, controlFree_cons]
      exact ⟨controlFree_printString member.1, by decide, ih member hmem⟩

end ArgumentContract.Json
