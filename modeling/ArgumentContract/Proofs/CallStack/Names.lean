import ArgumentContract.CallStack.Basic
import Mathlib.Data.List.Forall2
import Mathlib.Tactic

/-!
# Names and their letters

A set of names is determined by its members, since it lists them in order.  Two names have the same
lower case if they agree character by character, except that an ASCII letter may stand in upper
case in one name and in lower case in the other.
-/

namespace ArgumentContract

theorem Precedes.ne {left right : String} (hbefore : Precedes left right) : left ≠ right := by
  rintro rfl
  exact List.lt_irrefl _ hbefore

namespace NameSet

theorem nodup (set : NameSet) : set.names.Nodup := set.sorted.imp Precedes.ne

theorem ext_mem
    {left right : NameSet} (hmem : ∀ name, name ∈ left.names ↔ name ∈ right.names) :
    left = right := by
  have hperm : left.names.Perm right.names :=
    (List.perm_ext_iff_of_nodup left.nodup right.nodup).mpr hmem
  have hnames : left.names = right.names := by
    apply hperm.eq_of_pairwise _ left.sorted right.sorted
    intro first second _ _ hbefore hafter
    exact absurd rfl (hbefore.trans hafter).ne
  cases left
  cases right
  simp_all

theorem contains_iff_mem {set : NameSet} {name : String} :
    set.contains name = true ↔ name ∈ set.names := by
  simp [contains]

theorem mem_foldl_insert {names : List String} {set : NameSet} {other : String} :
    other ∈ (names.foldl (fun set name => set.insert name) set).names ↔
      other ∈ names ∨ other ∈ set.names := by
  induction names generalizing set with
  | nil => simp
  | cons name rest ih =>
      rw [List.foldl_cons, ih, mem_insert, List.mem_cons]
      tauto

theorem mem_ofList {names : List String} {other : String} :
    other ∈ (ofList names).names ↔ other ∈ names := by
  simp [ofList, mem_foldl_insert, empty]

theorem mem_map {f : String → String} {set : NameSet} {other : String} :
    other ∈ (set.map f).names ↔ ∃ name ∈ set.names, f name = other := by
  simp [map, mem_ofList]

end NameSet

/-! ## Lower case -/

theorem isUpper_iff_toNat {c : Char} : c.isUpper = true ↔ 65 ≤ c.toNat ∧ c.toNat ≤ 90 := by
  have hdef : c.isUpper = decide ('A'.val ≤ c.val ∧ c.val ≤ 'Z'.val) := rfl
  rw [hdef]
  simp [UInt32.le_iff_toNat_le]

theorem toNat_toLower (c : Char) :
    c.toLower.toNat = if 65 ≤ c.toNat ∧ c.toNat ≤ 90 then c.toNat + 32 else c.toNat := by
  have hrange : ('A'.val ≤ c.val ∧ c.val ≤ 'Z'.val) ↔ 65 ≤ c.toNat ∧ c.toNat ≤ 90 := by
    simp [UInt32.le_iff_toNat_le]
  unfold Char.toLower
  split
  · rename_i hupper
    have hnat := hrange.mp hupper
    rw [if_pos hnat]
    exact Nat.mod_eq_of_lt (show c.toNat + 32 < 2 ^ 32 by omega)
  · rename_i hother
    rw [if_neg (mt hrange.mpr hother)]

theorem toLower_toLower (c : Char) : c.toLower.toLower = c.toLower := by
  have hlower := toNat_toLower c
  rw [← Char.toNat_inj, toNat_toLower c.toLower]
  apply if_neg
  split at hlower <;> omega

theorem toList_lowercase (text : String) :
    (lowercase text).toList = text.toList.map Char.toLower := by
  simp [lowercase]

theorem lowercase_lowercase (text : String) : lowercase (lowercase text) = lowercase text := by
  rw [← String.toList_inj]
  simp only [toList_lowercase, List.map_map, Function.comp_def, toLower_toLower]

/-- Two characters are the same letter if they are equal or the upper and the lower case of an
ASCII letter. -/
def SameLetter (left right : Char) : Prop :=
  left = right ∨
    left.isUpper ∧ right.toNat = left.toNat + 32 ∨
    right.isUpper ∧ left.toNat = right.toNat + 32

theorem toLower_eq_toLower_iff {left right : Char} :
    left.toLower = right.toLower ↔ SameLetter left right := by
  simp only [SameLetter, ← Char.toNat_inj, toNat_toLower, isUpper_iff_toNat]
  split <;> split <;> omega

theorem SameLetter.eq_of_not_ascii
    {left right : Char} (hsame : SameLetter left right)
    (houtside : 128 ≤ left.toNat ∨ 128 ≤ right.toNat) :
    left = right := by
  rcases hsame with heq | ⟨hupper, hlower⟩ | ⟨hupper, hlower⟩
  · exact heq
  · have hrange := isUpper_iff_toNat.mp hupper
    omega
  · have hrange := isUpper_iff_toNat.mp hupper
    omega

theorem lowercase_eq_lowercase_iff {left right : String} :
    lowercase left = lowercase right ↔ List.Forall₂ SameLetter left.toList right.toList := by
  rw [← String.toList_inj, toList_lowercase, toList_lowercase, ← List.forall₂_eq_eq_eq,
    List.forall₂_map_left_iff, List.forall₂_map_right_iff]
  simp only [toLower_eq_toLower_iff]

end ArgumentContract
