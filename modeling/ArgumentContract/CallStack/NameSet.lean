/-!
# Sets of names

A set of names lists each of its names once, in increasing order of their UTF-8 bytes.  Two sets
with the same names are therefore the same list.
-/

namespace ArgumentContract

def utf8Bytes (text : String) : List UInt8 := text.toByteArray.data.toList

theorem utf8Bytes_inj {left right : String}
    (hbytes : utf8Bytes left = utf8Bytes right) : left = right := by
  apply String.toByteArray_inj.1
  apply ByteArray.ext
  exact Array.toList_inj.1 hbytes

/-- A name comes before another if its bytes do. -/
def Precedes (left right : String) : Prop := utf8Bytes left < utf8Bytes right

instance (left right : String) : Decidable (Precedes left right) :=
  inferInstanceAs (Decidable (utf8Bytes left < utf8Bytes right))

theorem Precedes.trans {first second third : String}
    (hleft : Precedes first second) (hright : Precedes second third) :
    Precedes first third :=
  List.lt_trans hleft hright

theorem Precedes.of_not {left right : String}
    (hne : left ≠ right) (hnot : ¬ Precedes left right) :
    Precedes right left := by
  by_cases hback : Precedes right left
  · exact hback
  · have hbytes : utf8Bytes left = utf8Bytes right :=
      List.le_antisymm (List.not_lt.1 hback) (List.not_lt.1 hnot)
    exact absurd (utf8Bytes_inj hbytes) hne

structure NameSet where
  names : List String
  sorted : names.Pairwise Precedes
deriving DecidableEq

namespace NameSet

/-- Puts a name into an ordered list unless it is there already. -/
def insertOrdered (name : String) : List String → List String
  | [] => [name]
  | head :: rest =>
      if name = head then head :: rest
      else if Precedes name head then name :: head :: rest
      else head :: insertOrdered name rest

theorem mem_insertOrdered {name other : String} {names : List String} :
    other ∈ insertOrdered name names ↔ other = name ∨ other ∈ names := by
  induction names with
  | nil => simp [insertOrdered]
  | cons head rest ih =>
      unfold insertOrdered
      split
      · rename_i heq
        subst heq
        simp
      · split
        · simp
        · simp only [List.mem_cons, ih]
          exact or_left_comm

theorem sorted_insertOrdered
    (name : String) {names : List String} (hsorted : names.Pairwise Precedes) :
    (insertOrdered name names).Pairwise Precedes := by
  induction names with
  | nil => simp [insertOrdered]
  | cons head rest ih =>
      have ⟨hhead, hrest⟩ := List.pairwise_cons.1 hsorted
      unfold insertOrdered
      split
      · exact hsorted
      · rename_i hne
        split
        · rename_i hbefore
          refine List.pairwise_cons.2 ⟨fun other hmem => ?_, hsorted⟩
          rcases List.mem_cons.1 hmem with rfl | hmem
          · exact hbefore
          · exact hbefore.trans (hhead other hmem)
        · rename_i hnot
          refine List.pairwise_cons.2 ⟨fun other hmem => ?_, ih hrest⟩
          rcases mem_insertOrdered.1 hmem with rfl | hmem
          · exact Precedes.of_not hne hnot
          · exact hhead other hmem

def empty : NameSet := ⟨[], List.Pairwise.nil⟩

def insert (name : String) (set : NameSet) : NameSet :=
  ⟨insertOrdered name set.names, sorted_insertOrdered name set.sorted⟩

def contains (set : NameSet) (name : String) : Bool := set.names.contains name

def ofList (names : List String) : NameSet :=
  names.foldl (fun set name => set.insert name) empty

def map (f : String → String) (set : NameSet) : NameSet := ofList (set.names.map f)

theorem mem_insert {name other : String} {set : NameSet} :
    other ∈ (set.insert name).names ↔ other = name ∨ other ∈ set.names :=
  mem_insertOrdered

end NameSet

end ArgumentContract
