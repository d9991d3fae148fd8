import ArgumentContract.Proofs.Json.SpelledRecord
import Mathlib.Logic.Relation

/-!
# Other spellings of the same record

A record can be spelled in many ways.  The members of an object may come in any order, the record
may be written as an object or as a list, and a field that has a default may be left out.  The
relations below say so, one change at a time, without a word about what is read; a function
`Respects` a relation if it makes the same of both documents.

That the order of the members does not matter rests on the slots of a record: setting one of them
neither depends on another one nor undoes it.
-/

namespace ArgumentContract.Json

/-! ## Single changes -/

/-- Somewhere in a document, the members of one object come in another order. -/
inductive Reordered : Source → Source → Prop
  | members {members others : List (List Letter × Source)} (hperm : members.Perm others) :
      Reordered (.object members) (.object others)
  | item {before after : List Source} {item other : Source} (hitem : Reordered item other) :
      Reordered (.array (before ++ item :: after)) (.array (before ++ other :: after))
  | value {before after : List (List Letter × Source)} {key : List Letter}
      {value other : Source} (hvalue : Reordered value other) :
      Reordered (.object (before ++ (key, value) :: after))
        (.object (before ++ (key, other) :: after))

/-- One item of a list is changed. -/
inductive InItem (R : Source → Source → Prop) : Source → Source → Prop
  | item {before after : List Source} {item other : Source} (hitem : R item other) :
      InItem R (.array (before ++ item :: after)) (.array (before ++ other :: after))

/-- The fields of a record in the order of their declaration, with the defaults of those that may
be left out. -/
abbrev Layout := List (String × Option Source)

/-- Values under their names, one by one. -/
def keyed (names : List String) (values : List Source) : List (List Letter × Source) :=
  List.zipWith (fun name value => (lettersOf name, value)) names values

theorem keyed_append
    {front : List String} {values : List Source} (hlength : front.length = values.length)
    (back : List String) (more : List Source) :
    keyed (front ++ back) (values ++ more) = keyed front values ++ keyed back more :=
  List.zipWith_append hlength

theorem exists_name_of_mem_keyed
    {names : List String} {values : List Source} {member : List Letter × Source}
    (hmem : member ∈ keyed names values) : ∃ name ∈ names, member.1 = lettersOf name := by
  rw [keyed, ← List.map_uncurry_zip_eq_zipWith, List.mem_map] at hmem
  obtain ⟨⟨name, value⟩, hpair, rfl⟩ := hmem
  exact ⟨name, (List.of_mem_zip hpair).1, rfl⟩

/-- A record is written as an object or as a list, or a default is written out or not.  An object
may have members of other names. -/
inductive Restyled (layout : Layout) : Source → Source → Prop
  | listed {values : List Source} {others : List (List Letter × Source)}
      (hlength : values.length ≤ layout.length)
      (hothers : ∀ member ∈ others,
        ∃ name, member.1 = lettersOf name ∧ name ∉ layout.map Prod.fst) :
      Restyled layout (.object (keyed (layout.map Prod.fst) values ++ others)) (.array values)
  | omitted {members : List (List Letter × Source)} {name : String} {default : Source}
      (hfield : (name, some default) ∈ layout)
      (habsent : ∀ member ∈ members, member.1 ≠ lettersOf name) :
      Restyled layout (.object ((lettersOf name, default) :: members)) (.object members)
  | shortened {values : List Source} {name : String} {default : Source}
      (hfield : layout[values.length]? = some (name, some default)) :
      Restyled layout (.array (values ++ [default])) (.array values)

/-- The value of one field of a record is changed. -/
inductive InField (layout : Layout) (name : String) (R : Source → Source → Prop) :
    Source → Source → Prop
  | member {before after : List (List Letter × Source)} {value other : Source}
      (hvalue : R value other) :
      InField layout name R (.object (before ++ (lettersOf name, value) :: after))
        (.object (before ++ (lettersOf name, other) :: after))
  | item {before after : List Source} {value other : Source}
      (hfield : (layout.map Prod.fst)[before.length]? = some name) (hvalue : R value other) :
      InField layout name R (.array (before ++ value :: after))
        (.array (before ++ other :: after))

/-! ## Functions that do not see a change -/

/-- A function makes the same of documents that a relation holds between. -/
def Respects {α : Type} (read : Source → Option α) (R : Source → Source → Prop) : Prop :=
  ∀ source other, R source other → read source = read other

theorem respects_text?_reordered : Respects Source.text? Reordered := by
  intro source other hsame
  cases hsame <;> rfl

theorem Respects.eqvGen
    {α : Type} {read : Source → Option α} {R : Source → Source → Prop} (hread : Respects read R) :
    Respects read (Relation.EqvGen R) := by
  intro source other hsame
  induction hsame with
  | rel source other hsame => exact hread source other hsame
  | refl => rfl
  | symm _ _ _ ih => exact ih.symm
  | trans _ _ _ _ _ hleft hright => exact hleft.trans hright

theorem Respects.optional?_reordered
    {α : Type} {read : Source → Option α} (hread : Respects read Reordered) :
    Respects (Source.optional? read) Reordered := by
  intro source other hsame
  have heq := hread source other hsame
  cases hsame <;> simp only [Source.optional?, heq]

theorem Respects.list?_inItem
    {α : Type} {read : Source → Option α} {R : Source → Source → Prop} (hread : Respects read R) :
    Respects (Source.list? read) (InItem R) := by
  intro source other hsame
  cases hsame with
  | item hitem => simp only [Source.list?, List.mapM_append, List.mapM_cons, hread _ _ hitem]

theorem Respects.list?_reordered
    {α : Type} {read : Source → Option α} (hread : Respects read Reordered) :
    Respects (Source.list? read) Reordered := by
  intro source other hsame
  cases hsame with
  | members | value => rfl
  | item hitem => exact hread.list?_inItem _ _ (.item hitem)

/-! ## Slots -/

namespace Slot

variable {τ : Type} {slots : List (Slot τ)} {blank : τ} {layout : Layout}

/-- A slot has the name that a layout gives it, and what the layout gives for its default leaves a
blank record as it is. -/
structure Follows (blank : τ) (field : String × Option Source) (slot : Slot τ) : Prop where
  name : field.1 = slot.name
  default : ∀ default, field.2 = some default →
    slot.neededInObject = false ∧ slot.set blank default = some blank

/-- The slots of a record follow a layout and are independent of each other.  They are needed in a
list if they are needed in an object. -/
structure Independent (slots : List (Slot τ)) (blank : τ) (layout : Layout) : Prop where
  follows : List.Forall₂ (Follows blank) layout slots
  needed : ∀ slot ∈ slots, slot.neededInObject = slot.neededInList
  nodup : (slots.map Slot.name).Nodup
  commute : ∀ slot ∈ slots, ∀ other ∈ slots, slot.name ≠ other.name → ∀ state a b,
    (slot.set state a).bind (other.set · b) = (other.set state b).bind (slot.set · a)

theorem updating_comm
    {α β : Type} {left right : String} {leftInObject leftInList rightInObject rightInList : Bool}
    {leftRead : Source → Option α} {rightRead : Source → Option β} {f : τ → α → τ}
    {g : τ → β → τ} (hcomm : ∀ state x y, g (f state x) y = f (g state y) x) (state : τ)
    (a b : Source) :
    ((updating left leftInObject leftInList leftRead f).set state a).bind
        ((updating right rightInObject rightInList rightRead g).set · b) =
      ((updating right rightInObject rightInList rightRead g).set state b).bind
        ((updating left leftInObject leftInList leftRead f).set · a) := by
  simp only [updating]
  cases leftRead a <;> cases rightRead b <;> simp [hcomm]

theorem respects_updating
    {α : Type} {name : String} {neededInObject neededInList : Bool} {read : Source → Option α}
    {update : τ → α → τ} {R : Source → Source → Prop} (hread : Respects read R) (state : τ) :
    Respects ((updating name neededInObject neededInList read update).set state) R := by
  intro source other hsame
  simp only [updating, hread source other hsame]

theorem names_eq (hfollows : List.Forall₂ (Follows blank) layout slots) :
    layout.map Prod.fst = slots.map Slot.name := by
  induction hfollows with
  | nil => rfl
  | cons hfield hfollows ih => rw [List.map_cons, List.map_cons, hfield.name, ih]

theorem find?_of_mem
    (hnodup : (slots.map Slot.name).Nodup) {slot : Slot τ} (hmem : slot ∈ slots) :
    slots.find? (·.name = slot.name) = some slot := by
  cases hfind : slots.find? (·.name = slot.name) with
  | none =>
      have hnone := List.find?_eq_none.mp hfind slot hmem
      simp at hnone
  | some other =>
      have hname : other.name = slot.name := by simpa using List.find?_some hfind
      rw [List.inj_on_of_nodup_map hnodup (List.mem_of_find?_eq_some hfind) hmem hname]

/-- A name of a member is a fault, or the member is passed over, or it sets a slot. -/
theorem setMember_cases (slots : List (Slot τ)) (name : List Letter) :
    (∀ found value, setMember slots found (name, value) = none) ∨
      (∀ found value, setMember slots found (name, value) = some found) ∨
      ∃ slot ∈ slots, name = lettersOf slot.name ∧ ∀ found value,
        setMember slots found (name, value) =
          if slot.name ∈ found.1 then none
          else (slot.set found.2 value).map (insert slot.name found.1, ·) := by
  cases hkey : textOf? name with
  | none => exact Or.inl fun found value => by simp [setMember, hkey]
  | some key =>
      cases hfind : slots.find? (·.name = key) with
      | none => exact Or.inr (Or.inl fun found value => by simp [setMember, hkey, hfind])
      | some slot =>
          obtain rfl : slot.name = key := by simpa using List.find?_some hfind
          refine Or.inr (Or.inr ⟨slot, List.mem_of_find?_eq_some hfind,
            textOf?_eq_some_iff.mp hkey, fun found value => ?_⟩)
          simp only [setMember, hkey, hfind, Option.bind_eq_bind, Option.bind_some]
          split
          · rfl
          · cases slot.set found.2 value <;> rfl

theorem setMember_of_mem
    (hnodup : (slots.map Slot.name).Nodup) {slot : Slot τ} (hmem : slot ∈ slots)
    {seen : Finset String} (hnew : slot.name ∉ seen) (state : τ) (value : Source) :
    setMember slots (seen, state) (lettersOf slot.name, value) =
      (slot.set state value).map (insert slot.name seen, ·) := by
  simp only [setMember, textOf?_lettersOf, find?_of_mem hnodup hmem, hnew, if_false,
    Option.bind_eq_bind, Option.bind_some]
  cases slot.set state value <;> rfl

theorem setMember_of_other
    {member : List Letter × Source} {name : String} (hname : member.1 = lettersOf name)
    (hother : name ∉ slots.map Slot.name) (found : Finset String × τ) :
    setMember slots found member = some found := by
  have hnone : slots.find? (·.name = name) = none := by
    rw [List.find?_eq_none]
    intro slot hmem hslot
    exact hother (of_decide_eq_true hslot ▸ List.mem_map_of_mem hmem)
  rw [setMember, hname, textOf?_lettersOf]
  simp [hnone]

/-! ### The order of members -/

/-- Two members can be set in either order. -/
theorem Independent.setMember_comm
    (hslots : Independent slots blank layout) (found : Finset String × τ)
    (left right : List Letter × Source) :
    (setMember slots found left).bind (setMember slots · right) =
      (setMember slots found right).bind (setMember slots · left) := by
  obtain ⟨seen, state⟩ := found
  obtain ⟨leftName, left⟩ := left
  obtain ⟨rightName, right⟩ := right
  rcases setMember_cases slots leftName with hleft | hleft | ⟨slot, hmem, -, hleft⟩ <;>
    rcases setMember_cases slots rightName with hright | hright | ⟨other, hother, -, hright⟩ <;>
    simp only [hleft, hright, Option.bind_none, Option.bind_some, Option.bind_fun_none,
      Option.bind_fun_some]
  -- Both members set a slot; it may be the same one.
  by_cases hslot : slot.name ∈ seen
  · by_cases hnew : other.name ∈ seen <;> simp [hslot, hnew, Option.bind_map]
  · by_cases hnew : other.name ∈ seen
    · simp [hslot, hnew, Option.bind_map]
    · by_cases hname : slot.name = other.name
      · simp [hname, hnew, Option.bind_map]
      · have hcomm := hslots.commute slot hmem other hother hname state left right
        have hboth := congrArg (Option.map (insert slot.name (insert other.name seen), ·)) hcomm
        simp only [Option.map_bind, Function.comp_def] at hboth
        simpa [hslot, hnew, hname, Ne.symm hname, Option.bind_map,
          Finset.insert_comm other.name slot.name] using hboth

theorem Independent.foldlM_perm
    (hslots : Independent slots blank layout) {members others : List (List Letter × Source)}
    (hperm : members.Perm others) (found : Finset String × τ) :
    members.foldlM (setMember slots) found = others.foldlM (setMember slots) found := by
  have hcomm : RightCommutative
      fun (found : Option (Finset String × τ)) member => found >>= (setMember slots · member) := by
    refine ⟨fun found left right => ?_⟩
    cases found with
    | none => rfl
    | some found => exact hslots.setMember_comm found left right
  rw [List.foldlM_eq_foldl, List.foldlM_eq_foldl, hperm.foldl_eq]

theorem Independent.ofMembers?_perm
    (hslots : Independent slots blank layout) {members others : List (List Letter × Source)}
    (hperm : members.Perm others) :
    ofMembers? slots blank members = ofMembers? slots blank others := by
  rw [ofMembers?, ofMembers?, hslots.foldlM_perm hperm]

/-! ### Changed values -/

theorem ofMembers?_congr
    {before after : List (List Letter × Source)} {member other : List Letter × Source}
    (hsame : ∀ found, setMember slots found member = setMember slots found other) :
    ofMembers? slots blank (before ++ member :: after) =
      ofMembers? slots blank (before ++ other :: after) := by
  simp only [ofMembers?, List.foldlM_append, List.foldlM_cons, hsame]

theorem setMember_congr
    {name : List Letter} {value other : Source}
    (hsame : ∀ slot ∈ slots, name = lettersOf slot.name →
      ∀ state, slot.set state value = slot.set state other) (found : Finset String × τ) :
    setMember slots found (name, value) = setMember slots found (name, other) := by
  rcases setMember_cases slots name with hnone | hother | ⟨slot, hmem, hname, hset⟩
  · rw [hnone, hnone]
  · rw [hother, hother]
  · rw [hset, hset, hsame slot hmem hname]

theorem ofItems?_congr
    {before after : List Source} {value other : Source} {slots : List (Slot τ)}
    (hsame : ∀ slot, slots[before.length]? = some slot →
      ∀ state, slot.set state value = slot.set state other) (state : τ) :
    ofItems? slots state (before ++ value :: after) =
      ofItems? slots state (before ++ other :: after) := by
  induction before generalizing slots state with
  | nil =>
      cases slots with
      | nil => rfl
      | cons slot slots => simp only [List.nil_append, ofItems?, hsame slot rfl state]
  | cons item before ih =>
      cases slots with
      | nil => rfl
      | cons slot slots =>
          have hrest := @ih slots (by simpa using hsame)
          simp only [List.cons_append, ofItems?, hrest]

/-- The order of members does not matter to a record if it does not matter to its slots. -/
theorem Independent.respects_reordered
    (hslots : Independent slots blank layout)
    (hset : ∀ slot ∈ slots, ∀ state, Respects (slot.set state) Reordered) :
    Respects (ofSource? slots blank) Reordered := by
  intro source other hsame
  cases hsame with
  | members hperm => exact hslots.ofMembers?_perm hperm
  | item hitem =>
      exact ofItems?_congr (fun slot hslot state =>
        hset slot (List.mem_of_getElem? hslot) state _ _ hitem) blank
  | value hvalue =>
      exact ofMembers?_congr (setMember_congr fun slot hmem _ state =>
        hset slot hmem state _ _ hvalue)

/-- A change of one field does not matter to a record if it does not matter to the slot. -/
theorem respects_inField
    (hfollows : List.Forall₂ (Follows blank) layout slots) {name : String}
    {R : Source → Source → Prop}
    (hset : ∀ slot ∈ slots, slot.name = name → ∀ state, Respects (slot.set state) R) :
    Respects (ofSource? slots blank) (InField layout name R) := by
  intro source other hsame
  cases hsame with
  | member hvalue =>
      exact ofMembers?_congr (setMember_congr fun slot hmem hname state =>
        hset slot hmem (lettersOf_inj.mp hname).symm state _ _ hvalue)
  | item hfield hvalue =>
      rw [names_eq hfollows, List.getElem?_map] at hfield
      refine ofItems?_congr (fun slot hslot state => ?_) blank
      rw [hslot, Option.map_some, Option.some.injEq] at hfield
      exact hset slot (List.mem_of_getElem? hslot) hfield state _ _ hvalue

/-! ### Other forms -/

/-- Names that no further member has make no difference. -/
theorem foldlM_insert
    {members : List (List Letter × Source)} {name : String}
    (habsent : ∀ member ∈ members, member.1 ≠ lettersOf name) (seen : Finset String) (state : τ) :
    members.foldlM (setMember slots) (insert name seen, state) =
      (members.foldlM (setMember slots) (seen, state)).map (Prod.map (insert name) id) := by
  induction members generalizing seen state with
  | nil => rfl
  | cons member members ih =>
      rw [List.forall_mem_cons] at habsent
      obtain ⟨key, value⟩ := member
      simp only [List.foldlM_cons]
      rcases setMember_cases slots key with hnone | hother | ⟨slot, hmem, hkey, hset⟩
      · simp [hnone]
      · simp only [hother, Option.bind_eq_bind, Option.bind_some, ih habsent.2]
      · have hne : slot.name ≠ name := by
          rintro rfl
          exact habsent.1 hkey
        simp only [hset, Finset.mem_insert, hne, false_or]
        split
        · rfl
        · cases slot.set state value with
          | none => rfl
          | some next =>
              simp only [Option.map_some, Option.bind_eq_bind, Option.bind_some,
                Finset.insert_comm slot.name name, ih habsent.2]

theorem Independent.follows_of_mem
    (hslots : Independent slots blank layout) {name : String} {default : Source}
    (hfield : (name, some default) ∈ layout) :
    ∃ slot ∈ slots, slot.name = name ∧ slot.neededInObject = false ∧
      slot.set blank default = some blank := by
  obtain ⟨index, hlt, hget⟩ := List.mem_iff_getElem.mp hfield
  obtain ⟨hlength, hfollows⟩ := List.forall₂_iff_get.mp hslots.follows
  have hslot := hfollows index hlt (hlength ▸ hlt)
  simp only [List.get_eq_getElem, hget] at hslot
  exact ⟨_, List.getElem_mem _, hslot.name.symm, hslot.default default rfl⟩

/-- A default that is written out changes nothing. -/
theorem Independent.ofMembers?_default
    (hslots : Independent slots blank layout) {name : String} {default : Source}
    (hfield : (name, some default) ∈ layout) {members : List (List Letter × Source)}
    (habsent : ∀ member ∈ members, member.1 ≠ lettersOf name) :
    ofMembers? slots blank ((lettersOf name, default) :: members) =
      ofMembers? slots blank members := by
  obtain ⟨slot, hmem, rfl, hneeded, hset⟩ := hslots.follows_of_mem hfield
  have hfirst : setMember slots (∅, blank) (lettersOf slot.name, default) =
      some (insert slot.name ∅, blank) := by
    rw [setMember_of_mem hslots.nodup hmem (Finset.notMem_empty _), hset]
    rfl
  have hany (seen : Finset String) :
      (slots.any fun other => other.neededInObject && decide (other.name ∉ insert slot.name seen)) =
        slots.any fun other => other.neededInObject && decide (other.name ∉ seen) := by
    rw [Bool.eq_iff_iff, List.any_eq_true, List.any_eq_true]
    refine exists_congr fun other => and_congr_right fun hother => ?_
    by_cases hname : other.name = slot.name
    · obtain rfl : other = slot := List.inj_on_of_nodup_map hslots.nodup hother hmem hname
      simp [hneeded]
    · simp [hname]
  simp only [ofMembers?, List.foldlM_cons, hfirst, Option.bind_eq_bind, Option.bind_some,
    foldlM_insert habsent, Option.bind_map]
  refine Option.bind_congr fun found _ => ?_
  simp only [Function.comp, Prod.map, id, hany]

theorem subset_of_foldlM
    {members : List (List Letter × Source)} {seen last : Finset String} {state final : τ}
    (hfold : members.foldlM (setMember slots) (seen, state) = some (last, final)) :
    seen ⊆ last := by
  induction members generalizing seen state with
  | nil =>
      obtain ⟨rfl, rfl⟩ := Prod.mk.inj (Option.some.inj hfold)
      exact Finset.Subset.refl seen
  | cons member members ih =>
      obtain ⟨key, value⟩ := member
      rw [List.foldlM_cons, Option.bind_eq_bind, Option.bind_eq_some_iff] at hfold
      obtain ⟨⟨next, found⟩, hmember, hfold⟩ := hfold
      refine Finset.Subset.trans ?_ (ih hfold)
      rcases setMember_cases slots key with hnone | hother | ⟨slot, -, -, hset⟩
      · rw [hnone] at hmember
        contradiction
      · rw [hother] at hmember
        obtain ⟨rfl, rfl⟩ := Prod.mk.inj (Option.some.inj hmember)
        exact Finset.Subset.refl seen
      · simp only [hset] at hmember
        split at hmember
        · contradiction
        · obtain ⟨_, _, hnext⟩ := Option.map_eq_some_iff.mp hmember
          obtain ⟨rfl, rfl⟩ := Prod.mk.inj hnext
          exact Finset.subset_insert slot.name seen

/-- The members of a record in the order of the fields are read like the items of a list, unless
fields are missing that are needed in one form only. -/
theorem foldlM_keyed
    (hnodup : (slots.map Slot.name).Nodup) {todo : List (Slot τ)} {values : List Source}
    (hneeded : values.length < todo.length →
      ∀ slot ∈ todo, slot.neededInObject = slot.neededInList)
    (hsub : todo ⊆ slots) (htodo : (todo.map Slot.name).Nodup)
    (hlength : values.length ≤ todo.length) {seen : Finset String}
    (hnew : ∀ slot ∈ todo, slot.name ∉ seen) (state : τ) :
    ((keyed (todo.map Slot.name) values).foldlM (setMember slots) (seen, state)).bind
        (fun found =>
          if todo.any fun slot => slot.neededInObject && decide (slot.name ∉ found.1) then none
          else some found.2) =
      ofItems? todo state values := by
  induction todo generalizing values seen state with
  | nil =>
      obtain rfl : values = [] := List.eq_nil_of_length_eq_zero (Nat.le_zero.mp hlength)
      rfl
  | cons slot todo ih =>
      cases values with
      | nil =>
          have hany : ((slot :: todo).any fun slot =>
              slot.neededInObject && decide (slot.name ∉ seen)) =
              (slot :: todo).any (·.neededInList) := by
            rw [Bool.eq_iff_iff, List.any_eq_true, List.any_eq_true]
            refine exists_congr fun other => and_congr_right fun hother => ?_
            simp [hneeded (Nat.succ_pos _) other hother, hnew other hother]
          simp only [keyed, List.zipWith_nil_right, List.foldlM_nil, Option.pure_def,
            Option.bind_some, ofItems?, hany]
      | cons value values =>
          rw [List.forall_mem_cons] at hnew
          rw [List.map_cons, List.nodup_cons] at htodo
          rw [List.cons_subset] at hsub
          have hfirst := setMember_of_mem hnodup hsub.1 hnew.1 state value
          simp only [List.map_cons, keyed, List.zipWith_cons_cons, List.foldlM_cons, ofItems?,
            hfirst]
          cases slot.set state value with
          | none => rfl
          | some next =>
              have hrest : ∀ other ∈ todo, other.name ∉ insert slot.name seen := by
                intro other hmem
                have hne : other.name ≠ slot.name := fun hname =>
                  htodo.1 (hname ▸ List.mem_map_of_mem hmem)
                simp [hne, hnew.2 other hmem]
              simp only [Option.map_some, Option.bind_eq_bind, Option.bind_some]
              rw [← ih (fun hlt other hmem => hneeded (Nat.succ_lt_succ hlt) other
                (List.mem_cons_of_mem slot hmem)) hsub.2 htodo.2
                (Nat.le_of_succ_le_succ hlength) hrest]
              refine Option.bind_congr fun found hfound => ?_
              have hseen : slot.name ∈ found.1 :=
                subset_of_foldlM hfound (Finset.mem_insert_self slot.name seen)
              simp [hseen]

/-- A record with all of its fields is read from an object as from a list. -/
theorem ofMembers?_keyed
    (hnodup : (slots.map Slot.name).Nodup) {values : List Source}
    (hlength : values.length = slots.length) :
    ofMembers? slots blank (keyed (slots.map Slot.name) values) =
      ofItems? slots blank values := by
  rw [← foldlM_keyed hnodup (fun hlt => absurd hlength hlt.ne) (List.Subset.refl slots) hnodup
    hlength.le (fun slot _ => Finset.notMem_empty slot.name), ofMembers?]
  simp only [Option.bind_eq_bind, Option.pure_def]

theorem foldlM_others
    {others : List (List Letter × Source)}
    (hothers : ∀ member ∈ others,
      ∃ name, member.1 = lettersOf name ∧ name ∉ slots.map Slot.name)
    (found : Finset String × τ) :
    others.foldlM (setMember slots) found = some found := by
  induction others with
  | nil => rfl
  | cons member others ih =>
      rw [List.forall_mem_cons] at hothers
      obtain ⟨name, hname, hother⟩ := hothers.1
      rw [List.foldlM_cons, setMember_of_other hname hother, Option.bind_eq_bind,
        Option.bind_some, ih hothers.2]

theorem Independent.ofMembers?_listed
    (hslots : Independent slots blank layout) {values : List Source}
    (hlength : values.length ≤ layout.length) {others : List (List Letter × Source)}
    (hothers : ∀ member ∈ others,
      ∃ name, member.1 = lettersOf name ∧ name ∉ layout.map Prod.fst) :
    ofMembers? slots blank (keyed (layout.map Prod.fst) values ++ others) =
      ofItems? slots blank values := by
  rw [names_eq hslots.follows] at hothers ⊢
  rw [hslots.follows.length_eq] at hlength
  rw [← foldlM_keyed hslots.nodup (fun _ => hslots.needed) (List.Subset.refl slots) hslots.nodup
    hlength (fun slot _ => Finset.notMem_empty slot.name), ofMembers?, List.foldlM_append]
  simp only [foldlM_others hothers, Option.bind_eq_bind, Option.bind_fun_some, Option.pure_def]

theorem Independent.ofItems?_default
    (hslots : Independent slots blank layout) {values : List Source} {name : String}
    {default : Source} (hfield : layout[values.length]? = some (name, some default)) :
    ofItems? slots blank (values ++ [default]) = ofItems? slots blank values := by
  obtain ⟨hlt, hget⟩ := List.getElem?_eq_some_iff.mp hfield
  have hlayout : layout = layout.take values.length ++
      (name, some default) :: layout.drop (values.length + 1) := by
    rw [← hget, ← List.drop_eq_getElem_cons hlt, List.take_append_drop]
  have hnames := (congrArg (List.map Prod.fst) hlayout).trans List.map_append
  have hfront : ((layout.take values.length).map Prod.fst).length = values.length := by
    rw [List.length_map, List.length_take, Nat.min_eq_left hlt.le]
  rw [List.map_cons] at hnames
  generalize (layout.take values.length).map Prod.fst = front at hnames hfront
  generalize (layout.drop (values.length + 1)).map Prod.fst = back at hnames
  have habsent : ∀ member ∈ keyed front values, member.1 ≠ lettersOf name := by
    intro member hmem hname
    obtain ⟨other, hother, hletters⟩ := exists_name_of_mem_keyed hmem
    obtain rfl : other = name := lettersOf_inj.mp (hletters.symm.trans hname)
    have hnodup := hslots.nodup
    rw [← names_eq hslots.follows, hnames, List.nodup_middle, List.nodup_cons] at hnodup
    exact hnodup.1 (List.mem_append_left back hother)
  have hlonger : keyed (front ++ name :: back) (values ++ [default]) =
      keyed front values ++ [(lettersOf name, default)] := by
    rw [keyed_append hfront]
    simp [keyed]
  have hshorter : keyed (front ++ name :: back) values = keyed front values := by
    have happend := keyed_append hfront (name :: back) []
    rw [List.append_nil] at happend
    rw [happend]
    simp [keyed]
  -- The items are those of an object, in which the default may stand in front.
  calc ofItems? slots blank (values ++ [default])
      = ofMembers? slots blank (keyed (layout.map Prod.fst) (values ++ [default]) ++ []) :=
        (hslots.ofMembers?_listed (by simpa using hlt) (by simp)).symm
    _ = ofMembers? slots blank ((lettersOf name, default) :: keyed front values) := by
        rw [List.append_nil, hnames, hlonger]
        exact hslots.ofMembers?_perm (List.perm_append_singleton _ _)
    _ = ofMembers? slots blank (keyed front values) :=
        hslots.ofMembers?_default (List.mem_of_getElem? hfield) habsent
    _ = ofMembers? slots blank (keyed (layout.map Prod.fst) values ++ []) := by
        rw [List.append_nil, hnames, hshorter]
    _ = ofItems? slots blank values := hslots.ofMembers?_listed hlt.le (by simp)

theorem Independent.respects_restyled (hslots : Independent slots blank layout) :
    Respects (ofSource? slots blank) (Restyled layout) := by
  intro source other hsame
  cases hsame with
  | listed hlength hothers => exact hslots.ofMembers?_listed hlength hothers
  | omitted hfield habsent => exact hslots.ofMembers?_default hfield habsent
  | shortened hfield => exact hslots.ofItems?_default hfield

end Slot

end ArgumentContract.Json
