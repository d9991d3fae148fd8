import ArgumentContract.Json.Record
import ArgumentContract.Proofs.Json.Skipped
import Mathlib.Data.Finset.Insert

/-!
# Spelled records are read

A reader for one shape of documents understands the documents of that shape and rejects all others.
A record is such a shape: a `Slot` tells what a field makes of the document it is given, and the
slots of a record tell what the record makes of an object or of a list.
-/

namespace ArgumentContract.Json

/-! ## Documents of one shape -/

namespace Source

/-- The characters that the text of a document can start with. -/
def StartsWith : Source → Char → Prop
  | null, c => c = 'n'
  | bool _, c => c = 't' ∨ c = 'f'
  | number _, c => startsNumber c = true
  | string _, c => c = '"'
  | array _, c => c = '['
  | object _, c => c = '\x7b'

def text? : Source → Option String
  | string letters => textOf? letters
  | _ => none

/-- The value of an integer that is not negative. -/
def natural? : Source → Option Nat
  | number parts => parts.integer?.bind fun n => if 0 ≤ n then some n.toNat else none
  | _ => none

def optional? {α : Type} (read : Source → Option α) : Source → Option (Option α)
  | null => some none
  | source => (read source).map some

def list? {α : Type} (read : Source → Option α) : Source → Option (List α)
  | array items => items.mapM read
  | _ => none

end Source

theorem Spells.exists_cons
    {depth : Nat} {text : List Char} {source : Source} (hspells : Spells depth text source) :
    ∃ c more, text = c :: more ∧ isBlank c = false ∧ source.StartsWith c := by
  cases hspells with
  | null => exact ⟨'n', _, rfl, rfl, rfl⟩
  | bool _ b =>
      cases b with
      | false => exact ⟨'f', _, rfl, rfl, Or.inr rfl⟩
      | true => exact ⟨'t', _, rfl, rfl, Or.inl rfl⟩
  | number _ hnumber =>
      obtain ⟨c, more, rfl, hstarts⟩ := hnumber.exists_cons
      exact ⟨c, more, rfl, isBlank_of_startsNumber hstarts, hstarts⟩
  | string _ _ => exact ⟨'"', _, rfl, rfl, rfl⟩
  | array _ _ _ => exact ⟨'[', _, rfl, rfl, rfl⟩
  | object _ _ _ => exact ⟨'\x7b', _, rfl, rfl, rfl⟩

theorem Spells.skipBlanks_append
    {depth : Nat} {text before : List Char} {source : Source}
    (hspells : Spells depth text source) (hbefore : IsBlanks before) (rest : List Char) :
    ∃ c more, skipBlanks (before ++ (text ++ rest)) = c :: more ∧ source.StartsWith c := by
  obtain ⟨c, more, rfl, hblank, hstarts⟩ := hspells.exists_cons
  exact ⟨c, more ++ rest, skipBlanks_append_cons hbefore hblank _, hstarts⟩

theorem Source.StartsWith.ne
    {source : Source} {c d : Char} (hstarts : source.StartsWith c)
    (hother : ¬ source.StartsWith d) : c ≠ d := by
  rintro rfl
  exact hother hstarts

theorem understands_readText (depth : Nat) : Understands depth readText Source.text? := by
  intro text source hspells before rest hbefore _
  obtain ⟨c, more, hskip, hstarts⟩ := hspells.skipBlanks_append hbefore rest
  cases source with
  | string letters =>
      cases hspells with
      | string _ hletters =>
          rw [List.cons_append, readText, skipBlanks_append_cons hbefore rfl]
          simp only [List.append_assoc, List.singleton_append]
          exact hletters.toOption_readString rest
  | null | bool | number | array | object =>
      have hquote : c ≠ '"' := hstarts.ne (by simp [Source.StartsWith, startsNumber])
      rw [readText, hskip]
      split
      next heq => exact absurd (List.cons.inj heq).1 hquote
      next => rfl

theorem understands_readNatural (depth : Nat) :
    Understands depth readNatural Source.natural? := by
  intro text source hspells before rest hbefore hrest
  obtain ⟨c, more, hskip, hstarts⟩ := hspells.skipBlanks_append hbefore rest
  cases source with
  | number parts =>
      cases hspells with
      | number _ hnumber =>
          have hread := hnumber.toOption_readNumber hrest
          obtain ⟨d, digits, rfl, hstarts⟩ := hnumber.exists_cons
          rw [List.cons_append] at hread ⊢
          rw [readNatural, skipBlanks_append_cons hbefore (isBlank_of_startsNumber hstarts)]
          simp only [hstarts, if_true, toOption_bind, hread, Source.natural?, NumberParts.number?]
          cases parts.integer? with
          | none => cases parts.real? <;> rfl
          | some n =>
              simp only [Option.map_some, Option.bind_some]
              split <;> rfl
  | null | bool | string | array | object =>
      have hnumber : startsNumber c = false := by
        rcases hstarts with rfl | rfl <;> rfl
      rw [readNatural, hskip]
      simp only [hnumber, Bool.false_eq_true, if_false]
      rfl

theorem Understands.readOptional
    {α : Type} {depth : Nat} {reader : Reader α} {read : Source → Option α}
    (hreader : Understands depth reader read) :
    Understands depth (readOptional reader) (Source.optional? read) := by
  intro text source hspells before rest hbefore hrest
  obtain ⟨c, more, hskip, hstarts⟩ := hspells.skipBlanks_append hbefore rest
  have hread := hreader text source hspells before rest hbefore hrest
  cases source with
  | null =>
      cases hspells with
      | null =>
          change (Json.readOptional reader (before ++ 'n' :: ("ull".toList ++ rest))).toOption = _
          rw [Json.readOptional, skipBlanks_append_cons hbefore rfl]
          rfl
  | bool | number | string | array | object =>
      have hother : c ≠ 'n' := hstarts.ne (by simp [Source.StartsWith, startsNumber])
      rw [Json.readOptional, hskip]
      split
      next heq => exact absurd (List.cons.inj heq).1 hother
      next =>
        rw [toOption_bind, hread, Source.optional?]
        · cases read _ <;> rfl
        · simp

theorem understands_readList
    {α : Type} {item : Nat → Reader α} {read : Source → Option α}
    (hitem : ∀ depth, Understands depth (item depth) read) (depth : Nat) :
    Understands depth (readList item depth) (Source.list? read) := by
  intro text source hspells before rest hbefore hrest
  obtain ⟨c, more, hskip, hstarts⟩ := hspells.skipBlanks_append hbefore rest
  cases source with
  | array items =>
      cases hspells with
      | array hblanks hpadded hspells =>
          rw [List.cons_append, readList, skipBlanks_append_cons hbefore rfl]
          simp only [List.append_assoc, List.singleton_append]
          exact toOption_readItems (hitem _) hpadded hspells hblanks rest
  | null | bool | number | string | object =>
      have hbracket : c ≠ '[' := hstarts.ne (by simp [Source.StartsWith, startsNumber])
      rw [readList, hskip]
      split
      next heq => exact absurd (List.cons.inj heq).1 hbracket
      next => rfl

/-! ## Fields -/

/-- What a field makes of the document that it is given. -/
structure Slot (τ : Type) where
  name : String
  neededInObject : Bool
  neededInList : Bool
  set : τ → Source → Option τ

namespace Slot

variable {τ : Type}

/-- A slot that reads a value and puts it into the record. -/
def updating {α : Type} (name : String) (neededInObject neededInList : Bool)
    (read : Source → Option α) (update : τ → α → τ) : Slot τ where
  name
  neededInObject
  neededInList
  set state source := (read source).map (update state)

/-- Sets the slot that a member of an object names, unless it was set before.  Members of other
names are passed over. -/
def setMember (slots : List (Slot τ)) (found : Finset String × τ)
    (member : List Letter × Source) : Option (Finset String × τ) := do
  let key ← textOf? member.1
  match slots.find? (·.name = key) with
  | some slot =>
      if key ∈ found.1 then none
      else return (insert key found.1, ← slot.set found.2 member.2)
  | none => return found

def ofMembers? (slots : List (Slot τ)) (blank : τ) (members : List (List Letter × Source)) :
    Option τ := do
  let (seen, state) ← members.foldlM (setMember slots) (∅, blank)
  if slots.any fun slot => slot.neededInObject && decide (slot.name ∉ seen) then none
  else return state

def ofItems? : List (Slot τ) → τ → List Source → Option τ
  | [], state, [] => some state
  | [], _, _ :: _ => none
  | slot :: slots, state, [] =>
      if (slot :: slots).any (·.neededInList) then none else some state
  | slot :: slots, state, item :: items => do ofItems? slots (← slot.set state item) items

/-- What a record makes of a document, starting from its defaults. -/
def ofSource? (slots : List (Slot τ)) (blank : τ) : Source → Option τ
  | .array items => ofItems? slots blank items
  | .object members => ofMembers? slots blank members
  | _ => none

end Slot

variable {σ τ : Type} {view : σ → τ}

/-- What a reader finds, seen through a function. -/
def viewed (view : σ → τ) (reader : Reader σ) : Reader τ := fun text => do
  let (found, rest) ← reader text
  return (view found, rest)

theorem toOption_viewed (view : σ → τ) (reader : Reader σ) (text : List Char) :
    (viewed view reader text).toOption = (reader text).toOption.map (Prod.map view id) := by
  rw [viewed, toOption_bind]
  cases (reader text).toOption <;> rfl

/-- A field fills a slot, if records are seen through a function. -/
structure Field.Fills (view : σ → τ) (field : Field σ) (slot : Slot τ) : Prop where
  name : field.name = slot.name
  neededInObject : field.neededInObject = slot.neededInObject
  neededInList : field.neededInList = slot.neededInList
  understands : ∀ depth state,
    Understands depth (viewed view (field.read depth state)) (slot.set (view state))

theorem Understands.map
    {depth : Nat} {reader : Reader σ} {read : Source → Option σ}
    (hreader : Understands depth reader read) (view : σ → τ) :
    Understands depth (viewed view reader) fun source => (read source).map view := by
  intro text source hspells before rest hbefore hrest
  rw [toOption_viewed, hreader text source hspells before rest hbefore hrest]
  simp only [Option.map_map]
  rfl

theorem Understands.fills
    {α : Type} {name : String} {neededInObject neededInList : Bool} {reader : Nat → Reader α}
    {read : Source → Option α} (set : σ → α → σ) {update : τ → α → τ}
    (hreader : ∀ depth, Understands depth (reader depth) read)
    (hview : ∀ state x, view (set state x) = update (view state) x) :
    Field.Fills view
      { name, neededInObject, neededInList
        read := fun depth state => viewed (set state) (reader depth) }
      (.updating name neededInObject neededInList read update) where
  name := rfl
  neededInObject := rfl
  neededInList := rfl
  understands depth state text source hspells before rest hbefore hrest := by
    rw [toOption_viewed, toOption_viewed, hreader depth text source hspells before rest hbefore
      hrest]
    simp only [Slot.updating]
    cases read source with
    | none => rfl
    | some x => exact congrArg (fun next => some (next, rest)) (hview state x)

theorem Understands.of_viewed_id
    {depth : Nat} {reader : Reader σ} {read : Source → Option σ}
    (hreader : Understands depth (Json.viewed id reader) read) : Understands depth reader read := by
  intro text source hspells before rest hbefore hrest
  rw [← hreader text source hspells before rest hbefore hrest, toOption_viewed, Prod.map_id,
    Option.map_id_apply]

theorem toOption_readDocument_viewed (view : σ → τ) (reader : Nat → Reader σ) (text : String) :
    (readDocument (fun depth => viewed view (reader depth)) text).toOption =
      (readDocument reader text).toOption.map view := by
  rw [readDocument, readDocument, toOption_bind, toOption_bind, toOption_viewed]
  cases (reader nestingLimit text.toList).toOption with
  | none => rfl
  | some found =>
      simp only [Option.map_some, Option.bind_some, Prod.map, id]
      split <;> rfl

theorem find?_fills
    {fields : List (Field σ)} {slots : List (Slot τ)}
    (hfields : List.Forall₂ (Field.Fills view) fields slots) (key : String) :
    (∃ field slot, fields.find? (·.name = key) = some field ∧
        slots.find? (·.name = key) = some slot ∧ field.Fills view slot) ∨
      (fields.find? (·.name = key) = none ∧ slots.find? (·.name = key) = none) := by
  induction hfields with
  | nil => exact Or.inr ⟨rfl, rfl⟩
  | @cons field slot fields slots hfield hfields ih =>
      by_cases hkey : slot.name = key
      · have hfieldKey : field.name = key := hfield.name.trans hkey
        exact Or.inl ⟨field, slot, by simp [hfieldKey], by simp [hkey], hfield⟩
      · have hfieldKey : field.name ≠ key := hfield.name.trans_ne hkey
        simpa [List.find?_cons, hkey, hfieldKey] using ih

theorem any_fills
    {fields : List (Field σ)} {slots : List (Slot τ)}
    (hfields : List.Forall₂ (Field.Fills view) fields slots) {p : Field σ → Bool}
    {q : Slot τ → Bool} (hpq : ∀ field slot, field.Fills view slot → p field = q slot) :
    fields.any p = slots.any q := by
  induction hfields with
  | nil => rfl
  | cons hfield hfields ih => rw [List.any_cons, List.any_cons, hpq _ _ hfield, ih]

/-! ## Records -/

namespace Record

variable {record : Record σ} {slots : List (Slot τ)} {depth : Nat}

/-- The names seen so far and the record, as `Slot.setMember` leaves them. -/
def progress (view : σ → τ) : (List String × σ) × List Char → (Finset String × τ) × List Char :=
  Prod.map (Prod.map List.toFinset view) id

theorem toOption_readMember
    (hfields : List.Forall₂ (Field.Fills view) record.fields slots) {member : Member}
    (hkeyed : member.IsKeyed) (hspells : Spells depth member.value.text member.value.source)
    {key : String} (hkey : textOf? member.letters = some key) (seen : List String) (state : σ)
    {rest : List Char} (hrest : EndsNumber rest) :
    (record.readMember depth seen state key
        (member.after ++ ':' :: (member.value.padded ++ rest))).toOption.map (progress view) =
      (Slot.setMember slots (seen.toFinset, view state) member.source).map
        (·, member.value.after ++ rest) := by
  have hends := hkeyed.value.2.endsNumber_append hrest
  rw [readMember, Slot.setMember, Member.source, hkey]
  rcases find?_fills hfields key with ⟨field, slot, hfield, hslot, hfills⟩ | ⟨hfield, hslot⟩
  · simp only [hfield, hslot, Option.bind_eq_bind, Option.bind_some]
    by_cases hseen : key ∈ seen
    · simp [hseen, Except.toOption]
    · have hread := hfills.understands depth state _ _ hspells _ _ hkeyed.value.1 hends
      rw [toOption_viewed] at hread
      simp only [hseen, List.contains_iff_mem, List.mem_toFinset, if_false,
        readColon_append hkeyed.after, ok_bind, Element.padded, List.append_assoc, toOption_bind]
      cases hset : slot.set (view state) member.value.source with
      | none =>
          rw [hset, Option.map_none, Option.map_eq_none_iff] at hread
          rw [hread]
          rfl
      | some next =>
          rw [hset, Option.map_some, Option.map_eq_some_iff] at hread
          obtain ⟨⟨found, behind⟩, hfound, hview⟩ := hread
          obtain ⟨rfl, rfl⟩ := Prod.mk.inj hview
          rw [hfound]
          simp [progress, Except.toOption, pure, Except.pure]
  · have hskip := hspells.skipDocument_append hkeyed.value.1 hends
    simp only [hfield, hslot, Option.bind_eq_bind, Option.bind_some, readColon_append hkeyed.after,
      ok_bind, Element.padded, List.append_assoc, hskip]
    rfl

theorem readMembers_spelled
    (hfields : List.Forall₂ (Field.Fills view) record.fields slots) {members : List Member}
    (hkeyed : ∀ member ∈ members, member.IsKeyed)
    (hspells : ∀ member ∈ members, Spells depth member.value.text member.value.source)
    (first : Bool) {count : Nat} (hcount : members.length < count) {blanks : List Char}
    (hblanks : IsBlanks blanks) (seen : List String) (state : σ) (rest : List Char) :
    (record.readMembers depth count first seen state
        (blanks ++ (separated first (members.map Member.padded) ++
          '\x7d' :: rest))).toOption.map (progress view) =
      ((members.map Member.source).foldlM (Slot.setMember slots)
        (seen.toFinset, view state)).map (·, rest) := by
  induction members generalizing first count blanks seen state with
  | nil =>
      obtain ⟨count, rfl⟩ := Nat.exists_eq_add_of_lt hcount
      rw [List.map_nil, separated_nil, List.nil_append, readMembers, nextKey_closing _ hblanks]
      rfl
  | cons member members ih =>
      obtain ⟨count, rfl⟩ : ∃ smaller, count = smaller + 1 := ⟨count - 1, by omega⟩
      rw [List.forall_mem_cons] at hkeyed hspells
      obtain ⟨hkeyedHead, hkeyed⟩ := hkeyed
      obtain ⟨hhead, hspells⟩ := hspells
      have hrest := ih hkeyed hspells false (Nat.lt_of_succ_lt_succ hcount) hkeyedHead.value.2
      have hends := endsNumber_separated (Or.inr rfl) isBlanks_nil (members.map Member.padded) rest
      rw [List.nil_append] at hends
      simp only [List.map_cons, separated_cons, Member.padded, List.append_assoc, List.cons_append]
      rw [readMembers, nextKey_quote first hblanks hkeyedHead.before]
      simp only [ok_bind, toOption_bind, hkeyedHead.letters.toOption_readString,
        List.foldlM_cons]
      cases hkey : textOf? member.letters with
      | none => simp [Slot.setMember, Member.source, hkey]
      | some key =>
          have hmember := toOption_readMember hfields hkeyedHead hhead hkey seen state hends
          simp only [Option.map_some, Option.bind_some]
          cases hset : Slot.setMember slots (seen.toFinset, view state) member.source with
          | none =>
              rw [hset, Option.map_none, Option.map_eq_none_iff] at hmember
              rw [hmember]
              rfl
          | some next =>
              rw [hset, Option.map_some, Option.map_eq_some_iff] at hmember
              obtain ⟨⟨⟨others, found⟩, behind⟩, hfound, hview⟩ := hmember
              obtain ⟨rfl, rfl⟩ := Prod.mk.inj hview
              rw [hfound]
              exact hrest others found

/-- An object is understood as a record member by member. -/
theorem toOption_readObject
    (hfields : List.Forall₂ (Field.Fills view) record.fields slots) {members : List Member}
    (hkeyed : ∀ member ∈ members, member.IsKeyed)
    (hspells : ∀ member ∈ members, Spells depth member.value.text member.value.source)
    {blanks : List Char} (hblanks : IsBlanks blanks) (rest : List Char) :
    (record.readObject depth
        (blanks ++ (separated true (members.map Member.padded) ++
          '\x7d' :: rest))).toOption.map (Prod.map view id) =
      (Slot.ofMembers? slots (view record.blank) (members.map Member.source)).map (·, rest) := by
  have hcount := length_lt_padded (keyed_ne_nil members) true blanks '\x7d' rest
  rw [List.length_map] at hcount
  have hmembers := readMembers_spelled hfields hkeyed hspells true hcount hblanks [] record.blank
    rest
  rw [List.toFinset_nil] at hmembers
  rw [readObject, Slot.ofMembers?, toOption_bind]
  cases hset : (members.map Member.source).foldlM (Slot.setMember slots)
      (∅, view record.blank) with
  | none =>
      rw [hset, Option.map_none, Option.map_eq_none_iff] at hmembers
      rw [hmembers]
      rfl
  | some next =>
      rw [hset, Option.map_some, Option.map_eq_some_iff] at hmembers
      obtain ⟨⟨⟨seen, found⟩, behind⟩, hfound, hview⟩ := hmembers
      obtain ⟨rfl, rfl⟩ := Prod.mk.inj hview
      rw [hfound]
      have hneeded :
          record.fields.any (fun field => field.neededInObject && !seen.contains field.name) =
            slots.any fun slot => slot.neededInObject && decide (slot.name ∉ seen.toFinset) := by
        refine any_fills hfields fun field slot hfills => ?_
        simp [hfills.neededInObject, hfills.name]
      simp only [Option.bind_some, Option.bind_eq_bind, Prod.map, id]
      rw [← hneeded, ← List.isSome_find?]
      cases record.fields.find? fun field => field.neededInObject && !seen.contains field.name with
      | none => rfl
      | some field => rfl

theorem toOption_closeList_separated
    (first : Bool) {elements : List Element}
    (hpadded : ∀ element ∈ elements, element.IsPadded)
    (hspells : ∀ element ∈ elements, Spells depth element.text element.source)
    {blanks : List Char} (hblanks : IsBlanks blanks) (rest : List Char) :
    (closeList (blanks ++ (separated first (elements.map Element.padded) ++
        ']' :: rest))).toOption =
      if elements.isEmpty then some rest else none := by
  cases elements with
  | nil =>
      rw [List.map_nil, separated_nil, List.nil_append, closeList,
        skipBlanks_append_cons hblanks rfl]
      rfl
  | cons element elements =>
      simp only [List.map_cons, separated_cons, Element.padded, List.append_assoc]
      cases first with
      | true =>
          obtain ⟨c, more, htext, hblank, hcomma, hclosing⟩ :=
            (hspells element (List.mem_cons_self ..)).startsPart
          have hbefore := (hpadded element (List.mem_cons_self ..)).1
          simp only [comma, if_true, List.nil_append, htext, List.cons_append]
          rw [closeList, skipBlanks_append hblanks, skipBlanks_append_cons hbefore hblank]
          split
          next heq => contradiction
          next heq => exact absurd (List.cons.inj heq).1 hclosing
          next heq => exact absurd (List.cons.inj heq).1 hcomma
          next => rfl
      | false =>
          simp only [comma, Bool.false_eq_true, if_false, List.cons_append, List.nil_append]
          rw [closeList, skipBlanks_append_cons hblanks rfl]
          simp only
          split <;> rfl

theorem readPositions_spelled
    {fields : List (Field σ)} (hfields : List.Forall₂ (Field.Fills view) fields slots)
    {elements : List Element} (hpadded : ∀ element ∈ elements, element.IsPadded)
    (hspells : ∀ element ∈ elements, Spells depth element.text element.source)
    (count : Nat) {blanks : List Char} (hblanks : IsBlanks blanks) (state : σ)
    (rest : List Char) :
    (record.readPositions depth count fields state
        (blanks ++ (separated (decide (count = 0)) (elements.map Element.padded) ++
          ']' :: rest))).toOption.map (Prod.map view id) =
      (Slot.ofItems? slots (view state) (elements.map Element.source)).map (·, rest) := by
  induction hfields generalizing elements count blanks state with
  | nil =>
      have hclose := toOption_closeList_separated (decide (count = 0)) hpadded hspells hblanks rest
      rw [readPositions, toOption_bind, hclose]
      cases elements <;> rfl
  | @cons field slot fields slots hfield hfields ih =>
      cases elements with
      | nil =>
          rw [List.map_nil, separated_nil, List.nil_append, readPositions,
            nextItem_closing _ hblanks]
          have hneeded :
              (field :: fields).any (·.neededInList) = (slot :: slots).any (·.neededInList) :=
            any_fills (.cons hfield hfields) fun _ _ hfills => hfills.neededInList
          simp only [ok_bind, hneeded, List.map_nil, Slot.ofItems?]
          split <;> rfl
      | cons element elements =>
          rw [List.forall_mem_cons] at hpadded hspells
          obtain ⟨⟨hbefore, hafter⟩, hpadded⟩ := hpadded
          obtain ⟨hhead, hspells⟩ := hspells
          have hends := endsNumber_separated (Or.inl rfl) hafter (elements.map Element.padded) rest
          have hread := hfield.understands depth state _ _ hhead [] _ isBlanks_nil hends
          rw [toOption_viewed, List.nil_append] at hread
          simp only [List.map_cons, separated_cons, Element.padded, List.append_assoc]
          rw [readPositions, hhead.startsPart.nextItem_padded _ hblanks hbefore]
          simp only [ok_bind, toOption_bind, Slot.ofItems?]
          cases hset : slot.set (view state) element.source with
          | none =>
              rw [hset, Option.map_none, Option.map_eq_none_iff] at hread
              rw [hread]
              rfl
          | some next =>
              rw [hset, Option.map_some, Option.map_eq_some_iff] at hread
              obtain ⟨⟨found, behind⟩, hfound, hview⟩ := hread
              obtain ⟨rfl, rfl⟩ := Prod.mk.inj hview
              rw [hfound]
              exact ih hpadded hspells (count + 1) hafter found

/-- A document is understood as a record field by field, in either form. -/
theorem understands_read
    (hfields : List.Forall₂ (Field.Fills view) record.fields slots) (depth : Nat) :
    Understands depth (viewed view (record.read depth))
      (Slot.ofSource? slots (view record.blank)) := by
  intro text source hspells before rest hbefore hrest
  obtain ⟨c, more, hskip, hstarts⟩ := hspells.skipBlanks_append hbefore rest
  rw [toOption_viewed]
  cases source with
  | array items =>
      cases hspells with
      | array hblanks hpadded hspells =>
          rw [List.cons_append, read, skipBlanks_append_cons hbefore rfl]
          simp only [List.append_assoc, List.singleton_append]
          exact readPositions_spelled hfields hpadded hspells 0 hblanks record.blank rest
  | object members =>
      cases hspells with
      | object hblanks hkeyed hspells =>
          rw [List.cons_append, read, skipBlanks_append_cons hbefore rfl]
          simp only [List.append_assoc, List.singleton_append]
          exact toOption_readObject hfields hkeyed hspells hblanks rest
  | null | bool | number | string =>
      have hbracket : c ≠ '[' := hstarts.ne (by simp [Source.StartsWith, startsNumber])
      have hbrace : c ≠ '\x7b' := hstarts.ne (by simp [Source.StartsWith, startsNumber])
      rw [read, hskip]
      split
      next heq => exact absurd (List.cons.inj heq).1 hbracket
      next heq => exact absurd (List.cons.inj heq).1 hbrace
      next => rfl

end Record

end ArgumentContract.Json
