import ArgumentContract.Proofs.CallStack.Registration
import ArgumentContract.Proofs.Json.PrintedSpelling
import ArgumentContract.Proofs.Json.Respelling
import ArgumentContract.Proofs.Value.Decoding

/-!
# Call stacks do not depend on their spelling

A call stack can be spelled in many ways: blanks, the order of members, records as objects or as
lists, defaults, and the entries of the callable names.  `Respelled` lists the changes one by one.
The stack that is loaded is the same after any number of them, in either direction, and there is one
if there is one before.
-/

namespace ArgumentContract

open Json (Source Letter Slot Layout SpellsDocument Understands Reordered Restyled InField InItem
  Respects lettersOf textOf?)

/-! ## Arguments -/

namespace Value

open Json (HasSole)

theorem document?_eq_none_of_reordered {source other : Source} (hsame : Reordered source other) :
    source.document? = none ↔ other.document? = none := by
  induction hsame with
  | members hperm =>
      simp only [Source.document?, Source.memberDocuments?_eq_mapM, Option.map_eq_none_iff,
        Json.mapM_eq_none_iff, hperm.mem_iff]
  | item hitem ih =>
      simp only [Source.document?, Source.itemDocuments?_eq_mapM, Option.map_eq_none_iff,
        Json.mapM_eq_none_iff, List.mem_append, List.mem_cons, or_and_right, exists_or,
        exists_eq_left, ih]
  | @value before after key value other hvalue ih =>
      have hmember : Source.member? Source.document? (key, value) = none ↔
          Source.member? Source.document? (key, other) = none := by
        cases hleft : value.document? <;> cases hright : other.document? <;>
          simp [Source.member?, hleft, hright] at ih ⊢
      simp only [Source.document?, Source.memberDocuments?_eq_mapM, Option.map_eq_none_iff,
        Json.mapM_eq_none_iff, List.mem_append, List.mem_cons, or_and_right, exists_or,
        exists_eq_left, hmember]

theorem ofSource?_object_congr
    {members others : List (List Letter × Source)}
    (hnone : (Source.object members).document? = none ↔ (Source.object others).document? = none)
    (hsole : ∀ name text, HasSole members name text ↔ HasSole others name text) :
    ofSource? (.object members) = ofSource? (.object others) := by
  simp only [Source.document?, Source.memberDocuments?_eq_mapM, Option.map_eq_none_iff] at hnone
  rw [ofSource?_object, ofSource?_object]
  cases hdocuments : members.mapM (Source.member? Source.document?) with
  | none =>
      rw [hnone.mp hdocuments]
  | some documents =>
      obtain ⟨further, hfurther⟩ :
          ∃ further, others.mapM (Source.member? Source.document?) = some further := by
        rw [← Option.ne_none_iff_exists', Ne, ← hnone, hdocuments]
        simp
      have hname (name : String) :
          Json.soleString? name documents = Json.soleString? name further := by
        refine Option.ext fun text => ?_
        rw [Json.soleString?_eq_some_iff hdocuments, Json.soleString?_eq_some_iff hfurther, hsole]
      rw [hfurther]
      simp only [Option.bind_some, ofMembers?, hname]

theorem hasSole_perm
    {members others : List (List Letter × Source)} (hperm : members.Perm others)
    (name text : String) : HasSole members name text ↔ HasSole others name text := by
  rw [← Json.filter_eq_singleton_iff, ← Json.filter_eq_singleton_iff]
  have hfilter := hperm.filter (fun member => decide (member.1 = lettersOf name))
  constructor
  · intro hmembers
    rw [hmembers] at hfilter
    exact List.singleton_perm.mp hfilter |>.symm
  · intro hothers
    rw [hothers] at hfilter
    exact List.perm_singleton.mp hfilter

/-- What an object is told by does not lie in members with other values than strings. -/
theorem hasSole_of_not_string
    {before after : List (List Letter × Source)} {key : List Letter} {value other : Source}
    (hvalue : ∀ letters, value ≠ .string letters) {name text : String}
    (hsole : HasSole (before ++ (key, value) :: after) name text) :
    HasSole (before ++ (key, other) :: after) name text := by
  rw [← Json.filter_eq_singleton_iff] at hsole ⊢
  have hkey : key ≠ lettersOf name := by
    rintro rfl
    have hmem : (lettersOf name, value) ∈
        (before ++ (lettersOf name, value) :: after).filter (·.1 = lettersOf name) := by simp
    rw [hsole, List.mem_singleton] at hmem
    exact hvalue _ (Prod.mk.inj hmem).2
  simpa [hkey] using hsole

theorem respects_ofSource?_reordered : Respects ofSource? Reordered := by
  intro source other hsame
  induction hsame with
  | members hperm =>
      exact ofSource?_object_congr (document?_eq_none_of_reordered (.members hperm))
        (hasSole_perm hperm)
  | item hitem ih => simp only [ofSource?_array, List.mapM_append, List.mapM_cons, ih]
  | @value before after key value other hvalue ih =>
      have hstrings :
          (∀ letters, value ≠ .string letters) ∧ ∀ letters, other ≠ .string letters := by
        cases hvalue <;> simp
      exact ofSource?_object_congr (document?_eq_none_of_reordered (.value hvalue)) fun name text =>
        ⟨hasSole_of_not_string hstrings.1, hasSole_of_not_string hstrings.2⟩

end Value

/-! ## Frames -/

namespace Frame

def layout : Layout := [("function", none), ("scope", some .null), ("args", some (.array []))]

def slots : List (Slot Frame) :=
  [.updating "function" true true Source.text? fun frame function => { frame with function },
   .updating "scope" false false (Source.optional? Source.text?)
     fun frame scope => { frame with scope },
   .updating "args" false false (Source.list? Value.ofSource?)
     fun frame arguments => { frame with arguments }]

/-- The frame of a document as it is written. -/
def ofSource? : Source → Option Frame := Slot.ofSource? slots record.blank

theorem fills : List.Forall₂ (Json.Field.Fills id) record.fields slots := by
  have hname := Json.understands_readText
  refine .cons ?_ (.cons ?_ (.cons ?_ .nil))
  · exact Understands.fills (fun (frame : Frame) function => { frame with function }) hname
      fun _ _ => rfl
  · exact Understands.fills (fun (frame : Frame) scope => { frame with scope })
      (fun depth => (hname depth).readOptional) fun _ _ => rfl
  · exact Understands.fills (fun (frame : Frame) arguments => { frame with arguments })
      (Json.understands_readList Value.understands_read) fun _ _ => rfl

theorem understands_read (depth : Nat) : Understands depth (read depth) ofSource? :=
  (Json.Record.understands_read fills depth).of_viewed_id

theorem independent : Slot.Independent slots record.blank layout where
  follows :=
    .cons ⟨rfl, nofun⟩
      (.cons ⟨rfl, fun _ hdefault => Option.some.inj hdefault ▸ ⟨rfl, rfl⟩⟩
        (.cons ⟨rfl, fun _ hdefault => Option.some.inj hdefault ▸ ⟨rfl, rfl⟩⟩ .nil))
  needed := by simp [slots, Slot.updating]
  nodup := by decide
  commute := by
    intro slot hslot other hother hname
    simp only [slots, List.mem_cons, List.not_mem_nil, or_false] at hslot hother
    rcases hslot with rfl | rfl | rfl <;> rcases hother with rfl | rfl | rfl
    all_goals
      first
      | exact absurd rfl hname
      | exact Slot.updating_comm fun _ _ _ => rfl

/-- A frame is spelled in another way. -/
inductive Respelled : Source → Source → Prop
  | reordered {source other : Source} (hsame : Reordered source other) : Respelled source other
  | restyled {source other : Source} (hsame : Restyled layout source other) :
      Respelled source other

theorem respects_respelled : Respects ofSource? Respelled := by
  intro source other hsame
  cases hsame with
  | reordered hsame =>
      refine independent.respects_reordered ?_ _ _ hsame
      simp only [slots, List.forall_mem_cons]
      have hname := Json.respects_text?_reordered
      exact ⟨Slot.respects_updating hname, Slot.respects_updating hname.optional?_reordered,
        Slot.respects_updating Value.respects_ofSource?_reordered.list?_reordered, by simp⟩
  | restyled hsame => exact independent.respects_restyled _ _ hsame

end Frame

/-! ## Callable names -/

namespace Json

def Letter.toLower : Letter → Letter
  | char c => .char c.toLower
  | half unit => .half unit

theorem textOf?_map_toLower (letters : List Letter) :
    textOf? (letters.map Letter.toLower) = (textOf? letters).map lowercase := by
  have hchars : (letters.map Letter.toLower).mapM Letter.char? =
      (letters.mapM Letter.char?).map (List.map Char.toLower) := by
    induction letters with
    | nil => rfl
    | cons letter letters ih =>
        rw [List.map_cons, List.mapM_cons, List.mapM_cons, ih]
        cases letter <;> cases letters.mapM Letter.char? <;> rfl
  rw [textOf?, hchars, textOf?, Option.map_map, Option.map_map]
  simp [Function.comp_def, lowercase]

end Json

namespace CallStack

/-- Two entries of the callable names that agree up to the case of ASCII letters. -/
inductive SameEntry : Source → Source → Prop
  | same (source : Source) : SameEntry source source
  | cased {letters others : List Letter}
      (hcase : letters.map Json.Letter.toLower = others.map Json.Letter.toLower) :
      SameEntry (.string letters) (.string others)

/-- Every entry of either list is an entry of the other one, up to the case of ASCII letters. -/
inductive SameEntries : Source → Source → Prop
  | array {items others : List Source}
      (hitems : ∀ item ∈ items, ∃ other ∈ others, SameEntry item other)
      (hothers : ∀ other ∈ others, ∃ item ∈ items, SameEntry item other) :
      SameEntries (.array items) (.array others)

def registered (names : List String) : NameSet := (NameSet.ofList names).map lowercase

theorem SameEntry.symm {source other : Source} (hsame : SameEntry source other) :
    SameEntry other source := by
  cases hsame with
  | same => exact .same source
  | cased hcase => exact .cased hcase.symm

theorem SameEntry.map_lowercase {source other : Source} (hsame : SameEntry source other) :
    source.text?.map lowercase = other.text?.map lowercase := by
  cases hsame with
  | same => rfl
  | cased hcase =>
      simp only [Source.text?, ← Json.textOf?_map_toLower, hcase]

theorem mapM_text?_eq_none
    {items others : List Source} (hitems : ∀ item ∈ items, ∃ other ∈ others, SameEntry item other)
    (hnone : items.mapM Source.text? = none) : others.mapM Source.text? = none := by
  obtain ⟨item, hmem, htext⟩ := Json.mapM_eq_none_iff.mp hnone
  obtain ⟨other, hother, hsame⟩ := hitems item hmem
  have hlowercase := hsame.map_lowercase
  rw [htext, Option.map_none, eq_comm, Option.map_eq_none_iff] at hlowercase
  exact Json.mapM_eq_none_iff.mpr ⟨other, hother, hlowercase⟩

theorem mem_registered_iff
    {items : List Source} {names : List String} (hnames : items.mapM Source.text? = some names)
    {name : String} :
    name ∈ (registered names).names ↔
      ∃ item ∈ items, item.text?.map lowercase = some name := by
  have hpairs : List.Forall₂ (fun item name => item.text? = some name) items names :=
    (Json.mapM_eq_some_iff fun _ _ _ => Iff.rfl).mp hnames
  have hmem (written : String) : written ∈ names ↔ ∃ item ∈ items, item.text? = some written := by
    clear hnames
    induction hpairs with
    | nil => simp
    | cons hhead hpairs ih => simp [hhead, ih, eq_comm]
  simp only [registered, NameSet.mem_map, NameSet.mem_ofList, hmem, Option.map_eq_some_iff]
  constructor
  · rintro ⟨written, ⟨item, hitem, htext⟩, hname⟩
    exact ⟨item, hitem, written, htext, hname⟩
  · rintro ⟨item, hitem, written, htext, hname⟩
    exact ⟨written, ⟨item, hitem, htext⟩, hname⟩

theorem registered_respects_sameEntries :
    Respects (fun source => (source.list? Source.text?).map registered) SameEntries := by
  rintro _ _ ⟨hitems, hothers⟩
  rename_i items others
  simp only [Source.list?]
  have hback : ∀ other ∈ others, ∃ item ∈ items, SameEntry other item := by
    intro other hmem
    obtain ⟨item, hitem, hsame⟩ := hothers other hmem
    exact ⟨item, hitem, hsame.symm⟩
  cases hnames : items.mapM Source.text? with
  | none => rw [mapM_text?_eq_none hitems hnames]
  | some names =>
      cases hfurther : others.mapM Source.text? with
      | none =>
          rw [mapM_text?_eq_none hback hfurther] at hnames
          contradiction
      | some further =>
          rw [Option.map_some, Option.map_some, Option.some.injEq]
          refine NameSet.ext_mem fun name => ?_
          rw [mem_registered_iff hnames, mem_registered_iff hfurther]
          constructor
          · rintro ⟨item, hitem, hname⟩
            obtain ⟨other, hother, hsame⟩ := hitems item hitem
            exact ⟨other, hother, hsame.map_lowercase ▸ hname⟩
          · rintro ⟨other, hother, hname⟩
            obtain ⟨item, hitem, hsame⟩ := hothers other hother
            exact ⟨item, hitem, hsame.map_lowercase ▸ hname⟩

/-! ## Call stacks -/

def layout : Layout := [("frames", some (.array [])), ("callables", some (.array []))]

/-- The fields of a call stack that registers its callable names. -/
def slots : List (Slot CallStack) :=
  [.updating "frames" false false (Source.list? Frame.ofSource?)
     fun stack frames => { stack with frames },
   .updating "callables" false false (Source.list? Source.text?)
     fun stack names => { stack with callables := registered names }]

/-- The call stack that is loaded from a document as it is written. -/
def ofSource? : Source → Option CallStack := Slot.ofSource? slots empty

theorem fills : List.Forall₂ (Json.Field.Fills normalize) record.fields slots := by
  refine .cons ?_ (.cons ?_ .nil)
  · exact Understands.fills (fun (stack : CallStack) frames => { stack with frames })
      (Json.understands_readList Frame.understands_read) fun _ _ => rfl
  · exact Understands.fills
      (fun (stack : CallStack) names => { stack with callables := NameSet.ofList names })
      (Json.understands_readList Json.understands_readText) fun _ _ => rfl

/-- Loading a spelled document depends on what is spelled alone. -/
theorem toOption_load
    {text : String} {source : Source} (hspells : SpellsDocument 127 text source) :
    (load text).toOption = ofSource? source := by
  have hload : (load text).toOption = (ofText text).toOption.map normalize := by
    rw [load_eq_map]
    cases ofText text <;> rfl
  rw [hload, ofText, ← Json.toOption_readDocument_viewed]
  exact (Json.Record.understands_read fills Json.nestingLimit).readDocument hspells

theorem independent : Slot.Independent slots empty layout where
  follows :=
    .cons ⟨rfl, fun _ hdefault => Option.some.inj hdefault ▸ ⟨rfl, rfl⟩⟩
      (.cons ⟨rfl, fun _ hdefault => Option.some.inj hdefault ▸ ⟨rfl, rfl⟩⟩ .nil)
  needed := by simp [slots, Slot.updating]
  nodup := by decide
  commute := by
    intro slot hslot other hother hname
    simp only [slots, List.mem_cons, List.not_mem_nil, or_false] at hslot hother
    rcases hslot with rfl | rfl <;> rcases hother with rfl | rfl
    all_goals
      first
      | exact absurd rfl hname
      | exact Slot.updating_comm fun _ _ _ => rfl

/-- A call stack is spelled in another way. -/
inductive Respelled : Source → Source → Prop
  | reordered {source other : Source} (hsame : Reordered source other) : Respelled source other
  | restyled {source other : Source} (hsame : Restyled layout source other) :
      Respelled source other
  | frame {source other : Source}
      (hsame : InField layout "frames" (InItem Frame.Respelled) source other) :
      Respelled source other
  | callables {source other : Source}
      (hsame : InField layout "callables" SameEntries source other) : Respelled source other

theorem respects_respelled : Respects ofSource? Respelled := by
  intro source other hsame
  cases hsame with
  | reordered hsame =>
      refine independent.respects_reordered ?_ _ _ hsame
      have hframe : Respects Frame.ofSource? Reordered := fun source other hsame =>
        Frame.respects_respelled source other (.reordered hsame)
      simp only [slots, List.forall_mem_cons]
      exact ⟨Slot.respects_updating hframe.list?_reordered,
        Slot.respects_updating Json.respects_text?_reordered.list?_reordered, by simp⟩
  | restyled hsame => exact independent.respects_restyled _ _ hsame
  | frame hsame =>
      refine Slot.respects_inField independent.follows ?_ _ _ hsame
      simp only [slots, List.forall_mem_cons]
      exact ⟨fun _ => Slot.respects_updating Frame.respects_respelled.list?_inItem,
        fun hname => absurd hname (by decide), by simp⟩
  | callables hsame =>
      refine Slot.respects_inField independent.follows ?_ _ _ hsame
      simp only [slots, List.forall_mem_cons]
      refine ⟨fun hname => absurd hname (by decide), fun _ stack source other hsame => ?_, by simp⟩
      have hregistered := congrArg (Option.map ({ stack with callables := · }))
        (registered_respects_sameEntries source other hsame)
      simp only [Option.map_map] at hregistered
      exact hregistered

/-- Documents of call stacks that are spelled in other ways load as the same call stack, or neither
of them loads. -/
theorem load_respelled
    {text other : String} {source respelled : Source}
    (hspells : SpellsDocument 127 text source) (hother : SpellsDocument 127 other respelled)
    (hsame : Relation.EqvGen Respelled source respelled) (stack : CallStack) :
    load text = .ok stack ↔ load other = .ok stack := by
  have hoption : (load text).toOption = (load other).toOption := by
    rw [toOption_load hspells, toOption_load hother, respects_respelled.eqvGen _ _ hsame]
  constructor
  · intro hload
    rw [hload] at hoption
    exact Json.eq_ok_of_toOption hoption.symm
  · intro hload
    rw [hload] at hoption
    exact Json.eq_ok_of_toOption hoption

theorem load_respelled_in_every_way :
    let frames (frame : Json) : String × Json := ("frames", .array [frame])
    let callables (names : List String) : String × Json := ("callables", .array (names.map .string))
    let document : Json := .object [callables ["A"], frames (.array [.string "f"])]
    let respelled : Json := .array
      [.array [.object [("scope", .null), ("function", .string "f")]],
        .array [.string "a", .string "a"]]
    SpellsDocument 127 document.toText document.toSource ∧
      SpellsDocument 127 respelled.toIndentedText respelled.toSource ∧
      Relation.EqvGen Respelled document.toSource respelled.toSource ∧
      ∀ stack, load document.toText = .ok stack ↔ load respelled.toIndentedText = .ok stack := by
  intro frames callables document respelled
  have hdocument : document.Integral := by
    refine .object ?_
    simp only [List.forall_mem_cons]
    refine ⟨.array ?_, .array ?_, by simp⟩
    · simpa using .string "A"
    · simpa using .array (by simpa using .string "f")
  have hrespelled : respelled.Integral := by
    refine .array ?_
    simp only [List.forall_mem_cons]
    refine ⟨.array ?_, .array ?_, by simp⟩
    · simpa using .object (by simpa using ⟨.null, .string "f"⟩)
    · simpa using .string "a"
  have hspells := (hdocument.spellsDocument (by decide : document.nesting ≤ 127)).1
  have hother := (hrespelled.spellsDocument (by decide : respelled.nesting ≤ 127)).2
  let function : List Letter × Source := (lettersOf "function", .string (lettersOf "f"))
  let scope : List Letter × Source := (lettersOf "scope", .null)
  let stackOf (frame : Source) (names : List String) : Source :=
    .object [(lettersOf "frames", .array [frame]),
      (lettersOf "callables", .array (names.map fun name => .string (lettersOf name)))]
  have hmembers : Respelled document.toSource (stackOf (.array [.string (lettersOf "f")]) ["A"]) :=
    .reordered (.members (List.Perm.swap ..))
  have hlisted : Respelled (stackOf (.object [function]) ["A"])
      (stackOf (.array [.string (lettersOf "f")]) ["A"]) :=
    .frame (@InField.member _ _ _ [] _ _ _ (@InItem.item _ [] [] _ _
      (.restyled
        (@Restyled.listed Frame.layout [.string (lettersOf "f")] [] (by decide) (by simp)))))
  have homitted : Respelled (stackOf (.object [scope, function]) ["A"])
      (stackOf (.object [function]) ["A"]) :=
    .frame (@InField.member _ _ _ [] _ _ _ (@InItem.item _ [] [] _ _
      (.restyled (.omitted (by simp [Frame.layout]) (by decide)))))
  have hnames : Respelled (stackOf (.object [scope, function]) ["A"])
      (stackOf (.object [scope, function]) ["a", "a"]) :=
    .callables (@InField.member _ _ _ [_] [] _ _
      (.array (by simpa using .cased (by decide)) (by simpa using .cased (by decide))))
  have hstack : Respelled (stackOf (.object [scope, function]) ["a", "a"]) respelled.toSource :=
    .restyled (@Restyled.listed layout [_, _] [] (by decide) (by simp))
  have hsame : Relation.EqvGen Respelled document.toSource respelled.toSource :=
    .trans _ _ _ (.rel _ _ hmembers) (.trans _ _ _ (.symm _ _ (.rel _ _ hlisted))
      (.trans _ _ _ (.symm _ _ (.rel _ _ homitted))
        (.trans _ _ _ (.rel _ _ hnames) (.rel _ _ hstack))))
  exact ⟨hspells, hother, hsame, load_respelled hspells hother hsame⟩

end CallStack

end ArgumentContract
