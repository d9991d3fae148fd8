import ArgumentContract.Proofs.CallStack.Registration
import ArgumentContract.Proofs.Json.PrintedRecord
import ArgumentContract.Proofs.Json.PrintedTree

/-!
# Call stacks are read back from their documents

The document of a call stack has no tags: the shape of an argument alone says which value it is.  It
says so unambiguously, apart from numbers that are no integers.  A frame without a scope is printed
without one and reading leaves it without one; the callable names are printed in order and make up
the same set again.  Loading registers them in lower case, which changes nothing about a stack that
has been built from nothing.
-/

namespace ArgumentContract

/-! ## Values -/

namespace Value

/-- No part of a value is a floating-point number. -/
inductive DoubleFree : Value → Prop
  | null : DoubleFree .null
  | bool (b : Bool) : DoubleFree (.bool b)
  | int (n : Int64) : DoubleFree (.int n)
  | string (text : String) : DoubleFree (.string text)
  | array {items : List Value} (hitems : ∀ item ∈ items, DoubleFree item) :
      DoubleFree (.array items)
  | resource (kind : String) : DoubleFree (.resource kind)
  | closure (name : String) : DoubleFree (.closure name)

theorem toItems_eq_map (items : List Value) : toItems items = items.map toJson := by
  induction items with
  | nil => rfl
  | cons item rest ih => rw [toItems, ih, List.map_cons]

theorem ofNumber_toInt (n : Int64) : ofNumber (.integer n.toInt) = int n := by
  have hlow : -0x8000000000000000 ≤ n.toInt := n.le_toInt
  have hhigh : n.toInt ≤ 0x7fffffffffffffff := n.toInt_le
  have hfits : fitsInt n.toInt = true := by simp [fitsInt, hlow, hhigh]
  rw [ofNumber, if_pos hfits, Int64.ofInt_toInt]

theorem ofItems?_toItems
    {items : List Value} (hitems : ∀ item ∈ items, ofJson? item.toJson = some item) :
    ofItems? (toItems items) = some items := by
  induction items with
  | nil => rfl
  | cons item rest ih =>
      rw [List.forall_mem_cons] at hitems
      rw [toItems, ofItems?, hitems.1, ih hitems.2]
      rfl

theorem DoubleFree.ofJson?_toJson {value : Value} (hfree : value.DoubleFree) :
    ofJson? value.toJson = some value := by
  induction hfree with
  | null => rfl
  | bool b => rfl
  | int n => rw [toJson, ofJson?, ofNumber_toInt]
  | string text => rfl
  | array hitems ih => rw [toJson, ofJson?, ofItems?_toItems ih, Option.map_some]
  | resource kind => rfl
  | closure name => rfl

theorem DoubleFree.integral_toJson {value : Value} (hfree : value.DoubleFree) :
    value.toJson.Integral := by
  induction hfree with
  | null => exact .null
  | bool b => exact .bool b
  | int n =>
      have hlow : -0x8000000000000000 ≤ n.toInt := n.le_toInt
      have hhigh : n.toInt ≤ 0x7fffffffffffffff := n.toInt_le
      refine .integer ?_
      simp only [Json.fitsLiteral, Bool.and_eq_true, decide_eq_true_eq]
      omega
  | string text => exact .string text
  | @array items hitems ih =>
      rw [toJson, toItems_eq_map]
      refine .array fun document hmem => ?_
      obtain ⟨item, hitem, rfl⟩ := List.mem_map.mp hmem
      exact ih item hitem
  | resource kind | closure kind =>
      refine .object fun member hmem => ?_
      obtain rfl := List.mem_singleton.mp hmem
      exact .string kind

theorem DoubleFree.reads_read
    {value : Value} (hfree : value.DoubleFree) {depth : Nat}
    (hnesting : value.toJson.nesting ≤ depth) :
    Json.Reads (read depth) value.toJson.compact value := by
  have htree := hfree.integral_toJson.reads_compact hnesting
  refine ⟨htree.starts, fun rest hfollows => ?_⟩
  simp only [read, htree.eq_ok rest hfollows, bind, Except.bind, hfree.ofJson?_toJson]
  rfl

theorem reads_readList
    {values : List Value} (hfree : ∀ value ∈ values, value.DoubleFree) {depth : Nat}
    (hnesting : (Json.array (toItems values)).nesting ≤ depth) :
    Json.Reads (Json.readList read depth) (Json.array (toItems values)).compact values := by
  apply Json.reads_array hnesting
  rw [toItems_eq_map, List.forall₂_map_left_iff, List.forall₂_same]
  intro value hmem limit hlimit
  exact (hfree value hmem).reads_read hlimit

end Value

/-! ## Frames -/

namespace Frame

theorem reads_read
    {frame : Frame} (hfree : ∀ argument ∈ frame.arguments, argument.DoubleFree) {depth : Nat}
    (hnesting : frame.toJson.nesting ≤ depth) :
    Json.Reads (read depth) frame.toJson.compact frame := by
  obtain ⟨function, scope, arguments⟩ := frame
  obtain ⟨depth, rfl⟩ := Json.exists_succ_of_nesting_le hnesting (Nat.succ_pos _)
  have hinner :
      (Json.array (Value.toItems arguments)).nesting <
        (toJson ⟨function, scope, arguments⟩).nesting :=
    Json.nesting_lt_of_mem_object (List.mem_append_right _ (List.mem_singleton_self ("args", _)))
  have hfunction := Json.reads_readText function
  have harguments :=
    Value.reads_readList hfree (Nat.le_of_lt_succ (hinner.trans_le hnesting))
  cases scope with
  | none =>
      have hsets : record.Sets depth [] record.blank
          [Json.printString "function" ++ ':' :: Json.printString function,
            Json.printString "args" ++ ':' :: (Json.array (Value.toItems arguments)).compact]
          ["args", "function"] ⟨function, none, arguments⟩ :=
        .field rfl rfl (hfunction.map fun name => Frame.mk name none [])
          (.field rfl rfl (harguments.map (Frame.mk function none))
            (.done _ _))
      exact hsets.reads_read rfl
  | some scope =>
      have hscope := Json.reads_readOptional_readText scope
      have hsets : record.Sets depth [] record.blank
          [Json.printString "function" ++ ':' :: Json.printString function,
            Json.printString "scope" ++ ':' :: Json.printString scope,
            Json.printString "args" ++ ':' :: (Json.array (Value.toItems arguments)).compact]
          ["args", "scope", "function"] ⟨function, some scope, arguments⟩ :=
        .field rfl rfl (hfunction.map fun name => Frame.mk name none [])
          (.field rfl rfl (hscope.map fun scope => Frame.mk function scope [])
            (.field rfl rfl (harguments.map (Frame.mk function (some scope)))
              (.done _ _)))
      exact hsets.reads_read rfl

end Frame

/-! ## Call stacks -/

theorem NameSet.ofList_names (set : NameSet) : ofList set.names = set := by
  apply ext_mem
  intro name
  exact mem_ofList

namespace CallStack

theorem reads_read
    {stack : CallStack}
    (hfree : ∀ frame ∈ stack.frames, ∀ argument ∈ frame.arguments, argument.DoubleFree)
    {depth : Nat} (hnesting : stack.toJson.nesting ≤ depth) :
    Json.Reads (read depth) stack.toJson.compact stack := by
  obtain ⟨depth, rfl⟩ := Json.exists_succ_of_nesting_le hnesting (Nat.succ_pos _)
  have hframesNesting :
      (Json.array (stack.frames.map Frame.toJson)).nesting < stack.toJson.nesting :=
    Json.nesting_lt_of_mem_object (List.mem_cons_self ..)
  have hcallablesNesting :
      (Json.array (stack.callables.names.map .string)).nesting < stack.toJson.nesting :=
    Json.nesting_lt_of_mem_object (List.mem_cons_of_mem _ (List.mem_cons_self ..))
  have hframes :
      Json.Reads (Json.readList Frame.read depth)
        (Json.array (stack.frames.map Frame.toJson)).compact stack.frames := by
    apply Json.reads_array (by omega)
    rw [List.forall₂_map_left_iff, List.forall₂_same]
    intro frame hmem limit hlimit
    exact Frame.reads_read (hfree frame hmem) hlimit
  have hcallables :
      Json.Reads (Json.readList (fun _ => Json.readText) depth)
        (Json.array (stack.callables.names.map .string)).compact stack.callables.names := by
    apply Json.reads_array (by omega)
    rw [List.forall₂_map_left_iff, List.forall₂_same]
    intro name _ _ _
    exact Json.reads_readText name
  have hsets : record.Sets depth [] record.blank
      [Json.printString "frames" ++ ':' :: (Json.array (stack.frames.map Frame.toJson)).compact,
        Json.printString "callables" ++
          ':' :: (Json.array (stack.callables.names.map .string)).compact]
      ["callables", "frames"] ⟨stack.frames, NameSet.ofList stack.callables.names⟩ :=
    .field rfl rfl (hframes.map fun frames => CallStack.mk frames NameSet.empty)
      (.field rfl rfl (hcallables.map fun names => CallStack.mk stack.frames (NameSet.ofList names))
        (.done _ _))
  rw [NameSet.ofList_names] at hsets
  exact hsets.reads_read rfl

theorem normalize_after_empty (operations : List Operation) :
    (empty.after operations).normalize = empty.after operations := by
  have hcallables : (empty.after operations).callables.map lowercase =
      (empty.after operations).callables := by
    apply NameSet.ext_mem
    intro name
    rw [NameSet.mem_map]
    constructor
    · rintro ⟨registered, hmem, rfl⟩
      rw [lowercase_of_mem_after_empty hmem]
      exact hmem
    · intro hmem
      exact ⟨name, hmem, lowercase_of_mem_after_empty hmem⟩
  rw [normalize, hcallables]

/-- The text of a call stack is read back as that stack, if no argument has a floating-point number
in it and the text is not nested too deeply.  Loading it only turns the callable names to lower
case, and changes nothing if the stack has been built from nothing. -/
theorem ofText_toText_of_doubleFree
    (stack : CallStack)
    (hfree : ∀ frame ∈ stack.frames, ∀ argument ∈ frame.arguments, argument.DoubleFree)
    (hnesting : stack.toJson.nesting ≤ 127) :
    ofText stack.toJson.toText = .ok stack ∧
      (∃ loaded, load stack.toJson.toText = .ok loaded ∧ loaded.frames = stack.frames ∧
        ∀ name, name ∈ loaded.callables.names ↔
          ∃ written ∈ stack.callables.names, lowercase written = name) ∧
      ∀ operations, stack = empty.after operations → load stack.toJson.toText = .ok stack := by
  have hread : ofText stack.toJson.toText = .ok stack :=
    Json.readDocument_toText (reads_read hfree hnesting)
  have hload : load stack.toJson.toText = .ok stack.normalize := by
    rw [load_eq_map, hread]
    rfl
  refine ⟨hread, ⟨stack.normalize, hload, rfl, fun name => NameSet.mem_map⟩, ?_⟩
  intro operations hstack
  rw [hload, hstack, normalize_after_empty]

theorem ofText_toText_of_nested_values :
    let operations : List Operation :=
      [.callable "Foo::Run",
        .frame ⟨"run", some "Foo",
          [.array [.int Int64.minValue, .closure "{c}", .array []], .string "\"\x01é\n"]⟩,
        .frame ⟨"main", none, []⟩]
    let stack := empty.after operations
    (∀ frame ∈ stack.frames, ∀ argument ∈ frame.arguments, argument.DoubleFree) ∧
      stack.toJson.nesting ≤ 127 ∧
      ofText stack.toJson.toText = .ok stack ∧ load stack.toJson.toText = .ok stack := by
  intro operations stack
  have hfree : ∀ frame ∈ stack.frames, ∀ argument ∈ frame.arguments, argument.DoubleFree := by
    have hitems : ∀ item ∈ [Value.int Int64.minValue, .closure "{c}", .array []],
        item.DoubleFree := by
      simp only [List.forall_mem_cons]
      exact ⟨.int _, .closure _, .array (by simp), by simp⟩
    have harguments : ∀ argument ∈
        [Value.array [.int Int64.minValue, .closure "{c}", .array []], .string "\"\x01é\n"],
        argument.DoubleFree := by
      simp only [List.forall_mem_cons]
      exact ⟨.array hitems, .string _, by simp⟩
    intro frame hframe
    rcases List.mem_pair.mp hframe with rfl | rfl
    · exact harguments
    · simp
  have hnesting : stack.toJson.nesting ≤ 127 := by decide
  obtain ⟨hread, -, hload⟩ := ofText_toText_of_doubleFree stack hfree hnesting
  exact ⟨hfree, hnesting, hread, hload operations rfl⟩

end CallStack

end ArgumentContract
