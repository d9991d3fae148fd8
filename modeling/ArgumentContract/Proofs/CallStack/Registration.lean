import ArgumentContract.Proofs.CallStack.Names
import ArgumentContract.Proofs.Session.Run

/-!
# Registered names over a run

A call stack is built by operations, one after the other: it starts over, gets another call or
another name, or is replaced by a loaded one.  A name can be called exactly if it has been
registered since the stack last started over, in whatever case.  Every operation registers names in
lower case, so that the set of callable names is always the image of the names registered.

The call stack of a session is built by the operations among its commands.
-/

namespace ArgumentContract

namespace CallStack

/-! ## Operations -/

inductive Operation
  | reset
  | frame (frame : Frame)
  | callable (name : String)
  | load (document : String)

/-- The stack after an operation.  A document that cannot be loaded changes nothing. -/
def perform (stack : CallStack) : Operation → CallStack
  | .reset => empty
  | .frame frame => stack.withFrame frame
  | .callable name => stack.withCallable name
  | .load document =>
      match load document with
      | .ok loaded => loaded
      | .error _ => stack

/-- The stack that a run of operations leaves behind. -/
def after (stack : CallStack) (operations : List Operation) : CallStack :=
  operations.foldl perform stack

theorem after_append (stack : CallStack) (before rest : List Operation) :
    stack.after (before ++ rest) = (stack.after before).after rest := by
  simp [after, List.foldl_append]

theorem after_concat (stack : CallStack) (before : List Operation) (operation : Operation) :
    stack.after (before ++ [operation]) = (stack.after before).perform operation := by
  rw [after_append]
  rfl

/-- The names that an operation registers, as written. -/
def Operation.names : Operation → List String
  | reset | frame _ => []
  | callable name => [name]
  | load document =>
      match ofText document with
      | .ok stack => stack.callables.names
      | .error _ => []

/-- Whether an operation starts over, so that names registered before are forgotten. -/
def Operation.startsOver : Operation → Bool
  | reset => true
  | frame _ | callable _ => false
  | load document => (ofText document).isOk

/-- A name is registered since the last operation that starts over, by that operation itself or by
a later one. -/
def Registered (operations : List Operation) (name : String) : Prop :=
  ∃ before operation rest, operations = before ++ operation :: rest ∧
    name ∈ operation.names ∧ ∀ later ∈ rest, later.startsOver = false

/-! ## What an operation does to the names -/

theorem load_eq_map (document : String) :
    load document = (ofText document).map normalize := by
  cases hdocument : ofText document <;> simp [load, hdocument] <;> rfl

theorem mem_perform {stack : CallStack} {operation : Operation} {folded : String} :
    folded ∈ (stack.perform operation).callables.names ↔
      (∃ name ∈ operation.names, lowercase name = folded) ∨
        operation.startsOver = false ∧ folded ∈ stack.callables.names := by
  cases operation with
  | reset => simp [perform, empty, NameSet.empty, Operation.names, Operation.startsOver]
  | frame frame => simp [perform, withFrame, Operation.names, Operation.startsOver]
  | callable name =>
      simp [perform, withCallable, NameSet.mem_insert, Operation.names, Operation.startsOver,
        eq_comm]
  | load document =>
      cases hdocument : ofText document with
      | ok stack =>
          simp [perform, load_eq_map, hdocument, Except.map, normalize, NameSet.mem_map,
            Operation.names, Operation.startsOver, Except.isOk, Except.toBool]
      | error fault =>
          simp [perform, load_eq_map, hdocument, Except.map, Operation.names,
            Operation.startsOver, Except.isOk, Except.toBool]

theorem callables_perform_congr
    {left right : CallStack} (hcallables : left.callables = right.callables)
    (operation : Operation) :
    (left.perform operation).callables = (right.perform operation).callables := by
  apply NameSet.ext_mem
  intro folded
  rw [mem_perform, mem_perform, hcallables]

theorem callables_after_congr
    {left right : CallStack} (hcallables : left.callables = right.callables)
    (operations : List Operation) :
    (left.after operations).callables = (right.after operations).callables := by
  induction operations generalizing left right with
  | nil => exact hcallables
  | cons operation rest ih => exact ih (callables_perform_congr hcallables operation)

/-! ## Runs -/

theorem not_registered_nil (name : String) : ¬ Registered [] name := by
  rintro ⟨before, operation, rest, heq, -⟩
  simp at heq

theorem registered_concat {before : List Operation} {operation : Operation} {name : String} :
    Registered (before ++ [operation]) name ↔
      name ∈ operation.names ∨ operation.startsOver = false ∧ Registered before name := by
  constructor
  · rintro ⟨front, registering, rest, heq, hmem, hlater⟩
    rcases List.eq_nil_or_concat' rest with rfl | ⟨rest, last, rfl⟩
    · obtain ⟨rfl, hlast⟩ := List.append_inj' heq rfl
      rw [List.singleton_inj] at hlast
      exact Or.inl (hlast ▸ hmem)
    · rw [← List.cons_append, ← List.append_assoc] at heq
      obtain ⟨rfl, hlast⟩ := List.append_inj' heq rfl
      rw [List.singleton_inj] at hlast
      subst hlast
      refine Or.inr ⟨hlater _ (by simp), front, registering, rest, rfl, hmem, ?_⟩
      intro later hrest
      exact hlater later (List.mem_append_left _ hrest)
  · rintro (hmem | ⟨hkeeps, front, registering, rest, rfl, hmem, hlater⟩)
    · exact ⟨before, operation, [], rfl, hmem, by simp⟩
    · refine ⟨front, registering, rest ++ [operation], by simp, hmem, ?_⟩
      intro later hrest
      rcases List.mem_append.mp hrest with hold | hnew
      · exact hlater later hold
      · rw [List.mem_singleton.mp hnew, hkeeps]

/-- The callable names are the registered ones in lower case. -/
theorem mem_after_empty {operations : List Operation} {folded : String} :
    folded ∈ (empty.after operations).callables.names ↔
      ∃ name, Registered operations name ∧ lowercase name = folded := by
  -- The last operation is taken off: what it keeps are the names of the run in front of it.
  induction operations using List.reverseRecOn with
  | nil => simp [not_registered_nil, after, empty, NameSet.empty]
  | append_singleton before operation ih =>
      rw [after_concat, mem_perform, ih]
      simp only [registered_concat]
      constructor
      · rintro (⟨name, hmem, hfold⟩ | ⟨hkeeps, name, hregistered, hfold⟩)
        · exact ⟨name, Or.inl hmem, hfold⟩
        · exact ⟨name, Or.inr ⟨hkeeps, hregistered⟩, hfold⟩
      · rintro ⟨name, hmem | ⟨hkeeps, hregistered⟩, hfold⟩
        · exact Or.inl ⟨name, hmem, hfold⟩
        · exact Or.inr ⟨hkeeps, name, hregistered, hfold⟩

theorem lowercase_of_mem_after_empty
    {operations : List Operation} {name : String}
    (hmem : name ∈ (empty.after operations).callables.names) :
    lowercase name = name := by
  obtain ⟨registered, -, rfl⟩ := mem_after_empty.mp hmem
  exact lowercase_lowercase registered

theorem isInvocable_after_empty {operations : List Operation} {query : String} :
    (empty.after operations).isInvocable query = true ↔
      ∃ name, Registered operations name ∧ lowercase name = lowercase query := by
  rw [isInvocable, NameSet.contains_iff_mem, mem_after_empty]

theorem callables_after_frame
    (stack : CallStack) (before : List Operation) (frame : Frame) (rest : List Operation) :
    (stack.after (before ++ .frame frame :: rest)).callables =
      (stack.after (before ++ rest)).callables := by
  have hsame : ((stack.after before).perform (.frame frame)).callables =
      (stack.after before).callables := rfl
  rw [after_append, after_append]
  exact callables_after_congr hsame rest

theorem compactItems_string (names : List String) :
    Json.compactItems (names.map .string) = names.map Json.printString := by
  induction names with
  | nil => rfl
  | cons name rest ih => simp [Json.compactItems, Json.compact, ih]

/-- A printed stack ends with its callable names in order. -/
theorem compact_toJson (stack : CallStack) :
    ∃ front, stack.toJson.compact =
      front ++ "\"callables\":[".toList ++
        Json.separate [','] (stack.callables.names.map Json.printString) ++ "]\x7d".toList := by
  refine ⟨"\x7b\"frames\":".toList ++
    (Json.array (stack.frames.map Frame.toJson)).compact ++ [','], ?_⟩
  simp [toJson, Json.compact, Json.compactMembers, Json.separate, compactItems_string,
    Json.printString, Json.escapeChar]

/-- The names of a stack that has been built from nothing are in lower case, and they are printed in
increasing order of their bytes, each once.  A name can be called exactly if a name with the same
lower case has been registered since the stack last started over.  Two runs that register the same
names up to case leave the same names behind, and calls have no part in it.  Lower case identifies
ASCII letters and no other characters. -/
theorem isInvocable_iff_registered (operations : List Operation) :
    (∀ name ∈ (empty.after operations).callables.names, lowercase name = name) ∧
      (∃ front names, names = (empty.after operations).callables.names ∧
        (empty.after operations).toJson.compact =
          front ++ "\"callables\":[".toList ++
            Json.separate [','] (names.map Json.printString) ++ "]\x7d".toList ∧
        names.Pairwise (fun left right => utf8Bytes left < utf8Bytes right) ∧ names.Nodup) ∧
      (∀ query, (empty.after operations).isInvocable query = true ↔
        ∃ name, Registered operations name ∧ lowercase name = lowercase query) ∧
      (∀ others,
        (∀ folded, (∃ name, Registered operations name ∧ lowercase name = folded) ↔
          ∃ name, Registered others name ∧ lowercase name = folded) →
        (empty.after operations).callables = (empty.after others).callables) ∧
      (∀ before frame rest, operations = before ++ .frame frame :: rest →
        (empty.after operations).callables = (empty.after (before ++ rest)).callables) ∧
      (∀ left right, lowercase left = lowercase right ↔
        List.Forall₂ SameLetter left.toList right.toList) ∧
      ∀ left right, SameLetter left right → 128 ≤ left.toNat ∨ 128 ≤ right.toNat →
        left = right := by
  refine ⟨fun _ => lowercase_of_mem_after_empty, ?_, fun _ => isInvocable_after_empty, ?_, ?_,
    fun _ _ => lowercase_eq_lowercase_iff, fun _ _ => SameLetter.eq_of_not_ascii⟩
  · obtain ⟨front, hcompact⟩ := compact_toJson (empty.after operations)
    exact ⟨front, _, rfl, hcompact, (empty.after operations).callables.sorted,
      (empty.after operations).callables.nodup⟩
  · intro others hsame
    apply NameSet.ext_mem
    intro folded
    rw [mem_after_empty, mem_after_empty, hsame]
  · intro before frame rest heq
    rw [heq, callables_after_frame]

theorem isInvocable_loaded_name :
    (empty.after
      [.callable "strlen", .load "\x7b\"callables\":[\"Array_Map\"]\x7d",
        .frame ⟨"run", none, []⟩]).isInvocable "ARRAY_map" = true := by
  have hdocument : ofText "\x7b\"callables\":[\"Array_Map\"]\x7d" =
      .ok ⟨[], NameSet.ofList ["Array_Map"]⟩ := rfl
  have hmem : "Array_Map" ∈
      (Operation.load "\x7b\"callables\":[\"Array_Map\"]\x7d").names := by
    simp [Operation.names, hdocument, NameSet.mem_ofList]
  have hsame : lowercase "Array_Map" = lowercase "ARRAY_map" := by decide
  apply ((isInvocable_iff_registered _).2.2.1 "ARRAY_map").mpr
  refine ⟨"Array_Map", ⟨[.callable "strlen"], _, [.frame ⟨"run", none, []⟩], rfl, hmem, ?_⟩, hsame⟩
  simp [Operation.startsOver]

end CallStack

/-! ## Sessions -/

/-- What a command does to the call stack, if anything. -/
def Command.operation? : Command → Option CallStack.Operation
  | frame arguments function scope =>
      match Session.argumentsOf arguments with
      | .ok arguments => some (.frame ⟨function, scope, arguments⟩)
      | .error _ => none
  | callable name => some (.callable name)
  | load document => some (.load document)
  | reset => some .reset
  | install .. | release _ | drop _ | handle .. | invocable _ | malformed _ => none

namespace Session

theorem stack_step (session : Session) (command : Command) :
    (session.step command).2.stack = session.stack.after command.operation?.toList := by
  cases command with
  | install channel slot =>
      simp only [step, install]
      split
      · rfl
      · cases session.guards slot <;> rfl
  | release slot | drop slot =>
      simp only [step, discard]
      cases session.guards slot <;> rfl
  | handle slot signal =>
      simp only [step, handle]
      cases session.guards slot <;> rfl
  | frame arguments function scope =>
      simp only [step, Command.operation?]
      cases argumentsOf arguments <;> rfl
  | load document =>
      simp only [step, Command.operation?, CallStack.loadText, CallStack.after, CallStack.perform,
        Option.toList_some, List.foldl_cons, List.foldl_nil]
      cases CallStack.load document <;> rfl
  | callable name | invocable name | reset | malformed field => rfl

/-- The call stack of a session is what the operations among its commands make of it. -/
theorem stack_after (session : Session) (commands : List Command) :
    (session.after commands).stack =
      session.stack.after (commands.filterMap Command.operation?) := by
  induction commands generalizing session with
  | nil => rfl
  | cons command rest ih =>
      have hrest := ih (session.step command).2
      rw [stack_step, ← CallStack.after_append] at hrest
      have hcons : (command :: rest).filterMap Command.operation? =
          command.operation?.toList ++ rest.filterMap Command.operation? := by
        cases hoperation : command.operation? <;> simp [hoperation]
      rw [hcons]
      exact hrest

end Session

end ArgumentContract
