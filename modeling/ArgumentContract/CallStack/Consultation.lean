import ArgumentContract.CallStack.Basic

/-!
# Consulting the active calls

A decision about a violation may depend on the calls that are active.  A `Consultation` is such a
decision together with the questions it puts: what it asks next can depend on the answers so far,
and there is no other way for it to learn anything about the calls.
-/

namespace ArgumentContract

inductive Question
  | frames
  | invocable (name : String)
deriving DecidableEq, Repr

/-- A decision that may ask about the active calls. -/
inductive Consultation (α : Type)
  | decided (result : α)
  | askFrames (next : List Frame → Consultation α)
  | askInvocable (name : String) (next : Bool → Consultation α)

namespace Consultation

variable {α β : Type}

def map (f : α → β) : Consultation α → Consultation β
  | decided result => decided (f result)
  | askFrames next => askFrames fun frames => (next frames).map f
  | askInvocable name next => askInvocable name fun answer => (next answer).map f

/-- The result, with the questions answered by a view. -/
def result (view : CallView) : Consultation α → α
  | decided value => value
  | askFrames next => (next view.frames).result view
  | askInvocable name next => (next (view.invocable name)).result view

/-- The questions put, in order, when they are answered by a view. -/
def questions (view : CallView) : Consultation α → List Question
  | decided _ => []
  | askFrames next => .frames :: (next view.frames).questions view
  | askInvocable name next =>
      .invocable name :: (next (view.invocable name)).questions view

theorem result_map (f : α → β) (view : CallView) (consultation : Consultation α) :
    (consultation.map f).result view = f (consultation.result view) := by
  induction consultation with
  | decided value => rfl
  | askFrames next ih => exact ih view.frames
  | askInvocable name next ih => exact ih (view.invocable name)

theorem questions_map (f : α → β) (view : CallView) (consultation : Consultation α) :
    (consultation.map f).questions view = consultation.questions view := by
  induction consultation with
  | decided value => rfl
  | askFrames next ih => exact congrArg _ (ih view.frames)
  | askInvocable name next ih => exact congrArg _ (ih (view.invocable name))

end Consultation

/-- Whether a value can be called.  Closures always can.  A string names a function or
`Scope::method`, and an array of two strings the scope and the method. -/
def Value.isCallable : Value → Consultation Bool
  | .closure _ => .decided true
  | .string name => .askInvocable name .decided
  | .array [.string scope, .string method] =>
      .askInvocable (scope ++ "::" ++ method) .decided
  | _ => .decided false

end ArgumentContract
