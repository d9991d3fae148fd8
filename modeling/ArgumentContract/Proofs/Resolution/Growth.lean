import ArgumentContract.Proofs.CallStack.Names
import ArgumentContract.Proofs.Resolution.Questions

/-!
# Verdicts on growing call stacks

A call stack grows when calls are added on the outside and names are registered.  The argument that
a violation is about stays the same, since the innermost call decides, and a name that could be
called still can.  A violation that has been found to be none therefore stays none.  A genuine
violation stays genuine as well once there is a matching call, unless it depends on the names.
-/

namespace ArgumentContract

/-! ## Growing call stacks -/

namespace CallStack

/-- What becomes of a call stack when calls are added on the outside and names are registered. -/
inductive Grows (stack : CallStack) : CallStack → Prop
  | refl : Grows stack stack
  | frame {grown : CallStack} (hgrows : Grows stack grown) (frame : Frame) :
      Grows stack (grown.withFrame frame)
  | callable {grown : CallStack} (hgrows : Grows stack grown) (name : String) :
      Grows stack (grown.withCallable name)

variable {stack grown : CallStack}

theorem Grows.exists_frames_eq_append (hgrows : stack.Grows grown) :
    ∃ outer, grown.frames = stack.frames ++ outer := by
  induction hgrows with
  | refl => exact ⟨[], (List.append_nil _).symm⟩
  | frame hgrows frame ih =>
      obtain ⟨outer, hframes⟩ := ih
      refine ⟨outer ++ [frame], ?_⟩
      rw [withFrame, hframes, List.append_assoc]
  | callable hgrows name ih => exact ih

theorem isInvocable_withCallable_of_isInvocable
    {name : String} (hinvocable : stack.isInvocable name = true) (other : String) :
    (stack.withCallable other).isInvocable name = true := by
  unfold isInvocable at hinvocable ⊢
  rw [NameSet.contains_iff_mem] at hinvocable ⊢
  exact NameSet.mem_insert.mpr (.inr hinvocable)

theorem Grows.isInvocable
    (hgrows : stack.Grows grown) {name : String} (hinvocable : stack.isInvocable name = true) :
    grown.isInvocable name = true := by
  induction hgrows with
  | refl => exact hinvocable
  | frame hgrows frame ih => exact ih
  | callable hgrows other ih => exact isInvocable_withCallable_of_isInvocable ih other

end CallStack

/-! ## The deciding call -/

namespace Violation

variable {violation : Violation}

theorem Innermost.append
    {frames : List Frame} {frame : Frame} (hframe : violation.Innermost frames frame)
    (further : List Frame) :
    violation.Innermost (frames ++ further) frame := by
  obtain ⟨inner, outer, rfl, hmatches, hinner⟩ := hframe
  exact ⟨inner, outer ++ further, by simp, hmatches, hinner⟩

theorem exists_innermost_of_matches
    {frames : List Frame} {frame : Frame} (hmem : frame ∈ frames)
    (hmatches : frame.Matches violation) :
    ∃ first, violation.Innermost frames first := by
  have hfind : (frames.find? (·.isCallOf violation)).isSome = true :=
    List.find?_isSome.mpr ⟨frame, hmem, Frame.isCallOf_iff.mpr hmatches⟩
  obtain ⟨first, hfirst⟩ := Option.isSome_iff_exists.mp hfind
  exact ⟨first, find?_isCallOf_eq_some_iff.mp hfirst⟩

theorem argument?_of_innermost
    {frames : List Frame} {frame : Frame} (hframe : violation.Innermost frames frame) :
    violation.argument? frames = frame.arguments[violation.index.offset]? := by
  rw [argument?, find?_isCallOf_eq_some_iff.mpr hframe]

theorem argument?_append_of_eq_some
    {frames : List Frame} {argument : Value}
    (hargument : violation.argument? frames = some argument) (further : List Frame) :
    violation.argument? (frames ++ further) = some argument := by
  obtain ⟨frame, hframe, hget⟩ := argument?_eq_some_iff.mp hargument
  exact argument?_eq_some_iff.mpr ⟨frame, hframe.append further, hget⟩

end Violation

/-! ## Verdicts that go by the same argument -/

/-- Only whether a value is callable depends on the names that can be called. -/
theorem Contract.MetBy.mono
    {left right : CallView} {contract : Contract} {argument : Value}
    (hmet : contract.MetBy left argument)
    (hinvocable : contract = .callable →
      ∀ name, left.invocable name = true → right.invocable name = true) :
    contract.MetBy right argument := by
  cases hmet with
  | int n => exact .int n
  | double x => exact .double x
  | numeral hnumeric => exact .numeral hnumeric
  | closure name => exact .closure name
  | function hname => exact .function (hinvocable rfl _ hname)
  | method hname => exact .method (hinvocable rfl _ hname)

namespace Violation

variable {violation : Violation} {left right : CallView}

theorem satisfied_mono
    (hargument : ∀ argument, violation.argument? left.frames = some argument →
      violation.argument? right.frames = some argument)
    (hinvocable : Contract.ofDeclared? violation.expected = some .callable →
      ∀ name, left.invocable name = true → right.invocable name = true)
    {basis : Basis} (hsatisfied : violation.resolve.result left = .satisfied basis) :
    violation.resolve.result right = .satisfied basis := by
  cases basis with
  | simple =>
      rw [result_resolve_eq_simple_iff] at hsatisfied ⊢
      exact hsatisfied
  | complex =>
      rw [result_resolve_eq_complex_iff] at hsatisfied ⊢
      obtain ⟨contract, argument, hdeclared, hleft, hmet⟩ := hsatisfied
      refine ⟨contract, argument, hdeclared, hargument argument hleft, hmet.mono ?_⟩
      intro hcallable
      rw [hcallable] at hdeclared
      exact hinvocable hdeclared

theorem result_resolve_congr
    (hargument : violation.argument? left.frames = violation.argument? right.frames)
    (hinvocable : Contract.ofDeclared? violation.expected = some .callable →
      left.invocable = right.invocable) :
    violation.resolve.result left = violation.resolve.result right :=
  result_resolve_congr_of_calledBy hargument
    fun hcallable _ _ name _ => congrFun (hinvocable hcallable) name

/-! ## Growth and the calls that do not matter -/

/-- A violation that is found to be none stays none when the call stack grows, and on the same
basis.  Any verdict stays when there is a matching call already and the contract does not ask for a
callable value.  Calls further out than the first matching one never matter, and neither do calls
further in that do not match. -/
theorem resolve_of_grows
    (violation : Violation) (stack grown : CallStack) (hgrows : stack.Grows grown) :
    (∀ basis, violation.resolve.result stack.view = .satisfied basis →
        violation.resolve.result grown.view = .satisfied basis) ∧
      ((∃ frame ∈ stack.frames, frame.Matches violation) →
        Contract.ofDeclared? violation.expected ≠ some .callable →
          violation.resolve.result grown.view = violation.resolve.result stack.view) ∧
      ∀ (inner inner' : List Frame) (frame : Frame) (outer outer' : List Frame)
          (callables : NameSet),
        frame.Matches violation →
          (∀ other ∈ inner, ¬ other.Matches violation) →
            (∀ other ∈ inner', ¬ other.Matches violation) →
              violation.resolve.result (CallStack.view ⟨inner' ++ frame :: outer', callables⟩) =
                violation.resolve.result (CallStack.view ⟨inner ++ frame :: outer, callables⟩) := by
  obtain ⟨further, hframes⟩ := hgrows.exists_frames_eq_append
  refine ⟨?_, ?_, ?_⟩
  · intro basis
    apply satisfied_mono
    · intro argument hargument
      have hview : grown.view.frames = stack.view.frames ++ further := hframes
      rw [hview]
      exact argument?_append_of_eq_some hargument further
    · intro _ name hname
      exact hgrows.isInvocable hname
  · rintro ⟨frame, hmem, hmatches⟩ hne
    obtain ⟨first, hfirst⟩ := exists_innermost_of_matches hmem hmatches
    have hgrown : violation.Innermost grown.frames first := by
      rw [hframes]
      exact hfirst.append further
    apply result_resolve_congr
    · exact (argument?_of_innermost hgrown).trans (argument?_of_innermost hfirst).symm
    · intro hcallable
      contradiction
  · intro inner inner' frame outer outer' callables hmatches hinner hinner'
    have hbefore : violation.Innermost (inner ++ frame :: outer) frame :=
      ⟨inner, outer, rfl, hmatches, hinner⟩
    have hafter : violation.Innermost (inner' ++ frame :: outer') frame :=
      ⟨inner', outer', rfl, hmatches, hinner'⟩
    apply result_resolve_congr
    · exact (argument?_of_innermost hafter).trans (argument?_of_innermost hbefore).symm
    · intro _
      rfl

/-- A stack that gets another call of the same function and another name that can be called.  The
first call decides, for a callable value as well as for a numeric one. -/
theorem resolve_of_another_call :
    let stack := (CallStack.empty.withFrame ⟨"run", none, [.string "Foo::Go"]⟩).withCallable "foo::go"
    let grown := (stack.withCallable "BAR").withFrame ⟨"run", none, [.int 1]⟩
    let callable : Violation :=
      ⟨⟨"1", by decide, List.all_eq_true.mp rfl⟩, none, "run", "callable", "string"⟩
    let numeric : Violation := { callable with expected := "numeric" }
    stack.Grows grown ∧
      callable.resolve.result stack.view = .satisfied .complex ∧
      callable.resolve.result grown.view = .satisfied .complex ∧
      numeric.resolve.result stack.view = .mismatch (some .numeric) ∧
      numeric.resolve.result grown.view = .mismatch (some .numeric) ∧
      numeric.resolve.result
          (CallStack.view ⟨⟨"walk", none, [.int 1]⟩ :: stack.frames, stack.callables⟩) =
        .mismatch (some .numeric) := by
  intro stack grown callable numeric
  have hgrows : stack.Grows grown := (CallStack.Grows.refl.callable "BAR").frame _
  have hcallable : callable.resolve.result stack.view = .satisfied .complex := by decide
  have hnumeric : numeric.resolve.result stack.view = .mismatch (some .numeric) := by decide
  have hmatches : Frame.Matches ⟨"run", none, [.string "Foo::Go"]⟩ numeric := ⟨rfl, by simp⟩
  obtain ⟨hmono, -, -⟩ := resolve_of_grows callable stack grown hgrows
  obtain ⟨-, hstable, hframes⟩ := resolve_of_grows numeric stack grown hgrows
  refine ⟨hgrows, hcallable, hmono .complex hcallable, hnumeric, ?_, ?_⟩
  · rw [← hnumeric]
    exact hstable ⟨_, List.mem_singleton_self _, hmatches⟩ (by decide)
  · rw [← hnumeric]
    refine hframes [] [⟨"walk", none, [.int 1]⟩] _ [] [] stack.callables hmatches (by simp) ?_
    intro other hmem hother
    obtain rfl := List.mem_singleton.mp hmem
    exact absurd hother.function_eq (by decide)

end Violation

end ArgumentContract
