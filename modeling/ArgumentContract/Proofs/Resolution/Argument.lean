import ArgumentContract.Proofs.Message.Position
import ArgumentContract.Resolution

/-!
# The argument that a violation is about

The calls are searched from the inside for the first one that matches a violation, and only this
call is asked for the argument.  A position counts from one and is clamped at a greatest value.
The clamp makes no difference as long as every call has fewer arguments than that: a position that
is clamped lies behind all of them, and so does the greatest position itself.
-/

namespace ArgumentContract

/-! ## The call -/

/-- A call has the function that a violation names, and the scope as well if it has one at all. -/
structure Frame.Matches (frame : Frame) (violation : Violation) : Prop where
  function_eq : frame.function = violation.function
  scope_eq : ∀ scope, frame.scope = some scope → violation.scope = some scope

theorem Frame.isCallOf_iff {frame : Frame} {violation : Violation} :
    frame.isCallOf violation = true ↔ frame.Matches violation := by
  have hscope :
      (frame.scope.isNone || frame.scope == violation.scope) = true ↔
        ∀ scope, frame.scope = some scope → violation.scope = some scope := by
    cases hframe : frame.scope with
    | none => simp
    | some scope =>
        constructor
        · intro hequal other hother
          rw [← hother]
          exact (beq_iff_eq.mp hequal).symm
        · intro hequal
          exact beq_iff_eq.mpr (hequal scope rfl).symm
  rw [Frame.isCallOf, Bool.and_eq_true, hscope, beq_iff_eq]
  exact ⟨fun h => ⟨h.1, h.2⟩, fun h => ⟨h.function_eq, h.scope_eq⟩⟩

namespace Violation

/-- The first call, from the inside, that matches a violation. -/
def Innermost (violation : Violation) (frames : List Frame) (frame : Frame) : Prop :=
  ∃ inner outer,
    frames = inner ++ frame :: outer ∧ frame.Matches violation ∧
      ∀ other ∈ inner, ¬ other.Matches violation

theorem find?_isCallOf_eq_some_iff
    {violation : Violation} {frames : List Frame} {frame : Frame} :
    frames.find? (·.isCallOf violation) = some frame ↔ violation.Innermost frames frame := by
  rw [List.find?_eq_some_iff_append, Frame.isCallOf_iff]
  constructor
  · rintro ⟨hmatches, inner, outer, hframes, hinner⟩
    refine ⟨inner, outer, hframes, hmatches, fun other hmem hother => ?_⟩
    have hnot := hinner other hmem
    simp [Frame.isCallOf_iff.mpr hother] at hnot
  · rintro ⟨inner, outer, hframes, hmatches, hinner⟩
    refine ⟨hmatches, inner, outer, hframes, fun other hmem => ?_⟩
    have hnot : other.isCallOf violation ≠ true :=
      fun hother => hinner other hmem (Frame.isCallOf_iff.mp hother)
    simp [hnot]

theorem Innermost.mem
    {violation : Violation} {frames : List Frame} {frame : Frame}
    (hframe : violation.Innermost frames frame) :
    frame ∈ frames := by
  obtain ⟨inner, outer, rfl, -⟩ := hframe
  simp

theorem Innermost.unique
    {violation : Violation} {frames : List Frame} {first second : Frame}
    (hfirst : violation.Innermost frames first) (hsecond : violation.Innermost frames second) :
    first = second := by
  rw [← find?_isCallOf_eq_some_iff] at hfirst hsecond
  exact Option.some.inj (hfirst.symm.trans hsecond)

theorem argument?_eq_some_iff
    {violation : Violation} {frames : List Frame} {argument : Value} :
    violation.argument? frames = some argument ↔
      ∃ frame, violation.Innermost frames frame ∧
        frame.arguments[violation.index.offset]? = some argument := by
  unfold argument?
  split
  next frame hfind =>
    rw [find?_isCallOf_eq_some_iff] at hfind
    constructor
    · intro hargument
      exact ⟨frame, hfind, hargument⟩
    · rintro ⟨other, hother, hargument⟩
      rw [hfind.unique hother]
      exact hargument
  next hfind =>
    constructor
    · intro h
      contradiction
    · rintro ⟨frame, hframe, -⟩
      rw [find?_isCallOf_eq_some_iff.mpr hframe] at hfind
      contradiction

end Violation

/-! ## The position -/

/-- The argument of a call at a position that counts from one. -/
def Frame.HasArgument (frame : Frame) (position : Nat) (argument : Value) : Prop :=
  ∃ before after,
    frame.arguments = before ++ argument :: after ∧ position = before.length + 1

theorem Frame.HasArgument.le_length
    {frame : Frame} {position : Nat} {argument : Value}
    (hhas : frame.HasArgument position argument) :
    position ≤ frame.arguments.length := by
  obtain ⟨before, after, harguments, hposition⟩ := hhas
  rw [harguments, hposition, List.length_append, List.length_cons]
  omega

theorem Frame.getElem?_offset_eq_some_iff
    {frame : Frame} (hlength : frame.arguments.length < ArgumentIndex.greatest)
    {index : ArgumentIndex} (hpos : 1 ≤ index.value) {argument : Value} :
    frame.arguments[index.offset]? = some argument ↔
      frame.HasArgument index.number argument := by
  have hvalue := index.value_eq_min
  have hoffset : index.offset = index.value - 1 := rfl
  constructor
  · intro hargument
    obtain ⟨hlt, hget⟩ := List.getElem?_eq_some_iff.mp hargument
    have htake : (frame.arguments.take index.offset).length = index.offset := by
      rw [List.length_take]
      omega
    refine ⟨frame.arguments.take index.offset, frame.arguments.drop (index.offset + 1), ?_, ?_⟩
    · rw [← hget, List.getElem_cons_drop, List.take_append_drop]
    · -- The offset is the one of an argument, so that the position cannot be clamped.
      rw [htake]
      omega
  · rintro ⟨before, after, harguments, hnumber⟩
    rw [harguments, List.length_append, List.length_cons] at hlength
    have hbefore : index.offset = before.length := by omega
    rw [harguments, hbefore]
    simp

namespace Violation

/-- The argument that a violation is about, by the number that its position denotes. -/
theorem argument?_eq_some_iff_hasArgument
    {violation : Violation} (hpos : 1 ≤ violation.index.value) {frames : List Frame}
    (hlength : ∀ frame ∈ frames, frame.arguments.length < ArgumentIndex.greatest)
    {argument : Value} :
    violation.argument? frames = some argument ↔
      ∃ frame, violation.Innermost frames frame ∧
        frame.HasArgument violation.index.number argument := by
  rw [argument?_eq_some_iff]
  refine exists_congr fun frame => and_congr_right fun hframe => ?_
  exact Frame.getElem?_offset_eq_some_iff (hlength frame hframe.mem) hpos

theorem argument?_eq_none_of_innermost
    {violation : Violation} (hpos : 1 ≤ violation.index.value) {frames : List Frame}
    (hlength : ∀ frame ∈ frames, frame.arguments.length < ArgumentIndex.greatest)
    (hlacks : ∀ frame, violation.Innermost frames frame →
      frame.arguments.length < violation.index.number) :
    violation.argument? frames = none := by
  rw [Option.eq_none_iff_forall_ne_some]
  intro argument hargument
  obtain ⟨frame, hframe, hhas⟩ :=
    (argument?_eq_some_iff_hasArgument hpos hlength).mp hargument
  have hle := hhas.le_length
  have hlt := hlacks frame hframe
  omega

end Violation

end ArgumentContract
