import ArgumentContract.Proofs.Resolution.Verdict
import Mathlib.Logic.Relation

/-!
# Wider contracts

Contracts form a hierarchy: an integer is a number, a number is numeric, and so on up to `mixed`.
The resolution of a violation does not know of it.  Most contracts go by the name of the given type,
and `numeric`, in the middle of the hierarchy, goes by the value.  The two ways agree if the given
type is the one of the argument itself.  Each contract then is met by certain values, and a wider
one by more of them.
-/

namespace ArgumentContract

namespace Contract

/-- The values that a contract is met by, either by their runtime type or by themselves. -/
inductive Covers (view : CallView) : Contract → Value → Prop
  | boolean (b : Bool) : Covers view .boolean (.bool b)
  | integer (n : Int64) : Covers view .integer (.int n)
  | double (x : Binary64) : Covers view .double (.double x)
  | string (text : String) : Covers view .string (.string text)
  | resource (kind : String) : Covers view .resource (.resource kind)
  | integerNumber (n : Int64) : Covers view .number (.int n)
  | doubleNumber (x : Binary64) : Covers view .number (.double x)
  | booleanScalar (b : Bool) : Covers view .scalar (.bool b)
  | integerScalar (n : Int64) : Covers view .scalar (.int n)
  | doubleScalar (x : Binary64) : Covers view .scalar (.double x)
  | stringScalar (text : String) : Covers view .scalar (.string text)
  | any (argument : Value) : Covers view .mixed argument
  | byValue {contract : Contract} {argument : Value} (hmet : contract.MetBy view argument) :
      Covers view contract argument

/-- One step up in the hierarchy of contracts. -/
inductive NextWider : Contract → Contract → Prop
  | integer : NextWider .integer .number
  | double : NextWider .double .number
  | number : NextWider .number .numeric
  | numeric : NextWider .numeric .scalar
  | boolean : NextWider .boolean .scalar
  | string : NextWider .string .scalar
  | scalar : NextWider .scalar .mixed
  | resource : NextWider .resource .mixed
  | callable : NextWider .callable .mixed

/-- Any number of steps up in the hierarchy. -/
def Wider : Contract → Contract → Prop := Relation.ReflTransGen NextWider

variable {view : CallView} {narrow wide contract : Contract} {argument : Value}

theorem covers_of_admits (hadmits : contract.admits argument.typeName = true) :
    contract.Covers view argument := by
  cases contract with
  | numeric | callable => contradiction
  | mixed => exact .any argument
  | _ => cases argument <;> first | contradiction | constructor

theorem covers_iff :
    contract.Covers view argument ↔
      contract.admits argument.typeName = true ∨ contract.MetBy view argument := by
  constructor
  · intro hcovers
    cases hcovers with
    | byValue hmet => exact .inr hmet
    | _ => exact .inl rfl
  · intro h
    rcases h with hadmits | hmet
    · exact covers_of_admits hadmits
    · exact .byValue hmet

theorem NextWider.covers
    (hnext : NextWider narrow wide) (hcovers : narrow.Covers view argument) :
    wide.Covers view argument := by
  cases hnext with
  | integer =>
      cases hcovers with
      | integer n => exact .integerNumber n
      | byValue hmet => cases hmet
  | double =>
      cases hcovers with
      | double x => exact .doubleNumber x
      | byValue hmet => cases hmet
  | number =>
      cases hcovers with
      | integerNumber n => exact .byValue (.int n)
      | doubleNumber x => exact .byValue (.double x)
      | byValue hmet => cases hmet
  | numeric =>
      cases hcovers with
      | byValue hmet =>
          cases hmet with
          | int n => exact .integerScalar n
          | double x => exact .doubleScalar x
          | numeral hnumeric => exact .stringScalar _
  | boolean =>
      cases hcovers with
      | boolean b => exact .booleanScalar b
      | byValue hmet => cases hmet
  | string =>
      cases hcovers with
      | string text => exact .stringScalar text
      | byValue hmet => cases hmet
  | scalar | resource | callable => exact .any argument

theorem Wider.covers
    (hwider : narrow.Wider wide) (hcovers : narrow.Covers view argument) :
    wide.Covers view argument := by
  induction hwider with
  | refl => exact hcovers
  | tail _ hnext ih => exact hnext.covers ih

end Contract

namespace Violation

variable {violation : Violation} {view : CallView} {argument : Value}

/-- Whether a violation is found to be none, on whatever basis. -/
def Satisfied (violation : Violation) (view : CallView) : Prop :=
  ∃ basis, violation.resolve.result view = .satisfied basis

theorem satisfied_iff_covers
    (hargument : violation.argument? view.frames = some argument)
    (hgiven : violation.given = argument.typeName) :
    violation.Satisfied view ↔
      ∃ contract, Contract.ofDeclared? violation.expected = some contract ∧
        contract.Covers view argument := by
  constructor
  · rintro ⟨basis, hbasis⟩
    cases basis with
    | simple =>
        obtain ⟨contract, hdeclared, hadmits⟩ := result_resolve_eq_simple_iff.mp hbasis
        rw [hgiven] at hadmits
        exact ⟨contract, hdeclared, Contract.covers_of_admits hadmits⟩
    | complex =>
        obtain ⟨contract, other, hdeclared, hother, hmet⟩ :=
          result_resolve_eq_complex_iff.mp hbasis
        obtain rfl : argument = other := Option.some.inj (hargument.symm.trans hother)
        exact ⟨contract, hdeclared, .byValue hmet⟩
  · rintro ⟨contract, hdeclared, hcovers⟩
    rcases Contract.covers_iff.mp hcovers with hadmits | hmet
    · rw [← hgiven] at hadmits
      exact ⟨.simple, result_resolve_eq_simple_iff.mpr ⟨contract, hdeclared, hadmits⟩⟩
    · exact ⟨.complex,
        result_resolve_eq_complex_iff.mpr ⟨contract, argument, hdeclared, hargument, hmet⟩⟩

/-- Resolution follows the hierarchy of contracts.  If the innermost matching call holds the
argument, and the given type is the one of this argument, then a violation is found to be none for
just those names whose contract covers the argument.  With a name of a wider contract in place of
the expected one it therefore never becomes a genuine one. -/
theorem satisfied_of_wider
    (violation : Violation) (view : CallView) (frame : Frame) (argument : Value)
    (hframe : violation.Innermost view.frames frame)
    (hargument : frame.arguments[violation.index.offset]? = some argument)
    (hgiven : violation.given = argument.typeName) :
    (∀ name, (violation.expecting name).Satisfied view ↔
        ∃ contract, Contract.ofDeclared? name = some contract ∧
          contract.Covers view argument) ∧
      ∀ narrow wide : Contract, narrow.Wider wide →
        ∀ narrowName wideName,
          Contract.ofDeclared? narrowName = some narrow →
            Contract.ofDeclared? wideName = some wide →
              (violation.expecting narrowName).Satisfied view →
                (violation.expecting wideName).Satisfied view := by
  have hfound : violation.argument? view.frames = some argument :=
    argument?_eq_some_iff.mpr ⟨frame, hframe, hargument⟩
  have hcovers : ∀ name, (violation.expecting name).Satisfied view ↔
      ∃ contract, Contract.ofDeclared? name = some contract ∧
        contract.Covers view argument :=
    fun _ => satisfied_iff_covers hfound hgiven
  refine ⟨hcovers, ?_⟩
  intro narrow wide hwider narrowName wideName hnarrow hwide hsatisfied
  obtain ⟨contract, hcontract, hmet⟩ := (hcovers narrowName).mp hsatisfied
  obtain rfl : narrow = contract := Option.some.inj (hnarrow.symm.trans hcontract)
  exact (hcovers wideName).mpr ⟨wide, hwide, hwider.covers hmet⟩

/-- A numeral is no number, but it is numeric, a scalar and anything that is `mixed`. -/
theorem satisfied_of_wider_numeral :
    let view : CallView :=
      ⟨[⟨"run", some "Bar", []⟩, ⟨"run", none, [.null, .string " 1e3"]⟩], fun _ => false⟩
    let violation : Violation :=
      ⟨⟨"02", by decide, List.all_eq_true.mp rfl⟩, some "Foo", "run", "number", "string"⟩
    ¬ (violation.expecting "number").Satisfied view ∧
      (violation.expecting "numeric").Satisfied view ∧
      Contract.Wider .numeric .scalar ∧ (violation.expecting "scalar").Satisfied view ∧
      Contract.Wider .numeric .mixed ∧ (violation.expecting "mixed").Satisfied view := by
  intro view violation
  have hframe : violation.Innermost view.frames ⟨"run", none, [.null, .string " 1e3"]⟩ := by
    refine ⟨[⟨"run", some "Bar", []⟩], [], rfl, ⟨rfl, by simp⟩, ?_⟩
    intro other hmem hmatches
    obtain rfl := List.mem_singleton.mp hmem
    have hscope := hmatches.scope_eq "Bar" rfl
    simp [violation] at hscope
  have hoffset : violation.index.offset = 1 := by decide
  have hscalar : Contract.Wider .numeric .scalar := .single .numeric
  have hmixed : Contract.Wider .numeric .mixed := hscalar.tail .scalar
  obtain ⟨hcovers, hwider⟩ :=
    satisfied_of_wider violation view _ (.string " 1e3") hframe (by rw [hoffset]; rfl) rfl
  have hnumeric : (violation.expecting "numeric").Satisfied view :=
    (hcovers "numeric").mpr ⟨.numeric, rfl, .byValue (.numeral (by decide))⟩
  refine ⟨?_, hnumeric, hscalar, ?_, hmixed, ?_⟩
  · intro hsatisfied
    obtain ⟨contract, hcontract, hmet⟩ := (hcovers "number").mp hsatisfied
    obtain rfl : Contract.number = contract := Option.some.inj hcontract
    cases hmet with
    | byValue hvalue => cases hvalue
  · exact hwider .numeric .scalar hscalar "numeric" "scalar" rfl rfl hnumeric
  · exact hwider .numeric .mixed hmixed "numeric" "mixed" rfl rfl hnumeric

end Violation

end ArgumentContract
