import ArgumentContract.Proofs.Message.Recognition
import ArgumentContract.Proofs.Resolution.Argument

/-!
# Verdicts on violations

A verdict is read off three facts: the contract that the expected type name stands for, whether
the contract admits the name of the given type, and whether the argument itself meets it.  The
last one plays a part for two contracts only, and these two never admit a type by its name.
-/

namespace ArgumentContract

namespace Contract

/-- The values that meet a contract which needs them. -/
inductive MetBy (view : CallView) : Contract → Value → Prop
  | int (n : Int64) : MetBy view .numeric (.int n)
  | double (x : Binary64) : MetBy view .numeric (.double x)
  | numeral {text : String} (hnumeric : Numeral.isNumeric text = true) :
      MetBy view .numeric (.string text)
  | closure (name : String) : MetBy view .callable (.closure name)
  | function {name : String} (hinvocable : view.invocable name = true) :
      MetBy view .callable (.string name)
  | method {scope name : String}
      (hinvocable : view.invocable (scope ++ "::" ++ name) = true) :
      MetBy view .callable (.array [.string scope, .string name])

theorem result_isMetBy_numeric_iff {view : CallView} {argument : Value} :
    (numeric.isMetBy argument).result view = true ↔ numeric.MetBy view argument := by
  constructor
  · intro hnumeric
    cases argument with
    | int n => exact .int n
    | double x => exact .double x
    | string text => exact .numeral hnumeric
    | null | bool b | array items | resource kind | closure name => contradiction
  · intro hmet
    cases hmet with
    | int n => rfl
    | double x => rfl
    | numeral hnumeric => exact hnumeric

theorem result_isMetBy_callable_iff {view : CallView} {argument : Value} :
    (callable.isMetBy argument).result view = true ↔ callable.MetBy view argument := by
  constructor
  · intro hcallable
    unfold isMetBy Value.isCallable at hcallable
    dsimp only at hcallable
    split at hcallable
    next name => exact .closure name
    next name => exact .function hcallable
    next scope name => exact .method hcallable
    next => contradiction
  · intro hmet
    cases hmet with
    | closure name => rfl
    | function hinvocable => exact hinvocable
    | method hinvocable => exact hinvocable

theorem result_isMetBy_iff {view : CallView} {contract : Contract} {argument : Value} :
    (contract.isMetBy argument).result view = true ↔ contract.MetBy view argument := by
  cases contract with
  | numeric => exact result_isMetBy_numeric_iff
  | callable => exact result_isMetBy_callable_iff
  | _ =>
      constructor
      · intro h
        contradiction
      · intro hmet
        cases hmet

theorem MetBy.needsValue
    {view : CallView} {contract : Contract} {argument : Value}
    (hmet : contract.MetBy view argument) :
    contract.needsValue = true := by
  cases hmet <;> rfl

theorem needsValue_iff {contract : Contract} :
    contract.needsValue = true ↔ contract = .numeric ∨ contract = .callable := by
  cases contract <;> simp [needsValue]

theorem admits_eq_false_of_needsValue
    {contract : Contract} (hneeds : contract.needsValue = true) (given : String) :
    contract.admits given = false := by
  rcases needsValue_iff.mp hneeds with rfl | rfl <;> rfl

end Contract

namespace Violation

variable {violation : Violation} {view : CallView}

theorem result_tryArgument
    (violation : Violation) (contract : Contract) (view : CallView) :
    (violation.tryArgument contract).result view =
      match violation.argument? view.frames with
      | some argument => (contract.isMetBy argument).result view
      | none => false := by
  rw [tryArgument, Consultation.result]
  cases violation.argument? view.frames <;> rfl

theorem result_tryArgument_iff {contract : Contract} :
    (violation.tryArgument contract).result view = true ↔
      ∃ argument, violation.argument? view.frames = some argument ∧
        contract.MetBy view argument := by
  rw [result_tryArgument]
  cases violation.argument? view.frames with
  | none => simp
  | some argument => simp [Contract.result_isMetBy_iff]

theorem result_resolve_of_ofDeclared?_eq_none
    (hdeclared : Contract.ofDeclared? violation.expected = none) (view : CallView) :
    violation.resolve.result view = .mismatch none := by
  simp [resolve, hdeclared, Consultation.result]

theorem result_resolve_of_ofDeclared?_eq_some
    {contract : Contract} (hdeclared : Contract.ofDeclared? violation.expected = some contract)
    (view : CallView) :
    violation.resolve.result view =
      if contract.admits violation.given = true then .satisfied .simple
      else if contract.needsValue = true ∧
          (violation.tryArgument contract).result view = true then .satisfied .complex
      else .mismatch (some contract) := by
  simp only [resolve, hdeclared]
  split
  next => rfl
  next =>
    cases hneeds : contract.needsValue with
    | false => simp [Consultation.result]
    | true => simp [Consultation.result_map]

/-! ## One lemma for each verdict -/

theorem result_resolve_eq_simple_iff :
    violation.resolve.result view = .satisfied .simple ↔
      ∃ contract, Contract.ofDeclared? violation.expected = some contract ∧
        contract.admits violation.given = true := by
  cases hdeclared : Contract.ofDeclared? violation.expected with
  | none => simp [result_resolve_of_ofDeclared?_eq_none hdeclared]
  | some contract =>
      rw [result_resolve_of_ofDeclared?_eq_some hdeclared]
      by_cases hadmits : contract.admits violation.given = true
      · simp [hadmits]
      · rw [if_neg hadmits]
        split <;> simp [hadmits]

theorem result_resolve_eq_complex_iff :
    violation.resolve.result view = .satisfied .complex ↔
      ∃ contract argument, Contract.ofDeclared? violation.expected = some contract ∧
        violation.argument? view.frames = some argument ∧ contract.MetBy view argument := by
  cases hdeclared : Contract.ofDeclared? violation.expected with
  | none => simp [result_resolve_of_ofDeclared?_eq_none hdeclared]
  | some contract =>
      rw [result_resolve_of_ofDeclared?_eq_some hdeclared]
      constructor
      · intro hcomplex
        split at hcomplex
        next => contradiction
        next =>
          split at hcomplex
          next hmet =>
            obtain ⟨argument, hargument, hmet⟩ := result_tryArgument_iff.mp hmet.2
            exact ⟨contract, argument, rfl, hargument, hmet⟩
          next => contradiction
      · rintro ⟨other, argument, hother, hargument, hmet⟩
        obtain rfl := Option.some.inj hother
        have hadmits := Contract.admits_eq_false_of_needsValue hmet.needsValue violation.given
        rw [if_neg (by simp [hadmits]), if_pos]
        exact ⟨hmet.needsValue, result_tryArgument_iff.mpr ⟨argument, hargument, hmet⟩⟩

theorem result_resolve_eq_mismatch_iff {expected : Option Contract} :
    violation.resolve.result view = .mismatch expected ↔
      expected = Contract.ofDeclared? violation.expected ∧
        ∀ basis, violation.resolve.result view ≠ .satisfied basis := by
  cases hdeclared : Contract.ofDeclared? violation.expected with
  | none => simp [result_resolve_of_ofDeclared?_eq_none hdeclared, eq_comm]
  | some contract =>
      rw [result_resolve_of_ofDeclared?_eq_some hdeclared]
      split
      next => simp
      next => split <;> simp [eq_comm]

theorem result_resolve_of_argument?_eq_none
    {contract : Contract} (hdeclared : Contract.ofDeclared? violation.expected = some contract)
    (hneeds : contract.needsValue = true) (hnone : violation.argument? view.frames = none) :
    violation.resolve.result view = .mismatch (some contract) := by
  refine result_resolve_eq_mismatch_iff.mpr ⟨hdeclared.symm, fun basis hbasis => ?_⟩
  cases basis with
  | simple =>
      obtain ⟨other, hother, hadmits⟩ := result_resolve_eq_simple_iff.mp hbasis
      obtain rfl : contract = other := Option.some.inj (hdeclared.symm.trans hother)
      rw [Contract.admits_eq_false_of_needsValue hneeds] at hadmits
      contradiction
  | complex =>
      obtain ⟨-, argument, -, hargument, -⟩ := result_resolve_eq_complex_iff.mp hbasis
      rw [hnone] at hargument
      contradiction

/-! ## Other names for the type that was expected -/

/-- The same violation with another name for the type that was expected. -/
def expecting (violation : Violation) (name : String) : Violation :=
  { violation with expected := name }

theorem result_resolve_expecting
    {name : String}
    (hsame : Contract.ofDeclared? name = Contract.ofDeclared? violation.expected)
    (view : CallView) :
    (violation.expecting name).resolve.result view = violation.resolve.result view := by
  have hexpected : (violation.expecting name).expected = name := rfl
  unfold resolve
  rw [hexpected, hsame]
  rfl

/-! ## Verdicts by the position that a message names -/

theorem result_resolve_eq_complex_iff_hasArgument
    (hpos : 1 ≤ violation.index.value)
    (hlength : ∀ frame ∈ view.frames, frame.arguments.length < ArgumentIndex.greatest) :
    violation.resolve.result view = .satisfied .complex ↔
      ∃ contract, Contract.ofDeclared? violation.expected = some contract ∧
        (contract = .numeric ∨ contract = .callable) ∧
        ∃ frame, violation.Innermost view.frames frame ∧
          ∃ argument, frame.HasArgument violation.index.number argument ∧
            contract.MetBy view argument := by
  rw [result_resolve_eq_complex_iff]
  constructor
  · rintro ⟨contract, argument, hdeclared, hargument, hmet⟩
    obtain ⟨frame, hframe, hhas⟩ :=
      (argument?_eq_some_iff_hasArgument hpos hlength).mp hargument
    exact ⟨contract, hdeclared, Contract.needsValue_iff.mp hmet.needsValue,
      frame, hframe, argument, hhas, hmet⟩
  · rintro ⟨contract, hdeclared, -, frame, hframe, argument, hhas, hmet⟩
    have hargument : violation.argument? view.frames = some argument :=
      (argument?_eq_some_iff_hasArgument hpos hlength).mpr ⟨frame, hframe, hhas⟩
    exact ⟨contract, argument, hdeclared, hargument, hmet⟩

/-- The verdict on a violation that a message reports, with its position read as a number of any
size.  Only the innermost matching call is asked for the argument, and a position beyond the
greatest one never selects any. -/
theorem resolve_by_position
    (message : String) (violation : Violation) (view : CallView)
    (hparse : parse message = .ok violation)
    (hlength : ∀ frame ∈ view.frames, frame.arguments.length < 2 ^ 64 - 1) :
    (violation.resolve.result view = .satisfied .simple ↔
        ∃ contract, Contract.ofDeclared? violation.expected = some contract ∧
          contract.admits violation.given = true) ∧
      (violation.resolve.result view = .satisfied .complex ↔
        ∃ contract, Contract.ofDeclared? violation.expected = some contract ∧
          (contract = .numeric ∨ contract = .callable) ∧
          ∃ frame, violation.Innermost view.frames frame ∧
            ∃ argument, frame.HasArgument violation.index.number argument ∧
              contract.MetBy view argument) ∧
      ((∀ basis, violation.resolve.result view ≠ .satisfied basis) →
        violation.resolve.result view =
          .mismatch (Contract.ofDeclared? violation.expected)) ∧
      (∀ contract, Contract.ofDeclared? violation.expected = some contract →
        contract = .numeric ∨ contract = .callable →
          ∀ frame, violation.Innermost view.frames frame →
            frame.arguments.length < violation.index.number →
              violation.resolve.result view = .mismatch (some contract)) ∧
      (2 ^ 64 - 1 < violation.index.number → violation.argument? view.frames = none) := by
  have hpos : 1 ≤ violation.index.value :=
    ((parse_eq_ok_iff message violation).mp hparse).1.index_pos
  refine ⟨result_resolve_eq_simple_iff,
    result_resolve_eq_complex_iff_hasArgument hpos hlength, ?_, ?_, ?_⟩
  · intro hnot
    exact result_resolve_eq_mismatch_iff.mpr ⟨rfl, hnot⟩
  · intro contract hdeclared hneeds frame hframe hshort
    have hnone : violation.argument? view.frames = none := by
      apply argument?_eq_none_of_innermost hpos hlength
      intro other hother
      rw [hother.unique hframe]
      exact hshort
    exact result_resolve_of_argument?_eq_none hdeclared
      (Contract.needsValue_iff.mpr hneeds) hnone
  · intro hbig
    apply argument?_eq_none_of_innermost hpos hlength
    intro frame hframe
    exact (hlength frame hframe.mem).trans hbig

/-- The second argument of a call that is made again from inside of itself. -/
theorem resolve_padded_position_of_nested_call :
    ∃ violation,
      parse "Argument 02 passed to Foo::run() must be an instance of numeric, string given" =
          .ok violation ∧
        violation.resolve.result
            ⟨[⟨"run", some "Bar", []⟩, ⟨"run", none, [.null, .string "1e3"]⟩,
              ⟨"run", some "Foo", [.null]⟩], fun _ => false⟩ =
          .satisfied .complex ∧
        violation.resolve.result
            ⟨[⟨"run", some "Foo", [.null]⟩, ⟨"run", none, [.null, .string "1e3"]⟩],
              fun _ => false⟩ =
          .mismatch (some .numeric) := by
  let violation : Violation :=
    { index := ⟨"02", by decide, List.all_eq_true.mp rfl⟩
      scope := some "Foo"
      function := "run"
      expected := "numeric"
      given := "string" }
  have hparse :
      parse "Argument 02 passed to Foo::run() must be an instance of numeric, string given" =
        .ok violation := rfl
  have hnumber : violation.index.number = 2 := by decide
  have hdeclared : Contract.ofDeclared? violation.expected = some .numeric := rfl
  refine ⟨violation, hparse, ?_, ?_⟩
  · have hresolve := resolve_by_position _ violation
      ⟨[⟨"run", some "Bar", []⟩, ⟨"run", none, [.null, .string "1e3"]⟩,
        ⟨"run", some "Foo", [.null]⟩], fun _ => false⟩ hparse (by simp)
    refine hresolve.2.1.mpr ⟨.numeric, hdeclared, .inl rfl,
      ⟨"run", none, [.null, .string "1e3"]⟩, ?_, .string "1e3", ?_, ?_⟩
    · refine ⟨[⟨"run", some "Bar", []⟩], [⟨"run", some "Foo", [.null]⟩], rfl,
        ⟨rfl, by simp⟩, ?_⟩
      intro other hmem hmatches
      obtain rfl := List.mem_singleton.mp hmem
      have hscope := hmatches.scope_eq "Bar" rfl
      simp [violation] at hscope
    · exact ⟨[.null], [], rfl, hnumber⟩
    · exact .numeral (by decide)
  · have hresolve := resolve_by_position _ violation
      ⟨[⟨"run", some "Foo", [.null]⟩, ⟨"run", none, [.null, .string "1e3"]⟩], fun _ => false⟩
      hparse (by simp)
    refine hresolve.2.2.2.1 .numeric hdeclared (.inl rfl) ⟨"run", some "Foo", [.null]⟩ ?_ ?_
    · exact ⟨[], _, rfl, ⟨rfl, by simp [violation]⟩, by simp⟩
    · rw [hnumber]
      decide

end Violation

end ArgumentContract
