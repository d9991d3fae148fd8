import ArgumentContract.Handling
import ArgumentContract.Proofs.Message.Recognition
import ArgumentContract.Proofs.Report.TemplateRestatement
import ArgumentContract.Proofs.Resolution.Verdict

/-!
# What becomes of a signal

A signal is decided in stages: by its severity, by whether its message fills the template, and by
the resolution of the violation that the message reports.  The text after the template has no part
in any of these decisions; it only turns up again in the message of a report.
-/

namespace ArgumentContract

/-- A mismatch carries the contract that the expected type name stands for.  It is never the
contract that every value meets. -/
theorem Violation.eq_ofDeclared?_of_mismatch
    {violation : Violation} {view : CallView} {expected : Option Contract}
    (hmismatch : violation.resolve.result view = .mismatch expected) :
    expected = Contract.ofDeclared? violation.expected ∧ expected ≠ some .mixed := by
  obtain ⟨hexpected, hnot⟩ := Violation.result_resolve_eq_mismatch_iff.mp hmismatch
  refine ⟨hexpected, fun hmixed => hnot .simple ?_⟩
  exact Violation.result_resolve_eq_simple_iff.mpr ⟨.mixed, hexpected.symm.trans hmixed, rfl⟩

namespace Signal

theorem handle_of_ne_recoverable
    {signal : Signal} (hseverity : signal.severity ≠ .recoverable) (view : CallView) :
    signal.handle view = .ok .notApplicable := by
  simp [handle, isAccepted, hseverity]

theorem handle_of_parse_error
    {signal : Signal} {rejection : Rejection} (hseverity : signal.severity = .recoverable)
    (hparse : Violation.parse signal.message = .error rejection) (view : CallView) :
    signal.handle view = .ok .unparsed := by
  simp [handle, isAccepted, hseverity, hparse]

theorem handle_of_parse_ok
    {signal : Signal} {violation : Violation} (hseverity : signal.severity = .recoverable)
    (hparse : Violation.parse signal.message = .ok violation) (view : CallView) :
    signal.handle view =
      match violation.resolve.result view with
      | .satisfied basis => .ok (.suppressed basis)
      | .mismatch expected => .error (Report.of expected signal) := by
  cases hresult : violation.resolve.result view with
  | satisfied basis => simp [handle, isAccepted, hseverity, hparse, hresult]
  | mismatch expected => simp [handle, isAccepted, hseverity, hparse, hresult]

theorem handle_of_not_template
    {signal : Signal} (hseverity : signal.severity = .recoverable)
    (hnot : ¬ ∃ (violation : Violation) (trailing : String),
      violation.WellFormed ∧ signal.message = violation.render ++ trailing)
    (view : CallView) :
    signal.handle view = .ok .unparsed := by
  cases hparse : Violation.parse signal.message with
  | error rejection => exact handle_of_parse_error hseverity hparse view
  | ok violation =>
      obtain ⟨hwell, trailing, htext⟩ := (Violation.parse_eq_ok_iff _ _).mp hparse
      exact absurd ⟨violation, trailing, hwell, htext⟩ hnot

theorem handle_eq_suppressed_iff
    {signal : Signal} {violation : Violation} (hseverity : signal.severity = .recoverable)
    (hparse : Violation.parse signal.message = .ok violation) (view : CallView)
    (basis : Basis) :
    signal.handle view = .ok (.suppressed basis) ↔
      violation.resolve.result view = .satisfied basis := by
  rw [handle_of_parse_ok hseverity hparse]
  split
  next found hfound => simp [hfound]
  next expected hexpected => simp [hexpected]

/-- The kind of a result, or its outcome, depends on the violation alone. -/
theorem mapError_kind_handle
    {signal : Signal} {violation : Violation} (hseverity : signal.severity = .recoverable)
    (hparse : Violation.parse signal.message = .ok violation) (view : CallView) :
    (signal.handle view).mapError Report.kind =
      match violation.resolve.result view with
      | .satisfied basis => .ok (.suppressed basis)
      | .mismatch none => .error .unrecognizedExpectedType
      | .mismatch (some _) => .error .confirmedMismatch := by
  rw [handle_of_parse_ok hseverity hparse]
  cases violation.resolve.result view with
  | satisfied basis => rfl
  | mismatch expected => cases expected <;> rfl

theorem handle_of_mismatch
    {signal : Signal} {violation : Violation} {trailing : String}
    (hseverity : signal.severity = .recoverable) (hwell : violation.WellFormed)
    (htext : signal.message = violation.render ++ trailing) {view : CallView}
    {expected : Option Contract}
    (hmismatch : violation.resolve.result view = .mismatch expected) :
    (Contract.ofDeclared? violation.expected = none ∧
        signal.handle view = .error
          { kind := .unrecognizedExpectedType
            message := signal.message
            severity := .recoverable }) ∨
      ∃ contract, Contract.ofDeclared? violation.expected = some contract ∧
        contract ≠ .mixed ∧
        signal.handle view = .error
          { kind := .confirmedMismatch
            message :=
              "Argument " ++ violation.index.digits
                ++ " passed to " ++ violation.qualifiedName ++ "() must be " ++ contract.phrase
                ++ ", " ++ violation.given ++ " "
                ++ Restatement.restate ("given" ++ trailing) contract.phrase
            severity := .recoverable } := by
  have hparse : Violation.parse signal.message = .ok violation :=
    (Violation.parse_eq_ok_iff _ _).mpr ⟨hwell, trailing, htext⟩
  obtain ⟨hdeclared, hmixed⟩ := Violation.eq_ofDeclared?_of_mismatch hmismatch
  have hhandle := handle_of_parse_ok hseverity hparse view
  rw [hmismatch] at hhandle
  cases expected with
  | none =>
      left
      refine ⟨hdeclared.symm, ?_⟩
      rw [hhandle, ← hseverity]
      rfl
  | some contract =>
      right
      refine ⟨contract, hdeclared.symm, fun h => hmixed (congrArg some h), ?_⟩
      rw [hhandle, ← hwell.restate_render_append, ← htext, ← hseverity]
      rfl

/-- The whole of handling, by severity, message and resolution.  A report states the contract in
the template and restates the text from `given` on; that text changes neither the outcome nor the
kind of a report. -/
theorem handle_by_template (signal : Signal) (view : CallView) :
    (signal.severity ≠ .recoverable → signal.handle view = .ok .notApplicable) ∧
      (signal.severity = .recoverable →
        (¬ ∃ (violation : Violation) (trailing : String),
          violation.WellFormed ∧ signal.message = violation.render ++ trailing) →
        signal.handle view = .ok .unparsed) ∧
      ∀ (violation : Violation) (trailing : String),
        signal.severity = .recoverable → violation.WellFormed →
        signal.message = violation.render ++ trailing →
          (∀ basis, signal.handle view = .ok (.suppressed basis) ↔
              violation.resolve.result view = .satisfied basis) ∧
            ((∀ basis, violation.resolve.result view ≠ .satisfied basis) →
              (Contract.ofDeclared? violation.expected = none ∧
                  signal.handle view = .error
                    { kind := .unrecognizedExpectedType
                      message := signal.message
                      severity := .recoverable }) ∨
                ∃ contract, Contract.ofDeclared? violation.expected = some contract ∧
                  contract ≠ .mixed ∧
                  signal.handle view = .error
                    { kind := .confirmedMismatch
                      message :=
                        "Argument " ++ violation.index.digits
                          ++ " passed to " ++ violation.qualifiedName
                          ++ "() must be " ++ contract.phrase
                          ++ ", " ++ violation.given ++ " "
                          ++ Restatement.restate ("given" ++ trailing) contract.phrase
                      severity := .recoverable }) ∧
            ∀ other : String,
              (Signal.handle ⟨signal.severity, violation.render ++ other⟩ view).mapError
                  Report.kind =
                (signal.handle view).mapError Report.kind := by
  refine ⟨fun hseverity => handle_of_ne_recoverable hseverity view,
    fun hseverity hnot => handle_of_not_template hseverity hnot view, ?_⟩
  intro violation trailing hseverity hwell htext
  have hparse : Violation.parse signal.message = .ok violation :=
    (Violation.parse_eq_ok_iff _ _).mpr ⟨hwell, trailing, htext⟩
  refine ⟨handle_eq_suppressed_iff hseverity hparse view, ?_, ?_⟩
  · intro hnot
    cases hresult : violation.resolve.result view with
    | satisfied basis => exact absurd hresult (hnot basis)
    | mismatch expected => exact handle_of_mismatch hseverity hwell htext hresult
  · intro other
    have hother := hwell.parse_render_append other
    -- The message enters only through what is read from it.
    generalize violation.render ++ other = message at hother ⊢
    rw [mapError_kind_handle hseverity hparse view]
    have hrecoverable : (Signal.mk signal.severity message).severity = .recoverable := hseverity
    exact mapError_kind_handle hrecoverable hother view

theorem handle_glued_given :
    Signal.handle ⟨.other, ""⟩ ⟨[], fun _ => false⟩ = .ok .notApplicable ∧
      Signal.handle ⟨.recoverable, ""⟩ ⟨[], fun _ => false⟩ = .ok .unparsed ∧
      Signal.handle
          ⟨.recoverable,
            "Argument 1 passed to f() must be an instance of int, "
              ++ "string givenan instance of X"⟩ ⟨[], fun _ => false⟩ =
        .error
          { kind := .confirmedMismatch
            message :=
              "Argument 1 passed to f() must be of the type integer, "
                ++ "string givenof the type integer"
            severity := .recoverable } := by
  refine ⟨(handle_by_template _ _).1 (by decide), (handle_by_template _ _).2.1 rfl ?_, ?_⟩
  · intro h
    obtain ⟨violation, trailing, hwell, htext⟩ := h
    have hparse := hwell.parse_render_append trailing
    rw [← htext] at hparse
    contradiction
  · let violation : Violation :=
      { index := ⟨"1", by decide, List.all_eq_true.mp rfl⟩
        scope := none
        function := "f"
        expected := "int"
        given := "string" }
    have hwell : violation.WellFormed :=
      ⟨by decide, by decide, by decide, by decide, by decide⟩
    have hreport :=
      ((handle_by_template ⟨.recoverable, violation.render ++ "an instance of X"⟩
        ⟨[], fun _ => false⟩).2.2 violation "an instance of X" rfl hwell rfl).2.1
          (fun basis h => by contradiction)
    rcases hreport with ⟨hdeclared, -⟩ | ⟨contract, hdeclared, -, hhandle⟩
    · contradiction
    · obtain rfl : Contract.integer = contract := Option.some.inj hdeclared
      refine hhandle.trans ?_
      decide +kernel

end Signal

end ArgumentContract
