import ArgumentContract.Proofs.Handling

/-!
# Messages that expect an alias

Some contracts go by several names.  A message that expects one of them gets the same result as the
message with another name of the same contract in its place.  The names have different lengths, so
that nothing after them stands at the same place in both messages.  Still, the resolution only goes
by the contract, and a report states the contract where the name stood.
-/

namespace ArgumentContract

theorem Contract.isName_of_ofDeclared?_eq_some
    {name : String} {contract : Contract} (hdeclared : ofDeclared? name = some contract) :
    IsName name.toList := by
  unfold ofDeclared? at hdeclared
  split at hdeclared
  all_goals first
    | contradiction
    | decide

namespace Violation

theorem WellFormed.expecting
    {violation : Violation} (hwell : violation.WellFormed) {name : String}
    (hname : IsName name.toList) :
    (violation.expecting name).WellFormed :=
  { hwell with expected_isName := hname }

/-! ## Positions that are no positions -/

theorem digits_eq_of_render_append_eq
    {first second : Violation} {left right : String}
    (htext : first.render ++ left = second.render ++ right) :
    first.index.digits = second.index.digits := by
  obtain ⟨firstTail, hfirst⟩ := first.render_eq_digits_append
  obtain ⟨secondTail, hsecond⟩ := second.render_eq_digits_append
  rw [hfirst, hsecond, ← String.toList_inj] at htext
  simp only [String.toList_append, List.append_assoc, List.append_cancel_left_eq] at htext
  have hdigits := Restatement.name_eq_of_append_eq first.index.isName_digits
    second.index.isName_digits rfl rfl htext
  exact String.toList_inj.mp hdigits.1

theorem one_le_value_of_parse_render_append
    {violation other : Violation} {trailing : String}
    (hparse : parse (violation.render ++ trailing) = .ok other) :
    1 ≤ violation.index.value := by
  obtain ⟨hwell, rest, htext⟩ := (parse_eq_ok_iff _ _).mp hparse
  have hdigits := digits_eq_of_render_append_eq htext
  have hpos := hwell.index_pos
  rw [ArgumentIndex.one_le_value_iff] at hpos ⊢
  rw [hdigits]
  exact hpos

end Violation

namespace Signal

variable {signal : Signal} {violation : Violation} {trailing : String}

theorem handle_of_value_eq_zero
    (hseverity : signal.severity = .recoverable) (hzero : violation.index.value = 0)
    (htext : signal.message = violation.render ++ trailing) (view : CallView) :
    signal.handle view = .ok .unparsed := by
  cases hparse : Violation.parse signal.message with
  | error rejection => exact handle_of_parse_error hseverity hparse view
  | ok other =>
      rw [htext] at hparse
      have hpos := Violation.one_le_value_of_parse_render_append hparse
      omega

/-! ## Positions of an argument -/

theorem handle_of_ofDeclared?_eq_some
    {contract : Contract} (hseverity : signal.severity = .recoverable)
    (hwell : violation.WellFormed)
    (hdeclared : Contract.ofDeclared? violation.expected = some contract)
    (htext : signal.message = violation.render ++ trailing) (view : CallView) :
    signal.handle view =
      match violation.resolve.result view with
      | .satisfied basis => .ok (.suppressed basis)
      | .mismatch _ => .error
          { kind := .confirmedMismatch
            message :=
              "Argument " ++ violation.index.digits
                ++ " passed to " ++ violation.qualifiedName ++ "() must be " ++ contract.phrase
                ++ ", " ++ violation.given ++ " "
                ++ Restatement.restate ("given" ++ trailing) contract.phrase
            severity := .recoverable } := by
  cases hresult : violation.resolve.result view with
  | satisfied basis =>
      have hparse : Violation.parse signal.message = .ok violation := by
        rw [htext]
        exact hwell.parse_render_append trailing
      exact (handle_eq_suppressed_iff hseverity hparse view basis).mpr hresult
  | mismatch expected =>
      rcases handle_of_mismatch hseverity hwell htext hresult with
        ⟨hnone, -⟩ | ⟨found, hfound, -, hhandle⟩
      · rw [hdeclared] at hnone
        contradiction
      · obtain rfl : contract = found := Option.some.inj (hdeclared.symm.trans hfound)
        exact hhandle

/-! ## Two names of one contract -/

/-- Two declared names of one contract cannot be told apart by the result of handling a message
that expects them, with whatever text after the template. -/
theorem handle_render_expecting
    (violation : Violation) (contract : Contract) (other trailing : String)
    (severity : Severity) (view : CallView)
    (hscope : ∀ scope ∈ violation.scope, IsName scope.toList)
    (hfunction : IsName violation.function.toList) (hgiven : IsName violation.given.toList)
    (hexpected : Contract.ofDeclared? violation.expected = some contract)
    (hother : Contract.ofDeclared? other = some contract) :
    Signal.handle ⟨severity, (violation.expecting other).render ++ trailing⟩ view =
      Signal.handle ⟨severity, violation.render ++ trailing⟩ view := by
  let signal : Signal := ⟨severity, violation.render ++ trailing⟩
  let signalOther : Signal := ⟨severity, (violation.expecting other).render ++ trailing⟩
  have htext : signal.message = violation.render ++ trailing := rfl
  have htextOther : signalOther.message = (violation.expecting other).render ++ trailing := rfl
  change signalOther.handle view = signal.handle view
  by_cases hseverity : severity = .recoverable
  · by_cases hpos : 1 ≤ violation.index.value
    · have hwell : violation.WellFormed :=
        ⟨hpos, hscope, hfunction, Contract.isName_of_ofDeclared?_eq_some hexpected, hgiven⟩
      have hwellOther : (violation.expecting other).WellFormed :=
        hwell.expecting (Contract.isName_of_ofDeclared?_eq_some hother)
      have hresult : (violation.expecting other).resolve.result view =
          violation.resolve.result view :=
        Violation.result_resolve_expecting (hother.trans hexpected.symm) view
      rw [handle_of_ofDeclared?_eq_some hseverity hwell hexpected htext,
        handle_of_ofDeclared?_eq_some hseverity hwellOther hother htextOther, hresult]
      rfl
    · have hzero : violation.index.value = 0 := by omega
      have hzeroOther : (violation.expecting other).index.value = 0 := hzero
      rw [handle_of_value_eq_zero hseverity hzero htext,
        handle_of_value_eq_zero hseverity hzeroOther htextOther]
  · rw [handle_of_ne_recoverable hseverity, handle_of_ne_recoverable hseverity]

theorem handle_double_expecting_real :
    let text := "Argument 1 passed to f() must be an instance of "
    let trailing := ", string givenan instance of real"
    Signal.handle ⟨.recoverable, text ++ "real" ++ trailing⟩ ⟨[], fun _ => false⟩ =
        Signal.handle ⟨.recoverable, text ++ "double" ++ trailing⟩ ⟨[], fun _ => false⟩ ∧
      Signal.handle ⟨.recoverable, text ++ "double" ++ trailing⟩ ⟨[], fun _ => false⟩ =
        .error
          { kind := .confirmedMismatch
            message :=
              "Argument 1 passed to f() must be of the type double, "
                ++ "string givenof the type double"
            severity := .recoverable } := by
  intro text trailing
  let violation : Violation :=
    { index := ⟨"1", by decide, List.all_eq_true.mp rfl⟩
      scope := none
      function := "f"
      expected := "double"
      given := "string" }
  have hdouble : text ++ "double" ++ trailing = violation.render ++ "an instance of real" := rfl
  have hreal :
      text ++ "real" ++ trailing =
        (violation.expecting "real").render ++ "an instance of real" := rfl
  have hsame := handle_render_expecting violation .double "real" "an instance of real"
    .recoverable ⟨[], fun _ => false⟩ (by decide) (by decide) (by decide) rfl rfl
  refine ⟨?_, by decide +kernel⟩
  rw [hreal, hdouble]
  exact hsame

end Signal

end ArgumentContract
