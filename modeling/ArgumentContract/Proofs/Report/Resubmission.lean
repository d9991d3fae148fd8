import ArgumentContract.Proofs.Handling

/-!
# Reports that are handled again

The message of a report can come back as the message of a new signal.  A report that states a
contract does not fill the template: where the template has `an`, it has the first word of a
phrase, and no phrase begins with `an`.  What stands in front of that place has the same shape in
every template, so the message cannot be read in another way either.  A report that passes its
message on is made again, because a type name without a contract is rejected before the active
calls are asked.
-/

namespace ArgumentContract

open Token

/-! ## Messages that state a contract -/

theorem Contract.firstWord_phrase (contract : Contract) :
    IsName (contract.phrase.toList.takeWhile isWordChar) ∧
      contract.phrase.toList.takeWhile isWordChar ≠ "an".toList := by
  cases contract <;> decide

theorem Contract.exists_scan_phrase (contract : Contract) (following : List Char) :
    ∃ letters tokens,
      scan (contract.phrase.toList ++ ',' :: following) = word letters :: tokens ∧
        letters ≠ "an".toList := by
  have hfirst := contract.firstWord_phrase
  have hend := startsWord_dropWhile contract.phrase.toList
  have hsplit :
      contract.phrase.toList.takeWhile isWordChar ++
          contract.phrase.toList.dropWhile isWordChar = contract.phrase.toList :=
    List.takeWhile_append_dropWhile
  generalize contract.phrase.toList.takeWhile isWordChar = letters at hfirst hsplit
  generalize contract.phrase.toList.dropWhile isWordChar = rest at hsplit hend
  -- A phrase of one word ends at the comma that follows it.
  have hstop : startsWord (rest ++ ',' :: following) = false := by
    cases rest with
    | nil => rfl
    | cons c rest => exact hend
  refine ⟨letters, scan (rest ++ ',' :: following), ?_, hfirst.2⟩
  rw [← hsplit, List.append_assoc, scan_name_append hfirst.1 hstop]

namespace Violation

theorem eq_of_tokensBeforeContract_append_eq
    {first second : Violation} {left right : List Token}
    (htokens : first.tokensBeforeContract ++ left = second.tokensBeforeContract ++ right) :
    left = right := by
  -- The mark after the first word of the callee tells whether there is a scope.
  cases hfirst : first.scope <;> cases hsecond : second.scope <;>
    simp_all [tokensBeforeContract, Grammar.calleeTokens, Grammar.beforeIndex,
      Grammar.beforeCallee]

theorem WellFormed.tiles_tokensBeforeContract
    {violation : Violation} (hwell : violation.WellFormed) (rest : List Char) :
    Tiles rest violation.tokensBeforeContract := by
  have hmust : Tiles rest [space, keyword "must", space, keyword "be", space] :=
    ⟨trivial, ⟨by decide, rfl⟩, trivial, ⟨by decide, rfl⟩, trivial, trivial⟩
  have hcallee := tiles_append.mpr ⟨hwell.tiles_calleeTokens _, hmust⟩
  have hheader := tiles_append.mpr ⟨tiles_beforeCallee _, hcallee⟩
  exact tiles_append.mpr
    ⟨tiles_beforeIndex _, ⟨violation.index.isName_digits, rfl⟩, hheader⟩

theorem WellFormed.scan_stated
    {violation : Violation} (hwell : violation.WellFormed) (contract : Contract)
    (following : String) :
    scan
        ("Argument " ++ violation.index.digits
          ++ " passed to " ++ violation.qualifiedName ++ "() must be " ++ contract.phrase
          ++ ", " ++ following).toList =
      violation.tokensBeforeContract ++
        scan (contract.phrase.toList ++ ',' :: ' ' :: following.toList) := by
  have htiles := hwell.tiles_tokensBeforeContract
    (contract.phrase.toList ++ ',' :: ' ' :: following.toList)
  rw [← htiles.scan_append, flatMap_text_tokensBeforeContract]
  simp only [String.toList_append, List.append_assoc]
  rfl

theorem WellFormed.parse_stated_ne_ok
    {violation : Violation} (hwell : violation.WellFormed) (contract : Contract)
    (following : String) (other : Violation) :
    parse
        ("Argument " ++ violation.index.digits
          ++ " passed to " ++ violation.qualifiedName ++ "() must be " ++ contract.phrase
          ++ ", " ++ following) ≠ .ok other := by
  intro hparse
  obtain ⟨hother, trailing, htext⟩ := (parse_eq_ok_iff _ _).mp hparse
  obtain ⟨last, rest, hscan⟩ := hother.scan_render_append trailing
  obtain ⟨letters, tokens, hphrase, hne⟩ :=
    contract.exists_scan_phrase (' ' :: following.toList)
  -- The two readings of the message meet where the contract stands.
  rw [← htext, hwell.scan_stated, hphrase, tokens_eq_contract, List.append_assoc] at hscan
  have hplace := eq_of_tokensBeforeContract_append_eq hscan
  have hword : word letters = word "an".toList := (List.cons.inj hplace).1
  exact hne (word.inj hword)

end Violation

namespace Signal

theorem handle_of_stated
    {signal : Signal} {violation : Violation}
    (hseverity : signal.severity = .recoverable) (hwell : violation.WellFormed)
    (contract : Contract) (following : String)
    (htext : signal.message =
      "Argument " ++ violation.index.digits
        ++ " passed to " ++ violation.qualifiedName ++ "() must be " ++ contract.phrase
        ++ ", " ++ following)
    (view : CallView) :
    signal.handle view = .ok .unparsed := by
  cases hparse : Violation.parse signal.message with
  | error rejection => exact handle_of_parse_error hseverity hparse view
  | ok other =>
      rw [htext] at hparse
      exact absurd hparse (hwell.parse_stated_ne_ok contract following other)

/-! ## Messages that are passed on -/

theorem handle_of_ofDeclared?_eq_none
    {signal : Signal} {violation : Violation} {trailing : String}
    (hseverity : signal.severity = .recoverable) (hwell : violation.WellFormed)
    (htext : signal.message = violation.render ++ trailing)
    (hdeclared : Contract.ofDeclared? violation.expected = none) (view : CallView) :
    signal.handle view = .error
      { kind := .unrecognizedExpectedType
        message := signal.message
        severity := .recoverable } := by
  have hresult := Violation.result_resolve_of_ofDeclared?_eq_none hdeclared view
  rcases handle_of_mismatch hseverity hwell htext hresult with
    ⟨-, hhandle⟩ | ⟨contract, hcontract, -⟩
  · exact hhandle
  · rw [hdeclared] at hcontract
    contradiction

/-! ## Reports -/

/-- A report is made for a violation, and its kind tells which of the two messages it has. -/
theorem exists_violation_of_handle_eq_error
    {signal : Signal} {view : CallView} {report : Report}
    (hreport : signal.handle view = .error report) :
    ∃ (violation : Violation) (trailing : String),
      violation.WellFormed ∧ signal.message = violation.render ++ trailing ∧
        ((Contract.ofDeclared? violation.expected = none ∧
            report =
              { kind := .unrecognizedExpectedType
                message := signal.message
                severity := .recoverable }) ∨
          ∃ contract : Contract,
            report =
              { kind := .confirmedMismatch
                message :=
                  "Argument " ++ violation.index.digits
                    ++ " passed to " ++ violation.qualifiedName
                    ++ "() must be " ++ contract.phrase
                    ++ ", " ++ violation.given ++ " "
                    ++ Restatement.restate ("given" ++ trailing) contract.phrase
                severity := .recoverable }) := by
  by_cases hseverity : signal.severity = .recoverable
  · cases hparse : Violation.parse signal.message with
    | error rejection =>
        rw [handle_of_parse_error hseverity hparse] at hreport
        contradiction
    | ok violation =>
        obtain ⟨hwell, trailing, htext⟩ := (Violation.parse_eq_ok_iff _ _).mp hparse
        refine ⟨violation, trailing, hwell, htext, ?_⟩
        cases hresult : violation.resolve.result view with
        | satisfied basis =>
            rw [(handle_eq_suppressed_iff hseverity hparse view basis).mpr hresult] at hreport
            contradiction
        | mismatch expected =>
            rcases handle_of_mismatch hseverity hwell htext hresult with
              ⟨hdeclared, hhandle⟩ | ⟨contract, -, -, hhandle⟩
            · rw [hhandle] at hreport
              exact Or.inl ⟨hdeclared, (Except.error.inj hreport).symm⟩
            · rw [hhandle] at hreport
              exact Or.inr ⟨contract, (Except.error.inj hreport).symm⟩
  · rw [handle_of_ne_recoverable hseverity] at hreport
    contradiction

/-- When its message is handled again, a report that states a contract is passed by, and a report
that passes its message on is made once more, whatever calls are active then. -/
theorem handle_message_of_report
    (message : String) (view other : CallView) (report : Report)
    (hreport : Signal.handle ⟨.recoverable, message⟩ view = .error report) :
    (report.kind = .confirmedMismatch →
        Signal.handle ⟨.recoverable, report.message⟩ other = .ok .unparsed) ∧
      (report.kind = .unrecognizedExpectedType →
        Signal.handle ⟨.recoverable, report.message⟩ other = .error report) := by
  obtain ⟨violation, trailing, hwell, htext, hkind⟩ :=
    exists_violation_of_handle_eq_error hreport
  rcases hkind with ⟨hdeclared, rfl⟩ | ⟨contract, rfl⟩
  · refine ⟨by simp, fun _ => ?_⟩
    exact handle_of_ofDeclared?_eq_none rfl hwell htext hdeclared other
  · refine ⟨fun _ => ?_, by simp⟩
    refine handle_of_stated rfl hwell contract
      (violation.given ++ " " ++ Restatement.restate ("given" ++ trailing) contract.phrase)
      ?_ other
    simp only [String.append_assoc]

theorem handle_message_of_report_glued :
    (Signal.handle
          ⟨.recoverable,
            "Argument 01 passed to f() must be an instance of callable, "
              ++ "string givenan instance of X"⟩ ⟨[], fun _ => false⟩ =
        .error
          { kind := .confirmedMismatch
            message := "Argument 01 passed to f() must be callable, string givencallable"
            severity := .recoverable } ∧
        Signal.handle
            ⟨.recoverable, "Argument 01 passed to f() must be callable, string givencallable"⟩
            ⟨[], fun _ => true⟩ = .ok .unparsed) ∧
      Signal.handle
            ⟨.recoverable, "Argument 01 passed to f() must be an instance of X, string given"⟩
            ⟨[], fun _ => false⟩ =
          .error
            { kind := .unrecognizedExpectedType
              message := "Argument 01 passed to f() must be an instance of X, string given"
              severity := .recoverable } ∧
        Signal.handle
            ⟨.recoverable, "Argument 01 passed to f() must be an instance of X, string given"⟩
            ⟨[], fun _ => true⟩ =
          .error
            { kind := .unrecognizedExpectedType
              message := "Argument 01 passed to f() must be an instance of X, string given"
              severity := .recoverable } := by
  refine ⟨⟨rfl, ?_⟩, rfl, ?_⟩
  · exact
      (handle_message_of_report
        ("Argument 01 passed to f() must be an instance of callable, "
          ++ "string givenan instance of X") ⟨[], fun _ => false⟩ _
        { kind := .confirmedMismatch
          message := "Argument 01 passed to f() must be callable, string givencallable"
          severity := .recoverable } rfl).1 rfl
  · exact
      (handle_message_of_report
        "Argument 01 passed to f() must be an instance of X, string given"
        ⟨[], fun _ => false⟩ _ _ rfl).2 rfl

end Signal

end ArgumentContract
