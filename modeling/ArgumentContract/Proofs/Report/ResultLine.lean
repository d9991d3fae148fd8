import ArgumentContract.CommandLine.Program
import ArgumentContract.Proofs.Json.OneLine
import ArgumentContract.Report.Document

/-!
# Printed results tell everything about a result

The result of a signal is printed as one line.  Whoever reads the line needs no more than the
members of an object, whatever their order: a member `violation` tells that there is a report, and
without one the member `outcome` is a name or an object with the one member `suppressed`.  What is
read back in this way is the result that was printed, so that no two results share a line.
-/

namespace ArgumentContract

/-! ## Reading a result off a document -/

namespace Json

def member? (name : String) : Json → Option Json
  | object members => members.lookup name
  | _ => none

def text? : Json → Option String
  | string text => some text
  | _ => none

end Json

def Basis.ofName? : String → Option Basis
  | "simple" => some simple
  | "complex" => some complex
  | _ => none

def Outcome.ofJson? (document : Json) : Option Outcome :=
  match document.text? with
  | some "not_applicable" => some notApplicable
  | some "unparsed" => some unparsed
  | some _ => none
  | none => do
      let basis ← (← document.member? "suppressed").text?
      return suppressed (← Basis.ofName? basis)

def ReportKind.ofName? : String → Option ReportKind
  | "confirmed_mismatch" => some confirmedMismatch
  | "unrecognized_expected_type" => some unrecognizedExpectedType
  | _ => none

def Report.ofJson? (document : Json) : Option Report := do
  let kind ← (← document.member? "kind").text?
  let message ← (← document.member? "message").text?
  let severity ← (← document.member? "severity").text?
  return { kind := ← ReportKind.ofName? kind, message, severity := ← Severity.ofName? severity }

/-- The result that a document tells. -/
def resultOfJson? (document : Json) : Option (Except Report Outcome) :=
  match document.member? "violation" with
  | some report => (Report.ofJson? report).map .error
  | none => do return .ok (← Outcome.ofJson? (← document.member? "outcome"))

theorem Outcome.ofJson?_toJson (outcome : Outcome) : ofJson? outcome.toJson = some outcome := by
  cases outcome with
  | notApplicable => rfl
  | unparsed => rfl
  | suppressed basis => cases basis <;> rfl

theorem Report.ofJson?_toJson (report : Report) : ofJson? report.toJson = some report := by
  rcases report with ⟨kind, message, severity⟩
  cases kind <;> cases severity <;> rfl

theorem resultOfJson?_resultJson (result : Except Report Outcome) :
    resultOfJson? (resultJson result) = some result := by
  cases result with
  | ok outcome =>
      have houtcome := outcome.ofJson?_toJson
      change (do return .ok (← Outcome.ofJson? outcome.toJson)) = some (Except.ok outcome)
      rw [houtcome]
      rfl
  | error report =>
      have hreport := report.ofJson?_toJson
      change (Report.ofJson? report.toJson).map .error = some (Except.error report)
      rw [hreport]
      rfl

/-! ## The line of a result -/

theorem integral_toJson_outcome (outcome : Outcome) : outcome.toJson.Integral := by
  cases outcome with
  | notApplicable => exact .string _
  | unparsed => exact .string _
  | suppressed basis =>
      refine .object ?_
      simp only [List.forall_mem_cons]
      exact ⟨.string _, by simp⟩

theorem integral_toJson_report (report : Report) : report.toJson.Integral := by
  refine .object ?_
  simp only [List.forall_mem_cons]
  exact ⟨.string _, .string _, .string _, by simp⟩

theorem integral_resultJson (result : Except Report Outcome) : (resultJson result).Integral := by
  cases result with
  | ok outcome =>
      refine .object ?_
      simp only [List.forall_mem_cons]
      exact ⟨.bool _, integral_toJson_outcome outcome, by simp⟩
  | error report =>
      refine .object ?_
      simp only [List.forall_mem_cons]
      exact ⟨.bool _, integral_toJson_report report, by simp⟩

theorem nesting_resultJson_le (result : Except Report Outcome) :
    (resultJson result).nesting ≤ 2 := by
  cases result with
  | ok outcome =>
      cases outcome with
      | notApplicable | unparsed => decide
      | suppressed basis => exact Nat.le_refl 2
  | error report => exact Nat.le_refl 2

theorem readDocument_resultJson (result : Except Report Outcome) :
    Json.readDocument Json.readTree (resultJson result).toText = .ok (resultJson result) := by
  apply Json.readDocument_toText
  apply (integral_resultJson result).reads_compact
  exact (nesting_resultJson_le result).trans (by decide)

theorem member?_handled_resultJson (result : Except Report Outcome) :
    ∃ handled, (resultJson result).member? "handled" = some (.bool handled) ∧
      (handled = true ↔
        (∃ basis, result = .ok (.suppressed basis)) ∨ ∃ report, result = .error report) := by
  cases result with
  | ok outcome =>
      refine ⟨outcome.isHandled, rfl, ?_⟩
      cases outcome <;> simp [Outcome.isHandled]
  | error report => exact ⟨true, rfl, by simp⟩

theorem resultJson_toText_inj {result other : Except Report Outcome}
    (htext : (resultJson result).toText = (resultJson other).toText) :
    result = other := by
  have hread := readDocument_resultJson result
  rw [htext, readDocument_resultJson other] at hread
  have hdocument : resultJson other = resultJson result := Except.ok.inj hread
  have hresult := resultOfJson?_resultJson result
  rw [← hdocument, resultOfJson?_resultJson other] at hresult
  exact (Option.some.inj hresult).symm

/-- The line of a result is a document without control characters from which the result is read
back: whether it was handled, and the outcome or the report with its message character for
character.  It is the line that the program prints, and no other result has it. -/
theorem resultJson_faithful (result : Except Report Outcome) :
    (∀ c ∈ (resultJson result).toText.toList, 0x20 ≤ c.toNat) ∧
      (∃ document handled,
        Json.readDocument Json.readTree (resultJson result).toText = .ok document ∧
          resultOfJson? document = some result ∧
          document.member? "handled" = some (.bool handled) ∧
          (handled = true ↔
            (∃ basis, result = .ok (.suppressed basis)) ∨ ∃ report, result = .error report) ∧
          ∀ report, result = .error report →
            (document.member? "violation").bind (Json.member? "message") =
              some (.string report.message)) ∧
      (∀ other, (resultJson other).toText = (resultJson result).toText → other = result) ∧
      ∀ (signal : Signal) (stack : CallStack), signal.handle stack.view = result →
        (CommandLine.emit .json signal stack).output = (resultJson result).toText ++ "\n" := by
  obtain ⟨handled, hmember, hhandled⟩ := member?_handled_resultJson result
  refine ⟨?_, ⟨resultJson result, handled, readDocument_resultJson result,
    resultOfJson?_resultJson result, hmember, hhandled, ?_⟩, fun other => resultJson_toText_inj, ?_⟩
  · rw [Json.toText, String.toList_ofList]
    exact (integral_resultJson result).controlFree_compact
  · rintro report rfl
    rfl
  · rintro signal stack rfl
    rfl

example :
    (resultJson (.error ⟨.confirmedMismatch, "a \"b\" \\ \n\x01é", .recoverable⟩)).toText =
      "\x7b\"handled\":true,\"violation\":\x7b\"kind\":\"confirmed_mismatch\"," ++
        "\"message\":\"a \\\"b\\\" \\\\ \\n\\u0001é\",\"severity\":\"recoverable\"\x7d\x7d" := by
  cbv

end ArgumentContract
