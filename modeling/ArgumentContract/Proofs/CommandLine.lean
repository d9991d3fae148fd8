import ArgumentContract.CommandLine.Program
import ArgumentContract.Proofs.CommandLine.Invocation
import Mathlib.Data.List.DropRight
import Mathlib.Tactic

/-!
# The program does what its parts do

A run of the program depends on its arguments only through what they ask for.  Input that is no
text and a context file that yields no call stack end it before the message is looked into; after
that the way it ends is told by reading the violation, or by handling the signal, that was asked
for.  A message may come from the input as well: with any line ends behind it, it is treated like
the same message among the arguments.
-/

namespace ArgumentContract.CommandLine

/-! ## Arguments -/

theorem bind_readArguments_append
    {step : Except Refusal Arguments} {texts rest : List String} {last : Arguments}
    (hread : (step >>= fun next => readArguments next texts) = .ok last)
    (hnext : ∀ next, readArguments next texts = .ok last →
      readArguments next (texts ++ rest) = readArguments last rest) :
    (step >>= fun next => readArguments next (texts ++ rest)) = readArguments last rest := by
  cases step with
  | error refusal => contradiction
  | ok next => exact hnext next hread

/-- Arguments in front of the separator can be read apart from those that follow. -/
theorem readArguments_append
    {given last : Arguments} {texts : List String}
    (hread : readArguments given texts = .ok last) (hseparator : "--" ∉ texts)
    (rest : List String) :
    readArguments given (texts ++ rest) = readArguments last rest := by
  fun_induction readArguments given texts with
  | case1 given =>
      obtain rfl := Except.ok.inj hread
      rfl
  | case2 given text texts message htext ih =>
      rw [List.cons_append, readArguments_of_message htext]
      exact bind_readArguments_append hread fun next hnext =>
        ih next hnext (List.not_mem_of_not_mem_cons hseparator)
  | case3 given text texts htext =>
      rw [ofText_eq_separator_iff] at htext
      exact absurd (List.mem_cons.mpr (Or.inl htext.symm)) hseparator
  | case5 given text texts name option value hname htext ih =>
      rw [List.cons_append, readArguments_of_attached htext hname]
      exact bind_readArguments_append hread fun next hnext =>
        ih next hnext (List.not_mem_of_not_mem_cons hseparator)
  | case7 given text name option hname behind texts value hbehind htext ih =>
      rw [List.cons_append, List.cons_append, readArguments_of_separate htext hname hbehind]
      exact bind_readArguments_append hread fun next hnext =>
        ih next hnext (List.not_mem_of_not_mem_cons (List.not_mem_of_not_mem_cons hseparator))
  | case9 given text texts name hname htext ih =>
      rw [List.cons_append, readArguments_of_flag htext hname]
      exact bind_readArguments_append hread fun next hnext =>
        ih next hnext (List.not_mem_of_not_mem_cons hseparator)
  | case4 | case6 | case8 | case10 => contradiction

/-- Options with a message behind the separator. -/
theorem invokes_separator_message
    {given : Arguments} {options : List String} (hoptions : Invokes options given)
    (hseparator : "--" ∉ options) (hmessage : given.message = none) (message : String) :
    Invokes (options ++ ["--", message]) { given with message := some message } := by
  rw [← readArguments_eq_ok_iff_invokes] at hoptions ⊢
  rw [readArguments_append hoptions hseparator, readArguments_of_separator rfl, readMessages,
    Arguments.setMessage, hmessage]
  rfl

/-- The severity that the arguments ask for: that of the code, if there is one. -/
def Arguments.signalSeverity (given : Arguments) : Severity :=
  match given.code with
  | some code => Severity.ofCode code
  | .none => given.severity.getD .recoverable

theorem ofArguments_of_invokes
    {texts : List String} {given : Arguments} {argument : String}
    (hinvokes : Invokes texts given) (hargument : given.message = some argument) :
    Request.ofArguments texts =
      .ok ⟨argument, given.signalSeverity, given.context, given.emission.getD .outcome⟩ := by
  rw [Request.ofArguments, readArguments_eq_ok_iff_invokes.mpr hinvokes, Arguments.signalSeverity]
  simp only [bind, Except.bind, hargument]
  rfl

theorem run_of_invokes
    {texts : List String} {given : Arguments} {argument : String}
    (hinvokes : Invokes texts given) (hargument : given.message = some argument)
    (sources : Sources) :
    run texts sources =
      Request.run ⟨argument, given.signalSeverity, given.context, given.emission.getD .outcome⟩
        sources := by
  rw [run, ofArguments_of_invokes hinvokes hargument]

/-- The command line accepts the invocations with a message. -/
theorem ofArguments_ne_error_iff {texts : List String} :
    (∀ refusal, Request.ofArguments texts ≠ .error refusal) ↔
      ∃ given argument, Invokes texts given ∧ given.message = some argument := by
  constructor
  · intro haccepted
    cases hread : readArguments .none texts with
    | error refusal =>
        refine absurd ?_ (haccepted refusal)
        rw [Request.ofArguments, hread]
        rfl
    | ok given =>
        cases hargument : given.message with
        | none =>
            refine absurd ?_ (haccepted .usage)
            rw [Request.ofArguments, hread]
            simp only [bind, Except.bind, hargument]
        | some argument =>
            exact ⟨given, argument, readArguments_eq_ok_iff_invokes.mp hread, hargument⟩
  · rintro ⟨given, argument, hinvokes, hargument⟩ refusal hrefusal
    rw [ofArguments_of_invokes hinvokes hargument] at hrefusal
    contradiction

/-! ## What is read -/

def IsLineEnd (c : Char) : Prop := c = '\r' ∨ c = '\n'
deriving Decidable

/-- The message that an argument stands for, given the bytes of the input.  A dash stands for the
whole input without the line ends behind it. -/
inductive IsMessage (input : ByteArray) : String → String → Prop
  | argument {text : String} (hargument : text ≠ "-") : IsMessage input text text
  | input {message : String} {ends : List Char}
      (hinput : input = (message ++ String.ofList ends).toUTF8)
      (hends : ∀ c ∈ ends, IsLineEnd c)
      (hlast : ∀ c ∈ message.toList.getLast?, ¬ IsLineEnd c) :
      IsMessage input "-" message

/-- The call stack that is asked for, given what the files hold. -/
inductive IsContext (file : String → Except ReadFault String) :
    Option String → CallStack → Prop
  | empty : IsContext file none CallStack.empty
  | loaded {path content : String} {stack : CallStack} (hfile : file path = .ok content)
      (hload : CallStack.load content = .ok stack) : IsContext file (some path) stack

/-- The input is to be read and is no text, or the context file yields no call stack. -/
def Unreadable (input : ByteArray) (file : String → Except ReadFault String)
    (argument : String) (context : Option String) : Prop :=
  (argument = "-" ∧ ¬ input.IsValidUTF8) ∨ ∀ stack, ¬ IsContext file context stack

theorem textOfBytes_eq_ok_iff {bytes : ByteArray} {text : String} :
    textOfBytes bytes = .ok text ↔ bytes = text.toUTF8 := by
  rw [String.toUTF8_eq_toByteArray]
  constructor
  · intro htext
    unfold textOfBytes String.fromUTF8? at htext
    split at htext
    next text' hdecoded =>
      split at hdecoded
      next hvalid =>
        obtain rfl := Except.ok.inj htext
        obtain rfl := Option.some.inj hdecoded
        rfl
      next => contradiction
    next => contradiction
  · rintro rfl
    simp only [textOfBytes, String.fromUTF8?, dif_pos text.isValidUTF8]
    rfl

theorem exists_textOfBytes_eq_error_iff {bytes : ByteArray} :
    (∃ fault, textOfBytes bytes = .error fault) ↔ ¬ bytes.IsValidUTF8 := by
  constructor
  · rintro ⟨fault, hfault⟩ hvalid
    have htext : textOfBytes bytes = .ok (String.fromUTF8 bytes hvalid) :=
      textOfBytes_eq_ok_iff.mpr (by rw [String.toUTF8_eq_toByteArray]; rfl)
    rw [hfault] at htext
    contradiction
  · intro hinvalid
    exact ⟨.notUtf8, by rw [textOfBytes, String.fromUTF8?, dif_neg hinvalid]⟩

theorem trimLineEnds_eq (text : String) :
    trimLineEnds text = String.ofList (text.toList.rdropWhile (IsLineEnd ·)) := by
  have hlineEnd : (fun c => c == '\r' || c == '\n') = fun c => decide (IsLineEnd c) := by
    funext c
    exact (Bool.decide_or (c = '\r') (c = '\n')).symm
  rw [trimLineEnds, List.rdropWhile, hlineEnd]

theorem trimLineEnds_eq_iff {text message : String} :
    trimLineEnds text = message ↔
      (∃ ends : List Char, text = message ++ String.ofList ends ∧ ∀ c ∈ ends, IsLineEnd c) ∧
        ∀ c ∈ message.toList.getLast?, ¬ IsLineEnd c := by
  rw [trimLineEnds_eq]
  constructor
  · rintro rfl
    refine ⟨⟨text.toList.rtakeWhile (IsLineEnd ·), ?_, ?_⟩, ?_⟩
    · rw [← String.ofList_append, List.rdropWhile_append_rtakeWhile, String.ofList_toList]
    · intro c hc
      have hlineEnd := List.mem_rtakeWhile_imp hc
      exact of_decide_eq_true hlineEnd
    · intro c hc
      rw [String.toList_ofList] at hc
      obtain ⟨hne, rfl⟩ := List.mem_getLast?_eq_getLast hc
      simpa only [decide_eq_true_eq] using List.rdropWhile_last_not _ _ hne
  · rintro ⟨⟨ends, rfl, hends⟩, hlast⟩
    have hkept : message.toList.rdropWhile (IsLineEnd ·) = message.toList := by
      rw [List.rdropWhile_eq_self_iff]
      intro hne
      rw [decide_eq_true_eq]
      exact hlast _ (List.getLast?_eq_getLast_of_ne_nil hne)
    have hdropped : ∀ c ∈ ends.reverse, decide (IsLineEnd c) = true := fun c hc =>
      decide_eq_true (hends c (List.mem_reverse.mp hc))
    rw [String.toList_append, String.toList_ofList, List.rdropWhile, List.reverse_append,
      List.dropWhile_append_of_pos hdropped]
    exact (congrArg String.ofList hkept).trans String.ofList_toList

section

variable {input : ByteArray} {file : String → Except ReadFault String}

theorem readMessage_dash_eq_ok_iff {message : String} :
    readMessage ⟨textOfBytes input, file⟩ "-" = .ok message ↔
      ∃ text, input = text.toUTF8 ∧ trimLineEnds text = message := by
  simp only [← textOfBytes_eq_ok_iff]
  cases textOfBytes input with
  | error fault => simp [readMessage, bind, Except.bind]
  | ok text => simp [readMessage, bind, Except.bind, pure, Except.pure]

theorem readMessage_eq_ok_iff {argument message : String} :
    readMessage ⟨textOfBytes input, file⟩ argument = .ok message ↔
      IsMessage input argument message := by
  by_cases hargument : argument = "-"
  · subst hargument
    rw [readMessage_dash_eq_ok_iff]
    constructor
    · rintro ⟨text, rfl, htrim⟩
      obtain ⟨⟨ends, rfl, hends⟩, hlast⟩ := trimLineEnds_eq_iff.mp htrim
      exact .input rfl hends hlast
    · rintro (⟨hargument⟩ | ⟨hinput, hends, hlast⟩)
      · exact absurd rfl hargument
      · exact ⟨_, hinput, trimLineEnds_eq_iff.mpr ⟨⟨_, rfl, hends⟩, hlast⟩⟩
  · rw [readMessage, if_neg hargument, Except.ok.injEq]
    constructor
    · rintro rfl
      exact .argument hargument
    · rintro (_ | _)
      · rfl
      · contradiction

theorem exists_readMessage_eq_error_iff {argument : String} :
    (∃ fault, readMessage ⟨textOfBytes input, file⟩ argument = .error fault) ↔
      argument = "-" ∧ ¬ input.IsValidUTF8 := by
  rw [← exists_textOfBytes_eq_error_iff, readMessage]
  split
  next hargument =>
    cases textOfBytes input with
    | error fault => simp [hargument, bind, Except.bind]
    | ok text => simp [bind, Except.bind, pure, Except.pure]
  next hargument => simp [hargument]

theorem readContext_eq_ok_iff
    {source : Except ReadFault String} {context : Option String} {stack : CallStack} :
    readContext ⟨source, file⟩ context = .ok stack ↔ IsContext file context stack := by
  constructor
  · intro hstack
    cases context with
    | none =>
        obtain rfl := Except.ok.inj hstack
        exact .empty
    | some path =>
        simp only [readContext] at hstack
        unfold CallStack.loadFile CallStack.loadText at hstack
        split at hstack
        next content hfile =>
          split at hstack
          next loaded hload =>
            obtain rfl := Except.ok.inj hstack
            exact .loaded hfile hload
          next => contradiction
        next => contradiction
  · rintro (_ | ⟨hfile, hload⟩)
    · rfl
    · simp only [readContext, hfile, CallStack.loadFile, CallStack.loadText, hload]

theorem exists_readContext_eq_error_iff
    {source : Except ReadFault String} {context : Option String} :
    (∃ fault, readContext ⟨source, file⟩ context = .error fault) ↔
      ∀ stack, ¬ IsContext file context stack := by
  cases hread : readContext ⟨source, file⟩ context with
  | ok stack =>
      have hstack := readContext_eq_ok_iff.mp hread
      exact iff_of_false (by simp) fun hnone => hnone stack hstack
  | error fault =>
      refine iff_of_true ⟨fault, rfl⟩ fun stack hstack => ?_
      rw [readContext_eq_ok_iff.mpr hstack] at hread
      contradiction

theorem unreadable_iff {argument : String} {context : Option String} :
    Unreadable input file argument context ↔
      (∃ fault, readMessage ⟨textOfBytes input, file⟩ argument = .error fault) ∨
        ∃ fault, readContext ⟨textOfBytes input, file⟩ context = .error fault := by
  rw [exists_readMessage_eq_error_iff, exists_readContext_eq_error_iff, Unreadable]

theorem exists_of_not_unreadable {argument : String} {context : Option String}
    (hreadable : ¬ Unreadable input file argument context) :
    ∃ message stack, IsMessage input argument message ∧ IsContext file context stack := by
  rw [unreadable_iff, not_or] at hreadable
  obtain ⟨hmessage, hcontext⟩ := hreadable
  cases hread : readMessage ⟨textOfBytes input, file⟩ argument with
  | error fault => exact absurd ⟨fault, hread⟩ hmessage
  | ok message =>
      cases hload : readContext ⟨textOfBytes input, file⟩ context with
      | error fault => exact absurd ⟨fault, hload⟩ hcontext
      | ok stack =>
          exact ⟨message, stack, readMessage_eq_ok_iff.mp hread,
            readContext_eq_ok_iff.mp hload⟩

end

/-! ## How a run ends -/

theorem exitCode_eq_one_iff {result : Except Report Outcome} :
    exitCode result = 1 ↔ ∃ report, result = .error report := by
  cases result <;> simp [exitCode]

theorem exitCode_eq_zero_iff {result : Except Report Outcome} :
    exitCode result = 0 ↔ ∃ outcome, result = .ok outcome := by
  cases result <;> simp [exitCode]

theorem emit_parsed_code {signal : Signal} {stack : CallStack} :
    ((emit .parsed signal stack).code = 0 ↔
        ∃ violation, Violation.parse signal.message = .ok violation) ∧
      ((emit .parsed signal stack).code = 1 ↔
        ∃ rejection, Violation.parse signal.message = .error rejection) := by
  rw [emit, emitViolation]
  cases Violation.parse signal.message <;> simp [Ending.printed, Ending.failed]

theorem emit_code_of_ne_parsed
    {emission : Emission} (hemission : emission ≠ .parsed) (signal : Signal)
    (stack : CallStack) :
    (emit emission signal stack).code = exitCode (signal.handle stack.view) := by
  cases emission with
  | parsed => contradiction
  | outcome | json => rfl

theorem emit_code_ne_two (emission : Emission) (signal : Signal) (stack : CallStack) :
    (emit emission signal stack).code ≠ 2 := by
  by_cases hemission : emission = .parsed
  · rw [hemission, emit, emitViolation]
    cases Violation.parse signal.message <;> simp [Ending.printed, Ending.failed]
  · rw [emit_code_of_ne_parsed hemission]
    cases signal.handle stack.view <;> simp [exitCode]

theorem Request.run_eq_emit
    {request : Request} {sources : Sources} {message : String} {stack : CallStack}
    (hmessage : readMessage sources request.message = .ok message)
    (hstack : readContext sources request.context = .ok stack) :
    request.run sources = emit request.emission ⟨request.severity, message⟩ stack := by
  rw [run, hmessage]
  simp only [hstack]

/-- A fault of the message or of the context file ends a run before it says anything. -/
theorem Request.run_of_error
    {request : Request} {sources : Sources}
    (herror : (∃ fault, readMessage sources request.message = .error fault) ∨
      ∃ fault, readContext sources request.context = .error fault) :
    (request.run sources).code = 2 ∧ (request.run sources).output = "" := by
  unfold run
  split
  next => exact ⟨rfl, rfl⟩
  next message hmessage =>
    obtain ⟨fault, hfault⟩ | ⟨fault, hfault⟩ := herror
    · rw [hfault] at hmessage
      contradiction
    · rw [hfault]
      exact ⟨rfl, rfl⟩

section

variable {input : ByteArray} {file : String → Except ReadFault String} {request : Request}

theorem Request.run_code_eq_two_iff :
    ((request.run ⟨textOfBytes input, file⟩).code = 2 ∧
        (request.run ⟨textOfBytes input, file⟩).output = "") ↔
      Unreadable input file request.message request.context := by
  constructor
  · rintro ⟨hcode, -⟩
    by_contra hreadable
    obtain ⟨message, stack, hmessage, hstack⟩ := exists_of_not_unreadable hreadable
    rw [run_eq_emit (readMessage_eq_ok_iff.mpr hmessage) (readContext_eq_ok_iff.mpr hstack)]
      at hcode
    exact emit_code_ne_two _ _ _ hcode
  · intro hunreadable
    exact run_of_error (unreadable_iff.mp hunreadable)

/-- The input counts only for the message that it yields. -/
theorem Request.run_dash_eq
    {message : String} (hargument : request.message = "-") (hmessage : message ≠ "-")
    (hinput : IsMessage input "-" message) (otherInput : Except ReadFault String) :
    request.run ⟨textOfBytes input, file⟩ =
      { request with message := message }.run ⟨otherInput, file⟩ := by
  have hdash : readMessage ⟨textOfBytes input, file⟩ request.message = .ok message := by
    rw [hargument]
    exact readMessage_eq_ok_iff.mpr hinput
  have hself : readMessage ⟨otherInput, file⟩ message = .ok message := by
    rw [readMessage, if_neg hmessage]
  have hcontext : readContext ⟨textOfBytes input, file⟩ request.context =
      readContext ⟨otherInput, file⟩ request.context := by
    cases request.context <;> rfl
  simp only [run, hdash, hself, hcontext]

end

/-- The command line agrees with the library.  What is accepted are the invocations with a message.
An invocation ends with two and prints nothing exactly if its input or its context file is
unreadable.  Otherwise it ends as parsing the message or handling the signal does.  A message from
the input ends like the same message behind the separator. -/
theorem run_agrees_with_library
    (input : ByteArray) (file : String → Except ReadFault String) :
    (∀ texts : List String, (∀ refusal, Request.ofArguments texts ≠ .error refusal) ↔
      ∃ given argument, Invokes texts given ∧ given.message = some argument) ∧
    (∀ (texts : List String) (given : Arguments) (argument : String),
      Invokes texts given → given.message = some argument →
      let ending := run texts ⟨textOfBytes input, file⟩
      ((ending.code = 2 ∧ ending.output = "") ↔
        Unreadable input file argument given.context) ∧
      (¬ Unreadable input file argument given.context →
        ∃ message stack, IsMessage input argument message ∧
          IsContext file given.context stack) ∧
      ∀ message stack, IsMessage input argument message →
        IsContext file given.context stack →
        (given.emission = some .parsed →
          (ending.code = 0 ↔ ∃ violation, Violation.parse message = .ok violation) ∧
          (ending.code = 1 ↔ ∃ rejection, Violation.parse message = .error rejection)) ∧
        (given.emission ≠ some .parsed →
          (ending.code = 1 ↔ ∃ report,
            Signal.handle ⟨given.signalSeverity, message⟩ stack.view = .error report) ∧
          (ending.code = 0 ↔ ∃ outcome,
            Signal.handle ⟨given.signalSeverity, message⟩ stack.view = .ok outcome))) ∧
    ∀ (texts options : List String) (given : Arguments) (message : String)
      (otherInput : Except ReadFault String),
      Invokes options given → given.message = none → "--" ∉ options →
      Invokes texts { given with message := some "-" } →
      message ≠ "-" → IsMessage input "-" message →
      run texts ⟨textOfBytes input, file⟩ =
        run (options ++ ["--", message]) ⟨otherInput, file⟩ := by
  refine ⟨fun texts => ofArguments_ne_error_iff, ?_, ?_⟩
  · intro texts given argument hinvokes hargument
    simp only [run_of_invokes hinvokes hargument]
    refine ⟨Request.run_code_eq_two_iff, exists_of_not_unreadable, ?_⟩
    intro message stack hmessage hstack
    rw [Request.run_eq_emit (readMessage_eq_ok_iff.mpr hmessage)
      (readContext_eq_ok_iff.mpr hstack)]
    constructor
    · intro hemission
      rw [hemission]
      exact emit_parsed_code
    · intro hemission
      have hne : given.emission.getD .outcome ≠ .parsed := by
        cases hgiven : given.emission with
        | none => simp
        | some emission => simpa [hgiven] using hemission
      rw [emit_code_of_ne_parsed hne]
      exact ⟨exitCode_eq_one_iff, exitCode_eq_zero_iff⟩
  · intro texts options given message otherInput hoptions hnone hseparator hdash hmessage hinput
    rw [run_of_invokes hdash rfl,
      run_of_invokes (invokes_separator_message hoptions hseparator hnone message) rfl]
    exact Request.run_dash_eq rfl hmessage hinput otherInput

theorem run_message_of_input :
    let file : String → Except ReadFault String := fun _ =>
      .ok "\x7b\"frames\":[[\"f\"]],\"callables\":[\"strlen\"]\x7d"
    let message := "Argument 1 passed to f() must be an instance of callable, string given"
    let input := (message ++ String.ofList ['\r', '\n', '\n']).toUTF8
    (run ["--context", "calls.json", "-", "--emit=json"] ⟨textOfBytes input, file⟩).code = 1 ∧
      run ["--context", "calls.json", "-", "--emit=json"] ⟨textOfBytes input, file⟩ =
        run ["--context", "calls.json", "--emit=json", "--", message]
          ⟨.error .notUtf8, file⟩ := by
  intro file message input
  have hinput : IsMessage input "-" message :=
    .input rfl (by simp [IsLineEnd]) (by simp [message, IsLineEnd])
  have hinvokes : Invokes ["--context", "calls.json", "-", "--emit=json"]
      ⟨some "-", none, none, some "calls.json", some .json, false⟩ :=
    readArguments_eq_ok_iff_invokes.mp rfl
  have hoptions : Invokes ["--context", "calls.json", "--emit=json"]
      ⟨none, none, none, some "calls.json", some .json, false⟩ :=
    readArguments_eq_ok_iff_invokes.mp rfl
  obtain ⟨-, hending, hdash⟩ := run_agrees_with_library input file
  constructor
  · obtain ⟨-, -, hparts⟩ := hending _ _ "-" hinvokes rfl
    have hload : CallStack.load "\x7b\"frames\":[[\"f\"]],\"callables\":[\"strlen\"]\x7d" =
        .ok ⟨[⟨"f", none, []⟩], NameSet.ofList ["strlen"]⟩ := rfl
    have hreport : Signal.handle ⟨.recoverable, message⟩
        (CallStack.view ⟨[⟨"f", none, []⟩], NameSet.ofList ["strlen"]⟩) =
          .error (Report.of (some .callable) ⟨.recoverable, message⟩) := by
      simp only [message]
      rfl
    have hhandled := hparts message _ hinput (.loaded rfl hload)
    exact (hhandled.2 (by decide)).1.mpr ⟨_, hreport⟩
  · exact hdash _ _ _ message (.error .notUtf8) hoptions rfl (by decide) hinvokes (by decide)
      hinput

end ArgumentContract.CommandLine
