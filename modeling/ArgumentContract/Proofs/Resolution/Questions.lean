import ArgumentContract.Proofs.Resolution.Verdict

/-!
# What is asked to resolve a violation

Resolving a violation asks for the active calls once if the contract needs a value, and not at all
otherwise.  A name is looked up at most once, and only for a callable that is given by name.  A
consultation knows nothing of a call stack but the answers to its questions.  Verdicts therefore
agree on any two call stacks that select the same argument and agree on that one name.
-/

namespace ArgumentContract

/-- The name that is looked up, if the question is about one. -/
def Question.name? : Question → Option String
  | frames => none
  | invocable name => some name

/-- Whether two views give the same answer to a question. -/
def Question.AnsweredAlike (left right : CallView) : Question → Prop
  | frames => left.frames = right.frames
  | invocable name => left.invocable name = right.invocable name

namespace Consultation

variable {α : Type}

/-- The names looked up, in order, when the questions are answered by a view. -/
def lookups (view : CallView) (consultation : Consultation α) : List String :=
  (consultation.questions view).filterMap Question.name?

/-- A consultation depends on the answers to its questions alone. -/
theorem result_congr
    {left right : CallView} (consultation : Consultation α)
    (halike : ∀ question ∈ consultation.questions left, question.AnsweredAlike left right) :
    consultation.result left = consultation.result right := by
  induction consultation with
  | decided value => rfl
  | askFrames next ih =>
      obtain ⟨hframes, hnext⟩ := List.forall_mem_cons.mp halike
      have hframes : left.frames = right.frames := hframes
      have hresult := ih left.frames hnext
      rw [result, result, ← hframes]
      exact hresult
  | askInvocable name next ih =>
      obtain ⟨hanswer, hnext⟩ := List.forall_mem_cons.mp halike
      have hanswer : left.invocable name = right.invocable name := hanswer
      have hresult := ih (left.invocable name) hnext
      rw [result, result, ← hanswer]
      exact hresult

end Consultation

/-! ## Values that are called by name -/

/-- The name by which a value can be called: a string is one, and an array of two strings names
the method of a scope. -/
inductive Value.CalledBy : Value → String → Prop
  | function (name : String) : CalledBy (.string name) name
  | method (scope name : String) :
      CalledBy (.array [.string scope, .string name]) (scope ++ "::" ++ name)

namespace Contract

variable {contract : Contract} {argument : Value} {name : String}

theorem questions_isMetBy_of_calledBy (hcalled : argument.CalledBy name) (view : CallView) :
    (callable.isMetBy argument).questions view = [.invocable name] := by
  cases hcalled <;> rfl

theorem questions_isMetBy_of_not_calledBy
    (hnot : contract = .callable → ∀ name, ¬ argument.CalledBy name) (view : CallView) :
    (contract.isMetBy argument).questions view = [] := by
  cases contract with
  | callable =>
      replace hnot := hnot rfl
      unfold isMetBy Value.isCallable
      dsimp only
      split
      next name => rfl
      next name => exact absurd (.function name) (hnot _)
      next scope name => exact absurd (.method scope name) (hnot _)
      next => rfl
  | _ => rfl

end Contract

namespace Violation

/-- The argument that a violation selects: the one at its position in the innermost call that
matches. -/
def Selects (violation : Violation) (frames : List Frame) (argument : Value) : Prop :=
  ∃ frame, violation.Innermost frames frame ∧
    frame.arguments[violation.index.offset]? = some argument

variable {violation : Violation} {contract : Contract} {view : CallView}

theorem argument?_eq_some_iff_selects {frames : List Frame} {argument : Value} :
    violation.argument? frames = some argument ↔ violation.Selects frames argument :=
  argument?_eq_some_iff

theorem argument?_eq_of_selects_iff
    {left right : List Frame}
    (hsame : ∀ argument, violation.Selects left argument ↔ violation.Selects right argument) :
    violation.argument? left = violation.argument? right := by
  apply Option.ext
  intro argument
  rw [argument?_eq_some_iff_selects, argument?_eq_some_iff_selects]
  exact hsame argument

/-! ## The questions -/

theorem questions_tryArgument :
    (violation.tryArgument contract).questions view =
      .frames ::
        match violation.argument? view.frames with
        | some argument => (contract.isMetBy argument).questions view
        | none => [] := by
  rw [tryArgument, Consultation.questions]
  cases violation.argument? view.frames <;> rfl

theorem questions_resolve_of_needsValue
    (hdeclared : Contract.ofDeclared? violation.expected = some contract)
    (hneeds : contract.needsValue = true) :
    violation.resolve.questions view = (violation.tryArgument contract).questions view := by
  have hadmits := Contract.admits_eq_false_of_needsValue hneeds violation.given
  simp only [resolve, hdeclared, hadmits, hneeds, if_true, Bool.false_eq_true, if_false,
    Consultation.questions_map]

theorem questions_resolve_of_not_needsValue
    (hneeds : ∀ contract, Contract.ofDeclared? violation.expected = some contract →
      contract.needsValue = false) :
    violation.resolve.questions view = [] := by
  unfold resolve
  split
  next => rfl
  next contract hdeclared =>
    rw [hneeds contract hdeclared]
    split <;> rfl

/-- A name is looked up if the selected argument is called by it, and no other question follows
the one for the active calls. -/
theorem questions_resolve_of_calledBy
    (hdeclared : Contract.ofDeclared? violation.expected = some .callable)
    {argument : Value} (hselects : violation.Selects view.frames argument)
    {name : String} (hcalled : argument.CalledBy name) :
    violation.resolve.questions view = [.frames, .invocable name] := by
  rw [questions_resolve_of_needsValue hdeclared rfl, questions_tryArgument,
    argument?_eq_some_iff_selects.mpr hselects]
  exact congrArg _ (Contract.questions_isMetBy_of_calledBy hcalled view)

theorem questions_resolve_of_not_calledBy
    (hdeclared : Contract.ofDeclared? violation.expected = some contract)
    (hneeds : contract.needsValue = true)
    (hnot : contract = .callable → ∀ argument, violation.Selects view.frames argument →
      ∀ name, ¬ argument.CalledBy name) :
    violation.resolve.questions view = [.frames] := by
  rw [questions_resolve_of_needsValue hdeclared hneeds, questions_tryArgument]
  cases hargument : violation.argument? view.frames with
  | none => rfl
  | some argument =>
      have hselects := argument?_eq_some_iff_selects.mp hargument
      exact congrArg _ (Contract.questions_isMetBy_of_not_calledBy
        (fun hcallable => hnot hcallable argument hselects) view)

/-- The questions that resolving a violation puts, told from the contract and the argument. -/
inductive Asks (violation : Violation) (frames : List Frame) : List Question → Prop
  | nothing
      (hneeds : ∀ contract, Contract.ofDeclared? violation.expected = some contract →
        contract.needsValue = false) :
      Asks violation frames []
  | calls (contract : Contract)
      (hdeclared : Contract.ofDeclared? violation.expected = some contract)
      (hneeds : contract.needsValue = true)
      (hnot : contract = .callable → ∀ argument, violation.Selects frames argument →
        ∀ name, ¬ argument.CalledBy name) :
      Asks violation frames [.frames]
  | callsAndName (argument : Value) (name : String)
      (hdeclared : Contract.ofDeclared? violation.expected = some .callable)
      (hselects : violation.Selects frames argument) (hcalled : argument.CalledBy name) :
      Asks violation frames [.frames, .invocable name]

theorem asks_questions_resolve (violation : Violation) (view : CallView) :
    violation.Asks view.frames (violation.resolve.questions view) := by
  by_cases hneeds : ∃ contract, Contract.ofDeclared? violation.expected = some contract ∧
      contract.needsValue = true
  · obtain ⟨contract, hdeclared, hneeds⟩ := hneeds
    by_cases hcalled : contract = .callable ∧ ∃ argument, violation.Selects view.frames argument ∧
        ∃ name, argument.CalledBy name
    · obtain ⟨rfl, argument, hselects, name, hcalled⟩ := hcalled
      rw [questions_resolve_of_calledBy hdeclared hselects hcalled]
      exact .callsAndName argument name hdeclared hselects hcalled
    · have hnot : contract = .callable → ∀ argument, violation.Selects view.frames argument →
          ∀ name, ¬ argument.CalledBy name := by
        intro hcallable argument hselects name hname
        exact hcalled ⟨hcallable, argument, hselects, name, hname⟩
      rw [questions_resolve_of_not_calledBy hdeclared hneeds hnot]
      exact .calls contract hdeclared hneeds hnot
  · have hnone : ∀ contract, Contract.ofDeclared? violation.expected = some contract →
        contract.needsValue = false := by
      intro contract hdeclared
      rw [← Bool.not_eq_true]
      exact fun htrue => hneeds ⟨contract, hdeclared, htrue⟩
    rw [questions_resolve_of_not_needsValue hnone]
    exact .nothing hnone

theorem Asks.count_frames
    {frames : List Frame} {questions : List Question}
    (hasks : violation.Asks frames questions) :
    questions.count .frames =
      if Contract.ofDeclared? violation.expected = some .numeric ∨
          Contract.ofDeclared? violation.expected = some .callable then 1 else 0 := by
  cases hasks with
  | nothing hneeds =>
      rw [if_neg]
      · rfl
      · rintro (hdeclared | hdeclared)
        · exact absurd (hneeds _ hdeclared) (by decide)
        · exact absurd (hneeds _ hdeclared) (by decide)
  | calls contract hdeclared hneeds hnot =>
      rw [if_pos]
      · rfl
      · rcases Contract.needsValue_iff.mp hneeds with rfl | rfl
        · exact .inl hdeclared
        · exact .inr hdeclared
  | callsAndName argument name hdeclared hselects hcalled =>
      rw [if_pos (.inr hdeclared)]
      rfl

theorem lookups_resolve_eq_singleton_iff (violation : Violation) (view : CallView) (name : String) :
    violation.resolve.lookups view = [name] ↔
      Contract.ofDeclared? violation.expected = some .callable ∧
        ∃ argument, violation.Selects view.frames argument ∧ argument.CalledBy name := by
  constructor
  · intro hlookups
    have hasks := asks_questions_resolve violation view
    unfold Consultation.lookups at hlookups
    generalize violation.resolve.questions view = questions at hasks hlookups
    cases hasks with
    | nothing hneeds => contradiction
    | calls contract hdeclared hneeds hnot => contradiction
    | callsAndName argument found hdeclared hselects hcalled =>
        obtain rfl : found = name := List.singleton_inj.mp hlookups
        exact ⟨hdeclared, argument, hselects, hcalled⟩
  · rintro ⟨hdeclared, argument, hselects, hcalled⟩
    rw [Consultation.lookups, questions_resolve_of_calledBy hdeclared hselects hcalled]
    rfl

theorem Asks.length_filterMap_name?_le
    {frames : List Frame} {questions : List Question}
    (hasks : violation.Asks frames questions) :
    (questions.filterMap Question.name?).length ≤ 1 := by
  cases hasks with
  | nothing hneeds => exact Nat.zero_le 1
  | calls contract hdeclared hneeds hnot => exact Nat.zero_le 1
  | callsAndName argument name hdeclared hselects hcalled => exact le_refl 1

/-! ## Verdicts of two views -/

theorem result_isMetBy_congr
    {left right : CallView} {argument : Value}
    (hanswer : contract = .callable → ∀ name, argument.CalledBy name →
      left.invocable name = right.invocable name) :
    (contract.isMetBy argument).result left = (contract.isMetBy argument).result right := by
  apply Consultation.result_congr
  intro question hmem
  by_cases hcalled : contract = .callable ∧ ∃ name, argument.CalledBy name
  · obtain ⟨rfl, name, hcalled⟩ := hcalled
    rw [Contract.questions_isMetBy_of_calledBy hcalled, List.mem_singleton] at hmem
    rw [hmem]
    exact hanswer rfl name hcalled
  · rw [Contract.questions_isMetBy_of_not_calledBy] at hmem
    · contradiction
    · exact fun hcallable name hname => hcalled ⟨hcallable, name, hname⟩

/-- Verdicts agree if the same argument is selected and its name, if it is a callable that has one,
is answered alike. -/
theorem result_resolve_congr_of_calledBy
    {left right : CallView}
    (hargument : violation.argument? left.frames = violation.argument? right.frames)
    (hanswer : Contract.ofDeclared? violation.expected = some .callable →
      ∀ argument, violation.Selects left.frames argument → ∀ name, argument.CalledBy name →
        left.invocable name = right.invocable name) :
    violation.resolve.result left = violation.resolve.result right := by
  cases hdeclared : Contract.ofDeclared? violation.expected with
  | none =>
      rw [result_resolve_of_ofDeclared?_eq_none hdeclared,
        result_resolve_of_ofDeclared?_eq_none hdeclared]
  | some contract =>
      have htry :
          (violation.tryArgument contract).result left =
            (violation.tryArgument contract).result right := by
        rw [result_tryArgument, result_tryArgument, ← hargument]
        cases hleft : violation.argument? left.frames with
        | none => rfl
        | some argument =>
            apply result_isMetBy_congr
            rintro rfl
            exact hanswer hdeclared argument (argument?_eq_some_iff_selects.mp hleft)
      rw [result_resolve_of_ofDeclared?_eq_some hdeclared,
        result_resolve_of_ofDeclared?_eq_some hdeclared, htry]

theorem result_resolve_of_not_needsValue
    (hneeds : ∀ contract, Contract.ofDeclared? violation.expected = some contract →
      contract.needsValue = false) (left right : CallView) :
    violation.resolve.result left = violation.resolve.result right := by
  apply Consultation.result_congr
  intro question hmem
  rw [questions_resolve_of_not_needsValue hneeds] at hmem
  contradiction

/-- The active calls are asked for once if the contract needs a value, and not at all otherwise.
At most one name is looked up, and exactly one if the selected argument is called by name.  The
verdict depends on nothing else. -/
theorem resolve_asks_least (violation : Violation) :
    (∀ view : CallView,
        (violation.resolve.questions view).count .frames =
            (if Contract.ofDeclared? violation.expected = some .numeric ∨
                Contract.ofDeclared? violation.expected = some .callable then 1 else 0) ∧
          (violation.resolve.lookups view).length ≤ 1 ∧
          ∀ name, violation.resolve.lookups view = [name] ↔
            Contract.ofDeclared? violation.expected = some .callable ∧
              ∃ argument, violation.Selects view.frames argument ∧ argument.CalledBy name) ∧
      ∀ left right : CallView,
        (Contract.ofDeclared? violation.expected ≠ some .numeric →
          Contract.ofDeclared? violation.expected ≠ some .callable →
            violation.resolve.result left = violation.resolve.result right) ∧
        ((∀ argument, violation.Selects left.frames argument ↔
            violation.Selects right.frames argument) →
          (∀ name ∈ violation.resolve.lookups left,
            left.invocable name = right.invocable name) →
            violation.resolve.result left = violation.resolve.result right) := by
  refine ⟨fun view => ?_, fun left right => ⟨fun hnumeric hcallable => ?_,
    fun hselects hanswer => ?_⟩⟩
  · have hasks := asks_questions_resolve violation view
    exact ⟨hasks.count_frames, hasks.length_filterMap_name?_le,
      lookups_resolve_eq_singleton_iff violation view⟩
  · apply result_resolve_of_not_needsValue
    intro contract hdeclared
    rw [← Bool.not_eq_true, Contract.needsValue_iff]
    rintro (rfl | rfl)
    · exact hnumeric hdeclared
    · exact hcallable hdeclared
  · refine result_resolve_congr_of_calledBy (argument?_eq_of_selects_iff hselects) ?_
    intro hdeclared argument hleft name hcalled
    apply hanswer
    rw [(lookups_resolve_eq_singleton_iff violation left name).mpr
      ⟨hdeclared, argument, hleft, hcalled⟩]
    exact List.mem_singleton_self name

/-- A method that is given as an array, on call stacks with different calls and names. -/
theorem resolve_asks_for_method :
    let violation : Violation := ⟨.ofNat 1, some "Foo", "run", "callable", "array"⟩
    let frame : Frame := ⟨"run", none, [.array [.string "Bar", .string "go"]]⟩
    let left : CallView := ⟨[frame], fun name => name == "Bar::go"⟩
    let right : CallView := ⟨[⟨"walk", none, []⟩, frame, frame], fun _ => true⟩
    (violation.resolve.questions left).count .frames = 1 ∧
      violation.resolve.lookups left = ["Bar::go"] ∧
      (∀ argument, violation.Selects left.frames argument ↔
        violation.Selects right.frames argument) ∧
      (∀ name ∈ violation.resolve.lookups left,
        left.invocable name = right.invocable name) ∧
      violation.resolve.result left = violation.resolve.result right := by
  intro violation frame left right
  obtain ⟨hquestions, hcongr⟩ := resolve_asks_least violation
  have hselects : ∀ argument, violation.Selects left.frames argument ↔
      violation.Selects right.frames argument := by
    intro argument
    rw [← argument?_eq_some_iff_selects, ← argument?_eq_some_iff_selects]
    rfl
  have hoffset : violation.index.offset = 0 := by decide
  have hselected : violation.Selects left.frames (.array [.string "Bar", .string "go"]) := by
    refine ⟨frame, ⟨[], [], rfl, ⟨rfl, by simp [frame]⟩, by simp⟩, ?_⟩
    rw [hoffset]
    rfl
  have hlookups : violation.resolve.lookups left = ["Bar::go"] :=
    ((hquestions left).2.2 "Bar::go").mpr ⟨rfl, _, hselected, .method "Bar" "go"⟩
  have hanswers : ∀ name ∈ violation.resolve.lookups left,
      left.invocable name = right.invocable name := by
    intro name hmem
    rw [hlookups, List.mem_singleton] at hmem
    rw [hmem]
    rfl
  exact ⟨(hquestions left).1, hlookups, hselects, hanswers,
    (hcongr left right).2 hselects hanswers⟩

end Violation

end ArgumentContract
