import ArgumentContract.Proofs.Session.Installation

/-!
# Steps that leave no trace

A step that fails leaves the session as it was, and so does a question.  Such steps can therefore be
deleted from a run: all other steps are taken from the same states as before, get the same replies
and lead to the same states.
-/

namespace ArgumentContract

/-- Commands that ask something and have nothing to do to the session. -/
def Command.isQuestion : Command → Bool
  | handle .. | invocable _ => true
  | install .. | release _ | drop _ | frame .. | callable _ | load _ | reset | malformed _ => false

namespace Session

/-- The commands of a run, each with its reply and the state after it. -/
def steps (session : Session) (commands : List Command) : List (Command × Reply × Session) :=
  commands.zip (session.run commands)

/-- Whether a step succeeded and was more than a question. -/
def isEffective (taken : Command × Reply × Session) : Bool :=
  !taken.1.isQuestion && !taken.2.1.isError

/-! ## Single steps -/

theorem step_question_eq_self
    (session : Session) {command : Command} (hquestion : command.isQuestion = true) :
    (session.step command).2 = session := by
  cases command with
  | handle slot signal =>
      simp only [step, handle]
      cases session.guards slot <;> rfl
  | invocable name => rfl
  | install | release | drop | frame | callable | load | reset | malformed => contradiction

theorem install_eq_self_of_isError
    {session : Session} {channel slot : String}
    (herror : (session.install channel slot).1.isError = true) :
    (session.install channel slot).2 = session := by
  by_cases hinstalled : session.installed channel = true
  · rw [install_of_installed hinstalled]
  · have hreply : (session.install channel slot).1 = .installed := by
      simp [install, hinstalled]
    rw [hreply] at herror
    contradiction

theorem isError_discard
    (session : Session) (slot : String) {reply : Reply} (hreply : reply.isError = false) :
    (session.discard slot reply).1.isError = false := by
  cases hslot : session.guards slot with
  | none =>
      rw [discard_of_empty hslot]
      rfl
  | some channel =>
      rw [discard_of_held hslot]
      exact hreply

theorem step_eq_self_of_isError
    {session : Session} {command : Command}
    (herror : (session.step command).1.isError = true) :
    (session.step command).2 = session := by
  cases command with
  | install channel slot => exact install_eq_self_of_isError herror
  | release slot | drop slot =>
      rw [step, isError_discard session slot rfl] at herror
      contradiction
  | handle slot signal => exact step_question_eq_self session rfl
  | invocable name => rfl
  | frame arguments function scope =>
      simp only [step] at herror ⊢
      cases harguments : argumentsOf arguments with
      | ok arguments =>
          rw [harguments] at herror
          contradiction
      | error fault => rfl
  | load document =>
      simp only [step] at herror ⊢
      cases hstack : CallStack.loadText document with
      | ok stack =>
          rw [hstack] at herror
          contradiction
      | error fault => rfl
  | callable name | reset => contradiction
  | malformed field => rfl

theorem step_eq_self_of_not_isEffective
    {session : Session} {command : Command}
    (hineffective : isEffective (command, session.step command) = false) :
    (session.step command).2 = session := by
  by_cases hquestion : command.isQuestion = true
  · exact step_question_eq_self session hquestion
  · apply step_eq_self_of_isError
    simpa [isEffective, hquestion] using hineffective

/-! ## Runs -/

theorem steps_cons (session : Session) (command : Command) (rest : List Command) :
    session.steps (command :: rest) =
      (command, session.step command) :: (session.step command).2.steps rest := rfl

/-- The commands whose steps are effective, in order. -/
def effective (session : Session) (commands : List Command) : List Command :=
  ((session.steps commands).filter isEffective).map Prod.fst

theorem effective_cons_of_isEffective
    {session : Session} {command : Command} (rest : List Command)
    (heffective : isEffective (command, session.step command) = true) :
    session.effective (command :: rest) =
      command :: (session.step command).2.effective rest := by
  rw [effective, steps_cons, List.filter_cons_of_pos heffective]
  rfl

theorem effective_cons_of_not_isEffective
    {session : Session} {command : Command} (rest : List Command)
    (hineffective : isEffective (command, session.step command) = false) :
    session.effective (command :: rest) = session.effective rest := by
  rw [effective, steps_cons, List.filter_cons_of_neg (by simp [hineffective]),
    step_eq_self_of_not_isEffective hineffective]
  rfl

/-- A run of the effective commands alone takes the effective steps of the whole run. -/
theorem steps_effective (session : Session) (commands : List Command) :
    session.steps (session.effective commands) =
      (session.steps commands).filter isEffective := by
  induction commands generalizing session with
  | nil => rfl
  | cons command rest ih =>
      cases heffective : isEffective (command, session.step command) with
      | true =>
          rw [effective_cons_of_isEffective rest heffective, steps_cons, ih, steps_cons,
            List.filter_cons_of_pos heffective]
      | false =>
          rw [effective_cons_of_not_isEffective rest heffective, ih, steps_cons,
            List.filter_cons_of_neg (by simp [heffective]),
            step_eq_self_of_not_isEffective heffective]

theorem after_effective (session : Session) (commands : List Command) :
    session.after (session.effective commands) = session.after commands := by
  induction commands generalizing session with
  | nil => rfl
  | cons command rest ih =>
      have hcons : session.after (command :: rest) = (session.step command).2.after rest := rfl
      cases heffective : isEffective (command, session.step command) with
      | true =>
          rw [effective_cons_of_isEffective rest heffective, hcons, ← ih]
          rfl
      | false =>
          rw [effective_cons_of_not_isEffective rest heffective, ih, hcons,
            step_eq_self_of_not_isEffective heffective]

theorem length_run (session : Session) (commands : List Command) :
    (session.run commands).length = commands.length := by
  induction commands generalizing session with
  | nil => rfl
  | cons command rest ih => simp [run, ih]

theorem map_snd_steps (session : Session) (commands : List Command) :
    (session.steps commands).map Prod.snd = session.run commands :=
  List.map_snd_zip (length_run session commands).le

/-- When the steps that fail and the questions are deleted from a run, the replies of all other
steps and the states after them stay, and so does the state at the end. -/
theorem run_effective (session : Session) (commands : List Command) :
    session.run (session.effective commands) =
        ((session.steps commands).filter isEffective).map Prod.snd ∧
      session.after (session.effective commands) = session.after commands := by
  have hsteps := steps_effective session commands
  have hafter := after_effective session commands
  refine ⟨?_, hafter⟩
  rw [← map_snd_steps, hsteps]

end Session

end ArgumentContract
