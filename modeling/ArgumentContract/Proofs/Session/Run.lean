import ArgumentContract.Session

/-!
# Runs of a session

A run makes one step after the other.  The reply to a command and the state after it are those of
a single step from the state that the commands in front of it have led to.
-/

namespace ArgumentContract.Session

/-- The state that a run leaves behind. -/
def after (session : Session) (commands : List Command) : Session :=
  commands.foldl (fun session command => (session.step command).2) session

theorem after_append (session : Session) (before rest : List Command) :
    session.after (before ++ rest) = (session.after before).after rest := by
  simp [after, List.foldl_append]

theorem after_concat (session : Session) (before : List Command) (command : Command) :
    session.after (before ++ [command]) = ((session.after before).step command).2 := by
  rw [after_append]
  rfl

theorem getElem?_run (session : Session) (commands : List Command) (index : Nat) :
    (session.run commands)[index]? =
      commands[index]?.map (session.after (commands.take index)).step := by
  induction commands generalizing session index with
  | nil => rfl
  | cons command rest ih =>
      cases index with
      | zero => rfl
      | succ index =>
          simp only [run, List.getElem?_cons_succ, ih, List.take_succ_cons]
          rfl

theorem getElem?_run_append
    (session : Session) (before : List Command) (command : Command) (rest : List Command) :
    (session.run (before ++ command :: rest))[before.length]? =
      some ((session.after before).step command) := by
  simp [getElem?_run]

theorem exists_after_of_mem_run
    {session : Session} {commands : List Command} {entry : Reply × Session}
    (hmem : entry ∈ session.run commands) :
    ∃ before, entry.2 = session.after before := by
  obtain ⟨index, hindex⟩ := List.mem_iff_getElem?.mp hmem
  rw [getElem?_run, Option.map_eq_some_iff] at hindex
  obtain ⟨command, -, rfl⟩ := hindex
  exact ⟨commands.take index ++ [command], (after_concat ..).symm⟩

end ArgumentContract.Session
