import ArgumentContract.Proofs.Session.Run
import Mathlib.Logic.Function.Basic
import Mathlib.Tactic

/-!
# Installations in a session

A channel only remembers that it has an interceptor, not whose guard stands for it, and whatever
guard ends its life frees the channel.  This is sound because no channel ever has two guards.  The
invariant says that a guard lies in some slot for every channel with an interceptor, and only one.
All that steps do to channels is to put a guard into an empty slot and to take one out; a guard
that is replaced might as well have been taken out first.
-/

namespace ArgumentContract

theorem assign_eq_update {κ α : Type} [DecidableEq κ] (f : κ → α) (key : κ) (value : α) :
    assign f key value = Function.update f key value := by
  funext other
  rw [assign, Function.update_apply]

@[simp] theorem assign_self {κ α : Type} [DecidableEq κ] (f : κ → α) (key : κ) (value : α) :
    assign f key value key = value := by
  simp [assign]

theorem assign_of_ne
    {κ α : Type} [DecidableEq κ] (f : κ → α) {key other : κ} (value : α) (hne : other ≠ key) :
    assign f key value other = f other := by
  simp [assign, hne]

namespace Session

/-! ## The invariant -/

/-- Every guard stands for an installation of its own, and every installation has a guard. -/
structure Guarded (session : Session) : Prop where
  installed_of_guard : ∀ slot channel,
    session.guards slot = some channel → session.installed channel = true
  exists_guard : ∀ channel,
    session.installed channel = true → ∃ slot, session.guards slot = some channel
  guard_unique : ∀ first second channel,
    session.guards first = some channel → session.guards second = some channel → first = second

theorem initial_guarded : initial.Guarded := by
  constructor <;> simp [initial]

theorem Guarded.installed_iff
    {session : Session} (hguarded : session.Guarded) (channel : String) :
    session.installed channel = true ↔ ∃ slot, session.guards slot = some channel := by
  constructor
  · exact hguarded.exists_guard channel
  · rintro ⟨slot, hguard⟩
    exact hguarded.installed_of_guard slot channel hguard

theorem Guarded.installed_iff_existsUnique
    {session : Session} (hguarded : session.Guarded) (channel : String) :
    session.installed channel = true ↔ ∃! slot, session.guards slot = some channel := by
  rw [hguarded.installed_iff]
  constructor
  · rintro ⟨slot, hguard⟩
    exact ⟨slot, hguard, fun other hother => hguarded.guard_unique other slot channel hother hguard⟩
  · rintro ⟨slot, hguard, -⟩
    exact ⟨slot, hguard⟩

theorem Guarded.free_iff
    {session : Session} (hguarded : session.Guarded) (channel : String) :
    session.installed channel = false ↔ ∀ slot, session.guards slot ≠ some channel := by
  rw [← Bool.not_eq_true, hguarded.installed_iff, not_exists]

theorem Guarded.congr
    {session next : Session} (hguarded : session.Guarded)
    (hinstalled : next.installed = session.installed) (hguards : next.guards = session.guards) :
    next.Guarded := by
  constructor
  · rw [hinstalled, hguards]
    exact hguarded.installed_of_guard
  · rw [hinstalled, hguards]
    exact hguarded.exists_guard
  · rw [hguards]
    exact hguarded.guard_unique

/-! ## Putting a guard into a slot and taking one out -/

/-- A free channel gets an interceptor and an empty slot its guard. -/
def occupy (session : Session) (channel slot : String) : Session :=
  { session with
    installed := assign session.installed channel true
    guards := assign session.guards slot (some channel) }

/-- A slot is emptied and the channel of its guard freed. -/
def vacate (session : Session) (channel slot : String) : Session :=
  { session with
    installed := assign session.installed channel false
    guards := assign session.guards slot none }

theorem Guarded.occupy
    {session : Session} (hguarded : session.Guarded) {channel slot : String}
    (hfree : session.installed channel = false) (hslot : session.guards slot = none) :
    (session.occupy channel slot).Guarded := by
  have hnone := (hguarded.free_iff channel).mp hfree
  have hguards : ∀ other name, (session.occupy channel slot).guards other = some name ↔
      (other = slot ∧ name = channel) ∨ session.guards other = some name := by
    intro other name
    by_cases heq : other = slot
    · subst heq
      simp [Session.occupy, hslot, eq_comm]
    · simp [Session.occupy, assign_of_ne _ _ heq, heq]
  constructor
  · intro other name hguard
    by_cases hname : name = channel
    · simp [Session.occupy, hname]
    · rcases (hguards other name).mp hguard with h | hold
      · exact absurd h.2 hname
      · have hinstalled := hguarded.installed_of_guard other name hold
        simpa [Session.occupy, assign_of_ne _ _ hname] using hinstalled
  · intro name hinstalled
    by_cases hname : name = channel
    · exact ⟨slot, (hguards slot name).mpr (Or.inl ⟨rfl, hname⟩)⟩
    · have hold : session.installed name = true := by
        simpa [Session.occupy, assign_of_ne _ _ hname] using hinstalled
      obtain ⟨other, hguard⟩ := hguarded.exists_guard name hold
      exact ⟨other, (hguards other name).mpr (Or.inr hguard)⟩
  · intro first second name hfirst hsecond
    rcases (hguards first name).mp hfirst with ⟨rfl, rfl⟩ | hfirstOld
    · rcases (hguards second name).mp hsecond with ⟨rfl, -⟩ | hsecondOld
      · rfl
      · exact absurd hsecondOld (hnone second)
    · rcases (hguards second name).mp hsecond with ⟨rfl, rfl⟩ | hsecondOld
      · exact absurd hfirstOld (hnone first)
      · exact hguarded.guard_unique first second name hfirstOld hsecondOld

theorem Guarded.vacate
    {session : Session} (hguarded : session.Guarded) {channel slot : String}
    (hslot : session.guards slot = some channel) :
    (session.vacate channel slot).Guarded := by
  -- No other guard stands for the channel that is freed.
  have hother : ∀ {other name}, (session.vacate channel slot).guards other = some name →
      session.guards other = some name ∧ name ≠ channel := by
    intro other name hguard
    by_cases heq : other = slot
    · simp [Session.vacate, heq] at hguard
    · have hold : session.guards other = some name := by
        simpa [Session.vacate, assign_of_ne _ _ heq] using hguard
      refine ⟨hold, fun hname => heq ?_⟩
      subst hname
      exact hguarded.guard_unique other slot name hold hslot
  constructor
  · intro other name hguard
    obtain ⟨hold, hne⟩ := hother hguard
    have hinstalled := hguarded.installed_of_guard other name hold
    simpa [Session.vacate, assign_of_ne _ _ hne] using hinstalled
  · intro name hinstalled
    have hne : name ≠ channel := by
      rintro rfl
      simp [Session.vacate] at hinstalled
    have hold : session.installed name = true := by
      simpa [Session.vacate, assign_of_ne _ _ hne] using hinstalled
    obtain ⟨other, hguard⟩ := hguarded.exists_guard name hold
    have heq : other ≠ slot := by
      rintro rfl
      rw [hslot] at hguard
      exact hne (Option.some.inj hguard).symm
    refine ⟨other, ?_⟩
    simpa [Session.vacate, assign_of_ne _ _ heq] using hguard
  · intro first second name hfirst hsecond
    exact hguarded.guard_unique first second name (hother hfirst).1 (hother hsecond).1

/-! ## Commands on channels and slots -/

theorem install_of_installed
    {session : Session} {channel : String} (hinstalled : session.installed channel = true)
    (slot : String) :
    session.install channel slot = (.alreadyInstalled, session) := by
  simp [install, hinstalled]

theorem install_of_empty
    {session : Session} {channel slot : String} (hfree : session.installed channel = false)
    (hslot : session.guards slot = none) :
    session.install channel slot = (.installed, session.occupy channel slot) := by
  simp [install, hfree, hslot, retire, occupy]

theorem install_of_held
    {session : Session} {channel held slot : String}
    (hfree : session.installed channel = false) (hslot : session.guards slot = some held)
    (hne : held ≠ channel) :
    session.install channel slot =
      (.installed, (session.vacate held slot).occupy channel slot) := by
  have hcomm := Function.update_comm hne.symm true false session.installed
  simp [install, hfree, hslot, retire, occupy, vacate, assign_eq_update, hcomm]

theorem discard_of_empty
    {session : Session} {slot : String} (hslot : session.guards slot = none) (reply : Reply) :
    session.discard slot reply = (.noGuard, session) := by
  simp [discard, hslot]

theorem discard_of_held
    {session : Session} {channel slot : String} (hslot : session.guards slot = some channel)
    (reply : Reply) :
    session.discard slot reply = (reply, session.vacate channel slot) := by
  simp [discard, hslot, retire, vacate]

theorem Guarded.install_reply
    {session : Session} (hguarded : session.Guarded) (channel slot : String) :
    ((session.install channel slot).1 = .alreadyInstalled ↔
        ∃ other, session.guards other = some channel) ∧
      ((session.install channel slot).1 = .installed ∨
        session.install channel slot = (.alreadyInstalled, session)) := by
  rw [← hguarded.installed_iff]
  cases hinstalled : session.installed channel with
  | true => simp [install_of_installed hinstalled]
  | false => simp [install, hinstalled]

end Session

/-! ## Steps -/

/-- The beginning or the end of an installation. -/
inductive Transition
  | began (channel : String)
  | ended (channel : String)
deriving DecidableEq, Repr

def Transition.channel : Transition → String
  | began channel | ended channel => channel

/-- The transition whose turn it is on a channel. -/
def Transition.due (channel : String) (installed : Bool) : Transition :=
  if installed then ended channel else began channel

/-- Beginnings and ends in turn, a beginning first. -/
def Transition.alternation (channel : String) (count : Nat) : List Transition :=
  (List.range count).map fun index => due channel (index % 2 = 1)

namespace Session

/-- The installations that begin and end in a step: one begins if the reply says so, and one ends
with every guard that leaves its slot. -/
def transitions (session : Session) (command : Command) : List Transition :=
  match command, (session.step command).1 with
  | .install channel slot, .installed =>
      .began channel :: ((session.guards slot).map Transition.ended).toList
  | .release slot, .released | .drop slot, .dropped =>
      ((session.guards slot).map Transition.ended).toList
  | _, _ => []

/-- What a step can do to channels and slots, with the transitions that go with it. -/
inductive ChannelStep (session : Session) : Session → List Transition → Prop
  | keep {next : Session} (hinstalled : next.installed = session.installed)
      (hguards : next.guards = session.guards) : ChannelStep session next []
  | occupy {channel slot : String} (hfree : session.installed channel = false)
      (hslot : session.guards slot = none) :
      ChannelStep session (session.occupy channel slot) [.began channel]
  | vacate {channel slot : String} (hslot : session.guards slot = some channel) :
      ChannelStep session (session.vacate channel slot) [.ended channel]
  | replace {channel held slot : String} (hfree : session.installed channel = false)
      (hslot : session.guards slot = some held) (hne : held ≠ channel) :
      ChannelStep session ((session.vacate held slot).occupy channel slot)
        [.began channel, .ended held]

theorem channelStep_discard (session : Session) (slot : String) :
    session.ChannelStep (session.step (.release slot)).2
        (session.transitions (.release slot)) ∧
      session.ChannelStep (session.step (.drop slot)).2
        (session.transitions (.drop slot)) := by
  cases hslot : session.guards slot with
  | none =>
      simp only [transitions, step, discard_of_empty hslot]
      exact ⟨.keep rfl rfl, .keep rfl rfl⟩
  | some channel =>
      simp only [transitions, step, discard_of_held hslot, hslot]
      exact ⟨.vacate hslot, .vacate hslot⟩

theorem Guarded.channelStep_install
    {session : Session} (hguarded : session.Guarded) (channel slot : String) :
    session.ChannelStep (session.step (.install channel slot)).2
      (session.transitions (.install channel slot)) := by
  cases hinstalled : session.installed channel with
  | true =>
      simp only [transitions, step, install_of_installed hinstalled]
      exact .keep rfl rfl
  | false =>
      cases hslot : session.guards slot with
      | none =>
          simp only [transitions, step, install_of_empty hinstalled hslot, hslot]
          exact .occupy hinstalled hslot
      | some held =>
          have hne : held ≠ channel := by
            rintro rfl
            exact (hguarded.free_iff held).mp hinstalled slot hslot
          simp only [transitions, step, install_of_held hinstalled hslot hne, hslot]
          exact .replace hinstalled hslot hne

theorem Guarded.channelStep
    {session : Session} (hguarded : session.Guarded) (command : Command) :
    session.ChannelStep (session.step command).2 (session.transitions command) := by
  cases command with
  | install channel slot => exact hguarded.channelStep_install channel slot
  | release slot => exact (channelStep_discard session slot).1
  | drop slot => exact (channelStep_discard session slot).2
  | handle slot signal =>
      simp only [transitions, step, handle]
      cases session.guards slot <;> exact .keep rfl rfl
  | frame arguments function scope =>
      simp only [transitions, step]
      split <;> exact .keep rfl rfl
  | load document =>
      simp only [transitions, step]
      split <;> exact .keep rfl rfl
  | callable name | invocable name | reset | malformed field => exact .keep rfl rfl

theorem ChannelStep.guarded
    {session next : Session} {transitions : List Transition}
    (hstep : session.ChannelStep next transitions) (hguarded : session.Guarded) :
    next.Guarded := by
  cases hstep with
  | keep hinstalled hguards => exact hguarded.congr hinstalled hguards
  | occupy hfree hslot => exact hguarded.occupy hfree hslot
  | vacate hslot => exact hguarded.vacate hslot
  | replace hfree hslot hne =>
      apply (hguarded.vacate hslot).occupy
      · simp [Session.vacate, assign_of_ne _ _ hne.symm, hfree]
      · simp [Session.vacate]

/-- A step makes at most one transition on a channel, and only the one that is due. -/
theorem ChannelStep.due
    {session next : Session} {transitions : List Transition}
    (hstep : session.ChannelStep next transitions) (hguarded : session.Guarded)
    (channel : String) :
    (transitions.filter (·.channel = channel) = [] ∧
        next.installed channel = session.installed channel) ∨
      (transitions.filter (·.channel = channel) =
          [Transition.due channel (session.installed channel)] ∧
        next.installed channel = !session.installed channel) := by
  cases hstep with
  | keep hinstalled hguards => simp [hinstalled]
  | @occupy name slot hfree hslot =>
      by_cases heq : name = channel
      · subst heq
        simp [Session.occupy, Transition.channel, Transition.due, hfree]
      · simp [Session.occupy, Transition.channel, heq, assign_of_ne _ _ (Ne.symm heq)]
  | @vacate name slot hslot =>
      by_cases heq : name = channel
      · subst heq
        have hinstalled := hguarded.installed_of_guard slot name hslot
        simp [Session.vacate, Transition.channel, Transition.due, hinstalled]
      · simp [Session.vacate, Transition.channel, heq, assign_of_ne _ _ (Ne.symm heq)]
  | @replace name held slot hfree hslot hne =>
      by_cases heq : name = channel
      · subst heq
        simp [Session.occupy, Transition.channel, Transition.due, hne, hfree]
      · by_cases hheld : held = channel
        · subst hheld
          have hinstalled := hguarded.installed_of_guard slot held hslot
          simp [Session.occupy, Session.vacate, Transition.channel, Transition.due, heq,
            assign_of_ne _ _ (Ne.symm heq), hinstalled]
        · simp [Session.occupy, Session.vacate, Transition.channel, heq, hheld,
            assign_of_ne _ _ (Ne.symm heq), assign_of_ne _ _ (Ne.symm hheld)]

/-! ## Runs -/

theorem Guarded.after
    {session : Session} (hguarded : session.Guarded) (commands : List Command) :
    (session.after commands).Guarded := by
  induction commands generalizing session with
  | nil => exact hguarded
  | cons command rest ih => exact ih ((hguarded.channelStep command).guarded hguarded)

/-- The installations that begin and end in a run, in order. -/
def history (session : Session) : List Command → List Transition
  | [] => []
  | command :: rest => session.transitions command ++ (session.step command).2.history rest

theorem history_concat (session : Session) (before : List Command) (command : Command) :
    session.history (before ++ [command]) =
      session.history before ++ (session.after before).transitions command := by
  induction before generalizing session with
  | nil => simp [history, after]
  | cons first before ih =>
      rw [List.cons_append, history, ih, history, List.append_assoc]
      rfl

theorem history_filter_channel (commands : List Command) (channel : String) :
    ∃ count,
      (initial.history commands).filter (·.channel = channel) =
          Transition.alternation channel count ∧
        (initial.after commands).installed channel = decide (count % 2 = 1) := by
  -- The last command is taken off, so that the state in front of it is one of the run.
  induction commands using List.reverseRecOn with
  | nil => exact ⟨0, rfl, rfl⟩
  | append_singleton before command ih =>
      obtain ⟨count, hfilter, hinstalled⟩ := ih
      have hguarded := initial_guarded.after before
      rw [history_concat, after_concat, List.filter_append, hfilter]
      rcases (hguarded.channelStep command).due hguarded channel with
        ⟨hnone, hsame⟩ | ⟨hdue, hnext⟩
      · refine ⟨count, ?_, ?_⟩
        · rw [hnone, List.append_nil]
        · rw [hsame, hinstalled]
      · refine ⟨count + 1, ?_, ?_⟩
        · rw [hdue, hinstalled, Transition.alternation, Transition.alternation,
            List.range_succ, List.map_append, List.map_singleton]
        · rw [hnext, hinstalled, ← decide_not]
          apply decide_eq_decide.mpr
          omega

/-- After every step of a run, a channel has an interceptor exactly if one slot holds a guard of
it, and no channel has two guards.  An installation is refused exactly if there is such a guard,
and then nothing changes.  On every channel installations begin and end in turn, and the channel
has an interceptor exactly after a beginning. -/
theorem installed_iff_guard_of_run (commands : List Command) :
    (∀ entry ∈ initial.run commands, ∀ channel,
        (entry.2.installed channel = true ↔ ∃! slot, entry.2.guards slot = some channel) ∧
          (entry.2.installed channel = false ↔
            ∀ slot, entry.2.guards slot ≠ some channel) ∧
          ∀ first second, entry.2.guards first = some channel →
            entry.2.guards second = some channel → first = second) ∧
      (∀ before channel slot rest, commands = before ++ .install channel slot :: rest →
        ∃ reply next,
          (initial.run commands)[before.length]? = some (reply, next) ∧
            (reply = .alreadyInstalled ↔
              ∃ other, (initial.after before).guards other = some channel) ∧
            (reply = .installed ∨
              reply = .alreadyInstalled ∧ next = initial.after before)) ∧
      ∀ channel, ∃ count,
        (initial.history commands).filter (·.channel = channel) =
            Transition.alternation channel count ∧
          (initial.after commands).installed channel = decide (count % 2 = 1) := by
  refine ⟨?_, ?_, history_filter_channel commands⟩
  · intro entry hmem channel
    obtain ⟨before, hafter⟩ := exists_after_of_mem_run hmem
    have hguarded := initial_guarded.after before
    rw [← hafter] at hguarded
    exact ⟨hguarded.installed_iff_existsUnique channel, hguarded.free_iff channel,
      fun first second => hguarded.guard_unique first second channel⟩
  · intro before channel slot rest hcommands
    have hguarded := initial_guarded.after before
    obtain ⟨hrefused, hreply⟩ := hguarded.install_reply channel slot
    have hrun := getElem?_run_append initial before (.install channel slot) rest
    rw [← hcommands] at hrun
    refine ⟨_, _, hrun, hrefused, ?_⟩
    rcases hreply with hinstalled | hsame
    · exact Or.inl hinstalled
    · exact Or.inr (Prod.mk.inj hsame)

theorem run_install_over_guard :
    (initial.run [.install "a" "g", .install "b" "g", .install "b" "g"])[2]? =
        some (.alreadyInstalled, initial.after [.install "a" "g", .install "b" "g"]) ∧
      (∃! slot,
        (initial.after [.install "a" "g", .install "b" "g"]).guards slot = some "b") ∧
      ∀ slot, (initial.after [.install "a" "g", .install "b" "g"]).guards slot ≠ some "a" := by
  obtain ⟨hstates, hinstall, -⟩ :=
    installed_iff_guard_of_run [.install "a" "g", .install "b" "g", .install "b" "g"]
  obtain ⟨reply, next, hrun, hrefused, hreply⟩ :=
    hinstall [.install "a" "g", .install "b" "g"] "b" "g" [] rfl
  have hrefusal : reply = .alreadyInstalled := hrefused.mpr ⟨"g", rfl⟩
  have hnext : next = initial.after [.install "a" "g", .install "b" "g"] := by
    rcases hreply with hinstalled | ⟨-, hnext⟩
    · rw [hrefusal] at hinstalled
      contradiction
    · exact hnext
  have hchannels := hstates _ (List.mem_of_getElem? hrun)
  rw [hnext] at hchannels
  refine ⟨?_, (hchannels "b").1.mp rfl, (hchannels "a").2.1.mp rfl⟩
  rw [← hnext, ← hrefusal]
  exact hrun

end Session

end ArgumentContract
