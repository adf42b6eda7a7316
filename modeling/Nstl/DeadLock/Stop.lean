import Nstl.DeadLock.Checker

/-!
# What `stop` achieves

`stop` clears the flag, but `runner` looks at it in one place of its loop only, and sets
it when it is entered.  What it does after `stop` has returned depends on where it was
then: a wait is still followed by a check and perhaps an alert, an alert that is about
to begin begins, and a `runner` that had not been entered runs as if `stop` had not been
called.  Only a runner in the alerter, or behind it, does nothing more.
-/

namespace Nstl.DeadLock

open Nstl.Transition

/-- The runner is in the alerter or behind it, or has returned. -/
def Place.quiet : Place → Bool
  | .alerting | .relocking _ | .returned => true
  | .outside | .testing | .waiting .. | .checking | .alarmed | .unlocked => false

/-- The runner is on its way out. -/
structure Stopped (state : State) : Prop where
  running : state.running = false
  place : state.runner.quiet = true ∨ state.runner = .testing

/-- The runner begins no check and does not call the alerter. -/
def Silent (action : Action) : Prop := action ≠ .check ∧ action ≠ .alert

section Step

variable {checker : Checker} {period : ℤ} {state next : State} {action : Action}

theorem notify_eq_of_not_waiting {place : Place}
    (hplace : place.quiet = true ∨ place = .testing) : place.notify = place := by
  cases place with
  | waiting => rcases hplace with hquiet | htesting <;> contradiction
  | _ => rfl

theorem stopped_step (hstopped : Stopped state) (hstep : Step checker period state action next) :
    Silent action ∧ Stopped next := by
  obtain ⟨hrunning, hat⟩ := hstopped
  cases hstep with
  | enter hplace | wake _ hplace | check hplace | unlock hplace | alert hplace =>
      rw [hplace] at hat
      rcases hat with hquiet | htesting <;> contradiction
  | wait _ hset => exact absurd (hset.symm.trans hrunning) (by decide)
  | leave | alerted | escape => exact ⟨⟨nofun, nofun⟩, hrunning, .inl rfl⟩
  | relock => exact ⟨⟨nofun, nofun⟩, hrunning, .inr rfl⟩
  | stopSwap => exact ⟨⟨nofun, nofun⟩, rfl, hat⟩
  | stopNotify =>
      refine ⟨⟨nofun, nofun⟩, hrunning, ?_⟩
      rw [notify_eq_of_not_waiting hat, ite_self]
      exact hat
  | stopCall | stopReturn | addCheckedThread | otherCheck | otherAlert | bump | expire | tick =>
      exact ⟨⟨nofun, nofun⟩, hrunning, hat⟩

theorem after_stopReturn (hreturn : Step checker period state .stopReturn next) :
    state.stopper = .returning ∧ next.holder = none ∧ next.runner = state.runner ∧
      next.running = state.running := by
  cases hreturn with
  | stopReturn hplace => exact ⟨hplace, rfl, rfl, rfl⟩

/-- A wait is followed by a check. -/
theorem check_after_wait {deadline : ℤ} {notified : Bool}
    (hplace : state.runner = .waiting deadline notified) (hfree : state.holder = none) :
    ∃ last, Run (Step checker period) state [.wake .spurious, .check] last :=
  ⟨_, .snoc (.snoc .nil (.wake .spurious hplace hfree trivial)) (.check (by rfl))⟩

/-- A runner that is entered comes to a check. -/
theorem check_after_enter (hplace : state.runner = .outside) (hfree : state.holder = none) :
    ∃ last, Run (Step checker period) state [.enter, .wait, .wake .spurious, .check] last :=
  ⟨_, .snoc (.snoc (.snoc (.snoc .nil (.enter hplace hfree)) (.wait (by rfl) (by rfl)))
    (.wake .spurious (by rfl) (by rfl) trivial)) (.check (by rfl))⟩

/-- A state from which the runner begins a check or calls the alerter, if things go so. -/
theorem not_silent {later : List Action} {last : State}
    (hlater : Run (Step checker period) state later last)
    (haction : ∃ action ∈ later, ¬Silent action) :
    ¬∀ later last, Run (Step checker period) state later last →
      ∀ action ∈ later, Silent action := by
  intro hsilent
  obtain ⟨action, hmem, haction⟩ := haction
  exact haction (hsilent later last hlater action hmem)

/-- At every return of `stop`, in every run: the runner begins no check and does not call
the alerter afterwards, whatever happens, exactly if it is in the alerter or behind it, or
has returned. -/
theorem stop_effective_iff {now : ℤ} {actions : List Action}
    (hrun : Run (Step checker period) (start now) actions state)
    (hreturn : Step checker period state .stopReturn next) :
    (∀ later last, Run (Step checker period) next later last →
      ∀ action ∈ later, Silent action) ↔ state.runner.quiet = true := by
  have hlocked := locked_of_run hrun
  obtain ⟨hplace, hfree, hsame, hrunning⟩ := after_stopReturn hreturn
  have hinside : Inside state .stopper := by rw [Inside, hplace]; rfl
  have houtside : ¬Inside state .runner := hlocked.guarded.alone hinside (by decide)
  rw [Inside, ← hsame] at houtside
  rw [← hsame]
  constructor
  · intro hsilent
    cases hrunner : next.runner with
    | testing | checking | alarmed =>
        rw [hrunner] at houtside
        exact absurd rfl houtside
    | outside =>
        obtain ⟨last, hlast⟩ := check_after_enter hrunner hfree
        exact absurd hsilent (not_silent hlast ⟨.check, by decide, fun hcheck => hcheck.1 rfl⟩)
    | waiting =>
        obtain ⟨last, hlast⟩ := check_after_wait hrunner hfree
        exact absurd hsilent (not_silent hlast ⟨.check, by decide, fun hcheck => hcheck.1 rfl⟩)
    | unlocked =>
        have hlast : Run (Step checker period) next _ _ := Run.nil.snoc (.alert hrunner)
        exact absurd hsilent (not_silent hlast ⟨.alert, by decide, fun halert => halert.2 rfl⟩)
    | alerting | relocking | returned => rfl
  · intro hquiet later last hlater
    have hcleared : next.running = false := hrunning.trans (hlocked.cleared hinside)
    have hsilent := hlater.labels_of_invariant Stopped Silent ⟨hcleared, .inl hquiet⟩
      fun _ _ _ => stopped_step
    exact hsilent.1

end Step

/-! ## Runs on which `stop` fails, and one on which it does not -/

def tenNanoseconds : Checker := ⟨10, by decide⟩

/-- One executor is overdue, and the runner waits. -/
def overdueWaiting : State :=
  { start 0 with
    executors := Function.update (fun _ => none) 0 (some 0)
    created := 1
    now := 50
    items := [0]
    running := true
    runner := .waiting 50 false }

theorem run_overdueWaiting :
    Run (Step tenNanoseconds 50) (start 0) [.addCheckedThread, .enter, .wait, .tick 50]
      overdueWaiting :=
  .snoc (.snoc (.snoc (.snoc .nil (.addCheckedThread (by rfl))) (.enter (by rfl) (by rfl)))
    (.wait (by rfl) (by rfl))) (.tick 50)

/-- The runner is about to call the alerter. -/
def overdueUnlocked : State := { overdueWaiting with runner := .unlocked, errors := 1 }

theorem run_overdueUnlocked :
    Run (Step tenNanoseconds 50) overdueWaiting [.wake .timeout, .check, .unlock]
      overdueUnlocked :=
  .snoc (.snoc (.snoc .nil
    (.wake .timeout (by rfl) (by rfl) (show (50 : ℤ) ≤ 50 by decide)))
    (.check (by rfl))) (.unlock (by rfl))

/-- `stop` is about to return, at whatever place the runner was. -/
def State.stopping (state : State) : State :=
  { state with
    holder := some .stopper
    running := false
    runner := if state.running then state.runner.notify else state.runner
    stopper := .returning }

def State.stopped (state : State) : State :=
  { state.stopping with holder := none, stopper := .outside }

theorem run_stopping {state : State} (hplace : state.stopper = .outside)
    (hfree : state.holder = none) :
    Run (Step tenNanoseconds 50) state [.stopCall, .stopSwap, .stopNotify] state.stopping :=
  .snoc (.snoc (.snoc .nil (.stopCall hplace)) (.stopSwap (by rfl) hfree))
    (.stopNotify (by rfl))

/-- `stop` returns after the first actions, and the runner begins a check or calls the
alerter in the others. -/
def Ineffective (before later : List Action) : Prop :=
  ∃ state next last, Run (Step tenNanoseconds 50) (start 0) before state ∧
    Step tenNanoseconds 50 state .stopReturn next ∧
    Run (Step tenNanoseconds 50) next later last ∧ (.check ∈ later ∨ .alert ∈ later)

/-- `stop` before the runner is entered, during its wait, and when it has released the
mutex but has not called the alerter yet. -/
theorem stop_ineffective :
    Ineffective [.stopCall, .stopSwap, .stopNotify]
        [.addCheckedThread, .enter, .wait, .tick 50, .wake .timeout, .check, .unlock, .alert] ∧
      Ineffective [.addCheckedThread, .enter, .wait, .tick 50, .stopCall, .stopSwap, .stopNotify]
        [.wake .notification, .check, .unlock, .alert] ∧
      Ineffective
        [.addCheckedThread, .enter, .wait, .tick 50, .wake .timeout, .check, .unlock, .stopCall,
          .stopSwap, .stopNotify]
        [.alert] := by
  have halert (state : State) (hplace : state.runner = .unlocked) :
      Run (Step tenNanoseconds 50) state [.alert] { state with runner := .alerting } :=
    Run.nil.snoc (.alert hplace)
  have hchecked : Run (Step tenNanoseconds 50) overdueWaiting.stopped
      [.wake .notification, .check, .unlock]
      { overdueUnlocked with running := false } :=
    .snoc (.snoc (.snoc .nil (.wake .notification (by rfl) (by rfl) (by rfl)))
      (.check (by rfl))) (.unlock (by rfl))
  have hunlocked := run_overdueWaiting.append run_overdueUnlocked
  refine ⟨?_, ?_, ?_⟩
  · exact ⟨_, start 0, _, run_stopping rfl rfl, .stopReturn rfl,
      hunlocked.append (halert _ rfl), by decide⟩
  · exact ⟨_, overdueWaiting.stopped, _, run_overdueWaiting.append (run_stopping rfl rfl),
      .stopReturn rfl, hchecked.append (halert _ rfl), by decide⟩
  · exact ⟨_, overdueUnlocked.stopped, _, hunlocked.append (run_stopping rfl rfl),
      .stopReturn rfl, halert _ rfl, by decide⟩

/-- `stop` while the runner is in the alerter. -/
theorem stop_effective_example :
    ∃ state next, Step tenNanoseconds 50 state .stopReturn next ∧ state.runner = .alerting ∧
      ∀ later last, Run (Step tenNanoseconds 50) next later last →
        ∀ action ∈ later, Silent action := by
  have halerting : Run (Step tenNanoseconds 50) (start 0) _
      { overdueUnlocked with runner := .alerting } :=
    (run_overdueWaiting.append run_overdueUnlocked).snoc (.alert rfl)
  have hstopping := halerting.append (run_stopping rfl rfl)
  exact ⟨_, _, .stopReturn (by rfl), by rfl,
    (stop_effective_iff hstopping (.stopReturn rfl)).2 rfl⟩

end Nstl.DeadLock
