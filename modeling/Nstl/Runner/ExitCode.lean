import Nstl.Core.FirstWins
import Nstl.Runner.Lives

/-!
# The exit code

The runner returns the code of the first child that it finds to have failed.  The flag
that makes it the first one is also set when a signal is passed on; a child that fails
after that does not change the exit code any more.
-/

namespace Nstl.MultiRunner

open Function
open Nstl.FirstWins
open Nstl.Lifecycle
open Nstl.Transition

/-- A child that was started is waited for and has failed. -/
def Action.failure : Action → Option ℕ
  | .reap (some _) status => if status.code = 0 then none else some status.code
  | _ => none

/-- The code of the first child that is waited for and has failed. -/
def firstFailure (actions : List Action) : Option ℕ := actions.findSome? Action.failure

/-- SIGINT, SIGTERM or SIGQUIT is read. -/
def Action.signals : Action → Bool
  | .read signal => signal ∈ forwarded
  | _ => false

/-- Every child has ended with status 0. -/
def AllSucceeded (threads : ℕ) (actions : List Action) : Prop :=
  ∀ idx < threads, ∃ status, .finish idx status ∈ history actions ∧ status.code = 0

theorem failure_eq_some_iff {action : Action} {code : ℕ} :
    action.failure = some code ↔
      ∃ idx status, action = .reap (some idx) status ∧ status.code = code ∧ code ≠ 0 := by
  constructor
  · intro hfailure
    cases action with
    | reap owner status =>
        cases owner with
        | none => exact absurd hfailure nofun
        | some idx =>
            rw [Action.failure] at hfailure
            split at hfailure
            case isTrue => exact absurd hfailure nofun
            case isFalse hcode =>
              obtain rfl := Option.some.inj hfailure
              exact ⟨idx, status, rfl, rfl, hcode⟩
    | _ => exact absurd hfailure nofun
  · rintro ⟨idx, status, rfl, rfl, hcode⟩
    rw [Action.failure, if_neg hcode]

theorem firstFailure_ne_zero {actions : List Action} {code : ℕ}
    (hfailure : firstFailure actions = some code) : code ≠ 0 := by
  obtain ⟨action, _, haction⟩ := List.exists_of_findSome?_eq_some hfailure
  obtain ⟨_, _, _, _, hcode⟩ := failure_eq_some_iff.1 haction
  exact hcode

/-- No child that was waited for has failed. -/
theorem firstFailure_eq_none_iff {actions : List Action} :
    firstFailure actions = none ↔
      ∀ idx status, .collect idx status ∈ history actions → status.code = 0 := by
  rw [firstFailure, List.findSome?_eq_none_iff]
  constructor
  · intro hnone idx status hcollect
    obtain ⟨action, haction, hevent⟩ := List.mem_filterMap.1 hcollect
    obtain rfl : action = .reap (some idx) status := by
      cases action with
      | reap owner other => cases owner <;> simp_all [Action.event]
      | exit owner other => cases owner <;> simp_all [Action.event]
      | _ => simp_all [Action.event]
    by_contra hcode
    have hfailure := hnone _ haction
    rw [Action.failure, if_neg hcode] at hfailure
    exact absurd hfailure nofun
  · intro hzero action haction
    cases hfailure : action.failure with
    | none => rfl
    | some code =>
        obtain ⟨idx, status, rfl, rfl, hcode⟩ := failure_eq_some_iff.1 hfailure
        exact absurd (hzero idx status (List.mem_filterMap.2 ⟨_, haction, rfl⟩)) hcode

/-! ## The decision -/

/-- The exit code that the first signal or the first failure decides on. -/
def decision (actions : List Action) : Option ℕ :=
  verdict Action.signals Action.failure 0 actions

def Place.kills : Place → Bool
  | .killing .. => true
  | _ => false

/-- The exit code is decided on: the flag is set, or is about to be set. -/
def State.decided (state : State) : Bool := state.raised || state.place.kills

/-- As long as nothing ends the runner from outside, its exit code is the one that was
decided on. -/
def Decided (actions : List Action) (state : State) : Prop :=
  state.place ≠ .terminated →
    (state.decided = true ∧ decision actions = some state.exitCode) ∨
      (state.decided = false ∧ decision actions = none ∧ state.exitCode = 0)

section Step

variable {threads : ℕ} {state next : State} {action : Action} {actions : List Action}
  {place place' : Place}

theorem Move.kills (hmove : Move state place place') (hlive : place' ≠ .terminated) :
    place'.kills = place.kills ∧ place ≠ .terminated := by
  cases hmove with
  | terminate => exact absurd rfl hlive
  | throws hplace => cases place <;> simp_all [Place.mayThrow, Place.kills]
  | _ => exact ⟨rfl, nofun⟩

/-- An action that decides nothing. -/
theorem Decided.same (hdecided : Decided actions state)
    (haction : decides Action.signals Action.failure 0 action = none)
    (hplace : next.place ≠ .terminated → state.place ≠ .terminated)
    (hsame : next.place ≠ .terminated → next.decided = state.decided)
    (hcode : next.exitCode = state.exitCode) : Decided (actions ++ [action]) next := by
  intro hnext
  rw [decision, verdict_append, haction, Option.or_none, hsame hnext, hcode]
  exact hdecided (hplace hnext)

/-- The same where the runner goes on from a place to another one. -/
theorem Decided.steady (hdecided : Decided actions state)
    (haction : decides Action.signals Action.failure 0 action = none)
    (hplace : state.place ≠ .terminated) (hraised : next.raised = state.raised)
    (hkills : next.place.kills = state.place.kills) (hcode : next.exitCode = state.exitCode) :
    Decided (actions ++ [action]) next := by
  refine hdecided.same haction (fun _ => hplace) (fun _ => ?_) hcode
  rw [State.decided, State.decided, hraised, hkills]

theorem decided_of_not_kills (hplace : state.place.kills = false) :
    state.decided = state.raised := by
  rw [State.decided, hplace, Bool.or_false]

/-- After the decision nothing changes it. -/
theorem Decided.later (hdecided : Decided actions state) (hplace : state.place ≠ .terminated)
    (hbefore : state.decided = true) (hafter : next.decided = true)
    (hcode : next.exitCode = state.exitCode) : Decided (actions ++ [action]) next := by
  intro _
  rcases hdecided hplace with ⟨_, hdecision⟩ | ⟨hundecided, _⟩
  · rw [decision] at hdecision
    exact .inl ⟨hafter, by rw [decision, verdict_append, hdecision, hcode]; rfl⟩
  · exact absurd (hbefore.symm.trans hundecided) nofun

/-- The action that decides. -/
theorem Decided.now (hdecided : Decided actions state) (hplace : state.place ≠ .terminated)
    (hbefore : state.decided = false) (hafter : next.decided = true)
    (haction : decides Action.signals Action.failure 0 action = some next.exitCode) :
    Decided (actions ++ [action]) next := by
  intro _
  rcases hdecided hplace with ⟨hearlier, _⟩ | ⟨_, hdecision, _⟩
  · exact absurd (hearlier.symm.trans hbefore) nofun
  · rw [decision] at hdecision
    exact .inl ⟨hafter, by rw [decision, verdict_append, hdecision, haction]; rfl⟩

theorem Decided.read (hdecided : Decided actions state) {signal : Signal} {events : List Event}
    (hplace : state.place = .reading events) (hwatched : signal ∈ watched) :
    Decided (actions ++ [.read signal])
      { state with
        pending := state.pending.erase signal
        place := afterRead signal events } := by
  have hlive : state.place ≠ .terminated := by simp [hplace]
  rw [afterRead]
  by_cases hsignal : signal = sigchld
  · subst hsignal
    exact hdecided.steady rfl hlive rfl (by rw [hplace]; rfl) rfl
  · have hforwarded : signal ∈ forwarded := (Finset.mem_insert.1 hwatched).resolve_left hsignal
    rw [if_neg hsignal]
    cases hbefore : state.decided with
    | true => exact hdecided.later hlive hbefore (Bool.or_true _) rfl
    | false =>
        refine hdecided.now hlive hbefore (Bool.or_true _) ?_
        rcases hdecided hlive with ⟨hearlier, _⟩ | ⟨_, _, hcode⟩
        · rw [hbefore] at hearlier
          cases hearlier
        · simp [decides, Action.signals, hforwarded, hcode]

theorem Decided.reap (hdecided : Decided actions state) {lives : ℕ → Life Status}
    (htracks : Tracks state lives) {pid : ℕ} {child : Child} {status : Status}
    {events : List Event} (hplace : state.place = .reaping events)
    (hchild : state.children pid = some child) (hreaped : Reaped state pid status events next) :
    Decided (actions ++ [.reap child.owner status]) next := by
  have hlive : state.place ≠ .terminated := by rw [hplace]; exact nofun
  have hraised : state.decided = state.raised := decided_of_not_kills (by rw [hplace]; rfl)
  have hlookup := htracks.idxOf? hchild
  cases hreaped with
  | foreign hentry =>
      rw [← hlookup, hentry]
      exact hdecided.steady rfl hlive rfl rfl rfl
  | failure hentry hcode hunraised =>
      rw [← hlookup, hentry]
      refine hdecided.now hlive (hraised.trans hunraised) (Bool.or_true _) ?_
      simp [decides, Action.signals, Action.failure, hcode]
  | cleared hentry hcode =>
      rw [← hlookup, hentry]
      rcases hcode with hzero | hset
      · refine hdecided.steady ?_ hlive rfl rfl rfl
        simp [decides, Action.signals, Action.failure, hzero]
      · exact hdecided.later hlive (hraised.trans hset) (by rw [State.decided, hset]; rfl) rfl

theorem Decided.step (hdecided : Decided actions state) {lives : ℕ → Life Status}
    (htracks : Tracks state lives) (hstep : Step threads state action next) :
    Decided (actions ++ [action]) next := by
  cases hstep with
  | setUp hplace | fork hplace | kill hplace =>
      exact hdecided.steady rfl (by rw [hplace]; exact nofun) rfl (by rw [hplace]; rfl) rfl
  | @move place hmove =>
      refine hdecided.same rfl (fun hlive => (hmove.kills hlive).2) (fun hlive => ?_) rfl
      rw [State.decided, State.decided, (hmove.kills hlive).1]
  | read hplace hwatched => exact hdecided.read hplace hwatched
  | killed hplace =>
      refine hdecided.later (by rw [hplace]; exact nofun) ?_ rfl rfl
      rw [State.decided, hplace]
      exact Bool.or_true _
  | reap hplace hchild => exact hdecided.reap htracks hplace hchild (reaped_spec _ _ _ _)
  | arrive | exit | child | adopt => exact hdecided.same rfl id (fun _ => rfl) rfl

theorem decided_of_run {mask : Finset Signal}
    (hrun : Run (Step threads) (start mask) actions state) : Decided actions state := by
  induction hrun with
  | nil => exact fun _ => .inr ⟨rfl, rfl, rfl⟩
  | snoc hrun hstep ih =>
      obtain ⟨lives, _, htracks⟩ := tracks_of_run hrun
      exact ih.step htracks hstep

/-! ## The end -/

/-- The loop is over. -/
def Place.flushed : Place → Bool
  | .flushing _ | .returned => true
  | _ => false

/-- There is an entry for every child, and all are cleared when the loop is over. -/
structure Counted (threads : ℕ) (state : State) : Prop where
  length : state.place.live = true → state.pids.length = threads
  cleared : state.place.flushed = true → ∀ pid ∈ state.pids, pid = 0

theorem Move.cleared (hmove : Move state place place') (hflushed : place'.flushed = true) :
    place.flushed = true ∨ ∀ pid ∈ state.pids, pid = 0 := by
  cases hmove with
  | ends hnone => exact .inr hnone
  | flush | returns => exact .inl rfl
  | _ => exact absurd hflushed nofun

theorem Counted.same (hcounted : Counted threads state)
    (hlength : next.pids.length = state.pids.length) (hlive : state.place.live = true)
    (hplace : next.place.flushed = false) : Counted threads next where
  length _ := hlength.trans (hcounted.length hlive)
  cleared hflushed := absurd (hflushed.symm.trans hplace) nofun

theorem Counted.step (hcounted : Counted threads state) (hstep : Step threads state action next) :
    Counted threads next := by
  cases hstep with
  | setUp => exact ⟨fun _ => List.length_replicate, nofun⟩
  | fork hplace => exact hcounted.same List.length_set (by rw [hplace]; rfl) rfl
  | @move place hmove =>
      refine ⟨fun hlive => hcounted.length (hmove.live hlive), fun hflushed => ?_⟩
      rcases hmove.cleared hflushed with hbefore | hcleared
      · exact hcounted.cleared hbefore
      · exact hcleared
  | @read signal events hplace =>
      refine hcounted.same rfl (by rw [hplace]; rfl) ?_
      dsimp only
      rw [afterRead]
      split <;> rfl
  | kill hplace => exact hcounted.same rfl (by rw [hplace]; rfl) rfl
  | @killed reason signal idx events hplace =>
      refine hcounted.same rfl (by rw [hplace]; rfl) ?_
      cases reason <;> rfl
  | @reap pid child status events hplace =>
      have hreaped := reaped_spec pid status events state
      refine hcounted.same hreaped.frame.2.2 (by rw [hplace]; rfl) ?_
      rcases hreaped.place with hnext | hnext
      · rw [hnext, hplace]
        rfl
      · rw [hnext]
        rfl
  | arrive | exit | child | adopt => exact ⟨hcounted.length, hcounted.cleared⟩

theorem counted_of_run {mask : Finset Signal}
    (hrun : Run (Step threads) (start mask) actions state) : Counted threads state :=
  hrun.invariant (Counted threads) ⟨nofun, nofun⟩ fun _ _ _ hcounted hstep => hcounted.step hstep

variable {lives : ℕ → Life Status}

/-- A runner that returns has waited for all of its children. -/
theorem collected_of_returned (htracks : Tracks state lives) (hcounted : Counted threads state)
    (hplace : state.place = .returned) (idx : ℕ) :
    (idx < threads → ∃ status, lives idx = .collected status) ∧
      (lives idx ≠ .unborn → idx < threads) := by
  have hlive : state.place.live = true := by rw [hplace]; rfl
  have hborn := htracks.born hlive idx
  rw [forked_of_settled (by rw [hplace]; rfl), hcounted.length hlive] at hborn
  constructor
  · intro hidx
    have hlt : idx < state.pids.length := by rwa [hcounted.length hlive]
    have hentry : state.pids[idx]? = some 0 := by
      rw [List.getElem?_eq_getElem hlt]
      exact congrArg some (hcounted.cleared (by rw [hplace]; rfl) _ (List.getElem_mem hlt))
    have hinactive : (lives idx).active ≠ true :=
      mt (htracks.ledger.entry idx 0 hentry).2 (Nat.lt_irrefl 0)
    cases hlife : lives idx with
    | unborn => exact absurd (hborn.1 hlife) (Nat.not_le.2 hidx)
    | running | ended => exact absurd rfl (hlife ▸ hinactive)
    | collected status => exact ⟨status, rfl⟩
  · intro hstarted
    exact Nat.not_le.1 fun hle => hstarted (hborn.2 hle)

/-- All children have succeeded exactly if none was found to have failed. -/
theorem allSucceeded_iff (hlives : Run Lifecycle.Step (fun _ => .unborn) (history actions) lives)
    (htracks : Tracks state lives) (hcounted : Counted threads state)
    (hplace : state.place = .returned) :
    AllSucceeded threads actions ↔ firstFailure actions = none := by
  have hreturned := collected_of_returned htracks hcounted hplace
  rw [firstFailure_eq_none_iff]
  constructor
  · intro hall idx status hcollect
    have hlife := (collect_mem_iff hlives idx status).1 hcollect
    have hidx := (hreturned idx).2 (by rw [hlife]; exact nofun)
    obtain ⟨other, hfinish, hcode⟩ := hall idx hidx
    have hsame := (finish_mem_iff hlives idx other).1 hfinish
    rw [hlife] at hsame
    rcases hsame with hended | hcollected
    · exact absurd hended nofun
    · exact Life.collected.inj hcollected ▸ hcode
  · intro hzero idx hidx
    obtain ⟨status, hlife⟩ := (hreturned idx).1 hidx
    exact ⟨status, (finish_mem_iff hlives idx status).2 (.inr hlife),
      hzero idx status ((collect_mem_iff hlives idx status).2 hlife)⟩

/-- SIGINT, SIGTERM or SIGQUIT is read before a child is waited for that has failed. -/
def SignalFirst (actions : List Action) : Prop :=
  ∃ before signal after, actions = before ++ .read signal :: after ∧ signal ∈ forwarded ∧
    firstFailure before = none

theorem signalFirst_iff :
    SignalFirst actions ↔ InterruptsFirst Action.signals Action.failure actions := by
  constructor
  · rintro ⟨before, signal, after, hactions, hsignal, hbefore⟩
    exact ⟨before, .read signal, after, hactions, decide_eq_true hsignal, hbefore⟩
  · rintro ⟨before, action, after, hactions, hsignals, hbefore⟩
    cases action with
    | read signal => exact ⟨before, signal, after, hactions, of_decide_eq_true hsignals, hbefore⟩
    | _ => exact absurd hsignals nofun

/-- In every run in which the runner returns: the exit code is 0 exactly if all children
have ended with status 0, and the code of the first one that is found to have failed
otherwise, exactly if no child fails or no signal to be passed on is read before the
first failure is found. -/
theorem exit_code_iff {mask : Finset Signal}
    (hrun : Run (Step threads) (start mask) actions state) (hplace : state.place = .returned) :
    ((state.exitCode = 0 ↔ AllSucceeded threads actions) ∧
      ∀ code, firstFailure actions = some code → state.exitCode = code) ↔
    firstFailure actions = none ∨ ¬SignalFirst actions := by
  obtain ⟨lives, hlives, htracks⟩ := tracks_of_run hrun
  have hcode : state.exitCode = (decision actions).getD 0 := by
    rcases decided_of_run hrun (by rw [hplace]; exact nofun) with
      ⟨_, hdecision⟩ | ⟨_, hdecision, hzero⟩
    · rw [hdecision, Option.getD_some]
    · rw [hdecision, hzero, Option.getD_none]
  have hverdict := verdict_eq Action.signals Action.failure 0 actions
  rw [← signalFirst_iff] at hverdict
  rw [allSucceeded_iff hlives htracks (counted_of_run hrun) hplace, hcode, decision]
  by_cases hsignal : SignalFirst actions
  · rw [hverdict.1 hsignal, Option.getD_some]
    constructor
    · intro hreported
      exact .inl (hreported.1.1 rfl)
    · rintro (hnone | hnot)
      · exact ⟨iff_of_true rfl hnone, fun code hsome => absurd (hnone.symm.trans hsome) nofun⟩
      · exact absurd hsignal hnot
  · rw [hverdict.2 hsignal, ← firstFailure]
    refine iff_of_true ⟨?_, ?_⟩ (.inr hsignal)
    · cases hfailure : firstFailure actions with
      | none => exact iff_of_true rfl rfl
      | some code => exact iff_of_false (firstFailure_ne_zero hfailure) nofun
    · intro code hsome
      rw [hsome, Option.getD_some]

end Step

/-! ## A failure that is not reported -/

/-- The runner has passed SIGINT on to its only child. -/
def oneInterrupted : State :=
  { oneStarted with
    raised := true
    pending := (insert sigint ∅ : Finset Signal).erase sigint
    children := update oneStarted.children 100
      ((oneStarted.children 100).map (Child.kill sigint)) }

theorem run_oneInterrupted :
    Run (Step 1) oneStarted
      [.arrive sigint, .goTo (.dispatching [.signals]), .goTo (.reading []), .read sigint,
        .kill 100 sigint, .killed, .goTo (.dispatching []), .goTo .testing, .goTo .waiting]
      oneInterrupted := by
  have hstart : Run (Step 1) oneStarted [] oneStarted := .nil
  have harrived := hstart.snoc (.arrive (show sigint ∈ oneStarted.mask by decide))
  have hreading := (harrived.snoc (.move (.epollWait (show [.signals] ≠ [] from nofun)
    (by decide) fun _ => ⟨sigint, by decide, by decide⟩))).snoc (.move .signals)
  have hkilling := hreading.snoc (.read rfl (show sigint ∈ watched by decide) (by decide))
  have hkilled := (hkilling.snoc (.kill rfl rfl (by decide))).snoc (.killed rfl (by decide))
  exact ((hkilled.snoc (.move .readStops)).snoc (.move .dispatched)).snoc
    (.move (.loop ⟨100, by decide, by decide⟩))

/-- When the only child was waited for, the runner returns. -/
theorem run_returned {state : State} (hplace : state.place = .reaping [])
    (hnone : ∀ pid, ¬state.Zombie pid) (hpids : state.pids = [0]) :
    Run (Step 1) state
      [.goTo (.reading []), .goTo (.dispatching []), .goTo .testing, .goTo (.flushing 0),
        .goTo (.flushing 1), .goTo .returned] { state with place := .returned } := by
  have hreading : Move state state.place (.reading []) := by
    rw [hplace]
    exact .noneWaitable hnone
  have hstart : Run (Step 1) state [] state := .nil
  have htesting := ((hstart.snoc (.move hreading)).snoc (.move .readStops)).snoc
    (.move .dispatched)
  have hflushing := htesting.snoc (.move (.ends (by simp [hpids])))
  have hflushed := hflushing.snoc (.move (.flush (by simp [hpids])))
  exact hflushed.snoc (.move (.returns (by simp [hpids])))

theorem no_zombie_of_update {state : State} {children : ℕ → Option Child}
    (hothers : ∀ pid, pid ≠ 100 → children pid = none)
    (hchildren : state.children = update children 100 none) (pid : ℕ) : ¬state.Zombie pid := by
  rintro ⟨child, hchild, _⟩
  rw [hchildren, update_apply] at hchild
  split at hchild
  case isTrue => exact absurd hchild nofun
  case isFalse hpid => exact absurd ((hothers pid hpid).symm.trans hchild) nofun

/-- SIGINT is passed on to the only child, which then ends with status 2: the runner
returns 0. -/
theorem failure_not_reported :
    ∃ actions state, Run (Step 1) (start ∅) actions state ∧ state.place = .returned ∧
      firstFailure actions = some 2 ∧ state.exitCode = 0 := by
  have hchild : oneInterrupted.children 100 =
      some ((Child.forked 0 (∅ ∪ watched)).kill sigint) := rfl
  have hended := run_ended 1 rfl hchild rfl (by decide) (.exited 2)
  have hrun := (run_oneStarted.append run_oneInterrupted).append hended
  have hreaped := hrun.snoc (.reap rfl (update_self 100 _ _) rfl)
  have hreturned := hreaped.append (run_returned rfl (no_zombie_of_update ?_ rfl) rfl)
  · exact ⟨_, _, hreturned, rfl, rfl, rfl⟩
  · intro pid hpid
    simp [oneInterrupted, oneStarted, update_of_ne hpid]

/-- The only child ends with status 3, and the runner returns 3. -/
theorem exit_code_example :
    ∃ actions state, Run (Step 1) (start ∅) actions state ∧ state.place = .returned ∧
      state.exitCode = 3 ∧
      ((state.exitCode = 0 ↔ AllSucceeded 1 actions) ∧
        ∀ code, firstFailure actions = some code → state.exitCode = code) := by
  have hchild : oneStarted.children 100 = some (.forked 0 (∅ ∪ watched)) := rfl
  have hended := run_ended 1 rfl hchild rfl (by decide) (.exited 3)
  have hreaped := (run_oneStarted.append hended).snoc (.reap rfl (update_self 100 _ _) rfl)
  have hkilled := (hreaped.snoc (.move (.skip rfl))).snoc (.killed rfl (by decide))
  have hreturned := hkilled.append (run_returned rfl (no_zombie_of_update ?_ rfl) rfl)
  · refine ⟨_, _, hreturned, rfl, rfl, (exit_code_iff hreturned rfl).2 (.inr ?_)⟩
    rintro ⟨before, signal, after, hactions, hsignal, _⟩
    have hmem := hactions ▸ List.mem_append_right before List.mem_cons_self
    obtain rfl : signal = sigchld := by simpa using hmem
    exact absurd hsignal (by decide)
  · intro pid hpid
    simp [oneStarted, update_of_ne hpid]

end Nstl.MultiRunner
