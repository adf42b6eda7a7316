import Mathlib.Data.Int.Init
import Mathlib.Logic.Function.Basic
import Nstl.Core.Mutex
import Nstl.Core.Transition

/-!
# The dead lock checker

`DeadLockChecker` watches executors, each of which says by `bump` that its thread still
runs.  `runner` waits, checks all of them, calls the alerter with the mutex released, and
does so as long as `_running` is set, which it sets itself when it is entered; `stop`
clears it.

One thread is in `runner`, one calls `stop`, as often as it likes, and others add and
drop executors and call `check`.  What is done under the mutex without releasing it is
one step.
-/

namespace Nstl.DeadLock

open Function
open Nstl.Mutex
open Nstl.Transition

inductive ConstructError where
  /-- `timeout must be greater than zero` -/
  | timeout
  /-- `alerter function is empty` -/
  | alerter
  deriving DecidableEq, Repr

/-- What the constructor leaves to be known of a checker, in nanoseconds. -/
structure Checker where
  timeout : ℤ
  timeout_pos : 0 < timeout

def construct (timeout : ℤ) (alerter : Bool) : Except ConstructError Checker :=
  if htimeout : timeout ≤ 0 then .error .timeout
  else if !alerter then .error .alerter
  else .ok ⟨timeout, Int.not_le.1 htimeout⟩

/-! ## One check -/

/-- What `_check` returns, the lines that it logs, and what it leaves in `_items`. -/
structure Scan where
  retval : Bool
  errors : ℕ
  items : List ℕ
  deriving DecidableEq, Repr

/-- The time of the last bump of the executors that still exist. -/
abbrev Executors := ℕ → Option ℤ

/-- `_check`, at one moment. -/
def scan (timeout now : ℤ) (executors : Executors) : List ℕ → Scan
  | [] => ⟨false, 0, []⟩
  | id :: items =>
      let rest := scan timeout now executors items
      match executors id with
      | some tp =>
          if timeout < now - tp then ⟨true, rest.errors + 1, id :: rest.items⟩
          else { rest with items := id :: rest.items }
      | none => rest

/-- The executor exists, and its last bump is too long ago. -/
def overdue (timeout now : ℤ) (executors : Executors) (id : ℕ) : Bool :=
  (executors id).any fun tp => timeout < now - tp

/-- The check finds the executors that are overdue, says so once for each, and forgets
those that are gone. -/
theorem scan_eq (timeout now : ℤ) (executors : Executors) (items : List ℕ) :
    scan timeout now executors items =
      ⟨items.any (overdue timeout now executors), items.countP (overdue timeout now executors),
        items.filter fun id => (executors id).isSome⟩ := by
  induction items with
  | nil => rfl
  | cons id items ih =>
      rw [scan, ih]
      cases hid : executors id with
      | none => simp [overdue, hid]
      | some tp =>
          by_cases hlate : timeout < now - tp
          · simp [overdue, hid, hlate]
          · simp [overdue, hid, hlate]

/-! ## The threads -/

inductive Thread where
  | runner
  | stopper
  deriving DecidableEq, Repr

/-- Where `runner` is. -/
inductive Place where
  | outside
  /-- At the test of the loop. -/
  | testing
  | waiting (deadline : ℤ) (notified : Bool)
  /-- Back from the wait. -/
  | checking
  /-- The check returned true. -/
  | alarmed
  /-- The mutex is released, and the alerter is called next. -/
  | unlocked
  | alerting
  /-- In the destructor of the `unlock_guard`; the alerter may have thrown. -/
  | relocking (thrown : Bool)
  | returned
  deriving DecidableEq, Repr

def Place.holds : Place → Bool
  | .testing | .checking | .alarmed => true
  | .outside | .waiting .. | .unlocked | .alerting | .relocking _ | .returned => false

/-- `notify_all`. -/
def Place.notify : Place → Place
  | .waiting deadline _ => .waiting deadline true
  | place => place

/-- Where `stop` is. -/
inductive StopPlace where
  | outside
  | locking
  /-- The flag is cleared; its old value. -/
  | swapped (running : Bool)
  | returning
  deriving DecidableEq, Repr

def StopPlace.holds : StopPlace → Bool
  | .swapped _ | .returning => true
  | .outside | .locking => false

structure State where
  executors : Executors
  created : ℕ
  now : ℤ
  items : List ℕ
  errors : ℕ
  running : Bool
  holder : Option Thread
  runner : Place
  stopper : StopPlace
  /-- Calls of `check` that are about to call the alerter. -/
  checks : ℕ

/-- A new checker. -/
def start (now : ℤ) : State where
  executors _ := none
  created := 0
  now := now
  items := []
  errors := 0
  running := false
  holder := none
  runner := .outside
  stopper := .outside
  checks := 0

/-- What ends a wait. -/
inductive Reason where
  | timeout
  | notification
  | spurious
  deriving DecidableEq, Repr

def Reason.Ends (now deadline : ℤ) (notified : Bool) : Reason → Prop
  | .timeout => deadline ≤ now
  | .notification => notified = true
  | .spurious => True

inductive Action where
  | enter
  | wait
  | leave
  | wake (reason : Reason)
  | check
  | unlock
  | alert
  | alerted (thrown : Bool)
  | relock
  | escape
  | stopCall
  | stopSwap
  | stopNotify
  | stopReturn
  | addCheckedThread
  | otherCheck
  | otherAlert
  | bump (id : ℕ)
  | expire (id : ℕ)
  | tick (elapsed : ℕ)
  deriving DecidableEq, Repr

/-- The state after a `_check`, the caller apart. -/
def State.scanned (timeout : ℤ) (state : State) : State :=
  let result := scan timeout state.now state.executors state.items
  { state with items := result.items, errors := state.errors + result.errors }

def State.overdue (timeout : ℤ) (state : State) : Bool :=
  (scan timeout state.now state.executors state.items).retval

inductive Step (checker : Checker) (period : ℤ) : State → Action → State → Prop
  -- runner
  | enter {state : State} (hplace : state.runner = .outside) (hfree : state.holder = none) :
      Step checker period state .enter
        { state with holder := some .runner, running := true, runner := .testing }
  | wait {state : State} (hplace : state.runner = .testing) (hrunning : state.running = true) :
      Step checker period state .wait
        { state with holder := none, runner := .waiting (state.now + period) false }
  | leave {state : State} (hplace : state.runner = .testing)
      (hrunning : state.running = false) :
      Step checker period state .leave { state with holder := none, runner := .returned }
  | wake {state : State} {deadline : ℤ} {notified : Bool} (reason : Reason)
      (hplace : state.runner = .waiting deadline notified) (hfree : state.holder = none)
      (hreason : reason.Ends state.now deadline notified) :
      Step checker period state (.wake reason)
        { state with holder := some .runner, runner := .checking }
  | check {state : State} (hplace : state.runner = .checking) :
      Step checker period state .check
        { state.scanned checker.timeout with
          runner := if state.overdue checker.timeout then .alarmed else .testing }
  | unlock {state : State} (hplace : state.runner = .alarmed) :
      Step checker period state .unlock { state with holder := none, runner := .unlocked }
  | alert {state : State} (hplace : state.runner = .unlocked) :
      Step checker period state .alert { state with runner := .alerting }
  | alerted {state : State} (thrown : Bool) (hplace : state.runner = .alerting) :
      Step checker period state (.alerted thrown) { state with runner := .relocking thrown }
  | relock {state : State} (hplace : state.runner = .relocking false)
      (hfree : state.holder = none) :
      Step checker period state .relock
        { state with holder := some .runner, runner := .testing }
  -- the exception leaves `runner`, whose `unique_lock` releases the mutex again
  | escape {state : State} (hplace : state.runner = .relocking true)
      (hfree : state.holder = none) :
      Step checker period state .escape { state with runner := .returned }
  -- stop
  | stopCall {state : State} (hplace : state.stopper = .outside) :
      Step checker period state .stopCall { state with stopper := .locking }
  | stopSwap {state : State} (hplace : state.stopper = .locking) (hfree : state.holder = none) :
      Step checker period state .stopSwap
        { state with
          holder := some .stopper
          running := false
          stopper := .swapped state.running }
  | stopNotify {state : State} {running : Bool} (hplace : state.stopper = .swapped running) :
      Step checker period state .stopNotify
        { state with
          runner := if running then state.runner.notify else state.runner
          stopper := .returning }
  | stopReturn {state : State} (hplace : state.stopper = .returning) :
      Step checker period state .stopReturn { state with holder := none, stopper := .outside }
  -- other threads
  | addCheckedThread {state : State} (hfree : state.holder = none) :
      Step checker period state .addCheckedThread
        { state with
          executors := update state.executors state.created (some state.now)
          created := state.created + 1
          items := state.items ++ [state.created] }
  | otherCheck {state : State} (hfree : state.holder = none) :
      Step checker period state .otherCheck
        { state.scanned checker.timeout with
          checks := state.checks + if state.overdue checker.timeout then 1 else 0 }
  | otherAlert {state : State} (hchecks : 0 < state.checks) :
      Step checker period state .otherAlert { state with checks := state.checks - 1 }
  | bump {state : State} {id : ℕ} (hid : (state.executors id).isSome) :
      Step checker period state (.bump id)
        { state with executors := update state.executors id (some state.now) }
  | expire {state : State} (id : ℕ) :
      Step checker period state (.expire id)
        { state with executors := update state.executors id none }
  | tick {state : State} (elapsed : ℕ) :
      Step checker period state (.tick elapsed) { state with now := state.now + elapsed }

/-! ## The mutex -/

def Inside (state : State) : Thread → Prop
  | .runner => state.runner.holds = true
  | .stopper => state.stopper.holds = true

/-- The mutex is held by the thread that is inside; and once `stop` has swapped the flag,
nobody sets it as long as `stop` is inside. -/
structure Locked (state : State) : Prop where
  guarded : Guarded state.holder (Inside state)
  cleared : state.stopper.holds = true → state.running = false

theorem locked_start (now : ℤ) : Locked (start now) where
  guarded thread := by
    cases thread
    · exact iff_of_false nofun nofun
    · exact iff_of_false nofun nofun
  cleared := nofun

section Step

variable {checker : Checker} {period : ℤ} {state next : State} {action : Action}

/-- A step that touches neither the mutex nor the flag. -/
theorem Locked.same (hlocked : Locked state) (hholder : next.holder = state.holder)
    (hrunner : next.runner.holds = state.runner.holds)
    (hstopper : next.stopper.holds = state.stopper.holds)
    (hrunning : next.running = state.running) : Locked next where
  guarded thread := by
    rw [hholder, ← hlocked.guarded thread]
    cases thread with
    | runner => rw [Inside, Inside, hrunner]
    | stopper => rw [Inside, Inside, hstopper]
  cleared := by
    rw [hstopper, hrunning]
    exact hlocked.cleared

theorem inside_of_runner (hstopper : next.stopper = state.stopper) (other : Thread)
    (hother : other ≠ .runner) : Inside next other ↔ Inside state other := by
  cases other with
  | runner => exact absurd rfl hother
  | stopper => rw [Inside, Inside, hstopper]

theorem inside_of_stopper (hrunner : next.runner = state.runner) (other : Thread)
    (hother : other ≠ .stopper) : Inside next other ↔ Inside state other := by
  cases other with
  | runner => rw [Inside, Inside, hrunner]
  | stopper => exact absurd rfl hother

/-- The runner takes the mutex while `stop` is not inside. -/
theorem Locked.runner_acquires (hlocked : Locked state) (hfree : state.holder = none)
    (hholder : next.holder = some .runner) (hinside : next.runner.holds = true)
    (hstopper : next.stopper = state.stopper) : Locked next := by
  have hguarded : Guarded none (Inside state) := hfree ▸ hlocked.guarded
  refine ⟨hholder ▸ hguarded.acquire hinside (inside_of_runner hstopper), ?_⟩
  rw [hstopper]
  exact fun hholds => absurd hholds (hguarded.not_inside .stopper)

theorem Locked.runner_releases (hlocked : Locked state) (hbefore : state.runner.holds = true)
    (hholder : next.holder = none) (houtside : next.runner.holds = false)
    (hstopper : next.stopper = state.stopper) (hrunning : next.running = state.running) :
    Locked next := by
  have hholds : state.holder = some .runner := (hlocked.guarded .runner).1 hbefore
  have hguarded : Guarded (some .runner) (Inside state) := hholds ▸ hlocked.guarded
  have hnot : ¬Inside next .runner := by rw [Inside, houtside]; exact nofun
  refine ⟨hholder ▸ hguarded.release hnot (inside_of_runner hstopper), ?_⟩
  rw [hstopper, hrunning]
  exact hlocked.cleared

theorem notify_holds (place : Place) : place.notify.holds = place.holds := by
  cases place <;> rfl

theorem locked_step (hstep : Step checker period state action next) (hlocked : Locked state) :
    Locked next := by
  cases hstep with
  | enter _ hfree | wake _ _ hfree | relock _ hfree =>
      exact hlocked.runner_acquires hfree rfl rfl rfl
  | wait hplace | leave hplace | unlock hplace =>
      exact hlocked.runner_releases (by rw [hplace]; rfl) rfl rfl rfl rfl
  | check hplace =>
      refine hlocked.same rfl ?_ rfl rfl
      rw [hplace]
      dsimp only
      split <;> rfl
  | alert hplace | alerted _ hplace | escape hplace =>
      exact hlocked.same rfl (by rw [hplace]; rfl) rfl rfl
  | stopCall hplace => exact hlocked.same rfl rfl (by rw [hplace]; rfl) rfl
  | stopSwap hplace hfree =>
      have hguarded : Guarded none (Inside state) := hfree ▸ hlocked.guarded
      exact ⟨hguarded.acquire rfl (inside_of_stopper rfl), fun _ => rfl⟩
  | stopNotify hplace =>
      refine hlocked.same rfl ?_ (by rw [hplace]; rfl) rfl
      dsimp only
      split
      · exact notify_holds state.runner
      · rfl
  | stopReturn hplace =>
      have hinside : Inside state .stopper := by rw [Inside, hplace]; rfl
      have hguarded : Guarded (some .stopper) (Inside state) :=
        (hlocked.guarded .stopper).1 hinside ▸ hlocked.guarded
      exact ⟨hguarded.release nofun (inside_of_stopper rfl), nofun⟩
  | addCheckedThread | otherCheck | otherAlert | bump | expire | tick =>
      exact hlocked.same rfl rfl rfl rfl

theorem locked_of_run {now : ℤ} {actions : List Action}
    (hrun : Run (Step checker period) (start now) actions state) : Locked state :=
  hrun.invariant Locked (locked_start now) fun _ _ _ hlocked hstep => locked_step hstep hlocked

end Step

end Nstl.DeadLock
