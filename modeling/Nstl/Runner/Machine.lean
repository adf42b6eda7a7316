import Mathlib.Data.Finset.Basic
import Mathlib.Logic.Function.Basic
import Nstl.Core.Transition

/-!
# The process runner on Linux

`multi_runner` blocks four signals, starts its children, and then waits for what a
`signalfd` and the children's pipes have to say.  It passes SIGINT, SIGTERM and SIGQUIT
on to the children, collects those that have ended when there is a SIGCHLD, and sends
SIGTERM to the others when one of them has failed.

The program is a machine with one step for each system call that has an effect here, and
the kernel is part of its state: the pending signals of the runner, and the children with
their masks.  Several signals of one number are one pending signal.  What is read from
the pipes goes to the standard output and has no influence on anything else, so that of
`read_pipe` only the ways out are left.
-/

namespace Nstl.MultiRunner

open Function
open Nstl.Transition

/-! ## Signals and children -/

abbrev Signal := ℕ

def sigint : Signal := 2

def sigquit : Signal := 3

def sigterm : Signal := 15

def sigchld : Signal := 17

/-- What is passed on to the children. -/
def forwarded : Finset Signal := {sigint, sigterm, sigquit}

/-- The mask that is blocked and given to the `signalfd`. -/
def watched : Finset Signal := insert sigchld forwarded

/-- How a child ended. -/
inductive Status where
  | exited (status : UInt8)
  | signaled (signal : Signal)
  deriving DecidableEq, Repr

/-- `WIFEXITED(status) ? WEXITSTATUS(status) : 128 + WTERMSIG(status)` -/
def Status.code : Status → ℕ
  | .exited status => status.toNat
  | .signaled signal => 128 + signal

/-- A child as the kernel knows it, until it is waited for. -/
structure Child where
  /-- The entry of `processes` that it was started for; none if it was adopted. -/
  owner : Option ℕ
  /-- Set when the child has ended. -/
  status : Option Status
  mask : Finset Signal
  /-- Whether the child has called `sigprocmask` or the like. -/
  maskChanged : Bool
  /-- The signals that do not have their default disposition. -/
  handled : Finset Signal
  pending : Finset Signal
  /-- The pending signals that the runner has sent. -/
  sent : Finset Signal

/-- A new child has the mask of its parent, which `execve` does not change, and no
pending signals. -/
def Child.forked (idx : ℕ) (mask : Finset Signal) : Child where
  owner := some idx
  status := none
  mask := mask
  maskChanged := false
  handled := ∅
  pending := ∅
  sent := ∅

def Child.kill (signal : Signal) (child : Child) : Child :=
  { child with pending := insert signal child.pending, sent := insert signal child.sent }

/-- What a child does and what others do to it, its end apart. -/
inductive Child.Step : Child → Child → Prop
  | setMask {child : Child} (mask : Finset Signal) :
      Child.Step child { child with mask := mask, maskChanged := true }
  | handle {child : Child} (signal : Signal) :
      Child.Step child { child with handled := insert signal child.handled }
  | receive {child : Child} (signal : Signal) :
      Child.Step child { child with pending := insert signal child.pending }
  -- without a handler the child ends, see `Step.exit`
  | take {child : Child} {signal : Signal} (hpending : signal ∈ child.pending)
      (hmask : signal ∉ child.mask) (hhandled : signal ∈ child.handled) :
      Child.Step child
        { child with
          pending := child.pending.erase signal
          sent := child.sent.erase signal }

/-! ## The program -/

/-- What `epoll_wait` reports. -/
inductive Event where
  | signals
  | pipe (idx : ℕ)
  deriving DecidableEq, Repr

/-- Why signals are sent: a signal is passed on, or a child has failed. -/
inductive Reason where
  | forward
  | failure
  deriving DecidableEq, Repr

/-- Where the runner is; inside of the loop over the events with those that are left. -/
inductive Place where
  | masking
  | starting (idx : ℕ)
  | registering
  | testing
  | waiting
  | dispatching (events : List Event)
  /-- At the `read` of `read_signal`. -/
  | reading (events : List Event)
  /-- In one of its loops over the processes. -/
  | killing (reason : Reason) (signal : Signal) (idx : ℕ) (events : List Event)
  /-- At its `waitpid`. -/
  | reaping (events : List Event)
  /-- In `read_pipe`. -/
  | piping (idx : ℕ) (events : List Event)
  /-- In `read_pipe` after the loop. -/
  | flushing (idx : ℕ)
  | returned
  | thrown
  /-- Ended by a signal. -/
  | terminated
  deriving DecidableEq, Repr

/-- The places with a system call whose failure is an exception. -/
def Place.mayThrow : Place → Bool
  | .masking | .starting _ | .registering | .waiting | .piping .. | .flushing _ => true
  | .testing | .dispatching _ | .reading _ | .killing .. | .reaping _ | .returned | .thrown
  | .terminated => false

def Place.over : Place → Bool
  | .returned | .thrown | .terminated => true
  | .masking | .starting _ | .registering | .testing | .waiting | .dispatching _ | .reading _
  | .killing .. | .reaping _ | .piping .. | .flushing _ => false

/-- Where a loop over the processes goes on when it is through. -/
def Reason.next : Reason → List Event → Place
  | .forward, events => .reading events
  | .failure, events => .reaping events

structure State where
  place : Place
  /-- The pid of every entry of `processes`. -/
  pids : List ℕ
  raised : Bool
  exitCode : ℕ
  mask : Finset Signal
  pending : Finset Signal
  /-- The children by their pid. -/
  children : ℕ → Option Child

/-- The runner is started with any mask, and without children. -/
def start (mask : Finset Signal) : State where
  place := .masking
  pids := []
  raised := false
  exitCode := 0
  mask := mask
  pending := ∅
  children _ := none

/-- There is something to read from the `signalfd`. -/
def State.Readable (state : State) : Prop := ∃ signal ∈ watched, signal ∈ state.pending

/-- Whether a child can be waited for. -/
def State.Zombie (state : State) (pid : ℕ) : Prop :=
  ∃ child, state.children pid = some child ∧ child.status.isSome

/-- Steps that only change the place. -/
inductive Move (state : State) : Place → Place → Prop
  | started {idx : ℕ} (hidx : state.pids.length ≤ idx) : Move state (.starting idx) .registering
  | registered : Move state .registering .testing
  | loop (hvalid : ∃ pid ∈ state.pids, 0 < pid) : Move state .testing .waiting
  | ends (hnone : ∀ pid ∈ state.pids, pid = 0) : Move state .testing (.flushing 0)
  | epollWait {events : List Event} (hne : events ≠ []) (hsize : events.length ≤ 16)
      (hsignals : .signals ∈ events → state.Readable) :
      Move state .waiting (.dispatching events)
  | epollInterrupted : Move state .waiting .testing
  | signals {events : List Event} : Move state (.dispatching (.signals :: events)) (.reading events)
  | pipe {idx : ℕ} {events : List Event} :
      Move state (.dispatching (.pipe idx :: events)) (.piping idx events)
  -- the read end was closed by an earlier event
  | closedPipe {idx : ℕ} {events : List Event} :
      Move state (.dispatching (.pipe idx :: events)) (.dispatching events)
  | dispatched : Move state (.dispatching []) .testing
  -- `read` fails or returns something else than a whole record
  | readStops {events : List Event} : Move state (.reading events) (.dispatching events)
  | skip {reason : Reason} {signal : Signal} {idx : ℕ} {events : List Event}
      (hpid : state.pids[idx]? = some 0) :
      Move state (.killing reason signal idx events) (.killing reason signal (idx + 1) events)
  -- `waitpid` returns 0, or fails with `ECHILD`
  | noneWaitable {events : List Event} (hnone : ∀ pid, ¬state.Zombie pid) :
      Move state (.reaping events) (.reading events)
  | waitInterrupted {events : List Event} : Move state (.reaping events) (.reaping events)
  | pipeRead {idx : ℕ} {events : List Event} :
      Move state (.piping idx events) (.piping idx events)
  | pipeReturns {idx : ℕ} {events : List Event} :
      Move state (.piping idx events) (.dispatching events)
  | flush {idx : ℕ} (hidx : idx < state.pids.length) :
      Move state (.flushing idx) (.flushing (idx + 1))
  | returns {idx : ℕ} (hidx : state.pids.length ≤ idx) : Move state (.flushing idx) .returned
  | throws {place : Place} (hplace : place.mayThrow = true) : Move state place .thrown
  | terminate {place : Place} (hplace : place.over = false) : Move state place .terminated

/-- What follows a `waitpid` that returns a child. -/
def State.reaped (pid : ℕ) (status : Status) (events : List Event) (state : State) : State :=
  let state := { state with children := update state.children pid none }
  match state.pids.idxOf? pid with
  | none => state
  | some idx =>
      let state := { state with pids := state.pids.set idx 0 }
      if status.code ≠ 0 && !state.raised then
        { state with
          exitCode := status.code
          place := .killing .failure sigterm 0 events }
      else state

/-- The three ways on: a child without an entry is forgotten, the first failure decides on
the exit code and lets the others be ended, and everything else only clears the entry. -/
inductive Reaped (state : State) (pid : ℕ) (status : Status) (events : List Event) :
    State → Prop
  | foreign (hentry : state.pids.idxOf? pid = none) :
      Reaped state pid status events
        { state with children := update state.children pid none }
  | failure {idx : ℕ} (hentry : state.pids.idxOf? pid = some idx) (hcode : status.code ≠ 0)
      (hraised : state.raised = false) :
      Reaped state pid status events
        { state with
          children := update state.children pid none
          pids := state.pids.set idx 0
          exitCode := status.code
          place := .killing .failure sigterm 0 events }
  | cleared {idx : ℕ} (hentry : state.pids.idxOf? pid = some idx)
      (hcode : status.code = 0 ∨ state.raised = true) :
      Reaped state pid status events
        { state with
          children := update state.children pid none
          pids := state.pids.set idx 0 }

theorem reaped_spec (pid : ℕ) (status : Status) (events : List Event) (state : State) :
    Reaped state pid status events (state.reaped pid status events) := by
  rw [State.reaped]
  dsimp only
  split
  case h_1 hentry => exact .foreign hentry
  case h_2 idx hentry =>
    split
    case isTrue hfailure =>
      simp only [Bool.and_eq_true, decide_eq_true_eq, Bool.not_eq_true'] at hfailure
      exact .failure hentry hfailure.1 hfailure.2
    case isFalse hfailure =>
      refine .cleared hentry ?_
      by_contra hneither
      rw [not_or, Bool.not_eq_true] at hneither
      simp [hneither.1, hneither.2] at hfailure

namespace Reaped

variable {state next : State} {pid : ℕ} {status : Status} {events : List Event}

theorem frame (hreaped : Reaped state pid status events next) :
    next.children = update state.children pid none ∧ next.mask = state.mask ∧
      next.pids.length = state.pids.length := by
  cases hreaped with
  | foreign => exact ⟨rfl, rfl, rfl⟩
  | failure | cleared => exact ⟨rfl, rfl, List.length_set⟩

theorem place (hreaped : Reaped state pid status events next) :
    next.place = state.place ∨ next.place = .killing .failure sigterm 0 events := by
  cases hreaped with
  | foreign | cleared => exact .inl rfl
  | failure => exact .inr rfl

end Reaped

inductive Action where
  | setUp
  | fork (idx pid : ℕ)
  | goTo (place : Place)
  | read (signal : Signal)
  | kill (pid : ℕ) (signal : Signal)
  | killed
  | reap (owner : Option ℕ) (status : Status)
  | arrive (signal : Signal)
  | exit (owner : Option ℕ) (status : Status)
  | child (pid : ℕ)
  | adopt (pid : ℕ)
  deriving DecidableEq, Repr

/-- Where `read_signal` goes on after a record. -/
def afterRead (signal : Signal) (events : List Event) : Place :=
  if signal = sigchld then .reaping events else .killing .forward signal 0 events

/-- The steps of the runner, of its children and of the others, for a number of processes
to be started. -/
inductive Step (threads : ℕ) : State → Action → State → Prop
  | setUp {state : State} (hplace : state.place = .masking) (hthreads : 0 < threads) :
      Step threads state .setUp
        { state with
          mask := state.mask ∪ watched
          pids := List.replicate threads 0
          place := .starting 0 }
  | fork {state : State} {idx pid : ℕ} (hplace : state.place = .starting idx)
      (hidx : idx < state.pids.length) (hpid : 0 < pid) (hfree : state.children pid = none) :
      Step threads state (.fork idx pid)
        { state with
          pids := state.pids.set idx pid
          children := update state.children pid (some (.forked idx state.mask))
          place := .starting (idx + 1) }
  | move {state : State} {place : Place} (hmove : Move state state.place place) :
      Step threads state (.goTo place) { state with place := place }
  | read {state : State} {signal : Signal} {events : List Event}
      (hplace : state.place = .reading events) (hwatched : signal ∈ watched)
      (hpending : signal ∈ state.pending) :
      Step threads state (.read signal)
        { state with
          pending := state.pending.erase signal
          place := afterRead signal events }
  | kill {state : State} {reason : Reason} {signal : Signal} {idx pid : ℕ} {events : List Event}
      (hplace : state.place = .killing reason signal idx events)
      (hentry : state.pids[idx]? = some pid) (hpid : 0 < pid) :
      Step threads state (.kill pid signal)
        { state with
          children := update state.children pid ((state.children pid).map (Child.kill signal))
          place := .killing reason signal (idx + 1) events }
  | killed {state : State} {reason : Reason} {signal : Signal} {idx : ℕ} {events : List Event}
      (hplace : state.place = .killing reason signal idx events)
      (hidx : state.pids.length ≤ idx) :
      Step threads state .killed { state with raised := true, place := reason.next events }
  | reap {state : State} {pid : ℕ} {child : Child} {status : Status} {events : List Event}
      (hplace : state.place = .reaping events) (hchild : state.children pid = some child)
      (hstatus : child.status = some status) :
      Step threads state (.reap child.owner status) (state.reaped pid status events)
  -- a signal that is not blocked is SIGCHLD, which is ignored, or ends the runner
  | arrive {state : State} {signal : Signal} (hmask : signal ∈ state.mask) :
      Step threads state (.arrive signal)
        { state with pending := insert signal state.pending }
  | exit {state : State} {pid : ℕ} {child : Child} (status : Status)
      (hchild : state.children pid = some child) (hstatus : child.status = none) :
      Step threads state (.exit child.owner status)
        { state with
          children := update state.children pid (some { child with status := some status })
          pending :=
            if sigchld ∈ state.mask then insert sigchld state.pending else state.pending }
  | child {state : State} {pid : ℕ} {child child' : Child}
      (hchild : state.children pid = some child) (hstep : child.Step child') :
      Step threads state (.child pid)
        { state with children := update state.children pid (some child') }
  -- an orphan of a descendant becomes a child
  | adopt {state : State} {pid : ℕ} {child : Child} (hplace : state.place ≠ .masking)
      (hpid : 0 < pid) (hfree : state.children pid = none) (howner : child.owner = none)
      (hstatus : child.status = none) (hsent : child.sent = ∅) :
      Step threads state (.adopt pid)
        { state with children := update state.children pid (some child) }

/-- One child was started, and the runner is about to wait. -/
def oneStarted : State where
  place := .waiting
  pids := [100]
  raised := false
  exitCode := 0
  mask := ∅ ∪ watched
  pending := ∅
  children := update (fun _ => none) 100 (some (.forked 0 (∅ ∪ watched)))

theorem run_oneStarted :
    Run (Step 1) (start ∅)
      [.setUp, .fork 0 100, .goTo .registering, .goTo .testing, .goTo .waiting] oneStarted :=
  .snoc (.snoc (.snoc (.snoc (.snoc .nil (.setUp (by rfl) (by decide)))
    (.fork (by rfl) (by decide) (by decide) (by rfl))) (.move (.started (by decide))))
    (.move .registered)) (.move (.loop ⟨100, by decide, by decide⟩))

/-- A child ends while the runner waits, which then reads the SIGCHLD. -/
theorem run_ended (threads : ℕ) {pid : ℕ} {state : State} {child : Child}
    (hplace : state.place = .waiting) (hchild : state.children pid = some child)
    (hrunning : child.status = none) (hmask : sigchld ∈ state.mask) (status : Status) :
    Run (Step threads) state
      [.exit child.owner status, .goTo (.dispatching [.signals]), .goTo (.reading []),
        .read sigchld]
      { state with
        children := update state.children pid (some { child with status := some status })
        pending := (insert sigchld state.pending).erase sigchld
        place := .reaping [] } := by
  have hexit : Step threads state (.exit child.owner status) _ := .exit status hchild hrunning
  rw [if_pos hmask] at hexit
  have hpending : sigchld ∈ insert sigchld state.pending := Finset.mem_insert_self _ _
  have hwoken : Move { state with
      children := update state.children pid (some { child with status := some status })
      pending := insert sigchld state.pending } state.place (.dispatching [.signals]) := by
    rw [hplace]
    exact .epollWait nofun (by decide) fun _ => ⟨sigchld, by decide, hpending⟩
  have hreading := ((Run.nil.snoc hexit).snoc (.move hwoken)).snoc (.move .signals)
  exact hreading.snoc (.read rfl (by decide) hpending)

end Nstl.MultiRunner
