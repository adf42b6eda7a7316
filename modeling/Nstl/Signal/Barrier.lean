import Mathlib.Data.Finset.Basic
import Mathlib.Data.Finset.SDiff
import Mathlib.Logic.Function.Basic
import Nstl.Core.Transition

/-!
# Waiting for a signal on Linux

`global_init` blocks SIGINT, SIGTERM and SIGQUIT, once in the life of the process, and opens
a `signalfd` for them.  A `SignalBarrier` waits for this descriptor, and `wait_for` for a
timer as well, with an `epoll` instance that is made for each call.  What a call has opened
and registered is undone by the guards that `on_scope_exit` has put on the stack, in the
opposite order, whichever way the call ends; a guard that throws ends the process.

Any number of threads wait at the same time.  The kernel is part of the state: the pending
signals, and the table of descriptors, whose numbers are used again.  Signals are sent to
the process, so that every thread can read them; those that are sent to one thread are not
modelled.  Threads are started after `global_init` and have its mask.
-/

namespace Nstl.SignalBarrier

open Function
open Nstl.Transition

/-! ## Signals -/

abbrev Signal := ℕ

def sigint : Signal := 2

def sigquit : Signal := 3

def sigterm : Signal := 15

/-- The mask of `openSignalFile`. -/
def watched : Finset Signal := {sigint, sigterm, sigquit}

inductive SigVal where
  | unknown
  | sigInt
  | sigTerm
  | sigQuit
  | sigLogoff
  | sigShutdown
  deriving DecidableEq, Repr

/-- Throws for every other number. -/
def fromSignalConv (value : Signal) : Option SigVal :=
  if value = sigint then some .sigInt
  else if value = sigterm then some .sigTerm
  else if value = sigquit then some .sigQuit
  else none

def toSignalConv : SigVal → ℤ
  | .unknown => -1
  | .sigInt => 2
  | .sigTerm => 15
  | .sigQuit => 3
  | .sigLogoff => 12
  | .sigShutdown => 13

theorem fromSignalConv_isSome_iff {value : Signal} :
    (fromSignalConv value).isSome ↔ value ∈ watched := by
  simp only [fromSignalConv, watched, Finset.mem_insert, Finset.mem_singleton]
  grind

/-- The number can be read off what is returned. -/
theorem toSignalConv_of_fromSignalConv {value : Signal} {result : SigVal}
    (hresult : fromSignalConv value = some result) : toSignalConv result = value := by
  rw [fromSignalConv] at hresult
  split_ifs at hresult with hint hterm hquit
  · rw [← Option.some.inj hresult, hint]
    rfl
  · rw [← Option.some.inj hresult, hterm]
    rfl
  · rw [← Option.some.inj hresult, hquit]
    rfl

/-! ## Descriptors -/

abbrev Fd := ℕ

inductive File where
  | signals
  | timer (armed : Bool) (expirations : ℕ)
  | epoll (watched : Finset Fd)
  /-- Whatever else the process has opened. -/
  | other
  deriving DecidableEq

/-- Whether it belongs to a single call. -/
def File.temporary : File → Bool
  | .timer .. | .epoll _ => true
  | .signals | .other => false

/-- A descriptor that is closed is no longer watched. -/
def File.forget (gone : Finset Fd) : File → File
  | .epoll watched => .epoll (watched \ gone)
  | file => file

abbrev Files := Fd → Option File

def Files.close (files : Files) (fd : Fd) : Files :=
  update (fun other => (files other).map (File.forget {fd})) fd none

/-- `it_value` and `it_interval`. -/
structure TimerSpec where
  seconds : ℤ
  nanos : ℤ
  deriving DecidableEq

def TimerSpec.valid (spec : TimerSpec) : Bool :=
  decide (0 ≤ spec.seconds ∧ 0 ≤ spec.nanos ∧ spec.nanos < 1000000000)

/-- A value of zero disarms the timer. -/
def TimerSpec.arms (spec : TimerSpec) : Bool := spec.seconds != 0 || spec.nanos != 0

/-- The timeout, in nanoseconds, as `create_timer_file` passes it to `timerfd_settime`. -/
def timerSpec (timeout : ℤ) : TimerSpec :=
  let seconds := timeout / 1000000000
  { seconds := seconds, nanos := timeout - seconds * 1000000000 }

section TimerSpec

variable {timeout : ℤ}

theorem timerSpec_valid (hpos : 0 < timeout) : (timerSpec timeout).valid = true := by
  rw [TimerSpec.valid, decide_eq_true_eq]
  dsimp only [timerSpec]
  omega

theorem timerSpec_arms (hpos : 0 < timeout) : (timerSpec timeout).arms = true := by
  simp only [timerSpec, TimerSpec.arms, Bool.or_eq_true, bne_iff_ne]
  omega

end TimerSpec

/-! ## Calls -/

/-- What `on_scope_exit` was given: `close`, or `epoll_remove`. -/
inductive Guard where
  | close (fd : Fd)
  | remove (epfd fd : Fd)
  deriving DecidableEq

/-- Where `wait` or `wait_for` is; without a timer it is `wait`. -/
inductive Point where
  | timerCreate (timeout : ℤ)
  | timerSet (timeout : ℤ) (tfd : Fd)
  | epollCreate (tfd : Option Fd)
  | addSignals (tfd : Option Fd) (epfd : Fd)
  | addTimer (tfd epfd : Fd)
  | waiting (tfd : Option Fd) (epfd : Fd)
  /-- In the loop over the events, with those that are left. -/
  | dispatching (tfd : Option Fd) (epfd : Fd) (events : List Fd)
  /-- At the `read` of `read_signal`. -/
  | readingSignals (tfd : Option Fd) (epfd : Fd) (events : List Fd)
  /-- At the `read` of `read_timer`. -/
  | readingTimer (tfd epfd : Fd) (events : List Fd)

def closeTimer (tfd : Option Fd) : List Guard := tfd.toList.map .close

/-- The guards inside of the loop. -/
def loopGuards (sfd : Fd) (tfd : Option Fd) (epfd : Fd) : List Guard :=
  tfd.toList.map (.remove epfd) ++ .remove epfd sfd :: .close epfd :: closeTimer tfd

/-- The guards that are alive at a point, the last one first. -/
def Point.guards (sfd : Fd) : Point → List Guard
  | .timerCreate _ | .timerSet .. => []
  | .epollCreate tfd => closeTimer tfd
  | .addSignals tfd epfd => .close epfd :: closeTimer tfd
  | .addTimer tfd epfd => .remove epfd sfd :: .close epfd :: closeTimer (some tfd)
  | .waiting tfd epfd | .dispatching tfd epfd _ | .readingSignals tfd epfd _ =>
      loopGuards sfd tfd epfd
  | .readingTimer tfd epfd _ => loopGuards sfd (some tfd) epfd

inductive Outcome where
  | signal (value : SigVal)
  | timeout
  | thrown
  deriving DecidableEq

/-- Where a thread is. -/
inductive Place where
  | idle
  /-- In the constructor of `global_init`, at `openSignalFile`. -/
  | initialising (signalInit curlInit : Bool)
  | storing (sfd : Option Fd) (curlInit : Bool)
  | startingCurl (curlInit : Bool)
  /-- In its destructor. -/
  | closing (sfd : Option Fd)
  | calling (sfd : Fd) (point : Point)
  | unwinding (guards : List Guard) (outcome : Outcome)

structure Shared where
  files : Files
  mask : Finset Signal
  pending : Finset Signal
  /-- `init_done` -/
  initDone : Bool
  /-- `sfd_global`, with none for `invalid_file_handle`. -/
  sfdGlobal : Option Fd
  /-- Whether there is an object of `global_init`. -/
  alive : Bool
  /-- The `_sfd` of every `SignalBarrier`. -/
  barriers : ℕ → Option Fd

/-- There is a signal to be read from the `signalfd`. -/
def Shared.Readable (shared : Shared) : Prop := ∃ signal ∈ watched, signal ∈ shared.pending

/-- What `epoll_wait` may report, as nothing was asked for but `EPOLLIN`. -/
def Shared.Ready (shared : Shared) (fd : Fd) : Prop :=
  match shared.files fd with
  | some .signals => shared.Readable
  | some (.timer _ expirations) => 0 < expirations
  | some (.epoll _) | some .other => True
  | none => False

/-- Steps that only change the point. -/
inductive Move (shared : Shared) (sfd : Fd) : Point → Point → Prop
  | woken {tfd : Option Fd} {epfd : Fd} {events : List Fd} {members : Finset Fd}
      (hepoll : shared.files epfd = some (.epoll members)) (hne : events ≠ [])
      (hsize : events.length ≤ 16) (hnodup : events.Nodup)
      (hevents : ∀ fd ∈ events, fd ∈ members ∧ shared.Ready fd) :
      Move shared sfd (.waiting tfd epfd) (.dispatching tfd epfd events)
  | interrupted {tfd : Option Fd} {epfd : Fd} :
      Move shared sfd (.waiting tfd epfd) (.waiting tfd epfd)
  | signals {tfd : Option Fd} {epfd : Fd} {events : List Fd} :
      Move shared sfd (.dispatching tfd epfd (sfd :: events)) (.readingSignals tfd epfd events)
  | timer {tfd epfd : Fd} {events : List Fd} (hne : tfd ≠ sfd) :
      Move shared sfd (.dispatching (some tfd) epfd (tfd :: events)) (.readingTimer tfd epfd events)
  | neither {tfd : Option Fd} {epfd fd : Fd} {events : List Fd} (hne : fd ≠ sfd)
      (htimer : tfd ≠ some fd) :
      Move shared sfd (.dispatching tfd epfd (fd :: events)) (.dispatching tfd epfd events)
  | dispatched {tfd : Option Fd} {epfd : Fd} :
      Move shared sfd (.dispatching tfd epfd []) (.waiting tfd epfd)
  -- `EAGAIN`: another thread was faster
  | noSignal {tfd : Option Fd} {epfd : Fd} {events : List Fd}
      (hfile : shared.files sfd = some .signals) (hnone : ¬shared.Readable) :
      Move shared sfd (.readingSignals tfd epfd events) (.dispatching tfd epfd events)
  | readInterrupted {tfd : Option Fd} {epfd : Fd} {events : List Fd} :
      Move shared sfd (.readingSignals tfd epfd events) (.readingSignals tfd epfd events)
  | noExpiration {tfd epfd : Fd} {events : List Fd} {armed : Bool}
      (hfile : shared.files tfd = some (.timer armed 0)) :
      Move shared sfd (.readingTimer tfd epfd events) (.dispatching (some tfd) epfd events)
  | timerInterrupted {tfd epfd : Fd} {events : List Fd} :
      Move shared sfd (.readingTimer tfd epfd events) (.readingTimer tfd epfd events)

/-- Where an exception is thrown if a system call fails, and when it can fail. -/
def Point.MayThrow (shared : Shared) (sfd : Fd) : Point → Prop
  | .timerCreate _ | .epollCreate _ | .addSignals .. | .addTimer .. | .waiting .. => True
  | .timerSet timeout _ => (timerSpec timeout).valid = false
  | .dispatching .. => False
  | .readingSignals .. => shared.files sfd ≠ some .signals
  | .readingTimer tfd _ _ => ∀ armed expirations, shared.files tfd ≠ some (.timer armed expirations)

/-- What a guard needs in order not to throw: `close` is not checked. -/
def Guard.Succeeds (files : Files) : Guard → Prop
  | .close _ => True
  | .remove epfd fd => ∃ members, files epfd = some (.epoll members) ∧ fd ∈ members

def Guard.run (files : Files) : Guard → Files
  | .close fd => files.close fd
  | .remove epfd fd =>
      match files epfd with
      | some (.epoll members) => update files epfd (some (.epoll (members.erase fd)))
      | _ => files

/-- What others see of the steps of a thread. -/
inductive Action where
  | internal
  | init
  | destroy
  | read (signal : Signal)
  | returned (outcome : Outcome)
  | terminate
  deriving DecidableEq

def Shared.setFile (shared : Shared) (fd : Fd) (file : File) : Shared :=
  { shared with files := update shared.files fd (some file) }

/-- The steps of one thread. -/
inductive Local (shared : Shared) : Place → Action → Shared → Place → Prop
  -- `global_init did run once`
  | initRefused (hdone : shared.initDone = true) : Local shared .idle .internal shared .idle
  | init (hdone : shared.initDone = false) (signalInit curlInit : Bool) :
      Local shared .idle .init { shared with initDone := true } (.initialising signalInit curlInit)
  | openNothing {curlInit : Bool} :
      Local shared (.initialising false curlInit) .internal shared (.storing none curlInit)
  | opened {sfd : Fd} {curlInit : Bool} (hfree : shared.files sfd = none) :
      Local shared (.initialising true curlInit) .internal
        { shared.setFile sfd .signals with mask := shared.mask ∪ watched }
        (.storing (some sfd) curlInit)
  | openThrows {curlInit : Bool} {mask : Finset Signal}
      (hmask : mask = shared.mask ∨ mask = shared.mask ∪ watched) :
      Local shared (.initialising true curlInit) .internal { shared with mask := mask } .idle
  | store {sfd : Option Fd} {curlInit : Bool} :
      Local shared (.storing sfd curlInit) .internal { shared with sfdGlobal := sfd }
        (.startingCurl curlInit)
  -- there is no object, and its destructor is not called
  | curlThrows : Local shared (.startingCurl true) .internal shared .idle
  | initialised {curlInit : Bool} :
      Local shared (.startingCurl curlInit) .internal { shared with alive := true } .idle
  | destroy (halive : shared.alive = true) :
      Local shared .idle .destroy { shared with alive := false, sfdGlobal := none }
        (.closing shared.sfdGlobal)
  | closeNothing : Local shared (.closing none) .internal shared .idle
  | closed {sfd : Fd} :
      Local shared (.closing (some sfd)) .internal
        { shared with files := shared.files.close sfd } .idle
  | wait {barrier : ℕ} {sfd : Fd} (hbarrier : shared.barriers barrier = some sfd) :
      Local shared .idle .internal shared (.calling sfd (.epollCreate none))
  | waitFor {barrier : ℕ} {sfd : Fd} {timeout : ℤ}
      (hbarrier : shared.barriers barrier = some sfd) (hpos : 0 < timeout) :
      Local shared .idle .internal shared (.calling sfd (.timerCreate timeout))
  | waitForRefused {timeout : ℤ} (hneg : timeout ≤ 0) :
      Local shared .idle (.returned .thrown) shared .idle
  | timerCreated {sfd tfd : Fd} {timeout : ℤ} (hfree : shared.files tfd = none) :
      Local shared (.calling sfd (.timerCreate timeout)) .internal
        (shared.setFile tfd (.timer false 0)) (.calling sfd (.timerSet timeout tfd))
  | timerSet {sfd tfd : Fd} {timeout : ℤ} (hvalid : (timerSpec timeout).valid = true) :
      Local shared (.calling sfd (.timerSet timeout tfd)) .internal
        (shared.setFile tfd (.timer (timerSpec timeout).arms 0))
        (.calling sfd (.epollCreate (some tfd)))
  | epollCreated {sfd epfd : Fd} {tfd : Option Fd} (hfree : shared.files epfd = none) :
      Local shared (.calling sfd (.epollCreate tfd)) .internal
        (shared.setFile epfd (.epoll ∅)) (.calling sfd (.addSignals tfd epfd))
  | signalsAdded {sfd epfd : Fd} {members : Finset Fd}
      (hepoll : shared.files epfd = some (.epoll members)) (hopen : shared.files sfd ≠ none) :
      Local shared (.calling sfd (.addSignals none epfd)) .internal
        (shared.setFile epfd (.epoll (insert sfd members))) (.calling sfd (.waiting none epfd))
  | signalsAddedToo {sfd tfd epfd : Fd} {members : Finset Fd}
      (hepoll : shared.files epfd = some (.epoll members)) (hopen : shared.files sfd ≠ none) :
      Local shared (.calling sfd (.addSignals (some tfd) epfd)) .internal
        (shared.setFile epfd (.epoll (insert sfd members))) (.calling sfd (.addTimer tfd epfd))
  | timerAdded {sfd tfd epfd : Fd} {members : Finset Fd}
      (hepoll : shared.files epfd = some (.epoll members)) (hopen : shared.files tfd ≠ none) :
      Local shared (.calling sfd (.addTimer tfd epfd)) .internal
        (shared.setFile epfd (.epoll (insert tfd members)))
        (.calling sfd (.waiting (some tfd) epfd))
  | move {sfd : Fd} {point next : Point} (hmove : Move shared sfd point next) :
      Local shared (.calling sfd point) .internal shared (.calling sfd next)
  | readSignal {sfd epfd : Fd} {tfd : Option Fd} {events : List Fd} {signal : Signal}
      {value : SigVal} (hfile : shared.files sfd = some .signals)
      (hpending : signal ∈ shared.pending) (hvalue : fromSignalConv signal = some value) :
      Local shared (.calling sfd (.readingSignals tfd epfd events)) (.read signal)
        { shared with pending := shared.pending.erase signal }
        (.unwinding (loopGuards sfd tfd epfd) (.signal value))
  | readTimer {sfd tfd epfd : Fd} {events : List Fd} {armed : Bool} {expirations : ℕ}
      (hfile : shared.files tfd = some (.timer armed (expirations + 1))) :
      Local shared (.calling sfd (.readingTimer tfd epfd events)) .internal
        (shared.setFile tfd (.timer armed 0))
        (.unwinding (loopGuards sfd (some tfd) epfd) .timeout)
  | throws {sfd : Fd} {point : Point} (hthrows : point.MayThrow shared sfd) :
      Local shared (.calling sfd point) .internal shared
        (.unwinding (point.guards sfd) .thrown)
  | unwind {guard : Guard} {guards : List Guard} {outcome : Outcome}
      (hsucceeds : guard.Succeeds shared.files) :
      Local shared (.unwinding (guard :: guards) outcome) .internal
        { shared with files := guard.run shared.files } (.unwinding guards outcome)
  | returned {outcome : Outcome} :
      Local shared (.unwinding [] outcome) (.returned outcome) shared .idle

/-! ## The process -/

section Process

variable {Thread : Type*} [DecidableEq Thread]

structure State (Thread : Type*) where
  shared : Shared
  threads : Thread → Place

inductive Label (Thread : Type*) where
  | thread (thread : Thread) (action : Action)
  | construct (barrier : ℕ)
  | arrive (signal : Signal)
  /-- It was pending already, and is one with the earlier one. -/
  | merge (signal : Signal)
  | expire (tfd : Fd)
  | openOther (fd : Fd)
  | closeOther (fd : Fd)

/-- The steps of the process, and no state after the end that a guard brings about. -/
inductive Step : Option (State Thread) → Label Thread → Option (State Thread) → Prop
  | thread {shared next : Shared} {threads : Thread → Place} {thread : Thread} {action : Action}
      {place : Place} (hlocal : Local shared (threads thread) action next place) :
      Step (some ⟨shared, threads⟩) (.thread thread action)
        (some ⟨next, update threads thread place⟩)
  | terminate {shared : Shared} {threads : Thread → Place} {thread : Thread} {guard : Guard}
      {guards : List Guard} {outcome : Outcome}
      (hplace : threads thread = .unwinding (guard :: guards) outcome)
      (hfails : ¬guard.Succeeds shared.files) :
      Step (some ⟨shared, threads⟩) (.thread thread .terminate) none
  -- it throws as long as there is no signal file
  | construct {shared : Shared} {threads : Thread → Place} {barrier : ℕ} {sfd : Fd}
      (hnew : shared.barriers barrier = none) (hsfd : shared.sfdGlobal = some sfd) :
      Step (some ⟨shared, threads⟩) (.construct barrier)
        (some ⟨{ shared with barriers := update shared.barriers barrier (some sfd) }, threads⟩)
  -- a signal that is not blocked does not get here
  | arrive {shared : Shared} {threads : Thread → Place} {signal : Signal}
      (hmask : signal ∈ shared.mask) (hnew : signal ∉ shared.pending) :
      Step (some ⟨shared, threads⟩) (.arrive signal)
        (some ⟨{ shared with pending := insert signal shared.pending }, threads⟩)
  | merge {shared : Shared} {threads : Thread → Place} {signal : Signal}
      (hpending : signal ∈ shared.pending) :
      Step (some ⟨shared, threads⟩) (.merge signal) (some ⟨shared, threads⟩)
  | expire {shared : Shared} {threads : Thread → Place} {tfd : Fd} {expirations : ℕ}
      (hfile : shared.files tfd = some (.timer true expirations)) :
      Step (some ⟨shared, threads⟩) (.expire tfd)
        (some ⟨shared.setFile tfd (.timer true (expirations + 1)), threads⟩)
  | openOther {shared : Shared} {threads : Thread → Place} {fd : Fd}
      (hfree : shared.files fd = none) :
      Step (some ⟨shared, threads⟩) (.openOther fd) (some ⟨shared.setFile fd .other, threads⟩)
  | closeOther {shared : Shared} {threads : Thread → Place} {fd : Fd}
      (hfile : shared.files fd = some .other) :
      Step (some ⟨shared, threads⟩) (.closeOther fd)
        (some ⟨{ shared with files := shared.files.close fd }, threads⟩)

/-- The process has some files open, none of them of the kinds that matter here. -/
def start (opened : Finset Fd) (mask : Finset Signal) : State Thread where
  shared :=
    { files := fun fd => if fd ∈ opened then some .other else none
      mask := mask
      pending := ∅
      initDone := false
      sfdGlobal := none
      alive := false
      barriers := fun _ => none }
  threads _ := .idle

end Process

end Nstl.SignalBarrier
