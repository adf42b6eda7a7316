import Nstl.Signal.Barrier

/-!
# Waiting for a signal without `signalfd`

On macOS and on Windows a `SignalBarrier` replaces the handlers of the signals, one after the
other, by one that stores the number of the signal.  The calls look at this number again and
again, and take it away when they find one.  The handlers that were there before are put back
by the destructor.  A flag makes sure that there is only one barrier; on Windows there is one
more handler, for the console, and the constructor throws if it cannot be installed.

A handler is one of the program's own, or none for `signal_receiver`.  The program may ask
for another one at any time, and on Windows a signal that is delivered takes its handler away
and leaves `SIG_DFL`.
-/

namespace Nstl.PortableBarrier

open Function
open Nstl.Transition
open Nstl.SignalBarrier (Signal SigVal fromSignalConv sigint sigterm sigquit)

/-! ## The machine -/

/-- What `SIGQUIT` and `_WIN32` decide. -/
structure Platform where
  /-- The signals whose handlers are replaced, in this order. -/
  signals : List Signal
  nodup : signals.Nodup
  handled : ∀ signal ∈ signals, (fromSignalConv signal).isSome
  console : Bool
  /-- Whether a handler is called only once. -/
  resets : Bool

def macos : Platform where
  signals := [sigint, sigterm, sigquit]
  nodup := by decide
  handled := List.forall_mem_cons.2
    ⟨rfl, List.forall_mem_cons.2 ⟨rfl, List.forall_mem_singleton.2 rfl⟩⟩
  console := false
  resets := false

def win32 : Platform where
  signals := [sigint, sigterm]
  nodup := by decide
  handled := List.forall_mem_cons.2 ⟨rfl, List.forall_mem_singleton.2 rfl⟩
  console := true
  resets := true

/-- What `ConsoleHandler` stores. -/
inductive ConsoleEvent where
  | ctrlC
  | ctrlClose
  | ctrlLogoff
  | ctrlShutdown
  deriving DecidableEq, Repr

def ConsoleEvent.value : ConsoleEvent → SigVal
  | .ctrlC => .sigInt
  | .ctrlClose => .sigTerm
  | .ctrlLogoff => .sigLogoff
  | .ctrlShutdown => .sigShutdown

/-- `wait`, or `wait_for` with the time when it was called. -/
inductive Call where
  | wait
  | waitFor (start : ℕ) (timeout : ℤ)

inductive Place where
  | idle
  /-- In the constructor, with the signals that are left. -/
  | installing (period : ℕ) (rest : List Signal)
  /-- In the destructor. -/
  | restoring (rest : List Signal)
  /-- At `load_value`. -/
  | loading (call : Call)
  /-- At the condition of the loop of `wait_for`. -/
  | testing (start : ℕ) (timeout : ℤ)
  | sleeping (call : Call) (wake : ℕ)

def Place.changing : Place → Bool
  | .installing .. | .restoring _ => true
  | .idle | .loading _ | .testing .. | .sleeping .. => false

structure State (Own Thread : Type*) where
  /-- `in_use` -/
  inUse : Bool
  /-- The `_period` of the barrier, if there is one. -/
  barrier : Option ℕ
  handlers : Signal → Option Own
  /-- `int_hndlr`, `int_term` and `int_quit` -/
  saved : Signal → Option Own
  /-- `signal_received`, with none for 0 -/
  received : Option Signal
  /-- Whether `ConsoleHandler` is installed. -/
  console : Bool
  /-- `app_running`, with none for `running_true` -/
  event : Option ConsoleEvent
  clock : ℕ
  threads : Thread → Place

/-- What others see of the steps of a thread. -/
inductive Action where
  | internal
  /-- `std::signal` in the constructor, or in the destructor. -/
  | installed (signal : Signal)
  | restored (signal : Signal)
  /-- A call returns this signal, or the event, or nothing. -/
  | caught (signal : Signal)
  | caughtEvent (event : ConsoleEvent)
  | timedOut
  | threw
  deriving DecidableEq

inductive Label (Own Thread : Type*) where
  | thread (thread : Thread) (action : Action)
  | arrive (signal : Signal)
  /-- A signal that was not looked at is replaced. -/
  | overwrite (signal : Signal)
  /-- A handler of the program's own is called. -/
  | deliver (signal : Signal)
  | event (event : ConsoleEvent)
  /-- The program calls `std::signal`. -/
  | program (signal : Signal) (handler : Own)
  | tick (time : ℕ)

section Step

variable {Own Thread : Type*} [DecidableEq Thread]

def State.goTo (state : State Own Thread) (thread : Thread) (place : Place) : State Own Thread :=
  { state with threads := update state.threads thread place }

def State.handle (state : State Own Thread) (signal : Signal) (handler : Own) :
    State Own Thread :=
  { state with handlers := update state.handlers signal (some handler) }

/-- The handler of a signal is about to be called. -/
def State.delivered (platform : Platform) (dfl : Own) (state : State Own Thread)
    (signal : Signal) : State Own Thread :=
  if platform.resets then state.handle signal dfl else state

/-- The steps; `dfl` is `SIG_DFL`. -/
inductive Step (platform : Platform) (dfl : Own) :
    State Own Thread → Label Own Thread → State Own Thread → Prop
  -- `SignalBarrier is already in use`
  | refused {state : State Own Thread} {thread : Thread} (hplace : state.threads thread = .idle)
      (huse : state.inUse = true) : Step platform dfl state (.thread thread .internal) state
  | claim {state : State Own Thread} {thread : Thread} {period : ℕ}
      (hplace : state.threads thread = .idle) (hperiod : 0 < period) (huse : state.inUse = false) :
      Step platform dfl state (.thread thread .internal)
        { state.goTo thread (.installing period platform.signals) with inUse := true }
  | install {state : State Own Thread} {thread : Thread} {period : ℕ} {signal : Signal}
      {rest : List Signal} (hplace : state.threads thread = .installing period (signal :: rest)) :
      Step platform dfl state (.thread thread (.installed signal))
        { state.goTo thread (.installing period rest) with
          saved := update state.saved signal (state.handlers signal)
          handlers := update state.handlers signal none }
  | constructed {state : State Own Thread} {thread : Thread} {period : ℕ}
      (hplace : state.threads thread = .installing period []) :
      Step platform dfl state (.thread thread .internal)
        { state.goTo thread .idle with
          barrier := some period
          console := state.console || platform.console }
  -- there is no object, and its destructor is not called
  | consoleThrows {state : State Own Thread} {thread : Thread} {period : ℕ}
      (hplace : state.threads thread = .installing period []) (hconsole : platform.console = true) :
      Step platform dfl state (.thread thread .internal) (state.goTo thread .idle)
  -- no call is running on an object that is destroyed
  | destroy {state : State Own Thread} {thread : Thread} {period : ℕ}
      (hbarrier : state.barrier = some period) (hidle : ∀ other, state.threads other = .idle) :
      Step platform dfl state (.thread thread .internal)
        { state.goTo thread (.restoring platform.signals) with barrier := none }
  | restore {state : State Own Thread} {thread : Thread} {signal : Signal} {rest : List Signal}
      (hplace : state.threads thread = .restoring (signal :: rest)) :
      Step platform dfl state (.thread thread (.restored signal))
        { state.goTo thread (.restoring rest) with
          saved := update state.saved signal (state.handlers signal)
          handlers := update state.handlers signal (state.saved signal) }
  | release {state : State Own Thread} {thread : Thread}
      (hplace : state.threads thread = .restoring []) :
      Step platform dfl state (.thread thread .internal)
        { state.goTo thread .idle with inUse := false }
  | wait {state : State Own Thread} {thread : Thread} {period : ℕ}
      (hplace : state.threads thread = .idle) (hbarrier : state.barrier = some period) :
      Step platform dfl state (.thread thread .internal) (state.goTo thread (.loading .wait))
  | waitFor {state : State Own Thread} {thread : Thread} {period : ℕ} (timeout : ℤ)
      (hplace : state.threads thread = .idle) (hbarrier : state.barrier = some period) :
      Step platform dfl state (.thread thread .internal)
        (state.goTo thread (.loading (.waitFor state.clock timeout)))
  | loadSignal {state : State Own Thread} {thread : Thread} {call : Call} {signal : Signal}
      (hplace : state.threads thread = .loading call) (hreceived : state.received = some signal)
      (hvalue : (fromSignalConv signal).isSome) :
      Step platform dfl state (.thread thread (.caught signal))
        { state.goTo thread .idle with received := none }
  | loadThrows {state : State Own Thread} {thread : Thread} {call : Call} {signal : Signal}
      (hplace : state.threads thread = .loading call) (hreceived : state.received = some signal)
      (hvalue : fromSignalConv signal = none) :
      Step platform dfl state (.thread thread .threw)
        { state.goTo thread .idle with received := none }
  | loadEvent {state : State Own Thread} {thread : Thread} {call : Call} {event : ConsoleEvent}
      (hplace : state.threads thread = .loading call) (hreceived : state.received = none)
      (hevent : state.event = some event) :
      Step platform dfl state (.thread thread (.caughtEvent event))
        { state.goTo thread .idle with event := none }
  | waitSleeps {state : State Own Thread} {thread : Thread} {period wake : ℕ}
      (hplace : state.threads thread = .loading .wait) (hreceived : state.received = none)
      (hevent : state.event = none) (hbarrier : state.barrier = some period)
      (hwake : state.clock + period ≤ wake) :
      Step platform dfl state (.thread thread .internal) (state.goTo thread (.sleeping .wait wake))
  | waitForTests {state : State Own Thread} {thread : Thread} {start : ℕ} {timeout : ℤ}
      (hplace : state.threads thread = .loading (.waitFor start timeout))
      (hreceived : state.received = none) (hevent : state.event = none) :
      Step platform dfl state (.thread thread .internal)
        (state.goTo thread (.testing start timeout))
  | waitForSleeps {state : State Own Thread} {thread : Thread} {start period wake : ℕ}
      {timeout : ℤ} (hplace : state.threads thread = .testing start timeout)
      (htime : (state.clock : ℤ) - start < timeout) (hbarrier : state.barrier = some period)
      (hwake : state.clock + period ≤ wake) :
      Step platform dfl state (.thread thread .internal)
        (state.goTo thread (.sleeping (.waitFor start timeout) wake))
  | timedOut {state : State Own Thread} {thread : Thread} {start : ℕ} {timeout : ℤ}
      (hplace : state.threads thread = .testing start timeout)
      (htime : timeout ≤ (state.clock : ℤ) - start) :
      Step platform dfl state (.thread thread .timedOut) (state.goTo thread .idle)
  | wakes {state : State Own Thread} {thread : Thread} {call : Call} {wake : ℕ}
      (hplace : state.threads thread = .sleeping call wake) (htime : wake ≤ state.clock) :
      Step platform dfl state (.thread thread .internal) (state.goTo thread (.loading call))
  -- `signal_receiver`
  | arrive {state : State Own Thread} {signal : Signal} (hsignal : signal ∈ platform.signals)
      (hhandler : state.handlers signal = none) (hreceived : state.received = none) :
      Step platform dfl state (.arrive signal)
        { state.delivered platform dfl signal with received := some signal }
  | overwrite {state : State Own Thread} {signal : Signal} (hsignal : signal ∈ platform.signals)
      (hhandler : state.handlers signal = none) (hreceived : state.received ≠ none) :
      Step platform dfl state (.overwrite signal)
        { state.delivered platform dfl signal with received := some signal }
  | deliver {state : State Own Thread} {signal : Signal} {handler : Own}
      (hhandler : state.handlers signal = some handler) :
      Step platform dfl state (.deliver signal) (state.delivered platform dfl signal)
  | event {state : State Own Thread} (event : ConsoleEvent) (hconsole : state.console = true) :
      Step platform dfl state (.event event) { state with event := some event }
  | program {state : State Own Thread} (signal : Signal) (handler : Own) :
      Step platform dfl state (.program signal handler) (state.handle signal handler)
  | tick {state : State Own Thread} (time : ℕ) :
      Step platform dfl state (.tick time) { state with clock := state.clock + time }

/-- The program has its own handlers. -/
def start (own : Signal → Own) (dfl : Own) : State Own Thread where
  inUse := false
  barrier := none
  handlers signal := some (own signal)
  saved _ := some dfl
  received := none
  console := false
  event := none
  clock := 0
  threads _ := .idle

end Step

/-! ## The handlers of the program -/

section Handlers

variable {Own Thread : Type*}

/-- The handlers of the program, and which of them are replaced by that of a barrier. -/
structure Owned (Own : Type*) where
  handler : Signal → Own
  replaced : Signal → Bool

/-- A handler is set; while it is replaced this has no effect on what is put back. -/
def Owned.set (owned : Owned Own) (signal : Signal) (handler : Own) : Owned Own :=
  if owned.replaced signal then owned
  else { owned with handler := update owned.handler signal handler }

def Label.owns (platform : Platform) (dfl : Own) (owned : Owned Own) :
    Label Own Thread → Owned Own
  | .thread _ (.installed signal) => { owned with replaced := update owned.replaced signal true }
  | .thread _ (.restored signal) => { owned with replaced := update owned.replaced signal false }
  | .program signal handler => owned.set signal handler
  | .deliver signal => if platform.resets then owned.set signal dfl else owned
  | _ => owned

/-- The handlers that the signals last had while no barrier had replaced them: what the program
has asked for, or `SIG_DFL` after a delivery that resets. -/
def lastOwned (platform : Platform) (own : Signal → Own) (dfl : Own)
    (labels : List (Label Own Thread)) : Owned Own :=
  labels.foldl (Label.owns platform dfl) ⟨own, fun _ => false⟩

theorem Owned.set_of_replaced {owned : Owned Own} {signal : Signal}
    (hreplaced : owned.replaced signal = true) (handler : Own) :
    owned.set signal handler = owned :=
  if_pos hreplaced

/-- The handlers of some signals are replaced, and those of the program are saved for them. -/
structure Replaced (done : List Signal) (owned : Owned Own) (state : State Own Thread) : Prop where
  mem_iff : ∀ signal, owned.replaced signal = true ↔ signal ∈ done
  saved : ∀ signal ∈ done, state.saved signal = some (owned.handler signal)
  others : ∀ signal, signal ∉ done → state.handlers signal = some (owned.handler signal)

/-- How far a constructor or a destructor is. -/
inductive Changes (platform : Platform) : Place → List Signal → Prop
  | installing {period : ℕ} {done rest : List Signal} (hsplit : platform.signals = done ++ rest) :
      Changes platform (.installing period rest) done
  | restoring {rest : List Signal} (hnodup : rest.Nodup) : Changes platform (.restoring rest) rest

/-- All threads together are in one of the stages of a single barrier. -/
inductive Stage (platform : Platform) (owned : Owned Own) (state : State Own Thread) : Prop
  | free (huse : state.inUse = false) (hbarrier : state.barrier = none)
      (hidle : ∀ thread, state.threads thread = .idle) (hreplaced : Replaced [] owned state)
  | changing {thread : Thread} {done : List Signal} (huse : state.inUse = true)
      (hbarrier : state.barrier = none) (hchanges : Changes platform (state.threads thread) done)
      (hothers : ∀ other, other ≠ thread → state.threads other = .idle)
      (hreplaced : Replaced done owned state)
  | alive (huse : state.inUse = true) (hbarrier : state.barrier ≠ none)
      (hcalls : ∀ thread, (state.threads thread).changing = false)
      (hreplaced : Replaced platform.signals owned state)
  -- `SetConsoleCtrlHandler` has failed
  | broken (huse : state.inUse = true) (hbarrier : state.barrier = none)
      (hidle : ∀ thread, state.threads thread = .idle)
      (hreplaced : Replaced platform.signals owned state)

variable {platform : Platform} {owned owned' : Owned Own} {state next : State Own Thread}
  {done rest : List Signal} {signal : Signal} {thread other : Thread} {own : Signal → Own}
  {dfl : Own}

theorem Replaced.congr (hreplaced : Replaced done owned state)
    (hhandlers : next.handlers = state.handlers) (hsaved : next.saved = state.saved) :
    Replaced done owned next := by
  refine ⟨hreplaced.mem_iff, fun signal hsignal => ?_, fun signal hsignal => ?_⟩
  · rw [hsaved]
    exact hreplaced.saved signal hsignal
  · rw [hhandlers]
    exact hreplaced.others signal hsignal

/-- `std::signal(signal, signal_receiver)` -/
theorem Replaced.install (hreplaced : Replaced done owned state) (hnew : signal ∉ done)
    (hhandlers : next.handlers = update state.handlers signal none)
    (hsaved : next.saved = update state.saved signal (state.handlers signal)) :
    Replaced (done ++ [signal]) { owned with replaced := update owned.replaced signal true }
      next := by
  refine ⟨fun other => ?_, fun replaced hmem => ?_, fun other hmem => ?_⟩
  · simp only [List.mem_append, List.mem_singleton]
    by_cases hsame : other = signal
    · simp [hsame]
    · simp only [update_of_ne hsame, hreplaced.mem_iff, hsame, or_false]
  · rw [hsaved]
    by_cases hsame : replaced = signal
    · subst hsame
      rw [update_self]
      exact hreplaced.others replaced hnew
    · rw [update_of_ne hsame]
      exact hreplaced.saved replaced (by simpa [hsame] using hmem)
  · simp only [List.mem_append, List.mem_singleton, not_or] at hmem
    rw [hhandlers, update_of_ne hmem.2]
    exact hreplaced.others other hmem.1

/-- `std::signal` with the handler that was saved. -/
theorem Replaced.restore (hreplaced : Replaced (signal :: rest) owned state)
    (hnew : signal ∉ rest)
    (hhandlers : next.handlers = update state.handlers signal (state.saved signal))
    (hsaved : next.saved = update state.saved signal (state.handlers signal)) :
    Replaced rest { owned with replaced := update owned.replaced signal false } next := by
  refine ⟨fun other => ?_, fun replaced hmem => ?_, fun other hmem => ?_⟩
  · by_cases hsame : other = signal
    · simp [hsame, hnew]
    · simp only [update_of_ne hsame, hreplaced.mem_iff, List.mem_cons, hsame, false_or]
  · have hne : replaced ≠ signal := by
      rintro rfl
      exact hnew hmem
    rw [hsaved, update_of_ne hne]
    exact hreplaced.saved replaced (List.mem_cons_of_mem _ hmem)
  · rw [hhandlers]
    by_cases hsame : other = signal
    · subst hsame
      rw [update_self]
      exact hreplaced.saved other List.mem_cons_self
    · rw [update_of_ne hsame]
      exact hreplaced.others other (by simpa [hsame] using hmem)

theorem handlers_handle (state : State Own Thread) (signal : Signal) (handler : Own) :
    (state.handle signal handler).handlers = update state.handlers signal (some handler) := rfl

/-- What is set in the place of a replaced handler does not count. -/
theorem Replaced.handle (hreplaced : Replaced done owned state) (signal : Signal)
    (handler : Own) : Replaced done (owned.set signal handler) (state.handle signal handler) := by
  rw [Owned.set]
  split
  next hset =>
      refine ⟨hreplaced.mem_iff, hreplaced.saved, fun other hother => ?_⟩
      have hne : other ≠ signal := by
        rintro rfl
        exact hother ((hreplaced.mem_iff other).1 hset)
      rw [handlers_handle, update_of_ne hne]
      exact hreplaced.others other hother
  next hset =>
      refine ⟨hreplaced.mem_iff, fun other hother => ?_, fun other hother => ?_⟩
      · have hne : other ≠ signal := by
          rintro rfl
          exact hset ((hreplaced.mem_iff other).2 hother)
        dsimp only
        rw [update_of_ne hne]
        exact hreplaced.saved other hother
      · rw [handlers_handle]
        dsimp only
        by_cases hsame : other = signal
        · rw [hsame, update_self, update_self]
        · rw [update_of_ne hsame, update_of_ne hsame]
          exact hreplaced.others other hother

/-- What `signal_receiver` is called for is replaced. -/
theorem Replaced.receive (hreplaced : Replaced done owned state)
    (hhandler : state.handlers signal = none) (dfl : Own) :
    Replaced done owned (state.delivered platform dfl signal) := by
  have hmem : signal ∈ done := by
    by_contra hnot
    exact absurd (hhandler.symm.trans (hreplaced.others signal hnot)) nofun
  rw [State.delivered]
  split
  · have hset := hreplaced.handle signal dfl
    rwa [Owned.set_of_replaced ((hreplaced.mem_iff signal).2 hmem)] at hset
  · exact hreplaced

/-- The stage depends on the handlers only by what is replaced. -/
theorem Stage.congr (hstage : Stage platform owned state) (huse : next.inUse = state.inUse)
    (hbarrier : next.barrier = state.barrier) (hthreads : next.threads = state.threads)
    (hreplaced : ∀ done, Replaced done owned state → Replaced done owned' next) :
    Stage platform owned' next := by
  cases hstage with
  | free huse' hbarrier' hidle hbefore =>
      exact .free (huse.trans huse') (hbarrier.trans hbarrier') (hthreads ▸ hidle)
        (hreplaced _ hbefore)
  | changing huse' hbarrier' hchanges hothers hbefore =>
      exact .changing (huse.trans huse') (hbarrier.trans hbarrier') (hthreads ▸ hchanges)
        (hthreads ▸ hothers) (hreplaced _ hbefore)
  | alive huse' hbarrier' hcalls hbefore =>
      exact .alive (huse.trans huse') (hbarrier ▸ hbarrier') (hthreads ▸ hcalls)
        (hreplaced _ hbefore)
  | broken huse' hbarrier' hidle hbefore =>
      exact .broken (huse.trans huse') (hbarrier.trans hbarrier') (hthreads ▸ hidle)
        (hreplaced _ hbefore)

/-- In the constructor or the destructor there is one thread. -/
theorem Stage.changes (hstage : Stage platform owned state)
    (hplace : (state.threads thread).changing = true) :
    state.inUse = true ∧ state.barrier = none ∧
      (∀ other, other ≠ thread → state.threads other = .idle) ∧
      ∃ done, Changes platform (state.threads thread) done ∧ Replaced done owned state := by
  cases hstage with
  | free _ _ hidle | broken _ _ hidle =>
      rw [hidle thread] at hplace
      exact absurd hplace nofun
  | alive _ _ hcalls => exact absurd (hplace.symm.trans (hcalls thread)) nofun
  | @changing changer done huse hbarrier hchanges hothers hreplaced =>
      obtain rfl : thread = changer := by
        by_contra hne
        rw [hothers thread hne] at hplace
        exact absurd hplace nofun
      exact ⟨huse, hbarrier, hothers, done, hchanges, hreplaced⟩

/-- There are calls only where there is a barrier. -/
theorem Stage.barrier_of_call (hstage : Stage platform owned state)
    (hplace : state.threads thread ≠ .idle) (hcall : (state.threads thread).changing = false) :
    state.barrier ≠ none := by
  cases hstage with
  | free _ _ hidle | broken _ _ hidle => exact absurd (hidle thread) hplace
  | alive _ hbarrier => exact hbarrier
  | @changing changer done _ _ hchanges hothers =>
      obtain rfl : thread = changer := by
        by_contra hne
        exact hplace (hothers thread hne)
      cases hkind : state.threads thread with
      | installing | restoring =>
          rw [hkind] at hcall
          exact absurd hcall nofun
      | idle | loading | testing | sleeping =>
          rw [hkind] at hchanges
          cases hchanges

theorem Stage.install {period : ℕ} (hstage : Stage platform owned state)
    (hplace : state.threads thread = .installing period rest) :
    state.inUse = true ∧ state.barrier = none ∧
      (∀ other, other ≠ thread → state.threads other = .idle) ∧
      ∃ done, platform.signals = done ++ rest ∧ Replaced done owned state := by
  have hchanging : (state.threads thread).changing = true := by
    rw [hplace]
    rfl
  obtain ⟨huse, hbarrier, hothers, done, hchanges, hreplaced⟩ := hstage.changes hchanging
  rw [hplace] at hchanges
  cases hchanges with
  | installing hsplit => exact ⟨huse, hbarrier, hothers, done, hsplit, hreplaced⟩

theorem Stage.restore (hstage : Stage platform owned state)
    (hplace : state.threads thread = .restoring rest) :
    state.inUse = true ∧ state.barrier = none ∧
      (∀ other, other ≠ thread → state.threads other = .idle) ∧
      rest.Nodup ∧ Replaced rest owned state := by
  have hchanging : (state.threads thread).changing = true := by
    rw [hplace]
    rfl
  obtain ⟨huse, hbarrier, hothers, done, hchanges, hreplaced⟩ := hstage.changes hchanging
  rw [hplace] at hchanges
  cases hchanges with
  | restoring hnodup => exact ⟨huse, hbarrier, hothers, hnodup, hreplaced⟩

variable [DecidableEq Thread]

/-- What a call does has no influence on the stage. -/
theorem Stage.call (hstage : Stage platform owned state) {place : Place}
    (hbarrier : state.barrier ≠ none) (hplace : place.changing = false)
    (huse : next.inUse = state.inUse) (hsame : next.barrier = state.barrier)
    (hhandlers : next.handlers = state.handlers) (hsaved : next.saved = state.saved)
    (hthreads : next.threads = update state.threads thread place) : Stage platform owned next := by
  cases hstage with
  | free _ hnone | broken _ hnone | changing _ hnone => exact absurd hnone hbarrier
  | alive huse' _ hcalls hreplaced =>
      refine .alive (huse.trans huse') (hsame ▸ hbarrier) (fun other => ?_)
        (hreplaced.congr hhandlers hsaved)
      rw [hthreads]
      by_cases hother : other = thread
      · rw [hother, update_self]
        exact hplace
      · rw [update_of_ne hother]
        exact hcalls other

/-- The constructor or the destructor has made a step. -/
theorem Stage.change {place : Place} (hchanges : Changes platform place done)
    (hthreads : next.threads = update state.threads thread place)
    (hothers : ∀ other, other ≠ thread → state.threads other = .idle) (huse : next.inUse = true)
    (hbarrier : next.barrier = none) (hreplaced : Replaced done owned next) :
    Stage platform owned next := by
  refine .changing huse hbarrier (?_ : Changes platform (next.threads thread) done)
    (fun other hne => ?_) hreplaced
  · rw [hthreads, update_self]
    exact hchanges
  · rw [hthreads, update_of_ne hne]
    exact hothers other hne

omit [DecidableEq Thread] in
theorem delivered_same (platform : Platform) (dfl : Own) (state : State Own Thread)
    (signal : Signal) :
    (state.delivered platform dfl signal).inUse = state.inUse ∧
      (state.delivered platform dfl signal).barrier = state.barrier ∧
      (state.delivered platform dfl signal).threads = state.threads := by
  rw [State.delivered]
  split <;> exact ⟨rfl, rfl, rfl⟩

theorem all_idle {threads : Thread → Place}
    (hothers : ∀ other, other ≠ thread → threads other = .idle) (other : Thread) :
    update threads thread .idle other = .idle := by
  by_cases hother : other = thread
  · rw [hother, update_self]
  · rw [update_of_ne hother]
    exact hothers other hother

theorem Stage.step {label : Label Own Thread} (hstage : Stage platform owned state)
    (hstep : Step platform dfl state label next) :
    Stage platform (label.owns platform dfl owned) next := by
  -- a thread that is in the middle of a call has a barrier
  have hcalling {thread : Thread} {place : Place} (hplace : state.threads thread = place)
      (hidle : place ≠ .idle) (hcall : place.changing = false) : state.barrier ≠ none :=
    hstage.barrier_of_call (hplace ▸ hidle) (hplace ▸ hcall)
  cases hstep with
  | refused => exact hstage
  | claim _ _ huse =>
      cases hstage with
      | changing hused | alive hused | broken hused => exact absurd (huse.symm.trans hused) nofun
      | free _ hbarrier hidle hreplaced =>
          exact .change (.installing rfl) rfl (fun other _ => hidle other) rfl hbarrier
            (hreplaced.congr rfl rfl)
  | @install thread period signal rest hplace =>
      obtain ⟨huse, hbarrier, hothers, done, hsplit, hreplaced⟩ := hstage.install hplace
      have hnodup := platform.nodup
      rw [hsplit] at hnodup
      have hnew : signal ∉ done := fun hmem =>
        (List.nodup_append.1 hnodup).2.2 signal hmem signal List.mem_cons_self rfl
      rw [List.append_cons] at hsplit
      exact .change (.installing hsplit) rfl hothers huse hbarrier (hreplaced.install hnew rfl rfl)
  | constructed hplace =>
      obtain ⟨huse, _, hothers, done, hsplit, hreplaced⟩ := hstage.install hplace
      rw [List.append_nil] at hsplit
      refine .alive huse nofun (fun other => ?_) (hsplit ▸ hreplaced.congr rfl rfl)
      exact congrArg Place.changing (all_idle hothers other)
  | consoleThrows hplace =>
      obtain ⟨huse, hbarrier, hothers, done, hsplit, hreplaced⟩ := hstage.install hplace
      rw [List.append_nil] at hsplit
      exact .broken huse hbarrier (all_idle hothers) (hsplit ▸ hreplaced.congr rfl rfl)
  | destroy hbarrier hidle =>
      cases hstage with
      | free _ hnone | changing _ hnone | broken _ hnone =>
          exact absurd (hnone.symm.trans hbarrier) nofun
      | alive huse _ _ hreplaced =>
          exact .change (.restoring platform.nodup) rfl (fun other _ => hidle other) huse rfl
            (hreplaced.congr rfl rfl)
  | restore hplace =>
      obtain ⟨huse, hbarrier, hothers, hnodup, hreplaced⟩ := hstage.restore hplace
      obtain ⟨hnew, hnodup⟩ := List.nodup_cons.1 hnodup
      exact .change (.restoring hnodup) rfl hothers huse hbarrier (hreplaced.restore hnew rfl rfl)
  | release hplace =>
      obtain ⟨_, hbarrier, hothers, _, hreplaced⟩ := hstage.restore hplace
      exact .free rfl hbarrier (all_idle hothers) (hreplaced.congr rfl rfl)
  | wait _ hbarrier | waitFor _ _ hbarrier =>
      have hsome : state.barrier ≠ none := fun hnone => absurd (hnone.symm.trans hbarrier) nofun
      exact hstage.call hsome rfl rfl rfl rfl rfl rfl
  | loadSignal hplace | loadThrows hplace | loadEvent hplace | waitSleeps hplace
  | waitForTests hplace | waitForSleeps hplace | timedOut hplace | wakes hplace =>
      exact hstage.call (hcalling hplace nofun rfl) rfl rfl rfl rfl rfl rfl
  | arrive _ hhandler | overwrite _ hhandler =>
      obtain ⟨huse, hbarrier, hthreads⟩ := delivered_same platform dfl state _
      exact hstage.congr huse hbarrier hthreads fun _ hreplaced =>
        (hreplaced.receive hhandler dfl).congr rfl rfl
  | @deliver signal _ hhandler =>
      obtain ⟨huse, hbarrier, hthreads⟩ := delivered_same platform dfl state signal
      refine hstage.congr huse hbarrier hthreads fun _ hreplaced => ?_
      rw [Label.owns, State.delivered]
      split
      · exact hreplaced.handle signal dfl
      · exact hreplaced
  | event | tick => exact hstage.congr rfl rfl rfl fun _ hreplaced => hreplaced.congr rfl rfl
  | program signal handler =>
      exact hstage.congr rfl rfl rfl fun _ hreplaced => hreplaced.handle signal handler

theorem stage_of_run {labels : List (Label Own Thread)}
    (hrun : Run (Step platform dfl) (start own dfl) labels state) :
    Stage platform (lastOwned platform own dfl labels) state := by
  induction hrun with
  | nil =>
      exact .free rfl rfl (fun _ => rfl)
        ⟨fun _ => by simp [lastOwned], fun _ hmem => absurd hmem List.not_mem_nil, fun _ _ => rfl⟩
  | snoc _ hstep ih =>
      rw [lastOwned, List.foldl_append]
      exact ih.step hstep

/-- Constructors and destructors never run at the same time, in however many threads they are
called, nor next to a barrier that is alive; and whenever the flag is free, every signal has
the handler that it last had while no barrier had replaced it.  What the program asks for
between the replacing and the restoring of a signal is lost. -/
theorem handlers_restored {labels : List (Label Own Thread)}
    (hrun : Run (Step platform dfl) (start own dfl) labels state) :
    (∀ thread other, (state.threads thread).changing = true →
      state.barrier = none ∧ (other ≠ thread → state.threads other = .idle)) ∧
    (state.inUse = false →
      state.barrier = none ∧
        ∀ signal, state.handlers signal =
          some ((lastOwned platform own dfl labels).handler signal)) := by
  have hstage := stage_of_run hrun
  refine ⟨fun thread other hchanging => ?_, fun huse => ?_⟩
  · obtain ⟨_, hbarrier, hothers, _⟩ := hstage.changes hchanging
    exact ⟨hbarrier, hothers other⟩
  · cases hstage with
    | changing hused | alive hused | broken hused => exact absurd (huse.symm.trans hused) nofun
    | free _ hbarrier _ hreplaced =>
        exact ⟨hbarrier, fun signal => hreplaced.others signal List.not_mem_nil⟩

end Handlers

/-! ## The signals that are returned -/

section Delivery

variable {Own Thread : Type*}

/-- A signal has arrived at `signal_receiver`, and none was stored before it. -/
def Label.stores : Label Own Thread → Bool
  | .arrive _ => true
  | _ => false

/-- A signal has arrived, and has replaced one that was not looked at. -/
def Label.replaces : Label Own Thread → Bool
  | .overwrite _ => true
  | _ => false

/-- A signal has arrived at `signal_receiver`. -/
def Label.arrives (label : Label Own Thread) : Bool := label.stores || label.replaces

/-- A signal was taken from `signal_received`. -/
def Label.takes : Label Own Thread → Bool
  | .thread _ (.caught _) | .thread _ .threw => true
  | _ => false

def Label.latest (last : Option Signal) : Label Own Thread → Option Signal
  | .arrive signal | .overwrite signal => some signal
  | _ => last

/-- The signal that has arrived last. -/
def lastSignal (labels : List (Label Own Thread)) : Option Signal :=
  labels.foldl Label.latest none

variable [DecidableEq Thread] {platform : Platform} {own : Signal → Own} {dfl : Own}
  {state next : State Own Thread} {label : Label Own Thread} {labels : List (Label Own Thread)}

theorem Step.takes (hstep : Step platform dfl state label next) :
    state.received.isSome.toNat + label.stores.toNat =
      next.received.isSome.toNat + label.takes.toNat := by
  cases hstep with
  | loadSignal _ hreceived | loadThrows _ hreceived =>
      rw [hreceived]
      rfl
  | arrive _ _ hreceived =>
      rw [hreceived]
      rfl
  | overwrite _ _ hreceived =>
      rw [Option.isSome_iff_ne_none.2 hreceived]
      rfl
  | deliver =>
      rw [State.delivered]
      split <;> rfl
  | _ => rfl

omit [DecidableEq Thread] in
theorem countP_arrives (labels : List (Label Own Thread)) :
    labels.countP Label.arrives = labels.countP Label.stores + labels.countP Label.replaces := by
  induction labels with
  | nil => rfl
  | cons label labels ih =>
      simp only [List.countP_cons, ih]
      cases label <;> simp only [Label.arrives, Label.stores, Label.replaces] <;> grind

/-- What is stored is the signal that has arrived last. -/
theorem received_eq_lastSignal (hrun : Run (Step platform dfl) (start own dfl) labels state)
    {signal : Signal} (hreceived : state.received = some signal) :
    lastSignal labels = some signal ∧ signal ∈ platform.signals := by
  induction hrun with
  | nil => exact absurd hreceived nofun
  | @snoc labels before after label _ hstep ih =>
      rw [lastSignal, List.foldl_append]
      cases hstep with
      | loadSignal | loadThrows => exact absurd hreceived nofun
      | arrive hsignal | overwrite hsignal =>
          obtain rfl := Option.some.inj hreceived
          exact ⟨rfl, hsignal⟩
      | deliver =>
          rw [State.delivered] at hreceived
          split at hreceived <;> exact ih hreceived
      | _ => exact ih hreceived

/-- Every signal that has arrived was taken by a look, or replaced by a later one before there
was a look, or is still stored; none is returned twice, and none is refused.  What is returned
is the signal that has arrived last, and what is not looked at stays, for the next barrier
too. -/
theorem signals_polled (hrun : Run (Step platform dfl) (start own dfl) labels state) :
    labels.countP Label.arrives =
        labels.countP Label.takes + labels.countP Label.replaces +
          state.received.isSome.toNat ∧
    ∀ thread action next, Step platform dfl state (.thread thread action) next →
      action ≠ .threw ∧ ∀ signal, action = .caught signal → lastSignal labels = some signal := by
  have hstored : labels.countP Label.stores =
      labels.countP Label.takes + state.received.isSome.toNat :=
    hrun.conserved (fun state => state.received.isSome.toNat) _ _ rfl
      fun _ _ _ hstep => hstep.takes
  refine ⟨?_, fun thread action next hstep => ⟨?_, ?_⟩⟩
  · rw [countP_arrives, hstored]
    omega
  · rintro rfl
    cases hstep with
    | loadThrows _ hreceived hvalue =>
        have hhandled := platform.handled _ (received_eq_lastSignal hrun hreceived).2
        rw [hvalue] at hhandled
        exact absurd hhandled nofun
  · rintro signal rfl
    cases hstep with
    | loadSignal _ hreceived => exact (received_eq_lastSignal hrun hreceived).1

end Delivery

/-! ## One barrier -/

/-- The labels of a constructor, or of a destructor after its first step. -/
def changeLabels (change : Signal → Action) : List (Label ℕ Unit) :=
  [.thread () .internal] ++ [.thread () (change sigint)] ++ [.thread () (change sigterm)] ++
    [.thread () (change sigquit)] ++ [.thread () .internal]

/-- A barrier is made; the program has the handler 1 for every signal, and 0 is the
default. -/
theorem run_constructed :
    ∃ state : State ℕ Unit,
      Run (Step macos 0) (start (fun _ => 1) 0) (changeLabels .installed) state ∧
        state.threads () = .idle ∧ state.barrier = some 10 ∧ state.received = none ∧
        state.handlers sigint = none ∧ state.handlers sigterm = none := by
  have hstart : Run (Step macos 0) (start (fun _ => 1) 0 : State ℕ Unit) [] _ := .nil
  have hclaim := hstart.snoc (show Step macos 0 _ (.thread () .internal) _ from
    .claim rfl (show 0 < 10 by decide) rfl)
  have hint := hclaim.snoc (show Step macos 0 _ (.thread () (.installed sigint)) _ from
    .install rfl)
  have hterm := hint.snoc (show Step macos 0 _ (.thread () (.installed sigterm)) _ from
    .install rfl)
  have hquit := hterm.snoc (show Step macos 0 _ (.thread () (.installed sigquit)) _ from
    .install rfl)
  have hdone := hquit.snoc (show Step macos 0 _ (.thread () .internal) _ from .constructed rfl)
  exact ⟨_, hdone, rfl, rfl, rfl, rfl, rfl⟩

/-- While there is a barrier the program asks for the handler 2, and in the end it has the
handler 1 again. -/
theorem handlers_restored_once :
    ∃ state : State ℕ Unit,
      Run (Step macos 0) (start (fun _ => 1) 0)
        (changeLabels .installed ++ [.program sigint 2] ++ changeLabels .restored) state ∧
      state.handlers sigint = some 1 := by
  obtain ⟨state, hrun, hidle, hbarrier, _⟩ := run_constructed
  have hprogram := hrun.snoc (.program sigint 2)
  have hdestroy : Run (Step macos 0) (state.handle sigint 2) [.thread () .internal] _ :=
    Run.nil.snoc (.destroy hbarrier fun _ => hidle)
  have hint := hdestroy.snoc (show Step macos 0 _ (.thread () (.restored sigint)) _ from
    .restore rfl)
  have hterm := hint.snoc (show Step macos 0 _ (.thread () (.restored sigterm)) _ from
    .restore rfl)
  have hquit := hterm.snoc (show Step macos 0 _ (.thread () (.restored sigquit)) _ from
    .restore rfl)
  have hreleased := hprogram.append
    (hquit.snoc (show Step macos 0 _ (.thread () .internal) _ from .release rfl))
  exact ⟨_, hreleased, ((handlers_restored hreleased).2 rfl).2 sigint⟩

/-- A SIGTERM and a SIGINT arrive before the call that returns the later one. -/
theorem signals_polled_sigint :
    ∃ state next : State ℕ Unit,
      Run (Step macos 0) (start (fun _ => 1) 0)
        (changeLabels .installed ++ [.arrive sigterm] ++ [.overwrite sigint] ++
          [.thread () .internal]) state ∧
      Step macos 0 state (.thread () (.caught sigint)) next ∧
      2 = 0 + 1 + state.received.isSome.toNat := by
  obtain ⟨state, hrun, hidle, hbarrier, hreceived, hint, hterm⟩ := run_constructed
  have harrive := hrun.snoc (show Step macos 0 _ (.arrive sigterm) _ from
    .arrive (by decide) hterm hreceived)
  have hreplace := harrive.snoc (show Step macos 0 _ (.overwrite sigint) _ from
    .overwrite (by decide) hint nofun)
  have hwait := hreplace.snoc (show Step macos 0 _ (.thread () .internal) _ from
    .wait hidle hbarrier)
  exact ⟨_, _, hwait, .loadSignal rfl rfl rfl, (signals_polled hwait).1⟩

end Nstl.PortableBarrier
