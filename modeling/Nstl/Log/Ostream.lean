import Mathlib.Data.Int.Notation
import Mathlib.Logic.Function.Basic
import Nstl.Core.ByteString
import Nstl.Core.Transition

/-!
# The log writer

`OstreamLog` hands lines to a worker thread through a queue.  Any number of
producers call `push`; the worker takes one item at a time and writes it; `stop`
puts an empty item behind the lines and joins the worker.  The queue is first in,
first out, and each of its operations is one step.

Every step of every thread is a transition of one system.  Next to the variables
of the code the state keeps a history: what was put into the queue, which calls of
`push` have returned, and which of them had returned when `stop` was called.
-/

namespace Nstl.OstreamLog

open Function
open Nstl.ByteString
open Nstl.Transition

inductive Level where
  | debug
  | info
  | warning
  | error
  | terminate
  deriving DecidableEq, Repr

/-- A line, with the call of `push` that it comes from: the producer and the
number of calls this producer had finished before. -/
structure Entry (Producer : Type) where
  producer : Producer
  serial : ℕ
  text : Bytes
  deriving DecidableEq

/-- Where a producer is in `push`.  From `stopping` on it is in the call of `stop` that
the state keeps track of; `refused` is a call that found the log not running. -/
inductive PushState (Producer : Type) where
  | idle
  | checking (text : Bytes) (level : Level)
  | passed (text : Bytes) (level : Level)
  | queued (entry : Entry Producer) (level : Level)
  | stopping
  | refused

/-- Where the worker is in its loop. -/
inductive WorkerState (Producer : Type) where
  | idle
  | popping
  | holding (line : Option (Entry Producer))
  | exited

/-- Where the call of `stop` is; the last step gives its result. -/
inductive StopState where
  | notCalled
  | exchanging
  | enqueuing
  | joining
  | releasing
  | closing
  | returned (result : Bool)
  deriving DecidableEq, Repr

structure LogState (Producer : Type) where
  queue : List (Option (Entry Producer))
  startedPops : ℕ
  worker : WorkerState Producer
  running : Bool
  /-- Whether `_tgt` points to a stream. -/
  target : Bool
  /-- Whether the stream can be written to. -/
  streamOpen : Bool
  throttleSize : ℤ
  push : Producer → PushState Producer
  stop : StopState
  aborted : Bool
  written : List (Entry Producer)
  /-- Everything that was ever put into the queue. -/
  enqueued : List (Option (Entry Producer))
  /-- The number of finished calls of each producer. -/
  calls : Producer → ℕ
  /-- The lines whose `push` returned without being throttled. -/
  returned : List (Entry Producer)
  /-- Those of them that had returned when `stop` was called. -/
  returnedBeforeStop : List (Entry Producer)

variable {Producer : Type}

/-- The writer after `start`. -/
def LogState.started (throttleSize : ℤ) : LogState Producer where
  queue := []
  startedPops := 0
  worker := .idle
  running := true
  target := true
  streamOpen := true
  throttleSize := throttleSize
  push _ := .idle
  stop := .notCalled
  aborted := false
  written := []
  enqueued := []
  calls _ := 0
  returned := []
  returnedBeforeStop := []

/-- `_queue.size()`: pushes minus started pops, negative while a pop waits. -/
def LogState.queueSize (state : LogState Producer) : ℤ :=
  state.enqueued.length - state.startedPops

/-- The lines that were enqueued and that the worker has not taken. -/
def linesInQueue (state : LogState Producer) : List (Entry Producer) :=
  state.queue.filterMap id

/-- The steps of the threads. -/
inductive Action (Producer : Type) where
  | pushCall (producer : Producer) (text : Bytes) (level : Level)
  | pushCheck (producer : Producer)
  | pushEnqueue (producer : Producer)
  | pushReturn (producer : Producer)
  | pushStop (producer : Producer)
  | pushAbort (producer : Producer)
  | throttle (size : ℤ)
  | popStart
  | popTake
  | write
  | exit
  | stopCall
  | stopExchange
  | stopEnqueue
  | stopJoin
  | stopRelease
  | stopClose

section Moves

variable [DecidableEq Producer]

/-- The transitions.  `closes` holds for a log that closes its file in `stop`. -/
inductive Move (closes : Bool) :
    LogState Producer → Action Producer → LogState Producer → Prop
  | pushCall {state producer text level} (hidle : state.push producer = .idle) :
      Move closes state (.pushCall producer text level)
        { state with push := update state.push producer (.checking text level) }
  | pushThrottled {state producer text level}
      (hchecking : state.push producer = .checking text level)
      (hfull : state.throttleSize < state.queueSize) :
      Move closes state (.pushCheck producer)
        { state with
          push := update state.push producer .idle
          calls := update state.calls producer (state.calls producer + 1) }
  | pushPassed {state producer text level}
      (hchecking : state.push producer = .checking text level)
      (hfits : ¬state.throttleSize < state.queueSize) :
      Move closes state (.pushCheck producer)
        { state with push := update state.push producer (.passed text level) }
  | pushEnqueue {state producer text level}
      (hpassed : state.push producer = .passed text level) :
      Move closes state (.pushEnqueue producer)
        { state with
          push := update state.push producer
            (.queued ⟨producer, state.calls producer, text⟩ level)
          queue := state.queue ++ [some ⟨producer, state.calls producer, text⟩]
          enqueued := state.enqueued ++ [some ⟨producer, state.calls producer, text⟩]
          calls := update state.calls producer (state.calls producer + 1) }
  | pushReturn {state producer entry level}
      (hqueued : state.push producer = .queued entry level) (hlevel : level ≠ .terminate) :
      Move closes state (.pushReturn producer)
        { state with
          push := update state.push producer .idle
          returned := state.returned ++ [entry] }
  | pushStop {state producer entry}
      (hqueued : state.push producer = .queued entry .terminate)
      (hstop : state.stop = .notCalled) :
      Move closes state (.pushStop producer)
        { state with
          push := update state.push producer .stopping
          stop := .exchanging
          returnedBeforeStop := state.returned }
  -- the exchange of a call that comes too late changes nothing and ends the call
  | pushRefused {state producer entry}
      (hqueued : state.push producer = .queued entry .terminate)
      (hrunning : state.running = false) :
      Move closes state (.pushStop producer)
        { state with push := update state.push producer .refused }
  | pushAbort {state producer result} (hstopping : state.push producer = .stopping)
      (hstop : state.stop = .returned result) :
      Move closes state (.pushAbort producer) { state with aborted := true }
  | refusedAbort {state producer} (hrefused : state.push producer = .refused) :
      Move closes state (.pushAbort producer) { state with aborted := true }
  | throttle {state} (size : ℤ) :
      Move closes state (.throttle size) { state with throttleSize := size }
  | popStart {state} (hidle : state.worker = .idle) :
      Move closes state .popStart
        { state with worker := .popping, startedPops := state.startedPops + 1 }
  | popTake {state line rest} (hpopping : state.worker = .popping)
      (hqueue : state.queue = line :: rest) :
      Move closes state .popTake { state with worker := .holding line, queue := rest }
  | write {state entry} (hholding : state.worker = .holding (some entry)) :
      Move closes state .write
        { state with worker := .idle, written := state.written ++ [entry] }
  | exit {state} (hholding : state.worker = .holding none) :
      Move closes state .exit { state with worker := .exited }
  | stopCall {state} (hstop : state.stop = .notCalled) :
      Move closes state .stopCall
        { state with stop := .exchanging, returnedBeforeStop := state.returned }
  | stopExchange {state} (hstop : state.stop = .exchanging) :
      Move closes state .stopExchange
        { state with
          running := false
          stop := if state.running then .enqueuing else .returned false }
  | stopEnqueue {state} (hstop : state.stop = .enqueuing) :
      Move closes state .stopEnqueue
        { state with
          queue := state.queue ++ [none]
          enqueued := state.enqueued ++ [none]
          stop := .joining }
  | stopJoin {state} (hstop : state.stop = .joining) (hworker : state.worker = .exited) :
      Move closes state .stopJoin { state with stop := .releasing }
  | stopRelease {state} (hstop : state.stop = .releasing) :
      Move closes state .stopRelease
        { state with
          target := false
          stop := if closes then .closing else .returned true }
  | stopClose {state} (hstop : state.stop = .closing) :
      Move closes state .stopClose
        { state with streamOpen := false, stop := .returned true }

/-- Nothing happens after `std::abort`. -/
def Step (closes : Bool) (state : LogState Producer) (action : Action Producer)
    (next : LogState Producer) : Prop :=
  state.aborted = false ∧ Move closes state action next

end Moves

end Nstl.OstreamLog
