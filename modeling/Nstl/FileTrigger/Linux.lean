import Nstl.FileTrigger.Watcher

/-!
# The file trigger for Linux

The constructor of `file_trigger_linux` puts an inotify watch on the file, reads
the file to its end and starts the worker.  The worker waits in `epoll_wait`; for
an inotify event it drains the event queue and reads the file to its end again.
Other processes append to the file all the while: the bytes of an append become
visible, and then the kernel queues an event if there is a watch by then.

Every system call, and every run of the callback, is a step of its own.
-/

namespace Nstl.FileTrigger.Linux

open Nstl.ByteString
open Nstl.Transition

/-- The next thing that the constructor, or after it the worker, does. -/
inductive Location where
  | inotifyInit
  | addWatch
  | resizeBuffer
  | reading (site : Site)
  | calling (site : Site)
  | openPipe
  | startThread
  | epollCreate
  | epollAddTarget
  | epollAddExit
  | waiting
  | handling (events : List Source) (exitRequested : Bool)
  | draining (rest : List Source) (exitRequested : Bool)
  /-- The constructor has thrown. -/
  | failed
  /-- The worker has returned, or has caught an exception. -/
  | exited
  deriving DecidableEq, Repr

structure TriggerState extends Follower where
  location : Location
  watched : Bool
  /-- The events in the inotify queue. -/
  queued : ℕ
  /-- Whether the exit pipe has something to read. -/
  exitSignal : Bool
  running : Bool
  stop : StopState

/-- The trigger at the start of its constructor. -/
def TriggerState.initial (content : Bytes) (offset unannounced : ℕ) : TriggerState where
  toFollower := .opened content offset unannounced
  location := .inotifyInit
  watched := false
  queued := 0
  exitSignal := false
  running := true
  stop := .notCalled

/-- What `epoll_wait` can report: `EPOLLIN` holds as long as there is something to
read. -/
def TriggerState.ready (state : TriggerState) : Source → Bool
  | .target => 0 < state.queued
  | .exit => state.exitSignal

/-- The locations of the constructor outside of the read loop. -/
def Location.inConstructor : Location → Bool
  | .inotifyInit | .addWatch | .resizeBuffer | .openPipe | .startThread => true
  | _ => false

/-- The checked system calls of the worker. -/
def Location.checked : Location → Bool
  | .epollAddTarget | .epollAddExit | .waiting => true
  | _ => false

/-- The locations of the worker thread. -/
def Location.inWorker : Location → Bool
  | .reading (.event _ _) | .calling (.event _ _) | .epollCreate | .epollAddTarget
  | .epollAddExit | .waiting | .handling _ _ | .draining _ _ | .exited => true
  | _ => false

/-- Where the read loop leads. -/
def Location.loop : LoopSites Location where
  reading := .reading
  calling := .calling
  openPipe := .openPipe
  handling := .handling
  failed := .failed
  exited := .exited

/-- The test after the loop over the events. -/
def Location.afterEvents (exitRequested : Bool) : Location :=
  if exitRequested then .exited else .waiting

/-- The event of an append, which may be merged with one that is still queued. -/
def TriggerState.notify (merged : Bool) (state : TriggerState) : TriggerState :=
  { state with
    toFollower := state.toFollower.announce
    queued :=
      if state.watched then
        if merged && 0 < state.queued then state.queued else state.queued + 1
      else state.queued }

inductive Action where
  | append (bytes : Bytes)
  | notify (merged : Bool)
  | inotifyInit
  | addWatch
  | resizeBuffer
  | openPipe
  | startThread
  | constructorThrows
  | read (result : ReadResult)
  | callbackReturns
  | callbackThrows
  | epollCreate
  | epollAddTarget
  | epollAddExit
  | workerThrows
  | epollInterrupted
  | epollReturns (events : List Source)
  | handleEvent
  | endEvents
  | drain (count : ℕ)
  | endDrain
  | stopExchange
  | stopWrite
  | stopThrows
  | stopJoin

/-- The transitions. -/
inductive Step (bufferSize : ℕ) (sow : Bool) : TriggerState → Action → TriggerState → Prop
  | append {state} (bytes : Bytes) :
      Step bufferSize sow state (.append bytes)
        { state with toFollower := state.toFollower.append bytes }
  | notify {state} (merged : Bool) (hunannounced : 0 < state.unannounced) :
      Step bufferSize sow state (.notify merged) (state.notify merged)
  | inotifyInit {state} (hlocation : state.location = .inotifyInit) :
      Step bufferSize sow state .inotifyInit { state with location := .addWatch }
  | addWatch {state} (hlocation : state.location = .addWatch) :
      Step bufferSize sow state .addWatch
        { state with location := .resizeBuffer, watched := true }
  | resizeBuffer {state} (hlocation : state.location = .resizeBuffer) :
      Step bufferSize sow state .resizeBuffer
        { state with location := .reading .constructor }
  | openPipe {state} (hlocation : state.location = .openPipe) :
      Step bufferSize sow state .openPipe { state with location := .startThread }
  | startThread {state} (hlocation : state.location = .startThread) :
      Step bufferSize sow state .startThread { state with location := .epollCreate }
  | constructorThrows {state} (hlocation : state.location.inConstructor = true) :
      Step bufferSize sow state .constructorThrows { state with location := .failed }
  | read {state site result} (hlocation : state.location = .reading site)
      (hreads : Reads bufferSize state.file result) :
      Step bufferSize sow state (.read result)
        { state with
          toFollower := state.toFollower.read sow site result
          location := Location.loop.afterRead site (readData (site.exec sow) state.file result).2 }
  | callbackReturns {state site} (hlocation : state.location = .calling site) :
      Step bufferSize sow state .callbackReturns { state with location := .reading site }
  | callbackThrows {state site} (hlocation : state.location = .calling site) :
      Step bufferSize sow state .callbackThrows
        { state with location := Location.loop.afterThrow site }
  | epollCreate {state} (hlocation : state.location = .epollCreate) :
      Step bufferSize sow state .epollCreate { state with location := .epollAddTarget }
  | epollAddTarget {state} (hlocation : state.location = .epollAddTarget) :
      Step bufferSize sow state .epollAddTarget { state with location := .epollAddExit }
  | epollAddExit {state} (hlocation : state.location = .epollAddExit) :
      Step bufferSize sow state .epollAddExit { state with location := .waiting }
  | workerThrows {state} (hlocation : state.location.checked = true) :
      Step bufferSize sow state .workerThrows { state with location := .exited }
  | epollInterrupted {state} (hlocation : state.location = .waiting) :
      Step bufferSize sow state .epollInterrupted state
  | epollReturns {state} (events : List Source) (hlocation : state.location = .waiting)
      (hsome : events ≠ []) (hnodup : events.Nodup)
      (hready : ∀ source ∈ events, state.ready source = true) :
      Step bufferSize sow state (.epollReturns events)
        { state with location := .handling events false }
  | handleTarget {state rest exitRequested}
      (hlocation : state.location = .handling (.target :: rest) exitRequested) :
      Step bufferSize sow state .handleEvent
        { state with location := .draining rest exitRequested }
  | handleExit {state rest exitRequested}
      (hlocation : state.location = .handling (.exit :: rest) exitRequested) :
      Step bufferSize sow state .handleEvent { state with location := .handling rest true }
  | endEvents {state exitRequested}
      (hlocation : state.location = .handling [] exitRequested) :
      Step bufferSize sow state .endEvents
        { state with location := .afterEvents exitRequested }
  | drain {state rest exitRequested} (count : ℕ)
      (hlocation : state.location = .draining rest exitRequested)
      (hpos : 0 < count) (hqueued : count ≤ state.queued) :
      Step bufferSize sow state (.drain count) { state with queued := state.queued - count }
  -- The drain loop ends when a read fails: the queue is empty, or a signal came.
  | endDrain {state rest exitRequested}
      (hlocation : state.location = .draining rest exitRequested) :
      Step bufferSize sow state .endDrain
        { state with location := .reading (.event rest exitRequested) }
  | stopExchange {state} (hlocation : state.location.inWorker = true) :
      Step bufferSize sow state .stopExchange
        { state with
          running := false
          stop := if state.running then .writing else state.stop }
  | stopWrite {state} (hstop : state.stop = .writing) :
      Step bufferSize sow state .stopWrite
        { state with exitSignal := true, stop := .joining }
  | stopThrows {state} (hstop : state.stop = .writing) :
      Step bufferSize sow state .stopThrows { state with stop := .thrown }
  | stopJoin {state} (hstop : state.stop = .joining) (hlocation : state.location = .exited) :
      Step bufferSize sow state .stopJoin { state with stop := .returned }

/-! ## Why no append is missed -/

/-- Whether the constructor's read has still to end. -/
def Location.stage : Location → Stage
  | .inotifyInit | .addWatch | .resizeBuffer => some true
  | .reading site | .calling site => site.stage
  | .failed | .exited => none
  | _ => some false

/-- Whether the file will be read to its end before the next wait.  Constructors
and workers that have thrown do not wait any more. -/
def Location.looksAgain : Location → Bool
  | .openPipe | .startThread | .epollCreate | .epollAddTarget | .epollAddExit
  | .waiting => false
  | .handling events _ => events.contains .target
  | _ => true

/-- The trigger with the inotify queue as its alarm. -/
def TriggerState.watcher (state : TriggerState) : Watcher where
  follower := state.toFollower
  stage := state.location.stage
  armed := state.watched
  pending := 0 < state.queued
  busy := state.location.looksAgain

variable {bufferSize : ℕ} {sow : Bool} {state next : TriggerState} {action : Action}

theorem loop_agrees : Location.loop.Agrees Location.stage Location.looksAgain where
  reading _ := ⟨rfl, rfl⟩
  calling _ := ⟨rfl, rfl⟩
  openPipe := rfl
  handling _ _ := rfl
  failed := ⟨rfl, rfl⟩
  exited := ⟨rfl, rfl⟩

theorem watcher_notify (merged : Bool) :
    (state.notify merged).watcher =
      { state.watcher with
        follower := state.toFollower.announce
        pending := state.watcher.pending || state.watcher.armed } := by
  have hqueued : decide (0 < (state.notify merged).queued) =
      (decide (0 < state.queued) || state.watched) := by
    unfold TriggerState.notify
    cases state.watched with
    | false => simp
    | true =>
        have hpos : 0 < if (merged && decide (0 < state.queued)) = true then state.queued
            else state.queued + 1 := by
          split <;> simp_all
        simpa using hpos
  simp only [TriggerState.watcher, hqueued]
  rfl

/-- Every step of the trigger is a step of the watcher, which arms its alarm before
it looks. -/
theorem Step.refines (hstep : Step bufferSize sow state action next) :
    ∃ event, Watcher.SafeStep bufferSize sow state.watcher event next.watcher := by
  cases hstep with
  | append bytes => exact ⟨_, .append bytes, nofun⟩
  | notify merged hunannounced =>
      rw [watcher_notify]
      exact ⟨_, .announce hunannounced, nofun⟩
  | addWatch hlocation =>
      have hbusy : state.watcher.busy = true := by
        simp [TriggerState.watcher, hlocation, Location.looksAgain]
      have harm : Watcher.Step bufferSize sow state.watcher .arm
          { state.watcher with armed := true } := .arm
      refine ⟨.arm, ?_, fun _ => .inr (.inr (.inr hbusy))⟩
      simpa [TriggerState.watcher, hlocation, Location.stage, Location.looksAgain] using harm
  | @read site result hlocation hreads =>
      refine ⟨.read site result, ?_, nofun⟩
      simp only [TriggerState.watcher, hlocation, loop_agrees.stage_afterRead]
      exact .read rfl rfl hreads loop_agrees.looksAgain_afterRead
  | drain count hlocation hpos hqueued =>
      have hleft : decide (0 < state.queued - count) = true →
          decide (0 < state.queued) = true := by
        simp only [decide_eq_true_eq]
        omega
      refine ⟨.wake, ?_, nofun⟩
      simp only [TriggerState.watcher, hlocation]
      exact .wake hleft
  | constructorThrows | workerThrows =>
      exact ⟨.move, .moved rfl rfl rfl (.inl rfl) (.inl rfl), nofun⟩
  | @callbackThrows site hlocation =>
      cases site <;> exact ⟨.move, .moved rfl rfl rfl (.inl rfl) (.inl rfl), nofun⟩
  | @endEvents exitRequested hlocation =>
      cases exitRequested with
      | true => exact ⟨.move, .moved rfl rfl rfl (.inl rfl) (.inl rfl), nofun⟩
      | false =>
          exact ⟨.move, .moved rfl rfl rfl
            (.inr (congrArg Location.stage hlocation).symm)
            (.inr (congrArg Location.looksAgain hlocation).symm), nofun⟩
  | epollReturns events hlocation =>
      have hlooks : (Location.handling events false).looksAgain = true ∨
          (Location.handling events false).looksAgain = state.location.looksAgain := by
        rw [hlocation]
        exact Bool.eq_false_or_eq_true _
      exact ⟨.move, .moved rfl rfl rfl
        (.inr (congrArg Location.stage hlocation).symm) hlooks, nofun⟩
  | inotifyInit hlocation | resizeBuffer hlocation | openPipe hlocation
  | startThread hlocation | epollCreate hlocation | epollAddTarget hlocation
  | epollAddExit hlocation | handleTarget hlocation
  | handleExit hlocation | endDrain hlocation | callbackReturns hlocation =>
      exact ⟨.move, .moved rfl rfl rfl
        (.inr (congrArg Location.stage hlocation).symm)
        (.inr (congrArg Location.looksAgain hlocation).symm), nofun⟩
  | epollInterrupted | stopExchange | stopWrite | stopThrows | stopJoin =>
      exact ⟨.move, .moved rfl rfl rfl (.inr rfl) (.inr rfl), nofun⟩

/-- Only the first steps of the constructor come without the watch. -/
def TriggerState.Watching (state : TriggerState) : Prop :=
  state.watched = true ∨ state.location = .inotifyInit ∨ state.location = .addWatch ∨
    state.location = .failed

theorem Step.watching (hstep : Step bufferSize sow state action next)
    (hwatching : state.Watching) : next.Watching := by
  cases hwatching with
  | inl hwatched => cases hstep <;> exact .inl (by first | exact hwatched | rfl)
  | inr hearly =>
      cases hstep with
      | inotifyInit => exact .inr (.inr (.inl rfl))
      | addWatch => exact .inl rfl
      | constructorThrows => exact .inr (.inr (.inr rfl))
      | append | notify | epollInterrupted | drain | stopExchange | stopWrite | stopThrows
      | stopJoin => exact .inr hearly
      | workerThrows hlocation =>
          rcases hearly with hearly | hearly | hearly <;>
          · rw [hearly] at hlocation
            exact nomatch hlocation
      | epollReturns _ hlocation => simp [hlocation] at hearly
      | _ hlocation => simp [hlocation] at hearly

theorem run_watching {content : Bytes} {offset unannounced : ℕ} {actions : List Action}
    (run : Run (Step bufferSize sow) (.initial content offset unannounced) actions state) :
    state.Watching :=
  run.invariant TriggerState.Watching (.inr (.inl rfl))
    fun _ _ _ hbefore hstep => hstep.watching hbefore

/-- The trigger refines the watcher. -/
theorem run_refines {content : Bytes} {offset unannounced : ℕ} {actions : List Action}
    (run : Run (Step bufferSize sow) (.initial content offset unannounced) actions state) :
    ∃ events, Run (Watcher.SafeStep bufferSize sow)
      (TriggerState.initial content offset unannounced).watcher events state.watcher :=
  (run.viewed TriggerState.watcher (fun _ => True) trivial
    fun _ _ _ _ hstep => ⟨trivial, .inr hstep.refines⟩).2

/-- However appends fall between the steps of the trigger, the callback has got the
file from the start point to the read offset, and a worker that waits without an
event has read the file to its end.  A handle that was positioned behind the end
waits there for the file to grow. -/
theorem linux_trigger_misses_nothing {content : Bytes} {offset unannounced : ℕ}
    {actions : List Action} (hbuffer : 1 ≤ bufferSize)
    (run : Run (Step bufferSize sow) (.initial content offset unannounced) actions state) :
    state.startPoint sow offset ≤ state.file.offset ∧
      state.file.chunks.flatten =
        (state.file.content.drop (state.startPoint sow offset)).take
          (state.file.offset - state.startPoint sow offset) ∧
      (state.location = .waiting → state.queued = 0 → state.unannounced = 0 →
        offset ≤ state.file.content.length →
        state.file.offset = state.file.content.length) := by
  obtain ⟨events, hrun⟩ := run_refines run
  have hconsistent : state.toFollower.Consistent sow offset :=
    Watcher.run_consistent (hrun.mono fun _ _ _ hsafe => hsafe.1) rfl rfl
  refine ⟨hconsistent.faithful.start_le, hconsistent.faithful.handed, ?_⟩
  intro hwaiting hqueued hannounced hoffset
  have hwatched : state.watched = true := by
    simpa [TriggerState.Watching, hwaiting] using run_watching run
  have hcaught : state.file.content.length ≤ state.file.offset :=
    Watcher.run_caughtUp hbuffer hrun rfl hwatched
      (by simp [TriggerState.watcher, hqueued])
      (by simp [TriggerState.watcher, hwaiting, Location.looksAgain]) hannounced
  have hbounded : state.file.offset ≤ state.file.content.length := by
    calc state.file.offset ≤ max offset state.file.content.length := hconsistent.bounded
      _ = state.file.content.length := Nat.max_eq_right hoffset
  exact Nat.le_antisymm hbounded hcaught

/-- A file of one byte to which another one is appended between the constructor's
read and the start of the worker. -/
theorem linux_trigger_catches_early_append :
    ∃ actions state, Run (Step 1 true) (.initial [1] 0 0) actions state ∧
      state.location = .waiting ∧ state.queued = 0 ∧ state.unannounced = 0 ∧
      state.file.chunks = [[1], [2]] ∧
      state.file.offset = state.file.content.length := by
  have hread : Run (Step 1 true) (.initial [1] 0 0)
      [.inotifyInit, .addWatch, .resizeBuffer, .read (.bytes 1), .callbackReturns] _ :=
    ((((Run.nil.snoc (.inotifyInit rfl)).snoc (.addWatch rfl)).snoc (.resizeBuffer rfl)).snoc
      (.read rfl (.bytes 1 (by decide) (by decide) (by decide)))).snoc (.callbackReturns rfl)
  have hended := hread.snoc (.read rfl (.endOfFile (.inl rfl)))
  have hnotified := (hended.snoc (.append [2])).snoc (.notify false (by decide))
  have hstarted := (hnotified.snoc (.openPipe rfl)).snoc (.startThread rfl)
  have hwaiting := ((hstarted.snoc (.epollCreate rfl)).snoc (.epollAddTarget rfl)).snoc
    (.epollAddExit rfl)
  have hdrained := (((hwaiting.snoc (.epollReturns [.target] rfl
    (by decide) (by decide) (by decide))).snoc (.handleTarget rfl)).snoc
    (.drain 1 rfl (by decide) (by decide))).snoc (.endDrain rfl)
  have hdelivered := (hdrained.snoc
    (.read rfl (.bytes 1 (by decide) (by decide) (by decide)))).snoc
    (.callbackReturns rfl)
  have hagain := (hdelivered.snoc (.read rfl (.endOfFile (.inl rfl)))).snoc (.endEvents rfl)
  refine ⟨_, _, hagain, rfl, rfl, rfl, rfl, ?_⟩
  exact (linux_trigger_misses_nothing (by decide) hagain).2.2 rfl rfl rfl (by decide)

/-- The handle of an empty file that is positioned at 5: the worker waits at this
offset, with no event queued and no append on the way, and the file has no byte. -/
theorem linux_trigger_waits_behind_end :
    ∃ actions state, Run (Step 1 true) (.initial [] 5 0) actions state ∧
      state.location = .waiting ∧ state.queued = 0 ∧ state.unannounced = 0 ∧
      state.file.offset ≠ state.file.content.length := by
  have hread : Run (Step 1 true) (.initial [] 5 0)
      [.inotifyInit, .addWatch, .resizeBuffer, .read .endOfFile] _ :=
    (((Run.nil.snoc (.inotifyInit rfl)).snoc (.addWatch rfl)).snoc (.resizeBuffer rfl)).snoc
      (.read rfl (.endOfFile (.inl rfl)))
  have hstarted := (hread.snoc (.openPipe rfl)).snoc (.startThread rfl)
  have hwaiting := ((hstarted.snoc (.epollCreate rfl)).snoc (.epollAddTarget rfl)).snoc
    (.epollAddExit rfl)
  exact ⟨_, _, hwaiting, rfl, rfl, rfl, by decide⟩

end Nstl.FileTrigger.Linux
