import Nstl.FileTrigger.Watcher

/-!
# The file trigger for macOS

The constructor of `file_trigger_apple` reads the file to its end and starts the
worker, and it is the worker that registers the file with the kernel queue.  A
write to the file triggers the registered event; `EV_CLEAR` resets the event when
`kevent` reports it.  An append whose event would come before the registration
triggers nothing.

Every system call, and every run of the callback, is a step of its own.
-/

namespace Nstl.FileTrigger.Apple

open Nstl.ByteString
open Nstl.Transition

/-- The next thing that the constructor, or after it the worker, does. -/
inductive Location where
  | createQueue
  | resizeBuffer
  | reading (site : Site)
  | calling (site : Site)
  | openPipe
  | startThread
  | registerEvents
  | waiting
  | handling (events : List Source) (exitRequested : Bool)
  /-- The constructor has thrown. -/
  | failed
  /-- The worker has returned, or has caught an exception. -/
  | exited
  deriving DecidableEq, Repr

structure TriggerState extends Follower where
  location : Location
  registered : Bool
  /-- Whether the event on the file was triggered since it was last reported. -/
  triggered : Bool
  /-- Whether the exit pipe has something to read. -/
  exitSignal : Bool
  running : Bool
  stop : StopState

/-- The trigger at the start of its constructor. -/
def TriggerState.initial (content : Bytes) (offset unannounced : ℕ) : TriggerState where
  toFollower := .opened content offset unannounced
  location := .createQueue
  registered := false
  triggered := false
  exitSignal := false
  running := true
  stop := .notCalled

/-- What `kevent` can report. -/
def TriggerState.ready (state : TriggerState) : Source → Bool
  | .target => state.triggered
  | .exit => state.exitSignal

/-- The locations of the constructor outside of the read loop. -/
def Location.inConstructor : Location → Bool
  | .createQueue | .resizeBuffer | .openPipe | .startThread => true
  | _ => false

/-- The checked system calls of the worker. -/
def Location.checked : Location → Bool
  | .registerEvents | .waiting => true
  | _ => false

/-- The locations of the worker thread. -/
def Location.inWorker : Location → Bool
  | .reading (.event _ _) | .calling (.event _ _) | .registerEvents | .waiting
  | .handling _ _ | .exited => true
  | _ => false

/-- Where the read loop leads. -/
def Location.loop : LoopSites Location where
  reading := .reading
  calling := .calling
  openPipe := .openPipe
  handling := .handling
  failed := .failed
  exited := .exited

/-- The test after the loop over the events. -/
def Location.afterEvents (exitRequested : Bool) : Location :=
  if exitRequested then .exited else .waiting

/-- The event of an append. -/
def TriggerState.notify (state : TriggerState) : TriggerState :=
  { state with
    toFollower := state.toFollower.announce
    triggered := state.triggered || state.registered }

inductive Action where
  | append (bytes : Bytes)
  | notify
  | createQueue
  | resizeBuffer
  | openPipe
  | startThread
  | constructorThrows
  | read (result : ReadResult)
  | callbackReturns
  | callbackThrows
  | registerEvents
  | workerThrows
  | keventInterrupted
  | keventReturns (events : List Source)
  | handleEvent
  | endEvents
  | stopExchange
  | stopWrite
  | stopThrows
  | stopJoin

/-- The transitions. -/
inductive Step (bufferSize : ℕ) (sow : Bool) : TriggerState → Action → TriggerState → Prop
  | append {state} (bytes : Bytes) :
      Step bufferSize sow state (.append bytes)
        { state with toFollower := state.toFollower.append bytes }
  | notify {state} (hunannounced : 0 < state.unannounced) :
      Step bufferSize sow state .notify state.notify
  | createQueue {state} (hlocation : state.location = .createQueue) :
      Step bufferSize sow state .createQueue { state with location := .resizeBuffer }
  | resizeBuffer {state} (hlocation : state.location = .resizeBuffer) :
      Step bufferSize sow state .resizeBuffer
        { state with location := .reading .constructor }
  | openPipe {state} (hlocation : state.location = .openPipe) :
      Step bufferSize sow state .openPipe { state with location := .startThread }
  | startThread {state} (hlocation : state.location = .startThread) :
      Step bufferSize sow state .startThread { state with location := .registerEvents }
  | constructorThrows {state} (hlocation : state.location.inConstructor = true) :
      Step bufferSize sow state .constructorThrows { state with location := .failed }
  | read {state site result} (hlocation : state.location = .reading site)
      (hreads : Reads bufferSize state.file result) :
      Step bufferSize sow state (.read result)
        { state with
          toFollower := state.toFollower.read sow site result
          location := Location.loop.afterRead site (readData (site.exec sow) state.file result).2 }
  | callbackReturns {state site} (hlocation : state.location = .calling site) :
      Step bufferSize sow state .callbackReturns { state with location := .reading site }
  | callbackThrows {state site} (hlocation : state.location = .calling site) :
      Step bufferSize sow state .callbackThrows
        { state with location := Location.loop.afterThrow site }
  | registerEvents {state} (hlocation : state.location = .registerEvents) :
      Step bufferSize sow state .registerEvents
        { state with location := .waiting, registered := true }
  | workerThrows {state} (hlocation : state.location.checked = true) :
      Step bufferSize sow state .workerThrows { state with location := .exited }
  | keventInterrupted {state} (hlocation : state.location = .waiting) :
      Step bufferSize sow state .keventInterrupted state
  | keventReturns {state} (events : List Source) (hlocation : state.location = .waiting)
      (hsome : events ≠ []) (hnodup : events.Nodup)
      (hready : ∀ source ∈ events, state.ready source = true) :
      Step bufferSize sow state (.keventReturns events)
        { state with
          location := .handling events false
          triggered := state.triggered && !events.contains .target }
  | handleTarget {state rest exitRequested}
      (hlocation : state.location = .handling (.target :: rest) exitRequested) :
      Step bufferSize sow state .handleEvent
        { state with location := .reading (.event rest exitRequested) }
  | handleExit {state rest exitRequested}
      (hlocation : state.location = .handling (.exit :: rest) exitRequested) :
      Step bufferSize sow state .handleEvent { state with location := .handling rest true }
  | endEvents {state exitRequested}
      (hlocation : state.location = .handling [] exitRequested) :
      Step bufferSize sow state .endEvents
        { state with location := .afterEvents exitRequested }
  | stopExchange {state} (hlocation : state.location.inWorker = true) :
      Step bufferSize sow state .stopExchange
        { state with
          running := false
          stop := if state.running then .writing else state.stop }
  | stopWrite {state} (hstop : state.stop = .writing) :
      Step bufferSize sow state .stopWrite
        { state with exitSignal := true, stop := .joining }
  | stopThrows {state} (hstop : state.stop = .writing) :
      Step bufferSize sow state .stopThrows { state with stop := .thrown }
  | stopJoin {state} (hstop : state.stop = .joining) (hlocation : state.location = .exited) :
      Step bufferSize sow state .stopJoin { state with stop := .returned }

/-! ## When no append is missed -/

/-- Whether the constructor's read has still to end. -/
def Location.stage : Location → Stage
  | .createQueue | .resizeBuffer => some true
  | .reading site | .calling site => site.stage
  | .failed | .exited => none
  | _ => some false

/-- Whether the file will be read to its end before the next wait.  Constructors
and workers that have thrown do not wait any more. -/
def Location.looksAgain : Location → Bool
  | .openPipe | .startThread | .registerEvents | .waiting => false
  | .handling events _ => events.contains .target
  | _ => true

/-- The trigger with the registered event as its alarm. -/
def TriggerState.watcher (state : TriggerState) : Watcher where
  follower := state.toFollower
  stage := state.location.stage
  armed := state.registered
  pending := state.triggered
  busy := state.location.looksAgain

variable {bufferSize : ℕ} {sow : Bool} {state next : TriggerState} {action : Action}

theorem loop_agrees : Location.loop.Agrees Location.stage Location.looksAgain where
  reading _ := ⟨rfl, rfl⟩
  calling _ := ⟨rfl, rfl⟩
  openPipe := rfl
  handling _ _ := rfl
  failed := ⟨rfl, rfl⟩
  exited := ⟨rfl, rfl⟩

/-- Reporting the event on the file makes the worker read. -/
theorem watcher_keventReturns (events : List Source) (hlocation : state.location = .waiting) :
    ∃ event, event ≠ .arm ∧ Watcher.Step bufferSize sow state.watcher event
      (TriggerState.watcher
        { state with
          location := .handling events false
          triggered := state.triggered && !events.contains .target }) := by
  cases htarget : events.contains Source.target with
  | true =>
      refine ⟨.wake, nofun, ?_⟩
      simp only [TriggerState.watcher, hlocation, Location.looksAgain, htarget, Location.stage]
      exact .wake fun hfalse => by simp at hfalse
  | false =>
      refine ⟨.move, nofun, .moved rfl rfl ?_ (.inr ?_) (.inr ?_)⟩
      · exact Bool.and_true _
      · exact (congrArg Location.stage hlocation).symm
      · exact htarget.trans (congrArg Location.looksAgain hlocation).symm

/-- Every step of the trigger is a step of the watcher, which arms its alarm when the
event is registered. -/
theorem Step.refines (hstep : Step bufferSize sow state action next) :
    ∃ event, (event = .arm → action = .registerEvents) ∧
      Watcher.Step bufferSize sow state.watcher event next.watcher := by
  cases hstep with
  | append bytes => exact ⟨.append bytes, nofun, .append bytes⟩
  | notify hunannounced => exact ⟨.announce, nofun, .announce hunannounced⟩
  | registerEvents hlocation =>
      refine ⟨.arm, fun _ => rfl, ?_⟩
      simp only [TriggerState.watcher, hlocation]
      exact .arm
  | @read site result hlocation hreads =>
      refine ⟨.read site result, nofun, ?_⟩
      simp only [TriggerState.watcher, hlocation, loop_agrees.stage_afterRead]
      exact .read rfl rfl hreads loop_agrees.looksAgain_afterRead
  | keventReturns events hlocation =>
      obtain ⟨event, hevent, hwatcher⟩ := watcher_keventReturns events hlocation
      exact ⟨event, fun harm => absurd harm hevent, hwatcher⟩
  | constructorThrows | workerThrows =>
      exact ⟨.move, nofun, .moved rfl rfl rfl (.inl rfl) (.inl rfl)⟩
  | @callbackThrows site hlocation =>
      cases site <;> exact ⟨.move, nofun, .moved rfl rfl rfl (.inl rfl) (.inl rfl)⟩
  | @endEvents exitRequested hlocation =>
      cases exitRequested with
      | true => exact ⟨.move, nofun, .moved rfl rfl rfl (.inl rfl) (.inl rfl)⟩
      | false =>
          exact ⟨.move, nofun, .moved rfl rfl rfl
            (.inr (congrArg Location.stage hlocation).symm)
            (.inr (congrArg Location.looksAgain hlocation).symm)⟩
  | createQueue hlocation | resizeBuffer hlocation | openPipe hlocation
  | startThread hlocation | handleTarget hlocation | handleExit hlocation
  | callbackReturns hlocation =>
      exact ⟨.move, nofun, .moved rfl rfl rfl
        (.inr (congrArg Location.stage hlocation).symm)
        (.inr (congrArg Location.looksAgain hlocation).symm)⟩
  | keventInterrupted | stopExchange | stopWrite | stopThrows | stopJoin =>
      exact ⟨.move, nofun, .moved rfl rfl rfl (.inr rfl) (.inr rfl)⟩

/-- Whether the event on the file has been registered, or `none` after a failure. -/
def Location.registered : Location → Option Bool
  | .reading (.event _ _) | .calling (.event _ _) | .waiting | .handling _ _ => some true
  | .failed | .exited => none
  | _ => some false

/-- The event is not triggered before it is registered. -/
def TriggerState.Registered (state : TriggerState) : Prop :=
  ∀ registered, state.location.registered = some registered →
    state.registered = registered ∧ (registered = false → state.triggered = false)

theorem TriggerState.Registered.move (hregistered : state.Registered)
    (hsame : next.registered = state.registered)
    (htriggered : next.triggered = true → state.triggered = true)
    (hlocation : next.location.registered = none ∨
      next.location.registered = state.location.registered) : next.Registered := by
  intro registered hnext
  cases hlocation with
  | inl hnone => exact nomatch hnone.symm.trans hnext
  | inr heq =>
      have hbefore := hregistered registered (heq.symm.trans hnext)
      refine ⟨hsame.trans hbefore.1, fun hfalse => ?_⟩
      exact Bool.eq_false_iff.2 fun htrue =>
        nomatch (hbefore.2 hfalse).symm.trans (htriggered htrue)

theorem registered_afterRead (site : Site) (next : ReadNext) :
    (Location.loop.afterRead site next).registered = none ∨
      (Location.loop.afterRead site next).registered = (Location.reading site).registered := by
  cases next <;> cases site <;> simp [Location.loop, LoopSites.afterRead,
    LoopSites.afterReadData, LoopSites.afterThrow, Location.registered]

theorem Step.registered (hstep : Step bufferSize sow state action next)
    (hregistered : state.Registered) : next.Registered := by
  cases hstep with
  | registerEvents hlocation =>
      intro registered hnext
      cases hnext
      exact ⟨rfl, nofun⟩
  | notify hunannounced =>
      intro registered hlocation
      have hbefore := hregistered registered hlocation
      refine ⟨hbefore.1, fun hfalse => ?_⟩
      have hcalm := hbefore.2 hfalse
      simp [TriggerState.notify, hcalm, hbefore.1, hfalse]
  | @read site result hlocation hreads =>
      refine hregistered.move rfl id ?_
      rw [hlocation]
      exact registered_afterRead site _
  | keventReturns events hlocation =>
      refine hregistered.move rfl (fun htrue => ?_) (.inr (by rw [hlocation]; rfl))
      exact (Bool.and_eq_true_iff.1 htrue).1
  | constructorThrows | workerThrows => exact hregistered.move rfl id (.inl rfl)
  | @callbackThrows site hlocation =>
      cases site <;> exact hregistered.move rfl id (.inl rfl)
  | @callbackReturns site hlocation =>
      cases site <;> exact hregistered.move rfl id (.inr (by rw [hlocation]; rfl))
  | @endEvents exitRequested hlocation =>
      cases exitRequested with
      | true => exact hregistered.move rfl id (.inl rfl)
      | false => exact hregistered.move rfl id (.inr (by rw [hlocation]; rfl))
  | createQueue hlocation | resizeBuffer hlocation | openPipe hlocation
  | startThread hlocation | handleTarget hlocation | handleExit hlocation =>
      exact hregistered.move rfl id (.inr (by rw [hlocation]; rfl))
  | append | keventInterrupted | stopExchange | stopWrite | stopThrows | stopJoin =>
      exact hregistered.move rfl id (.inr rfl)

section Runs

variable {content : Bytes} {offset unannounced : ℕ} {actions : List Action}

theorem run_registered
    (run : Run (Step bufferSize sow) (.initial content offset unannounced) actions state) :
    state.Registered := by
  apply run.invariant TriggerState.Registered
  · intro registered hregistered
    cases hregistered
    exact ⟨rfl, fun _ => rfl⟩
  · exact fun _ _ _ hbefore hstep => hstep.registered hbefore

theorem run_consistent
    (run : Run (Step bufferSize sow) (.initial content offset unannounced) actions state) :
    state.toFollower.Consistent sow offset := by
  obtain ⟨_, events, hrun⟩ := run.viewed TriggerState.watcher (fun _ => True) trivial
    fun _ _ _ _ hstep => ⟨trivial, .inr (hstep.refines.imp fun _ hwatcher => hwatcher.2)⟩
  exact Watcher.run_consistent hrun rfl rfl

/-- Everything in the file was read, or an append has still to give its event. -/
def TriggerState.UpToDate (state : TriggerState) : Prop :=
  state.file.content.length ≤ state.file.offset ∨ 0 < state.unannounced

/-- A step that does not register the event behind an append. -/
def SafeStep (bufferSize : ℕ) (sow : Bool) (state : TriggerState) (action : Action)
    (next : TriggerState) : Prop :=
  Step bufferSize sow state action next ∧ (action = .registerEvents → state.UpToDate)

theorem SafeStep.refines (hsafe : SafeStep bufferSize sow state action next) :
    ∃ event, Watcher.SafeStep bufferSize sow state.watcher event next.watcher := by
  obtain ⟨event, harm, hstep⟩ := hsafe.1.refines
  refine ⟨event, hstep, fun hevent => ?_⟩
  cases hsafe.2 (harm hevent) with
  | inl hread => exact .inl hread
  | inr hunannounced => exact .inr (.inl hunannounced)

/-- A worker that waits, with no event and no append on the way, has handed the
callback every byte of the file from the start point on, once and in order. -/
def TriggerState.Delivered (sow : Bool) (initial : ℕ) (state : TriggerState) : Prop :=
  state.location = .waiting → state.triggered = false → state.unannounced = 0 →
    state.file.chunks.flatten = state.file.content.drop (state.startPoint sow initial)

theorem delivered_of_safe (hbuffer : 1 ≤ bufferSize)
    (run : Run (SafeStep bufferSize sow) (.initial content offset unannounced) actions state) :
    state.Delivered sow offset := by
  intro hwaiting htriggered hannounced
  have hrun := run.mono fun _ _ _ hsafe => hsafe.1
  have hregistered : state.registered = true :=
    (run_registered hrun true (by rw [hwaiting]; rfl)).1
  obtain ⟨_, events, hwatcher⟩ := run.viewed TriggerState.watcher (fun _ => True) trivial
    fun _ _ _ _ hsafe => ⟨trivial, .inr hsafe.refines⟩
  have hcaught : state.file.content.length ≤ state.file.offset :=
    Watcher.run_caughtUp hbuffer hwatcher rfl hregistered htriggered
      (by simp [TriggerState.watcher, hwaiting, Location.looksAgain]) hannounced
  exact (run_consistent hrun).faithful.complete_iff.2 hcaught

/-- Registering the event decides: the append that it comes too late for is missing
from then on. -/
theorem delivered_register_iff
    (run : Run (Step bufferSize sow) (.initial content offset unannounced) actions state)
    (hstep : Step bufferSize sow state .registerEvents next) :
    next.Delivered sow offset ↔ state.UpToDate := by
  cases hstep with
  | registerEvents hlocation =>
      have hcalm : state.triggered = false :=
        (run_registered run false (by rw [hlocation]; rfl)).2 rfl
      have hcomplete := (run_consistent run).faithful.complete_iff
      constructor
      · intro hdelivered
        cases Nat.eq_zero_or_pos state.unannounced with
        | inl hannounced => exact .inl (hcomplete.1 (hdelivered rfl hcalm hannounced))
        | inr hunannounced => exact .inr hunannounced
      · intro huptodate _ _ hannounced
        apply hcomplete.2
        apply huptodate.resolve_right
        exact Nat.not_lt.2 (Nat.le_of_eq hannounced)

/-- Nothing is missed in the runs that register the event while no append is behind
it, and in every run that step decides whether something is. -/
theorem apple_trigger_misses_nothing_iff (hbuffer : 1 ≤ bufferSize) :
    (∀ actions state,
      Run (SafeStep bufferSize sow) (.initial content offset unannounced) actions state →
        state.Delivered sow offset) ∧
      ∀ actions state next,
        Run (Step bufferSize sow) (.initial content offset unannounced) actions state →
        Step bufferSize sow state .registerEvents next →
          (next.Delivered sow offset ↔ state.UpToDate) :=
  ⟨fun _ _ run => delivered_of_safe hbuffer run,
    fun _ _ _ run hstep => delivered_register_iff run hstep⟩

/-- A byte that is appended after the registration is delivered. -/
theorem apple_trigger_delivers_late_append :
    ∃ actions state, Run (SafeStep 1 false) (.initial [] 0 0) actions state ∧
      state.location = .waiting ∧ state.triggered = false ∧ state.unannounced = 0 ∧
      state.file.content = [7] ∧
      state.file.chunks.flatten = state.file.content.drop (state.startPoint false 0) := by
  have hread : Run (SafeStep 1 false) (.initial [] 0 0)
      [.createQueue, .resizeBuffer, .read .endOfFile] _ :=
    ((Run.nil.snoc ⟨.createQueue rfl, nofun⟩).snoc ⟨.resizeBuffer rfl, nofun⟩).snoc
      ⟨.read rfl (.endOfFile (.inl rfl)), nofun⟩
  have hregistered := ((hread.snoc ⟨.openPipe rfl, nofun⟩).snoc ⟨.startThread rfl, nofun⟩).snoc
    ⟨.registerEvents rfl, fun _ => .inl (Nat.le_refl _)⟩
  have hnotified := (hregistered.snoc ⟨.append [7], nofun⟩).snoc ⟨.notify (by decide), nofun⟩
  have hwoken := (hnotified.snoc ⟨.keventReturns [.target] rfl (by decide) (by decide)
    (by decide), nofun⟩).snoc ⟨.handleTarget rfl, nofun⟩
  have hcalled := (hwoken.snoc ⟨.read rfl (.bytes 1 (by decide) (by decide) (by decide)),
    nofun⟩).snoc ⟨.callbackReturns rfl, nofun⟩
  have hwaiting := (hcalled.snoc ⟨.read rfl (.endOfFile (.inl rfl)), nofun⟩).snoc
    ⟨.endEvents rfl, nofun⟩
  refine ⟨_, _, hwaiting, rfl, rfl, rfl, rfl, ?_⟩
  exact (apple_trigger_misses_nothing_iff (by decide)).1 _ _ hwaiting rfl rfl rfl

/-- A byte that is appended between the constructor's read and the registration is
not delivered, and the worker waits. -/
theorem apple_trigger_misses_early_append :
    ∃ actions state, Run (Step 1 false) (.initial [] 0 0) actions state ∧
      state.location = .waiting ∧ state.triggered = false ∧ state.unannounced = 0 ∧
      state.file.content = [7] ∧ state.startPoint false 0 = 0 ∧
      state.file.chunks.flatten ≠ state.file.content.drop (state.startPoint false 0) := by
  have hread : Run (Step 1 false) (.initial [] 0 0)
      [.createQueue, .resizeBuffer, .read .endOfFile] _ :=
    ((Run.nil.snoc (.createQueue rfl)).snoc (.resizeBuffer rfl)).snoc
      (.read rfl (.endOfFile (.inl rfl)))
  have hnotified := (hread.snoc (.append [7])).snoc (.notify (by decide))
  have hregistered := ((hnotified.snoc (.openPipe rfl)).snoc (.startThread rfl)).snoc
    (.registerEvents rfl)
  exact ⟨_, _, hregistered, rfl, rfl, rfl, rfl, rfl, nofun⟩

end Runs

end Nstl.FileTrigger.Apple
