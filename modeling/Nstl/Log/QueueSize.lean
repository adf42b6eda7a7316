import Mathlib.Algebra.Group.Int.Defs
import Mathlib.Algebra.Group.Nat.Defs
import Nstl.Log.Throttle

/-!
# The size of a log

`Logger::size` is the size of the queue, a signed number that counts pushes and
started pops, converted to `size_t`.  It counts the empty item of `stop` like a line,
and it is one less while the worker waits in `pop`; on an empty queue the conversion
then turns `-1` into the largest number there is.
-/

namespace Nstl.QueueSize

open Nstl.OstreamLog
open Nstl.OstreamSafety
open Nstl.Throttle (Popped pendingPops pendingPops_le popped_move)
open Nstl.Transition (Run)

variable {Producer : Type}

/-- A `ptrdiff_t` converted to `size_t`. -/
def toSizeT (value : ℤ) : ℕ :=
  (value % 2 ^ 64).toNat

/-- `OstreamLog::size`. -/
def ostreamLogSize (state : LogState Producer) : ℕ :=
  toSizeT state.queueSize

/-- `Logger::size`; a `Logger` that was reset has no log. -/
def loggerSize (log : Option (LogState Producer)) : ℕ :=
  match log with
  | some state => ostreamLogSize state
  | none => 0

/-- The lines that were pushed so far. -/
def linesPushed (state : LogState Producer) : List (Entry Producer) :=
  state.enqueued.filterMap id

/-- The empty items. -/
def sentinels (items : List (Option (Entry Producer))) : ℕ :=
  items.countP Option.isNone

@[simp]
theorem sentinels_append (items more : List (Option (Entry Producer))) :
    sentinels (items ++ more) = sentinels items + sentinels more :=
  List.countP_append ..

/-- An item is a line or empty. -/
theorem length_eq (items : List (Option (Entry Producer))) :
    items.length = (items.filterMap id).length + sentinels items := by
  induction items with
  | nil => rfl
  | cons item items ih =>
      cases item with
      | none => simp [sentinels] at ih ⊢; omega
      | some entry => simp [sentinels] at ih ⊢; omega

/-- What the size of a log rests on. -/
structure Counted (state : LogState Producer) : Prop where
  fifo : Fifo state
  popped : Popped state
  stopping : Stopping state
  sentinel : sentinels state.enqueued ≤ 1

theorem counted_started (limit : ℤ) : Counted (LogState.started limit : LogState Producer) where
  fifo := rfl
  popped := rfl
  stopping := ⟨fun _ => rfl, fun _ => List.not_mem_nil, fun hfalse => hfalse.elim⟩
  sentinel := Nat.zero_le 1

theorem counted_move [DecidableEq Producer] {closes : Bool} {state next : LogState Producer}
    {action : Action Producer} (hmove : Move closes state action next)
    (hcounted : Counted state) : Counted next where
  fifo := fifo_move hmove hcounted.fifo
  popped := popped_move hmove hcounted.popped
  stopping := stopping_move hmove hcounted.stopping
  sentinel := by
    have hone := hcounted.sentinel
    cases hmove with
    | pushEnqueue hpassed => simpa [sentinels] using hone
    | stopEnqueue hstop =>
        -- The first call of `stop` that gets here finds no empty item in the queue.
        have hnone : none ∉ state.enqueued :=
          hcounted.stopping.sentinel (by simp [hstop, SentinelPending])
        have hzero : sentinels state.enqueued = 0 := by
          rw [sentinels, List.countP_eq_zero]
          intro item hitem hempty
          exact hnone (Option.isNone_iff_eq_none.1 hempty ▸ hitem)
        rw [sentinels_append, hzero]
        exact Nat.le_refl 1
    | _ => exact hone

/-- The signed size is the number of items in the queue, less the one that the worker
waits for. -/
theorem queueSize_eq {state : LogState Producer} (hcounted : Counted state) :
    state.queueSize = (linesInQueue state).length + sentinels state.queue -
      pendingPops state.worker := by
  have hitems := length_eq state.queue
  have hfifo := congrArg List.length hcounted.fifo
  have hpopped := hcounted.popped
  rw [Popped] at hpopped
  simp only [List.length_append, List.length_map] at hfifo
  rw [LogState.queueSize, linesInQueue]
  omega

theorem sentinels_queue_le {state : LogState Producer} (hcounted : Counted state) :
    sentinels state.queue ≤ 1 := by
  have hone := hcounted.sentinel
  rw [hcounted.fifo, sentinels_append, sentinels_append] at hone
  omega

theorem length_linesInQueue_le {state : LogState Producer} (hcounted : Counted state) :
    (linesInQueue state).length ≤ (linesPushed state).length := by
  rw [linesInQueue, linesPushed, hcounted.fifo, List.filterMap_append, List.filterMap_append,
    List.length_append, List.length_append]
  omega

section Runs

variable [DecidableEq Producer] {closes : Bool} {limit : ℤ} {actions : List (Action Producer)}
  {state : LogState Producer}

theorem counted_run (run : Run (Step closes) (LogState.started limit) actions state) :
    Counted state :=
  run.invariant Counted (counted_started limit)
    fun _ _ _ hbefore hstep => counted_move hstep.2 hbefore

/-- At every point of every run the size is the number of lines in the queue exactly if
there are as many empty items in the queue as pops that have started and taken nothing,
and the number can be told in 64 bits; it is then no larger than the number of lines
pushed. -/
theorem loggerSize_eq_iff (run : Run (Step closes) (LogState.started limit) actions state) :
    (loggerSize (some state) = (linesInQueue state).length ↔
      sentinels state.queue = pendingPops state.worker ∧
        (linesInQueue state).length < 2 ^ 64) ∧
    (loggerSize (some state) = (linesInQueue state).length →
      loggerSize (some state) ≤ (linesPushed state).length) := by
  have hcounted := counted_run run
  have hsize := queueSize_eq hcounted
  have hsentinel := sentinels_queue_le hcounted
  have hpending := pendingPops_le state.worker
  have hpushed := length_linesInQueue_le hcounted
  rw [loggerSize, ostreamLogSize, toSizeT, hsize]
  constructor
  · omega
  · intro heq
    rw [heq]
    exact hpushed

end Runs

/-- A line in the queue while the worker has not come back to `pop`. -/
theorem loggerSize_eq_line :
    ∃ state : LogState Unit, linesInQueue state = [⟨(), 0, [97]⟩] ∧
      loggerSize (some state) = 1 := by
  have hrun : Run (Step false) (LogState.started 8 : LogState Unit)
      [.pushCall () [97] .info, .pushCheck (), .pushEnqueue ()] _ :=
    .snoc (.snoc (.snoc .nil ⟨by rfl, .pushCall (by rfl)⟩)
      ⟨by rfl, .pushPassed (by rfl) (by decide)⟩) ⟨by rfl, .pushEnqueue (by rfl)⟩
  exact ⟨_, rfl, (loggerSize_eq_iff hrun).1.2 ⟨rfl, by decide⟩⟩

/-- Nothing was ever pushed and the worker waits: the size is the largest `size_t`. -/
theorem idle_loggerSize :
    ∃ state : LogState Unit, Run (Step false) (LogState.started 8) [.popStart] state ∧
      linesInQueue state = [] ∧ linesPushed state = [] ∧
      loggerSize (some state) = 2 ^ 64 - 1 :=
  ⟨_, .snoc .nil ⟨by rfl, .popStart (by rfl)⟩, rfl, rfl, by decide⟩

end Nstl.QueueSize
