import Nstl.Core.Admission
import Nstl.Log.OstreamSafety

/-!
# The throttle

`push` compares the throttle size with the size of the queue and enqueues its line in
a second step.  The size counts a line no more once a pop has been started for it, so
what the comparison bounds is the number of unclaimed lines, those behind the started
pops; a line that a started pop has still to take is in the queue as well.  Seen from
the unclaimed lines the producers are threads at a gate that look and enter.
-/

namespace Nstl.Throttle

open Function
open Nstl.Admission
open Nstl.OstreamLog
open Nstl.OstreamSafety (Fifo fifo_move inHand)
open Nstl.Transition (Run)

variable {Producer : Type}

/-- The lines in the queue that no pop has been started for. -/
def unclaimed (state : LogState Producer) : List (Entry Producer) :=
  (state.enqueued.drop state.startedPops).filterMap id

/-- The producer has made its comparison and is about to enqueue. -/
def hasPassed : PushState Producer → Bool
  | .passed _ _ => true
  | _ => false

/-! ## The unclaimed lines -/

section Unclaimed

variable {items : List (Option (Entry Producer))} {pops : ℕ}

theorem length_filterMap_drop_append (items : List (Option (Entry Producer)))
    (entry : Entry Producer) (pops : ℕ) :
    (((items ++ [some entry]).drop pops).filterMap id).length ≤
      ((items.drop pops).filterMap id).length + 1 := by
  rw [List.drop_append, List.filterMap_append, List.length_append]
  apply Nat.add_le_add_left
  apply Nat.le_trans (List.length_filterMap_le _ _)
  rw [List.length_drop, List.length_singleton]
  exact Nat.sub_le _ _

theorem filterMap_drop_append_none (items : List (Option (Entry Producer))) (pops : ℕ) :
    ((items ++ [none]).drop pops).filterMap id = (items.drop pops).filterMap id := by
  rw [List.drop_append, List.filterMap_append]
  cases pops - items.length with
  | zero => simp
  | succ count => simp

theorem length_filterMap_drop_succ (items : List (Option (Entry Producer))) (pops : ℕ) :
    ((items.drop (pops + 1)).filterMap id).length ≤ ((items.drop pops).filterMap id).length := by
  rw [← List.drop_drop]
  exact ((List.drop_sublist 1 _).filterMap id).length_le

/-- Not more lines are unclaimed than the size says. -/
theorem length_unclaimed_le {state : LogState Producer} {limit : ℤ} (hlimit : 0 ≤ limit)
    (hsize : ¬limit < state.queueSize) : (unclaimed state).length ≤ limit.toNat := by
  have hlength : (unclaimed state).length ≤ state.enqueued.length - state.startedPops := by
    rw [← List.length_drop]
    exact List.length_filterMap_le _ _
  rw [LogState.queueSize] at hsize
  omega

end Unclaimed

/-! ## The producers at the gate -/

section Gate

variable [Fintype Producer] [DecidableEq Producer]

def gate (state : LogState Producer) : Gate where
  waiting := (unclaimed state).length
  admitted := count hasPassed state.push

variable {closes : Bool} {limit : ℤ} {state next : LogState Producer}
  {action : Action Producer}

/-- A producer goes on without having passed the comparison, before or after. -/
theorem count_hasPassed (push : Producer → PushState Producer) {producer : Producer}
    {before after : PushState Producer} (hpush : push producer = before)
    (hbefore : hasPassed before = false) (hafter : hasPassed after = false) :
    count hasPassed (update push producer after) = count hasPassed push :=
  count_update_of_not hasPassed push producer hafter (by rw [hpush, hbefore])

/-- Every move is a step at the gate, or cannot be seen from there. -/
theorem gate_move (hlimit : 0 ≤ limit) (hthrottle : state.throttleSize = limit)
    (hmove : Move closes state action next) :
    gate next = gate state ∨
      ∃ event, Step limit.toNat (Fintype.card Producer) (gate state) event (gate next) := by
  have hsame : ∀ push : Producer → PushState Producer,
      count hasPassed push = count hasPassed state.push →
        (⟨(unclaimed state).length, count hasPassed push⟩ : Gate) = gate state := by
    intro push hcount
    rw [hcount, gate]
  cases hmove with
  | pushCall hpush | pushThrottled hpush | pushReturn hpush | pushStop hpush
  | pushRefused hpush =>
      exact Or.inl (hsame _ (count_hasPassed _ hpush rfl rfl))
  | @pushPassed producer text level hchecking hfits =>
      have hcount : count hasPassed (update state.push producer (.passed text level)) =
          count hasPassed state.push + 1 :=
        count_enter hasPassed _ _ rfl (by simp [hchecking, hasPassed])
      have hthread := count_le_card hasPassed (update state.push producer (.passed text level))
      rw [hcount] at hthread
      have hlook : Step limit.toNat (Fintype.card Producer) (gate state) .look
          ⟨(unclaimed state).length, count hasPassed state.push + 1⟩ :=
        .look (length_unclaimed_le hlimit (hthrottle ▸ hfits)) hthread
      rw [← hcount] at hlook
      exact Or.inr ⟨.look, hlook⟩
  | @pushEnqueue producer text level hpassed =>
      have hcount : count hasPassed (update state.push producer
          (.queued ⟨producer, state.calls producer, text⟩ level)) + 1 =
            count hasPassed state.push :=
        count_leave hasPassed _ _ rfl (by simp [hpassed, hasPassed])
      refine Or.inr ⟨.enter, .enter hcount.symm ?_⟩
      exact length_filterMap_drop_append _ _ _
  | popStart hidle =>
      exact Or.inr ⟨.serve, .serve (length_filterMap_drop_succ _ _)⟩
  | stopEnqueue hstop =>
      apply Or.inl
      rw [gate, unclaimed, filterMap_drop_append_none]
      rfl
  | _ => exact Or.inl rfl

end Gate

/-! ## The line that is being popped -/

/-- The pops that have been started and have not taken an item. -/
def pendingPops : WorkerState Producer → ℕ
  | .popping => 1
  | _ => 0

theorem pendingPops_le (worker : WorkerState Producer) : pendingPops worker ≤ 1 := by
  cases worker with
  | popping => exact Nat.le_refl 1
  | _ => exact Nat.zero_le 1

/-- Every started pop has taken an item or is about to. -/
def Popped (state : LogState Producer) : Prop :=
  state.startedPops =
    state.written.length + (inHand state.worker).length + pendingPops state.worker

theorem popped_move [DecidableEq Producer] {closes : Bool} {state next : LogState Producer}
    {action : Action Producer} (hmove : Move closes state action next)
    (hpopped : Popped state) : Popped next := by
  rw [Popped] at hpopped ⊢
  cases hmove with
  | popStart hidle => simp [hpopped, hidle, inHand, pendingPops]
  | popTake hpopping hqueue => simp [hpopped, hpopping, inHand, pendingPops]
  | write hholding => simp [hpopped, hholding, inHand, pendingPops]
  | exit hholding => simp [hpopped, hholding, inHand, pendingPops]
  | _ => exact hpopped

/-- The unclaimed lines are those in the queue, without the one that is being popped. -/
theorem unclaimed_eq {state : LogState Producer} (hfifo : Fifo state) (hpopped : Popped state) :
    unclaimed state = (state.queue.drop (pendingPops state.worker)).filterMap id := by
  have htaken : state.enqueued.drop (state.written.length + (inHand state.worker).length) =
      state.queue := by
    rw [hfifo, ← List.append_assoc]
    exact List.drop_left' (by rw [List.length_append, List.length_map])
  rw [unclaimed, hpopped, ← List.drop_drop, htaken]

theorem length_linesInQueue_le_unclaimed {state : LogState Producer} (hfifo : Fifo state)
    (hpopped : Popped state) :
    (linesInQueue state).length ≤ (unclaimed state).length + 1 := by
  have hsplit := List.take_append_drop (pendingPops state.worker) state.queue
  have hfront : ((state.queue.take (pendingPops state.worker)).filterMap id).length ≤ 1 :=
    calc
      ((state.queue.take (pendingPops state.worker)).filterMap id).length
          ≤ (state.queue.take (pendingPops state.worker)).length := List.length_filterMap_le _ _
      _ ≤ pendingPops state.worker := List.length_take_le _ _
      _ ≤ 1 := pendingPops_le _
  rw [linesInQueue, unclaimed_eq hfifo hpopped]
  calc
    (state.queue.filterMap id).length
        = ((state.queue.take (pendingPops state.worker)).filterMap id).length +
            ((state.queue.drop (pendingPops state.worker)).filterMap id).length := by
          rw [← List.length_append, ← List.filterMap_append, hsplit]
    _ ≤ ((state.queue.drop (pendingPops state.worker)).filterMap id).length + 1 := by omega

/-! ## The lines that are dropped -/

section Dropped

variable [DecidableEq Producer] {closes : Bool} {state next : LogState Producer}
  {action : Action Producer} {actions : List (Action Producer)} {start : LogState Producer}
  {limit : ℤ}

/-- A call ends without its line in the queue only where it is throttled. -/
theorem calls_cases (hmove : Move closes state action next) :
    next.calls = state.calls ∧ (∃ items, next.enqueued = state.enqueued ++ items) ∨
      (∃ producer, action = .pushCheck producer ∧ state.throttleSize < state.queueSize ∧
        next.calls = update state.calls producer (state.calls producer + 1) ∧
        next.enqueued = state.enqueued) ∨
      ∃ producer text, next.calls = update state.calls producer (state.calls producer + 1) ∧
        next.enqueued = state.enqueued ++ [some ⟨producer, state.calls producer, text⟩] := by
  cases hmove with
  | pushThrottled hchecking hfull => exact Or.inr (Or.inl ⟨_, rfl, hfull, rfl, rfl⟩)
  | pushEnqueue hpassed => exact Or.inr (Or.inr ⟨_, _, rfl, rfl⟩)
  | stopEnqueue hstop => exact Or.inl ⟨rfl, [none], rfl⟩
  | _ => exact Or.inl ⟨rfl, [], (List.append_nil _).symm⟩

/-- On the way of a run a producer, in its call with this number, compared the throttle
size with a larger size of the queue. -/
def SawFull (closes : Bool) (start : LogState Producer) (actions : List (Action Producer))
    (producer : Producer) (serial : ℕ) : Prop :=
  ∃ earlier later state, actions = earlier ++ .pushCheck producer :: later ∧
    Run (Step closes) start earlier state ∧ state.calls producer = serial ∧
    state.throttleSize < state.queueSize

/-- The line of a call is among the items, or the call saw the queue full. -/
def Accounted (closes : Bool) (start : LogState Producer) (actions : List (Action Producer))
    (items : List (Option (Entry Producer))) (producer : Producer) (serial : ℕ) : Prop :=
  (∃ text, some ⟨producer, serial, text⟩ ∈ items) ∨
    SawFull closes start actions producer serial

theorem Accounted.append {items : List (Option (Entry Producer))} {producer : Producer}
    {serial : ℕ} (haccounted : Accounted closes start actions items producer serial)
    (action : Action Producer) (more : List (Option (Entry Producer))) :
    Accounted closes start (actions ++ [action]) (items ++ more) producer serial := by
  rcases haccounted with ⟨text, hmem⟩ | ⟨earlier, later, state, rfl, run, hcalls, hfull⟩
  · exact Or.inl ⟨text, List.mem_append_left _ hmem⟩
  · exact Or.inr ⟨earlier, later ++ [action], state, by simp, run, hcalls, hfull⟩

theorem lt_update_cases {calls : Producer → ℕ} {producer other : Producer} {serial : ℕ}
    (hserial : serial < update calls producer (calls producer + 1) other) :
    serial < calls other ∨ other = producer ∧ serial = calls producer := by
  by_cases heq : other = producer
  · subst heq
    rw [update_self] at hserial
    rcases Nat.lt_succ_iff_lt_or_eq.1 hserial with hlt | hlast
    · exact Or.inl hlt
    · exact Or.inr ⟨rfl, hlast⟩
  · rw [update_of_ne heq] at hserial
    exact Or.inl hserial

/-- Every call that has ended is accounted for. -/
theorem accounted (run : Run (Step closes) (LogState.started limit) actions state)
    {producer : Producer} {serial : ℕ} (hserial : serial < state.calls producer) :
    Accounted closes (LogState.started limit) actions state.enqueued producer serial := by
  induction run with
  | nil => exact absurd hserial (Nat.not_lt_zero _)
  | snoc run hstep ih =>
      rcases calls_cases hstep.2 with ⟨hcalls, items, hitems⟩ |
        ⟨other, rfl, hfull, hcalls, hitems⟩ | ⟨other, text, hcalls, hitems⟩
      · rw [hcalls] at hserial
        rw [hitems]
        exact (ih hserial).append _ items
      · rw [hcalls] at hserial
        rcases lt_update_cases hserial with hlt | ⟨rfl, rfl⟩
        · have hbefore := (ih hlt).append (.pushCheck other) []
          rwa [List.append_nil, ← hitems] at hbefore
        · exact Or.inr ⟨_, [], _, rfl, run, rfl, hfull⟩
      · rw [hcalls] at hserial
        rw [hitems]
        rcases lt_update_cases hserial with hlt | ⟨rfl, rfl⟩
        · exact (ih hlt).append _ _
        · exact Or.inl ⟨text, List.mem_append_right _ List.mem_cons_self⟩

end Dropped

/-! ## Runs -/

/-- What the bound rests on besides the gate. -/
structure Steady (limit : ℤ) (state : LogState Producer) : Prop where
  throttle : state.throttleSize = limit
  fifo : Fifo state
  popped : Popped state

theorem steady_move [DecidableEq Producer] {closes : Bool} {limit : ℤ}
    {state next : LogState Producer} {action : Action Producer}
    (hmove : Move closes state action next) (hfixed : ∀ size, action ≠ .throttle size)
    (hsteady : Steady limit state) : Steady limit next where
  throttle := by
    cases hmove with
    | throttle size => exact absurd rfl (hfixed size)
    | _ => exact hsteady.throttle
  fifo := fifo_move hmove hsteady.fifo
  popped := popped_move hmove hsteady.popped

section Runs

variable [DecidableEq Producer] {closes : Bool} {limit : ℤ} {actions : List (Action Producer)}
  {state : LogState Producer}
  (run : Run (Step closes) (LogState.started limit) actions state)
  (hfixed : ∀ size, .throttle size ∉ actions)

include run hfixed

theorem fixed_run :
    Run (fun before action after => Step closes before action after ∧
      ∀ size, action ≠ .throttle size) (LogState.started limit) actions state :=
  run.restrict _ fun _ haction size heq => hfixed size (heq ▸ haction)

theorem steady_run : Steady limit state :=
  (fixed_run run hfixed).invariant (Steady limit) ⟨rfl, rfl, rfl⟩
    fun _ _ _ hbefore hstep => steady_move hstep.1.2 hstep.2 hbefore

/-- The run as it is seen from the gate. -/
theorem gate_run [Fintype Producer] (hlimit : 0 ≤ limit) :
    ∃ events, Run (Admission.Step limit.toNat (Fintype.card Producer)) ⟨0, 0⟩ events
      (gate state) := by
  have hstart : gate (LogState.started limit : LogState Producer) = ⟨0, 0⟩ := by
    simp [gate, unclaimed, count, hasPassed, LogState.started]
  rw [← hstart]
  refine ((fixed_run run hfixed).viewed gate (Steady limit) ⟨rfl, rfl, rfl⟩ ?_).2
  intro before action after hsteady hstep
  exact ⟨steady_move hstep.1.2 hstep.2 hsteady, gate_move hlimit hsteady.throttle hstep.1.2⟩

/-- With a fixed throttle size and any number of producers, at every point of every
run the number of lines in the queue exceeds the throttle size by at most the number of
producers and one more, which is the line that is being popped.  Every call that has
ended without its line being enqueued saw a queue above the throttle size. -/
theorem throttle_bounds_queue [Fintype Producer] (hlimit : 0 ≤ limit) :
    ((unclaimed state).length : ℤ) ≤ limit + Fintype.card Producer ∧
      ((linesInQueue state).length : ℤ) ≤ limit + Fintype.card Producer + 1 ∧
      ∀ producer serial, serial < state.calls producer →
        (∃ text, some ⟨producer, serial, text⟩ ∈ state.enqueued) ∨
          ∃ earlier later before, actions = earlier ++ .pushCheck producer :: later ∧
            Run (Step closes) (LogState.started limit) earlier before ∧
            before.calls producer = serial ∧ limit < before.queueSize := by
  have hsteady := steady_run run hfixed
  obtain ⟨events, hgate⟩ := gate_run run hfixed hlimit
  have hbound : (unclaimed state).length + count hasPassed state.push ≤
      limit.toNat + Fintype.card Producer := waiting_le hgate
  have hqueue := length_linesInQueue_le_unclaimed hsteady.fifo hsteady.popped
  refine ⟨by omega, by omega, ?_⟩
  intro producer serial hserial
  rcases accounted run hserial with hentry | ⟨earlier, later, before, hactions, hrun, hcalls, hfull⟩
  · exact Or.inl hentry
  · have hbefore : Steady limit before := by
      apply steady_run hrun
      intro size hmem
      apply hfixed size
      rw [hactions]
      exact List.mem_append_left _ hmem
    rw [hbefore.throttle] at hfull
    exact Or.inr ⟨earlier, later, before, hactions, hrun, hcalls, hfull⟩

end Runs

/-- The worker waits for the first line, and a producer has put it into the queue. -/
def lineForPop : LogState Unit :=
  { LogState.started 0 with
    queue := [some ⟨(), 0, [97]⟩]
    startedPops := 1
    worker := .popping
    enqueued := [some ⟨(), 0, [97]⟩]
    calls := fun _ => 1
    returned := [⟨(), 0, [97]⟩] }

/-- One more line, which the throttle size zero lets through before the worker has
taken the first one. -/
def lineBehindPop : LogState Unit :=
  { lineForPop with
    queue := [some ⟨(), 0, [97]⟩, some ⟨(), 1, [98]⟩]
    push := fun _ => .queued ⟨(), 1, [98]⟩ .info
    enqueued := [some ⟨(), 0, [97]⟩, some ⟨(), 1, [98]⟩]
    calls := fun _ => 2 }

theorem run_lineBehindPop :
    Run (Step false) (LogState.started 0)
      [.popStart, .pushCall () [97] .info, .pushCheck (), .pushEnqueue (), .pushReturn (),
        .pushCall () [98] .info, .pushCheck (), .pushEnqueue ()] lineBehindPop := by
  have hfirst : Run (Step false) (LogState.started 0)
      [.popStart, .pushCall () [97] .info, .pushCheck (), .pushEnqueue (), .pushReturn ()]
      lineForPop :=
    .snoc (.snoc (.snoc (.snoc (.snoc .nil ⟨by rfl, .popStart (by rfl)⟩)
      ⟨by rfl, .pushCall (by rfl)⟩) ⟨by rfl, .pushPassed (by rfl) (by decide)⟩)
      ⟨by rfl, .pushEnqueue (by rfl)⟩)
      ⟨by rfl, .pushReturn (by rfl) (show Level.info ≠ .terminate by decide)⟩
  have hsecond : Run (Step false) lineForPop
      [.pushCall () [98] .info, .pushCheck (), .pushEnqueue ()] lineBehindPop :=
    .snoc (.snoc (.snoc .nil ⟨by rfl, .pushCall (by rfl)⟩)
      ⟨by rfl, .pushPassed (by rfl) (by decide)⟩) ⟨by rfl, .pushEnqueue (by rfl)⟩
  exact hfirst.append hsecond

theorem throttle_bounds_queue_example :
    ∃ actions, Run (Step false) (LogState.started 0) actions lineBehindPop ∧
      (∀ size, .throttle size ∉ actions) ∧
      ((linesInQueue lineBehindPop).length : ℤ) ≤ 0 + Fintype.card Unit + 1 :=
  ⟨_, run_lineBehindPop, by simp,
    (throttle_bounds_queue run_lineBehindPop (by simp) (by decide)).2.1⟩

/-- With the throttle size zero and one producer there are two lines in the queue. -/
theorem queue_above_throttle_and_producers :
    ∃ (actions : List (Action Unit)) (state : LogState Unit),
      Run (Step false) (LogState.started 0) actions state ∧
      (∀ size, .throttle size ∉ actions) ∧
      ¬((linesInQueue state).length : ℤ) ≤ 0 + Fintype.card Unit :=
  ⟨_, _, run_lineBehindPop, by simp, by decide⟩

end Nstl.Throttle
