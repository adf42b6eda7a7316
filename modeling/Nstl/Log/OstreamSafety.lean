import Mathlib.Data.List.Nodup
import Nstl.Log.Ostream

/-!
# No line is lost or written twice

The items that went into the queue are the ones that were written, the one that
the worker holds, and the ones that still wait, in this order.  From this single
equation, and from where the empty item of `stop` stands, follow the properties of
the log over all interleavings.
-/

namespace Nstl.OstreamSafety

open Function
open Nstl.ByteString
open Nstl.OstreamLog
open Nstl.Transition

/-! ## Items before the sentinel -/

section Items

variable {Item : Type}

/-- The lines in front of the first empty item. -/
def beforeSentinel : List (Option Item) → List Item
  | [] => []
  | none :: _ => []
  | some item :: rest => item :: beforeSentinel rest

theorem beforeSentinel_map_some_append (items : List Item) (rest : List (Option Item)) :
    beforeSentinel (items.map some ++ rest) = items ++ beforeSentinel rest := by
  induction items with
  | nil => rfl
  | cons item items ih => rw [List.map_cons, List.cons_append, beforeSentinel, ih, List.cons_append]

/-- Items that come later leave the lines in front as they are. -/
theorem mem_beforeSentinel_append {item : Item} {items : List (Option Item)}
    (hitem : item ∈ beforeSentinel items) (rest : List (Option Item)) :
    item ∈ beforeSentinel (items ++ rest) := by
  fun_induction beforeSentinel items with
  | case1 => exact absurd hitem (by simp)
  | case2 => exact absurd hitem (by simp)
  | case3 first items ih =>
      rw [List.cons_append, beforeSentinel]
      rcases List.mem_cons.1 hitem with rfl | hrest
      · exact List.mem_cons_self
      · exact List.mem_cons_of_mem _ (ih hrest)

theorem mem_beforeSentinel {item : Item} {items : List (Option Item)}
    (hsentinel : none ∉ items) (hitem : some item ∈ items) : item ∈ beforeSentinel items := by
  fun_induction beforeSentinel items with
  | case1 => exact absurd hitem (by simp)
  | case2 => exact absurd List.mem_cons_self hsentinel
  | case3 first items ih =>
      rcases List.mem_cons.1 hitem with heq | hrest
      · rw [Option.some.inj heq]
        exact List.mem_cons_self
      · exact List.mem_cons_of_mem _
          (ih (fun hmem => hsentinel (List.mem_cons_of_mem _ hmem)) hrest)

end Items

/-! ## Invariants -/

variable {Producer : Type}

/-- What the worker has taken and not written; the empty item makes it exit. -/
def inHand : WorkerState Producer → List (Option (Entry Producer))
  | .idle | .popping => []
  | .holding line => [line]
  | .exited => [none]

/-- The queue is first in, first out, and nothing gets lost on the way. -/
def Fifo (state : LogState Producer) : Prop :=
  state.enqueued = state.written.map some ++ (inHand state.worker ++ state.queue)

/-- The call of `stop` has not put its item into the queue. -/
def SentinelPending : StopState → Prop
  | .notCalled | .exchanging | .enqueuing => True
  | _ => False

/-- The call of `stop` has joined the worker. -/
def Joined : StopState → Prop
  | .releasing | .closing | .returned _ => True
  | _ => False

structure Stopping (state : LogState Producer) : Prop where
  running : state.stop = .notCalled ∨ state.stop = .exchanging → state.running = true
  sentinel : SentinelPending state.stop → none ∉ state.enqueued
  joined : Joined state.stop → state.worker = .exited

/-- Lines that were enqueued stay so; the ones whose `push` had returned before
`stop` was called stand in front of the sentinel. -/
structure Kept (state : LogState Producer) : Prop where
  queued : ∀ producer entry level, state.push producer = .queued entry level →
    some entry ∈ state.enqueued
  returned : ∀ entry ∈ state.returned, some entry ∈ state.enqueued
  beforeStop : ∀ entry ∈ state.returnedBeforeStop, entry ∈ beforeSentinel state.enqueued

/-- An entry comes from an earlier call of the same producer. -/
def Earlier (left right : Entry Producer) : Prop :=
  left.producer = right.producer → left.serial < right.serial

structure Ordered (state : LogState Producer) : Prop where
  finished : ∀ entry, some entry ∈ state.enqueued →
    entry.serial < state.calls entry.producer
  pairwise : (state.enqueued.filterMap id).Pairwise Earlier

/-- The stream is there as long as the worker needs it. -/
def Writable (state : LogState Producer) : Prop :=
  state.target = false ∨ state.streamOpen = false → Joined state.stop

section Moves

variable [DecidableEq Producer] {closes : Bool} {state next : LogState Producer}
  {action : Action Producer} (hmove : Move closes state action next)

include hmove

theorem fifo_move (hfifo : Fifo state) : Fifo next := by
  rw [Fifo] at hfifo ⊢
  cases hmove with
  | pushEnqueue hpassed => simp [hfifo]
  | popStart hidle => simpa [hidle, inHand] using hfifo
  | popTake hpopping hqueue => simpa [hpopping, hqueue, inHand] using hfifo
  | write hholding => simpa [hholding, inHand] using hfifo
  | exit hholding => simpa [hholding, inHand] using hfifo
  | stopEnqueue hstop => simp [hfifo]
  | _ => exact hfifo

theorem stopping_move (hstopping : Stopping state) : Stopping next := by
  obtain ⟨hrunning, hsentinel, hjoined⟩ := hstopping
  -- a worker that is still at work has not been joined
  have hworking : state.worker ≠ .exited → ¬Joined state.stop :=
    fun hworker hstop => hworker (hjoined hstop)
  cases hmove with
  | pushEnqueue hpassed =>
      exact ⟨hrunning, fun hstop => by simpa using hsentinel hstop, hjoined⟩
  | pushStop hqueued hstop =>
      exact ⟨fun _ => hrunning (Or.inl hstop),
        fun _ => hsentinel (by simp [hstop, SentinelPending]), fun hfalse => hfalse.elim⟩
  | popStart hidle =>
      exact ⟨hrunning, hsentinel, fun hstop => absurd hstop (hworking (by simp [hidle]))⟩
  | popTake hpopping hqueue =>
      exact ⟨hrunning, hsentinel, fun hstop => absurd hstop (hworking (by simp [hpopping]))⟩
  | write hholding =>
      exact ⟨hrunning, hsentinel, fun hstop => absurd hstop (hworking (by simp [hholding]))⟩
  | exit hholding => exact ⟨hrunning, hsentinel, fun _ => rfl⟩
  | stopCall hstop =>
      exact ⟨fun _ => hrunning (Or.inl hstop),
        fun _ => hsentinel (by simp [hstop, SentinelPending]), fun hfalse => hfalse.elim⟩
  | stopExchange hstop =>
      have hwas : state.running = true := hrunning (Or.inr hstop)
      refine ⟨?_, fun _ => hsentinel (by simp [hstop, SentinelPending]), ?_⟩
      · simp [hwas]
      · simp [hwas, Joined]
  | stopEnqueue hstop =>
      exact ⟨by simp, fun hfalse => hfalse.elim, fun hfalse => hfalse.elim⟩
  | stopJoin hstop hworker =>
      exact ⟨by simp, fun hfalse => hfalse.elim, fun _ => hworker⟩
  | stopRelease hstop =>
      refine ⟨?_, ?_, fun _ => hjoined (by simp [hstop, Joined])⟩
      · cases closes <;> simp
      · cases closes <;> simp [SentinelPending]
  | stopClose hstop =>
      exact ⟨by simp, fun hfalse => hfalse.elim, fun _ => hjoined (by simp [hstop, Joined])⟩
  | _ => exact ⟨hrunning, hsentinel, hjoined⟩

omit hmove in
/-- A producer goes on to a state that does not add a line of its own. -/
theorem queued_update {push : Producer → PushState Producer} {producer : Producer}
    {pushState : PushState Producer} {items : List (Option (Entry Producer))}
    (hqueued : ∀ producer entry level, push producer = .queued entry level →
      some entry ∈ items)
    (hnew : ∀ entry level, pushState = .queued entry level → some entry ∈ items) :
    ∀ other entry level, update push producer pushState other = .queued entry level →
      some entry ∈ items := by
  intro other entry level hother
  by_cases heq : other = producer
  · subst heq
    rw [update_self] at hother
    exact hnew entry level hother
  · rw [update_of_ne heq] at hother
    exact hqueued other entry level hother

theorem kept_move (hstopping : Stopping state) (hkept : Kept state) : Kept next := by
  obtain ⟨hqueued, hreturned, hbefore⟩ := hkept
  have hlater : ∀ (entry : Entry Producer) (item : Option (Entry Producer)),
      some entry ∈ state.enqueued → some entry ∈ state.enqueued ++ [item] :=
    fun _ _ hentry => List.mem_append_left _ hentry
  -- at the call of `stop` there is no sentinel, so everything stands in front of it
  have hcall : state.stop = .notCalled →
      ∀ entry ∈ state.returned, entry ∈ beforeSentinel state.enqueued := by
    intro hstop entry hentry
    apply mem_beforeSentinel (hstopping.sentinel (by simp [hstop, SentinelPending]))
    exact hreturned entry hentry
  cases hmove with
  | pushCall hidle => exact ⟨queued_update hqueued (by simp), hreturned, hbefore⟩
  | pushThrottled hchecking hfull =>
      exact ⟨queued_update hqueued (by simp), hreturned, hbefore⟩
  | pushPassed hchecking hfits =>
      exact ⟨queued_update hqueued (by simp), hreturned, hbefore⟩
  | pushEnqueue hpassed =>
      refine ⟨?_, fun entry hentry => hlater entry _ (hreturned entry hentry),
        fun entry hentry => mem_beforeSentinel_append (hbefore entry hentry) _⟩
      apply queued_update
      · exact fun producer entry level hpush => hlater entry _ (hqueued producer entry level hpush)
      · rintro entry level ⟨rfl, rfl⟩
        simp
  | pushReturn hpush hlevel =>
      refine ⟨queued_update hqueued (by simp), ?_, hbefore⟩
      intro entry hentry
      rcases List.mem_append.1 hentry with hold | hnew
      · exact hreturned entry hold
      · rw [List.mem_singleton.1 hnew]
        exact hqueued _ _ _ hpush
  | pushStop hpush hstop => exact ⟨queued_update hqueued (by simp), hreturned, hcall hstop⟩
  | pushRefused hpush hrunning =>
      exact ⟨queued_update hqueued (by simp), hreturned, hbefore⟩
  | stopCall hstop => exact ⟨hqueued, hreturned, hcall hstop⟩
  | stopEnqueue hstop =>
      exact ⟨fun producer entry level hpush => hlater entry _ (hqueued producer entry level hpush),
        fun entry hentry => hlater entry _ (hreturned entry hentry),
        fun entry hentry => mem_beforeSentinel_append (hbefore entry hentry) _⟩
  | _ => exact ⟨hqueued, hreturned, hbefore⟩

omit hmove in
theorem calls_le_update (calls : Producer → ℕ) (producer other : Producer) :
    calls other ≤ update calls producer (calls producer + 1) other := by
  by_cases heq : other = producer
  · rw [heq, update_self]
    exact Nat.le_succ _
  · rw [update_of_ne heq]

theorem ordered_move (hordered : Ordered state) : Ordered next := by
  obtain ⟨hfinished, hpairwise⟩ := hordered
  have hmore : ∀ producer entry, some entry ∈ state.enqueued →
      entry.serial < update state.calls producer (state.calls producer + 1) entry.producer :=
    fun producer entry hentry =>
      Nat.lt_of_lt_of_le (hfinished entry hentry) (calls_le_update _ _ _)
  cases hmove with
  | pushThrottled hchecking hfull => exact ⟨hmore _, hpairwise⟩
  | pushEnqueue hpassed =>
      refine ⟨?_, ?_⟩
      · intro entry hentry
        rcases List.mem_append.1 hentry with hold | hnew
        · exact hmore _ entry hold
        · obtain rfl := Option.some.inj (List.mem_singleton.1 hnew)
          simp
      · rw [List.filterMap_append, List.pairwise_append]
        refine ⟨hpairwise, by simp, ?_⟩
        intro left hleft right hright hsame
        obtain ⟨item, hitem, hid⟩ := List.mem_filterMap.1 hleft
        have hserial := hfinished left (hid ▸ hitem)
        simp only [List.filterMap_cons, id, List.filterMap_nil, List.mem_singleton] at hright
        subst hright
        rwa [hsame] at hserial
  | stopEnqueue hstop =>
      refine ⟨fun entry hentry => hfinished entry (by simpa using hentry), ?_⟩
      simpa using hpairwise
  | _ => exact ⟨hfinished, hpairwise⟩

theorem writable_move (hwritable : Writable state) : Writable next := by
  rw [Writable] at hwritable ⊢
  -- before the worker is joined the stream is there
  have hbefore : ¬Joined state.stop → ¬(state.target = false ∨ state.streamOpen = false) :=
    fun hstop hgone => hstop (hwritable hgone)
  cases hmove with
  | pushStop hpush hstop => exact fun hgone => absurd hgone (hbefore (by simp [hstop, Joined]))
  | stopCall hstop => exact fun hgone => absurd hgone (hbefore (by simp [hstop, Joined]))
  | stopExchange hstop => exact fun hgone => absurd hgone (hbefore (by simp [hstop, Joined]))
  | stopEnqueue hstop => exact fun hgone => absurd hgone (hbefore (by simp [hstop, Joined]))
  | stopJoin hstop hworker => exact fun _ => trivial
  | stopRelease hstop => cases closes <;> exact fun _ => trivial
  | stopClose hstop => exact fun _ => trivial
  | _ => exact hwritable

end Moves

/-! ## Runs -/

/-- Everything that holds in every reachable state. -/
structure Invariant (state : LogState Producer) : Prop where
  fifo : Fifo state
  stopping : Stopping state
  kept : Kept state
  ordered : Ordered state
  writable : Writable state

theorem invariant_started (throttleSize : ℤ) :
    Invariant (LogState.started throttleSize : LogState Producer) where
  fifo := rfl
  stopping := ⟨fun _ => rfl, fun _ => by simp [LogState.started], fun hfalse => hfalse.elim⟩
  kept := ⟨by simp [LogState.started], by simp [LogState.started], by simp [LogState.started]⟩
  ordered := ⟨by simp [LogState.started], by simp [LogState.started]⟩
  writable := by simp [Writable, LogState.started]

theorem Invariant.written_prefix {state : LogState Producer} (hinvariant : Invariant state) :
    state.written <+: beforeSentinel state.enqueued := by
  rw [hinvariant.fifo, beforeSentinel_map_some_append]
  exact List.prefix_append _ _

/-- Once the worker has exited, all lines in front of the sentinel are written. -/
theorem Invariant.written_of_exited {state : LogState Producer}
    (hinvariant : Invariant state) (hworker : state.worker = .exited) :
    beforeSentinel state.enqueued = state.written := by
  rw [hinvariant.fifo, beforeSentinel_map_some_append, hworker]
  exact List.append_nil _

theorem Invariant.written_pairwise {state : LogState Producer}
    (hinvariant : Invariant state) : state.written.Pairwise Earlier := by
  have hpairwise := hinvariant.ordered.pairwise
  rw [hinvariant.fifo, List.filterMap_append, List.pairwise_append] at hpairwise
  simpa [List.filterMap_map] using hpairwise.1

section Runs

variable [DecidableEq Producer] {closes : Bool}

theorem invariant_step {state next : LogState Producer} {action : Action Producer}
    (hinvariant : Invariant state) (hstep : Step closes state action next) :
    Invariant next where
  fifo := fifo_move hstep.2 hinvariant.fifo
  stopping := stopping_move hstep.2 hinvariant.stopping
  kept := kept_move hstep.2 hinvariant.stopping hinvariant.kept
  ordered := ordered_move hstep.2 hinvariant.ordered
  writable := writable_move hstep.2 hinvariant.writable

/-- A worker that has exited stays so and writes nothing. -/
theorem exited_step {state next : LogState Producer} {action : Action Producer}
    (hworker : state.worker = .exited) (hstep : Step closes state action next) :
    next.worker = .exited ∧ next.written = state.written := by
  obtain ⟨_, hmove⟩ := hstep
  cases hmove with
  | popStart hidle => simp [hworker] at hidle
  | popTake hpopping hqueue => simp [hworker] at hpopping
  | write hholding => simp [hworker] at hholding
  | exit hholding => simp [hworker] at hholding
  | _ => exact ⟨hworker, rfl⟩

/-- At every point of every run, what is written is a prefix of the lines that
were enqueued in front of the sentinel, so that no line is written twice and the
lines of one producer appear in its order.  When `stop` has returned, every line
whose `push` had returned before the call is written, and nothing more is written
in any continuation. -/
theorem no_line_lost_or_duplicated {throttleSize : ℤ} {actions : List (Action Producer)}
    {state : LogState Producer}
    (run : Run (Step closes) (LogState.started throttleSize) actions state) :
    state.written <+: beforeSentinel state.enqueued ∧
      state.written.Pairwise Earlier ∧ state.written.Nodup ∧
      (state.worker ≠ .exited → state.target = true ∧ state.streamOpen = true) ∧
      ∀ result, state.stop = .returned result →
        (∀ entry ∈ state.returnedBeforeStop, entry ∈ state.written) ∧
        ∀ later final, Run (Step closes) state later final → final.written = state.written := by
  have hinvariant := run.invariant Invariant (invariant_started throttleSize)
    fun _ _ _ hbefore hstep => invariant_step hbefore hstep
  have hpairwise := hinvariant.written_pairwise
  refine ⟨hinvariant.written_prefix, hpairwise, ?_, ?_, ?_⟩
  · apply hpairwise.imp
    rintro left right hearlier rfl
    exact absurd (hearlier rfl) (Nat.lt_irrefl _)
  · intro hworker
    have hstream : ¬(state.target = false ∨ state.streamOpen = false) :=
      fun hgone => hworker (hinvariant.stopping.joined (hinvariant.writable hgone))
    simpa [not_or] using hstream
  · intro result hstop
    have hworker : state.worker = .exited :=
      hinvariant.stopping.joined (by simp [hstop, Joined])
    refine ⟨?_, ?_⟩
    · intro entry hentry
      rw [← hinvariant.written_of_exited hworker]
      exact hinvariant.kept.beforeStop entry hentry
    · intro later final hlater
      have hfinal := hlater.invariant
        (fun reached => reached.worker = .exited ∧ reached.written = state.written)
        ⟨hworker, rfl⟩ fun _ _ _ hbefore hstep =>
          ⟨(exited_step hbefore.1 hstep).1, (exited_step hbefore.1 hstep).2.trans hbefore.2⟩
      exact hfinal.2

end Runs

/-- One producer logs a line. -/
def logsLine : List (Action Unit) :=
  [.pushCall () [104, 105] .info, .pushCheck (), .pushEnqueue (), .pushReturn ()]

/-- The log is stopped, before the worker begins, and the worker writes the line. -/
def stopsLog : List (Action Unit) :=
  [.stopCall, .stopExchange, .stopEnqueue] ++
    [.popStart, .popTake, .write, .popStart, .popTake, .exit, .stopJoin, .stopRelease]

/-- One producer has logged a line. -/
def lineLogged : LogState Unit :=
  { LogState.started 8 with
    queue := [some ⟨(), 0, [104, 105]⟩]
    enqueued := [some ⟨(), 0, [104, 105]⟩]
    calls := fun _ => 1
    returned := [⟨(), 0, [104, 105]⟩] }

/-- The log is being stopped, and the worker has not begun. -/
def lineAndSentinel : LogState Unit :=
  { lineLogged with
    queue := [some ⟨(), 0, [104, 105]⟩, none]
    enqueued := [some ⟨(), 0, [104, 105]⟩, none]
    running := false
    stop := .joining
    returnedBeforeStop := [⟨(), 0, [104, 105]⟩] }

/-- One producer logs a line, the worker writes it, and the log is stopped. -/
theorem no_line_lost_or_duplicated_example :
    ∃ state, Run (Step false) (LogState.started 8) (logsLine ++ stopsLog) state ∧
      state.stop = .returned true ∧ state.returnedBeforeStop = [⟨(), 0, [104, 105]⟩] ∧
      ∀ entry ∈ state.returnedBeforeStop, entry ∈ state.written := by
  have hlogged : Run (Step false) (LogState.started 8) logsLine lineLogged :=
    .snoc (.snoc (.snoc (.snoc .nil
      ⟨by rfl, .pushCall (by rfl)⟩) ⟨by rfl, .pushPassed (by rfl) (by decide)⟩)
      ⟨by rfl, .pushEnqueue (by rfl)⟩)
      ⟨by rfl, .pushReturn (by rfl) (show Level.info ≠ .terminate by decide)⟩
  have hstopping : Run (Step false) lineLogged [.stopCall, .stopExchange, .stopEnqueue]
      lineAndSentinel :=
    .snoc (.snoc (.snoc .nil ⟨by rfl, .stopCall (by rfl)⟩) ⟨by rfl, .stopExchange (by rfl)⟩)
      ⟨by rfl, .stopEnqueue (by rfl)⟩
  have hstopped : Run (Step false) lineAndSentinel
      [.popStart, .popTake, .write, .popStart, .popTake, .exit, .stopJoin, .stopRelease] _ :=
    .snoc (.snoc (.snoc (.snoc (.snoc (.snoc (.snoc (.snoc .nil
      ⟨by rfl, .popStart (by rfl)⟩) ⟨by rfl, .popTake (by rfl) (by rfl)⟩)
      ⟨by rfl, .write (by rfl)⟩) ⟨by rfl, .popStart (by rfl)⟩)
      ⟨by rfl, .popTake (by rfl) (by rfl)⟩) ⟨by rfl, .exit (by rfl)⟩)
      ⟨by rfl, .stopJoin (by rfl) (by rfl)⟩) ⟨by rfl, .stopRelease (by rfl)⟩
  have run := hlogged.append (hstopping.append hstopped)
  exact ⟨_, run, rfl, rfl, ((no_line_lost_or_duplicated run).2.2.2.2 true rfl).1⟩

end Nstl.OstreamSafety
