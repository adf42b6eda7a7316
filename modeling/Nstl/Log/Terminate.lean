import Nstl.Core.Fairness
import Nstl.Log.OstreamSafety

/-!
# Lines that end the program

A call of `push` with the level `Terminate` puts its line into the queue, stops the log
and aborts.  Two things can keep it from doing so.  The check of the queue length comes
first, for this level as for the others, and the call then returns.  And of several
callers of `stop` only one waits for the worker: the others abort at once.

Where neither happens, every fair execution comes to the abort, and by then the worker
has written the line and everything in front of it.
-/

namespace Nstl.Terminate

open Function
open Nstl.ByteString
open Nstl.Fairness
open Nstl.OstreamLog
open Nstl.OstreamSafety
open Nstl.Transition

variable {Producer : Type}

/-! ## The condition -/

/-- The producer is in a call with the level `Terminate`. -/
def Terminating : PushState Producer → Prop
  | .idle => False
  | .checking _ level | .passed _ level | .queued _ level => level = .terminate
  | .stopping | .refused => True

/-- The check of a `Terminate` call does not find the queue too long; and while such a
call is under way, or the log is being stopped, no other one is begun. -/
def Undisturbed (state : LogState Producer) : Action Producer → Prop
  | .pushCall _ _ level => level = .terminate →
      state.stop = .notCalled ∧ ∀ other, ¬ Terminating (state.push other)
  | .pushCheck producer => Terminating (state.push producer) →
      ¬ state.throttleSize < state.queueSize
  | .stopCall => ∀ producer, ¬ Terminating (state.push producer)
  | _ => True

/-- The steps of a producer in `push`, and of the thread that stops the log. -/
def CallAction (producer : Producer) : Action Producer → Prop
  | .pushCheck other | .pushEnqueue other | .pushReturn other | .pushStop other
  | .pushAbort other => other = producer
  | .stopExchange | .stopEnqueue | .stopJoin | .stopRelease | .stopClose => True
  | _ => False

def WorkerAction : Action Producer → Prop
  | .popStart | .popTake | .write | .exit => True
  | _ => False

/-- The line and everything that went into the queue before it is written. -/
def Flushed (line : Entry Producer) (state : LogState Producer) : Prop :=
  ∃ before after, state.enqueued = before.map some ++ some line :: after ∧
    before ++ [line] <+: state.written

theorem exists_split_of_mem_beforeSentinel {Item : Type} {item : Item}
    {items : List (Option Item)} (hitem : item ∈ beforeSentinel items) :
    ∃ before after, items = before.map some ++ some item :: after ∧
      before ++ [item] <+: beforeSentinel items := by
  fun_induction beforeSentinel items with
  | case1 => exact absurd hitem List.not_mem_nil
  | case2 => exact absurd hitem List.not_mem_nil
  | case3 first items ih =>
      by_cases hfirst : item = first
      · exact ⟨[], items, by rw [hfirst]; rfl, by
          rw [hfirst, List.nil_append]
          exact List.cons_prefix_cons.2 ⟨rfl, List.nil_prefix⟩⟩
      · obtain ⟨before, after, hitems, hbefore⟩ :=
          ih ((List.mem_cons.1 hitem).resolve_left hfirst)
        exact ⟨first :: before, after, by rw [hitems]; rfl,
          List.cons_prefix_cons.2 ⟨rfl, hbefore⟩⟩

/-! ## A call under way -/

/-- The steps that meet the condition. -/
def UndisturbedStep [DecidableEq Producer] (closes : Bool) (state : LogState Producer)
    (action : Action Producer) (next : LogState Producer) : Prop :=
  Step closes state action next ∧ Undisturbed state action

/-- How far the call of a producer that is to log the line has come. -/
inductive Stage (producer : Producer) (line : Entry Producer) (state : LogState Producer) :
    Prop
  | checking {text : Bytes} (hpush : state.push producer = .checking text .terminate)
      (hline : line = ⟨producer, state.calls producer, text⟩)
      (hstop : state.stop = .notCalled)
  | passed {text : Bytes} (hpush : state.push producer = .passed text .terminate)
      (hline : line = ⟨producer, state.calls producer, text⟩)
      (hstop : state.stop = .notCalled)
  | queued (hpush : state.push producer = .queued line .terminate)
      (hstop : state.stop = .notCalled)
  | stopping (hpush : state.push producer = .stopping) (hstop : state.stop ≠ .notCalled)
      (hline : line ∈ beforeSentinel state.enqueued)
      (hsentinel : SentinelPending state.stop ∨ none ∈ state.enqueued)

structure Underway (producer : Producer) (line : Entry Producer)
    (state : LogState Producer) : Prop where
  invariant : Invariant state
  live : state.aborted = false
  alone : ∀ other, other ≠ producer → ¬ Terminating (state.push other)
  stage : Stage producer line state

/-- The call has come to its end. -/
structure Ended (producer : Producer) (line : Entry Producer) (state : LogState Producer) :
    Prop where
  aborted : state.aborted = true
  stopping : state.push producer = .stopping
  flushed : Flushed line state

/-- The steps that are left for the caller. -/
def callRank : PushState Producer → StopState → ℕ
  | .checking .., _ => 9
  | .passed .., _ => 8
  | .queued .., _ => 7
  | _, .exchanging => 6
  | _, .enqueuing => 5
  | _, .joining => 4
  | _, .releasing => 3
  | _, .closing => 2
  | _, _ => 1

/-! ### Where a call is -/

section Stages

variable {producer : Producer} {line : Entry Producer} {state : LogState Producer}

theorem Stage.terminating (hstage : Stage producer line state) :
    Terminating (state.push producer) := by
  cases hstage with
  | checking hpush => rw [hpush]; rfl
  | passed hpush => rw [hpush]; rfl
  | queued hpush => rw [hpush]; rfl
  | stopping hpush => rw [hpush]; trivial

theorem Stage.push_ne (hstage : Stage producer line state) :
    state.push producer ≠ .idle ∧ state.push producer ≠ .refused := by
  cases hstage with
  | checking hpush => simp [hpush]
  | passed hpush => simp [hpush]
  | queued hpush => simp [hpush]
  | stopping hpush => simp [hpush]

theorem Stage.of_checking (hstage : Stage producer line state) {text : Bytes} {level : Level}
    (hchecking : state.push producer = .checking text level) :
    level = .terminate ∧ line = ⟨producer, state.calls producer, text⟩ ∧
      state.stop = .notCalled := by
  cases hstage with
  | checking hpush hline hstop =>
      obtain ⟨rfl, rfl⟩ := PushState.checking.inj (hchecking.symm.trans hpush)
      exact ⟨rfl, hline, hstop⟩
  | passed hpush => cases hchecking.symm.trans hpush
  | queued hpush => cases hchecking.symm.trans hpush
  | stopping hpush => cases hchecking.symm.trans hpush

theorem Stage.of_passed (hstage : Stage producer line state) {text : Bytes} {level : Level}
    (hpassed : state.push producer = .passed text level) :
    level = .terminate ∧ line = ⟨producer, state.calls producer, text⟩ ∧
      state.stop = .notCalled := by
  cases hstage with
  | passed hpush hline hstop =>
      obtain ⟨rfl, rfl⟩ := PushState.passed.inj (hpassed.symm.trans hpush)
      exact ⟨rfl, hline, hstop⟩
  | checking hpush => cases hpassed.symm.trans hpush
  | queued hpush => cases hpassed.symm.trans hpush
  | stopping hpush => cases hpassed.symm.trans hpush

theorem Stage.of_queued (hstage : Stage producer line state) {entry : Entry Producer}
    {level : Level} (hqueued : state.push producer = .queued entry level) :
    entry = line ∧ level = .terminate ∧ state.stop = .notCalled := by
  cases hstage with
  | queued hpush hstop =>
      obtain ⟨rfl, rfl⟩ := PushState.queued.inj (hqueued.symm.trans hpush)
      exact ⟨rfl, rfl, hstop⟩
  | checking hpush => cases hqueued.symm.trans hpush
  | passed hpush => cases hqueued.symm.trans hpush
  | stopping hpush => cases hqueued.symm.trans hpush

theorem Stage.of_stop (hstage : Stage producer line state) {stop : StopState}
    (hstop : state.stop = stop) (hcalled : stop ≠ .notCalled) :
    state.push producer = .stopping ∧ line ∈ beforeSentinel state.enqueued ∧
      (SentinelPending stop ∨ none ∈ state.enqueued) := by
  subst hstop
  cases hstage with
  | stopping hpush _ hline hsentinel => exact ⟨hpush, hline, hsentinel⟩
  | checking _ _ hnot => exact absurd hnot hcalled
  | passed _ _ hnot => exact absurd hnot hcalled
  | queued _ hnot => exact absurd hnot hcalled

end Stages

/-! ### The steps of the others -/

/-- What a step leaves to a call that is under way. -/
structure Framed (producer : Producer) (state next : LogState Producer) : Prop where
  push : next.push producer = state.push producer
  stop : next.stop = state.stop
  calls : next.calls producer = state.calls producer
  aborted : next.aborted = state.aborted
  enqueued : ∃ more, next.enqueued = state.enqueued ++ more
  alone : ∀ other, other ≠ producer → ¬ Terminating (next.push other)

theorem Stage.framed {producer : Producer} {line : Entry Producer}
    {state next : LogState Producer} (hstage : Stage producer line state)
    (hframed : Framed producer state next) : Stage producer line next := by
  cases hstage with
  | checking hpush hline hstop =>
      exact .checking (hframed.push.trans hpush) (hframed.calls ▸ hline)
        (hframed.stop.trans hstop)
  | passed hpush hline hstop =>
      exact .passed (hframed.push.trans hpush) (hframed.calls ▸ hline)
        (hframed.stop.trans hstop)
  | queued hpush hstop =>
      exact .queued (hframed.push.trans hpush) (hframed.stop.trans hstop)
  | stopping hpush hstop hline hsentinel =>
      obtain ⟨more, hmore⟩ := hframed.enqueued
      refine .stopping (hframed.push.trans hpush) (hframed.stop ▸ hstop) ?_ ?_
      · rw [hmore]
        exact mem_beforeSentinel_append hline more
      · rw [hframed.stop, hmore]
        exact hsentinel.imp_right (List.mem_append_left more)

theorem Underway.flushed {producer : Producer} {line : Entry Producer}
    {state : LogState Producer} (hunderway : Underway producer line state) {result : Bool}
    (hstop : state.stop = .returned result) : Flushed line state := by
  have hline := (hunderway.stage.of_stop hstop (by simp)).2.1
  have hworker : state.worker = .exited :=
    hunderway.invariant.stopping.joined (by rw [hstop]; trivial)
  obtain ⟨before, after, henqueued, hbefore⟩ := exists_split_of_mem_beforeSentinel hline
  rw [hunderway.invariant.written_of_exited hworker] at hbefore
  exact ⟨before, after, henqueued, hbefore⟩

section Steps

variable [DecidableEq Producer] {closes : Bool} {producer : Producer} {line : Entry Producer}
  {state next : LogState Producer} {action : Action Producer}

/-- Another producer goes on to a state outside of a `Terminate` call. -/
theorem alone_update {push : Producer → PushState Producer}
    (halone : ∀ other, other ≠ producer → ¬ Terminating (push other)) {mover : Producer}
    {pushState : PushState Producer} (hnew : mover ≠ producer → ¬ Terminating pushState) :
    ∀ other, other ≠ producer → ¬ Terminating (update push mover pushState other) := by
  intro other hother
  by_cases heq : other = mover
  · subst heq
    rw [update_self]
    exact hnew hother
  · rw [update_of_ne heq]
    exact halone other hother

/-- A step that is not one of the caller itself leaves its call alone. -/
theorem framed_of_step (hterminating : Terminating (state.push producer))
    (halone : ∀ other, other ≠ producer → ¬ Terminating (state.push other))
    (hstep : UndisturbedStep closes state action next) (hother : ¬ CallAction producer action) :
    Framed producer state next := by
  obtain ⟨⟨_, hmove⟩, hundisturbed⟩ := hstep
  -- nobody else is in a call with the level `Terminate`
  have hnone : ∀ {mover pushState}, mover ≠ producer → state.push mover = pushState →
      ¬ Terminating pushState :=
    fun hne hpush => hpush ▸ halone _ hne
  cases hmove with
  | @pushCall mover text level hidle =>
      have hne : mover ≠ producer := by
        rintro rfl
        rw [hidle] at hterminating
        exact hterminating
      have hlevel : level ≠ .terminate :=
        fun hlevel => (hundisturbed hlevel).2 producer hterminating
      exact ⟨update_of_ne hne.symm .., rfl, rfl, rfl, ⟨[], (List.append_nil _).symm⟩,
        alone_update halone fun _ => hlevel⟩
  | pushThrottled hchecking hfull =>
      exact ⟨update_of_ne (Ne.symm hother) .., rfl, update_of_ne (Ne.symm hother) .., rfl,
        ⟨[], (List.append_nil _).symm⟩, alone_update halone fun _ => id⟩
  | pushPassed hchecking hfits =>
      exact ⟨update_of_ne (Ne.symm hother) .., rfl, rfl, rfl,
        ⟨[], (List.append_nil _).symm⟩, alone_update halone fun hne => (hnone hne hchecking :)⟩
  | pushEnqueue hpassed =>
      exact ⟨update_of_ne (Ne.symm hother) .., rfl, update_of_ne (Ne.symm hother) .., rfl,
        ⟨_, rfl⟩, alone_update halone fun hne => (hnone hne hpassed :)⟩
  | pushReturn hqueued hlevel =>
      exact ⟨update_of_ne (Ne.symm hother) .., rfl, rfl, rfl,
        ⟨[], (List.append_nil _).symm⟩, alone_update halone fun _ => id⟩
  | pushStop hqueued hstop => exact absurd rfl (hnone hother hqueued)
  | pushRefused hqueued hrunning => exact absurd rfl (hnone hother hqueued)
  | pushAbort hstopping hstop => exact absurd trivial (hnone hother hstopping)
  | refusedAbort hrefused => exact absurd trivial (hnone hother hrefused)
  | stopCall hstop => exact absurd hterminating (hundisturbed producer)
  | stopExchange hstop => exact absurd trivial hother
  | stopEnqueue hstop => exact absurd trivial hother
  | stopJoin hstop hworker => exact absurd trivial hother
  | stopRelease hstop => exact absurd trivial hother
  | stopClose hstop => exact absurd trivial hother
  | _ => exact ⟨rfl, rfl, rfl, rfl, ⟨[], (List.append_nil _).symm⟩, halone⟩

/-! ### The steps of the caller -/

/-- A step of the caller brings it closer to its end. -/
theorem stage_of_callAction (hunderway : Underway producer line state)
    (hstep : UndisturbedStep closes state action next) (hcall : CallAction producer action) :
    Ended producer line next ∨
      Stage producer line next ∧ next.aborted = state.aborted ∧
        (∀ other, other ≠ producer → ¬ Terminating (next.push other)) ∧
        callRank (next.push producer) next.stop <
          callRank (state.push producer) state.stop := by
  obtain ⟨⟨_, hmove⟩, hundisturbed⟩ := hstep
  obtain ⟨hinvariant, -, halone, hstage⟩ := id hunderway
  -- the caller itself may be in any state
  have hself : ∀ pushState, ∀ other, other ≠ producer →
      ¬ Terminating (update state.push producer pushState other) :=
    fun pushState => alone_update halone fun hne => absurd rfl hne
  cases hmove with
  | pushThrottled hchecking hfull =>
      subst hcall
      exact absurd hfull (hundisturbed hstage.terminating)
  | pushPassed hchecking hfits =>
      subst hcall
      obtain ⟨rfl, hline, hstop⟩ := hstage.of_checking hchecking
      exact Or.inr ⟨.passed (update_self ..) hline hstop, rfl, hself _,
        by simp [callRank, hchecking]⟩
  | pushEnqueue hpassed =>
      subst hcall
      obtain ⟨rfl, rfl, hstop⟩ := hstage.of_passed hpassed
      exact Or.inr ⟨.queued (update_self ..) hstop, rfl, hself _, by simp [callRank, hpassed]⟩
  | pushReturn hqueued hlevel =>
      subst hcall
      exact absurd (hstage.of_queued hqueued).2.1 hlevel
  | pushStop hqueued hstop =>
      subst hcall
      obtain ⟨rfl, -, -⟩ := hstage.of_queued hqueued
      have hline : _ ∈ beforeSentinel state.enqueued :=
        mem_beforeSentinel (hinvariant.stopping.sentinel (by rw [hstop]; trivial))
          (hinvariant.kept.queued _ _ _ hqueued)
      exact Or.inr ⟨.stopping (update_self ..) (by simp) hline (Or.inl trivial), rfl,
        hself _,
        by simp [callRank, hqueued]⟩
  | pushRefused hqueued hrunning =>
      subst hcall
      have hstop := (hstage.of_queued hqueued).2.2
      rw [hinvariant.stopping.running (Or.inl hstop)] at hrunning
      cases hrunning
  | pushAbort hstopping hstop =>
      subst hcall
      exact Or.inl ⟨rfl, hstopping, hunderway.flushed hstop⟩
  | refusedAbort hrefused =>
      subst hcall
      exact absurd hrefused hstage.push_ne.2
  | stopExchange hstop =>
      obtain ⟨hpush, hline, -⟩ := hstage.of_stop hstop (by simp)
      have hrunning := hinvariant.stopping.running (Or.inr hstop)
      refine Or.inr ⟨.stopping hpush ?_ hline (Or.inl ?_), rfl, halone, ?_⟩
      · simp [hrunning]
      · simp [hrunning, SentinelPending]
      · simp [callRank, hpush, hstop, hrunning]
  | stopEnqueue hstop =>
      obtain ⟨hpush, hline, -⟩ := hstage.of_stop hstop (by simp)
      exact Or.inr ⟨.stopping hpush (by simp) (mem_beforeSentinel_append hline _)
        (Or.inr (by simp)), rfl, halone, by simp [callRank, hpush, hstop]⟩
  | stopJoin hstop hworker =>
      obtain ⟨hpush, hline, hsentinel⟩ := hstage.of_stop hstop (by simp)
      exact Or.inr ⟨.stopping hpush (by simp) hline (Or.inr (hsentinel.resolve_left id)),
        rfl, halone, by simp [callRank, hpush, hstop]⟩
  | stopRelease hstop =>
      obtain ⟨hpush, hline, hsentinel⟩ := hstage.of_stop hstop (by simp)
      have hmem := hsentinel.resolve_left id
      cases closes with
      | true =>
          exact Or.inr ⟨.stopping hpush (by simp) hline (Or.inr hmem), rfl, halone,
            by simp [callRank, hpush, hstop]⟩
      | false =>
          exact Or.inr ⟨.stopping hpush (by simp) hline (Or.inr hmem), rfl, halone,
            by simp [callRank, hpush, hstop]⟩
  | stopClose hstop =>
      obtain ⟨hpush, hline, hsentinel⟩ := hstage.of_stop hstop (by simp)
      exact Or.inr ⟨.stopping hpush (by simp) hline (Or.inr (hsentinel.resolve_left id)),
        rfl, halone, by simp [callRank, hpush, hstop]⟩
  | _ => exact hcall.elim

/-- A call that is under way goes on, or has come to its end. -/
theorem underway_step (hunderway : Underway producer line state)
    (hstep : UndisturbedStep closes state action next) :
    Ended producer line next ∨
      Underway producer line next ∧
        callRank (next.push producer) next.stop ≤
          callRank (state.push producer) state.stop ∧
        (CallAction producer action →
          callRank (next.push producer) next.stop <
            callRank (state.push producer) state.stop) := by
  have hinvariant := invariant_step hunderway.invariant hstep.1
  by_cases hcall : CallAction producer action
  · apply (stage_of_callAction hunderway hstep hcall).imp_right
    intro hnext
    obtain ⟨hstage, haborted, halone, hrank⟩ := hnext
    exact ⟨⟨hinvariant, haborted.trans hunderway.live, halone, hstage⟩, Nat.le_of_lt hrank,
      fun _ => hrank⟩
  · have hframed :=
      framed_of_step hunderway.stage.terminating hunderway.alone hstep hcall
    rw [hframed.push, hframed.stop]
    exact Or.inr ⟨⟨hinvariant, hframed.aborted.trans hunderway.live, hframed.alone,
      hunderway.stage.framed hframed⟩, Nat.le_refl _, fun habsurd => absurd habsurd hcall⟩

theorem terminating_update {push : Producer → PushState Producer} {mover : Producer}
    {pushState : PushState Producer} (hbefore : ¬ Terminating (push producer))
    (hafter : Terminating (update push mover pushState producer)) :
    mover = producer ∧ Terminating pushState := by
  by_cases heq : producer = mover
  · subst heq
    rw [update_self] at hafter
    exact ⟨rfl, hafter⟩
  · rw [update_of_ne heq] at hafter
    exact absurd hafter hbefore

/-- The only step into a call with the level `Terminate` is the call. -/
theorem begins_of_move (hmove : Move closes state action next)
    (hbefore : ¬ Terminating (state.push producer))
    (hafter : Terminating (next.push producer)) :
    ∃ text, action = .pushCall producer text .terminate ∧
      next = { state with
        push := update state.push producer (.checking text .terminate) } := by
  cases hmove with
  | pushCall hidle =>
      obtain ⟨rfl, rfl⟩ := terminating_update hbefore hafter
      exact ⟨_, rfl, rfl⟩
  | pushThrottled hchecking hfull => exact (terminating_update hbefore hafter).2.elim
  | pushPassed hchecking hfits =>
      obtain ⟨rfl, hlevel⟩ := terminating_update hbefore hafter
      rw [hchecking] at hbefore
      exact absurd hlevel hbefore
  | pushEnqueue hpassed =>
      obtain ⟨rfl, hlevel⟩ := terminating_update hbefore hafter
      rw [hpassed] at hbefore
      exact absurd hlevel hbefore
  | pushReturn hqueued hlevel => exact (terminating_update hbefore hafter).2.elim
  | pushStop hqueued hstop =>
      obtain ⟨rfl, -⟩ := terminating_update hbefore hafter
      rw [hqueued] at hbefore
      exact absurd rfl hbefore
  | pushRefused hqueued hrunning =>
      obtain ⟨rfl, -⟩ := terminating_update hbefore hafter
      rw [hqueued] at hbefore
      exact absurd rfl hbefore
  | _ => exact absurd hafter hbefore

/-- Every call with the level `Terminate` is under way or has come to its end. -/
def Guarded (state : LogState Producer) : Prop :=
  ∀ producer, Terminating (state.push producer) →
    ∃ line, Underway producer line state ∨ Ended producer line state

theorem guarded_step (hinvariant : Invariant state) (hguarded : Guarded state)
    (hstep : UndisturbedStep closes state action next) : Guarded next := by
  intro producer hterminating
  by_cases hbefore : Terminating (state.push producer)
  · obtain ⟨line, hcall⟩ := hguarded producer hbefore
    cases hcall with
    | inl hunderway =>
        exact ⟨line, (underway_step hunderway hstep).elim Or.inr fun hnext => Or.inl hnext.1⟩
    | inr hended => exact absurd (hended.aborted.symm.trans hstep.1.1) (by simp)
  · have hnext := invariant_step hinvariant hstep.1
    obtain ⟨text, rfl, rfl⟩ := begins_of_move hstep.1.2 hbefore hterminating
    obtain ⟨hstop, halone⟩ := hstep.2 rfl
    refine ⟨⟨producer, state.calls producer, text⟩, Or.inl ⟨hnext, hstep.1.1, ?_, ?_⟩⟩
    · exact alone_update (fun other _ => halone other) fun hne => absurd rfl hne
    · exact .checking (update_self ..) rfl hstop

end Steps

/-! ## The worker -/

/-- The number of items up to the first empty one. -/
def untilSentinel {Item : Type} : List (Option Item) → ℕ
  | [] => 0
  | none :: _ => 1
  | some _ :: rest => untilSentinel rest + 1

theorem untilSentinel_append {Item : Type} {items : List (Option Item)}
    (hsentinel : none ∈ items) (more : List (Option Item)) :
    untilSentinel (items ++ more) = untilSentinel items := by
  fun_induction untilSentinel items with
  | case1 => cases hsentinel
  | case2 => rfl
  | case3 item rest ih =>
      rw [List.cons_append, untilSentinel, ih ((List.mem_cons.1 hsentinel).resolve_left (by simp))]

theorem untilSentinel_pos {Item : Type} {items : List (Option Item)}
    (hsentinel : none ∈ items) : 0 < untilSentinel items := by
  fun_cases untilSentinel items with
  | case1 => cases hsentinel
  | case2 => exact Nat.one_pos
  | case3 item rest => exact Nat.succ_pos _

/-- The steps that are left for the worker: three for each item in the queue. -/
def workerRank : WorkerState Producer → List (Option (Entry Producer)) → ℕ
  | .idle, queue => 3 * untilSentinel queue
  | .popping, queue => 3 * untilSentinel queue - 1
  | .holding (some _), queue => 3 * untilSentinel queue + 1
  | .holding none, _ => 1
  | .exited, _ => 0

/-- Items behind the sentinel do not concern the worker. -/
theorem workerRank_append {worker : WorkerState Producer}
    {queue : List (Option (Entry Producer))} (hahead : none ∈ inHand worker ++ queue)
    (more : List (Option (Entry Producer))) :
    workerRank worker (queue ++ more) = workerRank worker queue := by
  cases worker with
  | idle =>
      have hqueue : none ∈ queue := hahead
      rw [workerRank, workerRank, untilSentinel_append hqueue]
  | popping =>
      have hqueue : none ∈ queue := hahead
      rw [workerRank, workerRank, untilSentinel_append hqueue]
  | holding line =>
      cases line with
      | none => rfl
      | some entry =>
          have hqueue := (List.mem_append.1 hahead).resolve_left (by simp [inHand])
          rw [workerRank, workerRank, untilSentinel_append hqueue]
  | exited => rfl

/-- Once the sentinel is in the queue, the worker comes closer to its end by each of its
steps. -/
theorem workerRank_move [DecidableEq Producer] {closes : Bool}
    {state next : LogState Producer} {action : Action Producer}
    (hahead : none ∈ inHand state.worker ++ state.queue)
    (hmove : Move closes state action next) :
    workerRank next.worker next.queue ≤ workerRank state.worker state.queue ∧
      (WorkerAction action →
        workerRank next.worker next.queue < workerRank state.worker state.queue) := by
  have hlower : ∀ {rank bound : ℕ}, rank < bound → rank ≤ bound ∧ (True → rank < bound) :=
    fun hlt => ⟨Nat.le_of_lt hlt, fun _ => hlt⟩
  cases hmove with
  | pushEnqueue hpassed =>
      exact ⟨Nat.le_of_eq (workerRank_append hahead _), fun hfalse => hfalse.elim⟩
  | stopEnqueue hstop =>
      exact ⟨Nat.le_of_eq (workerRank_append hahead _), fun hfalse => hfalse.elim⟩
  | popStart hidle =>
      rw [hidle] at hahead ⊢
      have hpos : 0 < untilSentinel state.queue := untilSentinel_pos hahead
      apply hlower
      simp only [workerRank]
      omega
  | @popTake line rest hpopping hqueue =>
      rw [hpopping, hqueue]
      apply hlower
      cases line with
      | none => simp [workerRank, untilSentinel]
      | some entry =>
          simp only [workerRank, untilSentinel]
          omega
  | write hholding =>
      rw [hholding]
      exact hlower (Nat.lt_succ_self _)
  | exit hholding =>
      rw [hholding]
      exact hlower Nat.one_pos
  | _ => exact ⟨Nat.le_refl _, fun hfalse => hfalse.elim⟩

/-! ## Fair executions -/

section Executions

variable [DecidableEq Producer] {closes : Bool} {producer : Producer} {line : Entry Producer}
  {state : LogState Producer}

/-- The caller can act unless it waits for the worker. -/
theorem enabled_callAction (hunderway : Underway producer line state)
    (hjoin : state.stop = .joining → state.worker = .exited) :
    Enabled (Step closes) (CallAction producer) state := by
  have hlive := hunderway.live
  cases hunderway.stage with
  | checking hpush hline hstop =>
      by_cases hfull : state.throttleSize < state.queueSize
      · exact ⟨.pushCheck producer, _, rfl, hlive, .pushThrottled hpush hfull⟩
      · exact ⟨.pushCheck producer, _, rfl, hlive, .pushPassed hpush hfull⟩
  | passed hpush hline hstop =>
      exact ⟨.pushEnqueue producer, _, rfl, hlive, .pushEnqueue hpush⟩
  | queued hpush hstop =>
      exact ⟨.pushStop producer, _, rfl, hlive, .pushStop hpush hstop⟩
  | stopping hpush hcalled hline hsentinel =>
      cases hstop : state.stop with
      | notCalled => exact absurd hstop hcalled
      | exchanging => exact ⟨.stopExchange, _, trivial, hlive, .stopExchange hstop⟩
      | enqueuing => exact ⟨.stopEnqueue, _, trivial, hlive, .stopEnqueue hstop⟩
      | joining => exact ⟨.stopJoin, _, trivial, hlive, .stopJoin hstop (hjoin hstop)⟩
      | releasing => exact ⟨.stopRelease, _, trivial, hlive, .stopRelease hstop⟩
      | closing => exact ⟨.stopClose, _, trivial, hlive, .stopClose hstop⟩
      | returned result =>
          exact ⟨.pushAbort producer, _, rfl, hlive, .pushAbort hpush hstop⟩

omit [DecidableEq Producer] in
/-- The sentinel is still ahead of the worker, or in its hand. -/
theorem Underway.sentinel_ahead (hunderway : Underway producer line state)
    (hstop : state.stop = .joining) : none ∈ inHand state.worker ++ state.queue := by
  have hsentinel : none ∈ state.enqueued :=
    (hunderway.stage.of_stop hstop (by simp)).2.2.resolve_left id
  rw [hunderway.invariant.fifo] at hsentinel
  exact (List.mem_append.1 hsentinel).resolve_left (by simp)

theorem enabled_workerAction (hlive : state.aborted = false)
    (hahead : none ∈ inHand state.worker ++ state.queue) (hworker : state.worker ≠ .exited) :
    Enabled (Step closes) WorkerAction state := by
  cases hstate : state.worker with
  | idle => exact ⟨.popStart, _, trivial, hlive, .popStart hstate⟩
  | popping =>
      rw [hstate] at hahead
      obtain ⟨first, rest, hqueue⟩ := List.exists_cons_of_ne_nil (List.ne_nil_of_mem hahead)
      exact ⟨.popTake, _, trivial, hlive, .popTake hstate hqueue⟩
  | holding line =>
      cases line with
      | none => exact ⟨.exit, _, trivial, hlive, .exit hstate⟩
      | some entry => exact ⟨.write, _, trivial, hlive, .write hstate⟩
  | exited => exact absurd hstate hworker

omit [DecidableEq Producer] in
theorem Underway.callRank_joining (hunderway : Underway producer line state)
    (hstop : state.stop = .joining) :
    callRank (state.push producer) state.stop = 4 := by
  rw [(hunderway.stage.of_stop hstop (by simp)).1, hstop]
  rfl

omit [DecidableEq Producer] in
/-- When the sentinel is in the queue, the caller waits for the worker or the worker has
exited. -/
theorem Underway.joining_or_exited (hunderway : Underway producer line state)
    (hrank : callRank (state.push producer) state.stop ≤ 4) :
    state.stop = .joining ∨ state.worker = .exited := by
  have hjoined := hunderway.invariant.stopping.joined
  cases hunderway.stage with
  | checking hpush => simp [hpush, callRank] at hrank
  | passed hpush => simp [hpush, callRank] at hrank
  | queued hpush => simp [hpush, callRank] at hrank
  | stopping hpush hcalled =>
      cases hstop : state.stop with
      | notCalled => exact absurd hstop hcalled
      | exchanging => simp [hpush, hstop, callRank] at hrank
      | enqueuing => simp [hpush, hstop, callRank] at hrank
      | joining => exact Or.inl rfl
      | releasing => exact Or.inr (hjoined (by rw [hstop]; trivial))
      | closing => exact Or.inr (hjoined (by rw [hstop]; trivial))
      | returned result => exact Or.inr (hjoined (by rw [hstop]; trivial))

variable {execution : Execution
  (UndisturbedStep closes : LogState Producer → Action Producer → LogState Producer → Prop)}
  {time : ℕ}

/-- The caller gets its sentinel into the queue. -/
theorem eventually_sentinel (hfair : execution.Fair (Step closes) (CallAction producer))
    (hunderway : Underway producer line (execution.state time)) :
    ∃ later, time ≤ later ∧ (Ended producer line (execution.state later) ∨
      Underway producer line (execution.state later) ∧
        callRank ((execution.state later).push producer) (execution.state later).stop ≤ 4) := by
  by_cases hrank : callRank ((execution.state time).push producer)
      (execution.state time).stop ≤ 4
  · exact ⟨time, Nat.le_refl _, Or.inr ⟨hunderway, hrank⟩⟩
  apply Execution.eventually
    (fun state => Underway producer line state ∧
      4 < callRank (state.push producer) state.stop)
    (fun state => Ended producer line state ∨
      Underway producer line state ∧ callRank (state.push producer) state.stop ≤ 4)
    (fun state => callRank (state.push producer) state.stop) _ hfair _
    ⟨hunderway, Nat.lt_of_not_le hrank⟩
  · intro before action after hbefore hstep
    cases underway_step hbefore.1 hstep with
    | inl hended => exact Or.inl (Or.inl hended)
    | inr hafter =>
        by_cases hlow : callRank (after.push producer) after.stop ≤ 4
        · exact Or.inl (Or.inr ⟨hafter.1, hlow⟩)
        · exact Or.inr ⟨⟨hafter.1, Nat.lt_of_not_le hlow⟩, hafter.2⟩
  · intro state hstate
    apply enabled_callAction hstate.1
    intro hstop
    exact absurd (hstate.1.callRank_joining hstop) (Nat.ne_of_gt hstate.2)

/-- The worker comes to its end. -/
theorem eventually_exited (hfair : execution.Fair (Step closes) WorkerAction)
    (hunderway : Underway producer line (execution.state time))
    (hstop : (execution.state time).stop = .joining)
    (hworker : (execution.state time).worker ≠ .exited) :
    ∃ later, time ≤ later ∧ (Ended producer line (execution.state later) ∨
      Underway producer line (execution.state later) ∧
        (execution.state later).worker = .exited) := by
  apply Execution.eventually
    (fun state => Underway producer line state ∧ state.stop = .joining ∧
      state.worker ≠ .exited)
    (fun state => Ended producer line state ∨
      Underway producer line state ∧ state.worker = .exited)
    (fun state => workerRank state.worker state.queue) _ hfair _ ⟨hunderway, hstop, hworker⟩
  · intro before action after hbefore hstep
    obtain ⟨hbefore, hjoining, -⟩ := hbefore
    cases underway_step hbefore hstep with
    | inl hended => exact Or.inl (Or.inl hended)
    | inr hafter =>
        by_cases hexited : after.worker = .exited
        · exact Or.inl (Or.inr ⟨hafter.1, hexited⟩)
        · have hrank := Nat.le_trans hafter.2.1 (Nat.le_of_eq (hbefore.callRank_joining hjoining))
          have hstays := (hafter.1.joining_or_exited hrank).resolve_right hexited
          exact Or.inr ⟨⟨hafter.1, hstays, hexited⟩,
            workerRank_move (hbefore.sentinel_ahead hjoining) hstep.1.2⟩
  · intro state hstate
    exact enabled_workerAction hstate.1.live (hstate.1.sentinel_ahead hstate.2.1) hstate.2.2

/-- The caller returns from `stop` and aborts. -/
theorem eventually_aborted (hfair : execution.Fair (Step closes) (CallAction producer))
    (hunderway : Underway producer line (execution.state time))
    (hworker : (execution.state time).worker = .exited) :
    ∃ later, time ≤ later ∧ Ended producer line (execution.state later) := by
  apply Execution.eventually
    (fun state => Underway producer line state ∧ state.worker = .exited)
    (fun state => Ended producer line state)
    (fun state => callRank (state.push producer) state.stop) _ hfair _ ⟨hunderway, hworker⟩
  · intro before action after hbefore hstep
    apply (underway_step hbefore.1 hstep).imp_right
    intro hafter
    exact ⟨⟨hafter.1, (exited_step hbefore.2 hstep.1).1⟩, hafter.2⟩
  · intro state hstate
    exact enabled_callAction hstate.1 fun _ => hstate.2

theorem eventually_ended (hcaller : execution.Fair (Step closes) (CallAction producer))
    (hworker : execution.Fair (Step closes) WorkerAction)
    (hunderway : Underway producer line (execution.state time)) :
    ∃ later, time ≤ later ∧ Ended producer line (execution.state later) := by
  obtain ⟨queued, hqueued, hended | ⟨hwaiting, hrank⟩⟩ :=
    eventually_sentinel hcaller hunderway
  · exact ⟨queued, hqueued, hended⟩
  by_cases hexited : (execution.state queued).worker = .exited
  · obtain ⟨last, hlast, hended⟩ := eventually_aborted hcaller hwaiting hexited
    exact ⟨last, Nat.le_trans hqueued hlast, hended⟩
  have hstop := (hwaiting.joining_or_exited hrank).resolve_right hexited
  obtain ⟨done, hdone, hended | ⟨hreturning, hexited⟩⟩ :=
    eventually_exited hworker hwaiting hstop hexited
  · exact ⟨done, Nat.le_trans hqueued hdone, hended⟩
  · obtain ⟨last, hlast, hended⟩ := eventually_aborted hcaller hreturning hexited
    exact ⟨last, Nat.le_trans hqueued (Nat.le_trans hdone hlast), hended⟩

theorem guarded_state {throttleSize : ℤ}
    (hstart : execution.state 0 = LogState.started throttleSize) (time : ℕ) :
    Guarded (execution.state time) := by
  obtain ⟨taken, run⟩ := execution.run 0 time
  rw [hstart, Nat.zero_add] at run
  have hboth := run.invariant (fun state => Invariant state ∧ Guarded state)
    ⟨invariant_started throttleSize, fun _ hidle => hidle.elim⟩
    fun _ _ _ hbefore hstep =>
      ⟨invariant_step hbefore.1 hstep.1, guarded_step hbefore.1 hbefore.2 hstep⟩
  exact hboth.2

/-- A call that has come to its end stays there. -/
theorem underway_or_ended (hunderway : Underway producer line (execution.state time))
    {later : ℕ} (hlater : time ≤ later) :
    Underway producer line (execution.state later) ∨
      Ended producer line (execution.state later) := by
  obtain ⟨count, rfl⟩ := Nat.exists_eq_add_of_le hlater
  obtain ⟨taken, run⟩ := execution.run time count
  apply run.invariant
    (fun state => Underway producer line state ∨ Ended producer line state)
    (Or.inl hunderway)
  intro before action after hbefore hstep
  cases hbefore with
  | inl hbefore => exact (underway_step hbefore hstep).elim Or.inr fun hafter => Or.inl hafter.1
  | inr hbefore => exact absurd (hbefore.aborted.symm.trans hstep.1.1) (by simp)

/-- The check does not look at the level. -/
theorem returns_iff_throttled {next : LogState Producer}
    (hstep : Step closes state (.pushCheck producer) next) :
    next.push producer = .idle ↔ state.throttleSize < state.queueSize := by
  obtain ⟨_, hmove⟩ := hstep
  cases hmove with
  | pushThrottled hbefore hfull => simp [hfull]
  | pushPassed hbefore hfits => simp [hfits]

/-- In every fair execution whose steps meet the condition, a call of `push` with the
level `Terminate` never returns, and the program is aborted once the line and everything
before it is written.  In every state, whatever the level, a call returns from its check
exactly when the queue is too long. -/
theorem terminate_push_aborts {throttleSize : ℤ}
    (hstart : execution.state 0 = LogState.started throttleSize)
    (hcallers : ∀ caller, execution.Fair (Step closes) (CallAction caller))
    (hworker : execution.Fair (Step closes) WorkerAction) {text : Bytes}
    (hcall : (execution.state time).push producer = .checking text .terminate) :
    (∀ later, time ≤ later → (execution.state later).push producer ≠ .idle) ∧
    (∃ later, time ≤ later ∧ (execution.state later).aborted = true ∧
      Flushed ⟨producer, (execution.state time).calls producer, text⟩
        (execution.state later)) ∧
    ∀ state next : LogState Producer, Step closes state (.pushCheck producer) next →
      (next.push producer = .idle ↔ state.throttleSize < state.queueSize) := by
  have hunderway : Underway producer
      ⟨producer, (execution.state time).calls producer, text⟩ (execution.state time) := by
    obtain ⟨line, hunderway | hended⟩ :=
      guarded_state hstart time producer (by rw [hcall]; rfl)
    · rwa [(hunderway.stage.of_checking hcall).2.1] at hunderway
    · cases hcall.symm.trans hended.stopping
  refine ⟨?_, ?_, fun state next hstep => returns_iff_throttled hstep⟩
  · intro later hlater
    cases underway_or_ended hunderway hlater with
    | inl hgoing => exact hgoing.stage.push_ne.1
    | inr hended => simp [hended.stopping]
  · obtain ⟨later, hlater, hended⟩ :=
      eventually_ended (hcallers producer) hworker hunderway
    exact ⟨later, hlater, hended.aborted, hended.flushed⟩

end Executions

/-! ## Executions of the log -/

/-- Where the program is aborted nobody acts any more. -/
theorem not_enabled_of_aborted [DecidableEq Producer] {closes : Bool}
    {state : LogState Producer} (haborted : state.aborted = true)
    (labels : Action Producer → Prop) : ¬ Enabled (Step closes) labels state := by
  intro henabled
  obtain ⟨action, next, -, hlive, -⟩ := henabled
  cases haborted.symm.trans hlive

/-- A line of level `Info` is in the queue, and a call with the level `Terminate` has
begun. -/
def terminateCalled : LogState Unit :=
  { LogState.started 8 with
    queue := [some ⟨(), 0, [97]⟩]
    enqueued := [some ⟨(), 0, [97]⟩]
    push := fun _ => .checking [98] .terminate
    calls := fun _ => 1
    returned := [⟨(), 0, [97]⟩] }

theorem run_terminateCalled :
    Run (UndisturbedStep false) (LogState.started 8)
      [.pushCall () [97] .info, .pushCheck (), .pushEnqueue (), .pushReturn (),
        .pushCall () [98] .terminate] terminateCalled :=
  .snoc (.snoc (.snoc (.snoc (.snoc .nil
    ⟨⟨by rfl, .pushCall (by rfl)⟩, nofun⟩)
    ⟨⟨by rfl, .pushPassed (by rfl) (by decide)⟩, fun _ => by decide⟩)
    ⟨⟨by rfl, .pushEnqueue (by rfl)⟩, trivial⟩)
    ⟨⟨by rfl, .pushReturn (by rfl) (by decide)⟩, trivial⟩)
    ⟨⟨by rfl, .pushCall (by rfl)⟩, fun _ => ⟨by rfl, fun _ => id⟩⟩

/-- The call has put its line and the sentinel into the queue. -/
def sentinelQueued : LogState Unit :=
  { terminateCalled with
    queue := [some ⟨(), 0, [97]⟩, some ⟨(), 1, [98]⟩, none]
    enqueued := [some ⟨(), 0, [97]⟩, some ⟨(), 1, [98]⟩, none]
    push := fun _ => .stopping
    calls := fun _ => 2
    running := false
    stop := .joining
    returnedBeforeStop := [⟨(), 0, [97]⟩] }

theorem run_sentinelQueued :
    Run (UndisturbedStep false) terminateCalled
      [.pushCheck (), .pushEnqueue (), .pushStop (), .stopExchange, .stopEnqueue]
      sentinelQueued :=
  .snoc (.snoc (.snoc (.snoc (.snoc .nil
    ⟨⟨by rfl, .pushPassed (by rfl) (by decide)⟩, fun _ => by decide⟩)
    ⟨⟨by rfl, .pushEnqueue (by rfl)⟩, trivial⟩)
    ⟨⟨by rfl, .pushStop (by rfl) (by rfl)⟩, trivial⟩)
    ⟨⟨by rfl, .stopExchange (by rfl)⟩, trivial⟩)
    ⟨⟨by rfl, .stopEnqueue (by rfl)⟩, trivial⟩

/-- The worker has written both lines. -/
def bothWritten : LogState Unit :=
  { sentinelQueued with
    queue := [none]
    startedPops := 2
    written := [⟨(), 0, [97]⟩, ⟨(), 1, [98]⟩] }

theorem run_bothWritten :
    Run (UndisturbedStep false) sentinelQueued
      [.popStart, .popTake, .write, .popStart, .popTake, .write] bothWritten :=
  .snoc (.snoc (.snoc (.snoc (.snoc (.snoc .nil
    ⟨⟨by rfl, .popStart (by rfl)⟩, trivial⟩)
    ⟨⟨by rfl, .popTake (by rfl) (by rfl)⟩, trivial⟩)
    ⟨⟨by rfl, .write (by rfl)⟩, trivial⟩)
    ⟨⟨by rfl, .popStart (by rfl)⟩, trivial⟩)
    ⟨⟨by rfl, .popTake (by rfl) (by rfl)⟩, trivial⟩)
    ⟨⟨by rfl, .write (by rfl)⟩, trivial⟩

/-- The worker finds the sentinel, and the program is aborted. -/
def bothWrittenAborted : LogState Unit :=
  { bothWritten with
    queue := []
    startedPops := 3
    worker := .exited
    target := false
    stop := .returned true
    aborted := true }

theorem run_bothWrittenAborted :
    Run (UndisturbedStep false) bothWritten
      [.popStart, .popTake, .exit, .stopJoin, .stopRelease, .pushAbort ()]
      bothWrittenAborted :=
  .snoc (.snoc (.snoc (.snoc (.snoc (.snoc .nil
    ⟨⟨by rfl, .popStart (by rfl)⟩, trivial⟩)
    ⟨⟨by rfl, .popTake (by rfl) (by rfl)⟩, trivial⟩)
    ⟨⟨by rfl, .exit (by rfl)⟩, trivial⟩)
    ⟨⟨by rfl, .stopJoin (by rfl) (by rfl)⟩, trivial⟩)
    ⟨⟨by rfl, .stopRelease (by rfl)⟩, trivial⟩)
    ⟨⟨by rfl, .pushAbort (by rfl) (by rfl)⟩, trivial⟩

/-- A line of level `Info` is followed by one of level `Terminate`: both are written, and
the program is aborted. -/
theorem terminate_push_aborts_example :
    ∃ state : LogState Unit, state.aborted = true ∧ Flushed ⟨(), 1, [98]⟩ state := by
  obtain ⟨behind, hbehind, hlast⟩ := exists_execution
    (run_sentinelQueued.append (run_bothWritten.append run_bothWrittenAborted))
    (.resting bothWrittenAborted) rfl
  obtain ⟨whole, hstart, hlater⟩ := exists_execution run_terminateCalled behind hbehind
  have hcalled : whole.state 5 = terminateCalled := (hlater 0).trans hbehind
  have haborted : ∀ time, whole.state (22 + time) = bothWrittenAborted := by
    intro time
    rw [Nat.add_assoc 5 17 time]
    exact (hlater (17 + time)).trans (hlast time)
  have hfair : ∀ labels, whole.Fair (Step false) labels := by
    intro labels
    apply whole.fair_of_stuck 22
    intro time
    rw [haborted time]
    exact not_enabled_of_aborted rfl labels
  have hcall : (whole.state 5).push () = .checking [98] .terminate := by
    rw [hcalled]
    rfl
  obtain ⟨later, -, hend⟩ :=
    (terminate_push_aborts hstart (fun _ => hfair _) (hfair _) hcall).2.1
  rw [hcalled] at hend
  exact ⟨_, hend⟩

/-- A `Terminate` line behind a queue that is too long is dropped and the call returns;
and of two `Terminate` calls the second one aborts while nothing is written. -/
theorem terminate_push_returns :
    (∃ state : LogState Unit,
      Run (Step false) (LogState.started 0)
        [.pushCall () [97] .info, .pushCheck (), .pushEnqueue (), .pushReturn (),
          .pushCall () [98] .terminate, .pushCheck ()] state ∧
      state.push () = .idle ∧ state.aborted = false ∧
      state.enqueued = [some ⟨(), 0, [97]⟩]) ∧
    ∃ state : LogState Bool,
      Run (Step false) (LogState.started 8)
        [.pushCall true [97] .terminate, .pushCheck true, .pushEnqueue true,
          .pushStop true, .stopExchange, .pushCall false [98] .terminate, .pushCheck false,
          .pushEnqueue false, .pushStop false, .pushAbort false] state ∧
      state.aborted = true ∧ state.enqueued = [some ⟨true, 0, [97]⟩, some ⟨false, 0, [98]⟩] ∧
      state.written = [] := by
  have hthrottled : Run (Step false) (LogState.started 0 : LogState Unit)
      [.pushCall () [97] .info, .pushCheck (), .pushEnqueue (), .pushReturn (),
        .pushCall () [98] .terminate, .pushCheck ()] _ :=
    .snoc (.snoc (.snoc (.snoc (.snoc (.snoc .nil
      ⟨by rfl, .pushCall (by rfl)⟩) ⟨by rfl, .pushPassed (by rfl) (by decide)⟩)
      ⟨by rfl, .pushEnqueue (by rfl)⟩) ⟨by rfl, .pushReturn (by rfl) (by decide)⟩)
      ⟨by rfl, .pushCall (by rfl)⟩)
      ⟨by rfl, .pushThrottled (by rfl) (show (0 : ℤ) < 1 by decide)⟩
  have hrefused : Run (Step false) (LogState.started 8 : LogState Bool)
      [.pushCall true [97] .terminate, .pushCheck true, .pushEnqueue true,
        .pushStop true, .stopExchange, .pushCall false [98] .terminate, .pushCheck false,
        .pushEnqueue false, .pushStop false, .pushAbort false] _ :=
    .snoc (.snoc (.snoc (.snoc (.snoc (.snoc (.snoc (.snoc (.snoc (.snoc .nil
      ⟨by rfl, .pushCall (by rfl)⟩) ⟨by rfl, .pushPassed (by rfl) (by decide)⟩)
      ⟨by rfl, .pushEnqueue (by rfl)⟩) ⟨by rfl, .pushStop (by rfl) (by rfl)⟩)
      ⟨by rfl, .stopExchange (by rfl)⟩) ⟨by rfl, .pushCall (by rfl)⟩)
      ⟨by rfl, .pushPassed (by rfl) (by decide)⟩) ⟨by rfl, .pushEnqueue (by rfl)⟩)
      ⟨by rfl, .pushRefused (by rfl) (by rfl)⟩) ⟨by rfl, .refusedAbort (by rfl)⟩
  exact ⟨⟨_, hthrottled, rfl, rfl, rfl⟩, ⟨_, hrefused, rfl, rfl, rfl⟩⟩

end Nstl.Terminate
