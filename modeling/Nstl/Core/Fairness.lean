import Mathlib.Data.Nat.Notation
import Nstl.Core.Transition

/-!
# Fair executions

An execution goes on for ever; where nothing happens, it stays in its state.  A thread
is given by the labels of its steps.  It is treated fairly when it is not passed over
for ever while it can act.  What a fair execution is bound to reach follows from a rank
that the steps of one thread lower and that the steps of no thread raise.
-/

namespace Nstl.Fairness

open Nstl.Transition

variable {State Label : Type*}

structure Execution (step : State → Label → State → Prop) where
  state : ℕ → State
  label : ℕ → Option Label
  moves : ∀ time taken, label time = some taken → step (state time) taken (state (time + 1))
  stays : ∀ time, label time = none → state (time + 1) = state time

/-- One of the labels can be taken. -/
def Enabled (step : State → Label → State → Prop) (labels : Label → Prop) (state : State) :
    Prop :=
  ∃ label next, labels label ∧ step state label next

variable {step system : State → Label → State → Prop} {labels : Label → Prop}

/-- Again and again the thread cannot act in the system, or it acts. -/
def Execution.Fair (execution : Execution step) (system : State → Label → State → Prop)
    (labels : Label → Prop) : Prop :=
  ∀ time, ∃ later, time ≤ later ∧
    (¬ Enabled system labels (execution.state later) ∨
      ∃ taken, labels taken ∧ execution.label later = some taken)

/-! ## Executions and runs -/

/-- What happens between two points of an execution is a run. -/
theorem Execution.run (execution : Execution step) (time count : ℕ) :
    ∃ taken, Run step (execution.state time) taken (execution.state (time + count)) := by
  induction count with
  | zero => exact ⟨[], .nil⟩
  | succ count ih =>
      obtain ⟨taken, run⟩ := ih
      cases hlabel : execution.label (time + count) with
      | none =>
          rw [← Nat.add_assoc, execution.stays _ hlabel]
          exact ⟨taken, run⟩
      | some last => exact ⟨taken ++ [last], run.snoc (execution.moves _ last hlabel)⟩

/-- An execution in which nothing happens. -/
def Execution.resting (state : State) : Execution step where
  state _ := state
  label _ := none
  moves _ _ htaken := by cases htaken
  stays _ _ := rfl

/-- A step in front of an execution. -/
def Execution.cons {start : State} {first : Label} (execution : Execution step)
    (hstep : step start first (execution.state 0)) : Execution step where
  state
    | 0 => start
    | time + 1 => execution.state time
  label
    | 0 => some first
    | time + 1 => execution.label time
  moves
    | 0, _, htaken => Option.some.inj htaken ▸ hstep
    | time + 1, taken, htaken => execution.moves time taken htaken
  stays
    | 0, hnone => nomatch hnone
    | time + 1, hnone => execution.stays time hnone

/-- An execution can be put behind a run. -/
theorem exists_execution {start state : State} {taken : List Label}
    (run : Run step start taken state) (execution : Execution step)
    (hstart : execution.state 0 = state) :
    ∃ whole : Execution step, whole.state 0 = start ∧
      ∀ time, whole.state (taken.length + time) = execution.state time := by
  induction run generalizing execution with
  | nil => exact ⟨execution, hstart, fun time => by rw [List.length_nil, Nat.zero_add]⟩
  | snoc run hstep ih =>
      obtain ⟨whole, hwhole, hlater⟩ := ih (execution.cons (hstart ▸ hstep)) rfl
      refine ⟨whole, hwhole, ?_⟩
      intro time
      rw [List.length_append, List.length_singleton, Nat.add_assoc, Nat.add_comm 1 time]
      exact hlater (time + 1)

/-- Where no thread can act any more, every thread is treated fairly. -/
theorem Execution.fair_of_stuck (execution : Execution step) (last : ℕ)
    (hstuck : ∀ time, ¬ Enabled system labels (execution.state (last + time))) :
    execution.Fair system labels := by
  intro time
  exact ⟨last + time, Nat.le_add_left .., Or.inl (hstuck time)⟩

/-! ## What is bound to happen -/

section Eventually

variable {execution : Execution step} (during goal : State → Prop) (rank : State → ℕ)
  (hstep : ∀ before taken after, during before → step before taken after →
    goal after ∨ during after ∧ rank after ≤ rank before ∧
      (labels taken → rank after < rank before))

include hstep

/-- Until the goal is reached the rank does not rise. -/
theorem Execution.during_of_not_goal {time : ℕ} (hduring : during (execution.state time))
    (count : ℕ) :
    (∃ later, time ≤ later ∧ goal (execution.state later)) ∨
      during (execution.state (time + count)) ∧
        rank (execution.state (time + count)) ≤ rank (execution.state time) := by
  induction count with
  | zero => exact Or.inr ⟨hduring, Nat.le_refl _⟩
  | succ count ih =>
      cases ih with
      | inl hgoal => exact Or.inl hgoal
      | inr hbefore =>
          cases hlabel : execution.label (time + count) with
          | none =>
              rw [← Nat.add_assoc, execution.stays _ hlabel]
              exact Or.inr hbefore
          | some taken =>
              cases hstep _ _ _ hbefore.1 (execution.moves _ taken hlabel) with
              | inl hgoal => exact Or.inl ⟨time + (count + 1), Nat.le_add_right .., hgoal⟩
              | inr hafter => exact Or.inr ⟨hafter.1, Nat.le_trans hafter.2.1 hbefore.2⟩

/-- A fair execution reaches the goal when, on the way to it, the thread can always act
and lowers the rank by acting. -/
theorem Execution.eventually (hfair : execution.Fair system labels)
    (henabled : ∀ state, during state → Enabled system labels state) {time : ℕ}
    (hduring : during (execution.state time)) :
    ∃ later, time ≤ later ∧ goal (execution.state later) := by
  -- by induction on the rank: the next step of the thread is one to a lower rank
  induction hrank : rank (execution.state time) using Nat.strongRecOn generalizing time with
  | ind bound ih =>
      obtain ⟨later, hlater, hacts⟩ := hfair time
      obtain ⟨count, rfl⟩ := Nat.exists_eq_add_of_le hlater
      cases Execution.during_of_not_goal during goal rank hstep hduring count with
      | inl hgoal => exact hgoal
      | inr hbefore =>
          cases hacts with
          | inl hdisabled => exact absurd (henabled _ hbefore.1) hdisabled
          | inr htaken =>
              obtain ⟨taken, hthread, hlabel⟩ := htaken
              cases hstep _ _ _ hbefore.1 (execution.moves _ taken hlabel) with
              | inl hgoal => exact ⟨_, Nat.le_succ_of_le hlater, hgoal⟩
              | inr hafter =>
                  have hlower := Nat.lt_of_lt_of_le (hafter.2.2 hthread) hbefore.2
                  obtain ⟨last, hlast, hgoal⟩ := ih _ (hrank ▸ hlower) hafter.1 rfl
                  exact ⟨last, Nat.le_trans (Nat.le_succ_of_le hlater) hlast, hgoal⟩

end Eventually

end Nstl.Fairness
