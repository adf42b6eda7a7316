import Mathlib.Data.Nat.Notation
import Mathlib.Logic.Basic

/-!
# Runs of a transition system

A system is a step relation between states, labelled by what happens in the step.
Runs grow at their end, so that a statement about the last state of every run is
a statement about every state that is reached on the way.
-/

namespace Nstl.Transition

variable {State Abstract Label Event : Type*}

/-- The runs from a state, with the labels of their steps. -/
inductive Run (step : State → Label → State → Prop) (start : State) :
    List Label → State → Prop
  | nil : Run step start [] start
  | snoc {labels : List Label} {state next : State} {label : Label}
      (run : Run step start labels state) (hstep : step state label next) :
      Run step start (labels ++ [label]) next

variable {step : State → Label → State → Prop} {start state : State}
  {labels : List Label}

/-- What holds at the start and is kept by every step holds in every state that
is reached. -/
theorem Run.invariant (holds : State → Prop) (run : Run step start labels state)
    (hstart : holds start)
    (hstep : ∀ before label after, holds before → step before label after → holds after) :
    holds state := by
  induction run with
  | nil => exact hstart
  | snoc _ hnext ih => exact hstep _ _ _ ih hnext

/-- A measure that every step lowers bounds the number of steps. -/
theorem Run.length_le (measure : State → ℕ) (run : Run step start labels state)
    (hstep : ∀ before label after, step before label after → measure after < measure before) :
    labels.length + measure state ≤ measure start := by
  induction run with
  | nil => exact Nat.le_of_eq (Nat.zero_add _)
  | snoc _ hnext ih =>
      have hlt := hstep _ _ _ hnext
      rw [List.length_append, List.length_singleton]
      omega

/-- Where the steps account for every change of a stock, runs do: what has come in is what has
gone out and what is left. -/
theorem Run.conserved (stock : State → ℕ) (comes goes : Label → Bool)
    (run : Run step start labels state) (hstart : stock start = 0)
    (hstep : ∀ before label after, step before label after →
      stock before + (comes label).toNat = stock after + (goes label).toNat) :
    labels.countP comes = labels.countP goes + stock state := by
  induction run with
  | nil => rw [hstart, List.countP_nil, List.countP_nil]
  | @snoc labels before after label _ hnext ih =>
      have hcount (chosen : Label → Bool) :
          (labels ++ [label]).countP chosen = labels.countP chosen + (chosen label).toNat := by
        rw [List.countP_append, List.countP_singleton]
        cases chosen label <;> rfl
      have hbalance := hstep _ _ _ hnext
      rw [hcount, hcount]
      omega

/-- A run that has not come to the end of everything has not done so on the way. -/
theorem Run.of_some {step : Option State → Label → Option State → Prop}
    (run : Run step (some start) labels (some state))
    (hend : ∀ label after, ¬step none label after) :
    Run (fun before label after => step (some before) label (some after)) start labels state := by
  generalize hlast : some state = last at run
  induction run generalizing state with
  | nil =>
      obtain rfl := Option.some.inj hlast
      exact .nil
  | @snoc labels before after label _ hnext ih =>
      subst hlast
      cases before with
      | none => exact absurd hnext (hend _ _)
      | some before => exact (ih rfl).snoc hnext

theorem Run.append {last : State} {more : List Label} (run : Run step start labels state)
    (rest : Run step state more last) : Run step start (labels ++ more) last := by
  induction rest with
  | nil => rwa [List.append_nil]
  | snoc _ hnext ih =>
      rw [← List.append_assoc]
      exact ih.snoc hnext

theorem Run.mono {step' : State → Label → State → Prop} (run : Run step start labels state)
    (hstep : ∀ before label after, step before label after → step' before label after) :
    Run step' start labels state := by
  induction run with
  | nil => exact .nil
  | snoc _ hnext ih => exact ih.snoc (hstep _ _ _ hnext)

/-- Where the steps keep a property of the states and have one of the labels, so do
runs. -/
theorem Run.labels_of_invariant (holds : State → Prop) (allowed : Label → Prop)
    (run : Run step start labels state) (hstart : holds start)
    (hstep : ∀ before label after, holds before → step before label after →
      allowed label ∧ holds after) :
    (∀ label ∈ labels, allowed label) ∧ holds state := by
  induction run with
  | nil => exact ⟨fun _ hlabel => absurd hlabel List.not_mem_nil, hstart⟩
  | snoc _ hnext ih =>
      have hafter := hstep _ _ _ ih.2 hnext
      refine ⟨fun label hlabel => ?_, hafter.2⟩
      rcases List.mem_append.1 hlabel with hearlier | hlast
      · exact ih.1 label hearlier
      · exact List.mem_singleton.1 hlast ▸ hafter.1

/-- What one label brings about, and nothing else changes, holds exactly if the label has
occurred. -/
theorem Run.mem_labels_iff (holds : State → Prop) (label : Label)
    (run : Run step start labels state) (hstart : ¬holds start)
    (hstep : ∀ before other after, step before other after →
      (holds after ↔ holds before ∨ other = label)) :
    label ∈ labels ↔ holds state := by
  induction run with
  | nil => exact iff_of_false List.not_mem_nil hstart
  | snoc _ hnext ih =>
      rw [List.mem_append, List.mem_singleton, ih, hstep _ _ _ hnext, eq_comm]

/-- A view of the states that takes steps to steps takes runs to runs. -/
theorem Run.map {abstractStep : Abstract → Label → Abstract → Prop} (view : State → Abstract)
    (run : Run step start labels state)
    (hstep : ∀ before label after, step before label after →
      abstractStep (view before) label (view after)) :
    Run abstractStep (view start) labels (view state) := by
  induction run with
  | nil => exact .nil
  | snoc _ hnext ih => exact ih.snoc (hstep _ _ _ hnext)

/-- The steps of a run whose labels all have a property. -/
theorem Run.restrict (holds : Label → Prop) (run : Run step start labels state)
    (hlabels : ∀ label ∈ labels, holds label) :
    Run (fun before label after => step before label after ∧ holds label) start labels state := by
  induction run with
  | nil => exact .nil
  | snoc _ hnext ih =>
      have hearlier := ih fun label hlabel => hlabels label (List.mem_append_left _ hlabel)
      exact hearlier.snoc ⟨hnext, hlabels _ (List.mem_append_right _ List.mem_cons_self)⟩

/-- Steps that are also steps of another system, as long as an invariant holds,
make a run of that system. -/
theorem Run.transfer {step' : State → Label → State → Prop} (holds : State → Prop)
    (run : Run step start labels state) (hstart : holds start)
    (hstep : ∀ before label after, holds before → step before label after →
      step' before label after ∧ holds after) :
    Run step' start labels state ∧ holds state := by
  induction run with
  | nil => exact ⟨.nil, hstart⟩
  | snoc _ hnext ih =>
      have hafter := hstep _ _ _ ih.2 hnext
      exact ⟨ih.1.snoc hafter.1, hafter.2⟩

/-- A relation that every step can keep by an abstract step, or without one where its
label is no event of the abstract system, relates every run to an abstract one with the
events of its labels. -/
theorem Run.simulated_events {abstractStep : Abstract → Event → Abstract → Prop}
    {related : State → Abstract → Prop} {abstractStart : Abstract}
    (event : Label → Option Event) (run : Run step start labels state)
    (hstart : related start abstractStart)
    (hstep : ∀ before label after abstract, related before abstract →
      step before label after →
        (event label = none ∧ related after abstract) ∨
          ∃ happened next, event label = some happened ∧
            abstractStep abstract happened next ∧ related after next) :
    ∃ abstract, Run abstractStep abstractStart (labels.filterMap event) abstract ∧
      related state abstract := by
  induction run with
  | nil => exact ⟨abstractStart, .nil, hstart⟩
  | snoc _ hnext ih =>
      obtain ⟨abstract, habstract, hrelated⟩ := ih
      rw [List.filterMap_append]
      rcases hstep _ _ _ _ hrelated hnext with hsilent | hvisible
      · rw [List.filterMap_cons_none hsilent.1, List.filterMap_nil, List.append_nil]
        exact ⟨abstract, habstract, hsilent.2⟩
      · obtain ⟨happened, next, hevent, hmove, hafter⟩ := hvisible
        rw [List.filterMap_cons_some hevent, List.filterMap_nil]
        exact ⟨next, habstract.snoc hmove, hafter⟩

/-- The same where every label is one of the abstract system. -/
theorem Run.simulated {abstractStep : Abstract → Label → Abstract → Prop}
    {related : State → Abstract → Prop} {abstractStart : Abstract}
    (run : Run step start labels state) (hstart : related start abstractStart)
    (hstep : ∀ before label after abstract, related before abstract →
      step before label after →
        ∃ next, abstractStep abstract label next ∧ related after next) :
    ∃ abstract, Run abstractStep abstractStart labels abstract ∧
      related state abstract := by
  have hevents := run.simulated_events some hstart fun before label after abstract hrelated hnext =>
    have ⟨next, hmove, hafter⟩ := hstep before label after abstract hrelated hnext
    Or.inr ⟨label, next, rfl, hmove, hafter⟩
  rwa [List.filterMap_some] at hevents

/-- A view of the states under which every step is an abstract step, or is not
visible at all, turns every run into an abstract one. -/
theorem Run.viewed {abstractStep : Abstract → Event → Abstract → Prop}
    (view : State → Abstract) (holds : State → Prop) (run : Run step start labels state)
    (hstart : holds start)
    (hstep : ∀ before label after, holds before → step before label after →
      holds after ∧
        (view after = view before ∨ ∃ event, abstractStep (view before) event (view after))) :
    holds state ∧ ∃ events, Run abstractStep (view start) events (view state) := by
  induction run with
  | nil => exact ⟨hstart, [], .nil⟩
  | snoc _ hnext ih =>
      obtain ⟨hbefore, events, habstract⟩ := ih
      have hafter := hstep _ _ _ hbefore hnext
      apply And.intro hafter.1
      cases hafter.2 with
      | inl hsame => exact ⟨events, hsame ▸ habstract⟩
      | inr hmove =>
          obtain ⟨event, hmove⟩ := hmove
          exact ⟨events ++ [event], habstract.snoc hmove⟩

end Nstl.Transition
