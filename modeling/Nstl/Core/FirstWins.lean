import Mathlib.Logic.Basic

/-!
# The first event wins

Some events carry a value, others interrupt.  The first event of either kind decides: a
value decides for itself, an interruption for a value that is fixed beforehand.
-/

namespace Nstl.FirstWins

variable {Event Value : Type*} (interrupts : Event → Bool) (value : Event → Option Value)
  (fixed : Value)

/-- What one event decides. -/
def decides (event : Event) : Option Value :=
  if interrupts event then some fixed else value event

def verdict (events : List Event) : Option Value :=
  events.findSome? (decides interrupts value fixed)

/-- An interruption comes before the first value. -/
def InterruptsFirst (events : List Event) : Prop :=
  ∃ before event after, events = before ++ event :: after ∧ interrupts event = true ∧
    before.findSome? value = none

theorem verdict_append (events : List Event) (event : Event) :
    verdict interrupts value fixed (events ++ [event]) =
      (verdict interrupts value fixed events).or (decides interrupts value fixed event) := by
  rw [verdict, List.findSome?_append, List.findSome?_singleton]
  rfl

variable {interrupts value fixed} {event : Event} {events : List Event}

theorem interruptsFirst_cons_iff (hinterrupts : interrupts event = false)
    (hvalue : value event = none) :
    InterruptsFirst interrupts value (event :: events) ↔
      InterruptsFirst interrupts value events := by
  constructor
  · rintro ⟨before, found, after, hevents, hfound, hbefore⟩
    cases before with
    | nil =>
        obtain ⟨rfl, _⟩ := List.cons.inj hevents
        exact absurd (hfound.symm.trans hinterrupts) nofun
    | cons first before =>
        obtain ⟨rfl, hrest⟩ := List.cons.inj hevents
        rw [List.findSome?_cons, hvalue] at hbefore
        exact ⟨before, found, after, hrest, hfound, hbefore⟩
  · rintro ⟨before, found, after, hevents, hfound, hbefore⟩
    refine ⟨event :: before, found, after, by rw [hevents]; rfl, hfound, ?_⟩
    rw [List.findSome?_cons, hvalue]
    exact hbefore

theorem not_interruptsFirst_cons {found : Value} (hinterrupts : interrupts event = false)
    (hvalue : value event = some found) : ¬InterruptsFirst interrupts value (event :: events) := by
  rintro ⟨before, other, after, hevents, hother, hbefore⟩
  cases before with
  | nil =>
      obtain ⟨rfl, _⟩ := List.cons.inj hevents
      exact absurd (hother.symm.trans hinterrupts) nofun
  | cons first before =>
      obtain ⟨rfl, _⟩ := List.cons.inj hevents
      rw [List.findSome?_cons, hvalue] at hbefore
      exact absurd hbefore nofun

variable (interrupts value fixed) in
/-- The verdict is the first value, unless an interruption comes before it. -/
theorem verdict_eq (events : List Event) :
    (InterruptsFirst interrupts value events →
      verdict interrupts value fixed events = some fixed) ∧
    (¬InterruptsFirst interrupts value events →
      verdict interrupts value fixed events = events.findSome? value) := by
  induction events with
  | nil =>
      refine ⟨?_, fun _ => rfl⟩
      rintro ⟨before, event, after, hevents, _⟩
      exact absurd hevents.symm (List.append_ne_nil_of_right_ne_nil before nofun)
  | cons event events ih =>
      rw [verdict, List.findSome?_cons, List.findSome?_cons, decides]
      cases hinterrupts : interrupts event with
      | true =>
          refine ⟨fun _ => rfl, fun hnot => absurd ?_ hnot⟩
          exact ⟨[], event, events, rfl, hinterrupts, rfl⟩
      | false =>
          cases hvalue : value event with
          | some found =>
              exact ⟨fun hfirst => absurd hfirst (not_interruptsFirst_cons hinterrupts hvalue),
                fun _ => rfl⟩
          | none =>
              rw [interruptsFirst_cons_iff hinterrupts hvalue]
              exact ih

end Nstl.FirstWins
