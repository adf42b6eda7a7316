import Mathlib.Data.Fintype.Card
import Nstl.Core.Transition

/-!
# Check, then act

Threads look at how many are waiting, and enter when there are not too many.  As
looking and entering are two steps, every thread that has looked may still enter,
so the limit is exceeded by at most the number of the threads.
-/

namespace Nstl.Admission

open Function
open Nstl.Transition

/-! ## Threads in a stage -/

section Count

variable {Thread Stage : Type*} [Fintype Thread] [DecidableEq Thread]
  (holds : Stage → Bool) (stage : Thread → Stage) (thread : Thread) {value : Stage}

/-- The number of threads whose stage has a property. -/
def count (stage : Thread → Stage) : ℕ :=
  (Finset.univ.filter fun thread => holds (stage thread) = true).card

omit [DecidableEq Thread] in
theorem count_le_card : count holds stage ≤ Fintype.card Thread :=
  Finset.card_le_univ _

/-- The threads that have the property after one of them goes on. -/
theorem filter_update (hvalue : holds value = true) :
    (Finset.univ.filter fun other => holds (update stage thread value other) = true) =
      insert thread (Finset.univ.filter fun other => holds (stage other) = true) := by
  ext other
  by_cases heq : other = thread
  · simp [heq, hvalue]
  · simp [heq]

theorem filter_update_of_not (hvalue : holds value = false) :
    (Finset.univ.filter fun other => holds (update stage thread value other) = true) =
      (Finset.univ.filter fun other => holds (stage other) = true).erase thread := by
  ext other
  by_cases heq : other = thread
  · simp [heq, hvalue]
  · simp [heq]

theorem count_enter (hvalue : holds value = true) (hbefore : holds (stage thread) = false) :
    count holds (update stage thread value) = count holds stage + 1 := by
  rw [count, filter_update holds stage thread hvalue, Finset.card_insert_of_notMem, count]
  simp [hbefore]

theorem count_leave (hvalue : holds value = false) (hbefore : holds (stage thread) = true) :
    count holds (update stage thread value) + 1 = count holds stage := by
  rw [count, filter_update_of_not holds stage thread hvalue, count]
  apply Finset.card_erase_add_one
  simp [hbefore]

theorem count_update_of_not (hvalue : holds value = false)
    (hbefore : holds (stage thread) = false) :
    count holds (update stage thread value) = count holds stage := by
  rw [count, filter_update_of_not holds stage thread hvalue, Finset.erase_eq_of_notMem, count]
  simp [hbefore]

end Count

/-! ## The gate -/

structure Gate where
  waiting : ℕ
  /-- The threads that have looked and not yet entered. -/
  admitted : ℕ

inductive Event where
  | look
  | enter
  | serve

/-- A thread that enters may be served at once. -/
inductive Step (limit threads : ℕ) : Gate → Event → Gate → Prop
  | look {gate} (hroom : gate.waiting ≤ limit) (hthread : gate.admitted < threads) :
      Step limit threads gate .look { gate with admitted := gate.admitted + 1 }
  | enter {gate admitted waiting} (hadmitted : gate.admitted = admitted + 1)
      (hwaiting : waiting ≤ gate.waiting + 1) :
      Step limit threads gate .enter ⟨waiting, admitted⟩
  | serve {gate waiting} (hwaiting : waiting ≤ gate.waiting) :
      Step limit threads gate .serve { gate with waiting := waiting }

variable {limit threads : ℕ} {gate next : Gate} {event : Event} {events : List Event}

theorem Step.bounded (hstep : Step limit threads gate event next)
    (hbound : gate.waiting + gate.admitted ≤ limit + threads) :
    next.waiting + next.admitted ≤ limit + threads := by
  cases hstep with
  | look hroom hthread => exact Nat.add_le_add hroom hthread
  | enter hadmitted hwaiting =>
      simp only
      omega
  | serve hwaiting => exact Nat.le_trans (Nat.add_le_add_right hwaiting _) hbound

/-- The limit is exceeded by at most one for each thread. -/
theorem waiting_le (run : Run (Step limit threads) ⟨0, 0⟩ events gate) :
    gate.waiting + gate.admitted ≤ limit + threads :=
  run.invariant (fun gate => gate.waiting + gate.admitted ≤ limit + threads)
    (Nat.zero_le _) fun _ _ _ hbound hstep => hstep.bounded hbound

end Nstl.Admission
