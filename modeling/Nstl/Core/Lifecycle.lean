import Mathlib.Data.List.Nodup
import Mathlib.Logic.Function.Basic
import Nstl.Core.Transition

/-!
# Things that start, end and are collected

Every thing starts at most once, ends with a value, and is collected with that value.
What has happened to it can be read off its present stage, and the other way around.
-/

namespace Nstl.Lifecycle

open Function
open Nstl.Transition

variable {Key Value : Type*}

inductive Life (Value : Type*) where
  | unborn
  | running
  | ended (value : Value)
  | collected (value : Value)

/-- It has started and was not collected. -/
def Life.active : Life Value → Bool
  | .running | .ended _ => true
  | .unborn | .collected _ => false

inductive Event (Key Value : Type*) where
  | start (key : Key)
  | finish (key : Key) (value : Value)
  | collect (key : Key) (value : Value)

/-- The thing that an event collects. -/
def Event.collected : Event Key Value → Option Key
  | .collect key _ => some key
  | .start _ | .finish .. => none

section Step

variable [DecidableEq Key]

inductive Step : (Key → Life Value) → Event Key Value → (Key → Life Value) → Prop
  | start {lives : Key → Life Value} {key : Key} (hlife : lives key = .unborn) :
      Step lives (.start key) (update lives key .running)
  | finish {lives : Key → Life Value} {key : Key} (value : Value)
      (hlife : lives key = .running) :
      Step lives (.finish key value) (update lives key (.ended value))
  | collect {lives : Key → Life Value} {key : Key} {value : Value}
      (hlife : lives key = .ended value) :
      Step lives (.collect key value) (update lives key (.collected value))

variable {events : List (Event Key Value)} {lives : Key → Life Value}
  (run : Run Step (fun _ => .unborn) events lives)

include run

theorem start_mem_iff (key : Key) : .start key ∈ events ↔ lives key ≠ .unborn := by
  refine run.mem_labels_iff (fun lives => lives key ≠ .unborn) _ (fun hne => hne rfl) ?_
  intro before event after hstep
  cases hstep <;> grind [update_apply]

theorem finish_mem_iff (key : Key) (value : Value) :
    .finish key value ∈ events ↔ lives key = .ended value ∨ lives key = .collected value := by
  refine run.mem_labels_iff (fun lives => lives key = .ended value ∨ lives key = .collected value)
    _ (by simp) ?_
  intro before event after hstep
  cases hstep <;> grind [update_apply]

theorem collect_mem_iff (key : Key) (value : Value) :
    .collect key value ∈ events ↔ lives key = .collected value := by
  refine run.mem_labels_iff (fun lives => lives key = .collected value) _ nofun ?_
  intro before event after hstep
  cases hstep <;> grind [update_apply]

/-- Nothing is collected twice. -/
theorem nodup_collected : (events.filterMap Event.collected).Nodup := by
  induction run with
  | nil => exact List.nodup_nil
  | @snoc events before after event hrun hstep ih =>
      rw [List.filterMap_append]
      cases hstep with
      | start => rwa [List.filterMap_cons_none rfl, List.filterMap_nil, List.append_nil]
      | finish => rwa [List.filterMap_cons_none rfl, List.filterMap_nil, List.append_nil]
      | @collect other ended hlife =>
          have hfresh : other ∉ events.filterMap Event.collected := by
            intro hmem
            obtain ⟨event, hevent, hcollected⟩ := List.mem_filterMap.1 hmem
            cases event with
            | start | finish => exact absurd hcollected nofun
            | collect key value =>
                obtain rfl : key = other := Option.some.inj hcollected
                have hlate := (collect_mem_iff hrun key value).1 hevent
                exact absurd (hlife.symm.trans hlate) nofun
          exact List.nodup_append_comm.1 (List.nodup_cons.2 ⟨hfresh, ih⟩)

end Step

end Nstl.Lifecycle
