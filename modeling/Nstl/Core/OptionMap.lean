import Mathlib.Data.List.Nodup
import Mathlib.Logic.Function.Basic

/-!
# Options that are set one at a time

A store keeps at most one value for each option, and every option has its own
type of values.  After a sequence of assignments, an option that was assigned once
has the value it was assigned, whatever the store held before, and an option that
was not assigned has the value of before.
-/

namespace Nstl.OptionMap

variable {Key : Type} {Value : Key → Type} [DecidableEq Key]

/-- At most one value for each option. -/
abbrev Store (Value : Key → Type) : Type := (key : Key) → Option (Value key)

abbrev Setting (Value : Key → Type) : Type := (key : Key) × Value key

/-- The store in which no option is set. -/
def empty : Store Value := fun _ => none

def assign (store : Store Value) (setting : Setting Value) : Store Value :=
  Function.update store setting.1 (some setting.2)

def assignAll (store : Store Value) (settings : List (Setting Value)) : Store Value :=
  settings.foldl assign store

/-- The options that are assigned. -/
def keys (settings : List (Setting Value)) : List Key := settings.map Sigma.fst

variable {store : Store Value} {setting : Setting Value} {settings : List (Setting Value)}
  {key : Key}

@[simp]
theorem assignAll_nil : assignAll store [] = store := rfl

@[simp]
theorem assignAll_cons :
    assignAll store (setting :: settings) = assignAll (assign store setting) settings := rfl

theorem assign_self : assign store setting setting.1 = some setting.2 :=
  Function.update_self ..

theorem assign_of_ne (hne : key ≠ setting.1) : assign store setting key = store key :=
  Function.update_of_ne hne ..

theorem assignAll_of_notMem (hkey : key ∉ keys settings) :
    assignAll store settings key = store key := by
  induction settings generalizing store with
  | nil => rfl
  | cons setting rest ih =>
      have hhere : key ≠ setting.1 := fun heq => hkey (heq ▸ List.mem_cons_self ..)
      have hrest : key ∉ keys rest := fun hmem => hkey (List.mem_cons_of_mem _ hmem)
      rw [assignAll_cons, ih hrest, assign_of_ne hhere]

/-- The store before plays no role for an option that is assigned. -/
theorem assignAll_of_mem {value : Value key} (hnodup : (keys settings).Nodup)
    (hsetting : ⟨key, value⟩ ∈ settings) : assignAll store settings key = some value := by
  induction settings generalizing store with
  | nil => exact absurd hsetting List.not_mem_nil
  | cons first rest ih =>
      obtain ⟨hfirst, hrest⟩ := List.nodup_cons.1 hnodup
      rw [assignAll_cons]
      rcases List.mem_cons.1 hsetting with rfl | hlater
      · rw [assignAll_of_notMem hfirst]
        exact assign_self
      · exact ih hrest hlater

end Nstl.OptionMap
