import Mathlib.Data.List.Nodup
import Nstl.Core.ByteString

/-!
# Maps keyed by byte strings

An association list whose keys are pairwise distinct.  Distinctness is a field
of the structure, so an operation cannot produce a map with a repeated key.
-/

namespace Nstl.Container

open Nstl.ByteString

structure FlatMap (Value : Type*) where
  entries : List (Bytes × Value)
  nodup_keys : (entries.map Prod.fst).Nodup

namespace FlatMap

variable {Value : Type*}

def empty : FlatMap Value := ⟨[], List.nodup_nil⟩

def size (map : FlatMap Value) : ℕ := map.entries.length

def find (map : FlatMap Value) (key : Bytes) : Option Value :=
  map.entries.lookup key

theorem find_eq_none_iff (map : FlatMap Value) (key : Bytes) :
    map.find key = none ↔ key ∉ map.entries.map Prod.fst := by
  rw [find, List.lookup_eq_none_iff]
  constructor
  · rintro hnone hmem
    obtain ⟨entry, hentry, rfl⟩ := List.mem_map.1 hmem
    simpa using hnone entry hentry
  · intro hnot entry hentry
    have hne : key ≠ entry.1 := by
      rintro rfl
      exact hnot (List.mem_map_of_mem hentry)
    simpa using hne

/-- Store a value under a key that has none yet. -/
def insertNew (map : FlatMap Value) (key : Bytes) (value : Value)
    (hnew : map.find key = none) : FlatMap Value where
  entries := map.entries ++ [(key, value)]
  nodup_keys := by
    have hkey := (map.find_eq_none_iff key).1 hnew
    rw [List.map_append, List.nodup_append]
    refine ⟨map.nodup_keys, List.nodup_singleton _, ?_⟩
    intro left hleft right hright heq
    rw [List.map_singleton, List.mem_singleton] at hright
    rw [heq, hright] at hleft
    exact hkey hleft

@[simp]
theorem size_insertNew (map : FlatMap Value) (key : Bytes) (value : Value)
    (hnew : map.find key = none) :
    (map.insertNew key value hnew).size = map.size + 1 := by
  simp [size, insertNew]

@[simp]
theorem keys_insertNew (map : FlatMap Value) (key : Bytes) (value : Value)
    (hnew : map.find key = none) :
    (map.insertNew key value hnew).entries.map Prod.fst =
      map.entries.map Prod.fst ++ [key] := by
  simp [insertNew]

theorem mem_entries_of_find {map : FlatMap Value} {key : Bytes} {value : Value}
    (hfind : map.find key = some value) : (key, value) ∈ map.entries := by
  obtain ⟨before, after, hentries, _⟩ := List.lookup_eq_some_iff.1 hfind
  rw [hentries]
  exact List.mem_append_right _ List.mem_cons_self

theorem find_eq_some_iff {map : FlatMap Value} {key : Bytes} {value : Value} :
    map.find key = some value ↔ (key, value) ∈ map.entries := by
  constructor
  · exact mem_entries_of_find
  · intro hmem
    obtain ⟨before, after, hentries⟩ := List.append_of_mem hmem
    have hkeys := map.nodup_keys
    rw [hentries, List.map_append, List.map_cons, List.nodup_middle, List.nodup_cons] at hkeys
    rw [find, hentries]
    apply List.lookup_eq_some_iff.2
    refine ⟨before, after, rfl, ?_⟩
    intro entry hentry
    rw [bne_iff_ne]
    rintro rfl
    exact hkeys.1 (List.mem_append_left _ (List.mem_map.2 ⟨entry, hentry, rfl⟩))

private theorem keys_filterMap_sublist {Result : Type*} (select : Value → Option Result)
    (entries : List (Bytes × Value)) :
    ((entries.filterMap fun entry => (select entry.2).map (entry.1, ·)).map Prod.fst).Sublist
      (entries.map Prod.fst) := by
  induction entries with
  | nil => exact .slnil
  | cons entry rest ih =>
      cases hselect : select entry.2 with
      | none => simpa [hselect] using ih.cons entry.1
      | some value => simpa [hselect] using ih

/-- The values that `select` makes out of those of `map`, under the same keys. -/
def filterMap {Result : Type*} (select : Value → Option Result) (map : FlatMap Value) :
    FlatMap Result where
  entries := map.entries.filterMap fun entry => (select entry.2).map (entry.1, ·)
  nodup_keys := map.nodup_keys.sublist (keys_filterMap_sublist select map.entries)

end FlatMap

end Nstl.Container
