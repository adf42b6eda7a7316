import Nstl.Vector.Refinement

/-!
# Appending an element of the vector itself

`push_back` takes its argument by reference and reads it after it has made room.  For
an object elsewhere this makes no difference.  A reference into the vector itself
refers to the old block, and when `realloc` hands out another one there is nothing
left to read.
-/

namespace Nstl.VectorAliasing

open Function
open Nstl.Heaps
open Nstl.Programs
open Nstl.VectorRefinement
open Nstl.Vectors

variable {Element : Type}

/-- What a reference to an element refers to. -/
structure Location where
  block : Option Address
  index : ℕ

section Methods

variable (cellSize : ℕ) (choice : Option Address)

/-- Both overloads of `push_back`, with the reference they are given: a trivially
copyable object is moved by copying it. -/
def pushBackRef (this : ObjectId) (val : Location) : Method Element Unit := do
  let vec ← members this
  let newSize := wrap (vec.size + 1)
  let ptr ← autoCapacity cellSize choice this newSize
  let value ← onHeap (·.readAt val.block val.index)
  onHeap (·.constructAt ptr vec.size value)
  assign this fun vec => { vec with size := newSize }

/-- `operator[]`, which checks nothing. -/
def elementRef (this : ObjectId) (idx : ℕ) : Method Element Location := do
  let vec ← members this
  return ⟨vec.ptr, idx⟩

/-- `v.push_back(v[idx])`. -/
def pushBackElement (this : ObjectId) (idx : ℕ) : Method Element Unit := do
  let val ← elementRef this idx
  pushBackRef cellSize choice this val

end Methods

variable {cellSize : ℕ} {choice : Option Address} {store : Store Element}
  {lists : ListStore Element} {this : ObjectId} {vec : Vec} {items : List Element}

/-- The vector is full, there is memory for a larger block, and the allocator takes it from
another place. -/
def GrowthMoves (cellSize : ℕ) (choice : Option Address) (heap : Heap Element) (vec : Vec) :
    Prop :=
  vec.size = vec.capacity ∧ grownCapacity vec (vec.size + 1) * cellSize ≤ ptrdiffMax ∧
    ∃ address, choice = some address ∧ vec.ptr ≠ some address ∧ heap.blocks address = none

/-! ## Where the block goes -/

theorem members_bind {Result : Type} (hthis : store.objects this = some vec)
    (next : Vec → Method Element Result) : (members this >>= next) store = next vec store :=
  bind_update_eq (by rw [hthis, Option.map_some]) next

/-- A pointer that `_mem_reserve` returns comes from `realloc`. -/
theorem memReserve_value {newCapacity : ℕ} {ptr : Option Address} {after : Store Element}
    (hthis : store.objects this = some vec)
    (hvalue : memReserve cellSize choice this newCapacity store = .value ptr after) :
    ptr ≠ none ∧ store.heap.realloc vec.ptr (wrap (newCapacity * cellSize)) cellSize choice =
      some (ptr, after.heap) := by
  rw [memReserve] at hvalue
  split at hvalue
  next => cases hvalue
  next =>
    rw [members_bind hthis] at hvalue
    cases hrealloc : store.heap.realloc vec.ptr (wrap (newCapacity * cellSize)) cellSize
        choice with
    | none =>
        rw [onHeap, bind_update_undefined (by rw [hrealloc, Option.map_none])] at hvalue
        cases hvalue
    | some moved =>
        obtain ⟨found, heap⟩ := moved
        rw [onHeap, bind_update_eq (by rw [hrealloc, Option.map_some])] at hvalue
        split at hvalue
        next => cases hvalue
        next hfound =>
          rw [assign, bind_update_eq (by rw [hthis, Option.map_some])] at hvalue
          cases hvalue
          exact ⟨hfound, rfl⟩

/-- If making room changes the pointer, the block it pointed to is gone. -/
theorem autoCapacity_moved {needed : ℕ} {ptr : Option Address} {after : Store Element}
    {old : Address} (hthis : store.objects this = some vec) (hptr : vec.ptr = some old)
    (hvalue : autoCapacity cellSize choice this needed store = .value ptr after)
    (hmoved : ptr ≠ vec.ptr) : after.heap.blocks old = none := by
  have hgone : ∀ newCapacity,
      memReserve cellSize choice this newCapacity store = .value ptr after →
        after.heap.blocks old = none := by
    intro newCapacity hreserve
    obtain ⟨hnull, hrealloc⟩ := memReserve_value hthis hreserve
    obtain ⟨address, rfl⟩ := Option.ne_none_iff_exists'.1 hnull
    rw [hptr] at hrealloc hmoved
    exact Heap.realloc_moved hrealloc fun heq => hmoved (congrArg some heq.symm)
  rw [autoCapacity, members_bind hthis] at hvalue
  split at hvalue
  next =>
    cases hvalue
    exact absurd rfl hmoved
  next =>
    split at hvalue
    next => exact hgone _ hvalue
    next => exact hgone _ hvalue

theorem pushBackElement_eq (hthis : store.objects this = some vec) (idx : ℕ) :
    pushBackElement cellSize choice this idx store =
      pushBackRef cellSize choice this ⟨vec.ptr, idx⟩ store := by
  have href : elementRef this idx store = .value ⟨vec.ptr, idx⟩ store := members_bind hthis _
  rw [pushBackElement, bind_value_eq href]

/-- Memory that moves has not run out. -/
theorem GrowthMoves.not_runsOut (hcell : 0 < cellSize)
    (hmoves : GrowthMoves cellSize choice store.heap vec) (error : Throw) :
    ¬RunsOut cellSize choice store.heap vec (vec.size + 1) error := by
  obtain ⟨_, hbytes, address, hchoice, _, hfree⟩ := hmoves
  intro hruns
  cases error with
  | lengthError =>
      have hlimit := hruns.2
      rw [Nat.div_lt_iff_lt_mul hcell] at hlimit
      rw [ptrdiffMax] at hbytes
      rw [sizeMax] at hlimit
      omega
  | badAlloc =>
      rcases hruns.2.2 with hlarge | hused
      · exact absurd hlarge (Nat.not_lt.2 hbytes)
      · exact (hused address hchoice).2 hfree
  | runtimeError | invalidArgument | outOfRange => exact hruns

/-- A vector that finds room has its block where it was, unless the growth moves it. -/
theorem ptr_of_not_growthMoves {ptr : Option Address} (hsize : vec.size ≤ vec.capacity)
    (hstays : ¬GrowthMoves cellSize choice store.heap vec)
    (hroom : ∀ error, ¬RunsOut cellSize choice store.heap vec (vec.size + 1) error)
    (hptr : ptr = if vec.size + 1 ≤ vec.capacity then vec.ptr else choice) :
    ptr = vec.ptr := by
  by_cases hfull : vec.size + 1 ≤ vec.capacity
  · rwa [if_pos hfull] at hptr
  rw [if_neg hfull] at hptr
  have hlt := Nat.lt_of_not_le hfull
  have hlimit : grownCapacity vec (vec.size + 1) ≤ sizeMax / cellSize :=
    Nat.le_of_not_lt fun hlimit => hroom .lengthError ⟨hlt, hlimit⟩
  have hgives : ¬store.heap.Refuses vec.ptr (grownCapacity vec (vec.size + 1) * cellSize)
      choice := fun hrefuses => hroom .badAlloc ⟨hlt, hlimit, hrefuses⟩
  obtain ⟨hbytes, hblock⟩ := not_or.1 hgives
  -- the allocator has chosen the own block, or one that is not in use
  cases choice with
  | none => exact absurd (fun address hchoice => absurd hchoice (by simp)) hblock
  | some address =>
      rw [hptr]
      by_contra hmoved
      refine hstays ⟨by omega, Nat.le_of_not_lt hbytes, address, rfl, Ne.symm hmoved, ?_⟩
      by_contra hused
      refine hblock fun found hfound => ?_
      obtain rfl := Option.some.inj hfound
      exact ⟨Ne.symm hmoved, hused⟩

/-- When the block has moved, the reference has nothing to refer to. -/
theorem pushBackElement_undefined (hrep : Represents cellSize store lists)
    (hcell : 0 < cellSize) {idx : ℕ} {old : Address} (hthis : store.objects this = some vec)
    (hitems : lists this = some items) (hptr : vec.ptr = some old)
    (hmoves : GrowthMoves cellSize choice store.heap vec) :
    pushBackElement cellSize choice this idx store = .undefined := by
  have hneeded : wrap (vec.size + 1) = vec.size + 1 := by
    rw [wrap_succ_size hrep hcell hthis hitems, (hrep.owns_of hthis hitems).size_eq]
  have hgrow := autoCapacity_meets hrep choice hcell (vec.size + 1) hthis
  rw [Meets] at hgrow
  rw [pushBackElement_eq hthis, pushBackRef, members_bind hthis, hneeded]
  cases houtcome : autoCapacity cellSize choice this (vec.size + 1) store with
  | value ptr after =>
      rw [houtcome] at hgrow
      obtain ⟨-, -, grown, -, -, -, -, hmoved⟩ := hgrow
      obtain ⟨hfull, -, address, hchoice, hother, -⟩ := hmoves
      rw [if_neg (by omega), hchoice] at hmoved
      have hgone := autoCapacity_moved hthis hptr houtcome
        (by rw [hmoved]; exact Ne.symm hother)
      rw [bind_value_eq houtcome]
      apply bind_update_undefined
      simp [Heap.readAt, hptr, hgone]
  | thrown error after =>
      rw [houtcome] at hgrow
      exact absurd hgrow.1 (hmoves.not_runsOut hcell error)
  | undefined =>
      rw [houtcome] at hgrow
      exact hgrow.elim

/-- As long as the block stays where it is, the element is appended. -/
theorem pushBackElement_meets (hrep : Represents cellSize store lists) (hcell : 0 < cellSize)
    (hthis : store.objects this = some vec) (hitems : lists this = some items) {idx : ℕ}
    {value : Element} (hvalue : items[idx]? = some value)
    (hstays : ¬GrowthMoves cellSize choice store.heap vec) :
    Meets (pushBackElement cellSize choice this idx) store
      (fun _ after =>
        (∀ error, ¬RunsOut cellSize choice store.heap vec (vec.size + 1) error) ∧
        Represents cellSize after (update lists this (some (items ++ [value]))))
      (fun error after => RunsOut cellSize choice store.heap vec (vec.size + 1) error ∧
        after = store) := by
  have howns := hrep.owns_of hthis hitems
  have hneeded : wrap (vec.size + 1) = vec.size + 1 := by
    rw [wrap_succ_size hrep hcell hthis hitems, howns.size_eq]
  rw [Meets, pushBackElement_eq hthis, ← Meets]
  refine meets_members hthis ?_
  rw [hneeded]
  apply (autoCapacity_meets hrep choice hcell (vec.size + 1) hthis).bind
  rintro ptr after ⟨hmemory, hafter, grown, hobjects, rfl, -, hroom, hplace⟩
  have hgrown : after.objects this = some grown := by
    rw [hobjects, update_self]
  -- The reference still points into the vector's own block.
  have hptr : grown.ptr = vec.ptr :=
    ptr_of_not_growthMoves howns.size_le hstays hmemory hplace
  have hread : after.heap.readAt vec.ptr idx = some (value, after.heap) := by
    have hidx := (List.getElem?_eq_some_iff.1 hvalue).1
    obtain ⟨address, haddress⟩ := (hafter.owns_of hgrown hitems).exists_ptr (by omega)
    obtain ⟨junk, hblock, -⟩ := (hafter.owns_of hgrown hitems).block address haddress
    rw [← hptr, haddress]
    apply Heap.readAt_eq hblock
    rw [List.getElem?_append_left (by simpa using hidx), List.getElem?_map, hvalue,
      Option.map_some]
  refine meets_onHeap hread ?_
  rw [howns.size_eq] at hroom ⊢
  apply (constructLast_meets hafter value hgrown hitems hroom).mono
  · exact fun _ _ hdone => ⟨by rwa [howns.size_eq] at hmemory, hdone⟩
  · exact fun _ _ hthrown => hthrown

/-- `v.push_back(v[idx])` appends the element, or throws and leaves everything as it is
exactly where memory runs out, if and only if the vector has room or does not grow into
another block. -/
theorem pushBackElement_appends_iff (hrep : Represents cellSize store lists)
    (hcell : 0 < cellSize) (hthis : store.objects this = some vec)
    (hitems : lists this = some items) {idx : ℕ} {value : Element}
    (hvalue : items[idx]? = some value) :
    Meets (pushBackElement cellSize choice this idx) store
        (fun _ after =>
          (∀ error, ¬RunsOut cellSize choice store.heap vec (vec.size + 1) error) ∧
          Represents cellSize after (update lists this (some (items ++ [value]))))
        (fun error after => RunsOut cellSize choice store.heap vec (vec.size + 1) error ∧
          after = store) ↔
      ¬GrowthMoves cellSize choice store.heap vec := by
  have howns := hrep.owns_of hthis hitems
  have hidx := (List.getElem?_eq_some_iff.1 hvalue).1
  have hsize := howns.size_eq
  have hle := howns.size_le
  obtain ⟨old, hptr⟩ := howns.exists_ptr (by omega)
  refine ⟨fun hmeets hmoves => ?_, pushBackElement_meets hrep hcell hthis hitems hvalue⟩
  rw [Meets, pushBackElement_undefined hrep hcell hthis hitems hptr hmoves] at hmeets
  exact hmeets

/-- A vector of sixteen elements in a block that has room for no more. -/
def fullStore : Store ℕ where
  heap := ⟨fun address => if address = 64 then some (List.replicate 16 (some 7)) else none⟩
  objects id := if id = .named 0 then some ⟨some 64, 16, 16⟩ else none

theorem fullStore_represents :
    Represents 4 fullStore
      (fun id => if id = .named 0 then some (List.replicate 16 7) else none) where
  dead id hid := by
    by_cases heq : id = .named 0
    · simp [fullStore, heq] at hid
    · simp [heq]
  owns id vec hid := by
    by_cases heq : id = .named 0
    · obtain rfl : (⟨some 64, 16, 16⟩ : Vec) = vec := by simpa [fullStore, heq] using hid
      refine ⟨List.replicate 16 7, by simp [heq], rfl, by decide, by decide, by decide, ?_⟩
      rintro address ⟨⟩
      exact ⟨[], by simp [fullStore], rfl⟩
    · simp [fullStore, heq] at hid
  disjoint id id' vec vec' address hid hid' hptr hptr' := by
    have howner : ∀ id vec, fullStore.objects id = some vec → id = .named 0 := by
      intro id vec hid
      by_contra hne
      simp [fullStore, hne] at hid
    rw [howner id vec hid, howner id' vec' hid']

/-- The block can be enlarged where it is. -/
theorem pushBackElement_appends_in_place :
    Meets (pushBackElement 4 (some 64) (.named 0) 3) fullStore
      (fun _ after => ∃ lists, Represents 4 after lists ∧
        lists (.named 0) = some (List.replicate 16 7 ++ [7]))
      (fun error after =>
        RunsOut 4 (some 64) fullStore.heap ⟨some 64, 16, 16⟩ 17 error ∧ after = fullStore) := by
  have hthis : fullStore.objects (.named 0) = some ⟨some 64, 16, 16⟩ := rfl
  have hstays : ¬GrowthMoves 4 (some 64) fullStore.heap ⟨some 64, 16, 16⟩ := by
    rintro ⟨_, _, address, hchoice, hother, _⟩
    exact hother hchoice
  have hvalue : (List.replicate 16 7)[3]? = some 7 := rfl
  have happends :=
    (pushBackElement_appends_iff fullStore_represents (by decide) hthis rfl hvalue).2 hstays
  exact happends.mono (fun _ after hafter => ⟨_, hafter.2, by simp⟩) fun _ _ hthrown => hthrown

/-- The block is replaced: the element that is to be appended is gone. -/
theorem pushBackElement_reads_freed_block :
    (∃ lists, Represents 4 fullStore lists ∧
      lists (.named 0) = some (List.replicate 16 7)) ∧
    pushBackElement 4 (some 128) (.named 0) 3 fullStore = .undefined :=
  ⟨⟨_, fullStore_represents, rfl⟩, rfl⟩

end Nstl.VectorAliasing
