import Mathlib.Logic.Equiv.Basic
import Nstl.Vector.Methods

/-!
# Vectors as lists

The abstract state gives every live object a list.  `Represents` relates it to
the heap and the members: it holds the invariant of the class, and that no block
belongs to two vectors.  Each method has one specification: it carries the
relation to the list it should leave behind, or throws and changes nothing.  A
method that needs room throws exactly where `RunsOut` says so.
-/

namespace Nstl.VectorRefinement

open Function
open Nstl.Heaps
open Nstl.Programs
open Nstl.Vectors

variable {Element : Type}

/-- The abstract state. -/
abbrev ListStore (Element : Type) := ObjectId → Option (List Element)

/-- A vector holds the elements of a list. -/
structure Owns (cellSize : ℕ) (heap : Heap Element) (vec : Vec) (items : List Element) :
    Prop where
  size_eq : vec.size = items.length
  size_le : vec.size ≤ vec.capacity
  null_iff : vec.ptr = none ↔ vec.capacity = 0
  bytes_le : vec.capacity * cellSize ≤ ptrdiffMax
  block : ∀ address, vec.ptr = some address →
    ∃ junk, heap.blocks address = some (items.map some ++ junk) ∧
      items.length + junk.length = vec.capacity

structure Represents (cellSize : ℕ) (store : Store Element) (lists : ListStore Element) :
    Prop where
  dead : ∀ id, store.objects id = none → lists id = none
  owns : ∀ id vec, store.objects id = some vec →
    ∃ items, lists id = some items ∧ Owns cellSize store.heap vec items
  disjoint : ∀ id id' vec vec' address, store.objects id = some vec →
    store.objects id' = some vec' → vec.ptr = some address → vec'.ptr = some address →
      id = id'

/-- Some other object owns the block at an address. -/
def OwnedElsewhere (store : Store Element) (this : ObjectId) (address : Address) : Prop :=
  ∃ other vec, other ≠ this ∧ store.objects other = some vec ∧ vec.ptr = some address

variable {cellSize : ℕ} {store : Store Element} {lists : ListStore Element}
  {this other : ObjectId} {vec : Vec} {items : List Element}

theorem owns_initial (heap : Heap Element) : Owns cellSize heap Vec.initial [] where
  size_eq := rfl
  size_le := Nat.le_refl 0
  null_iff := ⟨fun _ => rfl, fun _ => rfl⟩
  bytes_le := by simp [Vec.initial]
  block address hptr := by simp [Vec.initial] at hptr

theorem Owns.congr_heap {heap heap' : Heap Element} (howns : Owns cellSize heap vec items)
    (hheap : ∀ address, vec.ptr = some address →
      heap'.blocks address = heap.blocks address) :
    Owns cellSize heap' vec items where
  size_eq := howns.size_eq
  size_le := howns.size_le
  null_iff := howns.null_iff
  bytes_le := howns.bytes_le
  block address hptr := by
    rw [hheap address hptr]
    exact howns.block address hptr

/-- A vector with elements has a block. -/
theorem Owns.exists_ptr {heap : Heap Element} (howns : Owns cellSize heap vec items)
    (hcapacity : vec.capacity ≠ 0) : ∃ address, vec.ptr = some address :=
  Option.ne_none_iff_exists'.1 fun hnull => hcapacity (howns.null_iff.1 hnull)

namespace Represents

variable (hrep : Represents cellSize store lists)

include hrep

theorem owns_of {vec : Vec} (hthis : store.objects this = some vec)
    (hitems : lists this = some items) : Owns cellSize store.heap vec items := by
  obtain ⟨found, hfound, howns⟩ := hrep.owns this vec hthis
  rw [hitems] at hfound
  rwa [Option.some.inj hfound]

theorem exists_members (hitems : lists this = some items) :
    ∃ vec, store.objects this = some vec ∧ Owns cellSize store.heap vec items := by
  cases hthis : store.objects this with
  | none =>
      rw [hrep.dead this hthis] at hitems
      exact absurd hitems (by simp)
  | some vec => exact ⟨vec, rfl, hrep.owns_of hthis hitems⟩

theorem not_ownedElsewhere_of_owner {address : Address}
    (hthis : store.objects this = some vec) (hptr : vec.ptr = some address) :
    ¬OwnedElsewhere store this address := by
  rintro ⟨other, vec', hne, hother, hptr'⟩
  exact hne (hrep.disjoint other this vec' vec address hother hthis hptr' hptr)

theorem not_ownedElsewhere_of_free {address : Address}
    (hfree : store.heap.blocks address = none) : ¬OwnedElsewhere store this address := by
  rintro ⟨other, vec', _, hother, hptr⟩
  obtain ⟨_, _, howns⟩ := hrep.owns other vec' hother
  obtain ⟨_, hblock, _⟩ := howns.block address hptr
  rw [hfree] at hblock
  exact absurd hblock (by simp)

/-- The frame rule: one object gets new members, and the heap changes outside the
blocks of the others. -/
theorem replace {heap : Heap Element}
    (hheap : ∀ address, OwnedElsewhere store this address →
      heap.blocks address = store.heap.blocks address)
    (hptr : ∀ address, vec.ptr = some address → ¬OwnedElsewhere store this address)
    (howns : Owns cellSize heap vec items) :
    Represents cellSize ⟨heap, update store.objects this (some vec)⟩
      (update lists this (some items)) where
  dead id hid := by
    by_cases heq : id = this
    · subst heq
      simp at hid
    · simp only [update_of_ne heq] at hid ⊢
      exact hrep.dead id hid
  owns id found hfound := by
    by_cases heq : id = this
    · subst heq
      simp only [update_self, Option.some.injEq] at hfound ⊢
      subst hfound
      exact ⟨items, rfl, howns⟩
    · simp only [update_of_ne heq] at hfound ⊢
      obtain ⟨items', hitems', howns'⟩ := hrep.owns id found hfound
      exact ⟨items', hitems', howns'.congr_heap fun address haddress =>
        hheap address ⟨id, found, heq, hfound, haddress⟩⟩
  disjoint id id' found found' address hfound hfound' hptr1 hptr2 := by
    by_cases heq : id = this <;> by_cases heq' : id' = this
    · rw [heq, heq']
    · subst heq
      simp only [update_self, update_of_ne heq', Option.some.injEq] at hfound hfound'
      subst hfound
      exact absurd ⟨id', found', heq', hfound', hptr2⟩ (hptr address hptr1)
    · subst heq'
      simp only [update_self, update_of_ne heq, Option.some.injEq] at hfound hfound'
      subst hfound'
      exact absurd ⟨id, found, heq, hfound, hptr1⟩ (hptr address hptr2)
    · simp only [update_of_ne heq, update_of_ne heq'] at hfound hfound'
      exact hrep.disjoint id id' found found' address hfound hfound' hptr1 hptr2

/-- An object can go away; what it points to is then nobody's. -/
theorem remove (this : ObjectId) :
    Represents cellSize (store.setObject this none) (update lists this none) where
  dead id hid := by
    by_cases heq : id = this
    · rw [heq, update_self]
    · simp only [Store.setObject, update_of_ne heq] at hid ⊢
      exact hrep.dead id hid
  owns id found hfound := by
    by_cases heq : id = this
    · subst heq
      simp [Store.setObject] at hfound
    · simp only [Store.setObject, update_of_ne heq] at hfound ⊢
      exact hrep.owns id found hfound
  disjoint id id' found found' address hfound hfound' hptr hptr' := by
    by_cases heq : id = this
    · subst heq
      simp [Store.setObject] at hfound
    by_cases heq' : id' = this
    · subst heq'
      simp [Store.setObject] at hfound'
    simp only [Store.setObject, update_of_ne heq, update_of_ne heq'] at hfound hfound'
    exact hrep.disjoint id id' found found' address hfound hfound' hptr hptr'

/-- Objects can be renamed. -/
theorem rename {rename : ObjectId → ObjectId} (hinjective : Injective rename) :
    Represents cellSize ⟨store.heap, store.objects ∘ rename⟩ (lists ∘ rename) where
  dead _ hid := hrep.dead _ hid
  owns _ found hfound := hrep.owns _ found hfound
  disjoint _ _ found found' address hfound hfound' hptr hptr' :=
    hinjective (hrep.disjoint _ _ found found' address hfound hfound' hptr hptr')

/-- The block of one object gets new cells. -/
theorem rewrite (items : List Element) (junk : Cells Element) {address : Address}
    (hthis : store.objects this = some vec) (hptr : vec.ptr = some address)
    (hlength : items.length + junk.length = vec.capacity) :
    Represents cellSize
      ⟨store.heap.put address (some (items.map some ++ junk)),
        update store.objects this (some { vec with size := items.length })⟩
      (update lists this (some items)) := by
  have hmine := hrep.not_ownedElsewhere_of_owner hthis hptr
  obtain ⟨_, _, howns⟩ := hrep.owns this vec hthis
  apply hrep.replace
  · intro found hfound
    apply Heap.put_other
    intro heq
    exact hmine (heq ▸ hfound)
  · intro found hfound
    have heq : found = address := Option.some.inj (hfound.symm.trans hptr)
    rwa [heq]
  · refine ⟨rfl, ?_, howns.null_iff, howns.bytes_le, ?_⟩
    · exact Nat.le_of_add_right_le (Nat.le_of_eq hlength)
    · intro found hfound
      have heq : found = address := Option.some.inj (hfound.symm.trans hptr)
      exact ⟨junk, heq ▸ Heap.put_same _ _ _, hlength⟩

end Represents

/-! ## Steps of the methods -/

section Steps

variable {Value Result : Type} {post : Result → Store Element → Prop}
  {exceptional : Throw → Store Element → Prop}

theorem meets_members {next : Vec → Method Element Result}
    (hthis : store.objects this = some vec)
    (hnext : Meets (next vec) store post exceptional) :
    Meets (members this >>= next) store post exceptional := by
  apply (meets_bind_update _).2 hnext
  rw [hthis, Option.map_some]

theorem meets_assign {change : Vec → Vec} {next : Unit → Method Element Result}
    (hthis : store.objects this = some vec)
    (hnext : Meets (next ()) (store.setObject this (some (change vec))) post exceptional) :
    Meets (assign this change >>= next) store post exceptional := by
  apply (meets_bind_update _).2 hnext
  rw [hthis, Option.map_some]

theorem meets_assign_last {change : Vec → Vec} {post : Unit → Store Element → Prop}
    (hthis : store.objects this = some vec)
    (hpost : post () (store.setObject this (some (change vec)))) :
    Meets (assign this change) store post exceptional := by
  apply meets_update _ hpost
  rw [hthis, Option.map_some]

theorem meets_onHeap {call : Heap Element → Option (Value × Heap Element)}
    {next : Value → Method Element Result} {value : Value} {heap : Heap Element}
    (hcall : call store.heap = some (value, heap))
    (hnext : Meets (next value) { store with heap := heap } post exceptional) :
    Meets (onHeap call >>= next) store post exceptional := by
  apply (meets_bind_update _).2 hnext
  rw [hcall, Option.map_some]

theorem meets_onHeap_last {call : Heap Element → Option (Value × Heap Element)}
    {post : Value → Store Element → Prop} {value : Value} {heap : Heap Element}
    (hcall : call store.heap = some (value, heap))
    (hpost : post value { store with heap := heap }) :
    Meets (onHeap call) store post exceptional := by
  apply meets_update _ hpost
  rw [hcall, Option.map_some]

end Steps

/-! ## Capacity -/

/-- The capacity of a vector that has grown to have room for so many elements. -/
def grownCapacity (vec : Vec) (needed : ℕ) : ℕ :=
  if needed < 16 then 16 else max needed (2 * vec.capacity)

/-- A vector cannot have room for so many elements: it has to grow, and the new capacity
is above the limit, or there is no memory for it. -/
def RunsOut (cellSize : ℕ) (choice : Option Address) (heap : Heap Element) (vec : Vec)
    (needed : ℕ) : Throw → Prop
  | .lengthError =>
      vec.capacity < needed ∧ sizeMax / cellSize < grownCapacity vec needed
  | .badAlloc =>
      vec.capacity < needed ∧ grownCapacity vec needed ≤ sizeMax / cellSize ∧
        heap.Refuses vec.ptr (grownCapacity vec needed * cellSize) choice
  | .runtimeError | .invalidArgument | .outOfRange => False

/-- There is room already. -/
theorem not_runsOut_of_le {choice : Option Address} {heap : Heap Element} {needed : ℕ}
    (hroom : needed ≤ vec.capacity) (error : Throw) :
    ¬RunsOut cellSize choice heap vec needed error := by
  intro hruns
  cases error with
  | lengthError | badAlloc => exact absurd hruns.1 (Nat.not_lt.2 hroom)
  | runtimeError | invalidArgument | outOfRange => exact hruns

/-- The new capacity is larger and large enough. -/
theorem lt_grownCapacity {needed : ℕ} (hfull : vec.capacity < needed) :
    vec.capacity < grownCapacity vec needed ∧ needed ≤ grownCapacity vec needed := by
  rw [grownCapacity]
  split <;> omega

section Growth

variable (hrep : Represents cellSize store lists) (choice : Option Address)

include hrep

/-- A vector that grows keeps its elements. -/
theorem memReserve_meets (hcell : 0 < cellSize) {newCapacity : ℕ}
    (hthis : store.objects this = some vec) (hgrows : vec.capacity < newCapacity) :
    Meets (memReserve cellSize choice this newCapacity) store
      (fun ptr after => ptr ≠ none ∧ Represents cellSize after lists ∧
        after.objects = update store.objects this
          (some { vec with ptr := ptr, capacity := newCapacity }) ∧
        ptr = choice ∧ newCapacity ≤ sizeMax / cellSize ∧
        ¬store.heap.Refuses vec.ptr (newCapacity * cellSize) choice)
      (fun error after => after = store ∧
        (error = .lengthError ∧ sizeMax / cellSize < newCapacity ∨
          error = .badAlloc ∧ newCapacity ≤ sizeMax / cellSize ∧
            store.heap.Refuses vec.ptr (newCapacity * cellSize) choice)) := by
  obtain ⟨items, hitems, howns⟩ := hrep.owns this vec hthis
  rw [memReserve]
  by_cases hmax : maxCapacity cellSize < newCapacity
  · rw [if_pos hmax]
    exact ⟨rfl, Or.inl ⟨rfl, hmax⟩⟩
  rw [if_neg hmax]
  refine meets_members hthis ?_
  have hbytes : wrap (newCapacity * cellSize) = newCapacity * cellSize := by
    have hle := Nat.mul_le_of_le_div cellSize newCapacity sizeMax (Nat.le_of_not_lt hmax)
    rw [sizeMax] at hle
    exact Nat.mod_eq_of_lt (by omega)
  -- the cells that the pointer refers to so far
  obtain ⟨junk, hsource, hlength⟩ : ∃ junk,
      store.heap.reallocSource vec.ptr = some (items.map some ++ junk) ∧
        items.length + junk.length = vec.capacity := by
    cases hptr : vec.ptr with
    | none =>
        have hcapacity := howns.null_iff.1 hptr
        have hempty : items = [] := by
          have hsize := howns.size_eq
          have hle := howns.size_le
          exact List.length_eq_zero_iff.1 (by omega)
        exact ⟨[], by simp [Heap.reallocSource, hempty], by simp [hempty, hcapacity]⟩
    | some address => exact howns.block address hptr
  rw [hbytes]
  rcases Heap.realloc_cases hsource (newCapacity * cellSize) cellSize choice with
    ⟨hrefuses, hfails⟩ |
      ⟨address, heap, hchoice, hmoves, hgives, hlimit, hfree, hblock, hothers⟩
  · refine meets_onHeap hfails ?_
    rw [if_pos rfl]
    exact ⟨rfl, Or.inr ⟨rfl, Nat.le_of_not_lt hmax, hrefuses⟩⟩
  refine meets_onHeap hmoves ?_
  rw [if_neg (by simp)]
  refine meets_assign hthis
    ⟨by simp, ?_, rfl, hchoice.symm, Nat.le_of_not_lt hmax, hgives⟩
  rw [← update_eq_self this lists, hitems]
  rw [Nat.mul_div_cancel _ hcell, resized_append (by simp; omega)] at hblock
  apply hrep.replace
  · intro other hother
    apply hothers
    · intro heq
      subst heq
      rcases hfree with hptr | hfree
      · exact hrep.not_ownedElsewhere_of_owner hthis hptr hother
      · exact hrep.not_ownedElsewhere_of_free hfree hother
    · intro hptr
      exact hrep.not_ownedElsewhere_of_owner hthis hptr hother
  · intro found hfound
    obtain rfl := Option.some.inj hfound
    rcases hfree with hptr | hfree
    · exact hrep.not_ownedElsewhere_of_owner hthis hptr
    · exact hrep.not_ownedElsewhere_of_free hfree
  · refine ⟨howns.size_eq, ?_, ?_, hlimit, ?_⟩
    · exact Nat.le_trans howns.size_le (Nat.le_of_lt hgrows)
    · exact ⟨fun hnull => absurd hnull (by simp), fun hzero => absurd hgrows (by
        simp only at hzero
        omega)⟩
    · intro found hfound
      obtain rfl := Option.some.inj hfound
      exact ⟨_, hblock, by simp; omega⟩

/-- A vector that has no room grows to the capacity of `grownCapacity`. -/
theorem grow_meets (hcell : 0 < cellSize) {needed : ℕ} (hthis : store.objects this = some vec)
    (hfull : vec.capacity < needed) :
    Meets (memReserve cellSize choice this (grownCapacity vec needed)) store
      (fun ptr after => (∀ error, ¬RunsOut cellSize choice store.heap vec needed error) ∧
        Represents cellSize after lists ∧
        ∃ grown : Vec, after.objects = update store.objects this (some grown) ∧
          grown.ptr = ptr ∧ grown.size = vec.size ∧ needed ≤ grown.capacity ∧
          ptr = if needed ≤ vec.capacity then vec.ptr else choice)
      (fun error after => RunsOut cellSize choice store.heap vec needed error ∧
        after = store) := by
  have hgrown := lt_grownCapacity hfull
  apply (memReserve_meets hrep choice hcell hthis hgrown.1).mono
  · rintro ptr after ⟨_, hafter, hobjects, hptr, hlimit, hgives⟩
    refine ⟨fun error hruns => ?_, hafter, _, hobjects, rfl, rfl, hgrown.2, ?_⟩
    · cases error with
      | lengthError => exact absurd hruns.2 (Nat.not_lt.2 hlimit)
      | badAlloc => exact hgives hruns.2.2
      | runtimeError | invalidArgument | outOfRange => exact hruns
    · rw [if_neg (Nat.not_le.2 hfull), hptr]
  · rintro error after ⟨rfl, ⟨rfl, hlimit⟩ | ⟨rfl, hlimit, hrefuses⟩⟩
    · exact ⟨⟨hfull, hlimit⟩, rfl⟩
    · exact ⟨⟨hfull, hlimit, hrefuses⟩, rfl⟩

omit choice in
/-- Twice the capacity does not wrap. -/
theorem wrap_twice_capacity (hcell : 0 < cellSize) (hthis : store.objects this = some vec) :
    wrap (vec.capacity * 2) = 2 * vec.capacity := by
  obtain ⟨_, _, howns⟩ := hrep.owns this vec hthis
  have hbytes := Nat.le_trans (Nat.le_mul_of_pos_right _ hcell) howns.bytes_le
  rw [ptrdiffMax] at hbytes
  rw [wrap, Nat.mod_eq_of_lt (by omega), Nat.mul_comm]

theorem autoCapacity_meets (hcell : 0 < cellSize) (needed : ℕ)
    (hthis : store.objects this = some vec) :
    Meets (autoCapacity cellSize choice this needed) store
      (fun ptr after => (∀ error, ¬RunsOut cellSize choice store.heap vec needed error) ∧
        Represents cellSize after lists ∧
        ∃ grown : Vec, after.objects = update store.objects this (some grown) ∧
          grown.ptr = ptr ∧ grown.size = vec.size ∧ needed ≤ grown.capacity ∧
          ptr = if needed ≤ vec.capacity then vec.ptr else choice)
      (fun error after => RunsOut cellSize choice store.heap vec needed error ∧
        after = store) := by
  refine meets_members hthis ?_
  by_cases hroom : needed ≤ vec.capacity
  · rw [if_pos hroom]
    exact ⟨not_runsOut_of_le hroom, hrep, vec, by rw [← hthis, update_eq_self], rfl, rfl, hroom,
      (if_pos hroom).symm⟩
  have hgrow := grow_meets hrep choice hcell hthis (Nat.lt_of_not_le hroom)
  rw [if_neg hroom]
  by_cases hsmall : needed < 16
  · rw [grownCapacity, if_pos hsmall] at hgrow
    rwa [if_pos hsmall]
  · rw [grownCapacity, if_neg hsmall] at hgrow
    rwa [if_neg hsmall, wrap_twice_capacity hrep hcell hthis]

theorem reserve_meets (hcell : 0 < cellSize) (newCapacity : ℕ)
    (hthis : store.objects this = some vec) :
    Meets (reserve cellSize choice this newCapacity) store
      (fun _ after => (∀ error, ¬RunsOut cellSize choice store.heap vec newCapacity error) ∧
        Represents cellSize after lists)
      (fun error after => RunsOut cellSize choice store.heap vec newCapacity error ∧
        after = store) := by
  apply (autoCapacity_meets hrep choice hcell newCapacity hthis).bind
  intro ptr after hafter
  exact ⟨hafter.1, hafter.2.1⟩

omit choice in
/-- Where there is room, an element can be added behind the others. -/
theorem constructLast_meets (value : Element) (hthis : store.objects this = some vec)
    (hitems : lists this = some items) (hroom : items.length + 1 ≤ vec.capacity)
    {exceptional : Throw → Store Element → Prop} :
    Meets
      (do
        onHeap (·.constructAt vec.ptr items.length value)
        assign this fun vec => { vec with size := items.length + 1 })
      store
      (fun _ after => Represents cellSize after (update lists this (some (items ++ [value]))))
      exceptional := by
  have howns := hrep.owns_of hthis hitems
  obtain ⟨address, hptr⟩ := howns.exists_ptr (by omega)
  obtain ⟨junk, hblock, hlength⟩ := howns.block address hptr
  -- there is a cell behind the elements
  obtain ⟨free, junk, rfl⟩ : ∃ free rest, junk = free :: rest :=
    List.exists_cons_of_length_pos (by omega)
  have hconstruct := Heap.constructAt_eq value hblock
  rw [List.length_map, ← hptr] at hconstruct
  refine meets_onHeap hconstruct ?_
  refine meets_assign_last hthis ?_
  have hrewrite := hrep.rewrite (items ++ [value]) junk hthis hptr
    (by simp only [List.length_append, List.length_cons, List.length_nil] at hlength ⊢; omega)
  simpa [Store.setObject] using hrewrite

omit choice in
/-- The size that `push_back` computes does not wrap. -/
theorem wrap_succ_size (hcell : 0 < cellSize) (hthis : store.objects this = some vec)
    (hitems : lists this = some items) : wrap (vec.size + 1) = items.length + 1 := by
  have howns := hrep.owns_of hthis hitems
  have hsize := howns.size_eq
  have hle := howns.size_le
  have hbytes := Nat.le_trans (Nat.le_mul_of_pos_right _ hcell) howns.bytes_le
  rw [ptrdiffMax] at hbytes
  rw [wrap, Nat.mod_eq_of_lt (by omega), hsize]

theorem pushBack_meets (hcell : 0 < cellSize) (value : Element)
    (hthis : store.objects this = some vec) (hitems : lists this = some items) :
    Meets (pushBack cellSize choice this value) store
      (fun _ after =>
        (∀ error, ¬RunsOut cellSize choice store.heap vec (vec.size + 1) error) ∧
        Represents cellSize after (update lists this (some (items ++ [value]))))
      (fun error after => RunsOut cellSize choice store.heap vec (vec.size + 1) error ∧
        after = store) := by
  have howns := hrep.owns_of hthis hitems
  refine meets_members hthis ?_
  rw [wrap_succ_size hrep hcell hthis hitems, howns.size_eq]
  apply (autoCapacity_meets hrep choice hcell (items.length + 1) hthis).bind
  rintro ptr after ⟨hroom, hafter, grown, hobjects, rfl, -, hneeded, -⟩
  have hgrown : after.objects this = some grown := by
    rw [hobjects, update_self]
  apply (constructLast_meets hafter value hgrown hitems hneeded).mono
  · exact fun _ _ hdone => ⟨hroom, hdone⟩
  · exact fun _ _ hthrown => hthrown

end Growth

/-! ## Removing elements -/

section Removal

variable (hrep : Represents cellSize store lists)

include hrep

/-- Destroying the last element shortens the list by it. -/
theorem Represents.destroyLast {init : List Element} {last : Element}
    (hthis : store.objects this = some vec) (hitems : lists this = some (init ++ [last])) :
    ∃ heap, store.heap.destroyAt vec.ptr init.length = some ((), heap) ∧
      Represents cellSize
        ⟨heap, update store.objects this (some { vec with size := init.length })⟩
        (update lists this (some init)) := by
  have howns := hrep.owns_of hthis hitems
  have hsize := howns.size_eq
  have hle := howns.size_le
  rw [List.length_append, List.length_singleton] at hsize
  obtain ⟨address, hptr⟩ := howns.exists_ptr (by omega)
  obtain ⟨junk, hblock, hlength⟩ := howns.block address hptr
  rw [List.map_append, List.append_assoc, List.map_singleton, List.singleton_append] at hblock
  have hdestroy := Heap.destroyAt_eq hblock
  rw [List.length_map, ← hptr] at hdestroy
  refine ⟨_, hdestroy, hrep.rewrite init (none :: junk) hthis hptr ?_⟩
  simp only [List.length_append, List.length_cons, List.length_nil] at hlength ⊢
  omega

theorem clearFrom_meets {size : ℕ} (hthis : store.objects this = some vec)
    (hsize : vec.size = size) :
    Meets (clearFrom this size) store
      (fun _ after => Represents cellSize after (update lists this (some [])) ∧
        after.objects = update store.objects this (some { vec with size := 0 }))
      (fun _ _ => False) := by
  -- the elements are removed one by one, so the induction is on their number
  induction size generalizing store lists vec with
  | zero =>
      obtain ⟨items, hitems, howns⟩ := hrep.owns this vec hthis
      have hempty : items = [] := by
        rw [← List.length_eq_zero_iff, ← howns.size_eq, hsize]
      subst hempty
      refine ⟨?_, ?_⟩
      · rwa [← hitems, update_eq_self]
      · rw [← hsize, ← hthis, update_eq_self]
  | succ size ih =>
      obtain ⟨items, hitems, howns⟩ := hrep.owns this vec hthis
      have hne : items ≠ [] := by
        intro hempty
        rw [howns.size_eq, hempty] at hsize
        exact absurd hsize (by simp)
      obtain ⟨init, last, rfl⟩ := (List.eq_nil_or_concat' items).resolve_left hne
      have hinit : init.length = size := by
        have hlength := howns.size_eq
        rw [List.length_append, List.length_singleton] at hlength
        omega
      obtain ⟨heap, hdestroy, hafter⟩ := hrep.destroyLast hthis hitems
      rw [hinit] at hdestroy hafter
      refine meets_members hthis (meets_onHeap hdestroy (meets_assign hthis ?_))
      have hshorter : (⟨heap, update store.objects this (some { vec with size := size })⟩ :
          Store Element).objects this = some { vec with size := size } :=
        update_self _ _ _
      apply (ih hafter hshorter rfl).mono
      · intro _ after hdone
        simpa using hdone
      · exact fun _ _ hfalse => hfalse

theorem clear_meets (hthis : store.objects this = some vec) :
    Meets (clear this) store
      (fun _ after => Represents cellSize after (update lists this (some [])) ∧
        after.objects = update store.objects this (some { vec with size := 0 }))
      (fun _ _ => False) :=
  meets_members hthis (clearFrom_meets hrep hthis rfl)

theorem reset_meets (hthis : store.objects this = some vec) :
    Meets (reset this) store
      (fun _ after => Represents cellSize after (update lists this (some [])) ∧
        after.objects = update store.objects this (some Vec.initial))
      (fun _ _ => False) := by
  apply (clear_meets hrep hthis).bind
  rintro _ after ⟨hafter, hobjects⟩
  have hcleared : after.objects this = some { vec with size := 0 } := by
    rw [hobjects, update_self]
  obtain ⟨heap, hfree, hothers⟩ : ∃ heap, after.heap.free vec.ptr = some ((), heap) ∧
      ∀ other, vec.ptr ≠ some other → heap.blocks other = after.heap.blocks other := by
    cases hptr : vec.ptr with
    | none => exact ⟨after.heap, rfl, fun _ _ => rfl⟩
    | some address =>
        have howns := hafter.owns_of hcleared (update_self _ _ _)
        obtain ⟨junk, hblock, _⟩ := howns.block address hptr
        refine ⟨_, Heap.free_eq hblock, fun other hother => ?_⟩
        exact Heap.put_other _ (fun heq => hother (congrArg some heq.symm)) _
  refine meets_members hcleared (meets_onHeap hfree (meets_assign_last hcleared ?_))
  have hreplaced : Represents cellSize
      ⟨heap, update after.objects this (some Vec.initial)⟩
      (update (update lists this (some [])) this (some [])) := by
    apply hafter.replace
    · intro other hother
      apply hothers
      intro hptr
      exact hafter.not_ownedElsewhere_of_owner hcleared hptr hother
    · intro address hptr
      exact absurd hptr (by simp [Vec.initial])
    · exact owns_initial heap
  rw [hobjects, update_idem, update_idem] at hreplaced
  refine ⟨?_, ?_⟩
  · simpa [Store.setObject, hobjects, Vec.initial] using hreplaced
  · simp [Store.setObject, hobjects, Vec.initial]

theorem destroy_meets (hthis : store.objects this = some vec) :
    Meets (destroy this) store
      (fun _ after => Represents cellSize after (update lists this none) ∧
        after.objects = update store.objects this none)
      (fun _ _ => False) := by
  apply (reset_meets hrep hthis).bind
  rintro _ after ⟨hafter, hobjects⟩
  apply meets_update rfl
  have hremoved := hafter.remove this
  rw [update_idem] at hremoved
  exact ⟨hremoved, by simp [Store.setObject, hobjects]⟩

theorem popBack_meets (hitems : lists this = some items) :
    Meets (popBack this) store
      (fun _ after => items ≠ [] ∧
        Represents cellSize after (update lists this (some items.dropLast)) ∧
        ∃ shorter : Vec, after.objects this = some shorter ∧
          shorter.size = items.length - 1)
      (fun error after => error = .runtimeError ∧ items = [] ∧ after = store) := by
  obtain ⟨vec, hthis, howns⟩ := hrep.exists_members hitems
  refine meets_members hthis ?_
  rcases List.eq_nil_or_concat' items with rfl | ⟨init, last, rfl⟩
  · rw [if_pos (by simpa using howns.size_eq)]
    exact ⟨rfl, rfl, rfl⟩
  have hsize := howns.size_eq
  rw [List.length_append, List.length_singleton] at hsize
  obtain ⟨heap, hdestroy, hafter⟩ := hrep.destroyLast hthis hitems
  rw [if_neg (by omega)]
  refine meets_assign hthis ?_
  rw [hsize, Nat.add_sub_cancel]
  refine meets_onHeap_last hdestroy ⟨by simp, ?_, ?_⟩
  · rw [List.dropLast_concat]
    simpa [Store.setObject, hsize] using hafter
  · exact ⟨_, update_self _ _ _, by simp⟩

/-- The range of iterators that a check lets through. -/
def InRange (valid : Bool) (items : List Element) (itr : ℤ) : Prop :=
  0 ≤ itr ∧ if valid then itr < items.length else itr ≤ items.length

theorem checkIterator_meets (valid : Bool) (itr : ℤ) (hitems : lists this = some items) :
    Meets (checkIterator valid this itr) store
      (fun _ after => InRange valid items itr ∧ after = store)
      (fun error after => error = .invalidArgument ∧ ¬InRange valid items itr ∧
        after = store) := by
  obtain ⟨vec, hthis, howns⟩ := hrep.exists_members hitems
  refine meets_members hthis ?_
  rw [howns.size_eq]
  by_cases hneg : itr < 0
  · rw [if_pos hneg]
    exact ⟨rfl, fun hrange => absurd hrange.1 (Int.not_le.2 hneg), rfl⟩
  have hnonneg := Int.not_lt.1 hneg
  rw [if_neg hneg]
  cases valid with
  | true =>
      by_cases hend : (items.length : ℤ) ≤ itr
      · simp [hend, InRange]
      · simpa [hend, InRange] using ⟨hnonneg, Int.not_le.1 hend⟩
  | false =>
      by_cases hend : (items.length : ℤ) < itr
      · simp [hend, InRange]
      · simpa [hend, InRange] using ⟨hnonneg, Int.not_lt.1 hend⟩

/-- Moving elements down over destroyed ones removes these from the list. -/
theorem Represents.closeGap {before behind : List Element} (gap : List Element)
    (dead : Cells Element) {junk : Cells Element} {address : Address}
    (hthis : store.objects this = some vec) (hptr : vec.ptr = some address)
    (hdead : dead.length = gap.length)
    (hlength : (before ++ (gap ++ behind)).length + junk.length = vec.capacity) :
    ∃ heap,
      (store.heap.put address
          (some (before.map some ++ (dead ++ (behind.map some ++ junk))))).memmove vec.ptr
        before.length (before.length + gap.length) behind.length = some ((), heap) ∧
      Represents cellSize
        ⟨heap, update store.objects this
          (some { vec with size := (before ++ behind).length })⟩
        (update lists this (some (before ++ behind))) := by
  obtain ⟨rest, hrest, hmove⟩ := Heap.memmove_eq
    (Heap.put_same store.heap address
      (some (before.map some ++ (dead ++ (behind.map some ++ junk)))))
  have hcells : before.map some ++ (behind.map some ++ rest) =
      (before ++ behind).map some ++ rest := by
    rw [List.map_append, List.append_assoc]
  rw [List.length_map, List.length_map, hdead, Heap.put_put, hcells, ← hptr] at hmove
  refine ⟨_, hmove, hrep.rewrite (before ++ behind) rest hthis hptr ?_⟩
  simp only [List.length_append] at hlength ⊢
  omega

/-- Behind its check, `erase` removes one element. -/
theorem removeAt_meets {before behind : List Element} {value : Element}
    (hitems : lists this = some (before ++ ([value] ++ behind))) :
    Meets (removeAt this before.length) store
      (fun result after => result = before.length ∧
        Represents cellSize after (update lists this (some (before ++ behind))))
      (fun _ _ => False) := by
  obtain ⟨vec, hthis, howns⟩ := hrep.exists_members hitems
  have hsize := howns.size_eq
  have hdist : (vec.size : ℤ) - before.length - 1 = behind.length := by
    simp only [List.length_append, List.length_singleton] at hsize
    omega
  refine meets_members hthis ?_
  rw [hdist]
  by_cases hlast : (behind.length : ℤ) = 0
  -- the last element is removed by `pop_back`
  · have hbehind : behind = [] := List.length_eq_zero_iff.1 (Int.ofNat_eq_zero.1 hlast)
    subst hbehind
    rw [if_pos hlast]
    apply (popBack_meets hrep hitems).bindWith
    · rintro _ after ⟨_, hafter, shorter, hshorter, hshorterSize⟩
      refine meets_members hshorter ⟨by simp [hshorterSize], ?_⟩
      rwa [List.append_nil, List.dropLast_concat, ← List.append_nil before] at hafter
    · rintro _ _ ⟨_, hempty, _⟩
      exact absurd hempty (by simp)
  obtain ⟨address, hptr⟩ := howns.exists_ptr fun hzero => by
    have hle := howns.size_le
    simp only [List.length_append, List.length_singleton] at hsize
    omega
  obtain ⟨junk, hblock, hlength⟩ := howns.block address hptr
  have hcells : (before ++ ([value] ++ behind)).map some ++ junk =
      before.map some ++ some value :: (behind.map some ++ junk) := by
    simp
  rw [hcells] at hblock
  have hdestroy := Heap.destroyAt_eq hblock
  rw [List.length_map, ← hptr] at hdestroy
  obtain ⟨heap, hmove, hdone⟩ := hrep.closeGap [value] [none] hthis hptr rfl hlength
  have hshorter : vec.size - 1 = (before ++ behind).length := by
    simp only [List.length_append, List.length_singleton] at hsize ⊢
    omega
  rw [if_neg hlast, Int.toNat_natCast, Int.toNat_natCast]
  refine meets_onHeap hdestroy (meets_onHeap hmove (meets_assign hthis ⟨rfl, ?_⟩))
  rw [hshorter]
  exact hdone

theorem erase_meets (itr : ℤ) (hitems : lists this = some items) :
    Meets (erase this itr) store
      (fun result after => InRange true items itr ∧ result = itr ∧
        Represents cellSize after (update lists this (some (items.eraseIdx itr.toNat))))
      (fun error after => error = .invalidArgument ∧ ¬InRange true items itr ∧
        after = store) := by
  refine Meets.bind (checkIterator_meets hrep true itr hitems) ?_
  rintro _ after ⟨hrange, rfl⟩
  obtain ⟨index, rfl⟩ := Int.eq_ofNat_of_zero_le hrange.1
  have hindex : index < items.length := by
    simpa [InRange] using hrange
  obtain ⟨before, behind, value, rfl, rfl⟩ : ∃ before behind value,
      items = before ++ ([value] ++ behind) ∧ index = before.length := by
    refine ⟨items.take index, items.drop (index + 1), items.get ⟨index, hindex⟩, ?_, ?_⟩
    · simp
    · simp [Nat.le_of_lt hindex]
  have herase : (before ++ ([value] ++ behind)).eraseIdx before.length = before ++ behind := by
    rw [List.eraseIdx_append_of_length_le (Nat.le_refl _)]
    simp
  rw [Int.toNat_natCast, herase]
  refine (removeAt_meets hrep hitems).noThrow.mono ?_ fun _ _ hthrown => hthrown
  exact fun _ _ hdone => ⟨hrange, hdone⟩

omit hrep in
theorem destroyElements_meets {address : Address} (before : Cells Element)
    (doomed : List Element) {behind : Cells Element}
    (hblock : store.heap.blocks address =
      some (before ++ (doomed.map some ++ behind))) :
    Meets (destroyElements (some address) before.length doomed.length) store
      (fun _ after => after = { store with
        heap := store.heap.put address
          (some (before ++ (List.replicate doomed.length none ++ behind))) })
      (fun _ _ => False) := by
  -- the loop walks over the elements, so the destroyed prefix grows
  induction doomed generalizing before store with
  | nil =>
      refine meets_pure.2 ?_
      rw [List.map_nil] at hblock
      rw [List.length_nil, List.replicate_zero, store.heap.put_self hblock]
  | cons value rest ih =>
      refine meets_onHeap (Heap.destroyAt_eq hblock) ?_
      rw [show before.length + 1 = (before ++ [none]).length by simp]
      refine (ih (before ++ [none]) (by simp)).mono ?_ fun _ _ hthrown => hthrown
      rintro _ after rfl
      simp [List.replicate_succ]

/-- Behind its checks, the other `erase` removes a slice. -/
theorem removeRange_meets {before gap behind : List Element}
    (hitems : lists this = some (before ++ (gap ++ behind))) (hgap : gap ≠ []) :
    Meets (removeRange this before.length (before.length + gap.length : ℕ)) store
      (fun result after => result = before.length ∧
        Represents cellSize after (update lists this (some (before ++ behind))))
      (fun _ _ => False) := by
  have hpos := List.length_pos_of_ne_nil hgap
  obtain ⟨vec, hthis, howns⟩ := hrep.exists_members hitems
  have hsize := howns.size_eq
  simp only [List.length_append] at hsize
  obtain ⟨address, hptr⟩ := howns.exists_ptr fun hzero => by
    have hle := howns.size_le
    omega
  obtain ⟨junk, hblock, hlength⟩ := howns.block address hptr
  have hcells : (before ++ (gap ++ behind)).map some ++ junk =
      before.map some ++ (gap.map some ++ (behind.map some ++ junk)) := by
    simp
  rw [hcells] at hblock
  have hdestroyed := destroyElements_meets (before.map some) gap hblock
  rw [List.length_map, ← hptr] at hdestroyed
  have hcount : (((before.length + gap.length : ℕ) : ℤ) - before.length).toNat =
      gap.length := by
    omega
  have hdist : (vec.size : ℤ) - (before.length + gap.length : ℕ) = behind.length := by
    omega
  have hshorter : vec.size - gap.length = (before ++ behind).length := by
    simp only [List.length_append]
    omega
  refine meets_members hthis ?_
  rw [hcount, hdist, Int.toNat_natCast, Int.toNat_natCast]
  apply hdestroyed.bind
  rintro _ after rfl
  refine meets_assign hthis ?_
  rw [hshorter]
  by_cases hmoves : (0 : ℤ) < behind.length
  · obtain ⟨heap, hmove, hdone⟩ := hrep.closeGap gap (List.replicate gap.length none)
      hthis hptr (List.length_replicate) hlength
    rw [if_pos hmoves, Int.toNat_natCast]
    exact meets_onHeap hmove ⟨rfl, hdone⟩
  · have hbehind : behind = [] := List.length_eq_zero_iff.1 (by omega)
    subst hbehind
    rw [if_neg hmoves]
    have hdone := hrep.rewrite before (List.replicate gap.length none ++ junk) hthis hptr (by
      simp only [List.length_append, List.length_replicate, List.length_nil] at hlength ⊢
      omega)
    rw [List.append_nil]
    exact ⟨rfl, hdone⟩

theorem eraseRange_meets (first last : ℤ) (hitems : lists this = some items) :
    Meets (eraseRange this first last) store
      (fun result after => (first = last ∨
          InRange false items first ∧ InRange false items last ∧ first ≤ last) ∧
        result = first ∧
        Represents cellSize after (update lists this
          (some (items.take first.toNat ++ items.drop last.toNat))))
      (fun error after => error = .invalidArgument ∧ first ≠ last ∧
        ¬(InRange false items first ∧ InRange false items last ∧ first ≤ last) ∧
        after = store) := by
  rw [eraseRange]
  by_cases hempty : first = last
  · rw [if_pos hempty]
    refine ⟨Or.inl hempty, hempty.symm, ?_⟩
    rwa [hempty, List.take_append_drop, ← hitems, update_eq_self]
  rw [if_neg hempty]
  have hcheck : ∀ itr, itr = first ∨ itr = last →
      Meets (checkIterator false this itr) store
        (fun _ after => InRange false items itr ∧ after = store)
        (fun error after => error = .invalidArgument ∧ first ≠ last ∧
          ¬(InRange false items first ∧ InRange false items last ∧ first ≤ last) ∧
          after = store) := by
    intro itr hitr
    apply (checkIterator_meets hrep false itr hitems).mono
    · exact fun _ _ hdone => hdone
    · rintro error after ⟨herror, hrange, hafter⟩
      refine ⟨herror, hempty, ?_, hafter⟩
      rintro ⟨hfirst, hlast, _⟩
      rcases hitr with rfl | rfl
      · exact hrange hfirst
      · exact hrange hlast
  apply (hcheck first (Or.inl rfl)).bind
  rintro _ after ⟨hfirst, rfl⟩
  apply (hcheck last (Or.inr rfl)).bind
  rintro _ after ⟨hlast, rfl⟩
  by_cases hreversed : last < first
  · rw [if_pos hreversed]
    exact ⟨rfl, hempty, fun hrange => absurd hrange.2.2 (Int.not_le.2 hreversed), rfl⟩
  rw [if_neg hreversed]
  obtain ⟨start, rfl⟩ := Int.eq_ofNat_of_zero_le hfirst.1
  obtain ⟨stop, rfl⟩ := Int.eq_ofNat_of_zero_le hlast.1
  have hstop : stop ≤ items.length := by
    simpa [InRange] using hlast
  obtain ⟨before, gap, behind, rfl, rfl, rfl⟩ : ∃ before gap behind,
      items = before ++ (gap ++ behind) ∧ start = before.length ∧
        stop = before.length + gap.length := by
    refine ⟨items.take start, (items.drop start).take (stop - start),
      (items.drop start).drop (stop - start), ?_, ?_, ?_⟩
    · rw [List.take_append_drop, List.take_append_drop]
    · rw [List.length_take]
      omega
    · rw [List.length_take, List.length_take, List.length_drop]
      omega
  have hslice : (before ++ (gap ++ behind)).take before.length ++
      (before ++ (gap ++ behind)).drop (before.length + gap.length) = before ++ behind := by
    rw [List.take_left, ← List.drop_drop, List.drop_left, List.drop_left]
  rw [Int.toNat_natCast, Int.toNat_natCast, hslice]
  refine (removeRange_meets hrep hitems ?_).noThrow.mono ?_ fun _ _ hthrown => hthrown
  · rintro rfl
    exact hempty (by simp)
  · exact fun _ _ hdone => ⟨Or.inr ⟨hfirst, hlast, Int.not_lt.1 hreversed⟩, hdone⟩

theorem atIndex_meets (idx : ℕ) (hitems : lists this = some items) :
    Meets (atIndex this idx) store
      (fun result after => items[idx]? = some result ∧ after = store)
      (fun error after => error = .outOfRange ∧ items.length ≤ idx ∧ after = store) := by
  obtain ⟨vec, hthis, howns⟩ := hrep.exists_members hitems
  refine meets_members hthis ?_
  rw [howns.size_eq]
  by_cases hidx : idx < items.length
  · obtain ⟨address, hptr⟩ := howns.exists_ptr fun hzero => by
      have hle := howns.size_le
      have hsize := howns.size_eq
      omega
    obtain ⟨junk, hblock, _⟩ := howns.block address hptr
    have hcell : (items.map some ++ junk)[idx]? = some (some (items.get ⟨idx, hidx⟩)) := by
      rw [List.getElem?_append_left (by simpa using hidx)]
      simp [hidx]
    have hread := Heap.readAt_eq hblock hcell
    rw [← hptr] at hread
    rw [if_pos hidx]
    exact meets_onHeap_last hread ⟨by simp [hidx], rfl⟩
  · rw [if_neg hidx]
    exact ⟨rfl, Nat.le_of_not_lt hidx, rfl⟩

/-- The caller of `release` gets the block, and no vector keeps it. -/
theorem release_meets (hitems : lists this = some items) :
    Meets (release this) store
      (fun result after => Represents cellSize after (update lists this (some [])) ∧
        Owns cellSize after.heap result items ∧
        ∀ id vec, after.objects id = some vec → vec.ptr = result.ptr → result.ptr = none)
      (fun _ _ => False) := by
  obtain ⟨vec, hthis, howns⟩ := hrep.exists_members hitems
  refine meets_members hthis (meets_assign hthis ⟨?_, howns, ?_⟩)
  · apply hrep.replace
    · exact fun _ _ => rfl
    · exact fun address hptr => absurd hptr (by simp [Vec.initial])
    · exact owns_initial _
  · intro id found hfound hsame
    by_cases heq : id = this
    · subst heq
      obtain rfl : Vec.initial = found := by simpa [Store.setObject] using hfound
      exact hsame.symm
    · rw [store.setObject_other heq] at hfound
      cases hptr : vec.ptr with
      | none => rfl
      | some address =>
          exact absurd (hrep.disjoint id this found vec address hfound hthis
            (hsame.trans hptr) hptr) heq

end Removal

/-! ## Construction and assignment -/

section Objects

variable (hrep : Represents cellSize store lists)

include hrep

theorem swap_meets {right : List Element} (hitems : lists this = some items)
    (hother : lists other = some right) :
    Meets (swap this other) store
      (fun _ after => Represents cellSize after
        (update (update lists this (some right)) other (some items)))
      (fun _ _ => False) := by
  obtain ⟨leftVec, hleft, _⟩ := hrep.exists_members hitems
  obtain ⟨rightVec, hright, _⟩ := hrep.exists_members hother
  refine meets_members hleft (meets_members hright (meets_assign hleft ?_))
  obtain ⟨present, hpresent⟩ :
      ∃ vec, (store.setObject this (some rightVec)).objects other = some vec := by
    by_cases heq : other = this
    · exact ⟨rightVec, by simp [Store.setObject, heq]⟩
    · exact ⟨rightVec, (store.setObject_other heq _).trans hright⟩
  refine meets_assign_last hpresent ?_
  have hrenamed := hrep.rename (Equiv.swap other this).injective
  rw [Equiv.comp_swap_eq_update, Equiv.comp_swap_eq_update, hitems, hother, hleft,
    hright] at hrenamed
  exact hrenamed

theorem constructing_meets {body : Method Element Unit}
    {post : Unit → Store Element → Prop} {exceptional : Throw → Store Element → Prop}
    (hbody : ∀ fresh, Represents cellSize fresh (update lists this (some [])) →
      fresh = store.setObject this (some Vec.initial) →
      Meets body fresh post
        (fun error after => exceptional error (after.setObject this none))) :
    Meets (constructing this body) store post exceptional := by
  have hfresh : Represents cellSize (store.setObject this (some Vec.initial))
      (update lists this (some [])) := by
    apply hrep.replace
    · exact fun _ _ => rfl
    · exact fun address hptr => absurd hptr (by simp [Vec.initial])
    · exact owns_initial _
  exact Meets.onThrow ((meets_bind_update rfl).2 (hbody _ hfresh rfl))

omit hrep in
/-- A constructor that throws leaves no trace of its object. -/
theorem setObject_none (hfresh : store.objects this = none) (vec : Option Vec) :
    (store.setObject this vec).setObject this none = store := by
  rw [Store.setObject, Store.setObject, update_idem, ← hfresh, update_eq_self]

theorem defaultConstruct_meets :
    Meets (defaultConstruct this) store
      (fun _ after => Represents cellSize after (update lists this (some [])))
      (fun _ _ => False) :=
  constructing_meets hrep fun _ hfresh _ => hfresh

theorem copyConstruct_meets (hcell : 0 < cellSize) (choice : Option Address)
    {source : Vec} (hfresh : store.objects this = none)
    (hsource : store.objects other = some source) (hother : lists other = some items) :
    Meets (copyConstruct cellSize choice this other) store
      (fun _ after =>
        (∀ error, ¬RunsOut cellSize choice store.heap Vec.initial source.size error) ∧
        Represents cellSize after (update lists this (some items)))
      (fun error after =>
        RunsOut cellSize choice store.heap Vec.initial source.size error ∧ after = store) := by
  have hne : other ≠ this := by
    rintro rfl
    rw [hrep.dead _ hfresh] at hother
    exact absurd hother (by simp)
  have hsourceOwns := hrep.owns_of hsource hother
  apply constructing_meets hrep
  rintro fresh hstart rfl
  refine meets_members ((store.setObject_other hne _).trans hsource) ?_
  by_cases hempty : source.size = 0
  · rw [if_pos hempty]
    have hnil : items = [] := List.length_eq_zero_iff.1 (hsourceOwns.size_eq ▸ hempty)
    rw [hnil]
    exact ⟨not_runsOut_of_le (Nat.le_of_eq hempty), hstart⟩
  rw [if_neg hempty]
  have hgrow := autoCapacity_meets hstart choice hcell source.size
    (store.setObject_same this (some Vec.initial))
  have hthrown : ∀ error after,
      RunsOut cellSize choice store.heap Vec.initial source.size error ∧
          after = store.setObject this (some Vec.initial) →
        RunsOut cellSize choice store.heap Vec.initial source.size error ∧
          after.setObject this none = store := by
    rintro error after ⟨hruns, rfl⟩
    exact ⟨hruns, setObject_none hfresh _⟩
  refine hgrow.bindWith ?_ hthrown
  rintro _ after ⟨hmemory, hafter, grown, hobjects, rfl, _, hroom, _⟩
  have hgrown : after.objects this = some grown := by
    rw [hobjects, update_self]
  have hkept : after.objects other = some source := by
    rw [hobjects, update_of_ne hne, store.setObject_other hne, hsource]
  have hkeptOwns := hafter.owns_of hkept (by rwa [update_of_ne hne])
  have hgrownOwns := hafter.owns_of hgrown (update_self _ _ _)
  have hsize := hkeptOwns.size_eq
  have hle := hkeptOwns.size_le
  obtain ⟨origin, horigin⟩ := hkeptOwns.exists_ptr (by omega)
  obtain ⟨target, htarget⟩ := hgrownOwns.exists_ptr (by omega)
  obtain ⟨_, hcopied, _⟩ := hkeptOwns.block origin horigin
  obtain ⟨junk, hjunk, hlength⟩ := hgrownOwns.block target htarget
  have hdistinct : target ≠ origin := by
    rintro rfl
    exact hne (hafter.disjoint other this source grown target hkept hgrown horigin htarget)
  rw [List.length_nil, Nat.zero_add] at hlength
  have hcopy := Heap.memcpy_eq hdistinct hcopied hjunk (by simp; omega)
  rw [List.length_map, ← hsize, ← horigin, ← htarget] at hcopy
  refine meets_onHeap hcopy (meets_assign_last hgrown ?_)
  have hdone := hafter.rewrite items (junk.drop source.size) hgrown htarget (by simp; omega)
  rw [update_idem, ← hsize] at hdone
  exact ⟨hmemory, hdone⟩

/-- The copy is made in a local object, which takes the old elements along. -/
theorem copyAssign_meets (hcell : 0 < cellSize) (choice : Option Address)
    {right : List Element} {source : Vec} (htemporary : store.objects .temporary = none)
    (hsource : store.objects other = some source) (hthis : lists this = some items)
    (hother : lists other = some right) :
    Meets (copyAssign cellSize choice this other) store
      (fun _ after =>
        (this ≠ other →
          ∀ error, ¬RunsOut cellSize choice store.heap Vec.initial source.size error) ∧
        Represents cellSize after (update lists this (some right)))
      (fun error after => this ≠ other ∧
        RunsOut cellSize choice store.heap Vec.initial source.size error ∧ after = store) := by
  have hne : this ≠ .temporary := by
    rintro rfl
    rw [hrep.dead _ htemporary] at hthis
    exact absurd hthis (by simp)
  rw [copyAssign]
  by_cases hself : this = other
  · rw [if_neg (not_not.2 hself)]
    subst hself
    rw [← hother, update_eq_self]
    exact ⟨fun hne => absurd rfl hne, hrep⟩
  rw [if_pos hself]
  refine (copyConstruct_meets hrep hcell choice htemporary hsource hother).bindWith ?_
    fun error after hthrown => ⟨hself, hthrown⟩
  rintro _ copied ⟨hroom, hcopied⟩
  have hold : update lists ObjectId.temporary (some right) this = some items := by
    rwa [update_of_ne hne]
  apply (swap_meets hcopied hold (update_self _ _ _)).noThrow.bind
  intro _ swapped hswapped
  obtain ⟨vec, hvec, _⟩ := hswapped.exists_members (update_self _ _ _)
  refine (destroy_meets hswapped hvec).noThrow.mono ?_ fun _ _ hthrown => hthrown
  rintro _ after ⟨hafter, _⟩
  have hlists : update (update (update (update lists ObjectId.temporary (some right)) this
      (some right)) ObjectId.temporary (some items)) ObjectId.temporary none =
      update lists this (some right) := by
    funext id
    by_cases hid : id = .temporary
    · rw [hid, update_self, update_of_ne hne.symm, hrep.dead _ htemporary]
    · simp only [update_of_ne hid, update_apply]
  rw [hlists] at hafter
  exact ⟨fun _ => hroom, hafter⟩

theorem moveConstruct_meets (hfresh : store.objects this = none)
    (hother : lists other = some items) :
    Meets (moveConstruct this other) store
      (fun _ after => Represents cellSize after
        (update (update lists this (some items)) other (some [])))
      (fun _ _ => False) := by
  have hne : other ≠ this := by
    rintro rfl
    rw [hrep.dead _ hfresh] at hother
    exact absurd hother (by simp)
  apply constructing_meets hrep
  rintro fresh hstart -
  have hswap := swap_meets hstart (update_self _ _ _) (by rwa [update_of_ne hne])
  rwa [update_idem] at hswap

theorem moveAssign_meets {right : List Element} (hthis : lists this = some items)
    (hother : lists other = some right) :
    Meets (moveAssign this other) store
      (fun _ after => Represents cellSize after
        (if this = other then lists
          else update (update lists this (some right)) other (some [])))
      (fun _ _ => False) := by
  rw [moveAssign]
  by_cases hself : this = other
  · rw [if_neg (not_not.2 hself), if_pos hself]
    exact hrep
  rw [if_pos hself, if_neg hself]
  obtain ⟨vec, hvec, _⟩ := hrep.exists_members hthis
  apply (reset_meets hrep hvec).bind
  rintro _ after ⟨hafter, _⟩
  have hswap := swap_meets hafter (update_self _ _ _)
    (by rwa [update_of_ne (Ne.symm hself)])
  rwa [update_idem] at hswap

end Objects

end Nstl.VectorRefinement
