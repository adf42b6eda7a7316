import Mathlib.Data.Finset.Option
import Mathlib.Data.List.Nodup
import Mathlib.Logic.Equiv.Basic

/-!
# Resources with one owner

Every owner holds at most one item, and an item has at most one owner.  Owners put
items in their hands, exchange them, and let go of them.  The ledger keeps, besides,
which items were handed back and which came to their end; every item that it knows is
held, handed back or at its end, and only one of these.
-/

namespace Nstl.Ownership

open Function

variable {Owner Item : Type*}

/-! ## What is in whose hands -/

def Held (holding : Owner → Option Item) (item : Item) : Prop :=
  ∃ owner, holding owner = some item

/-- No item is in two hands. -/
def Exclusive (holding : Owner → Option Item) : Prop :=
  ∀ left right item, holding left = some item → holding right = some item → left = right

section Hands

variable [DecidableEq Owner] {holding : Owner → Option Item} {owner : Owner} {item : Item}

/-- Two owners trade what they hold. -/
def exchange (holding : Owner → Option Item) (left right : Owner) : Owner → Option Item :=
  holding ∘ Equiv.swap left right

theorem exchange_eq_update (holding : Owner → Option Item) (left right : Owner) :
    exchange holding left right =
      update (update holding left (holding right)) right (holding left) := by
  funext owner
  by_cases hright : owner = right
  · rw [hright, update_self, exchange, comp_apply, Equiv.swap_apply_right]
  · rw [update_of_ne hright]
    by_cases hleft : owner = left
    · rw [hleft, update_self, exchange, comp_apply, Equiv.swap_apply_left]
    · rw [update_of_ne hleft, exchange, comp_apply, Equiv.swap_apply_of_ne_of_ne hleft hright]

theorem held_exchange_iff (left right : Owner) :
    Held (exchange holding left right) item ↔ Held holding item := by
  constructor
  · intro hheld
    obtain ⟨owner, howner⟩ := hheld
    exact ⟨Equiv.swap left right owner, howner⟩
  · intro hheld
    obtain ⟨owner, howner⟩ := hheld
    refine ⟨Equiv.swap left right owner, ?_⟩
    rw [exchange, comp_apply, Equiv.swap_apply_self, howner]

theorem Exclusive.exchange (hexclusive : Exclusive holding) (left right : Owner) :
    Exclusive (exchange holding left right) := by
  intro first second item hfirst hsecond
  exact (Equiv.swap left right).injective (hexclusive _ _ item hfirst hsecond)

/-- Letting go. -/
theorem Exclusive.clear (hexclusive : Exclusive holding) (owner : Owner) :
    Exclusive (update holding owner none) := by
  intro left right item hleft hright
  have hkept : ∀ other, update holding owner none other = some item →
      holding other = some item := by
    intro other hother
    by_cases heq : other = owner
    · simp [heq] at hother
    · rwa [update_of_ne heq] at hother
  exact hexclusive left right item (hkept left hleft) (hkept right hright)

theorem held_clear_iff (hexclusive : Exclusive holding) :
    Held (update holding owner none) item ↔ Held holding item ∧ holding owner ≠ some item := by
  constructor
  · intro hheld
    obtain ⟨other, hother⟩ := hheld
    by_cases heq : other = owner
    · simp [heq] at hother
    · rw [update_of_ne heq] at hother
      exact ⟨⟨other, hother⟩, fun howner => heq (hexclusive other owner item hother howner)⟩
  · intro hheld
    obtain ⟨⟨other, hother⟩, howner⟩ := hheld
    refine ⟨other, ?_⟩
    rw [update_of_ne, hother]
    rintro rfl
    exact howner hother

/-- Taking something into an empty hand. -/
theorem held_put_iff {new : Option Item} (hempty : holding owner = none) :
    Held (update holding owner new) item ↔ new = some item ∨ Held holding item := by
  constructor
  · intro hheld
    obtain ⟨other, hother⟩ := hheld
    by_cases heq : other = owner
    · rw [heq, update_self] at hother
      exact Or.inl hother
    · rw [update_of_ne heq] at hother
      exact Or.inr ⟨other, hother⟩
  · intro hcases
    rcases hcases with hnew | ⟨other, hother⟩
    · exact ⟨owner, by rw [update_self, hnew]⟩
    · refine ⟨other, ?_⟩
      rw [update_of_ne, hother]
      rintro rfl
      simp [hempty] at hother

theorem Exclusive.put (hexclusive : Exclusive holding) {new : Option Item}
    (hfree : ∀ item, new = some item → ¬Held holding item) :
    Exclusive (update holding owner new) := by
  -- a hand that holds the new item is the one it was put into
  have hnew : ∀ other item, other ≠ owner → new = some item →
      update holding owner new other ≠ some item := by
    intro other item hne hitem hother
    rw [update_of_ne hne] at hother
    exact hfree item hitem ⟨other, hother⟩
  intro left right item hleft hright
  by_cases hl : left = owner
  · by_cases hr : right = owner
    · rw [hl, hr]
    · rw [hl, update_self] at hleft
      exact absurd hright (hnew right item hr hleft)
  · by_cases hr : right = owner
    · rw [hr, update_self] at hright
      exact absurd hleft (hnew left item hl hright)
    · rw [update_of_ne hl] at hleft
      rw [update_of_ne hr] at hright
      exact hexclusive left right item hleft hright

end Hands

/-! ## The ledger -/

structure Ledger (Owner Item : Type*) where
  holding : Owner → Option Item
  returned : Finset Item
  /-- The items at their end, once for each time that they were ended. -/
  ended : List Item
  known : Finset Item

structure Linear (ledger : Ledger Owner Item) : Prop where
  exclusive : Exclusive ledger.holding
  held : ∀ item, Held ledger.holding item →
    item ∈ ledger.known ∧ item ∉ ledger.returned ∧ item ∉ ledger.ended
  returned : ∀ item ∈ ledger.returned, item ∈ ledger.known ∧ item ∉ ledger.ended
  ended : ∀ item ∈ ledger.ended, item ∈ ledger.known
  nodup : ledger.ended.Nodup
  placed : ∀ item ∈ ledger.known,
    Held ledger.holding item ∨ item ∈ ledger.returned ∨ item ∈ ledger.ended

section Operations

variable [DecidableEq Owner] [DecidableEq Item] (ledger : Ledger Owner Item) (owner : Owner)

def Ledger.take (new : Option Item) : Ledger Owner Item :=
  { ledger with
    holding := update ledger.holding owner new
    returned := ledger.returned \ new.toFinset
    known := ledger.known ∪ new.toFinset }

def Ledger.giveBack : Ledger Owner Item :=
  { ledger with
    holding := update ledger.holding owner none
    returned := ledger.returned ∪ (ledger.holding owner).toFinset }

omit [DecidableEq Item] in
def Ledger.finish : Ledger Owner Item :=
  { ledger with
    holding := update ledger.holding owner none
    ended := ledger.ended ++ (ledger.holding owner).toList }

def Ledger.trade (other : Owner) : Ledger Owner Item :=
  { ledger with holding := exchange ledger.holding owner other }

variable {ledger owner}

theorem Linear.take (hlinear : Linear ledger) {new : Option Item}
    (hempty : ledger.holding owner = none)
    (hfresh : ∀ item, new = some item → ¬Held ledger.holding item ∧ item ∉ ledger.ended) :
    Linear (ledger.take owner new) where
  exclusive := hlinear.exclusive.put fun item hnew => (hfresh item hnew).1
  held := by
    intro item hheld
    simp only [Ledger.take, Finset.mem_union, Finset.mem_sdiff, Option.mem_toFinset,
      Option.mem_def]
    rcases (held_put_iff hempty).1 hheld with hnew | hbefore
    · exact ⟨Or.inr hnew, fun hreturned => hreturned.2 hnew, (hfresh item hnew).2⟩
    · have hplace := hlinear.held item hbefore
      exact ⟨Or.inl hplace.1, fun hreturned => hplace.2.1 hreturned.1, hplace.2.2⟩
  returned := by
    intro item hreturned
    have hplace := hlinear.returned item (Finset.mem_sdiff.1 hreturned).1
    exact ⟨Finset.mem_union_left _ hplace.1, hplace.2⟩
  ended := fun item hended => Finset.mem_union_left _ (hlinear.ended item hended)
  nodup := hlinear.nodup
  placed := by
    intro item hknown
    simp only [Ledger.take, held_put_iff hempty, Finset.mem_sdiff, Option.mem_toFinset,
      Option.mem_def]
    by_cases hnew : new = some item
    · exact Or.inl (Or.inl hnew)
    · have hbefore : item ∈ ledger.known := by
        simpa [Ledger.take, hnew] using hknown
      rcases hlinear.placed item hbefore with hheld | hreturned | hended
      · exact Or.inl (Or.inr hheld)
      · exact Or.inr (Or.inl ⟨hreturned, hnew⟩)
      · exact Or.inr (Or.inr hended)

omit [DecidableEq Item] in
/-- What is still held when an owner has let go of its item. -/
theorem Linear.held_clear (hlinear : Linear ledger) {item : Item}
    (hheld : Held (update ledger.holding owner none) item) :
    (item ∈ ledger.known ∧ item ∉ ledger.returned ∧ item ∉ ledger.ended) ∧
      ledger.holding owner ≠ some item := by
  obtain ⟨hbefore, howner⟩ := (held_clear_iff hlinear.exclusive).1 hheld
  exact ⟨hlinear.held item hbefore, howner⟩

omit [DecidableEq Item] in
/-- Only the item of that owner has to find another place. -/
theorem Linear.placed_clear (hlinear : Linear ledger) {item : Item}
    (hknown : item ∈ ledger.known) :
    ledger.holding owner = some item ∨ Held (update ledger.holding owner none) item ∨
      item ∈ ledger.returned ∨ item ∈ ledger.ended := by
  rw [held_clear_iff hlinear.exclusive]
  by_cases howner : ledger.holding owner = some item
  · exact Or.inl howner
  · refine Or.inr ?_
    exact (hlinear.placed item hknown).imp_left fun hheld => ⟨hheld, howner⟩

theorem Linear.giveBack (hlinear : Linear ledger) : Linear (ledger.giveBack owner) where
  exclusive := hlinear.exclusive.clear owner
  held := by
    intro item hheld
    obtain ⟨hplace, howner⟩ := hlinear.held_clear hheld
    refine ⟨hplace.1, ?_, hplace.2.2⟩
    simpa [Ledger.giveBack, howner] using hplace.2.1
  returned := by
    intro item hreturned
    simp only [Ledger.giveBack, Finset.mem_union, Option.mem_toFinset, Option.mem_def]
      at hreturned ⊢
    rcases hreturned with hbefore | howner
    · exact hlinear.returned item hbefore
    · have hplace := hlinear.held item ⟨owner, howner⟩
      exact ⟨hplace.1, hplace.2.2⟩
  ended := hlinear.ended
  nodup := hlinear.nodup
  placed := by
    intro item hknown
    simp only [Ledger.giveBack, Finset.mem_union, Option.mem_toFinset, Option.mem_def]
    rcases hlinear.placed_clear hknown with howner | hheld | hreturned | hended
    · exact Or.inr (Or.inl (Or.inr howner))
    · exact Or.inl hheld
    · exact Or.inr (Or.inl (Or.inl hreturned))
    · exact Or.inr (Or.inr hended)

omit [DecidableEq Item] in
theorem Linear.finish (hlinear : Linear ledger) : Linear (ledger.finish owner) where
  exclusive := hlinear.exclusive.clear owner
  held := by
    intro item hheld
    obtain ⟨hplace, howner⟩ := hlinear.held_clear hheld
    refine ⟨hplace.1, hplace.2.1, ?_⟩
    simpa [Ledger.finish, howner] using hplace.2.2
  returned := by
    intro item hreturned
    have hplace := hlinear.returned item hreturned
    refine ⟨hplace.1, ?_⟩
    have howner : ledger.holding owner ≠ some item :=
      fun howner => (hlinear.held item ⟨owner, howner⟩).2.1 hreturned
    simpa [Ledger.finish, howner] using hplace.2
  ended := by
    intro item hended
    simp only [Ledger.finish, List.mem_append, Option.mem_toList] at hended
    rcases hended with hbefore | howner
    · exact hlinear.ended item hbefore
    · exact (hlinear.held item ⟨owner, howner⟩).1
  nodup := by
    cases howner : ledger.holding owner with
    | none => simpa [Ledger.finish, howner] using hlinear.nodup
    | some item =>
        have hplace := hlinear.held item ⟨owner, howner⟩
        simpa [Ledger.finish, howner, List.nodup_append] using
          ⟨hlinear.nodup, fun other hother heq => hplace.2.2 (heq ▸ hother)⟩
  placed := by
    intro item hknown
    simp only [Ledger.finish, List.mem_append, Option.mem_toList]
    rcases hlinear.placed_clear hknown with howner | hheld | hreturned | hended
    · exact Or.inr (Or.inr (Or.inr howner))
    · exact Or.inl hheld
    · exact Or.inr (Or.inl hreturned)
    · exact Or.inr (Or.inr (Or.inl hended))

omit [DecidableEq Item] in
theorem Linear.trade (hlinear : Linear ledger) (other : Owner) :
    Linear (ledger.trade owner other) where
  exclusive := hlinear.exclusive.exchange owner other
  held item hheld := hlinear.held item ((held_exchange_iff owner other).1 hheld)
  returned := hlinear.returned
  ended := hlinear.ended
  nodup := hlinear.nodup
  placed item hknown :=
    (hlinear.placed item hknown).imp_left (held_exchange_iff owner other).2

end Operations

/-- Every item that the ledger knows is in exactly one place, and there only once. -/
theorem Linear.exactly_one [DecidableEq Item] {ledger : Ledger Owner Item}
    (hlinear : Linear ledger) {item : Item} (hknown : item ∈ ledger.known) :
    (∃! owner, ledger.holding owner = some item) ∧ item ∉ ledger.returned ∧
        ledger.ended.count item = 0 ∨
      ¬Held ledger.holding item ∧ item ∈ ledger.returned ∧ ledger.ended.count item = 0 ∨
      ¬Held ledger.holding item ∧ item ∉ ledger.returned ∧ ledger.ended.count item = 1 := by
  have hcount : item ∉ ledger.ended → ledger.ended.count item = 0 := List.count_eq_zero.2
  rcases hlinear.placed item hknown with ⟨owner, howner⟩ | hreturned | hended
  · have hplace := hlinear.held item ⟨owner, howner⟩
    refine Or.inl ⟨⟨owner, howner, ?_⟩, hplace.2.1, hcount hplace.2.2⟩
    exact fun other hother => hlinear.exclusive other owner item hother howner
  · have hplace := hlinear.returned item hreturned
    refine Or.inr (Or.inl ⟨?_, hreturned, hcount hplace.2⟩)
    exact fun hheld => (hlinear.held item hheld).2.1 hreturned
  · refine Or.inr (Or.inr ⟨?_, ?_, List.count_eq_one_of_mem hlinear.nodup hended⟩)
    · exact fun hheld => (hlinear.held item hheld).2.2 hended
    · exact fun hreturned => (hlinear.returned item hreturned).2 hended

end Nstl.Ownership
