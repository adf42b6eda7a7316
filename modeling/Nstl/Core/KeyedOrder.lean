import Mathlib.Data.List.Induction
import Mathlib.Order.Lattice

/-!
# Comparing by a key

A comparison that looks at a key only is a strict weak order.  A sequence that is
sorted by it is partitioned by every value, so that a binary search finds where the
values of a key begin and end; and a container that drops what is equivalent to
something it has keeps the first value of every key.
-/

namespace Nstl.KeyedOrder

variable {α Key : Type*}

/-- The requirements on a comparison for sorting and searching. -/
structure StrictWeak (less : α → α → Bool) : Prop where
  irrefl : ∀ x, less x x = false
  trans : ∀ x y z, less x y = true → less y z = true → less x z = true
  incomparable_trans : ∀ x y z, less x y = false → less y x = false →
    less y z = false → less z y = false → less x z = false ∧ less z x = false

/-- The comparison is that of the keys. -/
def ByKey [LinearOrder Key] (less : α → α → Bool) (key : α → Key) : Prop :=
  ∀ x y, less x y = true ↔ key x < key y

section Order

variable [LinearOrder Key] {less : α → α → Bool} {key : α → Key} {x y : α}

theorem ByKey.eq_false_iff (hkey : ByKey less key) : less x y = false ↔ key y ≤ key x := by
  rw [Bool.eq_false_iff, Ne, hkey, not_lt]

theorem ByKey.equivalent_iff (hkey : ByKey less key) :
    less x y = false ∧ less y x = false ↔ key x = key y := by
  rw [hkey.eq_false_iff, hkey.eq_false_iff]
  constructor
  · intro hle
    exact le_antisymm hle.2 hle.1
  · intro heq
    exact ⟨heq.ge, heq.le⟩

theorem ByKey.strictWeak (hkey : ByKey less key) : StrictWeak less where
  irrefl x := hkey.eq_false_iff.2 le_rfl
  trans x y z hxy hyz := (hkey x z).2 (((hkey x y).1 hxy).trans ((hkey y z).1 hyz))
  incomparable_trans x y z hxy hyx hyz hzy := by
    have heq : key x = key z :=
      (hkey.equivalent_iff.1 ⟨hxy, hyx⟩).trans (hkey.equivalent_iff.1 ⟨hyz, hzy⟩)
    exact hkey.equivalent_iff.2 heq

end Order

/-! ## Binary search -/

/-- The loop of a binary search for the first element that does not satisfy `holds`,
among the `length` elements from `first` on. -/
def bisect (holds : α → Bool) (xs : List α) : ℕ → ℕ → ℕ → ℕ
  | 0, first, _ => first
  | fuel + 1, first, length =>
      if length = 0 then first
      else
        match xs[first + length / 2]? with
        | none => first
        | some x =>
            if holds x then
              bisect holds xs fuel (first + length / 2 + 1) (length - length / 2 - 1)
            else bisect holds xs fuel first (length / 2)

/-- The length of the interval bounds the number of rounds. -/
def partitionPoint (holds : α → Bool) (xs : List α) : ℕ :=
  bisect holds xs xs.length 0 xs.length

/-- The elements that satisfy `holds` are the first `point` ones. -/
def PartitionedAt (holds : α → Bool) (xs : List α) (point : ℕ) : Prop :=
  point ≤ xs.length ∧ ∀ i x, xs[i]? = some x → (holds x = true ↔ i < point)

section Search

variable {holds : α → Bool} {xs : List α} {point : ℕ}

theorem bisect_eq (hpoint : PartitionedAt holds xs point) (fuel first length : ℕ)
    (hfuel : length ≤ fuel) (hfirst : first ≤ point) (hlast : point ≤ first + length)
    (hlength : first + length ≤ xs.length) : bisect holds xs fuel first length = point := by
  induction fuel generalizing first length with
  | zero =>
      rw [bisect]
      omega
  | succ fuel ih =>
      rw [bisect]
      by_cases hempty : length = 0
      · rw [if_pos hempty]
        omega
      · have hmiddle : first + length / 2 < xs.length := by omega
        have hholds := hpoint.2 _ _ (List.getElem?_eq_getElem hmiddle)
        rw [if_neg hempty, List.getElem?_eq_getElem hmiddle]
        by_cases hleft : holds xs[first + length / 2] = true
        · have hless := hholds.1 hleft
          simp only [hleft, if_true]
          exact ih _ _ (by omega) (by omega) (by omega) (by omega)
        · have hnotLess : ¬first + length / 2 < point := fun hless => hleft (hholds.2 hless)
          simp only [hleft]
          exact ih _ _ (by omega) hfirst (by omega) (by omega)

/-- The search finds the point at which a sequence is partitioned. -/
theorem partitionPoint_eq (hpoint : PartitionedAt holds xs point) :
    partitionPoint holds xs = point :=
  bisect_eq hpoint xs.length 0 xs.length (Nat.le_refl _) (Nat.zero_le _)
    (by rw [Nat.zero_add]; exact hpoint.1) (Nat.le_of_eq (Nat.zero_add _))

/-- What holds of an element only if it holds of all before it partitions the
sequence. -/
theorem partitionedAt_of_pairwise
    (hpairwise : xs.Pairwise fun x y => holds y = true → holds x = true) :
    ∃ point, PartitionedAt holds xs point := by
  induction xs with
  | nil => exact ⟨0, Nat.le_refl _, by simp⟩
  | cons x xs ih =>
      obtain ⟨hhead, htail⟩ := List.pairwise_cons.1 hpairwise
      obtain ⟨point, hle, hpoint⟩ := ih htail
      by_cases hx : holds x = true
      · refine ⟨point + 1, Nat.succ_le_succ hle, ?_⟩
        intro i y hy
        cases i with
        | zero =>
            obtain rfl : x = y := by simpa using hy
            exact ⟨fun _ => Nat.succ_pos _, fun _ => hx⟩
        | succ i =>
            rw [List.getElem?_cons_succ] at hy
            rw [hpoint i y hy, Nat.succ_lt_succ_iff]
      · refine ⟨0, Nat.zero_le _, ?_⟩
        intro i y hy
        have hy' : holds y ≠ true := by
          cases List.mem_cons.1 (List.mem_of_getElem? hy) with
          | inl heq => exact heq ▸ hx
          | inr hmem => exact fun htrue => hx (hhead y hmem htrue)
        exact ⟨fun htrue => absurd htrue hy', fun hlt => absurd hlt (Nat.not_lt_zero _)⟩

end Search

/-- `std::lower_bound`: the first element that is not less than the value. -/
def lowerBound (less : α → α → Bool) (xs : List α) (value : α) : ℕ :=
  partitionPoint (less · value) xs

/-- `std::upper_bound`: the first element that the value is less than. -/
def upperBound (less : α → α → Bool) (xs : List α) (value : α) : ℕ :=
  partitionPoint (!less value ·) xs

/-- Sorted as the algorithms of the library require it. -/
def Sorted (less : α → α → Bool) (xs : List α) : Prop :=
  xs.Pairwise fun x y => less y x = false

section Lookup

variable [LinearOrder Key] {less : α → α → Bool} {key : α → Key} {xs : List α}

/-- A sorted sequence is partitioned by every value, in both ways. -/
theorem Sorted.partitioned (hsorted : Sorted less xs) (hkey : ByKey less key) (value : α) :
    PartitionedAt (less · value) xs (lowerBound less xs value) ∧
      PartitionedAt (!less value ·) xs (upperBound less xs value) := by
  constructor
  · have hdown : xs.Pairwise fun x y => less y value = true → less x value = true := by
      apply hsorted.imp
      intro x y hxy hy
      exact (hkey x value).2 ((hkey.eq_false_iff.1 hxy).trans_lt ((hkey y value).1 hy))
    obtain ⟨point, hpoint⟩ : ∃ point, PartitionedAt (less · value) xs point :=
      partitionedAt_of_pairwise hdown
    rw [lowerBound, partitionPoint_eq hpoint]
    exact hpoint
  · have hdown : xs.Pairwise fun x y => (!less value y) = true → (!less value x) = true := by
      apply hsorted.imp
      intro x y hxy hy
      rw [Bool.not_eq_true', hkey.eq_false_iff] at hy ⊢
      exact (hkey.eq_false_iff.1 hxy).trans hy
    obtain ⟨point, hpoint⟩ : ∃ point, PartitionedAt (!less value ·) xs point :=
      partitionedAt_of_pairwise hdown
    rw [upperBound, partitionPoint_eq hpoint]
    exact hpoint

/-- Between the two bounds are the elements with the key of the value, and no other. -/
theorem Sorted.between_bounds_iff (hsorted : Sorted less xs) (hkey : ByKey less key)
    (value : α) {i : ℕ} {x : α} (hx : xs[i]? = some x) :
    lowerBound less xs value ≤ i ∧ i < upperBound less xs value ↔ key x = key value := by
  obtain ⟨hlower, hupper⟩ := hsorted.partitioned hkey value
  have hbelow := hlower.2 i x hx
  have hbefore := hupper.2 i x hx
  rw [← hkey.equivalent_iff, ← Nat.not_lt, ← hbelow, ← hbefore]
  simp

end Lookup

/-! ## Containers without equivalent elements -/

/-- Insertion into a sorted container, which drops the new element if it has an
equivalent one. -/
def insertUnique (less : α → α → Bool) (x : α) : List α → List α
  | [] => [x]
  | y :: ys =>
      if less x y then x :: y :: ys
      else if less y x then y :: insertUnique less x ys
      else y :: ys

/-- The container after elements were inserted in their order. -/
def insertAll (less : α → α → Bool) (xs : List α) : List α :=
  xs.foldl (fun set x => insertUnique less x set) []

section Container

variable [LinearOrder Key] {less : α → α → Bool} {key : α → Key} {x z : α} {set : List α}

/-- In a container the keys go up. -/
def Ascending (key : α → Key) (set : List α) : Prop :=
  set.Pairwise fun x y => key x < key y

theorem mem_insertUnique_iff (hkey : ByKey less key) (hset : Ascending key set) :
    z ∈ insertUnique less x set ↔ z ∈ set ∨ z = x ∧ ∀ y ∈ set, key y ≠ key x := by
  induction set with
  | nil => simp [insertUnique]
  | cons y ys ih =>
      obtain ⟨hhead, htail⟩ := List.pairwise_cons.1 hset
      rw [insertUnique]
      by_cases hxy : less x y = true
      · have hnew : ∀ other ∈ y :: ys, key other ≠ key x := by
          intro other hother
          have hless := (hkey x y).1 hxy
          cases List.mem_cons.1 hother with
          | inl heq => exact heq ▸ hless.ne'
          | inr hmem => exact (hless.trans (hhead other hmem)).ne'
        rw [if_pos hxy, List.mem_cons, or_comm, and_iff_left hnew]
      · by_cases hyx : less y x = true
        · have hne : key y ≠ key x := ((hkey y x).1 hyx).ne
          rw [if_neg hxy, if_pos hyx, List.mem_cons, ih htail, List.mem_cons, or_assoc,
            List.forall_mem_cons, and_iff_right hne]
        · have heq : key y = key x :=
            hkey.equivalent_iff.1 ⟨Bool.eq_false_iff.2 hyx, Bool.eq_false_iff.2 hxy⟩
          have hold : ¬(z = x ∧ ∀ other ∈ y :: ys, key other ≠ key x) := fun hnew =>
            hnew.2 y List.mem_cons_self heq
          rw [if_neg hxy, if_neg hyx, or_iff_left hold]

theorem ascending_insertUnique (hkey : ByKey less key) (hset : Ascending key set) :
    Ascending key (insertUnique less x set) := by
  induction set with
  | nil => exact List.pairwise_singleton ..
  | cons y ys ih =>
      obtain ⟨hhead, htail⟩ := List.pairwise_cons.1 hset
      rw [insertUnique]
      by_cases hxy : less x y = true
      · have hless := (hkey x y).1 hxy
        rw [if_pos hxy]
        refine List.pairwise_cons.2 ⟨?_, hset⟩
        intro other hother
        cases List.mem_cons.1 hother with
        | inl heq => exact heq ▸ hless
        | inr hmem => exact hless.trans (hhead other hmem)
      · by_cases hyx : less y x = true
        · rw [if_neg hxy, if_pos hyx]
          refine List.pairwise_cons.2 ⟨?_, ih htail⟩
          intro other hother
          cases (mem_insertUnique_iff hkey htail).1 hother with
          | inl hmem => exact hhead other hmem
          | inr hnew => exact hnew.1 ▸ (hkey y x).1 hyx
        · rw [if_neg hxy, if_neg hyx]
          exact hset

theorem insertAll_append_singleton (xs : List α) (x : α) :
    insertAll less (xs ++ [x]) = insertUnique less x (insertAll less xs) :=
  List.foldl_append

theorem ascending_insertAll (hkey : ByKey less key) (xs : List α) :
    Ascending key (insertAll less xs) := by
  induction xs using List.reverseRecOn with
  | nil => exact List.Pairwise.nil
  | append_singleton xs x ih =>
      rw [insertAll_append_singleton]
      exact ascending_insertUnique hkey ih

/-- Every key that was inserted is there. -/
theorem exists_key_insertAll (hkey : ByKey less key) {xs : List α} (hx : x ∈ xs) :
    ∃ y ∈ insertAll less xs, key y = key x := by
  induction xs using List.reverseRecOn with
  | nil => exact nomatch hx
  | append_singleton xs last ih =>
      have hmem := fun z => mem_insertUnique_iff (x := last) (z := z) hkey
        (ascending_insertAll hkey xs)
      rw [insertAll_append_singleton]
      by_cases hknown : ∃ y ∈ insertAll less xs, key y = key x
      · obtain ⟨y, hy, heq⟩ := hknown
        exact ⟨y, (hmem y).2 (.inl hy), heq⟩
      · have hlast : x = last := by
          cases List.mem_append.1 hx with
          | inl hold => exact absurd (ih hold) hknown
          | inr hlast => exact List.mem_singleton.1 hlast
        refine ⟨x, (hmem x).2 (.inr ⟨hlast, fun y hy heq => hknown ⟨y, hy, ?_⟩⟩), rfl⟩
        rw [heq, hlast]

/-- Of every key the container has the element that was inserted first. -/
theorem mem_insertAll_iff (hkey : ByKey less key) (xs : List α) (z : α) :
    z ∈ insertAll less xs ↔
      ∃ before after, xs = before ++ z :: after ∧ ∀ y ∈ before, key y ≠ key z := by
  induction xs using List.reverseRecOn generalizing z with
  | nil => simp [insertAll]
  | append_singleton xs last ih =>
      rw [insertAll_append_singleton, mem_insertUnique_iff hkey (ascending_insertAll hkey xs)]
      constructor
      · intro hmem
        cases hmem with
        | inl hold =>
            obtain ⟨before, after, rfl, hfirst⟩ := (ih z).1 hold
            exact ⟨before, after ++ [last], by simp, hfirst⟩
        | inr hnew =>
            obtain ⟨rfl, hnew⟩ := hnew
            refine ⟨xs, [], rfl, fun y hy heq => ?_⟩
            obtain ⟨kept, hkept, hsame⟩ := exists_key_insertAll hkey hy
            exact hnew kept hkept (hsame.trans heq)
      · rintro ⟨before, after, heq, hfirst⟩
        cases List.eq_nil_or_concat after with
        | inl hnil =>
            subst hnil
            obtain ⟨rfl, hlast⟩ := List.append_inj' heq rfl
            obtain rfl : last = z := List.singleton_inj.1 hlast
            refine .inr ⟨rfl, fun y hy => hfirst y ?_⟩
            obtain ⟨front, back, rfl, _⟩ := (ih y).1 hy
            exact List.mem_append_right _ List.mem_cons_self
        | inr hconcat =>
            obtain ⟨rest, other, rfl⟩ := hconcat
            rw [List.concat_eq_append, ← List.cons_append, ← List.append_assoc] at heq
            exact .inl ((ih z).2 ⟨before, rest, (List.append_inj' heq rfl).1, hfirst⟩)

end Container

end Nstl.KeyedOrder
