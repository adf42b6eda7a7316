import Mathlib.Algebra.Order.Floor.Ring
import Mathlib.Tactic.Linarith

/-!
# Rounding to integers

The three ways to round a number to an integer that treat both signs alike.  Each is
given by what the integer is to satisfy; there is exactly one such integer.
-/

namespace Nstl.Rounding

variable {K : Type*} [Field K] [LinearOrder K] [IsStrictOrderedRing K]

/-- The nearest integer, and of two the one further from zero. -/
structure NearestAway (x : K) (n : ℤ) : Prop where
  near : |x - n| ≤ 1 / 2
  away : |x - n| = 1 / 2 → |x| ≤ |(n : K)|

/-- The integer next to the number on the side of zero. -/
structure TowardZero (x : K) (n : ℤ) : Prop where
  within : |x - n| < 1
  le_of_nonneg : 0 ≤ x → n ≤ x
  ge_of_nonpos : x ≤ 0 → x ≤ n

/-- The integer next to the number on the side away from zero. -/
structure AwayFromZero (x : K) (n : ℤ) : Prop where
  within : |x - n| < 1
  ge_of_nonneg : 0 ≤ x → x ≤ n
  le_of_nonpos : x ≤ 0 → n ≤ x

section Unique

variable {x : K} {m n : ℤ}

omit [IsStrictOrderedRing K] in
theorem NearestAway.neg (hnearest : NearestAway x n) : NearestAway (-x) (-n) where
  near := by
    rw [Int.cast_neg, neg_sub_neg, abs_sub_comm]
    exact hnearest.near
  away := by
    rw [Int.cast_neg, neg_sub_neg, abs_sub_comm, abs_neg, abs_neg]
    exact hnearest.away

/-- On the positive side a tie goes up. -/
theorem NearestAway.bounds (hnearest : NearestAway x n) (hx : 0 ≤ x) :
    (n : K) - 1 / 2 ≤ x ∧ x < n + 1 / 2 := by
  obtain ⟨hlow, hhigh⟩ := abs_le.1 hnearest.near
  refine ⟨by linarith, lt_of_le_of_ne (by linarith) ?_⟩
  intro htie
  have hsub : x - n = 1 / 2 := by linarith
  have haway := hnearest.away (by rw [hsub]; exact abs_of_pos one_half_pos)
  have hn : (0 : K) ≤ n := by
    by_contra hneg
    have hint : n ≤ -1 := by
      have hlt : n < 0 := by exact_mod_cast not_le.1 hneg
      omega
    have hcast : (n : K) ≤ -1 := by exact_mod_cast hint
    linarith
  rw [abs_of_nonneg hx, abs_of_nonneg hn] at haway
  linarith

theorem int_eq_of_abs_lt (habs : |((m - n : ℤ) : K)| < 1) : m = n := by
  have hint : |m - n| < 1 := by exact_mod_cast habs
  have hzero := Int.abs_lt_one_iff.1 hint
  omega

theorem NearestAway.unique (hm : NearestAway x m) (hn : NearestAway x n) : m = n := by
  have hpos : ∀ {y : K} {k l : ℤ}, 0 ≤ y → NearestAway y k → NearestAway y l → k = l := by
    intro y k l hy hk hl
    have hboundsK := hk.bounds hy
    have hboundsL := hl.bounds hy
    apply int_eq_of_abs_lt (K := K)
    rw [Int.cast_sub, abs_lt]
    constructor
    · linarith
    · linarith
  by_cases hx : 0 ≤ x
  · exact hpos hx hm hn
  · have hneg := hpos (neg_nonneg.2 (not_le.1 hx).le) hm.neg hn.neg
    omega

theorem NearestAway.intCast (k : ℤ) : NearestAway (k : K) k where
  near := by
    rw [sub_self, abs_zero]
    exact one_half_pos.le
  away _ := le_rfl

end Unique

section Floor

variable [FloorRing K] {x : K} {n : ℤ}

/-- The function that `NearestAway` describes. -/
def halfAway (x : K) : ℤ := if x < 0 then -⌊-x + 1 / 2⌋ else ⌊x + 1 / 2⌋

/-- On the positive side a tie goes up to the next integer. -/
theorem nearestAway_floor (hx : 0 ≤ x) : NearestAway x ⌊x + 1 / 2⌋ := by
  have hlow := Int.floor_le (x + 1 / 2)
  have hhigh := Int.lt_floor_add_one (x + 1 / 2)
  constructor
  · rw [abs_le]
    constructor
    · linarith
    · linarith
  · intro htie
    have hle : x ≤ ⌊x + 1 / 2⌋ := by
      by_contra hlt
      rw [abs_of_pos (by linarith)] at htie
      linarith
    rw [abs_of_nonneg hx]
    exact hle.trans (le_abs_self _)

theorem halfAway_nearest (x : K) : NearestAway x (halfAway x) := by
  rw [halfAway]
  split
  next hneg =>
      have hpos := (nearestAway_floor (neg_nonneg.2 hneg.le)).neg
      rwa [neg_neg] at hpos
  next hpos => exact nearestAway_floor (not_lt.1 hpos)

theorem eq_floor_iff : n = ⌊x⌋ ↔ |x - n| < 1 ∧ n ≤ x := by
  rw [eq_comm, Int.floor_eq_iff]
  constructor
  · rintro ⟨hle, hlt⟩
    exact ⟨abs_lt.2 ⟨by linarith, by linarith⟩, hle⟩
  · rintro ⟨hwithin, hle⟩
    have hlt := (abs_lt.1 hwithin).2
    exact ⟨hle, by linarith⟩

theorem eq_ceil_iff : n = ⌈x⌉ ↔ |x - n| < 1 ∧ x ≤ n := by
  rw [eq_comm, Int.ceil_eq_iff]
  constructor
  · rintro ⟨hlt, hle⟩
    exact ⟨abs_lt.2 ⟨by linarith, by linarith⟩, hle⟩
  · rintro ⟨hwithin, hle⟩
    have hlt := (abs_lt.1 hwithin).1
    exact ⟨by linarith, hle⟩

/-- At zero both sides are the integer itself. -/
theorem eq_zero_of_within (hwithin : |(0 : K) - n| < 1) : n = 0 := by
  rw [zero_sub, abs_neg] at hwithin
  exact Int.abs_lt_one_iff.1 (by exact_mod_cast hwithin)

theorem towardZero_iff : TowardZero x n ↔ n = if x < 0 then ⌈x⌉ else ⌊x⌋ := by
  split
  next hneg =>
      rw [eq_ceil_iff]
      constructor
      · intro htoward
        exact ⟨htoward.within, htoward.ge_of_nonpos hneg.le⟩
      · rintro ⟨hwithin, hle⟩
        exact ⟨hwithin, fun hpos => absurd hneg (not_lt.2 hpos), fun _ => hle⟩
  next hpos =>
      rw [eq_floor_iff]
      constructor
      · intro htoward
        exact ⟨htoward.within, htoward.le_of_nonneg (not_lt.1 hpos)⟩
      · rintro ⟨hwithin, hle⟩
        refine ⟨hwithin, fun _ => hle, fun hnonpos => ?_⟩
        obtain rfl := le_antisymm hnonpos (not_lt.1 hpos)
        rw [eq_zero_of_within hwithin, Int.cast_zero]

theorem awayFromZero_iff : AwayFromZero x n ↔ n = if x < 0 then ⌊x⌋ else ⌈x⌉ := by
  split
  next hneg =>
      rw [eq_floor_iff]
      constructor
      · intro haway
        exact ⟨haway.within, haway.le_of_nonpos hneg.le⟩
      · rintro ⟨hwithin, hle⟩
        exact ⟨hwithin, fun hpos => absurd hneg (not_lt.2 hpos), fun _ => hle⟩
  next hpos =>
      rw [eq_ceil_iff]
      constructor
      · intro haway
        exact ⟨haway.within, haway.ge_of_nonneg (not_lt.1 hpos)⟩
      · rintro ⟨hwithin, hle⟩
        refine ⟨hwithin, fun _ => hle, fun hnonpos => ?_⟩
        obtain rfl := le_antisymm hnonpos (not_lt.1 hpos)
        rw [eq_zero_of_within hwithin, Int.cast_zero]

end Floor

end Nstl.Rounding
