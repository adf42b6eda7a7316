import Mathlib.Data.List.Lex
import Mathlib.Data.Prod.Lex
import Nstl.Core.KeyedOrder
import Nstl.Net.IpRange

/-!
# The order of addresses and ranges

`ip_range_less` compares addresses and ranges of both families with each other, and
also the variants that hold them.  It looks at the size and the address only: the
mask of a range plays no role.
-/

namespace Nstl.IpRangeLess

open Nstl.ByteString
open Nstl.IpRange
open Nstl.KeyedOrder

/-- `std::lexicographical_compare`, which is `operator<` on arrays. -/
def lexLess : List Byte → List Byte → Bool
  | _, [] => false
  | [], _ :: _ => true
  | x :: xs, y :: ys => if x < y then true else if y < x then false else lexLess xs ys

/-- The body of the four templates: a smaller size first, and then the bytes. -/
def lessBase {leftSize rightSize : ℕ} (left : IpAddrBase leftSize)
    (right : IpAddrBase rightSize) : Bool :=
  if leftSize < rightSize then true
  else if rightSize < leftSize then false
  else lexLess (List.ofFn left) (List.ofFn right)

section Templates

variable {leftSize rightSize : ℕ}

def lessAddrAddr (left : IpAddrBase leftSize) (right : IpAddrBase rightSize) : Bool :=
  lessBase left right

def lessRangeAddr (left : IpRangeBase leftSize) (right : IpAddrBase rightSize) : Bool :=
  lessBase left.ip right

def lessAddrRange (left : IpAddrBase leftSize) (right : IpRangeBase rightSize) : Bool :=
  lessBase left right.ip

def lessRangeRange (left : IpRangeBase leftSize) (right : IpRangeBase rightSize) : Bool :=
  lessBase left.ip right.ip

end Templates

/-! The overloads for the variants visit both arguments. -/

def lessAddrGenAddrGen : IpAddrGen → IpAddrGen → Bool
  | .v4 left, .v4 right => lessAddrAddr left right
  | .v4 left, .v6 right => lessAddrAddr left right
  | .v6 left, .v4 right => lessAddrAddr left right
  | .v6 left, .v6 right => lessAddrAddr left right

def lessRangeGenAddrGen : IpRangeGen → IpAddrGen → Bool
  | .v4 left, .v4 right => lessRangeAddr left right
  | .v4 left, .v6 right => lessRangeAddr left right
  | .v6 left, .v4 right => lessRangeAddr left right
  | .v6 left, .v6 right => lessRangeAddr left right

def lessAddrGenRangeGen : IpAddrGen → IpRangeGen → Bool
  | .v4 left, .v4 right => lessAddrRange left right
  | .v4 left, .v6 right => lessAddrRange left right
  | .v6 left, .v4 right => lessAddrRange left right
  | .v6 left, .v6 right => lessAddrRange left right

def lessRangeGenRangeGen : IpRangeGen → IpRangeGen → Bool
  | .v4 left, .v4 right => lessRangeRange left right
  | .v4 left, .v6 right => lessRangeRange left right
  | .v6 left, .v4 right => lessRangeRange left right
  | .v6 left, .v6 right => lessRangeRange left right

/-- The values that `ip_range_less` compares. -/
inductive IpValue where
  | addr4 (address : Ipv4Addr)
  | addr6 (address : Ipv6Addr)
  | range4 (range : Ipv4Range)
  | range6 (range : Ipv6Range)
  | addrGen (address : IpAddrGen)
  | rangeGen (range : IpRangeGen)

/-- The implicit conversion to a variant that makes an overload for variants viable. -/
def IpValue.toGen : IpValue → IpAddrGen ⊕ IpRangeGen
  | .addr4 address => .inl (.v4 address)
  | .addr6 address => .inl (.v6 address)
  | .range4 range => .inr (.v4 range)
  | .range6 range => .inr (.v6 range)
  | .addrGen address => .inl address
  | .rangeGen range => .inr range

def lessGen : IpAddrGen ⊕ IpRangeGen → IpAddrGen ⊕ IpRangeGen → Bool
  | .inl left, .inl right => lessAddrGenAddrGen left right
  | .inr left, .inl right => lessRangeGenAddrGen left right
  | .inl left, .inr right => lessAddrGenRangeGen left right
  | .inr left, .inr right => lessRangeGenRangeGen left right

/-- `ip_range_less::operator()`, by the overload that is chosen for the two types: a
template for two plain values, and else one of those for the variants. -/
def ipRangeLess : IpValue → IpValue → Bool
  | .addr4 left, .addr4 right => lessAddrAddr left right
  | .addr4 left, .addr6 right => lessAddrAddr left right
  | .addr6 left, .addr4 right => lessAddrAddr left right
  | .addr6 left, .addr6 right => lessAddrAddr left right
  | .range4 left, .addr4 right => lessRangeAddr left right
  | .range4 left, .addr6 right => lessRangeAddr left right
  | .range6 left, .addr4 right => lessRangeAddr left right
  | .range6 left, .addr6 right => lessRangeAddr left right
  | .addr4 left, .range4 right => lessAddrRange left right
  | .addr4 left, .range6 right => lessAddrRange left right
  | .addr6 left, .range4 right => lessAddrRange left right
  | .addr6 left, .range6 right => lessAddrRange left right
  | .range4 left, .range4 right => lessRangeRange left right
  | .range4 left, .range6 right => lessRangeRange left right
  | .range6 left, .range4 right => lessRangeRange left right
  | .range6 left, .range6 right => lessRangeRange left right
  | left, right => lessGen left.toGen right.toGen

/-! ## The key of the order -/

/-- The address that a range starts from. -/
def rangeBase : IpRangeGen → IpAddrGen
  | .v4 range => .v4 range.ip
  | .v6 range => .v6 range.ip

/-- The address of a value, or its base address. -/
def IpValue.base : IpValue → IpAddrGen
  | .addr4 address => .v4 address
  | .addr6 address => .v6 address
  | .range4 range => .v4 range.ip
  | .range6 range => .v6 range.ip
  | .addrGen address => address
  | .rangeGen range => rangeBase range

/-- Sizes are compared first, and then the bytes one after the other. -/
def sizedKey {size : ℕ} (address : IpAddrBase size) : ℕ ×ₗ List ℕ :=
  toLex (size, (List.ofFn address).map UInt8.toNat)

def addrKey : IpAddrGen → ℕ ×ₗ List ℕ
  | .v4 address => sizedKey address
  | .v6 address => sizedKey address

theorem lexLess_iff (left right : List Byte) :
    lexLess left right = true ↔ left.map UInt8.toNat < right.map UInt8.toNat := by
  induction left generalizing right with
  | nil => cases right <;> simp [lexLess]
  | cons x xs ih =>
      cases right with
      | nil => simp [lexLess]
      | cons y ys =>
          rw [lexLess, List.map_cons, List.map_cons, List.cons_lt_cons_iff,
            ← UInt8.lt_iff_toNat_lt, UInt8.toNat_inj, ← ih]
          by_cases hxy : x < y
          · simp [hxy]
          · by_cases hyx : y < x
            · have hne : x ≠ y := fun heq => hxy (heq ▸ hyx)
              simp [hxy, hyx, hne]
            · have heq : x = y := UInt8.le_antisymm (UInt8.not_lt.1 hyx) (UInt8.not_lt.1 hxy)
              simp [heq]

theorem lessBase_iff {leftSize rightSize : ℕ} (left : IpAddrBase leftSize)
    (right : IpAddrBase rightSize) :
    lessBase left right = true ↔ sizedKey left < sizedKey right := by
  rw [lessBase, sizedKey, sizedKey, Prod.Lex.toLex_lt_toLex, ← lexLess_iff]
  by_cases hless : leftSize < rightSize
  · simp [hless]
  · by_cases hmore : rightSize < leftSize
    · simp [hless, hmore, Nat.ne_of_gt hmore]
    · have heq : leftSize = rightSize := by omega
      simp [heq]

theorem sizedKey_injective {size : ℕ} :
    Function.Injective (sizedKey : IpAddrBase size → ℕ ×ₗ List ℕ) := by
  intro left right heq
  have hbytes : (List.ofFn left).map UInt8.toNat = (List.ofFn right).map UInt8.toNat :=
    congrArg (fun key => (ofLex key).2) heq
  have hinjective : Function.Injective UInt8.toNat := fun _ _ => UInt8.toNat_inj.1
  exact List.ofFn_injective (hinjective.list_map hbytes)

/-- Values with one key have one address. -/
theorem addrKey_injective : Function.Injective addrKey := by
  intro left right heq
  cases left with
  | v4 left =>
      cases right with
      | v4 right => rw [sizedKey_injective heq]
      | v6 right =>
          have hsize : ipv4Size = ipv6Size := congrArg (fun key => (ofLex key).1) heq
          exact absurd hsize (by decide)
  | v6 left =>
      cases right with
      | v4 right =>
          have hsize : ipv6Size = ipv4Size := congrArg (fun key => (ofLex key).1) heq
          exact absurd hsize (by decide)
      | v6 right => rw [sizedKey_injective heq]

theorem lessAddrGenAddrGen_byKey : ByKey lessAddrGenAddrGen addrKey := by
  intro left right
  cases left with
  | v4 left =>
      cases right with
      | v4 right => exact lessBase_iff left right
      | v6 right => exact lessBase_iff left right
  | v6 left =>
      cases right with
      | v4 right => exact lessBase_iff left right
      | v6 right => exact lessBase_iff left right

/-- On ranges the comparison is that of the base addresses. -/
theorem lessRangeGenRangeGen_eq (left right : IpRangeGen) :
    lessRangeGenRangeGen left right =
      lessAddrGenAddrGen (rangeBase left) (rangeBase right) := by
  cases left <;> cases right <;> rfl

theorem lessRangeGenRangeGen_byKey :
    ByKey lessRangeGenRangeGen fun range => addrKey (rangeBase range) := by
  intro left right
  rw [lessRangeGenRangeGen_eq]
  exact lessAddrGenAddrGen_byKey _ _

theorem lessGen_eq (left right : IpValue) :
    lessGen left.toGen right.toGen = lessAddrGenAddrGen left.base right.base := by
  have hrangeAddr : ∀ left right,
      lessRangeGenAddrGen left right = lessAddrGenAddrGen (rangeBase left) right := by
    intro left right
    cases left <;> cases right <;> rfl
  have haddrRange : ∀ left right,
      lessAddrGenRangeGen left right = lessAddrGenAddrGen left (rangeBase right) := by
    intro left right
    cases left <;> cases right <;> rfl
  cases left <;> cases right <;>
    simp only [IpValue.toGen, lessGen, IpValue.base, hrangeAddr, haddrRange,
      lessRangeGenRangeGen_eq, rangeBase]

/-- Every overload compares the addresses. -/
theorem ipRangeLess_eq (left right : IpValue) :
    ipRangeLess left right = lessAddrGenAddrGen left.base right.base := by
  rw [← lessGen_eq]
  cases left <;> cases right <;> rfl

theorem ipRangeLess_byKey : ByKey ipRangeLess fun value => addrKey value.base := by
  intro left right
  rw [ipRangeLess_eq]
  exact lessAddrGenAddrGen_byKey _ _

/-- The overloads together are one strict weak order.  A sorted sequence is partitioned
by every value, and between the bounds that the searches find are exactly the elements
with its address. -/
theorem ip_range_less_strict_weak :
    StrictWeak ipRangeLess ∧
      ∀ values : List IpValue, Sorted ipRangeLess values → ∀ value : IpValue,
        PartitionedAt (ipRangeLess · value) values (lowerBound ipRangeLess values value) ∧
          PartitionedAt (!ipRangeLess value ·) values (upperBound ipRangeLess values value) ∧
          ∀ i found, values[i]? = some found →
            (lowerBound ipRangeLess values value ≤ i ∧
              i < upperBound ipRangeLess values value ↔ found.base = value.base) := by
  refine ⟨ipRangeLess_byKey.strictWeak, fun values hsorted value => ?_⟩
  obtain ⟨hlower, hupper⟩ := hsorted.partitioned ipRangeLess_byKey value
  refine ⟨hlower, hupper, fun i found hfound => ?_⟩
  rw [hsorted.between_bounds_iff ipRangeLess_byKey value hfound]
  exact addrKey_injective.eq_iff

/-- The base address 10.0.0.0 is found twice, behind 9.0.0.0 and before the range of the
other family. -/
example :
    let values := [IpValue.range4 ⟨![9, 0, 0, 0], ![255, 0, 0, 0]⟩,
      .rangeGen (.v4 ⟨![10, 0, 0, 0], ![255, 255, 0, 0]⟩),
      .range4 ⟨![10, 0, 0, 0], ![255, 0, 0, 0]⟩, .range6 ⟨fun _ => 0, fun _ => 0⟩]
    lowerBound ipRangeLess values (.addr4 ![10, 0, 0, 0]) = 1 ∧
      upperBound ipRangeLess values (.addr4 ![10, 0, 0, 0]) = 3 := by
  decide

/-! ## Containers of ranges -/

/-- Whether the container that `ranges` were inserted into matches the addresses that
`ranges` match. -/
def LosesNothing (ranges : List IpRangeGen) : Prop :=
  ∀ address, contains (insertAll lessRangeGenRangeGen ranges) address =
    contains ranges address

/-- A container loses nothing exactly if every address that some range matches is
matched by a range that was the first one inserted for its base address. -/
theorem losesNothing_iff (ranges : List IpRangeGen) :
    LosesNothing ranges ↔
      ∀ address, ∀ range ∈ ranges, Matches range address →
        ∃ before first after, ranges = before ++ first :: after ∧
          (∀ other ∈ before, rangeBase other ≠ rangeBase first) ∧ Matches first address := by
  have hkept : ∀ range, range ∈ insertAll lessRangeGenRangeGen ranges ↔
      ∃ before after, ranges = before ++ range :: after ∧
        ∀ other ∈ before, rangeBase other ≠ rangeBase range := by
    intro range
    rw [mem_insertAll_iff lessRangeGenRangeGen_byKey]
    simp only [addrKey_injective.ne_iff]
  apply forall_congr'
  intro address
  rw [Bool.eq_iff_iff, contains_iff_matches, contains_iff_matches]
  constructor
  · intro heq range hrange hmatches
    obtain ⟨first, hfirst, hmatches⟩ := heq.2 ⟨range, hrange, hmatches⟩
    obtain ⟨before, after, hranges, hnew⟩ := (hkept first).1 hfirst
    exact ⟨before, first, after, hranges, hnew, hmatches⟩
  · intro hcovered
    constructor
    · rintro ⟨range, hrange, hmatches⟩
      obtain ⟨before, after, hranges, _⟩ := (hkept range).1 hrange
      exact ⟨range, hranges ▸ List.mem_append_right _ List.mem_cons_self, hmatches⟩
    · rintro ⟨range, hrange, hmatches⟩
      obtain ⟨before, first, after, hranges, hnew, hmatches⟩ :=
        hcovered range hrange hmatches
      exact ⟨first, (hkept first).2 ⟨before, after, hranges, hnew⟩, hmatches⟩

/-- The /16 of 10.0.0.0 keeps the /8 of 10.0.0.0 out of the container, and with it
10.1.0.0. -/
theorem container_loses_wider_range :
    ∃ ranges, ranges = [IpRangeGen.v4 ⟨![10, 0, 0, 0], ![255, 255, 0, 0]⟩,
        .v4 ⟨![10, 0, 0, 0], ![255, 0, 0, 0]⟩] ∧
      contains ranges (.v4 ![10, 1, 0, 0]) = true ∧
      contains (insertAll lessRangeGenRangeGen ranges) (.v4 ![10, 1, 0, 0]) = false :=
  ⟨_, rfl, by decide, by decide⟩

end Nstl.IpRangeLess
