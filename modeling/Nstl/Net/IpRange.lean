import Mathlib.Data.Fin.VecNotation
import Mathlib.Data.Fintype.Basic
import Nstl.Core.ByteMask

/-!
# Addresses, masks and ranges

An address of either family is an array of bytes, and a range is an address with a
mask.  The masks come from a prefix length or are given byte by byte.  The templates
of `ip_tools.hpp` are definitions over every size.
-/

namespace Nstl.IpRange

open Nstl.ByteMask
open Nstl.ByteString

/-- The constant of this name: the number of bits in a byte. -/
def bytesInBits : ℕ := 8

abbrev IpAddrBase (size : ℕ) := Fin size → Byte

def andArrays {size : ℕ} (left right : IpAddrBase size) : IpAddrBase size :=
  fun i => left i &&& right i

inductive IpError where
  | maskInvalid (mask : UInt8)
  deriving DecidableEq, Repr

/-- The loop of `create_mask` over the bytes that are left, which were set to zero
before. -/
def maskBytes : ℕ → UInt8 → List Byte
  | 0, _ => []
  | size + 1, mask =>
      if 0 < mask then
        let bits : UInt8 := if 8 ≤ mask then 8 else mask
        leading bits.toNat :: maskBytes size (mask - bits)
      else List.replicate (size + 1) 0

def createMask (size : ℕ) (mask : UInt8) : Except IpError (IpAddrBase size) :=
  if size * bytesInBits < mask.toNat then .error (.maskInvalid mask)
  else .ok fun i => (maskBytes size mask).getD i 0

structure IpRangeBase (size : ℕ) where
  ip : IpAddrBase size
  mask : IpAddrBase size
  deriving DecidableEq

namespace IpRangeBase

variable {size : ℕ}

/-- The constructor from a prefix length. -/
def ofPrefix (ip : IpAddrBase size) (mask : UInt8) : Except IpError (IpRangeBase size) :=
  match createMask size mask with
  | .ok mask => .ok ⟨ip, mask⟩
  | .error failure => .error failure

/-- `memcmp` on the two masked arrays. -/
def contains (range : IpRangeBase size) (ip : IpAddrBase size) : Bool :=
  decide (andArrays range.mask ip = andArrays range.mask range.ip)

end IpRangeBase

def ipv4Size : ℕ := 4
def ipv6Size : ℕ := 16

abbrev Ipv4Addr := IpAddrBase ipv4Size
abbrev Ipv6Addr := IpAddrBase ipv6Size
abbrev Ipv4Range := IpRangeBase ipv4Size
abbrev Ipv6Range := IpRangeBase ipv6Size

inductive IpAddrGen where
  | v4 (address : Ipv4Addr)
  | v6 (address : Ipv6Addr)
  deriving DecidableEq

inductive IpRangeGen where
  | v4 (range : Ipv4Range)
  | v6 (range : Ipv6Range)
  deriving DecidableEq

/-- One call of `address_checker`: a range of another size does not match. -/
def checkRange {size rangeSize : ℕ} (address : IpAddrBase size)
    (range : IpRangeBase rangeSize) : Bool :=
  if hsize : rangeSize = size then range.contains (fun i => address (i.cast hsize))
  else false

/-- `std::visit` of an `address_checker`. -/
def addressChecker {size : ℕ} (address : IpAddrBase size) : IpRangeGen → Bool
  | .v4 range => checkRange address range
  | .v6 range => checkRange address range

/-- `contains_t`. -/
def containsT {size : ℕ} (ranges : List IpRangeGen) (address : IpAddrBase size) : Bool :=
  (ranges.find? (addressChecker address)).isSome

/-- `contains` of ranges of both families. -/
def contains (ranges : List IpRangeGen) : IpAddrGen → Bool
  | .v4 address => containsT ranges address
  | .v6 address => containsT ranges address

/-! ## Membership by bits -/

section Bits

variable {size : ℕ}

/-- The bits of an address, most significant first and byte by byte. -/
def bit (address : IpAddrBase size) (i : ℕ) : Bool :=
  if hbyte : i / 8 < size then bitAt (address ⟨i / 8, hbyte⟩) (i % 8) else false

theorem bit_of_byte (address : IpAddrBase size) (byte : Fin size) {position : ℕ}
    (hposition : position < 8) :
    bit address (8 * byte + position) = bitAt (address byte) position := by
  have hdiv : (8 * byte.val + position) / 8 = byte := by omega
  have hmod : (8 * byte.val + position) % 8 = position := by omega
  have hbyte : (8 * byte.val + position) / 8 < size := by rw [hdiv]; exact byte.isLt
  rw [bit, dif_pos hbyte, hmod]
  congr 2
  exact Fin.ext hdiv

/-- A statement about all bits is one about the bits of each byte. -/
theorem forall_bits_iff (holds : ℕ → Prop) :
    (∀ i < 8 * size, holds i) ↔
      ∀ byte : Fin size, ∀ position < 8, holds (8 * byte + position) := by
  constructor
  · intro hall byte position hposition
    exact hall _ (by omega)
  · intro hall i hi
    have hbyte : i / 8 < size := by omega
    have hi' := hall ⟨i / 8, hbyte⟩ (i % 8) (Nat.mod_lt i (by decide))
    rwa [Nat.div_add_mod] at hi'

theorem contains_iff_bits (range : IpRangeBase size) (address : IpAddrBase size) :
    range.contains address = true ↔
      ∀ i < 8 * size, bit range.mask i = true → bit address i = bit range.ip i := by
  calc range.contains address = true
      ↔ ∀ byte, range.mask byte &&& address byte = range.mask byte &&& range.ip byte := by
        rw [IpRangeBase.contains, decide_eq_true_iff, funext_iff]
        rfl
    _ ↔ ∀ byte : Fin size, ∀ position < 8,
          bit range.mask (8 * byte + position) = true →
            bit address (8 * byte + position) = bit range.ip (8 * byte + position) := by
        apply forall_congr'
        intro byte
        rw [mask_and_eq_iff]
        apply forall₂_congr
        intro position hposition
        simp only [bit_of_byte _ byte hposition]
    _ ↔ ∀ i < 8 * size, bit range.mask i = true → bit address i = bit range.ip i :=
        (forall_bits_iff fun i => bit range.mask i = true → bit address i = bit range.ip i).symm

/-- One step of the loop of `create_mask` takes up to eight bits. -/
theorem maskBytes_succ (size : ℕ) {mask : UInt8} (hmask : 0 < mask) :
    ∃ bits : UInt8, bits.toNat = min 8 mask.toNat ∧
      (mask - bits).toNat = mask.toNat - bits.toNat ∧
      maskBytes (size + 1) mask = leading bits.toNat :: maskBytes size (mask - bits) := by
  refine ⟨if 8 ≤ mask then 8 else mask, ?_, ?_, ?_⟩
  · by_cases hfull : 8 ≤ mask
    · rw [if_pos hfull]
      exact (Nat.min_eq_left (UInt8.le_iff_toNat_le.1 hfull)).symm
    · rw [if_neg hfull]
      have hless : mask.toNat < 8 := UInt8.lt_iff_toNat_lt.1 (UInt8.not_le.1 hfull)
      exact (Nat.min_eq_right (Nat.le_of_lt hless)).symm
  · apply UInt8.toNat_sub_of_le
    by_cases hfull : 8 ≤ mask
    · rw [if_pos hfull]
      exact hfull
    · rw [if_neg hfull]
      exact UInt8.le_refl _
  · rw [maskBytes, if_pos hmask]

/-- Bit `8 * byte + position` of a mask is set if it is one of the first `mask`. -/
theorem bitAt_maskBytes (size : ℕ) (mask : UInt8) {byte position : ℕ} (hbyte : byte < size)
    (hposition : position < 8) :
    bitAt ((maskBytes size mask).getD byte 0) position =
      decide (8 * byte + position < mask.toNat) := by
  induction size generalizing mask byte with
  | zero => exact absurd hbyte (Nat.not_lt_zero _)
  | succ size ih =>
      by_cases hmask : 0 < mask
      · obtain ⟨bits, hbits, hrest, hbytes⟩ := maskBytes_succ size hmask
        rw [hbytes]
        cases byte with
        | zero =>
            rw [List.getD_cons_zero, bitAt_leading (by omega) hposition]
            apply decide_eq_decide.2
            omega
        | succ byte =>
            rw [List.getD_cons_succ, ih (mask - bits) (Nat.lt_of_succ_lt_succ hbyte)]
            apply decide_eq_decide.2
            omega
      · -- The loop is over: the other bytes keep the zero of the beginning.
        have hzero : mask.toNat = 0 := by
          have hle := UInt8.le_iff_toNat_le.1 (UInt8.not_lt.1 hmask)
          exact Nat.le_zero.1 hle
        rw [maskBytes, if_neg hmask, hzero]
        simp [hbyte, bitAt]

theorem bit_createMask {mask : UInt8} {bytes : IpAddrBase size}
    (hcreate : createMask size mask = .ok bytes) {i : ℕ} (hi : i < 8 * size) :
    bit bytes i = decide (i < mask.toNat) := by
  have hbyte : i / 8 < size := by omega
  rw [createMask] at hcreate
  split at hcreate
  · exact nomatch hcreate
  · obtain rfl := Except.ok.inj hcreate
    rw [bit, dif_pos hbyte, bitAt_maskBytes size mask hbyte (Nat.mod_lt i (by decide)),
      Nat.div_add_mod]

/-- The prefix lengths up to the number of bits are accepted, and the others not. -/
theorem createMask_ok_iff (mask : UInt8) :
    (∃ bytes, createMask size mask = .ok bytes) ↔ mask.toNat ≤ 8 * size := by
  have hbits : size * bytesInBits = 8 * size := Nat.mul_comm ..
  rw [createMask, hbits]
  by_cases hinvalid : 8 * size < mask.toNat
  · simp [hinvalid]
  · simp [hinvalid, Nat.le_of_not_lt hinvalid]

theorem contains_ofPrefix_iff {ip : IpAddrBase size} {mask : UInt8}
    {range : IpRangeBase size} (hrange : IpRangeBase.ofPrefix ip mask = .ok range)
    (address : IpAddrBase size) :
    range.contains address = true ↔ ∀ i < mask.toNat, bit address i = bit ip i := by
  unfold IpRangeBase.ofPrefix at hrange
  cases hcreate : createMask size mask with
  | error failure => rw [hcreate] at hrange; exact nomatch hrange
  | ok bytes =>
      rw [hcreate] at hrange
      obtain rfl := Except.ok.inj hrange
      have hlength := (createMask_ok_iff mask).1 ⟨bytes, hcreate⟩
      rw [contains_iff_bits]
      constructor
      · intro hall i hi
        apply hall i (Nat.lt_of_lt_of_le hi hlength)
        simp [bit_createMask hcreate (Nat.lt_of_lt_of_le hi hlength), hi]
      · intro hall i hi hset
        rw [bit_createMask hcreate hi, decide_eq_true_iff] at hset
        exact hall i hset

end Bits

/-- A range matches an address of its own family if they agree on every bit that is
set in the mask. -/
def Matches : IpRangeGen → IpAddrGen → Prop
  | .v4 range, .v4 address =>
      ∀ i < 8 * ipv4Size, bit range.mask i = true → bit address i = bit range.ip i
  | .v6 range, .v6 address =>
      ∀ i < 8 * ipv6Size, bit range.mask i = true → bit address i = bit range.ip i
  | _, _ => False

theorem checkRange_self {size : ℕ} (address : IpAddrBase size) (range : IpRangeBase size) :
    checkRange address range = range.contains address :=
  dif_pos rfl

theorem addressChecker_v4_iff (address : Ipv4Addr) (range : IpRangeGen) :
    addressChecker address range = true ↔ Matches range (.v4 address) := by
  cases range with
  | v4 range => rw [addressChecker, checkRange_self, contains_iff_bits]; rfl
  | v6 range => exact ⟨nofun, nofun⟩

theorem addressChecker_v6_iff (address : Ipv6Addr) (range : IpRangeGen) :
    addressChecker address range = true ↔ Matches range (.v6 address) := by
  cases range with
  | v4 range => exact ⟨nofun, nofun⟩
  | v6 range => rw [addressChecker, checkRange_self, contains_iff_bits]; rfl

theorem contains_iff_matches (ranges : List IpRangeGen) (address : IpAddrGen) :
    contains ranges address = true ↔ ∃ range ∈ ranges, Matches range address := by
  cases address with
  | v4 address =>
      rw [contains, containsT, List.find?_isSome]
      simp only [addressChecker_v4_iff]
  | v6 address =>
      rw [contains, containsT, List.find?_isSome]
      simp only [addressChecker_v6_iff]

/-- Membership by bits: for a prefix length, for any mask, and for a list of ranges of
both families. -/
theorem cidr_membership :
    (∀ (size : ℕ) (ip address : IpAddrBase size) (mask : UInt8), mask.toNat ≤ 8 * size →
      ∃ range, IpRangeBase.ofPrefix ip mask = .ok range ∧
        (range.contains address = true ↔ ∀ i < mask.toNat, bit address i = bit ip i)) ∧
    (∀ (size : ℕ) (ip mask address : IpAddrBase size),
      (IpRangeBase.mk ip mask).contains address = true ↔
        ∀ i < 8 * size, bit mask i = true → bit address i = bit ip i) ∧
    ∀ (ranges : List IpRangeGen) (address : IpAddrGen),
      contains ranges address = true ↔ ∃ range ∈ ranges, Matches range address := by
  refine ⟨?_, fun size ip mask address => contains_iff_bits ⟨ip, mask⟩ address,
    contains_iff_matches⟩
  intro size ip address mask hmask
  obtain ⟨bytes, hcreate⟩ := (createMask_ok_iff mask).2 hmask
  have hrange : IpRangeBase.ofPrefix ip mask = .ok ⟨ip, bytes⟩ := by
    rw [IpRangeBase.ofPrefix, hcreate]
  exact ⟨_, hrange, contains_ofPrefix_iff hrange address⟩

/-- The /24 of 10.1.2.0 has 10.1.2.7 and not 10.1.3.7. -/
example : ∃ range, IpRangeBase.ofPrefix (![10, 1, 2, 0] : Ipv4Addr) 24 = .ok range ∧
    range.contains ![10, 1, 2, 7] = true ∧ range.contains ![10, 1, 3, 7] = false :=
  ⟨_, rfl, by decide, by decide⟩

end Nstl.IpRange
