import Mathlib.Data.Nat.Bitwise
import Nstl.Core.ByteString

/-!
# Masks on bytes

The bits of a byte are numbered from the most significant one.  A mask compares two
bytes on the bits that are set in it, and the masks that a shift makes have their
first bits set.
-/

namespace Nstl.ByteMask

open Nstl.ByteString

/-- The bit of a byte at a position, the most significant bit first. -/
def bitAt (byte : Byte) (position : ℕ) : Bool :=
  byte.toNat.testBit (7 - position)

theorem byte_ext {left right : Byte}
    (hbits : ∀ position < 8, bitAt left position = bitAt right position) : left = right := by
  apply UInt8.toNat_inj.1
  apply Nat.eq_of_testBit_eq
  intro index
  by_cases hindex : index < 8
  · have hbit := hbits (7 - index) (by omega)
    rw [bitAt, bitAt, Nat.sub_sub_self (Nat.le_of_lt_succ hindex)] at hbit
    exact hbit
  · have hbyte : ∀ byte : Byte, byte.toNat.testBit index = false := fun byte =>
      Nat.testBit_lt_two_pow (byte.toNat_lt.trans_le
        (Nat.pow_le_pow_right (by decide) (Nat.le_of_not_lt hindex)))
    rw [hbyte, hbyte]

@[simp]
theorem bitAt_and (left right : Byte) (position : ℕ) :
    bitAt (left &&& right) position = (bitAt left position && bitAt right position) := by
  rw [bitAt, UInt8.toNat_and, Nat.testBit_and]
  rfl

/-- Under a mask two bytes are equal exactly if they agree on its bits. -/
theorem mask_and_eq_iff (mask left right : Byte) :
    mask &&& left = mask &&& right ↔
      ∀ position < 8, bitAt mask position = true →
        bitAt left position = bitAt right position := by
  constructor
  · intro heq position _ hmask
    have hbit := congrArg (bitAt · position) heq
    simpa [hmask] using hbit
  · intro hbits
    apply byte_ext
    intro position hposition
    cases hmask : bitAt mask position with
    | false => simp [hmask]
    | true => simp [hmask, hbits position hposition hmask]

/-- The first bits of a byte, made by a shift that is cut off at the width of the
byte. -/
def leading (bits : ℕ) : Byte :=
  UInt8.ofNat (0xFF <<< (8 - bits))

theorem bitAt_leading {bits position : ℕ} (hbits : bits ≤ 8) (hposition : position < 8) :
    bitAt (leading bits) position = decide (position < bits) := by
  have hall : ∀ bits : Fin 9, ∀ position : Fin 8,
      bitAt (leading bits) position = decide (position.val < bits.val) := by
    decide
  exact hall ⟨bits, Nat.lt_succ_of_le hbits⟩ ⟨position, hposition⟩

end Nstl.ByteMask
