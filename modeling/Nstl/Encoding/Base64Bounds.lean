import Nstl.Encoding.Base64

/-!
# Decoding and the end of the text

The end of the text is only looked at between two bytes.  Whether decoding keeps in
front of it depends on what is left for the last byte: one single character is not
enough for a byte, and makes the adaptor read at the end.
-/

namespace Nstl.Base64Bounds

open Nstl.Base64
open Nstl.BitStream
open Nstl.ByteString
open Nstl.Repack

/-- A character of the alphabet is no padding and stands for a number. -/
theorem binaryFromBase64_of_mem {ch : Byte} (hch : ch ∈ alphabet) :
    binaryFromBase64 ch = .ok (charIndex ch) := by
  rw [charIndex]
  cases hvalue : binaryFromBase64 ch with
  | ok value => rfl
  | error error =>
      rw [binaryFromBase64] at hvalue
      split_ifs at hvalue
      obtain ⟨index, hindex⟩ : ∃ index, alphabet.idxOf? ch = some index := by
        cases hindex : alphabet.idxOf? ch with
        | none => exact absurd hch (List.idxOf?_eq_none_iff.1 hindex)
        | some index => exact ⟨index, rfl⟩
      simp [hindex] at hvalue

theorem padding_not_mem {chars : Bytes} (hchars : ∀ ch ∈ chars, ch ∈ alphabet) :
    padding ∉ chars := by
  intro hmem
  exact absurd (hchars padding hmem) (by decide)

theorem mem_alphabet_of_all {chars : Bytes}
    (hall : chars.all (fun ch => alphabet.contains ch) = true) : ∀ ch ∈ chars, ch ∈ alphabet := by
  simpa using hall

section Decode

variable {chars : Bytes} (hchars : ∀ ch ∈ chars, ch ∈ alphabet) (count : ℕ)

include hchars

/-- Stripping the padding leaves the decoder with the characters. -/
theorem fromBase64_append_padding :
    fromBase64 (chars ++ List.replicate count padding) =
      (copy eightFromSix binaryFromBase64 chars).map fun values => values.map UInt8.ofNat := by
  rw [fromBase64]
  by_cases hempty : chars ++ List.replicate count padding = []
  · rw [if_pos hempty, (List.append_eq_nil_iff.1 hempty).1]
    rfl
  · rw [if_neg hempty, rdropWhile_padding (padding_not_mem hchars)]

theorem copy_of_ne_one (hlength : chars.length % 4 ≠ 1) :
    copy eightFromSix binaryFromBase64 chars =
      .ok (groups 8 (chars.flatMap fun ch => bitsOf 6 (charIndex ch))) := by
  apply copy_complete (fun ch hch => binaryFromBase64_of_mem (hchars ch hch)) (by decide)
  change chars.length * 6 % 8 < 6
  omega

theorem copy_of_one (hlength : chars.length % 4 = 1) :
    copy eightFromSix binaryFromBase64 chars = .error .pastEnd := by
  apply copy_pastEnd (fun ch hch => binaryFromBase64_of_mem (hchars ch hch)) (by decide)
  change 6 ≤ chars.length * 6 % 8
  omega

/-- Characters of the alphabet in front of any amount of padding are decoded without a
read at the end of the characters, to the bytes that their bits make up, exactly if
their number is not one more than a multiple of four; otherwise the decoder reads at
the end. -/
theorem fromBase64_inside_iff :
    ((∃ data, fromBase64 (chars ++ List.replicate count padding) = .ok data ∧
        data.length = 6 * chars.length / 8) ↔ chars.length % 4 ≠ 1) ∧
      (chars.length % 4 = 1 →
        fromBase64 (chars ++ List.replicate count padding) = .error .pastEnd) := by
  rw [fromBase64_append_padding hchars]
  have hpast : chars.length % 4 = 1 →
      (copy eightFromSix binaryFromBase64 chars).map (fun values => values.map UInt8.ofNat) =
        .error .pastEnd := by
    intro hlength
    rw [copy_of_one hchars hlength]
    rfl
  refine ⟨⟨?_, ?_⟩, hpast⟩
  · intro hdata hlength
    obtain ⟨data, hdata, _⟩ := hdata
    rw [hpast hlength] at hdata
    cases hdata
  · intro hlength
    rw [copy_of_ne_one hchars hlength]
    refine ⟨_, rfl, ?_⟩
    rw [List.length_map, length_groups (by decide), List.length_flatMap]
    simp [Nat.mul_comm]

end Decode

/-- The text `TWE=` has three characters and is decoded to two bytes. -/
theorem fromBase64_inside_example :
    ∃ data, fromBase64 [84, 87, 69, 61] = .ok data ∧ data.length = 2 :=
  (fromBase64_inside_iff (mem_alphabet_of_all (show [84, 87, 69].all _ = true by decide)) 1).1.2
    (by decide)

/-- The text `TWFuT===` has five characters; the decoder reads at the end of these
instead of writing three bytes. -/
theorem fromBase64_reads_at_end :
    (∀ ch ∈ ([84, 87, 70, 117, 84] : Bytes), ch ∈ alphabet) ∧
      fromBase64 [84, 87, 70, 117, 84, 61, 61, 61] = .error .pastEnd ∧
      ¬∃ data, fromBase64 [84, 87, 70, 117, 84, 61, 61, 61] = .ok data ∧ data.length = 3 := by
  have hpast : fromBase64 [84, 87, 70, 117, 84, 61, 61, 61] = .error .pastEnd := by decide
  refine ⟨mem_alphabet_of_all (by decide), hpast, ?_⟩
  intro hdata
  obtain ⟨data, hdata, _⟩ := hdata
  rw [hpast] at hdata
  cases hdata

end Nstl.Base64Bounds
