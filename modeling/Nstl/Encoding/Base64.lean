import Mathlib.Data.List.DropRight
import Nstl.Core.ByteString
import Nstl.Core.Repack

/-!
# Base64

`to_base64` composes two iterator adaptors, one that repacks bytes as numbers of
six bits and one that looks these up in the alphabet, and appends as much padding
as the size asks for.  `from_base64` strips the padding and composes the inverse
adaptors.
-/

namespace Nstl.Base64

open Nstl.BitStream
open Nstl.ByteString
open Nstl.Repack

/-! ## The adaptors -/

inductive Base64Error where
  | invalidCharacter
  deriving DecidableEq, Repr

abbrev Result := Except (Failure Base64Error)

/-- `A` to `Z`, `a` to `z`, `0` to `9`, `+` and `/`. -/
def alphabet : Bytes :=
  (List.range 26).map (fun index => UInt8.ofNat (65 + index)) ++
    (List.range 26).map (fun index => UInt8.ofNat (97 + index)) ++
    (List.range 10).map (fun index => UInt8.ofNat (48 + index)) ++ [43, 47]

/-- The character `=`. -/
def padding : Byte := 61

def base64FromBinary (value : ℕ) : Byte := alphabet.getD value 0

/-- The inverse of the alphabet; padding is read as zero. -/
def binaryFromBase64 (ch : Byte) : Except Base64Error ℤ :=
  if ch = padding then .ok 0
  else
    match alphabet.idxOf? ch with
    | none => .error .invalidCharacter
    | some index => .ok index

/-- A byte as a value of its element type. -/
def charValue (signed : Bool) (byte : Byte) : ℤ :=
  if signed ∧ 128 ≤ byte.toNat then byte.toNat - 256 else byte.toNat

/-- `transform_width<It, 6, 8>`. -/
def sixFromEight : Widths := ⟨6, 8, by decide, by decide, by decide⟩

/-- `transform_width<It, 8, 6>`. -/
def eightFromSix : Widths := ⟨8, 6, by decide, by decide, by decide⟩

def toBase64 (signed : Bool) (data : Bytes) : Result Bytes :=
  if data = [] then .ok []
  else
    (copy sixFromEight (fun byte => .ok (charValue signed byte)) data).map fun values =>
      values.map base64FromBinary ++
        List.replicate ((3 - data.length % 3) % 3) padding

def fromBase64 (text : Bytes) : Result Bytes :=
  if text = [] then .ok []
  else
    (copy eightFromSix binaryFromBase64 (text.rdropWhile (· = padding))).map fun values =>
      values.map UInt8.ofNat

/-! ## The standard -/

/-- The 24 bits that three bytes make up. -/
def quantum (first second third : Byte) : ℕ :=
  first.toNat * 2 ^ 16 + second.toNat * 2 ^ 8 + third.toNat

/-- The character for the six bits at an index of a quantum. -/
def character (value index : ℕ) : Byte :=
  base64FromBinary (value / 2 ^ (18 - 6 * index) % 64)

/-- The encoding: four characters per quantum; a final quantum of one or two bytes
is completed with zero bits and marked by padding. -/
def rfc4648 : Bytes → Bytes
  | [] => []
  | [first] =>
      let value := quantum first 0 0
      [character value 0, character value 1, padding, padding]
  | [first, second] =>
      let value := quantum first second 0
      [character value 0, character value 1, character value 2, padding]
  | first :: second :: third :: rest =>
      let value := quantum first second third
      character value 0 :: character value 1 :: character value 2 :: character value 3 ::
        rfc4648 rest

theorem length_rfc4648 (data : Bytes) :
    (rfc4648 data).length = 4 * ((data.length + 2) / 3) := by
  fun_induction rfc4648 data with
  | case1 => rfl
  | case2 => simp
  | case3 => simp
  | case4 first second third rest value ih =>
      simp only [List.length_cons, ih]
      omega

/-! ## Encoding -/

/-- The bits of a sequence of bytes. -/
def bits (data : Bytes) : List Bool :=
  data.flatMap fun byte => bitsOf 8 byte.toNat

theorem length_bits (data : Bytes) : (bits data).length = 8 * data.length := by
  rw [bits, List.length_flatMap]
  simp [Nat.mul_comm]

/-- The sign of the element type does not matter. -/
theorem bitsOf_charValue (signed : Bool) (byte : Byte) :
    bitsOf 8 (charValue signed byte) = bitsOf 8 byte.toNat := by
  apply bitsOf_congr
  rw [charValue]
  split_ifs
  · omega
  · rfl

/-- The characters without the padding. -/
def body (data : Bytes) : Bytes :=
  (filledGroups 6 (bits data)).map base64FromBinary

theorem toBase64_eq (signed : Bool) (data : Bytes) :
    toBase64 signed data =
      .ok (body data ++ List.replicate ((3 - data.length % 3) % 3) padding) := by
  rw [toBase64]
  by_cases hempty : data = []
  · subst hempty
    simp [body, bits]
  · have hcopy : copy sixFromEight
        (fun byte => (.ok (charValue signed byte) : Except Base64Error ℤ)) data =
          .ok (filledGroups 6 (data.flatMap fun byte => bitsOf 8 (charValue signed byte))) :=
      copy_filled (fun _ _ => rfl) (by decide)
    rw [if_neg hempty, hcopy]
    simp only [bitsOf_charValue]
    rfl

/-- The six bits at an index of a quantum are a group. -/
theorem base64FromBinary_group (value index : ℕ) :
    base64FromBinary (ofBits (bitsOf 6 (value / 2 ^ (18 - 6 * index) : ℤ))) =
      character value index := by
  rw [ofBits_bitsOf_div]
  rfl

/-- The four groups of a quantum. -/
theorem filledGroups_quantum (value : ℕ) (rest : List Bool) :
    (filledGroups 6 (bitsOf 24 value ++ rest)).map base64FromBinary =
      character value 0 :: character value 1 :: character value 2 :: character value 3 ::
        (filledGroups 6 rest).map base64FromBinary := by
  have hsplit : bitsOf 24 (value : ℤ) = bitsOf 6 (value / 2 ^ 18) ++
      (bitsOf 6 (value / 2 ^ 12) ++ (bitsOf 6 (value / 2 ^ 6) ++ bitsOf 6 (value / 2 ^ 0))) := by
    rw [bitsOf_add 6 18, bitsOf_add 6 12, bitsOf_add 6 6, pow_zero, Int.ediv_one]
  have hgroup : ∀ (number : ℤ) (more : List Bool),
      filledGroups 6 (bitsOf 6 number ++ more) =
        ofBits (bitsOf 6 number) :: filledGroups 6 more :=
    fun number more => filledGroups_append (by decide) (length_bitsOf 6 number) more
  rw [hsplit]
  simp only [List.append_assoc, hgroup, List.map_cons, ← base64FromBinary_group]

theorem bitsOf_bytes (first second third : Byte) :
    bitsOf 24 (quantum first second third) =
      bitsOf 8 first.toNat ++ (bitsOf 8 second.toNat ++ bitsOf 8 third.toNat) := by
  have hfirst := first.toNat_lt
  have hsecond := second.toNat_lt
  have hthird := third.toNat_lt
  rw [bitsOf_add 8 16, bitsOf_add 8 8]
  congr 1
  · apply bitsOf_congr
    rw [quantum]
    push_cast
    omega
  · congr 1 <;>
    · apply bitsOf_congr
      rw [quantum]
      push_cast
      omega

theorem bits_cons (byte : Byte) (rest : Bytes) :
    bits (byte :: rest) = bitsOf 8 byte.toNat ++ bits rest :=
  List.flatMap_cons

/-- The last group of an incomplete quantum is filled with zeros. -/
theorem filledGroups_last {value : ℤ} {width : ℕ} (hpos : 0 < width) (hwidth : width ≤ 6) :
    filledGroups 6 (bitsOf width value) = [ofBits (bitsOf width value) * 2 ^ (6 - width)] := by
  have hne : bitsOf width value ≠ [] := by
    apply List.ne_nil_of_length_pos
    rwa [length_bitsOf]
  have hlength : (bitsOf width value).length ≤ 6 := by
    rwa [length_bitsOf]
  rw [filledGroups_of_ne_nil (by decide) hne, padded_of_ge hlength, ofBits_append,
    ofBits_replicate_false, List.drop_of_length_le hlength, filledGroups_nil, length_bitsOf,
    List.length_replicate, Nat.add_zero]

theorem filledGroups_one (first : Byte) :
    (filledGroups 6 (bitsOf 8 first.toNat)).map base64FromBinary =
      [character (quantum first 0 0) 0, character (quantum first 0 0) 1] := by
  have hlt := first.toNat_lt
  rw [bitsOf_add 6 2, filledGroups_append (by decide) (length_bitsOf 6 _),
    filledGroups_last (by decide) (by decide), ofBits_bitsOf_div, ofBits_bitsOf_natCast,
    List.map_cons, List.map_singleton, character, character, quantum]
  simp only [UInt8.toNat_zero, List.cons.injEq, and_true]
  refine ⟨congrArg _ ?_, congrArg _ ?_⟩ <;> omega

theorem filledGroups_two (first second : Byte) :
    (filledGroups 6 (bitsOf 8 first.toNat ++ bitsOf 8 second.toNat)).map base64FromBinary =
      [character (quantum first second 0) 0, character (quantum first second 0) 1,
        character (quantum first second 0) 2] := by
  have hfirst := first.toNat_lt
  have hsecond := second.toNat_lt
  obtain ⟨value, hvalue⟩ : ∃ value, value = first.toNat * 2 ^ 8 + second.toNat := ⟨_, rfl⟩
  have hjoin : bitsOf 8 (first.toNat : ℤ) ++ bitsOf 8 (second.toNat : ℤ) =
      bitsOf 16 (value : ℤ) := by
    rw [bitsOf_add 8 8, hvalue]
    congr 1 <;>
    · apply bitsOf_congr
      push_cast
      omega
  rw [hjoin, bitsOf_add 6 10, bitsOf_add 6 4,
    filledGroups_append (by decide) (length_bitsOf 6 _),
    filledGroups_append (by decide) (length_bitsOf 6 _),
    filledGroups_last (by decide) (by decide), ofBits_bitsOf_div, ofBits_bitsOf_div,
    ofBits_bitsOf_natCast, List.map_cons, List.map_cons, List.map_singleton, character,
    character, character, quantum]
  simp only [UInt8.toNat_zero, List.cons.injEq, and_true]
  refine ⟨congrArg _ ?_, congrArg _ ?_, congrArg _ ?_⟩ <;> omega

theorem body_eq (data : Bytes) :
    body data ++ List.replicate ((3 - data.length % 3) % 3) padding = rfc4648 data := by
  fun_induction rfc4648 data with
  | case1 => simp [body, bits]
  | case2 first value =>
      rw [body, bits_cons, bits, List.flatMap_nil, List.append_nil, filledGroups_one]
      rfl
  | case3 first second value =>
      rw [body, bits_cons, bits_cons, bits, List.flatMap_nil, List.append_nil,
        filledGroups_two]
      rfl
  | case4 first second third rest value ih =>
      have hcount : (first :: second :: third :: rest).length % 3 = rest.length % 3 := by
        simp only [List.length_cons]
        omega
      have hbits : bits (first :: second :: third :: rest) =
          bitsOf 24 (quantum first second third) ++ bits rest := by
        simp only [bits_cons, bitsOf_bytes, List.append_assoc]
      rw [body, hbits, filledGroups_quantum, hcount, ← ih]
      rfl

/-! ## Decoding -/

/-- The alphabet and its inverse. -/
theorem binaryFromBase64_base64FromBinary {value : ℕ} (hvalue : value < 64) :
    binaryFromBase64 (base64FromBinary value) = .ok (value : ℤ) ∧
      base64FromBinary value ≠ padding := by
  have htable : ∀ value : Fin 64,
      binaryFromBase64 (base64FromBinary value) = .ok (value.val : ℤ) ∧
        base64FromBinary value ≠ padding := by
    decide
  exact htable ⟨value, hvalue⟩

theorem padding_not_mem_body (data : Bytes) : padding ∉ body data := by
  intro hmem
  obtain ⟨value, hvalue, heq⟩ := List.mem_map.1 hmem
  exact (binaryFromBase64_base64FromBinary (lt_of_mem_filledGroups hvalue)).2 heq

/-- Stripping the padding leaves the characters in front of it. -/
theorem rdropWhile_padding {chars : Bytes} (hchars : padding ∉ chars) (count : ℕ) :
    (chars ++ List.replicate count padding).rdropWhile (· = padding) = chars := by
  induction count with
  | zero =>
      rw [List.replicate_zero, List.append_nil, List.rdropWhile_eq_self_iff]
      intro hne hlast
      have hmem := List.getLast_mem hne
      rw [of_decide_eq_true hlast] at hmem
      exact hchars hmem
  | succ count ih =>
      rw [List.replicate_succ', ← List.append_assoc,
        List.rdropWhile_concat_pos _ _ _ (by simp), ih]

/-- The bytes come back from their bits, whatever few bits follow. -/
theorem groups_bits (data : Bytes) {rest : List Bool} (hrest : rest.length < 8) :
    groups 8 (bits data ++ rest) = data.map UInt8.toNat := by
  induction data with
  | nil => exact groups_of_lt hrest
  | cons byte data ih =>
      have hbyte : ofBits (bitsOf 8 (byte.toNat : ℤ)) = byte.toNat := by
        rw [ofBits_bitsOf_natCast, Nat.mod_eq_of_lt byte.toNat_lt]
      rw [bits_cons, List.append_assoc, groups_append (by decide) (length_bitsOf 8 _), ih,
        hbyte, List.map_cons]

/-- The number that a character stands for. -/
def charIndex (ch : Byte) : ℤ :=
  match binaryFromBase64 ch with
  | .ok value => value
  | .error _ => 0

theorem flatMap_body (data : Bytes) :
    (body data).flatMap (fun ch => bitsOf 6 (charIndex ch)) =
      (filledGroups 6 (bits data)).flatMap fun value : ℕ => bitsOf 6 value := by
  rw [body, List.flatMap_map]
  apply List.flatMap_congr
  intro value hvalue
  rw [charIndex, (binaryFromBase64_base64FromBinary (lt_of_mem_filledGroups hvalue)).1]

/-- The body decodes to the data. -/
theorem copy_body (data : Bytes) :
    copy eightFromSix binaryFromBase64 (body data) = .ok (data.map UInt8.toNat) := by
  have hderef : ∀ ch ∈ body data, binaryFromBase64 ch = .ok (charIndex ch) := by
    intro ch hch
    obtain ⟨value, hvalue, rfl⟩ := List.mem_map.1 hch
    rw [charIndex, (binaryFromBase64_base64FromBinary (lt_of_mem_filledGroups hvalue)).1]
  obtain ⟨zeros, hzeros, hmod, hbits⟩ := flatMap_filledGroups (by decide : 0 < 6) (bits data)
  rw [← flatMap_body] at hbits
  have hlength : (body data).length * 6 = 8 * data.length + zeros := by
    have hcount := congrArg List.length hbits
    rw [List.length_flatMap, List.length_append, length_bits, List.length_replicate] at hcount
    simpa using hcount
  have hcopy : copy eightFromSix binaryFromBase64 (body data) =
      .ok (groups 8 ((body data).flatMap fun ch => bitsOf 6 (charIndex ch))) := by
    apply copy_complete hderef (by decide)
    change (body data).length * 6 % 8 < 6
    omega
  rw [hcopy, hbits, groups_bits data (by rw [List.length_replicate]; omega)]

theorem fromBase64_rfc4648 (data : Bytes) : fromBase64 (rfc4648 data) = .ok data := by
  have hlength := length_rfc4648 data
  rw [fromBase64]
  by_cases hempty : rfc4648 data = []
  · have hnil : data = [] := by
      rw [hempty, List.length_nil] at hlength
      exact List.length_eq_zero_iff.1 (by omega)
    rw [if_pos hempty, hnil]
  · have hbytes : UInt8.ofNat ∘ UInt8.toNat = id := by
      funext byte
      exact UInt8.ofNat_toNat
    rw [if_neg hempty, ← body_eq, rdropWhile_padding (padding_not_mem_body data), copy_body]
    simp [Except.map, hbytes]

/-- Encoding follows the standard, for signed and unsigned elements; the result
has the length and the padding the standard asks for, and decodes to the data. -/
theorem base64_roundTrip (signed : Bool) (data : Bytes) :
    toBase64 signed data = .ok (rfc4648 data) ∧
      (rfc4648 data).length = 4 * ((data.length + 2) / 3) ∧
      (∃ chars count, rfc4648 data = chars ++ List.replicate count padding ∧
        padding ∉ chars ∧ count ≤ 2) ∧
      fromBase64 (rfc4648 data) = .ok data := by
  refine ⟨?_, length_rfc4648 data, ?_, fromBase64_rfc4648 data⟩
  · rw [toBase64_eq, body_eq]
  · exact ⟨body data, _, (body_eq data).symm, padding_not_mem_body data, by omega⟩

end Nstl.Base64
