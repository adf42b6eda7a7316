import Nstl.Core.Framing
import Nstl.Encoding.Base64
import Nstl.Hash.Agreement

/-!
# The texts of a digest

A digest is written with two hexadecimal digits for each byte, or in Base64.  The type of a digest
is not written: it is told by the number of bytes, which is also the value of the enumerator.
-/

namespace Nstl.Hash

open Function
open Nstl.ByteString

/-- The value of an enumerator. -/
def HashType.value : HashType → ℕ
  | .md5 => 16
  | .sha1 => 20
  | .sha256 => 32
  | .sha512 => 64

/-- `get_hash_type` of a span. -/
def getHashType (hash : Bytes) : Option HashType :=
  if hash.length = HashType.md5.value then some .md5
  else if hash.length = HashType.sha1.value then some .sha1
  else if hash.length = HashType.sha256.value then some .sha256
  else if hash.length = HashType.sha512.value then some .sha512
  else none

/-- "0123456789ABCDEF" -/
def hexDigits : Bytes := [48, 49, 50, 51, 52, 53, 54, 55, 56, 57, 65, 66, 67, 68, 69, 70]

/-- The two digits of a byte. -/
def hexPair (byte : Byte) : Bytes :=
  [hexDigits.getD (byte >>> 4).toNat 0, hexDigits.getD (byte &&& 0x0F).toNat 0]

/-- The loop of `hash_to_hex_visitor`. -/
def hashToHex (hash : HashValue) : Bytes :=
  hash.bytes.foldl (fun retval byte => retval ++ hexPair byte) []

def hashToBase64 (hash : HashValue) : Base64.Result Bytes := Base64.toBase64 false hash.bytes

/-- What `base64_visitor` reserves. -/
def reserved (hash : HashValue) : ℕ := (hash.type.value / 3 + 1) * 4

/-! ## Digits -/

theorem hashToHex_eq (hash : HashValue) : hashToHex hash = hash.bytes.flatMap hexPair := by
  rw [hashToHex, List.foldl_append_eq_append, List.nil_append, List.flatMap_def]

/-- The places of its digits tell a byte. -/
theorem idxOf_hexPair (byte : Byte) :
    16 * hexDigits.idxOf ((hexPair byte).getD 0 0) + hexDigits.idxOf ((hexPair byte).getD 1 0) =
      byte.toNat := by
  have hbytes : ∀ value : Fin 256,
      16 * hexDigits.idxOf ((hexPair (UInt8.ofNat value)).getD 0 0) +
        hexDigits.idxOf ((hexPair (UInt8.ofNat value)).getD 1 0) = value := by decide +kernel
  have hbyte := hbytes ⟨byte.toNat, byte.toNat_lt⟩
  rwa [UInt8.ofNat_toNat] at hbyte

theorem prefixFree_hexPair : Framing.PrefixFree hexPair := by
  refine Framing.prefixFree_of_fixedLength 2 (fun _ => rfl) fun left right heq => ?_
  rw [← UInt8.toNat_inj, ← idxOf_hexPair left, ← idxOf_hexPair right, heq]

/-! ## Digests -/

/-- The variant has as many bytes as its alternative. -/
def HashValue.Sized (hash : HashValue) : Prop := hash.bytes.length = hash.type.value

theorem sized_of_absorbs {State : Type} {hasher : Hasher State}
    {holds : State → HashType → Bytes → Prop} {absorb : Span → Bytes} {digests : Digests}
    (habsorbs : Absorbs hasher holds absorb digests) {type : HashType} {calls : List Call}
    {hash : HashValue} (hhash : hasher.hash type calls = .ok hash) : hash.Sized := by
  rw [habsorbs.hash] at hhash
  obtain rfl := Except.ok.inj hhash
  rw [HashValue.Sized, digests.length_digest]
  cases type <;> rfl

section Texts

variable {hash other : HashValue}

theorem getHashType_of_sized (hsized : hash.Sized) : getHashType hash.bytes = some hash.type := by
  rw [getHashType, hsized]
  cases hash.type <;> rfl

/-- The number of the bytes tells the alternative. -/
theorem eq_of_bytes (hsized : hash.Sized) (hother : other.Sized)
    (hbytes : hash.bytes = other.bytes) : hash = other := by
  have htype : some hash.type = some other.type := by
    rw [← getHashType_of_sized hsized, ← getHashType_of_sized hother, hbytes]
  cases hash
  cases other
  simp_all

theorem hashToHex_inj (hsized : hash.Sized) (hother : other.Sized) :
    hashToHex hash = hashToHex other ↔ hash = other := by
  refine ⟨fun heq => ?_, congrArg hashToHex⟩
  rw [hashToHex_eq, hashToHex_eq] at heq
  have hbytes : hash.bytes = other.bytes :=
    Framing.flatMap_injective prefixFree_hexPair (fun _ => List.cons_ne_nil _ _) heq
  exact eq_of_bytes hsized hother hbytes

/-- The text in Base64 fits what is reserved for it, and gives the digest and its type back. -/
theorem hashToBase64_read (hsized : hash.Sized) :
    ∃ text, hashToBase64 hash = .ok text ∧ text.length ≤ reserved hash ∧
      (Base64.fromBase64 text).map (fun bytes => (getHashType bytes, bytes)) =
        .ok (some hash.type, hash.bytes) := by
  refine ⟨Base64.rfc4648 hash.bytes, ?_, ?_, ?_⟩
  · rw [hashToBase64, Base64.toBase64_eq, Base64.body_eq]
  · rw [Base64.length_rfc4648, hsized, reserved]
    omega
  · rw [Base64.fromBase64_rfc4648, ← getHashType_of_sized hsized]
    rfl

end Texts

/-- One of the backends returns the digest at the end of some calls. -/
def Returned (digests : Digests) (hash : HashValue) : Prop :=
  ∃ type calls, (hasherOpenSsl digests).hash type calls = .ok hash ∨
    (hasherWin32 digests).hash type calls = .ok hash ∨
    (hasherMac digests).hash type calls = .ok hash

theorem Returned.sized {digests : Digests} {hash : HashValue} (hhash : Returned digests hash) :
    hash.Sized := by
  obtain ⟨type, calls, hopenSsl | hwin32 | hmac⟩ := hhash
  · exact sized_of_absorbs (absorbs_openSsl digests) hopenSsl
  · exact sized_of_absorbs (absorbs_win32 digests) hwin32
  · exact sized_of_absorbs (absorbs_mac digests) hmac

/-- Whichever backend has returned it and however it was fed: both texts of a digest identify it
among all digests of all types, and the one in Base64 is read back with the type. -/
theorem texts_identify {digests : Digests} {hash other : HashValue}
    (hhash : Returned digests hash) (hother : Returned digests other) :
    (hashToHex hash = hashToHex other ↔ hash = other) ∧
    (hashToBase64 hash = hashToBase64 other ↔ hash = other) ∧
    ∃ text, hashToBase64 hash = .ok text ∧ text.length ≤ reserved hash ∧
      (Base64.fromBase64 text).map (fun bytes => (getHashType bytes, bytes)) =
        .ok (some hash.type, hash.bytes) := by
  obtain ⟨text, htext, hlength, hread⟩ := hashToBase64_read hhash.sized
  obtain ⟨otherText, hotherText, _, hotherRead⟩ := hashToBase64_read hother.sized
  refine ⟨hashToHex_inj hhash.sized hother.sized, ⟨fun heq => ?_, congrArg hashToBase64⟩,
    text, htext, hlength, hread⟩
  rw [htext, hotherText] at heq
  obtain rfl := Except.ok.inj heq
  have hsame := Except.ok.inj (hread.symm.trans hotherRead)
  exact eq_of_bytes hhash.sized hother.sized (congrArg Prod.snd hsame)

end Nstl.Hash
