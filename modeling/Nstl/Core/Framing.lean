import Mathlib.Data.List.OfFn
import Nstl.Core.ByteString

/-!
# Self-delimiting byte encodings

A stream of items can be cut up in one way only when no encoding is the
beginning of another one.  This file collects the encodings used inside binary
messages (fixed-length values, big-endian 16-bit numbers, strings behind a
length byte) and what follows for sequences of items.
-/

namespace Nstl.Framing

open Function
open Nstl.ByteString

variable {Item : Type*}

/-- An encoding can be split off the front of any longer byte string. -/
def PrefixFree (encode : Item → Bytes) : Prop :=
  ∀ left right leftRest rightRest,
    encode left ++ leftRest = encode right ++ rightRest →
      left = right ∧ leftRest = rightRest

/-- Injective encodings of a fixed length are self-delimiting. -/
theorem prefixFree_of_fixedLength {encode : Item → Bytes} (length : ℕ)
    (hlength : ∀ item, (encode item).length = length)
    (hinjective : Injective encode) : PrefixFree encode := by
  intro left right leftRest rightRest heq
  obtain ⟨hencode, hrest⟩ :=
    List.append_inj heq ((hlength left).trans (hlength right).symm)
  exact ⟨hinjective hencode, hrest⟩

/-- Some complete item stands at the front of `bytes`. -/
def StartsWithItem (encode : Item → Bytes) (bytes : Bytes) : Prop :=
  ∃ item rest, bytes = encode item ++ rest

/-- Where the items end for want of a complete one, no other reading of the
same bytes goes further. -/
theorem isPrefix_of_flatMap_append_eq {encode : Item → Bytes}
    (hfree : PrefixFree encode) {items others : List Item}
    {rest otherRest : Bytes} (hstop : ¬ StartsWithItem encode rest)
    (heq : items.flatMap encode ++ rest = others.flatMap encode ++ otherRest) :
    others <+: items := by
  induction others generalizing items with
  | nil => exact List.nil_prefix
  | cons other others ih =>
      rw [List.flatMap_cons, List.append_assoc] at heq
      cases items with
      | nil =>
          rw [List.flatMap_nil, List.nil_append] at heq
          exact absurd ⟨other, _, heq⟩ hstop
      | cons item items =>
          rw [List.flatMap_cons, List.append_assoc] at heq
          obtain ⟨hitem, hrest⟩ := hfree _ _ _ _ heq
          subst hitem
          exact List.cons_prefix_cons.2 ⟨rfl, ih hrest⟩

/-- A sequence of non-empty self-delimiting encodings determines its items. -/
theorem flatMap_injective {encode : Item → Bytes} (hfree : PrefixFree encode)
    (hne : ∀ item, encode item ≠ []) :
    Injective fun items : List Item => items.flatMap encode := by
  have hstop : ¬ StartsWithItem encode [] := by
    intro hitem
    obtain ⟨item, rest, heq⟩ := hitem
    exact hne item (List.append_eq_nil_iff.1 heq.symm).1
  intro left right heq
  have hpadded : left.flatMap encode ++ [] = right.flatMap encode ++ [] := by
    simpa using heq
  have hright := isPrefix_of_flatMap_append_eq hfree hstop hpadded
  have hleft := isPrefix_of_flatMap_append_eq hfree hstop hpadded.symm
  exact (hright.eq_of_length (le_antisymm hright.length_le hleft.length_le)).symm

theorem length_flatMap_of_fixedLength {encode : Item → Bytes} {length : ℕ}
    (hlength : ∀ item, (encode item).length = length) (items : List Item) :
    (items.flatMap encode).length = items.length * length := by
  induction items with
  | nil => simp
  | cons item items ih =>
      rw [List.flatMap_cons, List.length_append, hlength, ih, List.length_cons,
        Nat.succ_mul, Nat.add_comm]

/-! ## Big-endian 16-bit numbers -/

def bigEndian16 (value : UInt16) : Bytes :=
  [UInt8.ofNat (value.toNat / 256), UInt8.ofNat (value.toNat % 256)]

/-- `ns_get16` on the two bytes it reads. -/
def get16 (high low : Byte) : UInt16 :=
  UInt16.ofNat (256 * high.toNat + low.toNat)

@[simp]
theorem length_bigEndian16 (value : UInt16) : (bigEndian16 value).length = 2 := rfl

theorem bigEndian16_get16 (high low : Byte) :
    bigEndian16 (get16 high low) = [high, low] := by
  have hhigh := high.toNat_lt
  have hlow := low.toNat_lt
  have hvalue : (get16 high low).toNat = 256 * high.toNat + low.toNat := by
    rw [get16, UInt16.toNat_ofNat']
    omega
  have hdiv : (256 * high.toNat + low.toNat) / 256 = high.toNat := by omega
  have hmod : (256 * high.toNat + low.toNat) % 256 = low.toNat := by omega
  rw [bigEndian16, hvalue, hdiv, hmod, UInt8.ofNat_toNat, UInt8.ofNat_toNat]

theorem bigEndian16_injective : Injective bigEndian16 := by
  intro left right heq
  have hleft := left.toNat_lt
  have hright := right.toNat_lt
  obtain ⟨hhigh, hlow⟩ := List.cons.inj heq
  have hdiv := congrArg UInt8.toNat hhigh
  have hmod := congrArg UInt8.toNat (List.cons.inj hlow).1
  rw [UInt8.toNat_ofNat', UInt8.toNat_ofNat'] at hdiv hmod
  apply UInt16.toNat.inj
  omega

theorem prefixFree_bigEndian16 : PrefixFree bigEndian16 :=
  prefixFree_of_fixedLength 2 length_bigEndian16 bigEndian16_injective

/-! ## Arrays of a fixed size -/

theorem prefixFree_ofFn (size : ℕ) :
    PrefixFree fun bytes : Fin size → Byte => List.ofFn bytes :=
  prefixFree_of_fixedLength size (fun _ => List.length_ofFn) List.ofFn_injective

/-! ## Strings behind a length byte -/

/-- A string behind its length.  The encoding is faithful below 256 bytes. -/
def lengthPrefixed (text : Bytes) : Bytes :=
  UInt8.ofNat text.length :: text

/-- The bytes are tiled exactly by the given strings, each behind its length. -/
def Tiled (bytes : Bytes) (texts : List Bytes) : Prop :=
  bytes = texts.flatMap lengthPrefixed ∧ ∀ text ∈ texts, text.length < 256

@[simp]
theorem tiled_nil_iff (texts : List Bytes) : Tiled [] texts ↔ texts = [] := by
  cases texts with
  | nil => simp [Tiled]
  | cons text texts => simp [Tiled, lengthPrefixed]

@[simp]
theorem not_tiled_cons_nil (length : Byte) (rest : Bytes) :
    ¬ Tiled (length :: rest) [] := by
  simp [Tiled]

/-- The length byte in front decides where the first string ends. -/
theorem tiled_cons_cons_iff (length : Byte) (rest text : Bytes)
    (texts : List Bytes) :
    Tiled (length :: rest) (text :: texts) ↔
      length.toNat ≤ rest.length ∧ text = rest.take length.toNat ∧
        Tiled (rest.drop length.toNat) texts := by
  constructor
  · intro htiled
    obtain ⟨hbytes, htexts⟩ := htiled
    have htext := htexts text List.mem_cons_self
    rw [List.flatMap_cons, lengthPrefixed, List.cons_append, List.cons.injEq] at hbytes
    obtain ⟨hlength, hrest⟩ := hbytes
    have hvalue : length.toNat = text.length := by
      rw [hlength, UInt8.toNat_ofNat']
      omega
    rw [hrest, hvalue]
    refine ⟨by simp, by simp, ?_, ?_⟩
    · simp
    · exact fun other hother => htexts other (List.mem_cons_of_mem _ hother)
  · intro h
    obtain ⟨hlength, htext, hbytes, htexts⟩ := h
    have hvalue : text.length = length.toNat := by
      rw [htext, List.length_take]
      omega
    have hbound := length.toNat_lt
    refine ⟨?_, ?_⟩
    · rw [List.flatMap_cons, lengthPrefixed, hvalue, UInt8.ofNat_toNat, ← hbytes,
        htext, List.cons_append, List.take_append_drop]
    · intro other hother
      rcases List.mem_cons.1 hother with rfl | hother
      · omega
      · exact htexts other hother

/-- Bytes that are tiled begin with a length that stays inside them. -/
theorem tiled_cons_iff (length : Byte) (rest : Bytes) (texts : List Bytes) :
    Tiled (length :: rest) texts ↔
      length.toNat ≤ rest.length ∧ ∃ others, texts = rest.take length.toNat :: others ∧
        Tiled (rest.drop length.toNat) others := by
  cases texts with
  | nil => simp
  | cons text texts =>
      rw [tiled_cons_cons_iff]
      simp only [List.cons.injEq]
      constructor
      · rintro ⟨hlength, htext, htexts⟩
        exact ⟨hlength, texts, ⟨htext, rfl⟩, htexts⟩
      · rintro ⟨hlength, others, ⟨htext, rfl⟩, htexts⟩
        exact ⟨hlength, htext, htexts⟩

end Nstl.Framing
