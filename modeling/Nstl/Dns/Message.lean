import Nstl.Core.Framing

/-!
# The resolver library

The client hands the bytes of a response to the message parser of the resolver
library.  The library is not part of the development: what the client relies on
is a structure, and every result about the client holds for each of its
inhabitants.  The inhabitant `reference` reads messages as the name system
defines them, compression pointers included, so that a result can be tried on
the bytes of an actual response.
-/

namespace Nstl.DnsMessage

open Nstl.ByteString
open Nstl.Framing

/-- `NS_MAXDNAME`, the size of the buffers that names are expanded into. -/
def nsMaxDname : ℕ := 1025

/-- `ns_c_in`. -/
def nsClassIn : UInt16 := 1

/-- `ns_rr`: type, class, and where in the message the data are. -/
structure RawRecord where
  type : UInt16
  rrClass : UInt16
  rdata : ℕ
  rdlen : UInt16
  deriving DecidableEq, Repr

/-- The message parser.  `dn_expand` yields the text of a name, which ends before
its terminator and fits the buffer with it, and the number of bytes that the
name takes up in the message at the place it is read from. -/
structure Libresolv where
  /-- Whether `ns_initparse` accepts the message. -/
  nsInitparse : Bytes → Bool
  /-- `ns_msg_count(message, ns_s_an)`. -/
  nsMsgCount : Bytes → ℕ
  /-- `ns_parserr(&message, ns_s_an, idx, &record)`. -/
  nsParserr : Bytes → ℕ → Option RawRecord
  /-- `dn_expand(base, end, position, buffer, size)`. -/
  dnExpand : Bytes → ℕ → Option (Bytes × ℕ)
  nsParserr_inside : ∀ message idx record, nsParserr message idx = some record →
    record.rdata + record.rdlen.toNat ≤ message.length
  dnExpand_terminated : ∀ message position text length,
    dnExpand message position = some (text, length) →
      nul ∉ text ∧ text.length < nsMaxDname

/-! ## Reading a message -/

/-- The 16-bit number stored at a position, if the message reaches that far. -/
def word (message : Bytes) (position : ℕ) : Option ℕ :=
  match message[position]?, message[position + 1]? with
  | some high, some low => some (get16 high low).toNat
  | _, _ => none

/-- The labels of the name at a position.  A pointer is followed; a chain of
pointers longer than the message cannot be the way to a name. -/
def labels (message : Bytes) : ℕ → ℕ → Option (List Bytes)
  | 0, _ => none
  | fuel + 1, position =>
      match message[position]? with
      | none => none
      | some length =>
          if length = 0 then some []
          else if length < 64 then
            if position + 1 + length.toNat ≤ message.length then
              (labels message fuel (position + 1 + length.toNat)).map
                (((message.drop (position + 1)).take length.toNat) :: ·)
            else none
          else if 192 ≤ length then
            match word message position with
            | none => none
            | some pointer => labels message fuel (pointer - 192 * 256)
          else none

/-- The number of bytes that the name at a position takes up there: a pointer
ends it. -/
def nameLength (message : Bytes) : ℕ → ℕ → Option ℕ
  | 0, _ => none
  | fuel + 1, position =>
      match message[position]? with
      | none => none
      | some length =>
          if length = 0 then some 1
          else if length < 64 then
            (nameLength message fuel (position + 1 + length.toNat)).map
              (1 + length.toNat + ·)
          else if 192 ≤ length then some 2
          else none

/-- The characters that stand for themselves only behind a backslash. -/
def punctuation : Bytes := [34, 46, 59, 92, 40, 41, 64, 36]

/-- A byte of a label as text: printable, behind a backslash, or as three
decimal digits behind a backslash. -/
def labelChar (byte : Byte) : Bytes :=
  if byte ∈ punctuation then [92, byte]
  else if 32 < byte ∧ byte < 127 then [byte]
  else [92, UInt8.ofNat (48 + byte.toNat / 100),
    UInt8.ofNat (48 + byte.toNat / 10 % 10), UInt8.ofNat (48 + byte.toNat % 10)]

def labelText (label : Bytes) : Bytes :=
  label.flatMap labelChar

/-- The text of a name: its labels with a dot between them. -/
def nameText : List Bytes → Bytes
  | [] => []
  | [label] => labelText label
  | label :: next :: rest => labelText label ++ 46 :: nameText (next :: rest)

def expandName (message : Bytes) (position : ℕ) : Option (Bytes × ℕ) :=
  match labels message (message.length + 1) position,
      nameLength message (message.length + 1) position with
  | some parts, some length =>
      if (nameText parts).length < nsMaxDname then some (nameText parts, length)
      else none
  | _, _ => none

/-- The header of a record and where the next one starts. -/
def recordAt (message : Bytes) (position : ℕ) : Option (RawRecord × ℕ) := do
  let name ← nameLength message (message.length + 1) position
  let type ← word message (position + name)
  let rrClass ← word message (position + name + 2)
  let rdlen ← word message (position + name + 8)
  if position + name + 10 + rdlen ≤ message.length then
    some (⟨UInt16.ofNat type, UInt16.ofNat rrClass, position + name + 10,
      UInt16.ofNat rdlen⟩, position + name + 10 + rdlen)
  else none

def skipQuestions (message : Bytes) : ℕ → ℕ → Option ℕ
  | 0, position => some position
  | count + 1, position => do
      let name ← nameLength message (message.length + 1) position
      skipQuestions message count (position + name + 4)

def skipRecords (message : Bytes) : ℕ → ℕ → Option ℕ
  | 0, position => some position
  | count + 1, position => do
      let record ← recordAt message position
      skipRecords message count record.2

/-- The record with the given index among those that start at `position`. -/
def recordFrom (message : Bytes) (idx position : ℕ) : Option RawRecord := do
  let start ← skipRecords message idx position
  let record ← recordAt message start
  return record.1

/-- The number stored in one of the four counters of the header. -/
def sectionCount (message : Bytes) (counter : ℕ) : ℕ :=
  (word message (4 + 2 * counter)).getD 0

/-- The four sections fill the message behind its header. -/
def wellFormed (message : Bytes) : Bool :=
  12 ≤ message.length &&
    ((skipQuestions message (sectionCount message 0) 12).bind
      (skipRecords message (sectionCount message 1 + sectionCount message 2 +
        sectionCount message 3))) == some message.length

def answerRecord (message : Bytes) (idx : ℕ) : Option RawRecord :=
  if idx < sectionCount message 1 then
    (skipQuestions message (sectionCount message 0) 12).bind (recordFrom message idx)
  else none

/-! ## The reference parser -/

private theorem toNat_digit {digit : ℕ} (hdigit : digit < 10) :
    UInt8.ofNat (48 + digit) ≠ nul := by
  intro heq
  have htoNat := congrArg UInt8.toNat heq
  rw [UInt8.toNat_ofNat', nul] at htoNat
  simp at htoNat
  omega

theorem nul_not_mem_labelChar (byte : Byte) : nul ∉ labelChar byte := by
  have hbound := byte.toNat_lt
  have hbackslash : nul ≠ (92 : Byte) := by decide
  rw [labelChar]
  by_cases hpunctuation : byte ∈ punctuation
  · have hbyte : nul ≠ byte := by
      intro heq
      subst heq
      exact absurd hpunctuation (by decide)
    simp [hpunctuation, hbackslash, hbyte]
  by_cases hprintable : 32 < byte ∧ byte < 127
  · have hbyte : nul ≠ byte := by
      intro heq
      subst heq
      exact absurd hprintable.1 (by decide)
    simp [hpunctuation, hprintable, hbyte]
  · rw [if_neg hpunctuation, if_neg hprintable]
    simp only [List.mem_cons, List.not_mem_nil, or_false, not_or]
    exact ⟨hbackslash, (toNat_digit (by omega)).symm, (toNat_digit (by omega)).symm,
      (toNat_digit (by omega)).symm⟩

theorem nul_not_mem_nameText (parts : List Bytes) : nul ∉ nameText parts := by
  have hlabel : ∀ label : Bytes, nul ∉ labelText label := by
    intro label hmem
    obtain ⟨byte, _, hbyte⟩ := List.mem_flatMap.1 hmem
    exact nul_not_mem_labelChar byte hbyte
  have hdot : nul ≠ (46 : Byte) := by decide
  induction parts with
  | nil => simp [nameText]
  | cons label rest ih =>
      cases rest with
      | nil => exact hlabel label
      | cons next rest =>
          rw [nameText, List.mem_append, List.mem_cons, not_or, not_or]
          exact ⟨hlabel label, hdot, ih⟩

theorem expandName_terminated (message : Bytes) (position : ℕ) (text : Bytes)
    (length : ℕ) (hexpand : expandName message position = some (text, length)) :
    nul ∉ text ∧ text.length < nsMaxDname := by
  rw [expandName] at hexpand
  split at hexpand
  · split_ifs at hexpand with hfits
    simp only [Option.some.injEq, Prod.mk.injEq] at hexpand
    obtain ⟨rfl, rfl⟩ := hexpand
    exact ⟨nul_not_mem_nameText _, hfits⟩
  · exact absurd hexpand (by simp)

theorem recordAt_inside {message : Bytes} {position next : ℕ} {record : RawRecord}
    (hrecord : recordAt message position = some (record, next)) :
    record.rdata + record.rdlen.toNat ≤ message.length := by
  simp only [recordAt, Option.bind_eq_bind, Option.bind_eq_some_iff] at hrecord
  obtain ⟨name, _, type, _, rrClass, _, rdlen, hrdlen, hrecord⟩ := hrecord
  split_ifs at hrecord with hinside
  simp only [Option.some.injEq, Prod.mk.injEq] at hrecord
  obtain ⟨rfl, rfl⟩ := hrecord
  have hmod := Nat.mod_le rdlen (2 ^ 16)
  simp only [UInt16.toNat_ofNat']
  omega

theorem answerRecord_inside (message : Bytes) (idx : ℕ) (record : RawRecord)
    (hrecord : answerRecord message idx = some record) :
    record.rdata + record.rdlen.toNat ≤ message.length := by
  rw [answerRecord] at hrecord
  split_ifs at hrecord
  obtain ⟨start, _, hrecord⟩ := Option.bind_eq_some_iff.1 hrecord
  simp only [recordFrom, Option.bind_eq_bind, Option.bind_eq_some_iff] at hrecord
  obtain ⟨position, _, ⟨found, next⟩, hfound, hrecord⟩ := hrecord
  obtain rfl := Option.some.inj hrecord
  exact recordAt_inside hfound

/-- The parser that follows the definition of the message format. -/
def reference : Libresolv where
  nsInitparse := wellFormed
  nsMsgCount message := sectionCount message 1
  nsParserr := answerRecord
  dnExpand := expandName
  nsParserr_inside := answerRecord_inside
  dnExpand_terminated := expandName_terminated

end Nstl.DnsMessage
