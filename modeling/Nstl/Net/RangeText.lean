import Nstl.Net.RangeGrammar

/-!
# Ranges written and read back

`operator<<` writes a range as two addresses with a separator between them, the mask
in the notation of an address whatever its bits are.  Read back, the text behind the
separator is tried as a number first; it is none because of its dots or colons.
-/

namespace Nstl.RangeText

open Nstl.ByteString
open Nstl.IpRange
open Nstl.IpText
open Nstl.RangeGrammar

/-- An output stream: what was written, and whether `failbit` is set.  No field width
is set. -/
structure Ostream where
  text : Bytes
  failed : Bool

/-- Writing characters; a failed stream takes none. -/
def Ostream.write (os : Ostream) (chars : Bytes) : Ostream :=
  if os.failed then os else { os with text := os.text ++ chars }

section Templates

variable {size strSize : ℕ} (inetNtop : IpAddrBase size → Option Bytes)
  (buffer maskBuffer : CharArray strSize)

/-- The buffer after `inet_ntop` has stored a text and its terminator in it. -/
def ntopBuffer (text : Bytes) : Bytes :=
  text ++ nul :: buffer.bytes.drop (text.length + 1)

/-- `operator<<` of an address. -/
def writeAddress (os : Ostream) (ip : IpAddrBase size) : Ostream :=
  match inetNtop ip with
  | none => { os with failed := true }
  | some text =>
      let stored := ntopBuffer buffer text
      os.write (stored.take (strnlen stored strSize))

/-- `operator<<` of a range. -/
def writeRange (os : Ostream) (range : IpRangeBase size) : Ostream :=
  writeAddress inetNtop maskBuffer
    ((writeAddress inetNtop buffer os range.ip).write [slash]) range.mask

end Templates

/-- `inet_pton` and `inet_ntop` for the two families; no text stands for a null pointer. -/
structure TextLibrary extends AddressLibrary where
  inetNtop4 : Ipv4Addr → Option Bytes
  inetNtop6 : Ipv6Addr → Option Bytes

section Functions

variable (lib : TextLibrary) (buffers : Buffers)

def writeIp4Range (os : Ostream) (range : Ipv4Range) : Ostream :=
  writeRange lib.inetNtop4 buffers.v4 buffers.v4Mask os range

def writeIp6Range (os : Ostream) (range : Ipv6Range) : Ostream :=
  writeRange lib.inetNtop6 buffers.v6 buffers.v6Mask os range

end Functions

def dot : Byte := 46
def colon : Byte := 58

/-- What is assumed of the texts that `inet_ntop` makes. -/
structure Printed (size : ℕ) (strSize : ℕ) (inetPton : Bytes → Option (IpAddrBase size))
    (ip : IpAddrBase size) (text : Bytes) : Prop where
  inverse : inetPton text = some ip
  length_lt : text.length < strSize
  punctuated : dot ∈ text ∨ colon ∈ text
  slash_notMem : slash ∉ text
  nul_notMem : nul ∉ text

/-- `inet_pton` inverts `inet_ntop`, and the texts are as they are assumed. -/
def Prints {size : ℕ} (strSize : ℕ) (inetPton : Bytes → Option (IpAddrBase size))
    (inetNtop : IpAddrBase size → Option Bytes) : Prop :=
  ∀ ip, ∃ text, inetNtop ip = some text ∧ Printed size strSize inetPton ip text

/-! ## Decimal numbers -/

def digit (value : ℕ) : Byte := UInt8.ofNat (48 + value)

/-- A number in decimal digits, without leading zeros. -/
def decimalText (value : ℕ) : Bytes :=
  if value < 10 then [digit value]
  else decimalText (value / 10) ++ [digit (value % 10)]

theorem toNat_digit {value : ℕ} (hvalue : value < 10) : (digit value).toNat = 48 + value := by
  rw [digit, UInt8.toNat_ofNat']
  omega

theorem isDigit_digit {value : ℕ} (hvalue : value < 10) : isDigit (digit value) = true := by
  have htoNat := toNat_digit hvalue
  have hlow : (48 : Byte) ≤ digit value := by
    rw [UInt8.le_iff_toNat_le, htoNat]
    exact Nat.le_add_right 48 value
  have hhigh : digit value ≤ 57 := by
    rw [UInt8.le_iff_toNat_le, htoNat]
    exact Nat.add_le_add_left (Nat.le_of_lt_succ hvalue) 48
  simp [isDigit, hlow, hhigh]

theorem decimalValue_append (digits : Bytes) (last : Byte) :
    decimalValue (digits ++ [last]) = 10 * decimalValue digits + (last.toNat - 48) := by
  rw [decimalValue, List.foldl_append]
  rfl

theorem decimalText_spec (value : ℕ) :
    decimalText value ≠ [] ∧ (∀ ch ∈ decimalText value, isDigit ch = true) ∧
      decimalValue (decimalText value) = value := by
  fun_induction decimalText value with
  | case1 value hsmall =>
      have htoNat := toNat_digit hsmall
      refine ⟨by simp, by simpa using isDigit_digit hsmall, ?_⟩
      simp [decimalValue, htoNat]
  | case2 value hlarge ih =>
      obtain ⟨-, hdigits, hvalue⟩ := ih
      have hlast := Nat.mod_lt value (show 0 < 10 by decide)
      refine ⟨by simp, ?_, ?_⟩
      · intro ch hch
        rcases List.mem_append.1 hch with hfront | hback
        · exact hdigits ch hfront
        · rw [List.mem_singleton.1 hback]
          exact isDigit_digit hlast
      · rw [decimalValue_append, hvalue, toNat_digit hlast]
        omega

theorem isPrefixLength_decimalText {size count : ℕ} (hcount : count ≤ size * bytesInBits) :
    IsPrefixLength size (decimalText count) := by
  obtain ⟨hne, hdigits, hvalue⟩ := decimalText_spec count
  exact ⟨hne, hdigits, by rwa [hvalue]⟩

/-! ## Printed addresses -/

section Printed

variable {size strSize : ℕ} {inetPton : Bytes → Option (IpAddrBase size)}
  {ip mask : IpAddrBase size} {text ipText maskText : Bytes}

theorem Printed.not_isPrefixLength (hprinted : Printed size strSize inetPton ip text) :
    ¬IsPrefixLength size text := by
  intro hnum
  rcases hprinted.punctuated with hmem | hmem
  · exact absurd (hnum.2.1 _ hmem) (by decide)
  · exact absurd (hnum.2.1 _ hmem) (by decide)

theorem Printed.ne_nil (hprinted : Printed size strSize inetPton ip text) : text ≠ [] := by
  rintro rfl
  simpa using hprinted.punctuated

theorem Printed.addressIn_eq (hprinted : Printed size strSize inetPton ip text) :
    addressIn inetPton strSize text = some ip :=
  (addressIn_eq_some_iff text ip).2 ⟨hprinted.inverse, hprinted.length_lt⟩

/-- The text goes to the stream as it is. -/
theorem Printed.writeAddress_eq {inetNtop : IpAddrBase size → Option Bytes}
    (hprinted : Printed size strSize inetPton ip text) (hntop : inetNtop ip = some text)
    (buffer : CharArray strSize) (os : Ostream) :
    writeAddress inetNtop buffer os ip = os.write text := by
  rw [writeAddress, hntop]
  simp only [ntopBuffer]
  rw [strnlen_terminated hprinted.nul_notMem, Nat.min_eq_right (Nat.le_of_lt hprinted.length_lt),
    List.take_left]

variable (ipBuffer maskBuffer : CharArray strSize)

/-- Behind a printed address and the separator the parser goes on with the rest. -/
theorem Printed.parse_append (hprinted : Printed size strSize inetPton ip ipText) {num : Bytes}
    (hnum : nul ∉ num) :
    (parseIpRangeBase inetPton ipBuffer maskBuffer (ipText ++ slash :: num)).1 =
      rangeBehind inetPton strSize ip num := by
  have hnul : nul ∉ ipText ++ slash :: num := by
    rw [List.mem_append, List.mem_cons, not_or, not_or]
    exact ⟨hprinted.nul_notMem, by decide, hnum⟩
  rw [RangeGrammar.parse_append _ _ hnul hprinted.slash_notMem, hprinted.addressIn_eq]

theorem Printed.parse_mask (hip : Printed size strSize inetPton ip ipText)
    (hmask : Printed size strSize inetPton mask maskText) :
    (parseIpRangeBase inetPton ipBuffer maskBuffer (ipText ++ slash :: maskText)).1 =
      .ok (some ⟨ip, mask⟩) := by
  rw [hip.parse_append _ _ hmask.nul_notMem,
    rangeBehind_masked hmask.ne_nil hmask.not_isPrefixLength, hmask.addressIn_eq]
  rfl

/-- The two notations of a prefix mask mean the same. -/
theorem Printed.parse_number (hsize : size * bytesInBits < 255) {count : UInt8}
    (hcreate : createMask size count = .ok mask)
    (hip : Printed size strSize inetPton ip ipText) :
    (parseIpRangeBase inetPton ipBuffer maskBuffer
        (ipText ++ slash :: decimalText count.toNat)).1 = .ok (some ⟨ip, mask⟩) := by
  have hcount : count.toNat ≤ size * bytesInBits := by
    rw [Nat.mul_comm]
    exact (createMask_ok_iff count).1 ⟨mask, hcreate⟩
  have hnum : IsPrefixLength size (decimalText count.toNat) := isPrefixLength_decimalText hcount
  obtain ⟨other, hother, hrange⟩ := rangeBehind_prefixed hsize hnum
  rw [(decimalText_spec count.toNat).2.2] at hother
  have hmask : IsPrefixMask mask count.toNat := fun i hi => bit_createMask hcreate hi
  rw [hip.parse_append _ _ (nul_notMem_of_isPrefixLength hnum), hrange, hother.unique hmask]

end Printed

/-! ## The round trip -/

/-- Whatever a stream held before, a range is written to it as a text that is read back
as the range; and a prefix length may be written as a number or as its mask. -/
structure RoundTrips {size : ℕ} (inetNtop : IpAddrBase size → Option Bytes)
    (write : Ostream → IpRangeBase size → Ostream)
    (parse : Bytes → Except IpError (Option (IpRangeBase size)) × List Handover) : Prop where
  range : ∀ range, ∃ text,
    (∀ os, os.failed = false → write os range = ⟨os.text ++ text, false⟩) ∧
      (parse text).1 = .ok (some range)
  notations : ∀ ip, ∀ count : UInt8, count.toNat ≤ size * bytesInBits →
    ∃ mask ipText maskText, createMask size count = .ok mask ∧ inetNtop ip = some ipText ∧
      inetNtop mask = some maskText ∧
      (parse (ipText ++ slash :: decimalText count.toNat)).1 = .ok (some ⟨ip, mask⟩) ∧
      (parse (ipText ++ slash :: maskText)).1 = .ok (some ⟨ip, mask⟩)

theorem roundTrips {size strSize : ℕ} {inetPton : Bytes → Option (IpAddrBase size)}
    {inetNtop : IpAddrBase size → Option Bytes} (hprints : Prints strSize inetPton inetNtop)
    (hsize : size * bytesInBits < 255) (ipBuffer maskBuffer : CharArray strSize) :
    RoundTrips inetNtop (writeRange inetNtop ipBuffer maskBuffer)
      (parseIpRangeBase inetPton ipBuffer maskBuffer) where
  range range := by
    obtain ⟨ipText, hipNtop, hip⟩ := hprints range.ip
    obtain ⟨maskText, hmaskNtop, hmask⟩ := hprints range.mask
    refine ⟨ipText ++ slash :: maskText, fun os hgood => ?_, hip.parse_mask _ _ hmask⟩
    rw [writeRange, hip.writeAddress_eq hipNtop, hmask.writeAddress_eq hmaskNtop]
    simp [Ostream.write, hgood]
  notations ip count hcount := by
    rw [Nat.mul_comm] at hcount
    obtain ⟨mask, hcreate⟩ := (createMask_ok_iff count).2 hcount
    obtain ⟨ipText, hipNtop, hip⟩ := hprints ip
    obtain ⟨maskText, hmaskNtop, hmask⟩ := hprints mask
    exact ⟨mask, ipText, maskText, hcreate, hipNtop, hmaskNtop,
      hip.parse_number _ _ hsize hcreate, hip.parse_mask _ _ hmask⟩

/-- Every range of both families, with any bytes as its mask, is read back from the text
that is written for it; both notations of a prefix length are read as the same range. -/
theorem range_text_round_trip (lib : TextLibrary)
    (hv4 : Prints inetAddrstrlen lib.inetPton4 lib.inetNtop4)
    (hv6 : Prints inet6Addrstrlen lib.inetPton6 lib.inetNtop6) (buffers : Buffers) :
    RoundTrips lib.inetNtop4 (writeIp4Range lib buffers)
        (parseIp4Range lib.toAddressLibrary buffers) ∧
      RoundTrips lib.inetNtop6 (writeIp6Range lib buffers)
        (parseIp6Range lib.toAddressLibrary buffers) :=
  ⟨roundTrips hv4 (by decide) buffers.v4 buffers.v4Mask,
    roundTrips hv6 (by decide) buffers.v6 buffers.v6Mask⟩

/-! ## A library that meets the assumptions -/

/-- A reader that takes exactly the texts that are written. -/
def readBack {Address : Type} (write : Address → Bytes) (decode : Bytes → Address)
    (text : Bytes) : Option Address :=
  if write (decode text) = text then some (decode text) else none

theorem readBack_write {Address : Type} {write : Address → Bytes} {decode : Bytes → Address}
    (hinverse : ∀ address, decode (write address) = address) (address : Address) :
    readBack write decode (write address) = some address := by
  rw [readBack, hinverse, if_pos rfl]

section Dotted

/-- The four bytes in decimal digits, with dots between them. -/
def dotted (ip : Ipv4Addr) : Bytes :=
  [dot].intercalate (List.ofFn fun index => decimalText (ip index).toNat)

def ofDotted (text : Bytes) : Ipv4Addr :=
  fun index => UInt8.ofNat (decimalValue ((text.splitOn dot).getD index []))

theorem notMem_decimalText {ch : Byte} (hch : isDigit ch = false) (value : ℕ) :
    ch ∉ decimalText value := by
  intro hmem
  rw [(decimalText_spec value).2.1 ch hmem] at hch
  cases hch

theorem parts_ne_nil (ip : Ipv4Addr) :
    (List.ofFn fun index => decimalText (ip index).toNat) ≠ [] := by
  apply List.ne_nil_of_length_pos
  rw [List.length_ofFn]
  decide

theorem splitOn_dotted (ip : Ipv4Addr) :
    (dotted ip).splitOn dot = List.ofFn fun index => decimalText (ip index).toNat := by
  apply List.splitOn_intercalate
  · intro part hpart
    obtain ⟨index, rfl⟩ := List.mem_ofFn.1 hpart
    exact notMem_decimalText (by decide) _
  · exact parts_ne_nil ip

theorem ofDotted_dotted (ip : Ipv4Addr) : ofDotted (dotted ip) = ip := by
  funext index
  rw [ofDotted, splitOn_dotted, List.getD_eq_getElem _ _ (by simp), List.getElem_ofFn,
    (decimalText_spec _).2.2, UInt8.ofNat_toNat]

theorem length_decimalText_byte (byte : Byte) : (decimalText byte.toNat).length ≤ 3 := by
  have hbyte := byte.toNat_lt
  rw [decimalText]
  split
  · simp
  · rw [decimalText]
    split
    · simp
    · rw [decimalText, if_pos (by omega)]
      simp

theorem length_intercalate_lt {parts : List Bytes} {width : ℕ} (hne : parts ≠ [])
    (hparts : ∀ part ∈ parts, part.length ≤ width) (sep : Byte) :
    ([sep].intercalate parts).length < parts.length * (width + 1) := by
  induction parts with
  | nil => exact absurd rfl hne
  | cons part parts ih =>
      obtain ⟨hpart, hparts⟩ := List.forall_mem_cons.1 hparts
      cases parts with
      | nil =>
          rw [List.intercalate_singleton, List.length_singleton]
          omega
      | cons next parts =>
          have hrest := ih (List.cons_ne_nil _ _) hparts
          rw [List.intercalate_cons_cons, List.length_append, List.length_append,
            List.length_singleton, List.length_cons, Nat.succ_mul]
          omega

theorem mem_intercalate {parts : List Bytes} {sep ch : Byte}
    (hch : ch ∈ [sep].intercalate parts) : ch = sep ∨ ∃ part ∈ parts, ch ∈ part := by
  induction parts with
  | nil => simp at hch
  | cons part parts ih =>
      cases parts with
      | nil => exact .inr ⟨part, List.mem_cons_self, by simpa using hch⟩
      | cons next parts =>
          rw [List.intercalate_cons_cons, List.mem_append, List.mem_append,
            List.mem_singleton] at hch
          rcases hch with (hpart | hsep) | hrest
          · exact .inr ⟨part, List.mem_cons_self, hpart⟩
          · exact .inl hsep
          · obtain hsep | ⟨other, hother, hmem⟩ := ih hrest
            · exact .inl hsep
            · exact .inr ⟨other, List.mem_cons_of_mem _ hother, hmem⟩

theorem notMem_dotted {ch : Byte} (hdot : ch ≠ dot) (hdigit : isDigit ch = false)
    (ip : Ipv4Addr) : ch ∉ dotted ip := by
  intro hch
  obtain hsep | ⟨part, hpart, hmem⟩ := mem_intercalate hch
  · exact hdot hsep
  · obtain ⟨index, rfl⟩ := List.mem_ofFn.1 hpart
    exact notMem_decimalText hdigit _ hmem

theorem printed_dotted (ip : Ipv4Addr) :
    Printed ipv4Size inetAddrstrlen (readBack dotted ofDotted) ip (dotted ip) where
  inverse := readBack_write ofDotted_dotted ip
  length_lt := by
    have hparts : ∀ part ∈ List.ofFn fun index => decimalText (ip index).toNat,
        part.length ≤ 3 := by
      simpa using fun index => length_decimalText_byte (ip index)
    have hlength := length_intercalate_lt (parts_ne_nil ip) hparts dot
    rwa [List.length_ofFn] at hlength
  punctuated := by
    left
    by_contra hdot
    -- Without a dot there would be a single part.
    have hparts := congrArg List.length (splitOn_dotted ip)
    rw [List.splitOn_eq_singleton hdot, List.length_ofFn] at hparts
    cases hparts
  slash_notMem := notMem_dotted (by decide) (by decide) ip
  nul_notMem := notMem_dotted (by decide) (by decide) ip

end Dotted

section Groups

/-- The characters of the hexadecimal digits. -/
def hexDigit (value : ℕ) : Byte :=
  if value < 10 then digit value else UInt8.ofNat (87 + value)

def hexValue (ch : Byte) : ℕ :=
  if ch ≤ 57 then ch.toNat - 48 else ch.toNat - 87

theorem hexValue_hexDigit {value : ℕ} (hvalue : value < 16) :
    hexValue (hexDigit value) = value := by
  have hall : ∀ value : Fin 16, hexValue (hexDigit value) = value := by decide
  exact hall ⟨value, hvalue⟩

/-- The four bits with the number `position` of an address. -/
def nibble (ip : Ipv6Addr) (position : ℕ) : ℕ :=
  let byte := ((List.ofFn ip).getD (position / 2) 0).toNat
  if position % 2 = 0 then byte / 16 else byte % 16

/-- All groups of four digits, with colons between them. -/
def groups (ip : Ipv6Addr) : Bytes :=
  List.ofFn fun column : Fin 39 =>
    if column.val % 5 = 4 then colon
    else hexDigit (nibble ip (4 * (column.val / 5) + column.val % 5))

/-- Where the digit of four bits stands. -/
def place (position : ℕ) : ℕ := 5 * (position / 4) + position % 4

def ofGroups (text : Bytes) : Ipv6Addr :=
  fun index => UInt8.ofNat (16 * hexValue (text.getD (place (2 * index)) 0) +
    hexValue (text.getD (place (2 * index + 1)) 0))

theorem nibble_lt (ip : Ipv6Addr) (position : ℕ) : nibble ip position < 16 := by
  have hbyte := ((List.ofFn ip).getD (position / 2) 0).toNat_lt
  simp only [nibble]
  split
  · omega
  · omega

theorem hexValue_groups (ip : Ipv6Addr) {position : ℕ} (hposition : position < 32) :
    hexValue ((groups ip).getD (place position) 0) = nibble ip position := by
  have hplace : place position < 39 := by
    rw [place]
    omega
  have hgroup : place position % 5 ≠ 4 := by
    rw [place]
    omega
  have hback : 4 * (place position / 5) + place position % 5 = position := by
    rw [place]
    omega
  rw [groups, List.getD_eq_getElem _ _ (by rwa [List.length_ofFn]), List.getElem_ofFn,
    if_neg hgroup, hback, hexValue_hexDigit (nibble_lt ip position)]

theorem ofGroups_groups (ip : Ipv6Addr) : ofGroups (groups ip) = ip := by
  funext index
  have hindex : index.val < 16 := index.isLt
  have hbyte : (List.ofFn ip).getD index 0 = ip index := by
    rw [List.getD_eq_getElem _ _ (by simp), List.getElem_ofFn]
  rw [ofGroups, hexValue_groups ip (by omega), hexValue_groups ip (by omega), nibble, nibble,
    if_pos (by omega), if_neg (by omega), show 2 * index.val / 2 = index by omega,
    show (2 * index.val + 1) / 2 = index by omega, hbyte, Nat.div_add_mod, UInt8.ofNat_toNat]

theorem notMem_groups {ch : Byte} (hcolon : ch ≠ colon)
    (hdigit : ∀ value : Fin 16, ch ≠ hexDigit value) (ip : Ipv6Addr) : ch ∉ groups ip := by
  intro hmem
  obtain ⟨column, heq⟩ := List.mem_ofFn.1 hmem
  split at heq
  next => exact hcolon heq.symm
  next => exact hdigit ⟨_, nibble_lt ip _⟩ heq.symm

theorem printed_groups (ip : Ipv6Addr) :
    Printed ipv6Size inet6Addrstrlen (readBack groups ofGroups) ip (groups ip) where
  inverse := readBack_write ofGroups_groups ip
  length_lt := by
    rw [groups, List.length_ofFn]
    decide
  punctuated := by
    right
    exact List.mem_ofFn.2 ⟨4, rfl⟩
  slash_notMem := notMem_groups (by decide) (by decide) ip
  nul_notMem := notMem_groups (by decide) (by decide) ip

end Groups

/-- Dotted addresses, and addresses with all their groups. -/
def fullLibrary : TextLibrary where
  inetPton4 := readBack dotted ofDotted
  inetPton6 := readBack groups ofGroups
  inetNtop4 ip := some (dotted ip)
  inetNtop6 ip := some (groups ip)

/-- A mask whose bits do not stand together. -/
theorem range_text_round_trip_example :
    ∃ text, writeIp4Range fullLibrary zeroBuffers ⟨[], false⟩ ⟨![10, 0, 0, 1], ![255, 0, 255, 0]⟩ =
        ⟨text, false⟩ ∧
      (parseIp4Range fullLibrary.toAddressLibrary zeroBuffers text).1 =
        .ok (some ⟨![10, 0, 0, 1], ![255, 0, 255, 0]⟩) := by
  have hv4 : Prints inetAddrstrlen fullLibrary.inetPton4 fullLibrary.inetNtop4 :=
    fun ip => ⟨dotted ip, rfl, printed_dotted ip⟩
  have hv6 : Prints inet6Addrstrlen fullLibrary.inetPton6 fullLibrary.inetNtop6 :=
    fun ip => ⟨groups ip, rfl, printed_groups ip⟩
  obtain ⟨text, hwrite, hparse⟩ := (range_text_round_trip fullLibrary hv4 hv6 zeroBuffers).1.range
    ⟨![10, 0, 0, 1], ![255, 0, 255, 0]⟩
  exact ⟨text, hwrite ⟨[], false⟩ rfl, hparse⟩

end Nstl.RangeText
