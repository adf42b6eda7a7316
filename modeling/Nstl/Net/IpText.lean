import Nstl.Net.IpRange

/-!
# Addresses and ranges as text

The parsers of `ip_tools.cpp` copy a view of the text to a buffer on the stack, put a
terminator behind it and hand it to `inet_pton`.  Next to its result each of them
reports what it handed over: the view that was to be copied, and the C string that
the system gets to see.
-/

namespace Nstl.IpText

open Nstl.ByteString
open Nstl.IpRange

/-- A view that was copied for the system, and the string that arrives there. -/
structure Handover where
  view : Bytes
  text : Bytes
  deriving DecidableEq, Repr

/-- What a call gets that copies a view to a buffer and passes the buffer on. -/
def handOver {size : ℕ} (buffer : CharArray size) (view : Bytes) : Handover where
  view := view
  text := cString (terminatedCopy buffer.bytes view)

def inetAddrstrlen : ℕ := 16
def inet6Addrstrlen : ℕ := 46

/-- `inet_pton` for the two families. -/
structure AddressLibrary where
  inetPton4 : Bytes → Option Ipv4Addr
  inetPton6 : Bytes → Option Ipv6Addr

section Templates

variable {size strSize : ℕ} (inetPton : Bytes → Option (IpAddrBase size))

/-- The template behind `parse_ip4_address` and `parse_ip6_address`. -/
def parseIpAddressBase (buffer : CharArray strSize) (ipaddr : Bytes) :
    Option (IpAddrBase size) × List Handover :=
  if strSize ≤ ipaddr.length then (none, [])
  else (inetPton (handOver buffer ipaddr).text, [handOver buffer ipaddr])

def isDigit (ch : Byte) : Bool := 48 ≤ ch && ch ≤ 57

def decimalValue (digits : Bytes) : ℕ :=
  digits.foldl (fun value ch => 10 * value + (ch.toNat - 48)) 0

/-- `std::from_chars` for an 8-bit number: how many characters match, and the value if
it is one. -/
def fromChars (text : Bytes) : ℕ × Option UInt8 :=
  let digits := text.takeWhile isDigit
  (digits.length,
    if digits = [] ∨ 256 ≤ decimalValue digits then none
    else some (UInt8.ofNat (decimalValue digits)))

def invalidMask : UInt8 := 255

def parseMask (size : ℕ) (numView : Bytes) : UInt8 :=
  match fromChars numView with
  | (matched, some mask) =>
      if matched = numView.length ∧ mask.toNat ≤ size * bytesInBits then mask
      else invalidMask
  | (_, none) => invalidMask

/-- The separator `'/'`. -/
def slash : Byte := 47

/-- The part of a range in front of the separator. -/
def ipPart (range : Bytes) : Bytes :=
  match range.findIdx? (· = slash) with
  | none => range
  | some pos => range.take pos

/-- The part of a range behind the separator. -/
def numView (range : Bytes) : Option Bytes :=
  (range.findIdx? (· = slash)).map fun pos => range.drop (pos + 1)

/-- The template behind `parse_ip4_range` and `parse_ip6_range`. -/
def parseIpRangeBase (ipBuffer maskBuffer : CharArray strSize) (range : Bytes) :
    Except IpError (Option (IpRangeBase size)) × List Handover :=
  match parseIpAddressBase inetPton ipBuffer (ipPart range) with
  | (none, handed) => (.ok none, handed)
  | (some ip, handed) =>
      match numView range with
      | none => ((IpRangeBase.ofPrefix ip (UInt8.ofNat (size * bytesInBits))).map some, handed)
      | some num =>
          if num = [] then (.ok none, handed)
          else if parseMask size num ≠ invalidMask then
            ((IpRangeBase.ofPrefix ip (parseMask size num)).map some, handed)
          else
            match parseIpAddressBase inetPton maskBuffer num with
            | (some mask, more) => (.ok (some ⟨ip, mask⟩), handed ++ more)
            | (none, more) => (.ok none, handed ++ more)

end Templates

/-- The buffers of the calls of one function. -/
structure Buffers where
  v4 : CharArray inetAddrstrlen
  v6 : CharArray inet6Addrstrlen
  v4Mask : CharArray inetAddrstrlen
  v6Mask : CharArray inet6Addrstrlen

section Functions

variable (lib : AddressLibrary) (buffers : Buffers)

def parseIp4Address (ipaddr : Bytes) : Option Ipv4Addr × List Handover :=
  parseIpAddressBase lib.inetPton4 buffers.v4 ipaddr

def parseIp6Address (ipaddr : Bytes) : Option Ipv6Addr × List Handover :=
  parseIpAddressBase lib.inetPton6 buffers.v6 ipaddr

/-- `parse_ip_address`, with `std::monostate` as `none`. -/
def parseIpAddress (ipaddr : Bytes) : Option IpAddrGen × List Handover :=
  match parseIp4Address lib buffers ipaddr with
  | (some address, handed) => (some (.v4 address), handed)
  | (none, handed) =>
      match parseIp6Address lib buffers ipaddr with
      | (some address, more) => (some (.v6 address), handed ++ more)
      | (none, more) => (none, handed ++ more)

def parseIp4Range (range : Bytes) : Except IpError (Option Ipv4Range) × List Handover :=
  parseIpRangeBase lib.inetPton4 buffers.v4 buffers.v4Mask range

def parseIp6Range (range : Bytes) : Except IpError (Option Ipv6Range) × List Handover :=
  parseIpRangeBase lib.inetPton6 buffers.v6 buffers.v6Mask range

end Functions

/-! ## What the parsers accept -/

section Accepted

variable {size strSize : ℕ} (inetPton : Bytes → Option (IpAddrBase size))

theorem handOver_eq {buffer : CharArray strSize} {view : Bytes}
    (hroom : view.length < strSize) : handOver buffer view = ⟨view, cString view⟩ := by
  rw [handOver, cString_terminatedCopy (by rwa [buffer.size_eq])]

/-- The text fits the buffer, and `inet_pton` takes what stands before its first NUL. -/
def AcceptsAddress (strSize : ℕ) (view : Bytes) : Prop :=
  view.length < strSize ∧ (inetPton (cString view)).isSome

theorem parseIpAddressBase_of_fits (buffer : CharArray strSize) {view : Bytes}
    (hroom : view.length < strSize) :
    parseIpAddressBase inetPton buffer view =
      (inetPton (cString view), [⟨view, cString view⟩]) := by
  rw [parseIpAddressBase, if_neg (Nat.not_le.2 hroom), handOver_eq hroom]

theorem parseIpAddressBase_of_long (buffer : CharArray strSize) {view : Bytes}
    (hlong : strSize ≤ view.length) :
    parseIpAddressBase inetPton buffer view = (none, []) := by
  rw [parseIpAddressBase, if_pos hlong]

/-- A prefix length in decimal digits. -/
def IsPrefixLength (size : ℕ) (num : Bytes) : Prop :=
  num ≠ [] ∧ (∀ ch ∈ num, isDigit ch = true) ∧ decimalValue num ≤ size * bytesInBits

theorem nul_notMem_of_isPrefixLength {num : Bytes} (hnum : IsPrefixLength size num) :
    nul ∉ num := by
  intro hmem
  have hdigit := hnum.2.1 nul hmem
  contradiction

theorem parseMask_of_isPrefixLength (hsize : size * bytesInBits < 255) {num : Bytes}
    (hnum : IsPrefixLength size num) :
    (parseMask size num).toNat = decimalValue num := by
  obtain ⟨hne, hdigits, hvalue⟩ := hnum
  have htake : num.takeWhile isDigit = num := List.takeWhile_eq_self_iff.2 hdigits
  have hsmall : decimalValue num < 256 := by omega
  have hchars : fromChars num = (num.length, some (UInt8.ofNat (decimalValue num))) := by
    rw [fromChars, htake, if_neg]
    rintro (hnil | hlarge)
    · exact hne hnil
    · omega
  have htoNat : (UInt8.ofNat (decimalValue num)).toNat = decimalValue num := by
    rw [UInt8.toNat_ofNat']
    omega
  rw [parseMask, hchars]
  simp only [htoNat, hvalue, and_self, if_true]

theorem parseMask_ne_invalidMask (hsize : size * bytesInBits < 255) {num : Bytes}
    (hnum : IsPrefixLength size num) : parseMask size num ≠ invalidMask := by
  intro hinvalid
  have hvalue := parseMask_of_isPrefixLength hsize hnum
  have hbound := hnum.2.2
  have hlast : (parseMask size num).toNat = 255 := by rw [hinvalid]; rfl
  omega

theorem parseMask_of_not_isPrefixLength {num : Bytes} (hnum : ¬ IsPrefixLength size num) :
    parseMask size num = invalidMask := by
  rw [parseMask, fromChars]
  by_cases hnone : num.takeWhile isDigit = [] ∨ 256 ≤ decimalValue (num.takeWhile isDigit)
  · simp only [if_pos hnone]
  simp only [if_neg hnone]
  rw [if_neg]
  intro hmask
  obtain ⟨hlength, hvalue⟩ := hmask
  have htake : num.takeWhile isDigit = num :=
    (List.takeWhile_prefix _).eq_of_length hlength
  rw [htake, not_or] at hnone
  apply hnum
  refine ⟨hnone.1, List.takeWhile_eq_self_iff.1 htake, ?_⟩
  rw [htake, UInt8.toNat_ofNat'] at hvalue
  omega

/-- The text before the separator is an address; the text behind it, if there is one, is
a prefix length or an address. -/
def AcceptsRange (strSize : ℕ) (range : Bytes) : Prop :=
  AcceptsAddress inetPton strSize (ipPart range) ∧
    ∀ num ∈ numView range,
      num ≠ [] ∧ (IsPrefixLength size num ∨ AcceptsAddress inetPton strSize num)

/-- A text is put together from its parts. -/
theorem eq_of_numView (range : Bytes) :
    range = ipPart range ++ (numView range).elim [] (slash :: ·) := by
  rw [ipPart, numView]
  cases hpos : range.findIdx? (· = slash) with
  | none => simp
  | some pos =>
      obtain ⟨hlt, hslash, -⟩ := List.findIdx?_eq_some_iff_getElem.1 hpos
      have hget : range[pos] = slash := by simpa using hslash
      simp only [Option.map_some, Option.elim_some]
      rw [← hget, ← List.drop_eq_getElem_cons hlt, List.take_append_drop]

end Accepted

end Nstl.IpText
