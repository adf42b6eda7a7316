import Nstl.Net.IpText

/-!
# The grammar of ranges

A range is written as an address, as an address and a prefix length, or as an address
and a mask that is written like an address.  The parsers look for the first separator,
try a number behind it, and take the text for an address if it is none.  What they
accept is exactly the language of these three forms, given a few properties of the
addresses that `inet_pton` knows.
-/

namespace Nstl.RangeGrammar

open Nstl.ByteMask
open Nstl.ByteString
open Nstl.IpRange
open Nstl.IpText

variable {size strSize : ℕ}

/-- What `inet_pton` is known to reject: a separator, and digits alone or nothing. -/
structure Rejects (inetPton : Bytes → Option (IpAddrBase size)) : Prop where
  slash : ∀ text, slash ∈ text → inetPton text = none
  digits : ∀ text, (∀ ch ∈ text, isDigit ch = true) → inetPton text = none

/-- An address that `inet_pton` reads, in a text that fits the buffer of the parser. -/
def IsAddress (inetPton : Bytes → Option (IpAddrBase size)) (strSize : ℕ) (text : Bytes)
    (address : IpAddrBase size) : Prop :=
  inetPton text = some address ∧ text.length < strSize

/-- The mask with the first `count` bits set. -/
def IsPrefixMask (mask : IpAddrBase size) (count : ℕ) : Prop :=
  ∀ i < 8 * size, bit mask i = decide (i < count)

/-- The three ways to write a range, over the texts of addresses. -/
inductive RangeText (isAddress : Bytes → IpAddrBase size → Prop) :
    Bytes → IpRangeBase size → Prop
  | address {text ip} (hip : isAddress text ip) :
      RangeText isAddress text ⟨ip, fun _ => 255⟩
  | prefixed {text num ip mask} (hip : isAddress text ip) (hnum : IsPrefixLength size num)
      (hmask : IsPrefixMask mask (decimalValue num)) :
      RangeText isAddress (text ++ slash :: num) ⟨ip, mask⟩
  | masked {text maskText ip mask} (hip : isAddress text ip)
      (hmask : isAddress maskText mask) :
      RangeText isAddress (text ++ slash :: maskText) ⟨ip, mask⟩

/-- What stands behind the separator: a prefix length, or else an address. -/
inductive MaskText (isAddress : Bytes → IpAddrBase size → Prop) (num : Bytes)
    (mask : IpAddrBase size) : Prop
  | prefixed (hnum : IsPrefixLength size num) (hmask : IsPrefixMask mask (decimalValue num))
  | masked (hmask : isAddress num mask)

/-! ## The parts of a text -/

theorem findIdx?_of_notMem {text : Bytes} (hslash : slash ∉ text) :
    text.findIdx? (· = slash) = none := by
  rw [List.findIdx?_eq_none_iff]
  intro ch hch
  simpa using fun heq : ch = slash => hslash (heq ▸ hch)

theorem parts_of_notMem {text : Bytes} (hslash : slash ∉ text) :
    ipPart text = text ∧ numView text = none := by
  rw [ipPart, numView, findIdx?_of_notMem hslash]
  exact ⟨rfl, rfl⟩

theorem parts_append {ip : Bytes} (hslash : slash ∉ ip) (num : Bytes) :
    ipPart (ip ++ slash :: num) = ip ∧ numView (ip ++ slash :: num) = some num := by
  have hpos : (ip ++ slash :: num).findIdx? (· = slash) = some ip.length := by
    rw [List.findIdx?_append, findIdx?_of_notMem hslash]
    simp [List.findIdx?_cons]
  rw [ipPart, numView, hpos]
  simp

/-- The first separator ends the address, so that there is one way to take a text apart. -/
theorem append_slash_inj {left right num other : Bytes} (hleft : slash ∉ left)
    (hright : slash ∉ right) (heq : left ++ slash :: num = right ++ slash :: other) :
    left = right ∧ num = other := by
  have hip := congrArg ipPart heq
  have hnum := congrArg numView heq
  rw [(parts_append hleft num).1, (parts_append hright other).1] at hip
  rw [(parts_append hleft num).2, (parts_append hright other).2] at hnum
  exact ⟨hip, Option.some.inj hnum⟩

/-! ## The three forms -/

theorem rangeText_of_notMem {isAddress : Bytes → IpAddrBase size → Prop} {text : Bytes}
    (hslash : slash ∉ text) (range : IpRangeBase size) :
    RangeText isAddress text range ↔ isAddress text range.ip ∧ range.mask = fun _ => 255 := by
  constructor
  · intro hrange
    cases hrange with
    | address hip => exact ⟨hip, rfl⟩
    | prefixed | masked => simp at hslash
  · obtain ⟨ip, mask⟩ := range
    rintro ⟨hip, rfl⟩
    exact .address hip

theorem rangeText_append {isAddress : Bytes → IpAddrBase size → Prop}
    (hrejects : ∀ text address, isAddress text address → slash ∉ text) {ipText : Bytes}
    (hslash : slash ∉ ipText) (num : Bytes) (range : IpRangeBase size) :
    RangeText isAddress (ipText ++ slash :: num) range ↔
      isAddress ipText range.ip ∧ MaskText isAddress num range.mask := by
  constructor
  · intro hrange
    generalize htext : ipText ++ slash :: num = text at hrange
    cases hrange with
    | address hip =>
        subst htext
        exact absurd (by simp) (hrejects _ _ hip)
    | prefixed hip hnum hmask =>
        obtain ⟨rfl, rfl⟩ := append_slash_inj hslash (hrejects _ _ hip) htext
        exact ⟨hip, .prefixed hnum hmask⟩
    | masked hip hmask =>
        obtain ⟨rfl, rfl⟩ := append_slash_inj hslash (hrejects _ _ hip) htext
        exact ⟨hip, .masked hmask⟩
  · obtain ⟨ip, mask⟩ := range
    rintro ⟨hip, hnum | hmask⟩
    · exact .prefixed hip hnum ‹_›
    · exact .masked hip hmask

/-! ## Masks -/

theorem IsPrefixMask.unique {left right : IpAddrBase size} {count : ℕ}
    (hleft : IsPrefixMask left count) (hright : IsPrefixMask right count) : left = right := by
  funext byte
  apply byte_ext
  intro position hposition
  rw [← bit_of_byte left byte hposition, ← bit_of_byte right byte hposition,
    hleft _ (by omega), hright _ (by omega)]

theorem isPrefixMask_ones : IsPrefixMask (fun _ => 255 : IpAddrBase size) (8 * size) := by
  have hbyte : ∀ position : Fin 8, bitAt 255 position = true := by decide
  rw [IsPrefixMask, forall_bits_iff fun i => bit (fun _ => 255 : IpAddrBase size) i =
    decide (i < 8 * size)]
  intro byte position hposition
  rw [bit_of_byte _ byte hposition, hbyte ⟨position, hposition⟩]
  exact (decide_eq_true (by omega)).symm

/-- A prefix length that fits gives a range with this mask. -/
theorem exists_ofPrefix {count : UInt8} (hcount : count.toNat ≤ 8 * size) :
    ∃ mask : IpAddrBase size, IsPrefixMask mask count.toNat ∧
      ∀ ip, IpRangeBase.ofPrefix ip count = .ok ⟨ip, mask⟩ := by
  obtain ⟨mask, hcreate⟩ := (createMask_ok_iff count).2 hcount
  refine ⟨mask, fun i hi => bit_createMask hcreate hi, fun ip => ?_⟩
  rw [IpRangeBase.ofPrefix, hcreate]

/-! ## What the parsers compute -/

section Parsers

variable {inetPton : Bytes → Option (IpAddrBase size)}

/-- The address in a text without NUL. -/
def addressIn (inetPton : Bytes → Option (IpAddrBase size)) (strSize : ℕ) (text : Bytes) :
    Option (IpAddrBase size) :=
  if text.length < strSize then inetPton text else none

theorem addressIn_eq_some_iff (text : Bytes) (address : IpAddrBase size) :
    addressIn inetPton strSize text = some address ↔
      IsAddress inetPton strSize text address := by
  rw [addressIn, IsAddress]
  split
  next hfits => simp [hfits]
  next hlong => simp [hlong]

variable (inetPton) in
theorem fst_parseIpAddressBase (buffer : CharArray strSize) {text : Bytes} (hnul : nul ∉ text) :
    (parseIpAddressBase inetPton buffer text).1 = addressIn inetPton strSize text := by
  rw [addressIn]
  split
  next hfits =>
    rw [parseIpAddressBase_of_fits _ _ hfits, (cString_eq_self_iff text).2 hnul]
  next hlong => rw [parseIpAddressBase_of_long _ _ (Nat.le_of_not_lt hlong)]

variable (ipBuffer maskBuffer : CharArray strSize)

/-- The range of an address and what stands behind the separator. -/
def rangeBehind (inetPton : Bytes → Option (IpAddrBase size)) (strSize : ℕ)
    (ip : IpAddrBase size) (num : Bytes) : Except IpError (Option (IpRangeBase size)) :=
  if num = [] then .ok none
  else if parseMask size num ≠ invalidMask then
    (IpRangeBase.ofPrefix ip (parseMask size num)).map some
  else .ok ((addressIn inetPton strSize num).map (IpRangeBase.mk ip))

/-- A text with a separator is taken apart at the first one. -/
theorem parse_append {ipText num : Bytes} (hnul : nul ∉ ipText ++ slash :: num)
    (hslash : slash ∉ ipText) :
    (parseIpRangeBase inetPton ipBuffer maskBuffer (ipText ++ slash :: num)).1 =
      match addressIn inetPton strSize ipText with
      | none => .ok none
      | some ip => rangeBehind inetPton strSize ip num := by
  rw [List.mem_append, List.mem_cons, not_or, not_or] at hnul
  obtain ⟨hip, hnum⟩ := parts_append hslash num
  have haddress := fst_parseIpAddressBase inetPton ipBuffer hnul.1
  have hmask := fst_parseIpAddressBase inetPton maskBuffer hnul.2.2
  rw [parseIpRangeBase, hip, hnum, ← haddress]
  simp only [rangeBehind, ← hmask]
  generalize parseIpAddressBase inetPton ipBuffer ipText = parsed
  generalize parseIpAddressBase inetPton maskBuffer num = parsedMask
  obtain ⟨address, handed⟩ := parsed
  obtain ⟨mask, more⟩ := parsedMask
  cases address with
  | none => rfl
  | some ip =>
      simp only
      repeat' split
      all_goals simp_all

theorem parse_of_notMem (hsize : size * bytesInBits < 255) {text : Bytes} (hnul : nul ∉ text)
    (hslash : slash ∉ text) :
    (parseIpRangeBase inetPton ipBuffer maskBuffer text).1 =
      .ok ((addressIn inetPton strSize text).map fun ip => ⟨ip, fun _ => 255⟩) := by
  obtain ⟨hip, hnum⟩ := parts_of_notMem hslash
  have haddress := fst_parseIpAddressBase inetPton ipBuffer hnul
  have hbits : (UInt8.ofNat (size * bytesInBits)).toNat = 8 * size := by
    rw [UInt8.toNat_ofNat', Nat.mod_eq_of_lt (by omega)]
    exact Nat.mul_comm ..
  obtain ⟨mask, hmask, hrange⟩ := exists_ofPrefix (Nat.le_of_eq hbits)
  rw [hbits] at hmask
  obtain rfl := hmask.unique isPrefixMask_ones
  rw [parseIpRangeBase, hip, hnum, ← haddress]
  generalize parseIpAddressBase inetPton ipBuffer text = parsed
  obtain ⟨address, handed⟩ := parsed
  cases address with
  | none => rfl
  | some ip =>
      simp only [hrange]
      rfl

/-- A prefix length behind the separator. -/
theorem rangeBehind_prefixed (hsize : size * bytesInBits < 255) {num : Bytes}
    (hnum : IsPrefixLength size num) :
    ∃ mask : IpAddrBase size, IsPrefixMask mask (decimalValue num) ∧
      ∀ ip, rangeBehind inetPton strSize ip num = .ok (some ⟨ip, mask⟩) := by
  have hvalue := parseMask_of_isPrefixLength hsize hnum
  have hcount : (parseMask size num).toNat ≤ 8 * size := by
    rw [hvalue, Nat.mul_comm]
    exact hnum.2.2
  obtain ⟨mask, hmask, hrange⟩ := exists_ofPrefix hcount
  rw [hvalue] at hmask
  refine ⟨mask, hmask, fun ip => ?_⟩
  rw [rangeBehind, if_neg hnum.1, if_pos (parseMask_ne_invalidMask hsize hnum), hrange]
  rfl

/-- Any other text behind the separator is taken for an address. -/
theorem rangeBehind_masked {num : Bytes} (hempty : num ≠ [])
    (hnum : ¬IsPrefixLength size num) (ip : IpAddrBase size) :
    rangeBehind inetPton strSize ip num =
      .ok ((addressIn inetPton strSize num).map (IpRangeBase.mk ip)) := by
  rw [rangeBehind, if_neg hempty, parseMask_of_not_isPrefixLength hnum, if_neg (not_not.2 rfl)]

/-! ## The language -/

variable (hrejects : Rejects inetPton)

include hrejects

theorem addressIn_nil : addressIn inetPton strSize [] = none := by
  rw [addressIn, hrejects.digits [] (by simp), ite_self]

theorem slash_notMem_of_isAddress {text : Bytes} {address : IpAddrBase size}
    (haddress : IsAddress inetPton strSize text address) : slash ∉ text := by
  intro hslash
  have hread := haddress.1
  rw [hrejects.slash text hslash] at hread
  cases hread

/-- A prefix length is made of digits, so that it cannot be an address as well. -/
theorem not_isAddress_of_isPrefixLength {num : Bytes} (hnum : IsPrefixLength size num)
    (mask : IpAddrBase size) : ¬IsAddress inetPton strSize num mask := by
  rintro ⟨hmask, -⟩
  rw [hrejects.digits num hnum.2.1] at hmask
  cases hmask

variable (strSize) in
/-- Behind the separator there is at most one mask, and the parser finds it. -/
theorem exists_mask (hsize : size * bytesInBits < 255) (num : Bytes) :
    ∃ found : Option (IpAddrBase size),
      (∀ ip, rangeBehind inetPton strSize ip num = .ok (found.map (IpRangeBase.mk ip))) ∧
      ∀ mask, found = some mask ↔ MaskText (IsAddress inetPton strSize) num mask := by
  by_cases hnum : IsPrefixLength size num
  · obtain ⟨mask, hmask, hrange⟩ := rangeBehind_prefixed hsize hnum
    refine ⟨some mask, hrange, fun other => ?_⟩
    rw [Option.some.injEq]
    constructor
    · rintro rfl
      exact .prefixed hnum hmask
    · intro hother
      cases hother with
      | prefixed _ hother => exact hmask.unique hother
      | masked hother => exact absurd hother (not_isAddress_of_isPrefixLength hrejects hnum _)
  · refine ⟨addressIn inetPton strSize num, fun ip => ?_, fun mask => ?_⟩
    · by_cases hempty : num = []
      · rw [rangeBehind, if_pos hempty, hempty, addressIn_nil hrejects]
        rfl
      · exact rangeBehind_masked hempty hnum ip
    · rw [addressIn_eq_some_iff]
      constructor
      · exact .masked
      · intro hmask
        cases hmask with
        | prefixed hother _ => exact absurd hother hnum
        | masked hmask => exact hmask

/-- In a text there is at most one range, and the parser finds it; it never throws. -/
theorem exists_range (hsize : size * bytesInBits < 255) {text : Bytes} (hnul : nul ∉ text) :
    ∃ retval, (parseIpRangeBase inetPton ipBuffer maskBuffer text).1 = .ok retval ∧
      ∀ range, retval = some range ↔ RangeText (IsAddress inetPton strSize) text range := by
  by_cases hslash : slash ∈ text
  · obtain ⟨ipText, num, rfl, hfirst⟩ := List.eq_append_cons_of_mem hslash
    obtain ⟨found, hrange, hfound⟩ := exists_mask strSize hrejects hsize num
    rw [parse_append ipBuffer maskBuffer hnul hfirst]
    simp only [rangeText_append (fun _ _ => slash_notMem_of_isAddress hrejects) hfirst, ← hfound]
    simp only [← addressIn_eq_some_iff]
    cases addressIn inetPton strSize ipText with
    | none => exact ⟨none, rfl, by simp⟩
    | some ip =>
        refine ⟨found.map (IpRangeBase.mk ip), hrange ip, ?_⟩
        rintro ⟨other, mask⟩
        simp [and_comm, eq_comm]
  · rw [parse_of_notMem ipBuffer maskBuffer hsize hnul hslash]
    refine ⟨_, rfl, ?_⟩
    rintro ⟨other, mask⟩
    rw [rangeText_of_notMem hslash, ← addressIn_eq_some_iff]
    cases addressIn inetPton strSize text with
    | none => simp
    | some ip => simp [eq_comm]

end Parsers

/-- What a parser returns for a text: the range written there, or nothing if there is
none.  An address too long for the buffer is not seen; where `inet_pton` reads no such
texts, the grammar is that of its addresses. -/
def ReadsRange (inetPton : Bytes → Option (IpAddrBase size)) (strSize : ℕ) (text : Bytes)
    (outcome : Except IpError (Option (IpRangeBase size))) : Prop :=
  ∃ retval, outcome = .ok retval ∧
    (∀ range, retval = some range ↔ RangeText (IsAddress inetPton strSize) text range) ∧
    ((∀ address ip, inetPton address = some ip → address.length < strSize) →
      ∀ range, retval = some range ↔
        RangeText (fun address ip => inetPton address = some ip) text range)

theorem readsRange {inetPton : Bytes → Option (IpAddrBase size)} (hrejects : Rejects inetPton)
    (hsize : size * bytesInBits < 255) (ipBuffer maskBuffer : CharArray strSize) {text : Bytes}
    (hnul : nul ∉ text) :
    ReadsRange inetPton strSize text
      (parseIpRangeBase inetPton ipBuffer maskBuffer text).1 := by
  obtain ⟨retval, hparse, hretval⟩ := exists_range ipBuffer maskBuffer hrejects hsize hnul
  refine ⟨retval, hparse, hretval, fun hshort => ?_⟩
  have hplain : IsAddress inetPton strSize = fun address ip => inetPton address = some ip := by
    funext address ip
    exact propext (and_iff_left_of_imp (hshort address ip))
  rwa [hplain] at hretval

/-- For every text without NUL, both parsers accept exactly the three forms of a range,
with the mask that belongs to the form, and return nothing for every other text. -/
theorem range_grammar (lib : AddressLibrary) (hv4 : Rejects lib.inetPton4)
    (hv6 : Rejects lib.inetPton6) (buffers : Buffers) {text : Bytes} (hnul : nul ∉ text) :
    ReadsRange lib.inetPton4 inetAddrstrlen text (parseIp4Range lib buffers text).1 ∧
      ReadsRange lib.inetPton6 inet6Addrstrlen text (parseIp6Range lib buffers text).1 :=
  ⟨readsRange hv4 (by decide) buffers.v4 buffers.v4Mask hnul,
    readsRange hv6 (by decide) buffers.v6 buffers.v6Mask hnul⟩

/-- A library that knows the addresses `1.2.3.4` and `::`. -/
def twoAddresses : AddressLibrary where
  inetPton4 text := if text = [49, 46, 50, 46, 51, 46, 52] then some ![1, 2, 3, 4] else none
  inetPton6 text := if text = [58, 58] then some fun _ => 0 else none

theorem rejects_of_single {address : Bytes} (ip : IpAddrBase size) (hslash : slash ∉ address)
    (hdigits : ¬∀ ch ∈ address, isDigit ch = true) :
    Rejects fun text => if text = address then some ip else none where
  slash text htext := if_neg fun heq : text = address => hslash (heq ▸ htext)
  digits text htext := if_neg fun heq : text = address => hdigits (heq ▸ htext)

/-- Buffers with zeros in them. -/
def zeroBuffers : Buffers where
  v4 := ⟨List.replicate inetAddrstrlen 0, List.length_replicate⟩
  v6 := ⟨List.replicate inet6Addrstrlen 0, List.length_replicate⟩
  v4Mask := ⟨List.replicate inetAddrstrlen 0, List.length_replicate⟩
  v6Mask := ⟨List.replicate inet6Addrstrlen 0, List.length_replicate⟩

/-- `1.2.3.4/024` is a range of the first family. -/
theorem range_grammar_example :
    ∃ range : Ipv4Range,
      (parseIp4Range twoAddresses zeroBuffers [49, 46, 50, 46, 51, 46, 52, 47, 48, 50, 52]).1 =
        .ok (some range) ∧ range.ip = ![1, 2, 3, 4] ∧ IsPrefixMask range.mask 24 := by
  have hv4 : Rejects twoAddresses.inetPton4 := rejects_of_single _ (by decide) (by decide)
  have hv6 : Rejects twoAddresses.inetPton6 := rejects_of_single _ (by decide) (by decide)
  have hnul : nul ∉ [49, 46, 50, 46, 51, 46, 52, 47, 48, 50, 52] := by decide
  obtain ⟨retval, hparse, hretval, -⟩ :=
    (range_grammar twoAddresses hv4 hv6 zeroBuffers hnul).1
  obtain ⟨mask, hmask, -⟩ := exists_ofPrefix (show (24 : UInt8).toNat ≤ 8 * ipv4Size by decide)
  have hip : IsAddress twoAddresses.inetPton4 inetAddrstrlen [49, 46, 50, 46, 51, 46, 52]
      ![1, 2, 3, 4] := ⟨rfl, by decide⟩
  have hnum : IsPrefixLength ipv4Size [48, 50, 52] :=
    ⟨by decide, List.all_eq_true.1 (by decide), by decide⟩
  have hrange := (hretval ⟨![1, 2, 3, 4], mask⟩).2 (.prefixed hip hnum hmask)
  exact ⟨_, hparse.trans (congrArg Except.ok hrange), rfl, hmask⟩

end Nstl.RangeGrammar
