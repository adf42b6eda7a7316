import Mathlib.Algebra.Group.Nat.Defs
import Nstl.Core.Memory
import Nstl.Net.IpRange

/-!
# SVCB parameters

`resolve_params` walks over the parameters of an SVCB record: a sequence of
triples of a 16-bit key, a 16-bit length and a value of that length, with a
format of its own for the value of every key.  A value that is malformed for its
key is passed over; a triple that is cut short ends the walk.

The walk runs on a window of memory, so the model also says which bytes are
looked at.  What the result has to be is stated without reference to the walk,
by the meaning of a triple.
-/

namespace Nstl.SvcbParams

open Nstl.ByteString
open Nstl.Framing
open Nstl.IpRange (Ipv4Addr Ipv6Addr ipv4Size ipv6Size)
open Nstl.Memory

inductive SvcParamKey where
  | mandatory
  | alpn
  | noDefAlpn
  | port
  | ipv4Hint
  | ech
  | ipv6Hint
  | dohPath
  deriving DecidableEq, Repr

def SvcParamKey.code : SvcParamKey → UInt16
  | mandatory => 0
  | alpn => 1
  | noDefAlpn => 2
  | port => 3
  | ipv4Hint => 4
  | ech => 5
  | ipv6Hint => 6
  | dohPath => 7

/-- `svcb_param`. -/
inductive SvcbParam where
  | noDefaultAlpn
  | mandatory (keys : List UInt16)
  | dohPath (path : Bytes)
  | port (value : UInt16)
  | alpns (values : List Bytes)
  | ipv4s (addresses : List Ipv4Addr)
  | ipv6s (addresses : List Ipv6Addr)

/-! ## The walk -/

section Walk

variable (window : Window)

/-- The loop over the protocol names of an ALPN value.  The absence of a result
is the flag `valid` being cleared. -/
def readAlpns (q vend : ℕ) : Except Fault (Option (List Bytes)) :=
  if q < vend then do
    let length ← window.read q
    if vend < q + 1 + length.toNat then
      return none
    else
      let value ← window.readBytes (q + 1) length.toNat
      let rest ← readAlpns (q + 1 + length.toNat) vend
      return rest.map (value :: ·)
  else return some []
termination_by vend - q

/-- A loop `for (uint16_t idx = 0; idx < len; idx += step)` that stores one item
per round, from the round with index `idx` on. -/
def readItems {Item : Type} (readItem : ℕ → Except Fault Item) (v len step : ℕ)
    (hstep : 0 < step) (idx : ℕ) : Except Fault (List Item) :=
  if idx < len then do
    let item ← readItem (v + idx)
    if idx + step < 2 ^ 16 then
      let rest ← readItems readItem v len step hstep (idx + step)
      return item :: rest
    else .error (.indexWrap idx)
  else return []
termination_by len - idx

/-- The `memcpy` of an address out of a hint. -/
def readAddress (size address : ℕ) : Except Fault (Fin size → Byte) := do
  let bytes ← window.readBytes address size
  return fun index => bytes.getD index 0

/-- The `switch` over the key: the parameter to be stored, if any. -/
def resolveValue (key : UInt16) (v len : ℕ) : Except Fault (Option SvcbParam) :=
  if key = SvcParamKey.alpn.code then do
    let alpns ← readAlpns window v (v + len)
    return alpns.map .alpns
  else if key = SvcParamKey.port.code then
    if len = 2 then do
      let port ← window.readGet16 v
      return some (.port port)
    else return none
  else if key = SvcParamKey.mandatory.code then
    if len % 2 = 0 then do
      let keys ← readItems window.readGet16 v len 2 (by decide) 0
      return some (.mandatory keys)
    else return none
  else if key = SvcParamKey.ipv4Hint.code then
    if len % ipv4Size = 0 then do
      let ipv4s ← readItems (readAddress window ipv4Size) v len ipv4Size (by decide) 0
      return some (.ipv4s ipv4s)
    else return none
  else if key = SvcParamKey.ipv6Hint.code then
    if len % ipv6Size = 0 then do
      let ipv6s ← readItems (readAddress window ipv6Size) v len ipv6Size (by decide) 0
      return some (.ipv6s ipv6s)
    else return none
  else if key = SvcParamKey.noDefAlpn.code then
    return some .noDefaultAlpn
  else if key = SvcParamKey.dohPath.code then do
    let dohPath ← window.readBytes v len
    return some (.dohPath dohPath)
  else return none

/-- The main loop, from the position `p` on. -/
def resolveFrom (p : ℕ) : Except Fault (List SvcbParam) :=
  if p + 4 ≤ window.last then do
    let key ← window.readGet16 p
    let len ← window.readGet16 (p + 2)
    if window.last < p + 4 + len.toNat then
      return []
    else
      let param ← resolveValue window key (p + 4) len.toNat
      let rest ← resolveFrom (p + 4 + len.toNat)
      return param.toList ++ rest
  else return []
termination_by window.last - p

end Walk

/-- `resolve_params(p, end)`. -/
def resolveParams (memory : ℕ → Byte) (p last : ℕ) :
    Except Fault (List SvcbParam) :=
  resolveFrom ⟨memory, p, last⟩ p

/-! ## What the parameters mean -/

/-- A key with its value, whose length fits the length field. -/
structure Triple where
  key : UInt16
  value : Bytes
  value_fits : value.length < 2 ^ 16

def Triple.encode (triple : Triple) : Bytes :=
  bigEndian16 triple.key ++ bigEndian16 (UInt16.ofNat triple.value.length) ++
    triple.value

/-- The parameter that a value denotes under its key.  Unknown keys, and values
of no such form, denote nothing. -/
def Denotes (key : UInt16) (value : Bytes) : SvcbParam → Prop
  | .alpns alpns => key = SvcParamKey.alpn.code ∧ Tiled value alpns
  | .port port => key = SvcParamKey.port.code ∧ value = bigEndian16 port
  | .mandatory keys =>
      key = SvcParamKey.mandatory.code ∧ value = keys.flatMap bigEndian16
  | .ipv4s addresses =>
      key = SvcParamKey.ipv4Hint.code ∧
        value = addresses.flatMap fun address => List.ofFn address
  | .ipv6s addresses =>
      key = SvcParamKey.ipv6Hint.code ∧
        value = addresses.flatMap fun address => List.ofFn address
  | .noDefaultAlpn => key = SvcParamKey.noDefAlpn.code
  | .dohPath path => key = SvcParamKey.dohPath.code ∧ value = path

/-! ## The loops over the items of a value -/

section Values

variable {window : Window}

/-- The ALPN loop succeeds exactly on the values that are tiled by strings
behind their length, and returns those strings. -/
theorem readAlpns_spec (q length : ℕ) (hcovers : window.Covers q length) :
    ∃ result, readAlpns window q (q + length) = .ok result ∧
      ∀ alpns, result = some alpns ↔
        Tiled (contents window.memory q length) alpns := by
  induction length using Nat.strong_induction_on generalizing q with
  | _ length ih =>
      cases length with
      | zero =>
          refine ⟨some [], ?_, ?_⟩
          · rw [readAlpns, if_neg (by omega)]
            rfl
          · intro alpns
            rw [contents_zero, tiled_nil_iff, Option.some.injEq, eq_comm]
      | succ length =>
          have hread := hcovers.read (by omega)
          rw [contents_succ]
          generalize window.memory q = byte at hread
          by_cases hshort : length < byte.toNat
          · refine ⟨none, ?_, ?_⟩
            · rw [readAlpns, if_pos (by omega), hread]
              exact if_pos (by omega)
            · intro alpns
              cases alpns with
              | nil => simp
              | cons alpn alpns =>
                  rw [tiled_cons_cons_iff, length_contents]
                  simp [hshort]
          · have halpn := (hcovers.mono (q + 1) byte.toNat (by omega) (by omega)).readBytes
            obtain ⟨rest, hrest, hspec⟩ := ih (length - byte.toNat) (by omega)
              (q + 1 + byte.toNat) (hcovers.mono _ _ (by omega) (by omega))
            rw [show q + 1 + byte.toNat + (length - byte.toNat) = q + (length + 1) by
              omega] at hrest
            refine ⟨rest.map (contents window.memory (q + 1) byte.toNat :: ·), ?_, ?_⟩
            · rw [readAlpns, if_pos (by omega), hread]
              refine (if_neg (by omega)).trans ?_
              rw [halpn, hrest]
              rfl
            · intro alpns
              cases alpns with
              | nil => simp
              | cons alpn alpns =>
                  rw [tiled_cons_cons_iff, length_contents, take_contents _ _ (by omega),
                    drop_contents, ← hspec]
                  cases rest with
                  | none => simp
                  | some rest => simp [not_lt.1 hshort, eq_comm]

/-- A loop over items of a fixed size reads the items whose encodings fill the
rest of the value; its 16-bit index does not wrap. -/
theorem readItems_spec {Item : Type} {readItem : ℕ → Except Fault Item}
    {encode : Item → Bytes} {v len step : ℕ} (hstep : 0 < step)
    (hlen : len < 2 ^ 16) (hcovers : window.Covers v len)
    (hitem : ∀ address, window.Covers address step →
      ∃ item, readItem address = .ok item ∧
        encode item = contents window.memory address step)
    (rounds idx : ℕ) (hrounds : idx + rounds * step = len) :
    ∃ items, readItems readItem v len step hstep idx = .ok items ∧
      items.flatMap encode = contents window.memory (v + idx) (len - idx) := by
  induction rounds generalizing idx with
  | zero =>
      refine ⟨[], ?_, ?_⟩
      · rw [readItems, if_neg (by omega)]
        rfl
      · rw [show len - idx = 0 by omega]
        rfl
  | succ rounds ih =>
      rw [Nat.succ_mul] at hrounds
      obtain ⟨item, hread, hencode⟩ := hitem (v + idx)
        (hcovers.mono _ _ (by omega) (by omega))
      obtain ⟨items, hitems, hrest⟩ := ih (idx + step) (by omega)
      refine ⟨item :: items, ?_, ?_⟩
      · rw [readItems, if_pos (by omega), hread]
        refine (if_pos (by omega)).trans ?_
        rw [hitems]
        rfl
      · rw [List.flatMap_cons, hencode, hrest, ← Nat.add_assoc, ← contents_add]
        congr 1
        omega

theorem readAddress_spec (size address : ℕ) (hcovers : window.Covers address size) :
    ∃ item, readAddress window size address = .ok item ∧
      List.ofFn item = contents window.memory address size := by
  refine ⟨fun index => (contents window.memory address size).getD index 0, ?_, ?_⟩
  · rw [readAddress, hcovers.readBytes]
    rfl
  · apply List.ext_getElem
    · simp
    · intro index _ hright
      rw [List.getElem_ofFn, List.getD_eq_getElem?_getD, List.getElem?_eq_getElem hright]
      rfl

/-- What the three loops over items of a fixed size have in common: guarded by
the test of the length, they return the one list whose encoding is the value. -/
theorem guardedItems_spec {Item : Type} {readItem : ℕ → Except Fault Item}
    {encode : Item → Bytes} {v len step : ℕ} (hstep : 0 < step)
    (hlen : len < 2 ^ 16) (hcovers : window.Covers v len)
    (hitem : ∀ address, window.Covers address step →
      ∃ item, readItem address = .ok item ∧
        encode item = contents window.memory address step)
    (hfree : PrefixFree encode) (hlength : ∀ item, (encode item).length = step)
    (param : List Item → SvcbParam) :
    ∃ result,
      (if len % step = 0 then do
          let items ← readItems readItem v len step hstep 0
          return some (param items)
        else return none : Except Fault (Option SvcbParam)) = .ok (result.map param) ∧
      ∀ items, result = some items ↔
        contents window.memory v len = items.flatMap encode := by
  by_cases hmod : len % step = 0
  · have hrounds : 0 + len / step * step = len := by
      rw [Nat.zero_add, Nat.div_mul_cancel (Nat.dvd_of_mod_eq_zero hmod)]
    obtain ⟨items, hread, hitems⟩ :=
      readItems_spec hstep hlen hcovers hitem (len / step) 0 hrounds
    rw [Nat.add_zero, Nat.sub_zero] at hitems
    refine ⟨some items, ?_, ?_⟩
    · rw [if_pos hmod, hread]
      rfl
    · intro others
      rw [← hitems, Option.some.injEq]
      have hne : ∀ item, encode item ≠ [] := by
        intro item hnil
        have hzero := hlength item
        rw [hnil, List.length_nil] at hzero
        omega
      exact (flatMap_injective hfree hne).eq_iff.symm
  · refine ⟨none, ?_, ?_⟩
    · rw [if_neg hmod]
      rfl
    · intro others
      refine iff_of_false (by simp) ?_
      intro heq
      have hlen := congrArg List.length heq
      rw [length_contents, length_flatMap_of_fixedLength hlength] at hlen
      exact hmod (by rw [hlen, Nat.mul_mod_left])

/-- A port is a value of two bytes. -/
theorem guardedPort_spec {v len : ℕ} (hcovers : window.Covers v len) :
    ∃ result : Option UInt16,
      (if len = 2 then do
          let port ← window.readGet16 v
          return some (.port port)
        else return none : Except Fault (Option SvcbParam)) = .ok (result.map .port) ∧
      ∀ port, result = some port ↔ contents window.memory v len = bigEndian16 port := by
  by_cases htwo : len = 2
  · subst htwo
    obtain ⟨port, hread, hencode⟩ := hcovers.readGet16
    refine ⟨some port, ?_, ?_⟩
    · rw [if_pos rfl, hread]
      rfl
    · intro other
      rw [← hencode, Option.some.injEq, bigEndian16_injective.eq_iff]
  · refine ⟨none, ?_, ?_⟩
    · rw [if_neg htwo]
      rfl
    · intro port
      refine iff_of_false (by simp) ?_
      intro heq
      have hlength := congrArg List.length heq
      rw [length_contents, length_bigEndian16] at hlength
      exact htwo hlength

/-- The switch stores a parameter exactly when the value denotes it. -/
theorem resolveValue_spec (key : UInt16) {v len : ℕ} (hlen : len < 2 ^ 16)
    (hcovers : window.Covers v len) :
    ∃ result, resolveValue window key v len = .ok result ∧
      ∀ param, result = some param ↔
        Denotes key (contents window.memory v len) param := by
  by_cases halpn : key = SvcParamKey.alpn.code
  · obtain ⟨alpns, hread, hspec⟩ := readAlpns_spec v len hcovers
    refine ⟨alpns.map .alpns, ?_, ?_⟩
    · rw [resolveValue, if_pos halpn, hread]
      rfl
    · intro param
      cases param <;>
        simp [Denotes, halpn, SvcParamKey.code, ← hspec]
  by_cases hport : key = SvcParamKey.port.code
  · obtain ⟨port, hread, hspec⟩ := guardedPort_spec hcovers
    refine ⟨port.map .port, ?_, ?_⟩
    · rw [resolveValue, if_neg halpn, if_pos hport]
      exact hread
    · intro param
      cases param <;> simp [Denotes, hport, SvcParamKey.code, ← hspec]
  by_cases hmandatory : key = SvcParamKey.mandatory.code
  · obtain ⟨keys, hread, hspec⟩ := guardedItems_spec (by decide) hlen hcovers
      (fun _ hitem => hitem.readGet16) prefixFree_bigEndian16 length_bigEndian16
      .mandatory
    refine ⟨keys.map .mandatory, ?_, ?_⟩
    · rw [resolveValue, if_neg halpn, if_neg hport, if_pos hmandatory]
      exact hread
    · intro param
      cases param <;> simp [Denotes, hmandatory, SvcParamKey.code, ← hspec]
  by_cases hipv4 : key = SvcParamKey.ipv4Hint.code
  · obtain ⟨addresses, hread, hspec⟩ := guardedItems_spec (by decide) hlen hcovers
      (readAddress_spec ipv4Size) (prefixFree_ofFn ipv4Size)
      (fun _ => List.length_ofFn) .ipv4s
    refine ⟨addresses.map .ipv4s, ?_, ?_⟩
    · rw [resolveValue, if_neg halpn, if_neg hport, if_neg hmandatory, if_pos hipv4]
      exact hread
    · intro param
      cases param <;> simp [Denotes, hipv4, SvcParamKey.code, ← hspec]
  by_cases hipv6 : key = SvcParamKey.ipv6Hint.code
  · obtain ⟨addresses, hread, hspec⟩ := guardedItems_spec (by decide) hlen hcovers
      (readAddress_spec ipv6Size) (prefixFree_ofFn ipv6Size)
      (fun _ => List.length_ofFn) .ipv6s
    refine ⟨addresses.map .ipv6s, ?_, ?_⟩
    · rw [resolveValue, if_neg halpn, if_neg hport, if_neg hmandatory,
        if_neg hipv4, if_pos hipv6]
      exact hread
    · intro param
      cases param <;> simp [Denotes, hipv6, SvcParamKey.code, ← hspec]
  by_cases hnoDef : key = SvcParamKey.noDefAlpn.code
  · refine ⟨some .noDefaultAlpn, ?_, ?_⟩
    · rw [resolveValue, if_neg halpn, if_neg hport, if_neg hmandatory,
        if_neg hipv4, if_neg hipv6, if_pos hnoDef]
      rfl
    · intro param
      cases param <;> simp [Denotes, hnoDef, SvcParamKey.code]
  by_cases hdoh : key = SvcParamKey.dohPath.code
  · refine ⟨some (.dohPath (contents window.memory v len)), ?_, ?_⟩
    · rw [resolveValue, if_neg halpn, if_neg hport, if_neg hmandatory,
        if_neg hipv4, if_neg hipv6, if_neg hnoDef, if_pos hdoh, hcovers.readBytes]
      rfl
    · intro param
      cases param <;> simp [Denotes, hdoh, SvcParamKey.code]
  refine ⟨none, ?_, ?_⟩
  · rw [resolveValue, if_neg halpn, if_neg hport, if_neg hmandatory, if_neg hipv4,
      if_neg hipv6, if_neg hnoDef, if_neg hdoh]
    rfl
  · intro param
    cases param <;>
      simp [Denotes, halpn, hport, hmandatory, hipv4, hipv6, hnoDef, hdoh]

end Values

/-- A value of a length that fits the length field denotes at most one
parameter. -/
theorem Denotes.unique {key : UInt16} {value : Bytes}
    (hvalue : value.length < 2 ^ 16) {left right : SvcbParam}
    (hleft : Denotes key value left) (hright : Denotes key value right) :
    left = right := by
  let window : Window := ⟨storing 0 value, 0, value.length⟩
  have hcovers : window.Covers 0 value.length := ⟨le_refl 0, by simp [window]⟩
  obtain ⟨result, _, hspec⟩ := resolveValue_spec key hvalue hcovers
  rw [contents_storing] at hspec
  have heq : some left = some right :=
    ((hspec left).2 hleft).symm.trans ((hspec right).2 hright)
  exact Option.some.inj heq

open Classical in
/-- The parameter denoted by a triple, if it denotes one. -/
noncomputable def Triple.meaning (triple : Triple) : Option SvcbParam :=
  if hdenotes : ∃ param, Denotes triple.key triple.value param then
    some hdenotes.choose
  else none

theorem Triple.meaning_eq_some_iff (triple : Triple) (param : SvcbParam) :
    triple.meaning = some param ↔ Denotes triple.key triple.value param := by
  rw [Triple.meaning]
  by_cases hdenotes : ∃ param, Denotes triple.key triple.value param
  · rw [dif_pos hdenotes, Option.some.injEq]
    constructor
    · intro heq
      rw [← heq]
      exact hdenotes.choose_spec
    · exact Denotes.unique triple.value_fits hdenotes.choose_spec
  · rw [dif_neg hdenotes]
    exact iff_of_false (by simp) (fun h => hdenotes ⟨param, h⟩)

theorem Triple.toNat_length (triple : Triple) :
    (UInt16.ofNat triple.value.length).toNat = triple.value.length := by
  rw [UInt16.toNat_ofNat']
  exact Nat.mod_eq_of_lt triple.value_fits

theorem Triple.prefixFree_encode : PrefixFree Triple.encode := by
  intro left right leftRest rightRest heq
  simp only [Triple.encode, List.append_assoc] at heq
  obtain ⟨hkey, heq⟩ := prefixFree_bigEndian16 _ _ _ _ heq
  obtain ⟨hlength, heq⟩ := prefixFree_bigEndian16 _ _ _ _ heq
  have hlength : left.value.length = right.value.length := by
    rw [← left.toNat_length, ← right.toNat_length, hlength]
  obtain ⟨hvalue, hrest⟩ := List.append_inj heq hlength
  refine ⟨?_, hrest⟩
  cases left
  cases right
  simp_all

/-! ## The whole walk -/

/-- Where the walk stops, no complete triple follows; the triples before that
point have been replaced by what they denote. -/
theorem resolveFrom_spec (window : Window) (p : ℕ) (hfirst : window.first ≤ p) :
    ∃ (triples : List Triple) (rest : Bytes),
      contents window.memory p (window.last - p) =
        triples.flatMap Triple.encode ++ rest ∧
      ¬ StartsWithItem Triple.encode rest ∧
      resolveFrom window p = .ok (triples.filterMap Triple.meaning) := by
  generalize hremaining : window.last - p = remaining
  induction remaining using Nat.strong_induction_on generalizing p with
  | _ remaining ih =>
      by_cases hheader : p + 4 ≤ window.last
      · have hcovers : window.Covers p remaining := ⟨hfirst, by omega⟩
        obtain ⟨key, hkey, hkeyStored⟩ :=
          (hcovers.mono p 2 (by omega) (by omega)).readGet16
        obtain ⟨len, hlen, hlenStored⟩ :=
          (hcovers.mono (p + 2) 2 (by omega) (by omega)).readGet16
        have hstored : contents window.memory p remaining =
            bigEndian16 key ++ (bigEndian16 len ++
              contents window.memory (p + 4) (remaining - 4)) := by
          rw [hkeyStored, hlenStored, ← contents_add, ← contents_add]
          congr 1
          omega
        by_cases htruncated : window.last < p + 4 + len.toNat
        · refine ⟨[], contents window.memory p remaining, by simp, ?_, ?_⟩
          · intro hitem
            obtain ⟨triple, rest, heq⟩ := hitem
            simp only [hstored, Triple.encode, List.append_assoc] at heq
            obtain ⟨_, heq⟩ := prefixFree_bigEndian16 _ _ _ _ heq
            obtain ⟨hlength, heq⟩ := prefixFree_bigEndian16 _ _ _ _ heq
            have htotal := congrArg List.length heq
            rw [length_contents, List.length_append, ← triple.toNat_length,
              ← hlength] at htotal
            omega
          · rw [resolveFrom, if_pos hheader, hkey, hlen]
            exact if_pos htruncated
        · have hvalue := hcovers.mono (p + 4) len.toNat (by omega) (by omega)
          obtain ⟨param, hparam, hspec⟩ :=
            resolveValue_spec key len.toNat_lt hvalue
          obtain ⟨triples, rest, hrest, hstop, hresolve⟩ :=
            ih (remaining - 4 - len.toNat) (by omega) (p + 4 + len.toNat) (by omega)
              (by omega)
          let triple : Triple :=
            ⟨key, contents window.memory (p + 4) len.toNat, by
              rw [length_contents]
              exact len.toNat_lt⟩
          have hmeaning : triple.meaning = param := by
            apply Option.ext
            intro other
            rw [triple.meaning_eq_some_iff, hspec]
          refine ⟨triple :: triples, rest, ?_, hstop, ?_⟩
          · rw [hstored, List.flatMap_cons, List.append_assoc, ← hrest, Triple.encode,
              length_contents, UInt16.ofNat_toNat, List.append_assoc, List.append_assoc,
              ← contents_add]
            congr 3
            omega
          · rw [resolveFrom, if_pos hheader, hkey, hlen]
            refine (if_neg htruncated).trans ?_
            rw [hparam, hresolve, List.filterMap_cons, hmeaning]
            cases param <;> rfl
      · refine ⟨[], contents window.memory p remaining, by simp, ?_, ?_⟩
        · intro hitem
          obtain ⟨triple, rest, heq⟩ := hitem
          have htotal := congrArg List.length heq
          simp only [length_contents, Triple.encode, List.length_append,
            length_bigEndian16] at htotal
          omega
        · rw [resolveFrom, if_neg hheader]
          rfl

/-- The walk never ends in a fault. -/
theorem resolveParams_ne_error (memory : ℕ → Byte) (p last : ℕ) (fault : Fault) :
    resolveParams memory p last ≠ .error fault := by
  obtain ⟨triples, _, _, _, hresolve⟩ :=
    resolveFrom_spec ⟨memory, p, last⟩ p (le_refl p)
  rw [resolveParams, hresolve]
  simp

/-- The parameters that a record carries on the wire: the key and the value that
denote a parameter, for the parameters that have such a value at all. -/
def encodeValue : SvcbParam → Option (SvcParamKey × Bytes)
  | .alpns alpns =>
      if ∀ alpn ∈ alpns, alpn.length < 256 then
        some (.alpn, alpns.flatMap lengthPrefixed)
      else none
  | .port port => some (.port, bigEndian16 port)
  | .mandatory keys => some (.mandatory, keys.flatMap bigEndian16)
  | .ipv4s addresses =>
      some (.ipv4Hint, addresses.flatMap fun address => List.ofFn address)
  | .ipv6s addresses =>
      some (.ipv6Hint, addresses.flatMap fun address => List.ofFn address)
  | .noDefaultAlpn => some (.noDefAlpn, [])
  | .dohPath path => some (.dohPath, path)

def encodeParam (param : SvcbParam) : Option Triple :=
  match encodeValue param with
  | none => none
  | some (key, value) =>
      if hvalue : value.length < 2 ^ 16 then some ⟨key.code, value, hvalue⟩ else none

/-- The wire form of a list of parameters. -/
def encodeParams (params : List SvcbParam) : Option Bytes :=
  (params.mapM encodeParam).map fun triples => triples.flatMap Triple.encode

theorem denotes_of_encodeValue {param : SvcbParam} {key : SvcParamKey}
    {value : Bytes} (hencode : encodeValue param = some (key, value)) :
    Denotes key.code value param := by
  cases param with
  | alpns alpns =>
      by_cases halpns : ∀ alpn ∈ alpns, alpn.length < 256
      · rw [encodeValue, if_pos halpns, Option.some.injEq, Prod.mk.injEq] at hencode
        obtain ⟨rfl, rfl⟩ := hencode
        exact ⟨rfl, rfl, halpns⟩
      · rw [encodeValue, if_neg halpns] at hencode
        exact absurd hencode (by simp)
  | _ =>
      rw [encodeValue, Option.some.injEq, Prod.mk.injEq] at hencode
      obtain ⟨rfl, rfl⟩ := hencode
      simp [Denotes]

theorem meaning_of_encodeParam {param : SvcbParam} {triple : Triple}
    (hencode : encodeParam param = some triple) : triple.meaning = some param := by
  rw [Triple.meaning_eq_some_iff]
  rw [encodeParam] at hencode
  cases hvalue : encodeValue param with
  | none => simp [hvalue] at hencode
  | some pair =>
      simp only [hvalue, Option.dite_none_right_eq_some, Option.some.injEq] at hencode
      obtain ⟨_, rfl⟩ := hencode
      exact denotes_of_encodeValue hvalue

theorem filterMap_meaning_of_encode (params : List SvcbParam) (triples : List Triple)
    (hencode : params.mapM encodeParam = some triples) :
    triples.filterMap Triple.meaning = params := by
  induction params generalizing triples with
  | nil =>
      rw [List.mapM_nil] at hencode
      obtain rfl := Option.some.inj hencode
      rfl
  | cons param params ih =>
      rw [List.mapM_cons] at hencode
      obtain ⟨triple, htriple, hencode⟩ := Option.bind_eq_some_iff.1 hencode
      obtain ⟨rest, hrest, hencode⟩ := Option.bind_eq_some_iff.1 hencode
      obtain rfl := Option.some.inj hencode
      rw [List.filterMap_cons, meaning_of_encodeParam htriple, ih rest hrest]

/-- Parameter decoding.  The walk ends without a fault, whatever the bytes
between `p` and `last` are: it reads nothing else and wraps no index.  Its
result is what the longest readable sequence of triples denotes; in particular
the wire form of a list of parameters is decoded to that list. -/
theorem resolveParams_spec (memory : ℕ → Byte) (p last : ℕ) :
    (∃ (triples : List Triple) (rest : Bytes),
      contents memory p (last - p) = triples.flatMap Triple.encode ++ rest ∧
      (∀ (others : List Triple) (otherRest : Bytes),
        contents memory p (last - p) = others.flatMap Triple.encode ++ otherRest →
          others <+: triples) ∧
      resolveParams memory p last = .ok (triples.filterMap Triple.meaning)) ∧
    ∀ params, encodeParams params = some (contents memory p (last - p)) →
      resolveParams memory p last = .ok params := by
  obtain ⟨triples, rest, hcontents, hstop, hresolve⟩ :=
    resolveFrom_spec ⟨memory, p, last⟩ p (le_refl p)
  have hlongest : ∀ (others : List Triple) (otherRest : Bytes),
      contents memory p (last - p) = others.flatMap Triple.encode ++ otherRest →
        others <+: triples := by
    intro others otherRest hothers
    exact isPrefix_of_flatMap_append_eq Triple.prefixFree_encode hstop
      (hcontents.symm.trans hothers)
  refine ⟨⟨triples, rest, hcontents, hlongest, hresolve⟩, ?_⟩
  intro params hparams
  obtain ⟨encoded, hencoded, hwire⟩ := Option.map_eq_some_iff.1 hparams
  have hwire : contents memory p (last - p) = encoded.flatMap Triple.encode ++ [] := by
    rw [List.append_nil, hwire]
  have hnothing : ¬ StartsWithItem Triple.encode [] := by
    intro hitem
    obtain ⟨triple, _, heq⟩ := hitem
    simp [Triple.encode, bigEndian16] at heq
  have hprefix : triples <+: encoded :=
    isPrefix_of_flatMap_append_eq Triple.prefixFree_encode hnothing
      (hwire.symm.trans hcontents)
  have hall := hlongest encoded [] hwire
  have hsame : triples = encoded :=
    hprefix.eq_of_length (le_antisymm hprefix.length_le hall.length_le)
  rw [resolveParams, hresolve, hsame, filterMap_meaning_of_encode params encoded hencoded]

/-- The wire form of `alpn=h2 port=443`, stored at address 7. -/
theorem resolveParams_alpn_port :
    resolveParams (storing 7 [0, 1, 0, 3, 2, 104, 50, 0, 3, 0, 2, 1, 187]) 7 20 =
      .ok [.alpns [[104, 50]], .port 443] :=
  (resolveParams_spec _ 7 20).2 [.alpns [[104, 50]], .port 443] (by decide)

end Nstl.SvcbParams
