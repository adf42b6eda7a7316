import Mathlib.Data.List.TakeDrop
import Nstl.Dns.Client

/-!
# Compressed names in answers

An answer names its target at a fixed place of its data, and the same target can
be spelled in several ways: in full, as a pointer to an earlier occurrence, or as
some labels followed by a pointer.  The queries for MX, CNAME and SRV records
bound the text of a target by the number of bytes of its spelling.  They
therefore return complete names exactly when no target is longer as a text than
as it is spelled.
-/

namespace Nstl.NameCompression

open Nstl.ByteString
open Nstl.DnsMessage
open Nstl.DnsQuery

/-! ## Targets -/

/-- Where a kind of record names its target, and how long its data have to be. -/
structure TargetField where
  type : UInt16
  offset : ℕ
  minLength : ℕ

def mxTarget : TargetField := ⟨nsTypeMx, 2, 3⟩
def cTarget : TargetField := ⟨nsTypeCname, 0, 0⟩
def srvTarget : TargetField := ⟨nsTypeSrv, 6, 7⟩

/-- The target of a record: its complete text and the length of its spelling. -/
structure Target where
  record : RawRecord
  text : Bytes
  spelled : ℕ

/-- What is left of a target when its text is bounded by its spelling. -/
def Target.cut (target : Target) : Target :=
  { target with text := target.text.take target.spelled }

section Targets

variable (lib : Libresolv) (message : Bytes) (field : TargetField)

def targetOf (record : RawRecord) : Option Target :=
  if record.rdlen.toNat < field.minLength then none
  else
    (lib.dnExpand message (record.rdata + field.offset)).map fun name =>
      ⟨record, name.1, name.2⟩

/-- The targets of the answers of the queried type and class IN that parse, in
the order of the answers. -/
def targets : List Target :=
  (List.range (lib.nsMsgCount message)).filterMap fun idx =>
    (matchingRecord lib message field.type idx).bind (targetOf lib message field)

end Targets

/-! ## The walk over the answers -/

/-- A query without a single answer has no result. -/
def present {Item : Type} (items : List Item) : Option (List Item) :=
  if items = [] then none else some items

theorem present_injective {Item : Type} :
    Function.Injective (present : List Item → Option (List Item)) := by
  intro left right heq
  rw [present, present] at heq
  by_cases hleft : left = [] <;> by_cases hright : right = []
  · rw [hleft, hright]
  · simp [hleft, hright] at heq
  · simp [hleft, hright] at heq
  · simpa [hleft, hright] using heq

theorem present_filterMap_isSome_iff {Index Item : Type} (decode : Index → Option Item)
    (indices : List Index) :
    (present (indices.filterMap decode)).isSome = true ↔
      ∃ idx ∈ indices, (decode idx).isSome = true := by
  rw [present]
  by_cases hnil : indices.filterMap decode = []
  · rw [if_pos hnil]
    simpa using List.filterMap_eq_nil_iff.1 hnil
  · rw [if_neg hnil]
    simpa [List.filterMap_eq_nil_iff, Option.ne_none_iff_isSome] using hnil

/-- The loop appends what it can decode to the result it has so far. -/
theorem foldl_answers {Index Item : Type} (decode : Index → Option Item)
    (indices : List Index) (items : List Item) :
    indices.foldl
        (fun retval idx =>
          match decode idx with
          | none => retval
          | some item => some (retval.getD [] ++ [item]))
        (present items) =
      present (items ++ indices.filterMap decode) := by
  induction indices generalizing items with
  | nil => simp
  | cons idx rest ih =>
      cases hdecode : decode idx with
      | none => simpa [hdecode] using ih items
      | some item =>
          have hstep : some ((present items).getD [] ++ [item]) =
              present (items ++ [item]) := by
            by_cases hitems : items = [] <;> simp [present, hitems]
          simp only [List.foldl_cons, hdecode, hstep, List.filterMap_cons, ih,
            List.append_assoc, List.singleton_append]

theorem collectAnswers_eq {Item : Type} (lib : Libresolv) (message : Bytes)
    (tgtType : UInt16) (decode : RawRecord → Option Item) :
    collectAnswers lib message tgtType decode =
      present ((List.range (lib.nsMsgCount message)).filterMap fun idx =>
        (matchingRecord lib message tgtType idx).bind decode) :=
  foldl_answers (fun idx => (matchingRecord lib message tgtType idx).bind decode) _ []

/-- A decoder that only looks at the target of a record collects one item per
target. -/
theorem collectAnswers_of_target {Item : Type} (lib : Libresolv) (message : Bytes)
    (field : TargetField) (decode : RawRecord → Option Item) (answer : Target → Item)
    (hdecode : ∀ record, decode record = (targetOf lib message field record).map answer) :
    collectAnswers lib message field.type decode =
      present ((targets lib message field).map answer) := by
  rw [collectAnswers_eq, targets, List.map_filterMap]
  congr 2
  funext idx
  cases matchingRecord lib message field.type idx with
  | none => rfl
  | some record => exact hdecode record

/-! ## The answers -/

def mxAnswer (message : Bytes) (target : Target) : MxSrv where
  address := target.text
  priority := get16At message target.record.rdata

def srvAnswer (message : Bytes) (target : Target) : GenSrv where
  address := target.text
  port := (get16At message (target.record.rdata + 4)).toUInt64
  priority := get16At message target.record.rdata
  weight := get16At message (target.record.rdata + 2)

section Decoders

variable (lib : Libresolv) (stack : StackBuffer) (message : Bytes) (record : RawRecord)

/-- The text that a decoder takes from the buffer. -/
theorem nameUpTo_of_dnExpand {position length : ℕ} {text : Bytes}
    (hexpand : lib.dnExpand message position = some (text, length)) (limit : ℕ) :
    nameUpTo (nameBuffer stack text) limit = text.take limit := by
  obtain ⟨hnul, htext⟩ := lib.dnExpand_terminated message position text length hexpand
  exact nameUpTo_nameBuffer stack hnul htext limit

theorem mxRecord_eq : mxRecord lib stack message record =
    (targetOf lib message mxTarget record).map fun target => mxAnswer message target.cut := by
  rw [mxRecord, targetOf, mxTarget]
  by_cases hshort : record.rdlen.toNat < 3
  · rw [if_pos hshort, if_pos hshort, Option.map_none]
  rw [if_neg hshort, if_neg hshort]
  cases hexpand : lib.dnExpand message (record.rdata + 2) with
  | none => rfl
  | some name =>
      simp [mxAnswer, Target.cut, nameUpTo_of_dnExpand lib stack message hexpand]

theorem cRecord_eq : cRecord lib stack message record =
    (targetOf lib message cTarget record).map fun target => target.cut.text := by
  rw [cRecord, targetOf, cTarget, if_neg (Nat.not_lt_zero _), Nat.add_zero]
  cases hexpand : lib.dnExpand message record.rdata with
  | none => rfl
  | some name => simp [Target.cut, nameUpTo_of_dnExpand lib stack message hexpand]

theorem srvRecord_eq : srvRecord lib stack message record =
    (targetOf lib message srvTarget record).map fun target => srvAnswer message target.cut := by
  rw [srvRecord, targetOf, srvTarget]
  by_cases hshort : record.rdlen.toNat ≤ 6
  · rw [if_pos hshort, if_pos (Nat.lt_succ_of_le hshort), Option.map_none]
  rw [if_neg hshort, if_neg (fun hlt => hshort (Nat.le_of_lt_succ hlt))]
  cases hexpand : lib.dnExpand message (record.rdata + 6) with
  | none => rfl
  | some name =>
      simp [srvAnswer, Target.cut, nameUpTo_of_dnExpand lib stack message hexpand]

end Decoders

theorem cut_text_eq_iff (target : Target) :
    target.cut.text = target.text ↔ target.text.length ≤ target.spelled :=
  List.take_eq_self_iff _

/-! ## Complete answers -/

section Queries

variable (client : DnsClient) (lib : Libresolv) (resolver : Resolver) (name : Bytes)

/-- The response that a query takes its answers from. -/
def received (tgtType : UInt16) : Option Bytes :=
  (client.processItem lib (resolver name tgtType)).1

/-- The answers with the complete names of their targets. -/
def completeAnswers {Item : Type} (field : TargetField)
    (answer : Bytes → Target → Item) : Option (List Item) :=
  (received client lib resolver name field.type).bind fun message =>
    present ((targets lib message field).map (answer message))

/-- No target in the response is longer as a text than as it is spelled. -/
def TextsFit (field : TargetField) : Prop :=
  ∀ message ∈ received client lib resolver name field.type,
    ∀ target ∈ targets lib message field, target.text.length ≤ target.spelled

theorem query_eq {Item : Type} (tgtType : UInt16)
    (decode : Bytes → RawRecord → Option Item) :
    (client.query lib resolver name tgtType decode).1 =
      (received client lib resolver name tgtType).bind fun message =>
        collectAnswers lib message tgtType (decode message) := by
  rw [DnsClient.query, received]
  rcases client.processItem lib (resolver name tgtType) with ⟨_ | message, next⟩
  · rfl
  · rfl

/-- A query whose decoder cuts the targets returns the complete answers exactly
when there is nothing to cut. -/
theorem query_complete_iff {Item : Type} (field : TargetField)
    (decode : Bytes → RawRecord → Option Item) (answer : Bytes → Target → Item)
    (hdecode : ∀ message record, decode message record =
      (targetOf lib message field record).map fun target => answer message target.cut)
    (hanswer : ∀ message target,
      answer message target.cut = answer message target → target.cut.text = target.text) :
    (client.query lib resolver name field.type decode).1 =
        completeAnswers client lib resolver name field answer ↔
      TextsFit client lib resolver name field := by
  rw [query_eq, completeAnswers, TextsFit]
  cases received client lib resolver name field.type with
  | none => simp
  | some message =>
      have hcut : ∀ target, answer message target.cut = answer message target ↔
          target.text.length ≤ target.spelled := by
        intro target
        rw [← cut_text_eq_iff]
        refine ⟨hanswer message target, fun htext => ?_⟩
        rw [show target.cut = target from congrArg (Target.mk _ · _) htext]
      simp only [Option.bind_some, Option.mem_def, Option.some.injEq, forall_eq']
      rw [collectAnswers_of_target lib message field _ _ (hdecode message),
        present_injective.eq_iff, List.map_inj_left]
      simp only [hcut]

end Queries

/-- The answers to the queries for MX, CNAME and SRV records carry the complete
names of their targets exactly when no target is longer as a text than as it is
spelled; and where that holds, two responses that carry the same records give
the same answers, however their names are spelled. -/
theorem answers_complete_iff (lib : Libresolv) (client client' : DnsClient)
    (resolver resolver' : Resolver) (stack stack' : StackBuffer) (name name' : Bytes) :
    ((client.mxName lib resolver stack name).1 =
        completeAnswers client lib resolver name mxTarget mxAnswer ↔
      TextsFit client lib resolver name mxTarget) ∧
    ((client.cName lib resolver stack name).1 =
        completeAnswers client lib resolver name cTarget (fun _ => Target.text) ↔
      TextsFit client lib resolver name cTarget) ∧
    ((client.srvName lib resolver stack name).1 =
        completeAnswers client lib resolver name srvTarget srvAnswer ↔
      TextsFit client lib resolver name srvTarget) ∧
    (TextsFit client lib resolver name mxTarget →
      TextsFit client' lib resolver' name' mxTarget →
      completeAnswers client lib resolver name mxTarget mxAnswer =
        completeAnswers client' lib resolver' name' mxTarget mxAnswer →
      (client.mxName lib resolver stack name).1 =
        (client'.mxName lib resolver' stack' name').1) ∧
    (TextsFit client lib resolver name cTarget →
      TextsFit client' lib resolver' name' cTarget →
      completeAnswers client lib resolver name cTarget (fun _ => Target.text) =
        completeAnswers client' lib resolver' name' cTarget (fun _ => Target.text) →
      (client.cName lib resolver stack name).1 =
        (client'.cName lib resolver' stack' name').1) ∧
    (TextsFit client lib resolver name srvTarget →
      TextsFit client' lib resolver' name' srvTarget →
      completeAnswers client lib resolver name srvTarget srvAnswer =
        completeAnswers client' lib resolver' name' srvTarget srvAnswer →
      (client.srvName lib resolver stack name).1 =
        (client'.srvName lib resolver' stack' name').1) := by
  have hmx := fun client resolver stack name => query_complete_iff client lib resolver name
    mxTarget (mxRecord lib stack) mxAnswer (mxRecord_eq lib stack)
    (fun _ _ => congrArg MxSrv.address)
  have hc := fun client resolver stack name => query_complete_iff client lib resolver name
    cTarget (cRecord lib stack) (fun _ => Target.text) (cRecord_eq lib stack)
    (fun _ _ htext => htext)
  have hsrv := fun client resolver stack name => query_complete_iff client lib resolver name
    srvTarget (srvRecord lib stack) srvAnswer (srvRecord_eq lib stack)
    (fun _ _ => congrArg GenSrv.address)
  refine ⟨hmx _ _ _ _, hc _ _ _ _, hsrv _ _ _ _, ?_, ?_, ?_⟩
  · intro hfit hfit' hsame
    calc (client.mxName lib resolver stack name).1
        = completeAnswers client lib resolver name mxTarget mxAnswer := (hmx _ _ _ _).2 hfit
      _ = completeAnswers client' lib resolver' name' mxTarget mxAnswer := hsame
      _ = (client'.mxName lib resolver' stack' name').1 := ((hmx _ _ _ _).2 hfit').symm
  · intro hfit hfit' hsame
    calc (client.cName lib resolver stack name).1
        = completeAnswers client lib resolver name cTarget (fun _ => Target.text) :=
          (hc _ _ _ _).2 hfit
      _ = completeAnswers client' lib resolver' name' cTarget (fun _ => Target.text) := hsame
      _ = (client'.cName lib resolver' stack' name').1 := ((hc _ _ _ _).2 hfit').symm
  · intro hfit hfit' hsame
    calc (client.srvName lib resolver stack name).1
        = completeAnswers client lib resolver name srvTarget srvAnswer :=
          (hsrv _ _ _ _).2 hfit
      _ = completeAnswers client' lib resolver' name' srvTarget srvAnswer := hsame
      _ = (client'.srvName lib resolver' stack' name').1 := ((hsrv _ _ _ _).2 hfit').symm

/-! ## One record, two spellings -/

/-- A resolver that answers every query with one packet. -/
def answering (packet : Bytes) (hpacket : packet.length ≤ 65535) : Resolver :=
  fun _ _ _ => ⟨packet.length, packet, by omega⟩

/-- A response that fits the buffer of the client is used as it came. -/
theorem received_answering {lib : Libresolv} {packet : Bytes}
    (hpacket : packet.length ≤ 65535) (hpos : packet ≠ [])
    (hfits : packet.length < buffSize) (hparse : lib.nsInitparse packet = true)
    (name : Bytes) (tgtType : UInt16) :
    received DnsClient.fresh lib (answering packet hpacket) name tgtType = some packet := by
  have hlength : 0 < packet.length := List.length_pos_of_ne_nil hpos
  have hquery : queryLoop (answering packet hpacket name tgtType) 0
      DnsClient.fresh.response =
        (some packet.length, store DnsClient.fresh.response packet) := by
    rw [queryLoop, if_neg (by simpa [answering] using hpos), if_neg]
    · rfl
    · simpa [answering, DnsClient.fresh] using hfits
  have hstore : (store DnsClient.fresh.response packet).take packet.length = packet := by
    have hbuffer : packet.length ≤ DnsClient.fresh.response.length := by
      simpa [DnsClient.fresh] using hfits.le
    rw [store, List.take_of_length_le hbuffer, List.take_left]
  simp [received, DnsClient.processItem, hquery, hstore, hparse]

/-- The response to a query for the MX records of `a.bc`: the name `a.bc` stands
in the question at offset 12, and the only record names its target by the bytes
`target`. -/
def mxResponse (target : Bytes) : Bytes :=
  [0, 0, 129, 128, 0, 1, 0, 1, 0, 0, 0, 0] ++
    [1, 97, 2, 98, 99, 0, 0, 15, 0, 1] ++
    [192, 12, 0, 15, 0, 1, 0, 0, 0, 60, 0, UInt8.ofNat (target.length + 2), 0, 10] ++
    target

/-- `a.bc`, spelled out. -/
def spelledOut : Bytes := [1, 97, 2, 98, 99, 0]

/-- `a.bc`, as a pointer to the question. -/
def pointer : Bytes := [192, 12]

theorem mxName_of_received {client : DnsClient} {lib : Libresolv} (resolver : Resolver)
    (stack : StackBuffer) {name message : Bytes}
    (hreceived : received client lib resolver name nsTypeMx = some message) :
    (client.mxName lib resolver stack name).1 =
      present ((targets lib message mxTarget).map fun target =>
        mxAnswer message target.cut) := by
  rw [DnsClient.mxName, query_eq, hreceived]
  exact collectAnswers_of_target lib message mxTarget _ _ (mxRecord_eq lib stack message)

/-- The text `a.bc`. -/
def dotted : Bytes := [97, 46, 98, 99]

/-- A stack buffer that happens to hold zeros. -/
def zeroStack : StackBuffer := ⟨List.replicate nsMaxDname nul, List.length_replicate ..⟩

/-- Both spellings name the same exchange with the same preference, but the
client returns the complete name only for the one that is spelled out; for the
pointer it returns the first two characters. -/
theorem compressed_mx_address_cut :
    (DnsClient.fresh.mxName reference
        (answering (mxResponse spelledOut) (by decide)) zeroStack dotted).1 =
      some [⟨dotted, 10⟩] ∧
    (DnsClient.fresh.mxName reference
        (answering (mxResponse pointer) (by decide)) zeroStack dotted).1 =
      some [⟨[97, 46], 10⟩] ∧
    completeAnswers DnsClient.fresh reference
        (answering (mxResponse pointer) (by decide)) dotted mxTarget mxAnswer =
      some [⟨dotted, 10⟩] := by
  have hreceived : ∀ target, target = spelledOut ∨ target = pointer →
      ∀ hlength, received DnsClient.fresh reference
        (answering (mxResponse target) hlength) dotted nsTypeMx = some (mxResponse target) := by
    rintro target (rfl | rfl) hlength
    · exact received_answering hlength (by decide) (by decide) (by decide +kernel) _ _
    · exact received_answering hlength (by decide) (by decide) (by decide +kernel) _ _
  refine ⟨?_, ?_, ?_⟩
  · rw [mxName_of_received _ zeroStack (hreceived spelledOut (Or.inl rfl) _)]
    decide +kernel
  · rw [mxName_of_received _ zeroStack (hreceived pointer (Or.inr rfl) _)]
    decide +kernel
  · rw [completeAnswers, mxTarget, hreceived pointer (Or.inr rfl) _]
    decide +kernel

end Nstl.NameCompression
