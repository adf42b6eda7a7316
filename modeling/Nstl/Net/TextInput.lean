import Nstl.Dns.NameCompression
import Nstl.Dns.Names

/-!
# Text on its way to the system

Twelve functions take a text from the caller, copy it to the stack and hand the copy to
the system.  `strncpy` stops at a NUL byte, and so does the system: what arrives is the
text up to its first NUL.  A text with a NUL byte is therefore handed on complete by no
function, and is accepted whenever the system accepts what stands before the NUL.
-/

namespace Nstl.TextInput

open Nstl.ByteString
open Nstl.DnsMessage
open Nstl.DnsNames
open Nstl.DnsQuery
open Nstl.IpRange
open Nstl.IpText
open Nstl.NameCompression

/-! ## The functions -/

inductive Function where
  | parseIp4Address
  | parseIp6Address
  | parseIpAddress
  | parseIp4Range
  | parseIp6Range
  | canonicalName
  | ipsName (ipClass : IpClass)
  | mxName
  | txtName
  | cName
  | srvName
  | svcbName (type : SvcbType)
  deriving DecidableEq, Repr

structure System where
  address : AddressLibrary
  getaddrinfo : Getaddrinfo
  resolver : ResolverLibrary

/-- What a call finds in its thread: the memory that its buffers come to lie in, and the
client. -/
structure Thread where
  buffers : Buffers
  stackOut : CharArray maxHostSize
  stack : StackBuffer
  client : Option DnsClient

/-- Whether a call was neither left by an exception nor without a result, and what it
handed over. -/
structure Call where
  accepted : Bool
  handed : List Handover
  deriving DecidableEq, Repr

def Call.ofOption {Result : Type} (outcome : Option Result × List Handover) : Call where
  accepted := outcome.1.isSome
  handed := outcome.2

def Call.ofExcept {Failure Result : Type}
    (outcome : Except Failure (Option Result) × List Handover) : Call where
  accepted := match outcome.1 with
    | .ok retval => retval.isSome
    | .error _ => false
  handed := outcome.2

section Calls

variable (system : System) (thread : Thread)

/-- The call of a function with a text. -/
def call (text : Bytes) : Function → Call
  | .parseIp4Address =>
      .ofOption (IpText.parseIp4Address system.address thread.buffers text)
  | .parseIp6Address =>
      .ofOption (IpText.parseIp6Address system.address thread.buffers text)
  | .parseIpAddress =>
      .ofOption (IpText.parseIpAddress system.address thread.buffers text)
  | .parseIp4Range =>
      .ofExcept (IpText.parseIp4Range system.address thread.buffers text)
  | .parseIp6Range =>
      .ofExcept (IpText.parseIp6Range system.address thread.buffers text)
  | .canonicalName =>
      .ofExcept (DnsNames.canonicalName system.getaddrinfo thread.stackOut text)
  | .ipsName ipClass =>
      .ofExcept (DnsNames.ipsName system.getaddrinfo thread.stackOut text ipClass)
  | .mxName =>
      .ofExcept (DnsNames.mxName system.resolver thread.client thread.stackOut
        thread.stack text).1
  | .txtName =>
      .ofExcept (DnsNames.txtName system.resolver thread.client thread.stackOut text).1
  | .cName =>
      .ofExcept (DnsNames.cName system.resolver thread.client thread.stackOut
        thread.stack text).1
  | .srvName =>
      .ofExcept (DnsNames.srvName system.resolver thread.client thread.stackOut
        thread.stack text).1
  | .svcbName type =>
      .ofExcept (DnsNames.svcbName system.resolver thread.client thread.stackOut
        thread.stack text type).1

end Calls

/-- The parts of a text that a function hands over: for a range what stands before and
behind the separator, otherwise the whole. -/
def parts (text : Bytes) : Function → List Bytes
  | .parseIp4Range | .parseIp6Range => ipPart text :: (numView text).toList
  | _ => [text]

/-! ## What the system accepts -/

/-- A name that `stack_name` takes. -/
def FitsHost (text : Bytes) : Prop :=
  text ≠ [] ∧ text.length < maxHostSize

section Accepts

variable (system : System) (thread : Thread) (text : Bytes)

/-- The lookup of what stands before the first NUL has an entry that can be used. -/
def LooksUp (hints : Hints) (usable : Addrinfo → Prop) : Prop :=
  FitsHost text ∧ ∃ result, system.getaddrinfo (cString text) hints = .ok result ∧
    ∃ entry ∈ result, usable entry

/-- The query for what stands before the first NUL is answered with a record that can
be decoded. -/
def Answers {Item : Type} (tgtType : UInt16) (decode : Bytes → RawRecord → Option Item) :
    Prop :=
  FitsHost text ∧ ∃ ins, dnsInstance system.resolver thread.client = .ok ins ∧
    ∃ message ∈ received ins system.resolver.message system.resolver.resolver
        (cString text) tgtType,
      ∃ idx < system.resolver.message.nsMsgCount message,
        ((matchingRecord system.resolver.message message tgtType idx).bind
          (decode message)).isSome

/-- The system has a result for what stands before the first NUL of a text, or of each
of its parts, and the lengths are in the bounds of the function. -/
def Accepts : Function → Prop
  | .parseIp4Address => AcceptsAddress system.address.inetPton4 inetAddrstrlen text
  | .parseIp6Address => AcceptsAddress system.address.inetPton6 inet6Addrstrlen text
  | .parseIpAddress =>
      AcceptsAddress system.address.inetPton4 inetAddrstrlen text ∨
        AcceptsAddress system.address.inetPton6 inet6Addrstrlen text
  | .parseIp4Range => AcceptsRange system.address.inetPton4 inetAddrstrlen text
  | .parseIp6Range => AcceptsRange system.address.inetPton6 inet6Addrstrlen text
  | .canonicalName => LooksUp system text canonicalHints fun entry => entry.canonName.isSome
  | .ipsName ipClass =>
      LooksUp system text (ipsHints ipClass) fun entry => entry.address.target.isSome
  | .mxName =>
      Answers system thread text nsTypeMx (mxRecord system.resolver.message thread.stack)
  | .txtName => Answers system thread text nsTypeTxt txtRecord
  | .cName =>
      Answers system thread text nsTypeCname (cRecord system.resolver.message thread.stack)
  | .srvName =>
      Answers system thread text nsTypeSrv (srvRecord system.resolver.message thread.stack)
  | .svcbName type =>
      Answers system thread text type.code
        (svcbRecord system.resolver.message thread.stack)

end Accepts

/-! ## What arrives -/

/-- A call that goes on to another one if it is without a result. -/
def Call.orElse (first second : Call) : Call :=
  if first.accepted then first
  else ⟨second.accepted, first.handed ++ second.handed⟩

/-- A call that goes on to another one if it has a result. -/
def Call.andThen (first second : Call) : Call :=
  if first.accepted then ⟨second.accepted, first.handed ++ second.handed⟩
  else first

/-- The specification shared by all of the functions. -/
structure HandsOver (parts : List Bytes) (accepts : Prop) (call : Call) : Prop where
  accepted_iff : call.accepted = true ↔ accepts
  text_eq : ∀ handover ∈ call.handed, handover.text = cString handover.view
  view_mem : ∀ handover ∈ call.handed, handover.view ∈ parts
  reached : accepts → ∀ part ∈ parts, nul ∈ part →
    ∃ handover ∈ call.handed, handover.view = part

namespace HandsOver

variable {text : Bytes} {accepts : Prop} {call : Call}

/-- A function that hands over the whole text, if anything. -/
theorem whole (haccepted : call.accepted = true ↔ accepts)
    (hhanded : ∀ handover ∈ call.handed, handover = ⟨text, cString text⟩)
    (hreached : accepts → call.handed ≠ []) : HandsOver [text] accepts call where
  accepted_iff := haccepted
  text_eq := by
    intro handover hmem
    rw [hhanded handover hmem]
  view_mem := by
    intro handover hmem
    rw [hhanded handover hmem]
    exact List.mem_singleton_self text
  reached := by
    intro haccepts part hpart _
    obtain ⟨handover, hmem⟩ := List.exists_mem_of_ne_nil _ (hreached haccepts)
    refine ⟨handover, hmem, ?_⟩
    rw [hhanded handover hmem, List.mem_singleton.1 hpart]

variable {left right : List Bytes} {acceptsFirst acceptsSecond : Prop} {first second : Call}

/-- What two calls in a row hand over. -/
theorem forall_mem_append {handed more : List Handover} {holds : Handover → Prop}
    (hfirst : ∀ handover ∈ handed, holds handover)
    (hsecond : ∀ handover ∈ more, holds handover) :
    ∀ handover ∈ handed ++ more, holds handover := by
  intro handover hmem
  exact (List.mem_append.1 hmem).elim (hfirst handover) (hsecond handover)

theorem orElse (hfirst : HandsOver left acceptsFirst first)
    (hsecond : HandsOver left acceptsSecond second) :
    HandsOver left (acceptsFirst ∨ acceptsSecond) (first.orElse second) := by
  rw [Call.orElse]
  by_cases haccepted : first.accepted = true
  · rw [if_pos haccepted]
    have haccepts := hfirst.accepted_iff.1 haccepted
    exact ⟨by simp [haccepted, haccepts], hfirst.text_eq, hfirst.view_mem,
      fun _ => hfirst.reached haccepts⟩
  · rw [if_neg haccepted]
    have hnot : ¬ acceptsFirst := fun haccepts => haccepted (hfirst.accepted_iff.2 haccepts)
    refine ⟨by simp [hsecond.accepted_iff, hnot],
      forall_mem_append hfirst.text_eq hsecond.text_eq,
      forall_mem_append hfirst.view_mem hsecond.view_mem, ?_⟩
    intro haccepts part hpart hnul
    obtain ⟨handover, hmem, hview⟩ :=
      hsecond.reached (haccepts.resolve_left hnot) part hpart hnul
    exact ⟨handover, List.mem_append_right _ hmem, hview⟩

theorem andThen (hfirst : HandsOver left acceptsFirst first)
    (hsecond : HandsOver right acceptsSecond second) :
    HandsOver (left ++ right) (acceptsFirst ∧ acceptsSecond) (first.andThen second) := by
  rw [Call.andThen]
  by_cases haccepted : first.accepted = true
  · rw [if_pos haccepted]
    have haccepts := hfirst.accepted_iff.1 haccepted
    refine ⟨by simp [hsecond.accepted_iff, haccepts],
      forall_mem_append hfirst.text_eq hsecond.text_eq,
      forall_mem_append (fun handover hmem => List.mem_append_left _ (hfirst.view_mem _ hmem))
        (fun handover hmem => List.mem_append_right _ (hsecond.view_mem _ hmem)), ?_⟩
    intro hboth part hpart hnul
    rcases List.mem_append.1 hpart with hleft | hright
    · obtain ⟨handover, hmem, hview⟩ := hfirst.reached haccepts part hleft hnul
      exact ⟨handover, List.mem_append_left _ hmem, hview⟩
    · obtain ⟨handover, hmem, hview⟩ := hsecond.reached hboth.2 part hright hnul
      exact ⟨handover, List.mem_append_right _ hmem, hview⟩
  · rw [if_neg haccepted]
    have hnot : ¬ acceptsFirst := fun haccepts => haccepted (hfirst.accepted_iff.2 haccepts)
    exact ⟨by simp [haccepted, hnot], hfirst.text_eq,
      fun handover hmem => List.mem_append_left _ (hfirst.view_mem _ hmem),
      fun hboth => absurd hboth.1 hnot⟩

/-- A text is handed over complete unless it is accepted with a NUL in it. -/
theorem untruncated_iff {parts : List Bytes} (hcall : HandsOver parts accepts call) :
    (call.accepted = true → ∀ handover ∈ call.handed, handover.text = handover.view) ↔
      (accepts → ∀ part ∈ parts, nul ∉ part) := by
  rw [hcall.accepted_iff]
  constructor
  · intro hequal haccepts part hpart hnul
    obtain ⟨handover, hmem, hview⟩ := hcall.reached haccepts part hpart hnul
    have hself : cString handover.view = handover.view := by
      rw [← hcall.text_eq handover hmem, hequal haccepts handover hmem]
    exact (cString_eq_self_iff _).1 hself (hview ▸ hnul)
  · intro hnul haccepts handover hmem
    rw [hcall.text_eq handover hmem, cString_eq_self_iff]
    exact hnul haccepts _ (hcall.view_mem handover hmem)

end HandsOver

theorem handsOver_address {size strSize : ℕ} (inetPton : Bytes → Option (IpAddrBase size))
    (buffer : CharArray strSize) (text : Bytes) :
    HandsOver [text] (AcceptsAddress inetPton strSize text)
      (.ofOption (parseIpAddressBase inetPton buffer text)) := by
  by_cases hroom : text.length < strSize
  · rw [parseIpAddressBase_of_fits inetPton buffer hroom]
    apply HandsOver.whole
    · simp [Call.ofOption, AcceptsAddress, hroom]
    · simp [Call.ofOption]
    · simp [Call.ofOption]
  · rw [parseIpAddressBase_of_long inetPton buffer (Nat.not_lt.1 hroom)]
    apply HandsOver.whole
    · simp [Call.ofOption, AcceptsAddress, hroom]
    · simp [Call.ofOption]
    · exact fun haccepts => absurd haccepts.1 hroom

/-- `parse_ip_address` turns to the second family when the first one has no address. -/
theorem handsOver_parseIpAddress (lib : AddressLibrary) (buffers : Buffers) (text : Bytes) :
    HandsOver [text]
      (AcceptsAddress lib.inetPton4 inetAddrstrlen text ∨
        AcceptsAddress lib.inetPton6 inet6Addrstrlen text)
      (.ofOption (parseIpAddress lib buffers text)) := by
  have hcall : Call.ofOption (parseIpAddress lib buffers text) =
      (Call.ofOption (parseIpAddressBase lib.inetPton4 buffers.v4 text)).orElse
        (.ofOption (parseIpAddressBase lib.inetPton6 buffers.v6 text)) := by
    rw [parseIpAddress, parseIp4Address, parseIp6Address]
    rcases parseIpAddressBase lib.inetPton4 buffers.v4 text with ⟨_ | address, handed⟩
    · rcases parseIpAddressBase lib.inetPton6 buffers.v6 text with ⟨_ | address, more⟩
      · rfl
      · rfl
    · rfl
  rw [hcall]
  exact (handsOver_address lib.inetPton4 buffers.v4 text).orElse
    (handsOver_address lib.inetPton6 buffers.v6 text)

/-! ### Ranges -/

section Ranges

variable {size strSize : ℕ} (inetPton : Bytes → Option (IpAddrBase size))
  (ipBuffer maskBuffer : CharArray strSize)

/-- What happens to the text behind the separator. -/
def maskCall (num : Option Bytes) : Call :=
  match num with
  | none => ⟨true, []⟩
  | some num =>
      if num = [] then ⟨false, []⟩
      else if parseMask size num ≠ invalidMask then ⟨true, []⟩
      else .ofOption (parseIpAddressBase inetPton maskBuffer num)

/-- A prefix length that was accepted, or comes from the size, gives a range. -/
theorem ofPrefix_isOk (ip : IpAddrBase size) {mask : UInt8}
    (hmask : mask.toNat ≤ size * bytesInBits) :
    ∃ range, IpRangeBase.ofPrefix ip mask = .ok range := by
  obtain ⟨bytes, hbytes⟩ := (createMask_ok_iff mask).2 (Nat.mul_comm .. ▸ hmask)
  exact ⟨⟨ip, bytes⟩, by rw [IpRangeBase.ofPrefix, hbytes]⟩

theorem ofExcept_parseIpRangeBase (hsize : size * bytesInBits < 255) (range : Bytes) :
    Call.ofExcept (parseIpRangeBase inetPton ipBuffer maskBuffer range) =
      (Call.ofOption (parseIpAddressBase inetPton ipBuffer (ipPart range))).andThen
        (maskCall inetPton maskBuffer (numView range)) := by
  rw [parseIpRangeBase]
  rcases parseIpAddressBase inetPton ipBuffer (ipPart range) with ⟨_ | ip, handed⟩
  · rfl
  rcases numView range with _ | num
  · have hmask : (UInt8.ofNat (size * bytesInBits)).toNat ≤ size * bytesInBits := by
      rw [UInt8.toNat_ofNat']
      exact Nat.mod_le ..
    obtain ⟨created, hcreated⟩ := ofPrefix_isOk ip hmask
    simp only [hcreated]
    simp [Call.ofExcept, Call.andThen, Call.ofOption, maskCall, Except.map]
  by_cases hnil : num = []
  · simp [hnil, Call.ofExcept, Call.andThen, Call.ofOption, maskCall]
  by_cases hnumber : IsPrefixLength size num
  · have hvalue := parseMask_of_isPrefixLength hsize hnumber
    have hvalid := parseMask_ne_invalidMask hsize hnumber
    obtain ⟨created, hcreated⟩ := ofPrefix_isOk ip (hvalue ▸ hnumber.2.2)
    simp [hnil, hvalid, hcreated, Call.ofExcept, Call.andThen, Call.ofOption, maskCall,
      Except.map]
  · have hinvalid := parseMask_of_not_isPrefixLength hnumber
    rcases hparse : parseIpAddressBase inetPton maskBuffer num with ⟨_ | mask, more⟩
    · simp [hnil, hinvalid, hparse, Call.ofExcept, Call.andThen, Call.ofOption, maskCall]
    · simp [hnil, hinvalid, hparse, Call.ofExcept, Call.andThen, Call.ofOption, maskCall]

/-- A prefix length is not handed over, and has no NUL in it. -/
theorem handsOver_mask (hsize : size * bytesInBits < 255) (behind : Option Bytes) :
    HandsOver behind.toList
      (∀ num ∈ behind, num ≠ [] ∧
        (IsPrefixLength size num ∨ AcceptsAddress inetPton strSize num))
      (maskCall inetPton maskBuffer behind) := by
  rcases behind with _ | num
  · constructor <;> simp [maskCall]
  by_cases hnil : num = []
  · constructor <;> simp [maskCall, hnil]
  by_cases hnumber : IsPrefixLength size num
  · have hvalid := parseMask_ne_invalidMask hsize hnumber
    have hnul := nul_notMem_of_isPrefixLength hnumber
    constructor <;> simp [maskCall, hnil, hvalid, hnumber, hnul]
  · have hinvalid := parseMask_of_not_isPrefixLength hnumber
    have haddress := handsOver_address inetPton maskBuffer num
    simpa [hnumber, maskCall, hnil, hinvalid] using haddress

theorem handsOver_range (hsize : size * bytesInBits < 255) (range : Bytes) :
    HandsOver (ipPart range :: (numView range).toList) (AcceptsRange inetPton strSize range)
      (.ofExcept (parseIpRangeBase inetPton ipBuffer maskBuffer range)) := by
  rw [ofExcept_parseIpRangeBase inetPton ipBuffer maskBuffer hsize range]
  exact (handsOver_address inetPton ipBuffer (ipPart range)).andThen
    (handsOver_mask inetPton maskBuffer hsize (numView range))

end Ranges

/-! ### Names -/

theorem stackName_of_fits (stackOut : CharArray maxHostSize) {text : Bytes}
    (hfits : FitsHost text) :
    ∃ array, stackName stackOut text = .ok array ∧ cString array = cString text := by
  refine ⟨terminatedCopy stackOut.bytes text, ?_, ?_⟩
  · rw [stackName, if_neg hfits.1, if_neg (Nat.not_le.2 hfits.2)]
  · exact cString_terminatedCopy (by rw [stackOut.size_eq]; exact hfits.2)

theorem stackName_of_not_fits (stackOut : CharArray maxHostSize) {text : Bytes}
    (hfits : ¬ FitsHost text) : ∃ failure, stackName stackOut text = .error failure := by
  rw [stackName]
  by_cases hnil : text = []
  · exact ⟨_, if_pos hnil⟩
  · rw [if_neg hnil, if_pos (Nat.not_lt.1 fun hlt => hfits ⟨hnil, hlt⟩)]
    exact ⟨_, rfl⟩

theorem handsOver_lookup (system : System) (stackOut : CharArray maxHostSize) (text : Bytes)
    (hints : Hints) {Result : Type} (use : List Addrinfo → Option Result)
    (usable : Addrinfo → Prop)
    (huse : ∀ result, (use result).isSome = true ↔ ∃ entry ∈ result, usable entry) :
    HandsOver [text] (LooksUp system text hints usable)
      (.ofExcept (lookup system.getaddrinfo stackOut text hints use)) := by
  by_cases hfits : FitsHost text
  · obtain ⟨array, hstack, harray⟩ := stackName_of_fits stackOut hfits
    rw [lookup, hstack]
    simp only [harray]
    rcases hresult : system.getaddrinfo (cString text) hints with (_ | code) | result
    · apply HandsOver.whole <;> simp [Call.ofExcept, LooksUp, hresult]
    · apply HandsOver.whole <;> simp [Call.ofExcept, LooksUp, hresult]
    · apply HandsOver.whole <;> simp [Call.ofExcept, LooksUp, hresult, hfits, huse]
  · obtain ⟨failure, hstack⟩ := stackName_of_not_fits stackOut hfits
    rw [lookup, hstack]
    apply HandsOver.whole <;> simp [Call.ofExcept, LooksUp, hfits]

/-- A query has a result when a record of the response can be decoded. -/
theorem query_isSome_iff (client : DnsClient) (lib : Libresolv) (resolver : Resolver)
    (name : Bytes) {Item : Type} (tgtType : UInt16)
    (decode : Bytes → RawRecord → Option Item) :
    (client.query lib resolver name tgtType decode).1.isSome = true ↔
      ∃ message ∈ received client lib resolver name tgtType,
        ∃ idx < lib.nsMsgCount message,
          ((matchingRecord lib message tgtType idx).bind (decode message)).isSome := by
  rw [query_eq]
  cases received client lib resolver name tgtType with
  | none => simp
  | some message =>
      rw [Option.bind_some, collectAnswers_eq, present_filterMap_isSome_iff]
      simp only [List.mem_range, Option.mem_def, Option.some.injEq, exists_eq_left']

theorem handsOver_queryName (system : System) (thread : Thread) (text : Bytes)
    {Item : Type} (tgtType : UInt16) (decode : Bytes → RawRecord → Option Item) :
    HandsOver [text] (Answers system thread text tgtType decode)
      (.ofExcept (queryName system.resolver thread.client thread.stackOut text
        fun ins name =>
          ins.query system.resolver.message system.resolver.resolver name tgtType decode).1) := by
  by_cases hfits : FitsHost text
  · obtain ⟨array, hstack, harray⟩ := stackName_of_fits thread.stackOut hfits
    rw [queryName, hstack]
    simp only [harray]
    rcases hinstance : dnsInstance system.resolver thread.client with failure | ins
    · apply HandsOver.whole <;> simp [Call.ofExcept, Answers, hinstance]
    · apply HandsOver.whole
      · simp only [Call.ofExcept, query_isSome_iff, Answers, hfits, hinstance, true_and,
          Except.ok.injEq, exists_eq_left']
      · simp [Call.ofExcept]
      · simp [Call.ofExcept]
  · obtain ⟨failure, hstack⟩ := stackName_of_not_fits thread.stackOut hfits
    rw [queryName, hstack]
    apply HandsOver.whole <;> simp [Call.ofExcept, Answers, hfits]

/-! ## All functions -/

theorem collectIps_isSome_iff (result : List Addrinfo) :
    (collectIps result).isSome = true ↔
      ∃ entry ∈ result, entry.address.target.isSome = true := by
  have hfold : collectIps result =
      present (result.filterMap fun entry => entry.address.target) := by
    rw [← List.nil_append (List.filterMap _ _), ← foldl_answers, collectIps]
    congr 1
    funext retval entry
    cases entry.address.target with
    | none => rfl
    | some target => rfl
  rw [hfold, present_filterMap_isSome_iff]

/-- What every function does with its text. -/
theorem handsOver_call (system : System) (thread : Thread) (text : Bytes)
    (function : Function) :
    HandsOver (parts text function) (Accepts system thread text function)
      (call system thread text function) := by
  cases function with
  | parseIp4Address => exact handsOver_address ..
  | parseIp6Address => exact handsOver_address ..
  | parseIpAddress => exact handsOver_parseIpAddress ..
  | parseIp4Range => exact handsOver_range _ _ _ (by decide) text
  | parseIp6Range => exact handsOver_range _ _ _ (by decide) text
  | canonicalName =>
      apply handsOver_lookup
      intro result
      simp
  | ipsName ipClass => exact handsOver_lookup _ _ _ _ _ _ collectIps_isSome_iff
  | mxName => exact handsOver_queryName ..
  | txtName => exact handsOver_queryName ..
  | cName => exact handsOver_queryName ..
  | srvName => exact handsOver_queryName ..
  | svcbName type => exact handsOver_queryName ..

theorem nul_mem_iff_parts (text : Bytes) (function : Function) :
    nul ∈ text ↔ ∃ part ∈ parts text function, nul ∈ part := by
  have hrange : nul ∈ text ↔ ∃ part ∈ ipPart text :: (numView text).toList, nul ∈ part := by
    conv_lhs => rw [eq_of_numView text]
    rcases numView text with _ | num
    · simp
    · have hslash : nul ≠ slash := by decide
      simp [hslash]
  cases function
  case parseIp4Range | parseIp6Range => exact hrange
  all_goals simp [parts]

/-- A text without a NUL arrives as it is. -/
theorem handed_text_eq (system : System) (thread : Thread) {text : Bytes}
    (function : Function) (hnul : nul ∉ text) :
    ∀ handover ∈ (call system thread text function).handed,
      handover.text = handover.view := by
  intro handover hmem
  have hcall := handsOver_call system thread text function
  rw [hcall.text_eq handover hmem, cString_eq_self_iff]
  intro hview
  exact hnul ((nul_mem_iff_parts text function).2 ⟨_, hcall.view_mem handover hmem, hview⟩)

/-- A function hands over its text, or each of the parts of a range, complete exactly
when the text has no NUL byte or the system does not accept what stands before it; and
texts without a NUL that are handed over as the same string are the same. -/
theorem text_input_untruncated_iff (system : System) (thread : Thread) (function : Function)
    (text : Bytes) :
    (((call system thread text function).accepted = true →
        ∀ handover ∈ (call system thread text function).handed,
          handover.text = handover.view) ↔
      nul ∉ text ∨ ¬ Accepts system thread text function) ∧
    (∀ handover ∈ (call system thread text function).handed,
      handover.view ∈ parts text function) ∧
    ∀ other, nul ∉ text → nul ∉ other →
      ∀ handover ∈ (call system thread text function).handed,
        ∀ handover' ∈ (call system thread other function).handed,
          handover.text = handover'.text → handover.view = handover'.view := by
  have hcall := handsOver_call system thread text function
  have hparts : (∀ part ∈ parts text function, nul ∉ part) ↔ nul ∉ text := by
    rw [nul_mem_iff_parts text function]
    simp
  refine ⟨?_, hcall.view_mem, ?_⟩
  · rw [hcall.untruncated_iff, hparts, imp_iff_not_or, or_comm]
  · intro other htext hother handover hmem handover' hmem' hsame
    calc handover.view
        = handover.text := (handed_text_eq system thread function htext _ hmem).symm
      _ = handover'.text := hsame
      _ = handover'.view := handed_text_eq system thread function hother _ hmem'

/-! ## A text with a NUL in it -/

/-- One number of a dotted address: no sign, no leading zero, at most 255. -/
def quadNumber (digits : Bytes) : Option Byte :=
  if digits ≠ [] ∧ digits.all isDigit ∧ decimalValue digits ≤ 255 ∧
      (digits.head? = some 48 → digits.length = 1) then
    some (UInt8.ofNat (decimalValue digits))
  else none

/-- `inet_pton` for `AF_INET`: four numbers with a dot between them. -/
def dottedQuad (text : Bytes) : Option IpRange.Ipv4Addr :=
  match (text.splitOn 46).map quadNumber with
  | [some a, some b, some c, some d] => some ![a, b, c, d]
  | _ => none

/-- A system that only knows IPv4 addresses. -/
def quadSystem : System where
  address := ⟨dottedQuad, fun _ => none⟩
  getaddrinfo := fun _ _ => .error .hostNotFound
  resolver := ⟨false, fun _ _ _ => ⟨-1, [], by decide⟩, reference⟩

/-- An array that happens to hold zeros. -/
def zeroArray (size : ℕ) : CharArray size :=
  ⟨List.replicate size nul, List.length_replicate ..⟩

def zeroThread : Thread where
  buffers := ⟨zeroArray _, zeroArray _, zeroArray _, zeroArray _⟩
  stackOut := zeroArray _
  stack := zeroStack
  client := none

/-- The text `1.2.3.4`. -/
def oneToFour : Bytes := [49, 46, 50, 46, 51, 46, 52]

/-- `1.2.3.4`, a NUL and an `x` are accepted as an address, and `inet_pton` sees the same
string as for `1.2.3.4` alone. -/
theorem text_behind_nul_is_dropped :
    ¬ ((call quadSystem zeroThread (oneToFour ++ [nul, 120]) .parseIp4Address).accepted =
          true →
        ∀ handover ∈
          (call quadSystem zeroThread (oneToFour ++ [nul, 120]) .parseIp4Address).handed,
            handover.text = handover.view) ∧
    call quadSystem zeroThread oneToFour .parseIp4Address =
      ⟨true, [⟨oneToFour, oneToFour⟩]⟩ ∧
    call quadSystem zeroThread (oneToFour ++ [nul, 120]) .parseIp4Address =
      ⟨true, [⟨oneToFour ++ [nul, 120], oneToFour⟩]⟩ := by
  decide +kernel

end Nstl.TextInput
