import Nstl.Dns.Message
import Nstl.Dns.SvcbParams

/-!
# The resolver client

`DnsClient` sends a query, enlarges its buffer until the response fits, and
walks over the answer records of the response.  The walk is the same for every
kind of record; what is taken from a record of the queried kind is not.

A name is expanded into a buffer on the stack.  `dn_expand` returns the number
of bytes the name takes up in the message; three of the decoders go on to use
that number as a bound on the length of the text, the fourth one uses the size
of the buffer.
-/

namespace Nstl.DnsQuery

open Nstl.ByteString
open Nstl.DnsMessage
open Nstl.Framing
open Nstl.Memory
open Nstl.SvcbParams

/-! ## The query -/

/-- One call of `res_nquery`: its return value and the bytes it received.  The
length of a response is a 16-bit number. -/
structure QueryResult where
  length : ℤ
  packet : Bytes
  length_le : length ≤ 65535

/-- `res_nquery` for a name and a record type, one result per attempt. -/
abbrev Resolver := Bytes → UInt16 → ℕ → QueryResult

/-- The buffer after bytes have been stored from its start on. -/
def store (buffer packet : Bytes) : Bytes :=
  packet.take buffer.length ++ buffer.drop packet.length

/-- `std::vector<unsigned char>::resize`. -/
def resize (buffer : Bytes) (size : ℕ) : Bytes :=
  buffer.take size ++ List.replicate (size - buffer.length) 0

@[simp]
theorem length_resize (buffer : Bytes) (size : ℕ) :
    (resize buffer size).length = size := by
  simp only [resize, List.length_append, List.length_take, List.length_replicate]
  omega

/-- The loop of `_process_item`: the length of the response, if there is one,
and the buffer it is in. -/
def queryLoop (results : ℕ → QueryResult) (attempt : ℕ) (response : Bytes) :
    Option ℕ × Bytes :=
  if (results attempt).length ≤ 0 then
    (none, store response (results attempt).packet)
  else if response.length ≤ (results attempt).length.toNat then
    queryLoop results (attempt + 1)
      (resize (store response (results attempt).packet)
        ((results attempt).length.toNat + 1))
  else (some (results attempt).length.toNat, store response (results attempt).packet)
termination_by 65536 - response.length
decreasing_by
  have hbound := (results attempt).length_le
  rw [length_resize]
  omega

structure DnsClient where
  response : Bytes

def buffSize : ℕ := 4096

/-- The client that the first query of a thread finds. -/
def DnsClient.fresh : DnsClient := ⟨List.replicate buffSize 0⟩

/-- `_process_item` up to the call of its function argument: the message that
the answers are taken from. -/
def DnsClient.processItem (client : DnsClient) (lib : Libresolv)
    (results : ℕ → QueryResult) : Option Bytes × DnsClient :=
  match queryLoop results 0 client.response with
  | (none, response) => (none, ⟨response⟩)
  | (some length, response) =>
      if lib.nsInitparse (response.take length) then
        (some (response.take length), ⟨response⟩)
      else (none, ⟨response⟩)

/-! ## The walk over the answers -/

section Answers

variable (lib : Libresolv) (message : Bytes)

/-- The answer with the index `idx`, if it parses and is of the queried type and
of class IN. -/
def matchingRecord (tgtType : UInt16) (idx : ℕ) : Option RawRecord :=
  match lib.nsParserr message idx with
  | none => none
  | some record =>
      if record.rrClass ≠ nsClassIn ∨ record.type ≠ tgtType then none
      else some record

/-- The loop shared by the queries.  The result comes into being with the first
record that can be decoded. -/
def collectAnswers {Item : Type} (tgtType : UInt16)
    (decode : RawRecord → Option Item) : Option (List Item) :=
  (List.range (lib.nsMsgCount message)).foldl
    (fun retval idx =>
      match (matchingRecord lib message tgtType idx).bind decode with
      | none => retval
      | some item => some (retval.getD [] ++ [item]))
    none

/-- `ns_get16` at a position of the message. -/
def get16At (position : ℕ) : UInt16 :=
  get16 (message.getD position 0) (message.getD (position + 1) 0)

end Answers

/-! ## Names -/

/-- The buffer `std::array<char, NS_MAXDNAME>`. -/
abbrev StackBuffer := CharArray nsMaxDname

/-- The buffer after `dn_expand` has stored a name and its terminator in it. -/
def nameBuffer (stack : StackBuffer) (text : Bytes) : Bytes :=
  store stack.bytes (text ++ [nul])

/-- `std::string{ buffer, strnlen(buffer, limit) }`. -/
def nameUpTo (buffer : Bytes) (limit : ℕ) : Bytes :=
  buffer.take (strnlen buffer limit)

theorem nameBuffer_eq (stack : StackBuffer) {text : Bytes}
    (htext : text.length < nsMaxDname) :
    nameBuffer stack text = text ++ nul :: stack.bytes.drop (text.length + 1) := by
  have hsize := stack.size_eq
  rw [nameBuffer, store, List.take_of_length_le (by simp; omega)]
  simp

/-- Bounding the length of the text cuts it. -/
theorem nameUpTo_nameBuffer (stack : StackBuffer) {text : Bytes}
    (hnul : nul ∉ text) (htext : text.length < nsMaxDname) (limit : ℕ) :
    nameUpTo (nameBuffer stack text) limit = text.take limit := by
  rw [nameBuffer_eq stack htext, nameUpTo, strnlen_terminated hnul,
    List.take_append_of_le_length (Nat.min_le_right _ _), ← List.take_take,
    List.take_length]

/-! ## The decoders -/

structure MxSrv where
  address : Bytes
  priority : UInt16
  deriving DecidableEq, Repr

structure GenSrv where
  address : Bytes
  port : UInt64
  priority : UInt16
  weight : UInt16
  deriving DecidableEq, Repr

structure GenSvcb where
  address : Bytes
  priority : UInt16
  params : List SvcbParam

section Decoders

variable (lib : Libresolv) (stack : StackBuffer) (message : Bytes)

def mxRecord (record : RawRecord) : Option MxSrv :=
  if record.rdlen.toNat < 2 + 1 then none
  else
    match lib.dnExpand message (record.rdata + 2) with
    | none => none
    | some (text, expandedLength) =>
        some { address := nameUpTo (nameBuffer stack text) expandedLength
               priority := get16At message record.rdata }

def cRecord (record : RawRecord) : Option Bytes :=
  match lib.dnExpand message record.rdata with
  | none => none
  | some (text, len) => some (nameUpTo (nameBuffer stack text) len)

def srvRecord (record : RawRecord) : Option GenSrv :=
  if record.rdlen.toNat ≤ 6 then none
  else
    match lib.dnExpand message (record.rdata + 6) with
    | none => none
    | some (text, len) =>
        some { address := nameUpTo (nameBuffer stack text) len
               port := (get16At message (record.rdata + 4)).toUInt64
               priority := get16At message record.rdata
               weight := get16At message (record.rdata + 2) }

/-- The loop of `txt_name` over the strings of a record.  The absence of a result is
the flag `valid` being cleared. -/
def txtFrom (p last : ℕ) (item : Bytes) : Option Bytes :=
  if p < last then
    let textLen := (message.getD p 0).toNat
    if last < p + 1 + textLen then none
    else txtFrom (p + 1 + textLen) last (item ++ (message.drop (p + 1)).take textLen)
  else some item
termination_by last - p

def txtRecord (record : RawRecord) : Option Bytes :=
  txtFrom message record.rdata (record.rdata + record.rdlen.toNat) []

/-- The parameters behind the target name of an SVCB record. -/
def svcbParams (p last : ℕ) : List SvcbParam :=
  match hresolve : resolveParams (fun position => message.getD position 0) p last with
  | .ok params => params
  | .error fault => absurd hresolve (resolveParams_ne_error _ p last fault)

/-- The target of an SVCB record is bounded by the buffer; the root is spelled
as a dot. -/
def svcbRecord (record : RawRecord) : Option GenSvcb :=
  if record.rdlen.toNat < 2 then none
  else
    match lib.dnExpand message (record.rdata + 2) with
    | none => none
    | some (text, buffN) =>
        let buffer := nameBuffer stack text
        let buffer := if buffer.head? = some nul then store buffer [46, nul] else buffer
        some { address := nameUpTo buffer nsMaxDname
               priority := get16At message record.rdata
               params := svcbParams message (record.rdata + 2 + buffN)
                 (record.rdata + record.rdlen.toNat) }

end Decoders

/-! ## The queries -/

def nsTypeCname : UInt16 := 5
def nsTypeMx : UInt16 := 15
def nsTypeTxt : UInt16 := 16
def nsTypeSrv : UInt16 := 33

inductive SvcbType where
  | svcb
  | https
  deriving DecidableEq, Repr

def SvcbType.code : SvcbType → UInt16
  | svcb => 64
  | https => 65

namespace DnsClient

variable (client : DnsClient) (lib : Libresolv) (resolver : Resolver)
  (stack : StackBuffer) (name : Bytes)

/-- A query: no message means no result. -/
def query {Item : Type} (tgtType : UInt16)
    (decode : Bytes → RawRecord → Option Item) : Option (List Item) × DnsClient :=
  match client.processItem lib (resolver name tgtType) with
  | (none, client) => (none, client)
  | (some message, client) =>
      (collectAnswers lib message tgtType (decode message), client)

def mxName : Option (List MxSrv) × DnsClient :=
  client.query lib resolver name nsTypeMx (mxRecord lib stack)

def txtName : Option (List Bytes) × DnsClient :=
  client.query lib resolver name nsTypeTxt txtRecord

def cName : Option (List Bytes) × DnsClient :=
  client.query lib resolver name nsTypeCname (cRecord lib stack)

def srvName : Option (List GenSrv) × DnsClient :=
  client.query lib resolver name nsTypeSrv (srvRecord lib stack)

def svcbName (type : SvcbType) : Option (List GenSvcb) × DnsClient :=
  client.query lib resolver name type.code (svcbRecord lib stack)

end DnsClient

end Nstl.DnsQuery
