import Nstl.Dns.Client
import Nstl.Net.IpText

/-!
# Lookups by name

The public functions of `dns_tools.hpp` copy the name to an array on the stack.  The
address of that array goes to `getaddrinfo`, or through the client of the thread to
`res_nquery`.
-/

namespace Nstl.DnsNames

open Nstl.ByteString
open Nstl.DnsMessage
open Nstl.DnsQuery
open Nstl.IpRange
open Nstl.IpText

inductive DnsError where
  | nameEmpty
  | stackSmall
  | resolving (name : Bytes)
  | resolverInitializeFailed
  deriving DecidableEq, Repr

def maxHostSize : ℕ := 256

def stackName (stackOut : CharArray maxHostSize) (name : Bytes) : Except DnsError Bytes :=
  if name = [] then .error .nameEmpty
  else if maxHostSize ≤ name.length then .error .stackSmall
  else .ok (terminatedCopy stackOut.bytes name)

/-! ## Lookups by the system -/

inductive AddressFamily where
  | unspec
  | inet
  | inet6
  deriving DecidableEq, Repr

/-- The fields of the hints that are not zero. -/
structure Hints where
  family : AddressFamily
  canonName : Bool
  addrConfig : Bool
  stream : Bool
  deriving DecidableEq, Repr

/-- `ai_family` and `ai_addr`. -/
inductive SocketAddress where
  | inet (address : IpRange.Ipv4Addr)
  | inet6 (address : IpRange.Ipv6Addr)
  | other (family : ℕ)

structure Addrinfo where
  address : SocketAddress
  canonName : Option Bytes

inductive GaiFailure where
  | hostNotFound
  | other (code : ℤ)
  deriving DecidableEq, Repr

/-- `getaddrinfo` for a name and hints, without a service. -/
abbrev Getaddrinfo := Bytes → Hints → Except GaiFailure (List Addrinfo)

inductive IpClass where
  | ipv4
  | ipv6
  | ipvAll
  deriving DecidableEq, Repr

def IpClass.family : IpClass → AddressFamily
  | ipv4 => .inet
  | ipv6 => .inet6
  | ipvAll => .unspec

def SocketAddress.target : SocketAddress → Option IpAddrGen
  | inet address => some (.v4 address)
  | inet6 address => some (.v6 address)
  | other _ => none

section Lookups

variable (getaddrinfo : Getaddrinfo) (stackOut : CharArray maxHostSize) (name : Bytes)

/-- What the two lookups have in common: a name that does not exist has no result, any
other failure is an exception. -/
def lookup {Result : Type} (hints : Hints) (use : List Addrinfo → Option Result) :
    Except DnsError (Option Result) × List Handover :=
  match stackName stackOut name with
  | .error failure => (.error failure, [])
  | .ok array =>
      match getaddrinfo (cString array) hints with
      | .error .hostNotFound => (.ok none, [⟨name, cString array⟩])
      | .error (.other _) => (.error (.resolving name), [⟨name, cString array⟩])
      | .ok result => (.ok (use result), [⟨name, cString array⟩])

def canonicalHints : Hints where
  family := .unspec
  canonName := true
  addrConfig := false
  stream := false

def canonicalName : Except DnsError (Option Bytes) × List Handover :=
  lookup getaddrinfo stackOut name canonicalHints fun result =>
    result.findSome? Addrinfo.canonName

def ipsHints (ipClass : IpClass) : Hints where
  family := ipClass.family
  canonName := false
  addrConfig := true
  stream := true

/-- The loop of `ips_name` over the result. -/
def collectIps (result : List Addrinfo) : Option (List IpAddrGen) :=
  result.foldl
    (fun retval entry =>
      match entry.address.target with
      | none => retval
      | some target => some (retval.getD [] ++ [target]))
    none

def ipsName (ipClass : IpClass) : Except DnsError (Option (List IpAddrGen)) × List Handover :=
  lookup getaddrinfo stackOut name (ipsHints ipClass) collectIps

end Lookups

/-! ## Lookups by the client of the thread -/

/-- The resolver, and whether `res_ninit` succeeds. -/
structure ResolverLibrary where
  resNinit : Bool
  resolver : Resolver
  message : Libresolv

/-- `DnsClient::instance()`: the client is constructed when it is first needed. -/
def dnsInstance (lib : ResolverLibrary) (client : Option DnsClient) :
    Except DnsError DnsClient :=
  match client with
  | some client => .ok client
  | none => if lib.resNinit then .ok DnsClient.fresh else .error .resolverInitializeFailed

section Queries

variable (lib : ResolverLibrary) (client : Option DnsClient)
  (stackOut : CharArray maxHostSize) (stack : StackBuffer) (name : Bytes)

/-- The result of a query, what it handed over, and the client it leaves behind. -/
abbrev QueryOutcome (Item : Type) :=
  (Except DnsError (Option (List Item)) × List Handover) × Option DnsClient

/-- What the queries have in common. -/
def queryName {Item : Type}
    (method : DnsClient → Bytes → Option (List Item) × DnsClient) : QueryOutcome Item :=
  match stackName stackOut name with
  | .error failure => ((.error failure, []), client)
  | .ok array =>
      match dnsInstance lib client with
      | .error failure => ((.error failure, []), client)
      | .ok ins =>
          let (retval, ins) := method ins (cString array)
          ((.ok retval, [⟨name, cString array⟩]), some ins)

def mxName : QueryOutcome MxSrv :=
  queryName lib client stackOut name fun ins =>
    ins.mxName lib.message lib.resolver stack

def txtName : QueryOutcome Bytes :=
  queryName lib client stackOut name fun ins => ins.txtName lib.message lib.resolver

def cName : QueryOutcome Bytes :=
  queryName lib client stackOut name fun ins => ins.cName lib.message lib.resolver stack

def srvName : QueryOutcome GenSrv :=
  queryName lib client stackOut name fun ins => ins.srvName lib.message lib.resolver stack

def svcbName (type : SvcbType) : QueryOutcome GenSvcb :=
  queryName lib client stackOut name fun ins text =>
    ins.svcbName lib.message lib.resolver stack text type

end Queries

end Nstl.DnsNames
