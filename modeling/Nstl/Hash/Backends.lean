import Nstl.Core.ByteString
import Nstl.Core.Narrowing

/-!
# The hashing backends

`Hasher` is implemented once for each of OpenSSL, the CryptoAPI of Windows and
CommonCrypto.  Each implementation keeps a context of its library, which absorbs bytes,
and passes the size it is given on to the library in the type that this has for lengths.

The hash functions themselves are a parameter; the libraries agree on them.
-/

namespace Nstl.Hash

open Nstl.ByteString
open Nstl.Narrowing

inductive HashType where
  | md5
  | sha1
  | sha256
  | sha512
  deriving DecidableEq, Repr

/-- `HashType::Default`. -/
def HashType.default : HashType := .sha256

/-- What the libraries implement. -/
inductive Algorithm where
  | md5
  | sha1
  | sha256
  | sha512
  deriving DecidableEq, Repr

/-- The bytes of a digest. -/
def Algorithm.size : Algorithm → ℕ
  | .md5 => 16
  | .sha1 => 20
  | .sha256 => 32
  | .sha512 => 64

/-- The hash functions. -/
structure Digests where
  digest : Algorithm → Bytes → Bytes
  length_digest : ∀ algorithm bytes, (digest algorithm bytes).length = algorithm.size

/-- The alternative of the variant, and its array. -/
structure HashValue where
  type : HashType
  bytes : Bytes
  deriving DecidableEq, Repr

inductive HashError where
  /-- `EVP_DigestUpdate failed` -/
  | digestUpdateFailed
  /-- `EVP_DigestFinal_ex failed` -/
  | digestFinalFailed
  /-- `Reinit of _hHash` -/
  | reinit
  /-- `CryptHashData failed: ` and the last error -/
  | hashDataFailed
  /-- `CryptGetHashParam HP_HASHVAL failed: ` and the last error -/
  | getHashParamFailed
  deriving DecidableEq, Repr

abbrev Result := Except HashError

/-- Memory that is handed over by its address and its size. -/
structure Span where
  bytes : Bytes
  size : UInt64
  size_eq : size.toNat = bytes.length

/-- The virtual methods of a hasher, and its construction. -/
structure Hasher (State : Type) where
  construct : HashType → Result State
  reset : State → Result State
  add : Span → State → Result State
  finish : State → Result HashValue

/-! ## OpenSSL -/

/-- `EVP_MD_CTX`. -/
structure MdCtx where
  md : Option Algorithm
  absorbed : Bytes

def evpMdCtxNew : MdCtx := ⟨none, []⟩

def evpMdCtxReset (_ctx : MdCtx) : MdCtx := ⟨none, []⟩

def evpDigestInit (_ctx : MdCtx) (md : Algorithm) : MdCtx := ⟨some md, []⟩

/-- The length is a `size_t`. -/
def evpDigestUpdate (ctx : MdCtx) (data : Bytes) (count : UInt64) : Option MdCtx :=
  ctx.md.map fun md => ⟨some md, ctx.absorbed ++ data.take count.toNat⟩

def evpDigestFinal (digests : Digests) (ctx : MdCtx) : Option Bytes :=
  ctx.md.map fun md => digests.digest md ctx.absorbed

structure HasherOpenSsl where
  type : HashType
  mdctx : MdCtx

namespace HasherOpenSsl

def evpMd : HashType → Algorithm
  | .md5 => .md5
  | .sha1 => .sha1
  | .sha256 => .sha256
  | .sha512 => .sha512

def init (hasher : HasherOpenSsl) : HasherOpenSsl :=
  { hasher with mdctx := evpDigestInit hasher.mdctx (evpMd hasher.type) }

def construct (type : HashType) : Result HasherOpenSsl := .ok (init ⟨type, evpMdCtxNew⟩)

def reset (hasher : HasherOpenSsl) : Result HasherOpenSsl :=
  .ok (init { hasher with mdctx := evpMdCtxReset hasher.mdctx })

def add (span : Span) (hasher : HasherOpenSsl) : Result HasherOpenSsl :=
  match evpDigestUpdate hasher.mdctx span.bytes span.size with
  | none => .error .digestUpdateFailed
  | some mdctx => .ok { hasher with mdctx := mdctx }

def finish (digests : Digests) (hasher : HasherOpenSsl) : Result HashValue :=
  match evpDigestFinal digests hasher.mdctx with
  | none => .error .digestFinalFailed
  | some bytes => .ok ⟨hasher.type, bytes⟩

end HasherOpenSsl

def hasherOpenSsl (digests : Digests) : Hasher HasherOpenSsl where
  construct := HasherOpenSsl.construct
  reset := HasherOpenSsl.reset
  add := HasherOpenSsl.add
  finish := HasherOpenSsl.finish digests

/-! ## CryptoAPI -/

/-- What an `HCRYPTHASH` stands for. -/
structure CryptHash where
  algid : Algorithm
  absorbed : Bytes

/-- The length is a `DWORD`. -/
def cryptHashData (hash : CryptHash) (data : Bytes) (dataLen : UInt32) : CryptHash :=
  { hash with absorbed := hash.absorbed ++ data.take dataLen.toNat }

def cryptGetHashParam (digests : Digests) (hash : CryptHash) : Bytes :=
  digests.digest hash.algid hash.absorbed

structure HasherWin32 where
  type : HashType
  hHash : Option CryptHash

namespace HasherWin32

def translateAlgoId : HashType → Algorithm
  | .md5 => .md5
  | .sha1 => .sha1
  | .sha256 => .sha256
  | .sha512 => .sha512

def clear (hasher : HasherWin32) : HasherWin32 := { hasher with hHash := none }

def create (hasher : HasherWin32) : Result HasherWin32 :=
  match hasher.hHash with
  | some _ => .error .reinit
  | none => .ok { hasher with hHash := some ⟨translateAlgoId hasher.type, []⟩ }

def construct (type : HashType) : Result HasherWin32 := create ⟨type, none⟩

def reset (hasher : HasherWin32) : Result HasherWin32 := create (clear hasher)

def add (span : Span) (hasher : HasherWin32) : Result HasherWin32 :=
  match hasher.hHash with
  | none => .error .hashDataFailed
  | some hash =>
      .ok { hasher with hHash := some (cryptHashData hash span.bytes span.size.toUInt32) }

def finish (digests : Digests) (hasher : HasherWin32) : Result HashValue :=
  match hasher.hHash with
  | none => .error .getHashParamFailed
  | some hash => .ok ⟨hasher.type, cryptGetHashParam digests hash⟩

end HasherWin32

def hasherWin32 (digests : Digests) : Hasher HasherWin32 where
  construct := HasherWin32.construct
  reset := HasherWin32.reset
  add := HasherWin32.add
  finish := HasherWin32.finish digests

/-! ## CommonCrypto -/

/-- The length is a `CC_LONG`. -/
def ccUpdate (ctx data : Bytes) (len : UInt32) : Bytes := ctx ++ data.take len.toNat

/-- The four classes differ by the array that they return and the functions that they
call. -/
structure MacClass where
  value : HashType
  algorithm : Algorithm

def macMd5Hasher : MacClass := ⟨.md5, .md5⟩

def macSha1Hasher : MacClass := ⟨.sha1, .sha1⟩

def macSha256Hasher : MacClass := ⟨.sha256, .sha256⟩

def macSha512Hasher : MacClass := ⟨.sha512, .sha512⟩

structure MacHasher where
  hasherClass : MacClass
  ctx : Bytes

namespace MacHasher

def factory : HashType → MacClass
  | .md5 => macMd5Hasher
  | .sha1 => macSha1Hasher
  | .sha256 => macSha256Hasher
  | .sha512 => macSha512Hasher

def construct (type : HashType) : Result MacHasher := .ok ⟨factory type, []⟩

def reset (hasher : MacHasher) : Result MacHasher := .ok { hasher with ctx := [] }

def add (span : Span) (hasher : MacHasher) : Result MacHasher :=
  .ok { hasher with ctx := ccUpdate hasher.ctx span.bytes span.size.toUInt32 }

def finish (digests : Digests) (hasher : MacHasher) : Result HashValue :=
  .ok ⟨hasher.hasherClass.value, digests.digest hasher.hasherClass.algorithm hasher.ctx⟩

end MacHasher

def hasherMac (digests : Digests) : Hasher MacHasher where
  construct := MacHasher.construct
  reset := MacHasher.reset
  add := MacHasher.add
  finish := MacHasher.finish digests

/-! ## Sequences of calls -/

inductive Call where
  | reset
  | add (span : Span)

section Hash

variable {State : Type} (hasher : Hasher State)

def Hasher.call (state : State) : Call → Result State
  | .reset => hasher.reset state
  | .add span => hasher.add span state

/-- A new hasher, the calls in their order, and `finish`. -/
def Hasher.hash (type : HashType) (calls : List Call) : Result HashValue := do
  let state ← hasher.construct type
  let state ← calls.foldlM hasher.call state
  hasher.finish state

end Hash

/-- What was added since the construction or the last reset. -/
def sinceReset (calls : List Call) : List Span :=
  calls.foldl (fun spans call =>
    match call with
    | .reset => []
    | .add span => spans ++ [span]) []

/-- The algorithm with the name of a type. -/
def HashType.algorithm : HashType → Algorithm
  | .md5 => .md5
  | .sha1 => .sha1
  | .sha256 => .sha256
  | .sha512 => .sha512

/-- The digest of all bytes that were added since the last reset. -/
def specification (digests : Digests) (type : HashType) (calls : List Call) : HashValue :=
  ⟨type, digests.digest type.algorithm ((sinceReset calls).flatMap Span.bytes)⟩

end Nstl.Hash
