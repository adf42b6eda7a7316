import Mathlib.Data.List.Induction
import Nstl.Hash.Backends

/-!
# What the backends absorb

A backend absorbs what is added to it, or a part of it, since the last reset, and ends
in the digest of that.  OpenSSL takes all of an addition; the other two take as much as
the lower 32 bits of its size say.
-/

namespace Nstl.Hash

open Nstl.ByteString
open Nstl.Narrowing

/-- The hasher absorbs a part of every addition; `holds` says what a state has
absorbed. -/
structure Absorbs {State : Type} (hasher : Hasher State)
    (holds : State → HashType → Bytes → Prop) (absorb : Span → Bytes) (digests : Digests) :
    Prop where
  construct : ∀ type, ∃ state, hasher.construct type = .ok state ∧ holds state type []
  reset : ∀ state type bytes, holds state type bytes →
    ∃ next, hasher.reset state = .ok next ∧ holds next type []
  add : ∀ state type bytes span, holds state type bytes →
    ∃ next, hasher.add span state = .ok next ∧ holds next type (bytes ++ absorb span)
  finish : ∀ state type bytes, holds state type bytes →
    hasher.finish state = .ok ⟨type, digests.digest type.algorithm bytes⟩

section Absorbs

variable {State : Type} {hasher : Hasher State} {holds : State → HashType → Bytes → Prop}
  {absorb : Span → Bytes} {digests : Digests} (habsorbs : Absorbs hasher holds absorb digests)

theorem sinceReset_append (calls : List Call) (call : Call) :
    sinceReset (calls ++ [call]) =
      match call with
      | .reset => []
      | .add span => sinceReset calls ++ [span] := by
  rw [sinceReset, List.foldl_append]
  rfl

include habsorbs

/-- After every sequence of calls the hasher has absorbed the additions since the last
reset. -/
theorem Absorbs.foldlM (type : HashType) (calls : List Call) :
    ∃ start state, hasher.construct type = .ok start ∧
      calls.foldlM hasher.call start = .ok state ∧
      holds state type ((sinceReset calls).flatMap absorb) := by
  obtain ⟨start, hstart, hholds⟩ := habsorbs.construct type
  induction calls using List.reverseRecOn with
  | nil => exact ⟨start, start, hstart, rfl, hholds⟩
  | append_singleton calls call ih =>
      obtain ⟨start, state, hconstruct, hcalls, hstate⟩ := ih
      have hlast : ∃ next, hasher.call state call = .ok next ∧
          holds next type ((sinceReset (calls ++ [call])).flatMap absorb) := by
        rw [sinceReset_append]
        cases call with
        | reset => exact habsorbs.reset state type _ hstate
        | add span =>
            obtain ⟨next, hadd, hnext⟩ := habsorbs.add state type _ span hstate
            refine ⟨next, hadd, ?_⟩
            rwa [List.flatMap_append, List.flatMap_singleton]
      obtain ⟨next, hcall, hnext⟩ := hlast
      refine ⟨start, next, hconstruct, ?_, hnext⟩
      rw [List.foldlM_append, hcalls]
      simp [bind, Except.bind, pure, Except.pure, hcall]

theorem Absorbs.hash (type : HashType) (calls : List Call) :
    hasher.hash type calls =
      .ok ⟨type, digests.digest type.algorithm ((sinceReset calls).flatMap absorb)⟩ := by
  obtain ⟨start, state, hconstruct, hcalls, hstate⟩ := habsorbs.foldlM type calls
  rw [Hasher.hash, hconstruct]
  simp only [bind, Except.bind, hcalls, habsorbs.finish state type _ hstate]

end Absorbs

/-! ## The three backends -/

theorem take_size (span : Span) : span.bytes.take span.size.toNat = span.bytes := by
  rw [span.size_eq, List.take_length]

theorem take_size_toUInt32 (span : Span) :
    span.bytes.take span.size.toUInt32.toNat = narrow 32 span.bytes := by
  rw [UInt64.toNat_toUInt32, span.size_eq, narrow]

theorem absorbs_openSsl (digests : Digests) :
    Absorbs (hasherOpenSsl digests)
      (fun hasher type bytes => hasher = ⟨type, ⟨some type.algorithm, bytes⟩⟩)
      Span.bytes digests where
  construct type := by
    refine ⟨_, rfl, ?_⟩
    cases type <;> rfl
  reset := by
    rintro _ type bytes rfl
    refine ⟨_, rfl, ?_⟩
    cases type <;> rfl
  add := by
    rintro _ type bytes span rfl
    refine ⟨_, rfl, ?_⟩
    rw [take_size]
  finish := by
    rintro _ type bytes rfl
    rfl

theorem absorbs_win32 (digests : Digests) :
    Absorbs (hasherWin32 digests)
      (fun hasher type bytes => hasher = ⟨type, some ⟨type.algorithm, bytes⟩⟩)
      (fun span => narrow 32 span.bytes) digests where
  construct type := by
    refine ⟨_, rfl, ?_⟩
    cases type <;> rfl
  reset := by
    rintro _ type bytes rfl
    refine ⟨_, rfl, ?_⟩
    cases type <;> rfl
  add := by
    rintro _ type bytes span rfl
    refine ⟨_, rfl, ?_⟩
    rw [cryptHashData, take_size_toUInt32]
  finish := by
    rintro _ type bytes rfl
    rfl

theorem absorbs_mac (digests : Digests) :
    Absorbs (hasherMac digests)
      (fun hasher type bytes => hasher = ⟨⟨type, type.algorithm⟩, bytes⟩)
      (fun span => narrow 32 span.bytes) digests where
  construct type := by
    refine ⟨_, rfl, ?_⟩
    cases type <;> rfl
  reset := by
    rintro _ type bytes rfl
    exact ⟨_, rfl, rfl⟩
  add := by
    rintro _ type bytes span rfl
    refine ⟨_, rfl, ?_⟩
    rw [ccUpdate, take_size_toUInt32]
  finish := by
    rintro _ type bytes rfl
    rfl

/-! ## Agreement -/

/-- All three backends return the digest of everything that was added. -/
def Agree (digests : Digests) (type : HashType) (calls : List Call) : Prop :=
  (hasherOpenSsl digests).hash type calls = .ok (specification digests type calls) ∧
    (hasherWin32 digests).hash type calls = .ok (specification digests type calls) ∧
    (hasherMac digests).hash type calls = .ok (specification digests type calls)

theorem flatMap_narrow_spans_iff (spans : List Span) :
    spans.flatMap (fun span => narrow 32 span.bytes) = spans.flatMap Span.bytes ↔
      ∀ span ∈ spans, span.size.toNat < 2 ^ 32 := by
  have hchunks := flatMap_narrow_eq_iff 32 (spans.map Span.bytes)
  rw [List.flatMap_map, ← List.flatMap_def] at hchunks
  rw [hchunks, List.forall_mem_map]
  exact forall₂_congr fun span _ => by rw [span.size_eq]

/-- Hash functions that tell one input from all others. -/
def tellApart (bytes : Bytes) : Digests where
  digest algorithm input := List.replicate algorithm.size (if input = bytes then 1 else 0)
  length_digest _ _ := List.length_replicate

theorem tellApart_eq_iff (type : HashType) {bytes input : Bytes} :
    (tellApart bytes).digest type.algorithm input =
      (tellApart bytes).digest type.algorithm bytes ↔ input = bytes := by
  have hsize : type.algorithm.size ≠ 0 := by cases type <;> decide
  simp [tellApart, List.replicate_inj, hsize]

/-- What is returned tells the input, too. -/
theorem eq_of_tellApart {Error : Type} {type : HashType} {bytes input : Bytes}
    (heq : (Except.ok ⟨type, (tellApart bytes).digest type.algorithm input⟩ :
      Except Error HashValue) = .ok ⟨type, (tellApart bytes).digest type.algorithm bytes⟩) :
    input = bytes := by
  injection heq with hvalue
  injection hvalue with _ hbytes
  exact (tellApart_eq_iff type).1 hbytes

/-- For every type and every sequence of calls: the backends return the digest of
everything that was added since the last reset, whatever the hash functions are, exactly
if no addition since then has a size of 2³² or more. -/
theorem backends_agree_iff (type : HashType) (calls : List Call) :
    (∀ digests, Agree digests type calls) ↔
      ∀ span ∈ sinceReset calls, span.size.toNat < 2 ^ 32 := by
  rw [← flatMap_narrow_spans_iff]
  constructor
  · intro hagree
    have hwin := (hagree (tellApart ((sinceReset calls).flatMap Span.bytes))).2.1
    rw [(absorbs_win32 _).hash, specification] at hwin
    exact eq_of_tellApart hwin
  · intro hnarrow digests
    refine ⟨(absorbs_openSsl digests).hash type calls, ?_, ?_⟩
    · rw [(absorbs_win32 digests).hash, hnarrow, specification]
    · rw [(absorbs_mac digests).hash, hnarrow, specification]

/-- The digest of nothing is what Windows and macOS return for 2³² bytes. -/
theorem hash_of_size {span : Span} (hsize : span.size = 4294967296) (digests : Digests) :
    (hasherWin32 digests).hash .sha256 [.add span] =
        .ok ⟨.sha256, digests.digest .sha256 []⟩ ∧
      (hasherMac digests).hash .sha256 [.add span] =
        .ok ⟨.sha256, digests.digest .sha256 []⟩ ∧
      (hasherOpenSsl digests).hash .sha256 [.add span] =
        .ok ⟨.sha256, digests.digest .sha256 span.bytes⟩ := by
  have hadded : sinceReset [.add span] = [span] := rfl
  have hnarrow : narrow 32 span.bytes = [] := by
    rw [narrow, ← span.size_eq, hsize]
    exact List.take_zero
  refine ⟨?_, ?_, ?_⟩
  · rw [(absorbs_win32 digests).hash, hadded, List.flatMap_singleton, hnarrow]
    rfl
  · rw [(absorbs_mac digests).hash, hadded, List.flatMap_singleton, hnarrow]
    rfl
  · rw [(absorbs_openSsl digests).hash, hadded, List.flatMap_singleton]
    rfl

/-- As many zeros as a size says. -/
def zeros (size : UInt64) : Span := ⟨List.replicate size.toNat 0, size, by simp⟩

theorem backends_disagree :
    ∃ digests, (hasherWin32 digests).hash .sha256 [.add (zeros 4294967296)] =
        .ok ⟨.sha256, digests.digest .sha256 []⟩ ∧
      (hasherMac digests).hash .sha256 [.add (zeros 4294967296)] =
        .ok ⟨.sha256, digests.digest .sha256 []⟩ ∧
      (hasherOpenSsl digests).hash .sha256 [.add (zeros 4294967296)] ≠
        .ok ⟨.sha256, digests.digest .sha256 []⟩ := by
  have hsize : (zeros 4294967296).size = 4294967296 := rfl
  generalize zeros 4294967296 = span at hsize
  obtain ⟨hwin, hmac, hssl⟩ := hash_of_size hsize (tellApart [])
  refine ⟨tellApart [], hwin, hmac, ?_⟩
  rw [hssl]
  intro heq
  have hempty : span.bytes = [] := eq_of_tellApart heq
  have hlength := span.size_eq
  rw [hempty, hsize] at hlength
  exact absurd hlength (by decide)

end Nstl.Hash
