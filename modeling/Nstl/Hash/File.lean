import Nstl.Hash.Agreement

/-!
# Hashing a file

`hash_file` reads a file into a buffer and adds what it read, until a read returns
nothing.  The size of the buffer is a `size_t`, and reaches the loop as an `unsigned int`.
-/

namespace Nstl.Hash

open Nstl.ByteString
open Nstl.Narrowing

inductive FileError where
  /-- `Buffer size must not be 0` -/
  | bufferSize
  /-- `Span is empty!` -/
  | emptySpan
  /-- The vector cannot be resized. -/
  | allocation
  /-- `filename is empty` -/
  | emptyFilename
  /-- The path, and ` cannot be opened` -/
  | cannotBeOpened
  /-- `Error while reading file: ` and the path -/
  | reading
  | hasher (error : HashError)
  deriving DecidableEq, Repr

/-- The most that one `read` returns. -/
def maxRead : ℕ := 0x7ffff000

/-- What a `read` returned. -/
structure Chunk where
  bytes : Bytes
  length_le : bytes.length ≤ maxRead

namespace Chunk

/-- The `ssize_t` as an `int`. -/
def readBytes (chunk : Chunk) : ℤ := Int.bmod chunk.bytes.length (2 ^ 32)

theorem readBytes_eq (chunk : Chunk) : chunk.readBytes = chunk.bytes.length := by
  have hlength := chunk.length_le
  rw [maxRead] at hlength
  exact Int.bmod_eq_of_le (by omega) (by omega)

theorem readBytes_pos {chunk : Chunk} (hne : chunk.bytes ≠ []) : 0 < chunk.readBytes := by
  rw [readBytes_eq]
  exact Int.natCast_pos.2 (List.length_pos_iff.2 hne)

/-- The front of the buffer. -/
def span (chunk : Chunk) : Span where
  bytes := chunk.bytes
  size := UInt64.ofNat chunk.readBytes.toNat
  size_eq := by
    have hlength := chunk.length_le
    rw [maxRead] at hlength
    rw [readBytes_eq, Int.toNat_natCast, UInt64.toNat_ofNat', Nat.mod_eq_of_lt (by omega)]

theorem size_span_lt (chunk : Chunk) : chunk.span.size.toNat < 2 ^ 32 := by
  have hlength := chunk.length_le
  rw [maxRead] at hlength
  rw [chunk.span.size_eq]
  exact Nat.lt_of_le_of_lt hlength (by decide)

end Chunk

/-- What the system does: the files, whether a vector gets its memory, and how much each
`read` wants to return, or `none` if it fails. -/
structure Environment where
  files : String → Option Bytes
  allocates : UInt64 → Bool
  reads : ℕ → Option ℕ

/-- The number of bytes that a `read` for `n` returns while data remains. -/
def readCount (n : UInt32) (wish : ℕ) : ℕ :=
  if n = 0 then 0 else max 1 (min wish (min n.toNat maxRead))

theorem readCount_le (n : UInt32) (wish : ℕ) : readCount n wish ≤ maxRead := by
  rw [readCount]
  split
  · exact Nat.zero_le _
  · have hwish : min wish (min n.toNat maxRead) ≤ maxRead :=
      (Nat.min_le_right _ _).trans (Nat.min_le_right _ _)
    exact Nat.max_le.2 ⟨by decide, hwish⟩

theorem readCount_pos {n : UInt32} (hn : n ≠ 0) (wish : ℕ) : 0 < readCount n wish := by
  rw [readCount, if_neg hn]
  exact Nat.lt_of_lt_of_le Nat.zero_lt_one (Nat.le_max_left _ _)

/-- A `read` for `n` bytes where `rest` remains. -/
def read (rest : Bytes) (n : UInt32) (wish : ℕ) : Chunk :=
  ⟨rest.take (readCount n wish),
    (List.length_take_le _ _).trans (readCount_le n wish)⟩

theorem read_append_drop (rest : Bytes) (n : UInt32) (wish : ℕ) :
    (read rest n wish).bytes ++ rest.drop (read rest n wish).bytes.length = rest :=
  List.prefix_iff_eq_append.1 <| List.take_prefix _ rest

theorem length_drop_read_lt {rest : Bytes} {n : UInt32} {wish : ℕ}
    (hread : 0 < (read rest n wish).readBytes) :
    (rest.drop (read rest n wish).bytes.length).length < rest.length := by
  rw [Chunk.readBytes_eq] at hread
  have hlength := congrArg List.length (read_append_drop rest n wish)
  rw [List.length_append] at hlength
  omega

section File

variable {State : Type} (env : Environment) (hasher : Hasher State)

/-- The loop of `hash_file_impl`, at its read number `i`. -/
def readLoop (buffersize : UInt32) (i : ℕ) (rest : Bytes) (state : State) :
    Except FileError State :=
  match env.reads i with
  | none => .error .reading
  | some wish =>
      let chunk := read rest buffersize wish
      if _ : 0 < chunk.readBytes then
        match hasher.add chunk.span state with
        | .error error => .error (.hasher error)
        | .ok state => readLoop buffersize (i + 1) (rest.drop chunk.bytes.length) state
      else if chunk.readBytes < 0 then .error .reading
      else .ok state
termination_by rest.length
decreasing_by exact length_drop_read_lt ‹_›

def hashFileImpl (path : String) (type : HashType) (buffersize : UInt32) :
    Except FileError HashValue :=
  if path.isEmpty then .error .emptyFilename
  else
    match env.files path with
    | none => .error .cannotBeOpened
    | some content => do
        let state ← (hasher.construct type).mapError .hasher
        let state ← readLoop env hasher buffersize 0 content state
        (hasher.finish state).mapError .hasher

/-- `hash_file` with a size. -/
def hashFile (path : String) (type : HashType) (buffersize : UInt64) :
    Except FileError HashValue :=
  if buffersize = 0 then .error .bufferSize
  else if env.allocates buffersize then hashFileImpl env hasher path type buffersize.toUInt32
  else .error .allocation

/-- `hash_file` with a buffer. -/
def hashFileSpan (path : String) (buffer : Span) (type : HashType) :
    Except FileError HashValue :=
  if buffer.size = 0 then .error .emptySpan
  else hashFileImpl env hasher path type buffer.size.toUInt32

end File

/-! ## What the loop absorbs -/

section Loop

variable {State : Type} {hasher : Hasher State} {holds : State → HashType → Bytes → Prop}
  {absorb : Span → Bytes} {digests : Digests} {env : Environment}

/-- The loop ends at a read that returns nothing. -/
theorem readLoop_of_empty {buffersize : UInt32} {i wish : ℕ} {rest : Bytes} {state : State}
    (hwish : env.reads i = some wish) (hempty : (read rest buffersize wish).bytes = []) :
    readLoop env hasher buffersize i rest state = .ok state := by
  have hread : (read rest buffersize wish).readBytes = 0 := by
    rw [Chunk.readBytes_eq, hempty]
    rfl
  rw [readLoop]
  simp [hwish, hread]

/-- Otherwise it adds what was read, and goes on. -/
theorem readLoop_of_add {buffersize : UInt32} {i wish : ℕ} {rest : Bytes}
    {state next : State} (hwish : env.reads i = some wish)
    (hne : (read rest buffersize wish).bytes ≠ [])
    (hadd : hasher.add (read rest buffersize wish).span state = .ok next) :
    readLoop env hasher buffersize i rest state =
      readLoop env hasher buffersize (i + 1)
        (rest.drop (read rest buffersize wish).bytes.length) next := by
  have hread := Chunk.readBytes_pos hne
  rw [readLoop]
  simp [hwish, hread, hadd]

variable (hreads : ∀ i, (env.reads i).isSome)

include hreads

/-- A buffer of size zero ends the loop at once. -/
theorem readLoop_zero (i : ℕ) (rest : Bytes) (state : State) :
    readLoop env hasher 0 i rest state = .ok state := by
  obtain ⟨wish, hwish⟩ := Option.isSome_iff_exists.1 (hreads i)
  exact readLoop_of_empty hwish rfl

/-- With any other buffer the loop absorbs all that remains, however the reads cut it. -/
theorem readLoop_absorbs (habsorbs : Absorbs hasher holds absorb digests)
    (hsmall : ∀ span : Span, span.size.toNat < 2 ^ 32 → absorb span = span.bytes)
    {buffersize : UInt32} (hsize : buffersize ≠ 0) {type : HashType} (i : ℕ) (rest : Bytes)
    {state : State} {bytes : Bytes} (hstate : holds state type bytes) :
    ∃ next, readLoop env hasher buffersize i rest state = .ok next ∧
      holds next type (bytes ++ rest) := by
  induction hlength : rest.length using Nat.strong_induction_on
      generalizing i rest state bytes with
  | _ length ih =>
      obtain ⟨wish, hwish⟩ := Option.isSome_iff_exists.1 (hreads i)
      by_cases hrest : rest = []
      · subst hrest
        refine ⟨state, readLoop_of_empty hwish List.take_nil, ?_⟩
        rwa [List.append_nil]
      · let chunk := read rest buffersize wish
        have hne : chunk.bytes ≠ [] := by
          intro hempty
          rcases List.take_eq_nil_iff.1 hempty with hzero | hnil
          · exact absurd hzero (readCount_pos hsize wish).ne'
          · exact hrest hnil
        obtain ⟨next, hadd, hnext⟩ := habsorbs.add state type bytes chunk.span hstate
        rw [hsmall _ chunk.size_span_lt] at hnext
        have hshorter := length_drop_read_lt (chunk.readBytes_pos hne)
        obtain ⟨last, hloop, hlast⟩ := ih _ (hlength ▸ hshorter) (i + 1) _ hnext rfl
        refine ⟨last, (readLoop_of_add hwish hne hadd).trans hloop, ?_⟩
        rwa [List.append_assoc, Chunk.span, read_append_drop] at hlast

/-- The whole call, where the path can be opened. -/
theorem hashFileImpl_eq (habsorbs : Absorbs hasher holds absorb digests)
    (hsmall : ∀ span : Span, span.size.toNat < 2 ^ 32 → absorb span = span.bytes)
    {path : String} {content : Bytes} (hpath : path ≠ "")
    (hopen : env.files path = some content) (type : HashType) (buffersize : UInt32) :
    hashFileImpl env hasher path type buffersize =
      .ok ⟨type, digests.digest type.algorithm (if buffersize = 0 then [] else content)⟩ := by
  obtain ⟨start, hconstruct, hstart⟩ := habsorbs.construct type
  have hloop : ∃ state, readLoop env hasher buffersize 0 content start = .ok state ∧
      holds state type (if buffersize = 0 then [] else content) := by
    split
    case isTrue hzero =>
      subst hzero
      exact ⟨start, readLoop_zero hreads 0 content start, hstart⟩
    case isFalse hsize =>
      exact readLoop_absorbs hreads habsorbs hsmall hsize 0 content hstart
  obtain ⟨state, hstate, hholds⟩ := hloop
  have hfinish := habsorbs.finish state type _ hholds
  simp [hashFileImpl, hpath, hopen, hconstruct, hstate, hfinish, Except.mapError, bind,
    Except.bind]

end Loop

/-! ## The whole content -/

/-- A call that returns one value, whichever backend there is. -/
def Returns (digests : Digests)
    (call : ∀ {State : Type}, Hasher State → Except FileError HashValue) (value : HashValue) :
    Prop :=
  call (hasherOpenSsl digests) = .ok value ∧ call (hasherWin32 digests) = .ok value ∧
    call (hasherMac digests) = .ok value

variable {env : Environment} {path : String} {content : Bytes}

/-- What `hash_file_impl` returns with every backend. -/
theorem hashFileImpl_returns (hreads : ∀ i, (env.reads i).isSome) (hpath : path ≠ "")
    (hopen : env.files path = some content) (digests : Digests) (type : HashType)
    (buffersize : UInt32) :
    Returns digests (fun hasher => hashFileImpl env hasher path type buffersize)
      ⟨type, digests.digest type.algorithm (if buffersize = 0 then [] else content)⟩ := by
  have hnarrow (span : Span) (hsize : span.size.toNat < 2 ^ 32) :
      narrow 32 span.bytes = span.bytes :=
    narrow_of_lt (span.size_eq ▸ hsize)
  refine ⟨?_, ?_, ?_⟩
  · exact hashFileImpl_eq hreads (absorbs_openSsl digests) (fun _ _ => rfl) hpath hopen type _
  · exact hashFileImpl_eq hreads (absorbs_win32 digests) hnarrow hpath hopen type _
  · exact hashFileImpl_eq hreads (absorbs_mac digests) hnarrow hpath hopen type _

theorem hashFileImpl_whole_iff (hreads : ∀ i, (env.reads i).isSome) (hpath : path ≠ "")
    (hopen : env.files path = some content) (type : HashType) (size : UInt64) :
    (∀ digests, Returns digests
        (fun hasher => hashFileImpl env hasher path type size.toUInt32)
        ⟨type, digests.digest type.algorithm content⟩) ↔
      size.toNat % 2 ^ 32 ≠ 0 ∨ content = [] := by
  have hzero : size.toUInt32 = 0 ↔ size.toNat % 2 ^ 32 = 0 := by
    rw [← UInt32.toNat_inj, UInt64.toNat_toUInt32]
    rfl
  have habsorbed : (if size.toUInt32 = 0 then [] else content) = content ↔
      size.toNat % 2 ^ 32 ≠ 0 ∨ content = [] := by
    rw [Ne, ← hzero]
    split
    case isTrue h => simp [h, eq_comm]
    case isFalse h => simp [h]
  rw [← habsorbed]
  constructor
  · intro hwhole
    have hreturns := hashFileImpl_returns hreads hpath hopen (tellApart content) type
      size.toUInt32
    exact eq_of_tellApart (hreturns.1.symm.trans (hwhole (tellApart content)).1)
  · intro heq digests
    have hreturns := hashFileImpl_returns hreads hpath hopen digests type size.toUInt32
    rwa [heq] at hreturns

/-- Both forms of `hash_file` return the digest of the whole content, whatever the hash
functions are and however the reads cut the content, exactly if the lower 32 bits of the
size are not all zero or there is no content. -/
theorem hash_file_iff (hreads : ∀ i, (env.reads i).isSome) (hpath : path ≠ "")
    (hopen : env.files path = some content) (type : HashType) (buffer : Span)
    (hbuffer : buffer.size ≠ 0) (hallocates : env.allocates buffer.size = true) :
    ((∀ digests, Returns digests
        (fun hasher => hashFile env hasher path type buffer.size)
        ⟨type, digests.digest type.algorithm content⟩) ↔
      buffer.size.toNat % 2 ^ 32 ≠ 0 ∨ content = []) ∧
    ((∀ digests, Returns digests
        (fun hasher => hashFileSpan env hasher path buffer type)
        ⟨type, digests.digest type.algorithm content⟩) ↔
      buffer.size.toNat % 2 ^ 32 ≠ 0 ∨ content = []) := by
  simp only [hashFile, hashFileSpan, if_neg hbuffer, if_pos hallocates]
  exact ⟨hashFileImpl_whole_iff hreads hpath hopen type buffer.size,
    hashFileImpl_whole_iff hreads hpath hopen type buffer.size⟩

/-- One file, of one byte. -/
def oneByte : Environment where
  files path := if path = "one" then some [1] else none
  allocates _ := true
  reads _ := some 1

theorem hash_file_iff_example :
    (∀ i, (oneByte.reads i).isSome) ∧ "one" ≠ "" ∧ oneByte.files "one" = some [1] ∧
      (zeros 3).size ≠ 0 ∧ oneByte.allocates (zeros 3).size = true ∧
      ∀ digests, Returns digests (fun hasher => hashFile oneByte hasher "one" .sha256 3)
        ⟨.sha256, digests.digest .sha256 [1]⟩ :=
  have hreads : ∀ i, (oneByte.reads i).isSome := fun _ => rfl
  have hboth := hash_file_iff hreads (show "one" ≠ "" by decide) (show _ = some [1] from rfl)
    .sha256 (zeros 3) (by decide) rfl
  ⟨hreads, by decide, rfl, by decide, rfl, hboth.1.2 (.inl (by decide))⟩

/-- A buffer of 4 GiB reads nothing of the file, which has one byte. -/
theorem hash_file_reads_nothing :
    ∃ digests, hashFile oneByte (hasherOpenSsl digests) "one" .sha256 4294967296 =
        .ok ⟨.sha256, digests.digest .sha256 []⟩ ∧
      hashFileSpan oneByte (hasherOpenSsl digests) "one" (zeros 4294967296) .sha256 =
        .ok ⟨.sha256, digests.digest .sha256 []⟩ ∧
      digests.digest .sha256 [] ≠ digests.digest .sha256 [1] := by
  have hreads : ∀ i, (oneByte.reads i).isSome := fun _ => rfl
  have hreturns := hashFileImpl_returns hreads (show "one" ≠ "" by decide) rfl
    (tellApart []) .sha256 0
  refine ⟨tellApart [], hreturns.1, hreturns.1, ?_⟩
  decide

end Nstl.Hash
