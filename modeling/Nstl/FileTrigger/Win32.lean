import Mathlib.Algebra.Group.Nat.Defs
import Nstl.FileTrigger.Follower

/-!
# The file trigger for Windows

The worker of `file_trigger_win32` reads the file from its beginning with overlapped
reads, and does not rely on the handle's own position: every read names its offset.
Where it does not have to send the file's initial content, the part of a read that
lies in front of the size at construction is left out.

The file only grows.  A read takes bytes that do not change any more, so it makes no
difference when between its start and its end the buffer is filled; it is filled here
when the worker asks for the result.  Every system call, and every run of the callback,
is a step of its own, and the system may answer each of them as it likes.
-/

namespace Nstl.FileTrigger.Win32

open Nstl.ByteString
open Nstl.Tailing
open Nstl.Transition

/-! ## The system's types -/

/-- The part of `OVERLAPPED` that says where to read. -/
structure Overlapped where
  offset : UInt32
  offsetHigh : UInt32
  deriving DecidableEq, Repr

def setOverlappedOffset (ov : Overlapped) (offset : UInt64) : Overlapped :=
  { ov with
    offset := (offset &&& 0xFFFFFFFF).toUInt32
    offsetHigh := (offset >>> 32).toUInt32 }

/-- Where the system reads. -/
def Overlapped.position (ov : Overlapped) : ℕ :=
  ov.offsetHigh.toNat * 2 ^ 32 + ov.offset.toNat

/-- A file, whose size is a number of 64 bits. -/
structure File where
  content : Bytes
  size_lt : content.length < 2 ^ 64

def queryFileSize (file : File) : UInt64 := UInt64.ofNat file.content.length

def errorHandleEof : UInt32 := 38
def errorIoPending : UInt32 := 997

def waitObject0 : UInt32 := 0
def waitAbandoned0 : UInt32 := 0x80
def waitTimeout : UInt32 := 258
def waitFailed : UInt32 := 0xFFFFFFFF

/-- What `ReadFile` reports: success, or else an error. -/
inductive ReadFileResult where
  | success
  | error (code : UInt32)
  deriving DecidableEq, Repr

/-- What `GetOverlappedResult` reports. -/
inductive OverlappedResult where
  | success (transferred : UInt32)
  | error (code : UInt32)
  deriving DecidableEq, Repr

/-! ## The worker -/

/-- What is fixed at construction. -/
structure Config where
  sow : Bool
  sowBoundary : UInt64
  bufferSize : UInt64
  deriving DecidableEq, Repr

inductive FactoryError where
  | invalidHandle
  | invalidCallback
  | emptyBuffer
  | getFileSizeEx
  deriving DecidableEq, Repr

/-- Both overloads of `file_trigger::factory`, once they have a handle.  `size` is
whether `GetFileSizeEx` succeeds. -/
def factory (handler callback size : Bool) (file : File) (sow : Bool) (bufferSize : UInt64) :
    Except FactoryError Config :=
  if !handler then .error .invalidHandle
  else if !callback then .error .invalidCallback
  else if bufferSize = 0 then .error .emptyBuffer
  else if !size then .error .getFileSizeEx
  else .ok { sow := sow, sowBoundary := queryFileSize file, bufferSize := bufferSize }

/-- A read with what it was called with. -/
structure ReadRequest where
  overlapped : Overlapped
  count : UInt32
  deriving DecidableEq, Repr

/-- A part of the buffer. -/
structure Span where
  skip : UInt64
  count : UInt64
  deriving DecidableEq, Repr

def Span.of (span : Span) (bytes : Bytes) : Bytes :=
  (bytes.drop span.skip.toNat).take span.count.toNat

/-- Why the worker stopped with an exception. -/
inductive Failure where
  | fileEvent
  | resize
  | readFile (code : UInt32)
  | timeout
  | abandoned (handle : UInt32)
  | waitFailed
  | unexpectedWait (response : UInt32)
  | overlappedResult (code : UInt32)
  | pollFailed
  | unexpectedPoll (response : UInt32)
  | callback
  deriving DecidableEq, Repr

/-- The next thing that the worker does. -/
inductive Location where
  | createEvent
  | resizeBuffer
  | readFile
  | waiting (request : ReadRequest)
  | completed (request : ReadRequest)
  | calling (span : Span)
  | polling
  | returned
  | thrown (failure : Failure)
  deriving DecidableEq, Repr

/-- A call of the callback. -/
structure Call where
  /-- What the last read has brought. -/
  bytesRead : Bytes
  span : Span
  /-- What the callback finds in its span. -/
  bytes : Bytes
  deriving DecidableEq

structure TriggerState where
  file : File
  buffer : Bytes
  fileOffset : UInt64
  calls : List Call
  location : Location
  exitSignal : Bool
  running : Bool
  stop : StopState

/-- The trigger when its thread starts. -/
def TriggerState.initial (file : File) : TriggerState where
  file := file
  buffer := []
  fileOffset := 0
  calls := []
  location := .createEvent
  exitSignal := false
  running := true
  stop := .notCalled

/-- The next read. -/
def TriggerState.request (state : TriggerState) : ReadRequest where
  overlapped := setOverlappedOffset ⟨0, 0⟩ state.fileOffset
  count := UInt32.ofNat state.buffer.length

def Location.afterReadFile (request : ReadRequest) : ReadFileResult → Location
  | .success => .completed request
  | .error code =>
      if code = errorIoPending then .waiting request
      else if code ≠ errorHandleEof then .thrown (.readFile code)
      else .polling

/-- The branches behind `WaitForMultipleObjects` on the two handles. -/
def Location.afterWait (request : ReadRequest) (response : UInt32) : Location :=
  if response = waitObject0 + 1 then .returned
  else if response = waitTimeout then .thrown .timeout
  else if waitAbandoned0 ≤ response ∧ response < waitAbandoned0 + 2 then
    .thrown (.abandoned (response - waitAbandoned0))
  else if response = waitFailed then .thrown .waitFailed
  else if response ≠ waitObject0 then .thrown (.unexpectedWait response)
  else .completed request

/-- The branches behind `WaitForSingleObject` on the exit event. -/
def Location.afterPoll (response : UInt32) : Location :=
  if response = waitObject0 then .returned
  else if response = waitFailed then .thrown .pollFailed
  else if response ≠ waitTimeout then .thrown (.unexpectedPoll response)
  else .readFile

def deliverFrom (config : Config) (chunkStart fileOffset : UInt64) : UInt64 :=
  if !config.sow && decide (chunkStart < config.sowBoundary) then
    min fileOffset config.sowBoundary
  else chunkStart

/-- What the callback gets of the bytes between two offsets. -/
def delivery (config : Config) (chunkStart fileOffset : UInt64) : Option Span :=
  let deliverFrom := deliverFrom config chunkStart fileOffset
  if deliverFrom < fileOffset then
    some { skip := deliverFrom - chunkStart, count := fileOffset - deliverFrom }
  else none

/-- The bytes that a read brings. -/
def TriggerState.bytesRead (state : TriggerState) (request : ReadRequest)
    (transferred : UInt32) : Bytes :=
  (state.file.content.drop request.overlapped.position).take transferred.toNat

/-- The read is in the buffer, and the offset behind it. -/
def TriggerState.fill (request : ReadRequest) (transferred : UInt32) (state : TriggerState) :
    TriggerState :=
  { state with
    buffer := state.bytesRead request transferred ++ state.buffer.drop transferred.toNat
    fileOffset := state.fileOffset + transferred.toUInt64 }

def TriggerState.call (bytesRead : Bytes) (span : Span) (state : TriggerState) : TriggerState :=
  { state with
    calls := state.calls ++ [⟨bytesRead, span, span.of state.buffer⟩]
    location := .calling span }

/-- The end of a read with `transferred` bytes. -/
def TriggerState.complete (config : Config) (request : ReadRequest) (transferred : UInt32)
    (state : TriggerState) : TriggerState :=
  let chunkStart := state.fileOffset
  let filled := state.fill request transferred
  if 0 < transferred then
    match delivery config chunkStart filled.fileOffset with
    | some span => filled.call (state.bytesRead request transferred) span
    | none => { filled with location := .readFile }
  else { filled with location := .polling }

/-- What the worker makes of the result of a read. -/
def TriggerState.afterRead (config : Config) (request : ReadRequest) (state : TriggerState) :
    OverlappedResult → TriggerState
  | .success transferred => state.complete config request transferred
  | .error code =>
      { state with
        location :=
          if code ≠ errorHandleEof then .thrown (.overlappedResult code) else .polling }

/-- The results that a read can have: no more bytes than it asked for, and than the
file has behind its offset. -/
def TriggerState.Reads (state : TriggerState) (request : ReadRequest) :
    OverlappedResult → Prop
  | .success transferred =>
      transferred ≤ request.count ∧
        transferred.toNat ≤ (state.file.content.drop request.overlapped.position).length
  | .error _ => True

/-- The callback may write to its span. -/
def TriggerState.overwrite (span : Span) (written : Bytes) (state : TriggerState) :
    TriggerState :=
  { state with
    buffer := state.buffer.take span.skip.toNat ++ written ++
      state.buffer.drop (span.skip.toNat + span.count.toNat) }

inductive Action where
  | append (bytes : Bytes)
  | createEvent (created : Bool)
  | resizeBuffer (resized : Bool)
  | readFile (request : ReadRequest) (result : ReadFileResult)
  | waitForMultipleObjects (response : UInt32)
  | getOverlappedResult (result : OverlappedResult)
  | callbackReturns (written : Bytes)
  | callbackThrows
  | waitForSingleObject (response : UInt32)
  | stopExchange
  | stopSetEvent
  | stopJoin

/-- The transitions. -/
inductive Step (config : Config) : TriggerState → Action → TriggerState → Prop
  | append {state} (bytes : Bytes) (hsize : (state.file.content ++ bytes).length < 2 ^ 64) :
      Step config state (.append bytes)
        { state with file := ⟨state.file.content ++ bytes, hsize⟩ }
  | createEvent {state} (created : Bool) (hlocation : state.location = .createEvent) :
      Step config state (.createEvent created)
        { state with location := if created then .resizeBuffer else .thrown .fileEvent }
  | resizeBuffer {state} (hlocation : state.location = .resizeBuffer) :
      Step config state (.resizeBuffer true)
        { state with
          buffer := List.replicate config.bufferSize.toNat 0
          location := .readFile }
  | resizeThrows {state} (hlocation : state.location = .resizeBuffer) :
      Step config state (.resizeBuffer false) { state with location := .thrown .resize }
  | readFile {state} (result : ReadFileResult) (hlocation : state.location = .readFile) :
      Step config state (.readFile state.request result)
        { state with location := .afterReadFile state.request result }
  | waitForMultipleObjects {state request} (response : UInt32)
      (hlocation : state.location = .waiting request)
      (hexit : response = waitObject0 + 1 → state.exitSignal = true) :
      Step config state (.waitForMultipleObjects response)
        { state with location := .afterWait request response }
  | getOverlappedResult {state request} (result : OverlappedResult)
      (hlocation : state.location = .completed request) (hreads : state.Reads request result) :
      Step config state (.getOverlappedResult result) (state.afterRead config request result)
  | callbackReturns {state span} (written : Bytes) (hlocation : state.location = .calling span)
      (hwritten : written.length = span.count.toNat) :
      Step config state (.callbackReturns written)
        { state.overwrite span written with location := .readFile }
  | callbackThrows {state span} (hlocation : state.location = .calling span) :
      Step config state .callbackThrows { state with location := .thrown .callback }
  | waitForSingleObject {state} (response : UInt32) (hlocation : state.location = .polling)
      (hexit : response = waitObject0 → state.exitSignal = true) :
      Step config state (.waitForSingleObject response)
        { state with location := .afterPoll response }
  | stopExchange {state} :
      Step config state .stopExchange
        { state with
          running := false
          stop := if state.running then .writing else state.stop }
  | stopSetEvent {state} (hstop : state.stop = .writing) :
      Step config state .stopSetEvent { state with exitSignal := true, stop := .joining }
  | stopJoin {state} (hstop : state.stop = .joining)
      (hlocation : state.location = .returned ∨ ∃ failure, state.location = .thrown failure) :
      Step config state .stopJoin { state with stop := .returned }

/-! ## Offsets -/

/-- The two halves of an offset are all of it. -/
theorem position_setOverlappedOffset (ov : Overlapped) (offset : UInt64) :
    (setOverlappedOffset ov offset).position = offset.toNat := by
  have hoffset := offset.toNat_lt
  have hlow : (offset &&& 0xFFFFFFFF).toNat = offset.toNat % 2 ^ 32 := by
    rw [UInt64.toNat_and]
    exact Nat.and_two_pow_sub_one_eq_mod offset.toNat 32
  have hhigh : (offset >>> 32).toNat = offset.toNat / 2 ^ 32 := by
    rw [UInt64.toNat_shiftRight]
    exact Nat.shiftRight_eq_div_pow offset.toNat 32
  simp only [setOverlappedOffset, Overlapped.position, UInt64.toNat_toUInt32, hlow, hhigh]
  omega

theorem position_request (state : TriggerState) :
    state.request.overlapped.position = state.fileOffset.toNat :=
  position_setOverlappedOffset ⟨0, 0⟩ state.fileOffset

/-- From where the callback gets the file. -/
def Config.start (config : Config) : ℕ := if config.sow then 0 else config.sowBoundary.toNat

theorem start_factory {handler callback size : Bool} {file : File} {sow : Bool}
    {bufferSize : UInt64} {config : Config}
    (hfactory : factory handler callback size file sow bufferSize = .ok config) :
    config.start = if sow then 0 else file.content.length := by
  rw [factory] at hfactory
  iterate 4
    split at hfactory
    · cases hfactory
  cases hfactory
  rw [Config.start, queryFileSize, UInt64.toNat_ofNat_of_lt' file.size_lt]

variable {config : Config} {chunkStart fileOffset : UInt64} {span : Span}

theorem toNat_min (left right : UInt64) : (min left right).toNat = min left.toNat right.toNat := by
  rw [Nat.min_def]
  change (if left ≤ right then left else right).toNat = _
  simp only [UInt64.le_iff_toNat_le]
  split
  · rfl
  · rfl

variable (config) in
/-- The callback gets nothing from in front of the start. -/
theorem toNat_deliverFrom (hle : chunkStart.toNat ≤ fileOffset.toNat) :
    (deliverFrom config chunkStart fileOffset).toNat =
      max chunkStart.toNat (min fileOffset.toNat config.start) := by
  rw [deliverFrom, Config.start]
  cases config.sow with
  | true => simp
  | false =>
      simp only [Bool.not_false, Bool.true_and, decide_eq_true_eq, UInt64.lt_iff_toNat_lt]
      split
      · rw [toNat_min]
        simp only [Bool.false_eq_true, if_false]
        omega
      · simp only [Bool.false_eq_true, if_false]
        omega

theorem le_start_of_delivery (hlt : chunkStart.toNat < fileOffset.toNat)
    (hnone : delivery config chunkStart fileOffset = none) :
    fileOffset.toNat ≤ config.start := by
  have hfrom := toNat_deliverFrom config hlt.le
  simp only [delivery, UInt64.lt_iff_toNat_lt, hfrom] at hnone
  split at hnone
  · cases hnone
  · omega

theorem delivery_spec (hle : chunkStart.toNat ≤ fileOffset.toNat)
    (hsome : delivery config chunkStart fileOffset = some span) :
    config.start < fileOffset.toNat ∧
      span.skip.toNat = config.start - chunkStart.toNat ∧
      chunkStart.toNat + span.skip.toNat + span.count.toNat = fileOffset.toNat := by
  have hfrom := toNat_deliverFrom config hle
  simp only [delivery] at hsome
  split at hsome
  next hlt =>
      cases hsome
      rw [UInt64.lt_iff_toNat_lt, hfrom] at hlt
      have hskip : chunkStart ≤ deliverFrom config chunkStart fileOffset := by
        rw [UInt64.le_iff_toNat_le, hfrom]
        omega
      have hcount : deliverFrom config chunkStart fileOffset ≤ fileOffset := by
        rw [UInt64.le_iff_toNat_le, hfrom]
        omega
      rw [UInt64.toNat_sub_of_le _ _ hskip, UInt64.toNat_sub_of_le _ _ hcount, hfrom]
      omega
  next => cases hsome

/-- The offset behind a read that ends inside the file. -/
theorem toNat_add_transferred {chunkStart : UInt64} {transferred : UInt32}
    (hfits : chunkStart.toNat + transferred.toNat < 2 ^ 64) :
    (chunkStart + transferred.toUInt64).toNat = chunkStart.toNat + transferred.toNat := by
  rw [UInt64.toNat_add, UInt32.toNat_toUInt64, Nat.mod_eq_of_lt hfits]

/-! ## What the callback gets -/

/-- The worker as a reader that follows the file. -/
def TriggerState.tail (state : TriggerState) : Tail Byte where
  content := state.file.content
  offset := state.fileOffset.toNat
  chunks := state.calls.map Call.bytes

@[simp]
theorem offset_tail (state : TriggerState) : state.tail.offset = state.fileOffset.toNat := rfl

/-- The span lies inside the bytes just read, and holds its part of them. -/
structure Call.Inside (call : Call) : Prop where
  skip_add_count : call.span.skip.toNat + call.span.count.toNat ≤ call.bytesRead.length
  bytes_eq : call.bytes = call.span.of call.bytesRead

variable {state next : TriggerState} {request : ReadRequest} {transferred : UInt32}
  {action : Action}

theorem Span.of_append {bytes rest : Bytes}
    (hinside : span.skip.toNat + span.count.toNat ≤ bytes.length) :
    span.of (bytes ++ rest) = span.of bytes := by
  rw [Span.of, Span.of, List.drop_append_of_le_length (by omega), List.take_append_of_le_length]
  rw [List.length_drop]
  omega

/-- A read that was issued at the worker's offset, and brought something. -/
structure Progress (state : TriggerState) (request : ReadRequest) (transferred : UInt32) :
    Prop where
  pos : 0 < transferred.toNat
  position : request.overlapped.position = state.fileOffset.toNat
  available : transferred.toNat ≤ state.tail.unread.length

namespace Progress

theorem toNat_fileOffset (hprogress : Progress state request transferred) :
    (state.fill request transferred).fileOffset.toNat =
      state.fileOffset.toNat + transferred.toNat :=
  toNat_add_transferred ((Tail.offset_add_le hprogress.pos hprogress.available).trans_lt
    state.file.size_lt)

theorem bytesRead_eq (hprogress : Progress state request transferred) :
    state.bytesRead request transferred = state.tail.unread.take transferred.toNat := by
  rw [TriggerState.bytesRead, hprogress.position]
  rfl

theorem length_bytesRead (hprogress : Progress state request transferred) :
    (state.bytesRead request transferred).length = transferred.toNat := by
  rw [hprogress.bytesRead_eq, List.length_take, Nat.min_eq_left hprogress.available]

theorem tail_fill (hprogress : Progress state request transferred) :
    (state.fill request transferred).tail = state.tail.skip transferred.toNat := by
  rw [TriggerState.tail, hprogress.toNat_fileOffset]
  rfl

theorem span_of_fill (hprogress : Progress state request transferred)
    (hspan : span.skip.toNat + span.count.toNat = transferred.toNat) :
    span.of (state.fill request transferred).buffer =
      span.of (state.bytesRead request transferred) := by
  apply Span.of_append
  rw [hprogress.length_bytesRead, hspan]

/-- The span holds the rest of the read behind what is skipped. -/
theorem span_eq_unread (hprogress : Progress state request transferred)
    (hspan : span.skip.toNat + span.count.toNat = transferred.toNat) :
    span.of (state.fill request transferred).buffer =
      (state.tail.skip span.skip.toNat).unread.take span.count.toNat := by
  calc span.of (state.fill request transferred).buffer
      = ((state.tail.unread.take transferred.toNat).drop span.skip.toNat).take
          span.count.toNat := by
        rw [hprogress.span_of_fill hspan, Span.of, hprogress.bytesRead_eq]
    _ = (state.tail.unread.drop span.skip.toNat).take span.count.toNat := by
        rw [List.drop_take, ← hspan, Nat.add_sub_cancel_left, List.take_take, Nat.min_self]
    _ = (state.tail.skip span.skip.toNat).unread.take span.count.toNat := by
        rw [Tail.unread, List.drop_drop]
        rfl

theorem tail_call (hprogress : Progress state request transferred)
    (hspan : span.skip.toNat + span.count.toNat = transferred.toNat) (bytes : Bytes) :
    ((state.fill request transferred).call bytes span).tail =
      (state.tail.skip span.skip.toNat).hand span.count.toNat := by
  rw [Tail.hand, ← hprogress.span_eq_unread hspan, Tail.offset_skip, offset_tail, Nat.add_assoc,
    hspan, ← hprogress.toNat_fileOffset]
  simp [TriggerState.tail, TriggerState.call, TriggerState.fill, Tail.skip]

/-- The callback is called with what lies behind the start, if there is something. -/
theorem complete_cases (hprogress : Progress state request transferred) (config : Config) :
    (state.fileOffset.toNat + transferred.toNat ≤ config.start ∧
        state.complete config request transferred =
          { state.fill request transferred with location := .readFile }) ∨
      ∃ span : Span, config.start < state.fileOffset.toNat + transferred.toNat ∧
        span.skip.toNat = config.start - state.fileOffset.toNat ∧
        span.skip.toNat + span.count.toNat = transferred.toNat ∧
        state.complete config request transferred =
          (state.fill request transferred).call (state.bytesRead request transferred) span := by
  have hoffset := hprogress.toNat_fileOffset
  have hchunk : state.fileOffset.toNat < (state.fill request transferred).fileOffset.toNat := by
    rw [hoffset]
    exact Nat.lt_add_of_pos_right hprogress.pos
  rw [TriggerState.complete, if_pos ((UInt32.lt_iff_toNat_lt (a := 0)).2 hprogress.pos)]
  split
  next span hsome =>
      obtain ⟨hstart, hskip, hend⟩ := delivery_spec hchunk.le hsome
      rw [hoffset] at hstart hend
      exact .inr ⟨span, hstart, hskip, by omega, rfl⟩
  next hnone =>
      have hbefore := le_start_of_delivery hchunk hnone
      rw [hoffset] at hbefore
      exact .inl ⟨hbefore, rfl⟩

/-- The worker takes what was read, and hands on what lies behind the start. -/
theorem tail_complete (hprogress : Progress state request transferred) (config : Config) :
    (state.complete config request transferred).tail =
      state.tail.advance config.start transferred.toNat := by
  rw [Tail.advance, offset_tail]
  rcases hprogress.complete_cases config with
    ⟨hbefore, hcomplete⟩ | ⟨span, hbeyond, hskip, hspan, hcomplete⟩
  · rw [if_pos hbefore, ← hprogress.tail_fill, hcomplete]
    rfl
  · have hrest : transferred.toNat - span.skip.toNat = span.count.toNat := by omega
    rw [if_neg (Nat.not_le.2 hbeyond), ← hskip, hrest, hcomplete, hprogress.tail_call hspan]

theorem inside_complete (hprogress : Progress state request transferred)
    (hinside : ∀ call ∈ state.calls, call.Inside) :
    ∀ call ∈ (state.complete config request transferred).calls, call.Inside := by
  rcases hprogress.complete_cases config with
    ⟨_, hcomplete⟩ | ⟨span, _, _, hspan, hcomplete⟩
  · rw [hcomplete]
    exact hinside
  · rw [hcomplete]
    refine List.forall_mem_append.2 ⟨hinside, List.forall_mem_singleton.2 ⟨?_, ?_⟩⟩
    · rw [hspan, hprogress.length_bytesRead]
    · exact hprogress.span_of_fill hspan

end Progress

/-- A read that brings nothing changes nothing that the callback gets. -/
theorem complete_zero (config : Config) (request : ReadRequest) (state : TriggerState) :
    (state.complete config request 0).tail = state.tail ∧
      (state.complete config request 0).calls = state.calls := by
  simp [TriggerState.complete, TriggerState.fill, TriggerState.tail]

/-- A read that is under way was issued as the worker's next read. -/
def Location.Issued (request : ReadRequest) : Location → Prop
  | .waiting issued | .completed issued => issued = request
  | _ => True

/-- What holds in every state of the trigger. -/
structure TriggerState.Consistent (config : Config) (state : TriggerState) : Prop where
  bounded : state.tail.offset ≤ state.tail.content.length
  faithful : state.tail.Faithful (min state.tail.offset config.start)
  issued : state.location.Issued state.request
  inside : ∀ call ∈ state.calls, call.Inside

theorem initial_consistent (file : File) : (TriggerState.initial file).Consistent config where
  bounded := Nat.zero_le _
  faithful := by
    have hoffset : (TriggerState.initial file).tail.offset = 0 := rfl
    rw [Nat.min_eq_left (by omega)]
    exact Tail.Faithful.here rfl
  issued := trivial
  inside := by simp [TriggerState.initial]

theorem issued_afterReadFile (request : ReadRequest) (result : ReadFileResult) :
    (Location.afterReadFile request result).Issued request := by
  cases result with
  | success => rfl
  | error code =>
      rw [Location.afterReadFile]
      split
      · rfl
      · split <;> trivial

theorem issued_afterWait (request : ReadRequest) (response : UInt32) :
    (Location.afterWait request response).Issued request := by
  rw [Location.afterWait]
  iterate 5
    split
    · trivial
  rfl

theorem issued_afterPoll (request : ReadRequest) (response : UInt32) :
    (Location.afterPoll response).Issued request := by
  rw [Location.afterPoll]
  iterate 3
    split
    · trivial
  trivial

theorem issued_complete (other : ReadRequest) :
    (state.complete config request transferred).location.Issued other := by
  rw [TriggerState.complete]
  split
  · split <;> trivial
  · trivial

namespace TriggerState.Consistent

/-- A step that leaves alone what the worker follows. -/
theorem move (hconsistent : state.Consistent config) (htail : next.tail = state.tail)
    (hcalls : next.calls = state.calls) (hissued : next.location.Issued next.request) :
    next.Consistent config where
  bounded := htail ▸ hconsistent.bounded
  faithful := htail ▸ hconsistent.faithful
  issued := hissued
  inside := hcalls ▸ hconsistent.inside

theorem append (hconsistent : state.Consistent config) (bytes : Bytes)
    (hsize : (state.file.content ++ bytes).length < 2 ^ 64) :
    TriggerState.Consistent config
      { state with file := ⟨state.file.content ++ bytes, hsize⟩ } where
  bounded := by
    calc state.tail.offset ≤ state.file.content.length := hconsistent.bounded
      _ ≤ (state.file.content ++ bytes).length := by
          rw [List.length_append]
          exact Nat.le_add_right ..
  faithful := hconsistent.faithful.append bytes
  issued := hconsistent.issued
  inside := hconsistent.inside

theorem complete (hconsistent : state.Consistent config)
    (hlocation : state.location = .completed request)
    (hreads : state.Reads request (.success transferred)) :
    (state.complete config request transferred).Consistent config := by
  have hissued := hconsistent.issued
  rw [hlocation] at hissued
  by_cases hzero : transferred = 0
  · obtain ⟨htail, hcalls⟩ := complete_zero config request state
    rw [hzero]
    exact hconsistent.move htail hcalls (issued_complete _)
  · have hposition : request.overlapped.position = state.fileOffset.toNat := by
      rw [hissued, position_request]
    have hprogress : Progress state request transferred := {
      pos := Nat.pos_of_ne_zero fun hnat => hzero (UInt32.toNat_inj.1 hnat)
      position := hposition
      available := by
        have havailable := hreads.2
        rwa [hposition] at havailable }
    have htail := hprogress.tail_complete config
    constructor
    · rw [htail, Tail.offset_advance, Tail.content_advance]
      exact Tail.offset_add_le hprogress.pos hprogress.available
    · rw [htail]
      exact hconsistent.faithful.advance hprogress.pos hprogress.available
    · exact issued_complete _
    · exact hprogress.inside_complete hconsistent.inside

end TriggerState.Consistent

theorem Step.consistent (hstep : Step config state action next)
    (hconsistent : state.Consistent config) : next.Consistent config := by
  have hissued := hconsistent.issued
  cases hstep with
  | append bytes hsize => exact hconsistent.append bytes hsize
  | createEvent created hlocation =>
      refine hconsistent.move rfl rfl ?_
      cases created <;> trivial
  | resizeBuffer | resizeThrows | callbackReturns | callbackThrows =>
      exact hconsistent.move rfl rfl trivial
  | readFile result hlocation =>
      exact hconsistent.move rfl rfl (issued_afterReadFile _ result)
  | waitForMultipleObjects response hlocation hexit =>
      rw [hlocation] at hissued
      refine hconsistent.move rfl rfl ?_
      rw [hissued]
      exact issued_afterWait _ response
  | getOverlappedResult result hlocation hreads =>
      cases result with
      | success transferred => exact hconsistent.complete hlocation hreads
      | error code =>
          refine hconsistent.move rfl rfl ?_
          rw [TriggerState.afterRead]
          split <;> trivial
  | waitForSingleObject response hlocation hexit =>
      exact hconsistent.move rfl rfl (issued_afterPoll _ response)
  | stopExchange | stopSetEvent | stopJoin => exact hconsistent.move rfl rfl hissued

theorem run_consistent {file : File} {actions : List Action}
    (run : Run (Step config) (.initial file) actions state) : state.Consistent config :=
  run.invariant (TriggerState.Consistent config) (initial_consistent file)
    fun _ _ _ hbefore hstep => hstep.consistent hbefore

/-- A trigger from the factory, whose file may grow before the worker starts: without
`sow` the callback gets what lies behind the size that the factory has found. -/
theorem factory_delivers {handler callback size sow : Bool} {file grown : File}
    {bufferSize : UInt64} {actions : List Action}
    (hfactory : factory handler callback size file sow bufferSize = .ok config)
    (run : Run (Step config) (.initial grown) actions state) :
    (state.calls.map Call.bytes).flatten =
      (state.file.content.drop (if sow then 0 else file.content.length)).take
        (state.fileOffset.toNat - if sow then 0 else file.content.length) := by
  rw [← start_factory hfactory]
  exact (run_consistent run).faithful.handed_from

/-- In every run the calls of the callback bring the file's content from the start to the
worker's offset, each call has a part of the bytes just read, and the next read is issued
at the worker's offset. -/
theorem worker_delivers {file : File} {actions : List Action}
    (run : Run (Step config) (.initial file) actions state) :
    (state.calls.map Call.bytes).flatten =
        (state.file.content.drop config.start).take (state.fileOffset.toNat - config.start) ∧
      state.fileOffset.toNat ≤ state.file.content.length ∧
      (∀ call ∈ state.calls, call.Inside) ∧
      (∀ issued result next, Step config state (.readFile issued result) next →
        issued.overlapped = setOverlappedOffset ⟨0, 0⟩ state.fileOffset) ∧
      ∀ ov offset, (setOverlappedOffset ov offset).position = offset.toNat := by
  have hconsistent := run_consistent run
  refine ⟨hconsistent.faithful.handed_from, hconsistent.bounded, hconsistent.inside, ?_,
    position_setOverlappedOffset⟩
  intro issued result next hstep
  cases hstep with
  | readFile => rfl

/-- A file of three bytes. -/
def threeBytes : File := ⟨[1, 2, 3], by decide⟩

/-- A trigger that does not send them. -/
def withoutContent : Config where
  sow := false
  sowBoundary := 3
  bufferSize := 4

/-- The second read brings the last of the three bytes, and two bytes more. -/
theorem worker_delivers_across_boundary :
    ∃ actions state, Run (Step withoutContent) (.initial threeBytes) actions state ∧
      state.fileOffset = 5 ∧ (state.calls.map Call.bytes).flatten = [4, 5] := by
  have hstart : Run (Step withoutContent) (.initial threeBytes) [] (.initial threeBytes) := .nil
  have hread := ((hstart.snoc (.createEvent true rfl)).snoc (.resizeBuffer rfl)).snoc
    (.readFile .success rfl)
  have hskipped := hread.snoc
    (.getOverlappedResult (.success 2) rfl ⟨by decide, by decide⟩)
  have hgrown := hskipped.snoc (.append [4, 5] (by decide))
  have hpending := (hgrown.snoc (.readFile (.error errorIoPending) rfl)).snoc
    (.waitForMultipleObjects waitObject0 rfl (by decide))
  have hstraddled := hpending.snoc
    (.getOverlappedResult (.success 3) rfl ⟨by decide, by decide⟩)
  refine ⟨_, _, hstraddled, by decide, ?_⟩
  rw [(worker_delivers hstraddled).1]
  decide

end Nstl.FileTrigger.Win32
