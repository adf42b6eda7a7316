import Mathlib.Order.Lattice
import Nstl.Core.ByteString
import Nstl.Core.Tailing
import Nstl.Core.Transition

/-!
# The read loop of the file triggers

`_read_data` is the same function in the triggers for Linux and macOS, and so is
what the two of them do with the file: the constructor runs the loop once, with or
without the callback, and the worker runs it for every event on the file.  A read
and the call of the callback with its bytes are one step; the callback may take
its time before it returns.
-/

namespace Nstl.FileTrigger

open Nstl.ByteString
open Nstl.Tailing
open Nstl.Transition

/-- What `::read` reports. -/
inductive ReadResult where
  | bytes (count : ℕ)
  | endOfFile
  | wouldBlock
  | interrupted
  | failed
  deriving DecidableEq, Repr

/-- The results that `::read` can have on the file.  A read may be short, but it
ends or blocks only if there is nothing to read. -/
inductive Reads (bufferSize : ℕ) (file : Tail Byte) : ReadResult → Prop
  | bytes (count : ℕ) (hpos : 0 < count) (hbuffer : count ≤ bufferSize)
      (hunread : count ≤ file.unread.length) : Reads bufferSize file (.bytes count)
  | endOfFile (hend : file.unread = [] ∨ bufferSize = 0) : Reads bufferSize file .endOfFile
  | wouldBlock (hend : file.unread = []) : Reads bufferSize file .wouldBlock
  | interrupted : Reads bufferSize file .interrupted
  | failed : Reads bufferSize file .failed

/-- How an iteration of the loop of `_read_data` ends. -/
inductive ReadNext where
  | again
  | calling
  | returned (result : Bool)
  | thrown
  deriving DecidableEq, Repr

/-- One iteration of the loop of `_read_data`. -/
def readData (exec : Bool) (file : Tail Byte) : ReadResult → Tail Byte × ReadNext
  | .bytes count =>
      if exec then (file.hand count, .calling) else (file.skip count, .again)
  | .endOfFile => (file, .returned false)
  | .wouldBlock => (file, .returned true)
  | .interrupted => (file, .again)
  | .failed => (file, .thrown)

/-- The end of the read loop comes with nothing left to read. -/
theorem Reads.caughtUp {bufferSize : ℕ} {file : Tail Byte} {result : ReadResult}
    {blocked : Bool} (exec : Bool)
    (hreads : Reads bufferSize file result) (hbuffer : 1 ≤ bufferSize)
    (hreturned : (readData exec file result).2 = .returned blocked) :
    file.content.length ≤ file.offset := by
  apply Tail.unread_eq_nil_iff.1
  cases hreads with
  | bytes => cases exec <;> exact nomatch hreturned
  | endOfFile hend => exact hend.resolve_right (Nat.ne_of_gt hbuffer)
  | wouldBlock hend => exact hend
  | interrupted | failed => exact nomatch hreturned

/-- What an event that wakes the worker is about. -/
inductive Source where
  | target
  | exit
  deriving DecidableEq, Repr

/-- The two calls of `_read_data`.  The worker calls it with the rest of its
events, and whether one of those before asked it to exit. -/
inductive Site where
  | constructor
  | event (rest : List Source) (exitRequested : Bool)
  deriving DecidableEq, Repr

/-- Whether the callback is called from there. -/
def Site.exec (sow : Bool) : Site → Bool
  | .constructor => sow
  | .event _ _ => true

/-- The locations of a trigger's program that its read loop leads to. -/
structure LoopSites (Location : Type) where
  reading : Site → Location
  calling : Site → Location
  openPipe : Location
  handling : List Source → Bool → Location
  failed : Location
  exited : Location

section LoopSites

variable {Location : Type} (sites : LoopSites Location)

/-- Where an exception out of the read loop ends. -/
def LoopSites.afterThrow : Site → Location
  | .constructor => sites.failed
  | .event _ _ => sites.exited

/-- Where the caller of `_read_data` goes on. -/
def LoopSites.afterReadData : Site → Location
  | .constructor => sites.openPipe
  | .event rest exitRequested => sites.handling rest exitRequested

/-- Where an iteration of the read loop leads. -/
def LoopSites.afterRead (site : Site) : ReadNext → Location
  | .again => sites.reading site
  | .calling => sites.calling site
  | .returned _ => sites.afterReadData site
  | .thrown => sites.afterThrow site

end LoopSites

/-- Where the call of `stop` is that found the trigger running. -/
inductive StopState where
  | notCalled
  | writing
  | joining
  | returned
  | thrown
  deriving DecidableEq, Repr

/-- The file as the trigger follows it. -/
structure Follower where
  file : Tail Byte
  /-- The appends whose bytes are visible and whose event is still to come. -/
  unannounced : ℕ
  /-- The offset at which the constructor's read ended. -/
  constructorEnd : Option ℕ

namespace Follower

/-- The file as the constructor gets it. -/
def opened (content : Bytes) (offset unannounced : ℕ) : Follower where
  file := { content := content, offset := offset, chunks := [] }
  unannounced := unannounced
  constructorEnd := none

/-- The point of the file from which the callback gets everything: the offset of
the handle, or else the end that the constructor's read reaches. -/
def startPoint (sow : Bool) (initial : ℕ) (follower : Follower) : ℕ :=
  if sow then initial else follower.constructorEnd.getD follower.file.offset

def append (follower : Follower) (bytes : Bytes) : Follower :=
  { follower with
    file := follower.file.append bytes
    unannounced := follower.unannounced + 1 }

def announce (follower : Follower) : Follower :=
  { follower with unannounced := follower.unannounced - 1 }

/-- An iteration of the read loop, called from `site`. -/
def read (sow : Bool) (site : Site) (result : ReadResult) (follower : Follower) : Follower :=
  let (file, next) := readData (site.exec sow) follower.file result
  { follower with
    file := file
    constructorEnd :=
      match site, next with
      | .constructor, .returned _ => some file.offset
      | _, _ => follower.constructorEnd }

/-- What happens to the file. -/
inductive Event where
  | append (bytes : Bytes)
  | announce
  | read (site : Site) (result : ReadResult)

/-- The constructor reads first, and the worker after it. -/
inductive Step (bufferSize : ℕ) (sow : Bool) : Follower → Event → Follower → Prop
  | append {follower} (bytes : Bytes) :
      Step bufferSize sow follower (.append bytes) (follower.append bytes)
  | announce {follower} : Step bufferSize sow follower .announce follower.announce
  | read {follower site result} (hreads : Reads bufferSize follower.file result)
      (hsite : site = .constructor ↔ follower.constructorEnd = none) :
      Step bufferSize sow follower (.read site result) (follower.read sow site result)

/-- The callback got the file from the start point to the offset, and the offset
does not run past the end of the file. -/
structure Consistent (sow : Bool) (initial : ℕ) (follower : Follower) : Prop where
  faithful : follower.file.Faithful (follower.startPoint sow initial)
  bounded : follower.file.offset ≤ max initial follower.file.content.length

variable {sow : Bool} {initial bufferSize : ℕ} {follower next : Follower} {event : Event}

theorem opened_consistent (content : Bytes) (offset unannounced : ℕ) :
    (opened content offset unannounced).Consistent sow offset where
  faithful := by
    have hstart : (opened content offset unannounced).startPoint sow offset = offset := by
      cases sow <;> rfl
    have hempty : (opened content offset unannounced).file.chunks.flatten = [] := rfl
    rw [hstart]
    exact Tail.Faithful.here hempty
  bounded := Nat.le_max_left ..

theorem Consistent.append (hconsistent : follower.Consistent sow initial) (bytes : Bytes) :
    (follower.append bytes).Consistent sow initial where
  faithful := hconsistent.faithful.append bytes
  bounded := by
    have hgrows : follower.file.content.length ≤ (follower.append bytes).file.content.length := by
      simp [Follower.append, Tail.append]
    calc follower.file.offset
        ≤ max initial follower.file.content.length := hconsistent.bounded
      _ ≤ max initial (follower.append bytes).file.content.length := by omega

/-- Once the constructor has read, the worker hands on what it reads. -/
theorem Consistent.eventRead (hconsistent : follower.Consistent sow initial)
    {result : ReadResult} {rest : List Source} {exitRequested : Bool}
    (hreads : Reads bufferSize follower.file result)
    (hend : follower.constructorEnd ≠ none) :
    (follower.read sow (.event rest exitRequested) result).Consistent sow initial := by
  obtain ⟨reached, hreached⟩ := Option.ne_none_iff_exists'.1 hend
  cases hreads with
  | bytes count hpos hbuffer hunread =>
      have hstart : (follower.read sow (.event rest exitRequested) (.bytes count)).startPoint
          sow initial = follower.startPoint sow initial := by
        simp [startPoint, Follower.read, hreached]
      constructor
      · rw [hstart]
        exact hconsistent.faithful.hand hpos hunread
      · exact (Tail.offset_add_le hpos hunread).trans (Nat.le_max_right ..)
  | endOfFile | wouldBlock | interrupted | failed => exact hconsistent

/-- What the constructor reads is handed on, or moves the start point. -/
theorem Consistent.constructorRead (hconsistent : follower.Consistent sow initial)
    {result : ReadResult} (hreads : Reads bufferSize follower.file result)
    (hend : follower.constructorEnd = none) :
    (follower.read sow .constructor result).Consistent sow initial := by
  have hended : ∀ other : Follower, other.file = follower.file →
      other.constructorEnd.getD follower.file.offset = follower.file.offset →
      other.Consistent sow initial := by
    intro other hfile hother
    have hstart : other.startPoint sow initial = follower.startPoint sow initial := by
      simp [startPoint, hfile, hother, hend]
    exact ⟨by rw [hstart, hfile]; exact hconsistent.faithful,
      by rw [hfile]; exact hconsistent.bounded⟩
  cases hreads with
  | bytes count hpos hbuffer hunread =>
      have hbounded := (Tail.offset_add_le hpos hunread).trans (Nat.le_max_right initial _)
      cases sow with
      | true => exact ⟨hconsistent.faithful.hand hpos hunread, hbounded⟩
      | false =>
          have hstart : follower.startPoint false initial = follower.file.offset := by
            simp [startPoint, hend]
          have hskipped := (hstart ▸ hconsistent.faithful).skip count
          exact ⟨by simpa [startPoint, Follower.read, Site.exec, readData, hend] using hskipped,
            hbounded⟩
  | endOfFile | wouldBlock => exact hended _ rfl rfl
  | interrupted | failed => exact hconsistent

theorem Step.consistent (hstep : Step bufferSize sow follower event next)
    (hconsistent : follower.Consistent sow initial) : next.Consistent sow initial := by
  cases hstep with
  | append bytes => exact hconsistent.append bytes
  | announce => exact ⟨hconsistent.faithful, hconsistent.bounded⟩
  | @read site result hreads hsite =>
      cases site with
      | constructor => exact hconsistent.constructorRead hreads (hsite.1 rfl)
      | event rest exitRequested =>
          apply hconsistent.eventRead hreads
          intro hnone
          exact nomatch hsite.2 hnone

/-- The callback gets the file from the start point to the offset, in every run. -/
theorem run_consistent {events : List Event} {content : Bytes} {offset unannounced : ℕ}
    (run : Run (Step bufferSize sow) (opened content offset unannounced) events follower) :
    follower.Consistent sow offset :=
  run.invariant (Consistent sow offset) (opened_consistent content offset unannounced)
    fun _ _ _ hbefore hstep => hstep.consistent hbefore

end Follower

end Nstl.FileTrigger
