import Nstl.Core.Wakeup
import Nstl.FileTrigger.Follower

/-!
# What the file triggers have in common

Seen from the file, a trigger on either system is a reader with an alarm that the
kernel raises.  The alarm is armed by one system call, the read loop runs in the
constructor and for each alarm, and between two waits the trigger may or may not
be about to run the loop.  This is an abstract machine that the triggers refine: it
says when a trigger gets everything, whatever the order of its system calls is.
-/

namespace Nstl.FileTrigger

open Nstl.ByteString
open Nstl.Tailing
open Nstl.Transition
open Nstl.Wakeup (Channel)

/-- Whether the constructor's read has still to end, or `none` once the trigger has
thrown and reads no more. -/
abbrev Stage := Option Bool

def Site.stage : Site → Stage
  | .constructor => some true
  | .event _ _ => some false

/-- The stage after an iteration of the read loop. -/
def ReadNext.stage (site : Site) : ReadNext → Stage
  | .again | .calling => site.stage
  | .returned _ => some false
  | .thrown => none

/-- A reading of the locations of a trigger that agrees with its read loop: a
location has a stage, and `looksAgain` says whether the file will be read to its end
before the next wait. -/
structure LoopSites.Agrees {Location : Type} (sites : LoopSites Location)
    (stage : Location → Stage) (looksAgain : Location → Bool) : Prop where
  reading : ∀ site,
    stage (sites.reading site) = site.stage ∧ looksAgain (sites.reading site) = true
  calling : ∀ site,
    stage (sites.calling site) = site.stage ∧ looksAgain (sites.calling site) = true
  openPipe : stage sites.openPipe = some false
  handling : ∀ rest exitRequested, stage (sites.handling rest exitRequested) = some false
  failed : stage sites.failed = none ∧ looksAgain sites.failed = true
  exited : stage sites.exited = none ∧ looksAgain sites.exited = true

section Agrees

variable {Location : Type} {sites : LoopSites Location} {stage : Location → Stage}
  {looksAgain : Location → Bool}

theorem LoopSites.Agrees.stage_afterRead (hagrees : sites.Agrees stage looksAgain)
    (site : Site) (next : ReadNext) : stage (sites.afterRead site next) = next.stage site := by
  cases next with
  | again => exact (hagrees.reading site).1
  | calling => exact (hagrees.calling site).1
  | returned blocked =>
      cases site with
      | constructor => exact hagrees.openPipe
      | event rest exitRequested => exact hagrees.handling rest exitRequested
  | thrown =>
      cases site with
      | constructor => exact hagrees.failed.1
      | event rest exitRequested => exact hagrees.exited.1

theorem LoopSites.Agrees.looksAgain_afterRead (hagrees : sites.Agrees stage looksAgain)
    {site : Site} {next : ReadNext} (hnext : ∀ blocked, next ≠ .returned blocked) :
    looksAgain (sites.afterRead site next) = true := by
  cases next with
  | returned blocked => exact absurd rfl (hnext blocked)
  | again => exact (hagrees.reading site).2
  | calling => exact (hagrees.calling site).2
  | thrown =>
      cases site with
      | constructor => exact hagrees.failed.2
      | event rest exitRequested => exact hagrees.exited.2

end Agrees

structure Watcher where
  follower : Follower
  stage : Stage
  armed : Bool
  /-- Whether the alarm was raised and not yet taken. -/
  pending : Bool
  /-- Whether the file will be read to its end before the next wait. -/
  busy : Bool

namespace Watcher

/-- The trigger as the consumer of the appends. -/
def channel (watcher : Watcher) : Channel where
  published := watcher.follower.file.content.length
  consumed := watcher.follower.file.offset
  unannounced := watcher.follower.unannounced
  armed := watcher.armed
  pending := watcher.pending
  busy := watcher.busy

inductive Event where
  | append (bytes : Bytes)
  | announce
  | arm
  | read (site : Site) (result : ReadResult)
  | move
  | wake
  deriving DecidableEq

inductive Step (bufferSize : ℕ) (sow : Bool) : Watcher → Event → Watcher → Prop
  | append {watcher} (bytes : Bytes) :
      Step bufferSize sow watcher (.append bytes)
        { watcher with follower := watcher.follower.append bytes }
  | announce {watcher} (hunannounced : 0 < watcher.follower.unannounced) :
      Step bufferSize sow watcher .announce
        { watcher with
          follower := watcher.follower.announce
          pending := watcher.pending || watcher.armed }
  | arm {watcher} : Step bufferSize sow watcher .arm { watcher with armed := true }
  | read {watcher site result busy} (hstage : watcher.stage = site.stage)
      (hbusy : watcher.busy = true)
      (hreads : Reads bufferSize watcher.follower.file result)
      (hagain : (∀ blocked, (readData (site.exec sow) watcher.follower.file result).2 ≠
        .returned blocked) → busy = true) :
      Step bufferSize sow watcher (.read site result)
        { watcher with
          follower := watcher.follower.read sow site result
          stage := (readData (site.exec sow) watcher.follower.file result).2.stage site
          busy := busy }
  | move {watcher stage busy} (hstage : stage = none ∨ stage = watcher.stage)
      (hbusy : busy = true ∨ busy = watcher.busy) :
      Step bufferSize sow watcher .move { watcher with stage := stage, busy := busy }
  | wake {watcher pending} (hpending : pending = true → watcher.pending = true) :
      Step bufferSize sow watcher .wake { watcher with pending := pending, busy := true }

/-- A step that only moves on in the program of the trigger. -/
theorem Step.moved {bufferSize : ℕ} {sow : Bool} {watcher next : Watcher}
    (hfollower : next.follower = watcher.follower) (harmed : next.armed = watcher.armed)
    (hpending : next.pending = watcher.pending)
    (hstage : next.stage = none ∨ next.stage = watcher.stage)
    (hbusy : next.busy = true ∨ next.busy = watcher.busy) :
    Step bufferSize sow watcher .move next := by
  obtain ⟨follower, stage, armed, pending, busy⟩ := next
  subst hfollower harmed hpending
  exact .move hstage hbusy

/-- The alarm is armed only while nothing is left alone. -/
def SafeStep (bufferSize : ℕ) (sow : Bool) (watcher : Watcher) (event : Event)
    (next : Watcher) : Prop :=
  Step bufferSize sow watcher event next ∧ (event = .arm → watcher.channel.Attended)

/-- The end of the constructor's read is recorded when that read is over. -/
def Placed (watcher : Watcher) : Prop :=
  ∀ before, watcher.stage = some before →
    (watcher.follower.constructorEnd = none ↔ before = true)

variable {bufferSize : ℕ} {sow : Bool} {watcher next start : Watcher} {event : Event}
  {events : List Event}

theorem Placed.at_site (hplaced : watcher.Placed) {site : Site}
    (hstage : watcher.stage = site.stage) :
    site = .constructor ↔ watcher.follower.constructorEnd = none := by
  cases site with
  | constructor => exact ⟨fun _ => (hplaced true hstage).2 rfl, fun _ => rfl⟩
  | event rest exitRequested =>
      exact ⟨nofun, fun hnone => nomatch (hplaced false hstage).1 hnone⟩

theorem Placed.read (hplaced : watcher.Placed) {site : Site} {busy : Bool}
    (hstage : watcher.stage = site.stage) (result : ReadResult) :
    Placed
      { watcher with
        follower := watcher.follower.read sow site result
        stage := (readData (site.exec sow) watcher.follower.file result).2.stage site
        busy := busy } := by
  intro before hbefore
  have hsame : site.stage = some before →
      (watcher.follower.constructorEnd = none ↔ before = true) :=
    fun hsite => hplaced before (hstage.trans hsite)
  cases site with
  | constructor =>
      cases result with
      | bytes count => cases sow <;> exact hsame hbefore
      | endOfFile | wouldBlock =>
          cases hbefore
          exact ⟨nofun, nofun⟩
      | interrupted => exact hsame hbefore
      | failed => exact nomatch hbefore
  | event rest exitRequested =>
      cases result with
      | failed => exact nomatch hbefore
      | bytes | endOfFile | wouldBlock | interrupted => exact hsame hbefore

/-- A step reads or grows the file, or does not touch it. -/
theorem Step.follows (hstep : Step bufferSize sow watcher event next)
    (hplaced : watcher.Placed) :
    next.Placed ∧
      (next.follower = watcher.follower ∨
        ∃ change, Follower.Step bufferSize sow watcher.follower change next.follower) := by
  cases hstep with
  | append bytes => exact ⟨hplaced, .inr ⟨_, .append bytes⟩⟩
  | announce => exact ⟨hplaced, .inr ⟨_, .announce⟩⟩
  | arm | wake => exact ⟨hplaced, .inl rfl⟩
  | read hstage hbusy hreads =>
      exact ⟨hplaced.read hstage _, .inr ⟨_, .read hreads (hplaced.at_site hstage)⟩⟩
  | move hstage hbusy =>
      refine ⟨?_, .inl rfl⟩
      intro before hbefore
      cases hstage with
      | inl hnone => exact nomatch hnone.symm.trans hbefore
      | inr hsame => exact hplaced before (hsame.symm.trans hbefore)

/-- A step is a step of the protocol of announcements, or not visible in it. -/
theorem SafeStep.attends (hbuffer : 1 ≤ bufferSize)
    (hsafe : SafeStep bufferSize sow watcher event next) :
    next.channel = watcher.channel ∨
      ∃ change, Wakeup.Step watcher.channel change next.channel := by
  obtain ⟨hstep, hattended⟩ := hsafe
  cases hstep with
  | append bytes =>
      have hlength : (watcher.follower.append bytes).file.content.length =
          watcher.follower.file.content.length + bytes.length := List.length_append
      refine .inr ⟨.publish bytes.length, ?_⟩
      simp only [channel, hlength]
      exact .publish bytes.length
  | announce hunannounced => exact .inr ⟨.announce, .announce hunannounced⟩
  | arm => exact .inr ⟨.arm, .arm (hattended rfl)⟩
  | @read site result busy hstage hbusy hreads hagain =>
      right
      cases result with
      | bytes count =>
          refine ⟨.consume count, ?_⟩
          cases hexec : site.exec sow <;>
          · rw [hagain (by simp [readData, hexec])]
            simp only [channel, hbusy, Follower.read, readData, hexec]
            exact .consume count
      | endOfFile | wouldBlock =>
          exact Wakeup.Step.settle (hreads.caughtUp (site.exec sow) hbuffer rfl) busy
      | interrupted | failed =>
          rw [hagain (by simp [readData])]
          exact Wakeup.Step.look
  | move hstage hbusy =>
      cases hbusy with
      | inl htrue => exact .inr (htrue ▸ Wakeup.Step.look)
      | inr hsame => exact .inl (by rw [hsame]; rfl)
  | wake hpending => exact .inr ⟨_, .wake hpending⟩

/-- The callback gets the file from the start point to the offset, in every run. -/
theorem run_consistent {content : Bytes} {offset unannounced : ℕ}
    (run : Run (Step bufferSize sow) start events watcher) (hstage : start.stage = some true)
    (hopened : start.follower = .opened content offset unannounced) :
    watcher.follower.Consistent sow offset := by
  have hplaced : start.Placed := by
    intro before hbefore
    cases hstage.symm.trans hbefore
    rw [hopened]
    exact ⟨fun _ => rfl, fun _ => rfl⟩
  obtain ⟨_, changes, hrun⟩ := run.viewed Watcher.follower Placed hplaced
    fun _ _ _ hbefore hstep => hstep.follows hbefore
  exact Follower.run_consistent (hopened ▸ hrun)

/-- A watcher whose alarm was armed in time has read everything when it waits with
no alarm and no append on the way. -/
theorem run_caughtUp (hbuffer : 1 ≤ bufferSize)
    (run : Run (SafeStep bufferSize sow) start events watcher)
    (hstart : start.armed = false) (harmed : watcher.armed = true)
    (hpending : watcher.pending = false) (hbusy : watcher.busy = false)
    (hannounced : watcher.follower.unannounced = 0) :
    watcher.follower.file.content.length ≤ watcher.follower.file.offset := by
  obtain ⟨_, changes, hrun⟩ := run.viewed channel (fun _ => True) trivial
    fun _ _ _ _ hsafe => ⟨trivial, hsafe.attends hbuffer⟩
  have hcovered : start.channel.Covered := fun htrue =>
    nomatch hstart.symm.trans htrue
  exact Wakeup.caughtUp_of_quiet hrun hcovered harmed hpending hbusy hannounced

end Watcher

end Nstl.FileTrigger
