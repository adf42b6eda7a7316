import Mathlib.Order.Basic
import Nstl.Core.Transition

/-!
# Waiting without missing anything

Producers publish and announce, in two steps, while one consumer takes what was
published and rests when it has seen everything.  An announcement reaches the
consumer only if it had armed its alarm before.  The consumer misses nothing as
long as it looks once more after arming, and after each alarm that it takes.
-/

namespace Nstl.Wakeup

open Nstl.Transition

structure Channel where
  published : ℕ
  consumed : ℕ
  /-- Publications whose announcement is still to come. -/
  unannounced : ℕ
  armed : Bool
  /-- Whether there is an alarm that the consumer has not taken. -/
  pending : Bool
  /-- Whether the consumer will look again before it rests. -/
  busy : Bool

inductive Event where
  | publish (amount : ℕ)
  | announce
  | arm
  | consume (amount : ℕ)
  | wake (left : Bool)
  | rest

/-- Nothing that was published is left alone: the consumer has it, or something
will make the consumer look. -/
def Channel.Attended (channel : Channel) : Prop :=
  channel.published ≤ channel.consumed ∨ 0 < channel.unannounced ∨
    channel.pending = true ∨ channel.busy = true

/-- The protocol.  The one rule for the consumer besides taking what is there is
that it rests with nothing left, and arms with nothing left alone. -/
inductive Step : Channel → Event → Channel → Prop
  | publish {channel} (amount : ℕ) :
      Step channel (.publish amount)
        { channel with
          published := channel.published + amount
          unannounced := channel.unannounced + 1 }
  | announce {channel} (hunannounced : 0 < channel.unannounced) :
      Step channel .announce
        { channel with
          unannounced := channel.unannounced - 1
          pending := channel.pending || channel.armed }
  | arm {channel} (hattended : channel.Attended) :
      Step channel .arm { channel with armed := true }
  | consume {channel} (amount : ℕ) :
      Step channel (.consume amount)
        { channel with consumed := channel.consumed + amount }
  | wake {channel} {left : Bool} (hleft : left = true → channel.pending = true) :
      Step channel (.wake left) { channel with pending := left, busy := true }
  | rest {channel} (hdone : channel.published ≤ channel.consumed) :
      Step channel .rest { channel with busy := false }

variable {channel next start : Channel} {events : List Event}

/-- The consumer may always decide to look again. -/
theorem Step.look : ∃ event, Step channel event { channel with busy := true } :=
  ⟨.wake channel.pending, .wake id⟩

/-- With nothing left to take the consumer may rest or look again. -/
theorem Step.settle (hdone : channel.published ≤ channel.consumed) (busy : Bool) :
    ∃ event, Step channel event { channel with busy := busy } := by
  cases busy with
  | true => exact Step.look
  | false => exact ⟨.rest, .rest hdone⟩

/-- While the alarm is armed, nothing is left alone. -/
def Channel.Covered (channel : Channel) : Prop :=
  channel.armed = true → channel.Attended

theorem Step.covered {event : Event} (hstep : Step channel event next)
    (hcovered : channel.Covered) : next.Covered := by
  intro harmed
  cases hstep with
  | publish amount => exact .inr (.inl (Nat.succ_pos _))
  | announce hunannounced =>
      have hpending : (channel.pending || channel.armed) = true := by
        rw [show channel.armed = true from harmed, Bool.or_true]
      exact .inr (.inr (.inl hpending))
  | arm hattended => exact hattended
  | consume amount =>
      cases hcovered harmed with
      | inl hdone => exact .inl (Nat.le_add_right_of_le hdone)
      | inr hrest => exact .inr hrest
  | wake hleft => exact .inr (.inr (.inr rfl))
  | rest hdone => exact .inl hdone

/-- A consumer that rests, with its alarm armed and silent and everything
announced, has taken all that was published. -/
theorem caughtUp_of_quiet (run : Run Step start events channel)
    (hstart : start.Covered) (harmed : channel.armed = true)
    (hpending : channel.pending = false) (hbusy : channel.busy = false)
    (hannounced : channel.unannounced = 0) : channel.published ≤ channel.consumed := by
  have hcovered : channel.Covered :=
    run.invariant Channel.Covered hstart fun _ _ _ hbefore hstep => hstep.covered hbefore
  have hattended := hcovered harmed
  simpa [Channel.Attended, hpending, hbusy, hannounced] using hattended

end Nstl.Wakeup
