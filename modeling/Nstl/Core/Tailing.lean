import Mathlib.Data.List.Basic

/-!
# Following a list that grows

A reader follows a list that only ever grows at its end.  It keeps an offset, and
each time it reads it takes some of what lies behind the offset, and hands it on
or leaves it out.  `Faithful start` says that what was handed on is the list from
`start` up to the offset: nothing missing, nothing twice, all in order.
-/

namespace Nstl.Tailing

variable {α : Type*}

structure Tail (α : Type*) where
  content : List α
  offset : ℕ
  /-- What was handed on, one list for each time. -/
  chunks : List (List α)
  deriving DecidableEq

namespace Tail

/-- What the reader has not taken yet. -/
def unread (tail : Tail α) : List α := tail.content.drop tail.offset

def append (tail : Tail α) (more : List α) : Tail α :=
  { tail with content := tail.content ++ more }

/-- The reader takes `count` elements and hands them on. -/
def hand (tail : Tail α) (count : ℕ) : Tail α :=
  { tail with
    offset := tail.offset + count
    chunks := tail.chunks ++ [tail.unread.take count] }

/-- The reader takes `count` elements and leaves them out. -/
def skip (tail : Tail α) (count : ℕ) : Tail α :=
  { tail with offset := tail.offset + count }

/-- The reader takes `count` elements and hands on those behind the boundary. -/
def advance (tail : Tail α) (boundary count : ℕ) : Tail α :=
  if tail.offset + count ≤ boundary then tail.skip count
  else (tail.skip (boundary - tail.offset)).hand (count - (boundary - tail.offset))

/-- What was handed on is the content between `start` and the offset. -/
structure Faithful (start : ℕ) (tail : Tail α) : Prop where
  start_le : start ≤ tail.offset
  /-- The offset is inside, or nothing was taken from outside. -/
  within : tail.offset ≤ tail.content.length ∨ start = tail.offset
  handed : tail.chunks.flatten = (tail.content.drop start).take (tail.offset - start)

variable {tail : Tail α} {start count : ℕ}

@[simp]
theorem offset_skip : (tail.skip count).offset = tail.offset + count := rfl

@[simp]
theorem content_advance (boundary : ℕ) :
    (tail.advance boundary count).content = tail.content := by
  rw [advance]
  split <;> rfl

@[simp]
theorem offset_advance (boundary : ℕ) :
    (tail.advance boundary count).offset = tail.offset + count := by
  rw [advance]
  split
  · rfl
  · simp only [hand, skip]
    omega

theorem unread_eq_nil_iff : tail.unread = [] ↔ tail.content.length ≤ tail.offset :=
  List.drop_eq_nil_iff

theorem offset_add_le (hpos : 0 < count) (hcount : count ≤ tail.unread.length) :
    tail.offset + count ≤ tail.content.length := by
  rw [unread, List.length_drop] at hcount
  omega

/-- A tail that handed nothing on is faithful from where it stands. -/
theorem Faithful.here (hchunks : tail.chunks.flatten = []) :
    Faithful tail.offset tail where
  start_le := Nat.le_refl _
  within := .inr rfl
  handed := by rw [hchunks, Nat.sub_self, List.take_zero]

theorem Faithful.append (hfaithful : Faithful start tail) (more : List α) :
    Faithful start (tail.append more) where
  start_le := hfaithful.start_le
  within := by
    cases hfaithful.within with
    | inl hle =>
        left
        calc tail.offset ≤ tail.content.length := hle
          _ ≤ (tail.content ++ more).length := by rw [List.length_append]; omega
    | inr heq => exact .inr heq
  handed := by
    rw [Tail.append, hfaithful.handed]
    cases hfaithful.within with
    | inl hle =>
        have hstart : start ≤ tail.content.length := Nat.le_trans hfaithful.start_le hle
        have hlength : tail.offset - start ≤ (tail.content.drop start).length := by
          rw [List.length_drop]
          omega
        rw [List.drop_append_of_le_length hstart, List.take_append_of_le_length hlength]
    | inr heq => rw [heq, Nat.sub_self, List.take_zero, List.take_zero]

theorem Faithful.hand (hfaithful : Faithful start tail) (hpos : 0 < count)
    (hcount : count ≤ tail.unread.length) : Faithful start (tail.hand count) where
  start_le := Nat.le_add_right_of_le hfaithful.start_le
  within := .inl (offset_add_le hpos hcount)
  handed := by
    have hstart := hfaithful.start_le
    calc (tail.hand count).chunks.flatten
        = tail.chunks.flatten ++ tail.unread.take count := by simp [Tail.hand]
      _ = (tail.content.drop start).take (tail.offset - start) ++
            ((tail.content.drop start).drop (tail.offset - start)).take count := by
          rw [hfaithful.handed, unread, List.drop_drop, Nat.add_sub_cancel' hstart]
      _ = (tail.content.drop start).take (tail.offset - start + count) := List.take_add.symm
      _ = (tail.content.drop start).take (tail.offset + count - start) := by
          rw [Nat.sub_add_comm hstart]

/-- Elements left out move the point from which the tail is faithful. -/
theorem Faithful.skip (hfaithful : Faithful tail.offset tail) (count : ℕ) :
    Faithful (tail.offset + count) (tail.skip count) := by
  have hchunks : tail.chunks.flatten = [] := by
    rw [hfaithful.handed, Nat.sub_self, List.take_zero]
  have hskipped : Faithful (tail.skip count).offset (tail.skip count) :=
    Faithful.here hchunks
  exact hskipped

/-- A reader that leaves out what lies in front of a boundary is faithful from the
boundary on, and from its offset until it gets there. -/
theorem Faithful.advance {boundary : ℕ} (hfaithful : Faithful (min tail.offset boundary) tail)
    (hpos : 0 < count) (hcount : count ≤ tail.unread.length) :
    Faithful (min (tail.advance boundary count).offset boundary)
      (tail.advance boundary count) := by
  have hend := offset_add_le hpos hcount
  rw [offset_advance]
  rw [Tail.advance]
  split
  next hbefore =>
      rw [Nat.min_eq_left (by omega)] at hfaithful
      rw [Nat.min_eq_left hbefore]
      exact hfaithful.skip count
  next hbeyond =>
      have hunread : count - (boundary - tail.offset) ≤
          (tail.skip (boundary - tail.offset)).unread.length := by
        simp only [unread, Tail.skip, List.length_drop]
        omega
      have hskipped : Faithful boundary (tail.skip (boundary - tail.offset)) := by
        by_cases hreached : boundary ≤ tail.offset
        · rw [Nat.min_eq_right hreached] at hfaithful
          rwa [Nat.sub_eq_zero_of_le hreached]
        · rw [Nat.min_eq_left (by omega)] at hfaithful
          have hmoved := hfaithful.skip (boundary - tail.offset)
          rwa [Nat.add_sub_cancel' (by omega)] at hmoved
      rw [Nat.min_eq_right (by omega)]
      exact hskipped.hand (by omega) hunread

theorem Faithful.handed_from {boundary : ℕ}
    (hfaithful : Faithful (min tail.offset boundary) tail) :
    tail.chunks.flatten = (tail.content.drop boundary).take (tail.offset - boundary) := by
  rw [hfaithful.handed]
  by_cases hreached : boundary ≤ tail.offset
  · rw [Nat.min_eq_right hreached]
  · rw [Nat.min_eq_left (by omega), Nat.sub_self, Nat.sub_eq_zero_of_le (by omega), List.take_zero,
      List.take_zero]

/-- What was handed on is all the content from the start exactly if nothing is left
to take. -/
theorem Faithful.complete_iff (hfaithful : Faithful start tail) :
    tail.chunks.flatten = tail.content.drop start ↔ tail.content.length ≤ tail.offset := by
  have hstart := hfaithful.start_le
  rw [hfaithful.handed]
  constructor
  · intro heq
    have hlength := congrArg List.length heq
    rw [List.length_take, List.length_drop] at hlength
    omega
  · intro hend
    apply List.take_of_length_le
    rw [List.length_drop]
    omega

end Tail

end Nstl.Tailing
