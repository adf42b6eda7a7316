import Mathlib.Algebra.Group.Nat.Defs
import Mathlib.Data.List.Basic

/-!
# Lengths in a narrower type

A length that is passed through a type of fewer bits loses its upper ones, and of a
chunk of that length only a front part is taken.  A sequence of chunks is taken
completely only if all of the lengths fit.
-/

namespace Nstl.Narrowing

variable {Item : Type*}

/-- The part of a chunk whose length arrives in a type of `width` bits. -/
def narrow (width : ℕ) (chunk : List Item) : List Item :=
  chunk.take (chunk.length % 2 ^ width)

variable {width : ℕ} {chunk : List Item}

theorem narrow_of_lt (hlength : chunk.length < 2 ^ width) : narrow width chunk = chunk := by
  rw [narrow, Nat.mod_eq_of_lt hlength, List.take_length]

theorem length_narrow_le (width : ℕ) (chunk : List Item) :
    (narrow width chunk).length ≤ chunk.length :=
  List.length_take_le' _ _

theorem length_narrow_lt (hlength : 2 ^ width ≤ chunk.length) :
    (narrow width chunk).length < chunk.length :=
  calc
    (narrow width chunk).length ≤ chunk.length % 2 ^ width := List.length_take_le _ _
    _ < 2 ^ width := Nat.mod_lt _ (Nat.two_pow_pos width)
    _ ≤ chunk.length := hlength

theorem length_flatMap_narrow_le (width : ℕ) (chunks : List (List Item)) :
    (chunks.flatMap (narrow width)).length ≤ chunks.flatten.length := by
  induction chunks with
  | nil => exact Nat.le_refl _
  | cons chunk chunks ih =>
      rw [List.flatMap_cons, List.flatten_cons, List.length_append, List.length_append]
      exact Nat.add_le_add (length_narrow_le width chunk) ih

/-- Where one length does not fit, the whole becomes shorter. -/
theorem flatMap_narrow_eq_iff (width : ℕ) (chunks : List (List Item)) :
    chunks.flatMap (narrow width) = chunks.flatten ↔
      ∀ chunk ∈ chunks, chunk.length < 2 ^ width := by
  constructor
  · intro heq
    induction chunks with
    | nil => simp
    | cons chunk chunks ih =>
        rw [List.flatMap_cons, List.flatten_cons] at heq
        have hlengths := congrArg List.length heq
        rw [List.length_append, List.length_append] at hlengths
        have hrest := length_flatMap_narrow_le width chunks
        have hchunk : chunk.length < 2 ^ width := by
          by_contra hlong
          have hshort := length_narrow_lt (Nat.le_of_not_lt hlong)
          omega
        rw [narrow_of_lt hchunk] at heq
        have hlater := ih (List.append_cancel_left heq)
        exact List.forall_mem_cons.2 ⟨hchunk, hlater⟩
  · intro hlengths
    rw [List.flatMap_congr fun chunk hchunk => narrow_of_lt (hlengths chunk hchunk)]
    simp

end Nstl.Narrowing
