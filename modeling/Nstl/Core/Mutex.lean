import Mathlib.Logic.Basic

/-!
# A mutex

The mutex has a holder or none, and every thread knows from its own place in its program
whether it is the holder.  Where the two agree, no two threads are inside at once.
-/

namespace Nstl.Mutex

variable {Thread : Type*}

/-- A thread is inside exactly if it is the holder. -/
def Guarded (holder : Option Thread) (inside : Thread → Prop) : Prop :=
  ∀ thread, inside thread ↔ holder = some thread

variable {holder : Option Thread} {inside inside' : Thread → Prop} {thread other : Thread}

theorem Guarded.not_inside (hguarded : Guarded none inside) (thread : Thread) :
    ¬inside thread := by
  rw [hguarded thread]
  exact nofun

theorem Guarded.alone (hguarded : Guarded holder inside) (hthread : inside thread)
    (hne : other ≠ thread) : ¬inside other := by
  intro hother
  have hsame := ((hguarded other).1 hother).symm.trans ((hguarded thread).1 hthread)
  exact hne (Option.some.inj hsame)

theorem Guarded.acquire (hguarded : Guarded none inside) (hthread : inside' thread)
    (hothers : ∀ other, other ≠ thread → (inside' other ↔ inside other)) :
    Guarded (some thread) inside' := by
  intro other
  by_cases hother : other = thread
  · subst hother
    exact iff_of_true hthread rfl
  · have hinside : ¬inside' other := mt (hothers other hother).1 (hguarded.not_inside other)
    exact iff_of_false hinside fun hsome => hother (Option.some.inj hsome).symm

theorem Guarded.release (hguarded : Guarded (some thread) inside) (hthread : ¬inside' thread)
    (hothers : ∀ other, other ≠ thread → (inside' other ↔ inside other)) :
    Guarded none inside' := by
  intro other
  refine iff_of_false ?_ nofun
  by_cases hother : other = thread
  · exact hother ▸ hthread
  · have houtside := hguarded.alone ((hguarded thread).2 rfl) hother
    exact mt (hothers other hother).1 houtside

end Nstl.Mutex
