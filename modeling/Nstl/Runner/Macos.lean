import Mathlib.Data.Finset.SDiff
import Mathlib.Data.List.Nodup
import Nstl.Runner.Lives

/-!
# The process runner on macOS

`multi_runner` starts its children and asks the kernel, with `kqueue`, for one note about the
end of each.  It waits for the child of every note, and sends SIGTERM to the others when one
of them has failed.  Signals are not passed on here.

A note is delivered once.  `waitpid` has only the child of a note to wait for; should it fail
nevertheless, the child is forgotten.
-/

namespace Nstl.MacosRunner

open Function
open Nstl.Lifecycle
open Nstl.MultiRunner (Status lifeOf lifeOf_ne_unborn active_lifeOf)
open Nstl.Transition

/-! ## The machine -/

structure Child where
  /-- The number that it was started with. -/
  idx : ℕ
  /-- Set when it has ended. -/
  status : Option Status

/-- Where the runner is; inside of the loop over the events with the pids that are left. -/
inductive Place where
  | starting (idx : ℕ)
  | registering
  | testing
  | waiting
  | dispatching (events : List ℕ)
  /-- At `waitpid`. -/
  | reaping (pid : ℕ) (events : List ℕ)
  /-- In the loop over the other children. -/
  | killing (rest events : List ℕ)
  | returned
  | thrown
  deriving DecidableEq, Repr

structure State where
  place : Place
  pids : List ℕ
  raised : Bool
  exitCode : ℕ
  /-- The children by their pid, until they are waited for. -/
  children : ℕ → Option Child
  /-- The pids that `kqueue` watches. -/
  registered : Finset ℕ
  /-- The notes that were not delivered. -/
  notes : Finset ℕ

def start : State where
  place := .starting 0
  pids := []
  raised := false
  exitCode := 0
  children _ := none
  registered := ∅
  notes := ∅

def State.exited (state : State) (pid : ℕ) : Bool :=
  (state.children pid).any fun child => child.status.isSome

/-- Steps that only change the place. -/
inductive Move (threads : ℕ) (state : State) : Place → Place → Prop
  | started : Move threads state (.starting threads) .registering
  | loop (hpids : state.pids ≠ []) : Move threads state .testing .waiting
  | ends (hpids : state.pids = []) : Move threads state .testing .returned
  | interrupted : Move threads state .waiting .testing
  | emptied {events : List ℕ} (hpids : state.pids = []) :
      Move threads state (.dispatching events) .testing
  | dispatched : Move threads state (.dispatching []) .testing
  | unknown {pid : ℕ} {events : List ℕ} (hpids : state.pids ≠ []) (hpid : pid ∉ state.pids) :
      Move threads state (.dispatching (pid :: events)) (.dispatching events)
  | known {pid : ℕ} {events : List ℕ} (hpid : pid ∈ state.pids) :
      Move threads state (.dispatching (pid :: events)) (.reaping pid events)
  | throwsStarting {idx : ℕ} (hidx : idx < threads) : Move threads state (.starting idx) .thrown
  | throwsRegistering : Move threads state .registering .thrown
  | throwsWaiting : Move threads state .waiting .thrown

inductive Action where
  | fork (idx pid : ℕ)
  | goTo (place : Place)
  | register
  | report (events : List ℕ)
  | reap (idx : ℕ) (status : Status)
  /-- `waitpid` does not return the child. -/
  | forget (pid : ℕ)
  | kill (pid : ℕ)
  | killed
  | exit (idx : ℕ) (status : Status)
  deriving DecidableEq

/-- What follows a `waitpid` that returns the child. -/
def State.reaped (state : State) (pid : ℕ) (status : Status) (events : List ℕ) : State :=
  let state :=
    { state with
      children := update state.children pid none
      pids := state.pids.erase pid }
  if status.code ≠ 0 && !state.raised then
    { state with exitCode := status.code, place := .killing state.pids events }
  else { state with place := .dispatching events }

inductive Step (threads : ℕ) : State → Action → State → Prop
  | fork {state : State} {idx pid : ℕ} (hplace : state.place = .starting idx)
      (hidx : idx < threads) (hpid : 0 < pid) (hfree : state.children pid = none) :
      Step threads state (.fork idx pid)
        { state with
          children := update state.children pid (some ⟨idx, none⟩)
          pids := state.pids ++ [pid]
          place := .starting (idx + 1) }
  | move {state : State} {place : Place} (hmove : Move threads state state.place place) :
      Step threads state (.goTo place) { state with place := place }
  -- there is a note at once for a child that has ended already
  | register {state : State} (hplace : state.place = .registering) :
      Step threads state .register
        { state with
          registered := state.pids.toFinset
          notes := state.pids.toFinset.filter fun pid => state.exited pid
          place := .testing }
  | report {state : State} {events : List ℕ} (hplace : state.place = .waiting)
      (hne : events ≠ []) (hsize : events.length ≤ 16) (hnodup : events.Nodup)
      (hnotes : ∀ pid ∈ events, pid ∈ state.notes) :
      Step threads state (.report events)
        { state with
          notes := state.notes \ events.toFinset
          place := .dispatching events }
  | reap {state : State} {pid : ℕ} {events : List ℕ} {child : Child} {status : Status}
      (hplace : state.place = .reaping pid events) (hchild : state.children pid = some child)
      (hstatus : child.status = some status) :
      Step threads state (.reap child.idx status) (state.reaped pid status events)
  | forget {state : State} {pid : ℕ} {events : List ℕ}
      (hplace : state.place = .reaping pid events) :
      Step threads state (.forget pid) { state with place := .dispatching events }
  | kill {state : State} {pid : ℕ} {rest events : List ℕ}
      (hplace : state.place = .killing (pid :: rest) events) :
      Step threads state (.kill pid) { state with place := .killing rest events }
  | killed {state : State} {events : List ℕ} (hplace : state.place = .killing [] events) :
      Step threads state .killed { state with raised := true, place := .dispatching events }
  | exit {state : State} {pid : ℕ} {child : Child} (status : Status)
      (hchild : state.children pid = some child) (hstatus : child.status = none) :
      Step threads state (.exit child.idx status)
        { state with
          children := update state.children pid (some { child with status := some status })
          notes := if pid ∈ state.registered then insert pid state.notes else state.notes }

/-- The two ways on from `waitpid`. -/
inductive Reaped (state : State) (pid : ℕ) (status : Status) (events : List ℕ) : State → Prop
  | failure (hcode : status.code ≠ 0) (hraised : state.raised = false) :
      Reaped state pid status events
        { state with
          children := update state.children pid none
          pids := state.pids.erase pid
          exitCode := status.code
          place := .killing (state.pids.erase pid) events }
  | other (hcode : status.code = 0 ∨ state.raised = true) :
      Reaped state pid status events
        { state with
          children := update state.children pid none
          pids := state.pids.erase pid
          place := .dispatching events }

theorem reaped_spec (state : State) (pid : ℕ) (status : Status) (events : List ℕ) :
    Reaped state pid status events (state.reaped pid status events) := by
  rw [State.reaped]
  dsimp only
  split
  case isTrue hfailure =>
    simp only [Bool.and_eq_true, decide_eq_true_eq, Bool.not_eq_true'] at hfailure
    exact .failure hfailure.1 hfailure.2
  case isFalse hother =>
    refine .other ?_
    by_contra hneither
    rw [not_or, Bool.not_eq_true] at hneither
    simp [hneither.1, hneither.2] at hother

/-! ## The lives of the children -/

/-- What an action means for the lives of the children. -/
def Action.event : Action → Option (Lifecycle.Event ℕ Status)
  | .fork idx _ => some (.start idx)
  | .exit idx status => some (.finish idx status)
  | .reap idx status => some (.collect idx status)
  | .goTo _ | .register | .report _ | .forget _ | .kill _ | .killed => none

def history (actions : List Action) : List (Lifecycle.Event ℕ Status) :=
  actions.filterMap Action.event

/-- The number of children that were started, unless the runner has given up. -/
def Place.forked (threads : ℕ) : Place → Option ℕ
  | .starting idx => some idx
  | .thrown => none
  | .registering | .testing | .waiting | .dispatching _ | .reaping .. | .killing ..
  | .returned => some threads

structure Tracks (threads : ℕ) (state : State) (lives : ℕ → Life Status) : Prop where
  nodup : state.pids.Nodup
  pids : ∀ pid, pid ∈ state.pids ↔ state.children pid ≠ none
  child : ∀ pid child, state.children pid = some child → lives child.idx = lifeOf child.status
  unique : ∀ pid other child child', state.children pid = some child →
    state.children other = some child' → child.idx = child'.idx → pid = other
  active : ∀ idx, (lives idx).active = true →
    ∃ pid child, state.children pid = some child ∧ child.idx = idx
  born : ∀ count, state.place.forked threads = some count →
    ∀ idx, lives idx = .unborn ↔ count ≤ idx
  returned : state.place = .returned → state.pids = []

theorem tracks_start (threads : ℕ) : Tracks threads start (fun _ => .unborn) where
  nodup := List.nodup_nil
  pids _ := iff_of_false List.not_mem_nil (fun hne => hne rfl)
  child _ _ := nofun
  unique _ _ _ _ := nofun
  active _ := nofun
  born count hcount idx := by
    obtain rfl := Option.some.inj hcount
    exact iff_of_true rfl (Nat.zero_le idx)
  returned := nofun

section Tracks

variable {threads : ℕ} {state next : State} {lives : ℕ → Life Status} {pid idx : ℕ} {child : Child}
  {status : Status} {events : List ℕ}

theorem Move.forked {place place' : Place} (hmove : Move threads state place place') {count : ℕ}
    (hcount : place'.forked threads = some count) : place.forked threads = some count := by
  cases hmove with
  | throwsStarting | throwsRegistering | throwsWaiting => exact absurd hcount nofun
  | _ => exact hcount

/-- A step that has nothing to do with the children. -/
theorem Tracks.same (htracks : Tracks threads state lives) (hpids : next.pids = state.pids)
    (hchildren : next.children = state.children)
    (hforked : ∀ count, next.place.forked threads = some count →
      state.place.forked threads = some count)
    (hreturned : next.place = .returned → state.pids = []) : Tracks threads next lives where
  nodup := hpids ▸ htracks.nodup
  pids := by
    rw [hpids, hchildren]
    exact htracks.pids
  child := hchildren ▸ htracks.child
  unique := hchildren ▸ htracks.unique
  active := hchildren ▸ htracks.active
  born count hcount := htracks.born count (hforked count hcount)
  returned hplace := hpids.trans (hreturned hplace)

theorem Tracks.fork (htracks : Tracks threads state lives) (hplace : state.place = .starting idx)
    (hfree : state.children pid = none) :
    lives idx = .unborn ∧
      Tracks threads
        { state with
          children := update state.children pid (some ⟨idx, none⟩)
          pids := state.pids ++ [pid]
          place := .starting (idx + 1) }
        (update lives idx .running) := by
  have hborn := htracks.born idx (by rw [hplace]; rfl)
  have hunborn : lives idx = .unborn := (hborn idx).2 (Nat.le_refl idx)
  have hnew : pid ∉ state.pids := fun hmem => (htracks.pids pid).1 hmem hfree
  have hothers : ∀ other child, state.children other = some child → child.idx ≠ idx := by
    intro other child hchild hsame
    have hlife := htracks.child other child hchild
    rw [hsame, hunborn] at hlife
    exact lifeOf_ne_unborn _ hlife.symm
  refine ⟨hunborn, ?_⟩
  constructor
  case nodup => exact List.nodup_append_comm.1 (List.nodup_cons.2 ⟨hnew, htracks.nodup⟩)
  case pids =>
    intro other
    rw [List.mem_append, List.mem_singleton]
    by_cases hother : other = pid
    · subst hother
      exact iff_of_true (.inr rfl) (by simp)
    · simp only [update_of_ne hother, hother, or_false]
      exact htracks.pids other
  case child =>
    intro other child hchild
    dsimp only at hchild
    by_cases hother : other = pid
    · subst hother
      rw [update_self] at hchild
      obtain rfl := Option.some.inj hchild
      exact update_self ..
    · rw [update_of_ne hother] at hchild
      rw [update_of_ne (hothers other child hchild)]
      exact htracks.child other child hchild
  case unique =>
    intro first second child child' hfirst hsecond hsame
    dsimp only at hfirst hsecond
    by_cases hone : first = pid <;> by_cases htwo : second = pid
    · rw [hone, htwo]
    · rw [hone, update_self] at hfirst
      rw [update_of_ne htwo] at hsecond
      obtain rfl := Option.some.inj hfirst
      exact absurd hsame.symm (hothers second child' hsecond)
    · rw [htwo, update_self] at hsecond
      rw [update_of_ne hone] at hfirst
      obtain rfl := Option.some.inj hsecond
      exact absurd hsame (hothers first child hfirst)
    · rw [update_of_ne hone] at hfirst
      rw [update_of_ne htwo] at hsecond
      exact htracks.unique first second child child' hfirst hsecond hsame
  case active =>
    intro entry hactive
    by_cases hentry : entry = idx
    · exact ⟨pid, _, update_self .., hentry.symm⟩
    · rw [update_of_ne hentry] at hactive
      obtain ⟨other, child, hchild, hidx⟩ := htracks.active entry hactive
      have hother : other ≠ pid := by
        rintro rfl
        exact absurd (hfree.symm.trans hchild) nofun
      exact ⟨other, child, (update_of_ne hother ..).trans hchild, hidx⟩
  case born =>
    intro count hcount entry
    obtain rfl := Option.some.inj hcount
    by_cases hentry : entry = idx
    · subst hentry
      rw [update_self]
      exact iff_of_false nofun (Nat.not_succ_le_self entry)
    · rw [update_of_ne hentry, hborn]
      omega
  case returned => exact nofun

/-- A child ends, or is waited for. -/
theorem Tracks.change (htracks : Tracks threads state lives)
    (hchild : state.children pid = some child) {life : Life Status} {child' : Option Child}
    (hnext : next.children = update state.children pid child')
    (hnodup : next.pids.Nodup)
    (hpids : ∀ other, other ∈ next.pids ↔ other ∈ state.pids ∧ (other = pid → child' ≠ none))
    (hlife : ∀ changed, child' = some changed → changed.idx = child.idx ∧
      life = lifeOf changed.status)
    (hgone : child' = none → life.active = false) (hborn : life ≠ .unborn)
    (hforked : ∀ count, next.place.forked threads = some count →
      state.place.forked threads = some count)
    (hreturned : next.place = .returned → next.pids = []) :
    Tracks threads next (update lives child.idx life) := by
  have hbefore := htracks.child pid child hchild
  have hothers : ∀ other changed, other ≠ pid → state.children other = some changed →
      changed.idx ≠ child.idx := fun other changed hne hother hsame =>
    hne (htracks.unique other pid changed child hother hchild hsame)
  constructor
  case nodup => exact hnodup
  case pids =>
    intro other
    rw [hpids, hnext]
    by_cases hother : other = pid
    · subst hother
      have hmem : other ∈ state.pids := (htracks.pids other).2 (by rw [hchild]; exact nofun)
      simp [hmem]
    · simp only [update_of_ne hother, hother, false_implies, and_true]
      exact htracks.pids other
  case child =>
    intro other changed hchanged
    rw [hnext] at hchanged
    by_cases hother : other = pid
    · subst hother
      rw [update_self] at hchanged
      obtain ⟨hidx, hstatus⟩ := hlife changed hchanged
      rw [hidx, update_self, hstatus]
    · rw [update_of_ne hother] at hchanged
      rw [update_of_ne (hothers other changed hother hchanged)]
      exact htracks.child other changed hchanged
  case unique =>
    intro first second left right hfirst hsecond hsame
    rw [hnext] at hfirst hsecond
    by_cases hone : first = pid <;> by_cases htwo : second = pid
    · rw [hone, htwo]
    · rw [hone, update_self] at hfirst
      rw [update_of_ne htwo] at hsecond
      exact absurd (hsame.symm.trans (hlife left hfirst).1) (hothers second right htwo hsecond)
    · rw [htwo, update_self] at hsecond
      rw [update_of_ne hone] at hfirst
      exact absurd (hsame.trans (hlife right hsecond).1) (hothers first left hone hfirst)
    · rw [update_of_ne hone] at hfirst
      rw [update_of_ne htwo] at hsecond
      exact htracks.unique first second left right hfirst hsecond hsame
  case active =>
    intro entry hactive
    rw [hnext]
    by_cases hentry : entry = child.idx
    · subst hentry
      rw [update_self] at hactive
      cases hkept : child' with
      | none => exact absurd (hactive.symm.trans (hgone hkept)) nofun
      | some changed => exact ⟨pid, changed, update_self .., (hlife changed hkept).1⟩
    · rw [update_of_ne hentry] at hactive
      obtain ⟨other, found, hfound, hidx⟩ := htracks.active entry hactive
      have hother : other ≠ pid := by
        rintro rfl
        obtain rfl := Option.some.inj (hchild.symm.trans hfound)
        exact hentry hidx.symm
      exact ⟨other, found, (update_of_ne hother ..).trans hfound, hidx⟩
  case born =>
    intro count hcount entry
    rw [← htracks.born count (hforked count hcount) entry]
    by_cases hentry : entry = child.idx
    · subst hentry
      rw [update_self, hbefore]
      exact iff_of_false hborn (lifeOf_ne_unborn _)
    · rw [update_of_ne hentry]
  case returned => exact hreturned

/-- What happens with an action to the lives of the children. -/
def Follows (threads : ℕ) (lives : ℕ → Life Status) (action : Action) (next : State) : Prop :=
  (action.event = none ∧ Tracks threads next lives) ∨
    ∃ event after, action.event = some event ∧ Lifecycle.Step lives event after ∧
      Tracks threads next after

theorem Tracks.reap (htracks : Tracks threads state lives)
    (hplace : state.place = .reaping pid events) (hchild : state.children pid = some child)
    (hstatus : child.status = some status) (hreaped : Reaped state pid status events next) :
    Follows threads lives (.reap child.idx status) next := by
  have hended : lives child.idx = .ended status := by
    rw [htracks.child pid child hchild, hstatus]
    rfl
  refine .inr ⟨.collect child.idx status, _, rfl, .collect hended, ?_⟩
  have hpids (other : ℕ) : other ∈ state.pids.erase pid ↔
      other ∈ state.pids ∧ (other = pid → (none : Option Child) ≠ none) := by
    rw [htracks.nodup.mem_erase_iff]
    grind
  cases hreaped with
  | failure | other =>
      exact htracks.change hchild rfl (htracks.nodup.erase pid) hpids nofun (fun _ => rfl) nofun
        (fun count hcount => by rw [hplace]; exact hcount) nofun

theorem Tracks.exit (htracks : Tracks threads state lives)
    (hchild : state.children pid = some child) (hstatus : child.status = none)
    (hchildren : next.children =
      update state.children pid (some { child with status := some status }))
    (hpids : next.pids = state.pids) (hplace : next.place = state.place) :
    Follows threads lives (.exit child.idx status) next := by
  have hrunning : lives child.idx = .running := by
    rw [htracks.child pid child hchild, hstatus]
    rfl
  refine .inr ⟨.finish child.idx status, _, rfl, .finish status hrunning, ?_⟩
  refine htracks.change hchild hchildren (hpids ▸ htracks.nodup) ?_ ?_ nofun nofun ?_ ?_
  · intro other
    rw [hpids]
    exact ⟨fun hmem => ⟨hmem, fun _ => nofun⟩, fun hmem => hmem.1⟩
  · rintro changed hchanged
    obtain rfl := Option.some.inj hchanged
    exact ⟨rfl, rfl⟩
  · exact fun count hcount => hplace ▸ hcount
  · exact fun hreturned => hpids.trans (htracks.returned (hplace ▸ hreturned))

theorem Tracks.step {action : Action} (htracks : Tracks threads state lives)
    (hstep : Step threads state action next) : Follows threads lives action next := by
  cases hstep with
  | @fork idx pid hplace _ _ hfree =>
      obtain ⟨hunborn, hnext⟩ := htracks.fork hplace hfree
      exact .inr ⟨.start idx, _, rfl, .start hunborn, hnext⟩
  | @move place hmove =>
      refine .inl ⟨rfl, htracks.same rfl rfl (fun _ hcount => hmove.forked hcount)
        fun hreturned => ?_⟩
      obtain rfl : place = .returned := hreturned
      cases hkind : state.place with
      | testing =>
          rw [hkind] at hmove
          cases hmove with
          | ends hpids => exact hpids
      | _ =>
          rw [hkind] at hmove
          cases hmove
  | register hplace | report hplace | forget hplace | kill hplace | killed hplace =>
      exact .inl ⟨rfl, htracks.same rfl rfl (fun _ hcount => by rw [hplace]; exact hcount) nofun⟩
  | reap hplace hchild hstatus => exact htracks.reap hplace hchild hstatus (reaped_spec ..)
  | exit status hchild hstatus => exact htracks.exit hchild hstatus rfl rfl rfl

/-- Every run of the runner is, for its children, a sequence of starts, ends and collections. -/
theorem tracks_of_run {actions : List Action} (hrun : Run (Step threads) start actions state) :
    ∃ lives, Run Lifecycle.Step (fun _ => .unborn) (history actions) lives ∧
      Tracks threads state lives :=
  hrun.simulated_events Action.event (tracks_start threads)
    fun _ _ _ _ htracks hstep => htracks.step hstep

end Tracks

end Nstl.MacosRunner
