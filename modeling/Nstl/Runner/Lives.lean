import Nstl.Core.Lifecycle
import Nstl.Runner.Machine

/-!
# The lives of the children

What the runner writes into `processes` follows the lives of its children: an entry has a
pid from the `fork` until the child was waited for.  So every run of the runner is, for
its children, a sequence of starts, ends and collections.
-/

namespace Nstl.MultiRunner

open Function
open Nstl.Lifecycle
open Nstl.Transition

/-- What an action means for the lives of the children that were started. -/
def Action.event : Action → Option (Lifecycle.Event ℕ Status)
  | .fork idx _ => some (.start idx)
  | .exit (some idx) status => some (.finish idx status)
  | .reap (some idx) status => some (.collect idx status)
  | .exit none _ | .reap none _ | .setUp | .goTo _ | .read _ | .kill .. | .killed | .arrive _
  | .child _ | .adopt _ => none

def history (actions : List Action) : List (Lifecycle.Event ℕ Status) :=
  actions.filterMap Action.event

/-- How far a child is that was not waited for. -/
def lifeOf : Option Status → Life Status
  | none => .running
  | some status => .ended status

/-- The entry and the end of a child that was started. -/
def Child.started (child : Child) : Option (ℕ × Option Status) :=
  child.owner.map fun idx => (idx, child.status)

/-- The children that were started, by their pid. -/
def own (children : ℕ → Option Child) (pid : ℕ) : Option (ℕ × Option Status) :=
  (children pid).bind Child.started

theorem own_update (children : ℕ → Option Child) (pid : ℕ) (child : Option Child) :
    own (update children pid child) = update (own children) pid (child.bind Child.started) := by
  funext other
  by_cases hother : other = pid
  · subst hother
    simp [own]
  · simp [own, update_of_ne hother]

theorem own_update_self {children : ℕ → Option Child} {pid : ℕ} {child : Option Child}
    (hchild : child.bind Child.started = (children pid).bind Child.started) :
    own (update children pid child) = own children := by
  rw [own_update, hchild]
  exact update_eq_self pid (own children)

/-- The runner is at work: its mask is set, and nothing has ended it. -/
def Place.live : Place → Bool
  | .masking | .thrown | .terminated => false
  | .starting _ | .registering | .testing | .waiting | .dispatching _ | .reading _
  | .killing .. | .reaping _ | .piping .. | .flushing _ | .returned => true

/-- It has started all of its children. -/
def Place.settled : Place → Bool
  | .masking | .starting _ | .thrown | .terminated => false
  | .registering | .testing | .waiting | .dispatching _ | .reading _ | .killing .. | .reaping _
  | .piping .. | .flushing _ | .returned => true

/-- The number of children that were started. -/
def Place.forked (length : ℕ) : Place → ℕ
  | .starting idx => idx
  | _ => length

theorem forked_of_settled {place : Place} (hplace : place.settled = true) (length : ℕ) :
    place.forked length = length := by
  cases place with
  | starting => exact absurd hplace nofun
  | _ => rfl

theorem live_of_settled {place : Place} (hplace : place.settled = true) : place.live = true := by
  cases place with
  | masking | starting | thrown | terminated => exact absurd hplace nofun
  | _ => rfl

/-! ## The entries and the lives -/

theorem lifeOf_ne_unborn (status : Option Status) : lifeOf status ≠ .unborn := by
  cases status <;> exact nofun

theorem active_lifeOf (status : Option Status) : (lifeOf status).active = true := by
  cases status <;> rfl

/-- The entries of `processes` agree with the children that were started, and with their
lives. -/
structure Ledger (started : ℕ → Option (ℕ × Option Status)) (pids : List ℕ)
    (lives : ℕ → Life Status) : Prop where
  child : ∀ pid idx status, started pid = some (idx, status) →
    pids[idx]? = some pid ∧ lives idx = lifeOf status
  owned : ∀ idx pid, pids[idx]? = some pid → 0 < pid →
    ∃ status, started pid = some (idx, status)
  entry : ∀ idx pid, pids[idx]? = some pid → (0 < pid ↔ (lives idx).active = true)

/-- A child in an entry, or none. -/
inductive Holds (pid idx : ℕ) : Option (ℕ × Option Status) → ℕ → Life Status → Prop
  | child (status : Option Status) (hpid : 0 < pid) :
      Holds pid idx (some (idx, status)) pid (lifeOf status)
  | none {life : Life Status} (hlife : life.active = false) : Holds pid idx none 0 life

section Ledger

variable {started : ℕ → Option (ℕ × Option Status)} {pids : List ℕ} {lives : ℕ → Life Status}
  {pid idx : ℕ} {status : Option Status}

/-- One entry changes together with its child. -/
theorem Ledger.change (hledger : Ledger started pids lives) (hlt : idx < pids.length)
    (hidx : ∀ other status, started other = some (idx, status) → other = pid)
    (hpid : ∀ entry status, started pid = some (entry, status) → entry = idx)
    {child : Option (ℕ × Option Status)} {pid' : ℕ} {life : Life Status}
    (hholds : Holds pid idx child pid' life) :
    Ledger (update started pid child) (pids.set idx pid') (update lives idx life) where
  child := by
    intro other entry status hother
    by_cases hsame : other = pid
    · subst hsame
      rw [update_self] at hother
      cases hholds with
      | child =>
          obtain ⟨rfl, rfl⟩ := Prod.mk.inj (Option.some.inj hother)
          exact ⟨List.getElem?_set_self hlt, update_self _ _ _⟩
      | none => exact absurd hother nofun
    · rw [update_of_ne hsame] at hother
      have hne : entry ≠ idx := fun heq => hsame (hidx other status (heq ▸ hother))
      rw [List.getElem?_set_ne hne.symm, update_of_ne hne]
      exact hledger.child other entry status hother
  owned := by
    intro entry other hentry hother
    by_cases hsame : entry = idx
    · subst hsame
      rw [List.getElem?_set_self hlt] at hentry
      obtain rfl := Option.some.inj hentry
      cases hholds with
      | child status => exact ⟨status, update_self _ _ _⟩
      | none => exact absurd hother (Nat.lt_irrefl 0)
    · rw [List.getElem?_set_ne (Ne.symm hsame)] at hentry
      obtain ⟨status, hstatus⟩ := hledger.owned entry other hentry hother
      have hne : other ≠ pid := fun heq => hsame (hpid entry status (heq ▸ hstatus))
      exact ⟨status, (update_of_ne hne _ _).trans hstatus⟩
  entry := by
    intro entry other hentry
    by_cases hsame : entry = idx
    · subst hsame
      rw [List.getElem?_set_self hlt] at hentry
      rw [← Option.some.inj hentry, update_self]
      cases hholds with
      | child status hpid => exact iff_of_true hpid (active_lifeOf status)
      | none hlife => exact iff_of_false (Nat.lt_irrefl 0) (by rw [hlife]; exact nofun)
    · rw [List.getElem?_set_ne (Ne.symm hsame)] at hentry
      rw [update_of_ne hsame]
      exact hledger.entry entry other hentry

/-- The same for an entry that has a child. -/
theorem Ledger.change_own (hledger : Ledger started pids lives)
    (hown : started pid = some (idx, status)) {child : Option (ℕ × Option Status)} {pid' : ℕ}
    {life : Life Status} (hholds : Holds pid idx child pid' life) :
    Ledger (update started pid child) (pids.set idx pid') (update lives idx life) := by
  have hentry := (hledger.child pid idx status hown).1
  refine hledger.change (List.getElem?_eq_some_iff.1 hentry).1 ?_ ?_ hholds
  · intro other status hother
    have hsame := (hledger.child other idx status hother).1
    exact Option.some.inj (hsame.symm.trans hentry)
  · intro entry status hentry
    exact (Prod.mk.inj (Option.some.inj (hentry.symm.trans hown))).1

end Ledger

structure Tracks (state : State) (lives : ℕ → Life Status) : Prop where
  zero : state.children 0 = none
  ledger : Ledger (own state.children) state.pids lives
  unborn : state.place = .masking → ∀ idx, lives idx = .unborn
  born : state.place.live = true →
    ∀ idx, lives idx = .unborn ↔ state.place.forked state.pids.length ≤ idx
  bound : ∀ idx, state.place = .starting idx → idx ≤ state.pids.length

theorem tracks_start (mask : Finset Signal) : Tracks (start mask) (fun _ => .unborn) where
  zero := rfl
  ledger := ⟨nofun, nofun, nofun⟩
  unborn _ _ := rfl
  born := nofun
  bound := nofun

section Tracks

variable {state next : State} {lives : ℕ → Life Status} {pid idx : ℕ} {child : Child}
  {status : Status}

theorem Tracks.pid_pos (htracks : Tracks state lives) (hchild : state.children pid = some child) :
    0 < pid := by
  refine Nat.pos_of_ne_zero fun hzero => ?_
  rw [hzero, htracks.zero] at hchild
  exact absurd hchild nofun

/-- Looking for the pid of a child finds the entry that it was started for. -/
theorem Tracks.idxOf? (htracks : Tracks state lives)
    (hchild : state.children pid = some child) : state.pids.idxOf? pid = child.owner := by
  have hown : own state.children pid = child.started := by rw [own, hchild]; rfl
  cases hlookup : state.pids.idxOf? pid with
  | some found =>
      obtain ⟨hlt, heq, _⟩ := List.idxOf?_eq_some_iff.1 hlookup
      have hentry : state.pids[found]? = some pid := List.getElem?_eq_some_iff.2 ⟨hlt, heq⟩
      obtain ⟨status, hstatus⟩ := htracks.ledger.owned found pid hentry (htracks.pid_pos hchild)
      obtain ⟨idx, hidx, hpair⟩ := Option.map_eq_some_iff.1 (hown.symm.trans hstatus)
      rw [hidx, (Prod.mk.inj hpair).1]
  | none =>
      cases hidx : child.owner with
      | none => rfl
      | some idx =>
          have hstarted : own state.children pid = some (idx, child.status) := by
            rw [hown, Child.started, hidx, Option.map_some]
          have hentry := (htracks.ledger.child pid idx _ hstarted).1
          exact absurd (List.mem_of_getElem? hentry) (List.idxOf?_eq_none_iff.1 hlookup)

/-- A step that changes neither an entry nor what becomes of a child that was started. -/
theorem Tracks.same (htracks : Tracks state lives) (hpids : next.pids = state.pids)
    (hzero : next.children 0 = none) (hown : own next.children = own state.children)
    (hmasking : next.place = .masking → state.place = .masking)
    (hborn : next.place.live = true →
      ∀ idx, lives idx = .unborn ↔ next.place.forked state.pids.length ≤ idx)
    (hbound : ∀ idx, next.place = .starting idx → idx ≤ state.pids.length) :
    Tracks next lives where
  zero := hzero
  ledger := by
    rw [hpids, hown]
    exact htracks.ledger
  unborn hplace := htracks.unborn (hmasking hplace)
  born := by
    rw [hpids]
    exact hborn
  bound := by
    rw [hpids]
    exact hbound

/-- The same where the runner has started its children. -/
theorem Tracks.settled (htracks : Tracks state lives) (hpids : next.pids = state.pids)
    (hzero : next.children 0 = none) (hown : own next.children = own state.children)
    (hbefore : state.place.settled = true) (hafter : next.place.settled = true) :
    Tracks next lives := by
  refine htracks.same hpids hzero hown ?_ (fun _ => ?_) ?_
  · intro hplace
    rw [hplace] at hafter
    exact absurd hafter nofun
  · have hborn := htracks.born (live_of_settled hbefore)
    rw [forked_of_settled hbefore] at hborn
    rwa [forked_of_settled hafter]
  · intro idx hplace
    rw [hplace] at hafter
    exact absurd hafter nofun

/-- The same where the runner does nothing. -/
theorem Tracks.unmoved (htracks : Tracks state lives) (hpids : next.pids = state.pids)
    (hzero : next.children 0 = none) (hown : own next.children = own state.children)
    (hplace : next.place = state.place) : Tracks next lives := by
  refine htracks.same hpids hzero hown ?_ ?_ ?_
  · exact fun hmasking => hplace ▸ hmasking
  · rw [hplace]
    exact htracks.born
  · rw [hplace]
    exact htracks.bound

theorem Move.forked {place place' : Place} (hmove : Move state place place')
    (hlive : place'.live = true)
    (hbound : ∀ idx, place = .starting idx → idx ≤ state.pids.length) :
    place.live = true ∧ place'.forked state.pids.length = place.forked state.pids.length := by
  cases hmove with
  | started hidx => exact ⟨rfl, Nat.le_antisymm hidx (hbound _ rfl)⟩
  | throws | terminate => exact absurd hlive nofun
  | _ => exact ⟨rfl, rfl⟩

theorem Move.not_starting {place place' : Place} (hmove : Move state place place') :
    place' ≠ .masking ∧ ∀ idx, place' ≠ .starting idx := by
  cases hmove <;> exact ⟨nofun, nofun⟩

theorem Move.live {place place' : Place} (hmove : Move state place place')
    (hlive : place'.live = true) :
    place.live = true := by
  cases hmove with
  | throws | terminate => exact absurd hlive nofun
  | _ => rfl

theorem Tracks.fork (htracks : Tracks state lives) (hplace : state.place = .starting idx)
    (hidx : idx < state.pids.length) (hpid : 0 < pid) (hfree : state.children pid = none) :
    lives idx = .unborn ∧
      Tracks
        { state with
          pids := state.pids.set idx pid
          children := update state.children pid (some (.forked idx state.mask))
          place := .starting (idx + 1) }
        (update lives idx .running) := by
  have hborn := htracks.born (by rw [hplace]; rfl)
  rw [hplace] at hborn
  have hunborn : lives idx = .unborn := (hborn idx).2 (Nat.le_refl idx)
  refine ⟨hunborn, ?_⟩
  constructor
  case zero => exact (update_of_ne hpid.ne _ _).trans htracks.zero
  case ledger =>
    rw [own_update]
    refine htracks.ledger.change hidx ?_ ?_ (.child none hpid)
    · intro other status hother
      have hlife := (htracks.ledger.child other idx status hother).2
      exact absurd (hlife.symm.trans hunborn) (lifeOf_ne_unborn status)
    · intro entry status hentry
      rw [own, hfree] at hentry
      exact absurd hentry nofun
  case unborn => exact nofun
  case born =>
    intro _ entry
    by_cases hsame : entry = idx
    · subst hsame
      rw [update_self]
      exact iff_of_false nofun (Nat.not_succ_le_self entry)
    · rw [update_of_ne hsame, hborn]
      change idx ≤ entry ↔ idx + 1 ≤ entry
      omega
  case bound =>
    intro entry hentry
    rw [List.length_set, ← Place.starting.inj hentry]
    exact hidx

/-- The stages behind the start do not matter for who has been started. -/
theorem update_unborn_iff {life : Life Status} (hlife : life ≠ .unborn)
    (hborn : lives idx ≠ .unborn) (entry : ℕ) :
    update lives idx life entry = .unborn ↔ lives entry = .unborn := by
  by_cases hsame : entry = idx
  · subst hsame
    rw [update_self]
    exact iff_of_false hlife hborn
  · rw [update_of_ne hsame]

/-- A child that was started ends, or is waited for. -/
theorem Tracks.change (htracks : Tracks state lives) {before : Option Status}
    (hown : own state.children pid = some (idx, before)) (hzero : next.children 0 = none)
    {child : Option (ℕ × Option Status)} {pid' : ℕ} {life : Life Status}
    (hholds : Holds pid idx child pid' life) (hlife : life ≠ .unborn)
    (hnext : own next.children = update (own state.children) pid child)
    (hpids : next.pids = state.pids.set idx pid')
    (hplace : next.place = state.place ∨
      state.place.settled = true ∧ next.place.settled = true) :
    Tracks next (update lives idx life) := by
  have hborn : lives idx ≠ .unborn := by
    rw [(htracks.ledger.child pid idx before hown).2]
    exact lifeOf_ne_unborn before
  -- the runner may go from one place behind the start to another
  have hlength : next.pids.length = state.pids.length := by rw [hpids, List.length_set]
  constructor
  case zero => exact hzero
  case ledger =>
    rw [hnext, hpids]
    exact htracks.ledger.change_own hown hholds
  case unborn =>
    intro hmasking entry
    rw [update_unborn_iff hlife hborn]
    rcases hplace with hsame | hsettled
    · exact htracks.unborn (hsame ▸ hmasking) entry
    · rw [hmasking] at hsettled
      exact absurd hsettled.2 nofun
  case born =>
    intro hlive entry
    rw [update_unborn_iff hlife hborn, hlength]
    rcases hplace with hsame | hsettled
    · rw [hsame]
      exact htracks.born (hsame ▸ hlive) entry
    · rw [forked_of_settled hsettled.2, htracks.born (live_of_settled hsettled.1),
        forked_of_settled hsettled.1]
  case bound =>
    intro entry hstarting
    rw [hlength]
    rcases hplace with hsame | hsettled
    · exact htracks.bound entry (hsame ▸ hstarting)
    · rw [hstarting] at hsettled
      exact absurd hsettled.2 nofun

theorem started_of_step {child' : Child} (hstep : child.Step child') :
    child'.started = child.started := by
  cases hstep <;> rfl

theorem settled_next (reason : Reason) (events : List Event) :
    (reason.next events).settled = true := by
  cases reason <;> rfl

theorem settled_afterRead (signal : Signal) (events : List Event) :
    (afterRead signal events).settled = true := by
  rw [afterRead]
  split <;> rfl

/-- What happens with an action to the lives of the children. -/
def Follows (lives : ℕ → Life Status) (action : Action) (next : State) : Prop :=
  (action.event = none ∧ Tracks next lives) ∨
    ∃ event after, action.event = some event ∧ Lifecycle.Step lives event after ∧
      Tracks next after

theorem Tracks.setUp (htracks : Tracks state lives) (hplace : state.place = .masking)
    (threads : ℕ) :
    Tracks
      { state with
        mask := state.mask ∪ watched
        pids := List.replicate threads 0
        place := .starting 0 } lives := by
  have hunborn := htracks.unborn hplace
  constructor
  case zero => exact htracks.zero
  case ledger =>
    have hzero {idx pid : ℕ} (hentry : (List.replicate threads 0)[idx]? = some pid) : pid = 0 :=
      List.eq_of_mem_replicate (List.mem_of_getElem? hentry)
    constructor
    case child =>
      intro pid idx status hown
      have hlife := (htracks.ledger.child pid idx status hown).2
      exact absurd (hlife.symm.trans (hunborn idx)) (lifeOf_ne_unborn status)
    case owned =>
      intro idx pid hentry hpid
      exact absurd (hzero hentry) hpid.ne'
    case entry =>
      intro idx pid hentry
      rw [hzero hentry, hunborn]
      exact iff_of_false (Nat.lt_irrefl 0) nofun
  case unborn => exact nofun
  case born => exact fun _ idx => iff_of_true (hunborn idx) (Nat.zero_le idx)
  case bound =>
    intro idx hstarting
    rw [← Place.starting.inj hstarting]
    exact Nat.zero_le _

theorem Tracks.reap (htracks : Tracks state lives) {events : List Event}
    (hplace : state.place = .reaping events) (hchild : state.children pid = some child)
    (hstatus : child.status = some status) (hreaped : Reaped state pid status events next) :
    Follows lives (.reap child.owner status) next := by
  have hpid := htracks.pid_pos hchild
  have hzero : update state.children pid none 0 = none :=
    (update_of_ne hpid.ne _ _).trans htracks.zero
  have hsettled : state.place.settled = true := by rw [hplace]; rfl
  have hlookup := htracks.idxOf? hchild
  have hcollect {idx : ℕ} {next : State} (hentry : state.pids.idxOf? pid = some idx)
      (hpids : next.pids = state.pids.set idx 0)
      (hchildren : next.children = update state.children pid none)
      (hafter : next.place.settled = true) : Follows lives (.reap child.owner status) next := by
    have howner : child.owner = some idx := hlookup.symm.trans hentry
    have hown : own state.children pid = some (idx, some status) := by
      rw [own, hchild, Option.bind_some, Child.started, howner, hstatus, Option.map_some]
    have hended : lives idx = .ended status := (htracks.ledger.child pid idx _ hown).2
    rw [howner]
    refine .inr ⟨.collect idx status, _, rfl, .collect hended, ?_⟩
    refine htracks.change hown (hchildren ▸ hzero) (.none rfl) nofun ?_ hpids
      (.inr ⟨hsettled, hafter⟩)
    rw [hchildren, own_update]
    rfl
  cases hreaped with
  | foreign hentry =>
      have howner : child.owner = none := hlookup.symm.trans hentry
      rw [howner]
      refine .inl ⟨rfl, htracks.unmoved rfl hzero (own_update_self ?_) rfl⟩
      rw [hchild, Option.bind_some, Child.started, howner]
      rfl
  | failure hentry => exact hcollect hentry rfl rfl rfl
  | cleared hentry => exact hcollect hentry rfl rfl hsettled

theorem Tracks.exit (htracks : Tracks state lives) (hchild : state.children pid = some child)
    (hstatus : child.status = none) (hplace : next.place = state.place)
    (hpids : next.pids = state.pids)
    (hchildren : next.children =
      update state.children pid (some { child with status := some status })) :
    Follows lives (.exit child.owner status) next := by
  have hpid := htracks.pid_pos hchild
  have hzero : next.children 0 = none := by
    rw [hchildren]
    exact (update_of_ne hpid.ne _ _).trans htracks.zero
  cases howner : child.owner with
  | none =>
      refine .inl ⟨rfl, htracks.unmoved hpids hzero ?_ hplace⟩
      rw [hchildren]
      refine own_update_self ?_
      rw [hchild, Option.bind_some, Option.bind_some, Child.started, Child.started, howner]
      rfl
  | some idx =>
      have hown : own state.children pid = some (idx, none) := by
        rw [own, hchild, Option.bind_some, Child.started, howner, hstatus, Option.map_some]
      obtain ⟨hentry, hrunning⟩ := htracks.ledger.child pid idx none hown
      refine .inr ⟨.finish idx status, _, rfl, .finish status hrunning, ?_⟩
      have hset : state.pids.set idx pid = state.pids := by
        obtain ⟨hlt, heq⟩ := List.getElem?_eq_some_iff.1 hentry
        rw [← heq, List.set_getElem_self]
      refine htracks.change hown hzero (.child (some status) hpid) nofun ?_ (hpids.trans hset.symm)
        (.inl hplace)
      rw [hchildren, own_update, Option.bind_some, Child.started, howner]
      rfl

/-- The entries follow the lives of the children in every step. -/
theorem Tracks.step {threads : ℕ} {action : Action} (htracks : Tracks state lives)
    (hstep : Step threads state action next) : Follows lives action next := by
  cases hstep with
  | setUp hplace => exact .inl ⟨rfl, htracks.setUp hplace threads⟩
  | @fork idx pid hplace hidx hpid hfree =>
      obtain ⟨hunborn, hnext⟩ := htracks.fork hplace hidx hpid hfree
      exact .inr ⟨.start idx, _, rfl, .start hunborn, hnext⟩
  | @move place hmove =>
      refine .inl ⟨rfl, htracks.same rfl htracks.zero rfl ?_ ?_ ?_⟩
      · exact fun hmasking => absurd hmasking hmove.not_starting.1
      · intro hlive
        obtain ⟨hbefore, hforked⟩ := hmove.forked hlive htracks.bound
        rw [hforked]
        exact htracks.born hbefore
      · exact fun idx hstarting => absurd hstarting (hmove.not_starting.2 idx)
  | @read signal events hplace =>
      exact .inl ⟨rfl, htracks.settled rfl htracks.zero rfl (by rw [hplace]; rfl)
        (settled_afterRead signal events)⟩
  | @kill reason signal idx pid events hplace hentry hpid =>
      refine .inl ⟨rfl, htracks.settled rfl ?_ (own_update_self ?_) (by rw [hplace]; rfl) rfl⟩
      · exact (update_of_ne hpid.ne _ _).trans htracks.zero
      · cases state.children pid <;> rfl
  | @killed reason signal idx events hplace hidx =>
      exact .inl ⟨rfl, htracks.settled rfl htracks.zero rfl (by rw [hplace]; rfl)
        (settled_next reason events)⟩
  | reap hplace hchild hstatus =>
      exact htracks.reap hplace hchild hstatus (reaped_spec _ _ _ _)
  | arrive => exact .inl ⟨rfl, htracks.unmoved rfl htracks.zero rfl rfl⟩
  | exit status hchild hstatus => exact htracks.exit hchild hstatus rfl rfl rfl
  | @child pid child child' hchild hstep =>
      have hpid := htracks.pid_pos hchild
      refine .inl ⟨rfl, htracks.unmoved rfl ?_ (own_update_self ?_) rfl⟩
      · exact (update_of_ne hpid.ne _ _).trans htracks.zero
      · rw [hchild, Option.bind_some, Option.bind_some, started_of_step hstep]
  | @adopt pid child hplace hpid hfree howner =>
      refine .inl ⟨rfl, htracks.unmoved rfl ?_ (own_update_self ?_) rfl⟩
      · exact (update_of_ne hpid.ne _ _).trans htracks.zero
      · rw [hfree, Option.bind_some, Child.started, howner]
        rfl

theorem tracks_of_run {threads : ℕ} {mask : Finset Signal} {actions : List Action}
    (hrun : Run (Step threads) (start mask) actions state) :
    ∃ lives, Run Lifecycle.Step (fun _ => .unborn) (history actions) lives ∧
      Tracks state lives :=
  hrun.simulated_events Action.event (tracks_start mask)
    fun _ _ _ _ htracks hstep => htracks.step hstep

end Tracks

end Nstl.MultiRunner
