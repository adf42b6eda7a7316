import Nstl.Runner.Macos

/-!
# How the runner on macOS ends

The exit code is that of the first child that is found to have failed.  The other children are
then sent SIGTERM, once.  Every end of a child leaves a note until the child is waited for, so
that the runner comes to its end when its children do.
-/

namespace Nstl.MacosRunner

open Function
open Nstl.Lifecycle
open Nstl.MultiRunner (Status)
open Nstl.Transition

/-! ## The exit code -/

/-- A child is waited for and has failed. -/
def Action.failure : Action → Option ℕ
  | .reap _ status => if status.code = 0 then none else some status.code
  | _ => none

/-- The code of the first child that is waited for and has failed. -/
def firstFailure (actions : List Action) : Option ℕ := actions.findSome? Action.failure

def Place.kills : Place → Bool
  | .killing .. => true
  | _ => false

def State.decided (state : State) : Bool := state.raised || state.place.kills

/-- The exit code is that of the first failure, as soon as there is one. -/
def Decided (actions : List Action) (state : State) : Prop :=
  (state.decided = true ∧ firstFailure actions = some state.exitCode) ∨
    (state.decided = false ∧ firstFailure actions = none ∧ state.exitCode = 0)

section Decided

variable {threads : ℕ} {state next : State} {action : Action} {actions : List Action}

theorem firstFailure_append :
    firstFailure (actions ++ [action]) = (firstFailure actions).or action.failure := by
  rw [firstFailure, List.findSome?_append, List.findSome?_singleton]
  rfl

theorem Decided.same (hdecided : Decided actions state) (haction : action.failure = none)
    (hsame : next.decided = state.decided) (hcode : next.exitCode = state.exitCode) :
    Decided (actions ++ [action]) next := by
  rw [Decided, firstFailure_append, haction, Option.or_none, hsame, hcode]
  exact hdecided

theorem Move.kills {place place' : Place} (hmove : Move threads state place place') :
    place'.kills = place.kills := by
  cases hmove <;> rfl

theorem Decided.step (hdecided : Decided actions state) (hstep : Step threads state action next) :
    Decided (actions ++ [action]) next := by
  cases hstep with
  | fork hplace | register hplace | report hplace | forget hplace | kill hplace =>
      refine hdecided.same rfl ?_ rfl
      rw [State.decided, State.decided, hplace]
      rfl
  | move hmove =>
      refine hdecided.same rfl ?_ rfl
      rw [State.decided, State.decided, hmove.kills]
  | killed hplace =>
      refine hdecided.same rfl ?_ rfl
      rw [State.decided, State.decided, hplace]
      exact (Bool.or_true _).symm
  | exit => exact hdecided.same rfl rfl rfl
  | @reap pid events child status hplace =>
      have hbefore : state.decided = state.raised := by
        rw [State.decided, hplace]
        exact Bool.or_false _
      have hreaped := reaped_spec state pid status events
      rw [Decided, firstFailure_append]
      rcases hdecided with ⟨hset, hfirst⟩ | ⟨hunset, hnone, hzero⟩
      · rw [hbefore] at hset
        rw [hfirst, Option.some_or]
        generalize state.reaped pid status events = after at hreaped
        cases hreaped with
        | failure _ hraised => exact absurd (hset.symm.trans hraised) nofun
        | other => exact .inl ⟨by rw [State.decided, hset]; rfl, rfl⟩
      · rw [hbefore] at hunset
        rw [hnone, Option.none_or]
        generalize state.reaped pid status events = after at hreaped
        cases hreaped with
        | failure hcode => exact .inl ⟨Bool.or_true _, if_neg hcode⟩
        | other hcode =>
            have hcode := hcode.resolve_right (by rw [hunset]; exact nofun)
            exact .inr ⟨by rw [State.decided, hunset]; rfl, if_pos hcode, hzero⟩

theorem decided_of_run (hrun : Run (Step threads) start actions state) :
    Decided actions state := by
  induction hrun with
  | nil => exact .inr ⟨rfl, rfl, rfl⟩
  | snoc _ hstep ih => exact ih.step hstep

theorem firstFailure_ne_zero {code : ℕ} (hfailure : firstFailure actions = some code) :
    code ≠ 0 := by
  obtain ⟨action, _, haction⟩ := List.exists_of_findSome?_eq_some hfailure
  cases action with
  | reap idx status =>
      rw [Action.failure] at haction
      split at haction
      case isTrue => exact absurd haction nofun
      case isFalse hcode => exact Option.some.inj haction ▸ hcode
  | _ => exact absurd haction nofun

theorem collect_mem_history {idx : ℕ} {status : Status} :
    .collect idx status ∈ history actions ↔ .reap idx status ∈ actions := by
  rw [history, List.mem_filterMap]
  constructor
  · rintro ⟨action, haction, hevent⟩
    cases action with
    | reap => simp_all [Action.event]
    | _ => simp_all [Action.event]
  · exact fun hreap => ⟨_, hreap, rfl⟩

theorem firstFailure_eq_none_iff :
    firstFailure actions = none ↔
      ∀ idx status, .collect idx status ∈ history actions → status.code = 0 := by
  rw [firstFailure, List.findSome?_eq_none_iff]
  constructor
  · intro hnone idx status hcollect
    have hfailure := hnone _ (collect_mem_history.1 hcollect)
    by_contra hcode
    rw [Action.failure, if_neg hcode] at hfailure
    exact absurd hfailure nofun
  · intro hzero action haction
    cases action with
    | reap idx status => exact if_pos (hzero idx status (collect_mem_history.2 haction))
    | _ => rfl

variable {lives : ℕ → Life Status}

/-- When the runner returns, no child is left. -/
theorem Tracks.collected (htracks : Tracks threads state lives)
    (hplace : state.place = .returned) (idx : ℕ) :
    (lives idx).active = false ∧ (lives idx = .unborn ↔ threads ≤ idx) := by
  refine ⟨?_, htracks.born threads (by rw [hplace]; rfl) idx⟩
  by_contra hactive
  rw [Bool.not_eq_false] at hactive
  obtain ⟨pid, child, hchild, _⟩ := htracks.active idx hactive
  have hmem : pid ∈ state.pids := (htracks.pids pid).2 (by rw [hchild]; exact nofun)
  rw [htracks.returned hplace] at hmem
  exact absurd hmem List.not_mem_nil

/-- In every run in which the runner returns, every child was started, has ended and was waited
for, once, with the status that it has ended with; the exit code is that of the first one that
was found to have failed, and 0 exactly if there is none. -/
theorem returned_collects (hrun : Run (Step threads) start actions state)
    (hplace : state.place = .returned) :
    ((history actions).filterMap Lifecycle.Event.collected).Nodup ∧
      (∀ idx, idx < threads ↔ ∃ status, .finish idx status ∈ history actions ∧
        .collect idx status ∈ history actions) ∧
      state.exitCode = (firstFailure actions).getD 0 ∧
      (state.exitCode = 0 ↔ ∀ idx status, .finish idx status ∈ history actions →
        status.code = 0) := by
  obtain ⟨lives, hlives, htracks⟩ := tracks_of_run hrun
  have hcode : state.exitCode = (firstFailure actions).getD 0 := by
    rcases decided_of_run hrun with ⟨_, hfirst⟩ | ⟨_, hnone, hzero⟩
    · rw [hfirst, Option.getD_some]
    · rw [hnone, hzero, Option.getD_none]
  -- a child that has ended was waited for
  have hcollected {idx : ℕ} {status : Status} (hfinish : .finish idx status ∈ history actions) :
      .collect idx status ∈ history actions := by
    rw [collect_mem_iff hlives]
    refine ((finish_mem_iff hlives idx status).1 hfinish).resolve_left fun hended => ?_
    have hinactive := (htracks.collected hplace idx).1
    rw [hended] at hinactive
    exact absurd hinactive nofun
  refine ⟨nodup_collected hlives, fun idx => ⟨fun hidx => ?_, ?_⟩, hcode, ?_⟩
  · obtain ⟨hinactive, hborn⟩ := htracks.collected hplace idx
    cases hlife : lives idx with
    | unborn => exact absurd (hborn.1 hlife) (Nat.not_le.2 hidx)
    | running | ended =>
        rw [hlife] at hinactive
        exact absurd hinactive nofun
    | collected status =>
        exact ⟨status, (finish_mem_iff hlives idx status).2 (.inr hlife),
          (collect_mem_iff hlives idx status).2 hlife⟩
  · rintro ⟨status, _, hcollect⟩
    have hlife := (collect_mem_iff hlives idx status).1 hcollect
    have hborn := (htracks.collected hplace idx).2
    rw [hlife] at hborn
    exact Nat.not_le.1 fun hle => absurd (hborn.2 hle) nofun
  · have hzero : state.exitCode = 0 ↔ firstFailure actions = none := by
      rw [hcode]
      cases hfailure : firstFailure actions with
      | none => exact iff_of_true rfl rfl
      | some code => exact iff_of_false (firstFailure_ne_zero hfailure) nofun
    rw [hzero, firstFailure_eq_none_iff]
    constructor
    · exact fun hall idx status hfinish => hall idx status (hcollected hfinish)
    · intro hall idx status hcollect
      have hlife := (collect_mem_iff hlives idx status).1 hcollect
      exact hall idx status ((finish_mem_iff hlives idx status).2 (.inr hlife))

end Decided

/-! ## Who is sent a signal -/

def Action.target : Action → Option ℕ
  | .kill pid => some pid
  | _ => none

/-- The pids that SIGTERM was sent to. -/
def kills (actions : List Action) : List ℕ := actions.filterMap Action.target

/-- The loop goes over all children that were not waited for, and it is entered once. -/
structure Targets (actions : List Action) (state : State) : Prop where
  nodup : (kills actions).Nodup
  starting : ∀ idx, state.place = .starting idx → state.raised = false
  looping : ∀ rest events, state.place = .killing rest events →
    state.raised = false ∧ kills actions ++ rest = state.pids
  before : state.decided = false → kills actions = []
  after : state.raised = true → ∀ pid ∈ state.pids, pid ∈ kills actions

section Targets

variable {threads : ℕ} {state next : State} {action : Action} {actions : List Action}

theorem kills_append : kills (actions ++ [action]) = kills actions ++ action.target.toList := by
  rw [kills, List.filterMap_append]
  cases htarget : action.target with
  | none =>
      rw [List.filterMap_cons_none htarget]
      rfl
  | some pid =>
      rw [List.filterMap_cons_some htarget]
      rfl

theorem kills_append_of_none (actions : List Action) (htarget : action.target = none) :
    kills (actions ++ [action]) = kills actions := by
  rw [kills_append, htarget]
  exact List.append_nil _

/-- A step outside of the loop over the children. -/
theorem Targets.same (htargets : Targets actions state) (htarget : action.target = none)
    (hraised : next.raised = state.raised) (hbefore : state.place.kills = false)
    (hafter : next.place.kills = false)
    (hstarting : ∀ idx, next.place = .starting idx → state.raised = false)
    (hpids : state.raised = true → ∀ pid ∈ next.pids, pid ∈ state.pids) :
    Targets (actions ++ [action]) next := by
  have hkills := kills_append_of_none actions htarget
  refine ⟨hkills ▸ htargets.nodup, fun idx hplace => hraised.trans (hstarting idx hplace),
    fun rest events hplace => ?_, fun hundecided => ?_, fun hset pid hpid => ?_⟩
  · rw [hplace] at hafter
    exact absurd hafter nofun
  · rw [State.decided, hraised, hafter] at hundecided
    refine hkills.trans (htargets.before ?_)
    rw [State.decided, hbefore]
    exact hundecided
  · rw [hraised] at hset
    rw [hkills]
    exact htargets.after hset pid (hpids hset pid hpid)

theorem Targets.unmoved (htargets : Targets actions state) (htarget : action.target = none)
    (hplace : next.place = state.place) (hraised : next.raised = state.raised)
    (hpids : next.pids = state.pids) : Targets (actions ++ [action]) next := by
  have hkills := kills_append_of_none actions htarget
  have hdecided : next.decided = state.decided := by
    rw [State.decided, State.decided, hplace, hraised]
  constructor
  case nodup => exact hkills ▸ htargets.nodup
  case starting =>
    rw [hplace, hraised]
    exact htargets.starting
  case looping =>
    rw [hplace, hraised, hkills, hpids]
    exact htargets.looping
  case before =>
    rw [hdecided, hkills]
    exact htargets.before
  case after =>
    rw [hraised, hkills, hpids]
    exact htargets.after

theorem Move.not_kills {place place' : Place} (hmove : Move threads state place place') :
    place.kills = false ∧ place'.kills = false ∧ ∀ idx, place' ≠ .starting idx := by
  cases hmove <;> exact ⟨rfl, rfl, nofun⟩

theorem Targets.reap {pid : ℕ} {status : Status} {events : List ℕ} {child : Child}
    (htargets : Targets actions state) (hplace : state.place = .reaping pid events)
    (hreaped : Reaped state pid status events next) :
    Targets (actions ++ [.reap child.idx status]) next := by
  have hkills : state.place.kills = false := by
    rw [hplace]
    rfl
  cases hreaped with
  | failure hcode hraised =>
      have hnone : kills (actions ++ [.reap child.idx status]) = [] := by
        rw [kills_append_of_none actions rfl]
        exact htargets.before (by rw [State.decided, hraised, hkills]; rfl)
      refine ⟨hnone ▸ List.nodup_nil, nofun, fun rest events hkilling => ⟨hraised, ?_⟩, ?_, ?_⟩
      · rw [hnone, ← (Place.killing.inj hkilling).1]
        rfl
      · exact fun hundecided => absurd ((Bool.or_true _).symm.trans hundecided) nofun
      · exact fun hset => absurd (hraised.symm.trans hset) nofun
  | other =>
      exact htargets.same rfl rfl hkills rfl nofun fun _ _ hmem => List.mem_of_mem_erase hmem

theorem Targets.step {lives : ℕ → Life Status} (htargets : Targets actions state)
    (htracks : Tracks threads state lives) (hstep : Step threads state action next) :
    Targets (actions ++ [action]) next := by
  cases hstep with
  | fork hplace =>
      have hraised := htargets.starting _ hplace
      exact htargets.same rfl rfl (by rw [hplace]; rfl) rfl (fun _ _ => hraised)
        fun hset => absurd (hraised.symm.trans hset) nofun
  | move hmove =>
      exact htargets.same rfl rfl hmove.not_kills.1 hmove.not_kills.2.1
        (fun idx hplace => absurd hplace (hmove.not_kills.2.2 idx)) fun _ _ => id
  | register hplace | report hplace | forget hplace =>
      exact htargets.same rfl rfl (by rw [hplace]; rfl) rfl nofun fun _ _ => id
  | reap hplace => exact htargets.reap hplace (reaped_spec ..)
  | @kill pid rest events hplace =>
      obtain ⟨hraised, hall⟩ := htargets.looping _ _ hplace
      rw [List.append_cons] at hall
      have hkills : kills (actions ++ [.kill pid]) = kills actions ++ [pid] := kills_append
      refine ⟨?_, nofun, fun rest' events' hkilling => ⟨hraised, ?_⟩, ?_, ?_⟩
      · have hnodup := htracks.nodup
        rw [← hall] at hnodup
        rw [hkills]
        exact (List.nodup_append.1 hnodup).1
      · rw [hkills, ← (Place.killing.inj hkilling).1]
        exact hall
      · exact fun hundecided => absurd ((Bool.or_true _).symm.trans hundecided) nofun
      · exact fun hset => absurd (hraised.symm.trans hset) nofun
  | @killed events hplace =>
      obtain ⟨_, hall⟩ := htargets.looping _ _ hplace
      rw [List.append_nil] at hall
      have hkills : kills (actions ++ [.killed]) = kills actions := kills_append_of_none actions rfl
      refine ⟨hkills ▸ htargets.nodup, nofun, nofun, nofun, fun _ pid hpid => ?_⟩
      rw [hkills, hall]
      exact hpid
  | exit => exact htargets.unmoved rfl rfl rfl rfl

theorem targets_of_run (hrun : Run (Step threads) start actions state) :
    Targets actions state := by
  induction hrun with
  | nil => exact ⟨List.nodup_nil, fun _ _ => rfl, nofun, fun _ => rfl, nofun⟩
  | snoc hrun hstep ih =>
      obtain ⟨_, _, htracks⟩ := tracks_of_run hrun
      exact ih.step htracks hstep

/-- SIGTERM goes to no pid twice, and only to children that were not waited for, whose pids
cannot have been given to other processes; when the first failure was dealt with, every child
that is left was sent one. -/
theorem terminated_once (hrun : Run (Step threads) start actions state) :
    (kills actions).Nodup ∧
      (∀ pid next, Step threads state (.kill pid) next →
        pid ∉ kills actions ∧ ∃ child, state.children pid = some child) ∧
      (state.raised = true → ∀ pid child, state.children pid = some child →
        pid ∈ kills actions) := by
  obtain ⟨_, _, htracks⟩ := tracks_of_run hrun
  have htargets := targets_of_run hrun
  refine ⟨htargets.nodup, fun pid next hstep => ?_, fun hraised pid child hchild => ?_⟩
  · cases hstep with
    | @kill _ rest events hplace =>
        obtain ⟨_, hall⟩ := htargets.looping _ _ hplace
        have hnodup := htracks.nodup
        rw [← hall] at hnodup
        have hmem : pid ∈ state.pids := by
          rw [← hall]
          exact List.mem_append_right _ List.mem_cons_self
        refine ⟨fun hkilled => ?_, Option.ne_none_iff_exists'.1 ((htracks.pids pid).1 hmem)⟩
        exact (List.nodup_append.1 hnodup).2.2 pid hkilled pid List.mem_cons_self rfl
  · refine htargets.after hraised pid ((htracks.pids pid).2 ?_)
    rw [hchild]
    exact nofun

end Targets

/-! ## The notes -/

/-- The notes of the events that are left. -/
def Place.pending : Place → List ℕ
  | .dispatching events | .killing _ events => events
  | .reaping pid events => pid :: events
  | .starting _ | .registering | .testing | .waiting | .returned | .thrown => []

def Place.watches : Place → Bool
  | .starting _ | .registering | .thrown => false
  | .testing | .waiting | .dispatching _ | .reaping .. | .killing .. | .returned => true

/-- No end of a child goes unnoticed. -/
structure Noted (state : State) : Prop where
  registered : state.place.watches = true → ∀ pid ∈ state.pids, pid ∈ state.registered
  noted : state.place.watches = true → ∀ pid ∈ state.pids, state.exited pid = true →
    pid ∈ state.notes ∨ pid ∈ state.place.pending
  waiting : state.place = .waiting → state.pids ≠ []
  reaping : ∀ pid events, state.place = .reaping pid events → pid ∈ state.pids

section Noted

variable {threads : ℕ} {state next : State} {action : Action} {actions : List Action} {pid : ℕ}

theorem exited_congr (hchild : next.children pid = state.children pid) :
    next.exited pid = state.exited pid := by
  rw [State.exited, State.exited, hchild]

theorem exited_iff :
    state.exited pid = true ↔
      ∃ child status, state.children pid = some child ∧ child.status = some status := by
  rw [State.exited]
  cases hchild : state.children pid with
  | none => exact iff_of_false nofun nofun
  | some child => simp [Option.isSome_iff_exists]

/-- Events are dropped only for children that were waited for. -/
theorem Move.pending {place place' : Place} (hmove : Move threads state place place')
    (hwatches : place'.watches = true) :
    place.watches = true ∧ ∀ pid ∈ state.pids, pid ∈ place.pending → pid ∈ place'.pending := by
  cases hmove with
  | started | throwsStarting | throwsRegistering | throwsWaiting => exact absurd hwatches nofun
  | loop | ends | interrupted | dispatched | known => exact ⟨rfl, fun _ _ => id⟩
  | emptied hpids =>
      refine ⟨rfl, fun pid hpid => ?_⟩
      rw [hpids] at hpid
      exact absurd hpid List.not_mem_nil
  | unknown _ hpid =>
      refine ⟨rfl, fun other hother hpending => List.mem_of_ne_of_mem ?_ hpending⟩
      rintro rfl
      exact hpid hother

theorem Noted.move {place : Place} (hnoted : Noted state)
    (hmove : Move threads state state.place place) : Noted { state with place := place } where
  registered hwatches := hnoted.registered (hmove.pending hwatches).1
  noted hwatches pid hpid hexited := by
    obtain ⟨hbefore, hpending⟩ := hmove.pending hwatches
    exact (hnoted.noted hbefore pid hpid hexited).imp_right (hpending pid hpid)
  waiting hplace := by
    obtain rfl : place = .waiting := hplace
    cases hkind : state.place with
    | testing =>
        rw [hkind] at hmove
        cases hmove with
        | loop hpids => exact hpids
    | _ =>
        rw [hkind] at hmove
        cases hmove
  reaping pid events hplace := by
    obtain rfl : place = .reaping pid events := hplace
    cases hkind : state.place with
    | dispatching =>
        rw [hkind] at hmove
        cases hmove with
        | known hpid => exact hpid
    | _ =>
        rw [hkind] at hmove
        cases hmove

theorem Noted.reap {lives : ℕ → Life Status} {status : Status} {events : List ℕ}
    (hnoted : Noted state) (htracks : Tracks threads state lives)
    (hplace : state.place = .reaping pid events) (hreaped : Reaped state pid status events next) :
    Noted next := by
  have hwatches : state.place.watches = true := by
    rw [hplace]
    rfl
  have hregistered : ∀ other ∈ state.pids.erase pid, other ∈ state.registered :=
    fun other hother => hnoted.registered hwatches other (List.mem_of_mem_erase hother)
  have hothers {next : State} (hchildren : next.children = update state.children pid none)
      {other : ℕ} (hother : other ∈ state.pids.erase pid) (hexited : next.exited other = true) :
      other ∈ state.notes ∨ other ∈ events := by
    obtain ⟨hne, hmem⟩ := htracks.nodup.mem_erase_iff.1 hother
    have hsame : next.exited other = state.exited other :=
      exited_congr (by rw [hchildren, update_of_ne hne])
    refine (hnoted.noted hwatches other hmem (hsame ▸ hexited)).imp_right fun hpending => ?_
    rw [hplace] at hpending
    exact List.mem_of_ne_of_mem hne hpending
  cases hreaped with
  | failure | other =>
      exact ⟨fun _ => hregistered, fun _ _ hother => hothers rfl hother, nofun, nofun⟩

theorem Noted.exit {child : Child} (hnoted : Noted state) (status : Status)
    (hchild : state.children pid = some child) :
    Noted { state with
      children := update state.children pid (some { child with status := some status })
      notes := if pid ∈ state.registered then insert pid state.notes else state.notes } where
  registered := hnoted.registered
  noted hwatches other hother hexited := by
    by_cases hsame : other = pid
    · subst hsame
      left
      rw [if_pos (hnoted.registered hwatches other hother)]
      exact Finset.mem_insert_self ..
    · have hbefore : state.exited other = true := by
        rw [← hexited]
        exact (exited_congr (update_of_ne hsame ..)).symm
      refine (hnoted.noted hwatches other hother hbefore).imp_left fun hmem => ?_
      dsimp only
      split
      · exact Finset.mem_insert_of_mem hmem
      · exact hmem
  waiting := hnoted.waiting
  reaping := hnoted.reaping

theorem Noted.step {lives : ℕ → Life Status} (hnoted : Noted state)
    (htracks : Tracks threads state lives) (hstep : Step threads state action next)
    (haction : ∀ pid, action ≠ .forget pid) : Noted next := by
  cases hstep with
  | fork => exact ⟨nofun, nofun, nofun, nofun⟩
  | move hmove => exact hnoted.move hmove
  | register =>
      refine ⟨fun _ pid hpid => List.mem_toFinset.2 hpid, fun _ pid hpid hexited => .inl ?_, nofun,
        nofun⟩
      exact Finset.mem_filter.2 ⟨List.mem_toFinset.2 hpid, hexited⟩
  | @report events hplace =>
      have hwatches : state.place.watches = true := by
        rw [hplace]
        rfl
      refine ⟨fun _ => hnoted.registered hwatches, fun _ pid hpid hexited => ?_, nofun, nofun⟩
      by_cases hevent : pid ∈ events
      · exact .inr hevent
      · refine .inl (Finset.mem_sdiff.2 ⟨?_, mt List.mem_toFinset.1 hevent⟩)
        refine (hnoted.noted hwatches pid hpid hexited).resolve_right ?_
        rw [hplace]
        exact List.not_mem_nil
  | reap hplace => exact hnoted.reap htracks hplace (reaped_spec ..)
  | forget => exact absurd rfl (haction _)
  | kill hplace | killed hplace =>
      have hwatches : state.place.watches = true := by
        rw [hplace]
        rfl
      refine ⟨fun _ => hnoted.registered hwatches, fun _ pid hpid hexited => ?_, nofun, nofun⟩
      have hbefore := hnoted.noted hwatches pid hpid hexited
      rw [hplace] at hbefore
      exact hbefore
  | exit status hchild => exact hnoted.exit status hchild

theorem noted_of_run (hrun : Run (Step threads) start actions state)
    (hforget : ∀ pid, .forget pid ∉ actions) : Noted state := by
  induction hrun with
  | nil => exact ⟨nofun, nofun, nofun, nofun⟩
  | @snoc actions before after action hrun hstep ih =>
      obtain ⟨_, _, htracks⟩ := tracks_of_run hrun
      refine (ih fun pid hmem => hforget pid (List.mem_append_left _ hmem)).step htracks hstep ?_
      rintro pid rfl
      exact hforget pid (List.mem_append_right _ List.mem_cons_self)

end Noted

/-! ## The runner returns -/

/-- All children have ended, and none was forgotten. -/
structure Ended (threads : ℕ) (state : State) : Prop where
  reachable : ∃ actions, Run (Step threads) start actions state ∧ ∀ pid, .forget pid ∉ actions
  exited : ∀ pid ∈ state.pids, state.exited pid = true

/-- The runner itself, and not a child. -/
def Action.ofRunner : Action → Bool
  | .exit .. => false
  | .fork .. | .goTo _ | .register | .report _ | .reap .. | .forget _ | .kill _ | .killed => true

/-- The runner can come by itself to a state of some kind. -/
def Leads (threads : ℕ) (state : State) (goal : State → Prop) : Prop :=
  ∃ actions last, Run (Step threads) state actions last ∧
    (∀ action ∈ actions, action.ofRunner = true) ∧ goal last

section Leads

variable {threads : ℕ} {state next : State} {action : Action} {pid : ℕ} {events : List ℕ}
  {goal further : State → Prop}

theorem Leads.here (hgoal : goal state) : Leads threads state goal :=
  ⟨[], state, .nil, fun _ hmem => absurd hmem List.not_mem_nil, hgoal⟩

theorem Leads.step (hstep : Step threads state action next) (hrunner : action.ofRunner = true)
    (hleads : Leads threads next goal) : Leads threads state goal := by
  obtain ⟨actions, last, hrun, hrunners, hgoal⟩ := hleads
  refine ⟨action :: actions, last, (Run.nil.snoc hstep).append hrun, fun other hother => ?_, hgoal⟩
  rcases List.mem_cons.1 hother with rfl | hrest
  · exact hrunner
  · exact hrunners other hrest

theorem Leads.trans (hleads : Leads threads state goal)
    (hrest : ∀ next, goal next → Leads threads next further) : Leads threads state further := by
  obtain ⟨actions, middle, hrun, hrunners, hgoal⟩ := hleads
  obtain ⟨more, last, hmore, hrunners', hfurther⟩ := hrest middle hgoal
  refine ⟨actions ++ more, last, hrun.append hmore, fun action haction => ?_, hfurther⟩
  exact (List.mem_append.1 haction).elim (hrunners action) (hrunners' action)

theorem ended_of_run {actions : List Action} (hrun : Run (Step threads) start actions state)
    (hforget : ∀ pid, .forget pid ∉ actions)
    (hexited : ∀ pid child, state.children pid = some child → child.status ≠ none) :
    Ended threads state := by
  obtain ⟨_, _, htracks⟩ := tracks_of_run hrun
  refine ⟨⟨actions, hrun, hforget⟩, fun pid hpid => exited_iff.2 ?_⟩
  obtain ⟨child, hchild⟩ := Option.ne_none_iff_exists'.1 ((htracks.pids pid).1 hpid)
  obtain ⟨status, hstatus⟩ := Option.ne_none_iff_exists'.1 (hexited pid child hchild)
  exact ⟨child, status, hchild, hstatus⟩

theorem Ended.noted (hended : Ended threads state) : Noted state := by
  obtain ⟨actions, hrun, hforget⟩ := hended.reachable
  exact noted_of_run hrun hforget

theorem Ended.tracks (hended : Ended threads state) : ∃ lives, Tracks threads state lives := by
  obtain ⟨actions, hrun, _⟩ := hended.reachable
  obtain ⟨lives, _, htracks⟩ := tracks_of_run hrun
  exact ⟨lives, htracks⟩

theorem Ended.step (hended : Ended threads state) (hstep : Step threads state action next)
    (haction : ∀ pid, action ≠ .forget pid)
    (hexited : ∀ pid ∈ next.pids, next.exited pid = true) : Ended threads next := by
  obtain ⟨actions, hrun, hforget⟩ := hended.reachable
  refine ⟨⟨_, hrun.snoc hstep, fun pid hmem => ?_⟩, hexited⟩
  rcases List.mem_append.1 hmem with hearlier | hlast
  · exact hforget pid hearlier
  · exact haction pid (List.mem_singleton.1 hlast).symm

/-- Every child that is left is sent a signal, and the loop goes on. -/
theorem leads_of_killing {rest : List ℕ} (hended : Ended threads state)
    (hplace : state.place = .killing rest events) :
    Leads threads state fun next =>
      Ended threads next ∧ next.place = .dispatching events ∧ next.pids = state.pids := by
  induction rest generalizing state with
  | nil =>
      have hstep : Step threads state .killed _ := .killed hplace
      exact .step hstep rfl (.here ⟨hended.step hstep nofun hended.exited, rfl, rfl⟩)
  | cons pid rest ih =>
      have hstep : Step threads state (.kill pid) _ := .kill hplace
      exact .step hstep rfl (ih (hended.step hstep nofun hended.exited) rfl)

theorem leads_of_reaping (hended : Ended threads state)
    (hplace : state.place = .reaping pid events) :
    Leads threads state fun next =>
      Ended threads next ∧ next.place = .dispatching events ∧ next.pids = state.pids.erase pid := by
  obtain ⟨lives, htracks⟩ := hended.tracks
  have hmem := hended.noted.reaping pid events hplace
  obtain ⟨child, status, hchild, hstatus⟩ := exited_iff.1 (hended.exited pid hmem)
  have hstep : Step threads state (.reap child.idx status) _ := .reap hplace hchild hstatus
  refine .step hstep rfl ?_
  -- the children that are left have ended as well
  have hothers {next : State} (hchildren : next.children = update state.children pid none)
      (hpids : next.pids = state.pids.erase pid) :
      ∀ other ∈ next.pids, next.exited other = true := by
    intro other hother
    rw [hpids, htracks.nodup.mem_erase_iff] at hother
    have hsame : next.exited other = state.exited other :=
      exited_congr (by rw [hchildren, update_of_ne hother.1])
    exact hsame.trans (hended.exited other hother.2)
  have hreaped := reaped_spec state pid status events
  generalize state.reaped pid status events = after at hstep hreaped
  cases hreaped with
  | failure => exact leads_of_killing (hended.step hstep nofun (hothers rfl rfl)) rfl
  | other => exact .here ⟨hended.step hstep nofun (hothers rfl rfl), rfl, rfl⟩

/-- After the loop over the events none of their children is left. -/
theorem leads_of_dispatching (hended : Ended threads state)
    (hplace : state.place = .dispatching events) :
    Leads threads state fun next =>
      Ended threads next ∧ next.place = .testing ∧ next.pids.Sublist state.pids ∧
        ∀ pid ∈ events, pid ∉ next.pids := by
  induction events generalizing state with
  | nil =>
      have hstep : Step threads state (.goTo .testing) _ :=
        .move (by rw [hplace]; exact .dispatched)
      exact .step hstep rfl (.here ⟨hended.step hstep nofun hended.exited, rfl, .refl _, nofun⟩)
  | cons pid events ih =>
      by_cases hpids : state.pids = []
      · have hstep : Step threads state (.goTo .testing) _ :=
          .move (by rw [hplace]; exact .emptied hpids)
        refine .step hstep rfl (.here ⟨hended.step hstep nofun hended.exited, rfl, .refl _, ?_⟩)
        intro other _
        rw [hpids]
        exact List.not_mem_nil
      by_cases hpid : pid ∈ state.pids
      · have hstep : Step threads state (.goTo (.reaping pid events)) _ :=
          .move (by rw [hplace]; exact .known hpid)
        have hnext := hended.step hstep nofun hended.exited
        refine .step hstep rfl ((leads_of_reaping hnext rfl).trans ?_)
        rintro middle ⟨hmiddle, hdispatching, herased⟩
        refine (ih hmiddle hdispatching).trans ?_
        rintro last ⟨hlast, htesting, hsublist, hgone⟩
        rw [herased] at hsublist
        refine .here ⟨hlast, htesting, hsublist.trans List.erase_sublist, fun other hother => ?_⟩
        rcases List.mem_cons.1 hother with rfl | hrest
        · obtain ⟨lives, htracks⟩ := hended.tracks
          exact fun hmem => htracks.nodup.not_mem_erase (hsublist.subset hmem)
        · exact hgone other hrest
      · have hstep : Step threads state (.goTo (.dispatching events)) _ :=
          .move (by rw [hplace]; exact .unknown hpids hpid)
        refine .step hstep rfl ((ih (hended.step hstep nofun hended.exited) rfl).trans ?_)
        rintro last ⟨hlast, htesting, hsublist, hgone⟩
        refine .here ⟨hlast, htesting, hsublist, fun other hother => ?_⟩
        rcases List.mem_cons.1 hother with rfl | hrest
        · exact fun hmem => hpid (hsublist.subset hmem)
        · exact hgone other hrest

/-- `kevent` reports a child, which is one less to wait for. -/
theorem leads_of_waiting (hended : Ended threads state) (hplace : state.place = .waiting) :
    Leads threads state fun next =>
      Ended threads next ∧ next.place = .testing ∧ next.pids.length < state.pids.length := by
  obtain ⟨pid, hpid⟩ := List.exists_mem_of_ne_nil _ (hended.noted.waiting hplace)
  have hnote : pid ∈ state.notes := by
    have hnoted := hended.noted.noted (by rw [hplace]; rfl) pid hpid (hended.exited pid hpid)
    refine hnoted.resolve_right ?_
    rw [hplace]
    exact List.not_mem_nil
  have hstep : Step threads state (.report [pid]) _ :=
    .report hplace (List.cons_ne_nil _ _) (Nat.le_add_left 1 15) (List.nodup_singleton pid)
      fun other hother => List.mem_singleton.1 hother ▸ hnote
  have hnext := hended.step hstep nofun hended.exited
  refine .step hstep rfl ((leads_of_dispatching hnext rfl).trans ?_)
  rintro last ⟨hlast, htesting, hsublist, hgone⟩
  refine .here ⟨hlast, htesting, hsublist.length_le.lt_of_ne fun hlength => ?_⟩
  have hsame := hsublist.eq_of_length hlength
  exact hgone pid List.mem_cons_self (hsame ▸ hpid)

theorem leads_of_testing (hended : Ended threads state) (hplace : state.place = .testing) :
    Leads threads state fun next => next.place = .returned := by
  induction hlength : state.pids.length using Nat.strong_induction_on generalizing state with
  | _ length ih =>
      by_cases hpids : state.pids = []
      · have hstep : Step threads state (.goTo .returned) _ :=
          .move (by rw [hplace]; exact .ends hpids)
        exact .step hstep rfl (.here rfl)
      · have hstep : Step threads state (.goTo .waiting) _ :=
          .move (by rw [hplace]; exact .loop hpids)
        have hwaiting := hended.step hstep nofun hended.exited
        refine .step hstep rfl ((leads_of_waiting hwaiting rfl).trans ?_)
        rintro next ⟨hnext, htesting, hlt⟩
        exact ih next.pids.length (hlength ▸ hlt) hnext htesting rfl

end Leads

/-- Once all children have ended the runner can come to its end by itself, from wherever it is
in its loop, unless a `waitpid` has failed: the note about no child is lost. -/
theorem runner_returns {threads : ℕ} {actions : List Action} {state : State}
    (hrun : Run (Step threads) start actions state) (hforget : ∀ pid, .forget pid ∉ actions)
    (hplace : state.place.watches = true)
    (hexited : ∀ pid child, state.children pid = some child → child.status ≠ none) :
    Leads threads state fun last => last.place = .returned := by
  have hended := ended_of_run hrun hforget hexited
  have hdispatching {next : State} {events : List ℕ} (hnext : Ended threads next)
      (hplace : next.place = .dispatching events) :
      Leads threads next fun last => last.place = .returned :=
    (leads_of_dispatching hnext hplace).trans fun _ hlast => leads_of_testing hlast.1 hlast.2.1
  cases hkind : state.place with
  | starting | registering | thrown =>
      rw [hkind] at hplace
      exact absurd hplace nofun
  | testing => exact leads_of_testing hended hkind
  | waiting =>
      exact (leads_of_waiting hended hkind).trans fun _ hlast => leads_of_testing hlast.1 hlast.2.1
  | dispatching => exact hdispatching hended hkind
  | reaping =>
      exact (leads_of_reaping hended hkind).trans fun _ hlast => hdispatching hlast.1 hlast.2.1
  | killing =>
      exact (leads_of_killing hended hkind).trans fun _ hlast => hdispatching hlast.1 hlast.2.1
  | returned => exact .here hkind

/-! ## Children that fail -/

/-- The runner waits for its only child, which has ended with status 3. -/
theorem run_oneEnded :
    ∃ actions state, Run (Step 1) start actions state ∧ (∀ pid, .forget pid ∉ actions) ∧
      state.place = .waiting ∧
      ∀ pid child, state.children pid = some child → child.status ≠ none := by
  have hfork : Run (Step 1) start _ _ :=
    Run.nil.snoc (.fork rfl Nat.zero_lt_one (Nat.succ_pos 99) rfl)
  have hstarted := hfork.snoc (.move .started)
  have hregistered := hstarted.snoc (.register rfl)
  have hwaiting := hregistered.snoc (.move (.loop (List.cons_ne_nil _ _)))
  have hended := hwaiting.snoc (.exit (.exited 3) (update_self 100 _ _) rfl)
  refine ⟨_, _, hended, by simp, rfl, fun pid child hchild => ?_⟩
  by_cases hpid : pid = 100
  · subst hpid
    obtain rfl := Option.some.inj hchild
    exact nofun
  · simp [update_of_ne hpid, start] at hchild

/-- The runner comes to its end. -/
theorem runner_returns_one :
    ∃ state, state.place = .waiting ∧ Leads 1 state fun last => last.place = .returned := by
  obtain ⟨actions, state, hrun, hforget, hplace, hexited⟩ := run_oneEnded
  exact ⟨state, hplace, runner_returns hrun hforget (by rw [hplace]; rfl) hexited⟩

theorem run_oneReturned :
    ∃ actions state, Run (Step 1) start actions state ∧ state.place = .returned := by
  obtain ⟨actions, state, hrun, hforget, hplace, hexited⟩ := run_oneEnded
  obtain ⟨more, last, hmore, _, hreturned⟩ :=
    (leads_of_waiting (ended_of_run hrun hforget hexited) hplace).trans
      fun _ hlast => leads_of_testing hlast.1 hlast.2.1
  exact ⟨_, last, hrun.append hmore, hreturned⟩

/-- The only child was waited for. -/
theorem returned_collects_one :
    ∃ actions state status, Run (Step 1) start actions state ∧
      .finish 0 status ∈ history actions ∧ .collect 0 status ∈ history actions := by
  obtain ⟨actions, state, hrun, hreturned⟩ := run_oneReturned
  obtain ⟨status, hboth⟩ := ((returned_collects hrun hreturned).2.1 0).1 Nat.zero_lt_one
  exact ⟨actions, state, status, hrun, hboth⟩

/-- The first of two children fails, and the second one is sent SIGTERM. -/
def secondTerminated : List Action :=
  [.fork 0 100] ++ [.fork 1 101] ++ [.goTo .registering] ++ [.register] ++ [.goTo .waiting] ++
    [.exit 0 (.exited 3)] ++ [.report [100]] ++ [.goTo (.reaping 100 [])] ++
    [.reap 0 (.exited 3)] ++ [.kill 101] ++ [.killed]

theorem run_secondTerminated :
    ∃ state, Run (Step 2) start secondTerminated state ∧ state.raised = true ∧
      state.children 101 = some ⟨1, none⟩ := by
  have hfirst : Run (Step 2) start [.fork 0 100] _ :=
    Run.nil.snoc (.fork rfl Nat.zero_lt_two (Nat.succ_pos 99) rfl)
  have hsecond := hfirst.snoc (show Step 2 _ (.fork 1 101) _ from
    .fork rfl Nat.one_lt_two (Nat.succ_pos 100) rfl)
  have hstarted := hsecond.snoc (.move .started)
  have hregistered := hstarted.snoc (.register rfl)
  have hwaiting := hregistered.snoc (.move (.loop (List.cons_ne_nil _ _)))
  have hended := hwaiting.snoc (@Step.exit 2 _ 100 ⟨0, none⟩ (.exited 3) rfl rfl)
  have hreported := hended.snoc (show Step 2 _ (.report [100]) _ from
    .report rfl (List.cons_ne_nil _ _) (Nat.le_add_left 1 15) (List.nodup_singleton 100)
      (by decide))
  have hknown := hreported.snoc (.move (.known (by decide)))
  have hreaped := hknown.snoc (@Step.reap 2 _ 100 [] ⟨0, some (.exited 3)⟩ (.exited 3) rfl rfl rfl)
  have hkill := hreaped.snoc (show Step 2 _ (.kill 101) _ from .kill rfl)
  exact ⟨_, hkill.snoc (.killed rfl), rfl, rfl⟩

theorem terminated_once_second :
    ∃ state, Run (Step 2) start secondTerminated state ∧ state.raised = true ∧
      (∃ child, state.children 101 = some child) ∧ 101 ∈ kills secondTerminated := by
  obtain ⟨state, hrun, hraised, hchild⟩ := run_secondTerminated
  exact ⟨state, hrun, hraised, ⟨_, hchild⟩, (terminated_once hrun).2.2 hraised 101 _ hchild⟩

end Nstl.MacosRunner
