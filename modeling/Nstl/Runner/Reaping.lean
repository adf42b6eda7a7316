import Nstl.Runner.Lives

/-!
# No child that has ended is overlooked

One SIGCHLD can stand for any number of children.  It does not matter how many there
are, because the runner waits for children until there is none left to wait for, and one
that ends after that is announced anew.
-/

namespace Nstl.MultiRunner

open Function
open Nstl.Lifecycle
open Nstl.Transition

/-- The runner relies on SIGCHLD for the children that have ended. -/
def Place.attends : Place → Bool
  | .masking | .thrown | .terminated | .reaping _ | .killing .failure .. => false
  | .starting _ | .registering | .testing | .waiting | .dispatching _ | .reading _
  | .killing .forward .. | .piping .. | .flushing _ | .returned => true

theorem live_of_attends {place : Place} (hplace : place.attends = true) : place.live = true := by
  cases place with
  | masking | thrown | terminated => exact absurd hplace nofun
  | _ => rfl

structure Announced (state : State) : Prop where
  masked : state.place.live = true → sigchld ∈ state.mask
  childless : state.place = .masking → ∀ pid, state.children pid = none
  zombies : state.place.attends = true → ∀ pid, state.Zombie pid → sigchld ∈ state.pending
  valid : state.place = .waiting → ∃ pid ∈ state.pids, 0 < pid

theorem announced_start (mask : Finset Signal) : Announced (start mask) where
  masked := nofun
  childless _ _ := rfl
  zombies := nofun
  valid := nofun

section Step

variable {threads : ℕ} {state next : State} {action : Action} {place place' : Place} {pid : ℕ}
  {child : Child}

/-- The runner begins to rely on SIGCHLD when there is no child to wait for. -/
theorem Move.attends (hmove : Move state place place') (hattends : place'.attends = true) :
    place.attends = true ∨ ∀ pid, ¬state.Zombie pid := by
  cases hmove with
  | throws | terminate | waitInterrupted => exact absurd hattends nofun
  | noneWaitable hnone => exact .inr hnone
  | @skip reason => cases reason with
    | forward => exact .inl rfl
    | failure => exact absurd hattends nofun
  | _ => exact .inl rfl

theorem Move.valid (hmove : Move state place place') (hwaiting : place' = .waiting) :
    ∃ pid ∈ state.pids, 0 < pid := by
  subst hwaiting
  cases hmove with
  | loop hvalid => exact hvalid

theorem status_of_step {child' : Child} (hstep : child.Step child') :
    child'.status = child.status := by
  cases hstep <;> rfl

/-- Only the child that a step is about can have ended by it. -/
theorem zombie_of_update {change : Option Child}
    (hchildren : next.children = update state.children pid change)
    (hchange : ∀ child, change = some child → child.status.isSome → state.Zombie pid) (other : ℕ)
    (hzombie : next.Zombie other) : state.Zombie other := by
  obtain ⟨ended, hended, hstatus⟩ := hzombie
  rw [hchildren] at hended
  by_cases hother : other = pid
  · subst hother
    rw [update_self] at hended
    exact hchange ended hended hstatus
  · rw [update_of_ne hother] at hended
    exact ⟨ended, hended, hstatus⟩

/-- A step that lets no child end and loses no SIGCHLD. -/
theorem Announced.keep (hannounced : Announced state) (hmask : next.mask = state.mask)
    (hchildless : next.place = .masking → ∀ pid, next.children pid = none)
    (hlive : next.place.live = true → state.place.live = true)
    (hattends : next.place.attends = true → state.place.attends = true)
    (hzombies : ∀ pid, next.Zombie pid → state.Zombie pid)
    (hpending : sigchld ∈ state.pending → sigchld ∈ next.pending)
    (hvalid : next.place = .waiting → ∃ pid ∈ next.pids, 0 < pid) : Announced next where
  masked hnext := hmask ▸ hannounced.masked (hlive hnext)
  childless := hchildless
  zombies hnext pid hzombie :=
    hpending (hannounced.zombies (hattends hnext) pid (hzombies pid hzombie))
  valid := hvalid

/-- The same for a step of the runner itself, which does not begin to wait by it. -/
theorem Announced.at_work (hannounced : Announced state) (hmask : next.mask = state.mask)
    (hlive : next.place.live = true) (hbefore : state.place.live = true)
    (hattends : next.place.attends = true → state.place.attends = true)
    (hzombies : ∀ pid, next.Zombie pid → state.Zombie pid)
    (hpending : sigchld ∈ state.pending → sigchld ∈ next.pending)
    (hwaiting : next.place ≠ .waiting) : Announced next := by
  refine hannounced.keep hmask ?_ (fun _ => hbefore) hattends hzombies hpending ?_
  · intro hmasking
    rw [hmasking] at hlive
    cases hlive
  · exact fun hnext => absurd hnext hwaiting

/-- A step of others, at a time when there is a child. -/
theorem Announced.others (hannounced : Announced state) (hmask : next.mask = state.mask)
    (hplace : next.place = state.place) (hpids : next.pids = state.pids)
    (hup : state.place ≠ .masking) (hzombies : ∀ pid, next.Zombie pid → state.Zombie pid)
    (hpending : sigchld ∈ state.pending → sigchld ∈ next.pending) : Announced next := by
  refine hannounced.keep hmask ?_ ?_ ?_ hzombies hpending ?_
  · rw [hplace]
    exact fun hmasking => absurd hmasking hup
  · rw [hplace]
    exact id
  · rw [hplace]
    exact id
  · rw [hplace, hpids]
    exact hannounced.valid

theorem Announced.not_masking (hannounced : Announced state)
    (hchild : state.children pid = some child) : state.place ≠ .masking := by
  intro hmasking
  rw [hannounced.childless hmasking pid] at hchild
  exact absurd hchild nofun

theorem Announced.setUp (hannounced : Announced state) (hplace : state.place = .masking) :
    Announced
      { state with
        mask := state.mask ∪ watched
        pids := List.replicate threads 0
        place := .starting 0 } where
  masked _ := Finset.mem_union_right _ (by decide)
  childless := nofun
  zombies := by
    rintro _ pid ⟨child, hchild, _⟩
    exact absurd hplace (hannounced.not_masking hchild)
  valid := nofun

/-- While the children are waited for, nothing is asked of the pending signals. -/
theorem Announced.of_unattended (hmask : sigchld ∈ next.mask) (hlive : next.place.live = true)
    (hattends : next.place.attends = false) : Announced next where
  masked _ := hmask
  childless hmasking := by
    rw [hmasking] at hlive
    cases hlive
  zombies hnext := by
    rw [hattends] at hnext
    cases hnext
  valid hwaiting := by
    rw [hwaiting] at hattends
    cases hattends

/-- A signal is taken from the pending ones. -/
theorem Announced.read (hannounced : Announced state) {signal : Signal} {events : List Event}
    (hplace : state.place = .reading events) :
    Announced
      { state with
        pending := state.pending.erase signal
        place := afterRead signal events } := by
  have hlive : state.place.live = true := by rw [hplace]; rfl
  have hattends : state.place.attends = true := by rw [hplace]; rfl
  rw [afterRead]
  by_cases hsignal : signal = sigchld
  · rw [if_pos hsignal]
    exact .of_unattended (hannounced.masked hlive) rfl rfl
  · rw [if_neg hsignal]
    refine hannounced.at_work rfl rfl hlive (fun _ => hattends) (fun _ => id) ?_ (by simp)
    exact Finset.mem_erase_of_ne_of_mem (Ne.symm hsignal)

/-- A child is waited for. -/
theorem Announced.reap (hannounced : Announced state) {events : List Event} {status : Status}
    (hplace : state.place = .reaping events) (hreaped : Reaped state pid status events next) :
    Announced next := by
  have hmasked : sigchld ∈ next.mask := by
    rw [hreaped.frame.2.1]
    exact hannounced.masked (by rw [hplace]; rfl)
  rcases hreaped.place with hnext | hnext
  · rw [hplace] at hnext
    exact .of_unattended hmasked (by rw [hnext]; rfl) (by rw [hnext]; rfl)
  · exact .of_unattended hmasked (by rw [hnext]; rfl) (by rw [hnext]; rfl)

/-- A child ends, and its SIGCHLD becomes pending. -/
theorem Announced.exit (hannounced : Announced state) (hchild : state.children pid = some child)
    (hmask : next.mask = state.mask) (hplace : next.place = state.place)
    (hpids : next.pids = state.pids)
    (hpending : sigchld ∈ state.mask → sigchld ∈ next.pending) : Announced next := by
  constructor
  case masked =>
    rw [hmask, hplace]
    exact hannounced.masked
  case childless =>
    rw [hplace]
    exact fun hmasking => absurd hmasking (hannounced.not_masking hchild)
  case zombies =>
    rw [hplace]
    exact fun hattends _ _ => hpending (hannounced.masked (live_of_attends hattends))
  case valid =>
    rw [hplace, hpids]
    exact hannounced.valid

theorem Announced.step (hannounced : Announced state) (hstep : Step threads state action next) :
    Announced next := by
  cases hstep with
  | setUp hplace => exact hannounced.setUp hplace
  | @fork idx pid hplace hidx hpid hfree =>
      refine hannounced.at_work rfl rfl (by rw [hplace]; rfl) (fun _ => by rw [hplace]; rfl)
        (zombie_of_update rfl fun child hchild hstatus => ?_) id (by simp)
      rw [← Option.some.inj hchild] at hstatus
      cases hstatus
  | @move place hmove =>
      refine ⟨fun hlive => hannounced.masked (hmove.live hlive), ?_, ?_, ?_⟩
      · exact fun hmasking => absurd hmasking hmove.not_starting.1
      · intro hattends pid hzombie
        rcases hmove.attends hattends with hbefore | hnone
        · exact hannounced.zombies hbefore pid hzombie
        · exact absurd hzombie (hnone pid)
      · exact hmove.valid
  | read hplace => exact hannounced.read hplace
  | @kill reason signal idx pid events hplace hentry hpid =>
      refine hannounced.at_work rfl rfl (by rw [hplace]; rfl) ?_ ?_ id (by simp)
      · rw [hplace]
        cases reason <;> exact id
      · refine zombie_of_update rfl fun after hafter hstatus => ?_
        obtain ⟨child, hchild, rfl⟩ := Option.map_eq_some_iff.1 hafter
        exact ⟨child, hchild, hstatus⟩
  | @killed reason signal idx events hplace hidx =>
      cases reason with
      | forward =>
          exact hannounced.at_work rfl rfl (by rw [hplace]; rfl) (fun _ => by rw [hplace]; rfl)
            (fun _ => id) id (by simp [Reason.next])
      | failure => exact .of_unattended (hannounced.masked (by rw [hplace]; rfl)) rfl rfl
  | reap hplace => exact hannounced.reap hplace (reaped_spec _ _ _ _)
  | arrive =>
      exact hannounced.keep rfl hannounced.childless id id (fun _ => id)
        (Finset.mem_insert_of_mem) hannounced.valid
  | exit status hchild =>
      refine hannounced.exit hchild rfl rfl rfl fun hmask => ?_
      rw [if_pos hmask]
      exact Finset.mem_insert_self _ _
  | @child pid child child' hchild hstep =>
      refine hannounced.others rfl rfl rfl (hannounced.not_masking hchild)
        (zombie_of_update rfl ?_) id
      intro after hafter hstatus
      obtain rfl := Option.some.inj hafter
      exact ⟨child, hchild, status_of_step hstep ▸ hstatus⟩
  | adopt hplace _ _ _ hstatus =>
      refine hannounced.others rfl rfl rfl hplace (zombie_of_update rfl ?_) id
      intro child hchild hended
      rw [← Option.some.inj hchild, hstatus] at hended
      exact absurd hended nofun

theorem announced_of_run {mask : Finset Signal} {actions : List Action}
    (hrun : Run (Step threads) (start mask) actions state) : Announced state :=
  hrun.invariant Announced (announced_start mask)
    fun _ _ _ hannounced hstep => hannounced.step hstep

theorem zombie_of_own {idx : ℕ} {status : Status}
    (hown : own state.children pid = some (idx, some status)) : state.Zombie pid := by
  obtain ⟨child, hchild, hstarted⟩ := Option.bind_eq_some_iff.1 hown
  obtain ⟨_, _, hpair⟩ := Option.map_eq_some_iff.1 hstarted
  exact ⟨child, hchild, by rw [(Prod.mk.inj hpair).2]; rfl⟩

/-- A child that has ended and is still in its entry can be waited for. -/
theorem Tracks.zombie_of_finished {lives : ℕ → Life Status} (htracks : Tracks state lives)
    {idx : ℕ} (hentry : state.pids[idx]? = some pid) (hpid : 0 < pid) {status : Status}
    (hfinished : lives idx = .ended status ∨ lives idx = .collected status) :
    state.Zombie pid := by
  obtain ⟨ending, hown⟩ := htracks.ledger.owned idx pid hentry hpid
  have hlife := (htracks.ledger.child pid idx ending hown).2
  cases ending with
  | some => exact zombie_of_own hown
  | none =>
      rw [hlife] at hfinished
      rcases hfinished with hended | hcollected
      · exact absurd hended nofun
      · exact absurd hcollected nofun

/-- In every run, at every moment: an entry has a pid exactly if its child was started and
not waited for, and no child was waited for twice.  When the runner is about to wait with
nothing to read from the `signalfd`, no child has ended; so when all children have ended
that were started, `epoll_wait` returns. -/
theorem children_never_lost {mask : Finset Signal} {actions : List Action}
    (hrun : Run (Step threads) (start mask) actions state) :
    (∀ idx pid, state.pids[idx]? = some pid →
      (0 < pid ↔ .start idx ∈ history actions ∧
        ∀ status, .collect idx status ∉ history actions)) ∧
    ((history actions).filterMap Event.collected).Nodup ∧
    (state.place = .waiting → ¬state.Readable → ∀ pid, ¬state.Zombie pid) ∧
    (state.place = .waiting →
      (∀ idx, .start idx ∈ history actions → ∃ status, .finish idx status ∈ history actions) →
        ∃ next, Step threads state (.goTo (.dispatching [.signals])) next) := by
  obtain ⟨lives, hlives, htracks⟩ := tracks_of_run hrun
  have hannounced := announced_of_run hrun
  refine ⟨?_, nodup_collected hlives, ?_, ?_⟩
  · intro idx pid hentry
    rw [htracks.ledger.entry idx pid hentry, start_mem_iff hlives]
    have hcollect (status : Status) := collect_mem_iff hlives idx status
    cases hlife : lives idx <;> grind [Life.active]
  · intro hplace hsilent pid hzombie
    have hpending := hannounced.zombies (by rw [hplace]; rfl) pid hzombie
    exact hsilent ⟨sigchld, by decide, hpending⟩
  · intro hplace hended
    obtain ⟨pid, hmem, hpid⟩ := hannounced.valid hplace
    obtain ⟨idx, hlt, heq⟩ := List.getElem_of_mem hmem
    have hentry : state.pids[idx]? = some pid := List.getElem?_eq_some_iff.2 ⟨hlt, heq⟩
    have hactive := (htracks.ledger.entry idx pid hentry).1 hpid
    have hstarted : lives idx ≠ .unborn := by
      intro hunborn
      rw [hunborn] at hactive
      cases hactive
    obtain ⟨status, hfinish⟩ := hended idx ((start_mem_iff hlives idx).2 hstarted)
    have hzombie := htracks.zombie_of_finished hentry hpid
      ((finish_mem_iff hlives idx status).1 hfinish)
    have hpending := hannounced.zombies (by rw [hplace]; rfl) pid hzombie
    refine ⟨_, .move ?_⟩
    rw [hplace]
    exact .epollWait (List.cons_ne_nil _ _) (by decide) fun _ => ⟨sigchld, by decide, hpending⟩

end Step

/-- The only child ends while the runner waits. -/
theorem children_never_lost_example :
    ∃ state next, Run (Step 1) (start ∅)
        [.setUp, .fork 0 100, .goTo .registering, .goTo .testing, .goTo .waiting,
          .exit (some 0) (.exited 3)] state ∧
      Step 1 state (.goTo (.dispatching [.signals])) next := by
  have hchild : oneStarted.children 100 = some (.forked 0 (∅ ∪ watched)) := rfl
  have hexit : Step 1 oneStarted (.exit (some 0) (.exited 3)) _ := .exit (.exited 3) hchild rfl
  have hrun := run_oneStarted.snoc hexit
  obtain ⟨next, hnext⟩ := (children_never_lost hrun).2.2.2 rfl (by simp [history, Action.event])
  exact ⟨_, next, hrun, hnext⟩

end Nstl.MultiRunner
