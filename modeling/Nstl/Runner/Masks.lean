import Nstl.Runner.Lives

/-!
# Signals that the children cannot receive

The runner blocks the signals that it watches before it starts the children.  A child
begins with that mask, and so does the program that is executed in it: what the runner
sends to a child that has not changed its mask stays pending there.
-/

namespace Nstl.MultiRunner

open Function
open Nstl.Transition

/-- The child still runs and has not changed its mask, and the signal that the runner has
sent to it is pending and blocked. -/
structure Child.Holds (child : Child) (signal : Signal) : Prop where
  runs : child.status = none
  unchanged : child.maskChanged = false
  forwarded : signal ∈ forwarded
  sent : signal ∈ child.sent
  blocked : signal ∈ child.mask

/-- A signal is only sent to a child that has ended or has changed its mask. -/
def Heeded (state : State) : Action → Prop
  | .kill pid _ => ∀ child, state.children pid = some child →
      child.status ≠ none ∨ child.maskChanged = true
  | _ => True

/-- The steps that meet the condition. -/
def HeededStep (threads : ℕ) (state : State) (action : Action) (next : State) : Prop :=
  Step threads state action next ∧ Heeded state action

/-! ## The mask of a child -/

/-- A property of every child in the table. -/
def EveryChild (holds : Child → Prop) (children : ℕ → Option Child) : Prop :=
  ∀ pid child, children pid = some child → holds child

section EveryChild

variable {holds : Child → Prop} {children : ℕ → Option Child} {pid : ℕ}

theorem EveryChild.update (hevery : EveryChild holds children) {change : Option Child}
    (hchange : ∀ child, change = some child → holds child) :
    EveryChild holds (Function.update children pid change) := by
  intro other child hchild
  rw [update_apply] at hchild
  split at hchild
  · exact hchange child hchild
  · exact hevery other child hchild

theorem EveryChild.put (hevery : EveryChild holds children) {child : Child}
    (hchild : holds child) : EveryChild holds (Function.update children pid (some child)) :=
  hevery.update fun _ hsome => Option.some.inj hsome ▸ hchild

theorem EveryChild.drop (hevery : EveryChild holds children) :
    EveryChild holds (Function.update children pid none) :=
  hevery.update nofun

theorem EveryChild.map (hevery : EveryChild holds children) {change : Child → Child}
    (hchange : ∀ child, children pid = some child → holds (change child)) :
    EveryChild holds (Function.update children pid ((children pid).map change)) := by
  refine hevery.update fun after hafter => ?_
  obtain ⟨child, hchild, rfl⟩ := Option.map_eq_some_iff.1 hafter
  exact hchange child hchild

end EveryChild

/-- A child that was started blocks what the runner watches, unless it changes that. -/
def Child.Inherits (child : Child) : Prop :=
  child.owner.isSome → child.maskChanged = false → watched ⊆ child.mask

structure Inherited (state : State) : Prop where
  masked : state.place.live = true → watched ⊆ state.mask
  children : EveryChild Child.Inherits state.children
  signal : ∀ reason signal idx events, state.place = .killing reason signal idx events →
    signal ∈ forwarded

section Step

variable {threads : ℕ} {state next : State} {action : Action}

theorem inherits_of_step {child child' : Child} (hinherits : child.Inherits)
    (hstep : child.Step child') : child'.Inherits := by
  cases hstep with
  | setMask => exact fun _ hunchanged => absurd hunchanged nofun
  | handle | receive | take => exact hinherits

theorem Move.killing {place place' : Place} (hmove : Move state place place')
    {reason : Reason} {signal : Signal} {idx : ℕ} {events : List Event}
    (hplace : place' = .killing reason signal idx events) :
    ∃ before, place = .killing reason signal before events := by
  cases hmove with
  | skip =>
      obtain ⟨rfl, rfl, _, rfl⟩ := Place.killing.inj hplace
      exact ⟨_, rfl⟩
  | _ => exact absurd hplace nofun

theorem inherited_start (mask : Finset Signal) : Inherited (start mask) := ⟨nofun, nofun, nofun⟩

theorem Inherited.step (hinherited : Inherited state) (hstep : Step threads state action next) :
    Inherited next := by
  cases hstep with
  | setUp => exact ⟨fun _ => Finset.subset_union_right, hinherited.children, nofun⟩
  | fork hplace =>
      have hmasked := hinherited.masked (by rw [hplace]; rfl)
      exact ⟨fun _ => hmasked, hinherited.children.put fun _ _ => hmasked, nofun⟩
  | @move place hmove =>
      refine ⟨fun hlive => hinherited.masked (hmove.live hlive), hinherited.children, ?_⟩
      intro reason signal idx events hkilling
      obtain ⟨before, hbefore⟩ := hmove.killing hkilling
      exact hinherited.signal reason signal before events hbefore
  | @read signal events hplace hwatched =>
      refine ⟨fun _ => hinherited.masked (by rw [hplace]; rfl), hinherited.children, ?_⟩
      intro reason other idx left hkilling
      by_cases hsignal : signal = sigchld
      · exact absurd ((if_pos hsignal).symm.trans hkilling) nofun
      · obtain ⟨_, rfl, _, _⟩ := Place.killing.inj ((if_neg hsignal).symm.trans hkilling)
        exact (Finset.mem_insert.1 hwatched).resolve_left hsignal
  | @kill reason signal idx pid events hplace =>
      refine ⟨fun _ => hinherited.masked (by rw [hplace]; rfl),
        hinherited.children.map (hinherited.children pid), ?_⟩
      intro _ other _ _ hkilling
      obtain ⟨_, rfl, _, _⟩ := Place.killing.inj hkilling
      exact hinherited.signal _ _ _ _ hplace
  | @killed reason signal idx events hplace =>
      refine ⟨fun _ => hinherited.masked (by rw [hplace]; rfl), hinherited.children, ?_⟩
      cases reason <;> exact nofun
  | @reap pid child status events hplace =>
      have hreaped := reaped_spec pid status events state
      obtain ⟨hchildren, hmask, _⟩ := hreaped.frame
      constructor
      case masked =>
        intro _
        rw [hmask]
        exact hinherited.masked (by rw [hplace]; rfl)
      case children =>
        rw [hchildren]
        exact hinherited.children.drop
      case signal =>
        rcases hreaped.place with hnext | hnext
        · rw [hnext]
          exact hinherited.signal
        · rw [hnext]
          intro _ _ _ _ hkilling
          obtain ⟨_, rfl, _, _⟩ := Place.killing.inj hkilling
          decide
  | arrive => exact ⟨hinherited.masked, hinherited.children, hinherited.signal⟩
  | @exit pid child status hchild =>
      have hended : Child.Inherits _ := hinherited.children pid child hchild
      exact ⟨hinherited.masked, hinherited.children.put hended, hinherited.signal⟩
  | @child pid child child' hchild hstep =>
      have hafter := inherits_of_step (hinherited.children pid child hchild) hstep
      exact ⟨hinherited.masked, hinherited.children.put hafter, hinherited.signal⟩
  | adopt _ _ _ howner =>
      refine ⟨hinherited.masked, hinherited.children.put ?_, hinherited.signal⟩
      rw [Child.Inherits, howner]
      exact nofun

theorem inherited_of_run {mask : Finset Signal} {actions : List Action}
    (hrun : Run (Step threads) (start mask) actions state) : Inherited state :=
  hrun.invariant Inherited (inherited_start mask)
    fun _ _ _ hinherited hstep => hinherited.step hstep

/-! ## What is pending -/

/-- A child that runs with the mask it was given has nothing from the runner. -/
def Child.Unsent (child : Child) : Prop :=
  child.status = none → child.maskChanged = false → child.sent = ∅

theorem unsent_of_step {child child' : Child} (hunsent : child.Unsent)
    (hstep : child.Step child') : child'.Unsent := by
  cases hstep with
  | setMask => exact fun _ hunchanged => absurd hunchanged nofun
  | handle | receive => exact hunsent
  | take =>
      intro hstatus hunchanged
      have hsent := hunsent hstatus hunchanged
      dsimp only
      rw [hsent, Finset.erase_empty]

theorem unsent_step (hunsent : EveryChild Child.Unsent state.children)
    (hstep : HeededStep threads state action next) : EveryChild Child.Unsent next.children := by
  obtain ⟨hstep, hheeded⟩ := hstep
  cases hstep with
  | setUp | move | read | killed | arrive => exact hunsent
  | fork => exact hunsent.put fun _ _ => rfl
  | @kill reason signal idx pid =>
      refine hunsent.map fun child hchild => ?_
      rcases hheeded child hchild with hended | hchanged
      · exact fun hruns => absurd hruns hended
      · exact fun _ hunchanged => absurd (hchanged.symm.trans hunchanged) nofun
  | @reap pid child status events =>
      rw [(reaped_spec pid status events state).frame.1]
      exact hunsent.drop
  | exit => exact hunsent.put nofun
  | @child pid child child' hchild hstep =>
      exact hunsent.put (unsent_of_step (hunsent pid child hchild) hstep)
  | adopt _ _ _ _ _ hsent => exact hunsent.put fun _ _ => hsent

theorem unsent_of_run {mask : Finset Signal} {actions : List Action}
    (hrun : Run (HeededStep threads) (start mask) actions state) :
    EveryChild Child.Unsent state.children :=
  hrun.invariant (fun state => EveryChild Child.Unsent state.children) nofun
    fun _ _ _ hunsent hstep => unsent_step hunsent hstep

/-- What the runner sends is held back exactly by a child that runs and has not changed
its mask. -/
theorem holds_after_kill {mask : Finset Signal} {actions : List Action}
    (hrun : Run (Step threads) (start mask) actions state) {pid : ℕ} {signal : Signal}
    (hkill : Step threads state (.kill pid signal) next) :
    (∃ child, next.children pid = some child ∧ child.Holds signal) ↔
      ¬Heeded state (.kill pid signal) := by
  obtain ⟨lives, _, htracks⟩ := tracks_of_run hrun
  have hinherited := inherited_of_run hrun
  cases hkill with
  | @kill reason _ idx _ events hplace hentry hpid =>
      have hforwarded := hinherited.signal reason signal idx events hplace
      obtain ⟨status, hown⟩ := htracks.ledger.owned idx pid hentry hpid
      obtain ⟨child, hchild, hstarted⟩ := Option.bind_eq_some_iff.1 hown
      obtain ⟨_, howner, _⟩ := Option.map_eq_some_iff.1 hstarted
      have hinherits := hinherited.children pid child hchild (by rw [howner]; rfl)
      have hnext : update state.children pid ((state.children pid).map (Child.kill signal)) pid =
          some (child.kill signal) := by
        rw [update_self, hchild, Option.map_some]
      constructor
      · rintro ⟨after, hafter, hholds⟩ hheeded
        obtain rfl := Option.some.inj (hnext.symm.trans hafter)
        rcases hheeded child hchild with hended | hchanged
        · exact hended hholds.runs
        · exact absurd (hchanged.symm.trans hholds.unchanged) nofun
      · intro hnot
        have hrest : child.status = none ∧ child.maskChanged = false := by
          by_contra hneither
          refine hnot fun other hother => ?_
          obtain rfl := Option.some.inj (hchild.symm.trans hother)
          rwa [not_and_or, Bool.not_eq_false] at hneither
        refine ⟨child.kill signal, hnext, ?_⟩
        exact ⟨hrest.1, hrest.2, hforwarded, Finset.mem_insert_self _ _,
          hinherits hrest.2 (Finset.mem_insert_of_mem hforwarded)⟩

end Step

/-- For every mask that the runner is started with: in every run whose signals go only to
children that have ended or have changed their masks, no child ever holds a signal of the
runner back; and a signal that goes to another child is held back there. -/
theorem signals_received (threads : ℕ) (mask : Finset Signal) :
    (∀ actions state, Run (HeededStep threads) (start mask) actions state →
      ∀ pid child signal, state.children pid = some child → ¬child.Holds signal) ∧
    (∀ actions state next pid signal, Run (Step threads) (start mask) actions state →
      Step threads state (.kill pid signal) next →
        ((∃ child, next.children pid = some child ∧ child.Holds signal) ↔
          ¬Heeded state (.kill pid signal))) := by
  constructor
  · intro actions state hrun pid child signal hchild hholds
    have hsent := unsent_of_run hrun pid child hchild hholds.runs hholds.unchanged
    exact absurd hholds.sent (hsent ▸ Finset.notMem_empty signal)
  · intro actions state next pid signal hrun hkill
    exact holds_after_kill hrun hkill

/-- The only child unblocks everything before SIGINT is passed on to it. -/
theorem signals_received_example :
    ∃ actions state child, Run (HeededStep 1) (start ∅) actions state ∧
      .kill 100 sigint ∈ actions ∧ state.children 100 = some child ∧
      ∀ signal, ¬child.Holds signal := by
  have hstarted : Run (HeededStep 1) (start ∅) _ oneStarted :=
    (run_oneStarted.restrict (fun action => ∀ state, Heeded state action)
      (by simp [Heeded])).mono fun _ _ _ hstep => ⟨hstep.1, hstep.2 _⟩
  have hchild : oneStarted.children 100 = some (.forked 0 (∅ ∪ watched)) := rfl
  have hunblocked := hstarted.snoc ⟨.child hchild (.setMask ∅), trivial⟩
  have harrived := hunblocked.snoc ⟨.arrive (show sigint ∈ oneStarted.mask by decide), trivial⟩
  have hreading := (harrived.snoc ⟨.move (.epollWait (show [.signals] ≠ [] from nofun)
    (by decide) fun _ => ⟨sigint, by decide, by decide⟩), trivial⟩).snoc ⟨.move .signals, trivial⟩
  have hkilling := hreading.snoc
    ⟨.read rfl (show sigint ∈ watched by decide) (by decide), trivial⟩
  have hkilled := hkilling.snoc ⟨.kill rfl rfl (by decide), fun child hchild =>
    .inr (by rw [← Option.some.inj hchild])⟩
  exact ⟨_, _, _, hkilled, by simp, rfl, fun signal =>
    (signals_received 1 ∅).1 _ _ hkilled 100 _ signal rfl⟩

/-- Two children were started, and the runner is about to wait. -/
def twoStarted : State :=
  { oneStarted with
    pids := [100, 101]
    children := update oneStarted.children 101 (some (.forked 1 (∅ ∪ watched))) }

theorem run_twoStarted :
    Run (Step 2) (start ∅)
      [.setUp, .fork 0 100, .fork 1 101, .goTo .registering, .goTo .testing, .goTo .waiting]
      twoStarted := by
  have hstart : Run (Step 2) (start ∅) [] (start ∅) := .nil
  have hforked := (hstart.snoc (.setUp rfl (by decide))).snoc
    (.fork rfl (by decide) (show 0 < 100 by decide) rfl)
  have hboth := hforked.snoc (.fork rfl (by decide) (show 0 < 101 by decide) rfl)
  exact ((hboth.snoc (.move (.started (by decide)))).snoc (.move .registered)).snoc
    (.move (.loop ⟨100, by decide, by decide⟩))

/-- The first of two children fails, and the other one holds the SIGTERM back that it is
sent. -/
theorem sigterm_held_back :
    ∃ actions state child, Run (Step 2) (start ∅) actions state ∧
      state.children 101 = some child ∧ child.Holds sigterm := by
  have hchild : twoStarted.children 100 = some (.forked 0 (∅ ∪ watched)) := rfl
  have hended := run_ended 2 rfl hchild rfl (by decide) (.exited 1)
  have hreaped := (run_twoStarted.append hended).snoc (.reap rfl (update_self 100 _ _) rfl)
  have hkilled := (hreaped.snoc (.move (.skip rfl))).snoc (.kill rfl rfl (by decide))
  refine ⟨_, _, _, hkilled, rfl, ?_⟩
  exact ⟨rfl, rfl, by decide, by decide, by decide⟩

end Nstl.MultiRunner
