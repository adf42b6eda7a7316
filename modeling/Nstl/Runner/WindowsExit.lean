import Nstl.Core.FirstWins
import Nstl.Runner.Windows

/-!
# What the runner on Windows returns

The first child that the loop finds to have failed decides on the exit code, unless a console
event was passed on before.  Either way the children that are left are told to close, once.  More
children than `WaitForMultipleObjects` can take are started, but never waited for.
-/

namespace Nstl.WindowsRunner

open Nstl.FirstWins
open Nstl.Transition

variable {threads : ℕ} {state next : State} {action : Action} {labels : List Action}

/-! ## The exit code -/

/-- A console event is passed on. -/
def closes : Action → Bool
  | .close _ _ => true
  | _ => false

/-- The exit code of a child that is found to have failed; it is 1 where it cannot be read. -/
def failure : Action → Option ExitCode
  | .remove (some code) _ => if code ≠ 0 then some code else none
  | _ => none

/-- What was decided is in the two variables of the loop. -/
structure Decided (state : State) (decided : Option ExitCode) : Prop where
  sendClose : state.sendClose = decided.isNone
  exitCode : state.data.exitCode = decided.getD 0

theorem decided_start : Decided start none := ⟨rfl, rfl⟩

theorem Decided.of_eq {decided : Option ExitCode} (hdecided : Decided state decided)
    (hsend : next.sendClose = state.sendClose)
    (hcode : next.data.exitCode = state.data.exitCode) (hnothing : failure action = none)
    (hnot : closes action = false) :
    Decided next (decided.or (decides closes failure 0 action)) := by
  rw [decides, hnot, if_neg Bool.false_ne_true, hnothing, Option.or_none]
  exact ⟨hsend.trans hdecided.sendClose, hcode.trans hdecided.exitCode⟩

theorem Data.Wf.exitCode_remove {data : Data} (hwf : data.Wf) {idx : ℕ} {removal : Removal}
    {getExitCode : Handle → Option ExitCode}
    (hremove : data.removeIdx getExitCode idx = some removal) :
    removal.data.exitCode = data.exitCode := by
  rcases hwf.removeIdx_cases hremove with ⟨event, _, _, rfl⟩ | hprocess
  · rfl
  · obtain ⟨hpid, htid, tail, _, _, _, rfl⟩ := hprocess
    rfl

theorem Decided.removed {decided : Option ExitCode} {removal : Removal} {targets : List ℕ}
    (hdecided : Decided state decided)
    (hcode : removal.data.exitCode = state.data.exitCode) :
    Decided (state.removed removal)
      (decided.or (decides closes failure 0 (.remove removal.code targets))) := by
  have hsend := hdecided.sendClose
  have hexit := hdecided.exitCode
  cases hremoved : removal.code with
  | none =>
      have hquiet : state.tells none = false := by simp [State.tells]
      refine hdecided.of_eq ?_ ?_ rfl rfl
      · simp [State.removed, hremoved, hquiet]
      · simp [State.removed, hremoved, hquiet, hcode]
  | some code =>
      by_cases hzero : code = 0
      · have hquiet : state.tells (some code) = false := by simp [State.tells, hzero]
        refine hdecided.of_eq ?_ ?_ (by simp [failure, hzero]) rfl
        · simp [State.removed, hremoved, hquiet]
        · simp [State.removed, hremoved, hquiet, hcode]
      · have hvalue : decides closes failure 0 (.remove (some code) targets) = some code := by
          simp [decides, closes, failure, hzero]
        rw [hvalue]
        -- only the first failure finds `send_close_event` set
        cases decided with
        | none =>
            have htells : state.tells (some code) = true := by
              simp [State.tells, hsend, hzero]
            exact ⟨by simp [State.removed, hremoved, htells],
              by simp [State.removed, hremoved, htells]⟩
        | some first =>
            have hquiet : state.tells (some code) = false := by simp [State.tells, hsend]
            exact ⟨by simp [State.removed, hremoved, hsend],
              by simp [State.removed, hremoved, hquiet, hcode, hexit]⟩

theorem Decided.step {decided : Option ExitCode} (hdecided : Decided state decided)
    (hwf : state.data.Wf) (hstep : Step threads state action next) :
    Decided next (decided.or (decides closes failure 0 action)) := by
  cases hstep with
  | remove getExitCode hplace hpids hfound hcode hremove =>
      exact hdecided.removed (hwf.exitCode_remove hremove)
  | close hplace hpids hsize hrunning hsend =>
      have hnone : decided = none :=
        Option.isNone_iff_eq_none.1 (hdecided.sendClose.symm.trans hsend)
      subst hnone
      exact ⟨rfl, hdecided.exitCode⟩
  | move | create | timerThrows | waitForThrows | createEvent | destroy | exit | console | timer
  | terminate | setEvent => exact hdecided.of_eq rfl rfl rfl rfl

theorem decided_of_run (run : Run (Step threads) start labels state) :
    Decided state (verdict closes failure 0 labels) := by
  induction run with
  | nil => exact decided_start
  | snoc before hstep ih =>
      rw [verdict_append]
      exact ih.step (inv_of_run before).owned.wf hstep

/-- The exit code is that of the first child that the loop finds to have failed (1 where its code
cannot be read), and success if it finds none or if a console event is passed on before. -/
theorem exit_code_decided (run : Run (Step threads) start labels state) :
    (InterruptsFirst closes failure labels → state.data.exitCode = 0) ∧
    (¬InterruptsFirst closes failure labels →
      state.data.exitCode = (labels.findSome? failure).getD 0) := by
  have hcode := (decided_of_run run).exitCode
  have hverdict := verdict_eq closes failure (0 : ExitCode) labels
  exact ⟨fun hfirst => by rw [hcode, hverdict.1 hfirst]; rfl,
    fun hnot => by rw [hcode, hverdict.2 hnot]⟩

/-- The child ends with 3 after the console event was passed on. -/
theorem exit_code_decided_interrupted :
    ∃ state, Run (Step 1) start interruptedLabels state ∧
      interruptedLabels.findSome? failure = some 3 ∧ state.data.exitCode = 0 := by
  obtain ⟨state, hrun, _⟩ := run_interruptedLeft
  refine ⟨state, hrun, by decide, (exit_code_decided hrun).1 ?_⟩
  exact ⟨consoleLabels, .close .ctrlC [7], interruptedLabels.drop 4, rfl, rfl, by decide⟩

/-! ## The children that are told to close -/

/-- The process groups that an event is sent to. -/
def targets : Action → List ℕ
  | .remove _ targets | .close _ targets => targets
  | _ => []

def tells (action : Action) : Bool := !(targets action).isEmpty

/-- The child with this handle was created with this process id. -/
def Created (labels : List Action) (handle : Handle) (pid : ℕ) : Prop :=
  ∃ idx, .create idx handle pid ∈ labels

theorem Created.append {handle : Handle} {pid : ℕ} (hcreated : Created labels handle pid)
    (more : List Action) : Created (labels ++ more) handle pid :=
  hcreated.imp fun _ hmem => List.mem_append_left more hmem

/-- `handle_to_pid` has no other process ids than those of the children. -/
def MapsCreated (labels : List Action) (data : Data) : Prop :=
  ∀ handle pid, data.handleToPid handle = some pid → Created labels handle pid

theorem MapsCreated.step (hmaps : MapsCreated labels state.data) (hwf : state.data.Wf)
    (hstep : Step threads state action next) :
    MapsCreated (labels ++ [action]) next.data := by
  intro handle pid hmapped
  cases hstep with
  | @create idx hpid htid created =>
      rcases Data.handleToPid_pushBack hmapped with hbefore | ⟨rfl, rfl⟩
      · exact (hmaps handle pid hbefore).append _
      · exact ⟨idx, List.mem_append_right _ (List.mem_singleton.2 rfl)⟩
  | @remove idx removal getExitCode hplace hpids hfound hcode hremove =>
      obtain ⟨code, hdata⟩ := state.removed_data removal
      rw [hdata] at hmapped
      exact (hmaps handle pid (hwf.handleToPid_remove hremove hmapped)).append _
  | move | close | timerThrows | waitForThrows | createEvent | destroy | exit | console | timer
  | terminate | setEvent => exact (hmaps handle pid hmapped).append _

theorem mapsCreated_of_run (run : Run (Step threads) start labels state) :
    MapsCreated labels state.data := by
  induction run with
  | nil => exact fun _ _ hpid => absurd hpid nofun
  | snoc before hstep ih => exact ih.step (inv_of_run before).owned.wf hstep

/-- A step that tells children tells all that are left, and no later step does so. -/
theorem Step.tells (hstep : Step threads state action next) (hwf : state.data.Wf)
    (htells : tells action = true) :
    state.sendClose = true ∧ next.sendClose = false ∧
      List.Forall₂ (fun handle pid => state.data.handleToPid handle = some pid) next.data.pids
        (targets action) := by
  cases hstep with
  | @remove idx removal getExitCode hplace hpids hfound hcode hremove =>
      cases hnow : state.tells removal.code with
      | false => simp [WindowsRunner.tells, targets, hnow] at htells
      | true =>
          have hsend : state.sendClose = true := by
            rw [State.tells, Bool.and_eq_true] at hnow
            exact hnow.1
          obtain ⟨code, hdata⟩ := state.removed_data removal
          refine ⟨hsend, by simp [State.removed, hnow], ?_⟩
          rw [hdata, targets, if_pos rfl]
          exact (hwf.remove hremove).forall₂_closeTargets.imp
            fun _ _ => hwf.handleToPid_remove hremove
  | close hplace hpids hsize hrunning hsend =>
      exact ⟨hsend, rfl, hwf.forall₂_closeTargets⟩
  | move | create | timerThrows | waitForThrows | createEvent | destroy | exit | console | timer
  | terminate | setEvent => cases htells

theorem Step.sendClose_of_next (hstep : Step threads state action next)
    (hsend : next.sendClose = true) : state.sendClose = true := by
  cases hstep with
  | remove =>
      simp only [State.removed, Bool.and_eq_true] at hsend
      exact hsend.1
  | close => cases hsend
  | move | create | timerThrows | waitForThrows | createEvent | destroy | exit | console | timer
  | terminate | setEvent => exact hsend

/-- A permission that is used up once. -/
theorem countP_tells (run : Run (Step threads) start labels state) :
    labels.countP tells + state.sendClose.toNat ≤ 1 := by
  induction run with
  | nil => exact Nat.le_refl 1
  | @snoc labels before after action run hstep ih =>
      rw [List.countP_append, List.countP_singleton]
      cases htells : tells action with
      | true =>
          obtain ⟨hbefore, hafter, _⟩ := hstep.tells (inv_of_run run).owned.wf htells
          rw [hbefore] at ih
          rw [hafter]
          simpa using ih
      | false =>
          have hle : after.sendClose.toNat ≤ before.sendClose.toNat := by
            cases hafter : after.sendClose with
            | false => exact Nat.zero_le _
            | true => rw [hstep.sendClose_of_next hafter]
          simp only [Bool.false_eq_true, if_false]
          omega

/-- The children are told to close at most once in a run.  The process ids that are told then are
those that the children that are left were created with, one for each. -/
theorem close_sent_once (run : Run (Step threads) start labels state) :
    labels.countP tells ≤ 1 ∧
    ∀ action next, Step threads state action next → tells action = true →
      labels.countP tells = 0 ∧
        List.Forall₂ (Created labels) next.data.pids (targets action) := by
  have hcount := countP_tells run
  refine ⟨by omega, fun action next hstep htells => ?_⟩
  obtain ⟨hsend, _, htold⟩ := hstep.tells (inv_of_run run).owned.wf htells
  rw [hsend, Bool.toNat_true] at hcount
  exact ⟨by omega, htold.imp fun handle pid => mapsCreated_of_run run handle pid⟩

/-- The child is told of the console event. -/
theorem close_sent_once_console :
    ∃ state next, Run (Step 1) start consoleLabels state ∧
      Step 1 state (.close .ctrlC [7]) next ∧ next.data.pids = [0] ∧
      List.Forall₂ (Created consoleLabels) [0] [7] :=
  ⟨_, _, run_console, step_close, rfl, ((close_sent_once run_console).2 _ _ step_close rfl).2⟩

/-! ## More children than can be waited for -/

def creates : Action → Bool
  | .create _ _ _ => true
  | _ => false

def removes : Action → Bool
  | .remove _ _ => true
  | _ => false

/-- As long as nothing was removed, all children that were created are there. -/
structure Limited (labels : List Action) (state : State) : Prop where
  starting : ∀ idx, state.place = .starting idx → labels.countP removes = 0
  all : labels.countP removes = 0 → state.data.pids.length = labels.countP creates
  removed : labels.countP removes ≠ 0 → labels.countP creates ≤ 64
  ended : state.place = .leaving false ∨ state.place = .left false → labels.countP creates ≤ 64

theorem limited_start : Limited [] start where
  starting _ _ := rfl
  all _ := rfl
  removed hremoved := absurd rfl hremoved
  ended _ := Nat.zero_le _

theorem Limited.of_same (hlimited : Limited labels state) (hcreates : creates action = false)
    (hremoves : removes action = false) (hpids : next.data.pids = state.data.pids)
    (hstarting : ∀ idx, next.place = .starting idx → ∃ before, state.place = .starting before)
    (hended : next.place = .leaving false ∨ next.place = .left false →
      state.data.pids = [] ∨ state.place = .leaving false ∨ state.place = .left false) :
    Limited (labels ++ [action]) next := by
  have hcount (chosen : Action → Bool) (hnot : chosen action = false) :
      (labels ++ [action]).countP chosen = labels.countP chosen := by
    simp [List.countP_append, hnot]
  refine ⟨fun idx hplace => ?_, ?_, ?_, fun hplace => ?_⟩
  · obtain ⟨before, hbefore⟩ := hstarting idx hplace
    rw [hcount removes hremoves]
    exact hlimited.starting before hbefore
  · rw [hcount removes hremoves, hcount creates hcreates, hpids]
    exact hlimited.all
  · rw [hcount removes hremoves, hcount creates hcreates]
    exact hlimited.removed
  · rw [hcount creates hcreates]
    rcases hended hplace with hnil | hbefore
    · by_cases hremoved : labels.countP removes = 0
      · have hall := hlimited.all hremoved
        rw [hnil, List.length_nil] at hall
        omega
      · exact hlimited.removed hremoved
    · exact hlimited.ended hbefore

theorem Limited.move {place : Place} (hlimited : Limited labels state)
    (hmove : Move threads state state.place place) :
    Limited (labels ++ [.goTo place]) { state with place := place } := by
  refine hlimited.of_same rfl rfl rfl (fun idx hplace => ?_) (fun hplace => ?_)
  · dsimp only at hplace
    subst hplace
    generalize state.place = before at hmove ⊢
    cases hmove
    exact ⟨_, rfl⟩
  · dsimp only at hplace
    generalize state.place = before at hmove ⊢
    rcases hplace with rfl | rfl
    · cases hmove with
      | ends hpids => exact .inl hpids
    · cases hmove

theorem Limited.step (hlimited : Limited labels state) (hwf : state.data.Wf)
    (hstep : Step threads state action next) : Limited (labels ++ [action]) next := by
  cases hstep with
  | move hmove => exact hlimited.move hmove
  | @create idx hpid htid pid hplace =>
      have hnone := hlimited.starting _ hplace
      have hcount : (labels ++ [Action.create idx hpid pid]).countP removes = 0 := by
        rw [List.countP_append, hnone]
        rfl
      refine ⟨fun _ _ => hcount, fun _ => ?_, fun hremoved => absurd hcount hremoved,
        fun hended => by simp at hended⟩
      rw [List.countP_append, ← hlimited.all hnone]
      simp [Data.pushBack, creates]
  | @remove idx removal getExitCode hplace hpids hfound hcode hremove =>
      have hle : labels.countP creates ≤ 64 := by
        by_cases hremoved : labels.countP removes = 0
        · obtain ⟨tail, hwait, _⟩ := hwf.waitFor_eq_append
          have hsize := hfound.size
          rw [hwait, List.length_append, hlimited.all hremoved] at hsize
          omega
        · exact hlimited.removed hremoved
      have hsame (code : Option ExitCode) (told : List ℕ) :
          (labels ++ [Action.remove code told]).countP creates ≤ 64 := by
        rw [List.countP_append]
        simpa [creates] using hle
      refine ⟨fun idx hother => ?_, fun hremoved => ?_, fun _ => hsame _ _, fun _ => hsame _ _⟩
      · rw [State.removed, hplace] at hother
        cases hother
      · rw [List.countP_append] at hremoved
        simp [removes] at hremoved
  | close | timerThrows | waitForThrows | createEvent =>
      exact hlimited.of_same rfl rfl rfl (fun _ hother => by cases hother)
        (fun hended => by simp at hended)
  | @destroy thrown hplace =>
      refine hlimited.of_same rfl rfl rfl (fun _ hother => by cases hother) (fun hended => ?_)
      simp only [reduceCtorEq, false_or, Place.left.injEq] at hended
      exact .inr (.inl (hended ▸ hplace))
  | exit | console | timer | terminate | setEvent =>
      exact hlimited.of_same rfl rfl rfl (fun idx hother => ⟨idx, hother⟩) .inr

theorem limited_of_run (run : Run (Step threads) start labels state) : Limited labels state := by
  induction run with
  | nil => exact limited_start
  | snoc before hstep ih => exact ih.step (inv_of_run before).owned.wf hstep

/-- With more than 64 children nothing is ever removed, and the runner does not return. -/
theorem children_limited (run : Run (Step threads) start labels state)
    (hchildren : 64 < labels.countP creates) :
    labels.countP removes = 0 ∧ state.place ≠ .left false := by
  have hlimited := limited_of_run run
  constructor
  · by_contra hremoved
    exact absurd (hlimited.removed hremoved) (Nat.not_le_of_lt hchildren)
  · intro hplace
    exact absurd (hlimited.ended (.inr hplace)) (Nat.not_le_of_lt hchildren)

/-- All children can be created. -/
theorem run_created {count : ℕ} (hcount : count ≤ threads) :
    ∃ labels state, Run (Step threads) start labels state ∧ state.place = .starting count ∧
      labels.countP creates = count ∧ ∀ handle : ℕ, handle ∈ state.opened → handle < 2 * count := by
  induction count with
  | zero => exact ⟨[], start, .nil, rfl, rfl, fun _ hmem => absurd hmem List.not_mem_nil⟩
  | succ count ih =>
      obtain ⟨labels, state, hrun, hplace, hcreates, hopened⟩ := ih (Nat.le_of_succ_le hcount)
      have hprocess : 2 * count ∉ state.opened := fun hmem =>
        absurd (hopened _ hmem) (Nat.lt_irrefl _)
      have hthread : 2 * count + 1 ∉ state.opened := fun hmem =>
        absurd (hopened _ hmem) (Nat.not_lt_of_lt (Nat.lt_succ_self _))
      refine ⟨_, _, hrun.snoc (.create 0 hplace hcount hprocess hthread (Nat.ne_of_lt
        (Nat.lt_succ_self _))), rfl, ?_, fun handle hmem => ?_⟩
      · rw [List.countP_append, hcreates]
        rfl
      · simp only [List.mem_append, List.mem_cons, List.not_mem_nil, or_false] at hmem
        rcases hmem with hmem | rfl | rfl
        · have hlt := hopened _ hmem
          omega
        · omega
        · omega

theorem children_limited_65 :
    ∃ labels state, Run (Step 65) start labels state ∧ 64 < labels.countP creates ∧
      labels.countP removes = 0 := by
  obtain ⟨labels, state, hrun, _, hcreates, _⟩ := run_created (Nat.le_refl 65)
  have hchildren : 64 < labels.countP creates := by
    rw [hcreates]
    decide
  exact ⟨labels, state, hrun, hchildren, (children_limited hrun hchildren).1⟩

end Nstl.WindowsRunner
