import Mathlib.Data.List.Nodup
import Nstl.Core.Program
import Nstl.Core.Transition
import Nstl.Log.Ostream

/-!
# The stack of loggers

A `Logger` owns a sink and puts it on a global stack; the global log function and
the global level follow the top of the stack, and a flag says whether a console
logger is active.  Loggers come and go in any order.

A constructor can fail in four places: while it makes the sink, because a console
logger is active, when the stack grows, and when the log function is replaced.
-/

namespace Nstl.LogStack

open Nstl.OstreamLog
open Nstl.Programs
open Nstl.Programs.Program
open Nstl.Transition

/-- What a `Logger` is built from. -/
inductive Kind where
  | console
  | file
  | ostream
  deriving DecidableEq, Repr

/-- A sink; its number stands for its identity. -/
structure Sink where
  id : ℕ
  level : Level
  isCoutLogger : Bool
  deriving DecidableEq, Repr

structure LoggerState where
  /-- `_items` of the stack, the top at the end. -/
  items : List Sink
  /-- The sink that the log function refers to, if it was ever set. -/
  functor : Option ℕ
  currentLevel : Level
  activeCoutLogger : Bool
  /-- `_log` of every `Logger`, in the order of their construction. -/
  loggers : List (Option Sink)
  /-- The number of the next sink. -/
  nextSink : ℕ

def LoggerState.initial : LoggerState := ⟨[], none, .info, false, [], 0⟩

inductive LogError where
  | nullSink
  | sinkFailed
  | coutActive
  | badAlloc
  deriving DecidableEq, Repr

/-- Where an allocation or the creation of a sink fails. -/
inductive Failure where
  | sink
  | emplaceBack
  | functor
  deriving DecidableEq, Repr

abbrev LogProgram := Program LoggerState LogError

/-- `_set_functor`; replacing the log function allocates. -/
def setFunctor (fails : Bool) : LogProgram Bool := do
  let top ← read (·.items.getLast?)
  match top with
  | none => return false
  | some sink =>
      if fails then raise .badAlloc
      else do
        modify fun state => { state with functor := some sink.id, currentLevel := sink.level }
        return true

def pushBack (sink : Sink) (failure : Option Failure) : LogProgram Bool :=
  if failure = some .emplaceBack then raise .badAlloc
  else do
    modify fun state => { state with items := state.items ++ [sink] }
    setFunctor (failure = some .functor)

def erase (sink : Sink) (fails : Bool) : LogProgram Bool := do
  let top ← read (·.items.getLast?)
  if top.map Sink.id = some sink.id then do
    modify fun state => { state with items := state.items.dropLast }
    setFunctor fails
  else do
    modify fun state =>
      { state with items := state.items.filter fun item => item.id ≠ sink.id }
    return false

/-- `is_cout_logger() && active_cout_logger.exchange(true)`. -/
def exchangeCout (sink : Sink) : LogProgram Bool :=
  if sink.isCoutLogger then do
    let active ← read (·.activeCoutLogger)
    modify fun state => { state with activeCoutLogger := true }
    return active
  else return false

/-- The constructor that takes a sink. -/
def constructWith (sink : Sink) (failure : Option Failure) : LogProgram Unit := do
  let refused ← exchangeCout sink
  if refused then raise .coutActive
  else do
    let _ ← pushBack sink failure
    modify fun state => { state with loggers := state.loggers ++ [some sink] }

/-- The public constructor from a pointer to a sink. -/
def constructFrom (log : Option Sink) (failure : Option Failure) : LogProgram Unit :=
  match log with
  | none => raise .nullSink
  | some sink => constructWith sink failure

/-- The other public constructors make a fresh sink first. -/
def construct (kind : Kind) (level : Level) (failure : Option Failure) : LogProgram Unit :=
  if failure = some .sink then raise .sinkFailed
  else do
    let id ← read (·.nextSink)
    modify fun state => { state with nextSink := state.nextSink + 1 }
    constructWith ⟨id, level, kind = .console⟩ failure

/-- The flag is cleared for a console logger. -/
def clearCout (sink : Sink) : LogProgram Unit :=
  modify fun state => { state with
    activeCoutLogger := if sink.isCoutLogger then false else state.activeCoutLogger }

/-- `reset`, which the destructor calls too. -/
def reset (index : ℕ) (fails : Bool) : LogProgram Unit := do
  let log ← read fun state => state.loggers.getD index none
  modify fun state => { state with loggers := state.loggers.set index none }
  match log with
  | none => return ()
  | some sink => do
      clearCout sink
      let _ ← erase sink fails
      return ()

/-! ## Programs that use loggers -/

inductive Action where
  | construct (kind : Kind) (level : Level) (failure : Option Failure)
  | reset (index : ℕ) (fails : Bool)
  | destroy (index : ℕ)
  deriving DecidableEq, Repr

/-- A destructor that throws ends the program, so that case is left out. -/
def perform : Action → LogProgram Unit
  | .construct kind level failure => construct kind level failure
  | .reset index fails => reset index fails
  | .destroy index => reset index false

def Step (state : LoggerState) (action : Action) (after : LoggerState) : Prop :=
  (perform action state).EndsIn after

/-! ## Consistency -/

/-- The sinks of loggers that have one. -/
def liveSinks (loggers : List (Option Sink)) : List Sink :=
  loggers.filterMap fun log => log

/-- The sinks of the live loggers, in the order of construction. -/
def LoggerState.live (state : LoggerState) : List Sink := liveSinks state.loggers

structure Consistent (state : LoggerState) : Prop where
  items_eq : state.items = state.live
  delivers : ∀ sink, state.items.getLast? = some sink →
    state.functor = some sink.id ∧ state.currentLevel = sink.level
  console_iff : state.activeCoutLogger = true ↔ ∃ sink ∈ state.live, sink.isCoutLogger = true
  console_unique : (state.live.filter Sink.isCoutLogger).length ≤ 1

/-- Sinks have numbers of their own. -/
structure Numbered (state : LoggerState) : Prop where
  lt_next : ∀ sink ∈ state.live, sink.id < state.nextSink
  nodup : (state.live.map Sink.id).Nodup

/-- The step does not reach an allocation that fails at a place where the code
does not take back what it has done: behind the exchange of the console flag,
behind the growth of the stack, or behind the removal from it. -/
def Safe (state : LoggerState) : Action → Prop
  | .construct kind _ (some .emplaceBack) => kind = .console → state.activeCoutLogger = true
  | .construct kind _ (some .functor) => kind = .console ∧ state.activeCoutLogger = true
  | .reset index true => ∀ sink, state.loggers.getD index none = some sink →
      state.items.getLast? = some sink → state.items.dropLast = []
  | _ => True

def SafeStep (state : LoggerState) (action : Action) (after : LoggerState) : Prop :=
  Safe state action ∧ Step state action after

/-! ## Steps -/

theorem consistent_initial : Consistent LoggerState.initial where
  items_eq := rfl
  delivers := by simp [LoggerState.initial]
  console_iff := by simp [LoggerState.initial, LoggerState.live, liveSinks]
  console_unique := by simp [LoggerState.initial, LoggerState.live, liveSinks]

theorem numbered_initial : Numbered LoggerState.initial where
  lt_next := by simp [LoggerState.initial, LoggerState.live, liveSinks]
  nodup := by simp [LoggerState.initial, LoggerState.live, liveSinks]

theorem liveSinks_append (loggers : List (Option Sink)) (sink : Sink) :
    liveSinks (loggers ++ [some sink]) = liveSinks loggers ++ [sink] := by
  simp [liveSinks]

/-- A logger that joins the others, with the log function and the level set to its
sink. -/
theorem consistent_append {state : LoggerState} {sink : Sink}
    (hconsistent : Consistent state)
    (hconsole : sink.isCoutLogger = true → state.activeCoutLogger = false) :
    Consistent
      { state with
        items := state.items ++ [sink]
        functor := some sink.id
        currentLevel := sink.level
        activeCoutLogger := state.activeCoutLogger || sink.isCoutLogger
        loggers := state.loggers ++ [some sink] } := by
  refine ⟨?_, ?_, ?_, ?_⟩
  · rw [LoggerState.live, liveSinks_append, hconsistent.items_eq, LoggerState.live]
  · intro top htop
    obtain rfl : sink = top := by simpa using htop
    exact ⟨rfl, rfl⟩
  · rw [LoggerState.live, liveSinks_append, ← LoggerState.live]
    simp only [Bool.or_eq_true, hconsistent.console_iff, List.mem_append,
      List.mem_singleton, or_and_right, exists_or, exists_eq_left]
  · rw [LoggerState.live, liveSinks_append, ← LoggerState.live, List.filter_append,
      List.length_append]
    cases hkind : sink.isCoutLogger with
    | false => simpa [hkind] using hconsistent.console_unique
    | true =>
        have hnone : state.live.filter Sink.isCoutLogger = [] := by
          rw [List.filter_eq_nil_iff]
          intro other hother hcout
          have hactive := hconsistent.console_iff.2 ⟨other, hother, hcout⟩
          rw [hconsole hkind] at hactive
          exact absurd hactive (by simp)
        simp [hnone, hkind]

theorem numbered_append {state : LoggerState} {sink : Sink} (hnumbered : Numbered state)
    (hid : sink.id = state.nextSink) (items : List Sink) (functor : Option ℕ)
    (level : Level) (active : Bool) :
    Numbered ⟨items, functor, level, active, state.loggers ++ [some sink],
      state.nextSink + 1⟩ := by
  refine ⟨?_, ?_⟩
  · intro other hother
    rw [LoggerState.live, liveSinks_append, List.mem_append, List.mem_singleton] at hother
    rcases hother with hold | rfl
    · exact Nat.lt_succ_of_lt (hnumbered.lt_next other hold)
    · exact hid ▸ Nat.lt_succ_self _
  · rw [LoggerState.live, liveSinks_append, List.map_append, List.map_singleton]
    refine List.Nodup.append hnumbered.nodup (List.nodup_singleton _) ?_
    intro id hmem hself
    obtain ⟨other, hother, rfl⟩ := List.mem_map.1 hmem
    have hlt := hnumbered.lt_next other hother
    rw [List.mem_singleton.1 hself, hid] at hlt
    exact Nat.lt_irrefl _ hlt

/-- What the proofs about steps carry along. -/
def Good (state : LoggerState) : Prop := Consistent state ∧ Numbered state

theorem good_nextSink {state : LoggerState} (hgood : Good state) :
    Good { state with nextSink := state.nextSink + 1 } :=
  ⟨⟨hgood.1.items_eq, hgood.1.delivers, hgood.1.console_iff, hgood.1.console_unique⟩,
    fun sink hsink => Nat.lt_succ_of_lt (hgood.2.lt_next sink hsink), hgood.2.nodup⟩

/-- The log function and the level follow the top of the stack. -/
def LoggerState.follow (state : LoggerState) : LoggerState :=
  match state.items.getLast? with
  | none => state
  | some sink => { state with functor := some sink.id, currentLevel := sink.level }

/-- Nothing else changes. -/
theorem follow_unchanged (state : LoggerState) :
    state.follow.items = state.items ∧ state.follow.loggers = state.loggers ∧
      state.follow.activeCoutLogger = state.activeCoutLogger ∧
      state.follow.nextSink = state.nextSink := by
  rw [LoggerState.follow]
  cases state.items.getLast? with
  | none => exact ⟨rfl, rfl, rfl, rfl⟩
  | some top => exact ⟨rfl, rfl, rfl, rfl⟩

theorem follow_delivers {state : LoggerState} {top : Sink}
    (htop : state.items.getLast? = some top) :
    state.follow.functor = some top.id ∧ state.follow.currentLevel = top.level := by
  rw [LoggerState.follow, htop]
  exact ⟨rfl, rfl⟩

theorem setFunctor_meets (fails : Bool) (state : LoggerState) :
    Meets (setFunctor fails) state (fun _ after => after = state.follow)
      (fun _ after => fails = true ∧ state.items ≠ [] ∧ after = state) := by
  rw [setFunctor, meets_bind_read, LoggerState.follow]
  cases htop : state.items.getLast? with
  | none => rfl
  | some top =>
      cases fails with
      | true =>
          refine ⟨rfl, ?_, rfl⟩
          intro hempty
          simp [hempty] at htop
      | false => rfl

theorem pushBack_meets (sink : Sink) (failure : Option Failure) (state : LoggerState) :
    Meets (pushBack sink failure) state
      (fun _ after => after = { state with
        items := state.items ++ [sink], functor := some sink.id, currentLevel := sink.level })
      (fun _ after => failure = some .emplaceBack ∧ after = state ∨
        failure = some .functor) := by
  rw [pushBack]
  by_cases hgrow : failure = some .emplaceBack
  · rw [if_pos hgrow]
    exact Or.inl ⟨hgrow, rfl⟩
  rw [if_neg hgrow, meets_bind_modify]
  apply (setFunctor_meets _ _).mono
  · rintro _ after rfl
    simp [LoggerState.follow]
  · rintro _ after ⟨hfails, _, _⟩
    exact Or.inr (by simpa using hfails)

theorem exchangeCout_meets (sink : Sink) (state : LoggerState) :
    Meets (exchangeCout sink) state
      (fun refused after => refused = (sink.isCoutLogger && state.activeCoutLogger) ∧
        after = { state with
          activeCoutLogger := state.activeCoutLogger || sink.isCoutLogger })
      (fun _ _ => False) := by
  rw [exchangeCout]
  cases sink.isCoutLogger with
  | true => simp
  | false => simp

theorem construct_meets {state : LoggerState} (hgood : Good state) (kind : Kind)
    (level : Level) (failure : Option Failure)
    (hsafe : Safe state (.construct kind level failure)) :
    Meets (construct kind level failure) state (fun _ => Good) (fun _ => Good) := by
  rw [construct]
  by_cases hsink : failure = some .sink
  · rw [if_pos hsink]
    exact hgood
  have hnext := good_nextSink hgood
  rw [if_neg hsink, meets_bind_read, meets_bind_modify]
  apply (exchangeCout_meets _ _).noThrow.bind
  rintro refused after ⟨hrefused, rfl⟩
  cases refused with
  | true =>
      have hactive : state.activeCoutLogger = true := by
        simp only [Bool.true_eq, Bool.and_eq_true] at hrefused
        exact hrefused.2
      simpa [hactive] using hnext
  | false =>
      have hfree : kind = .console → state.activeCoutLogger = false := by
        intro hkind
        simpa [hkind] using hrefused
      apply (pushBack_meets _ failure _).bindWith
      · intro _ after hafter
        rw [hafter]
        refine ⟨consistent_append hnext.1 ?_, numbered_append hgood.2 rfl _ _ _ _⟩
        simpa using hfree
      -- the failures that `Safe` allows here come before anything has changed
      · rintro _ after (⟨rfl, rfl⟩ | rfl)
        · by_cases hkind : kind = .console
          · exact absurd (hsafe hkind) (by simp [hfree hkind])
          · simpa [hkind] using hnext
        · exact absurd hsafe.2 (by simp [hfree hsafe.1])

/-! ## Resetting a logger -/

/-- A logger that has no sink any more changes nothing. -/
theorem liveSinks_set_of_none {loggers : List (Option Sink)} {index : ℕ}
    (hlog : loggers.getD index none = none) :
    liveSinks (loggers.set index none) = liveSinks loggers := by
  induction loggers generalizing index with
  | nil => rfl
  | cons log rest ih =>
      cases index with
      | zero =>
          have hnone : log = none := by simpa using hlog
          simp [liveSinks, hnone]
      | succ index =>
          have hrest := ih (by simpa using hlog)
          simp only [liveSinks, List.set_cons_succ, List.filterMap_cons] at hrest ⊢
          rw [hrest]

/-- A logger that is reset takes its sink out of the live ones, from between those of
the older and the newer loggers. -/
theorem liveSinks_set {loggers : List (Option Sink)} {index : ℕ} {sink : Sink}
    (hlog : loggers.getD index none = some sink) :
    liveSinks loggers =
        liveSinks (loggers.take index) ++ sink :: liveSinks (loggers.drop (index + 1)) ∧
      liveSinks (loggers.set index none) =
        liveSinks (loggers.take index) ++ liveSinks (loggers.drop (index + 1)) := by
  have hfound : loggers[index]? = some (some sink) := by
    rw [List.getD_eq_getElem?_getD] at hlog
    cases hentry : loggers[index]? with
    | none => simp [hentry] at hlog
    | some log => simpa [hentry] using hlog
  obtain ⟨hlt, hget⟩ := List.getElem?_eq_some_iff.1 hfound
  have hsplit : loggers = loggers.take index ++ some sink :: loggers.drop (index + 1) := by
    rw [← hget, ← List.drop_eq_getElem_cons hlt, List.take_append_drop]
  refine ⟨?_, ?_⟩
  · calc liveSinks loggers
        = liveSinks (loggers.take index ++ some sink :: loggers.drop (index + 1)) :=
          congrArg liveSinks hsplit
      _ = liveSinks (loggers.take index) ++
            sink :: liveSinks (loggers.drop (index + 1)) := by
          rw [liveSinks, List.filterMap_append]
          rfl
  · rw [List.set_eq_take_append_cons_drop, if_pos hlt, liveSinks, List.filterMap_append]
    rfl

/-- The flag goes down with the console sink, of which there is one. -/
theorem console_iff_remove {active : Bool} {sink : Sink} {left right : List Sink}
    (hflag : active = true ↔ ∃ other ∈ left ++ sink :: right, other.isCoutLogger = true)
    (hunique : ((left ++ sink :: right).filter Sink.isCoutLogger).length ≤ 1) :
    (if sink.isCoutLogger then false else active) = true ↔
      ∃ other ∈ left ++ right, other.isCoutLogger = true := by
  cases hkind : sink.isCoutLogger with
  | false =>
      simp only [Bool.false_eq_true, if_false, hflag, List.mem_append, List.mem_cons]
      constructor
      · intro hconsole
        obtain ⟨other, hleft | rfl | hright, hcout⟩ := hconsole
        · exact ⟨other, Or.inl hleft, hcout⟩
        · rw [hkind] at hcout
          exact absurd hcout (by simp)
        · exact ⟨other, Or.inr hright, hcout⟩
      · intro hconsole
        obtain ⟨other, hleft | hright, hcout⟩ := hconsole
        · exact ⟨other, Or.inl hleft, hcout⟩
        · exact ⟨other, Or.inr (Or.inr hright), hcout⟩
  | true =>
      rw [List.filter_append, List.filter_cons_of_pos hkind, List.length_append,
        List.length_cons] at hunique
      have hnone : (left ++ right).filter Sink.isCoutLogger = [] := by
        rw [List.filter_append, ← List.length_eq_zero_iff, List.length_append]
        omega
      rw [List.filter_eq_nil_iff] at hnone
      simpa only [if_true, Bool.false_eq_true, false_iff, not_exists, not_and] using hnone

/-- One logger leaves, with its sink and, for a console logger, the flag. -/
theorem good_remove {state after : LoggerState} {sink : Sink} {left right : List Sink}
    (hgood : Good state) (hlive : state.live = left ++ sink :: right)
    (hitems : after.items = left ++ right) (hafter : after.live = left ++ right)
    (hactive : after.activeCoutLogger =
      if sink.isCoutLogger then false else state.activeCoutLogger)
    (hnext : after.nextSink = state.nextSink)
    (hdelivers : ∀ top, after.items.getLast? = some top →
      after.functor = some top.id ∧ after.currentLevel = top.level) :
    Good after := by
  obtain ⟨hconsistent, hnumbered⟩ := hgood
  have hsub : (left ++ right).Sublist (left ++ sink :: right) :=
    (List.Sublist.refl left).append (List.sublist_cons_self sink right)
  have hunique := hconsistent.console_unique
  have hflag := hconsistent.console_iff
  rw [hlive] at hunique hflag
  refine ⟨⟨?_, hdelivers, ?_, ?_⟩, ?_, ?_⟩
  · rw [hitems, hafter]
  · rw [hafter, hactive]
    exact console_iff_remove hflag hunique
  · rw [hafter]
    exact Nat.le_trans (hsub.filter _).length_le hunique
  · intro other hother
    rw [hafter] at hother
    rw [hnext]
    exact hnumbered.lt_next other (hlive ▸ hsub.subset hother)
  · have hnodup := hnumbered.nodup
    rw [hlive] at hnodup
    rw [hafter]
    exact hnodup.sublist (hsub.map _)

/-- `erase` of a sink of the stack takes out that sink only. -/
theorem erase_meets {state : LoggerState} {sink : Sink} {left right : List Sink}
    (fails : Bool) (hitems : state.items = left ++ sink :: right)
    (hnodup : (state.items.map Sink.id).Nodup) :
    Meets (erase sink fails) state
      (fun _ after => after = { state with items := left ++ right } ∧ right ≠ [] ∨
        after = { state with items := left ++ right }.follow)
      (fun _ _ => fails = true ∧ right = [] ∧ left ≠ []) := by
  rw [erase, meets_bind_read]
  rcases List.eq_nil_or_concat' right with rfl | ⟨between, top, rfl⟩
  · have htop : state.items.getLast? = some sink := by simp [hitems]
    rw [htop, Option.map_some, if_pos rfl, meets_bind_modify]
    apply (setFunctor_meets _ _).mono
    · rintro _ after rfl
      exact Or.inr (by simp [hitems])
    · rintro _ after ⟨hfails, hleft, _⟩
      exact ⟨hfails, rfl, by simpa [hitems] using hleft⟩
  · have htop : state.items.getLast? = some top := by
      rw [hitems, ← List.cons_append, ← List.append_assoc, List.getLast?_concat]
    rw [hitems, List.map_append, List.map_cons, List.nodup_middle, List.nodup_cons,
      ← List.map_append] at hnodup
    have hkept : ∀ other ∈ left ++ (between ++ [top]), other.id ≠ sink.id := by
      intro other hother heq
      exact hnodup.1 (heq ▸ List.mem_map_of_mem hother)
    have hne : ¬ (some top).map Sink.id = some sink.id := by
      simpa using hkept top (by simp)
    have hfilter : state.items.filter (fun item => item.id ≠ sink.id) =
        left ++ (between ++ [top]) := by
      rw [hitems, List.filter_append, List.filter_cons_of_neg (by simp),
        ← List.filter_append, List.filter_eq_self]
      simpa using hkept
    rw [htop, if_neg hne, meets_bind_modify, hfilter]
    exact Or.inl ⟨rfl, by simp⟩

theorem reset_meets {state : LoggerState} (hgood : Good state) (index : ℕ) (fails : Bool)
    (hsafe : Safe state (.reset index fails)) :
    Meets (reset index fails) state (fun _ => Good) (fun _ => Good) := by
  rw [reset, meets_bind_read, meets_bind_modify]
  cases hlog : state.loggers.getD index none with
  | none =>
      have hlive := liveSinks_set_of_none hlog
      obtain ⟨⟨hitems, hdelivers, hflag, hunique⟩, hlt, hnodup⟩ := hgood
      rw [LoggerState.live, ← hlive] at hitems hflag hunique hlt hnodup
      exact ⟨⟨hitems, hdelivers, hflag, hunique⟩, hlt, hnodup⟩
  | some sink =>
      obtain ⟨hlive, hset⟩ := liveSinks_set hlog
      generalize liveSinks (state.loggers.take index) = left,
        liveSinks (state.loggers.drop (index + 1)) = right at hlive hset
      have hitems : state.items = left ++ sink :: right := hgood.1.items_eq.trans hlive
      have hnodup : (state.items.map Sink.id).Nodup := by
        rw [hgood.1.items_eq]
        exact hgood.2.nodup
      simp only [clearCout, meets_bind_modify]
      refine Meets.bindWith (erase_meets fails (by exact hitems) (by exact hnodup)) ?_ ?_
      · intro _ after hafter
        rw [meets_pure]
        rcases hafter with ⟨rfl, hright⟩ | rfl
        · refine good_remove hgood hlive rfl hset rfl rfl ?_
          intro top htop
          apply hgood.1.delivers
          rw [hitems, List.getLast?_append_of_ne_nil _ (List.cons_ne_nil _ _),
            List.getLast?_cons_of_ne_nil hright,
            ← List.getLast?_append_of_ne_nil left hright]
          exact htop
        · obtain ⟨hsame, hloggers, hactive, hnext⟩ := follow_unchanged
            { state with
              items := left ++ right
              activeCoutLogger := if sink.isCoutLogger then false else state.activeCoutLogger
              loggers := state.loggers.set index none }
          refine good_remove hgood hlive hsame ?_ hactive hnext ?_
          · rw [LoggerState.live, hloggers, hset]
          intro top htop
          rw [hsame] at htop
          exact follow_delivers htop
      · rintro _ after ⟨rfl, rfl, hleft⟩
        have hlast := hsafe sink hlog (by simp [hitems])
        exact absurd (by simpa [hitems] using hlast) hleft

/-! ## Runs -/

theorem good_step {state after : LoggerState} {action : Action} (hgood : Good state)
    (hsafe : Safe state action) (hstep : Step state action after) : Good after := by
  rw [Step] at hstep
  cases action with
  | construct kind level failure =>
      exact (construct_meets hgood kind level failure hsafe).endsIn hstep
  | reset index fails => exact (reset_meets hgood index fails hsafe).endsIn hstep
  | destroy index => exact (reset_meets hgood index false trivial).endsIn hstep

/-- Loggers are constructed, reset and destroyed in any order.  As long as no
allocation fails where the code cannot take back its work, the stack holds the
sinks of the live loggers, the log function and the level belong to its top, and
the flag tells whether a console logger is live. -/
theorem logger_stack_consistent {actions : List Action} {state : LoggerState}
    (run : Run SafeStep LoggerState.initial actions state) : Consistent state := by
  have hgood : Good state :=
    run.invariant Good ⟨consistent_initial, numbered_initial⟩
      fun _ _ _ hbefore hstep => good_step hbefore hstep.1 hstep.2
  exact hgood.1

/-- A console logger, a second one that is refused, a file logger, and then the
first one leaves: the file logger stays on top and the console is free again. -/
theorem logger_stack_consistent_example :
    ∃ state, state.items = [⟨2, .warning, false⟩] ∧ state.activeCoutLogger = false ∧
      Consistent state := by
  have console : Run SafeStep LoggerState.initial [.construct .console .info none] _ :=
    Run.nil.snoc ⟨trivial, Eq.refl _⟩
  have refused : Run SafeStep LoggerState.initial
      [.construct .console .info none, .construct .console .debug none] _ :=
    console.snoc ⟨trivial, Eq.refl _⟩
  have file : Run SafeStep LoggerState.initial
      [.construct .console .info none, .construct .console .debug none,
        .construct .file .warning none] _ :=
    refused.snoc ⟨trivial, Eq.refl _⟩
  have run : Run SafeStep LoggerState.initial
      [.construct .console .info none, .construct .console .debug none,
        .construct .file .warning none, .destroy 0] _ :=
    file.snoc ⟨trivial, Eq.refl _⟩
  exact ⟨_, rfl, rfl, logger_stack_consistent run⟩

/-- The stack cannot grow for a console logger: its constructor throws, and the
flag stays up although there is no logger. -/
theorem console_flag_leaks :
    ∃ state, Run Step LoggerState.initial
        [.construct .console .info (some .emplaceBack)] state ∧
      state.live = [] ∧ state.activeCoutLogger = true ∧ ¬ Consistent state := by
  refine ⟨_, Run.nil.snoc (Eq.refl _), rfl, rfl, ?_⟩
  intro hconsistent
  obtain ⟨sink, hsink, _⟩ := hconsistent.console_iff.1 rfl
  exact absurd hsink List.not_mem_nil

end Nstl.LogStack
