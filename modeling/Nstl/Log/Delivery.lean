import Nstl.Log.Stack

/-!
# Which sink gets a line

A caller can bring sinks of its own: it may give one sink to several loggers, and keep
it alive after all of them are gone.  The stack knows its entries by their sinks only,
and the log function refers to the sink of the last logger until another one is put in
its place.  A line then goes to the sink of the latest live logger as long as loggers
that share a sink leave in a suitable order; without a live logger it goes nowhere only
if the last sink is gone too.
-/

namespace Nstl.LogDelivery

open Nstl.ByteString
open Nstl.LogStack
open Nstl.OstreamLog
open Nstl.Programs
open Nstl.Programs.Program
open Nstl.Transition

/-! ## Sinks of the caller -/

/-- The value of a level in its enumeration. -/
def levelValue : Level → ℕ
  | .debug => 0
  | .info => 1
  | .warning => 2
  | .error => 3
  | .terminate => 4

def isLevelActive (current level : Level) : Bool :=
  levelValue current ≤ levelValue level

/-- A call of `push` of a sink. -/
structure Delivery where
  sink : ℕ
  level : Level
  line : Bytes
  deriving DecidableEq, Repr

structure SinkState where
  stack : LoggerState
  /-- The sinks that the caller has a pointer to. -/
  held : List Sink
  delivered : List Delivery

def SinkState.initial : SinkState := ⟨.initial, [], []⟩

namespace SinkState

variable (state : SinkState)

/-- A sink lives as long as the caller, the stack or a logger has a pointer to it. -/
def alive (id : ℕ) : Bool :=
  state.held.any (·.id = id) || state.stack.items.any (·.id = id) ||
    state.stack.live.any (·.id = id)

/-- What the log function does, if it was ever set. -/
def push (level : Level) (line : Bytes) : SinkState :=
  match state.stack.functor with
  | none => state
  | some id =>
      if state.alive id then
        { state with delivered := state.delivered ++ [⟨id, level, line⟩] }
      else state

/-- The macros for log lines. -/
def log (level : Level) (line : Bytes) : SinkState :=
  if isLevelActive state.stack.currentLevel level then state.push level line else state

end SinkState

inductive Action where
  | create (level : Level) (isCoutLogger : Bool)
  | release (sink : Sink)
  | construct (log : Option Sink) (failure : Option Failure)
  | reset (index : ℕ) (fails : Bool)
  | log (level : Level) (line : Bytes)
  deriving DecidableEq, Repr

/-- The steps of a program.  A logger can only be given a sink that the caller has a
pointer to. -/
inductive Step : SinkState → Action → SinkState → Prop
  | create {state} (level : Level) (isCoutLogger : Bool) :
      Step state (.create level isCoutLogger)
        { state with
          stack := { state.stack with nextSink := state.stack.nextSink + 1 }
          held := state.held ++ [⟨state.stack.nextSink, level, isCoutLogger⟩] }
  | release {state sink} (hheld : sink ∈ state.held) :
      Step state (.release sink) { state with held := state.held.erase sink }
  | construct {state log failure after} (hheld : ∀ sink ∈ log, sink ∈ state.held)
      (hends : (constructFrom log failure state.stack).EndsIn after) :
      Step state (.construct log failure) { state with stack := after }
  | reset {state index fails after}
      (hends : (LogStack.reset index fails state.stack).EndsIn after) :
      Step state (.reset index fails) { state with stack := after }
  | log {state} (level : Level) (line : Bytes) :
      Step state (.log level line) (state.log level line)

/-! ## The condition -/

/-- The sinks of the live loggers that are older than a logger. -/
def older (loggers : List (Option Sink)) (index : ℕ) : List Sink :=
  liveSinks (loggers.take index)

/-- The sinks of the live loggers that are newer than a logger. -/
def newer (loggers : List (Option Sink)) (index : ℕ) : List Sink :=
  liveSinks (loggers.drop (index + 1))

/-- No other live logger has the sink of this one, or all newer ones have it. -/
def Separable (stack : LoggerState) (index : ℕ) : Prop :=
  ∀ sink, stack.loggers.getD index none = some sink →
    (∀ other ∈ older stack.loggers index ++ newer stack.loggers index, other.id ≠ sink.id) ∨
      ∀ other ∈ newer stack.loggers index, other.id = sink.id

/-- The log function can be replaced, and a logger that is reset is separable from the
others. -/
def Orderly (state : SinkState) : Action → Prop
  | .construct _ failure => failure ≠ some .functor
  | .reset index fails => fails = false ∧ Separable state.stack index
  | _ => True

def OrderlyStep (state : SinkState) (action : Action) (next : SinkState) : Prop :=
  Step state action next ∧ Orderly state action

/-! ## The stack and the live loggers -/

/-- The stack holds the sinks of the live loggers, in the order of construction, and the
log function refers to the last of them. -/
structure Aligned (stack : LoggerState) : Prop where
  items_eq : stack.items.map Sink.id = stack.live.map Sink.id
  functor_eq : ∀ id, (stack.live.map Sink.id).getLast? = some id → stack.functor = some id

theorem aligned_initial : Aligned LoggerState.initial where
  items_eq := rfl
  functor_eq := by simp [LoggerState.initial, LoggerState.live, liveSinks]

/-- Where the stack holds the right sinks, the log function is set to follow it. -/
theorem aligned_follow {stack : LoggerState}
    (hitems : stack.items.map Sink.id = stack.live.map Sink.id) : Aligned stack.follow := by
  obtain ⟨hsame, hloggers, -, -⟩ := follow_unchanged stack
  have hlive : stack.follow.live = stack.live := congrArg liveSinks hloggers
  refine ⟨?_, ?_⟩
  · rw [hsame, hlive, hitems]
  · intro id hid
    rw [hlive, ← hitems, List.getLast?_map, Option.map_eq_some_iff] at hid
    obtain ⟨top, htop, rfl⟩ := hid
    exact (follow_delivers htop).1

theorem constructFrom_meets {stack : LoggerState} (haligned : Aligned stack)
    (log : Option Sink) {failure : Option Failure} (hfailure : failure ≠ some .functor) :
    Meets (constructFrom log failure) stack (fun _ => Aligned) (fun _ => Aligned) := by
  cases log with
  | none => exact haligned
  | some sink =>
      rw [constructFrom, constructWith]
      apply (exchangeCout_meets sink stack).noThrow.bind
      rintro refused after ⟨-, rfl⟩
      have hsame : Aligned
          { stack with activeCoutLogger := stack.activeCoutLogger || sink.isCoutLogger } :=
        ⟨haligned.items_eq, haligned.functor_eq⟩
      cases refused with
      | true => exact hsame
      | false =>
          apply (pushBack_meets sink failure _).bindWith
          · rintro _ after rfl
            refine ⟨?_, ?_⟩
            · simp only [LoggerState.live, liveSinks_append, List.map_append]
              rw [haligned.items_eq, LoggerState.live]
            · intro id hid
              simpa [LoggerState.live, liveSinks_append] using hid
          · rintro _ after (⟨-, rfl⟩ | hfunctor)
            · exact hsame
            · exact absurd hfunctor hfailure

/-! ### Taking a sink out -/

section Identities

variable {left right : List ℕ} {id : ℕ}

/-- Where everything behind an entry is the same, taking out the last one is taking out
that entry. -/
theorem dropLast_of_forall_eq (hright : ∀ other ∈ right, other = id) :
    (left ++ id :: right).dropLast = left ++ right := by
  rw [List.eq_replicate_of_mem hright, ← List.replicate_succ, List.replicate_succ',
    ← List.append_assoc, List.dropLast_concat]

theorem filter_of_forall_ne (hother : ∀ other ∈ left ++ right, other ≠ id) :
    (left ++ id :: right).filter (· ≠ id) = left ++ right := by
  rw [List.filter_append, List.filter_cons_of_neg (by simp), ← List.filter_append,
    List.filter_eq_self]
  simpa using hother

/-- An entry at the end of the list that is separable has only its like behind it. -/
theorem forall_eq_of_getLast? (hlast : (left ++ id :: right).getLast? = some id)
    (hseparable : (∀ other ∈ left ++ right, other ≠ id) ∨ ∀ other ∈ right, other = id) :
    ∀ other ∈ right, other = id := by
  intro other hother
  cases hseparable with
  | inl hnone =>
      have hmem : id ∈ right := by
        rw [List.getLast?_append_of_ne_nil _ (List.cons_ne_nil _ _),
          List.getLast?_cons_of_ne_nil (List.ne_nil_of_mem hother)] at hlast
        exact List.mem_of_getLast? hlast
      exact absurd rfl (hnone id (List.mem_append_right _ hmem))
  | inr hall => exact hall other hother

/-- An entry that is not at the end of the list and is separable is the only one. -/
theorem forall_ne_of_getLast? (hlast : (left ++ id :: right).getLast? ≠ some id)
    (hseparable : (∀ other ∈ left ++ right, other ≠ id) ∨ ∀ other ∈ right, other = id) :
    right ≠ [] ∧ ∀ other ∈ left ++ right, other ≠ id := by
  have hnil : right ≠ [] := by
    rintro rfl
    simp at hlast
  refine ⟨hnil, hseparable.resolve_right ?_⟩
  intro hall
  apply hlast
  obtain ⟨last, hmem⟩ := Option.ne_none_iff_exists'.1 (mt List.getLast?_eq_none_iff.1 hnil)
  rw [List.getLast?_append_of_ne_nil _ (List.cons_ne_nil _ _),
    List.getLast?_cons_of_ne_nil hnil, hmem, hall last (List.mem_of_getLast? hmem)]

end Identities

/-- `erase` where replacing the log function does not fail. -/
theorem erase_meets_shared (stack : LoggerState) (sink : Sink) :
    Meets (erase sink false) stack
      (fun _ after =>
        (stack.items.getLast?.map Sink.id = some sink.id ∧
          after = { stack with items := stack.items.dropLast }.follow) ∨
        (stack.items.getLast?.map Sink.id ≠ some sink.id ∧
          after = { stack with items := stack.items.filter fun item => item.id ≠ sink.id }))
      (fun _ _ => False) := by
  rw [erase, meets_bind_read]
  by_cases htop : stack.items.getLast?.map Sink.id = some sink.id
  · rw [if_pos htop, meets_bind_modify]
    apply (setFunctor_meets _ _).mono
    · rintro _ after rfl
      exact Or.inl ⟨htop, rfl⟩
    · rintro _ after ⟨hfails, -⟩
      cases hfails
  · rw [if_neg htop, meets_bind_modify]
    exact Or.inr ⟨htop, rfl⟩

section Removal

variable {stack : LoggerState} {left right : List ℕ} {sink : Sink}
  (hitems : stack.items.map Sink.id = left ++ sink.id :: right)
  (hlive : stack.live.map Sink.id = left ++ right)
  (hseparable : (∀ other ∈ left ++ right, other ≠ sink.id) ∨ ∀ other ∈ right, other = sink.id)

include hitems hlive hseparable

theorem aligned_dropLast (htop : stack.items.getLast?.map Sink.id = some sink.id) :
    Aligned { stack with items := stack.items.dropLast }.follow := by
  rw [← List.getLast?_map, hitems] at htop
  apply aligned_follow
  calc stack.items.dropLast.map Sink.id
      = (left ++ sink.id :: right).dropLast := by rw [List.map_dropLast, hitems]
    _ = left ++ right := dropLast_of_forall_eq (forall_eq_of_getLast? htop hseparable)
    _ = stack.live.map Sink.id := hlive.symm

/-- The log function is left alone here, and need not be touched: the last entry stays. -/
theorem aligned_filter (htop : stack.items.getLast?.map Sink.id ≠ some sink.id)
    (hfunctor : ∀ id, (left ++ sink.id :: right).getLast? = some id →
      stack.functor = some id) :
    Aligned { stack with items := stack.items.filter fun item => item.id ≠ sink.id } := by
  rw [← List.getLast?_map, hitems] at htop
  obtain ⟨hright, hothers⟩ := forall_ne_of_getLast? htop hseparable
  refine ⟨?_, ?_⟩
  · calc (stack.items.filter fun item => item.id ≠ sink.id).map Sink.id
        = (stack.items.map Sink.id).filter (· ≠ sink.id) := by
          rw [List.filter_map]
          rfl
      _ = left ++ right := by rw [hitems, filter_of_forall_ne hothers]
      _ = stack.live.map Sink.id := hlive.symm
  · intro id hid
    apply hfunctor
    rw [List.getLast?_append_of_ne_nil _ (List.cons_ne_nil _ _),
      List.getLast?_cons_of_ne_nil hright, ← List.getLast?_append_of_ne_nil left hright,
      ← hlive]
    exact hid

end Removal

theorem reset_meets_separable {stack : LoggerState} (haligned : Aligned stack) {index : ℕ}
    (hseparable : Separable stack index) :
    Meets (LogStack.reset index false) stack (fun _ => Aligned) (fun _ => Aligned) := by
  obtain ⟨hitems, hfunctor⟩ := haligned
  rw [LogStack.reset, meets_bind_read, meets_bind_modify]
  cases hlog : stack.loggers.getD index none with
  | none =>
      rw [LoggerState.live, ← liveSinks_set_of_none hlog] at hitems hfunctor
      exact ⟨hitems, hfunctor⟩
  | some sink =>
      obtain ⟨hbefore, hafter⟩ := liveSinks_set hlog
      have hlive := congrArg (List.map Sink.id) hafter
      rw [List.map_append] at hlive
      rw [LoggerState.live, hbefore, List.map_append, List.map_cons] at hitems hfunctor
      have hids : (∀ other ∈ (older stack.loggers index).map Sink.id ++
            (newer stack.loggers index).map Sink.id, other ≠ sink.id) ∨
          ∀ other ∈ (newer stack.loggers index).map Sink.id, other = sink.id := by
        apply (hseparable sink hlog).imp
        · intro hnone
          simpa [or_imp, forall_and] using hnone
        · intro hall
          simpa using hall
      simp only [clearCout, meets_bind_modify]
      apply Meets.bindWith (erase_meets_shared _ sink)
      · intro _ after herased
        rw [meets_pure]
        rcases herased with ⟨htop, rfl⟩ | ⟨htop, rfl⟩
        · exact aligned_dropLast hitems hlive hids htop
        · exact aligned_filter hitems hlive hids htop hfunctor
      · intro _ _ hfalse
        exact hfalse.elim

/-! ## Runs -/

/-- A line does not change who gets the next one. -/
theorem log_stack (state : SinkState) (level : Level) (line : Bytes) :
    (state.log level line).stack = state.stack := by
  have hpush : (state.push level line).stack = state.stack := by
    rw [SinkState.push]
    cases state.stack.functor with
    | none => rfl
    | some id => by_cases halive : state.alive id <;> simp [halive]
  rw [SinkState.log]
  by_cases hactive : isLevelActive state.stack.currentLevel level
  · rw [if_pos hactive, hpush]
  · rw [if_neg hactive]

theorem aligned_step {state next : SinkState} {action : Action}
    (haligned : Aligned state.stack) (hstep : OrderlyStep state action next) :
    Aligned next.stack := by
  obtain ⟨hstep, horderly⟩ := hstep
  cases hstep with
  | create level isCoutLogger => exact ⟨haligned.items_eq, haligned.functor_eq⟩
  | release hheld => exact haligned
  | construct hheld hends => exact (constructFrom_meets haligned _ horderly).endsIn hends
  | reset hends =>
      obtain ⟨rfl, hseparable⟩ := horderly
      exact (reset_meets_separable haligned hseparable).endsIn hends
  | log level line => rwa [log_stack]

/-- The sink of the latest live logger gets a line, and no other sink does. -/
def expected (state : SinkState) (level : Level) (line : Bytes) : List Delivery :=
  (state.stack.live.getLast?.map fun sink => ⟨sink.id, level, line⟩).toList

theorem push_of_live {state : SinkState} (haligned : Aligned state.stack) {sink : Sink}
    (hlatest : state.stack.live.getLast? = some sink) (level : Level) (line : Bytes) :
    (state.push level line).delivered = state.delivered ++ [⟨sink.id, level, line⟩] := by
  have hfunctor : state.stack.functor = some sink.id :=
    haligned.functor_eq _ (by rw [List.getLast?_map, hlatest]; rfl)
  have halive : state.alive sink.id = true := by
    have hmem := List.mem_of_getLast? hlatest
    simp only [SinkState.alive, Bool.or_eq_true, List.any_eq_true, decide_eq_true_eq]
    exact Or.inr ⟨sink, hmem, rfl⟩
  rw [SinkState.push, hfunctor]
  simp only [halive, if_true]

theorem push_of_not_live {state : SinkState} (haligned : Aligned state.stack)
    (hnone : state.stack.live = []) (level : Level) (line : Bytes) :
    (state.push level line).delivered = state.delivered ↔
      ∀ sink ∈ state.held, state.stack.functor ≠ some sink.id := by
  have hitems : state.stack.items = [] := by
    have hids := haligned.items_eq
    rw [hnone, List.map_nil, List.map_eq_nil_iff] at hids
    exact hids
  rw [SinkState.push]
  cases state.stack.functor with
  | none => simp
  | some id =>
      have halive : state.alive id = true ↔ ∃ sink ∈ state.held, sink.id = id := by
        simp [SinkState.alive, hitems, hnone]
      by_cases hheld : state.alive id = true
      · obtain ⟨sink, hsink, hid⟩ := halive.1 hheld
        simp only [hheld, if_true]
        constructor
        · intro hsame
          simp at hsame
        · intro hreleased
          exact absurd (congrArg some hid.symm) (hreleased sink hsink)
      · simp only [hheld, Bool.false_eq_true, if_false, true_iff]
        intro sink hsink hid
        exact hheld (halive.2 ⟨sink, hsink, (Option.some.inj hid).symm⟩)

/-- In every run in which loggers that share a sink leave in a suitable order and the log
function can always be replaced, the stack holds the sinks of the live loggers, and a
line of an active level goes where it belongs exactly if there is a live logger or the
caller does not keep the last sink alive. -/
theorem lines_reach_latest_logger_iff {actions : List Action} {state : SinkState}
    (run : Run OrderlyStep SinkState.initial actions state) (level : Level) (line : Bytes)
    (hactive : isLevelActive state.stack.currentLevel level = true) :
    state.stack.items.map Sink.id = state.stack.live.map Sink.id ∧
      ((state.log level line).delivered = state.delivered ++ expected state level line ↔
        (state.stack.live = [] →
          ∀ sink ∈ state.held, state.stack.functor ≠ some sink.id)) := by
  have haligned := run.invariant (fun state => Aligned state.stack) aligned_initial
    fun _ _ _ hbefore hstep => aligned_step hbefore hstep
  refine ⟨haligned.items_eq, ?_⟩
  rw [SinkState.log, if_pos hactive, expected]
  cases hlatest : state.stack.live.getLast? with
  | none =>
      have hnone := List.getLast?_eq_none_iff.1 hlatest
      simp [hnone, push_of_not_live haligned hnone]
  | some sink =>
      have hlive : state.stack.live ≠ [] := by
        intro hnone
        rw [hnone] at hlatest
        cases hlatest
      simp [hlive, push_of_live haligned hlatest]

/-! ## Shared sinks -/

def firstSink : Sink := ⟨0, .info, false⟩
def secondSink : Sink := ⟨1, .info, false⟩

/-- The caller has made two sinks. -/
def twoSinks : SinkState :=
  ⟨{ LoggerState.initial with nextSink := 2 }, [firstSink, secondSink], []⟩

/-- The first sink is given to two loggers, and the second one to a logger in between. -/
def sharing : SinkState :=
  { twoSinks with
    stack := ⟨[firstSink, secondSink, firstSink], some 0, .info, false,
      [some firstSink, some secondSink, some firstSink], 2⟩ }

theorem run_sharing :
    Run OrderlyStep SinkState.initial
      [.create .info false, .create .info false, .construct (some firstSink) none,
        .construct (some secondSink) none, .construct (some firstSink) none] sharing := by
  have hmade : Run OrderlyStep SinkState.initial
      [.create .info false, .create .info false] twoSinks :=
    .snoc (.snoc .nil ⟨.create .info false, trivial⟩) ⟨.create .info false, trivial⟩
  have hfirst : OrderlyStep twoSinks (.construct (some firstSink) none)
      { twoSinks with stack := ⟨[firstSink], some 0, .info, false, [some firstSink], 2⟩ } :=
    ⟨.construct (by decide) (Eq.refl _), nofun⟩
  have hsecond : OrderlyStep
      { twoSinks with stack := ⟨[firstSink], some 0, .info, false, [some firstSink], 2⟩ }
      (.construct (some secondSink) none)
      { twoSinks with
        stack := ⟨[firstSink, secondSink], some 1, .info, false,
          [some firstSink, some secondSink], 2⟩ } :=
    ⟨.construct (by decide) (Eq.refl _), nofun⟩
  have hthird : OrderlyStep
      { twoSinks with
        stack := ⟨[firstSink, secondSink], some 1, .info, false,
          [some firstSink, some secondSink], 2⟩ }
      (.construct (some firstSink) none) sharing :=
    ⟨.construct (by decide) (Eq.refl _), nofun⟩
  exact ((hmade.snoc hfirst).snoc hsecond).snoc hthird

/-- The newest of the three loggers has left. -/
def newestReset : SinkState :=
  { twoSinks with
    stack := ⟨[firstSink, secondSink], some 1, .info, false,
      [some firstSink, some secondSink, none], 2⟩ }

/-- After the newest logger has left, a line goes to the sink of the one before. -/
theorem lines_reach_latest_logger_example :
    newestReset.stack.live = [firstSink, secondSink] ∧
      (newestReset.log .info [120]).delivered = [⟨1, .info, [120]⟩] := by
  have hreset : OrderlyStep sharing (.reset 2 false) newestReset :=
    ⟨.reset (Eq.refl _), rfl, fun _ _ => Or.inr nofun⟩
  have hdelivered := (lines_reach_latest_logger_iff (run_sharing.snoc hreset) .info [120] rfl).2
  exact ⟨rfl, hdelivered.2 (by decide)⟩

/-- The only logger has left, and the caller has kept its sink. -/
def kept : SinkState :=
  ⟨⟨[], some 0, .info, false, [none], 1⟩, [firstSink], []⟩

/-- The oldest of the three loggers has left. -/
def oldestReset : SinkState :=
  { twoSinks with
    stack := ⟨[firstSink, secondSink], some 1, .info, false,
      [none, some secondSink, some firstSink], 2⟩ }

/-- A line goes to the sink that the caller has kept although its logger is gone; and
when the oldest of the three loggers leaves, a line goes to the second sink although the
newest logger has the first one. -/
theorem lines_go_astray :
    (Run Step SinkState.initial
        [.create .info false, .construct (some firstSink) none, .reset 0 false] kept ∧
      kept.stack.live = [] ∧ (kept.log .info [120]).delivered = [⟨0, .info, [120]⟩]) ∧
    Run Step SinkState.initial
        [.create .info false, .create .info false, .construct (some firstSink) none,
          .construct (some secondSink) none, .construct (some firstSink) none,
          .reset 0 false] oldestReset ∧
      oldestReset.stack.live = [secondSink, firstSink] ∧
      (oldestReset.log .info [120]).delivered = [⟨1, .info, [120]⟩] := by
  have hmade : Run Step SinkState.initial [.create .info false]
      ⟨{ LoggerState.initial with nextSink := 1 }, [firstSink], []⟩ :=
    .snoc .nil (.create .info false)
  have hgiven : Run Step SinkState.initial
      [.create .info false, .construct (some firstSink) none]
      ⟨⟨[firstSink], some 0, .info, false, [some firstSink], 1⟩, [firstSink], []⟩ :=
    hmade.snoc (.construct (by decide) (Eq.refl _))
  have hkept : Run Step SinkState.initial
      [.create .info false, .construct (some firstSink) none, .reset 0 false] kept :=
    hgiven.snoc (.reset (Eq.refl _))
  have hshared := run_sharing.mono fun _ _ _ hstep => hstep.1
  have holdest : Step sharing (.reset 0 false) oldestReset := .reset (Eq.refl _)
  exact ⟨⟨hkept, rfl, rfl⟩, hshared.snoc holdest, rfl, rfl⟩

end Nstl.LogDelivery
