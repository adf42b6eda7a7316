import Nstl.Core.Transition
import Nstl.Vector.Refinement

/-!
# Programs that use vectors

A program is a sequence of calls on any number of vectors.  The same sequence,
with the same results, is a run of the abstract system in which every vector is
a list: that system says which calls throw and what each call does to the lists.
Whether memory runs out in a call is no matter of lists: it is decided by the sizes,
the capacities and the allocator before the call.
-/

namespace Nstl.VectorRuns

open Function
open Nstl.Heaps
open Nstl.Programs
open Nstl.Transition
open Nstl.VectorRefinement
open Nstl.Vectors

/-- The public operations, on objects with a name. -/
inductive Call (Element : Type) where
  | defaultConstruct (this : ℕ)
  | copyConstruct (this other : ℕ)
  | moveConstruct (this other : ℕ)
  | destroy (this : ℕ)
  | copyAssign (this other : ℕ)
  | moveAssign (this other : ℕ)
  | swap (this other : ℕ)
  | clear (this : ℕ)
  | reset (this : ℕ)
  | pushBack (this : ℕ) (value : Element)
  | popBack (this : ℕ)
  | erase (this : ℕ) (itr : ℤ)
  | eraseRange (this : ℕ) (first last : ℤ)
  | reserve (this : ℕ) (newCapacity : ℕ)
  | atIndex (this : ℕ) (idx : ℕ)
  | release (this : ℕ)

/-- What a call returns. -/
inductive Return (Element : Type) where
  | nothing
  | element (value : Element)
  | iterator (itr : ℤ)
  | members (vec : Vec)

variable {Element : Type}

/-- Wrap the result of a method. -/
def returning {Value : Type} (wrapResult : Value → Return Element)
    (method : Method Element Value) : Method Element (Return Element) := do
  let result ← method
  return wrapResult result

def perform (cellSize : ℕ) (choice : Option Address) :
    Call Element → Method Element (Return Element)
  | .defaultConstruct this => returning (fun _ => .nothing) (defaultConstruct (.named this))
  | .copyConstruct this other =>
      returning (fun _ => .nothing)
        (copyConstruct cellSize choice (.named this) (.named other))
  | .moveConstruct this other =>
      returning (fun _ => .nothing) (moveConstruct (.named this) (.named other))
  | .destroy this => returning (fun _ => .nothing) (destroy (.named this))
  | .copyAssign this other =>
      returning (fun _ => .nothing)
        (copyAssign cellSize choice (.named this) (.named other))
  | .moveAssign this other =>
      returning (fun _ => .nothing) (moveAssign (.named this) (.named other))
  | .swap this other =>
      returning (fun _ => .nothing) (Vectors.swap (.named this) (.named other))
  | .clear this => returning (fun _ => .nothing) (clear (.named this))
  | .reset this => returning (fun _ => .nothing) (reset (.named this))
  | .pushBack this value =>
      returning (fun _ => .nothing) (pushBack cellSize choice (.named this) value)
  | .popBack this => returning (fun _ => .nothing) (popBack (.named this))
  | .erase this itr => returning .iterator (erase (.named this) itr)
  | .eraseRange this first last => returning .iterator (eraseRange (.named this) first last)
  | .reserve this newCapacity =>
      returning (fun _ => .nothing) (reserve cellSize choice (.named this) newCapacity)
  | .atIndex this idx => returning .element (atIndex (.named this) idx)
  | .release this => returning .members (release (.named this))

/-- A constructor makes a new object, every other call needs its objects alive. -/
def Legal (store : Store Element) : Call Element → Prop
  | .defaultConstruct this => store.objects (.named this) = none
  | .copyConstruct this other | .moveConstruct this other =>
      store.objects (.named this) = none ∧ store.objects (.named other) ≠ none
  | .copyAssign this other | .moveAssign this other | .swap this other =>
      store.objects (.named this) ≠ none ∧ store.objects (.named other) ≠ none
  | .destroy this | .clear this | .reset this | .pushBack this _ | .popBack this
  | .erase this _ | .eraseRange this _ _ | .reserve this _ | .atIndex this _
  | .release this => store.objects (.named this) ≠ none

/-- One call: what is called, what the allocator chooses, and how the call ends. -/
structure Event (Element : Type) where
  call : Call Element
  choice : Option Address
  result : Except Throw (Return Element)

/-- The outcome of a method, as a result and a store. -/
def Ends (outcome : Outcome (Store Element) Throw (Return Element))
    (result : Except Throw (Return Element)) (after : Store Element) : Prop :=
  match result with
  | .ok value => outcome = .value value after
  | .error error => outcome = .thrown error after

/-- The store before the first vector. -/
def noVectors (heap : Heap Element) : Store Element := ⟨heap, fun _ => none⟩

/-- A step of a program. -/
def Step (cellSize : ℕ) (store : Store Element) (event : Event Element)
    (after : Store Element) : Prop :=
  Legal store event.call ∧
    Ends (perform cellSize event.choice event.call store) event.result after

/-- How a call runs out of memory: it needs room that a vector does not have, and the
new capacity is above the limit or the allocator has no block. -/
def CallRunsOut (cellSize : ℕ) (choice : Option Address) (store : Store Element) :
    Call Element → Throw → Prop
  | .pushBack this _, error =>
      ∃ vec, store.objects (.named this) = some vec ∧
        RunsOut cellSize choice store.heap vec (vec.size + 1) error
  | .reserve this newCapacity, error =>
      ∃ vec, store.objects (.named this) = some vec ∧
        RunsOut cellSize choice store.heap vec newCapacity error
  -- a copy grows from nothing to the size of its source
  | .copyConstruct _ other, error =>
      ∃ source, store.objects (.named other) = some source ∧
        RunsOut cellSize choice store.heap Vec.initial source.size error
  | .copyAssign this other, error =>
      this ≠ other ∧ ∃ source, store.objects (.named other) = some source ∧
        RunsOut cellSize choice store.heap Vec.initial source.size error
  | .defaultConstruct _, _ | .moveConstruct _ _, _ | .destroy _, _ | .moveAssign _ _, _
  | .swap _ _, _ | .clear _, _ | .reset _, _ | .popBack _, _ | .erase _ _, _
  | .eraseRange _ _ _, _ | .atIndex _ _, _ | .release _, _ => False

/-! ## The abstract system -/

section Abstract

variable (runsOut : Throw → Prop) (lists : ListStore Element)
  (result : Except Throw (Return Element)) (after : ListStore Element)

def Returns (value : Return Element) (expected : ListStore Element) : Prop :=
  result = .ok value ∧ after = expected

/-- A call that throws has no effect. -/
def Throws (error : Throw) : Prop :=
  result = .error error ∧ after = lists

/-- The call throws if memory runs out, and only then. -/
def ReturnsOrRunsOut (expected : ListStore Element) : Prop :=
  ((∀ error, ¬runsOut error) ∧ Returns result after .nothing expected) ∨
    ∃ error, runsOut error ∧ Throws lists result after error

/-- What each call does to the lists. -/
def ListCall : Call Element → Prop
  | .defaultConstruct this =>
      lists (.named this) = none ∧
        Returns result after .nothing (update lists (.named this) (some []))
  | .copyConstruct this other =>
      lists (.named this) = none ∧ ∃ items, lists (.named other) = some items ∧
        ReturnsOrRunsOut runsOut lists result after (update lists (.named this) (some items))
  | .moveConstruct this other =>
      lists (.named this) = none ∧ ∃ items, lists (.named other) = some items ∧
        Returns result after .nothing
          (update (update lists (.named this) (some items)) (.named other) (some []))
  | .destroy this =>
      lists (.named this) ≠ none ∧
        Returns result after .nothing (update lists (.named this) none)
  | .copyAssign this other =>
      lists (.named this) ≠ none ∧ ∃ items, lists (.named other) = some items ∧
        ReturnsOrRunsOut runsOut lists result after (update lists (.named this) (some items))
  | .moveAssign this other =>
      lists (.named this) ≠ none ∧ ∃ items, lists (.named other) = some items ∧
        Returns result after .nothing
          (if this = other then lists
            else update (update lists (.named this) (some items)) (.named other) (some []))
  | .swap this other =>
      ∃ items right, lists (.named this) = some items ∧ lists (.named other) = some right ∧
        Returns result after .nothing
          (update (update lists (.named this) (some right)) (.named other) (some items))
  | .clear this | .reset this =>
      lists (.named this) ≠ none ∧
        Returns result after .nothing (update lists (.named this) (some []))
  | .pushBack this value =>
      ∃ items, lists (.named this) = some items ∧
        ReturnsOrRunsOut runsOut lists result after
          (update lists (.named this) (some (items ++ [value])))
  | .popBack this =>
      ∃ items, lists (.named this) = some items ∧
        (items ≠ [] ∧
            Returns result after .nothing (update lists (.named this) (some items.dropLast)) ∨
          items = [] ∧ Throws lists result after .runtimeError)
  | .erase this itr =>
      ∃ items, lists (.named this) = some items ∧
        (InRange true items itr ∧
            Returns result after (.iterator itr)
              (update lists (.named this) (some (items.eraseIdx itr.toNat))) ∨
          ¬InRange true items itr ∧ Throws lists result after .invalidArgument)
  | .eraseRange this first last =>
      ∃ items, lists (.named this) = some items ∧
        ((first = last ∨
            InRange false items first ∧ InRange false items last ∧ first ≤ last) ∧
            Returns result after (.iterator first) (update lists (.named this)
              (some (items.take first.toNat ++ items.drop last.toNat))) ∨
          first ≠ last ∧
            ¬(InRange false items first ∧ InRange false items last ∧ first ≤ last) ∧
            Throws lists result after .invalidArgument)
  | .reserve this _ =>
      lists (.named this) ≠ none ∧ ReturnsOrRunsOut runsOut lists result after lists
  | .atIndex this idx =>
      ∃ items, lists (.named this) = some items ∧
        ((∃ value, items[idx]? = some value ∧ Returns result after (.element value) lists) ∨
          items.length ≤ idx ∧ Throws lists result after .outOfRange)
  | .release this =>
      ∃ items vec, lists (.named this) = some items ∧ vec.size = items.length ∧
        Returns result after (.members vec) (update lists (.named this) (some []))

end Abstract

/-- A step of the abstract system beside one of the vectors, which say whether memory runs
out. -/
def JointStep (cellSize : ℕ) (before : Store Element × ListStore Element)
    (event : Event Element) (after : Store Element × ListStore Element) : Prop :=
  Step cellSize before.1 event after.1 ∧
    ListCall (CallRunsOut cellSize event.choice before.1 event.call) before.2 event.result
      after.2 event.call

/-! ## Simulation -/

section Simulation

variable {cellSize : ℕ} {store : Store Element} {lists : ListStore Element}

/-- The lists of a store between two calls, when the local object is gone. -/
structure Simulates (cellSize : ℕ) (store : Store Element) (lists : ListStore Element) : Prop where
  represents : Represents cellSize store lists
  temporary : lists .temporary = none

/-- The specification of a call: an abstract step, and no effect if it throws. -/
def Refines (cellSize : ℕ) (runsOut : Throw → Prop) (store : Store Element)
    (lists : ListStore Element) (call : Call Element) (method : Method Element (Return Element)) :
    Prop :=
  Meets method store
    (fun value after => ∃ next, ListCall runsOut lists (.ok value) next call ∧
      Simulates cellSize after next)
    (fun error after => ListCall runsOut lists (.error error) lists call ∧ after = store)

theorem temporary_update {this : ℕ} {items : Option (List Element)}
    (htemporary : lists .temporary = none) :
    update lists (.named this) items .temporary = none := by
  rwa [update_of_ne (by simp)]

theorem Simulates.objects_temporary (hsim : Simulates cellSize store lists) :
    store.objects .temporary = none := by
  cases hobject : store.objects .temporary with
  | none => rfl
  | some vec =>
      obtain ⟨items, hitems, _⟩ := hsim.represents.owns _ vec hobject
      rw [hsim.temporary] at hitems
      exact absurd hitems (by simp)

theorem Simulates.exists_list (hsim : Simulates cellSize store lists) {this : ObjectId}
    (hlive : store.objects this ≠ none) : ∃ items, lists this = some items := by
  obtain ⟨vec, hvec⟩ := Option.ne_none_iff_exists'.1 hlive
  obtain ⟨items, hitems, _⟩ := hsim.represents.owns _ vec hvec
  exact ⟨items, hitems⟩

theorem refines_of_meets {runsOut : Throw → Prop} {Value : Type}
    {wrapResult : Value → Return Element} {method : Method Element Value} {call : Call Element}
    {post : Value → Store Element → Prop} {exceptional : Throw → Store Element → Prop}
    (hmethod : Meets method store post exceptional)
    (hpost : ∀ value after, post value after →
      ∃ next, ListCall runsOut lists (.ok (wrapResult value)) next call ∧
        Simulates cellSize after next)
    (hexceptional : ∀ error after, exceptional error after →
      ListCall runsOut lists (.error error) lists call ∧ after = store) :
    Refines cellSize runsOut store lists call (returning wrapResult method) := by
  apply (hmethod.mono hpost hexceptional).bind
  exact fun _ _ hdone => hdone

theorem refines_of_noThrow {runsOut : Throw → Prop} {Value : Type}
    {wrapResult : Value → Return Element} {method : Method Element Value} {call : Call Element}
    {post : Value → Store Element → Prop}
    (hmethod : Meets method store post (fun _ _ => False))
    (hpost : ∀ value after, post value after →
      ∃ next, ListCall runsOut lists (.ok (wrapResult value)) next call ∧
        Simulates cellSize after next) :
    Refines cellSize runsOut store lists call (returning wrapResult method) :=
  refines_of_meets hmethod hpost fun _ _ hfalse => hfalse.elim

/-! ### The calls that allocate -/

theorem copyConstruct_refines (hcell : 0 < cellSize) (choice : Option Address)
    (hsim : Simulates cellSize store lists) {this other : ℕ}
    (hlegal : Legal store (.copyConstruct this other)) :
    Refines cellSize (CallRunsOut cellSize choice store (.copyConstruct this other)) store lists
      (.copyConstruct this other) (perform cellSize choice (.copyConstruct this other)) := by
  have hrep := hsim.represents
  have htemp := hsim.temporary
  obtain ⟨items, hitems⟩ := hsim.exists_list hlegal.2
  obtain ⟨source, hsource, _⟩ := hrep.exists_members hitems
  have hruns (error : Throw) :
      CallRunsOut cellSize choice store (.copyConstruct this other) error ↔
        RunsOut cellSize choice store.heap Vec.initial source.size error := by
    simp [CallRunsOut, hsource]
  apply refines_of_meets (copyConstruct_meets hrep hcell choice hlegal.1 hsource hitems)
  · rintro _ after ⟨hroom, hafter⟩
    refine ⟨_, ⟨hrep.dead _ hlegal.1, items, hitems, Or.inl ⟨?_, rfl, rfl⟩⟩, hafter,
      temporary_update htemp⟩
    exact fun error => mt (hruns error).1 (hroom error)
  · rintro error after ⟨herror, hafter⟩
    exact ⟨⟨hrep.dead _ hlegal.1, items, hitems,
      Or.inr ⟨error, (hruns error).2 herror, rfl, rfl⟩⟩, hafter⟩

theorem copyAssign_refines (hcell : 0 < cellSize) (choice : Option Address)
    (hsim : Simulates cellSize store lists) {this other : ℕ}
    (hlegal : Legal store (.copyAssign this other)) :
    Refines cellSize (CallRunsOut cellSize choice store (.copyAssign this other)) store lists
      (.copyAssign this other) (perform cellSize choice (.copyAssign this other)) := by
  have hrep := hsim.represents
  have htemp := hsim.temporary
  obtain ⟨items, hitems⟩ := hsim.exists_list hlegal.1
  obtain ⟨right, hright⟩ := hsim.exists_list hlegal.2
  obtain ⟨source, hsource, _⟩ := hrep.exists_members hright
  have hruns (error : Throw) :
      CallRunsOut cellSize choice store (.copyAssign this other) error ↔
        this ≠ other ∧ RunsOut cellSize choice store.heap Vec.initial source.size error := by
    simp [CallRunsOut, hsource]
  have hself : ObjectId.named this ≠ .named other ↔ this ≠ other := by simp
  apply refines_of_meets
    (copyAssign_meets hrep hcell choice hsim.objects_temporary hsource hitems hright)
  · rintro _ after ⟨hroom, hafter⟩
    refine ⟨_, ⟨by simp [hitems], right, hright, Or.inl ⟨fun error => ?_, rfl, rfl⟩⟩, hafter,
      temporary_update htemp⟩
    rw [hruns]
    exact fun herror => hroom (hself.2 herror.1) error herror.2
  · rintro error after ⟨hother, herror, hafter⟩
    exact ⟨⟨by simp [hitems], right, hright,
      Or.inr ⟨error, (hruns error).2 ⟨hself.1 hother, herror⟩, rfl, rfl⟩⟩, hafter⟩

theorem pushBack_refines (hcell : 0 < cellSize) (choice : Option Address)
    (hsim : Simulates cellSize store lists) {this : ℕ} (value : Element)
    (hlegal : Legal store (.pushBack this value)) :
    Refines cellSize (CallRunsOut cellSize choice store (.pushBack this value)) store lists
      (.pushBack this value) (perform cellSize choice (.pushBack this value)) := by
  have hrep := hsim.represents
  have htemp := hsim.temporary
  obtain ⟨items, hitems⟩ := hsim.exists_list hlegal
  obtain ⟨vec, hvec, _⟩ := hrep.exists_members hitems
  have hruns (error : Throw) : CallRunsOut cellSize choice store (.pushBack this value) error ↔
      RunsOut cellSize choice store.heap vec (vec.size + 1) error := by
    simp [CallRunsOut, hvec]
  apply refines_of_meets (pushBack_meets hrep choice hcell value hvec hitems)
  · rintro _ after ⟨hroom, hafter⟩
    refine ⟨_, ⟨items, hitems, Or.inl ⟨?_, rfl, rfl⟩⟩, hafter, temporary_update htemp⟩
    exact fun error => mt (hruns error).1 (hroom error)
  · rintro error after ⟨herror, hafter⟩
    exact ⟨⟨items, hitems, Or.inr ⟨error, (hruns error).2 herror, rfl, rfl⟩⟩, hafter⟩

theorem reserve_refines (hcell : 0 < cellSize) (choice : Option Address)
    (hsim : Simulates cellSize store lists) {this newCapacity : ℕ}
    (hlegal : Legal store (.reserve this newCapacity)) :
    Refines cellSize (CallRunsOut cellSize choice store (.reserve this newCapacity)) store lists
      (.reserve this newCapacity) (perform cellSize choice (.reserve this newCapacity)) := by
  have hrep := hsim.represents
  have htemp := hsim.temporary
  obtain ⟨items, hitems⟩ := hsim.exists_list hlegal
  obtain ⟨vec, hvec, _⟩ := hrep.exists_members hitems
  have hruns (error : Throw) :
      CallRunsOut cellSize choice store (.reserve this newCapacity) error ↔
        RunsOut cellSize choice store.heap vec newCapacity error := by
    simp [CallRunsOut, hvec]
  apply refines_of_meets (reserve_meets hrep choice hcell newCapacity hvec)
  · rintro _ after ⟨hroom, hafter⟩
    refine ⟨lists, ⟨by simp [hitems], Or.inl ⟨?_, rfl, rfl⟩⟩, hafter, htemp⟩
    exact fun error => mt (hruns error).1 (hroom error)
  · rintro error after ⟨herror, hafter⟩
    exact ⟨⟨by simp [hitems], Or.inr ⟨error, (hruns error).2 herror, rfl, rfl⟩⟩, hafter⟩

/-! ### All calls -/

/-- Every legal call takes an abstract step, or throws and changes nothing. -/
theorem perform_refines (hcell : 0 < cellSize) (choice : Option Address)
    (hsim : Simulates cellSize store lists) (call : Call Element)
    (hlegal : Legal store call) :
    Refines cellSize (CallRunsOut cellSize choice store call) store lists call
      (perform cellSize choice call) := by
  have hrep := hsim.represents
  have htemp := hsim.temporary
  cases call with
  | defaultConstruct this =>
      apply refines_of_noThrow (defaultConstruct_meets hrep)
      intro _ after hafter
      exact ⟨_, ⟨hrep.dead _ hlegal, rfl, rfl⟩, hafter, temporary_update htemp⟩
  | copyConstruct this other => exact copyConstruct_refines hcell choice hsim hlegal
  | moveConstruct this other =>
      obtain ⟨items, hitems⟩ := hsim.exists_list hlegal.2
      apply refines_of_noThrow (moveConstruct_meets hrep hlegal.1 hitems)
      intro _ after hafter
      exact ⟨_, ⟨hrep.dead _ hlegal.1, items, hitems, rfl, rfl⟩, hafter,
        temporary_update (temporary_update htemp)⟩
  | destroy this =>
      obtain ⟨items, hitems⟩ := hsim.exists_list hlegal
      obtain ⟨vec, hvec, _⟩ := hrep.exists_members hitems
      apply refines_of_noThrow (destroy_meets hrep hvec)
      intro _ after hafter
      exact ⟨_, ⟨by simp [hitems], rfl, rfl⟩, hafter.1, temporary_update htemp⟩
  | copyAssign this other => exact copyAssign_refines hcell choice hsim hlegal
  | moveAssign this other =>
      obtain ⟨items, hitems⟩ := hsim.exists_list hlegal.1
      obtain ⟨right, hright⟩ := hsim.exists_list hlegal.2
      apply refines_of_noThrow (moveAssign_meets hrep hitems hright)
      intro _ after hafter
      refine ⟨_, ⟨by simp [hitems], right, hright, rfl, rfl⟩, by simpa using hafter, ?_⟩
      by_cases hself : this = other
      · rwa [if_pos hself]
      · rw [if_neg hself]
        exact temporary_update (temporary_update htemp)
  | swap this other =>
      obtain ⟨items, hitems⟩ := hsim.exists_list hlegal.1
      obtain ⟨right, hright⟩ := hsim.exists_list hlegal.2
      apply refines_of_noThrow (swap_meets hrep hitems hright)
      intro _ after hafter
      exact ⟨_, ⟨items, right, hitems, hright, rfl, rfl⟩, hafter,
        temporary_update (temporary_update htemp)⟩
  | clear this =>
      obtain ⟨items, hitems⟩ := hsim.exists_list hlegal
      obtain ⟨vec, hvec, _⟩ := hrep.exists_members hitems
      apply refines_of_noThrow (clear_meets hrep hvec)
      intro _ after hafter
      exact ⟨_, ⟨by simp [hitems], rfl, rfl⟩, hafter.1, temporary_update htemp⟩
  | reset this =>
      obtain ⟨items, hitems⟩ := hsim.exists_list hlegal
      obtain ⟨vec, hvec, _⟩ := hrep.exists_members hitems
      apply refines_of_noThrow (reset_meets hrep hvec)
      intro _ after hafter
      exact ⟨_, ⟨by simp [hitems], rfl, rfl⟩, hafter.1, temporary_update htemp⟩
  | pushBack this value => exact pushBack_refines hcell choice hsim value hlegal
  | popBack this =>
      obtain ⟨items, hitems⟩ := hsim.exists_list hlegal
      apply refines_of_meets (popBack_meets hrep hitems)
      · rintro _ after ⟨hne, hafter, _⟩
        exact ⟨_, ⟨items, hitems, Or.inl ⟨hne, rfl, rfl⟩⟩, hafter, temporary_update htemp⟩
      · rintro error after ⟨rfl, hempty, hafter⟩
        exact ⟨⟨items, hitems, Or.inr ⟨hempty, rfl, rfl⟩⟩, hafter⟩
  | erase this itr =>
      obtain ⟨items, hitems⟩ := hsim.exists_list hlegal
      apply refines_of_meets (erase_meets hrep itr hitems)
      · rintro _ after ⟨hrange, rfl, hafter⟩
        exact ⟨_, ⟨items, hitems, Or.inl ⟨hrange, rfl, rfl⟩⟩, hafter, temporary_update htemp⟩
      · rintro error after ⟨rfl, hrange, hafter⟩
        exact ⟨⟨items, hitems, Or.inr ⟨hrange, rfl, rfl⟩⟩, hafter⟩
  | eraseRange this first last =>
      obtain ⟨items, hitems⟩ := hsim.exists_list hlegal
      apply refines_of_meets (eraseRange_meets hrep first last hitems)
      · rintro _ after ⟨hrange, rfl, hafter⟩
        exact ⟨_, ⟨items, hitems, Or.inl ⟨hrange, rfl, rfl⟩⟩, hafter, temporary_update htemp⟩
      · rintro error after ⟨rfl, hne, hrange, hafter⟩
        exact ⟨⟨items, hitems, Or.inr ⟨hne, hrange, rfl, rfl⟩⟩, hafter⟩
  | reserve this newCapacity => exact reserve_refines hcell choice hsim hlegal
  | atIndex this idx =>
      obtain ⟨items, hitems⟩ := hsim.exists_list hlegal
      apply refines_of_meets (atIndex_meets hrep idx hitems)
      · rintro value after ⟨hvalue, rfl⟩
        exact ⟨lists, ⟨items, hitems, Or.inl ⟨value, hvalue, rfl, rfl⟩⟩, hsim⟩
      · rintro error after ⟨rfl, hidx, hafter⟩
        exact ⟨⟨items, hitems, Or.inr ⟨hidx, rfl, rfl⟩⟩, hafter⟩
  | release this =>
      obtain ⟨items, hitems⟩ := hsim.exists_list hlegal
      apply refines_of_noThrow (release_meets hrep hitems)
      rintro vec after ⟨hafter, howns, _⟩
      exact ⟨_, ⟨items, vec, hitems, howns.size_eq, rfl, rfl⟩, hafter, temporary_update htemp⟩

/-- A step of a program, read off the specification of its call. -/
theorem step_cases (hcell : 0 < cellSize) (hsim : Simulates cellSize store lists)
    {event : Event Element} {after : Store Element}
    (hstep : Step cellSize store event after) :
    (∃ value next, event.result = .ok value ∧
        JointStep cellSize (store, lists) event (after, next) ∧ Simulates cellSize after next) ∨
      ∃ error, event.result = .error error ∧
        JointStep cellSize (store, lists) event (store, lists) ∧ after = store := by
  have hsame := hstep
  obtain ⟨hlegal, hends⟩ := hstep
  have hrefines := perform_refines hcell event.choice hsim event.call hlegal
  rw [Refines, Meets] at hrefines
  obtain ⟨call, choice, result⟩ := event
  cases result with
  | ok value =>
      rw [show perform cellSize choice call store = _ from hends] at hrefines
      obtain ⟨next, hcall, hafter⟩ := hrefines
      exact Or.inl ⟨value, next, rfl, ⟨hsame, hcall⟩, hafter⟩
  | error error =>
      rw [show perform cellSize choice call store = _ from hends] at hrefines
      obtain ⟨hcall, rfl⟩ := hrefines
      exact Or.inr ⟨error, rfl, ⟨hsame, hcall⟩, rfl⟩

theorem step_simulated (hcell : 0 < cellSize) (hsim : Simulates cellSize store lists)
    {event : Event Element} {after : Store Element}
    (hstep : Step cellSize store event after) :
    ∃ next, JointStep cellSize (store, lists) event (after, next) ∧
      Simulates cellSize after next := by
  rcases step_cases hcell hsim hstep with ⟨_, next, _, hcall, hafter⟩ | ⟨_, _, hcall, rfl⟩
  · exact ⟨next, hcall, hafter⟩
  · exact ⟨lists, hcall, hsim⟩

theorem exists_step (hcell : 0 < cellSize) (hsim : Simulates cellSize store lists)
    (call : Call Element) (choice : Option Address) (hlegal : Legal store call) :
    ∃ result after, Step cellSize store ⟨call, choice, result⟩ after := by
  have hrefines := perform_refines hcell choice hsim call hlegal
  rw [Refines, Meets] at hrefines
  cases houtcome : perform cellSize choice call store with
  | value value after => exact ⟨.ok value, after, hlegal, houtcome⟩
  | thrown error after => exact ⟨.error error, after, hlegal, houtcome⟩
  | undefined =>
      rw [houtcome] at hrefines
      exact hrefines.elim

theorem release_step (hsim : Simulates cellSize store lists) {this : ℕ}
    {choice : Option Address} {vec : Vec} {after : Store Element}
    (hstep : Step cellSize store ⟨.release this, choice, .ok (.members vec)⟩ after) :
    ∃ items, lists (.named this) = some items ∧ Owns cellSize after.heap vec items ∧
      ∀ id found, after.objects id = some found → found.ptr = vec.ptr → vec.ptr = none := by
  obtain ⟨items, hitems⟩ := hsim.exists_list hstep.1
  have hrelease : Meets (perform cellSize choice (.release this)) store
      (fun result after => ∀ vec, result = .members vec →
        Owns cellSize after.heap vec items ∧
          ∀ id found, after.objects id = some found → found.ptr = vec.ptr → vec.ptr = none)
      (fun _ _ => False) := by
    apply (release_meets hsim.represents hitems).bind
    rintro vec after hdone _ ⟨rfl⟩
    exact hdone.2
  rw [Meets, show perform cellSize choice (.release this) store = _ from hstep.2] at hrelease
  exact ⟨items, hitems, hrelease vec rfl⟩

end Simulation

/-- A program that starts without vectors.  At every point of every run, the
vectors represent the lists that the same calls, with the same results, lead to:
sizes, capacities and pointers are consistent, and no block has two owners.  A call
throws exactly where the lists or, for want of memory, the vectors before it say so.
There every legal call is defined (in particular nothing is freed twice), a call that
throws leaves the store as it was, and what is released belongs to no vector. -/
theorem vector_refines_list {cellSize : ℕ} (hcell : 0 < cellSize) {heap : Heap Element}
    {events : List (Event Element)} {store : Store Element}
    (run : Run (Step cellSize) (noVectors heap) events store) :
    ∃ lists : ListStore Element,
      Run (JointStep cellSize) (noVectors heap, fun _ => none) events (store, lists) ∧
      Represents cellSize store lists ∧
      (∀ call choice, Legal store call →
        ∃ result after, Step cellSize store ⟨call, choice, result⟩ after) ∧
      (∀ call choice error after,
        Step cellSize store ⟨call, choice, .error error⟩ after → after = store) ∧
      ∀ this choice vec after,
        Step cellSize store ⟨.release this, choice, .ok (.members vec)⟩ after →
        ∃ items, lists (.named this) = some items ∧ Owns cellSize after.heap vec items ∧
          ∀ id found, after.objects id = some found → found.ptr = vec.ptr →
            vec.ptr = none := by
  have hstart : Simulates cellSize (noVectors heap) (fun _ => none) := by
    refine ⟨⟨fun _ _ => rfl, ?_, ?_⟩, rfl⟩
    · intro id vec hvec
      exact absurd hvec (by simp [noVectors])
    · intro id id' vec vec' address hvec
      exact absurd hvec (by simp [noVectors])
  -- the abstract state of the simulation has the vectors beside the lists
  let related (store : Store Element) (pair : Store Element × ListStore Element) : Prop :=
    pair.1 = store ∧ Simulates cellSize store pair.2
  have hrelated : related (noVectors heap) (noVectors heap, fun _ => none) := ⟨rfl, hstart⟩
  obtain ⟨⟨_, lists⟩, hjoint, rfl, hsim⟩ := run.simulated hrelated
    fun before event after pair hpair hstep => by
      obtain ⟨rfl, hsim⟩ : pair.1 = before ∧ Simulates cellSize before pair.2 := hpair
      obtain ⟨next, hnext, hafter⟩ := step_simulated hcell hsim hstep
      exact ⟨(after, next), hnext, rfl, hafter⟩
  refine ⟨lists, hjoint, hsim.represents, ?_, ?_, ?_⟩
  · exact fun call choice hlegal => exists_step hcell hsim call choice hlegal
  · intro call choice error after hstep
    rcases step_cases hcell hsim hstep with ⟨_, _, hok, _⟩ | ⟨_, _, _, hafter⟩
    · exact absurd hok (by simp)
    · exact hafter
  · exact fun this choice vec after hstep => release_step hsim hstep

/-- An element is pushed, and a copy of the vector fails for lack of memory. -/
theorem vector_refines_list_example :
    ∃ store lists, Run (JointStep 4) (noVectors (⟨fun _ => none⟩ : Heap ℕ), fun _ => none)
      [⟨.defaultConstruct 0, none, .ok .nothing⟩,
        ⟨.pushBack 0 7, some 64, .ok .nothing⟩,
        ⟨.copyConstruct 1 0, none, .error .badAlloc⟩] (store, lists) := by
  have constructed : Run (Step 4) (noVectors (⟨fun _ => none⟩ : Heap ℕ))
      [⟨.defaultConstruct 0, none, .ok .nothing⟩] _ :=
    Run.nil.snoc ⟨rfl, rfl⟩
  have pushed : Run (Step 4) (noVectors (⟨fun _ => none⟩ : Heap ℕ))
      [⟨.defaultConstruct 0, none, .ok .nothing⟩,
        ⟨.pushBack 0 7, some 64, .ok .nothing⟩] _ :=
    constructed.snoc ⟨Option.some_ne_none _, rfl⟩
  have run : Run (Step 4) (noVectors (⟨fun _ => none⟩ : Heap ℕ))
      [⟨.defaultConstruct 0, none, .ok .nothing⟩,
        ⟨.pushBack 0 7, some 64, .ok .nothing⟩,
        ⟨.copyConstruct 1 0, none, .error .badAlloc⟩] _ :=
    pushed.snoc ⟨⟨rfl, Option.some_ne_none _⟩, rfl⟩
  obtain ⟨lists, hlists, _⟩ := vector_refines_list (by decide) run
  exact ⟨_, lists, hlists⟩

end Nstl.VectorRuns
