import Nstl.Core.Ownership
import Nstl.Core.Transition

/-!
# Handles in wrappers

`custom_raii` keeps a handle of a trivial type, and frees it at its end unless it is
invalid.  Which handles are valid, and what freeing means, comes from `Tools`.  The
methods work on the handle of one wrapper, or of two of them, and yield the handles
that `Tools::free` was called with.

A program that uses wrappers is a sequence of calls on objects with names.  Next to
the objects the state keeps a history: what was freed, and what the caller has given in
and got back.
-/

namespace Nstl.CustomRaii

open Function
open Nstl.Ownership
open Nstl.Transition (Run)

structure Tools (Handle : Type) where
  invalidValue : Handle
  valid : Handle → Bool
  valid_invalidValue : valid invalidValue = false

variable {Handle : Type}

/-- File descriptors; zero does not count as valid. -/
def fileIntHandle : Tools ℤ where
  invalidValue := -1
  valid hnd := 0 < hnd
  valid_invalidValue := by decide

/-- `HANDLE`, as the bits of the pointer. -/
def windowsHandle : Tools UInt64 where
  invalidValue := -1
  valid hnd := hnd ≠ -1 && hnd ≠ 0
  valid_invalidValue := by decide

/-! ## The methods -/

section Methods

variable (tools : Tools Handle)

/-- The calls of `Tools::free`, and the handle that is kept afterwards. -/
def reset (hndlr newHndlr : Handle) : List Handle × Handle :=
  if tools.valid hndlr then ([hndlr], newHndlr) else ([], newHndlr)

/-- The result, and the handle that is kept afterwards. -/
def release (hndlr : Handle) : Handle × Handle := (hndlr, tools.invalidValue)

/-- The handle of the new wrapper, and that of the other one afterwards. -/
def moveConstruct (other : Handle) : Handle × Handle := (other, tools.invalidValue)

def swap (hndlr other : Handle) : Handle × Handle := (other, hndlr)

/-- Assignment from another wrapper: the calls of `Tools::free` and both handles
afterwards. -/
def moveAssign (hndlr other : Handle) : List Handle × Handle × Handle :=
  let (calls, hndlr) := reset tools hndlr tools.invalidValue
  (calls, swap hndlr other)

/-- The destructor. -/
def destroy (hndlr : Handle) : List Handle := (reset tools hndlr tools.invalidValue).1

end Methods

/-! ## Programs -/

inductive Call (Name Handle : Type) where
  | construct (name : Name)
  | constructFrom (name : Name) (handle : Handle)
  | moveConstruct (name other : Name)
  | moveAssign (name other : Name)
  | reset (name : Name) (handle : Handle)
  | release (name : Name)
  | swap (name other : Name)
  | swapRaw (name : Name) (handle : Handle)
  | destroy (name : Name)

structure Objects (Name Handle : Type) where
  /-- The handle of each object that exists. -/
  wrapper : Name → Option Handle
  /-- The calls of `Tools::free`. -/
  freed : List Handle
  /-- The valid handles that the caller got back and has not given in again. -/
  handedBack : Finset Handle
  /-- The valid handles that were ever given in. -/
  given : Finset Handle

variable {Name : Type}

def Objects.initial : Objects Name Handle where
  wrapper _ := none
  freed := []
  handedBack := ∅
  given := ∅

/-- A handle as something that can be owned. -/
def asItem (tools : Tools Handle) (handle : Handle) : Option Handle :=
  if tools.valid handle then some handle else none

/-- What a caller may give in: an invalid handle, or one that is neither held by a
wrapper nor freed. -/
def Objects.MayGive (tools : Tools Handle) (objects : Objects Name Handle) (handle : Handle) :
    Prop :=
  tools.valid handle = true →
    (∀ name, objects.wrapper name ≠ some handle) ∧ handle ∉ objects.freed

section Step

variable [DecidableEq Name] [DecidableEq Handle] (tools : Tools Handle)

/-- The caller gives in one handle and gets back another one. -/
def Objects.record (objects : Objects Name Handle) (back given : Option Handle) :
    Objects Name Handle :=
  { objects with
    handedBack := (objects.handedBack ∪ back.toFinset) \ given.toFinset
    given := objects.given ∪ given.toFinset }

inductive Step : Objects Name Handle → Call Name Handle → Objects Name Handle → Prop
  | construct {objects name} (hnew : objects.wrapper name = none) :
      Step objects (.construct name)
        { objects with wrapper := update objects.wrapper name (some tools.invalidValue) }
  | constructFrom {objects name handle} (hnew : objects.wrapper name = none)
      (hgive : objects.MayGive tools handle) :
      Step objects (.constructFrom name handle)
        { objects.record none (asItem tools handle) with
          wrapper := update objects.wrapper name (some handle) }
  | moveConstruct {objects name other hndlr} (hnew : objects.wrapper name = none)
      (hother : objects.wrapper other = some hndlr) :
      Step objects (.moveConstruct name other)
        { objects with
          wrapper := update (update objects.wrapper name (some (moveConstruct tools hndlr).1))
            other (some (moveConstruct tools hndlr).2) }
  -- an object that is assigned to itself is left alone
  | moveAssignSelf {objects name hndlr} (hname : objects.wrapper name = some hndlr) :
      Step objects (.moveAssign name name) objects
  | moveAssign {objects name other hndlr otherHndlr} (hne : name ≠ other)
      (hname : objects.wrapper name = some hndlr)
      (hother : objects.wrapper other = some otherHndlr) :
      Step objects (.moveAssign name other)
        { objects with
          freed := objects.freed ++ (moveAssign tools hndlr otherHndlr).1
          wrapper := update
            (update objects.wrapper name (some (moveAssign tools hndlr otherHndlr).2.1))
            other (some (moveAssign tools hndlr otherHndlr).2.2) }
  | reset {objects name handle hndlr} (hname : objects.wrapper name = some hndlr)
      (hgive : objects.MayGive tools handle) :
      Step objects (.reset name handle)
        { objects.record none (asItem tools handle) with
          freed := objects.freed ++ (reset tools hndlr handle).1
          wrapper := update objects.wrapper name (some (reset tools hndlr handle).2) }
  | release {objects name hndlr} (hname : objects.wrapper name = some hndlr) :
      Step objects (.release name)
        { objects.record (asItem tools (release tools hndlr).1) none with
          wrapper := update objects.wrapper name (some (release tools hndlr).2) }
  | swap {objects name other hndlr otherHndlr} (hname : objects.wrapper name = some hndlr)
      (hother : objects.wrapper other = some otherHndlr) :
      Step objects (.swap name other)
        { objects with
          wrapper := update (update objects.wrapper name (some (swap hndlr otherHndlr).1))
            other (some (swap hndlr otherHndlr).2) }
  | swapRaw {objects name handle hndlr} (hname : objects.wrapper name = some hndlr)
      (hgive : objects.MayGive tools handle) :
      Step objects (.swapRaw name handle)
        { objects.record (asItem tools (swap hndlr handle).2) (asItem tools handle) with
          wrapper := update objects.wrapper name (some (swap hndlr handle).1) }
  | destroy {objects name hndlr} (hname : objects.wrapper name = some hndlr) :
      Step objects (.destroy name)
        { objects with
          freed := objects.freed ++ destroy tools hndlr
          wrapper := update objects.wrapper name none }

end Step

/-! ## The ledger of a program -/

section Ledger

variable (tools : Tools Handle)

/-- The valid handle of each wrapper. -/
def holding (wrapper : Name → Option Handle) (name : Name) : Option Handle :=
  (wrapper name).bind (asItem tools)

def ledger (objects : Objects Name Handle) : Ledger Name Handle where
  holding := holding tools objects.wrapper
  returned := objects.handedBack
  ended := objects.freed
  known := objects.given

variable {tools} {wrapper : Name → Option Handle} {name : Name} {hndlr handle : Handle}

theorem asItem_eq_some_iff : asItem tools handle = some hndlr ↔
    handle = hndlr ∧ tools.valid hndlr = true := by
  rw [asItem]
  split_ifs with hvalid
  · rw [Option.some.injEq]
    exact ⟨fun heq => ⟨heq, heq ▸ hvalid⟩, And.left⟩
  · constructor
    · intro hnone
      cases hnone
    · intro hboth
      exact absurd (hboth.1 ▸ hboth.2) hvalid

@[simp]
theorem asItem_invalidValue : asItem tools tools.invalidValue = none := by
  simp [asItem, tools.valid_invalidValue]

theorem holding_eq_some_iff :
    holding tools wrapper name = some handle ↔
      wrapper name = some handle ∧ tools.valid handle = true := by
  rw [holding, Option.bind_eq_some_iff]
  constructor
  · intro hbind
    obtain ⟨value, hvalue, hitem⟩ := hbind
    obtain ⟨rfl, hvalid⟩ := asItem_eq_some_iff.1 hitem
    exact ⟨hvalue, hvalid⟩
  · intro hboth
    exact ⟨handle, hboth.1, asItem_eq_some_iff.2 ⟨rfl, hboth.2⟩⟩

theorem holding_of_eq (hname : wrapper name = some hndlr) :
    holding tools wrapper name = asItem tools hndlr := by
  rw [holding, hname, Option.bind_some]

theorem holding_update [DecidableEq Name] (value : Option Handle) :
    holding tools (update wrapper name value) =
      update (holding tools wrapper) name (value.bind (asItem tools)) := by
  funext other
  by_cases heq : other = name
  · rw [heq, holding, update_self, update_self]
  · rw [holding, update_of_ne heq, update_of_ne heq, holding]

theorem reset_handle : (reset tools hndlr handle).2 = handle := by
  rw [reset]
  split_ifs <;> rfl

theorem reset_calls : (reset tools hndlr handle).1 = (asItem tools hndlr).toList := by
  rw [reset, asItem]
  split_ifs <;> rfl

/-- A handle that the caller may give in is new to the wrappers. -/
theorem fresh_of_mayGive {objects : Objects Name Handle} (hgive : objects.MayGive tools handle) :
    ∀ item, asItem tools handle = some item →
      ¬Held (holding tools objects.wrapper) item ∧ item ∉ objects.freed := by
  intro item hitem
  obtain ⟨rfl, hvalid⟩ := asItem_eq_some_iff.1 hitem
  refine ⟨?_, (hgive hvalid).2⟩
  intro hheld
  obtain ⟨owner, howner⟩ := hheld
  exact (hgive hvalid).1 owner (holding_eq_some_iff.1 howner).1

end Ledger

/-! ## Every call is a change of the ledger -/

section Holding

variable [DecidableEq Name] {tools : Tools Handle} {wrapper : Name → Option Handle}
  {name other : Name} {hndlr otherHndlr : Handle}

/-- A wrapper that begins without a handle does not show. -/
theorem holding_construct (hnew : wrapper name = none) :
    holding tools (update wrapper name (some tools.invalidValue)) = holding tools wrapper := by
  rw [holding_update, Option.bind_some, asItem_invalidValue, update_eq_self_iff, holding, hnew,
    Option.bind_none]

theorem holding_moveConstruct (hnew : wrapper name = none)
    (hother : wrapper other = some hndlr) :
    holding tools (update (update wrapper name (some (moveConstruct tools hndlr).1))
      other (some (moveConstruct tools hndlr).2)) =
        exchange (holding tools wrapper) name other := by
  have hempty : holding tools wrapper name = none := by
    rw [holding, hnew, Option.bind_none]
  simp only [exchange_eq_update, holding_update, moveConstruct, Option.bind_some,
    asItem_invalidValue, hempty, holding_of_eq hother]

theorem holding_swap (hname : wrapper name = some hndlr)
    (hother : wrapper other = some otherHndlr) :
    holding tools (update (update wrapper name (some (swap hndlr otherHndlr).1))
      other (some (swap hndlr otherHndlr).2)) =
        exchange (holding tools wrapper) name other := by
  simp only [exchange_eq_update, holding_update, swap, Option.bind_some,
    holding_of_eq hname, holding_of_eq hother]

/-- Assignment lets go of one handle and then trades. -/
theorem holding_moveAssign (hne : name ≠ other) (hother : wrapper other = some otherHndlr) :
    holding tools (update (update wrapper name (some (moveAssign tools hndlr otherHndlr).2.1))
      other (some (moveAssign tools hndlr otherHndlr).2.2)) =
        exchange (update (holding tools wrapper) name none) name other := by
  simp only [exchange_eq_update, holding_update, moveAssign, swap, reset_handle,
    Option.bind_some, asItem_invalidValue, update_self, update_of_ne hne.symm,
    holding_of_eq hother, update_idem]

end Holding

section Linear

variable [DecidableEq Name] [DecidableEq Handle] {tools : Tools Handle}
  {objects next : Objects Name Handle} {name other : Name} {handle hndlr otherHndlr : Handle}

theorem ledger_constructFrom :
    ledger tools { objects.record none (asItem tools handle) with
      wrapper := update objects.wrapper name (some handle) } =
        (ledger tools objects).take name (asItem tools handle) := by
  simp [ledger, Ledger.take, Objects.record, holding_update]

omit [DecidableEq Handle] in
theorem ledger_moveAssign (hne : name ≠ other) (hname : objects.wrapper name = some hndlr)
    (hother : objects.wrapper other = some otherHndlr) :
    ledger tools { objects with
      freed := objects.freed ++ (moveAssign tools hndlr otherHndlr).1
      wrapper := update
        (update objects.wrapper name (some (moveAssign tools hndlr otherHndlr).2.1))
        other (some (moveAssign tools hndlr otherHndlr).2.2) } =
          ((ledger tools objects).finish name).trade name other := by
  rw [ledger, holding_moveAssign hne hother]
  simp [ledger, Ledger.finish, Ledger.trade, moveAssign, reset_calls, holding_of_eq hname]

theorem ledger_reset (hname : objects.wrapper name = some hndlr) :
    ledger tools { objects.record none (asItem tools handle) with
      freed := objects.freed ++ (reset tools hndlr handle).1
      wrapper := update objects.wrapper name (some (reset tools hndlr handle).2) } =
        ((ledger tools objects).finish name).take name (asItem tools handle) := by
  simp [ledger, Ledger.finish, Ledger.take, Objects.record, reset_handle, reset_calls,
    holding_update, holding_of_eq hname]

theorem ledger_release (hname : objects.wrapper name = some hndlr) :
    ledger tools { objects.record (asItem tools (release tools hndlr).1) none with
      wrapper := update objects.wrapper name (some (release tools hndlr).2) } =
        (ledger tools objects).giveBack name := by
  simp [ledger, Ledger.giveBack, Objects.record, release, holding_update, holding_of_eq hname]

theorem ledger_swapRaw (hname : objects.wrapper name = some hndlr) :
    ledger tools { objects.record (asItem tools (swap hndlr handle).2) (asItem tools handle) with
      wrapper := update objects.wrapper name (some (swap hndlr handle).1) } =
        ((ledger tools objects).giveBack name).take name (asItem tools handle) := by
  simp [ledger, Ledger.giveBack, Ledger.take, Objects.record, swap, holding_update,
    holding_of_eq hname]

omit [DecidableEq Handle] in
theorem ledger_destroy (hname : objects.wrapper name = some hndlr) :
    ledger tools { objects with
      freed := objects.freed ++ destroy tools hndlr
      wrapper := update objects.wrapper name none } =
        (ledger tools objects).finish name := by
  simp [ledger, Ledger.finish, destroy, reset_calls, holding_update, holding_of_eq hname]

omit [DecidableEq Handle] in
/-- What is new to the wrappers is new after one of them has let go of its handle. -/
theorem fresh_clear (hlinear : Linear (ledger tools objects))
    (hgive : objects.MayGive tools handle) (name : Name) {item : Handle}
    (hitem : asItem tools handle = some item) :
    ¬Held (update (holding tools objects.wrapper) name none) item ∧
      item ∉ objects.freed ++ (holding tools objects.wrapper name).toList := by
  obtain ⟨hheld, hfreed⟩ := fresh_of_mayGive hgive item hitem
  refine ⟨fun hclear => hheld ((held_clear_iff hlinear.exclusive).1 hclear).1, ?_⟩
  rw [List.mem_append, Option.mem_toList]
  rintro (hmem | howner)
  · exact hfreed hmem
  · exact hheld ⟨name, howner⟩

theorem linear_step {call : Call Name Handle} (hstep : Step tools objects call next)
    (hlinear : Linear (ledger tools objects)) : Linear (ledger tools next) := by
  cases hstep with
  | construct hnew =>
      rw [ledger, holding_construct hnew]
      exact hlinear
  | @constructFrom name handle hnew hgive =>
      have hempty : holding tools objects.wrapper name = none := by
        rw [holding, hnew, Option.bind_none]
      rw [ledger_constructFrom]
      exact hlinear.take hempty (fresh_of_mayGive hgive)
  | moveConstruct hnew hother =>
      rw [ledger, holding_moveConstruct hnew hother]
      exact hlinear.trade _
  | moveAssignSelf hname => exact hlinear
  | moveAssign hne hname hother =>
      rw [ledger_moveAssign hne hname hother]
      exact hlinear.finish.trade _
  | reset hname hgive =>
      rw [ledger_reset hname]
      exact hlinear.finish.take (update_self ..) fun _ hitem =>
        fresh_clear hlinear hgive _ hitem
  | release hname =>
      rw [ledger_release hname]
      exact hlinear.giveBack
  | swap hname hother =>
      rw [ledger, holding_swap hname hother]
      exact hlinear.trade _
  | @swapRaw name handle hndlr hname hgive =>
      rw [ledger_swapRaw hname]
      refine hlinear.giveBack.take (update_self ..) ?_
      intro item hitem
      exact ⟨(fresh_clear hlinear hgive name hitem).1, (fresh_of_mayGive hgive item hitem).2⟩
  | destroy hname =>
      rw [ledger_destroy hname]
      exact hlinear.finish

omit [DecidableEq Name] [DecidableEq Handle] in
theorem linear_initial : Linear (ledger tools (Objects.initial : Objects Name Handle)) where
  exclusive := by simp [Exclusive, ledger, holding, Objects.initial]
  held := by simp [Held, ledger, holding, Objects.initial]
  returned := by simp [ledger, Objects.initial]
  ended := by simp [ledger, Objects.initial]
  nodup := List.nodup_nil
  placed := by simp [ledger, Objects.initial]

/-- Only valid handles are known to the ledger, so only such are freed. -/
theorem given_valid_step {call : Call Name Handle} (hstep : Step tools objects call next)
    (hvalid : ∀ handle ∈ objects.given, tools.valid handle = true) :
    ∀ handle ∈ next.given, tools.valid handle = true := by
  have hrecord : ∀ back handle, ∀ item ∈ (objects.record back (asItem tools handle)).given,
      tools.valid item = true := by
    intro back handle item hitem
    rcases Finset.mem_union.1 hitem with hbefore | hnew
    · exact hvalid item hbefore
    · exact (asItem_eq_some_iff.1 (Option.mem_toFinset.1 hnew)).2
  cases hstep with
  | constructFrom hnew hgive => exact hrecord none _
  | reset hname hgive => exact hrecord none _
  | release hname => simpa [Objects.record] using hvalid
  | @swapRaw name handle hndlr hname hgive => exact hrecord (asItem tools hndlr) handle
  | _ => exact hvalid

end Linear

/-! ## Runs -/

/-- In every program over any number of wrappers, every valid handle that was given in
is held by exactly one wrapper, or was handed back, or was freed, exactly once, and only
one of these; `Tools::free` is called with valid handles only; and when no wrapper is
left, every handle was freed or handed back. -/
theorem handles_freed_once [DecidableEq Name] [DecidableEq Handle] {tools : Tools Handle}
    {calls : List (Call Name Handle)} {objects : Objects Name Handle}
    (run : Run (Step tools) Objects.initial calls objects) :
    (∀ handle ∈ objects.given,
      (∃! name, objects.wrapper name = some handle) ∧ handle ∉ objects.handedBack ∧
          objects.freed.count handle = 0 ∨
        (∀ name, objects.wrapper name ≠ some handle) ∧ handle ∈ objects.handedBack ∧
          objects.freed.count handle = 0 ∨
        (∀ name, objects.wrapper name ≠ some handle) ∧ handle ∉ objects.handedBack ∧
          objects.freed.count handle = 1) ∧
      (∀ handle ∈ objects.freed, tools.valid handle = true) ∧
      ((∀ name, objects.wrapper name = none) → ∀ handle ∈ objects.given,
        handle ∈ objects.handedBack ∨ objects.freed.count handle = 1) := by
  have hlinear := run.invariant (fun objects => Linear (ledger tools objects)) linear_initial
    fun _ _ _ hbefore hstep => linear_step hstep hbefore
  have hvalid := run.invariant
    (fun objects => ∀ handle ∈ objects.given, tools.valid handle = true)
    (by simp [Objects.initial]) fun _ _ _ hbefore hstep => given_valid_step hstep hbefore
  -- for a handle that was given in the ledger and the wrappers say the same
  have hholding : ∀ handle ∈ objects.given, ∀ name,
      (ledger tools objects).holding name = some handle ↔ objects.wrapper name = some handle := by
    intro handle hgiven name
    rw [ledger, holding_eq_some_iff]
    exact and_iff_left (hvalid handle hgiven)
  refine ⟨?_, fun handle hfreed => hvalid handle (hlinear.ended handle hfreed), ?_⟩
  · intro handle hgiven
    have hplace := hlinear.exactly_one hgiven
    simp only [Held, not_exists, hholding handle hgiven] at hplace
    exact hplace
  · intro hgone handle hgiven
    rcases hlinear.exactly_one hgiven with
      ⟨⟨name, hname, _⟩, _⟩ | ⟨_, hback, _⟩ | ⟨_, _, hfreed⟩
    · have hwrapper := (hholding handle hgiven name).1 hname
      rw [hgone name] at hwrapper
      cases hwrapper
    · exact Or.inl hback
    · exact Or.inr hfreed

/-- A descriptor is replaced by another one, which is then released. -/
theorem handles_freed_once_example :
    ∃ objects : Objects Bool ℤ, objects.given = {5, 6} ∧ objects.freed = [5] ∧
      ∀ handle ∈ objects.given,
        handle ∈ objects.handedBack ∨ objects.freed.count handle = 1 := by
  have run : Run (Step fileIntHandle) (Objects.initial : Objects Bool ℤ)
      [.constructFrom true 5, .reset true 6, .moveConstruct false true, .release false,
        .destroy true, .destroy false] _ :=
    .snoc (.snoc (.snoc (.snoc (.snoc (.snoc .nil
      (.constructFrom rfl fun _ => ⟨fun _ => nofun, by decide⟩))
      (.reset rfl fun _ => ⟨fun name => by cases name <;> decide, by decide⟩))
      (.moveConstruct rfl rfl)) (.release rfl)) (.destroy rfl)) (.destroy rfl)
  refine ⟨_, rfl, rfl, (handles_freed_once run).2.2 ?_⟩
  intro name
  cases name <;> rfl

end Nstl.CustomRaii
