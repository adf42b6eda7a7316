import Mathlib.Data.Finset.Basic
import Mathlib.Data.List.Infix
import Nstl.Core.Transition

/-!
# Temporary directories

`temp_dir` creates a directory with `create_directories` and removes it, with all that is in it,
at its end.  Neither is one step: missing parents are created one by one, and `remove_all` removes
one entry after the other, while other objects and other processes create and remove entries too.
An object owns a directory only if its own `mkdir` has created it.  If the mode cannot be changed
after that, or the line for the log throws, there is no object to remove the directory.

Targets are absolute, and there is no link and no `..` on them: a path names the same entry at all
times.
-/

namespace Nstl.TempDirs

open Function
open Nstl.Transition

variable {Component Name : Type*}

/-! ## Directory trees -/

abbrev Path (Component : Type*) := List Component

/-- The entries of a file system; what is in a directory is nowhere without it. -/
structure Tree (Component : Type*) where
  entries : Finset (Path Component)
  closed : ∀ parent name, parent ++ [name] ∈ entries → parent ∈ entries

namespace Tree

variable {tree : Tree Component} {path : Path Component}

/-- Everything above an entry is there. -/
theorem mem_of_isPrefix {above : Path Component} (hmem : path ∈ tree.entries)
    (habove : above <+: path) : above ∈ tree.entries := by
  obtain ⟨rest, rfl⟩ := habove
  induction rest using List.reverseRecOn with
  | nil => rwa [List.append_nil] at hmem
  | append_singleton rest name ih =>
      rw [← List.append_assoc] at hmem
      exact ih (tree.closed _ _ hmem)

/-- The path is in a directory that is there. -/
def HasParent (tree : Tree Component) (path : Path Component) : Prop :=
  ∀ parent name, path = parent ++ [name] → parent ∈ tree.entries

theorem hasParent_singleton (hroot : [] ∈ tree.entries) (name : Component) :
    tree.HasParent [name] := by
  intro parent last heq
  cases parent with
  | nil => exact hroot
  | cons head rest => simp at heq

/-- Nothing is in the path. -/
def IsLeaf (tree : Tree Component) (path : Path Component) : Prop :=
  ∀ name, path ++ [name] ∉ tree.entries

variable [DecidableEq Component]

def add (tree : Tree Component) (path : Path Component) (hparent : tree.HasParent path) :
    Tree Component where
  entries := insert path tree.entries
  closed parent name hmem := by
    rcases Finset.mem_insert.1 hmem with heq | hold
    · exact Finset.mem_insert_of_mem (hparent parent name heq.symm)
    · exact Finset.mem_insert_of_mem (tree.closed parent name hold)

def unlink (tree : Tree Component) (path : Path Component) (hleaf : tree.IsLeaf path) :
    Tree Component where
  entries := tree.entries.erase path
  closed parent name hmem := by
    have hold := Finset.mem_of_mem_erase hmem
    refine Finset.mem_erase.2 ⟨?_, tree.closed parent name hold⟩
    rintro rfl
    exact hleaf name hold

end Tree

/-! ## The objects -/

/-- Where the constructor or the destructor of an object is. -/
inductive Phase (Component : Type*) where
  /-- In `create_directories`. -/
  | constructing (target : Path Component)
  /-- Before `chmod`. -/
  | created (target : Path Component)
  /-- Before `NSTL_DEBUG`. -/
  | changed (target : Path Component)
  | alive (target : Path Component)
  /-- In `remove_all`. -/
  | destroying (target : Path Component)

/-- The directory that an object has created. -/
def Phase.owned : Phase Component → Option (Path Component)
  | .constructing _ => none
  | .created target | .changed target | .alive target | .destroying target => some target

structure State (Component Name : Type*) where
  tree : Tree Component
  object : Name → Option (Phase Component)

inductive Action (Component Name : Type*) where
  | goTo (name : Name)
  /-- `create_directories` creates a directory above the target. -/
  | parent (name : Name) (path : Path Component)
  | create (name : Name) (target : Path Component)
  /-- " cannot be created", or an exception of `create_directories` -/
  | constructFails (name : Name)
  /-- "chmod 750 failed on " before the target -/
  | chmodFails (name : Name) (target : Path Component)
  /-- An exception of `NSTL_DEBUG`. -/
  | logFails (name : Name) (target : Path Component)
  | unlink (name : Name) (path : Path Component)
  | destroyed (name : Name)
  /-- " cannot be deleted" after the target, in the log -/
  | destroyFails (name : Name) (target : Path Component)
  /-- What others do. -/
  | othersAdd (path : Path Component)
  | othersRemove (path : Path Component)

variable [DecidableEq Name]

def State.set (state : State Component Name) (name : Name) (phase : Option (Phase Component)) :
    State Component Name :=
  { state with object := update state.object name phase }

theorem State.object_set (state : State Component Name) (name : Name)
    (phase : Option (Phase Component)) :
    (state.set name phase).object = update state.object name phase := rfl

variable [DecidableEq Component]

inductive Step : State Component Name → Action Component Name → State Component Name → Prop
  | construct {state : State Component Name} {name : Name} (target : Path Component)
      (hnew : state.object name = none) :
      Step state (.goTo name) (state.set name (some (.constructing target)))
  | parent {state : State Component Name} {name : Name} {target path : Path Component}
      (hphase : state.object name = some (.constructing target)) (habove : path <+: target)
      (hne : path ≠ target) (hfree : path ∉ state.tree.entries)
      (hparent : state.tree.HasParent path) :
      Step state (.parent name path) { state with tree := state.tree.add path hparent }
  | create {state : State Component Name} {name : Name} {target : Path Component}
      (hphase : state.object name = some (.constructing target))
      (hfree : target ∉ state.tree.entries) (hparent : state.tree.HasParent target) :
      Step state (.create name target)
        ({ state with tree := state.tree.add target hparent }.set name (some (.created target)))
  -- whether the target is there already or the system refuses: there is no object
  | constructFails {state : State Component Name} {name : Name} {target : Path Component}
      (hphase : state.object name = some (.constructing target)) :
      Step state (.constructFails name) (state.set name none)
  | chmod {state : State Component Name} {name : Name} {target : Path Component}
      (hphase : state.object name = some (.created target)) :
      Step state (.goTo name) (state.set name (some (.changed target)))
  -- the destructor does not run for an object that was not constructed
  | chmodFails {state : State Component Name} {name : Name} {target : Path Component}
      (hphase : state.object name = some (.created target)) :
      Step state (.chmodFails name target) (state.set name none)
  | log {state : State Component Name} {name : Name} {target : Path Component}
      (hphase : state.object name = some (.changed target)) :
      Step state (.goTo name) (state.set name (some (.alive target)))
  -- such as for a `LOG_TZ` that is not known
  | logFails {state : State Component Name} {name : Name} {target : Path Component}
      (hphase : state.object name = some (.changed target)) :
      Step state (.logFails name target) (state.set name none)
  | destroy {state : State Component Name} {name : Name} {target : Path Component}
      (hphase : state.object name = some (.alive target)) :
      Step state (.goTo name) (state.set name (some (.destroying target)))
  | unlink {state : State Component Name} {name : Name} {target path : Path Component}
      (hphase : state.object name = some (.destroying target)) (hbelow : target <+: path)
      (hmem : path ∈ state.tree.entries) (hleaf : state.tree.IsLeaf path) :
      Step state (.unlink name path) { state with tree := state.tree.unlink path hleaf }
  -- the last thing that `remove_all` does is to remove the target, or not to find it
  | destroyed {state : State Component Name} {name : Name} {target : Path Component}
      (hphase : state.object name = some (.destroying target))
      (hgone : target ∉ state.tree.entries) :
      Step state (.destroyed name) (state.set name none)
  | destroyFails {state : State Component Name} {name : Name} {target : Path Component}
      (hphase : state.object name = some (.destroying target)) :
      Step state (.destroyFails name target) (state.set name none)
  | othersAdd {state : State Component Name} {path : Path Component}
      (hfree : path ∉ state.tree.entries) (hparent : state.tree.HasParent path) :
      Step state (.othersAdd path) { state with tree := state.tree.add path hparent }
  | othersRemove {state : State Component Name} {path : Path Component}
      (hmem : path ∈ state.tree.entries) (hleaf : state.tree.IsLeaf path) :
      Step state (.othersRemove path) { state with tree := state.tree.unlink path hleaf }

/-! ## What is never removed -/

/-- An entry that is in no directory of an object. -/
structure Outside (path : Path Component) (state : State Component Name) : Prop where
  mem : path ∈ state.tree.entries
  unowned : ∀ name phase target, state.object name = some phase → phase.owned = some target →
    ¬target <+: path

section Outside

variable {state next : State Component Name} {action : Action Component Name}
  {path : Path Component} {name : Name}

omit [DecidableEq Component] in
/-- An object that changes its phase, and owns nothing above the entry afterwards. -/
theorem Outside.set (houtside : Outside path state) (changed : Option (Phase Component))
    (hchanged : ∀ phase target, changed = some phase → phase.owned = some target →
      ¬target <+: path) : Outside path (state.set name changed) := by
  refine ⟨houtside.mem, fun other phase target hobject => ?_⟩
  by_cases hother : other = name
  · subst hother
    rw [State.object_set, update_self] at hobject
    exact hchanged phase target hobject
  · rw [State.object_set, update_of_ne hother] at hobject
    exact houtside.unowned other phase target hobject

omit [DecidableEq Component] in
/-- The same directory, in another phase. -/
theorem Outside.proceed (houtside : Outside path state) {before after : Phase Component}
    (hobject : state.object name = some before) (hsame : after.owned = before.owned) :
    Outside path (state.set name (some after)) := by
  apply houtside.set
  rintro phase target hphase howned
  obtain rfl := Option.some.inj hphase
  exact houtside.unowned name before target hobject (hsame ▸ howned)

omit [DecidableEq Component] in
theorem Outside.forget (houtside : Outside path state) :
    Outside path (state.set name none) :=
  houtside.set none fun _ _ hphase => by cases hphase

omit [DecidableEq Name] in
theorem Outside.add (houtside : Outside path state) {added : Path Component}
    (hparent : state.tree.HasParent added) :
    Outside path { state with tree := state.tree.add added hparent } :=
  ⟨Finset.mem_insert_of_mem houtside.mem, houtside.unowned⟩

omit [DecidableEq Name] in
theorem Outside.unlink (houtside : Outside path state) {removed : Path Component}
    (hleaf : state.tree.IsLeaf removed) (hne : path ≠ removed) :
    Outside path { state with tree := state.tree.unlink removed hleaf } :=
  ⟨Finset.mem_erase.2 ⟨hne, houtside.mem⟩, houtside.unowned⟩

theorem Outside.step (houtside : Outside path state) (hstep : Step state action next)
    (hothers : action ≠ .othersRemove path) : Outside path next := by
  cases hstep with
  | construct target hnew =>
      apply houtside.set
      rintro phase owned hphase howned
      obtain rfl := Option.some.inj hphase
      cases howned
  | parent hphase habove hne hfree hparent => exact houtside.add hparent
  | @create name target hphase hfree hparent =>
      refine (houtside.add hparent).set _ ?_
      rintro phase owned hnew howned habove
      obtain rfl := Option.some.inj hnew
      obtain rfl := Option.some.inj howned
      -- a directory above the entry was there already
      exact hfree (Tree.mem_of_isPrefix houtside.mem habove)
  | chmod hphase => exact houtside.proceed hphase rfl
  | log hphase => exact houtside.proceed hphase rfl
  | destroy hphase => exact houtside.proceed hphase rfl
  | @unlink name target removed hphase hbelow hmem hleaf =>
      refine houtside.unlink hleaf ?_
      rintro rfl
      exact houtside.unowned name _ target hphase rfl hbelow
  | constructFails | chmodFails | logFails | destroyed | destroyFails => exact houtside.forget
  | othersAdd hfree hparent => exact houtside.add hparent
  | othersRemove hmem hleaf =>
      refine houtside.unlink hleaf ?_
      rintro rfl
      exact hothers rfl

/-- However objects come and go and whatever others do next to them, as long as targets are absolute
and there is no link on them: what is in no directory of an object at one time is never removed by
one, not even by an object that is constructed later on a path above it. -/
theorem outside_kept {labels : List (Action Component Name)} {last : State Component Name}
    (houtside : Outside path state) (hrun : Run Step state labels last)
    (hothers : .othersRemove path ∉ labels) : Outside path last := by
  induction hrun with
  | nil => exact houtside
  | snoc _ hstep ih =>
      rw [List.mem_append, not_or, List.mem_singleton] at hothers
      exact (ih hothers.1).step hstep (Ne.symm hothers.2)

end Outside

/-- A directory next to the target of an object. -/
def oneDirectory : State ℕ Unit where
  tree := Tree.add ⟨{[]}, by simp⟩ [0]
    (Tree.hasParent_singleton (Finset.mem_singleton_self []) 0)
  object _ := some (.constructing [1])

theorem oneDirectory_hasParent : oneDirectory.tree.HasParent [1] :=
  Tree.hasParent_singleton (by decide) 1

/-- The target has been created. -/
def twoDirectories : State ℕ Unit :=
  { oneDirectory with tree := oneDirectory.tree.add [1] oneDirectory_hasParent }.set ()
    (some (.created [1]))

theorem run_twoDirectories : Run Step oneDirectory [.create () [1]] twoDirectories :=
  Run.nil.snoc (.create rfl (by decide) oneDirectory_hasParent)

/-- The mode of the target is changed. -/
def changedDirectory : State ℕ Unit := twoDirectories.set () (some (.changed [1]))

theorem run_changedDirectory :
    Run Step oneDirectory [.create () [1], .goTo ()] changedDirectory :=
  run_twoDirectories.snoc (.chmod rfl)

/-- The target is about to be removed. -/
def removing : State ℕ Unit :=
  (changedDirectory.set () (some (.alive [1]))).set () (some (.destroying [1]))

theorem run_removing :
    Run Step oneDirectory [.create () [1], .goTo (), .goTo (), .goTo ()] removing :=
  (run_changedDirectory.snoc (.log rfl)).snoc (.destroy rfl)

/-- The directory next to the target is there after the target is removed. -/
theorem outside_kept_next : ∃ labels last, Run Step oneDirectory labels last ∧
    .unlink () [1] ∈ labels ∧ Outside [0] last := by
  have hleaf : removing.tree.IsLeaf [1] := by
    intro name
    simp [removing, changedDirectory, twoDirectories, oneDirectory, State.set, Tree.add]
  have hunlink : Step removing (.unlink () [1])
      { removing with tree := removing.tree.unlink [1] hleaf } :=
    .unlink rfl List.prefix_rfl (by decide) hleaf
  have hrun := run_removing.snoc hunlink
  refine ⟨_, _, hrun, by simp, outside_kept ⟨by decide, ?_⟩ hrun (by simp)⟩
  intro name phase target hobject howned
  obtain rfl := Option.some.inj hobject
  cases howned

/-! ## What is left behind -/

/-- The steps after which an entry is there and no object owns it. -/
def Action.Leaves (path : Path Component) (action : Action Component Name) : Prop :=
  action = .othersAdd path ∨
    ∃ name, action = .parent name path ∨ action = .chmodFails name path ∨
      action = .logFails name path ∨ action = .destroyFails name path

/-- Where an entry comes from. -/
def Accounted (start : State Component Name) (labels : List (Action Component Name))
    (state : State Component Name) (path : Path Component) : Prop :=
  path ∈ start.tree.entries ∨ (∃ action ∈ labels, action.Leaves path) ∨
    ∃ name phase, state.object name = some phase ∧ phase.owned = some path

section Accounted

variable {start state next : State Component Name} {labels : List (Action Component Name)}
  {action : Action Component Name} {path : Path Component} {name : Name}

omit [DecidableEq Name] [DecidableEq Component] in
theorem Accounted.of_leaves (hleaves : action.Leaves path) :
    Accounted start (labels ++ [action]) next path :=
  .inr (.inl ⟨action, List.mem_append_right _ (List.mem_singleton_self _), hleaves⟩)

omit [DecidableEq Name] [DecidableEq Component] in
/-- Nothing changes for an entry unless its owner does. -/
theorem Accounted.of_owner (haccounted : Accounted start labels state path)
    (howner : ∀ name phase, state.object name = some phase → phase.owned = some path →
      Accounted start (labels ++ [action]) next path) :
    Accounted start (labels ++ [action]) next path := by
  rcases haccounted with hthere | ⟨label, hmem, hleaves⟩ | ⟨name, phase, hobject, howned⟩
  · exact .inl hthere
  · exact .inr (.inl ⟨label, List.mem_append_left _ hmem, hleaves⟩)
  · exact howner name phase hobject howned

omit [DecidableEq Name] [DecidableEq Component] in
theorem Accounted.same (haccounted : Accounted start labels state path)
    (hobject : next.object = state.object) :
    Accounted start (labels ++ [action]) next path :=
  haccounted.of_owner fun name phase hphase howned =>
    .inr (.inr ⟨name, phase, hobject ▸ hphase, howned⟩)

omit [DecidableEq Component] in
/-- One object changes, and what it owned is accounted for otherwise. -/
theorem Accounted.change (haccounted : Accounted start labels state path)
    {before : Phase Component} {after : Option (Phase Component)}
    (hbefore : state.object name = some before)
    (hafter : next.object = update state.object name after)
    (howner : before.owned = some path → Accounted start (labels ++ [action]) next path) :
    Accounted start (labels ++ [action]) next path := by
  apply haccounted.of_owner
  intro other phase hphase howned
  by_cases hother : other = name
  · subst hother
    obtain rfl := Option.some.inj (hbefore.symm.trans hphase)
    exact howner howned
  · rw [← update_of_ne hother after state.object, ← hafter] at hphase
    exact .inr (.inr ⟨other, phase, hphase, howned⟩)

omit [DecidableEq Component] in
/-- An object goes on with its directory. -/
theorem Accounted.proceed (haccounted : Accounted start labels state path)
    {before after : Phase Component} (hbefore : state.object name = some before)
    (hsame : after.owned = before.owned) :
    Accounted start (labels ++ [action]) (state.set name (some after)) path :=
  haccounted.change hbefore rfl fun howned =>
    .inr (.inr ⟨name, after, update_self _ _ _, hsame.trans howned⟩)

omit [DecidableEq Component] in
/-- An object gives up its directory. -/
theorem Accounted.abandon (haccounted : Accounted start labels state path)
    {before : Phase Component} {target : Path Component}
    (hbefore : state.object name = some before) (htarget : before.owned = some target)
    (hleaves : action.Leaves target) :
    Accounted start (labels ++ [action]) (state.set name none) path := by
  refine haccounted.change hbefore rfl fun howned => ?_
  obtain rfl := Option.some.inj (htarget.symm.trans howned)
  exact .of_leaves hleaves

theorem Accounted.step
    (haccounted : ∀ path ∈ state.tree.entries, Accounted start labels state path)
    (hstep : Step state action next) (hmem : path ∈ next.tree.entries) :
    Accounted start (labels ++ [action]) next path := by
  cases hstep with
  | @construct name target hnew =>
      apply (haccounted path hmem).of_owner
      intro other phase hphase howned
      have hother : other ≠ name := fun heq => by rw [heq, hnew] at hphase; cases hphase
      exact .inr (.inr ⟨other, phase, (update_of_ne hother _ _).trans hphase, howned⟩)
  | @parent name target added hphase habove hne hfree hparent =>
      rcases Finset.mem_insert.1 hmem with rfl | hold
      · exact .of_leaves (.inr ⟨name, .inl rfl⟩)
      · exact (haccounted path hold).same rfl
  | @create name target hphase hfree hparent =>
      rcases Finset.mem_insert.1 hmem with rfl | hold
      · exact .inr (.inr ⟨name, .created path, update_self _ _ _, rfl⟩)
      · exact (haccounted path hold).change hphase rfl fun howned => by cases howned
  | constructFails hphase =>
      exact (haccounted path hmem).change hphase rfl fun howned => by cases howned
  | chmod hphase => exact (haccounted path hmem).proceed hphase rfl
  | @chmodFails name target hphase =>
      exact (haccounted path hmem).abandon hphase rfl (.inr ⟨name, .inr (.inl rfl)⟩)
  | log hphase => exact (haccounted path hmem).proceed hphase rfl
  | @logFails name target hphase =>
      exact (haccounted path hmem).abandon hphase rfl (.inr ⟨name, .inr (.inr (.inl rfl))⟩)
  | destroy hphase => exact (haccounted path hmem).proceed hphase rfl
  | unlink => exact (haccounted path (Finset.mem_of_mem_erase hmem)).same rfl
  | destroyed hphase hgone =>
      refine (haccounted path hmem).change hphase rfl fun howned => ?_
      obtain rfl := Option.some.inj howned
      exact absurd hmem hgone
  | @destroyFails name target hphase =>
      exact (haccounted path hmem).abandon hphase rfl (.inr ⟨name, .inr (.inr (.inr rfl))⟩)
  | othersAdd =>
      rcases Finset.mem_insert.1 hmem with rfl | hold
      · exact .of_leaves (.inl rfl)
      · exact (haccounted path hold).same rfl
  | othersRemove => exact (haccounted path (Finset.mem_of_mem_erase hmem)).same rfl

/-- Of what objects have created they leave behind the directories above their targets, the targets
whose mode could not be changed or whose line for the log has thrown, and those whose removal has
failed; everything else that was not there before is from others, or has an owner that has not come
to its end. -/
theorem left_behind (hrun : Run Step start labels state) :
    ∀ path ∈ state.tree.entries, Accounted start labels state path := by
  induction hrun with
  | nil => exact fun path hmem => .inl hmem
  | snoc _ hstep ih => exact fun path hmem => Accounted.step ih hstep hmem

end Accounted

/-- The target is left behind by an exception of `NSTL_DEBUG`. -/
theorem left_behind_log : ∃ last,
    Run Step oneDirectory ([.create () [1], .goTo ()] ++ [.logFails () [1]]) last ∧
      last.object () = none ∧ [1] ∈ last.tree.entries ∧
      Accounted oneDirectory ([.create () [1], .goTo ()] ++ [.logFails () [1]]) last [1] := by
  have hfails : Step changedDirectory (.logFails () [1]) (changedDirectory.set () none) :=
    .logFails rfl
  have hthere : [1] ∈ changedDirectory.tree.entries := by decide
  have hrun := run_changedDirectory.snoc hfails
  exact ⟨_, hrun, rfl, hthere, left_behind hrun [1] hthere⟩

end Nstl.TempDirs
