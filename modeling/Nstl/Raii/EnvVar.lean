import Mathlib.Logic.Function.Basic
import Nstl.Core.Environ
import Nstl.Core.Transition

/-!
# Environment variables in guards

`env_var_raii` sets or removes an environment variable and puts the old state back at
its end.  What it has to put back is recorded at construction: the old value, if there
was one, and whether there is nothing to do at all.

While a guard is alive the process may change the environment by other means, directly
or through further guards.
-/

namespace Nstl.EnvVar

open Function
open Nstl.ByteString
open Nstl.Environ
open Nstl.Transition (Run)

/-! ## The environment -/

/-- The environment of the process; its entries are C strings. -/
structure Environment where
  entries : List Bytes
  noNul : ∀ text ∈ entries, nul ∉ text

namespace Environment

variable (env : Environment)

def getenv (name : Bytes) : Option Bytes := Environ.getenv env.entries (cString name)

/-- The value of a variable, which `getenv` finds under its name. -/
def lookup (name : Bytes) : Option Bytes :=
  if ValidName name then Environ.getenv env.entries name else none

/-- `setenv` with overwriting; it fails on a name that is not valid. -/
def setenv (name value : Bytes) : Option Environment :=
  if ValidName (cString name) then
    some
      { entries := setEntry (cString name) (cString value) env.entries
        noNul := fun text hmem => (mem_setEntry hmem).elim
          (fun hentry => hentry ▸
            nul_notMem_entry (nul_notMem_cString name) (nul_notMem_cString value))
          (env.noNul text) }
  else none

def unsetenv (name : Bytes) : Option Environment :=
  if ValidName (cString name) then
    some
      { entries := removeEntries (cString name) env.entries
        noNul := fun text hmem => env.noNul text (List.mem_of_mem_filter hmem) }
  else none

variable {env}

theorem nul_notMem_of_getenv {name value : Bytes} (hget : env.getenv name = some value) :
    nul ∉ value := by
  have hentry := env.noNul _ (mem_of_getenv hget)
  exact fun hmem => hentry (List.mem_append_right _ (List.mem_cons_of_mem _ hmem))

theorem getenv_of_validName {name : Bytes} (hname : ValidName (cString name)) :
    env.getenv name = env.lookup (cString name) :=
  (if_pos hname).symm

theorem lookup_of_getenv {name : Bytes} (hget : env.getenv name = none) :
    env.lookup (cString name) = none := by
  rw [lookup]
  split
  next => exact hget
  next => rfl

/-- What is found under every variable's name is what the variables are. -/
theorem lookup_eq_update {next : Environment} {name : Bytes} {value : Option Bytes}
    (hname : ValidName name)
    (hget : ∀ other, ValidName other → Environ.getenv next.entries other =
      if other = name then value else Environ.getenv env.entries other) :
    next.lookup = update env.lookup name value := by
  funext other
  rw [update_apply, lookup, lookup]
  by_cases hother : ValidName other
  · rw [if_pos hother, if_pos hother, hget other hother]
  · have hne : other ≠ name := fun heq => hother (heq ▸ hname)
    rw [if_neg hother, if_neg hother, if_neg hne]

/-- What a successful `setenv` leaves behind. -/
theorem lookup_of_setenv {name value : Bytes} {next : Environment}
    (hset : env.setenv name value = some next) :
    ValidName (cString name) ∧
      next.lookup = update env.lookup (cString name) (some (cString value)) := by
  rw [setenv] at hset
  split at hset
  next hname =>
    obtain rfl := Option.some.inj hset
    exact ⟨hname, lookup_eq_update hname fun _ hother => getenv_setEntry hname hother _⟩
  next => cases hset

theorem lookup_of_unsetenv {name : Bytes} {next : Environment}
    (hunset : env.unsetenv name = some next) :
    ValidName (cString name) ∧ next.lookup = update env.lookup (cString name) none := by
  rw [unsetenv] at hunset
  split at hunset
  next hname =>
    obtain rfl := Option.some.inj hunset
    exact ⟨hname, lookup_eq_update hname fun _ hother => getenv_removeEntries hname hother⟩
  next => cases hunset

theorem lookup_setenv_of_ne {name value watched : Bytes} (hne : cString name ≠ watched) :
    ((env.setenv name value).getD env).lookup watched = env.lookup watched := by
  cases hset : env.setenv name value with
  | none => rfl
  | some next =>
      rw [Option.getD_some, (lookup_of_setenv hset).2, update_of_ne hne.symm]

theorem lookup_unsetenv_of_ne {name watched : Bytes} (hne : cString name ≠ watched) :
    ((env.unsetenv name).getD env).lookup watched = env.lookup watched := by
  cases hunset : env.unsetenv name with
  | none => rfl
  | some next =>
      rw [Option.getD_some, (lookup_of_unsetenv hunset).2, update_of_ne hne.symm]

end Environment

/-! ## The guard -/

/-- The fields of the guard. -/
structure Guard where
  name : Bytes
  prev : Option Bytes
  noop : Bool
  validName : noop = false → ValidName (cString name)
  noNul : ∀ {value}, prev = some value → nul ∉ value

/-- The exceptions of the constructor, two of them with the name in their text. -/
inductive EnvError where
  /-- "enivronment variable name cannot be nullptr" -/
  | emptyName
  /-- " enivronment variable cannot be set" after the name -/
  | cannotBeSet (name : Bytes)
  /-- " cannot be removed" after the name -/
  | cannotBeRemoved (name : Bytes)

/-- The constructor, with the environment that it leaves behind. -/
def construct (env : Environment) (name : Bytes) (value : Option Bytes) :
    Except EnvError (Guard × Environment) :=
  if name = [] then .error .emptyName
  else
    match value with
    | some value =>
        match hset : env.setenv name value with
        | none => .error (.cannotBeSet name)
        | some next =>
            .ok (⟨name, env.getenv name, false,
              fun _ => (Environment.lookup_of_setenv hset).1,
              Environment.nul_notMem_of_getenv⟩, next)
    | none =>
        if (env.getenv name).isSome then
          match hunset : env.unsetenv name with
          | none => .error (.cannotBeRemoved name)
          | some next =>
              .ok (⟨name, env.getenv name, false,
                fun _ => (Environment.lookup_of_unsetenv hunset).1,
                Environment.nul_notMem_of_getenv⟩, next)
        else
          .ok (⟨name, env.getenv name, true, by simp, Environment.nul_notMem_of_getenv⟩, env)

/-- The destructor, which ignores failures. -/
def Guard.destroy (guard : Guard) (env : Environment) : Environment :=
  if guard.noop then env
  else
    match guard.prev with
    | some prev => (env.setenv guard.name prev).getD env
    | none => (env.unsetenv guard.name).getD env

/-- What the constructor records, and the one variable that it changes. -/
structure Constructed (env : Environment) (name : Bytes) (value : Option Bytes)
    (guard : Guard) (next : Environment) : Prop where
  name_eq : guard.name = name
  prev_eq : guard.prev = env.lookup (cString name)
  noop_iff : guard.noop = true ↔ value = none ∧ env.lookup (cString name) = none
  lookup_eq : next.lookup = update env.lookup (cString name) (value.map cString)

theorem construct_spec {env next : Environment} {name : Bytes} {value : Option Bytes}
    {guard : Guard} (hconstruct : construct env name value = .ok (guard, next)) :
    Constructed env name value guard next := by
  unfold construct at hconstruct
  split at hconstruct
  next => cases hconstruct
  next =>
    split at hconstruct
    next value =>
      split at hconstruct
      next => cases hconstruct
      next hset =>
        obtain ⟨rfl, rfl⟩ := Prod.mk.inj (Except.ok.inj hconstruct)
        obtain ⟨hname, hlookup⟩ := Environment.lookup_of_setenv hset
        exact ⟨rfl, Environment.getenv_of_validName hname, by simp, hlookup⟩
    next =>
      split at hconstruct
      next hprev =>
        split at hconstruct
        next => cases hconstruct
        next hunset =>
          obtain ⟨rfl, rfl⟩ := Prod.mk.inj (Except.ok.inj hconstruct)
          obtain ⟨hname, hlookup⟩ := Environment.lookup_of_unsetenv hunset
          have hget : env.getenv name = env.lookup (cString name) :=
            Environment.getenv_of_validName hname
          have hpresent : env.lookup (cString name) ≠ none :=
            Option.isSome_iff_ne_none.1 (hget ▸ hprev)
          exact ⟨rfl, hget, by simp [hpresent], hlookup⟩
      next hprev =>
        obtain ⟨rfl, rfl⟩ := Prod.mk.inj (Except.ok.inj hconstruct)
        have hget := Option.not_isSome_iff_eq_none.1 hprev
        have habsent := Environment.lookup_of_getenv hget
        exact ⟨rfl, hget.trans habsent.symm, by simp [habsent],
          (update_eq_self_iff.2 habsent.symm).symm⟩

theorem lookup_destroy (guard : Guard) (env : Environment) :
    (guard.destroy env).lookup =
      if guard.noop then env.lookup
      else update env.lookup (cString guard.name) guard.prev := by
  rw [Guard.destroy]
  cases hnoop : guard.noop with
  | true => rfl
  | false =>
      have hname := guard.validName hnoop
      cases hprev : guard.prev with
      | some prev =>
          obtain ⟨next, hset⟩ : ∃ next, env.setenv guard.name prev = some next :=
            ⟨_, if_pos hname⟩
          have hlookup := (Environment.lookup_of_setenv hset).2
          rw [(cString_eq_self_iff prev).2 (guard.noNul hprev)] at hlookup
          simp only [hset, Option.getD_some, hlookup, Bool.false_eq_true, if_false]
      | none =>
          obtain ⟨next, hunset⟩ : ∃ next, env.unsetenv guard.name = some next :=
            ⟨_, if_pos hname⟩
          have hlookup := (Environment.lookup_of_unsetenv hunset).2
          simp only [hunset, Option.getD_some, hlookup, Bool.false_eq_true, if_false]

/-- A guard that is destroyed at once leaves every variable as it was. -/
theorem lookup_destroy_construct {env next : Environment} {name : Bytes} {value : Option Bytes}
    {guard : Guard} (hconstruct : construct env name value = .ok (guard, next)) :
    (guard.destroy next).lookup = env.lookup := by
  obtain ⟨hname, hprev, hnoop, hlookup⟩ := construct_spec hconstruct
  rw [lookup_destroy, hlookup, hname, hprev]
  split
  next hactive =>
    obtain ⟨rfl, habsent⟩ := hnoop.1 hactive
    exact update_eq_self_iff.2 habsent.symm
  next => rw [update_idem, update_eq_self]

/-! ## Changes while a guard is alive -/

/-- What may happen: direct changes, and further guards, which need not be destroyed in
the reverse order of their construction. -/
inductive Change where
  | setenv (name value : Bytes)
  | unsetenv (name : Bytes)
  | construct (name : Bytes) (value : Option Bytes)
  | destroy (index : ℕ)

/-- The environment and the further guards, the latest one first. -/
structure Process where
  env : Environment
  guards : List Guard

inductive Step : Process → Change → Process → Prop
  | setenv {process name value} :
      Step process (.setenv name value)
        { process with env := (process.env.setenv name value).getD process.env }
  | unsetenv {process name} :
      Step process (.unsetenv name)
        { process with env := (process.env.unsetenv name).getD process.env }
  | construct {process name value guard next}
      (hconstruct : construct process.env name value = .ok (guard, next)) :
      Step process (.construct name value) ⟨next, guard :: process.guards⟩
  | constructThrows {process name value failure}
      (hconstruct : construct process.env name value = .error failure) :
      Step process (.construct name value) process
  | destroy {process index guard} (hguard : process.guards[index]? = some guard) :
      Step process (.destroy index) ⟨guard.destroy process.env, process.guards.eraseIdx index⟩

/-- The end of the guards, the latest one first. -/
def unwind (guards : List Guard) (env : Environment) : Environment :=
  guards.foldl (fun env guard => guard.destroy env) env

/-- Guards do not mix the variables. -/
theorem lookup_unwind_congr (guards : List Guard) {env other : Environment} {watched : Bytes}
    (hlookup : env.lookup watched = other.lookup watched) :
    (unwind guards env).lookup watched = (unwind guards other).lookup watched := by
  induction guards generalizing env other with
  | nil => exact hlookup
  | cons guard guards ih =>
      apply ih
      rw [lookup_destroy, lookup_destroy]
      split
      next => exact hlookup
      next => simp only [update_apply, hlookup]

/-- Changes that respect a variable: it is not changed directly, and the guards are
destroyed in the reverse order. -/
def Change.Scoped (watched : Bytes) : Change → Prop
  | .setenv name _ => cString name ≠ watched
  | .unsetenv name => cString name ≠ watched
  | .construct _ _ => True
  | .destroy index => index = 0

/-- What the end of the guards would make of the variable is kept by every such step. -/
theorem Step.lookup_unwind {watched : Bytes} {before after : Process} {change : Change}
    (hstep : Step before change after) (hscoped : change.Scoped watched) :
    (unwind after.guards after.env).lookup watched =
      (unwind before.guards before.env).lookup watched := by
  cases hstep with
  | setenv => exact lookup_unwind_congr _ (Environment.lookup_setenv_of_ne hscoped)
  | unsetenv => exact lookup_unwind_congr _ (Environment.lookup_unsetenv_of_ne hscoped)
  | construct hconstruct =>
      rw [unwind, List.foldl_cons]
      exact lookup_unwind_congr _ (congrFun (lookup_destroy_construct hconstruct) watched)
  | constructThrows => rfl
  | destroy hguard =>
      obtain rfl : _ = 0 := hscoped
      obtain ⟨guards, hguards⟩ := List.head?_eq_some_iff.1 (List.head?_eq_getElem?.trans hguard)
      rw [hguards, List.eraseIdx_cons_zero, unwind, unwind, List.foldl_cons]

/-- Changes that respect a variable leave it as it is once the guards have gone. -/
theorem lookup_of_scoped {env last : Environment} {changes : List Change} {watched : Bytes}
    (hrun : Run Step ⟨env, []⟩ changes ⟨last, []⟩)
    (hscoped : ∀ change ∈ changes, change.Scoped watched) :
    last.lookup watched = env.lookup watched := by
  let kept (process : Process) : Prop :=
    (unwind process.guards process.env).lookup watched = env.lookup watched
  have hkept : kept ⟨last, []⟩ :=
    (hrun.restrict (Change.Scoped watched) hscoped).invariant kept rfl
      fun _ _ _ hbefore hstep => (hstep.1.lookup_unwind hstep.2).trans hbefore
  exact hkept

/-- A guard that does nothing leaves its variable to others; every other one puts it
back. -/
theorem lookup_destroy_self_iff {env next : Environment} {name : Bytes} {value : Option Bytes}
    {guard : Guard} (hconstructed : Constructed env name value guard next)
    (last : Environment) :
    (guard.destroy last).lookup (cString name) = env.lookup (cString name) ↔
      (value = none → env.lookup (cString name) = none → last.lookup (cString name) = none) := by
  obtain ⟨hname, hprev, hnoop, -⟩ := hconstructed
  rw [lookup_destroy, hname, hprev]
  split
  next hactive =>
    obtain ⟨rfl, habsent⟩ := hnoop.1 hactive
    simp [habsent]
  next hactive =>
    rw [update_self]
    exact iff_of_true rfl fun hvalue habsent => absurd (hnoop.2 ⟨hvalue, habsent⟩) hactive

/-- A guard puts its variable back, unless it was told to remove a variable that did not
exist: then the variable must still, or again, be missing at the guard's end, as it is
after changes that respect it.  No other variable is changed by the guard. -/
theorem guard_restores_iff {env next last : Environment} {name : Bytes} {value : Option Bytes}
    {guard : Guard} (hconstruct : construct env name value = .ok (guard, next))
    {changes : List Change} (hrun : Run Step ⟨next, []⟩ changes ⟨last, []⟩) :
    ((guard.destroy last).lookup (cString name) = env.lookup (cString name) ↔
      (value = none → env.lookup (cString name) = none → last.lookup (cString name) = none)) ∧
    ((∀ change ∈ changes, change.Scoped (cString name)) →
      (guard.destroy last).lookup (cString name) = env.lookup (cString name)) ∧
    ∀ other, other ≠ cString name →
      next.lookup other = env.lookup other ∧
        (guard.destroy last).lookup other = last.lookup other := by
  have hconstructed := construct_spec hconstruct
  have hself := lookup_destroy_self_iff hconstructed last
  obtain ⟨hname, -, -, hlookup⟩ := hconstructed
  refine ⟨hself, fun hscoped => hself.2 fun hvalue _ => ?_, fun other hother => ⟨?_, ?_⟩⟩
  · rw [lookup_of_scoped hrun hscoped, hlookup, update_self, hvalue]
    rfl
  · rw [hlookup, update_of_ne hother]
  · rw [lookup_destroy, hname]
    split
    next => rfl
    next => rw [update_of_ne hother]

/-! ## A variable that did not exist -/

/-- The environment without variables. -/
def Environment.empty : Environment where
  entries := []
  noNul text hmem := by cases hmem

/-- A guard that has set the variable removes it again, although it was changed. -/
theorem guard_restores_absent :
    ∃ guard next last, construct .empty [65] (some [66]) = .ok (guard, next) ∧
      Run Step ⟨next, []⟩ [.setenv [65] [67]] ⟨last, []⟩ ∧
      (guard.destroy last).lookup (cString [65]) = Environment.empty.lookup (cString [65]) := by
  obtain ⟨guard, next, hconstruct⟩ :
      ∃ guard next, construct .empty [65] (some [66]) = .ok (guard, next) := ⟨_, _, rfl⟩
  have hrun : Run Step ⟨next, []⟩ [.setenv [65] [67]] ⟨_, []⟩ := Run.nil.snoc .setenv
  exact ⟨guard, next, _, hconstruct, hrun, (guard_restores_iff hconstruct hrun).1.2 (by simp)⟩

/-- A guard that had nothing to remove leaves a variable behind that was set in the
meantime. -/
theorem guard_leaves_variable :
    ∃ guard next last, construct .empty [65] none = .ok (guard, next) ∧
      Run Step ⟨next, []⟩ [.setenv [65] [66]] ⟨last, []⟩ ∧
      Environment.empty.lookup [65] = none ∧ (guard.destroy last).lookup [65] = some [66] :=
  ⟨_, _, _, rfl, Run.nil.snoc .setenv, rfl, rfl⟩

end Nstl.EnvVar
