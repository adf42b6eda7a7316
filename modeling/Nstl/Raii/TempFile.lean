import Nstl.Raii.CustomRaii

/-!
# Temporary files

`temp_file` creates a file that must not exist before, and removes it when the object
that owns it comes to its end.  What an object owns is spread over its path, a flag and
a descriptor in a wrapper; moves and swaps pass it on.

The system is seen through the entries of its directories.  `open` creates an entry
that does not exist, with any descriptor that is not negative, or fails; removing an
entry may fail as well, which the destructor ignores; nobody else touches the entries.
The specification says only who owns which entry, and that it is removed in the end.
-/

namespace Nstl.TempFiles

open Function
open Nstl.CustomRaii (fileIntHandle)
open Nstl.Ownership
open Nstl.Transition (Run)

/-! ## The methods -/

inductive Mode where
  | write
  | readWrite
  deriving DecidableEq, Repr

structure TempFile (Path : Type) where
  target : Path
  owned : Bool
  readable : Bool
  handler : ℤ

section Methods

variable {Path : Type}

/-- The private constructor for an object without a file. -/
def empty (emptyPath : Path) : TempFile Path :=
  ⟨emptyPath, false, false, fileIntHandle.invalidValue⟩

/-- The constructor, for a path that exists or not, and the result of `open` on it; there
is no object when it throws. -/
def construct (target : Path) (mode : Mode) (present : Bool) (opened : ℤ) :
    Option (TempFile Path) :=
  let handler := (CustomRaii.reset fileIntHandle fileIntHandle.invalidValue opened).2
  if fileIntHandle.valid handler then some ⟨target, !present, mode = .readWrite, handler⟩
  else none

/-- The destructor: the path that it removes. -/
def destroy (file : TempFile Path) : Option Path :=
  if fileIntHandle.valid file.handler then
    if file.owned then some file.target else none
  else none

/-- The new object, and the other one afterwards; a path that is moved from is left with
any value. -/
def moveConstruct (leftPath : Path) (other : TempFile Path) : TempFile Path × TempFile Path :=
  let (handler, otherHandler) := CustomRaii.moveConstruct fileIntHandle other.handler
  (⟨other.target, other.owned, other.readable, handler⟩,
    ⟨leftPath, false, false, otherHandler⟩)

def swap (file other : TempFile Path) : TempFile Path × TempFile Path :=
  let (handler, otherHandler) := CustomRaii.swap file.handler other.handler
  (⟨other.target, other.owned, other.readable, handler⟩,
    ⟨file.target, file.owned, file.readable, otherHandler⟩)

/-- Assignment from another object: the path that is removed, and both objects
afterwards. -/
def moveAssign (emptyPath : Path) (file other : TempFile Path) :
    Option Path × TempFile Path × TempFile Path :=
  let (file, other) := swap file other
  let (tmp, other) := swap (empty emptyPath) other
  (destroy tmp, file, other)

end Methods

/-! ## Programs -/

/-- Constructors that throw come with the descriptor they got, if they came as far as
`open`; the calls that may remove a file come with whether the removal fails. -/
inductive Call (Name Path : Type) where
  | construct (name : Name) (target : Path) (mode : Mode) (opened : ℤ)
  | constructThrows (name : Name) (target : Path) (opened : Option ℤ)
  | moveConstruct (name other : Name)
  | moveAssign (name other : Name) (fails : Bool)
  | swap (name other : Name)
  | destroy (name : Name) (fails : Bool)

structure Program (Name Path Entry : Type) where
  object : Name → Option (TempFile Path)
  files : Finset Entry

/-- A program that starts on the files that are there. -/
def Program.initial {Name Path Entry : Type} (files : Finset Entry) :
    Program Name Path Entry where
  object _ := none
  files := files

/-- The result of `open` with `O_CREAT` and `O_EXCL`. -/
inductive Opens {Entry : Type} [DecidableEq Entry] (files : Finset Entry) (entry : Entry) :
    ℤ → Finset Entry → Prop
  | created {fd : ℤ} (hfd : 0 ≤ fd) (hfree : entry ∉ files) :
      Opens files entry fd (insert entry files)
  | failed : Opens files entry (-1) files

section Step

variable {Name Path Entry : Type} [DecidableEq Name] [DecidableEq Entry] (emptyPath : Path)
  (resolve : Path → Entry)

/-- What `fs::remove` leaves of the files. -/
def removed (files : Finset Entry) (path : Option Path) (fails : Bool) : Finset Entry :=
  if fails then files else files \ (path.map resolve).toFinset

inductive Step : Program Name Path Entry → Call Name Path → Program Name Path Entry → Prop
  | construct {program name target mode opened present file files}
      (hnew : program.object name = none)
      (hpresent : present = true → resolve target ∈ program.files)
      (hopens : Opens program.files (resolve target) opened files)
      (hfile : construct target mode present opened = some file) :
      Step program (.construct name target mode opened)
        { program with object := update program.object name (some file), files := files }
  | constructThrows {program name target mode opened present files}
      (hnew : program.object name = none)
      (hpresent : present = true → resolve target ∈ program.files)
      (hopens : Opens program.files (resolve target) opened files)
      (hthrows : construct target mode present opened = none) :
      Step program (.constructThrows name target (some opened)) { program with files := files }
  | constructThrowsEarly {program name target} (hnew : program.object name = none) :
      Step program (.constructThrows name target none) program
  | moveConstruct {program name other file} (leftPath : Path)
      (hnew : program.object name = none) (hother : program.object other = some file) :
      Step program (.moveConstruct name other)
        { program with
          object := update (update program.object name (some (moveConstruct leftPath file).1))
            other (some (moveConstruct leftPath file).2) }
  | moveAssignSelf {program name file} (hname : program.object name = some file) :
      Step program (.moveAssign name name false) program
  | moveAssign {program name other file otherFile fails} (hne : name ≠ other)
      (hname : program.object name = some file)
      (hother : program.object other = some otherFile)
      (hfails : fails = true → (moveAssign emptyPath file otherFile).1 ≠ none) :
      Step program (.moveAssign name other fails)
        { program with
          object := update
            (update program.object name (some (moveAssign emptyPath file otherFile).2.1))
            other (some (moveAssign emptyPath file otherFile).2.2)
          files := removed resolve program.files (moveAssign emptyPath file otherFile).1 fails }
  | swap {program name other file otherFile} (hname : program.object name = some file)
      (hother : program.object other = some otherFile) :
      Step program (.swap name other)
        { program with
          object := update (update program.object name (some (swap file otherFile).1))
            other (some (swap file otherFile).2) }
  | destroy {program name file fails} (hname : program.object name = some file)
      (hfails : fails = true → destroy file ≠ none) :
      Step program (.destroy name fails)
        { program with
          object := update program.object name none
          files := removed resolve program.files (destroy file) fails }

end Step

/-! ## The specification -/

/-- Which entry each object owns. -/
structure Owners (Name Entry : Type) where
  holding : Name → Option Entry
  files : Finset Entry

def Owners.initial {Name Entry : Type} (files : Finset Entry) : Owners Name Entry :=
  ⟨fun _ => none, files⟩

section Spec

variable {Name Path Entry : Type} [DecidableEq Name] [DecidableEq Entry]
  (resolve : Path → Entry)

/-- An owner gives up its entry, which is removed. -/
def Owners.giveUp (owners : Owners Name Entry) (name : Name) : Owners Name Entry where
  holding := update owners.holding name none
  files := owners.files \ (owners.holding name).toFinset

inductive SpecStep : Owners Name Entry → Call Name Path → Owners Name Entry → Prop
  | construct {owners name target mode opened} (hnew : owners.holding name = none)
      (hfree : resolve target ∉ owners.files) :
      SpecStep owners (.construct name target mode opened)
        { holding := update owners.holding name (some (resolve target))
          files := insert (resolve target) owners.files }
  | constructThrows {owners name target opened} :
      SpecStep owners (.constructThrows name target opened) owners
  | moveConstruct {owners name other} (hnew : owners.holding name = none) :
      SpecStep owners (.moveConstruct name other)
        { owners with holding := exchange owners.holding name other }
  | moveAssignSelf {owners name} : SpecStep owners (.moveAssign name name false) owners
  | moveAssign {owners name other} (hne : name ≠ other) :
      SpecStep owners (.moveAssign name other false)
        { owners.giveUp name with
          holding := exchange (owners.giveUp name).holding name other }
  | swap {owners name other} :
      SpecStep owners (.swap name other)
        { owners with holding := exchange owners.holding name other }
  | destroy {owners name} :
      SpecStep owners (.destroy name false) (owners.giveUp name)

variable {resolve} {owners next start : Owners Name Entry} {call : Call Name Path}
  {calls : List (Call Name Path)} {files : Finset Entry}

/-- The files are those of the start and those that are owned. -/
structure Tidy (files : Finset Entry) (owners : Owners Name Entry) : Prop where
  exclusive : Exclusive owners.holding
  new : ∀ entry, Held owners.holding entry → entry ∉ files
  mem_files : ∀ entry, entry ∈ owners.files ↔ entry ∈ files ∨ Held owners.holding entry

omit [DecidableEq Entry] in
theorem Tidy.trade (htidy : Tidy files owners) (name other : Name) :
    Tidy files { owners with holding := exchange owners.holding name other } where
  exclusive := htidy.exclusive.exchange name other
  new entry hheld := htidy.new entry ((held_exchange_iff name other).1 hheld)
  mem_files entry := by
    rw [held_exchange_iff]
    exact htidy.mem_files entry

theorem Tidy.giveUp (htidy : Tidy files owners) (name : Name) :
    Tidy files (owners.giveUp name) where
  exclusive := htidy.exclusive.clear name
  new entry hheld := htidy.new entry ((held_clear_iff htidy.exclusive).1 hheld).1
  mem_files entry := by
    simp only [Owners.giveUp, Finset.mem_sdiff, Option.mem_toFinset, Option.mem_def,
      held_clear_iff htidy.exclusive, htidy.mem_files]
    constructor
    · rintro ⟨hstart | hheld, howner⟩
      · exact Or.inl hstart
      · exact Or.inr ⟨hheld, howner⟩
    · rintro (hstart | ⟨hheld, howner⟩)
      · exact ⟨Or.inl hstart, fun howner => htidy.new entry ⟨name, howner⟩ hstart⟩
      · exact ⟨Or.inr hheld, howner⟩

theorem tidy_step (hstep : SpecStep resolve owners call next) (htidy : Tidy files owners) :
    Tidy files next := by
  cases hstep with
  | @construct name target mode opened hnew hfree =>
      have hnot := fun hmem => hfree ((htidy.mem_files _).2 hmem)
      refine ⟨?_, ?_, ?_⟩
      · apply htidy.exclusive.put
        rintro entry ⟨rfl⟩ hheld
        exact hnot (Or.inr hheld)
      · intro entry hheld hstart
        rcases (held_put_iff hnew).1 hheld with hentry | hbefore
        · exact hnot (Or.inl (Option.some.inj hentry ▸ hstart))
        · exact htidy.new entry hbefore hstart
      · intro entry
        rw [Finset.mem_insert, held_put_iff hnew, htidy.mem_files, Option.some.injEq, eq_comm]
        exact or_left_comm
  | constructThrows => exact htidy
  | moveConstruct hnew => exact htidy.trade _ _
  | moveAssignSelf => exact htidy
  | moveAssign hne => exact (htidy.giveUp _).trade _ _
  | swap => exact htidy.trade _ _
  | destroy => exact htidy.giveUp _

/-- An entry is removed when its owner is destroyed or assigned over. -/
theorem removed_cases (hstep : SpecStep resolve owners call next) {entry : Entry}
    (hbefore : entry ∈ owners.files) (hafter : entry ∉ next.files) :
    ∃ name, owners.holding name = some entry ∧
      (call = .destroy name false ∨
        ∃ other, other ≠ name ∧ call = .moveAssign name other false) := by
  have hgave : ∀ name, entry ∉ (owners.giveUp name).files →
      owners.holding name = some entry := by
    intro name hnot
    by_contra howner
    apply hnot
    simp [Owners.giveUp, hbefore, howner]
  cases hstep with
  | construct hnew hfree => exact absurd (Finset.mem_insert_of_mem hbefore) hafter
  | moveAssign hne => exact ⟨_, hgave _ hafter, Or.inr ⟨_, hne.symm, rfl⟩⟩
  | destroy => exact ⟨_, hgave _ hafter, Or.inl rfl⟩
  | _ => exact absurd hbefore hafter

/-- What is owned after a step was owned before, or is created by the step. -/
theorem held_cases (hstep : SpecStep resolve owners call next)
    (hexclusive : Exclusive owners.holding) {entry : Entry} (hheld : Held next.holding entry) :
    Held owners.holding entry ∨
      ∃ name target mode opened, call = .construct name target mode opened ∧
        resolve target = entry := by
  cases hstep with
  | construct hnew hfree =>
      rcases (held_put_iff hnew).1 hheld with hentry | hbefore
      · exact Or.inr ⟨_, _, _, _, rfl, Option.some.inj hentry⟩
      · exact Or.inl hbefore
  | moveConstruct hnew => exact Or.inl ((held_exchange_iff _ _).1 hheld)
  | moveAssign hne =>
      exact Or.inl ((held_clear_iff hexclusive).1 ((held_exchange_iff _ _).1 hheld)).1
  | swap => exact Or.inl ((held_exchange_iff _ _).1 hheld)
  | destroy => exact Or.inl ((held_clear_iff hexclusive).1 hheld).1
  | _ => exact Or.inl hheld

theorem tidy_run (run : Run (SpecStep resolve) (Owners.initial files) calls owners) :
    Tidy files owners := by
  refine run.invariant (Tidy files) ⟨?_, ?_, ?_⟩ fun _ _ _ hbefore hstep => tidy_step hstep hbefore
  · simp [Exclusive, Owners.initial]
  · simp [Held, Owners.initial]
  · simp [Held, Owners.initial]

/-- Everything that is owned was created by an object. -/
theorem created_of_held (run : Run (SpecStep resolve) (Owners.initial files) calls owners)
    {entry : Entry} (hheld : Held owners.holding entry) :
    ∃ name target mode opened, .construct name target mode opened ∈ calls ∧
      resolve target = entry := by
  induction run with
  | nil => simp [Held, Owners.initial] at hheld
  | snoc run hstep ih =>
      rcases held_cases hstep (tidy_run run).exclusive hheld with
        hbefore | ⟨name, target, mode, opened, rfl, hentry⟩
      · obtain ⟨name, target, mode, opened, hmem, hentry⟩ := ih hbefore
        exact ⟨name, target, mode, opened, List.mem_append_left _ hmem, hentry⟩
      · exact ⟨name, target, mode, opened, List.mem_append_right _ List.mem_cons_self, hentry⟩

end Spec

/-! ## The code meets the specification -/

section Simulation

variable {Name Path Entry : Type} (resolve : Path → Entry)

/-- The entry that an object would remove at its end. -/
def owned (object : Name → Option (TempFile Path)) (name : Name) : Option Entry :=
  (object name).bind fun file => (destroy file).map resolve

def owners (program : Program Name Path Entry) : Owners Name Entry :=
  ⟨owned resolve program.object, program.files⟩

variable {resolve} {object : Name → Option (TempFile Path)} {name other : Name}
  {file otherFile : TempFile Path} {target : Path} {mode : Mode} {present : Bool} {opened : ℤ}

theorem owned_of_eq (hname : object name = some file) :
    owned resolve object name = (destroy file).map resolve := by
  rw [owned, hname, Option.bind_some]

theorem owned_of_none (hname : object name = none) : owned resolve object name = none := by
  rw [owned, hname, Option.bind_none]

theorem owned_update [DecidableEq Name] (value : Option (TempFile Path)) :
    owned resolve (update object name value) =
      update (owned resolve object) name (value.bind fun file => (destroy file).map resolve) := by
  funext other
  by_cases heq : other = name
  · rw [heq, owned, update_self, update_self]
  · rw [owned, update_of_ne heq, update_of_ne heq, owned]

theorem owned_moveConstruct [DecidableEq Name] (leftPath : Path) (hnew : object name = none)
    (hother : object other = some file) :
    owned resolve (update (update object name (some (moveConstruct leftPath file).1))
      other (some (moveConstruct leftPath file).2)) =
        exchange (owned resolve object) name other := by
  have hempty : destroy (moveConstruct leftPath file).2 = none := rfl
  have hmoved : destroy (moveConstruct leftPath file).1 = destroy file := rfl
  simp only [exchange_eq_update, owned_update, owned_of_none hnew, owned_of_eq hother,
    Option.bind_some, hempty, hmoved, Option.map_none]

theorem owned_swap [DecidableEq Name] (hname : object name = some file)
    (hother : object other = some otherFile) :
    owned resolve (update (update object name (some (swap file otherFile).1))
      other (some (swap file otherFile).2)) =
        exchange (owned resolve object) name other := by
  simp only [exchange_eq_update, owned_update, owned_of_eq hname, owned_of_eq hother,
    Option.bind_some, swap, CustomRaii.swap]

/-- The temporary takes what the object held to its end. -/
theorem moveAssign_eq (emptyPath : Path) (file otherFile : TempFile Path) :
    moveAssign emptyPath file otherFile = (destroy file, otherFile, empty emptyPath) := rfl

theorem owned_moveAssign [DecidableEq Name] (emptyPath : Path) (hne : name ≠ other)
    (hother : object other = some otherFile) :
    owned resolve (update
      (update object name (some (moveAssign emptyPath file otherFile).2.1))
      other (some (moveAssign emptyPath file otherFile).2.2)) =
        exchange (update (owned resolve object) name none) name other := by
  have hempty : destroy (empty emptyPath) = none := rfl
  simp only [exchange_eq_update, owned_update, moveAssign_eq, Option.bind_some, hempty,
    Option.map_none, update_self, update_of_ne hne.symm, owned_of_eq hother, update_idem]

/-- Only a descriptor above zero makes an object. -/
theorem construct_eq :
    construct target mode present opened =
      if 0 < opened then some ⟨target, !present, mode = .readWrite, opened⟩ else none := by
  simp only [construct, CustomRaii.reset_handle, fileIntHandle, decide_eq_true_eq]

end Simulation

/-! ## Runs -/

section Runs

variable {Name Path Entry : Type} [DecidableEq Name] [DecidableEq Entry] {emptyPath : Path}
  {resolve : Path → Entry} {program next : Program Name Path Entry}
  {call : Call Name Path} {calls : List (Call Name Path)} {files : Finset Entry}

/-- Where `open` gives a constructor that throws no descriptor, it creates no file. -/
theorem files_of_throws {entry : Entry} {opened : ℤ} {after : Finset Entry}
    (hopens : Opens files entry opened after) (hnot : ¬0 < opened) :
    after = files ↔ opened ≠ 0 := by
  cases hopens with
  | created hfd hfree =>
      have hzero : opened = 0 := by omega
      simp [hzero, hfree]
  | failed => simp

theorem throws_not_pos {target : Path} {mode : Mode} {present : Bool} {opened : ℤ}
    (hthrows : construct target mode present opened = none) : ¬0 < opened := by
  intro hopened
  rw [construct_eq, if_pos hopened] at hthrows
  cases hthrows

theorem files_constructThrows {name : Name} {target : Path} {opened : Option ℤ}
    (hstep : Step emptyPath resolve program (.constructThrows name target opened) next) :
    next.files = program.files ↔ opened ≠ some 0 := by
  cases hstep with
  | constructThrows hnew hpresent hopens hthrows =>
      rw [ne_eq, Option.some.injEq]
      exact files_of_throws hopens (throws_not_pos hthrows)
  | constructThrowsEarly hnew => simp

/-- The calls that go against the specification: a constructor that gets the descriptor
zero, and a destructor whose removal fails. -/
def Call.LeavesFile : Call Name Path → Prop
  | .constructThrows _ _ opened => opened = some 0
  | .moveAssign _ _ fails | .destroy _ fails => fails = true
  | _ => False

/-- Every file was there at the start, or will be removed by the object that owns it. -/
def NothingLeft (resolve : Path → Entry) (files : Finset Entry)
    (program : Program Name Path Entry) : Prop :=
  ∀ entry ∈ program.files, entry ∈ files ∨ Held (owned resolve program.object) entry

/-- Every call that leaves no file is a step of the specification. -/
theorem spec_step (hstep : Step emptyPath resolve program call next)
    (hleaves : ¬call.LeavesFile) :
    SpecStep resolve (owners resolve program) call (owners resolve next) := by
  cases hstep with
  | @construct name target mode opened present file files hnew hpresent hopens hfile =>
      have hpos : 0 < opened := by
        by_contra hnot
        rw [construct_eq, if_neg hnot] at hfile
        cases hfile
      cases hopens with
      | created hfd hfree =>
          have hpresent : present = false :=
            Bool.eq_false_iff.2 fun htrue => hfree (hpresent htrue)
          rw [construct_eq, if_pos hpos, hpresent] at hfile
          have howned : (destroy file).map resolve = some (resolve target) := by
            rw [← Option.some.inj hfile]
            simp [destroy, fileIntHandle, hpos]
          rw [owners, owners, owned_update, Option.bind_some, howned]
          exact .construct (owned_of_none hnew) hfree
      | failed => exact absurd hpos (by decide)
  | @constructThrows name target mode opened present files hnew hpresent hopens hthrows =>
      have hfiles : files = program.files := by
        apply (files_of_throws hopens (throws_not_pos hthrows)).2
        rintro rfl
        exact hleaves rfl
      rw [hfiles]
      exact .constructThrows
  | constructThrowsEarly hnew => exact .constructThrows
  | moveConstruct leftPath hnew hother =>
      rw [owners, owners, owned_moveConstruct leftPath hnew hother]
      exact .moveConstruct (owned_of_none hnew)
  | moveAssignSelf hname => exact .moveAssignSelf
  | @moveAssign name other file otherFile fails hne hname hother hfails =>
      obtain rfl : fails = false := Bool.eq_false_iff.2 hleaves
      have hremoved : owned resolve program.object name = _ := owned_of_eq hname
      rw [owners, owners, owned_moveAssign emptyPath hne hother, removed, moveAssign_eq, ← hremoved]
      exact .moveAssign hne
  | swap hname hother =>
      rw [owners, owners, owned_swap hname hother]
      exact .swap
  | @destroy name file fails hname hfails =>
      obtain rfl : fails = false := Bool.eq_false_iff.2 hleaves
      have hremoved : owned resolve program.object name = _ := owned_of_eq hname
      rw [owners, owners, owned_update, removed, ← hremoved]
      exact .destroy

omit [DecidableEq Entry] in
/-- The object that gives up its entry was the only one to own it. -/
theorem not_nothingLeft_of_kept (htidy : Tidy files (owners resolve program)) {name : Name}
    {entry : Entry} (howner : owned resolve program.object name = some entry)
    (hkept : next.files = program.files)
    (hheld : Held (owned resolve next.object) entry →
      Held (update (owned resolve program.object) name none) entry) :
    ¬NothingLeft resolve files next := by
  intro hnothing
  have hthere : entry ∈ program.files := (htidy.mem_files entry).2 (.inr ⟨name, howner⟩)
  rcases hnothing entry (hkept ▸ hthere) with hstart | hafter
  · exact htidy.new entry ⟨name, howner⟩ hstart
  · exact ((held_clear_iff htidy.exclusive).1 (hheld hafter)).2 howner

/-- A call that goes against the specification leaves a file behind. -/
theorem not_nothingLeft (hstep : Step emptyPath resolve program call next)
    (htidy : Tidy files (owners resolve program)) (hleaves : call.LeavesFile) :
    ¬NothingLeft resolve files next := by
  cases hstep with
  | @constructThrows name target mode opened present after hnew hpresent hopens hthrows =>
      obtain rfl : opened = 0 := Option.some.inj hleaves
      cases hopens with
      | created hfd hfree =>
          intro hnothing
          exact hfree ((htidy.mem_files _).2 (hnothing _ (Finset.mem_insert_self ..)))
  | constructThrowsEarly hnew => exact nomatch hleaves
  | moveAssignSelf hname => exact nomatch hleaves
  | @moveAssign name other file otherFile fails hne hname hother hfails =>
      obtain rfl : fails = true := hleaves
      obtain ⟨path, hpath⟩ : ∃ path, destroy file = some path :=
        Option.ne_none_iff_exists'.1 (hfails rfl)
      have howner : owned resolve program.object name = some (resolve path) := by
        rw [owned_of_eq hname, hpath, Option.map_some]
      refine not_nothingLeft_of_kept htidy howner rfl fun hheld => ?_
      rw [owned_moveAssign emptyPath hne hother] at hheld
      exact (held_exchange_iff name other).1 hheld
  | @destroy name file fails hname hfails =>
      obtain rfl : fails = true := hleaves
      obtain ⟨path, hpath⟩ := Option.ne_none_iff_exists'.1 (hfails rfl)
      have howner : owned resolve program.object name = some (resolve path) := by
        rw [owned_of_eq hname, hpath, Option.map_some]
      refine not_nothingLeft_of_kept htidy howner rfl fun hheld => ?_
      rwa [owned_update] at hheld
  | construct | moveConstruct | swap => exact hleaves.elim

theorem nothingLeft_iff (hstep : Step emptyPath resolve program call next)
    (htidy : Tidy files (owners resolve program)) :
    NothingLeft resolve files next ↔ ¬call.LeavesFile := by
  constructor
  · exact fun hnothing hleaves => not_nothingLeft hstep htidy hleaves hnothing
  · intro hleaves entry hentry
    exact ((tidy_step (spec_step hstep hleaves) htidy).mem_files entry).1 hentry

theorem spec_run (run : Run (Step emptyPath resolve) (Program.initial files) calls program)
    (hleaves : ∀ call ∈ calls, ¬call.LeavesFile) :
    Run (SpecStep resolve) (Owners.initial files) calls (owners resolve program) :=
  (run.restrict _ hleaves).map (owners resolve) fun _ _ _ hstep => spec_step hstep.1 hstep.2

/-- Calls that leave a file behind remove none. -/
theorem mem_files_of_leavesFile (hstep : Step emptyPath resolve program call next)
    (hleaves : call.LeavesFile) {entry : Entry} (hbefore : entry ∈ program.files) :
    entry ∈ next.files := by
  cases hstep with
  | constructThrows hnew hpresent hopens hthrows =>
      cases hopens with
      | created hfd hfree => exact Finset.mem_insert_of_mem hbefore
      | failed => exact hbefore
  | moveAssign | destroy =>
      obtain rfl := hleaves
      exact hbefore
  | constructThrowsEarly | moveAssignSelf => exact hbefore
  | construct | moveConstruct | swap => exact hleaves.elim

/-- In every program in which no constructor is given the descriptor zero by `open` and no
removal fails, the specification keeps account of who owns which entry, and the next call
leaves a file behind exactly if it is one of these.  A constructor that throws leaves the
files as they are, exactly if it did not get the descriptor zero; an entry is removed only
if an object created it, by destroying its owner or assigning to it; and without any
object left the files are those of the start. -/
theorem temp_file_leaves_no_trace
    (run : Run (Step emptyPath resolve) (Program.initial files) calls program)
    (hleaves : ∀ call ∈ calls, ¬call.LeavesFile) :
    ∃ owners : Owners Name Entry,
      Run (SpecStep resolve) (Owners.initial files) calls owners ∧
      owners.files = program.files ∧
      (∀ call next, Step emptyPath resolve program call next →
        (NothingLeft resolve files next ↔ ¬call.LeavesFile)) ∧
      (∀ name target opened next,
        Step emptyPath resolve program (.constructThrows name target opened) next →
          (next.files = program.files ↔ opened ≠ some 0)) ∧
      (∀ call next entry, Step emptyPath resolve program call next →
        entry ∈ program.files → entry ∉ next.files →
          (∃ name target mode opened, .construct name target mode opened ∈ calls ∧
            resolve target = entry) ∧
          ∃ name, owners.holding name = some entry ∧
            (call = .destroy name false ∨
              ∃ other, other ≠ name ∧ call = .moveAssign name other false)) ∧
      ((∀ name, program.object name = none) → program.files = files) := by
  have hspec := spec_run run hleaves
  have htidy := tidy_run hspec
  refine ⟨_, hspec, rfl, fun _ _ hstep => nothingLeft_iff hstep htidy,
    fun _ _ _ _ hstep => files_constructThrows hstep, ?_, ?_⟩
  · intro call next entry hstep hbefore hafter
    have hcall : ¬call.LeavesFile :=
      fun hleaves => hafter (mem_files_of_leavesFile hstep hleaves hbefore)
    obtain ⟨name, howner, hend⟩ := removed_cases (spec_step hstep hcall) hbefore hafter
    exact ⟨created_of_held hspec ⟨name, howner⟩, name, howner, hend⟩
  · intro hgone
    ext entry
    have hmem := htidy.mem_files entry
    have hheld : ¬Held (owners resolve program).holding entry := by
      intro hheld
      obtain ⟨name, hname⟩ := hheld
      have hnone : owned resolve program.object name = none := owned_of_none (hgone name)
      exact absurd (hnone.symm.trans hname) nofun
    rw [or_iff_left hheld] at hmem
    exact hmem

end Runs

/-- A file is created and moved to another object, which is destroyed. -/
theorem temp_file_leaves_no_trace_example :
    ∃ program : Program Bool ℕ ℕ,
      Run (Step 0 id) (Program.initial {7})
        [.construct true 8 .write 3, .moveConstruct false true, .destroy true false,
          .destroy false false] program ∧
      (∀ name, program.object name = none) ∧ program.files = {7} := by
  have run : Run (Step 0 id) (Program.initial {7} : Program Bool ℕ ℕ)
      [.construct true 8 .write 3, .moveConstruct false true, .destroy true false,
        .destroy false false] _ :=
    .snoc (.snoc (.snoc (.snoc .nil
      (.construct rfl (show false = true → _ by decide) (.created (by decide) (by decide)) rfl))
      (.moveConstruct 0 rfl rfl)) (.destroy rfl (by decide))) (.destroy rfl (by decide))
  obtain ⟨_, _, _, _, _, _, hfiles⟩ :=
    temp_file_leaves_no_trace run (by simp [Call.LeavesFile])
  refine ⟨_, run, ?_, hfiles ?_⟩ <;>
  · intro name
    cases name <;> rfl

/-- With the descriptor zero the constructor throws and leaves the new file behind. -/
theorem temp_file_left_behind :
    ∃ program : Program Unit ℕ ℕ,
      Step 0 id (Program.initial {7}) (.constructThrows () 8 (some 0)) program ∧
        (∀ name, program.object name = none) ∧ program.files = {8, 7} := by
  have hthrows : construct 8 .write false 0 = none := rfl
  exact ⟨_, .constructThrows rfl (show false = true → _ by decide)
    (.created (by decide) (by decide)) hthrows, fun _ => rfl, rfl⟩

end Nstl.TempFiles
