import Nstl.Http.Requests

/-!
# Moving clients

Clients are constructed, moved, used and destroyed.  A move hands over the curl
handle, the headers and the callback, but `_assign` sets the error buffer on the
handle that the target is about to give up, and does not mention the bandwidth
settings.
-/

namespace Nstl.HttpMoves

open Nstl.ByteString
open Nstl.Http
open Nstl.HttpEffects
open Nstl.HttpRequests
open Nstl.OptionMap
open Nstl.Programs
open Nstl.Programs.Program
open Nstl.Transition

/-! ## Several clients -/

structure World where
  /-- The clients that exist; a client keeps its number for its whole life. -/
  clients : ℕ → Option Client
  /-- The number of the next client. -/
  next : ℕ
  memory : Memory
  performed : List Request

def World.initial : World := ⟨fun _ => none, 0, ⟨fun _ => none, fun _ => none⟩, []⟩

abbrev WorldProgram := Program World HttpError

def World.session (index : ℕ) (world : World) : Option Session :=
  (world.clients index).map fun client => ⟨client, world.memory, world.performed⟩

def World.put (index : ℕ) (world : World) (session : Session) : World :=
  { world with
    clients := Function.update world.clients index (some session.this)
    memory := session.memory
    performed := session.performed }

/-- A method of one client. -/
def onClient (index : ℕ) {Value : Type} (method : ClientProgram Value) : WorldProgram Value :=
  focus (World.session index) (World.put index) method

def World.remove (index : ℕ) (world : World) : World :=
  { world with
    clients := Function.update world.clients index none
    memory := { world.memory with
      buffers := Function.update world.memory.buffers index none } }

/-- A client whose constructor throws does not come into existence. -/
def construct (environment : Environment) (verbose : Bool) : WorldProgram Unit := do
  let index ← read (·.next)
  modify fun world =>
    { world with
      clients := Function.update world.clients index (some (Client.blank index))
      next := index + 1 }
  (onClient index (Http.construct environment verbose)).onThrow (World.remove index)

/-- `_assign`, with the target, the source and the memory. -/
def assign (this other : Client) (memory : Memory) : Client × Client × Memory :=
  let memory := memory.write this.id ((memory.buffers other.id).getD [])
  -- this is still the old handle of the target
  let this := { this with
    curl := this.curl.map fun handle => OptionMap.assign handle ⟨.errorBuffer, this.id⟩ }
  let memory := memory.write other.id []
  let this := { this with curl := other.curl }
  let memory := memory.freeList this.headers
  let this := { this with headers := other.headers, lineCb := other.lineCb }
  (this, { other with curl := none, headers := none, lineCb := none }, memory)

def World.assign (world : World) (this other : Client) : World :=
  match HttpMoves.assign this other world.memory with
  | (this, other, memory) =>
      { world with
        clients := Function.update (Function.update world.clients other.id (some other))
          this.id (some this)
        memory := memory }

/-- Room for one more client, with an error buffer. -/
def World.grown (world : World) : World :=
  { world with
    next := world.next + 1
    memory := { world.memory with
      buffers := Function.update world.memory.buffers world.next (some []) } }

/-- The members of the new client have their initialisers before `_assign`. -/
def moveConstruct (source : ℕ) : WorldProgram Unit :=
  update fun world =>
    (world.clients source).map fun other =>
      ((), world.grown.assign (Client.blank world.next) other)

def moveAssign (target source : ℕ) : WorldProgram Unit :=
  update fun world =>
    (world.clients target).bind fun this =>
      (world.clients source).map fun other =>
        ((), if target = source then world else world.assign this other)

def destroy (index : ℕ) : WorldProgram Unit :=
  update fun world =>
    (world.clients index).map fun client =>
      ((), { world with memory := world.memory.freeList client.headers }.remove index)

inductive Action where
  | construct (verbose : Bool)
  | moveConstruct (source : ℕ)
  | moveAssign (target source : ℕ)
  | call (index : ℕ) (method : Call)
  | destroy (index : ℕ)
  deriving DecidableEq, Repr

def Action.run (environment : Environment) : Action → WorldProgram Unit
  | .construct verbose => HttpMoves.construct environment verbose
  | .moveConstruct source => HttpMoves.moveConstruct source
  | .moveAssign target source => HttpMoves.moveAssign target source
  | .call index method => onClient index (method.run environment)
  | .destroy index => HttpMoves.destroy index

def Step (before : World) (label : Action × Environment) (after : World) : Prop :=
  label.2.Allocates before.memory ∧ (label.1.run label.2 before).EndsIn after

/-! ## What a move should do -/

/-- Every client with a handle owns the error buffer of the handle. -/
def Owned (world : World) : Prop :=
  ∀ index client handle, world.clients index = some client → client.curl = some handle →
    handle .errorBuffer = some index

def World.fields (world : World) (index : ℕ) : Option Fields :=
  (world.clients index).map fun client =>
    HttpRequests.fields ⟨client, world.memory, world.performed⟩

/-- The target of a move has what the source had. -/
def Transfers (before : World) (action : Action) (after : World) : Prop :=
  match action with
  | .moveConstruct source => after.fields before.next = before.fields source
  | .moveAssign target source => after.fields target = before.fields source
  | _ => True

/-- The same for the headers and the callback only. -/
def TransfersHeaders (before : World) (action : Action) (after : World) : Prop :=
  let known := fun fields : Fields => (fields.headers, fields.lineCb)
  match action with
  | .moveConstruct source => (after.fields before.next).map known = (before.fields source).map known
  | .moveAssign target source => (after.fields target).map known = (before.fields source).map known
  | _ => True

/-- Only a client without a handle is moved, onto one with its bandwidth settings.
`reset` forgets the error buffer too. -/
def Safe (before : World) (action : Action) : Prop :=
  match action with
  | .moveConstruct source => ∀ other, before.clients source = some other →
      other.curl = none ∧ other.bwPeriod = 10 ∧ other.bwSpeed = 10000
  | .moveAssign target source => target ≠ source → ∀ this other,
      before.clients target = some this → before.clients source = some other →
        other.curl = none ∧ other.bwPeriod = this.bwPeriod ∧ other.bwSpeed = this.bwSpeed
  | .call index .reset => ∀ client, before.clients index = some client → client.curl = none
  | _ => True

def KeepsStep (before : World) (label : Action × Environment) (after : World) : Prop :=
  Step before label after ∧ Owned after ∧ Transfers before label.1 after

def SafeStep (before : World) (label : Action × Environment) (after : World) : Prop :=
  Step before label after ∧ Safe before label.1

/-! ## Memory -/

/-- Clients know their numbers, and every header list has one owner. -/
structure Sound (world : World) : Prop where
  numbered : ∀ index client, world.clients index = some client →
    client.id = index ∧ index < world.next
  alive : ∀ index client address, world.clients index = some client →
    client.headers = some address → world.memory.lists address ≠ none
  disjoint : ∀ index index' client client' address, world.clients index = some client →
    world.clients index' = some client' → client.headers = some address →
      client'.headers = some address → index = index'

theorem sound_initial : Sound World.initial where
  numbered _ _ hclient := absurd hclient (by simp [World.initial])
  alive _ _ _ hclient := absurd hclient (by simp [World.initial])
  disjoint _ _ _ _ _ hclient := absurd hclient (by simp [World.initial])

theorem owned_initial : Owned World.initial := by
  intro index client handle hclient
  exact absurd hclient (by simp [World.initial])

section Soundness

variable {before after : World}

/-- Every list that is held afterwards was held before, and different holders come
from different ones. -/
theorem sound_of_origin (hsound : Sound before) (origin : ℕ → ℕ)
    (hnumbered : ∀ index client, after.clients index = some client →
      client.id = index ∧ index < after.next)
    (horigin : ∀ index client address, after.clients index = some client →
      client.headers = some address →
        ∃ held, before.clients (origin index) = some held ∧ held.headers = some address ∧
          after.memory.lists address = before.memory.lists address)
    (hinjective : ∀ index index' client client' address,
      after.clients index = some client → after.clients index' = some client' →
        client.headers = some address → client'.headers = some address →
          origin index = origin index' → index = index') : Sound after where
  numbered := hnumbered
  alive := by
    intro index client address hclient hheaders
    obtain ⟨held, hheld, hsame, hlist⟩ := horigin index client address hclient hheaders
    rw [hlist]
    exact hsound.alive _ held address hheld hsame
  disjoint := by
    intro index index' client client' address hclient hclient' hheaders hheaders'
    obtain ⟨held, hheld, hsame, _⟩ := horigin index client address hclient hheaders
    obtain ⟨held', hheld', hsame', _⟩ := horigin index' client' address hclient' hheaders'
    exact hinjective index index' client client' address hclient hclient' hheaders hheaders'
      (hsound.disjoint _ _ held held' address hheld hheld' hsame hsame')

/-- The client with a number that was not in use has no headers. -/
theorem sound_add {added : Option Client} (hsound : Sound before)
    (hadded : ∀ client, added = some client → client.id = before.next ∧ client.headers = none)
    (hclients : after.clients = Function.update before.clients before.next added)
    (hnext : after.next = before.next + 1)
    (hlists : after.memory.lists = before.memory.lists) : Sound after := by
  apply sound_of_origin hsound id
  · intro index client hclient
    rw [hclients] at hclient
    rw [hnext]
    by_cases hindex : index = before.next
    · subst hindex
      rw [Function.update_self] at hclient
      exact ⟨(hadded client hclient).1, Nat.lt_succ_self _⟩
    · rw [Function.update_of_ne hindex] at hclient
      have hnumber := hsound.numbered index client hclient
      exact ⟨hnumber.1, Nat.lt_succ_of_lt hnumber.2⟩
  · intro index client address hclient hheaders
    rw [hclients] at hclient
    by_cases hindex : index = before.next
    · subst hindex
      rw [Function.update_self] at hclient
      rw [(hadded client hclient).2] at hheaders
      exact absurd hheaders (by simp)
    · rw [Function.update_of_ne hindex] at hclient
      exact ⟨client, hclient, hheaders, by rw [hlists]⟩
  · intro index index' _ _ _ _ _ _ _ heq
    exact heq

theorem sound_destroy {index : ℕ} {client : Client} (hsound : Sound before)
    (hclient : before.clients index = some client) :
    Sound ({ before with
      memory := before.memory.freeList client.headers }.remove index) := by
  have hothers : ∀ other found, ({ before with
      memory := before.memory.freeList client.headers }.remove index).clients other =
        some found → other ≠ index ∧ before.clients other = some found := by
    intro other found hfound
    by_cases hother : other = index
    · simp [World.remove, hother] at hfound
    · exact ⟨hother, by simpa [World.remove, hother] using hfound⟩
  apply sound_of_origin hsound id
  · intro other found hfound
    exact hsound.numbered other found (hothers other found hfound).2
  · intro other found address hfound hheaders
    obtain ⟨hother, hfound⟩ := hothers other found hfound
    refine ⟨found, hfound, hheaders, freeList_frame ?_⟩
    intro hown
    exact hother (hsound.disjoint other index found client address hfound hclient hheaders hown)
  · intro other other' _ _ _ _ _ _ _ heq
    exact heq

/-- A call takes or gives back no list of another client. -/
theorem sound_call {index : ℕ} {client : Client} {keepcnt : Bool} {call : Call}
    {final : Session} (hsound : Sound before) (hclient : before.clients index = some client)
    (heffect : CallEffect ⟨client, before.memory, before.performed⟩ keepcnt call final) :
    Sound (World.put index before final) := by
  have halive : Alive final := by
    apply heffect.alive
    intro address hheaders
    exact hsound.alive index client address hclient hheaders
  have hframe : ∀ other found address, other ≠ index → before.clients other = some found →
      found.headers = some address →
        final.memory.lists address = before.memory.lists address ∧
          final.this.headers ≠ some address := by
    intro other found address hother hfound hheaders
    apply heffect.frame address
    · intro hown
      exact hother (hsound.disjoint other index found client address hfound hclient hheaders
        hown)
    · exact hsound.alive other found address hfound hheaders
  have hothers : ∀ other found, (World.put index before final).clients other = some found →
      other = index ∧ found = final.this ∨ other ≠ index ∧ before.clients other = some found := by
    intro other found hfound
    by_cases hother : other = index
    · refine Or.inl ⟨hother, ?_⟩
      simpa [World.put, hother, eq_comm] using hfound
    · exact Or.inr ⟨hother, by simpa [World.put, hother] using hfound⟩
  refine ⟨?_, ?_, ?_⟩
  · intro other found hfound
    rcases hothers other found hfound with ⟨rfl, rfl⟩ | ⟨_, hbefore⟩
    · have hnumber := hsound.numbered other client hclient
      exact ⟨heffect.id_eq.trans hnumber.1, hnumber.2⟩
    · exact hsound.numbered other found hbefore
  · intro other found address hfound hheaders
    rcases hothers other found hfound with ⟨rfl, rfl⟩ | ⟨hother, hbefore⟩
    · exact halive address hheaders
    · have hsame := (hframe other found address hother hbefore hheaders).1
      exact hsame ▸ hsound.alive other found address hbefore hheaders
  · intro other other' found found' address hfound hfound' hheaders hheaders'
    rcases hothers other found hfound with ⟨rfl, rfl⟩ | ⟨hother, hbefore⟩
    · rcases hothers other' found' hfound' with ⟨rfl, rfl⟩ | ⟨hother', hbefore'⟩
      · rfl
      · exact absurd hheaders (hframe other' found' address hother' hbefore' hheaders').2
    · rcases hothers other' found' hfound' with ⟨rfl, rfl⟩ | ⟨hother', hbefore'⟩
      · exact absurd hheaders' (hframe other found address hother hbefore hheaders).2
      · exact hsound.disjoint other other' found found' address hbefore hbefore' hheaders
          hheaders'

end Soundness

/-! ## One move -/

/-- A client that exists is moved to another one, which is new or exists. -/
structure Movable (world : World) (this other : Client) : Prop where
  different : this.id ≠ other.id
  source : world.clients other.id = some other
  target : ∀ address, this.headers = some address → world.clients this.id = some this
  numbered : this.id < world.next

section Assign

variable {world : World} {this other : Client}

/-- The target after a move. -/
def filled (this other : Client) : Client :=
  { this with curl := other.curl, headers := other.headers, lineCb := other.lineCb }

/-- The source after a move. -/
def emptied (other : Client) : Client :=
  { other with curl := none, headers := none, lineCb := none }

theorem assign_clients (world : World) (this other : Client) :
    (world.assign this other).clients =
      Function.update (Function.update world.clients other.id (some (emptied other)))
        this.id (some (filled this other)) := rfl

theorem assign_target (world : World) (this other : Client) :
    (world.assign this other).clients this.id = some (filled this other) := by
  rw [assign_clients, Function.update_self]

theorem assign_cases {index : ℕ} {found : Client}
    (hfound : (world.assign this other).clients index = some found) :
    index = this.id ∧ found = filled this other ∨
      index = other.id ∧ found = emptied other ∨
      index ≠ this.id ∧ index ≠ other.id ∧ world.clients index = some found := by
  rw [assign_clients] at hfound
  by_cases hthis : index = this.id
  · rw [hthis, Function.update_self, Option.some_inj] at hfound
    exact Or.inl ⟨hthis, hfound.symm⟩
  rw [Function.update_of_ne hthis] at hfound
  by_cases hother : index = other.id
  · rw [hother, Function.update_self, Option.some_inj] at hfound
    exact Or.inr (Or.inl ⟨hother, hfound.symm⟩)
  · rw [Function.update_of_ne hother] at hfound
    exact Or.inr (Or.inr ⟨hthis, hother, hfound⟩)

/-- Only the list that the target had is freed. -/
theorem assign_lists {index address : ℕ} {held : Client} (hsound : Sound world)
    (hmovable : Movable world this other) (hindex : index ≠ this.id)
    (hheld : world.clients index = some held) (hheaders : held.headers = some address) :
    (world.assign this other).memory.lists address = world.memory.lists address := by
  have hnot : this.headers ≠ some address := by
    intro hown
    exact hindex (hsound.disjoint index this.id held this address hheld
      (hmovable.target address hown) hheaders hown)
  exact freeList_frame hnot

theorem sound_assign (hsound : Sound world) (hmovable : Movable world this other) :
    Sound (world.assign this other) := by
  have hne := hmovable.different
  apply sound_of_origin hsound fun index => if index = this.id then other.id else index
  · intro index found hfound
    rcases assign_cases hfound with ⟨rfl, rfl⟩ | ⟨rfl, rfl⟩ | ⟨_, _, hbefore⟩
    · exact ⟨rfl, hmovable.numbered⟩
    · exact ⟨rfl, (hsound.numbered _ other hmovable.source).2⟩
    · exact hsound.numbered index found hbefore
  · intro index found address hfound hheaders
    rcases assign_cases hfound with ⟨rfl, rfl⟩ | ⟨_, rfl⟩ | ⟨hthis, _, hbefore⟩
    · rw [if_pos rfl]
      exact ⟨other, hmovable.source, hheaders,
        assign_lists hsound hmovable hne.symm hmovable.source hheaders⟩
    · exact absurd hheaders (by simp [emptied])
    · rw [if_neg hthis]
      exact ⟨found, hbefore, hheaders, assign_lists hsound hmovable hthis hbefore hheaders⟩
  · intro index index' found found' address hfound hfound' hheaders hheaders' horigin
    have hholds : ∀ index found, (world.assign this other).clients index = some found →
        found.headers = some address → index ≠ other.id := by
      intro index found hfound hheaders heq
      rcases assign_cases hfound with ⟨rfl, _⟩ | ⟨_, rfl⟩ | ⟨_, hother, _⟩
      · exact hne heq
      · exact absurd hheaders (by simp [emptied])
      · exact hother heq
    have hindex := hholds index found hfound hheaders
    have hindex' := hholds index' found' hfound' hheaders'
    by_cases hthis : index = this.id <;> by_cases hthis' : index' = this.id
    · rw [hthis, hthis']
    · rw [if_pos hthis, if_neg hthis'] at horigin
      exact absurd horigin.symm hindex'
    · rw [if_neg hthis, if_pos hthis'] at horigin
      exact absurd horigin hindex
    · rwa [if_neg hthis, if_neg hthis'] at horigin

/-- The target takes over the headers and the callback and keeps its bandwidth
settings. -/
theorem assign_fields (hsound : Sound world) (hmovable : Movable world this other) :
    (world.assign this other).fields this.id =
      (world.fields other.id).map fun fields =>
        { fields with bwPeriod := this.bwPeriod, bwSpeed := this.bwSpeed } := by
  have hheaders : other.headers.bind (world.assign this other).memory.lists =
      other.headers.bind world.memory.lists := by
    cases hlist : other.headers with
    | none => rfl
    | some address =>
        exact assign_lists hsound hmovable hmovable.different.symm hmovable.source hlist
  simp only [World.fields, assign_target, hmovable.source, Option.map_some,
    HttpRequests.fields, filled, hheaders]

theorem assign_keeps_iff (hsound : Sound world) (howned : Owned world)
    (hmovable : Movable world this other) :
    Owned (world.assign this other) ∧
        (world.assign this other).fields this.id = world.fields other.id ↔
      other.curl = none ∧ other.bwPeriod = this.bwPeriod ∧ other.bwSpeed = this.bwSpeed := by
  have hfields : (world.assign this other).fields this.id = world.fields other.id ↔
      other.bwPeriod = this.bwPeriod ∧ other.bwSpeed = this.bwSpeed := by
    rw [assign_fields hsound hmovable, World.fields, hmovable.source]
    simp [HttpRequests.fields, eq_comm]
  rw [hfields, and_congr_left_iff]
  intro _
  constructor
  · intro hafter
    cases hcurl : other.curl with
    | none => rfl
    | some handle =>
        -- the handle would have to name the buffers of two clients
        have hsource := howned other.id other handle hmovable.source hcurl
        have htarget := hafter this.id (filled this other) handle
          (assign_target world this other) hcurl
        exact absurd (Option.some_inj.1 (htarget.symm.trans hsource)) hmovable.different
  · intro hcurl index found handle hfound hhandle
    rcases assign_cases hfound with ⟨_, rfl⟩ | ⟨_, rfl⟩ | ⟨_, _, hbefore⟩
    · exact absurd (hcurl.symm.trans hhandle) (by simp)
    · exact absurd hhandle (by simp [emptied])
    · exact howned index found handle hbefore hhandle

end Assign

/-! ## Steps -/

section Steps

variable {before after : World} {environment : Environment}

theorem sound_grown (hsound : Sound before) : Sound before.grown where
  numbered index client hclient :=
    ⟨(hsound.numbered index client hclient).1,
      Nat.lt_succ_of_lt (hsound.numbered index client hclient).2⟩
  alive := hsound.alive
  disjoint := hsound.disjoint

theorem movable_grown {source : ℕ} {other : Client} (hsound : Sound before)
    (hother : before.clients source = some other) :
    Movable before.grown (Client.blank before.next) other where
  different := by
    have hnumber := hsound.numbered source other hother
    rw [hnumber.1]
    exact (Nat.ne_of_lt hnumber.2).symm
  source := by
    rw [(hsound.numbered source other hother).1]
    exact hother
  target _ hheaders := absurd hheaders (by simp [Client.blank])
  numbered := Nat.lt_succ_self _

theorem movable_of_ne {target source : ℕ} {this other : Client} (hsound : Sound before)
    (hthis : before.clients target = some this) (hother : before.clients source = some other)
    (hne : target ≠ source) : Movable before this other where
  different := by
    rw [(hsound.numbered target this hthis).1, (hsound.numbered source other hother).1]
    exact hne
  source := by
    rw [(hsound.numbered source other hother).1]
    exact hother
  target _ _ := by
    rw [(hsound.numbered target this hthis).1]
    exact hthis
  numbered := by
    rw [(hsound.numbered target this hthis).1]
    exact (hsound.numbered target this hthis).2

/-- What a construction leaves: a client that owns its buffer, or none. -/
structure Added (before : World) (added : Option Client) (after : World) : Prop where
  clients_eq : after.clients = Function.update before.clients before.next added
  next_eq : after.next = before.next + 1
  lists_eq : after.memory.lists = before.memory.lists
  fresh : ∀ client, added = some client → client.id = before.next ∧ client.headers = none
  owned : ∀ client handle, added = some client → client.curl = some handle →
    handle .errorBuffer = some before.next

theorem construct_step {verbose : Bool}
    (hstep : Step before (.construct verbose, environment) after) :
    ∃ added, Added before added after := by
  have hmeets : Meets (construct environment verbose) before
      (fun _ after => ∃ added, Added before added after)
      (fun _ after => ∃ added, Added before added after) := by
    rw [construct, meets_bind_read, meets_bind_modify]
    apply Meets.onThrow
    refine Meets.focus (by simp only [World.session, Function.update_self]; rfl) ?_
    apply (construct_meets _ _ _).mono
    · intro _ final hfinal
      obtain ⟨⟨handle, hbuffer, hthis⟩, hlists⟩ := hfinal
      refine ⟨some final.this, ?_, rfl, hlists, ?_, ?_⟩
      · simp [World.put]
      · intro client hclient
        rw [← Option.some_inj.1 hclient, hthis]
        exact ⟨rfl, rfl⟩
      · intro client found hclient hfound
        rw [← Option.some_inj.1 hclient, hthis, Option.some_inj] at hfound
        exact hfound ▸ hbuffer
    · intro _ final hlists
      refine ⟨none, ?_, rfl, hlists, ?_, ?_⟩
      · simp [World.put, World.remove]
      · intro client hclient
        exact absurd hclient (by simp)
      · intro client handle hclient
        exact absurd hclient (by simp)
  exact hmeets.endsIn hstep.2

theorem moveConstruct_step {source : ℕ}
    (hstep : Step before (.moveConstruct source, environment) after) :
    ∃ other, before.clients source = some other ∧
      after = before.grown.assign (Client.blank before.next) other := by
  have hends : (moveConstruct source before).EndsIn after := hstep.2
  obtain ⟨_, hmove⟩ := endsIn_update hends
  obtain ⟨other, hother, hafter⟩ := Option.map_eq_some_iff.1 hmove
  exact ⟨other, hother, (Prod.mk.inj hafter).2.symm⟩

theorem moveAssign_step {target source : ℕ}
    (hstep : Step before (.moveAssign target source, environment) after) :
    ∃ this other, before.clients target = some this ∧ before.clients source = some other ∧
      after = if target = source then before else before.assign this other := by
  have hends : (moveAssign target source before).EndsIn after := hstep.2
  obtain ⟨_, hmove⟩ := endsIn_update hends
  obtain ⟨this, hthis, hmove⟩ := Option.bind_eq_some_iff.1 hmove
  obtain ⟨other, hother, hafter⟩ := Option.map_eq_some_iff.1 hmove
  exact ⟨this, other, hthis, hother, (Prod.mk.inj hafter).2.symm⟩

theorem destroy_step {index : ℕ}
    (hstep : Step before (.destroy index, environment) after) :
    ∃ client, before.clients index = some client ∧
      after = { before with
        memory := before.memory.freeList client.headers }.remove index := by
  have hends : (destroy index before).EndsIn after := hstep.2
  obtain ⟨_, hdestroy⟩ := endsIn_update hends
  obtain ⟨client, hclient, hafter⟩ := Option.map_eq_some_iff.1 hdestroy
  exact ⟨client, hclient, (Prod.mk.inj hafter).2.symm⟩

theorem call_step {index : ℕ} {method : Call}
    (hstep : Step before (.call index method, environment) after) :
    ∃ client final, before.clients index = some client ∧
      (method.run environment ⟨client, before.memory, before.performed⟩).EndsIn final ∧
      after = before.put index final := by
  obtain ⟨part, final, hview, hends, hafter⟩ := endsIn_focus hstep.2
  obtain ⟨client, hclient, rfl⟩ := Option.map_eq_some_iff.1 hview
  exact ⟨client, final, hclient, hends, hafter⟩

/-- The session of a client of a sound world can be called. -/
theorem callEffect_of_step {index : ℕ} {client : Client} {method : Call} {final : Session}
    (hsound : Sound before) (hclient : before.clients index = some client)
    (hnode : environment.Allocates before.memory)
    (hends : (method.run environment
      ⟨client, before.memory, before.performed⟩).EndsIn final) :
    CallEffect ⟨client, before.memory, before.performed⟩ environment.keepcnt method final := by
  have halive : Alive ⟨client, before.memory, before.performed⟩ := by
    intro address hheaders
    exact hsound.alive index client address hclient hheaders
  exact (call_meets environment method hnode halive).endsIn hends

theorem moved_headers {world : World} {this other : Client} (hsound : Sound world)
    (hmovable : Movable world this other) :
    ((world.assign this other).fields this.id).map (fun fields =>
        (fields.headers, fields.lineCb)) =
      (world.fields other.id).map fun fields => (fields.headers, fields.lineCb) := by
  rw [assign_fields hsound hmovable, Option.map_map]
  rfl

theorem step_sound {label : Action × Environment} (hsound : Sound before)
    (hstep : Step before label after) :
    Sound after ∧ TransfersHeaders before label.1 after := by
  obtain ⟨action, environment⟩ := label
  cases action with
  | construct verbose =>
      obtain ⟨added, hadded⟩ := construct_step hstep
      exact ⟨sound_add hsound hadded.fresh hadded.clients_eq hadded.next_eq hadded.lists_eq,
        trivial⟩
  | moveConstruct source =>
      obtain ⟨other, hother, rfl⟩ := moveConstruct_step hstep
      obtain rfl := (hsound.numbered source other hother).1
      have hmovable := movable_grown hsound hother
      exact ⟨sound_assign (sound_grown hsound) hmovable,
        moved_headers (sound_grown hsound) hmovable⟩
  | moveAssign target source =>
      obtain ⟨this, other, hthis, hother, rfl⟩ := moveAssign_step hstep
      by_cases hself : target = source
      · rw [if_pos hself, hself]
        exact ⟨hsound, rfl⟩
      · have hmovable := movable_of_ne hsound hthis hother hself
        obtain rfl := (hsound.numbered target this hthis).1
        obtain rfl := (hsound.numbered source other hother).1
        rw [if_neg hself]
        exact ⟨sound_assign hsound hmovable, moved_headers hsound hmovable⟩
  | call index method =>
      obtain ⟨client, final, hclient, hends, rfl⟩ := call_step hstep
      exact ⟨sound_call hsound hclient (callEffect_of_step hsound hclient hstep.1 hends),
        trivial⟩
  | destroy index =>
      obtain ⟨client, hclient, rfl⟩ := destroy_step hstep
      exact ⟨sound_destroy hsound hclient, trivial⟩

theorem owned_add {added : Option Client} (howned : Owned before)
    (hadded : Added before added after) : Owned after := by
  intro index client handle hclient hcurl
  rw [hadded.clients_eq] at hclient
  by_cases hindex : index = before.next
  · subst hindex
    rw [Function.update_self] at hclient
    exact hadded.owned client handle hclient hcurl
  · rw [Function.update_of_ne hindex] at hclient
    exact howned index client handle hclient hcurl

theorem owned_destroy (howned : Owned before) (memory : Memory) (index : ℕ) :
    Owned ({ before with memory := memory }.remove index) := by
  intro other client handle hclient hcurl
  by_cases hother : other = index
  · simp [World.remove, hother] at hclient
  · exact howned other client handle (by simpa [World.remove, hother] using hclient) hcurl

/-- A call only matters for the buffer of its own client. -/
theorem owned_put_iff {index : ℕ} {final : Session} (howned : Owned before) :
    Owned (before.put index final) ↔
      ∀ handle, final.this.curl = some handle → handle .errorBuffer = some index := by
  constructor
  · intro hafter handle hcurl
    exact hafter index final.this handle (by simp [World.put]) hcurl
  · intro hfinal other client handle hclient hcurl
    by_cases hother : other = index
    · subst hother
      obtain rfl : final.this = client := by simpa [World.put] using hclient
      exact hfinal handle hcurl
    · exact howned other client handle (by simpa [World.put, hother] using hclient) hcurl

theorem owned_call {index : ℕ} {client : Client} {method : Call} {final : Session}
    {keepcnt : Bool} (howned : Owned before) (hclient : before.clients index = some client)
    (hmethod : method ≠ .reset)
    (heffect : CallEffect ⟨client, before.memory, before.performed⟩ keepcnt method final) :
    Owned (before.put index final) := by
  rw [owned_put_iff howned]
  intro handle hcurl
  have hbuffer := heffect.buffer_eq hmethod
  rw [hcurl, Option.map_some] at hbuffer
  obtain ⟨old, hold, hsame⟩ := Option.map_eq_some_iff.1 hbuffer.symm
  rw [← hsame]
  exact howned index client old hclient hold

theorem owned_reset_iff {index : ℕ} {client : Client} {final : Session}
    (howned : Owned before)
    (hends : (reset ⟨client, before.memory, before.performed⟩).EndsIn final) :
    Owned (before.put index final) ↔ client.curl = none := by
  rw [owned_put_iff howned, reset_curl hends]
  cases client.curl with
  | none => simp
  | some handle => simp [OptionMap.empty]

/-- From a state in which every handle names the right buffer, a step keeps that
and moves everything exactly when it is safe. -/
theorem step_keeps_iff {label : Action × Environment} (hsound : Sound before)
    (howned : Owned before) (hstep : Step before label after) :
    Owned after ∧ Transfers before label.1 after ↔ Safe before label.1 := by
  obtain ⟨action, environment⟩ := label
  cases action with
  | construct verbose =>
      obtain ⟨added, hadded⟩ := construct_step hstep
      exact iff_of_true ⟨owned_add howned hadded, trivial⟩ trivial
  | moveConstruct source =>
      obtain ⟨other, hother, rfl⟩ := moveConstruct_step hstep
      obtain rfl := (hsound.numbered source other hother).1
      have hkeeps := assign_keeps_iff (sound_grown hsound) howned
        (movable_grown hsound hother)
      simp only [Safe, hother, Option.some_inj, forall_eq']
      exact hkeeps
  | moveAssign target source =>
      obtain ⟨this, other, hthis, hother, rfl⟩ := moveAssign_step hstep
      by_cases hself : target = source
      · rw [if_pos hself]
        refine iff_of_true ⟨howned, ?_⟩ fun hne => absurd hself hne
        rw [hself]
        rfl
      · have hkeeps := assign_keeps_iff hsound howned
          (movable_of_ne hsound hthis hother hself)
        obtain rfl := (hsound.numbered target this hthis).1
        obtain rfl := (hsound.numbered source other hother).1
        rw [if_neg hself]
        apply hkeeps.trans
        constructor
        · intro hgiven _ this' other' hthis' hother'
          obtain rfl := Option.some_inj.1 (hthis.symm.trans hthis')
          obtain rfl := Option.some_inj.1 (hother.symm.trans hother')
          exact hgiven
        · intro hsafe
          exact hsafe hself this other hthis hother
  | call index method =>
      obtain ⟨client, final, hclient, hends, rfl⟩ := call_step hstep
      by_cases hreset : method = .reset
      · subst hreset
        simp only [Transfers, Safe, hclient, Option.some_inj, forall_eq', and_true]
        exact owned_reset_iff howned hends
      · have heffect := callEffect_of_step hsound hclient hstep.1 hends
        refine iff_of_true ⟨owned_call howned hclient hreset heffect, trivial⟩ ?_
        cases method with
        | reset => exact absurd rfl hreset
        | _ => trivial
  | destroy index =>
      obtain ⟨client, hclient, rfl⟩ := destroy_step hstep
      exact iff_of_true ⟨owned_destroy howned _ index, trivial⟩ trivial

end Steps

/-! ## Runs -/

/-- The runs in which every handle always names the buffer of its client and every
move transfers the headers, the callback and the bandwidth settings are exactly the
runs with safe steps.  In every run at all, the moves transfer the headers and the
callback. -/
theorem moves_transfer_iff (labels : List (Action × Environment)) (world : World) :
    (Run KeepsStep World.initial labels world ↔ Run SafeStep World.initial labels world) ∧
      (Run Step World.initial labels world → ∀ label after, Step world label after →
        TransfersHeaders world label.1 after) := by
  have hinitial : Sound World.initial ∧ Owned World.initial := ⟨sound_initial, owned_initial⟩
  refine ⟨⟨?_, ?_⟩, ?_⟩
  · intro run
    refine (run.transfer (fun world => Sound world ∧ Owned world) hinitial ?_).1
    intro before label after hbefore hnext
    have hiff := step_keeps_iff hbefore.1 hbefore.2 hnext.1
    exact ⟨⟨hnext.1, hiff.1 hnext.2⟩, (step_sound hbefore.1 hnext.1).1, hnext.2.1⟩
  · intro run
    refine (run.transfer (fun world => Sound world ∧ Owned world) hinitial ?_).1
    intro before label after hbefore hnext
    have hkeeps := (step_keeps_iff hbefore.1 hbefore.2 hnext.1).2 hnext.2
    exact ⟨⟨hnext.1, hkeeps⟩, (step_sound hbefore.1 hnext.1).1, hkeeps.1⟩
  · intro run label after hstep
    have hsound : Sound world :=
      run.invariant Sound sound_initial fun _ _ _ hsound hnext => (step_sound hsound hnext).1
    exact (step_sound hsound hstep).2

/-- A client is moved to a new one: its handle keeps writing errors to the buffer of
the client that was moved from, and the bandwidth settings are the default ones. -/
theorem moved_client_reports_elsewhere :
    ∃ world client handle, Run Step World.initial
        [(.construct false, server none), (.call 0 (.minimumBandwidth 5 100), server none),
          (.moveConstruct 0, server none)] world ∧
      world.clients 1 = some client ∧ client.curl = some handle ∧
      handle .errorBuffer = some 0 ∧ client.bwPeriod = 10 ∧ client.bwSpeed = 10000 ∧
      ¬ Owned world := by
  have constructed : Run Step World.initial [(.construct false, server none)] _ :=
    Run.nil.snoc ⟨allocates_none _, Eq.refl _⟩
  have limited : Run Step World.initial
      [(.construct false, server none),
        (.call 0 (.minimumBandwidth 5 100), server none)] _ :=
    constructed.snoc ⟨allocates_none _, Eq.refl _⟩
  have moved : Run Step World.initial
      [(.construct false, server none), (.call 0 (.minimumBandwidth 5 100), server none),
        (.moveConstruct 0, server none)] _ :=
    limited.snoc ⟨allocates_none _, Eq.refl _⟩
  refine ⟨_, _, _, moved, rfl, rfl, rfl, rfl, rfl, ?_⟩
  intro howned
  exact absurd (howned 1 _ _ rfl rfl) (by decide)

end Nstl.HttpMoves
