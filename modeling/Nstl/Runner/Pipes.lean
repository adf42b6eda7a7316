import Nstl.Core.ByteString
import Nstl.Core.Tailing
import Nstl.Runner.ExitCode

/-!
# The output of the children

Every entry of `processes` has a pipe, whose write end becomes the standard output of the
child.  The runner watches the read ends with an edge-triggered `epoll`: an event is
reported once for what has arrived since the last report, so that `read_pipe` goes on until
there is nothing left.  What it reads is handed to `fwrite` for the runner's own standard
output, and after the loop the pipes are read once more.  The runner does not look at what
`fwrite` returns: what becomes of the bytes behind that call is up to the stream.

The machine with the pipes has the runner of `Nstl.Runner.Machine` in its state, and does
with it what that machine does.
-/

namespace Nstl.MultiRunner

open Function
open Nstl.ByteString
open Nstl.Tailing
open Nstl.Transition

/-! ## Pipes -/

structure Pipe where
  /-- All that was ever written to it. -/
  written : Bytes
  /-- How much of it the runner has read. -/
  taken : ℕ
  /-- Whether `read_fd` is open. -/
  readOpen : Bool
  /-- Whether `write_fd` is open in the runner. -/
  writeOpen : Bool
  /-- The number of write ends that are open in other processes. -/
  holders : ℕ
  /-- Whether it was added to the `epoll` instance. -/
  registered : Bool
  /-- Whether `epoll` has an event to report. -/
  edge : Bool

namespace Pipe

variable (pipe : Pipe)

/-- `pipe2` in the constructor of `process`. -/
def fresh : Pipe where
  written := []
  taken := 0
  readOpen := true
  writeOpen := true
  holders := 0
  registered := false
  edge := false

/-- What is in the pipe. -/
def unread : Bytes := pipe.written.drop pipe.taken

def hasWriter : Bool := pipe.writeOpen || decide (0 < pipe.holders)

/-- `EPOLL_CTL_ADD`, which reports a pipe that is readable already. -/
def add : Pipe :=
  { pipe with registered := true, edge := !pipe.unread.isEmpty || !pipe.hasWriter }

def write (bytes : Bytes) : Pipe :=
  { pipe with written := pipe.written ++ bytes, edge := pipe.edge || pipe.registered }

/-- Other processes get, or close, their write ends; the last one to close is an event. -/
def hold (count : ℕ) : Pipe :=
  { pipe with
    holders := count
    edge := pipe.edge || (pipe.registered && !(pipe.writeOpen || decide (0 < count))) }

/-- An event is reported once. -/
def report : Pipe := { pipe with edge := false }

def take (count : ℕ) : Pipe := { pipe with taken := pipe.taken + count }

/-- `close_read` -/
def closeRead : Pipe := { pipe with readOpen := false, registered := false, edge := false }

end Pipe

/-! ## The machine -/

structure PipeState where
  runner : State
  /-- The pipe of every entry of `processes`. -/
  pipes : ℕ → Pipe
  /-- What was handed to `fwrite`, with the entry that it came from. -/
  handed : List (ℕ × Bytes)

namespace PipeState

variable (state : PipeState)

def goTo (place : Place) : PipeState :=
  { state with runner := { state.runner with place := place } }

def change (idx : ℕ) (pipe : Pipe) : PipeState :=
  { state with pipes := update state.pipes idx pipe }

/-- The events of `epoll_wait` are taken from their pipes. -/
def reported (events : List Event) : PipeState :=
  { state with
    pipes := fun idx =>
      if .pipe idx ∈ events then (state.pipes idx).report else state.pipes idx }

/-- A `read` of `count` bytes, and the call of `fwrite` with them. -/
def forward (idx count : ℕ) : PipeState :=
  { state.change idx ((state.pipes idx).take count) with
    handed := state.handed ++ [(idx, (state.pipes idx).unread.take count)] }

end PipeState

@[simp]
theorem PipeState.pipes_change (state : PipeState) (idx : ℕ) (pipe : Pipe) :
    (state.change idx pipe).pipes = update state.pipes idx pipe := rfl

def pipeStart (mask : Finset Signal) : PipeState where
  runner := start mask
  pipes _ := .fresh
  handed := []

/-- The runner is in `read_pipe` for an entry, and where it goes on after that. -/
inductive ReadsPipe (state : State) : ℕ → Place → Prop
  | piping {idx : ℕ} {events : List Event} (hplace : state.place = .piping idx events) :
      ReadsPipe state idx (.dispatching events)
  | flushing {idx : ℕ} (hplace : state.place = .flushing idx) (hidx : idx < state.pids.length) :
      ReadsPipe state idx (.flushing (idx + 1))

inductive PipeAction where
  | runner (action : Action)
  | register (idx : ℕ)
  | forward (idx count : ℕ)
  | interrupted
  | write (idx : ℕ) (bytes : Bytes)
  | hold (idx count : ℕ)

/-- What it means for the machine without pipes. -/
def PipeAction.event : PipeAction → Option Action
  | .runner action => some action
  | .register _ | .forward .. | .interrupted | .write .. | .hold .. => none

/-- The steps that have nothing to do with a pipe. -/
def Plain : Place → Action → Bool
  | .registering, .goTo .testing => false
  | .waiting, .goTo (.dispatching _) => false
  | .dispatching (.pipe _ :: _), .goTo (.piping ..) => false
  | .dispatching (.pipe _ :: _), .goTo (.dispatching _) => false
  | .piping .., .goTo (.piping ..) => false
  | .piping .., .goTo (.dispatching _) => false
  | .flushing _, .goTo (.flushing _) => false
  | _, _ => true

/-- The steps for a number of processes, the capacity of a pipe and the size of the
buffer. -/
inductive PipeStep (threads capacity bufferSize : ℕ) : PipeState → PipeAction → PipeState → Prop
  | plain {state : PipeState} {action : Action} {next : State}
      (hstep : Step threads state.runner action next)
      (hplain : Plain state.runner.place action = true) :
      PipeStep threads capacity bufferSize state (.runner action) { state with runner := next }
  | register {state : PipeState} {idx : ℕ} (hplace : state.runner.place = .registering)
      (hidx : idx < state.runner.pids.length)
      (hearlier : ∀ other < idx, (state.pipes other).registered = true)
      (hnew : (state.pipes idx).registered = false) :
      PipeStep threads capacity bufferSize state (.register idx)
        (state.change idx (state.pipes idx).add)
  | registered {state : PipeState} (hplace : state.runner.place = .registering)
      (hall : ∀ idx < state.runner.pids.length, (state.pipes idx).registered = true) :
      PipeStep threads capacity bufferSize state (.runner (.goTo .testing)) (state.goTo .testing)
  | wait {state : PipeState} {events : List Event} (hplace : state.runner.place = .waiting)
      (hmove : Move state.runner .waiting (.dispatching events))
      (hedge : ∀ idx, .pipe idx ∈ events → (state.pipes idx).edge = true) :
      PipeStep threads capacity bufferSize state (.runner (.goTo (.dispatching events)))
        ((state.reported events).goTo (.dispatching events))
  | dispatch {state : PipeState} {idx : ℕ} {events : List Event}
      (hplace : state.runner.place = .dispatching (.pipe idx :: events))
      (hopen : (state.pipes idx).readOpen = true) :
      PipeStep threads capacity bufferSize state (.runner (.goTo (.piping idx events)))
        (state.goTo (.piping idx events))
  | dispatchClosed {state : PipeState} {idx : ℕ} {events : List Event}
      (hplace : state.runner.place = .dispatching (.pipe idx :: events))
      (hclosed : (state.pipes idx).readOpen = false) :
      PipeStep threads capacity bufferSize state (.runner (.goTo (.dispatching events)))
        (state.goTo (.dispatching events))
  | forward {state : PipeState} {idx count : ℕ} {place : Place}
      (hreads : ReadsPipe state.runner idx place) (hopen : (state.pipes idx).readOpen = true)
      (hpos : 0 < count) (hcount : count ≤ (state.pipes idx).unread.length)
      (hbuffer : count ≤ bufferSize) :
      PipeStep threads capacity bufferSize state (.forward idx count) (state.forward idx count)
  | interrupted {state : PipeState} {idx : ℕ} {place : Place}
      (hreads : ReadsPipe state.runner idx place) :
      PipeStep threads capacity bufferSize state .interrupted state
  -- `read` fails with `EAGAIN`, or there is nothing to read from
  | drained {state : PipeState} {idx : ℕ} {place : Place}
      (hreads : ReadsPipe state.runner idx place)
      (hdrained : (state.pipes idx).unread = [] ∧ (state.pipes idx).hasWriter = true ∨
        (state.pipes idx).readOpen = false) :
      PipeStep threads capacity bufferSize state (.runner (.goTo place)) (state.goTo place)
  -- `read` returns 0
  | ended {state : PipeState} {idx : ℕ} {place : Place}
      (hreads : ReadsPipe state.runner idx place) (hopen : (state.pipes idx).readOpen = true)
      (hempty : (state.pipes idx).unread = [])
      (hwriter : (state.pipes idx).hasWriter = false) :
      PipeStep threads capacity bufferSize state (.runner (.goTo place))
        ((state.change idx (state.pipes idx).closeRead).goTo place)
  | write {state : PipeState} {idx : ℕ} {bytes : Bytes}
      (hholds : 0 < (state.pipes idx).holders)
      (hroom : (state.pipes idx).unread.length + bytes.length ≤ capacity) :
      PipeStep threads capacity bufferSize state (.write idx bytes)
        (state.change idx ((state.pipes idx).write bytes))
  -- descriptors are copied by `fork`, closed by `execve` and by the end of a process
  | hold {state : PipeState} {idx : ℕ} (count : ℕ) :
      PipeStep threads capacity bufferSize state (.hold idx count)
        (state.change idx ((state.pipes idx).hold count))

section Machine

variable {threads capacity bufferSize : ℕ} {state next : PipeState} {action : PipeAction}
  {idx : ℕ} {place : Place}

theorem ReadsPipe.move {state : State} (hreads : ReadsPipe state idx place) :
    Move state state.place place := by
  cases hreads with
  | piping hplace =>
      rw [hplace]
      exact .pipeReturns
  | flushing hplace hidx =>
      rw [hplace]
      exact .flush hidx

/-- The pipes do not change what the runner does with its children. -/
theorem PipeStep.runner (hstep : PipeStep threads capacity bufferSize state action next) :
    (action.event = none ∧ next.runner = state.runner) ∨
      ∃ happened, action.event = some happened ∧
        Step threads state.runner happened next.runner := by
  cases hstep with
  | plain hstep => exact .inr ⟨_, rfl, hstep⟩
  | registered hplace =>
      exact .inr ⟨_, rfl, .move (by rw [hplace]; exact .registered)⟩
  | wait hplace hmove => exact .inr ⟨_, rfl, .move (by rw [hplace]; exact hmove)⟩
  | dispatch hplace => exact .inr ⟨_, rfl, .move (by rw [hplace]; exact .pipe)⟩
  | dispatchClosed hplace => exact .inr ⟨_, rfl, .move (by rw [hplace]; exact .closedPipe)⟩
  | drained hreads | ended hreads => exact .inr ⟨_, rfl, .move hreads.move⟩
  | register | forward | interrupted | write | hold => exact .inl ⟨rfl, rfl⟩

/-- Every run with pipes is one of the machine without them. -/
theorem runner_of_run {mask : Finset Signal} {actions : List PipeAction}
    (hrun : Run (PipeStep threads capacity bufferSize) (pipeStart mask) actions state) :
    Run (Step threads) (start mask) (actions.filterMap PipeAction.event) state.runner := by
  let related (state : PipeState) (abstract : State) : Prop := state.runner = abstract
  have hstart : related (pipeStart mask) (start mask) := rfl
  obtain ⟨abstract, habstract, rfl⟩ := hrun.simulated_events PipeAction.event hstart
    fun before label after abstract hrelated hstep => by
      obtain rfl : before.runner = abstract := hrelated
      rcases hstep.runner with ⟨hnone, hsame⟩ | ⟨happened, hevent, hmove⟩
      · exact .inl ⟨hnone, hsame⟩
      · exact .inr ⟨happened, _, hevent, hmove, rfl⟩
  exact habstract

end Machine

/-! ## What becomes of one pipe -/

/-- All that a step can do to a pipe. -/
inductive Pipe.Change (pipe : Pipe) : Pipe → Prop
  | same : Pipe.Change pipe pipe
  | add : Pipe.Change pipe pipe.add
  | report : Pipe.Change pipe pipe.report
  | take (count : ℕ) : Pipe.Change pipe (pipe.take count)
  | write (bytes : Bytes) : Pipe.Change pipe (pipe.write bytes)
  | hold (count : ℕ) : Pipe.Change pipe (pipe.hold count)
  | closeRead (hwriter : pipe.hasWriter = false) : Pipe.Change pipe pipe.closeRead

/-- The runner has both ends. -/
structure Pipe.Open (pipe : Pipe) : Prop where
  read : pipe.readOpen = true
  write : pipe.writeOpen = true

/-- Nothing that was written or read is taken back. -/
structure Pipe.Extends (pipe next : Pipe) : Prop where
  written : pipe.written <+: next.written
  taken : pipe.taken ≤ next.taken

section Change

variable {pipe next : Pipe}

theorem Pipe.Open.hasWriter (hopen : pipe.Open) : pipe.hasWriter = true := by
  rw [Pipe.hasWriter, hopen.write, Bool.true_or]

/-- The write end of the runner keeps the read end from being closed. -/
theorem Pipe.Change.open (hchange : pipe.Change next) (hopen : pipe.Open) : next.Open := by
  cases hchange with
  | closeRead hwriter => exact absurd (hwriter.symm.trans hopen.hasWriter) nofun
  | _ => exact ⟨hopen.read, hopen.write⟩

theorem Pipe.Change.extends (hchange : pipe.Change next) : pipe.Extends next := by
  cases hchange with
  | take count => exact ⟨List.prefix_rfl, Nat.le_add_right _ _⟩
  | write bytes => exact ⟨List.prefix_append _ _, le_rfl⟩
  | _ => exact ⟨List.prefix_rfl, le_rfl⟩

variable {threads capacity bufferSize : ℕ} {state after : PipeState} {action : PipeAction}

theorem PipeState.change_pipes {idx : ℕ} {changed : Pipe}
    (hchange : (state.pipes idx).Change changed) (other : ℕ) :
    (state.pipes other).Change ((state.change idx changed).pipes other) := by
  rw [PipeState.pipes_change]
  by_cases hother : other = idx
  · subst hother
    rwa [update_self]
  · rw [update_of_ne hother]
    exact .same

theorem PipeStep.change (hstep : PipeStep threads capacity bufferSize state action after)
    (idx : ℕ) : (state.pipes idx).Change (after.pipes idx) := by
  cases hstep with
  | plain | registered | dispatch | dispatchClosed | interrupted | drained => exact .same
  | register => exact state.change_pipes .add idx
  | @wait events =>
      change (state.pipes idx).Change
        (if .pipe idx ∈ events then (state.pipes idx).report else state.pipes idx)
      split
      · exact .report
      · exact .same
  | @forward _ count => exact state.change_pipes (.take count) idx
  | ended _ _ _ hwriter => exact state.change_pipes (.closeRead hwriter) idx
  | @write _ bytes => exact state.change_pipes (.write bytes) idx
  | @hold _ count => exact state.change_pipes (.hold count) idx

variable {mask : Finset Signal} {actions : List PipeAction}

/-- No read end is ever closed, and `read` never reports the end of a pipe. -/
theorem open_of_run
    (hrun : Run (PipeStep threads capacity bufferSize) (pipeStart mask) actions state)
    (idx : ℕ) : (state.pipes idx).Open :=
  hrun.invariant (fun state => (state.pipes idx).Open) ⟨rfl, rfl⟩
    fun _ _ _ hopen hstep => (hstep.change idx).open hopen

end Change

/-! ## What was forwarded -/

/-- The chunks that came from one entry. -/
def chunksOf (idx : ℕ) (handed : List (ℕ × Bytes)) : List Bytes :=
  handed.filterMap fun chunk => if chunk.1 = idx then some chunk.2 else none

theorem chunksOf_append (idx : ℕ) (handed : List (ℕ × Bytes)) (chunk : ℕ × Bytes) :
    chunksOf idx (handed ++ [chunk]) =
      if chunk.1 = idx then chunksOf idx handed ++ [chunk.2] else chunksOf idx handed := by
  rw [chunksOf, List.filterMap_append]
  by_cases hidx : chunk.1 = idx <;> simp [chunksOf, hidx]

namespace PipeState

variable (state : PipeState) (idx : ℕ)

/-- All that was written to the pipe of an entry. -/
def written : Bytes := (state.pipes idx).written

/-- All that was handed to `fwrite` from an entry. -/
def forwarded : Bytes := (chunksOf idx state.handed).flatten

/-- A pipe is a list that grows, and is handed on as it is read. -/
def tail : Tail Byte where
  content := state.written idx
  offset := (state.pipes idx).taken
  chunks := chunksOf idx state.handed

end PipeState

section Forwarded

variable {threads capacity bufferSize : ℕ} {state next : PipeState} {action : PipeAction}
  {idx : ℕ}

theorem PipeState.tail_eq (hwritten : next.written idx = state.written idx)
    (htaken : (next.pipes idx).taken = (state.pipes idx).taken)
    (hhanded : next.handed = state.handed) : next.tail idx = state.tail idx := by
  rw [tail, tail, hwritten, htaken, hhanded]

/-- A pipe may change its ends and its events. -/
theorem PipeState.faithful_change (hfaithful : (state.tail idx).Faithful 0) {entry : ℕ}
    {changed : Pipe} (hwritten : changed.written = (state.pipes entry).written)
    (htaken : changed.taken = (state.pipes entry).taken) :
    ((state.change entry changed).tail idx).Faithful 0 := by
  have hsame : (state.change entry changed).tail idx = state.tail idx := by
    by_cases hidx : idx = entry
    · subst hidx
      exact tail_eq (by simp [written, hwritten]) (by simp [htaken]) rfl
    · exact tail_eq (by simp [written, update_of_ne hidx]) (by simp [update_of_ne hidx]) rfl
  rwa [hsame]

theorem PipeState.pipes_reported (state : PipeState) (events : List Event) (idx : ℕ) :
    (state.reported events).written idx = state.written idx ∧
      ((state.reported events).pipes idx).taken = (state.pipes idx).taken := by
  rw [written, written, reported]
  dsimp only
  split <;> exact ⟨rfl, rfl⟩

theorem PipeState.tail_write (state : PipeState) (entry : ℕ) (bytes : Bytes) :
    (state.change entry ((state.pipes entry).write bytes)).tail idx =
      if idx = entry then (state.tail idx).append bytes else state.tail idx := by
  by_cases hidx : idx = entry
  · subst hidx
    simp [tail, written, Tail.append, Pipe.write, PipeState.change]
  · rw [if_neg hidx]
    exact tail_eq (by simp [written, update_of_ne hidx]) (by simp [update_of_ne hidx]) rfl

theorem PipeState.tail_forward (state : PipeState) (entry count : ℕ) :
    (state.forward entry count).tail idx =
      if idx = entry then (state.tail idx).hand count else state.tail idx := by
  by_cases hidx : idx = entry
  · subst hidx
    simp [tail, written, Tail.hand, Tail.unread, PipeState.forward, Pipe.take, Pipe.unread,
      PipeState.change, chunksOf_append]
  · have hother : ¬entry = idx := fun heq => hidx heq.symm
    simp [tail, written, PipeState.forward, PipeState.change, chunksOf_append, hidx, hother]

theorem PipeStep.faithful (hstep : PipeStep threads capacity bufferSize state action next)
    (hfaithful : (state.tail idx).Faithful 0) : (next.tail idx).Faithful 0 := by
  cases hstep with
  | plain | registered | dispatch | dispatchClosed | interrupted | drained => exact hfaithful
  | register | ended | hold => exact PipeState.faithful_change hfaithful rfl rfl
  | @wait events =>
      have hpipe := state.pipes_reported events idx
      change ((state.reported events).tail idx).Faithful 0
      rwa [PipeState.tail_eq hpipe.1 hpipe.2 rfl]
  | @forward entry count _ _ _ hpos hcount =>
      rw [PipeState.tail_forward]
      split
      next heq =>
        subst heq
        exact hfaithful.hand hpos hcount
      next => exact hfaithful
  | @write entry bytes =>
      rw [PipeState.tail_write]
      split
      next => exact hfaithful.append bytes
      next => exact hfaithful

variable {mask : Finset Signal} {actions : List PipeAction}

theorem faithful_of_run
    (hrun : Run (PipeStep threads capacity bufferSize) (pipeStart mask) actions state)
    (idx : ℕ) : (state.tail idx).Faithful 0 := by
  let tail := (pipeStart mask).tail idx
  have hstart : tail.Faithful tail.offset := Tail.Faithful.here rfl
  exact hrun.invariant (fun state => (state.tail idx).Faithful 0) hstart
    fun _ _ _ hfaithful hstep => hstep.faithful hfaithful

/-- Nothing is forwarded twice, or in another order. -/
theorem forwarded_eq_take
    (hrun : Run (PipeStep threads capacity bufferSize) (pipeStart mask) actions state)
    (idx : ℕ) :
    state.forwarded idx = (state.written idx).take (state.pipes idx).taken := by
  have hhanded := (faithful_of_run hrun idx).handed
  rwa [List.drop_zero, Nat.sub_zero] at hhanded

end Forwarded

/-! ## Reading the pipes once more -/

/-- The child of an entry has not ended. -/
def State.Running (state : State) (idx : ℕ) : Prop :=
  ∃ pid child, state.children pid = some child ∧ child.owner = some idx ∧ child.status = none

/-- The pipe of an entry was read to its end after the loop. -/
def Place.passed (idx : ℕ) : Place → Prop
  | .flushing entry => idx < entry
  | .returned => True
  | _ => False

section Flush

variable {threads capacity bufferSize : ℕ} {state next : PipeState} {action : PipeAction}
  {idx : ℕ}

theorem not_passed_of_running {mask : Finset Signal} {actions : List Action} {state : State}
    (hrun : Run (Step threads) (start mask) actions state) (hrunning : state.Running idx) :
    ¬state.place.passed idx := by
  intro hpassed
  obtain ⟨lives, _, htracks⟩ := tracks_of_run hrun
  obtain ⟨pid, child, hchild, howner, hstatus⟩ := hrunning
  have hflushed : state.place.flushed = true := by
    cases hplace : state.place with
    | flushing | returned => rfl
    | _ =>
        rw [hplace] at hpassed
        exact hpassed.elim
  have hown : own state.children pid = some (idx, child.status) := by
    rw [own, hchild, Option.bind_some, Child.started, howner, Option.map_some]
  have hentry := (htracks.ledger.child pid idx child.status hown).1
  have hzero := (counted_of_run hrun).cleared hflushed pid (List.mem_of_getElem? hentry)
  exact absurd (htracks.pid_pos hchild) (by rw [hzero]; exact Nat.lt_irrefl 0)

/-- Steps that have nothing to do with a pipe do not get the runner past one. -/
theorem Step.passed {state next : State} {action : Action}
    (hstep : Step threads state action next) (hplain : Plain state.place action = true)
    (hidx : state.place.flushed = true → idx < state.pids.length)
    (hpassed : next.place.passed idx) : state.place.passed idx := by
  cases hstep with
  | setUp | fork | kill => exact hpassed.elim
  | @move place hmove =>
      cases hplace : state.place with
      | flushing entry =>
          rw [hplace] at hmove hplain
          cases hmove with
          | flush => exact absurd hplain nofun
          | returns hall => exact Nat.lt_of_lt_of_le (hidx (by rw [hplace]; rfl)) hall
          | throws | terminate => exact hpassed.elim
      | _ =>
          rw [hplace] at hmove
          cases hmove <;> first | exact hpassed.elim | exact absurd hpassed (Nat.not_lt_zero _)
  | @read signal events =>
      change (afterRead signal events).passed idx at hpassed
      rw [afterRead] at hpassed
      split at hpassed <;> exact hpassed.elim
  | @killed reason signal entry events =>
      change (reason.next events).passed idx at hpassed
      cases reason <;> exact hpassed.elim
  | @reap pid child status events hplace =>
      rcases (reaped_spec pid status events state).place with hsame | hkilling
      · rwa [hsame] at hpassed
      · rw [hkilling] at hpassed
        exact hpassed.elim
  | arrive | exit | child | adopt => exact hpassed

/-- Only the end of `read_pipe` gets the runner past a pipe. -/
theorem PipeStep.passed (hstep : PipeStep threads capacity bufferSize state action next)
    (hopen : (state.pipes idx).Open)
    (hidx : state.runner.place.flushed = true → idx < state.runner.pids.length)
    (hpassed : next.runner.place.passed idx) :
    state.runner.place.passed idx ∨ (state.pipes idx).unread = [] := by
  cases hstep with
  | plain hstep hplain => exact .inl (hstep.passed hplain hidx hpassed)
  | registered | wait | dispatch | dispatchClosed => exact hpassed.elim
  | register | forward | interrupted | write | hold => exact .inl hpassed
  | @drained entry place hreads hdrained =>
      cases hreads with
      | piping => exact hpassed.elim
      | flushing hplace =>
          rcases Nat.lt_succ_iff_lt_or_eq.1 hpassed with hearlier | rfl
          · left
            rwa [hplace]
          · rcases hdrained with hempty | hclosed
            · exact .inr hempty.1
            · exact absurd (hclosed.symm.trans hopen.read) nofun
  | @ended entry place hreads _ hempty =>
      cases hreads with
      | piping => exact hpassed.elim
      | flushing hplace =>
          rcases Nat.lt_succ_iff_lt_or_eq.1 hpassed with hearlier | rfl
          · left
            rwa [hplace]
          · exact .inr hempty

/-- What is in the pipe while the runner has not got past it has been read when it has. -/
structure Read (idx : ℕ) (before after : PipeState) : Prop where
  pipe : (before.pipes idx).Extends (after.pipes idx)
  taken : after.runner.place.passed idx →
    (before.pipes idx).written.length ≤ (after.pipes idx).taken

variable {mask : Finset Signal} {before : PipeState}

theorem Read.step {actions : List PipeAction}
    (hrun : Run (PipeStep threads capacity bufferSize) (pipeStart mask) actions state)
    (hidx : idx < threads) (hread : Read idx before state)
    (hstep : PipeStep threads capacity bufferSize state action next) : Read idx before next := by
  have hextends := (hstep.change idx).extends
  refine ⟨⟨hread.pipe.written.trans hextends.written, hread.pipe.taken.trans hextends.taken⟩,
    fun hpassed => ?_⟩
  have hlength (hflushed : state.runner.place.flushed = true) :
      idx < state.runner.pids.length := by
    have hlive : state.runner.place.live = true := by
      cases hplace : state.runner.place with
      | flushing | returned => rfl
      | _ =>
          rw [hplace] at hflushed
          exact absurd hflushed nofun
    rwa [(counted_of_run (runner_of_run hrun)).length hlive]
  rcases hstep.passed (open_of_run hrun idx) hlength hpassed with hearlier | hempty
  · exact (hread.taken hearlier).trans hextends.taken
  · calc (before.pipes idx).written.length
        ≤ (state.pipes idx).written.length := hread.pipe.written.length_le
      _ ≤ (state.pipes idx).taken := List.drop_eq_nil_iff.1 hempty
      _ ≤ (next.pipes idx).taken := hextends.taken

/-- At any time the runner has handed to `fwrite`, for every entry, the begin of what was
written to its pipe.  When it returns, this is all that was written while the child of the
entry was running. -/
theorem output_complete {actions more : List PipeAction} {last : PipeState}
    (hrun : Run (PipeStep threads capacity bufferSize) (pipeStart mask) actions state)
    (hmore : Run (PipeStep threads capacity bufferSize) state more last) :
    (∀ idx, last.forwarded idx <+: last.written idx) ∧
      (last.runner.place = .returned → ∀ idx < threads, state.runner.Running idx →
        state.written idx <+: last.forwarded idx) := by
  have hlast := hrun.append hmore
  refine ⟨fun idx => ?_, fun hreturned idx hidx hrunning => ?_⟩
  · rw [forwarded_eq_take hlast]
    exact List.take_prefix _ _
  · let holds (after : PipeState) : Prop :=
      (∃ actions, Run (PipeStep threads capacity bufferSize) (pipeStart mask) actions after) ∧
        Read idx state after
    have hstart : Read idx state state :=
      ⟨⟨List.prefix_rfl, le_rfl⟩, fun hpassed =>
        absurd hpassed (not_passed_of_running (runner_of_run hrun) hrunning)⟩
    have hholds : holds last := hmore.invariant holds ⟨⟨actions, hrun⟩, hstart⟩
      fun _ _ _ ⟨⟨earlier, hearlier⟩, hread⟩ hstep =>
        ⟨⟨_, hearlier.snoc hstep⟩, hread.step hearlier hidx hstep⟩
    obtain ⟨_, hread⟩ := hholds
    have htaken := hread.taken (by rw [hreturned]; trivial)
    rw [forwarded_eq_take hlast]
    exact List.prefix_take_iff.2 ⟨hread.pipe.written, htaken⟩

end Flush

/-! ## No pipe is overlooked -/

/-- The events that are still to be handled. -/
def Place.left : Place → List Event
  | .dispatching events | .reading events | .killing _ _ _ events | .reaping events => events
  | .piping idx events => .pipe idx :: events
  | _ => []

/-- The runner is in its loop. -/
def Place.loops : Place → Bool
  | .testing | .waiting | .dispatching _ | .reading _ | .killing .. | .reaping _
  | .piping .. => true
  | _ => false

/-- It has not left the loop. -/
def Place.watches : Place → Bool
  | .masking | .starting _ | .registering => true
  | place => place.loops

theorem watches_of_loops {place : Place} (hloops : place.loops = true) :
    place.watches = true := by
  cases place with
  | masking | starting | registering => rfl
  | _ => exact hloops

/-- A pipe that `epoll` knows and that has something to read has an event, or there is
one to be handled. -/
def Pipe.Noticed (pipe : Pipe) (queued : Prop) : Prop :=
  pipe.registered = true → pipe.unread ≠ [] → pipe.edge = true ∨ queued

structure Attended (state : PipeState) : Prop where
  registered : state.runner.place.loops = true →
    ∀ idx < state.runner.pids.length, (state.pipes idx).registered = true
  noticed : state.runner.place.watches = true →
    ∀ idx, (state.pipes idx).Noticed (.pipe idx ∈ state.runner.place.left)

section Attended

variable {pipe next : Pipe} {queued : Prop}

theorem Pipe.Change.registered (hchange : pipe.Change next) (hopen : pipe.Open)
    (hregistered : pipe.registered = true) : next.registered = true := by
  cases hchange with
  | add => rfl
  | closeRead hwriter => exact absurd (hwriter.symm.trans hopen.hasWriter) nofun
  | _ => exact hregistered

theorem Pipe.Noticed.add : pipe.add.Noticed queued := by
  intro _ hunread
  left
  have hne : pipe.unread ≠ [] := hunread
  simp [Pipe.add, hne]

theorem Pipe.Noticed.write (bytes : Bytes) : (pipe.write bytes).Noticed queued := by
  intro hregistered _
  left
  have hbefore : pipe.registered = true := hregistered
  simp [Pipe.write, hbefore]

theorem Pipe.Noticed.hold (hnoticed : pipe.Noticed queued) (count : ℕ) :
    (pipe.hold count).Noticed queued := by
  intro hregistered hunread
  refine (hnoticed hregistered hunread).imp_left fun hedge => ?_
  rw [Pipe.hold, hedge, Bool.true_or]

theorem Pipe.Noticed.take (hnoticed : pipe.Noticed queued) (count : ℕ) :
    (pipe.take count).Noticed queued := by
  intro hregistered hunread
  refine hnoticed hregistered fun hempty => hunread ?_
  rw [Pipe.unread, List.drop_eq_nil_iff] at hempty ⊢
  exact Nat.le_add_right_of_le hempty

theorem Pipe.Noticed.closeRead : pipe.closeRead.Noticed queued := nofun

variable {threads capacity bufferSize : ℕ} {state after : PipeState} {action : PipeAction}

/-- A pipe changes, and the runner stays where it is. -/
theorem noticed_change {idx : ℕ} {changed : Pipe}
    (hnoticed : ∀ other, (state.pipes other).Noticed (.pipe other ∈ state.runner.place.left))
    (hchanged : changed.Noticed (.pipe idx ∈ state.runner.place.left)) (other : ℕ) :
    ((state.change idx changed).pipes other).Noticed (.pipe other ∈ state.runner.place.left) := by
  rw [PipeState.pipes_change]
  by_cases hother : other = idx
  · subst hother
    rwa [update_self]
  · rw [update_of_ne hother]
    exact hnoticed other

/-- The runner goes on with the same events for the pipes. -/
structure Place.Keeps (place next : Place) : Prop where
  loops : next.loops = true → place.loops = true
  watches : place.watches = true
  left : ∀ idx, .pipe idx ∈ place.left → .pipe idx ∈ next.left

theorem Move.keeps {state : State} {place next : Place} (hmove : Move state place next)
    (hplain : Plain place (.goTo next) = true) (hwatches : next.watches = true) :
    place.Keeps next := by
  cases hmove with
  | started => exact ⟨nofun, rfl, nofun⟩
  | loop | epollInterrupted | dispatched => exact ⟨fun _ => rfl, rfl, nofun⟩
  | readStops | skip | noneWaitable | waitInterrupted => exact ⟨fun _ => rfl, rfl, fun _ => id⟩
  | signals =>
      refine ⟨fun _ => rfl, rfl, fun idx hmem => ?_⟩
      exact (List.mem_cons.1 hmem).resolve_left nofun
  | registered | epollWait | pipe | closedPipe | pipeRead | pipeReturns | flush =>
      exact absurd hplain nofun
  | ends | returns | throws | terminate => exact absurd hwatches nofun

/-- Steps that have nothing to do with a pipe keep the events that are left. -/
theorem Step.keeps {state next : State} {action : Action} (hstep : Step threads state action next)
    (hplain : Plain state.place action = true) (hwatches : next.place.watches = true) :
    state.place.Keeps next.place ∧
      (next.place.loops = true → next.pids.length = state.pids.length) := by
  cases hstep with
  | setUp hplace | fork hplace =>
      rw [hplace]
      exact ⟨⟨nofun, rfl, nofun⟩, nofun⟩
  | move hmove => exact ⟨hmove.keeps hplain hwatches, fun _ => rfl⟩
  | @read signal events hplace =>
      refine ⟨?_, fun _ => rfl⟩
      change state.place.Keeps (afterRead signal events)
      rw [hplace, afterRead]
      split <;> exact ⟨fun _ => rfl, rfl, fun _ => id⟩
  | kill hplace =>
      rw [hplace]
      exact ⟨⟨fun _ => rfl, rfl, fun _ => id⟩, fun _ => rfl⟩
  | @killed reason signal idx events hplace =>
      refine ⟨?_, fun _ => rfl⟩
      change state.place.Keeps (reason.next events)
      rw [hplace]
      cases reason <;> exact ⟨fun _ => rfl, rfl, fun _ => id⟩
  | @reap pid child status events hplace =>
      have hreaped := reaped_spec pid status events state
      refine ⟨?_, fun _ => hreaped.frame.2.2⟩
      rcases hreaped.place with hsame | hkilling
      · rw [hsame, hplace]
        exact ⟨fun _ => rfl, rfl, fun _ => id⟩
      · rw [hkilling, hplace]
        exact ⟨fun _ => rfl, rfl, fun _ => id⟩
  | arrive | exit | child | adopt => exact ⟨⟨id, hwatches, fun _ => id⟩, fun _ => rfl⟩

theorem ReadsPipe.place {state : State} {idx : ℕ} {place : Place}
    (hreads : ReadsPipe state idx place) (hwatches : place.watches = true) :
    ∃ events, state.place = .piping idx events ∧ place = .dispatching events := by
  cases hreads with
  | piping hplace => exact ⟨_, hplace, rfl⟩
  | flushing => exact absurd hwatches nofun

/-- `read_pipe` returns to the loop with nothing left in the pipe. -/
theorem Attended.returns (hattended : Attended state) {idx : ℕ} {place : Place}
    (hreads : ReadsPipe state.runner idx place) (hempty : (state.pipes idx).unread = []) :
    Attended (state.goTo place) := by
  refine ⟨fun hloops => ?_, fun hwatches other => ?_⟩
  · obtain ⟨events, hplace, rfl⟩ := hreads.place (watches_of_loops hloops)
    exact hattended.registered (by rw [hplace]; rfl)
  · obtain ⟨events, hplace, rfl⟩ := hreads.place hwatches
    have hnoticed := hattended.noticed (by rw [hplace]; rfl) other
    rw [hplace] at hnoticed
    intro hregistered hunread
    refine (hnoticed hregistered hunread).imp_right fun hmem => ?_
    refine (List.mem_cons.1 hmem).resolve_left fun heq => hunread ?_
    obtain rfl : other = idx := by injection heq
    exact hempty

theorem Attended.step (hattended : Attended state) (hopen : ∀ idx, (state.pipes idx).Open)
    (hstep : PipeStep threads capacity bufferSize state action after) : Attended after := by
  have hkept (idx : ℕ) (hregistered : (state.pipes idx).registered = true) :
      (after.pipes idx).registered = true :=
    (hstep.change idx).registered (hopen idx) hregistered
  cases hstep with
  | plain hstep hplain =>
      refine ⟨fun hloops idx hidx => ?_, fun hwatches idx => ?_⟩
      · obtain ⟨hkeeps, hlength⟩ := hstep.keeps hplain (watches_of_loops hloops)
        exact hattended.registered (hkeeps.loops hloops) idx (hlength hloops ▸ hidx)
      · have hkeeps := (hstep.keeps hplain hwatches).1
        intro hregistered hunread
        exact (hattended.noticed hkeeps.watches idx hregistered hunread).imp_right (hkeeps.left idx)
  | register hplace =>
      refine ⟨fun hloops => ?_, fun hwatches => ?_⟩
      · rw [show (state.change _ _).runner.place = .registering from hplace] at hloops
        exact absurd hloops nofun
      · exact noticed_change (hattended.noticed hwatches) .add
  | registered hplace hall =>
      refine ⟨fun _ => hall, fun _ idx => ?_⟩
      have hnoticed := hattended.noticed (by rw [hplace]; rfl) idx
      rwa [hplace] at hnoticed
  | @wait events hplace hmove hedge =>
      refine ⟨fun _ idx hidx => hkept idx (hattended.registered (by rw [hplace]; rfl) idx hidx),
        fun _ idx => ?_⟩
      have hnoticed := hattended.noticed (by rw [hplace]; rfl) idx
      rw [hplace] at hnoticed
      change (if .pipe idx ∈ events then (state.pipes idx).report else state.pipes idx).Noticed
        (.pipe idx ∈ events)
      split
      next hmem => exact fun _ _ => .inr hmem
      next hnot =>
        exact fun hregistered hunread =>
          (hnoticed hregistered hunread).imp_right fun hmem => absurd hmem nofun
  | dispatch hplace =>
      refine ⟨fun _ => hattended.registered (by rw [hplace]; rfl), fun _ idx => ?_⟩
      have hnoticed := hattended.noticed (by rw [hplace]; rfl) idx
      rwa [hplace] at hnoticed
  | dispatchClosed hplace hclosed => exact absurd (hclosed.symm.trans (hopen _).read) nofun
  | @forward idx count =>
      exact ⟨fun hloops other hother => hkept other (hattended.registered hloops other hother),
        fun hwatches => noticed_change (hattended.noticed hwatches)
          ((hattended.noticed hwatches idx).take count)⟩
  | interrupted => exact hattended
  | drained hreads hdrained =>
      refine hattended.returns hreads (hdrained.resolve_right fun hclosed => ?_).1
      exact absurd (hclosed.symm.trans (hopen _).read) nofun
  | ended _ _ _ hwriter => exact absurd (hwriter.symm.trans (hopen _).hasWriter) nofun
  | @write idx bytes =>
      exact ⟨fun hloops other hother => hkept other (hattended.registered hloops other hother),
        fun hwatches => noticed_change (hattended.noticed hwatches) (.write bytes)⟩
  | @hold idx count =>
      exact ⟨fun hloops other hother => hkept other (hattended.registered hloops other hother),
        fun hwatches => noticed_change (hattended.noticed hwatches)
          ((hattended.noticed hwatches idx).hold count)⟩

variable {mask : Finset Signal} {actions : List PipeAction}

theorem attended_of_run
    (hrun : Run (PipeStep threads capacity bufferSize) (pipeStart mask) actions state) :
    Attended state := by
  let holds (state : PipeState) : Prop :=
    (∀ idx, (state.pipes idx).Open) ∧ Attended state
  have hholds : holds state := hrun.invariant holds
    ⟨fun _ => ⟨rfl, rfl⟩, ⟨nofun, fun _ _ => nofun⟩⟩
    fun _ _ _ hbefore hstep =>
      ⟨fun idx => (hstep.change idx).open (hbefore.1 idx), hbefore.2.step hbefore.1 hstep⟩
  exact hholds.2

/-- A runner that waits has an event for every pipe with something in it, so that no child
has to wait for room in its pipe for ever; and no read end is closed before. -/
theorem no_pipe_overlooked
    (hrun : Run (PipeStep threads capacity bufferSize) (pipeStart mask) actions state)
    (hplace : state.runner.place = .waiting) :
    ∀ idx < threads, (state.pipes idx).readOpen = true ∧
      ((state.pipes idx).unread ≠ [] → (state.pipes idx).edge = true ∧
        ∃ next, PipeStep threads capacity bufferSize state
          (.runner (.goTo (.dispatching [.pipe idx]))) next) := by
  intro idx hidx
  have hattended := attended_of_run hrun
  have hlength : state.runner.pids.length = threads :=
    (counted_of_run (runner_of_run hrun)).length (by rw [hplace]; rfl)
  refine ⟨(open_of_run hrun idx).read, fun hunread => ?_⟩
  have hregistered := hattended.registered (by rw [hplace]; rfl) idx (hlength ▸ hidx)
  have hnoticed := hattended.noticed (by rw [hplace]; rfl) idx hregistered hunread
  rw [hplace] at hnoticed
  have hedge : (state.pipes idx).edge = true := hnoticed.resolve_right nofun
  refine ⟨hedge, _, .wait hplace (.epollWait nofun (by simp) (by simp)) ?_⟩
  intro other hother
  obtain rfl : other = idx := by simpa using hother
  exact hedge

end Attended

/-! ## One child that writes -/

/-- A pipe that `hi` was written to. -/
def hiWritten : Pipe :=
  { Pipe.fresh with written := [104, 105], holders := 1, registered := true, edge := true }

/-- The runner waits for its only child, which has written something. -/
theorem run_oneWritten :
    ∃ actions pipes, Run (PipeStep 1 65536 1048576) (pipeStart ∅) actions
      ⟨oneStarted, pipes, []⟩ ∧ pipes 0 = hiWritten := by
  let runner (place : Place) : State := { oneStarted with place := place }
  let pipes : ℕ → Pipe := update (fun _ => .fresh) 0 Pipe.fresh.add
  have hset : Run (PipeStep 1 65536 1048576) (pipeStart ∅) _ _ :=
    Run.nil.snoc (.plain (.setUp rfl (by decide)) rfl)
  have hforked := hset.snoc (.plain (.fork rfl (by decide) (Nat.succ_pos 99) rfl) rfl)
  have hregistering : Run (PipeStep 1 65536 1048576) (pipeStart ∅) _
      ⟨runner .registering, fun _ => .fresh, []⟩ :=
    hforked.snoc (.plain (.move (.started (by decide))) rfl)
  have hadded : Run (PipeStep 1 65536 1048576) (pipeStart ∅) _
      ⟨runner .registering, pipes, []⟩ :=
    hregistering.snoc (.register rfl (Nat.succ_pos 0) nofun rfl)
  have htesting : Run (PipeStep 1 65536 1048576) (pipeStart ∅) _ ⟨runner .testing, pipes, []⟩ :=
    hadded.snoc (.registered rfl fun idx hidx => by
      obtain rfl : idx = 0 := Nat.lt_one_iff.1 hidx
      rfl)
  have hwaiting : Run (PipeStep 1 65536 1048576) (pipeStart ∅) _ ⟨oneStarted, pipes, []⟩ :=
    htesting.snoc (.plain (.move (.loop ⟨100, by decide, by decide⟩)) rfl)
  have hhold : PipeStep 1 65536 1048576 ⟨oneStarted, pipes, []⟩ (.hold 0 1)
      ⟨oneStarted, update pipes 0 ((pipes 0).hold 1), []⟩ := .hold 1
  have hwrite : PipeStep 1 65536 1048576 ⟨oneStarted, update pipes 0 ((pipes 0).hold 1), []⟩
      (.write 0 [104, 105]) _ := .write Nat.zero_lt_one (by decide)
  exact ⟨_, _, (hwaiting.snoc hhold).snoc hwrite, rfl⟩

/-- The child ends, and the runner reads what is left. -/
theorem run_oneReturned {pipes : ℕ → Pipe} (hpipe : pipes 0 = hiWritten) :
    ∃ more last, Run (PipeStep 1 65536 1048576) ⟨oneStarted, pipes, []⟩ more last ∧
      last.runner.place = .returned := by
  let child : Child := { Child.forked 0 (∅ ∪ watched) with status := some (.exited 0) }
  let ended (place : Place) (pending : Finset Signal) : State :=
    { oneStarted with
      place := place
      children := update oneStarted.children 100 (some child)
      pending := pending }
  let reaped (place : Place) : State :=
    { ended place (Finset.erase {sigchld} sigchld) with
      pids := [0]
      children := update (update oneStarted.children 100 (some child)) 100 none }
  have hnone (pid : ℕ) : ¬(reaped (.reaping [])).Zombie pid :=
    no_zombie_of_update (fun other hother => by simp [oneStarted, update_of_ne hother]) rfl pid
  have hwait : Run (PipeStep 1 65536 1048576) ⟨oneStarted, pipes, []⟩ _
      ⟨ended .waiting {sigchld}, pipes, []⟩ :=
    Run.nil.snoc (.plain (.exit (.exited 0) rfl rfl) rfl)
  have hwoken : Move (ended .waiting {sigchld}) .waiting (.dispatching [.signals]) :=
    .epollWait (List.cons_ne_nil _ _) (by decide)
      fun _ => ⟨sigchld, by decide, Finset.mem_singleton_self _⟩
  have hdispatching : Run (PipeStep 1 65536 1048576) ⟨oneStarted, pipes, []⟩ _
      ⟨ended (.dispatching [.signals]) {sigchld}, pipes, []⟩ :=
    hwait.snoc (.wait rfl hwoken (by simp))
  have hreaping : Run (PipeStep 1 65536 1048576) ⟨oneStarted, pipes, []⟩ _
      ⟨ended (.reaping []) (Finset.erase {sigchld} sigchld), pipes, []⟩ :=
    (hdispatching.snoc (.plain (.move .signals) rfl)).snoc
      (.plain (.read rfl (show sigchld ∈ watched by decide) (Finset.mem_singleton_self _)) rfl)
  have hchild : (ended (.reaping []) (Finset.erase {sigchld} sigchld)).children 100 =
      some child := rfl
  have hreap : Step 1 _ _ _ := .reap rfl hchild rfl
  have hreaped : Run (PipeStep 1 65536 1048576) ⟨oneStarted, pipes, []⟩ _
      ⟨reaped (.reaping []), pipes, []⟩ := hreaping.snoc (.plain hreap rfl)
  have hreading : Run (PipeStep 1 65536 1048576) ⟨oneStarted, pipes, []⟩ _
      ⟨reaped (.reading []), pipes, []⟩ :=
    hreaped.snoc (.plain (.move (.noneWaitable hnone)) rfl)
  have htesting : Run (PipeStep 1 65536 1048576) ⟨oneStarted, pipes, []⟩ _
      ⟨reaped .testing, pipes, []⟩ :=
    (hreading.snoc (.plain (.move .readStops) rfl)).snoc (.plain (.move .dispatched) rfl)
  have hflushing : Run (PipeStep 1 65536 1048576) ⟨oneStarted, pipes, []⟩ _
      ⟨reaped (.flushing 0), pipes, []⟩ :=
    htesting.snoc (.plain (.move (.ends fun _ => List.mem_singleton.1)) rfl)
  have hreads : ReadsPipe (reaped (.flushing 0)) 0 (.flushing 1) :=
    .flushing rfl Nat.zero_lt_one
  have hforward : PipeStep 1 65536 1048576 ⟨reaped (.flushing 0), pipes, []⟩ (.forward 0 2) _ :=
    .forward hreads (congrArg Pipe.readOpen hpipe) Nat.zero_lt_two
      (congrArg (fun pipe => pipe.unread.length) hpipe).ge (by decide)
  have hdrained := (hflushing.snoc hforward).snoc (.drained hreads (.inl ?_))
  · exact ⟨_, _, hdrained.snoc (.plain (.move (.returns le_rfl)) rfl), rfl⟩
  · change ((update pipes 0 ((pipes 0).take 2)) 0).unread = [] ∧
      ((update pipes 0 ((pipes 0).take 2)) 0).hasWriter = true
    rw [update_self, hpipe]
    exact ⟨rfl, rfl⟩

/-- A child has written something, and has ended before the runner has read it. -/
theorem output_complete_hi :
    ∃ actions more state last, Run (PipeStep 1 65536 1048576) (pipeStart ∅) actions state ∧
      Run (PipeStep 1 65536 1048576) state more last ∧ [104, 105] <+: last.forwarded 0 := by
  obtain ⟨actions, pipes, hrun, hpipe⟩ := run_oneWritten
  obtain ⟨more, last, hmore, hreturned⟩ := run_oneReturned hpipe
  have hall := (output_complete hrun hmore).2 hreturned 0 Nat.zero_lt_one
    ⟨100, _, rfl, rfl, rfl⟩
  change (pipes 0).written <+: last.forwarded 0 at hall
  rw [hpipe] at hall
  exact ⟨actions, more, _, last, hrun, hmore, hall⟩

/-- The runner waits, and what its child has written will wake it up. -/
theorem no_pipe_overlooked_hi :
    ∃ actions state next, Run (PipeStep 1 65536 1048576) (pipeStart ∅) actions state ∧
      PipeStep 1 65536 1048576 state (.runner (.goTo (.dispatching [.pipe 0]))) next := by
  obtain ⟨actions, pipes, hrun, hpipe⟩ := run_oneWritten
  have hunread : (pipes 0).unread ≠ [] := by
    rw [hpipe]
    exact nofun
  obtain ⟨_, next, hstep⟩ := (no_pipe_overlooked hrun rfl 0 Nat.zero_lt_one).2 hunread
  exact ⟨actions, _, next, hrun, hstep⟩

end Nstl.MultiRunner
