import Mathlib.Data.List.Perm.Basic
import Nstl.Core.Transition
import Nstl.Signal.Portable

/-!
# The process runner on Windows

`multi_runner` keeps the handles of its children in a `Data`: those of the processes, those of
their first threads, and those that it waits for, which are the processes and, behind them, an
event.  The event is made when a console event has come, together with a timer that terminates
the children which are left after a second.  `WaitForMultipleObjects` takes up to 64 handles.

The kernel is part of the state: the handles that it has given out, those that were closed, and
the processes that have ended.  A handle is named by the time it was given out, so that a value
that the kernel uses again is another handle.  `TimerRoutine` runs in a thread of its own and
takes no lock: the main thread may close a handle between the read and the use of it, and behind
the end of `pids`, or once `Data` is gone, what is read can be anything.
-/

namespace Nstl.WindowsRunner

open Function
open Nstl.PortableBarrier (ConsoleEvent)
open Nstl.Transition

/-! ## The handles -/

abbrev Handle := ℕ

/-- A `DWORD`; the `int` that `main` returns has the same bits. -/
abbrev ExitCode := UInt32

structure Data where
  handleToPid : Handle → Option ℕ
  /-- `timer_hndlr` -/
  timer : Option Handle
  event : Option Handle
  pids : List Handle
  tids : List Handle
  waitFor : List Handle
  exitCode : ExitCode

/-- What `remove_idx` leaves, closes and returns. -/
structure Removal where
  data : Data
  closes : List Handle
  code : Option ExitCode

namespace Data

def initial : Data where
  handleToPid _ := none
  timer := none
  event := none
  pids := []
  tids := []
  waitFor := []
  exitCode := 0

variable (data : Data)

def pushBack (hpid htid : Handle) (pid : ℕ) : Data :=
  { data with
    pids := data.pids ++ [hpid]
    tids := data.tids ++ [htid]
    -- `emplace` keeps an entry that is there
    handleToPid :=
      if (data.handleToPid hpid).isSome then data.handleToPid
      else update data.handleToPid hpid (some pid)
    waitFor := data.waitFor ++ [hpid] }

/-- `remove_idx`, where `GetExitCodeProcess` may fail; none where an iterator is out of range. -/
def removeIdx (getExitCode : Handle → Option ExitCode) (idx : ℕ) : Option Removal :=
  if data.waitFor.length ≤ idx || data.pids.length < idx then none
  else
    match data.pids[idx]?, data.tids[idx]? with
    -- the event
    | none, _ => some ⟨{ data with waitFor := data.waitFor.eraseIdx idx }, [], none⟩
    | some _, none => none
    | some hpid, some htid =>
        some
          ⟨{ data with
              handleToPid := update data.handleToPid hpid none
              pids := data.pids.eraseIdx idx
              tids := data.tids.eraseIdx idx
              waitFor := data.waitFor.eraseIdx idx },
            -- `EXIT_FAILURE` stays where the call fails
            [hpid, htid], some ((getExitCode hpid).getD 1)⟩

/-- The process groups that `sendCloseEvent` sends an event to. -/
def closeTargets : List ℕ := data.pids.filterMap data.handleToPid

/-- The handles that the destructor closes, in this order. -/
def destroyed : List Handle :=
  (data.waitFor.drop data.pids.length).reverse ++ data.pids ++ data.tids ++ data.timer.toList

end Data

/-! ## The machine -/

inductive Place where
  | starting (idx : ℕ)
  | testing
  /-- In `createEvent`. -/
  | creatingEvent
  /-- Before the destructor of `Data`, with an exception or without. -/
  | leaving (thrown : Bool)
  | left (thrown : Bool)
  /-- Nothing catches the exception, and the stack is not unwound. -/
  | terminated
  deriving DecidableEq, Repr

/-- `Data` is there. -/
def Place.live : Place → Bool
  | .left _ | .terminated => false
  | _ => true

/-- Where `TimerRoutine` is in its thread. -/
inductive TimerPlace where
  | waiting
  /-- At an element of `pids`, with the number of them that the loop has started with. -/
  | walking (idx size : ℕ)
  /-- Before `TerminateProcess`. -/
  | terminating (handle : Handle) (code : ExitCode) (idx size : ℕ)
  /-- Before `SetEvent`. -/
  | setting (event : Option Handle)
  | done
  deriving DecidableEq, Repr

structure State where
  place : Place
  timerPlace : TimerPlace
  data : Data
  /-- `send_close_event` -/
  sendClose : Bool
  /-- `app_running`, with none for `running_true` -/
  appRunning : Option ConsoleEvent
  /-- The handles that were given out. -/
  opened : List Handle
  closed : List Handle
  /-- The processes that have ended. -/
  exits : Handle → Option ExitCode
  eventSet : Bool

def start : State where
  place := .starting 0
  timerPlace := .waiting
  data := .initial
  sendClose := true
  appRunning := none
  opened := []
  closed := []
  exits _ := none
  eventSet := false

def State.Signaled (state : State) (handle : Handle) : Prop :=
  state.exits handle ≠ none ∨ state.data.event = some handle ∧ state.eventSet = true

/-- `WaitForMultipleObjects` finds the first of the handles that is signaled. -/
structure State.Found (state : State) (idx : ℕ) : Prop where
  size : state.data.waitFor.length ≤ 64
  signaled : ∃ handle, state.data.waitFor[idx]? = some handle ∧ state.Signaled handle
  first : ∀ other < idx, ∀ handle, state.data.waitFor[other]? = some handle →
    ¬state.Signaled handle

theorem State.found_zero {state : State} {handle : Handle} {rest : List Handle}
    (hwait : state.data.waitFor = handle :: rest) (hsize : state.data.waitFor.length ≤ 64)
    (hsignaled : state.Signaled handle) : state.Found 0 where
  size := hsize
  signaled := ⟨handle, by rw [hwait]; rfl, hsignaled⟩
  first _ hother := absurd hother (Nat.not_lt_zero _)

/-- A child has failed and nobody was told yet. -/
def State.tells (state : State) (code : Option ExitCode) : Bool :=
  state.sendClose && code.any (· ≠ 0)

/-- What follows `remove_idx` in the loop. -/
def State.removed (state : State) (removal : Removal) : State :=
  { state with
    closed := state.closed ++ removal.closes
    sendClose := state.sendClose && !state.tells removal.code
    data :=
      if state.tells removal.code then
        { removal.data with exitCode := removal.code.getD removal.data.exitCode }
      else removal.data }

inductive Action where
  | goTo (place : Place)
  /-- A child with this process id. -/
  | create (idx : ℕ) (handle : Handle) (pid : ℕ)
  /-- A handle is removed, and the process groups are told to close. -/
  | remove (code : Option ExitCode) (targets : List ℕ)
  /-- A console event is passed on. -/
  | close (event : ConsoleEvent) (targets : List ℕ)
  | createEvent
  | destroy
  | exit (handle : Handle) (code : ExitCode)
  | console (event : ConsoleEvent)
  | timer (place : TimerPlace)
  /-- A process is to be terminated with this code. -/
  | terminate (handle : Handle) (code : ExitCode)
  | setEvent (event : Handle)
  deriving DecidableEq

/-- Steps that only change the place. -/
inductive Move (threads : ℕ) (state : State) : Place → Place → Prop
  -- a process that cannot be created is left out
  | notCreated {idx : ℕ} (hidx : idx < threads) :
      Move threads state (.starting idx) (.starting (idx + 1))
  | startThrows {idx : ℕ} (hidx : idx < threads) :
      Move threads state (.starting idx) (.leaving true)
  | started : Move threads state (.starting threads) .testing
  | ends (hpids : state.data.pids = []) : Move threads state .testing (.leaving false)
  -- a process may end between the timeout and the look at `app_running`
  | timedOut (hpids : state.data.pids ≠ []) (hsize : state.data.waitFor.length ≤ 64)
      (hquiet : state.appRunning = none ∨ state.sendClose = false) :
      Move threads state .testing .testing
  | waitThrows (hpids : state.data.pids ≠ []) : Move threads state .testing (.leaving true)
  -- "Event already created!", "Timer already created"
  | alreadyCreated (hcreated : state.data.event ≠ none ∨ state.data.timer ≠ none) :
      Move threads state .creatingEvent (.leaving true)
  -- `CreateEvent` fails
  | eventThrows (hevent : state.data.event = none) (htimer : state.data.timer = none) :
      Move threads state .creatingEvent (.leaving true)
  | terminates : Move threads state (.leaving true) .terminated

/-- Steps of the timer's thread that only read.  The timer fires once. -/
inductive TimerMove (state : State) : TimerPlace → TimerPlace → Prop
  | fires (size : ℕ) (htimer : state.data.timer ≠ none)
      (hread : state.place.live = true → size = state.data.pids.length) :
      TimerMove state .waiting (.walking 0 size)
  | reads {idx size : ℕ} (handle : Handle) (code : ExitCode) (hidx : idx < size)
      (hread : state.place.live = true → code = state.data.exitCode ∧
        ∀ process, state.data.pids[idx]? = some process → handle = process) :
      TimerMove state (.walking idx size) (.terminating handle code idx size)
  | walked {size : ℕ} (event : Option Handle)
      (hread : state.place.live = true → event = state.data.event) :
      TimerMove state (.walking size size) (.setting event)
  | noEvent : TimerMove state (.setting none) .done

inductive Step (threads : ℕ) : State → Action → State → Prop
  | move {state : State} {place : Place} (hmove : Move threads state state.place place) :
      Step threads state (.goTo place) { state with place := place }
  | create {state : State} {idx : ℕ} {hpid htid : Handle} (pid : ℕ)
      (hplace : state.place = .starting idx) (hidx : idx < threads)
      (hpid_new : hpid ∉ state.opened) (htid_new : htid ∉ state.opened) (hne : hpid ≠ htid) :
      Step threads state (.create idx hpid pid)
        { state with
          data := state.data.pushBack hpid htid pid
          opened := state.opened ++ [hpid, htid]
          place := .starting (idx + 1) }
  | remove {state : State} {idx : ℕ} {removal : Removal}
      (getExitCode : Handle → Option ExitCode)
      (hplace : state.place = .testing) (hpids : state.data.pids ≠ []) (hfound : state.Found idx)
      (hcode : ∀ handle, getExitCode handle = none ∨ getExitCode handle = state.exits handle)
      (hremove : state.data.removeIdx getExitCode idx = some removal) :
      Step threads state
        (.remove removal.code
          (if state.tells removal.code then removal.data.closeTargets else []))
        (state.removed removal)
  | close {state : State} {event : ConsoleEvent} (hplace : state.place = .testing)
      (hpids : state.data.pids ≠ []) (hsize : state.data.waitFor.length ≤ 64)
      (hrunning : state.appRunning = some event) (hsend : state.sendClose = true) :
      Step threads state (.close event state.data.closeTargets)
        { state with sendClose := false, place := .creatingEvent }
  -- `CreateTimerQueueTimer` fails
  | timerThrows {state : State} {handle : Handle} (hplace : state.place = .creatingEvent)
      (hevent : state.data.event = none) (htimer : state.data.timer = none)
      (hnew : handle ∉ state.opened) :
      Step threads state (.goTo (.leaving true))
        { state with
          data := { state.data with event := some handle }
          opened := state.opened ++ [handle]
          place := .leaving true }
  -- `wait_for` cannot grow
  | waitForThrows {state : State} {handle timer : Handle} (hplace : state.place = .creatingEvent)
      (hevent : state.data.event = none) (htimer : state.data.timer = none)
      (hnew : handle ∉ state.opened) (htimer_new : timer ∉ state.opened) (hne : handle ≠ timer) :
      Step threads state (.goTo (.leaving true))
        { state with
          data := { state.data with event := some handle, timer := some timer }
          opened := state.opened ++ [handle, timer]
          place := .leaving true }
  | createEvent {state : State} {handle timer : Handle} (hplace : state.place = .creatingEvent)
      (hevent : state.data.event = none) (htimer : state.data.timer = none)
      (hnew : handle ∉ state.opened) (htimer_new : timer ∉ state.opened) (hne : handle ≠ timer) :
      Step threads state .createEvent
        { state with
          data := { state.data with
            event := some handle
            timer := some timer
            waitFor := state.data.waitFor ++ [handle] }
          opened := state.opened ++ [handle, timer]
          place := .testing }
  | destroy {state : State} {thrown : Bool} (hplace : state.place = .leaving thrown) :
      Step threads state .destroy
        { state with closed := state.closed ++ state.data.destroyed, place := .left thrown }
  | exit {state : State} {handle : Handle} (code : ExitCode) (hlive : state.place.live = true)
      (hprocess : handle ∈ state.data.pids) (hrunning : state.exits handle = none) :
      Step threads state (.exit handle code)
        { state with exits := update state.exits handle (some code) }
  | console {state : State} (event : ConsoleEvent) :
      Step threads state (.console event) { state with appRunning := some event }
  | timer {state : State} {place : TimerPlace}
      (hmove : TimerMove state state.timerPlace place) :
      Step threads state (.timer place) { state with timerPlace := place }
  -- `TerminateProcess` may fail, and a process that it ends takes `exit`
  | terminate {state : State} {handle : Handle} {code : ExitCode} {idx size : ℕ}
      (hplace : state.timerPlace = .terminating handle code idx size) :
      Step threads state (.terminate handle code)
        { state with timerPlace := .walking (idx + 1) size }
  -- the event stays as it is if the handle is another one, or was closed in the meantime
  | setEvent {state : State} {event : Handle} (hplace : state.timerPlace = .setting (some event)) :
      Step threads state (.setEvent event)
        { state with
          timerPlace := .done
          eventSet := state.eventSet ||
            (state.data.event == some event && !state.closed.contains event) }

/-! ## What `Data` holds -/

namespace Data

variable {data : Data}

/-- The handles that are not closed yet. -/
def held (data : Data) : List Handle :=
  data.pids ++ data.tids ++ data.timer.toList ++ data.event.toList

/-- The vectors fit together: the processes are waited for in their order, and the event, if
any, behind them. -/
structure Wf (data : Data) : Prop where
  tids : data.tids.length = data.pids.length
  waitFor : data.waitFor = data.pids ∨ data.waitFor = data.pids ++ data.event.toList
  nodup : data.pids.Nodup
  mapped : ∀ handle, handle ∈ data.pids ↔ (data.handleToPid handle).isSome

theorem wf_initial : initial.Wf where
  tids := rfl
  waitFor := .inl rfl
  nodup := List.nodup_nil
  mapped handle := by simp [initial]

theorem Wf.waitFor_of_event (hwf : data.Wf) (hevent : data.event = none) :
    data.waitFor = data.pids := by
  have hwait := hwf.waitFor
  rw [hevent, Option.toList_none, List.append_nil, or_self] at hwait
  exact hwait

theorem Wf.waitFor_eq_append (hwf : data.Wf) :
    ∃ tail, data.waitFor = data.pids ++ tail ∧ (tail = [] ∨ tail = data.event.toList) := by
  rcases hwf.waitFor with hwait | hwait
  · exact ⟨[], by rw [hwait, List.append_nil], .inl rfl⟩
  · exact ⟨data.event.toList, hwait, .inr rfl⟩

theorem forall₂_filterMap {handles : List Handle} {pidOf : Handle → Option ℕ}
    (hmapped : ∀ handle ∈ handles, (pidOf handle).isSome) :
    List.Forall₂ (fun handle pid => pidOf handle = some pid) handles
      (handles.filterMap pidOf) := by
  induction handles with
  | nil => exact .nil
  | cons handle handles ih =>
      rw [List.forall_mem_cons] at hmapped
      obtain ⟨pid, hpid⟩ := Option.isSome_iff_exists.1 hmapped.1
      rw [List.filterMap_cons_some hpid]
      exact .cons hpid (ih hmapped.2)

/-- Every child that is left is told. -/
theorem Wf.forall₂_closeTargets (hwf : data.Wf) :
    List.Forall₂ (fun handle pid => data.handleToPid handle = some pid) data.pids
      data.closeTargets :=
  forall₂_filterMap fun handle hmem => (hwf.mapped handle).1 hmem

theorem Wf.pushBack (hwf : data.Wf) {hpid htid : Handle} (pid : ℕ)
    (hevent : data.event = none) (hnew : hpid ∉ data.pids) :
    (data.pushBack hpid htid pid).Wf := by
  have hunmapped : data.handleToPid hpid = none := by
    rw [← Option.not_isSome_iff_eq_none, ← hwf.mapped]
    exact hnew
  refine ⟨?_, .inl ?_, ?_, fun handle => ?_⟩
  · simp [Data.pushBack, hwf.tids]
  · simp [Data.pushBack, hwf.waitFor_of_event hevent]
  · rw [Data.pushBack, ← List.concat_eq_append]
    exact hwf.nodup.concat hnew
  · by_cases hsame : handle = hpid
    · simp [Data.pushBack, hunmapped, hsame]
    · simp [Data.pushBack, hunmapped, hsame, hwf.mapped handle]

theorem handleToPid_pushBack {hpid htid handle : Handle} {created pid : ℕ}
    (hmapped : (data.pushBack hpid htid created).handleToPid handle = some pid) :
    data.handleToPid handle = some pid ∨ handle = hpid ∧ pid = created := by
  rw [Data.pushBack] at hmapped
  dsimp only at hmapped
  split at hmapped
  · exact .inl hmapped
  · by_cases hsame : handle = hpid
    · rw [hsame, update_self] at hmapped
      exact .inr ⟨hsame, (Option.some.inj hmapped).symm⟩
    · rw [update_of_ne hsame] at hmapped
      exact .inl hmapped

/-! ### Removal -/

variable {getExitCode : Handle → Option ExitCode} {idx : ℕ} {removal : Removal}

/-- What is removed is the event, or a process with its thread. -/
theorem Wf.removeIdx_cases (hwf : data.Wf)
    (hremove : data.removeIdx getExitCode idx = some removal) :
    (∃ event, data.event = some event ∧ data.waitFor[idx]? = some event ∧
      removal = ⟨{ data with waitFor := data.pids }, [], none⟩) ∨
    ∃ hpid htid tail, data.pids[idx]? = some hpid ∧ data.tids[idx]? = some htid ∧
      data.waitFor = data.pids ++ tail ∧
      removal =
        ⟨{ data with
            handleToPid := update data.handleToPid hpid none
            pids := data.pids.eraseIdx idx
            tids := data.tids.eraseIdx idx
            waitFor := data.pids.eraseIdx idx ++ tail },
          [hpid, htid], some ((getExitCode hpid).getD 1)⟩ := by
  obtain ⟨tail, hwait, htail⟩ := hwf.waitFor_eq_append
  rw [removeIdx] at hremove
  split at hremove
  · exact absurd hremove nofun
  · rename_i hrange
    simp only [Bool.or_eq_true, decide_eq_true_eq, not_or, Nat.not_le, Nat.not_lt] at hrange
    split at hremove
    · rename_i hnone
      -- the index of the event is the number of the processes
      have hidx : idx = data.pids.length :=
        Nat.le_antisymm hrange.2 (List.getElem?_eq_none_iff.1 hnone)
      have hlt := hrange.1
      rw [hwait, List.length_append, hidx] at hlt
      obtain rfl | rfl := htail
      · simp at hlt
      · cases hevent : data.event with
        | none => simp [hevent] at hlt
        | some event =>
            refine .inl ⟨event, rfl, by simp [hwait, hidx, hevent], ?_⟩
            rw [← Option.some.inj hremove, hwait, hidx,
              List.eraseIdx_append_of_length_le (Nat.le_refl _), hevent]
            simp
    · exact absurd hremove nofun
    · rename_i hpid htid hprocess hthread
      have hlt : idx < data.pids.length := (List.getElem?_eq_some_iff.1 hprocess).1
      refine .inr ⟨hpid, htid, tail, hprocess, hthread, hwait, ?_⟩
      rw [← Option.some.inj hremove, hwait, List.eraseIdx_append_of_lt_length hlt]

theorem perm_cons_eraseIdx {handles : List Handle} {handle : Handle}
    (hget : handles[idx]? = some handle) : handles.Perm (handle :: handles.eraseIdx idx) := by
  obtain ⟨hlt, rfl⟩ := List.getElem?_eq_some_iff.1 hget
  exact (List.getElem_cons_eraseIdx_perm hlt).symm

theorem Wf.remove (hwf : data.Wf) (hremove : data.removeIdx getExitCode idx = some removal) :
    removal.data.Wf := by
  rcases hwf.removeIdx_cases hremove with ⟨event, _, _, rfl⟩ | hprocess
  · exact ⟨hwf.tids, .inl rfl, hwf.nodup, hwf.mapped⟩
  · obtain ⟨hpid, htid, tail, hpid_get, htid_get, hwait, rfl⟩ := hprocess
    have hlt : idx < data.pids.length := (List.getElem?_eq_some_iff.1 hpid_get).1
    have hperm := perm_cons_eraseIdx hpid_get
    have hnodup := hperm.nodup_iff.1 hwf.nodup
    refine ⟨?_, ?_, (List.nodup_cons.1 hnodup).2, fun handle => ?_⟩
    · simp only [List.length_eraseIdx_of_lt hlt,
        List.length_eraseIdx_of_lt (hwf.tids ▸ hlt : idx < data.tids.length), hwf.tids]
    · rcases hwf.waitFor with hsame | hevent
      · have htail : tail = [] := by simpa [hsame] using hwait
        exact .inl (by simp [htail])
      · have htail : data.event.toList = tail := List.append_cancel_left (hevent.symm.trans hwait)
        exact .inr (by simp [htail])
    · by_cases hsame : handle = hpid
      · simp [hsame, (List.nodup_cons.1 hnodup).1]
      · have hmem := hperm.mem_iff (a := handle)
        simp only [List.mem_cons, hsame, false_or] at hmem
        simp [hsame, ← hmem, hwf.mapped handle]

/-- What a removal closes was held, and the rest still is. -/
theorem Wf.held_remove (hwf : data.Wf)
    (hremove : data.removeIdx getExitCode idx = some removal) :
    data.held.Perm (removal.closes ++ removal.data.held) := by
  rcases hwf.removeIdx_cases hremove with ⟨event, _, _, rfl⟩ | hprocess
  · exact .refl _
  · obtain ⟨hpid, htid, tail, hpid_get, htid_get, _, rfl⟩ := hprocess
    rw [List.perm_iff_count]
    intro handle
    have hpids := (perm_cons_eraseIdx hpid_get).count_eq handle
    have htids := (perm_cons_eraseIdx htid_get).count_eq handle
    simp only [List.count_cons] at hpids htids
    simp only [held, List.count_append, List.count_cons, List.count_nil]
    omega

/-- The other children keep their process ids. -/
theorem Wf.handleToPid_remove (hwf : data.Wf)
    (hremove : data.removeIdx getExitCode idx = some removal) {handle : Handle} {pid : ℕ}
    (hmapped : removal.data.handleToPid handle = some pid) :
    data.handleToPid handle = some pid := by
  rcases hwf.removeIdx_cases hremove with ⟨event, _, _, rfl⟩ | hprocess
  · exact hmapped
  · obtain ⟨hpid, htid, tail, _, _, _, rfl⟩ := hprocess
    by_cases hsame : handle = hpid
    · simp [hsame] at hmapped
    · simpa [hsame] using hmapped

theorem Wf.event_remove (hwf : data.Wf)
    (hremove : data.removeIdx getExitCode idx = some removal) :
    removal.data.event = data.event ∧ removal.data.timer = data.timer := by
  rcases hwf.removeIdx_cases hremove with ⟨event, _, _, rfl⟩ | hprocess
  · exact ⟨rfl, rfl⟩
  · obtain ⟨hpid, htid, tail, _, _, _, rfl⟩ := hprocess
    exact ⟨rfl, rfl⟩

theorem held_destroyed_of_waits (hwait : data.waitFor = data.pids ++ data.event.toList) :
    data.held.Perm data.destroyed := by
  have hdrop : data.waitFor.drop data.pids.length = data.event.toList := by
    rw [hwait, List.drop_left]
  rw [List.perm_iff_count]
  intro handle
  simp only [held, destroyed, hdrop, List.count_append, List.count_reverse]
  omega

/-- The destructor closes what is held, except for an event that is no longer waited for. -/
theorem Wf.held_destroyed (hwf : data.Wf) :
    data.held.Perm data.destroyed ∨ data.held.Perm (data.destroyed ++ data.event.toList) := by
  obtain ⟨tail, hwait, htail⟩ := hwf.waitFor_eq_append
  have hdrop : data.waitFor.drop data.pids.length = tail := by
    rw [hwait, List.drop_left]
  rcases htail with rfl | rfl
  · right
    simp [held, destroyed, hdrop]
  · exact .inl (held_destroyed_of_waits hwait)

end Data

/-! ## Every handle is closed once -/

variable {threads : ℕ} {state next : State} {action : Action} {labels : List Action}

theorem State.removed_data (state : State) (removal : Removal) :
    ∃ code, (state.removed removal).data = { removal.data with exitCode := code } := by
  rw [State.removed]
  split
  · exact ⟨_, rfl⟩
  · exact ⟨_, rfl⟩

theorem Data.Wf.exitCode {data : Data} (hwf : data.Wf) (code : ExitCode) :
    { data with exitCode := code }.Wf :=
  ⟨hwf.tids, hwf.waitFor, hwf.nodup, hwf.mapped⟩

/-- The event and the timer are made once, after the loop was told to close. -/
structure Phase (state : State) : Prop where
  starting : ∀ idx, state.place = .starting idx → state.sendClose = true
  unsent : state.sendClose = true → state.data.event = none ∧ state.data.timer = none
  creating : state.place = .creatingEvent →
    state.sendClose = false ∧ state.data.event = none ∧ state.data.timer = none

theorem phase_start : Phase start where
  starting _ _ := rfl
  unsent _ := ⟨rfl, rfl⟩
  creating hplace := by cases hplace

structure Owned (state : State) : Prop where
  nodup : state.opened.Nodup
  wf : state.data.Wf
  held : (∀ thrown, state.place ≠ .left thrown) →
    state.opened.Perm (state.closed ++ state.data.held)
  released : ∀ thrown, state.place = .left thrown →
    state.opened.Perm state.closed ∨ state.opened.Perm (state.closed ++ state.data.event.toList)

theorem owned_start : Owned start where
  nodup := List.nodup_nil
  wf := Data.wf_initial
  held _ := .refl _
  released _ hplace := by cases hplace

theorem Owned.held_of_live (howned : Owned state) (hlive : state.place.live = true) :
    state.opened.Perm (state.closed ++ state.data.held) := by
  apply howned.held
  intro thrown hleft
  rw [hleft] at hlive
  cases hlive

theorem Phase.move {place : Place} (hphase : Phase state)
    (hmove : Move threads state state.place place) : Phase { state with place := place } := by
  refine ⟨fun idx hplace => ?_, hphase.unsent, fun hplace => ?_⟩
  · dsimp only at hplace ⊢
    subst hplace
    generalize hbefore : state.place = before at hmove
    cases hmove
    exact hphase.starting _ hbefore
  · dsimp only at hplace
    subst hplace
    generalize state.place = before at hmove
    cases hmove

theorem Phase.step (hphase : Phase state) (hwf : state.data.Wf)
    (hstep : Step threads state action next) : Phase next := by
  cases hstep with
  | move hmove => exact hphase.move hmove
  | create pid hplace =>
      have hsend := hphase.starting _ hplace
      exact ⟨fun _ _ => hsend, hphase.unsent, fun hother => (by cases hother)⟩
  | remove getExitCode hplace hpids hfound hcode hremove =>
      rename_i idx removal
      obtain ⟨code, hdata⟩ := state.removed_data removal
      have hevent := hwf.event_remove hremove
      refine ⟨fun idx hother => ?_, fun hsend => ?_, fun hother => ?_⟩
      · rw [State.removed, hplace] at hother
        cases hother
      · simp only [State.removed, Bool.and_eq_true] at hsend
        rw [hdata]
        simp only [hevent.1, hevent.2]
        exact hphase.unsent hsend.1
      · rw [State.removed, hplace] at hother
        cases hother
  | close hplace hpids hsize hrunning hsend =>
      exact ⟨fun _ hother => (by cases hother), fun hother => (by cases hother),
        fun _ => ⟨rfl, hphase.unsent hsend⟩⟩
  | timerThrows hplace | waitForThrows hplace | createEvent hplace =>
      have hsend := (hphase.creating hplace).1
      exact ⟨fun _ hother => (by cases hother),
        fun hother => absurd (hsend.symm.trans hother) Bool.false_ne_true,
        fun hother => (by cases hother)⟩
  | destroy hplace =>
      exact ⟨fun _ hother => (by cases hother), hphase.unsent, fun hother => (by cases hother)⟩
  | exit | console | timer | terminate | setEvent =>
      exact ⟨hphase.starting, hphase.unsent, hphase.creating⟩

/-- Handles that are given out and held are new in every respect. -/
theorem nodup_append_new {opened handles : List Handle} (hnodup : opened.Nodup)
    (hhandles : handles.Nodup) (hnew : ∀ handle ∈ handles, handle ∉ opened) :
    (opened ++ handles).Nodup :=
  List.nodup_append.2 ⟨hnodup, hhandles, fun _ hold _ hmem heq => hnew _ hmem (heq ▸ hold)⟩

/-- What is given out goes to what is held. -/
theorem perm_append_new {opened closed held held' handles : List Handle}
    (hperm : opened.Perm (closed ++ held)) (hheld : held'.Perm (held ++ handles)) :
    (opened ++ handles).Perm (closed ++ held') := by
  have hleft := hperm.append_right handles
  rw [List.append_assoc] at hleft
  exact hleft.trans (hheld.symm.append_left closed)

/-- An event and a timer that are made are held. -/
theorem Data.held_newEvent {data data' : Data} {handle timer : Handle}
    (hevent : data.event = none) (htimer : data.timer = none)
    (hpids : data'.pids = data.pids) (htids : data'.tids = data.tids)
    (hevent' : data'.event = some handle) (htimer' : data'.timer = some timer) :
    data'.held.Perm (data.held ++ [handle, timer]) := by
  rw [List.perm_iff_count]
  intro other
  simp only [Data.held, hevent, htimer, hpids, htids, hevent', htimer', Option.toList_none,
    Option.toList_some, List.count_append, List.count_cons, List.count_nil]
  omega

theorem Owned.step (howned : Owned state) (hphase : Phase state)
    (hstep : Step threads state action next) : Owned next := by
  have hwf := howned.wf
  cases hstep with
  | @move place hmove =>
      refine ⟨howned.nodup, hwf, fun _ => howned.held fun thrown hleft => ?_,
        fun thrown hleft => ?_⟩
      · rw [hleft] at hmove
        cases hmove
      · dsimp only at hleft
        subst hleft
        generalize state.place = before at hmove
        cases hmove
  | @create idx hpid htid pid hplace hidx hpid_new htid_new hne =>
      have hperm := howned.held_of_live (by rw [hplace]; rfl)
      have hevent := hphase.unsent (hphase.starting _ hplace)
      have hnew : hpid ∉ state.data.pids := fun hmem =>
        hpid_new (hperm.mem_iff.2 (by simp [Data.held, hmem]))
      refine ⟨nodup_append_new howned.nodup (by simp [hne]) (by simp [hpid_new, htid_new]),
        hwf.pushBack pid hevent.1 hnew, fun _ => perm_append_new hperm ?_,
        fun _ hleft => (by cases hleft)⟩
      rw [List.perm_iff_count]
      intro handle
      simp only [Data.held, Data.pushBack, List.count_append, List.count_cons, List.count_nil]
      omega
  | @remove idx removal getExitCode hplace hpids hfound hcode hremove =>
      have hperm := howned.held_of_live (by rw [hplace]; rfl)
      obtain ⟨code, hdata⟩ := state.removed_data removal
      refine ⟨howned.nodup, hdata ▸ (hwf.remove hremove).exitCode code, fun _ => ?_,
        fun thrown hleft => ?_⟩
      · rw [hdata]
        refine hperm.trans ?_
        simp only [State.removed, List.append_assoc]
        exact (hwf.held_remove hremove).append_left _
      · rw [State.removed, hplace] at hleft
        cases hleft
  | close hplace =>
      have hperm := howned.held_of_live (by rw [hplace]; rfl)
      exact ⟨howned.nodup, hwf, fun _ => hperm, fun _ hleft => (by cases hleft)⟩
  | @timerThrows handle hplace hevent htimer hnew =>
      have hperm := howned.held_of_live (by rw [hplace]; rfl)
      refine ⟨nodup_append_new howned.nodup (List.nodup_singleton _) (by simp [hnew]),
        ⟨hwf.tids, .inl (hwf.waitFor_of_event hevent), hwf.nodup, hwf.mapped⟩,
        fun _ => perm_append_new hperm ?_, fun _ hleft => (by cases hleft)⟩
      simp [Data.held, hevent]
  | @waitForThrows handle timer hplace hevent htimer hnew htimer_new hne =>
      have hperm := howned.held_of_live (by rw [hplace]; rfl)
      refine ⟨nodup_append_new howned.nodup (by simp [hne]) (by simp [hnew, htimer_new]),
        ⟨hwf.tids, .inl (hwf.waitFor_of_event hevent), hwf.nodup, hwf.mapped⟩,
        fun _ => perm_append_new hperm (Data.held_newEvent hevent htimer rfl rfl rfl rfl),
        fun _ hleft => (by cases hleft)⟩
  | @createEvent handle timer hplace hevent htimer hnew htimer_new hne =>
      have hperm := howned.held_of_live (by rw [hplace]; rfl)
      have hwait := hwf.waitFor_of_event hevent
      refine ⟨nodup_append_new howned.nodup (by simp [hne]) (by simp [hnew, htimer_new]),
        ⟨hwf.tids, .inr (by simp [hwait]), hwf.nodup, hwf.mapped⟩,
        fun _ => perm_append_new hperm (Data.held_newEvent hevent htimer rfl rfl rfl rfl),
        fun _ hleft => (by cases hleft)⟩
  | @destroy thrown hplace =>
      have hperm := howned.held_of_live (by rw [hplace]; rfl)
      refine ⟨howned.nodup, hwf, fun hnot => absurd rfl (hnot thrown), fun _ _ => ?_⟩
      rw [List.append_assoc]
      exact hwf.held_destroyed.imp (fun hheld => hperm.trans (hheld.append_left _))
        fun hheld => hperm.trans (hheld.append_left _)
  | exit | console | timer | terminate | setEvent =>
      exact ⟨howned.nodup, hwf, howned.held, howned.released⟩

/-- No exception is on its way, and `Data` is there. -/
def Place.regular : Place → Bool
  | .starting _ | .testing | .creatingEvent | .leaving false => true
  | _ => false

/-- Unless the timer has set it, the event is waited for, and so the destructor closes it. -/
structure Waits (state : State) : Prop where
  exited : ∀ handle, state.exits handle ≠ none →
    handle ∈ state.opened ∧ state.data.event ≠ some handle
  regular : state.place.regular = true → state.eventSet = false →
    state.data.waitFor = state.data.pids ++ state.data.event.toList
  returned : state.place = .left false → state.eventSet = false →
    state.opened.Perm state.closed

theorem waits_start : Waits start where
  exited _ hexits := absurd rfl hexits
  regular _ _ := rfl
  returned hplace := by cases hplace

theorem Move.regular_of {before after : Place} (hmove : Move threads state before after)
    (hregular : after.regular = true) : before.regular = true := by
  cases hmove <;> first | rfl | cases hregular

theorem Owned.event_not_mem_pids (howned : Owned state) {handle : Handle}
    (hlive : state.place.live = true) (hmem : handle ∈ state.data.pids) :
    handle ∈ state.opened ∧ state.data.event ≠ some handle := by
  have hperm := howned.held_of_live hlive
  refine ⟨hperm.mem_iff.2 (by simp [Data.held, hmem]), fun hevent => ?_⟩
  have hnodup := (List.nodup_append.1 (hperm.nodup_iff.1 howned.nodup)).2.1
  rw [Data.held, List.nodup_append] at hnodup
  exact hnodup.2.2 handle (by simp [hmem]) handle (by simp [hevent]) rfl

theorem Waits.removed {removal : Removal} {getExitCode : Handle → Option ExitCode} {idx : ℕ}
    (hwaits : Waits state) (hwf : state.data.Wf) (hplace : state.place = .testing)
    (hfound : state.Found idx)
    (hremove : state.data.removeIdx getExitCode idx = some removal) :
    Waits (state.removed removal) := by
  obtain ⟨code, hdata⟩ := state.removed_data removal
  have hevent := (hwf.event_remove hremove).1
  refine ⟨fun handle hexits => ?_, fun _ hunset => ?_, fun hleft => ?_⟩
  · rw [hdata]
    simp only [hevent]
    exact hwaits.exited handle hexits
  · rw [hdata]
    have hwait := hwaits.regular (by rw [hplace]; rfl) hunset
    rcases hwf.removeIdx_cases hremove with hremoved | hprocess
    · -- the event is signaled by the timer only
      obtain ⟨event, hsome, hget, _⟩ := hremoved
      obtain ⟨handle, hhandle, hsignaled⟩ := hfound.signaled
      obtain rfl := Option.some.inj (hget.symm.trans hhandle)
      rcases hsignaled with hexits | hset
      · exact absurd hsome (hwaits.exited _ hexits).2
      · exact absurd (hset.2.symm.trans hunset) Bool.false_ne_true.symm
    · obtain ⟨hpid, htid, tail, _, _, htail, rfl⟩ := hprocess
      simp only [List.append_cancel_left (hwait.symm.trans htail)]
  · rw [State.removed, hplace] at hleft
    cases hleft

theorem Waits.step (hwaits : Waits state) (howned : Owned state) (hphase : Phase state)
    (hstep : Step threads state action next) : Waits next := by
  cases hstep with
  | @move place hmove =>
      refine ⟨hwaits.exited, fun hregular => hwaits.regular (hmove.regular_of hregular),
        fun hleft => ?_⟩
      dsimp only at hleft
      subst hleft
      generalize state.place = before at hmove
      cases hmove
  | create pid hplace =>
      have hevent := hphase.unsent (hphase.starting _ hplace)
      have hwait := howned.wf.waitFor_of_event hevent.1
      refine ⟨fun handle hexits => ?_, fun _ _ => ?_, fun hleft => by cases hleft⟩
      · exact ⟨List.mem_append_left _ (hwaits.exited handle hexits).1,
          (hwaits.exited handle hexits).2⟩
      · simp [Data.pushBack, hwait, hevent.1]
  | remove getExitCode hplace hpids hfound hcode hremove =>
      exact hwaits.removed howned.wf hplace hfound hremove
  | close hplace =>
      exact ⟨hwaits.exited, fun _ => hwaits.regular (by rw [hplace]; rfl),
        fun hleft => by cases hleft⟩
  | timerThrows hplace hevent htimer hnew | waitForThrows hplace hevent htimer hnew =>
      refine ⟨fun other hexits => ?_, fun hregular => (by cases hregular),
        fun hleft => (by cases hleft)⟩
      have hopened := (hwaits.exited other hexits).1
      exact ⟨List.mem_append_left _ hopened,
        fun hsame => hnew (Option.some.inj hsame ▸ hopened)⟩
  | createEvent hplace hevent htimer hnew =>
      have hwait := howned.wf.waitFor_of_event hevent
      refine ⟨fun other hexits => ?_, fun _ _ => by simp [hwait], fun hleft => by cases hleft⟩
      have hopened := (hwaits.exited other hexits).1
      exact ⟨List.mem_append_left _ hopened,
        fun hsame => hnew (Option.some.inj hsame ▸ hopened)⟩
  | @destroy thrown hplace =>
      refine ⟨hwaits.exited, fun hregular => (by cases hregular), fun hleft hunset => ?_⟩
      obtain rfl := Place.left.inj hleft
      have hperm := howned.held_of_live (by rw [hplace]; rfl)
      have hwait := hwaits.regular (by rw [hplace]; rfl) hunset
      exact hperm.trans ((Data.held_destroyed_of_waits hwait).append_left _)
  | @exit handle code hlive hprocess hrunning =>
      refine ⟨fun other hexits => ?_, hwaits.regular, hwaits.returned⟩
      by_cases hsame : other = handle
      · subst hsame
        exact howned.event_not_mem_pids hlive hprocess
      · simp only [update_of_ne hsame] at hexits
        exact hwaits.exited other hexits
  | console | timer | terminate => exact ⟨hwaits.exited, hwaits.regular, hwaits.returned⟩
  | setEvent =>
      exact ⟨hwaits.exited,
        fun hregular hunset => hwaits.regular hregular (Bool.or_eq_false_iff.1 hunset).1,
        fun hleft hunset => hwaits.returned hleft (Bool.or_eq_false_iff.1 hunset).1⟩

structure Inv (state : State) : Prop where
  phase : Phase state
  owned : Owned state
  waits : Waits state

theorem inv_of_run (run : Run (Step threads) start labels state) : Inv state := by
  apply run.invariant Inv ⟨phase_start, owned_start, waits_start⟩
  intro before action after hinv hstep
  exact ⟨hinv.phase.step hinv.owned.wf hstep, hinv.owned.step hinv.phase hstep,
    hinv.waits.step hinv.owned hinv.phase hstep⟩

/-- The child is started, and a console event has come. -/
def consoleLabels : List Action := [.create 0 0 7, .goTo .testing, .console .ctrlC]

def consoleState : State where
  place := .testing
  timerPlace := .waiting
  data :=
    { handleToPid := update (fun _ => none) 0 (some 7)
      timer := none
      event := none
      pids := [0]
      tids := [1]
      waitFor := [0]
      exitCode := 0 }
  sendClose := true
  appRunning := some .ctrlC
  opened := [0, 1]
  closed := []
  exits _ := none
  eventSet := false

theorem run_console : Run (Step 1) start consoleLabels consoleState := by
  have hcreated : Run (Step 1) start [.create 0 0 7] _ :=
    Run.nil.snoc (.create 7 rfl Nat.zero_lt_one (List.not_mem_nil : 0 ∉ _)
      (List.not_mem_nil : 1 ∉ _) Nat.zero_ne_one)
  exact (hcreated.snoc (.move .started)).snoc (.console .ctrlC)

theorem step_close : Step 1 consoleState (.close .ctrlC [7])
    { consoleState with sendClose := false, place := .creatingEvent } :=
  .close rfl (List.cons_ne_nil _ _) (by decide) rfl rfl

/-- The event is passed on, and the timer has read the handle of the child. -/
def firedLabels : List Action :=
  consoleLabels ++ [.close .ctrlC [7], .createEvent, .timer (.walking 0 1),
    .timer (.terminating 0 0 0 1)]

def fired : State :=
  { consoleState with
    timerPlace := .terminating 0 0 0 1
    data := { consoleState.data with
      timer := some 3
      event := some 2
      waitFor := [0, 2] }
    sendClose := false
    opened := [0, 1, 2, 3] }

theorem run_fired : Run (Step 1) start firedLabels fired := by
  have hclose := run_console.snoc step_close
  have hevent := hclose.snoc (.createEvent rfl rfl rfl (by decide : 2 ∉ [0, 1])
    (by decide : 3 ∉ [0, 1]) (by decide))
  have hwalking := hevent.snoc (.timer (.fires 1 (Option.some_ne_none _) fun _ => rfl))
  exact hwalking.snoc (.timer (.reads 0 0 Nat.zero_lt_one fun _ =>
    ⟨rfl, fun _ hprocess => Option.some.inj hprocess⟩))

/-- The child ends with 3 and is removed, so that the timer uses a handle that is closed. -/
theorem timer_terminates_closed :
    ∃ state next, Run (Step 1) start (firedLabels ++ [.exit 0 3, .remove (some 3) []]) state ∧
      0 ∈ state.closed ∧ Step 1 state (.terminate 0 0) next := by
  have hexit := run_fired.snoc (.exit 3 rfl (List.mem_singleton.2 rfl : 0 ∈ [0]) rfl)
  have hremoved := hexit.snoc (.remove (update fired.exits 0 (some 3)) rfl
    (List.cons_ne_nil _ _) (State.found_zero rfl (by decide) (.inl (Option.some_ne_none _)))
    (fun _ => .inr rfl) rfl)
  exact ⟨_, _, hremoved, List.mem_cons_self, .terminate rfl⟩

/-- The timer comes to its end before the child ends with 3. -/
def interruptedLabels : List Action :=
  firedLabels ++ [.terminate 0 0, .timer (.setting (some 2)), .setEvent 2, .remove none [],
    .exit 0 3, .remove (some 3) [], .goTo (.leaving false), .destroy]

/-- The event is set. -/
def interrupted : State := { fired with timerPlace := .done, eventSet := true }

theorem run_interrupted :
    Run (Step 1) start (firedLabels ++ [.terminate 0 0, .timer (.setting (some 2)), .setEvent 2])
      interrupted := by
  have hterminated := run_fired.snoc (.terminate rfl)
  have hwalked := hterminated.snoc (.timer (.walked (some 2) fun _ => rfl))
  exact hwalked.snoc (.setEvent rfl)

theorem found_interrupted : interrupted.Found 1 where
  size := by decide
  signaled := ⟨2, rfl, .inr ⟨rfl, rfl⟩⟩
  first other hother handle hget := by
    obtain rfl := Nat.lt_one_iff.1 hother
    obtain rfl := Option.some.inj hget
    rintro (hexits | hevent)
    · exact hexits rfl
    · cases hevent.1

theorem run_interruptedLeft :
    ∃ state, Run (Step 1) start interruptedLabels state ∧ state.place = .left false ∧
      state.opened = [0, 1, 2, 3] ∧ state.closed = [0, 1, 3] ∧ state.data.exitCode = 0 := by
  have hremoved := run_interrupted.snoc (.remove interrupted.exits rfl (List.cons_ne_nil _ _)
    found_interrupted (fun _ => .inr rfl) rfl)
  have hexit := hremoved.snoc (.exit 3 rfl (List.mem_singleton.2 rfl : 0 ∈ [0]) rfl)
  have hprocess := hexit.snoc (.remove (update interrupted.exits 0 (some 3)) rfl
    (List.cons_ne_nil _ _) (State.found_zero rfl (by decide) (.inl (Option.some_ne_none _)))
    (fun _ => .inr rfl) rfl)
  have hleft := (hprocess.snoc (.move (.ends rfl))).snoc (.destroy rfl)
  exact ⟨_, hleft, rfl, rfl, rfl, rfl⟩

end Nstl.WindowsRunner
