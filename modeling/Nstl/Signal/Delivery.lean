import Nstl.Signal.Descriptors

/-!
# Signals are returned once

A pending signal stays until one thread reads it, and what a thread has read it returns: no
timeout and no exception loses a signal.  A thread that waits can go on as soon as there is a
signal or its timer has expired.
-/

namespace Nstl.SignalBarrier

open Function
open Nstl.Transition

variable {Thread : Type*} [DecidableEq Thread]

/-! ## Nothing is lost, and nothing is returned twice -/

def Label.arrives (signal : Signal) : Label Thread → Bool
  | .arrive arrived => arrived = signal
  | _ => false

/-- The signal was read, by any thread. -/
def Label.reads (signal : Signal) : Label Thread → Bool
  | .thread _ action => action = .read signal
  | _ => false

def Action.obtains (value : SigVal) : Action → Bool
  | .read signal => fromSignalConv signal = some value
  | _ => false

def Label.obtains (thread : Thread) (value : SigVal) : Label Thread → Bool
  | .thread reader action => reader = thread && action.obtains value
  | _ => false

def Label.returns (thread : Thread) (value : SigVal) : Label Thread → Bool
  | .thread returning action => returning = thread && action = .returned (.signal value)
  | _ => false

/-- A thread is about to return a signal. -/
def Place.carries (value : SigVal) : Place → Bool
  | .unwinding _ outcome => outcome = .signal value
  | _ => false

section Conserved

variable {shared next : Shared} {place place' : Place} {action : Action} {signal : Signal}
  {value : SigVal}

def Shared.pends (signal : Signal) (shared : Shared) : Bool := signal ∈ shared.pending

/-- A thread changes the pending signals by reading one, and in no other way. -/
theorem Local.pends (hlocal : Local shared place action next place') (signal : Signal) :
    (shared.pends signal).toNat =
      (next.pends signal).toNat + (decide (action = .read signal)).toNat := by
  cases hlocal with
  | @readSignal _ _ _ _ read _ _ hpending =>
      by_cases hread : read = signal
      · subst hread
        simp [Shared.pends, hpending]
      · have hne : signal ≠ read := fun hsame => hread hsame.symm
        simp [Shared.pends, hread, hne]
  | _ => rfl

/-- A thread gets a value to return by reading its signal, and loses it by returning it. -/
theorem Local.carries (hlocal : Local shared place action next place') (value : SigVal) :
    (place.carries value).toNat + (action.obtains value).toNat =
      (place'.carries value).toNat + (decide (action = .returned (.signal value))).toNat := by
  cases hlocal with
  | readSignal _ _ hvalue => simp [Place.carries, Action.obtains, hvalue]
  | returned => simp [Place.carries, Action.obtains]
  | _ => rfl

variable {before after : State Thread} {label : Label Thread}

theorem Step.pends (hstep : Step (some before) label (some after)) (signal : Signal) :
    (before.shared.pends signal).toNat + (label.arrives signal).toNat =
      (after.shared.pends signal).toNat + (label.reads signal).toNat := by
  cases hstep with
  | thread hlocal => exact hlocal.pends signal
  | @arrive _ _ arrived _ hnew =>
      by_cases harrived : arrived = signal
      · subst harrived
        simp [Shared.pends, Label.arrives, Label.reads, hnew]
      · have hne : signal ≠ arrived := fun hsame => harrived hsame.symm
        simp [Shared.pends, Label.arrives, Label.reads, harrived, hne]
  | _ => rfl

theorem Step.carries (hstep : Step (some before) label (some after)) (thread : Thread)
    (value : SigVal) :
    ((before.threads thread).carries value).toNat + (label.obtains thread value).toNat =
      ((after.threads thread).carries value).toNat + (label.returns thread value).toNat := by
  cases hstep with
  | @thread _ _ threads mover action place hlocal =>
      by_cases hmover : mover = thread
      · subst hmover
        simpa [Label.obtains, Label.returns] using hlocal.carries value
      · have hne : thread ≠ mover := fun hsame => hmover hsame.symm
        simp [Label.obtains, Label.returns, hmover, update_of_ne hne]
  | _ => rfl

theorem live_of_run {opened : Finset Fd} {mask : Finset Signal} {labels : List (Label Thread)}
    {state : State Thread} (hrun : Run Step (some (start opened mask)) labels (some state)) :
    Run (fun before label after => Step (some before) label (some after)) (start opened mask)
      labels state :=
  hrun.of_some fun _ _ hstep => by cases hstep

/-- Of every signal: each time that it became pending it was read once, or it is pending
still; and each time that a thread has read it, this thread has returned it, or is about to.
So a `wait_for` that times out, or any call that throws, has taken no signal from the others. -/
theorem signals_returned_once {opened : Finset Fd} {mask : Finset Signal}
    {labels : List (Label Thread)} {state : State Thread}
    (hrun : Run Step (some (start opened mask)) labels (some state)) :
    (∀ signal, labels.countP (·.arrives signal) =
      labels.countP (·.reads signal) + (state.shared.pends signal).toNat) ∧
    ∀ thread value, labels.countP (·.obtains thread value) =
      labels.countP (·.returns thread value) + ((state.threads thread).carries value).toNat := by
  have hlive := live_of_run hrun
  refine ⟨fun signal => ?_, fun thread value => ?_⟩
  · exact hlive.conserved (fun state => (state.shared.pends signal).toNat) _ _ rfl
      fun _ _ _ hstep => hstep.pends signal
  · exact hlive.conserved (fun state => ((state.threads thread).carries value).toNat) _ _ rfl
      fun _ _ _ hstep => hstep.carries thread value

end Conserved

/-! ## Waiting ends -/

/-- The thread can return by steps of its own. -/
def Returns (state : State Thread) (thread : Thread) (outcome : Outcome) : Prop :=
  ∃ (actions : List Action) (last : State Thread),
    Run Step (some state) ((actions ++ [Action.returned outcome]).map (.thread thread)) (some last)

section Returns

variable {shared next : Shared} {threads : Thread → Place} {thread : Thread} {outcome : Outcome}
  {place place' : Place} {action : Action}

theorem Returns.of_local (hinv : Inv shared threads) (hplace : threads thread = place)
    (hlocal : Local shared place action next place') (haction : action ≠ .destroy)
    (hrest : ∀ threads, Inv next threads → threads thread = place' →
      Returns ⟨next, threads⟩ thread outcome) : Returns ⟨shared, threads⟩ thread outcome := by
  subst hplace
  obtain ⟨actions, last, hrun⟩ :=
    hrest _ (hinv.threadStep hlocal haction) (update_self thread place' threads)
  exact ⟨action :: actions, last, (Run.nil.snoc (.thread hlocal)).append hrun⟩

/-- The guards do not stand in the way of a result. -/
theorem returns_of_unwinding {guards : List Guard} (hinv : Inv shared threads)
    (hplace : threads thread = .unwinding guards outcome) :
    Returns ⟨shared, threads⟩ thread outcome := by
  induction guards generalizing shared threads with
  | nil =>
      have hlocal : Local shared (threads thread) (.returned outcome) shared .idle := by
        rw [hplace]
        exact .returned
      exact ⟨[], _, Run.nil.snoc (.thread hlocal)⟩
  | cons guard guards ih =>
      have hsound := hinv.sound thread
      rw [hplace] at hsound
      exact .of_local hinv hplace (.unwind (Guarded.succeeds hsound)) nofun
        fun threads hinv hplace => ih hinv hplace

variable {sfd epfd : Fd} {tfd : Option Fd}

omit [DecidableEq Thread] in
/-- `epoll_wait` can report any descriptor that is registered and ready. -/
theorem woken_of_ready (hinv : Inv shared threads)
    (hplace : threads thread = .calling sfd (.waiting tfd epfd)) {fd : Fd}
    (hfd : tfd = some fd ∨ fd = sfd) (hready : shared.Ready fd) :
    Local shared (.calling sfd (.waiting tfd epfd)) .internal shared
      (.calling sfd (.dispatching tfd epfd [fd])) := by
  have hsound := hinv.sound thread
  rw [hplace] at hsound
  obtain ⟨_, _, members, hmembers, hwatched⟩ :=
    hsound.2.1.removes epfd fd (remove_mem_loopGuards.2 ⟨rfl, hfd⟩)
  refine .move (.woken hmembers nofun (Nat.le_add_left 1 15) (List.nodup_singleton fd)
    fun other hother => ?_)
  obtain rfl := List.mem_singleton.1 hother
  exact ⟨hwatched, hready⟩

theorem returns_signal (hinv : Inv shared threads)
    (hplace : threads thread = .calling sfd (.waiting tfd epfd)) {signal : Signal} {value : SigVal}
    (hpending : signal ∈ shared.pending) (hvalue : fromSignalConv signal = some value) :
    Returns ⟨shared, threads⟩ thread (.signal value) := by
  have hsound := hinv.sound thread
  rw [hplace] at hsound
  have hready : shared.Ready sfd := by
    rw [Shared.Ready, hsound.1]
    exact ⟨signal, fromSignalConv_isSome_iff.1 (hvalue ▸ rfl), hpending⟩
  refine .of_local hinv hplace (woken_of_ready hinv hplace (.inr rfl) hready) nofun ?_
  intro threads hinv hplace
  refine .of_local hinv hplace (.move .signals) nofun ?_
  intro threads hinv hplace
  refine .of_local hinv hplace (.readSignal hsound.1 hpending hvalue) nofun ?_
  exact fun threads hinv hplace => returns_of_unwinding hinv hplace

theorem returns_timeout {tfd : Fd} {armed : Bool} {expirations : ℕ} (hinv : Inv shared threads)
    (hplace : threads thread = .calling sfd (.waiting (some tfd) epfd))
    (hfile : shared.files tfd = some (.timer armed (expirations + 1))) :
    Returns ⟨shared, threads⟩ thread .timeout := by
  have hsound := hinv.sound thread
  rw [hplace] at hsound
  have hne : tfd ≠ sfd := by
    rintro rfl
    exact absurd (hfile.symm.trans hsound.1) nofun
  have hready : shared.Ready tfd := by
    rw [Shared.Ready, hfile]
    exact Nat.succ_pos expirations
  refine .of_local hinv hplace (woken_of_ready hinv hplace (.inl rfl) hready) nofun ?_
  intro threads hinv hplace
  refine .of_local hinv hplace (.move (.timer hne)) nofun ?_
  intro threads hinv hplace
  refine .of_local hinv hplace (.readTimer hfile) nofun ?_
  exact fun threads hinv hplace => returns_of_unwinding hinv hplace

/-- As long as `global_init` is not destroyed, and however the threads have come there: a
thread in `epoll_wait` can return every signal that is pending, whoever else waits for it; its
timer runs, and when it has expired the thread can return that. -/
theorem waiting_returns {opened : Finset Fd} {mask : Finset Signal}
    {labels : List (Label Thread)} {state : State Thread}
    (hrun : Run Step (some (start opened mask)) labels (some state))
    (hlive : ∀ thread, .thread thread .destroy ∉ labels)
    (hplace : state.threads thread = .calling sfd (.waiting tfd epfd)) :
    (∀ signal ∈ watched, signal ∈ state.shared.pending →
      ∃ value, fromSignalConv signal = some value ∧ Returns state thread (.signal value)) ∧
    ∀ fd, tfd = some fd → ∃ expirations,
      state.shared.files fd = some (.timer true expirations) ∧
        (0 < expirations → Returns state thread .timeout) := by
  obtain ⟨_, hsome, hinv⟩ := inv_of_run hrun hlive
  obtain rfl := Option.some.inj hsome
  refine ⟨fun signal hwatched hpending => ?_, fun fd hfd => ?_⟩
  · obtain ⟨value, hvalue⟩ := Option.isSome_iff_exists.1 (fromSignalConv_isSome_iff.2 hwatched)
    exact ⟨value, hvalue, returns_signal hinv hplace hpending hvalue⟩
  · subst hfd
    have hsound := hinv.sound thread
    rw [hplace] at hsound
    obtain ⟨expirations, hfile⟩ := hsound.2.2 fd rfl
    refine ⟨expirations, hfile, fun hpos => ?_⟩
    obtain ⟨earlier, rfl⟩ := Nat.exists_eq_add_one.2 hpos
    exact returns_timeout hinv hplace hfile

end Returns

/-! ## One thread that is interrupted -/

theorem run_oneSignal :
    ∃ state : State Unit,
      Run Step (some (start ∅ ∅)) (oneCallLabels ++ [.arrive sigint]) (some state) ∧
        state.threads () = .calling 3 (.waiting none 4) ∧ sigint ∈ state.shared.pending := by
  obtain ⟨threads, hrun, hplace⟩ := run_oneCall
  have harrive := hrun.snoc (.arrive (show sigint ∈ oneCall.mask by decide) nofun)
  exact ⟨_, harrive, hplace, Finset.mem_insert_self ..⟩

/-- The thread is woken up, reads the signal, gives its descriptors back and returns. -/
def oneReturnedLabels : List (Label Unit) :=
  oneCallLabels ++ [.arrive sigint] ++ [.thread () .internal] ++ [.thread () .internal] ++
    [.thread () (.read sigint)] ++ [.thread () .internal] ++ [.thread () .internal] ++
    [.thread () (.returned (.signal .sigInt))]

theorem run_oneReturned :
    ∃ state : State Unit, Run Step (some (start ∅ ∅)) oneReturnedLabels (some state) := by
  obtain ⟨threads, hrun, hplace⟩ := run_oneCall
  have harrive := hrun.snoc (.arrive (show sigint ∈ oneCall.mask by decide) nofun)
  let arrived : Shared := { oneCall with pending := insert sigint ∅ }
  have hready : arrived.Ready 3 := ⟨sigint, by decide, Finset.mem_insert_self ..⟩
  have hwoken : Move arrived 3 (.waiting none 4) (.dispatching none 4 [3]) := by
    refine .woken (show arrived.files 4 = some (.epoll (insert 3 ∅)) from rfl)
      (List.cons_ne_nil 3 []) (Nat.le_add_left 1 15) (List.nodup_singleton 3) fun fd hfd => ?_
    obtain rfl := List.mem_singleton.1 hfd
    exact ⟨Finset.mem_insert_self .., hready⟩
  have hsignals : arrived.files 3 = some .signals := rfl
  have hread : Local arrived (.calling 3 (.readingSignals none 4 [])) (.read sigint) _
      (.unwinding [.remove 4 3, .close 4] (.signal .sigInt)) :=
    .readSignal hsignals (Finset.mem_insert_self ..) rfl
  obtain ⟨_, hrun, hplace⟩ := run_local harrive hplace (.move hwoken)
  obtain ⟨_, hrun, hplace⟩ := run_local hrun hplace (.move .signals)
  obtain ⟨_, hrun, hplace⟩ := run_local hrun hplace hread
  obtain ⟨_, hrun, hplace⟩ := run_local hrun hplace
    (.unwind ⟨insert 3 ∅, rfl, Finset.mem_insert_self ..⟩)
  obtain ⟨_, hrun, hplace⟩ := run_local hrun hplace (.unwind trivial)
  obtain ⟨_, hrun, _⟩ := run_local hrun hplace .returned
  exact ⟨_, hrun⟩

/-- A SIGINT that was read and returned is not pending, and is not returned again. -/
theorem signals_returned_once_sigint :
    ∃ state : State Unit, Run Step (some (start ∅ ∅)) oneReturnedLabels (some state) ∧
      oneReturnedLabels.countP (·.reads sigint) = 1 ∧
      oneReturnedLabels.countP (·.returns () .sigInt) = 1 ∧
      (state.shared.pends sigint).toNat = 0 ∧
      ((state.threads ()).carries .sigInt).toNat = 0 := by
  obtain ⟨state, hrun⟩ := run_oneReturned
  have hread : 1 = 1 + (state.shared.pends sigint).toNat := (signals_returned_once hrun).1 sigint
  have hreturned : 1 = 1 + ((state.threads ()).carries .sigInt).toNat :=
    (signals_returned_once hrun).2 () .sigInt
  exact ⟨state, hrun, rfl, rfl, by omega, by omega⟩

/-- The thread that waits can return the signal that has arrived. -/
theorem waiting_returns_sigint :
    ∃ state : State Unit,
      Run Step (some (start ∅ ∅)) (oneCallLabels ++ [.arrive sigint]) (some state) ∧
        Returns state () (.signal .sigInt) := by
  obtain ⟨state, hrun, hplace, hpending⟩ := run_oneSignal
  have hlive : ∀ thread, .thread thread .destroy ∉ oneCallLabels ++ [.arrive sigint] := by
    simp [oneCallLabels]
  obtain ⟨value, hvalue, hreturns⟩ :=
    (waiting_returns hrun hlive hplace).1 sigint (by decide) hpending
  obtain rfl := Option.some.inj hvalue
  exact ⟨state, hrun, hreturns⟩

end Nstl.SignalBarrier
