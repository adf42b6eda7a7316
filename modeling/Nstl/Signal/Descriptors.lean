import Nstl.Signal.Barrier

/-!
# The descriptors of the calls

Every `epoll` instance and every timer belongs to the one call that has opened it, and is
closed by one of its guards.  As long as `global_init` is not destroyed, no guard throws, and
a call leaves nothing open.
-/

namespace Nstl.SignalBarrier

open Function
open Nstl.Transition

/-! ## What stays of the files of others -/

/-- What can happen to a file while it is open; descriptors that are closed are gone. -/
inductive File.Kept (gone : Finset Fd) : File → File → Prop
  | forget (file : File) : File.Kept gone file (file.forget gone)
  | watch {members : Finset Fd} (fd : Fd) :
      File.Kept gone (.epoll members) (.epoll (insert fd members))
  | expire {armed : Bool} {expirations : ℕ} (next : ℕ) :
      File.Kept gone (.timer armed expirations) (.timer armed next)

/-- Nothing else is done to the files that are not among one's own. -/
def Files.Kept (mine : Fd → Prop) (files next : Files) : Prop :=
  ∃ gone : Finset Fd, (∀ fd ∈ gone, mine fd) ∧
    ∀ fd file, ¬mine fd → files fd = some file →
      ∃ file', next fd = some file' ∧ file.Kept gone file'

section Kept

variable {gone : Finset Fd} {file file' : File} {files next : Files} {mine : Fd → Prop} {fd : Fd}

@[simp]
theorem File.forget_empty (file : File) : file.forget ∅ = file := by
  cases file <;> simp [File.forget]

theorem File.Kept.same (file : File) : file.Kept ∅ file := by
  have hkept : file.Kept ∅ (file.forget ∅) := .forget file
  rwa [File.forget_empty] at hkept

theorem File.Kept.temporary (hkept : file.Kept gone file') : file'.temporary = file.temporary := by
  cases hkept with
  | forget => cases file <;> rfl
  | watch | expire => rfl

theorem File.Kept.signals (hkept : File.signals.Kept gone file') : file' = .signals := by
  cases hkept
  rfl

theorem File.Kept.timer {armed : Bool} {expirations : ℕ}
    (hkept : (File.timer armed expirations).Kept gone file') :
    ∃ expirations', file' = .timer armed expirations' := by
  cases hkept with
  | forget => exact ⟨expirations, rfl⟩
  | expire next => exact ⟨next, rfl⟩

theorem File.Kept.epoll {members : Finset Fd} (hkept : (File.epoll members).Kept gone file')
    (hfd : fd ∈ members) (hstays : fd ∉ gone) :
    ∃ members', file' = .epoll members' ∧ fd ∈ members' := by
  cases hkept with
  | forget => exact ⟨members \ gone, rfl, Finset.mem_sdiff.2 ⟨hfd, hstays⟩⟩
  | watch other => exact ⟨insert other members, rfl, Finset.mem_insert_of_mem hfd⟩

theorem Files.Kept.same (mine : Fd → Prop) (files : Files) : files.Kept mine files :=
  ⟨∅, fun _ hfd => absurd hfd (Finset.notMem_empty _), fun _ file _ hfile =>
    ⟨file, hfile, .same file⟩⟩

theorem Files.Kept.mono {mine' : Fd → Prop} (hkept : files.Kept mine next)
    (hmine : ∀ fd, mine fd → mine' fd) : files.Kept mine' next := by
  obtain ⟨gone, hgone, hfiles⟩ := hkept
  exact ⟨gone, fun fd hfd => hmine fd (hgone fd hfd), fun fd file hnot =>
    hfiles fd file (mt (hmine fd) hnot)⟩

/-- One file is changed. -/
theorem Files.Kept.set {file' : Option File}
    (hset : mine fd ∨ ∀ file, files fd = some file → ∃ new, file' = some new ∧ file.Kept ∅ new) :
    files.Kept mine (update files fd file') := by
  refine ⟨∅, fun _ hfd => absurd hfd (Finset.notMem_empty _), fun other file hother hfile => ?_⟩
  by_cases hsame : other = fd
  · subst hsame
    rw [update_self]
    exact (hset.resolve_left hother) file hfile
  · rw [update_of_ne hsame]
    exact ⟨file, hfile, .same file⟩

/-- A descriptor that was free is taken. -/
theorem Files.Kept.create (hfree : files fd = none) (file : File) :
    files.Kept mine (update files fd (some file)) :=
  .set (.inr fun _ hfile => absurd (hfree.symm.trans hfile) nofun)

theorem Files.Kept.watch {epfd : Fd} {members : Finset Fd}
    (hepoll : files epfd = some (.epoll members)) (fd : Fd) :
    files.Kept mine (update files epfd (some (.epoll (insert fd members)))) := by
  refine .set (.inr fun file hfile => ⟨_, rfl, ?_⟩)
  obtain rfl := Option.some.inj (hepoll.symm.trans hfile)
  exact .watch fd

theorem Files.Kept.restart {armed : Bool} {expirations : ℕ}
    (htimer : files fd = some (.timer armed expirations)) (next : ℕ) :
    files.Kept mine (update files fd (some (.timer armed next))) := by
  refine .set (.inr fun file hfile => ⟨_, rfl, ?_⟩)
  obtain rfl := Option.some.inj (htimer.symm.trans hfile)
  exact .expire next

theorem Files.close_self (files : Files) (fd : Fd) : files.close fd fd = none := update_self ..

theorem Files.close_of_none (hfree : files fd = none) (other : Fd) :
    files.close other fd = none := by
  rw [Files.close, update_apply, hfree]
  exact ite_self _

theorem Files.Kept.close (hmine : mine fd) : files.Kept mine (files.close fd) := by
  refine ⟨{fd}, fun other hother => Finset.mem_singleton.1 hother ▸ hmine,
    fun other file hother hfile => ⟨file.forget {fd}, ?_, .forget file⟩⟩
  have hne : other ≠ fd := by
    rintro rfl
    exact hother hmine
  rw [Files.close, update_of_ne hne, hfile, Option.map_some]

theorem Files.Kept.signals (hkept : files.Kept mine next) (hother : ¬mine fd)
    (hsignals : files fd = some .signals) : next fd = some .signals := by
  obtain ⟨gone, _, hfiles⟩ := hkept
  obtain ⟨file', hfile', hfile⟩ := hfiles fd _ hother hsignals
  rw [hfile', hfile.signals]

theorem Files.Kept.temporary (hkept : files.Kept mine next) (hother : ¬mine fd)
    (hfile : files fd = some file) (hnext : next fd = some file') :
    file'.temporary = file.temporary := by
  obtain ⟨gone, _, hfiles⟩ := hkept
  obtain ⟨after, hafter, hsame⟩ := hfiles fd file hother hfile
  obtain rfl := Option.some.inj (hafter.symm.trans hnext)
  exact hsame.temporary

theorem Files.Kept.timer (hkept : files.Kept mine next) (hother : ¬mine fd) {armed : Bool}
    {expirations : ℕ} (htimer : files fd = some (.timer armed expirations)) :
    ∃ expirations', next fd = some (.timer armed expirations') := by
  obtain ⟨gone, _, hfiles⟩ := hkept
  obtain ⟨file', hfile', hfile⟩ := hfiles fd _ hother htimer
  obtain ⟨expirations', hexpirations⟩ := hfile.timer
  exact ⟨expirations', hfile'.trans (congrArg some hexpirations)⟩

end Kept

/-! ## Guards -/

def Guard.mentions (fd : Fd) : Guard → Prop
  | .close other => other = fd
  | .remove epfd other => epfd = fd ∨ other = fd

/-- A guard runs once, and nothing that comes after a `close` needs what it has closed. -/
def Guard.Before (first second : Guard) : Prop :=
  first ≠ second ∧ ∀ fd, first = .close fd → ¬second.mentions fd

structure Guarded (files : Files) (guards : List Guard) : Prop where
  order : guards.Pairwise Guard.Before
  closes : ∀ fd, .close fd ∈ guards → ∃ file, files fd = some file ∧ file.temporary = true
  removes : ∀ epfd fd, .remove epfd fd ∈ guards →
    .close epfd ∈ guards ∧ (.close fd ∈ guards ∨ files fd = some .signals) ∧
      Guard.Succeeds files (.remove epfd fd)

section Guarded

variable {files next : Files} {guards : List Guard} {guard : Guard} {fd epfd : Fd}

theorem remove_mem_close_cons {other : Fd} :
    .remove epfd fd ∈ Guard.close other :: guards ↔ .remove epfd fd ∈ guards := by simp

theorem close_mem_remove_cons {other : Fd} :
    .close other ∈ Guard.remove epfd fd :: guards ↔ .close other ∈ guards := by simp

theorem Guarded.nil (files : Files) : Guarded files [] :=
  ⟨.nil, fun _ hmem => absurd hmem List.not_mem_nil, fun _ _ hmem => absurd hmem List.not_mem_nil⟩

theorem Guarded.isOpen (hguarded : Guarded files guards) (hmem : guard ∈ guards)
    (hmentions : guard.mentions fd) : files fd ≠ none := by
  have hclose : ∀ other, .close other ∈ guards → files other ≠ none := by
    intro other hother
    obtain ⟨file, hfile, _⟩ := hguarded.closes other hother
    exact fun hnone => absurd (hnone.symm.trans hfile) nofun
  cases guard with
  | close other =>
      obtain rfl : other = fd := hmentions
      exact hclose other hmem
  | remove epfd other =>
      obtain ⟨hepoll, hother, _⟩ := hguarded.removes epfd other hmem
      rcases hmentions with rfl | rfl
      · exact hclose epfd hepoll
      · rcases hother with hother | hsignals
        · exact hclose other hother
        · exact fun hnone => absurd (hnone.symm.trans hsignals) nofun

theorem Guarded.kept {mine : Fd → Prop} (hguarded : Guarded files guards)
    (hkept : files.Kept mine next) (hothers : ∀ fd, .close fd ∈ guards → ¬mine fd)
    (hsignals : ∀ fd, files fd = some .signals → ¬mine fd) : Guarded next guards where
  order := hguarded.order
  closes := by
    intro fd hfd
    obtain ⟨file, hfile, htemporary⟩ := hguarded.closes fd hfd
    obtain ⟨gone, _, hfiles⟩ := hkept
    obtain ⟨file', hfile', hsame⟩ := hfiles fd file (hothers fd hfd) hfile
    exact ⟨file', hfile', hsame.temporary.trans htemporary⟩
  removes := by
    intro epfd fd hmem
    obtain ⟨hepoll, hfd, members, hmembers, hwatched⟩ := hguarded.removes epfd fd hmem
    have hnot : ¬mine fd := hfd.elim (hothers fd) (hsignals fd)
    refine ⟨hepoll, hfd.imp_right (hkept.signals hnot), ?_⟩
    obtain ⟨gone, hgone, hfiles⟩ := hkept
    obtain ⟨file', hfile', hsame⟩ := hfiles epfd _ (hothers epfd hepoll) hmembers
    obtain ⟨members', rfl, hwatched'⟩ := hsame.epoll hwatched (mt (hgone fd) hnot)
    exact ⟨members', hfile', hwatched'⟩

/-- Steps that close nothing. -/
theorem Guarded.grows (hguarded : Guarded files guards)
    (hkept : files.Kept (fun _ => False) next) : Guarded next guards :=
  hguarded.kept hkept (fun _ _ => id) fun _ _ => id

theorem Guarded.pushClose (hguarded : Guarded files guards) {file : File}
    (hfile : files fd = some file) (htemporary : file.temporary = true)
    (hfresh : ∀ guard ∈ guards, ¬guard.mentions fd) : Guarded files (.close fd :: guards) where
  order := by
    refine List.pairwise_cons.2 ⟨fun guard hguard => ⟨?_, ?_⟩, hguarded.order⟩
    · rintro rfl
      exact hfresh _ hguard rfl
    · rintro other hother
      obtain rfl : fd = other := Guard.close.inj hother
      exact hfresh guard hguard
  closes := by
    intro other hother
    rcases List.mem_cons.1 hother with hsame | hmem
    · obtain rfl : other = fd := Guard.close.inj hsame
      exact ⟨file, hfile, htemporary⟩
    · exact hguarded.closes other hmem
  removes := by
    intro epfd other hmem
    have hremoves := hguarded.removes epfd other (remove_mem_close_cons.1 hmem)
    exact ⟨List.mem_cons_of_mem _ hremoves.1, hremoves.2.1.imp_left (List.mem_cons_of_mem _),
      hremoves.2.2⟩

theorem Guarded.pushRemove (hguarded : Guarded files guards) (hnew : .remove epfd fd ∉ guards)
    (hepoll : .close epfd ∈ guards) (hfd : .close fd ∈ guards ∨ files fd = some .signals)
    (hsucceeds : Guard.Succeeds files (.remove epfd fd)) :
    Guarded files (.remove epfd fd :: guards) where
  order := by
    refine List.pairwise_cons.2 ⟨fun guard hguard => ⟨?_, nofun⟩, hguarded.order⟩
    rintro rfl
    exact hnew hguard
  closes other hother := hguarded.closes other (close_mem_remove_cons.1 hother)
  removes := by
    intro epfd' other hmem
    rcases List.mem_cons.1 hmem with hsame | hmem
    · obtain ⟨rfl, rfl⟩ := Guard.remove.inj hsame
      exact ⟨List.mem_cons_of_mem _ hepoll, hfd.imp_left (List.mem_cons_of_mem _), hsucceeds⟩
    · have hremoves := hguarded.removes epfd' other hmem
      exact ⟨List.mem_cons_of_mem _ hremoves.1, hremoves.2.1.imp_left (List.mem_cons_of_mem _),
        hremoves.2.2⟩

/-- `epoll_add`, and the guard for it. -/
theorem Guarded.watch (hguarded : Guarded files guards) {members : Finset Fd}
    (hmembers : files epfd = some (.epoll members)) (hnew : .remove epfd fd ∉ guards)
    (hepoll : .close epfd ∈ guards) (hfd : .close fd ∈ guards ∨ files fd = some .signals) :
    Guarded (update files epfd (some (.epoll (insert fd members))))
      (.remove epfd fd :: guards) := by
  have hkept : files.Kept (fun _ => False) _ := .watch hmembers fd
  exact (hguarded.grows hkept).pushRemove hnew hepoll (hfd.imp_right (hkept.signals id))
    ⟨_, update_self .., Finset.mem_insert_self fd members⟩

theorem Guarded.runClose (hguarded : Guarded files (.close fd :: guards)) :
    Guarded (files.close fd) guards := by
  obtain ⟨hfirst, horder⟩ := List.pairwise_cons.1 hguarded.order
  have hunmentioned : ∀ guard ∈ guards, ¬guard.mentions fd :=
    fun guard hguard => (hfirst guard hguard).2 fd rfl
  have hclose : ∀ other, other ≠ fd → .close other ∈ Guard.close fd :: guards →
      .close other ∈ guards := fun other hne =>
    List.mem_of_ne_of_mem fun hsame => hne (Guard.close.inj hsame)
  have hrest : Guarded files guards := by
    refine ⟨horder, fun other hother => hguarded.closes other (List.mem_cons_of_mem _ hother),
      fun epfd other hmem => ?_⟩
    have hremoves := hguarded.removes epfd other (List.mem_cons_of_mem _ hmem)
    have hnot := hunmentioned _ hmem
    refine ⟨hclose epfd (fun hsame => hnot (.inl hsame)) hremoves.1, ?_, hremoves.2.2⟩
    exact hremoves.2.1.imp_left (hclose other fun hsame => hnot (.inr hsame))
  refine hrest.kept (Files.Kept.close (rfl : fd = fd)) (fun other hother => ?_) ?_
  · rintro rfl
    exact hunmentioned _ hother rfl
  · intro other hsignals hsame
    subst hsame
    obtain ⟨file, hfile, htemporary⟩ := hguarded.closes fd List.mem_cons_self
    obtain rfl : file = .signals := Option.some.inj (hfile.symm.trans hsignals)
    exact absurd htemporary nofun

theorem Guarded.runRemove (hguarded : Guarded files (.remove epfd fd :: guards)) :
    Guarded ((Guard.remove epfd fd).run files) guards := by
  obtain ⟨hfirst, horder⟩ := List.pairwise_cons.1 hguarded.order
  obtain ⟨_, _, members, hmembers, _⟩ := hguarded.removes epfd fd List.mem_cons_self
  have hnext : (Guard.remove epfd fd).run files =
      update files epfd (some (.epoll (members.erase fd))) := by
    simp only [Guard.run, hmembers]
  rw [hnext]
  refine ⟨horder, fun other hother => ?_, fun epfd' other hmem => ?_⟩
  · obtain ⟨file, hfile, htemporary⟩ := hguarded.closes other (List.mem_cons_of_mem _ hother)
    by_cases hsame : other = epfd
    · subst hsame
      exact ⟨_, update_self .., rfl⟩
    · exact ⟨file, by rwa [update_of_ne hsame], htemporary⟩
  · obtain ⟨hepoll, hother, members', hmembers', hwatched⟩ :=
      hguarded.removes epfd' other (List.mem_cons_of_mem _ hmem)
    refine ⟨close_mem_remove_cons.1 hepoll, hother.imp close_mem_remove_cons.1 ?_, ?_⟩
    · intro hsignals
      rw [update_of_ne, hsignals]
      rintro rfl
      exact absurd (hmembers.symm.trans hsignals) nofun
    · by_cases hsame : epfd' = epfd
      · subst hsame
        obtain rfl : members' = members := by
          rw [hmembers] at hmembers'
          exact (File.epoll.inj (Option.some.inj hmembers')).symm
        have hne : other ≠ fd := by
          rintro rfl
          exact (hfirst _ hmem).1 rfl
        exact ⟨_, update_self .., Finset.mem_erase.2 ⟨hne, hwatched⟩⟩
      · exact ⟨members', by rwa [update_of_ne hsame], hwatched⟩

theorem Guarded.run (hguarded : Guarded files (guard :: guards)) :
    Guarded (guard.run files) guards := by
  cases guard with
  | close => exact hguarded.runClose
  | remove => exact hguarded.runRemove

theorem Guarded.succeeds (hguarded : Guarded files (guard :: guards)) :
    guard.Succeeds files := by
  cases guard with
  | close => exact trivial
  | remove epfd fd => exact (hguarded.removes epfd fd List.mem_cons_self).2.2

end Guarded

/-! ## Places -/

def Place.guards : Place → List Guard
  | .calling sfd point => point.guards sfd
  | .unwinding guards _ => guards
  | .idle | .initialising .. | .storing .. | .startingCurl _ | .closing _ => []

/-- The descriptors that a call has opened and not closed: the timer has no guard until it
is set. -/
inductive Place.Owns : Place → Fd → Prop
  | guard {place : Place} {fd : Fd} (hguard : .close fd ∈ place.guards) : Place.Owns place fd
  | timer {sfd tfd : Fd} {timeout : ℤ} : Place.Owns (.calling sfd (.timerSet timeout tfd)) tfd

/-- The timer, after it was set. -/
def Point.timer : Point → Option Fd
  | .timerCreate _ | .timerSet .. => none
  | .epollCreate tfd | .addSignals tfd _ | .waiting tfd _ | .dispatching tfd _ _
  | .readingSignals tfd _ _ => tfd
  | .addTimer tfd _ | .readingTimer tfd _ _ => some tfd

def Point.Timed (files : Files) : Point → Prop
  | .timerCreate timeout => 0 < timeout
  | .timerSet timeout tfd =>
      0 < timeout ∧ ∃ expirations, files tfd = some (.timer false expirations)
  | point =>
      ∀ tfd, point.timer = some tfd → ∃ expirations, files tfd = some (.timer true expirations)

/-- What a thread can rely on as long as `global_init` is there. -/
def Place.Sound (files : Files) : Place → Prop
  | .idle | .initialising .. | .startingCurl _ => True
  | .storing sfd _ => ∀ fd, sfd = some fd → files fd = some .signals
  | .closing _ => False
  | .calling sfd point =>
      files sfd = some .signals ∧ Guarded files (point.guards sfd) ∧ point.Timed files
  | .unwinding guards _ => Guarded files guards

section Place

variable {files next : Files} {place : Place} {fd sfd tfd epfd : Fd} {point : Point}

theorem close_mem_closeTimer {tfd : Option Fd} : .close fd ∈ closeTimer tfd ↔ tfd = some fd := by
  cases tfd <;> simp [closeTimer, eq_comm]

theorem remove_not_mem_closeTimer {tfd : Option Fd} : .remove epfd fd ∉ closeTimer tfd := by
  simp [closeTimer]

theorem close_mem_loopGuards {tfd : Option Fd} :
    .close fd ∈ loopGuards sfd tfd epfd ↔ fd = epfd ∨ tfd = some fd := by
  simp [loopGuards, close_mem_closeTimer]

theorem remove_mem_loopGuards {tfd : Option Fd} {other : Fd} :
    .remove other fd ∈ loopGuards sfd tfd epfd ↔ other = epfd ∧ (tfd = some fd ∨ fd = sfd) := by
  simp only [loopGuards, List.mem_append, List.mem_cons, remove_not_mem_closeTimer]
  cases tfd <;> grind

theorem Point.close_timer_mem (htimer : point.timer = some tfd) :
    .close tfd ∈ point.guards sfd := by
  cases point with
  | timerCreate | timerSet => exact absurd htimer nofun
  | epollCreate => exact close_mem_closeTimer.2 htimer
  | addSignals => exact List.mem_cons_of_mem _ (close_mem_closeTimer.2 htimer)
  | addTimer =>
      exact List.mem_cons_of_mem _ (List.mem_cons_of_mem _ (close_mem_closeTimer.2 htimer))
  | waiting | dispatching | readingSignals | readingTimer =>
      exact close_mem_loopGuards.2 (.inr htimer)

theorem Place.Sound.isOpen (hsound : place.Sound files) (howns : place.Owns fd) :
    ∃ file, files fd = some file ∧ file.temporary = true := by
  cases howns with
  | guard hguard =>
      cases place with
      | calling => exact hsound.2.1.closes fd hguard
      | unwinding => exact Guarded.closes hsound fd hguard
      | _ => exact absurd hguard List.not_mem_nil
  | timer =>
      obtain ⟨_, expirations, hfile⟩ := hsound.2.2
      exact ⟨_, hfile, rfl⟩

theorem Point.Timed.kept {mine : Fd → Prop} (sfd : Fd) (htimed : point.Timed files)
    (hkept : files.Kept mine next)
    (hothers : ∀ fd, (Place.calling sfd point).Owns fd → ¬mine fd) : point.Timed next := by
  have harmed (hafter : ∀ tfd, point.timer = some tfd →
      ∃ expirations, files tfd = some (.timer true expirations)) (tfd : Fd)
      (htimer : point.timer = some tfd) :
      ∃ expirations, next tfd = some (.timer true expirations) := by
    obtain ⟨expirations, hfile⟩ := hafter tfd htimer
    exact hkept.timer (hothers tfd (.guard (Point.close_timer_mem htimer))) hfile
  cases point with
  | timerCreate => exact htimed
  | timerSet timeout tfd =>
      obtain ⟨hpos, expirations, hfile⟩ := htimed
      exact ⟨hpos, hkept.timer (hothers tfd .timer) hfile⟩
  | epollCreate | addSignals | addTimer | waiting | dispatching | readingSignals | readingTimer =>
      exact harmed htimed

theorem Place.Sound.kept {mine : Fd → Prop} (hsound : place.Sound files)
    (hkept : files.Kept mine next) (hothers : ∀ fd, place.Owns fd → ¬mine fd)
    (hsignals : ∀ fd, files fd = some .signals → ¬mine fd) : place.Sound next := by
  cases place with
  | idle | initialising | startingCurl => trivial
  | closing => exact hsound
  | storing sfd =>
      intro fd hfd
      exact hkept.signals (hsignals fd (hsound fd hfd)) (hsound fd hfd)
  | calling sfd point =>
      refine ⟨hkept.signals (hsignals sfd hsound.1) hsound.1, ?_, hsound.2.2.kept sfd hkept hothers⟩
      exact hsound.2.1.kept hkept (fun fd hfd => hothers fd (.guard hfd)) hsignals
  | unwinding guards =>
      exact Guarded.kept hsound hkept (fun fd hfd => hothers fd (.guard hfd)) hsignals

end Place

/-! ## The steps of a thread -/

section Local

variable {shared next : Shared} {place place' : Place} {action : Action} {fd : Fd}

theorem Local.kept (hlocal : Local shared place action next place')
    (hsound : place.Sound shared.files) : shared.files.Kept place.Owns next.files := by
  cases hlocal with
  | opened hfree | timerCreated hfree | epollCreated hfree => exact .create hfree _
  | closed => exact hsound.elim
  | timerSet => exact .set (.inl .timer)
  | signalsAdded hepoll | signalsAddedToo hepoll | timerAdded hepoll => exact .watch hepoll _
  | readTimer hfile => exact .restart hfile 0
  | @unwind guard guards =>
      cases guard with
      | close fd => exact .close (.guard List.mem_cons_self)
      | remove epfd fd =>
          obtain ⟨hepoll, _, members, hmembers, _⟩ :=
            Guarded.removes hsound epfd fd List.mem_cons_self
          simp only [Guard.run, hmembers]
          exact .set (.inl (.guard hepoll))
  | _ => exact .same _ _

theorem Move.guards {sfd : Fd} {point point' : Point} (hmove : Move shared sfd point point') :
    point'.guards sfd = point.guards sfd := by
  cases hmove <;> rfl

theorem Move.timed {sfd : Fd} {point point' : Point} (hmove : Move shared sfd point point')
    (htimed : point.Timed shared.files) : point'.Timed shared.files := by
  cases hmove <;> exact htimed

theorem Local.sound (hlocal : Local shared place action next place')
    (haction : action ≠ .destroy) (hsound : place.Sound shared.files)
    (hbarriers : ∀ barrier fd, shared.barriers barrier = some fd →
      shared.files fd = some .signals) : place'.Sound next.files := by
  cases hlocal with
  | initRefused | init | openThrows | store | curlThrows | initialised | closeNothing | closed
  | waitForRefused | returned => trivial
  | destroy => exact absurd rfl haction
  | openNothing => exact nofun
  | @opened sfd =>
      intro fd hfd
      obtain rfl := Option.some.inj hfd
      exact update_self ..
  | wait hbarrier => exact ⟨hbarriers _ _ hbarrier, .nil _, nofun⟩
  | waitFor hbarrier hpos => exact ⟨hbarriers _ _ hbarrier, .nil _, hpos⟩
  | timerCreated hfree =>
      have hkept : shared.files.Kept (fun _ => False) _ := .create hfree (.timer false 0)
      exact ⟨hkept.signals id hsound.1, .nil _, hsound.2.2, 0, update_self ..⟩
  | @timerSet sfd tfd timeout =>
      obtain ⟨hsfd, _, hpos, _, htimer⟩ := hsound
      have hne : sfd ≠ tfd := by
        rintro rfl
        exact absurd (hsfd.symm.trans htimer) nofun
      refine ⟨(update_of_ne hne ..).trans hsfd, ?_, fun fd hfd => ?_⟩
      · exact (Guarded.nil _).pushClose (update_self ..) rfl nofun
      · obtain rfl := Option.some.inj hfd
        rw [timerSpec_arms hpos]
        exact ⟨0, update_self ..⟩
  | @epollCreated sfd epfd tfd hfree =>
      obtain ⟨hsfd, hguarded, htimed⟩ := hsound
      have hkept : shared.files.Kept (fun _ => False) _ := .create hfree (.epoll ∅)
      refine ⟨hkept.signals id hsfd, ?_, htimed.kept sfd hkept fun _ _ => id⟩
      refine (hguarded.grows hkept).pushClose (update_self ..) rfl fun guard hguard hmentions => ?_
      exact hguarded.isOpen hguard hmentions hfree
  | @signalsAdded sfd epfd members hepoll =>
      obtain ⟨hsfd, hguarded, _⟩ := hsound
      have hkept : shared.files.Kept (fun _ => False) _ := .watch hepoll sfd
      refine ⟨hkept.signals id hsfd, ?_, nofun⟩
      exact hguarded.watch hepoll nofun List.mem_cons_self (.inr hsfd)
  | @signalsAddedToo sfd tfd epfd members hepoll =>
      obtain ⟨hsfd, hguarded, htimed⟩ := hsound
      have hkept : shared.files.Kept (fun _ => False) _ := .watch hepoll sfd
      refine ⟨hkept.signals id hsfd, ?_, htimed.kept sfd hkept fun _ _ => id⟩
      refine hguarded.watch hepoll ?_ List.mem_cons_self (.inr hsfd)
      exact mt remove_mem_close_cons.1 remove_not_mem_closeTimer
  | @timerAdded sfd tfd epfd members hepoll =>
      obtain ⟨hsfd, hguarded, htimed⟩ := hsound
      have hkept : shared.files.Kept (fun _ => False) _ := .watch hepoll tfd
      obtain ⟨_, htimer⟩ := htimed tfd rfl
      refine ⟨hkept.signals id hsfd, ?_, htimed.kept sfd hkept fun _ _ => id⟩
      refine hguarded.watch hepoll (fun hmem => ?_) (by simp [Point.guards]) (.inl ?_)
      · rcases List.mem_cons.1 hmem with hsame | hrest
        · obtain rfl := (Guard.remove.inj hsame).2
          exact absurd (hsfd.symm.trans htimer) nofun
        · exact remove_not_mem_closeTimer (remove_mem_close_cons.1 hrest)
      · exact Point.close_timer_mem rfl
  | move hmove =>
      refine ⟨hsound.1, ?_, hmove.timed hsound.2.2⟩
      rw [hmove.guards]
      exact hsound.2.1
  | readSignal => exact hsound.2.1
  | readTimer hfile => exact hsound.2.1.grows (.restart hfile 0)
  | throws => exact hsound.2.1
  | unwind => exact Guarded.run hsound

/-- What a thread has opened was free before. -/
theorem Local.owns (hlocal : Local shared place action next place') (howns : place'.Owns fd) :
    place.Owns fd ∨ shared.files fd = none := by
  cases howns with
  | timer =>
      cases hlocal with
      | timerCreated hfree => exact .inr hfree
      | move hmove => cases hmove
  | guard hguard =>
      cases hlocal with
      | timerSet =>
          obtain rfl := Option.some.inj (close_mem_closeTimer.1 hguard)
          exact .inl .timer
      | @epollCreated sfd epfd tfd hfree =>
          rcases List.mem_cons.1 hguard with hsame | hrest
          · obtain rfl := Guard.close.inj hsame
            exact .inr hfree
          · exact .inl (.guard hrest)
      | signalsAdded | signalsAddedToo | timerAdded =>
          exact .inl (.guard (close_mem_remove_cons.1 hguard))
      | move hmove =>
          rw [Place.guards, hmove.guards] at hguard
          exact .inl (.guard hguard)
      | readSignal | readTimer | throws => exact .inl (.guard hguard)
      | unwind => exact .inl (.guard (List.mem_cons_of_mem _ hguard))
      | _ => exact absurd hguard List.not_mem_nil

theorem Local.keeps (hlocal : Local shared place action next place')
    (hsound : place.Sound shared.files) (howns : place.Owns fd) :
    place'.Owns fd ∨ next.files fd = none := by
  cases howns with
  | timer =>
      cases hlocal with
      | timerSet => exact .inl (.guard (close_mem_closeTimer.2 rfl))
      | move hmove => cases hmove
      | throws hthrows => exact absurd (hthrows.symm.trans (timerSpec_valid hsound.2.2.1)) nofun
  | guard hguard =>
      cases hlocal with
      | epollCreated => exact .inl (.guard (List.mem_cons_of_mem _ hguard))
      | signalsAdded | signalsAddedToo | timerAdded =>
          exact .inl (.guard (close_mem_remove_cons.2 hguard))
      | move hmove =>
          refine .inl (.guard ?_)
          rw [Place.guards, hmove.guards]
          exact hguard
      | readSignal | readTimer | throws => exact .inl (.guard hguard)
      | unwind =>
          rcases List.mem_cons.1 hguard with rfl | hrest
          · exact .inr (Files.close_self ..)
          · exact .inl (.guard hrest)
      | _ => exact absurd hguard List.not_mem_nil

theorem Shared.setFile_self (shared : Shared) (fd : Fd) (file : File) :
    (shared.setFile fd file).files fd = some file := update_self ..

theorem update_of_none {files : Files} {other : Fd} {file : Option File}
    (hfree : files fd = none) (hopen : update files other file fd ≠ none) : fd = other := by
  by_contra hne
  exact hopen (by rwa [update_of_ne hne])

theorem Local.created (hlocal : Local shared place action next place')
    (hsound : place.Sound shared.files) (hfree : shared.files fd = none) {file : File}
    (hfile : next.files fd = some file) (htemporary : file.temporary = true) :
    place'.Owns fd := by
  have hopen : next.files fd ≠ none := fun hnone => absurd (hnone.symm.trans hfile) nofun
  cases hlocal with
  | opened =>
      obtain rfl := update_of_none hfree hopen
      obtain rfl := Option.some.inj ((shared.setFile_self fd .signals).symm.trans hfile)
      exact absurd htemporary nofun
  | timerCreated =>
      obtain rfl := update_of_none hfree hopen
      exact .timer
  | timerSet =>
      obtain rfl := update_of_none hfree hopen
      obtain ⟨_, _, hfile⟩ := hsound.2.2
      exact absurd (hfree.symm.trans hfile) nofun
  | epollCreated =>
      obtain rfl := update_of_none hfree hopen
      exact .guard List.mem_cons_self
  | signalsAdded hepoll | signalsAddedToo hepoll | timerAdded hepoll | readTimer hepoll =>
      obtain rfl := update_of_none hfree hopen
      exact absurd (hfree.symm.trans hepoll) nofun
  | @unwind guard =>
      refine absurd ?_ hopen
      cases guard with
      | close other => exact Files.close_of_none hfree other
      | remove epfd other =>
          obtain ⟨_, _, members, hmembers, _⟩ :=
            Guarded.removes hsound epfd other List.mem_cons_self
          have hne : fd ≠ epfd := by
            rintro rfl
            exact absurd (hfree.symm.trans hmembers) nofun
          simp only [Guard.run, hmembers]
          rwa [update_of_ne hne]
  | closed => exact hsound.elim
  | _ => exact absurd hfree hopen

end Local

/-! ## The process -/

/-- The threads share nothing but the signal file, and there is nothing open that no thread
will close. -/
structure Inv {Thread : Type*} (shared : Shared) (threads : Thread → Place) : Prop where
  sound : ∀ thread, (threads thread).Sound shared.files
  exclusive : ∀ thread other fd, (threads thread).Owns fd → (threads other).Owns fd →
    thread = other
  covered : ∀ fd file, shared.files fd = some file → file.temporary = true →
    ∃ thread, (threads thread).Owns fd
  global : ∀ fd, shared.sfdGlobal = some fd → shared.files fd = some .signals
  barriers : ∀ barrier fd, shared.barriers barrier = some fd → shared.files fd = some .signals

section Process

variable {Thread : Type*} [DecidableEq Thread] {shared next : Shared} {threads : Thread → Place}
  {thread : Thread} {action : Action} {place : Place}

omit [DecidableEq Thread] in
theorem Inv.not_signals (hinv : Inv shared threads) {fd : Fd}
    (hsignals : shared.files fd = some .signals) (thread : Thread) : ¬(threads thread).Owns fd := by
  intro howns
  obtain ⟨file, hfile, htemporary⟩ := (hinv.sound thread).isOpen howns
  obtain rfl := Option.some.inj (hfile.symm.trans hsignals)
  exact absurd htemporary nofun

/-- `sfd_global` is only ever set to a signal file that was opened for it. -/
theorem Local.global {place' : Place} (hlocal : Local shared place action next place')
    (hsound : place.Sound shared.files) {fd : Fd} (hglobal : next.sfdGlobal = some fd) :
    shared.sfdGlobal = some fd ∨ shared.files fd = some .signals := by
  cases hlocal with
  | store => exact .inr (hsound fd hglobal)
  | destroy => exact absurd hglobal nofun
  | _ => exact .inl hglobal

theorem Local.barriers {place' : Place} (hlocal : Local shared place action next place') :
    next.barriers = shared.barriers := by
  cases hlocal <;> rfl

theorem Inv.threadStep (hinv : Inv shared threads)
    (hlocal : Local shared (threads thread) action next place) (haction : action ≠ .destroy) :
    Inv next (update threads thread place) := by
  have hsound := hinv.sound thread
  have hkept := hlocal.kept hsound
  have hsignals {fd : Fd} (hfile : shared.files fd = some .signals) :
      next.files fd = some .signals := hkept.signals (hinv.not_signals hfile thread) hfile
  -- what another thread owns was not free
  have hother {other : Thread} {fd : Fd} (howns : place.Owns fd)
      (hothers : (threads other).Owns fd) : thread = other := by
    rcases hlocal.owns howns with hbefore | hfree
    · exact hinv.exclusive thread other fd hbefore hothers
    · obtain ⟨file, hfile, _⟩ := (hinv.sound other).isOpen hothers
      exact absurd (hfree.symm.trans hfile) nofun
  refine ⟨fun other => ?_, fun first second fd hfirst hsecond => ?_,
    fun fd file hfile htemporary => ?_, fun fd hglobal => ?_, fun barrier fd hbarrier => ?_⟩
  · by_cases hsame : other = thread
    · subst hsame
      rw [update_self]
      exact hlocal.sound haction hsound hinv.barriers
    · rw [update_of_ne hsame]
      refine (hinv.sound other).kept hkept (fun fd howns hmine => ?_)
        fun fd hfile => hinv.not_signals hfile thread
      exact hsame (hinv.exclusive other thread fd howns hmine)
  · by_cases hone : first = thread <;> by_cases htwo : second = thread
    · rw [hone, htwo]
    · rw [hone, update_self] at hfirst
      rw [update_of_ne htwo] at hsecond
      exact hone.trans (hother hfirst hsecond)
    · rw [update_of_ne hone] at hfirst
      rw [htwo, update_self] at hsecond
      exact (htwo.trans (hother hsecond hfirst)).symm
    · rw [update_of_ne hone] at hfirst
      rw [update_of_ne htwo] at hsecond
      exact hinv.exclusive first second fd hfirst hsecond
  · by_cases howns : place.Owns fd
    · exact ⟨thread, by rwa [update_self]⟩
    have hbefore : ¬(threads thread).Owns fd := fun hbefore =>
      (hlocal.keeps hsound hbefore).elim howns fun hnone =>
        absurd (hnone.symm.trans hfile) nofun
    cases hfree : shared.files fd with
    | none => exact absurd (hlocal.created hsound hfree hfile htemporary) howns
    | some before =>
        obtain ⟨owner, howner⟩ :=
          hinv.covered fd before hfree (hkept.temporary hbefore hfree hfile ▸ htemporary)
        have hne : owner ≠ thread := by
          rintro rfl
          exact hbefore howner
        exact ⟨owner, by rwa [update_of_ne hne]⟩
  · exact (hlocal.global hsound hglobal).elim (fun hbefore => hsignals (hinv.global fd hbefore))
      hsignals
  · rw [hlocal.barriers] at hbarrier
    exact hsignals (hinv.barriers barrier fd hbarrier)

omit [DecidableEq Thread] in
/-- Steps of the others: no thread moves, and what they close is neither a signal file nor one
of a call. -/
theorem Inv.others {mine : Fd → Prop} (hinv : Inv shared threads)
    (hkept : shared.files.Kept mine next.files)
    (hmine : ∀ fd, mine fd → shared.files fd = some .other)
    (hnew : ∀ fd file, shared.files fd = none → next.files fd = some file →
      file.temporary = false)
    (hgone : ∀ fd, mine fd → next.files fd = none)
    (hglobal : next.sfdGlobal = shared.sfdGlobal)
    (hbarriers : ∀ barrier fd, next.barriers barrier = some fd →
      shared.barriers barrier = some fd ∨ shared.sfdGlobal = some fd) :
    Inv next threads := by
  have hsignals {fd : Fd} (hfile : shared.files fd = some .signals) : ¬mine fd := fun hfd =>
    absurd ((hmine fd hfd).symm.trans hfile) nofun
  refine ⟨fun thread => ?_, hinv.exclusive, fun fd file hfile htemporary => ?_, fun fd hfd => ?_,
    fun barrier fd hbarrier => ?_⟩
  · refine (hinv.sound thread).kept hkept (fun fd howns hfd => ?_) fun fd => hsignals
    obtain ⟨file, hfile, htemporary⟩ := (hinv.sound thread).isOpen howns
    obtain rfl := Option.some.inj ((hmine fd hfd).symm.trans hfile)
    exact absurd htemporary nofun
  · cases hbefore : shared.files fd with
    | none => exact absurd ((hnew fd file hbefore hfile).symm.trans htemporary) nofun
    | some before =>
        have hother : ¬mine fd := fun hfd => absurd ((hgone fd hfd).symm.trans hfile) nofun
        exact hinv.covered fd before hbefore (hkept.temporary hother hbefore hfile ▸ htemporary)
  · have hfile := hinv.global fd (hglobal ▸ hfd)
    exact hkept.signals (hsignals hfile) hfile
  · have hfile := (hbarriers barrier fd hbarrier).elim (hinv.barriers barrier fd) (hinv.global fd)
    exact hkept.signals (hsignals hfile) hfile

omit [DecidableEq Thread] in
theorem Inv.start (opened : Finset Fd) (mask : Finset Signal) :
    Inv (start opened mask : State Thread).shared (start opened mask : State Thread).threads where
  sound _ := trivial
  exclusive _ _ _ howns _ := by
    cases howns with
    | guard hguard => exact absurd hguard List.not_mem_nil
  covered fd file hfile htemporary := by
    simp only [SignalBarrier.start] at hfile
    split at hfile
    · obtain rfl := Option.some.inj hfile
      exact absurd htemporary nofun
    · exact absurd hfile nofun
  global _ := nofun
  barriers _ _ := nofun

/-- No step but the end of `global_init` breaks the invariant, and none ends the process. -/
theorem Inv.step {state : State Thread} {label : Label Thread} {after : Option (State Thread)}
    (hinv : Inv state.shared state.threads) (hstep : Step (some state) label after)
    (hlabel : ∀ thread, label ≠ .thread thread .destroy) :
    ∃ next, after = some next ∧ Inv next.shared next.threads := by
  cases hstep with
  | @thread _ _ _ thread _ _ hlocal =>
      refine ⟨_, rfl, hinv.threadStep hlocal ?_⟩
      rintro rfl
      exact hlabel thread rfl
  | @terminate _ _ thread guard guards outcome hplace hfails =>
      have hsound := hinv.sound thread
      dsimp only at hsound
      rw [hplace] at hsound
      exact absurd (Guarded.succeeds hsound) hfails
  | @construct shared threads barrier sfd hnew hsfd =>
      refine ⟨_, rfl, hinv.others (.same (fun _ => False) _) nofun ?_ nofun rfl ?_⟩
      · exact fun fd file hfree hfile => absurd (hfree.symm.trans hfile) nofun
      · intro other fd hbarrier
        dsimp only at hbarrier
        by_cases hsame : other = barrier
        · subst hsame
          rw [update_self] at hbarrier
          exact .inr (hsfd.trans hbarrier)
        · rw [update_of_ne hsame] at hbarrier
          exact .inl hbarrier
  | arrive | merge =>
      refine ⟨_, rfl, hinv.others (.same (fun _ => False) _) nofun ?_ nofun rfl fun _ _ => .inl⟩
      exact fun fd file hfree hfile => absurd (hfree.symm.trans hfile) nofun
  | expire hfile =>
      refine ⟨_, rfl, hinv.others (.restart hfile _ : Files.Kept (fun _ => False) _ _) nofun ?_
        nofun rfl fun _ _ => .inl⟩
      intro fd file hfree hnext
      obtain rfl := update_of_none hfree fun hnone => absurd (hnone.symm.trans hnext) nofun
      exact absurd (hfree.symm.trans hfile) nofun
  | openOther hfree =>
      refine ⟨_, rfl, hinv.others (.create hfree _ : Files.Kept (fun _ => False) _ _) nofun ?_ nofun
        rfl fun _ _ => .inl⟩
      intro fd file hfd hnext
      obtain rfl := update_of_none hfd fun hnone => absurd (hnone.symm.trans hnext) nofun
      obtain rfl := Option.some.inj ((Shared.setFile_self ..).symm.trans hnext)
      rfl
  | @closeOther shared threads fd hfile =>
      refine ⟨_, rfl, hinv.others (.close rfl : Files.Kept (· = fd) _ _) ?_ ?_ ?_ rfl
        fun _ _ => .inl⟩
      · rintro other rfl
        exact hfile
      · intro other file hfree hnext
        exact absurd ((Files.close_of_none hfree fd).symm.trans hnext) nofun
      · rintro other rfl
        exact Files.close_self ..

theorem inv_of_run {opened : Finset Fd} {mask : Finset Signal} {labels : List (Label Thread)}
    {last : Option (State Thread)}
    (hrun : Run Step (some (start opened mask)) labels last)
    (hlive : ∀ thread, .thread thread .destroy ∉ labels) :
    ∃ state, last = some state ∧ Inv state.shared state.threads := by
  let holds (reached : Option (State Thread)) : Prop :=
    ∃ state, reached = some state ∧ Inv state.shared state.threads
  have hlabels : ∀ label ∈ labels, ∀ thread, label ≠ .thread thread .destroy := by
    rintro label hlabel thread rfl
    exact hlive thread hlabel
  have hstart : holds (some (start opened mask)) := ⟨_, rfl, .start opened mask⟩
  refine (hrun.restrict _ hlabels).invariant holds hstart ?_
  rintro before label after ⟨state, rfl, hinv⟩ ⟨hstep, hlabel⟩
  exact hinv.step hstep hlabel

/-- As long as `global_init` is not destroyed, no guard of a call ends the process, whatever
fails and whichever threads wait at the same time.  Every `epoll` instance and every timer
belongs to exactly one call, and none is left when the calls have returned. -/
theorem calls_close_descriptors {opened : Finset Fd} {mask : Finset Signal}
    {labels : List (Label Thread)} {last : Option (State Thread)}
    (hrun : Run Step (some (start opened mask)) labels last)
    (hlive : ∀ thread, .thread thread .destroy ∉ labels) :
    ∃ state, last = some state ∧
      (∀ fd file, state.shared.files fd = some file → file.temporary = true →
        ∃! thread, (state.threads thread).Owns fd) ∧
      ((∀ thread, state.threads thread = .idle) →
        ∀ fd file, state.shared.files fd = some file → file.temporary = false) := by
  obtain ⟨state, hstate, hinv⟩ := inv_of_run hrun hlive
  refine ⟨state, hstate, fun fd file hfile htemporary => ?_, fun hidle fd file hfile => ?_⟩
  · obtain ⟨thread, howns⟩ := hinv.covered fd file hfile htemporary
    exact ⟨thread, howns, fun other hother => hinv.exclusive other thread fd hother howns⟩
  · by_contra htemporary
    rw [Bool.not_eq_false] at htemporary
    obtain ⟨thread, howns⟩ := hinv.covered fd file hfile htemporary
    rw [hidle thread] at howns
    cases howns with
    | guard hguard => exact absurd hguard List.not_mem_nil

end Process

/-! ## One thread that waits -/

/-- `global_init` has opened descriptor 3. -/
def initialised : Shared :=
  { (start ∅ ∅ : State Unit).shared with
    files := update (start ∅ ∅ : State Unit).shared.files 3 (some .signals)
    mask := ∅ ∪ watched
    initDone := true
    sfdGlobal := some 3
    alive := true }

/-- A call has opened descriptor 4. -/
def oneCall : Shared :=
  { initialised with
    files := update (update initialised.files 4 (some (.epoll ∅))) 4 (some (.epoll (insert 3 ∅)))
    barriers := update (fun _ => none) 0 (some 3) }

/-- From the constructor of `global_init` to `epoll_wait`. -/
def oneCallLabels : List (Label Unit) :=
  [.thread () .init, .thread () .internal, .thread () .internal, .thread () .internal,
    .construct 0, .thread () .internal, .thread () .internal, .thread () .internal]

theorem run_local {Thread : Type*} [DecidableEq Thread] {start : Option (State Thread)}
    {labels : List (Label Thread)} {shared next : Shared} {threads : Thread → Place}
    {thread : Thread} {place place' : Place} {action : Action}
    (hrun : Run Step start labels (some ⟨shared, threads⟩)) (hplace : threads thread = place)
    (hlocal : Local shared place action next place') :
    ∃ threads, Run Step start (labels ++ [.thread thread action]) (some ⟨next, threads⟩) ∧
      threads thread = place' := by
  subst hplace
  exact ⟨_, hrun.snoc (.thread hlocal), update_self ..⟩

theorem run_oneCall :
    ∃ threads, Run Step (some (start ∅ ∅)) oneCallLabels (some ⟨oneCall, threads⟩) ∧
      threads () = .calling 3 (.waiting none 4) := by
  have hstart : Run Step (some (start ∅ ∅ : State Unit)) [] (some (start ∅ ∅)) := .nil
  let began : Shared := { (start ∅ ∅ : State Unit).shared with initDone := true }
  let opened : Shared := { began.setFile 3 .signals with mask := ∅ ∪ watched }
  let barrier : Shared := { initialised with barriers := update (fun _ => none) 0 (some 3) }
  have hinit : Local (start ∅ ∅ : State Unit).shared .idle .init began (.initialising true true) :=
    .init rfl true true
  have hopened : Local began (.initialising true true) .internal opened (.storing (some 3) true) :=
    .opened rfl
  have hinitialised : Local { opened with sfdGlobal := some 3 } (.startingCurl true) .internal
      initialised .idle := .initialised
  have hadded : Local (barrier.setFile 4 (.epoll ∅)) (.calling 3 (.addSignals none 4)) .internal
      oneCall (.calling 3 (.waiting none 4)) := .signalsAdded rfl (by decide)
  obtain ⟨_, hrun, hplace⟩ := run_local hstart rfl hinit
  obtain ⟨_, hrun, hplace⟩ := run_local hrun hplace hopened
  obtain ⟨_, hrun, hplace⟩ := run_local hrun hplace .store
  obtain ⟨threads, hrun, hplace⟩ := run_local hrun hplace hinitialised
  have hconstruct : Step (some ⟨initialised, threads⟩) (.construct 0) (some ⟨barrier, threads⟩) :=
    .construct rfl rfl
  have hbarrier : barrier.barriers 0 = some 3 := rfl
  have hfree : barrier.files 4 = none := rfl
  obtain ⟨_, hrun, hplace⟩ := run_local (hrun.snoc hconstruct) hplace (.wait hbarrier)
  obtain ⟨_, hrun, hplace⟩ := run_local hrun hplace (.epollCreated hfree)
  exact run_local hrun hplace hadded

/-- A thread waits, and its `epoll` instance is its own. -/
theorem calls_close_descriptors_one :
    ∃ state : State Unit, Run Step (some (start ∅ ∅)) oneCallLabels (some state) ∧
      ∃! thread, (state.threads thread).Owns 4 := by
  obtain ⟨threads, hrun, _⟩ := run_oneCall
  obtain ⟨state, hstate, howns, _⟩ := calls_close_descriptors hrun (by simp [oneCallLabels])
  obtain rfl := Option.some.inj hstate
  exact ⟨_, hrun, howns 4 (.epoll (insert 3 ∅)) rfl rfl⟩

end Nstl.SignalBarrier
