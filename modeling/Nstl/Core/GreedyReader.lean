import Nstl.Core.Backtracking

/-!
# Reading without backtracking

Where the preferred choice is never worse than the others, a pattern is read from left to
right.  A reader gets the text and what was captured before, and goes on with the reader of
what follows.  Whether it fails must depend on the text alone, and what follows must not
like a shorter run of characters better than the longest one.
-/

namespace Nstl.Backtracking

open Function

abbrev Reader (CharT : Type*) := List CharT → Captures CharT → Option (Captures CharT)

variable {CharT : Type*}

/-! ## The readers -/

def readEnd : Reader CharT := fun text captures => if text.isEmpty then some captures else none

def readRun (accepts : CharT → Bool) (index : ℕ) (follow : Reader CharT) : Reader CharT :=
  fun text captures =>
    follow (text.dropWhile accepts) (update captures index (some (text.takeWhile accepts)))

/-- A part with `body` behind its first characters, which was found. -/
def foundDelimited (lead : List CharT) (accepts : CharT → Bool) (outer inner : ℕ)
    (follow : Reader CharT) (body : List CharT) (captures : Captures CharT) :
    Option (Captures CharT) :=
  follow (body.dropWhile accepts)
    (update (update captures inner (some (body.takeWhile accepts)))
      outer (some (lead ++ body.takeWhile accepts)))

section Decidable

variable [DecidableEq CharT]

def readDelimited (lead : List CharT) (accepts : CharT → Bool) (outer inner : ℕ)
    (follow : Reader CharT) : Reader CharT := fun text captures =>
  if lead <+: text then
    foundDelimited lead accepts outer inner follow (text.drop lead.length) captures
  else follow text captures

def readTerminated (accepts : CharT → Bool) (stop : CharT) (outer inner : ℕ)
    (follow : Reader CharT) : Reader CharT := fun text captures =>
  if text.takeWhile accepts ≠ [] ∧ [stop] <+: text.dropWhile accepts then
    follow (text.dropWhile accepts).tail
      (update (update captures inner (some (text.takeWhile accepts)))
        outer (some (text.takeWhile accepts ++ [stop])))
  else follow text captures

end Decidable

/-! ## Where they fail -/

/-- The texts on which a reader fails, whatever was captured before. -/
def FailsOn (reader : Reader CharT) (fails : List CharT → Prop) : Prop :=
  ∀ text captures, reader text captures = none ↔ fails text

section Fails

variable {follow : Reader CharT} {fails : List CharT → Prop} {accepts : CharT → Bool}

theorem readEnd_failsOn : FailsOn readEnd fun text : List CharT => text ≠ [] := by
  intro text captures
  cases text <;> simp [readEnd]

theorem readRun_failsOn (hfails : FailsOn follow fails) (index : ℕ) :
    FailsOn (readRun accepts index follow) fun text => fails (text.dropWhile accepts) :=
  fun _ _ => hfails _ _

variable [DecidableEq CharT]

theorem readDelimited_failsOn (hfails : FailsOn follow fails) (lead : List CharT)
    (outer inner : ℕ) :
    FailsOn (readDelimited lead accepts outer inner follow) fun text =>
      if lead <+: text then fails ((text.drop lead.length).dropWhile accepts)
      else fails text := by
  intro text captures
  rw [readDelimited]
  dsimp only
  split
  · exact hfails _ _
  · exact hfails _ _

theorem readTerminated_failsOn (hfails : FailsOn follow fails) (stop : CharT)
    (outer inner : ℕ) :
    FailsOn (readTerminated accepts stop outer inner follow) fun text =>
      if text.takeWhile accepts ≠ [] ∧ [stop] <+: text.dropWhile accepts then
        fails (text.dropWhile accepts).tail
      else fails text := by
  intro text captures
  rw [readTerminated]
  dsimp only
  split
  · exact hfails _ _
  · exact hfails _ _

end Fails

/-! ## Agreement with the search -/

section Agreement

variable {next : Position CharT → Option (Captures CharT)} {follow : Reader CharT}
variable {fails : List CharT → Prop} {accepts : CharT → Bool}

/-- Inside of a run of characters what follows does no better than at its end. -/
def NoBetterInside (accepts : CharT → Bool) (fails : List CharT → Prop) : Prop :=
  ∀ (text : List CharT) (count : ℕ), count < (text.takeWhile accepts).length →
    fails (text.dropWhile accepts) → fails (text.drop count)

theorem run_eq_readRun (hnext : ∀ pos, next pos = follow pos.rest pos.captures)
    (hfails : FailsOn follow fails) (hinside : NoBetterInside accepts fails) (index : ℕ)
    (pos : Position CharT) :
    run (.group index (.star (.char accepts))) pos next =
      readRun accepts index follow pos.rest pos.captures := by
  have hnone : ∀ after, next after = none ↔ fails after.rest := fun after => by
    rw [hnext, hfails]
  rw [run_group_star index hnone (hinside pos.rest), hnext, readRun]

variable [DecidableEq CharT]

theorem run_eq_readDelimited (hnext : ∀ pos, next pos = follow pos.rest pos.captures)
    (hfails : FailsOn follow fails) (hinside : NoBetterInside accepts fails)
    {lead : List CharT} (hlead : lead ≠ [])
    (hskip : ∀ text, fails (text.dropWhile accepts) → fails (lead ++ text)) (outer inner : ℕ)
    (pos : Position CharT) :
    run (delimited lead accepts outer inner) pos next =
      readDelimited lead accepts outer inner follow pos.rest pos.captures := by
  have hnone : ∀ after, next after = none ↔ fails after.rest := fun after => by
    rw [hnext, hfails]
  rw [readDelimited]
  split
  next hfound =>
    obtain ⟨text, htext⟩ := hfound
    have hbody : pos.rest.drop lead.length = text := by rw [← htext, List.drop_left]
    rw [run_delimited hlead outer inner hnone htext.symm (hinside text)
      (fun hbad => htext ▸ hskip text hbad), hnext, hbody, foundDelimited]
  next hnot => rw [run_delimited_of_not hlead outer inner hnot, hnext]

theorem run_eq_readTerminated (hnext : ∀ pos, next pos = follow pos.rest pos.captures)
    (hfails : FailsOn follow fails) {stop : CharT} (hstop : accepts stop = false)
    (hskip : ∀ text rest, (∀ ch ∈ text, accepts ch = true) →
      fails rest → fails (text ++ stop :: rest)) (outer inner : ℕ)
    (pos : Position CharT) :
    run (terminated accepts stop outer inner) pos next =
      readTerminated accepts stop outer inner follow pos.rest pos.captures := by
  have hnone : ∀ after, next after = none ↔ fails after.rest := fun after => by
    rw [hnext, hfails]
  rw [readTerminated]
  split
  next hfound =>
    obtain ⟨htext, rest, hrest⟩ := hfound
    have hall : ∀ ch ∈ pos.rest.takeWhile accepts, accepts ch = true :=
      fun ch hch => List.mem_takeWhile_imp hch
    have hsplit : pos.rest = pos.rest.takeWhile accepts ++ stop :: rest := by
      rw [← List.singleton_append, hrest, List.takeWhile_append_dropWhile]
    have hbad : fails rest → fails pos.rest := fun hrestFails => by
      rw [hsplit]
      exact hskip _ rest hall hrestFails
    rw [run_terminated hstop outer inner hnone htext hrest.symm hbad, hnext, ← hrest]
    rfl
  next hnot =>
    rw [run_terminated_of_not hstop outer inner (not_and.1 hnot), hnext]

end Agreement

/-! ## What was read -/

/-- A part with its first characters, if it is there. -/
def delimitedText (lead : List CharT) (part : Option (List CharT)) : List CharT :=
  part.elim [] (lead ++ ·)

theorem delimitedText_injective {lead : List CharT} (hlead : lead ≠ []) :
    Injective (delimitedText lead) := by
  intro part other heq
  cases part with
  | none =>
      cases other with
      | none => rfl
      | some body => exact absurd (List.append_eq_nil_iff.1 heq.symm).1 hlead
  | some body =>
      cases other with
      | none => exact absurd (List.append_eq_nil_iff.1 heq).1 hlead
      | some body' => exact congrArg some (List.append_cancel_left heq)

/-- A part with its end, if it is there. -/
def terminatedText (stop : CharT) (part : Option (List CharT)) : List CharT :=
  part.elim [] (· ++ [stop])

/-- A run of characters at the begin of a text, as long as it goes. -/
structure RunPart (accepts : CharT → Bool) (text body rest : List CharT) : Prop where
  text_eq : text = body ++ rest
  accepted : ∀ ch ∈ body, accepts ch = true
  stopped : ∀ {ch}, rest.head? = some ch → accepts ch = false

/-- A part at the begin of a text, as long as its characters go, that is missing only if
the text does not start like it. -/
structure DelimitedPart (lead : List CharT) (accepts : CharT → Bool) (text : List CharT)
    (part : Option (List CharT)) (rest : List CharT) : Prop where
  text_eq : text = delimitedText lead part ++ rest
  accepted : ∀ {body}, part = some body → ∀ ch ∈ body, accepts ch = true
  stopped : ∀ {body}, part = some body → ∀ {ch}, rest.head? = some ch → accepts ch = false
  missing : part = none → ¬lead <+: text

structure TerminatedPart (accepts : CharT → Bool) (stop : CharT) (text : List CharT)
    (part : Option (List CharT)) (rest : List CharT) : Prop where
  text_eq : text = terminatedText stop part ++ rest
  accepted : ∀ {body}, part = some body → body ≠ [] ∧ ∀ ch ∈ body, accepts ch = true
  missing : part = none → ∀ body more, text = body ++ stop :: more → body ≠ [] →
    ¬∀ ch ∈ body, accepts ch = true

/-- A reader that leaves a group alone. -/
def Keeps (reader : Reader CharT) (index : ℕ) : Prop :=
  ∀ {text captures result}, reader text captures = some result → result index = captures index

section Spec

variable {follow : Reader CharT} {accepts : CharT → Bool} {text : List CharT}
variable {captures result : Captures CharT}

theorem head_dropWhile {ch : CharT} (hhead : (text.dropWhile accepts).head? = some ch) :
    accepts ch = false := by
  have hnot := List.head?_dropWhile_not accepts text
  rwa [hhead] at hnot

theorem takeWhile_stop {stop : CharT} {body rest : List CharT} (hstop : accepts stop = false)
    (hbody : ∀ ch ∈ body, accepts ch = true) :
    (body ++ stop :: rest).takeWhile accepts = body := by
  rw [List.takeWhile_append_of_pos hbody, List.takeWhile_cons_of_neg (by simp [hstop]),
    List.append_nil]

theorem dropWhile_stop {stop : CharT} {body rest : List CharT} (hstop : accepts stop = false)
    (hbody : ∀ ch ∈ body, accepts ch = true) :
    (body ++ stop :: rest).dropWhile accepts = stop :: rest := by
  rw [List.dropWhile_append_of_pos hbody, List.dropWhile_cons_of_neg (by simp [hstop])]

theorem readRun_spec {index : ℕ} (hkeeps : Keeps follow index)
    (hread : readRun accepts index follow text captures = some result) :
    ∃ body rest after, follow rest after = some result ∧ result index = some body ∧
      RunPart accepts text body rest ∧
      ∀ other, other ≠ index → after other = captures other := by
  refine ⟨text.takeWhile accepts, text.dropWhile accepts, _, hread, ?_, ?_,
    fun other hother => update_of_ne hother _ _⟩
  · rw [hkeeps hread, update_self]
  · exact ⟨List.takeWhile_append_dropWhile.symm, fun ch hch => List.mem_takeWhile_imp hch,
      head_dropWhile⟩

/-- The body of a part that was found is in its inner group, and only its two groups have
been written. -/
theorem Keeps.of_found {outer inner : ℕ} (hkeeps : Keeps follow inner) (hne : inner ≠ outer)
    {rest body whole : List CharT}
    (hread : follow rest (update (update captures inner (some body)) outer (some whole)) =
      some result) :
    result inner = some body ∧ ∀ other, other ≠ outer → other ≠ inner →
      update (update captures inner (some body)) outer (some whole) other = captures other := by
  refine ⟨?_, fun other houter hother => ?_⟩
  · rw [hkeeps hread, update_of_ne hne, update_self]
  · rw [update_of_ne houter, update_of_ne hother]

variable [DecidableEq CharT]

theorem readDelimited_spec {lead : List CharT} {outer inner : ℕ} (hne : inner ≠ outer)
    (hkeeps : Keeps follow inner) (hnew : captures inner = none)
    (hread : readDelimited lead accepts outer inner follow text captures = some result) :
    ∃ rest after, follow rest after = some result ∧
      DelimitedPart lead accepts text (result inner) rest ∧
      ∀ other, other ≠ outer → other ≠ inner → after other = captures other := by
  rw [readDelimited] at hread
  split at hread
  next hfound =>
    obtain ⟨body, rfl⟩ := hfound
    rw [List.drop_left, foundDelimited] at hread
    obtain ⟨hinner, hothers⟩ := hkeeps.of_found hne hread
    refine ⟨_, _, hread, ?_, hothers⟩
    rw [hinner]
    refine ⟨?_, fun hpart ch hch => ?_, fun _ => head_dropWhile, by simp⟩
    · simp [delimitedText]
    · rw [← Option.some.inj hpart] at hch
      exact List.mem_takeWhile_imp hch
  next hnot =>
    have hinner : result inner = none := (hkeeps hread).trans hnew
    refine ⟨text, captures, hread, ?_, fun _ _ _ => rfl⟩
    rw [hinner]
    exact ⟨rfl, by simp, by simp, fun _ => hnot⟩

theorem readTerminated_spec {stop : CharT} {outer inner : ℕ} (hstop : accepts stop = false)
    (hne : inner ≠ outer) (hkeeps : Keeps follow inner) (hnew : captures inner = none)
    (hread : readTerminated accepts stop outer inner follow text captures = some result) :
    ∃ rest after, follow rest after = some result ∧
      TerminatedPart accepts stop text (result inner) rest ∧
      ∀ other, other ≠ outer → other ≠ inner → after other = captures other := by
  rw [readTerminated] at hread
  split at hread
  next hfound =>
    obtain ⟨htext, rest, hrest⟩ := hfound
    obtain ⟨hinner, hothers⟩ := hkeeps.of_found hne hread
    refine ⟨_, _, hread, ?_, hothers⟩
    rw [hinner, ← hrest]
    refine ⟨?_, fun hpart => ?_, by simp⟩
    · rw [terminatedText, Option.elim_some, List.append_assoc]
      change text = text.takeWhile accepts ++ ([stop] ++ rest)
      rw [hrest, List.takeWhile_append_dropWhile]
    · rw [← Option.some.inj hpart]
      exact ⟨htext, fun ch hch => List.mem_takeWhile_imp hch⟩
  next hnot =>
    have hinner : result inner = none := (hkeeps hread).trans hnew
    refine ⟨text, captures, hread, ?_, fun _ _ _ => rfl⟩
    rw [hinner]
    refine ⟨rfl, by simp, fun _ body more htext hbody hall => hnot ?_⟩
    rw [htext, takeWhile_stop hstop hall, dropWhile_stop hstop hall]
    exact ⟨hbody, more, rfl⟩

end Spec

/-! ## There is one way to read a part -/

section Unique

variable {accepts : CharT → Bool} {text : List CharT}

theorem RunPart.body_eq {body rest : List CharT} (hpart : RunPart accepts text body rest) :
    body = text.takeWhile accepts := by
  rw [hpart.text_eq]
  cases rest with
  | nil => rw [List.append_nil, List.takeWhile_eq_self_iff.2 hpart.accepted]
  | cons ch rest => exact (takeWhile_stop (hpart.stopped rfl) hpart.accepted).symm

theorem RunPart.unique {body rest body' rest' : List CharT}
    (hpart : RunPart accepts text body rest) (hother : RunPart accepts text body' rest') :
    body = body' ∧ rest = rest' := by
  have hbody : body = body' := hpart.body_eq.trans hother.body_eq.symm
  refine ⟨hbody, ?_⟩
  have htext := hpart.text_eq.symm.trans hother.text_eq
  rw [hbody] at htext
  exact List.append_cancel_left htext

/-- The characters behind the lead of a part that is there. -/
theorem DelimitedPart.runPart {lead body rest : List CharT}
    (hpart : DelimitedPart lead accepts text (some body) rest) :
    RunPart accepts (text.drop lead.length) body rest where
  text_eq := by
    rw [hpart.text_eq, delimitedText, Option.elim_some, List.append_assoc, List.drop_left]
  accepted := hpart.accepted rfl
  stopped := hpart.stopped rfl

theorem DelimitedPart.starts {lead body rest : List CharT}
    (hpart : DelimitedPart lead accepts text (some body) rest) : lead <+: text := by
  rw [hpart.text_eq, delimitedText, Option.elim_some, List.append_assoc]
  exact List.prefix_append lead _

theorem DelimitedPart.unique {lead rest rest' : List CharT} {part part' : Option (List CharT)}
    (hpart : DelimitedPart lead accepts text part rest)
    (hother : DelimitedPart lead accepts text part' rest') : part = part' ∧ rest = rest' := by
  cases part with
  | none =>
      cases part' with
      | none => exact ⟨rfl, hpart.text_eq.symm.trans hother.text_eq⟩
      | some body' => exact absurd hother.starts (hpart.missing rfl)
  | some body =>
      cases part' with
      | none => exact absurd hpart.starts (hother.missing rfl)
      | some body' =>
          obtain ⟨rfl, hrest⟩ := hpart.runPart.unique hother.runPart
          exact ⟨rfl, hrest⟩

theorem TerminatedPart.text_eq_stop {stop : CharT} {body rest : List CharT}
    (hpart : TerminatedPart accepts stop text (some body) rest) :
    text = body ++ stop :: rest := by
  rw [hpart.text_eq, terminatedText, Option.elim_some, List.append_assoc, List.singleton_append]

theorem TerminatedPart.unique {stop : CharT} {rest rest' : List CharT}
    {part part' : Option (List CharT)} (hstop : accepts stop = false)
    (hpart : TerminatedPart accepts stop text part rest)
    (hother : TerminatedPart accepts stop text part' rest') : part = part' ∧ rest = rest' := by
  cases part with
  | none =>
      cases part' with
      | none => exact ⟨rfl, hpart.text_eq.symm.trans hother.text_eq⟩
      | some body' =>
          obtain ⟨hne, hall⟩ := hother.accepted rfl
          exact absurd hall (hpart.missing rfl _ _ hother.text_eq_stop hne)
  | some body =>
      obtain ⟨hne, hall⟩ := hpart.accepted rfl
      cases part' with
      | none => exact absurd hall (hother.missing rfl _ _ hpart.text_eq_stop hne)
      | some body' =>
          obtain ⟨hne', hall'⟩ := hother.accepted rfl
          have hbody : body = body' := by
            rw [← takeWhile_stop hstop hall, ← hpart.text_eq_stop, hother.text_eq_stop,
              takeWhile_stop hstop hall']
          have htext := hpart.text_eq.symm.trans hother.text_eq
          rw [hbody] at htext
          exact ⟨congrArg some hbody, List.append_cancel_left htext⟩

end Unique

/-! ## Groups that are left alone -/

section Keeps

variable {follow : Reader CharT} {accepts : CharT → Bool} {index : ℕ}

theorem readEnd_keeps (index : ℕ) : Keeps (readEnd : Reader CharT) index := by
  intro text captures result hread
  rw [readEnd] at hread
  split at hread
  · rw [Option.some.inj hread]
  · cases hread

theorem readRun_keeps (hkeeps : Keeps follow index) {other : ℕ} (hother : index ≠ other) :
    Keeps (readRun accepts other follow) index := by
  intro text captures result hread
  rw [hkeeps hread, update_of_ne hother]

variable [DecidableEq CharT]

theorem readDelimited_keeps (hkeeps : Keeps follow index) (lead : List CharT)
    {outer inner : ℕ} (houter : index ≠ outer) (hinner : index ≠ inner) :
    Keeps (readDelimited lead accepts outer inner follow) index := by
  intro text captures result hread
  rw [readDelimited] at hread
  split at hread
  · rw [hkeeps hread, update_of_ne houter, update_of_ne hinner]
  · exact hkeeps hread

end Keeps

end Nstl.Backtracking
