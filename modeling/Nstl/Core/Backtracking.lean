import Mathlib.Data.List.TakeWhile
import Mathlib.Logic.Function.Basic

/-!
# Backtracking search with captures

Patterns and the search for a match in the way of ECMAScript: a pattern is given a
position and what has to be matched behind it, and hands on the positions where it can
end, the preferred one first, until the rest matches.  Quantifiers are greedy.  A round of
a quantifier forgets what its groups have captured before, and a round that consumes
nothing is a failure.
-/

namespace Nstl.Backtracking

open Function

inductive Pattern (CharT : Type*) where
  /-- The begin of the text. -/
  | start
  | char (accepts : CharT → Bool)
  | seq (first second : Pattern CharT)
  | opt (body : Pattern CharT)
  | star (body : Pattern CharT)
  | group (index : ℕ) (body : Pattern CharT)

variable {CharT Result : Type*}

/-- The text that each group has captured. -/
abbrev Captures (CharT : Type*) := ℕ → Option (List CharT)

structure Position (CharT : Type*) where
  consumed : ℕ
  rest : List CharT
  captures : Captures CharT

namespace Pattern

/-- At least one round. -/
def plus (body : Pattern CharT) : Pattern CharT := .seq body (.star body)

def groups : Pattern CharT → List ℕ
  | .start => []
  | .char _ => []
  | .seq first second => first.groups ++ second.groups
  | .opt body => body.groups
  | .star body => body.groups
  | .group index body => index :: body.groups

end Pattern

namespace Position

def forget (pos : Position CharT) (groups : List ℕ) : Position CharT :=
  { pos with captures := fun index => if index ∈ groups then none else pos.captures index }

/-- A group that reaches from one position to another. -/
def capture (index : ℕ) (first last : Position CharT) : Position CharT :=
  { last with
    captures := update last.captures index
      (some (first.rest.take (last.consumed - first.consumed))) }

def advance (pos : Position CharT) (count : ℕ) : Position CharT :=
  { pos with consumed := pos.consumed + count, rest := pos.rest.drop count }

end Position

/-- The rounds of a greedy quantifier; `limit` bounds their number. -/
def rounds (round : Position CharT → (Position CharT → Option Result) → Option Result)
    (next : Position CharT → Option Result) : ℕ → Position CharT → Option Result
  | 0, pos => next pos
  | limit + 1, pos =>
      (round pos fun after =>
        if after.consumed = pos.consumed then none else rounds round next limit after).or
        (next pos)

/-- The search for a pattern at a position, where `next` searches for what follows. -/
def run : Pattern CharT → Position CharT → (Position CharT → Option Result) → Option Result
  | .start, pos, next => if pos.consumed = 0 then next pos else none
  | .char accepts, pos, next =>
      match pos.rest with
      | [] => none
      | ch :: _ => if accepts ch then next (pos.advance 1) else none
  | .seq first second, pos, next => run first pos fun after => run second after next
  | .opt body, pos, next =>
      (run body (pos.forget body.groups) fun after =>
        if after.consumed = pos.consumed then none else next after).or (next pos)
  -- every round but the last one consumes something
  | .star body, pos, next =>
      rounds (fun pos => run body (pos.forget body.groups)) next pos.rest.length pos
  | .group index body, pos, next => run body pos fun after => next (.capture index pos after)

/-- The match of a pattern with a whole text. -/
def fullMatch (pattern : Pattern CharT) (text : List CharT) : Option (Captures CharT) :=
  run pattern ⟨0, text, fun _ => none⟩ fun pos =>
    if pos.rest.isEmpty then some pos.captures else none

section Equations

variable (pos : Position CharT) (next : Position CharT → Option Result)

theorem run_seq (first second : Pattern CharT) :
    run (.seq first second) pos next = run first pos fun after => run second after next := rfl

theorem run_group (index : ℕ) (body : Pattern CharT) :
    run (.group index body) pos next = run body pos fun after => next (.capture index pos after) :=
  rfl

end Equations

/-! ## Positions -/

@[simp]
theorem forget_nil (pos : Position CharT) : pos.forget [] = pos := by
  simp [Position.forget]

@[simp]
theorem advance_advance (pos : Position CharT) (first second : ℕ) :
    (pos.advance first).advance second = pos.advance (first + second) := by
  simp [Position.advance, Nat.add_assoc]

theorem advance_one_advance (pos : Position CharT) (count : ℕ) :
    (pos.advance 1).advance count = pos.advance (count + 1) := by
  rw [advance_advance, Nat.add_comm]

theorem rest_advance_one {pos : Position CharT} {ch : CharT} {rest : List CharT}
    (hrest : pos.rest = ch :: rest) : (pos.advance 1).rest = rest := by
  rw [Position.advance, hrest]
  rfl

/-! ## Patterns that consume something -/

/-- Every match of the pattern has a first character. -/
def Pattern.consuming : Pattern CharT → Bool
  | .char _ => true
  | .seq first second => first.consuming || second.consuming
  | .group _ body => body.consuming
  | _ => false

section Congruence

variable {next other : Position CharT → Option Result}

theorem rounds_congr
    {round : Position CharT → (Position CharT → Option Result) → Option Result}
    (hround : ∀ {pos next other}, (∀ after : Position CharT, pos.consumed ≤ after.consumed →
      next after = other after) → round pos next = round pos other)
    {limit : ℕ} {pos : Position CharT}
    (hnext : ∀ after, pos.consumed ≤ after.consumed → next after = other after) :
    rounds round next limit pos = rounds round other limit pos := by
  induction limit generalizing pos with
  | zero => exact hnext pos le_rfl
  | succ limit ih =>
      rw [rounds, rounds, hnext pos le_rfl, hround fun after hafter => ?_]
      split
      · rfl
      · exact ih fun later hlater => hnext later (hafter.trans hlater)

/-- The search goes only forward. -/
theorem run_congr (pattern : Pattern CharT) {pos : Position CharT}
    {next other : Position CharT → Option Result}
    (hnext : ∀ after, pos.consumed ≤ after.consumed → next after = other after) :
    run pattern pos next = run pattern pos other := by
  induction pattern generalizing pos next other with
  | start => rw [run, run, hnext pos le_rfl]
  | char accepts =>
      rw [run, run]
      split
      · rfl
      · rw [hnext (pos.advance 1) (Nat.le_add_right _ _)]
  | seq first second ihfirst ihsecond =>
      exact ihfirst fun after hafter => ihsecond fun later hlater =>
        hnext later (hafter.trans hlater)
  | opt body ih =>
      rw [run, run, hnext pos le_rfl, ih fun after hafter => by rw [hnext after hafter]]
  | star body ih =>
      refine rounds_congr (fun {inner next other} hinner => ?_) hnext
      exact ih hinner
  | group index body ih => exact ih fun after hafter => hnext _ hafter

/-- What a consuming pattern hands on lies ahead. -/
theorem run_congr_of_consuming {pattern : Pattern CharT} (hpattern : pattern.consuming = true)
    {pos : Position CharT} {next other : Position CharT → Option Result}
    (hnext : ∀ after, pos.consumed < after.consumed → next after = other after) :
    run pattern pos next = run pattern pos other := by
  induction pattern generalizing pos next other with
  | start => cases hpattern
  | char accepts =>
      rw [run, run]
      split
      · rfl
      · rw [hnext (pos.advance 1) (Nat.lt_succ_self _)]
  | seq first second ihfirst ihsecond =>
      rcases Bool.or_eq_true_iff.1 hpattern with hfirst | hsecond
      · exact ihfirst hfirst fun after hafter => run_congr second fun later hlater =>
          hnext later (hafter.trans_le hlater)
      · exact run_congr first fun after hafter => ihsecond hsecond fun later hlater =>
          hnext later (hafter.trans_lt hlater)
  | opt body => cases hpattern
  | star body => cases hpattern
  | group index body ih => exact ih hpattern fun after hafter => hnext _ hafter

end Congruence

/-- An optional pattern that cannot match the empty text. -/
theorem run_opt {body : Pattern CharT} (hbody : body.consuming = true) (pos : Position CharT)
    (next : Position CharT → Option Result) :
    run (.opt body) pos next = (run body (pos.forget body.groups) next).or (next pos) := by
  rw [run, run_congr_of_consuming hbody fun after hafter => ?_]
  exact if_neg (Nat.ne_of_gt hafter)

/-! ## Greedy runs of characters -/

section Greedy

variable {accepts : CharT → Bool} {pos : Position CharT} {next : Position CharT → Option Result}

theorem run_char_cons {ch : CharT} {rest : List CharT} (hrest : pos.rest = ch :: rest) :
    run (.char accepts) pos next = if accepts ch then next (pos.advance 1) else none := by
  rw [run, hrest]

theorem run_char_nil (hrest : pos.rest = []) : run (.char accepts) pos next = none := by
  rw [run, hrest]

/-- Inside of a run of characters the next one is of the run, too. -/
theorem exists_drop_of_lt_takeWhile {text : List CharT} {count : ℕ}
    (hcount : count < (text.takeWhile accepts).length) :
    ∃ ch rest, text.drop count = ch :: rest ∧ accepts ch = true := by
  induction text generalizing count with
  | nil => cases hcount
  | cons ch text ih =>
      by_cases hch : accepts ch = true
      · rw [List.takeWhile_cons_of_pos hch, List.length_cons] at hcount
        cases count with
        | zero => exact ⟨ch, text, rfl, hch⟩
        | succ count => exact ih (Nat.lt_of_succ_lt_succ hcount)
      · rw [List.takeWhile_cons_of_neg hch] at hcount
        cases hcount

theorem rounds_char {limit : ℕ} (hlimit : limit = pos.rest.length)
    (hnext : next (pos.advance (pos.rest.takeWhile accepts).length) = none →
      ∀ count < (pos.rest.takeWhile accepts).length, next (pos.advance count) = none) :
    rounds (run (.char accepts)) next limit pos =
      next (pos.advance (pos.rest.takeWhile accepts).length) := by
  induction limit generalizing pos with
  | zero =>
      rw [List.eq_nil_of_length_eq_zero hlimit.symm]
      rfl
  | succ limit ih =>
      obtain ⟨ch, rest, hrest⟩ := List.exists_cons_of_length_eq_add_one hlimit.symm
      rw [hrest] at hlimit hnext ⊢
      rw [rounds, run_char_cons hrest]
      by_cases hch : accepts ch = true
      · rw [List.takeWhile_cons_of_pos hch, List.length_cons] at hnext ⊢
        have hone := rest_advance_one hrest
        have hmore : rounds (run (.char accepts)) next limit (pos.advance 1) =
            next (pos.advance ((rest.takeWhile accepts).length + 1)) := by
          rw [ih, hone, advance_one_advance]
          · rw [hone]
            exact Nat.succ.inj hlimit
          · rw [hone, advance_one_advance]
            intro hnone count hcount
            rw [advance_one_advance]
            exact hnext hnone (count + 1) (Nat.succ_lt_succ hcount)
        have hmoved : (pos.advance 1).consumed ≠ pos.consumed := Nat.succ_ne_self pos.consumed
        rw [if_pos hch, if_neg hmoved, hmore]
        cases hlast : next (pos.advance ((rest.takeWhile accepts).length + 1)) with
        | some result => rfl
        | none => exact hnext hlast 0 (Nat.succ_pos _)
      · rw [if_neg hch, List.takeWhile_cons_of_neg hch]
        rfl

/-- The longest run of characters is the one that counts, if what follows fails behind
every shorter one when it fails there. -/
theorem run_star_char
    (hnext : next (pos.advance (pos.rest.takeWhile accepts).length) = none →
      ∀ count < (pos.rest.takeWhile accepts).length, next (pos.advance count) = none) :
    run (.star (.char accepts)) pos next =
      next (pos.advance (pos.rest.takeWhile accepts).length) := by
  change rounds (fun pos => run (.char accepts) (pos.forget [])) next _ pos = _
  simp only [forget_nil]
  exact rounds_char rfl hnext

/-- One character at least: the same for the runs that are not empty. -/
theorem run_plus_char
    (hnext : next (pos.advance (pos.rest.takeWhile accepts).length) = none →
      ∀ count < (pos.rest.takeWhile accepts).length, count ≠ 0 →
        next (pos.advance count) = none) :
    run (.plus (.char accepts)) pos next =
      if (pos.rest.takeWhile accepts).length = 0 then none
      else next (pos.advance (pos.rest.takeWhile accepts).length) := by
  rw [Pattern.plus, run_seq]
  cases hrest : pos.rest with
  | nil =>
      rw [run_char_nil hrest]
      rfl
  | cons ch rest =>
      rw [run_char_cons hrest]
      rw [hrest] at hnext
      by_cases hch : accepts ch = true
      · rw [List.takeWhile_cons_of_pos hch, List.length_cons] at hnext ⊢
        have hone := rest_advance_one hrest
        rw [if_pos hch, if_neg (Nat.succ_ne_zero _), run_star_char, hone, advance_one_advance]
        rw [hone, advance_one_advance]
        intro hnone count hcount
        rw [advance_one_advance]
        exact hnext hnone (count + 1) (Nat.succ_lt_succ hcount) (Nat.succ_ne_zero count)
      · rw [if_neg hch, List.takeWhile_cons_of_neg hch]
        rfl

end Greedy

/-! ## Parts of a text

Whether what follows fails depends here on the rest of the text alone. -/

section Parts

variable {accepts : CharT → Bool} {pos : Position CharT} {next : Position CharT → Option Result}
variable {fails : List CharT → Prop}

theorem drop_takeWhile (text : List CharT) :
    text.drop (text.takeWhile accepts).length = text.dropWhile accepts := by
  have hsplit := congrArg (List.drop (text.takeWhile accepts).length)
    (List.takeWhile_append_dropWhile (p := accepts) (l := text))
  rw [List.drop_left] at hsplit
  exact hsplit.symm

theorem take_takeWhile (text : List CharT) :
    text.take (text.takeWhile accepts).length = text.takeWhile accepts := by
  have hsplit := congrArg (List.take (text.takeWhile accepts).length)
    (List.takeWhile_append_dropWhile (p := accepts) (l := text))
  rw [List.take_left] at hsplit
  exact hsplit.symm

/-- A group around a run of characters. -/
theorem run_group_star (index : ℕ) (hfails : ∀ after, next after = none ↔ fails after.rest)
    (hshorter : ∀ count < (pos.rest.takeWhile accepts).length,
      fails (pos.rest.dropWhile accepts) → fails (pos.rest.drop count)) :
    run (.group index (.star (.char accepts))) pos next =
      next ⟨pos.consumed + (pos.rest.takeWhile accepts).length, pos.rest.dropWhile accepts,
        update pos.captures index (some (pos.rest.takeWhile accepts))⟩ := by
  rw [run_group, run_star_char]
  · simp only [Position.capture, Position.advance, Nat.add_sub_cancel_left, drop_takeWhile,
      take_takeWhile]
  · intro hnone count hcount
    rw [hfails] at hnone ⊢
    simp only [Position.capture, Position.advance, drop_takeWhile] at hnone ⊢
    exact hshorter count hcount hnone

/-- Captures that a round starts without and then makes. -/
theorem update_forget (captures : Captures CharT) (outer inner : ℕ)
    (outerText innerText : Option (List CharT)) :
    update (update (fun index => if index ∈ [outer, inner] then none else captures index)
      inner innerText) outer outerText =
      update (update captures inner innerText) outer outerText := by
  funext index
  by_cases houter : index = outer
  · rw [houter, update_self, update_self]
  · by_cases hinner : index = inner
    · rw [update_of_ne houter, update_of_ne houter, hinner, update_self, update_self]
    · simp [houter, hinner]

/-- An option that is taken, unless what follows fails everywhere. -/
theorem or_eq_left {first second : Option Result} (hnone : first = none → second = none) :
    first.or second = first := by
  cases first with
  | none => exact hnone rfl
  | some result => rfl

variable [DecidableEq CharT]

/-- Given characters before a pattern. -/
def literal (lead : List CharT) (body : Pattern CharT) : Pattern CharT :=
  lead.foldr (fun ch rest => .seq (.char (· = ch)) rest) body

/-- A part of the text that starts with given characters. -/
def delimited (lead : List CharT) (accepts : CharT → Bool) (outer inner : ℕ) : Pattern CharT :=
  .opt (.group outer (literal lead (.group inner (.star (.char accepts)))))

/-- A part of the text that ends with a given character. -/
def terminated (accepts : CharT → Bool) (stop : CharT) (outer inner : ℕ) : Pattern CharT :=
  .opt (.group outer (.seq (.group inner (.plus (.char accepts))) (.char (· = stop))))

theorem run_char_of_not {stop : CharT} (hrest : ¬[stop] <+: pos.rest) :
    run (.char (· = stop)) pos next = none := by
  cases htext : pos.rest with
  | nil => exact run_char_nil htext
  | cons ch rest =>
      have hne : decide (ch = stop) = false := by
        refine decide_eq_false fun heq => hrest ?_
        rw [htext, heq]
        exact ⟨rest, rfl⟩
      rw [run_char_cons htext, hne]
      rfl

theorem run_literal_append {lead rest : List CharT} (body : Pattern CharT)
    (hrest : pos.rest = lead ++ rest) :
    run (literal lead body) pos next = run body (pos.advance lead.length) next := by
  induction lead generalizing pos with
  | nil => rfl
  | cons ch lead ih =>
      change run (.char (· = ch)) pos (fun after => run (literal lead body) after next) = _
      rw [run_char_cons hrest, if_pos (decide_eq_true rfl), ih (rest_advance_one hrest),
        advance_one_advance, List.length_cons]

theorem run_literal_of_not {lead : List CharT} (body : Pattern CharT)
    (hrest : ¬lead <+: pos.rest) : run (literal lead body) pos next = none := by
  induction lead generalizing pos with
  | nil => exact absurd (List.nil_prefix) hrest
  | cons ch lead ih =>
      change run (.char (· = ch)) pos (fun after => run (literal lead body) after next) = _
      cases htext : pos.rest with
      | nil => exact run_char_nil htext
      | cons other rest =>
          rw [run_char_cons htext]
          rw [htext, List.cons_prefix_cons, not_and] at hrest
          split
          next heq =>
            refine ih ?_
            rw [rest_advance_one htext]
            exact hrest (of_decide_eq_true heq).symm
          next => rfl

theorem groups_literal (lead : List CharT) (body : Pattern CharT) :
    (literal lead body).groups = body.groups := by
  induction lead with
  | nil => rfl
  | cons ch lead ih => exact ih

theorem consuming_literal {lead : List CharT} (hlead : lead ≠ []) (body : Pattern CharT) :
    (literal lead body).consuming = true := by
  cases lead with
  | nil => exact absurd rfl hlead
  | cons ch lead => rfl

theorem run_group_literal {lead rest : List CharT} (outer inner : ℕ)
    (hfails : ∀ after, next after = none ↔ fails after.rest)
    (hrest : pos.rest = lead ++ rest)
    (hshorter : ∀ count < (rest.takeWhile accepts).length,
      fails (rest.dropWhile accepts) → fails (rest.drop count)) :
    run (.group outer (literal lead (.group inner (.star (.char accepts))))) pos next =
      next ⟨pos.consumed + (lead ++ rest.takeWhile accepts).length, rest.dropWhile accepts,
        update (update pos.captures inner (some (rest.takeWhile accepts)))
          outer (some (lead ++ rest.takeWhile accepts))⟩ := by
  have hafter : (pos.advance lead.length).rest = rest := by
    rw [Position.advance, hrest, List.drop_left]
  have htext : pos.rest.take (lead ++ rest.takeWhile accepts).length =
      lead ++ rest.takeWhile accepts := by
    rw [hrest, List.length_append, List.take_length_add_append, take_takeWhile]
  have houter : ∀ after, next (.capture outer pos after) = none ↔ fails after.rest :=
    fun after => hfails (.capture outer pos after)
  rw [run_group, run_literal_append _ hrest, run_group_star inner houter]
  · rw [hafter]
    simp only [Position.capture, Position.advance, Nat.add_assoc, Nat.add_sub_cancel_left,
      ← List.length_append, htext]
  · rwa [hafter]

section Optional

variable (lead : List CharT) (accepts) (outer inner : ℕ)

theorem groups_delimited :
    (Pattern.group outer (literal lead (.group inner (.star (.char accepts))))).groups =
      [outer, inner] := by
  rw [Pattern.groups, groups_literal]
  rfl

variable {lead}

theorem consuming_delimited (hlead : lead ≠ []) :
    (Pattern.group outer
      (literal lead (.group inner (.star (.char accepts))))).consuming = true :=
  consuming_literal hlead _

end Optional

/-- A part that is there, and whose characters end where what follows can begin. -/
theorem run_delimited {lead rest : List CharT} (hlead : lead ≠ []) (outer inner : ℕ)
    (hfails : ∀ after, next after = none ↔ fails after.rest)
    (hrest : pos.rest = lead ++ rest)
    (hshorter : ∀ count < (rest.takeWhile accepts).length,
      fails (rest.dropWhile accepts) → fails (rest.drop count))
    (hskip : fails (rest.dropWhile accepts) → fails pos.rest) :
    run (delimited lead accepts outer inner) pos next =
      next ⟨pos.consumed + (lead ++ rest.takeWhile accepts).length, rest.dropWhile accepts,
        update (update pos.captures inner (some (rest.takeWhile accepts)))
          outer (some (lead ++ rest.takeWhile accepts))⟩ := by
  have hforget : (pos.forget [outer, inner]).rest = lead ++ rest := hrest
  rw [delimited, run_opt (consuming_delimited accepts outer inner hlead), groups_delimited,
    run_group_literal outer inner hfails hforget hshorter, Position.forget, update_forget,
    or_eq_left]
  rw [hfails, hfails]
  exact hskip

/-- A part that is not there. -/
theorem run_delimited_of_not {lead : List CharT} (hlead : lead ≠ []) (outer inner : ℕ)
    (hrest : ¬lead <+: pos.rest) :
    run (delimited lead accepts outer inner) pos next = next pos := by
  have hforget : ¬lead <+: (pos.forget [outer, inner]).rest := hrest
  rw [delimited, run_opt (consuming_delimited accepts outer inner hlead), groups_delimited,
    run_group, run_literal_of_not _ hforget]
  rfl

/-- The end of a run of characters is the only place for a character that is not one of
them. -/
theorem run_plus_stop {stop : CharT} (hstop : accepts stop = false) (outer inner : ℕ) :
    run (.group outer (.seq (.group inner (.plus (.char accepts))) (.char (· = stop)))) pos next =
      if (pos.rest.takeWhile accepts).length = 0 then none
      else run (.char (· = stop))
        (.capture inner pos (pos.advance (pos.rest.takeWhile accepts).length))
        fun after => next (.capture outer pos after) := by
  rw [run_group, run_seq, run_group, run_plus_char]
  intro _ count hcount _
  obtain ⟨ch, rest, hdrop, hch⟩ := exists_drop_of_lt_takeWhile hcount
  have hrest : (Position.capture inner pos (pos.advance count)).rest = ch :: rest := hdrop
  have hne : decide (ch = stop) = false := by
    refine decide_eq_false fun heq => ?_
    rw [heq, hstop] at hch
    cases hch
  rw [run_char_cons hrest, hne]
  rfl

section Optional

variable (accepts) (stop : CharT) (outer inner : ℕ)

theorem groups_terminated :
    (Pattern.group outer
      (.seq (.group inner (.plus (.char accepts))) (.char (· = stop)))).groups =
      [outer, inner] := rfl

theorem consuming_terminated :
    (Pattern.group outer
      (.seq (.group inner (.plus (.char accepts))) (.char (· = stop)))).consuming = true := rfl

end Optional

variable (pos) (next) in
theorem run_group_plus_stop {stop : CharT} {rest : List CharT} (hstop : accepts stop = false)
    (outer inner : ℕ) (htext : pos.rest.takeWhile accepts ≠ [])
    (hrest : pos.rest.dropWhile accepts = stop :: rest) :
    run (.group outer (.seq (.group inner (.plus (.char accepts))) (.char (· = stop)))) pos next =
      next ⟨pos.consumed + (pos.rest.takeWhile accepts ++ [stop]).length, rest,
        update (update pos.captures inner (some (pos.rest.takeWhile accepts)))
          outer (some (pos.rest.takeWhile accepts ++ [stop]))⟩ := by
  have hsplit : pos.rest = pos.rest.takeWhile accepts ++ [stop] ++ rest := by
    rw [List.append_assoc, List.singleton_append, ← hrest, List.takeWhile_append_dropWhile]
  have htake : pos.rest.take ((pos.rest.takeWhile accepts).length + 1) =
      pos.rest.takeWhile accepts ++ [stop] := by
    have hlength := congrArg (List.take (pos.rest.takeWhile accepts ++ [stop]).length) hsplit
    rwa [List.take_left, List.length_append, List.length_singleton] at hlength
  have hdrop : (pos.rest.drop (pos.rest.takeWhile accepts).length).drop 1 = rest := by
    rw [drop_takeWhile, hrest]
    rfl
  have hchar : (Position.capture inner pos
      (pos.advance (pos.rest.takeWhile accepts).length)).rest = stop :: rest :=
    (drop_takeWhile pos.rest).trans hrest
  rw [run_plus_stop hstop, if_neg (mt List.eq_nil_of_length_eq_zero htext), run_char_cons hchar,
    if_pos (decide_eq_true rfl)]
  simp only [Position.capture, Position.advance, Nat.add_assoc, Nat.add_sub_cancel_left, hdrop,
    htake, take_takeWhile, List.length_append, List.length_singleton]

/-- A part that is there, with its end. -/
theorem run_terminated {stop : CharT} {rest : List CharT} (hstop : accepts stop = false)
    (outer inner : ℕ) (hfails : ∀ after, next after = none ↔ fails after.rest)
    (htext : pos.rest.takeWhile accepts ≠ []) (hrest : pos.rest.dropWhile accepts = stop :: rest)
    (hskip : fails rest → fails pos.rest) :
    run (terminated accepts stop outer inner) pos next =
      next ⟨pos.consumed + (pos.rest.takeWhile accepts ++ [stop]).length, rest,
        update (update pos.captures inner (some (pos.rest.takeWhile accepts)))
          outer (some (pos.rest.takeWhile accepts ++ [stop]))⟩ := by
  have hbody := run_group_plus_stop (pos.forget [outer, inner]) next hstop outer inner htext hrest
  rw [terminated, run_opt (consuming_terminated accepts stop outer inner), groups_terminated,
    hbody, Position.forget, update_forget, or_eq_left]
  rw [hfails, hfails]
  exact hskip

variable (pos) (next) in
theorem run_group_plus_stop_of_not {stop : CharT} (hstop : accepts stop = false)
    (outer inner : ℕ)
    (hnot : pos.rest.takeWhile accepts ≠ [] → ¬[stop] <+: pos.rest.dropWhile accepts) :
    run (.group outer (.seq (.group inner (.plus (.char accepts))) (.char (· = stop)))) pos next =
      none := by
  rw [run_plus_stop hstop]
  split
  next => rfl
  next hlength =>
    apply run_char_of_not
    rw [Position.capture, Position.advance, drop_takeWhile]
    exact hnot (mt List.length_eq_zero_iff.2 hlength)

/-- A part that is not there. -/
theorem run_terminated_of_not {stop : CharT} (hstop : accepts stop = false) (outer inner : ℕ)
    (hnot : pos.rest.takeWhile accepts ≠ [] → ¬[stop] <+: pos.rest.dropWhile accepts) :
    run (terminated accepts stop outer inner) pos next = next pos := by
  have hbody := run_group_plus_stop_of_not (pos.forget [outer, inner]) next hstop outer inner hnot
  rw [terminated, run_opt (consuming_terminated accepts stop outer inner), groups_terminated, hbody]
  rfl

end Parts

end Nstl.Backtracking
