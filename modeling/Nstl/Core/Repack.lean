import Nstl.Core.BitStream

/-!
# Repacking iterators

The iterator adaptor `transform_width` reads numbers of one width and yields
numbers of another one.  When it narrows, the end of its input makes it fill the
last number with zeros; when it widens, it stops as soon as all input has been
read.  Reading does not check for the end of the input.

Dereferencing the underlying iterator may throw; copying ends with that failure
or with the numbers that were yielded.
-/

namespace Nstl.Repack

open Nstl.BitStream

/-- The widths of the input and the output; both are at most a byte. -/
structure Widths where
  bitsOut : ℕ
  bitsIn : ℕ
  bitsOut_pos : 0 < bitsOut
  bitsOut_le : bitsOut ≤ 8
  bitsIn_pos : 0 < bitsIn

/-- How copying can fail: at the end of the input, in the underlying iterator, or
by never getting to an end. -/
inductive Failure (Error : Type) where
  | pastEnd
  | thrown (error : Error)
  | stuck
  deriving DecidableEq, Repr

/-- The state of the adaptor between two dereferences. -/
structure Repacker (Item : Type) where
  rest : List Item
  bufferIn : ℤ
  remainingBits : ℕ
  endOfSequence : Bool

variable {Item Error : Type}

/-- The adaptor as it is constructed. -/
def Repacker.start (items : List Item) : Repacker Item := ⟨items, 0, 0, false⟩

section Machine

variable (widths : Widths) (deref : Item → Except Error ℤ)

/-- Get more input bits when there are none left. -/
def reload (missing : ℕ) (state : Repacker Item) :
    Except (Failure Error) (Repacker Item) :=
  if state.remainingBits = 0 then
    if state.endOfSequence then
      .ok { state with bufferIn := 0, remainingBits := missing }
    else
      match state.rest with
      | [] => .error .pastEnd
      | item :: rest =>
          match deref item with
          | .error error => .error (.thrown error)
          | .ok value =>
              .ok { state with rest := rest, bufferIn := value,
                               remainingBits := widths.bitsIn }
  else .ok state

/-- Shift bits into a byte. -/
def appendBits (out count part : ℕ) : ℕ := (out <<< count ||| part) % 2 ^ 8

/-- The loop of `fill`; every round yields a bit, so there are at most as many
rounds as there are bits missing. -/
def fillFrom : ℕ → ℕ → ℕ → Repacker Item → Except (Failure Error) (ℕ × Repacker Item)
  | 0, _, _, _ => .error .stuck
  | fuel + 1, missing, out, state =>
      match reload widths deref missing state with
      | .error failure => .error failure
      | .ok state =>
          let count := min missing state.remainingBits
          -- the mask keeps the lowest bits, whatever the sign of the buffer
          let part := ((state.bufferIn >>> (state.remainingBits - count)) % 2 ^ count).toNat
          let out := appendBits out count part
          let state := { state with remainingBits := state.remainingBits - count }
          if 0 < missing - count then fillFrom fuel (missing - count) out state
          else .ok (out, state)

def fill (state : Repacker Item) : Except (Failure Error) (ℕ × Repacker Item) :=
  fillFrom widths deref widths.bitsOut widths.bitsOut 0 state

/-- The comparison with the end, which the adaptor takes note of. -/
def atEnd (state : Repacker Item) : Bool × Repacker Item :=
  if widths.bitsIn < widths.bitsOut then (state.rest.isEmpty, state)
  else if state.rest.isEmpty then
    (state.remainingBits == 0, { state with endOfSequence := true })
  else (false, state)

/-- `std::copy` from the adaptor; every round uses up a bit. -/
def copyFrom : ℕ → Repacker Item → Except (Failure Error) (List ℕ)
  | 0, _ => .error .stuck
  | fuel + 1, state =>
      match atEnd widths state with
      | (true, _) => .ok []
      | (false, state) =>
          match fill widths deref state with
          | .error failure => .error failure
          | .ok (out, state) => (copyFrom fuel state).map (out :: ·)

def copy (items : List Item) : Except (Failure Error) (List ℕ) :=
  copyFrom widths deref (items.length * widths.bitsIn + 1) (Repacker.start items)

end Machine

/-! ## The bits that are still to come -/

section Pending

variable {widths : Widths} {deref : Item → Except Error ℤ} (value : Item → ℤ)

/-- The bits of the input that have not been yielded. -/
def pending (widths : Widths) (state : Repacker Item) : List Bool :=
  bitsOf state.remainingBits state.bufferIn ++
    state.rest.flatMap fun item => bitsOf widths.bitsIn (value item)

theorem length_pending (widths : Widths) (state : Repacker Item) :
    (pending value widths state).length =
      state.remainingBits + state.rest.length * widths.bitsIn := by
  simp [pending, List.length_flatMap]

theorem length_pending_start (widths : Widths) (items : List Item) :
    (pending value widths (Repacker.start items)).length = items.length * widths.bitsIn := by
  rw [length_pending, Repacker.start, Nat.zero_add]

/-- Between two dereferences less than one input is buffered, the rest can be
dereferenced, and the end is noted only when it is reached. -/
structure Ready (widths : Widths) (deref : Item → Except Error ℤ)
    (state : Repacker Item) : Prop where
  remaining_lt : state.remainingBits < widths.bitsIn
  derefs : ∀ item ∈ state.rest, deref item = .ok (value item)
  ended : state.endOfSequence = true → state.rest = []

variable {value}

theorem ready_start {items : List Item} (hderef : ∀ item ∈ items, deref item = .ok (value item)) :
    Ready value widths deref (Repacker.start items) :=
  ⟨widths.bitsIn_pos, hderef, fun hend => absurd hend (by simp [Repacker.start])⟩

theorem appendBits_eq {out count part : ℕ} (hpart : part < 2 ^ count)
    (hfits : out * 2 ^ count + part < 2 ^ 8) :
    appendBits out count part = out * 2 ^ count + part := by
  rw [appendBits, ← Nat.shiftLeft_add_eq_or_of_lt hpart, Nat.shiftLeft_eq,
    Nat.mod_eq_of_lt hfits]

/-- The bits that the mask leaves are the next ones. -/
theorem part_eq (value : Item → ℤ) (widths : Widths) {state : Repacker Item} {count : ℕ}
    (hcount : count ≤ state.remainingBits) :
    ((state.bufferIn >>> (state.remainingBits - count)) % 2 ^ count).toNat =
      ofBits ((pending value widths state).take count) := by
  rw [pending, List.take_append_of_le_length (by simpa using hcount), take_bitsOf hcount,
    Int.shiftRight_eq_div_pow]
  have hbits := ofBits_bitsOf count (state.bufferIn / 2 ^ (state.remainingBits - count))
  rw [← Int.toNat_natCast (ofBits _), hbits]
  norm_cast

theorem pending_drop (value : Item → ℤ) (widths : Widths) {state : Repacker Item} {count : ℕ}
    (hcount : count ≤ state.remainingBits) :
    pending value widths { state with remainingBits := state.remainingBits - count } =
      (pending value widths state).drop count := by
  rw [pending, pending, List.drop_append_of_le_length (by simpa using hcount), drop_bitsOf]

/-- There are enough bits, or zeros can be used in their place. -/
def Supplies (value : Item → ℤ) (widths : Widths) (missing : ℕ) (state : Repacker Item) :
    Prop :=
  missing ≤ (pending value widths state).length ∨ state.endOfSequence = true

/-- The adaptor has bits, and the same ones are to come as before. -/
structure Loaded (value : Item → ℤ) (widths : Widths) (deref : Item → Except Error ℤ)
    (missing : ℕ) (state loaded : Repacker Item) : Prop where
  remaining_pos : 0 < loaded.remainingBits
  remaining_lt : loaded.remainingBits - min missing loaded.remainingBits < widths.bitsIn
  derefs : ∀ item ∈ loaded.rest, deref item = .ok (value item)
  ended : loaded.endOfSequence = true → loaded.rest = []
  end_eq : loaded.endOfSequence = state.endOfSequence
  supplies : Supplies value widths missing loaded
  padded_eq : padded missing (pending value widths loaded) =
    padded missing (pending value widths state)
  drop_eq : (pending value widths loaded).drop missing =
    (pending value widths state).drop missing

/-- Before the end is noted, a reload that finds something leaves what is to come. -/
theorem reload_of_pending (missing : ℕ) {state : Repacker Item}
    (hready : Ready value widths deref state) (hend : state.endOfSequence = false)
    (hpending : pending value widths state ≠ []) :
    ∃ loaded, reload widths deref missing state = .ok loaded ∧
      0 < loaded.remainingBits ∧ loaded.remainingBits ≤ widths.bitsIn ∧
      (∀ item ∈ loaded.rest, deref item = .ok (value item)) ∧
      loaded.endOfSequence = false ∧
      pending value widths loaded = pending value widths state := by
  by_cases hempty : state.remainingBits = 0
  · obtain ⟨item, rest, hrest⟩ : ∃ item rest, state.rest = item :: rest := by
      apply List.exists_cons_of_ne_nil
      intro hnil
      apply hpending
      simp [pending, hempty, hnil, bitsOf]
    have hitem : deref item = .ok (value item) := hready.derefs item (by simp [hrest])
    simp only [reload, if_pos hempty, hend, hrest, hitem]
    refine ⟨_, rfl, widths.bitsIn_pos, Nat.le_refl _, ?_, rfl, ?_⟩
    · intro other hother
      exact hready.derefs other (by simp [hrest, hother])
    · simp [pending, hempty, hrest, bitsOf]
  · rw [reload, if_neg hempty]
    exact ⟨state, rfl, Nat.pos_of_ne_zero hempty, Nat.le_of_lt hready.remaining_lt,
      hready.derefs, hend, rfl⟩

theorem reload_spec {missing : ℕ} {state : Repacker Item}
    (hready : Ready value widths deref state) (hmissing : 0 < missing)
    (hsupplies : Supplies value widths missing state) :
    ∃ loaded, reload widths deref missing state = .ok loaded ∧
      Loaded value widths deref missing state loaded := by
  cases hend : state.endOfSequence with
  | true =>
      by_cases hempty : state.remainingBits = 0
      -- behind the end the missing bits are zeros
      · have hrest := hready.ended hend
        have hpending : pending value widths state = [] := by
          simp [pending, hempty, hrest, bitsOf]
        have hzeros : pending value widths
            { state with bufferIn := 0, remainingBits := missing } =
              List.replicate missing false := by
          simp [pending, hrest, bitsOf_zero]
        rw [reload, if_pos hempty, if_pos hend]
        refine ⟨_, rfl, hmissing, ?_, hready.derefs, hready.ended, rfl, Or.inr hend, ?_, ?_⟩
        · simpa using widths.bitsIn_pos
        · simp [hzeros, hpending, padded]
        · simp [hzeros, hpending]
      · have hlt := hready.remaining_lt
        rw [reload, if_neg hempty]
        exact ⟨state, rfl, by omega, by omega, hready.derefs, hready.ended, rfl, hsupplies,
          rfl, rfl⟩
  | false =>
      have hlength := hsupplies.resolve_right (by simp [hend])
      have hne : pending value widths state ≠ [] := by
        apply List.ne_nil_of_length_pos
        omega
      obtain ⟨loaded, hload, hpos, hle, hderefs, hloaded, hpending⟩ :=
        reload_of_pending missing hready hend hne
      refine ⟨loaded, hload, hpos, by omega, hderefs, ?_, hloaded.trans hend.symm, ?_, ?_, ?_⟩
      · intro htrue
        simp [hloaded] at htrue
      · rw [Supplies, hpending]
        exact Or.inl hlength
      · rw [hpending]
      · rw [hpending]

/-- The loop yields the next bits, and what is pending loses them. -/
theorem fillFrom_spec {fuel missing out : ℕ} {state : Repacker Item}
    (hready : Ready value widths deref state) (hfuel : missing ≤ fuel)
    (hmissing : 0 < missing) (hbyte : missing ≤ 8) (hout : out < 2 ^ (8 - missing))
    (hsupplies : Supplies value widths missing state) :
    ∃ after, fillFrom widths deref fuel missing out state =
        .ok (out * 2 ^ missing + ofBits (padded missing (pending value widths state)), after) ∧
      Ready value widths deref after ∧
      after.endOfSequence = state.endOfSequence ∧
      pending value widths after = (pending value widths state).drop missing := by
  induction fuel generalizing missing out state with
  | zero => omega
  | succ fuel ih =>
      obtain ⟨loaded, hload, hloaded⟩ := reload_spec hready hmissing hsupplies
      have hremaining := hloaded.remaining_pos
      obtain ⟨count, hcount⟩ : ∃ count, count = min missing loaded.remainingBits := ⟨_, rfl⟩
      have hle : count ≤ missing := hcount ▸ Nat.min_le_left _ _
      have hleRemaining : count ≤ loaded.remainingBits := hcount ▸ Nat.min_le_right _ _
      have hlePending : count ≤ (pending value widths loaded).length := by
        rw [length_pending]
        omega
      -- the bits that this round yields
      obtain ⟨part, hpart⟩ : ∃ part, part = ofBits ((pending value widths loaded).take count) :=
        ⟨_, rfl⟩
      have hpartLt : part < 2 ^ count := by
        have hlt := ofBits_lt ((pending value widths loaded).take count)
        rwa [List.length_take, Nat.min_eq_left hlePending, ← hpart] at hlt
      have hnext : out * 2 ^ count + part < 2 ^ (8 - (missing - count)) := by
        calc
          out * 2 ^ count + part < out * 2 ^ count + 2 ^ count := by omega
          _ = (out + 1) * 2 ^ count := by ring
          _ ≤ 2 ^ (8 - missing) * 2 ^ count := Nat.mul_le_mul_right _ hout
          _ = 2 ^ (8 - (missing - count)) := by
              rw [← Nat.pow_add]
              congr 1
              omega
      have happend : appendBits out count part = out * 2 ^ count + part := by
        apply appendBits_eq hpartLt
        exact Nat.lt_of_lt_of_le hnext (Nat.pow_le_pow_right (by omega) (Nat.sub_le _ _))
      have hsplit := padded_split hle hlePending
      have hshift := pending_drop value widths hleRemaining
      have hready' : Ready value widths deref
          { loaded with remainingBits := loaded.remainingBits - count } :=
        ⟨hcount ▸ hloaded.remaining_lt, hloaded.derefs, hloaded.ended⟩
      rw [fillFrom, hload]
      simp only [← hcount, part_eq value widths hleRemaining, ← hpart, happend]
      by_cases hmore : 0 < missing - count
      · have hsupplies' : Supplies value widths (missing - count)
            { loaded with remainingBits := loaded.remainingBits - count } := by
          rw [Supplies, hshift, List.length_drop]
          exact hloaded.supplies.imp_left fun hlength => Nat.sub_le_sub_right hlength _
        obtain ⟨after, hafter, hreadyAfter, hend, hpending⟩ :=
          ih hready' (by omega) hmore (by omega) hnext hsupplies'
        rw [if_pos hmore, hafter]
        refine ⟨after, ?_, hreadyAfter, hend.trans hloaded.end_eq, ?_⟩
        · have hpow : 2 ^ missing = 2 ^ count * 2 ^ (missing - count) := by
            rw [← Nat.pow_add, Nat.add_sub_cancel' hle]
          rw [← hloaded.padded_eq, hsplit, ofBits_append, ← hpart, length_padded, hshift, hpow]
          congr 2
          ring
        · rw [hpending, hshift, List.drop_drop, Nat.add_sub_cancel' hle, hloaded.drop_eq]
      · have hall : count = missing := by omega
        subst hall
        rw [if_neg hmore]
        refine ⟨_, ?_, hready', hloaded.end_eq, ?_⟩
        · rw [← hloaded.padded_eq, padded_of_le hlePending, ← hpart]
        · rw [hshift, hloaded.drop_eq]

/-- A dereference yields the next bits of the stream. -/
theorem fill_spec {state : Repacker Item} (hready : Ready value widths deref state)
    (hsupplies : Supplies value widths widths.bitsOut state) :
    ∃ after, fill widths deref state =
        .ok (ofBits (padded widths.bitsOut (pending value widths state)), after) ∧
      Ready value widths deref after ∧
      after.endOfSequence = state.endOfSequence ∧
      pending value widths after = (pending value widths state).drop widths.bitsOut := by
  have hfill := fillFrom_spec hready (Nat.le_refl widths.bitsOut) widths.bitsOut_pos
    widths.bitsOut_le (Nat.two_pow_pos _) hsupplies
  rwa [Nat.zero_mul, Nat.zero_add] at hfill

/-- A loop that needs more bits than there are runs into the end of the input. -/
theorem fillFrom_pastEnd {fuel missing out : ℕ} {state : Repacker Item}
    (hready : Ready value widths deref state) (hend : state.endOfSequence = false)
    (hfuel : missing ≤ fuel) (hshort : (pending value widths state).length < missing) :
    fillFrom widths deref fuel missing out state = .error .pastEnd := by
  induction fuel generalizing missing out state with
  | zero => omega
  | succ fuel ih =>
      by_cases hpending : pending value widths state = []
      · have hlength := length_pending value widths state
        rw [hpending, List.length_nil] at hlength
        have hempty : state.remainingBits = 0 := by omega
        have hrest : state.rest = [] := by
          apply List.eq_nil_of_length_eq_zero
          have hproduct : state.rest.length * widths.bitsIn = 0 := by omega
          exact (Nat.mul_eq_zero.1 hproduct).resolve_right (Nat.ne_of_gt widths.bitsIn_pos)
        simp [fillFrom, reload, hempty, hend, hrest]
      · obtain ⟨loaded, hload, hpos, hle, hderefs, hloaded, hsame⟩ :=
          reload_of_pending missing hready hend hpending
        obtain ⟨count, hcount⟩ : ∃ count, count = min missing loaded.remainingBits := ⟨_, rfl⟩
        have hleRemaining : count ≤ loaded.remainingBits := hcount ▸ Nat.min_le_right _ _
        have hremaining : loaded.remainingBits ≤ (pending value widths loaded).length := by
          rw [length_pending]
          exact Nat.le_add_right _ _
        rw [hsame] at hremaining
        have hready' : Ready value widths deref
            { loaded with remainingBits := loaded.remainingBits - count } :=
          ⟨by simp only; omega, hderefs, fun htrue => by simp [hloaded] at htrue⟩
        have hmore : 0 < missing - count := by omega
        rw [fillFrom, hload]
        simp only [← hcount, if_pos hmore]
        apply ih hready' hloaded (by omega)
        rw [pending_drop value widths hleRemaining, hsame, List.length_drop]
        omega

/-! ## Copying -/

/-- A narrowing adaptor yields all bits and fills the last group. -/
theorem copyFrom_filled (hnarrow : widths.bitsOut < widths.bitsIn) {fuel : ℕ}
    {state : Repacker Item} (hready : Ready value widths deref state)
    (hfuel : (pending value widths state).length < fuel) :
    copyFrom widths deref fuel state =
      .ok (filledGroups widths.bitsOut (pending value widths state)) := by
  induction fuel generalizing state with
  | zero => omega
  | succ fuel ih =>
      have hnot : ¬widths.bitsIn < widths.bitsOut := Nat.not_lt.2 (Nat.le_of_lt hnarrow)
      have hround : ∀ round : Repacker Item, Ready value widths deref round →
          Supplies value widths widths.bitsOut round →
          pending value widths round = pending value widths state →
          pending value widths state ≠ [] →
          (match fill widths deref round with
            | .error failure => .error failure
            | .ok (out, after) => (copyFrom widths deref fuel after).map (out :: ·)) =
          Except.ok (filledGroups widths.bitsOut (pending value widths state)) := by
        intro round hready hsupplies hsame hne
        obtain ⟨after, hfill, hafter, _, hpending⟩ := fill_spec hready hsupplies
        have hpos := List.length_pos_of_ne_nil hne
        have hbits := widths.bitsOut_pos
        rw [hsame] at hfill hpending
        simp only [hfill]
        rw [ih hafter (by rw [hpending, List.length_drop]; omega), hpending,
          filledGroups_of_ne_nil hbits hne]
        rfl
      rw [copyFrom, atEnd, if_neg hnot]
      cases hrest : state.rest with
      | nil =>
          by_cases hempty : state.remainingBits = 0
          · have hpending : pending value widths state = [] := by
              simp [pending, hempty, hrest, bitsOf]
            simp [hempty, hpending]
          · have hne : pending value widths state ≠ [] := by
              apply List.ne_nil_of_length_pos
              rw [length_pending]
              omega
            simp only [List.isEmpty_nil, if_true, beq_eq_false_iff_ne.2 hempty]
            exact hround _ ⟨hready.remaining_lt, by simp, fun _ => rfl⟩ (Or.inr rfl)
              (by rw [pending, pending, hrest]) hne
      | cons item rest =>
          have hlength : widths.bitsIn ≤ (pending value widths state).length := by
            rw [length_pending, hrest, List.length_cons, Nat.succ_mul]
            omega
          have hin := widths.bitsIn_pos
          simp only [List.isEmpty_cons, Bool.false_eq_true, if_false]
          exact hround state hready (Or.inl (by omega)) rfl
            (List.ne_nil_of_length_pos (by omega))

/-- A widening adaptor yields the complete groups, provided that what is left
over is less than an input. -/
theorem copyFrom_complete (hwiden : widths.bitsIn < widths.bitsOut) {fuel : ℕ}
    {state : Repacker Item} (hready : Ready value widths deref state)
    (hfuel : (pending value widths state).length < fuel)
    (hleft : (pending value widths state).length % widths.bitsOut < widths.bitsIn) :
    copyFrom widths deref fuel state =
      .ok (groups widths.bitsOut (pending value widths state)) := by
  induction fuel generalizing state with
  | zero => omega
  | succ fuel ih =>
      rw [copyFrom, atEnd, if_pos hwiden]
      have hlength := length_pending value widths state
      cases hrest : state.rest with
      | nil =>
          have hremaining := hready.remaining_lt
          rw [hrest, List.length_nil, Nat.zero_mul, Nat.add_zero] at hlength
          rw [groups_of_lt (by omega)]
          rfl
      | cons item rest =>
          have hin : widths.bitsIn ≤ (pending value widths state).length := by
            rw [hlength, hrest, List.length_cons, Nat.succ_mul]
            omega
          have hout : widths.bitsOut ≤ (pending value widths state).length := by
            by_contra hshort
            rw [Nat.mod_eq_of_lt (Nat.lt_of_not_le hshort)] at hleft
            omega
          obtain ⟨after, hfill, hafter, _, hpending⟩ := fill_spec hready (Or.inl hout)
          have hbits := widths.bitsOut_pos
          have hmod : (pending value widths after).length % widths.bitsOut <
              widths.bitsIn := by
            rwa [hpending, List.length_drop, ← Nat.mod_eq_sub_mod hout]
          simp only [List.isEmpty_cons, hfill]
          rw [ih hafter (by rw [hpending, List.length_drop]; omega) hmod, hpending,
            padded_of_le hout, groups_of_le hbits hout]
          rfl

/-- A widening adaptor runs into the end of the input when an input is left over that
does not make up an output. -/
theorem copyFrom_pastEnd (hwiden : widths.bitsIn < widths.bitsOut) {fuel : ℕ}
    {state : Repacker Item} (hready : Ready value widths deref state)
    (hend : state.endOfSequence = false)
    (hfuel : (pending value widths state).length < fuel)
    (hleft : widths.bitsIn ≤ (pending value widths state).length % widths.bitsOut) :
    copyFrom widths deref fuel state = .error .pastEnd := by
  induction fuel generalizing state with
  | zero => omega
  | succ fuel ih =>
      have hlength := length_pending value widths state
      have hmod := Nat.mod_le (pending value widths state).length widths.bitsOut
      obtain ⟨item, rest, hrest⟩ : ∃ item rest, state.rest = item :: rest := by
        apply List.exists_cons_of_ne_nil
        intro hnil
        have hremaining := hready.remaining_lt
        rw [hnil, List.length_nil, Nat.zero_mul] at hlength
        omega
      simp only [copyFrom, atEnd, if_pos hwiden, hrest, List.isEmpty_cons]
      by_cases hout : widths.bitsOut ≤ (pending value widths state).length
      · obtain ⟨after, hfill, hafter, hendAfter, hpending⟩ := fill_spec hready (Or.inl hout)
        have hbits := widths.bitsOut_pos
        simp only [hfill]
        rw [ih hafter (hendAfter.trans hend)]
        · rfl
        · rw [hpending, List.length_drop]
          omega
        · rwa [hpending, List.length_drop, ← Nat.mod_eq_sub_mod hout]
      · rw [fill, fillFrom_pastEnd hready hend (Nat.le_refl _) (Nat.lt_of_not_le hout)]

section Copy

variable {items : List Item} (hderef : ∀ item ∈ items, deref item = .ok (value item))

include hderef

theorem copy_filled (hnarrow : widths.bitsOut < widths.bitsIn) :
    copy widths deref items =
      .ok (filledGroups widths.bitsOut
        (items.flatMap fun item => bitsOf widths.bitsIn (value item))) := by
  apply copyFrom_filled hnarrow (ready_start hderef)
  rw [length_pending_start]
  exact Nat.lt_succ_self _

theorem copy_complete (hwiden : widths.bitsIn < widths.bitsOut)
    (hleft : items.length * widths.bitsIn % widths.bitsOut < widths.bitsIn) :
    copy widths deref items =
      .ok (groups widths.bitsOut
        (items.flatMap fun item => bitsOf widths.bitsIn (value item))) := by
  apply copyFrom_complete hwiden (ready_start hderef)
  · rw [length_pending_start]
    exact Nat.lt_succ_self _
  · rwa [length_pending_start]

theorem copy_pastEnd (hwiden : widths.bitsIn < widths.bitsOut)
    (hleft : widths.bitsIn ≤ items.length * widths.bitsIn % widths.bitsOut) :
    copy widths deref items = .error .pastEnd := by
  apply copyFrom_pastEnd hwiden (ready_start hderef) rfl
  · rw [length_pending_start]
    exact Nat.lt_succ_self _
  · rwa [length_pending_start]

end Copy

end Pending

end Nstl.Repack
