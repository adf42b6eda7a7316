import Mathlib.Data.List.DropRight
import Nstl.Core.ByteString

/-!
# Trimming and comparing without case

`std::isspace` and `std::tolower` take an `int` and are defined for `EOF` and for the
values of `unsigned char`.  A `char` that is passed to them is promoted, with its sign:
`is_space_ch` converts it to an unsigned character before, `iequal` does not.

The functions below yield, next to their result, what they passed to the classification
functions, in the order of the calls.
-/

namespace Nstl.Classification

open Nstl.ByteString

/-- The promotion of a signed `char`. -/
def promote (ch : Byte) : ℤ := if ch.toNat < 128 then ch.toNat else ch.toNat - 256

/-- The conversion to `unsigned char` before the promotion. -/
def promoteUnsigned (ch : Byte) : ℤ := ch.toNat

/-- The values of `unsigned char`. -/
def InRange (argument : ℤ) : Prop := 0 ≤ argument ∧ argument ≤ 255

instance : DecidablePred InRange := fun _ => inferInstanceAs (Decidable (_ ∧ _))

/-! ## Trimming -/

section Trim

variable (isspace : ℤ → Bool)

def isSpaceCh (ch : Byte) : Bool := isspace (promoteUnsigned ch)

def leftTrimView : Bytes → Bytes × List ℤ
  | [] => ([], [])
  | front :: view =>
      if isSpaceCh isspace front then
        let (trimmed, arguments) := leftTrimView view
        (trimmed, promoteUnsigned front :: arguments)
      else (front :: view, [promoteUnsigned front])

/-- `right_trim_view` on the first `size` characters of a view. -/
def rightTrimLoop (view : Bytes) : ℕ → Bytes × List ℤ
  | 0 => ([], [])
  | size + 1 =>
      let back := view.getD size 0
      if isSpaceCh isspace back then
        let (trimmed, arguments) := rightTrimLoop view size
        (trimmed, promoteUnsigned back :: arguments)
      else (view.take (size + 1), [promoteUnsigned back])

def rightTrimView (view : Bytes) : Bytes × List ℤ := rightTrimLoop isspace view view.length

def trimView (view : Bytes) : Bytes × List ℤ :=
  let (trimmedLeft, first) := leftTrimView isspace view
  let (trimmed, second) := rightTrimView isspace trimmedLeft
  (trimmed, first ++ second)

theorem inRange_promoteUnsigned (ch : Byte) : InRange (promoteUnsigned ch) := by
  have hlt := ch.toNat_lt
  rw [promoteUnsigned]
  exact ⟨by omega, by omega⟩

theorem leftTrimView_result (view : Bytes) :
    (leftTrimView isspace view).1 = view.dropWhile (isSpaceCh isspace) := by
  induction view with
  | nil => rfl
  | cons front view ih =>
      rw [leftTrimView, List.dropWhile_cons]
      split
      · exact ih
      · rfl

theorem leftTrimView_inRange (view : Bytes) :
    ∀ argument ∈ (leftTrimView isspace view).2, InRange argument := by
  induction view with
  | nil => simp [leftTrimView]
  | cons front view ih =>
      rw [leftTrimView]
      split
      · exact List.forall_mem_cons.2 ⟨inRange_promoteUnsigned front, ih⟩
      · exact List.forall_mem_singleton.2 (inRange_promoteUnsigned front)

theorem rightTrimLoop_result {view : Bytes} {size : ℕ} (hsize : size ≤ view.length) :
    (rightTrimLoop isspace view size).1 = (view.take size).rdropWhile (isSpaceCh isspace) := by
  induction size with
  | zero => simp [rightTrimLoop]
  | succ size ih =>
      have hlast : view.take (size + 1) = view.take size ++ [view.getD size 0] := by
        rw [List.take_add_one, List.getD_eq_getElem?_getD, List.getElem?_eq_getElem hsize]
        rfl
      rw [rightTrimLoop, hlast, List.rdropWhile_concat]
      split
      · exact ih (Nat.le_of_succ_le hsize)
      · rfl

theorem rightTrimView_result (view : Bytes) :
    (rightTrimView isspace view).1 = view.rdropWhile (isSpaceCh isspace) := by
  rw [rightTrimView, rightTrimLoop_result isspace le_rfl, List.take_length]

theorem rightTrimLoop_inRange (view : Bytes) (size : ℕ) :
    ∀ argument ∈ (rightTrimLoop isspace view size).2, InRange argument := by
  induction size with
  | zero => simp [rightTrimLoop]
  | succ size ih =>
      rw [rightTrimLoop]
      split
      · exact List.forall_mem_cons.2 ⟨inRange_promoteUnsigned _, ih⟩
      · exact List.forall_mem_singleton.2 (inRange_promoteUnsigned _)

theorem trimView_inRange (view : Bytes) :
    ∀ argument ∈ (trimView isspace view).2, InRange argument :=
  List.forall_mem_append.2 ⟨leftTrimView_inRange isspace view,
    rightTrimLoop_inRange isspace _ _⟩

end Trim

/-! ## Comparing -/

section Compare

variable (tolower : ℤ → ℤ)

/-- The loop of `iequal`, over what is left of the views. -/
def iequalLoop : Bytes → Bytes → Bool × List ℤ
  | left :: lefts, right :: rights =>
      if tolower (promote left) ≠ tolower (promote right) then
        (false, [promote left, promote right])
      else
        let (result, arguments) := iequalLoop lefts rights
        (result, promote left :: promote right :: arguments)
  | _, _ => (true, [])

def iequal (left right : Bytes) : Bool × List ℤ :=
  if left.length ≠ right.length then (false, []) else iequalLoop tolower left right

/-- A string as `tolower` sees it. -/
def lowered (view : Bytes) : List ℤ := view.map fun ch => tolower (promote ch)

theorem iequalLoop_result {left right : Bytes} (hlength : left.length = right.length) :
    (iequalLoop tolower left right).1 = true ↔ lowered tolower left = lowered tolower right := by
  induction left generalizing right with
  | nil =>
      obtain rfl := List.length_eq_zero_iff.1 hlength.symm
      exact iff_of_true rfl rfl
  | cons first left ih =>
      obtain ⟨second, right, rfl⟩ := List.exists_cons_of_length_eq_add_one hlength.symm
      have hrest := ih (Nat.succ.inj hlength)
      rw [iequalLoop, lowered, lowered, List.map_cons, List.map_cons, List.cons.injEq]
      split
      next hne => exact iff_of_false Bool.false_ne_true fun heq => hne heq.1
      next heq => exact hrest.trans (and_iff_right (not_not.1 heq)).symm

/-- `iequal` compares the strings as `tolower` sees them. -/
theorem iequal_iff (left right : Bytes) :
    (iequal tolower left right).1 = true ↔ lowered tolower left = lowered tolower right := by
  rw [iequal]
  split
  next hlength =>
    refine iff_of_false Bool.false_ne_true fun heq => hlength ?_
    simpa [lowered] using congrArg List.length heq
  next hlength => exact iequalLoop_result tolower (not_not.1 hlength)

theorem iequal_equivalence :
    Equivalence fun left right => (iequal tolower left right).1 = true where
  refl view := (iequal_iff tolower view view).2 rfl
  symm hequal := (iequal_iff tolower _ _).2 ((iequal_iff tolower _ _).1 hequal).symm
  trans hfirst hsecond := (iequal_iff tolower _ _).2
    (((iequal_iff tolower _ _).1 hfirst).trans ((iequal_iff tolower _ _).1 hsecond))

/-- The loop passes on the characters at a position as long as everything before is
equal. -/
theorem mem_iequalLoop_iff {left right : Bytes} {argument : ℤ} :
    argument ∈ (iequalLoop tolower left right).2 ↔
      ∃ idx first second, left[idx]? = some first ∧ right[idx]? = some second ∧
        lowered tolower (left.take idx) = lowered tolower (right.take idx) ∧
        (argument = promote first ∨ argument = promote second) := by
  induction left generalizing right with
  | nil => simp [iequalLoop]
  | cons head left ih =>
      cases right with
      | nil => simp [iequalLoop]
      | cons other right =>
          rw [iequalLoop, ← Nat.or_exists_add_one]
          split
          next hne => simp [lowered, hne]
          next heq => simp [lowered, not_not.1 heq, ih, or_assoc]

theorem inRange_promote_iff (ch : Byte) : InRange (promote ch) ↔ ch.toNat < 128 := by
  have hlt := ch.toNat_lt
  rw [InRange, promote]
  split <;> omega

/-- The characters that `iequal` comes to see are those of US-ASCII. -/
def SeesAscii (left right : Bytes) : Prop :=
  ∀ idx first second, left[idx]? = some first → right[idx]? = some second →
    lowered tolower (left.take idx) = lowered tolower (right.take idx) →
    first.toNat < 128 ∧ second.toNat < 128

theorem iequalLoop_inRange_iff (left right : Bytes) :
    (∀ argument ∈ (iequalLoop tolower left right).2, InRange argument) ↔
      SeesAscii tolower left right := by
  simp only [SeesAscii, ← inRange_promote_iff]
  constructor
  · intro hall idx first second hfirst hsecond hequal
    exact ⟨hall _ ((mem_iequalLoop_iff tolower).2
        ⟨idx, first, second, hfirst, hsecond, hequal, Or.inl rfl⟩),
      hall _ ((mem_iequalLoop_iff tolower).2
        ⟨idx, first, second, hfirst, hsecond, hequal, Or.inr rfl⟩)⟩
  · intro hsees argument hargument
    obtain ⟨idx, first, second, hfirst, hsecond, hequal, hvalue⟩ :=
      (mem_iequalLoop_iff tolower).1 hargument
    obtain ⟨hleft, hright⟩ := hsees idx first second hfirst hsecond hequal
    rcases hvalue with rfl | rfl
    · exact hleft
    · exact hright

theorem iequal_inRange_iff (left right : Bytes) :
    (∀ argument ∈ (iequal tolower left right).2, InRange argument) ↔
      (left.length = right.length → SeesAscii tolower left right) := by
  rw [iequal, ← iequalLoop_inRange_iff]
  split
  next hlength => simp [hlength]
  next hlength => simp [not_not.1 hlength]

end Compare

/-- Trimming calls `isspace` in its domain.  `iequal` is an equivalence relation,
whatever `tolower` does, but it calls it in its domain only if the strings differ in
length, or have only characters of US-ASCII up to the first difference. -/
theorem classification_in_domain_iff (isspace : ℤ → Bool) (tolower : ℤ → ℤ) :
    (∀ left right, (∀ argument ∈ (iequal tolower left right).2, InRange argument) ↔
      (left.length = right.length → SeesAscii tolower left right)) ∧
    (∀ view, (∀ argument ∈ (leftTrimView isspace view).2, InRange argument) ∧
      (∀ argument ∈ (rightTrimView isspace view).2, InRange argument) ∧
      ∀ argument ∈ (trimView isspace view).2, InRange argument) ∧
    Equivalence fun left right => (iequal tolower left right).1 = true :=
  ⟨iequal_inRange_iff tolower,
    fun view => ⟨leftTrimView_inRange isspace view, rightTrimLoop_inRange isspace view _,
      trimView_inRange isspace view⟩,
    iequal_equivalence tolower⟩

/-! ## The zone of the log -/

/-- The zones that `_parse_zone` can ask for; the null pointer stands for UTC. -/
inductive LogZone where
  | current
  | utc
  | located (name : Bytes)
  deriving DecidableEq

/-- The letters `utc`. -/
def utcView : Bytes := [117, 116, 99]

/-- `LogTimeZone::_parse_zone`, with what is passed to `tolower`. -/
def parseZone (tolower : ℤ → ℤ) (zone : Bytes) : LogZone × List ℤ :=
  if zone.isEmpty then (.current, [])
  else
    let (isUtc, arguments) := iequal tolower zone utcView
    (if isUtc then .utc else .located zone, arguments)

/-- `tolower` of the C locale. -/
def tolowerC (ch : ℤ) : ℤ := if 65 ≤ ch ∧ ch ≤ 90 then ch + 32 else ch

example : (parseZone tolowerC [85, 84, 67]).1 = .utc := by decide

/-- A name of three characters whose first one is not of US-ASCII passes a negative
number to `tolower`, and so do two equal strings. -/
theorem tolower_out_of_domain :
    (parseZone tolowerC [228, 116, 99]).2 = [-28, 117] ∧ ¬InRange (-28) ∧
      (iequal tolowerC [128] [128]).2 = [-128, -128] ∧ ¬InRange (-128) := by
  decide

end Nstl.Classification
