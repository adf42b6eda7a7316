import Mathlib.Data.List.Count
import Mathlib.Data.List.Perm.Basic
import Nstl.Core.ByteString

/-!
# Taking a flag out of `argv`

`is_arg_set` removes every argument that equals a flag from an array of pointers,
in place: what follows a match is moved down by one, the match is parked in the
place that becomes free at the end, and both the bound and the index step back.
At any moment the array is made of four parts: the arguments kept so far, those
not yet looked at, the matches parked behind them and whatever lies beyond.  One
round moves the first of the unscanned arguments into the first or the third part.
-/

namespace Nstl.ArgsEditor

open Nstl.ByteString

/-! ## Strings and their comparison -/

/-- The characters a `const char*` points to, in front of the terminator. -/
structure CStr where
  chars : Bytes
  nul_notMem : nul ∉ chars

/-- `ptr[0]`. -/
def CStr.front (str : CStr) : Byte :=
  str.chars.headD nul

@[simp]
theorem CStr.front_eq_nul_iff (str : CStr) : str.front = nul ↔ str.chars = [] := by
  obtain ⟨chars, hnul⟩ := str
  cases chars with
  | nil => simp [front]
  | cons ch chars =>
      simpa [front] using fun heq : ch = nul => hnul (heq ▸ List.mem_cons_self)

/-- `std::strcmp` on the characters in front of the terminators: the difference of the
first two that differ. -/
def strcmpChars : Bytes → Bytes → ℤ
  | [], [] => 0
  | [], right :: _ => nul.toNat - right.toNat
  | left :: _, [] => left.toNat - nul.toNat
  | left :: lefts, right :: rights =>
      if left = right then strcmpChars lefts rights else left.toNat - right.toNat

theorem sub_toNat_eq_zero_iff (left right : Byte) :
    (left.toNat : ℤ) - right.toNat = 0 ↔ left = right := by
  rw [← UInt8.toNat_inj]
  omega

/-- On strings without a terminator inside, only equal ones compare equal. -/
theorem strcmpChars_eq_zero_iff {left right : Bytes} (hleft : nul ∉ left)
    (hright : nul ∉ right) : strcmpChars left right = 0 ↔ left = right := by
  fun_induction strcmpChars left right with
  | case1 => simp
  | case2 ch right =>
      rw [sub_toNat_eq_zero_iff]
      simpa using fun heq : nul = ch => hright (heq ▸ List.mem_cons_self)
  | case3 ch left =>
      rw [sub_toNat_eq_zero_iff]
      simpa using fun heq : ch = nul => hleft (heq ▸ List.mem_cons_self)
  | case4 left ch right ih =>
      simp only [List.mem_cons, not_or] at hleft hright
      rw [ih hleft.2 hright.2, List.cons_inj_right]
  | case5 ch left other right hne =>
      rw [sub_toNat_eq_zero_iff, List.cons.injEq]
      exact iff_of_false hne fun heq => hne heq.1

section Pointers

variable {Pointer : Type*} (text : Pointer → CStr)

/-- `nstl::strcmp`, which accepts null pointers. -/
def strcmp : Option Pointer → Option Pointer → ℤ
  | some left, some right => strcmpChars (text left).chars (text right).chars
  | some _, none => -1
  | none, some _ => 1
  | none, none => 0

/-- The entry points to the same text as the flag. -/
def isFlag (value : Pointer) (entry : Option Pointer) : Bool :=
  entry.any fun ptr => (text ptr).chars = (text value).chars

theorem strcmp_eq_zero_iff (value : Pointer) (entry : Option Pointer) :
    strcmp text (some value) entry = 0 ↔ isFlag text value entry = true := by
  cases entry with
  | none => simp [strcmp, isFlag]
  | some ptr =>
      rw [strcmp, strcmpChars_eq_zero_iff (text value).nul_notMem (text ptr).nul_notMem]
      simp [isFlag, eq_comm]

end Pointers

/-! ## The array -/

inductive ArgsError where
  /-- `argc_ is negative` -/
  | argcNegative
  /-- `argv_ is nullptr` -/
  | argvNull
  /-- `value_ is nullptr or empty` -/
  | valueEmpty
  /-- Not an exception: an access outside the array. -/
  | outside
  deriving DecidableEq, Repr

section Array

variable {Cell : Type*}

/-- `argv_[idx]` read. -/
def readCell (argv : List Cell) (idx : ℤ) : Except ArgsError Cell :=
  match (if 0 ≤ idx then argv[idx.toNat]? else none) with
  | some cell => .ok cell
  | none => .error .outside

/-- `argv_[idx]` written. -/
def writeCell (argv : List Cell) (idx : ℤ) (cell : Cell) : Except ArgsError (List Cell) :=
  if 0 ≤ idx ∧ idx.toNat < argv.length then
    .ok (argv.set idx.toNat cell)
  else
    .error .outside

/-- `std::memmove` between two places of the array; the two ranges may overlap. -/
def memmove (argv : List Cell) (dest src count : ℤ) : Except ArgsError (List Cell) :=
  if 0 ≤ dest ∧ 0 ≤ src ∧ 0 ≤ count ∧ (dest + count).toNat ≤ argv.length ∧
      (src + count).toNat ≤ argv.length then
    .ok (argv.take dest.toNat ++ (argv.drop src.toNat).take count.toNat ++
      argv.drop (dest + count).toNat)
  else
    .error .outside

/-- Moving down what follows the entry at `idx` and parking the entry at the end. -/
def park (argv : List Cell) (idx argc : ℤ) (cell : Cell) : Except ArgsError (List Cell) :=
  let lastIdx := argc - 1
  if idx < lastIdx then
    let moveSize := lastIdx - idx
    match memmove argv idx (idx + 1) moveSize with
    | .ok moved => writeCell moved lastIdx cell
    | .error error => .error error
  else
    .ok argv

theorem readCell_append (front : List Cell) (cell : Cell) (rest : List Cell) :
    readCell (front ++ cell :: rest) front.length = .ok cell := by
  simp [readCell]

theorem memmove_append (front : List Cell) (cell : Cell) (others rest : List Cell) :
    ∃ last, memmove (front ++ cell :: (others ++ rest)) front.length (front.length + 1)
      others.length = .ok (front ++ others ++ last :: rest) := by
  -- The last entry of the range moved is not overwritten: it stands there twice.
  obtain ⟨last, hlast⟩ : ∃ last, (cell :: others).drop others.length = [last] := by
    rw [← List.length_eq_one_iff, List.length_drop, List.length_cons]
    omega
  have hdrop : (front ++ cell :: (others ++ rest)).drop (front.length + others.length) =
      last :: rest := by
    rw [List.drop_length_add_append, ← List.cons_append,
      List.drop_append_of_le_length (by simp), hlast, List.singleton_append]
  have hmoved : ((front ++ cell :: (others ++ rest)).drop (front.length + 1)).take
      others.length = others := by
    rw [List.drop_length_add_append, List.drop_one, List.tail_cons, List.take_left]
  refine ⟨last, ?_⟩
  rw [memmove, if_pos (by simp; omega)]
  have hsum : ((front.length : ℤ) + others.length).toNat = front.length + others.length := by
    omega
  have hsucc : ((front.length : ℤ) + 1).toNat = front.length + 1 := by omega
  rw [hsum, hsucc, Int.toNat_natCast, Int.toNat_natCast, hdrop, hmoved, List.take_left]

theorem writeCell_append (front : List Cell) (last cell : Cell) (rest : List Cell) :
    writeCell (front ++ last :: rest) front.length cell = .ok (front ++ cell :: rest) := by
  simp [writeCell]

theorem park_append (front : List Cell) (cell : Cell) (others rest : List Cell) :
    park (front ++ cell :: (others ++ rest)) front.length (front.length + (others.length + 1))
      cell = .ok (front ++ (others ++ cell :: rest)) := by
  have hlast : (front.length : ℤ) + (others.length + 1) - 1 = (front ++ others).length := by
    rw [List.length_append]
    omega
  have hsize : ((front ++ others).length : ℤ) - front.length = others.length := by
    rw [List.length_append]
    omega
  obtain ⟨last, hmoved⟩ := memmove_append front cell others rest
  simp only [park, hlast, hsize, hmoved, writeCell_append]
  split
  next => rw [List.append_assoc]
  next hend =>
    -- The entry is the last one: nothing follows that could be moved.
    obtain rfl : others = [] := by
      rw [List.length_append] at hend
      exact List.length_eq_zero_iff.1 (by omega)
    rfl

end Array

section IsArgSet

variable {Pointer : Type*} (text : Pointer → CStr)

/-- The loop of `is_arg_set`. -/
def argLoop (value : Pointer) (argv : List (Option Pointer)) (argc idx : ℤ) (found : Bool) :
    Except ArgsError (Bool × ℤ × List (Option Pointer)) :=
  if idx < argc then
    match readCell argv idx with
    | .error error => .error error
    | .ok ptrval =>
        if strcmp text (some value) ptrval = 0 then
          match park argv idx argc ptrval with
          | .error error => .error error
          -- `--argc_` and `--idx`, which the step of the loop undoes for the index
          | .ok argv => argLoop value argv (argc - 1) (idx - 1 + 1) true
        else
          argLoop value argv argc (idx + 1) found
  else
    .ok (found, argc, argv)
termination_by (argc - idx).toNat
decreasing_by all_goals omega

/-- `is_arg_set`: the result, with `argc_` and the array as they are afterwards. -/
def isArgSet (argc : ℤ) (argv : Option (List (Option Pointer))) (value : Option Pointer) :
    Except ArgsError (Bool × ℤ × List (Option Pointer)) :=
  if argc < 0 then
    .error .argcNegative
  else
    match argv, value with
    | none, _ => .error .argvNull
    | some _, none => .error .valueEmpty
    | some argv, some value =>
        if (text value).front = nul then
          .error .valueEmpty
        else
          argLoop text value argv argc 0 false

/-- One round on a match: the entry leaves the unscanned part for the parked one. -/
theorem argLoop_match {value : Pointer} {entry : Option Pointer}
    (hflag : isFlag text value entry = true) (front others rest : List (Option Pointer))
    (found : Bool) :
    argLoop text value (front ++ entry :: (others ++ rest))
        (front.length + (others.length + 1)) front.length found =
      argLoop text value (front ++ (others ++ entry :: rest))
        (front.length + others.length) front.length true := by
  have hcmp : strcmp text (some value) entry = 0 := (strcmp_eq_zero_iff text value entry).2 hflag
  rw [argLoop, if_pos (by omega)]
  simp only [readCell_append, hcmp, if_true, park_append]
  congr 1 <;> omega

/-- One round on any other entry: it joins those kept. -/
theorem argLoop_keep {value : Pointer} {entry : Option Pointer}
    (hother : isFlag text value entry = false) (front others rest : List (Option Pointer))
    (found : Bool) :
    argLoop text value (front ++ entry :: (others ++ rest))
        (front.length + (others.length + 1)) front.length found =
      argLoop text value ((front ++ [entry]) ++ (others ++ rest))
        ((front ++ [entry]).length + others.length) (front ++ [entry]).length found := by
  have hcmp : ¬strcmp text (some value) entry = 0 := by
    rw [strcmp_eq_zero_iff, hother]
    decide
  rw [argLoop, if_pos (by omega)]
  simp only [readCell_append, hcmp, if_false]
  rw [List.append_cons]
  congr 1
  · simp
    omega
  · simp

/-- All rounds: the unscanned entries are divided between the kept and the parked. -/
theorem argLoop_eq (value : Pointer) (front unscanned rest : List (Option Pointer))
    (found : Bool) :
    argLoop text value (front ++ (unscanned ++ rest)) (front.length + unscanned.length)
        front.length found =
      .ok (found || unscanned.any (isFlag text value),
        (front.length : ℤ) + (unscanned.filter fun entry => !isFlag text value entry).length,
        front ++ (unscanned.filter fun entry => !isFlag text value entry) ++
          (unscanned.filter (isFlag text value)).reverse ++ rest) := by
  induction unscanned generalizing front rest found with
  | nil =>
      rw [argLoop, if_neg (by simp)]
      simp
  | cons entry others ih =>
      rw [List.cons_append, List.length_cons, Int.natCast_succ]
      cases hflag : isFlag text value entry with
      | true =>
          rw [argLoop_match text hflag, ih]
          simp [hflag]
      | false =>
          rw [argLoop_keep text hflag, ih]
          simp [hflag]
          omega

end IsArgSet

section Removal

variable {Pointer : Type*}

/-- Flag removal: for every array, with whatever lies behind it, and every non-empty flag,
`is_arg_set` returns; the entries other than the flag are at the front in their order, the
removed ones behind them, nothing else is written, and the result tells whether there was
a match. -/
theorem isArgSet_removes (text : Pointer → CStr) (value : Pointer)
    (hvalue : (text value).chars ≠ []) (argv beyond : List (Option Pointer)) :
    ∃ kept parked : List (Option Pointer),
      isArgSet text argv.length (some (argv ++ beyond)) (some value) =
        .ok (argv.any (isFlag text value), (kept.length : ℤ), kept ++ parked ++ beyond) ∧
      kept = argv.filter (fun entry => !isFlag text value entry) ∧
      parked.Perm (argv.filter (isFlag text value)) ∧
      (kept ++ parked).Perm argv ∧
      kept.length = argv.length - argv.countP (isFlag text value) := by
  refine ⟨argv.filter fun entry => !isFlag text value entry,
    (argv.filter (isFlag text value)).reverse, ?_, rfl, List.reverse_perm _, ?_, ?_⟩
  · rw [isArgSet, if_neg (by omega)]
    simp only [CStr.front_eq_nul_iff, hvalue, if_false]
    simpa using argLoop_eq text value [] argv beyond false
  · have hparked := (List.reverse_perm (argv.filter (isFlag text value))).append_left
      (argv.filter fun entry => !isFlag text value entry)
    exact (hparked.trans List.perm_append_comm).trans (List.filter_append_perm _ argv)
  · have hcount : argv.length = argv.countP (isFlag text value) +
        argv.countP fun entry => !isFlag text value entry := by
      simpa using List.length_eq_countP_add_countP (isFlag text value) (l := argv)
    rw [← List.countP_eq_length_filter, hcount, Nat.add_sub_cancel_left]

/-- The pointers of the source's test, to `item0` … `item3`; only the digit is kept here. -/
def itemText (index : Fin 4) : CStr :=
  ⟨[48 + UInt8.ofNat index], by revert index; decide⟩

theorem isArgSet_removes_item :
    (itemText 1).chars ≠ [] ∧
    ∃ kept parked : List (Option (Fin 4)),
      isArgSet itemText 5 (some [some 1, some 0, none, some 1, some 2, none]) (some 1) =
        .ok (true, (kept.length : ℤ), kept ++ parked ++ [none]) ∧
      kept = [some 0, none, some 2] ∧ parked = [some 1, some 1] := by
  refine ⟨by decide, ?_⟩
  obtain ⟨kept, parked, hset, hkept, hparked, -, -⟩ :=
    isArgSet_removes itemText 1 (by decide) [some 1, some 0, none, some 1, some 2] [none]
  have hkept' : kept = [some 0, none, some 2] := hkept.trans (by decide)
  have hmatches : [some 1, some 0, none, some 1, some 2].filter (isFlag itemText 1) =
      List.replicate 2 (some 1) := by decide
  have hparked' : parked = [some 1, some 1] := List.perm_replicate.1 (hmatches ▸ hparked)
  exact ⟨kept, parked, hset, hkept', hparked'⟩

end Removal

end Nstl.ArgsEditor
