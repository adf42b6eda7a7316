import Mathlib.Data.Int.Notation
import Nstl.Net.RangeText

/-!
# Parsing a whole view

`parse_view` takes a view for a number or a truth value only if `from_chars` has used all of it.
`from_chars` is that of the standard library for the integer types, and reads one of four words
for `bool`.  Floating point numbers are left to the standard library.
-/

namespace Nstl.Parse

open Nstl.ByteString
open Nstl.IpText (isDigit decimalValue)
open Nstl.RangeText (decimalText decimalText_spec)

/-! ## The functions -/

inductive Errc where
  | none
  | invalidArgument
  | outOfRange
  deriving DecidableEq, Repr

/-- `std::from_chars_result`, with the target of the call. -/
structure FromCharsResult (Value : Type*) where
  ptr : ℕ
  ec : Errc
  tgt : Value

/-- "1" and "true" -/
def trueValues : List Bytes := [[49], [116, 114, 117, 101]]

/-- "0" and "false" -/
def falseValues : List Bytes := [[48], [102, 97, 108, 115, 101]]

/-- `nstl::from_chars` for `bool` -/
def fromCharsBool (text : Bytes) (tgt : Bool) : FromCharsResult Bool :=
  match trueValues.find? fun item => item.isPrefixOf text with
  | some item => ⟨item.length, .none, true⟩
  | none =>
      match falseValues.find? fun item => item.isPrefixOf text with
      | some item => ⟨item.length, .none, false⟩
      | none => ⟨0, .invalidArgument, tgt⟩

structure IntType where
  signed : Bool
  bits : ℕ
  deriving DecidableEq, Repr

namespace IntType

def uint32 : IntType := ⟨false, 32⟩

variable (type : IntType)

def min : ℤ := if type.signed then -2 ^ (type.bits - 1) else 0

def max : ℤ := if type.signed then 2 ^ (type.bits - 1) - 1 else 2 ^ type.bits - 1

def Fits (value : ℤ) : Prop := type.min ≤ value ∧ value ≤ type.max

instance (value : ℤ) : Decidable (type.Fits value) := inferInstanceAs (Decidable (_ ∧ _))

end IntType

/-- The character `'-'`. -/
def minus : Byte := 45

/-- What the digits in front of a text are read as. -/
def readDigits (type : IntType) (text : Bytes) (skipped : ℕ) (sign : ℤ) (tgt : ℤ) :
    FromCharsResult ℤ :=
  let digits := text.takeWhile isDigit
  if digits = [] then ⟨0, .invalidArgument, tgt⟩
  else if type.Fits (sign * decimalValue digits) then
    ⟨skipped + digits.length, .none, sign * decimalValue digits⟩
  else ⟨skipped + digits.length, .outOfRange, tgt⟩

/-- `std::from_chars` for an integer type; only a signed one has a sign. -/
def fromCharsInt (type : IntType) (text : Bytes) (tgt : ℤ) : FromCharsResult ℤ :=
  if type.signed && text.head? = some minus then readDigits type text.tail 1 (-1) tgt
  else readDigits type text 0 1 tgt

inductive ParseError where
  /-- "view is empty" -/
  | empty
  /-- "Not the whole view is a number: " before the view -/
  | notWhole (view : Bytes)
  /-- "Failed to parse the view: " before the view -/
  | failed (view : Bytes)
  deriving DecidableEq, Repr

def parseView {Value : Type*} (fromChars : Bytes → Value → FromCharsResult Value)
    (initial : Value) (view : Bytes) : Except ParseError Value :=
  let res := fromChars view initial
  if view = [] then .error .empty
  else if res.ptr ≠ view.length then .error (.notWhole view)
  else if res.ec ≠ .none then .error (.failed view)
  else .ok res.tgt

/-! ## What is accepted -/

/-- The numerals of an integer type, whether they fit or not. -/
inductive Numeral (type : IntType) : Bytes → ℤ → Prop
  | plain {digits : Bytes} (hne : digits ≠ []) (hdigits : ∀ ch ∈ digits, isDigit ch = true) :
      Numeral type digits (decimalValue digits)
  | negative {digits : Bytes} (hsigned : type.signed = true) (hne : digits ≠ [])
      (hdigits : ∀ ch ∈ digits, isDigit ch = true) :
      Numeral type (minus :: digits) (-decimalValue digits)

variable {type : IntType} {view text : Bytes} {value : ℤ}

/-- The digits in front are all of a text only if there is nothing else in it. -/
theorem length_takeWhile_eq_iff :
    (text.takeWhile isDigit).length = text.length ↔ ∀ ch ∈ text, isDigit ch = true := by
  rw [← List.takeWhile_eq_self_iff]
  exact ⟨fun hlength => (List.takeWhile_prefix isDigit).eq_of_length hlength,
    fun heq => by rw [heq]⟩

theorem readDigits_of_digits (skipped : ℕ) (sign tgt : ℤ) (hne : text ≠ [])
    (hdigits : ∀ ch ∈ text, isDigit ch = true) :
    readDigits type text skipped sign tgt =
      if type.Fits (sign * decimalValue text) then
        ⟨skipped + text.length, .none, sign * decimalValue text⟩
      else ⟨skipped + text.length, .outOfRange, tgt⟩ := by
  rw [readDigits, List.takeWhile_eq_self_iff.2 hdigits, if_neg hne]

/-- Anything else than digits is not read to its end. -/
theorem ptr_readDigits_ne {skipped : ℕ} (sign tgt : ℤ) (hpos : 0 < skipped + text.length)
    (hnot : text ≠ [] → ¬∀ ch ∈ text, isDigit ch = true) :
    (readDigits type text skipped sign tgt).ptr ≠ skipped + text.length := by
  by_cases hnone : text.takeWhile isDigit = []
  · rw [readDigits, if_pos hnone]
    exact Nat.ne_of_lt hpos
  · have hptr : (readDigits type text skipped sign tgt).ptr =
        skipped + (text.takeWhile isDigit).length := by
      rw [readDigits, if_neg hnone]
      split <;> rfl
    have htext : text ≠ [] := fun hnil => hnone (by rw [hnil]; rfl)
    rw [hptr, Ne, Nat.add_left_cancel_iff, length_takeWhile_eq_iff]
    exact hnot htext

theorem head?_ne_minus (hdigits : ∀ ch ∈ text, isDigit ch = true) :
    text.head? ≠ some minus := by
  intro hhead
  have hdigit := hdigits minus (List.mem_of_head? hhead)
  exact absurd hdigit (by decide)

theorem fromCharsInt_of_numeral (tgt : ℤ) (hnumeral : Numeral type view value) :
    fromCharsInt type view tgt =
      if type.Fits value then ⟨view.length, .none, value⟩
      else ⟨view.length, .outOfRange, tgt⟩ := by
  cases hnumeral with
  | plain hne hdigits =>
      rw [fromCharsInt, if_neg (by simp [head?_ne_minus hdigits]),
        readDigits_of_digits 0 1 tgt hne hdigits, Int.one_mul, Nat.zero_add]
  | negative hsigned hne hdigits =>
      rw [fromCharsInt, if_pos (by simp [hsigned]), List.tail_cons,
        readDigits_of_digits 1 (-1) tgt hne hdigits, Int.neg_mul, Int.one_mul,
        List.length_cons, Nat.add_comm]

theorem ptr_fromCharsInt_ne (tgt : ℤ) (hne : view ≠ [])
    (hnot : ∀ value, ¬Numeral type view value) :
    (fromCharsInt type view tgt).ptr ≠ view.length := by
  rw [fromCharsInt]
  split
  next hsign =>
    simp only [Bool.and_eq_true, decide_eq_true_eq] at hsign
    obtain ⟨digits, rfl⟩ := List.head?_eq_some_iff.1 hsign.2
    rw [List.tail_cons, List.length_cons, Nat.add_comm]
    exact ptr_readDigits_ne (-1) tgt (Nat.add_pos_left Nat.one_pos _) fun hdigits_ne hdigits =>
      hnot _ (.negative hsign.1 hdigits_ne hdigits)
  next =>
    rw [← Nat.zero_add view.length]
    refine ptr_readDigits_ne 1 tgt ?_ fun _ hdigits => hnot _ (.plain hne hdigits)
    rw [Nat.zero_add]
    exact List.length_pos_of_ne_nil hne

theorem Numeral.ne_nil (hnumeral : Numeral type view value) : view ≠ [] := by
  cases hnumeral with
  | plain hne => exact hne
  | negative => exact List.cons_ne_nil _ _

/-- A view is the numeral of one value only. -/
theorem Numeral.unique {other : ℤ} (hnumeral : Numeral type view value)
    (hother : Numeral type view other) : value = other := by
  cases hnumeral with
  | plain hne hdigits =>
      cases hother with
      | plain => rfl
      | negative => exact absurd List.head?_cons (head?_ne_minus hdigits)
  | negative hsigned hne hdigits =>
      cases hother with
      | plain _ hothers => exact absurd List.head?_cons (head?_ne_minus hothers)
      | negative => rfl

theorem parseView_of_numeral (initial : ℤ) (hnumeral : Numeral type view value) :
    parseView (fromCharsInt type) initial view =
      if type.Fits value then .ok value else .error (.failed view) := by
  rw [parseView, fromCharsInt_of_numeral initial hnumeral, if_neg hnumeral.ne_nil]
  split <;> simp

theorem parseView_of_not_numeral (initial : ℤ) (hne : view ≠ [])
    (hnot : ∀ value, ¬Numeral type view value) :
    parseView (fromCharsInt type) initial view = .error (.notWhole view) := by
  rw [parseView, if_neg hne, if_pos (ptr_fromCharsInt_ne initial hne hnot)]

/-- A view is accepted exactly if it is a numeral that fits the type, with its value.  The
errors tell a numeral that does not fit from what is no numeral, whatever the target held. -/
theorem parseView_int (type : IntType) (initial : ℤ) (view : Bytes) :
    (∀ value, parseView (fromCharsInt type) initial view = .ok value ↔
      Numeral type view value ∧ type.Fits value) ∧
    (parseView (fromCharsInt type) initial view = .error (.failed view) ↔
      ∃ value, Numeral type view value ∧ ¬type.Fits value) ∧
    (parseView (fromCharsInt type) initial view = .error (.notWhole view) ↔
      view ≠ [] ∧ ∀ value, ¬Numeral type view value) := by
  by_cases hnumeral : ∃ value, Numeral type view value
  · obtain ⟨found, hfound⟩ := hnumeral
    rw [parseView_of_numeral initial hfound]
    by_cases hfits : type.Fits found
    · rw [if_pos hfits]
      refine ⟨fun value => ⟨fun hok => ?_, fun hboth => ?_⟩, ?_, ?_⟩
      · exact Except.ok.inj hok ▸ ⟨hfound, hfits⟩
      · rw [hfound.unique hboth.1]
      · refine iff_of_false (by simp) ?_
        rintro ⟨value, hvalue, hnot⟩
        exact hnot (hfound.unique hvalue ▸ hfits)
      · exact iff_of_false (by simp) fun hnone => hnone.2 found hfound
    · rw [if_neg hfits]
      refine ⟨fun value => iff_of_false (by simp) fun hboth => ?_, ?_, ?_⟩
      · exact hfits (hfound.unique hboth.1 ▸ hboth.2)
      · exact iff_of_true rfl ⟨found, hfound, hfits⟩
      · exact iff_of_false (by simp) fun hnone => hnone.2 found hfound
  · have hnot (value : ℤ) : ¬Numeral type view value := fun hvalue => hnumeral ⟨value, hvalue⟩
    by_cases hne : view = []
    · subst hne
      refine ⟨fun value => iff_of_false (by simp [parseView]) fun hboth => hnot value hboth.1,
        iff_of_false (by simp [parseView]) ?_, iff_of_false (by simp [parseView]) ?_⟩
      · exact fun hsome => hnumeral ⟨hsome.choose, hsome.choose_spec.1⟩
      · exact fun hboth => hboth.1 rfl
    · rw [parseView_of_not_numeral initial hne hnot]
      exact ⟨fun value => iff_of_false (by simp) fun hboth => hnot value hboth.1,
        iff_of_false (by simp) fun hsome => hnumeral ⟨hsome.choose, hsome.choose_spec.1⟩,
        iff_of_true rfl ⟨hne, hnot⟩⟩

/-- Of the truth values only the four words are accepted, although `from_chars` looks at the
begin of the view. -/
theorem parseView_bool (initial value : Bool) (view : Bytes) :
    parseView fromCharsBool initial view = .ok value ↔
      view ∈ if value then trueValues else falseValues := by
  constructor
  · intro hok
    -- an item in front of the view that is as long as the view is the view
    have hwhole {items : List Bytes} {item : Bytes}
        (hfind : items.find? (fun item => item.isPrefixOf view) = some item)
        (hptr : item.length = view.length) : view ∈ items := by
      have hstarts : item.isPrefixOf view = true := by
        have hfound := List.find?_some hfind
        exact hfound
      have heq := (List.isPrefixOf_iff_prefix.1 hstarts).eq_of_length hptr
      exact heq ▸ List.mem_of_find?_eq_some hfind
    rw [parseView] at hok
    split at hok
    · cases hok
    split at hok
    · cases hok
    next hptr =>
      split at hok
      · cases hok
      next hec =>
        obtain rfl := Except.ok.inj hok
        rw [not_not] at hptr hec
        revert hptr hec
        rw [fromCharsBool]
        split
        next item hfind => exact fun hptr _ => hwhole hfind hptr
        next =>
          split
          next item hfind => exact fun hptr _ => hwhole hfind hptr
          next => exact fun _ hec => by cases hec
  · intro hmem
    cases value with
    | true => rcases List.mem_pair.1 hmem with rfl | rfl <;> rfl
    | false => rcases List.mem_pair.1 hmem with rfl | rfl <;> rfl

/-! ## Numbers as they are printed -/

/-- `std::format("{}", value)` -/
def formatInt (value : ℤ) : Bytes :=
  if value < 0 then minus :: decimalText value.natAbs else decimalText value.natAbs

theorem numeral_formatInt (hfits : type.Fits value) : Numeral type (formatInt value) value := by
  obtain ⟨hne, hdigits, hvalue⟩ := decimalText_spec value.natAbs
  rw [formatInt]
  split
  next hneg =>
    -- an unsigned type has no negative values
    have hsigned : type.signed = true := by
      by_contra hunsigned
      have hmin := hfits.1
      rw [IntType.min, if_neg hunsigned] at hmin
      omega
    have hnumeral := (Numeral.negative hsigned hne hdigits : Numeral type _ _)
    rwa [hvalue, Int.ofNat_natAbs_of_nonpos (Int.le_of_lt hneg), Int.neg_neg] at hnumeral
  next hpos =>
    have hnumeral := (Numeral.plain hne hdigits : Numeral type _ _)
    rwa [hvalue, Int.natAbs_of_nonneg (Int.not_lt.1 hpos)] at hnumeral

/-- What is printed is read back. -/
theorem parseView_formatInt (initial : ℤ) (hfits : type.Fits value) :
    parseView (fromCharsInt type) initial (formatInt value) = .ok value := by
  rw [parseView_of_numeral initial (numeral_formatInt hfits), if_pos hfits]

end Nstl.Parse
