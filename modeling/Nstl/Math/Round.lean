import Mathlib.Data.Rat.Floor
import Nstl.Core.Rounding

/-!
# Rounding conversions

`round_val`, `round_floor` and `round_ceil` bring a floating value to an integral type of
the caller's.  All of them go through `long long`: the value is rounded by
`std::llround`, whose result is then compared with the limits of the target.

A finite value is the rational number that it is.  `std::llround` is exact where its
result fits; elsewhere it raises `FE_INVALID` and returns whatever it returns.  Whether
floating exceptions are reported at all is up to the implementation.
-/

namespace Nstl.MathRound

open Nstl.Rounding

/-- A value of a floating type. -/
inductive Floating where
  | finite (value : ℚ)
  | infinity (negative : Bool)
  | nan
  deriving DecidableEq

namespace Floating

def isFinite : Floating → Bool
  | .finite _ => true
  | _ => false

/-- The comparison with `0.0`. -/
def isNegative : Floating → Bool
  | .finite value => decide (value < 0)
  | .infinity negative => negative
  | .nan => false

/-- `std::floor`. -/
def floor : Floating → Floating
  | .finite value => .finite (⌊value⌋ : ℤ)
  | other => other

/-- `std::ceil`. -/
def ceil : Floating → Floating
  | .finite value => .finite (⌈value⌉ : ℤ)
  | other => other

end Floating

/-- The numbers that `long long` can hold. -/
def InLongLong (n : ℤ) : Prop := -2 ^ 63 ≤ n ∧ n < 2 ^ 63

instance : DecidablePred InLongLong := fun _ => inferInstanceAs (Decidable (_ ∧ _))

/-- `std::llround`, with its result and whether it raises `FE_INVALID`, and whether
`math_errhandling` has `MATH_ERREXCEPT`. -/
structure MathLibrary where
  errExcept : Bool
  llround : Floating → ℤ × Bool
  inLongLong : ∀ val, InLongLong (llround val).1
  exact_of_fits : ∀ {x : ℚ} {n : ℤ}, NearestAway x n → InLongLong n →
    llround (.finite x) = (n, false)
  invalid_of_not_fits : ∀ {x : ℚ} {n : ℤ}, NearestAway x n → ¬InLongLong n →
    (llround (.finite x)).2 = true
  invalid_of_not_finite : ∀ val, val.isFinite = false → (llround val).2 = true

/-- The exceptions with their texts; the first one's starts with the value. -/
inductive RoundError where
  | runtimeError (val : Floating) (what : String)
  | invalidArgument (what : String)
  | outOfRange (what : String)
  deriving DecidableEq

def notConvertible (val : Floating) : RoundError :=
  .runtimeError val " cannot be converted to integer"

/-- `safe_llround_t`; `invalid` is the flag of `FE_INVALID`, which stays as the call
leaves it. -/
def safeLlround (lib : MathLibrary) (val : Floating) (invalid : Bool) :
    Except RoundError ℤ × Bool :=
  if lib.errExcept then
    -- `feclearexcept` comes first, so that the flag is that of this call
    let (value, raised) := lib.llround val
    (if raised then .error (notConvertible val) else .ok value, raised)
  else if val.isFinite then
    let (value, raised) := lib.llround val
    (.ok value, invalid || raised)
  else (.error (notConvertible val), invalid)

/-! ## Integral types -/

/-- An integral type of at most 64 bits; `bool` is the unsigned one with a single bit. -/
structure Integral where
  bits : ℕ
  signed : Bool
  bits_pos : 0 < bits
  bits_le : bits ≤ 64

namespace Integral

def min (tgt : Integral) : ℤ := if tgt.signed then -2 ^ (tgt.bits - 1) else 0

def max (tgt : Integral) : ℤ := if tgt.signed then 2 ^ (tgt.bits - 1) - 1 else 2 ^ tgt.bits - 1

/-- The numbers in the range of the type. -/
def Contains (tgt : Integral) (n : ℤ) : Prop := tgt.min ≤ n ∧ n ≤ tgt.max

instance (tgt : Integral) : DecidablePred tgt.Contains :=
  fun _ => inferInstanceAs (Decidable (_ ∧ _))

/-- The operand of a comparison with a `long long`: next to an unsigned type of 64 bits
it becomes unsigned as well. -/
def promote (tgt : Integral) (value : ℤ) : ℤ :=
  if !tgt.signed && tgt.bits == 64 then value % 2 ^ 64 else value

/-- `static_cast` to the type. -/
def cast (tgt : Integral) (value : ℤ) : ℤ :=
  if tgt.signed then (value + 2 ^ (tgt.bits - 1)) % 2 ^ tgt.bits - 2 ^ (tgt.bits - 1)
  else value % 2 ^ tgt.bits

end Integral

/-- The comparisons of `round_val_func` with the limits of the target. -/
def convert (tgt : Integral) (value : ℤ) : Except RoundError ℤ :=
  if !tgt.signed then
    if value < 0 then
      .error (.invalidArgument "target is unsigned: value cannot be negative")
    else if tgt.promote tgt.max < tgt.promote value then
      .error (.outOfRange "resolve value is greater than the result")
    else .ok (tgt.cast value)
  else
    if value < tgt.min then
      .error (.outOfRange "resolve value is less than the result's min")
    else if tgt.max < value then
      .error (.outOfRange "resolve value is greater than the result's max")
    else .ok (tgt.cast value)

def roundValFunc (lib : MathLibrary) (tgt : Integral) (func : Floating → Floating)
    (value : Floating) (invalid : Bool) : Except RoundError ℤ × Bool :=
  match safeLlround lib (func value) invalid with
  | (.error failure, invalid) => (.error failure, invalid)
  | (.ok value, invalid) => (convert tgt value, invalid)

section Conversions

variable (lib : MathLibrary) (tgt : Integral)

def roundVal : Floating → Bool → Except RoundError ℤ × Bool :=
  roundValFunc lib tgt fun val => val

/-- The function that `round_floor` passes on. -/
def floorFunc (val : Floating) : Floating := if val.isNegative then val.ceil else val.floor

def roundFloor : Floating → Bool → Except RoundError ℤ × Bool :=
  roundValFunc lib tgt floorFunc

/-- The function that `round_ceil` passes on. -/
def ceilFunc (val : Floating) : Floating := if val.isNegative then val.floor else val.ceil

def roundCeil : Floating → Bool → Except RoundError ℤ × Bool :=
  roundValFunc lib tgt ceilFunc

end Conversions

/-! ## The range of the target -/

section Range

variable (tgt : Integral)

theorem two_pow_bits : (2 : ℤ) ^ tgt.bits = 2 * 2 ^ (tgt.bits - 1) := by
  rw [← pow_succ', Nat.sub_add_cancel tgt.bits_pos]

theorem two_pow_bits_le : (2 : ℤ) ^ tgt.bits ≤ 2 ^ 64 :=
  pow_le_pow_right₀ (by decide) tgt.bits_le

theorem promote_of_nonneg {value : ℤ} (hnonneg : 0 ≤ value) (hlt : value < 2 ^ 64) :
    tgt.promote value = value := by
  rw [Integral.promote]
  split
  · exact Int.emod_eq_of_lt hnonneg hlt
  · rfl

theorem cast_of_contains {value : ℤ} (hcontains : tgt.Contains value) :
    tgt.cast value = value := by
  obtain ⟨hmin, hmax⟩ := hcontains
  have hpow := two_pow_bits tgt
  rw [Integral.cast]
  rw [Integral.min] at hmin
  rw [Integral.max] at hmax
  cases hsigned : tgt.signed with
  | true =>
      simp only [hsigned, if_true] at hmin hmax ⊢
      rw [Int.emod_eq_of_lt (by omega) (by omega)]
      omega
  | false =>
      simp only [hsigned, Bool.false_eq_true, if_false] at hmin hmax ⊢
      exact Int.emod_eq_of_lt hmin (by omega)

/-- Next to a `long long` that is not negative the conversion of the operands is harmless. -/
theorem promote_max_lt_iff (hunsigned : tgt.signed = false) {value : ℤ}
    (hnonneg : 0 ≤ value) (hvalue : InLongLong value) :
    tgt.promote tgt.max < tgt.promote value ↔ tgt.max < value := by
  have hpow := two_pow_bits_le tgt
  have hpos : (0 : ℤ) < 2 ^ tgt.bits := pow_pos (by decide) tgt.bits
  have hmax : tgt.max = 2 ^ tgt.bits - 1 := by
    rw [Integral.max, hunsigned]
    rfl
  rw [promote_of_nonneg tgt hnonneg (by unfold InLongLong at hvalue; omega),
    promote_of_nonneg tgt (by omega) (by omega)]

/-- The numbers of the target pass the comparisons, and the cast does not change them. -/
theorem convert_of_contains {value : ℤ} (hvalue : InLongLong value)
    (hcontains : tgt.Contains value) : convert tgt value = .ok value := by
  have hcast := cast_of_contains tgt hcontains
  obtain ⟨hmin, hmax⟩ := hcontains
  cases hsigned : tgt.signed with
  | true =>
      simp [convert, hsigned, hcast, Int.not_lt.2 hmin, Int.not_lt.2 hmax]
  | false =>
      have hnonneg : 0 ≤ value := by simpa [Integral.min, hsigned] using hmin
      simp [convert, hsigned, hcast, Int.not_lt.2 hnonneg,
        promote_max_lt_iff tgt hsigned hnonneg hvalue, Int.not_lt.2 hmax]

/-- Every other `long long` is turned down. -/
theorem convert_of_not_contains {value : ℤ} (hvalue : InLongLong value)
    (hcontains : ¬tgt.Contains value) : ∃ failure, convert tgt value = .error failure := by
  rw [Integral.Contains, not_and_or, Int.not_le, Int.not_le] at hcontains
  cases hsigned : tgt.signed with
  | true =>
      by_cases hmin : value < tgt.min
      · exact ⟨_, by simp [convert, hsigned, hmin]; rfl⟩
      · have hmax : tgt.max < value := hcontains.resolve_left hmin
        exact ⟨_, by simp [convert, hsigned, hmin, hmax]; rfl⟩
  | false =>
      by_cases hneg : value < 0
      · exact ⟨_, by simp [convert, hsigned, hneg]; rfl⟩
      · have hmax : tgt.max < value := hcontains.resolve_left (by
          simpa [Integral.min, hsigned] using hneg)
        have hpromoted := (promote_max_lt_iff tgt hsigned (Int.not_lt.1 hneg) hvalue).2 hmax
        exact ⟨_, by simp [convert, hsigned, hneg, hpromoted]; rfl⟩

end Range

/-! ## The functions passed on -/

/-- `round_floor` hands over the integer next to the value towards zero. -/
theorem floorFunc_finite {x : ℚ} {n : ℤ} (hrounded : TowardZero x n) :
    floorFunc (.finite x) = .finite n := by
  rw [towardZero_iff] at hrounded
  subst hrounded
  by_cases hneg : x < 0 <;>
    simp [floorFunc, Floating.isNegative, Floating.floor, Floating.ceil, hneg]

/-- `round_ceil` hands over the one away from zero. -/
theorem ceilFunc_finite {x : ℚ} {n : ℤ} (hrounded : AwayFromZero x n) :
    ceilFunc (.finite x) = .finite n := by
  rw [awayFromZero_iff] at hrounded
  subst hrounded
  by_cases hneg : x < 0 <;>
    simp [ceilFunc, Floating.isNegative, Floating.floor, Floating.ceil, hneg]

/-! ## Exact results and exceptions -/

/-- The rounded number comes back if the target can hold it, and an exception is thrown
if not. -/
def ReturnsOrThrows (tgt : Integral) (n : ℤ) (result : Except RoundError ℤ) : Prop :=
  if tgt.Contains n then result = .ok n else ∃ failure, result = .error failure

/-- What makes the way through `long long` harmless: the rounded number `n` fits there,
or the target has no room for it either and the failure of `std::llround` is noticed,
by its flag or by the number that happens to come back. -/
def Covered (lib : MathLibrary) (tgt : Integral) (passed : Floating) (n : ℤ) : Prop :=
  InLongLong n ∨
    ¬tgt.Contains n ∧ (lib.errExcept = true ∨ ¬tgt.Contains (lib.llround passed).1)

section Exact

variable (lib : MathLibrary) (tgt : Integral) (invalid : Bool)

theorem safeLlround_of_fits {x : ℚ} {n : ℤ} (hnearest : NearestAway x n)
    (hfits : InLongLong n) : (safeLlround lib (.finite x) invalid).1 = .ok n := by
  have hexact := lib.exact_of_fits hnearest hfits
  cases herr : lib.errExcept <;> simp [safeLlround, herr, hexact, Floating.isFinite]

theorem safeLlround_of_not_fits {x : ℚ} {n : ℤ} (hnearest : NearestAway x n)
    (hfits : ¬InLongLong n) :
    (safeLlround lib (.finite x) invalid).1 =
      if lib.errExcept then .error (notConvertible (.finite x))
      else .ok (lib.llround (.finite x)).1 := by
  have hinvalid := lib.invalid_of_not_fits hnearest hfits
  cases herr : lib.errExcept <;> simp [safeLlround, herr, hinvalid, Floating.isFinite]

/-- A value that is not finite is refused in either mode. -/
theorem safeLlround_of_not_finite {val : Floating} (hval : val.isFinite = false) :
    (safeLlround lib val invalid).1 = .error (notConvertible val) := by
  have hinvalid := lib.invalid_of_not_finite val hval
  cases herr : lib.errExcept <;> simp [safeLlround, herr, hinvalid, hval]

theorem roundValFunc_result (func : Floating → Floating) (value : Floating) :
    (roundValFunc lib tgt func value invalid).1 =
      (safeLlround lib (func value) invalid).1.bind (convert tgt) := by
  rw [roundValFunc]
  rcases safeLlround lib (func value) invalid with ⟨_ | _, _⟩ <;> rfl

/-- What `convert` lets through is the number that it was given. -/
theorem convert_eq_ok_iff {value n : ℤ} (hvalue : InLongLong value) :
    convert tgt value = .ok n ↔ tgt.Contains value ∧ value = n := by
  by_cases hcontains : tgt.Contains value
  · rw [convert_of_contains tgt hvalue hcontains, Except.ok.injEq]
    exact (and_iff_right hcontains).symm
  · obtain ⟨failure, hfailure⟩ := convert_of_not_contains tgt hvalue hcontains
    simp [hfailure, hcontains]

theorem convert_eq_error_iff {value : ℤ} (hvalue : InLongLong value) :
    (∃ failure, convert tgt value = .error failure) ↔ ¬tgt.Contains value := by
  refine ⟨?_, convert_of_not_contains tgt hvalue⟩
  rintro ⟨failure, hfailure⟩ hcontains
  rw [convert_of_contains tgt hvalue hcontains] at hfailure
  cases hfailure

/-- One statement for the three conversions: `x` is what `std::llround` receives. -/
theorem roundValFunc_spec {func : Floating → Floating} {value : Floating} {x : ℚ} {n : ℤ}
    (hpassed : func value = .finite x) (hnearest : NearestAway x n) :
    ReturnsOrThrows tgt n (roundValFunc lib tgt func value invalid).1 ↔
      Covered lib tgt (func value) n := by
  by_cases hfits : InLongLong n
  · have hround : (roundValFunc lib tgt func value invalid).1 = convert tgt n := by
      rw [roundValFunc_result, hpassed, safeLlround_of_fits lib invalid hnearest hfits]
      rfl
    refine iff_of_true ?_ (Or.inl hfits)
    rw [ReturnsOrThrows, hround]
    split
    next hcontains => exact convert_of_contains tgt hfits hcontains
    next hcontains => exact convert_of_not_contains tgt hfits hcontains
  · rw [ReturnsOrThrows, roundValFunc_result, Covered, hpassed,
      safeLlround_of_not_fits lib invalid hnearest hfits, or_iff_right hfits]
    have hvalue := lib.inLongLong (.finite x)
    cases herr : lib.errExcept with
    | true => by_cases hcontains : tgt.Contains n <;> simp [hcontains, Except.bind]
    | false =>
        -- the number that comes back is a `long long`, so it is not `n`
        have hne : (lib.llround (.finite x)).1 ≠ n := fun heq => hfits (heq ▸ hvalue)
        by_cases hcontains : tgt.Contains n
        · simp [hcontains, Except.bind, convert_eq_ok_iff tgt hvalue, hne]
        · simp [hcontains, Except.bind, convert_eq_error_iff tgt hvalue]

/-- The numbers of a target of this kind all fit in `long long`. -/
theorem inLongLong_of_contains (hnarrow : tgt.signed = true ∨ tgt.bits < 64) {n : ℤ}
    (hcontains : tgt.Contains n) : InLongLong n := by
  obtain ⟨hmin, hmax⟩ := hcontains
  have hpow := two_pow_bits tgt
  have hle := two_pow_bits_le tgt
  rw [Integral.min] at hmin
  rw [Integral.max] at hmax
  rw [InLongLong]
  cases hsigned : tgt.signed with
  | true =>
      simp only [hsigned, if_true] at hmin hmax
      omega
  | false =>
      have hbits : tgt.bits < 64 := by simpa [hsigned] using hnarrow
      have hhalf : (2 : ℤ) ^ tgt.bits ≤ 2 ^ 63 := pow_le_pow_right₀ (by decide) (by omega)
      simp only [hsigned, Bool.false_eq_true, if_false] at hmin hmax
      omega

/-- With floating exceptions the way through `long long` is harmless for every target
but the unsigned type of 64 bits. -/
theorem covered_of_errExcept (herr : lib.errExcept = true)
    (hnarrow : tgt.signed = true ∨ tgt.bits < 64) (passed : Floating) (n : ℤ) :
    Covered lib tgt passed n := by
  by_cases hfits : InLongLong n
  · exact Or.inl hfits
  · exact Or.inr ⟨fun hcontains => hfits (inLongLong_of_contains tgt hnarrow hcontains),
      Or.inl herr⟩

/-- Each conversion returns its rounding of the value, or throws because the target
cannot hold it, exactly where the way through `long long` is covered; it always is with
floating exceptions, unless the target is the unsigned type of 64 bits. -/
theorem conversions_exact_or_throw_iff (x : ℚ) (n : ℤ) :
    (NearestAway x n →
      (ReturnsOrThrows tgt n (roundVal lib tgt (.finite x) invalid).1 ↔
        Covered lib tgt (.finite x) n)) ∧
    (TowardZero x n →
      (ReturnsOrThrows tgt n (roundFloor lib tgt (.finite x) invalid).1 ↔
        Covered lib tgt (.finite n) n)) ∧
    (AwayFromZero x n →
      (ReturnsOrThrows tgt n (roundCeil lib tgt (.finite x) invalid).1 ↔
        Covered lib tgt (.finite n) n)) ∧
    (lib.errExcept = true → (tgt.signed = true ∨ tgt.bits < 64) →
      ∀ passed, Covered lib tgt passed n) := by
  refine ⟨fun hnearest => ?_, fun htoward => ?_, fun haway => ?_, fun herr hnarrow passed => ?_⟩
  · exact roundValFunc_spec lib tgt invalid rfl hnearest
  · have hpassed := floorFunc_finite htoward
    rw [← hpassed]
    exact roundValFunc_spec lib tgt invalid hpassed (NearestAway.intCast n)
  · have hpassed := ceilFunc_finite haway
    rw [← hpassed]
    exact roundValFunc_spec lib tgt invalid hpassed (NearestAway.intCast n)
  · exact covered_of_errExcept lib tgt herr hnarrow passed n

end Exact

/-! ## The unsigned type of 64 bits -/

theorem inLongLong_least : InLongLong (-2 ^ 63) := by decide

/-- An `std::llround` that returns the least number when it fails. -/
def leastOnFailure (errExcept : Bool) : MathLibrary where
  errExcept := errExcept
  llround
    | .finite x => if InLongLong (halfAway x) then (halfAway x, false) else (-2 ^ 63, true)
    | _ => (-2 ^ 63, true)
  inLongLong := by
    rintro (x | negative | _)
    · dsimp only
      split
      next hfits => exact hfits
      next hfits => exact inLongLong_least
    · exact inLongLong_least
    · exact inLongLong_least
  exact_of_fits {x n} hnearest hfits := by
    have hround : halfAway x = n := (halfAway_nearest x).unique hnearest
    simp only [hround, if_pos hfits]
  invalid_of_not_fits {x n} hnearest hfits := by
    have hround : halfAway x = n := (halfAway_nearest x).unique hnearest
    simp only [hround, if_neg hfits]
  invalid_of_not_finite := by
    rintro (x | negative | _) hval
    · cases hval
    · rfl
    · rfl

def uint64 : Integral := ⟨64, false, by decide, le_rfl⟩

def int64 : Integral := ⟨64, true, by decide, le_rfl⟩

theorem nearestAway_two_pow_63 : NearestAway (2 ^ 63 : ℚ) (2 ^ 63) := by
  have hnearest := NearestAway.intCast (K := ℚ) ((2 : ℤ) ^ (63 : ℕ))
  rwa [Int.cast_pow, Int.cast_ofNat] at hnearest

theorem conversions_of_half :
    ReturnsOrThrows uint64 3 (roundVal (leastOnFailure true) uint64 (.finite (5 / 2)) true).1 :=
  ((conversions_exact_or_throw_iff (leastOnFailure true) uint64 true (5 / 2) 3).1
    ⟨by norm_num, by norm_num⟩).2 (Or.inl (by decide))

/-- The unsigned type of 64 bits holds `2 ^ 63`, and yet its conversion throws; without
floating exceptions the conversion to the signed one returns another number instead of
throwing. -/
theorem conversions_two_pow_63 :
    uint64.Contains (2 ^ 63) ∧
      (roundVal (leastOnFailure true) uint64 (.finite (2 ^ 63)) false).1 =
        .error (notConvertible (.finite (2 ^ 63))) ∧
      ¬int64.Contains (2 ^ 63) ∧
      (roundVal (leastOnFailure false) int64 (.finite (2 ^ 63)) false).1 = .ok (-2 ^ 63) := by
  have hround : halfAway (2 ^ 63 : ℚ) = 2 ^ 63 :=
    (halfAway_nearest _).unique nearestAway_two_pow_63
  have hfits : ¬InLongLong (2 ^ 63) := by decide
  have hthrows := safeLlround_of_not_fits (leastOnFailure true) false nearestAway_two_pow_63 hfits
  have hreturns : (safeLlround (leastOnFailure false) (.finite (2 ^ 63)) false).1 =
      .ok (-2 ^ 63) := by
    rw [safeLlround_of_not_fits _ _ nearestAway_two_pow_63 hfits]
    simp only [leastOnFailure, hround, if_neg hfits, Bool.false_eq_true, if_false]
  refine ⟨by decide, ?_, by decide, ?_⟩
  · rw [roundVal, roundValFunc_result, hthrows]
    rfl
  · rw [roundVal, roundValFunc_result, hreturns]
    exact convert_of_contains int64 inLongLong_least (by decide)

end Nstl.MathRound
