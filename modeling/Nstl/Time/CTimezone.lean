import Mathlib.Data.Rat.Cast.Order
import Mathlib.Tactic.FieldSimp
import Mathlib.Tactic.Ring

/-!
# The time zone of the C library

`c_timezone` gives the zone of the process the interface of a `date` time zone.  A time
point is split into whole seconds and a rest, the seconds go through `localtime_r` and
`timegm`, or through `gmtime_r` and `mktime` in the other direction, and the rest is put
back.  `timegm` and `mktime` report a failure by the value `-1`, which is also a second on
the time line.  Counts have 64 bits, and arithmetic that leaves them is not defined.

The calendar fields of `struct tm` are only passed from one function of the C library to
the next, so that they stay abstract.
-/

namespace Nstl.CTimezone

/-! ## Durations -/

/-- How a call ends without a result. -/
inductive Failure where
  | thrown (message : String)
  | overflow
  deriving DecidableEq, Repr

/-- The values of a signed integer with 64 bits. -/
def Fits (value : ℤ) : Prop := -2 ^ 63 ≤ value ∧ value < 2 ^ 63

instance : DecidablePred Fits := fun _ => inferInstanceAs (Decidable (_ ∧ _))

/-- The result of an operation on such integers. -/
def checked (value : ℤ) : Except Failure ℤ :=
  if Fits value then .ok value else .error .overflow

/-- The tick of a `std::chrono` duration, in seconds; a `std::ratio` is reduced. -/
structure Period where
  num : ℕ
  den : ℕ
  num_pos : 0 < num
  den_pos : 0 < den
  coprime : num.Coprime den

/-- The period of `std::common_type_t<Duration, std::chrono::seconds>`. -/
def Period.withSeconds (period : Period) : Period where
  num := 1
  den := period.den
  num_pos := Nat.one_pos
  den_pos := period.den_pos
  coprime := Nat.coprime_one_left period.den

/-- A time point is the number of ticks since the epoch. -/
structure TimePoint (period : Period) where
  count : ℤ
  fits : Fits count

namespace TimePoint

variable {period : Period}

def ofCount (count : ℤ) : Except Failure (TimePoint period) :=
  if hfits : Fits count then .ok ⟨count, hfits⟩ else .error .overflow

/-- The seconds since the epoch, whatever the period. -/
def inSeconds (tp : TimePoint period) : ℚ := tp.count * period.num / period.den

/-- The second that the time point is in. -/
def second (tp : TimePoint period) : ℤ := tp.count * period.num / period.den

/-- The ticks of the common type with seconds. -/
def ticks (tp : TimePoint period) : Except Failure ℤ := checked (tp.count * period.num)

/-- `duration_cast<seconds>`, which truncates. -/
def castSeconds (tp : TimePoint period) : Except Failure ℤ := do
  let ticks ← tp.ticks
  return ticks.tdiv period.den

/-- `date::floor<seconds>`, with its comparison in the common type. -/
def floor (tp : TimePoint period) : Except Failure ℤ := do
  let secs ← tp.castSeconds
  let whole ← checked (secs * period.den)
  let ticks ← tp.ticks
  if ticks < whole then checked (secs - 1) else return secs

/-- The rest above whole seconds. -/
def subSeconds (tp : TimePoint period) (secs : ℤ) :
    Except Failure (TimePoint period.withSeconds) := do
  let ticks ← tp.ticks
  let whole ← checked (secs * period.den)
  ofCount (ticks - whole)

/-- A rest on top of whole seconds. -/
def addSeconds (secs : ℤ) (rest : TimePoint period.withSeconds) :
    Except Failure (TimePoint period.withSeconds) := do
  let whole ← checked (secs * period.den)
  ofCount (whole + rest.count)

end TimePoint

/-! ## The zone -/

/-- `struct tm`. -/
structure Tm (Fields : Type*) where
  fields : Fields
  isdst : ℤ

/-- The functions of the C library; `mktime` also writes `tm_isdst`. -/
structure CLibrary (Fields : Type*) where
  localtimeR : ℤ → Option (Tm Fields)
  gmtimeR : ℤ → Option (Tm Fields)
  timegm : Tm Fields → ℤ
  mktime : Tm Fields → ℤ × ℤ

/-- `date::sys_info`, the offset in seconds and the saving in minutes. -/
structure SysInfo where
  beginSecs : ℤ
  endSecs : ℤ
  offset : ℤ
  save : ℤ
  abbreviation : String
  deriving DecidableEq, Repr

/-- `date::local_info`, whose result is always `unique` here. -/
structure LocalInfo where
  first : SysInfo
  second : SysInfo
  deriving DecidableEq, Repr

def getSysInfo (sysSecs localSecs isDst : ℤ) : Except Failure SysInfo := do
  let endSecs ← checked (sysSecs + 1)
  let offset ← checked (localSecs - sysSecs)
  return ⟨sysSecs, endSecs, offset, 60 * if isDst < 0 then 0 else isDst, ""⟩

section Zone

variable {Fields : Type*} (lib : CLibrary Fields) {period : Period}

def toLocalCommon (utcSeconds : ℤ) : Except Failure (ℤ × ℤ) :=
  match lib.localtimeR utcSeconds with
  | none => .error (.thrown "date cannot be calculated")
  | some localtm =>
      let localTime := lib.timegm { localtm with isdst := 0 }
      if localTime = -1 then .error (.thrown "epoch cannot be calculated")
      else .ok (localTime, localtm.isdst)

def toSysCommon (localSeconds : ℤ) : Except Failure (ℤ × ℤ) :=
  match lib.gmtimeR localSeconds with
  | none => .error (.thrown "date cannot be calculated")
  | some localtm =>
      let (utcTime, isdst) := lib.mktime { localtm with isdst := -1 }
      if utcTime = -1 then .error (.thrown "epoch cannot be calculated")
      else .ok (utcTime, isdst)

/-- The two conversions, which differ in what becomes of the whole seconds. -/
def convert (common : ℤ → Except Failure (ℤ × ℤ)) (tp : TimePoint period) :
    Except Failure (TimePoint period.withSeconds) := do
  let seconds ← tp.floor
  let rest ← tp.subSeconds seconds
  let (converted, _) ← common seconds
  TimePoint.addSeconds converted rest

def toLocal (tp : TimePoint period) : Except Failure (TimePoint period.withSeconds) :=
  convert (toLocalCommon lib) tp

def toSys (tp : TimePoint period) : Except Failure (TimePoint period.withSeconds) :=
  convert (toSysCommon lib) tp

/-- `get_info` of a system time. -/
def getInfo (tp : TimePoint period) : Except Failure SysInfo := do
  let sysSecs ← tp.floor
  let (localSecs, isDst) ← toLocalCommon lib sysSecs
  getSysInfo sysSecs localSecs isDst

/-- `get_info` of a local time. -/
def getLocalInfo (tp : TimePoint period) : Except Failure LocalInfo := do
  let localSecs ← tp.floor
  let (sysSecs, isDst) ← toSysCommon lib localSecs
  let first ← getSysInfo sysSecs localSecs isDst
  return ⟨first, ⟨0, 0, 0, 0, ""⟩⟩

end Zone

/-! ## When a computation has a result -/

theorem bind_ok_iff {Value Result : Type} {computation : Except Failure Value}
    {next : Value → Except Failure Result} {result : Result} :
    (computation >>= next) = .ok result ↔
      ∃ value, computation = .ok value ∧ next value = .ok result := by
  cases computation with
  | error failure =>
      refine ⟨nofun, ?_⟩
      rintro ⟨value, hvalue, _⟩
      cases hvalue
  | ok value =>
      refine ⟨fun hnext => ⟨value, rfl, hnext⟩, ?_⟩
      rintro ⟨_, ⟨rfl⟩, hnext⟩
      exact hnext

theorem checked_ok_iff {value result : ℤ} :
    checked value = .ok result ↔ Fits value ∧ result = value := by
  rw [checked]
  split
  next hfits => simp [hfits, eq_comm]
  next hfits => simp [hfits]

theorem getSysInfo_ok_iff {sysSecs localSecs isDst : ℤ} :
    (∃ info, getSysInfo sysSecs localSecs isDst = .ok info ∧
        info.offset = localSecs - sysSecs) ↔
      Fits (sysSecs + 1) ∧ Fits (localSecs - sysSecs) := by
  simp only [getSysInfo, bind_ok_iff, checked_ok_iff]
  constructor
  · rintro ⟨_, ⟨_, ⟨hend, rfl⟩, _, ⟨hoffset, rfl⟩, _⟩, _⟩
    exact ⟨hend, hoffset⟩
  · rintro ⟨hend, hoffset⟩
    exact ⟨_, ⟨_, ⟨hend, rfl⟩, _, ⟨hoffset, rfl⟩, rfl⟩, rfl⟩

section Split

variable {period : Period} {tp : TimePoint period}

theorem ofCount_ok_iff {count : ℤ} : TimePoint.ofCount count = .ok tp ↔ tp.count = count := by
  obtain ⟨other, hother⟩ := tp
  rw [TimePoint.ofCount]
  split
  next hfits => simp [eq_comm]
  next hfits =>
      simp only [reduceCtorEq, false_iff]
      rintro rfl
      exact hfits hother

theorem ticks_ok_iff {ticks : ℤ} :
    tp.ticks = .ok ticks ↔ Fits (tp.count * period.num) ∧ ticks = tp.count * period.num :=
  checked_ok_iff

/-- Rounding down does not leave the 64 bits. -/
theorem fits_ediv {value : ℤ} (hfits : Fits value) {den : ℕ} (hden : 0 < den) :
    Fits (value / den) := by
  have hpos : (0 : ℤ) < den := Int.natCast_pos.2 hden
  obtain ⟨hlower, hupper⟩ := hfits
  rcases Int.le_total 0 value with hsign | hsign
  · have hle : value / den ≤ value := Int.ediv_le_self _ hsign
    have hnonneg : 0 ≤ value / den := Int.ediv_nonneg hsign hpos.le
    exact ⟨by omega, by omega⟩
  · have hle : value ≤ value / den := by
      rw [Int.le_ediv_iff_mul_le hpos]
      exact mul_le_of_one_le_right hsign hpos
    have hnonpos : value / den ≤ 0 := Int.ediv_nonpos_of_nonpos_of_neg hsign hpos
    exact ⟨by omega, by omega⟩

theorem fits_tdiv_mul {value : ℤ} (hfits : Fits value) (den : ℕ) :
    Fits (value.tdiv den * den) := by
  have hrest := Int.tdiv_mul_add_tmod value den
  obtain ⟨hlower, hupper⟩ := hfits
  rcases Int.le_total 0 value with hsign | hsign
  · have hnonneg := Int.tmod_nonneg (den : ℤ) hsign
    have hquotient : 0 ≤ value.tdiv den * den :=
      mul_nonneg (Int.tdiv_nonneg hsign (Int.natCast_nonneg den)) (Int.natCast_nonneg den)
    exact ⟨by omega, by omega⟩
  · have hnonpos : value.tmod den ≤ 0 := by
      have hnonneg := Int.tmod_nonneg (den : ℤ) (neg_nonneg.2 hsign)
      rwa [Int.neg_tmod, neg_nonneg] at hnonneg
    have hquotient : value.tdiv den ≤ 0 := by
      have hnonneg := Int.tdiv_nonneg (neg_nonneg.2 hsign) (Int.natCast_nonneg den)
      rwa [Int.neg_tdiv, neg_nonneg] at hnonneg
    have hproduct : value.tdiv den * den ≤ 0 :=
      mul_nonpos_of_nonpos_of_nonneg hquotient (Int.natCast_nonneg den)
    exact ⟨by omega, by omega⟩

/-- The correction of the truncated seconds is the division that rounds down. -/
theorem corrected_eq (ticks : ℤ) {den : ℕ} (hden : 0 < den) :
    (if ticks < ticks.tdiv den * den then ticks.tdiv den - 1 else ticks.tdiv den) =
      ticks / den := by
  have hpos : (0 : ℤ) < den := Int.natCast_pos.2 hden
  rw [Int.tdiv_eq_ediv, Int.sign_eq_one_of_pos hpos]
  split
  · have hle : ticks / den * den ≤ ticks := Int.ediv_mul_le ticks hpos.ne'
    rw [add_zero, if_neg (Int.not_lt.2 hle)]
  · have hlt : ticks < (ticks / den + 1) * den := Int.lt_ediv_add_one_mul_self ticks hpos
    rw [if_pos hlt, add_sub_cancel_right]

theorem floor_ok_iff {secs : ℤ} :
    tp.floor = .ok secs ↔ Fits (tp.count * period.num) ∧ secs = tp.second := by
  have hcorrected := corrected_eq (tp.count * period.num) period.den_pos
  simp only [TimePoint.floor, TimePoint.castSeconds, bind_ok_iff, ticks_ok_iff, checked_ok_iff,
    TimePoint.second]
  constructor
  · rintro ⟨_, ⟨_, ⟨hfits, rfl⟩, hpure⟩, _, ⟨_, rfl⟩, _, ⟨_, rfl⟩, hresult⟩
    cases hpure
    refine ⟨hfits, ?_⟩
    rw [← hcorrected]
    split at hresult
    next hless =>
        rw [if_pos hless]
        exact (checked_ok_iff.1 hresult).2
    next hless =>
        rw [if_neg hless]
        exact (Except.ok.inj hresult).symm
  · rintro ⟨hfits, rfl⟩
    have hsecond := fits_ediv hfits period.den_pos
    refine ⟨_, ⟨_, ⟨hfits, rfl⟩, rfl⟩, _, ⟨fits_tdiv_mul hfits period.den, rfl⟩, _,
      ⟨hfits, rfl⟩, ?_⟩
    rw [← hcorrected] at hsecond ⊢
    split
    next hless =>
        rw [if_pos hless] at hsecond
        exact checked_ok_iff.2 ⟨hsecond, rfl⟩
    next => rfl

/-- The rest is not negative and less than a second. -/
theorem fits_rest (hticks : Fits (tp.count * period.num))
    (hwhole : Fits (tp.second * period.den)) :
    Fits (tp.count * period.num - tp.second * period.den) := by
  have hpos : (0 : ℤ) < period.den := Int.natCast_pos.2 period.den_pos
  have hle : tp.second * period.den ≤ tp.count * period.num := Int.ediv_mul_le _ hpos.ne'
  have hlt : tp.count * period.num < (tp.second + 1) * period.den :=
    Int.lt_ediv_add_one_mul_self _ hpos
  rw [add_mul, one_mul] at hlt
  obtain ⟨hlower, hupper⟩ := hticks
  obtain ⟨hwholeLower, hwholeUpper⟩ := hwhole
  refine ⟨by omega, ?_⟩
  rcases Int.le_total 0 tp.second with hsign | hsign
  · have hnonneg : 0 ≤ tp.second * period.den := mul_nonneg hsign hpos.le
    omega
  · rcases hsign.lt_or_eq with hneg | hzero
    · -- A second below zero is at least one period long.
      have hbelow : tp.second * period.den ≤ -1 * period.den :=
        mul_le_mul_of_nonneg_right (by omega) hpos.le
      omega
    · rw [hzero, zero_mul, sub_zero]
      exact hupper

/-- A conversion has a result if the second, the converted second and the result can be
told in ticks; the result is moved by the difference of the seconds. -/
theorem convert_ok_iff {common : ℤ → Except Failure (ℤ × ℤ)}
    {converted : TimePoint period.withSeconds} :
    convert common tp = .ok converted ↔
      Fits (tp.count * period.num) ∧ Fits (tp.second * period.den) ∧
        ∃ secs isdst, common tp.second = .ok (secs, isdst) ∧ Fits (secs * period.den) ∧
          converted.count = tp.count * period.num + (secs - tp.second) * period.den := by
  simp only [convert, TimePoint.subSeconds, TimePoint.addSeconds, bind_ok_iff, floor_ok_iff,
    ticks_ok_iff, checked_ok_iff, ofCount_ok_iff]
  constructor
  · rintro ⟨_, ⟨hticks, rfl⟩, rest, ⟨_, ⟨_, rfl⟩, _, ⟨hwhole, rfl⟩, hrest⟩, ⟨secs, isdst⟩, hcommon,
      _, ⟨hsecs, rfl⟩, hcount⟩
    refine ⟨hticks, hwhole, secs, isdst, hcommon, hsecs, ?_⟩
    rw [hcount, hrest]
    ring
  · rintro ⟨hticks, hwhole, secs, isdst, hcommon, hsecs, hcount⟩
    refine ⟨_, ⟨hticks, rfl⟩, ⟨_, fits_rest hticks hwhole⟩,
      ⟨_, ⟨hticks, rfl⟩, _, ⟨hwhole, rfl⟩, rfl⟩, (secs, isdst), hcommon, _, ⟨hsecs, rfl⟩, ?_⟩
    rw [hcount]
    ring

/-- An exception behind the functions of the C library is passed on. -/
theorem convert_error {common : ℤ → Except Failure (ℤ × ℤ)} {failure : Failure}
    (hticks : Fits (tp.count * period.num)) (hwhole : Fits (tp.second * period.den))
    (hcommon : common tp.second = .error failure) : convert common tp = .error failure := by
  have hfloor : tp.floor = .ok tp.second := floor_ok_iff.2 ⟨hticks, rfl⟩
  obtain ⟨rest, hrest⟩ : ∃ rest, tp.subSeconds tp.second = .ok rest := by
    simp only [TimePoint.subSeconds, bind_ok_iff, ticks_ok_iff, checked_ok_iff, ofCount_ok_iff]
    exact ⟨⟨_, fits_rest hticks hwhole⟩, _, ⟨hticks, rfl⟩, _, ⟨hwhole, rfl⟩, rfl⟩
  rw [convert, hfloor]
  change (tp.subSeconds tp.second >>= fun rest => _) = _
  rw [hrest]
  change (common tp.second >>= fun converted => _) = _
  rw [hcommon]
  rfl

variable {moved : TimePoint period.withSeconds} {secs : ℤ}
  (hcount : moved.count = tp.count * period.num + secs * period.den)

include hcount

/-- Whole seconds move a time point by as much. -/
theorem inSeconds_moved : moved.inSeconds = tp.inSeconds + secs := by
  have hden : (period.den : ℚ) ≠ 0 := Nat.cast_ne_zero.2 period.den_pos.ne'
  rw [TimePoint.inSeconds, TimePoint.inSeconds, hcount, Period.withSeconds]
  push_cast
  field_simp

theorem second_moved : moved.second = tp.second + secs := by
  have hden : (period.den : ℤ) ≠ 0 := Int.natCast_ne_zero.2 period.den_pos.ne'
  rw [TimePoint.second, hcount]
  change (_ * ((1 : ℕ) : ℤ)) / (period.den : ℤ) = _
  rw [Nat.cast_one, mul_one, Int.add_mul_ediv_right _ _ hden, TimePoint.second]

end Split

/-! ## A zone with a fixed offset -/

/-- The C library's zone is always `offset` seconds ahead; `timegm` and `mktime` return
the second that they are asked for, also when it is `-1`. -/
structure FixedZone {Fields : Type*} (lib : CLibrary Fields) (offset : ℤ) where
  brokenDown : ℤ → Fields
  localtimeR_eq : ∀ {t tm}, lib.localtimeR t = some tm → tm.fields = brokenDown (t + offset)
  gmtimeR_eq : ∀ {t tm}, lib.gmtimeR t = some tm → tm.fields = brokenDown t
  timegm_eq : ∀ t, (lib.gmtimeR t).isSome → lib.timegm ⟨brokenDown t, 0⟩ = t
  mktime_eq : ∀ t, (lib.localtimeR t).isSome → (lib.mktime ⟨brokenDown (t + offset), -1⟩).1 = t

/-- The seconds that the functions support. -/
def InRange {Fields : Type*} (lib : CLibrary Fields) (offset t : ℤ) : Prop :=
  (lib.localtimeR t).isSome ∧ (lib.gmtimeR (t + offset)).isSome

section Fixed

variable {Fields : Type*} {lib : CLibrary Fields} {offset : ℤ} (hzone : FixedZone lib offset)

include hzone

theorem toLocalCommon_ok_iff {t : ℤ} (hrange : InRange lib offset t) {secs : ℤ} :
    (∃ isdst, toLocalCommon lib t = .ok (secs, isdst)) ↔ t + offset ≠ -1 ∧ secs = t + offset := by
  obtain ⟨⟨fields, isdst⟩, hlocal⟩ := Option.isSome_iff_exists.1 hrange.1
  have hfields : fields = hzone.brokenDown (t + offset) := hzone.localtimeR_eq hlocal
  have htimegm := hzone.timegm_eq (t + offset) hrange.2
  simp only [toLocalCommon, hlocal, hfields, htimegm]
  by_cases hsecond : t + offset = -1
  · simp [hsecond]
  · simp [hsecond, eq_comm]

theorem toSysCommon_ok_iff {t : ℤ} (hrange : InRange lib offset t) {secs : ℤ} :
    (∃ isdst, toSysCommon lib (t + offset) = .ok (secs, isdst)) ↔ t ≠ -1 ∧ secs = t := by
  obtain ⟨⟨fields, isdst⟩, hgm⟩ := Option.isSome_iff_exists.1 hrange.2
  have hfields : fields = hzone.brokenDown (t + offset) := hzone.gmtimeR_eq hgm
  have hmktime := hzone.mktime_eq t hrange.1
  simp only [toSysCommon, hgm, hfields, hmktime]
  by_cases hsecond : t = -1
  · simp [hsecond]
  · simp [hsecond, eq_comm]

variable {period : Period} {tp : TimePoint period}

/-- The local time is `offset` seconds later; there is none for its second `-1`. -/
theorem toLocal_ok_iff (hrange : InRange lib offset tp.second)
    {localTp : TimePoint period.withSeconds} :
    toLocal lib tp = .ok localTp ↔
      Fits (tp.count * period.num) ∧ Fits (tp.second * period.den) ∧
        tp.second + offset ≠ -1 ∧ Fits ((tp.second + offset) * period.den) ∧
        localTp.count = tp.count * period.num + offset * period.den := by
  rw [toLocal, convert_ok_iff]
  refine and_congr_right fun _ => and_congr_right fun _ => ⟨?_, ?_⟩
  · rintro ⟨secs, isdst, hcommon, hfits, hcount⟩
    obtain ⟨hsecond, rfl⟩ := (toLocalCommon_ok_iff hzone hrange).1 ⟨isdst, hcommon⟩
    rw [add_sub_cancel_left] at hcount
    exact ⟨hsecond, hfits, hcount⟩
  · rintro ⟨hsecond, hfits, hcount⟩
    obtain ⟨isdst, hcommon⟩ := (toLocalCommon_ok_iff hzone hrange).2 ⟨hsecond, rfl⟩
    refine ⟨_, isdst, hcommon, hfits, ?_⟩
    rw [hcount, add_sub_cancel_left]

/-- A local time whose second comes from `t` goes back, unless `t` is the second `-1`. -/
theorem toSys_ok_iff {t : ℤ} (hrange : InRange lib offset t) (hsecond : tp.second = t + offset)
    {back : TimePoint period.withSeconds} :
    toSys lib tp = .ok back ↔
      Fits (tp.count * period.num) ∧ Fits ((t + offset) * period.den) ∧
        t ≠ -1 ∧ Fits (t * period.den) ∧
        back.count = tp.count * period.num + -offset * period.den := by
  have hmoved : t - (t + offset) = -offset := by ring
  rw [toSys, convert_ok_iff, hsecond]
  refine and_congr_right fun _ => and_congr_right fun _ => ⟨?_, ?_⟩
  · rintro ⟨secs, isdst, hcommon, hfits, hcount⟩
    obtain ⟨hnot, rfl⟩ := (toSysCommon_ok_iff hzone hrange).1 ⟨isdst, hcommon⟩
    exact ⟨hnot, hfits, hmoved ▸ hcount⟩
  · rintro ⟨hnot, hfits, hcount⟩
    obtain ⟨isdst, hcommon⟩ := (toSysCommon_ok_iff hzone hrange).2 ⟨hnot, rfl⟩
    exact ⟨t, isdst, hcommon, hfits, by rw [hcount, hmoved]⟩

theorem getInfo_ok_iff (hrange : InRange lib offset tp.second) :
    (∃ info, getInfo lib tp = .ok info ∧ info.offset = offset) ↔
      Fits (tp.count * period.num) ∧ tp.second + offset ≠ -1 ∧ Fits (tp.second + 1) ∧
        Fits offset := by
  have hinfo : ∀ isdst, (∃ info,
      getSysInfo tp.second (tp.second + offset) isdst = .ok info ∧ info.offset = offset) ↔
        Fits (tp.second + 1) ∧ Fits offset := by
    intro isdst
    have hsys := @getSysInfo_ok_iff tp.second (tp.second + offset) isdst
    rwa [add_sub_cancel_left] at hsys
  simp only [getInfo, bind_ok_iff, floor_ok_iff]
  constructor
  · rintro ⟨info, ⟨_, ⟨hticks, rfl⟩, ⟨secs, isdst⟩, hcommon, hsys⟩, hoffset⟩
    obtain ⟨hnot, rfl⟩ := (toLocalCommon_ok_iff hzone hrange).1 ⟨isdst, hcommon⟩
    exact ⟨hticks, hnot, (hinfo isdst).1 ⟨info, hsys, hoffset⟩⟩
  · rintro ⟨hticks, hnot, hfits⟩
    obtain ⟨isdst, hcommon⟩ := (toLocalCommon_ok_iff hzone hrange).2 ⟨hnot, rfl⟩
    obtain ⟨info, hsys, hoffset⟩ := (hinfo isdst).2 hfits
    exact ⟨info, ⟨_, ⟨hticks, rfl⟩, (_, isdst), hcommon, hsys⟩, hoffset⟩

end Fixed

/-- The time point becomes the local time `offset` seconds later, comes back from there,
and has the offset in its information, all without an exception. -/
def RoundTrips {Fields : Type*} (lib : CLibrary Fields) (offset : ℤ) {period : Period}
    (tp : TimePoint period) : Prop :=
  ∃ localTp back info,
    toLocal lib tp = .ok localTp ∧ localTp.inSeconds = tp.inSeconds + offset ∧
      toSys lib localTp = .ok back ∧ back.inSeconds = tp.inSeconds ∧
      getInfo lib tp = .ok info ∧ info.offset = offset

/-- The time point and its local time have 64 bits, and so have the seconds that they
are in, in ticks; the following second and the offset have them as numbers of seconds. -/
structure Representable (offset : ℤ) {period : Period} (tp : TimePoint period) : Prop where
  ticks : Fits (tp.count * period.num)
  floor : Fits (tp.second * period.den)
  localTicks : Fits (tp.count * period.num + offset * period.den)
  localFloor : Fits ((tp.second + offset) * period.den)
  following : Fits (tp.second + 1)
  offset : Fits offset

/-- Every time point makes the round trip as long as the arithmetic is in range, but
those in two seconds: the second `-1` of the system time, and the one of the local
time. -/
theorem roundTrips_iff {Fields : Type*} {lib : CLibrary Fields} {offset : ℤ}
    (hzone : FixedZone lib offset) {period : Period} {tp : TimePoint period}
    (hrange : InRange lib offset tp.second) :
    RoundTrips lib offset tp ↔
      Representable offset tp ∧ tp.second ≠ -1 ∧ tp.second + offset ≠ -1 := by
  have hinfo := getInfo_ok_iff hzone hrange
  constructor
  · rintro ⟨localTp, back, info, htoLocal, -, htoSys, -, hgetInfo⟩
    obtain ⟨hticks, hfloor, hlocalSecond, hlocalFloor, hcount⟩ :=
      (toLocal_ok_iff hzone hrange).1 htoLocal
    have hsecond := second_moved hcount
    obtain ⟨-, -, hnot, -⟩ := (toSys_ok_iff hzone hrange hsecond).1 htoSys
    obtain ⟨-, -, hfollowing, hoffset⟩ := hinfo.1 ⟨info, hgetInfo⟩
    have hlocalTicks : Fits (tp.count * period.num + offset * period.den) :=
      hcount ▸ localTp.fits
    exact ⟨⟨hticks, hfloor, hlocalTicks, hlocalFloor, hfollowing, hoffset⟩, hnot, hlocalSecond⟩
  · rintro ⟨⟨hticks, hfloor, hlocalTicks, hlocalFloor, hfollowing, hoffset⟩, hnot, hlocalSecond⟩
    let localTp : TimePoint period.withSeconds := ⟨_, hlocalTicks⟩
    have hcount : localTp.count = tp.count * period.num + offset * period.den := rfl
    let back : TimePoint period.withSeconds.withSeconds := ⟨_, hticks⟩
    have hback : back.count =
        localTp.count * period.withSeconds.num + -offset * period.withSeconds.den := by
      change tp.count * period.num =
        (tp.count * period.num + offset * period.den) * ((1 : ℕ) : ℤ) + -offset * period.den
      rw [Nat.cast_one]
      ring
    obtain ⟨info, hgetInfo⟩ := hinfo.2 ⟨hticks, hlocalSecond, hfollowing, hoffset⟩
    have hlocalCount : Fits (localTp.count * period.withSeconds.num) := by
      rw [show period.withSeconds.num = 1 from rfl, Nat.cast_one, mul_one]
      exact hlocalTicks
    refine ⟨localTp, back, info,
      (toLocal_ok_iff hzone hrange).2 ⟨hticks, hfloor, hlocalSecond, hlocalFloor, hcount⟩,
      inSeconds_moved hcount,
      (toSys_ok_iff hzone hrange (second_moved hcount)).2
        ⟨hlocalCount, hlocalFloor, hnot, hfloor, hback⟩, ?_, hgetInfo⟩
    rw [inSeconds_moved hback, inSeconds_moved hcount]
    push_cast
    ring

/-! ## The second before the epoch -/

/-- A C library for a zone with a fixed offset, whose calendar has the number of the day
and the second within it. -/
def dayLibrary (offset : ℤ) : CLibrary (ℤ × ℤ) where
  localtimeR t := some ⟨((t + offset) / 86400, (t + offset) % 86400), 0⟩
  gmtimeR t := some ⟨(t / 86400, t % 86400), 0⟩
  timegm tm := tm.fields.1 * 86400 + tm.fields.2
  mktime tm := (tm.fields.1 * 86400 + tm.fields.2 - offset, 0)

def dayLibrary_fixedZone (offset : ℤ) : FixedZone (dayLibrary offset) offset where
  brokenDown t := (t / 86400, t % 86400)
  localtimeR_eq {t tm} hlocal := by
    rw [← Option.some.inj hlocal]
  gmtimeR_eq {t tm} hgm := by
    rw [← Option.some.inj hgm]
  timegm_eq t _ := Int.ediv_mul_add_emod t 86400
  mktime_eq t _ := by
    change (t + offset) / 86400 * 86400 + (t + offset) % 86400 - offset = t
    rw [Int.ediv_mul_add_emod, add_sub_cancel_right]

def milliseconds : Period := ⟨1, 1000, by decide, by decide, by decide⟩

/-- An hour ahead, 1.5 seconds before the epoch. -/
theorem roundTrips_before_epoch :
    RoundTrips (dayLibrary 3600) 3600 (⟨-1500, by decide⟩ : TimePoint milliseconds) :=
  (roundTrips_iff (dayLibrary_fixedZone 3600) ⟨rfl, rfl⟩).2
    ⟨⟨by decide, by decide, by decide, by decide, by decide, by decide⟩, by decide⟩

/-- In a zone without an offset the second before the epoch is in range, and yet has no
local time; an hour ahead it has one, which does not come back. -/
theorem second_before_epoch_throws :
    InRange (dayLibrary 0) 0 (-1) ∧
      toLocal (dayLibrary 0) (⟨-1, by decide⟩ : TimePoint milliseconds) =
        .error (.thrown "epoch cannot be calculated") ∧
      toSys (dayLibrary 3600) (⟨3599000, by decide⟩ : TimePoint milliseconds) =
        .error (.thrown "epoch cannot be calculated") := by
  have hsecond : (⟨3599000, by decide⟩ : TimePoint milliseconds).second = 3599 := rfl
  refine ⟨⟨rfl, rfl⟩, convert_error (by decide) (by decide) rfl,
    convert_error (by decide) (by decide) ?_⟩
  rw [hsecond]
  rfl

end Nstl.CTimezone
