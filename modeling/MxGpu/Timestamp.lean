import MxGpu.Calendar

/- UTC seconds as dates: of the EEPROM (`libgv/core/amdgv_ras_eeprom.c`, `rascore/ras_umc.c`) and of
CPER records (`libgv/core/amdgv_cper.c`). -/
namespace MxGpu.Timestamp

open Calendar

/-- `days_in_month`, with the 29 days that February has in leap years. -/
def daysInMonths (year : Nat) : List Nat :=
  [31, if IsLeap year then 29 else 28, 31, 30, 31, 30, 31, 31, 30, 31, 30, 31]

def monthLoop : List Nat → Nat → Nat → Nat × Nat
  | [], days, month => (days, month)
  | daysInMonth :: rest, days, month =>
    if daysInMonth ≤ days then monthLoop rest (days - daysInMonth) (month + 1) else (days, month)

structure UtcDatetime where
  year : Nat
  month : Nat
  day : Nat
  hour : Nat
  minute : Nat
  second : Nat
  deriving DecidableEq

/-- The loop over the years of `amdgv_utc_to_datetime_components`. -/
def yearLoop (days year : Nat) : Nat × Nat :=
  if 365 ≤ days then
    let daysInYear := if IsLeap year then 366 else 365
    if days < daysInYear then (days, year) else yearLoop (days - daysInYear) (year + 1)
  else (days, year)
termination_by days
decreasing_by split <;> omega

/-- `amdgv_utc_to_datetime_components`; `days` has 32 bits. -/
def utcToDatetimeComponents (utcTimestamp : Nat) : UtcDatetime :=
  let days := utcTimestamp / 86400 % 2 ^ 32
  let remainingSeconds := utcTimestamp % 86400
  let (daysOfYear, year) := yearLoop days 1970
  let (daysOfMonth, month) := monthLoop (daysInMonths year) daysOfYear 1
  { year, month
    day := daysOfMonth + 1
    hour := remainingSeconds / 3600
    minute := remainingSeconds % 3600 / 60
    second := remainingSeconds % 60 }

def utcToEepromFormat (utcTimestamp : Nat) : Nat :=
  let dt := utcToDatetimeComponents utcTimestamp
  let year := if dt.year ≤ 2000 then 2000 else dt.year
  let year := if 2031 ≤ year then 2031 else year
  (dt.second + dt.minute * 2 ^ 6 + dt.hour * 2 ^ 12 + dt.day * 2 ^ 17 + dt.month * 2 ^ 23 +
    (year - 2000) * 2 ^ 27) % 2 ^ 64 % 2 ^ 32

/-- The loop over the years of `amdgv_cper_fill_timestamp` and of
`ras_core_convert_timestamp_to_time`. -/
def cperYearLoop (days year : Nat) : Nat × Nat :=
  if 365 ≤ days then
    if IsLeap year then
      if days < 366 then (days, year) else cperYearLoop (days - 366) (year + 1)
    else cperYearLoop (days - 365) (year + 1)
  else (days, year)
termination_by days
decreasing_by all_goals omega

/-- `struct cper_timestamp`; each field has eight bits. -/
structure CperTimestamp where
  seconds : Nat
  minutes : Nat
  hours : Nat
  day : Nat
  month : Nat
  year : Nat
  century : Nat
  deriving DecidableEq

def cperFillTimestamp (utcTimestamp : Nat) : CperTimestamp :=
  let (daysOfYear, year) := cperYearLoop (utcTimestamp / 86400) 1970
  let (daysOfMonth, month) := monthLoop (daysInMonths year) daysOfYear 0
  let remainingSeconds := utcTimestamp % 86400
  { seconds := remainingSeconds % 60 % 2 ^ 8
    minutes := remainingSeconds % 3600 / 60 % 2 ^ 8
    hours := remainingSeconds / 3600 % 2 ^ 8
    day := (daysOfMonth + 1) % 2 ^ 8
    month := (month + 1) % 2 ^ 8
    century := year / 100 % 2 ^ 8
    year := year % 100 % 2 ^ 8 }

structure RasTime where
  tmSec : Int
  tmMin : Int
  tmHour : Int
  tmMday : Int
  tmMon : Int
  tmYear : Int
  deriving DecidableEq

/-- A conversion to `int`. -/
def toInt32 (value : Nat) : Int := (BitVec.ofNat 32 value).toInt

/-- `ras_core_convert_timestamp_to_time`; `days` is an `int`, and when it is negative there is no
year and no month to subtract. -/
def convertTimestampToTime (timestamp : Nat) : RasTime :=
  let days := toInt32 (timestamp / 86400)
  let remainingSeconds := timestamp % 86400
  let (daysOfYear, year) := cperYearLoop days.toNat 1970
  let (daysOfMonth, month) := monthLoop (daysInMonths year) daysOfYear 0
  { tmYear := year
    tmMon := month + 1
    tmMday := (if 0 ≤ days then (daysOfMonth : Int) else days) + 1
    tmHour := (remainingSeconds / 3600 : Nat)
    tmMin := (remainingSeconds % 3600 / 60 : Nat)
    tmSec := (remainingSeconds % 60 : Nat) }

/-- `ras_umc_get_eeprom_timestamp`, at a UTC second. -/
def getEepromTimestamp (utcTimestamp : Nat) : Nat :=
  if utcTimestamp = 0 then 0
  else
    let tm := convertTimestampToTime utcTimestamp
    let year := if tm.tmYear < 2000 then 2000 else tm.tmYear
    let year := if 2031 < year then 2031 else year
    ((tm.tmSec + tm.tmMin * 2 ^ 6 + tm.tmHour * 2 ^ 12 + tm.tmMday * 2 ^ 17 + tm.tmMon * 2 ^ 23 +
      (year - 2000) * 2 ^ 27) % 2 ^ 32).toNat

def utcDatetime (utcTimestamp : Nat) : UtcDatetime :=
  let date := Calendar.date (daysBeforeYear 1970 + utcTimestamp / 86400)
  ⟨date.year, date.month, date.day, utcTimestamp / 3600 % 24, utcTimestamp / 60 % 60,
    utcTimestamp % 60⟩

def unpackEeprom (word : Nat) : UtcDatetime :=
  ⟨2000 + word / 2 ^ 27 % 2 ^ 5, word / 2 ^ 23 % 2 ^ 4, word / 2 ^ 17 % 2 ^ 6,
    word / 2 ^ 12 % 2 ^ 5, word / 2 ^ 6 % 2 ^ 6, word % 2 ^ 6⟩

def CperTimestamp.datetime (ts : CperTimestamp) : UtcDatetime :=
  ⟨100 * ts.century + ts.year, ts.month, ts.day, ts.hours, ts.minutes, ts.seconds⟩

def InEepromRange (utcTimestamp : Nat) : Prop :=
  2000 ≤ (utcDatetime utcTimestamp).year ∧ (utcDatetime utcTimestamp).year ≤ 2031

def UtcDatetime.date (dt : UtcDatetime) : Date := ⟨dt.year, dt.month, dt.day⟩

structure Agrees (utcTimestamp : Nat) : Prop where
  valid : (utcToDatetimeComponents utcTimestamp).date.Valid
  components : utcToDatetimeComponents utcTimestamp = utcDatetime utcTimestamp
  cper : (cperFillTimestamp utcTimestamp).datetime = utcToDatetimeComponents utcTimestamp
  decodes : InEepromRange utcTimestamp →
    unpackEeprom (utcToEepromFormat utcTimestamp) = utcDatetime utcTimestamp ∧
      utcToEepromFormat utcTimestamp < 2 ^ 32
  uniras : InEepromRange utcTimestamp →
    getEepromTimestamp utcTimestamp = utcToEepromFormat utcTimestamp
  monotone : ∀ later, utcTimestamp < later → InEepromRange utcTimestamp → InEepromRange later →
    utcToEepromFormat utcTimestamp < utcToEepromFormat later

section Loops

theorem daysInMonths_eq (year : Nat) :
    daysInMonths year = (List.range 12).map fun month => daysInMonth year (month + 1) := rfl

theorem monthLoop_eq {months : List Nat} {days : Nat} (month : Nat) (inside : days < months.sum) :
    ∃ (before after : List Nat) (length rest : Nat), months = before ++ length :: after ∧
      days = before.sum + rest ∧ rest < length ∧
      monthLoop months days month = (rest, month + before.length) := by
  induction months generalizing days month with
  | nil => exact absurd inside (Nat.not_lt_zero _)
  | cons length months ih =>
    unfold monthLoop
    split
    · rename_i beyond
      have further : days - length < months.sum := by
        rw [List.sum_cons] at inside
        omega
      obtain ⟨before, after, found, rest, split, sum, short, stops⟩ := ih (month + 1) further
      refine ⟨length :: before, after, found, rest, by rw [split, List.cons_append], ?_, short, ?_⟩
      · rw [List.sum_cons]
        omega
      · rw [stops, List.length_cons, Nat.add_assoc, Nat.add_comm 1]
    · rename_i within
      exact ⟨[], months, length, days, rfl, by simp, by omega, rfl⟩

theorem monthLoop_date {year days : Nat} (first : Nat) (inside : days < daysInYear year) :
    ∃ month day, monthLoop (daysInMonths year) days first = (day, first + month) ∧
      date (daysBeforeYear year + days) = ⟨year, month + 1, day + 1⟩ := by
  have whole : (daysInMonths year).sum = daysInYear year := by
    rw [daysInMonths_eq]
    exact daysBeforeMonth_twelve year
  obtain ⟨before, after, length, day, split, sum, short, stops⟩ :=
    monthLoop_eq first (whole ▸ inside)
  refine ⟨before.length, day, stops, ?_⟩
  rw [daysInMonths_eq] at split
  have count := congrArg List.length split
  rw [List.length_map, List.length_range, List.length_append, List.length_cons] at count
  have elapsed : before.sum = daysBeforeMonth year before.length := by
    have front := congrArg (List.take before.length) split
    rw [List.take_left, ← List.map_take, List.take_range, Nat.min_eq_left (by omega)] at front
    rw [← front]
    simp [daysBeforeMonth]
  have month : length = daysInMonth year (before.length + 1) := by
    have here := congrArg (fun months => months[before.length]?) split
    simp only [List.getElem?_map, List.getElem?_range (by omega : before.length < 12),
      Option.map_some, List.getElem?_append_right (Nat.le_refl _), Nat.sub_self,
      List.getElem?_cons_zero, Option.some.injEq] at here
    exact here.symm
  rw [sum, elapsed, ← Nat.add_assoc]
  exact date_eq (by omega) (month ▸ short)

structure InYear (days year : Nat) (stops : Nat × Nat) : Prop where
  inside : stops.1 < daysInYear stops.2
  same : daysBeforeYear stops.2 + stops.1 = daysBeforeYear year + days

theorem InYear.here {days year : Nat} (inside : days < daysInYear year) :
    InYear days year (days, year) := ⟨inside, rfl⟩

theorem InYear.step {days year length : Nat} {stops : Nat × Nat} (whole : daysInYear year = length)
    (beyond : length ≤ days) (later : InYear (days - length) (year + 1) stops) :
    InYear days year stops := by
  refine ⟨later.inside, ?_⟩
  rw [later.same, daysBeforeYear_succ]
  omega

theorem yearLoop_inYear (days year : Nat) : InYear days year (yearLoop days year) := by
  fun_induction yearLoop days year with
  | case1 days year many length within => exact .here within
  | case2 days year many length beyond ih => exact .step rfl (Nat.le_of_not_lt beyond) ih
  | case3 days year few =>
    have bounds := daysInYear_bounds year
    exact .here (by omega)

theorem cperYearLoop_inYear (days year : Nat) : InYear days year (cperYearLoop days year) := by
  fun_induction cperYearLoop days year with
  | case1 days year many leap within =>
    have length : daysInYear year = 366 := if_pos leap
    exact .here (length ▸ within)
  | case2 days year many leap beyond ih =>
    have length : daysInYear year = 366 := if_pos leap
    exact .step length (Nat.le_of_not_lt beyond) ih
  | case3 days year many common ih =>
    have length : daysInYear year = 365 := if_neg common
    exact .step length many ih
  | case4 days year few =>
    have bounds := daysInYear_bounds year
    exact .here (by omega)

theorem InYear.date {days : Nat} {stops : Nat × Nat} (inYear : InYear days 1970 stops)
    (first : Nat) : ∃ month day,
      monthLoop (daysInMonths stops.2) stops.1 first = (day, first + month) ∧
        Calendar.date (daysBeforeYear 1970 + days) = ⟨stops.2, month + 1, day + 1⟩ := by
  obtain ⟨month, day, loops, found⟩ := monthLoop_date first inYear.inside
  exact ⟨month, day, loops, inYear.same ▸ found⟩

end Loops

section Dates

variable {utc : Nat}

def unixDate (days : Nat) : Date := Calendar.date (daysBeforeYear 1970 + days)

theorem components_eq (utc : Nat) : utcToDatetimeComponents utc =
    { utcDatetime utc with
      year := (unixDate (utc / 86400 % 2 ^ 32)).year
      month := (unixDate (utc / 86400 % 2 ^ 32)).month
      day := (unixDate (utc / 86400 % 2 ^ 32)).day } := by
  obtain ⟨month, day, loops, found⟩ := (yearLoop_inYear (utc / 86400 % 2 ^ 32) 1970).date 1
  have hour : utc % 86400 / 3600 = utc / 3600 % 24 := by omega
  have minute : utc % 86400 % 3600 / 60 = utc / 60 % 60 := by omega
  have second : utc % 86400 % 60 = utc % 60 := by omega
  unfold utcToDatetimeComponents unixDate
  simp only [loops, found, hour, minute, second, Nat.add_comm 1 month]
  rfl

theorem components_date (utc : Nat) :
    (utcToDatetimeComponents utc).date = unixDate (utc / 86400 % 2 ^ 32) := by
  rw [components_eq]
  rfl

theorem components_iff :
    utcToDatetimeComponents utc = utcDatetime utc ↔ utc / 86400 < 2 ^ 32 := by
  constructor
  · intro right
    have same : unixDate (utc / 86400 % 2 ^ 32) = unixDate (utc / 86400) :=
      (components_date utc).symm.trans (congrArg UtcDatetime.date right)
    have days := Nat.add_left_cancel (date_injective same)
    rw [← days]
    exact Nat.mod_lt _ (by decide)
  · intro few
    rw [components_eq, Nat.mod_eq_of_lt few]
    rfl

theorem unixDate_bounds (days : Nat) : 1 ≤ (unixDate days).month ∧ (unixDate days).month ≤ 12 ∧
    1 ≤ (unixDate days).day ∧ (unixDate days).day ≤ 31 := by
  obtain ⟨⟨some_, last⟩, first, inside⟩ := date_valid (daysBeforeYear 1970 + days)
  have short := (daysInMonth_bounds (unixDate days).year (unixDate days).month).2
  exact ⟨some_, last, first, Nat.le_trans inside short⟩

theorem cper_eq (utc : Nat) : (cperFillTimestamp utc).datetime =
    { utcDatetime utc with
      year := 100 * ((utcDatetime utc).year / 100 % 2 ^ 8) + (utcDatetime utc).year % 100 } := by
  obtain ⟨month, day, loops, found⟩ := (cperYearLoop_inYear (utc / 86400) 1970).date 0
  obtain ⟨-, last, -, inside⟩ := unixDate_bounds (utc / 86400)
  unfold unixDate at last inside
  rw [found] at last inside
  simp only at last inside
  have hour : utc % 86400 / 3600 % 2 ^ 8 = utc / 3600 % 24 := by omega
  have minute : utc % 86400 % 3600 / 60 % 2 ^ 8 = utc / 60 % 60 := by omega
  have second : utc % 86400 % 60 % 2 ^ 8 = utc % 60 := by omega
  have months : (0 + month + 1) % 2 ^ 8 = month + 1 := by omega
  have days : (day + 1) % 2 ^ 8 = day + 1 := by omega
  have year : ∀ year : Nat, year % 100 % 2 ^ 8 = year % 100 := by omega
  unfold cperFillTimestamp utcDatetime CperTimestamp.datetime
  simp only [loops, found, hour, minute, second, months, days, year]

theorem InEepromRange.days (range : InEepromRange utc) : utc / 86400 < 22646 := by
  by_contra late
  have days : daysBeforeYear 2032 = daysBeforeYear 1970 + 22645 := by decide
  have after : 2032 ≤ (unixDate (utc / 86400)).year := le_date_year_iff.mpr (by omega)
  exact absurd range.2 (Nat.not_le_of_lt after)

def packed (dt : UtcDatetime) : Nat :=
  dt.second + dt.minute * 2 ^ 6 + dt.hour * 2 ^ 12 + dt.day * 2 ^ 17 + dt.month * 2 ^ 23 +
    (dt.year - 2000) * 2 ^ 27

structure Fields (dt : UtcDatetime) : Prop where
  year : 2000 ≤ dt.year ∧ dt.year ≤ 2031
  month : dt.month ≤ 12
  day : dt.day ≤ 31
  hour : dt.hour < 24
  minute : dt.minute < 60
  second : dt.second < 60

theorem InEepromRange.fields (range : InEepromRange utc) : Fields (utcDatetime utc) := by
  obtain ⟨-, last, -, inside⟩ := unixDate_bounds (utc / 86400)
  exact ⟨range, last, inside, Nat.mod_lt _ (by decide), Nat.mod_lt _ (by decide),
    Nat.mod_lt _ (by decide)⟩

theorem Fields.packed_lt {dt : UtcDatetime} (fields : Fields dt) : packed dt < 2 ^ 32 := by
  obtain ⟨year, month, day, hour, minute, second⟩ := fields
  unfold packed
  omega

theorem Fields.unpack {dt : UtcDatetime} (fields : Fields dt) : unpackEeprom (packed dt) = dt := by
  obtain ⟨year, month, day, hour, minute, second⟩ := dt
  obtain ⟨⟨first, last⟩, months, days, hours, minutes, seconds⟩ := fields
  simp only at first last months days hours minutes seconds
  unfold unpackEeprom packed
  simp only [UtcDatetime.mk.injEq]
  refine ⟨?_, ?_, ?_, ?_, ?_, ?_⟩ <;> omega

theorem InEepromRange.components (range : InEepromRange utc) :
    utcToDatetimeComponents utc = utcDatetime utc := by
  have days := range.days
  exact components_iff.mpr (by omega)

theorem InEepromRange.format (range : InEepromRange utc) :
    utcToEepromFormat utc = packed (utcDatetime utc) := by
  have fields := range.fields
  have small := fields.packed_lt
  have first : (if (utcDatetime utc).year ≤ 2000 then 2000 else (utcDatetime utc).year) =
      (utcDatetime utc).year := by
    have from_ := fields.year.1
    split <;> omega
  have last : (if 2031 ≤ (utcDatetime utc).year then 2031 else (utcDatetime utc).year) =
      (utcDatetime utc).year := by
    have end_ := fields.year.2
    split <;> omega
  unfold utcToEepromFormat
  simp only [range.components, first, last]
  unfold packed at small ⊢
  rw [Nat.mod_eq_of_lt (by omega : _ < 2 ^ 64), Nat.mod_eq_of_lt small]

theorem InEepromRange.uniras (range : InEepromRange utc) :
    getEepromTimestamp utc = packed (utcDatetime utc) := by
  have few := range.days
  have fields := range.fields
  have small := fields.packed_lt
  have started : utc ≠ 0 := by
    have late : daysBeforeYear 2000 ≤ daysBeforeYear 1970 + utc / 86400 :=
      le_date_year_iff.mp range.1
    have days : daysBeforeYear 2000 = daysBeforeYear 1970 + 10957 := by decide
    omega
  have days : toInt32 (utc / 86400) = (utc / 86400 : Nat) := by
    unfold toInt32
    rw [BitVec.toInt_eq_toNat_of_lt (by rw [BitVec.toNat_ofNat]; omega), BitVec.toNat_ofNat,
      Nat.mod_eq_of_lt (by omega)]
  obtain ⟨month, day, loops, found⟩ := (cperYearLoop_inYear (utc / 86400) 1970).date 0
  have hour : utc % 86400 / 3600 = utc / 3600 % 24 := by omega
  have minute : utc % 86400 % 3600 / 60 = utc / 60 % 60 := by omega
  have second : utc % 86400 % 60 = utc % 60 := by omega
  have at_ : utcDatetime utc = ⟨(cperYearLoop (utc / 86400) 1970).2, month + 1, day + 1,
      utc / 3600 % 24, utc / 60 % 60, utc % 60⟩ := by
    unfold utcDatetime
    rw [found]
  have time : convertTimestampToTime utc = ⟨(utc % 60 : Nat), (utc / 60 % 60 : Nat),
      (utc / 3600 % 24 : Nat), (day : Int) + 1, (month : Int) + 1,
      ((cperYearLoop (utc / 86400) 1970).2 : Nat)⟩ := by
    unfold convertTimestampToTime
    simp only [days, Int.toNat_natCast, loops, Int.natCast_nonneg, if_true, hour, minute, second]
    simp
  rw [at_] at fields small ⊢
  obtain ⟨⟨first, last⟩, -⟩ := fields
  simp only at first last
  unfold packed at small ⊢
  simp only at small ⊢
  unfold getEepromTimestamp
  rw [if_neg started, time]
  simp only
  generalize (cperYearLoop (utc / 86400) 1970).2 = year at first last small ⊢
  rw [if_neg (by omega : ¬ (year : Int) < 2000), if_neg (by omega : ¬ 2031 < (year : Int))]
  omega

theorem InEepromRange.packed_lt (range : InEepromRange utc) {later : Nat} (less : utc < later)
    (range' : InEepromRange later) :
    packed (utcDatetime utc) < packed (utcDatetime later) := by
  have key : ∀ {utc}, InEepromRange utc → packed (utcDatetime utc) + 2048000 * 2 ^ 17 =
      utc % 60 + utc / 60 % 60 * 2 ^ 6 + utc / 3600 % 24 * 2 ^ 12 +
        (unixDate (utc / 86400)).key * 2 ^ 17 := by
    intro utc range
    have from_ := range.1
    unfold packed Date.key unixDate
    simp only [utcDatetime] at from_ ⊢
    omega
  have here := key range
  have there := key range'
  rcases Nat.lt_or_ge (utc / 86400) (later / 86400) with before | same
  · have order : (unixDate (utc / 86400)).key < (unixDate (later / 86400)).key :=
      date_key_strictMono (Nat.add_lt_add_left before _)
    omega
  · have day : utc / 86400 = later / 86400 := by omega
    have time : ∀ utc, utc =
        utc / 86400 * 86400 + utc / 3600 % 24 * 3600 + utc / 60 % 60 * 60 + utc % 60 := by omega
    have earlier := time utc
    have afterwards := time later
    have minute : utc / 60 % 60 < 60 ∧ later / 60 % 60 < 60 := by omega
    have second : utc % 60 < 60 ∧ later % 60 < 60 := by omega
    rw [day] at here earlier
    generalize utc / 3600 % 24 = hour at *
    generalize utc / 60 % 60 = minutes at *
    generalize utc % 60 = seconds at *
    generalize later / 3600 % 24 = hour' at *
    generalize later / 60 % 60 = minutes' at *
    generalize later % 60 = seconds' at *
    rcases Nat.lt_trichotomy hour hour' with sooner | rfl | never
    · omega
    · rcases Nat.lt_trichotomy minutes minutes' with sooner | rfl | never
      · omega
      · omega
      · omega
    · omega

end Dates

/-- The timestamps of a second are right if and only if it is before the first of January of the
year 25600, which is the first whose century has more than eight bits. -/
theorem agrees_iff (utcTimestamp : Nat) : Agrees utcTimestamp ↔ utcTimestamp < 745690752000 := by
  have bound : daysBeforeYear 25600 = daysBeforeYear 1970 + 8630680 := by decide
  have before : utcTimestamp < 745690752000 ↔ (utcDatetime utcTimestamp).year < 25600 := by
    have year : 25600 ≤ (utcDatetime utcTimestamp).year ↔
        daysBeforeYear 25600 ≤ daysBeforeYear 1970 + utcTimestamp / 86400 := le_date_year_iff
    omega
  constructor
  · intro agrees
    rw [before]
    by_contra late
    have same := congrArg UtcDatetime.year agrees.cper
    rw [agrees.components, cper_eq] at same
    simp only at same
    omega
  · intro early
    have components : utcToDatetimeComponents utcTimestamp = utcDatetime utcTimestamp :=
      components_iff.mpr (by omega)
    refine ⟨?_, components, ?_, ?_, ?_, ?_⟩
    · rw [components_date]
      exact date_valid _
    · rw [cper_eq, components]
      have year : 100 * ((utcDatetime utcTimestamp).year / 100 % 2 ^ 8) +
          (utcDatetime utcTimestamp).year % 100 = (utcDatetime utcTimestamp).year := by
        have few := before.mp early
        omega
      rw [year]
    · intro range
      rw [range.format]
      exact ⟨range.fields.unpack, range.fields.packed_lt⟩
    · intro range
      rw [range.uniras, range.format]
    · intro later less range range'
      rw [range.format, range'.format]
      exact range.packed_lt less range'

/-- After `2 ^ 32` days it is 1970 again. -/
theorem days_wrap : ¬ ∀ utcTimestamp < 2 ^ 64, Agrees utcTimestamp := by
  intro agrees
  have right := (agrees (2 ^ 32 * 86400) (by decide)).components
  rw [components_iff] at right
  revert right
  decide

end MxGpu.Timestamp
