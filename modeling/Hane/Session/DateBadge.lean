import Hane.Foundations.GregorianCycles
import Mathlib.Tactic.IntervalCases

/-! Calendar dates as day counts since the Unix epoch. Years are `i32`s, and the counts of their days
stay far inside an `i64`.
-/

namespace Hane.Session

open Hane.Foundations.GregorianCycles

-- Dates

/-- A calendar date, with no time zone. -/
structure CalendarDate where
  year : Int
  month : Nat
  day : Nat
deriving DecidableEq, Repr

def isLeapYear (year : Int) : Bool :=
  (year.tmod 4 == 0 && year.tmod 100 != 0) || year.tmod 400 == 0

def daysInMonth (year : Int) (month : Nat) : Nat :=
  match month with
  | 1 | 3 | 5 | 7 | 8 | 10 | 12 => 31
  | 4 | 6 | 9 | 11 => 30
  | 2 => if isLeapYear year = true then 29 else 28
  | _ => 0

def isValidCalendarDate (year : Int) (month day : Nat) : Bool :=
  (1 ≤ month && month ≤ 12) && 1 ≤ day && day ≤ daysInMonth year month

/-- Days since 1970-01-01; divisions of `i64`s truncate. -/
def daysFromCivil (year : Int) (month day : Nat) : Int :=
  let y := year - if month ≤ 2 then 1 else 0
  let era := (if y ≥ 0 then y else y - 399).tdiv 400
  let yearOfEra := y - era * 400
  let monthIndex := ((month : Int) + 9).tmod 12
  let dayOfYear := (153 * monthIndex + 2).tdiv 5 + day - 1
  let dayOfEra := yearOfEra * 365 + yearOfEra.tdiv 4 - yearOfEra.tdiv 100 + dayOfYear
  era * 146097 + dayOfEra - 719468

/-- In the range of an `i32`. -/
def InI32 (n : Int) : Prop := -2147483648 ≤ n ∧ n ≤ 2147483647

instance (n : Int) : Decidable (InI32 n) := inferInstanceAs (Decidable (_ ∧ _))

/-- In the range of a `u32`. -/
def InU32 (n : Int) : Prop := 0 ≤ n ∧ n ≤ 4294967295

instance (n : Int) : Decidable (InU32 n) := inferInstanceAs (Decidable (_ ∧ _))

/-- The date so many days after the epoch; what does not fit its type becomes a default. -/
def civilFromDays (days : Int) : CalendarDate :=
  let z := days + 719468
  let era := (if z ≥ 0 then z else z - 146096).tdiv 146097
  let dayOfEra := z - era * 146097
  let yearOfEra :=
    (dayOfEra - dayOfEra.tdiv 1460 + dayOfEra.tdiv 36524 - dayOfEra.tdiv 146096).tdiv 365
  let year := yearOfEra + era * 400
  let dayOfYear := dayOfEra - (365 * yearOfEra + yearOfEra.tdiv 4 - yearOfEra.tdiv 100)
  let monthIndex := (5 * dayOfYear + 2).tdiv 153
  let day := dayOfYear - (153 * monthIndex + 2).tdiv 5 + 1
  let month := if monthIndex < 10 then monthIndex + 3 else monthIndex - 9
  let year := if month ≤ 2 then year + 1 else year
  { year := if InI32 year then year else 0
    month := if InU32 month then month.toNat else 1
    day := if InU32 day then day.toNat else 1 }

namespace CalendarDate

def new (year : Int) (month day : Nat) : Option CalendarDate :=
  if isValidCalendarDate year month day = true then some ⟨year, month, day⟩ else none

def days (date : CalendarDate) : Int := daysFromCivil date.year date.month date.day

/-- Sunday is 0. `rem_euclid` is never negative. -/
def weekdayIndex (date : CalendarDate) : Nat := ((date.days + 4) % 7).toNat

def mondayWeekStart (date : CalendarDate) : Int :=
  let weekday : Int := date.weekdayIndex
  let daysSinceMonday := (weekday + 6).tmod 7
  date.days - daysSinceMonday

-- The calendar

def Valid (date : CalendarDate) : Prop :=
  isValidCalendarDate date.year date.month date.day = true

def next (date : CalendarDate) : CalendarDate :=
  if date.day < daysInMonth date.year date.month then { date with day := date.day + 1 }
  else if date.month < 12 then ⟨date.year, date.month + 1, 1⟩
  else ⟨date.year + 1, 1, 1⟩

/-- The order of the calendar. -/
def Before (first second : CalendarDate) : Prop :=
  first.year < second.year ∨ first.year = second.year
    ∧ (first.month < second.month ∨ first.month = second.month ∧ first.day < second.day)

/-- Two dates are among the seven days that start with one Monday. -/
def SameWeek (first second : CalendarDate) : Prop :=
  ∃ monday : CalendarDate, monday.Valid ∧ monday.weekdayIndex = 1
    ∧ ∃ i < 7, ∃ j < 7, first = next^[i] monday ∧ second = next^[j] monday

end CalendarDate

theorem isLeapYear_iff (year : Int)
    : isLeapYear year = true ↔ (year % 4 = 0 ∧ year % 100 ≠ 0) ∨ year % 400 = 0 := by
  have divides : ∀ n : Int, year.tmod n = 0 ↔ year % n = 0 := fun n => by
    rw [← Int.dvd_iff_tmod_eq_zero, Int.dvd_iff_emod_eq_zero]
  simp [isLeapYear, divides]

namespace CalendarDate

/-- The year that begins in March and ends with the leap day. -/
def marchYear (date : CalendarDate) : Int := date.year - if date.month ≤ 2 then 1 else 0

def marchDay (date : CalendarDate) : Int :=
  (153 * (((date.month : Int) + 9) % 12) + 2) / 5 + date.day - 1

theorem floor_years (year : Int)
    : (if year ≥ 0 then year else year - 399).tdiv 400 = year / 400 := by
  split
  case isTrue sign => rw [Int.tdiv_eq_ediv_of_nonneg sign]
  case isFalse sign =>
    rw [show year - 399 = -(399 - year) by omega, Int.neg_tdiv,
      Int.tdiv_eq_ediv_of_nonneg (by omega)]
    omega

theorem floor_days (day : Int)
    : (if day ≥ 0 then day else day - 146096).tdiv 146097 = day / 146097 := by
  split
  case isTrue sign => rw [Int.tdiv_eq_ediv_of_nonneg sign]
  case isFalse sign =>
    rw [show day - 146096 = -(146096 - day) by omega, Int.neg_tdiv,
      Int.tdiv_eq_ediv_of_nonneg (by omega)]
    omega

theorem days_eq (date : CalendarDate)
    : date.days = yearStart date.marchYear + date.marchDay - 719468 := by
  have inside := Int.emod_nonneg date.marchYear (by omega : (400 : Int) ≠ 0)
  have rest : date.marchYear - date.marchYear / 400 * 400 = date.marchYear % 400 := by omega
  have month := Int.emod_nonneg ((date.month : Int) + 9) (by omega : (12 : Int) ≠ 0)
  have whole : date.days = date.marchYear / 400 * 146097
      + ((date.marchYear % 400) * 365 + (date.marchYear % 400).tdiv 4
        - (date.marchYear % 400).tdiv 100
        + ((153 * (((date.month : Int) + 9).tmod 12) + 2).tdiv 5 + date.day - 1)) - 719468 := by
    rw [← rest, ← floor_years]
    rfl
  rw [whole, yearStart_eq, marchDay, Int.tmod_eq_emod_of_nonneg (by omega),
    Int.tdiv_eq_ediv_of_nonneg inside, Int.tdiv_eq_ediv_of_nonneg inside,
    Int.tdiv_eq_ediv_of_nonneg (by omega)]
  omega

def marchMonth (date : CalendarDate) : Int := ((date.month : Int) + 9) % 12

/-- What a valid date says about its March year: its day is of its month there, and only a leap year
has the last one.
-/
structure March (date : CalendarDate) : Prop where
  month : 1 ≤ date.month ∧ date.month ≤ 12
  start : (153 * date.marchMonth + 2) / 5 ≤ date.marchDay
  stop : date.marchMonth < 11 → date.marchDay < (153 * (date.marchMonth + 1) + 2) / 5
  last : date.marchDay ≤ 365
  leap : date.marchDay = 365 → ((date.marchYear + 1) % 4 = 0 ∧ (date.marchYear + 1) % 100 ≠ 0)
    ∨ (date.marchYear + 1) % 400 = 0

theorem Valid.bounds {date : CalendarDate} (valid : date.Valid)
    : (1 ≤ date.month ∧ date.month ≤ 12) ∧ 1 ≤ date.day
      ∧ date.day ≤ daysInMonth date.year date.month := by
  simpa [Valid, isValidCalendarDate, and_assoc] using valid

theorem daysInMonth_february (year : Int)
    : daysInMonth year 2 = 28 ∨ daysInMonth year 2 = 29
        ∧ ((year % 4 = 0 ∧ year % 100 ≠ 0) ∨ year % 400 = 0) := by
  by_cases leap : isLeapYear year = true
  · exact .inr ⟨by simp [daysInMonth, leap], (isLeapYear_iff year).mp leap⟩
  · exact .inl (by simp [daysInMonth, leap])

theorem Valid.march {date : CalendarDate} (valid : date.Valid) : date.March := by
  obtain ⟨month, first, last⟩ := valid.bounds
  obtain ⟨year, number, day⟩ := date
  simp only at month first last
  have february := daysInMonth_february year
  obtain ⟨low, high⟩ := month
  interval_cases number
  case «2» =>
    refine ⟨⟨by simp, by simp⟩, ?_, ?_, ?_, ?_⟩ <;>
      simp only [marchMonth, marchDay, marchYear] <;> omega
  all_goals
    simp only [daysInMonth] at last
    refine ⟨⟨by simp, by simp⟩, ?_, ?_, ?_, ?_⟩ <;>
      simp only [marchMonth, marchDay, marchYear] <;> omega

theorem March.before_next {date : CalendarDate} (march : date.March)
    : yearStart date.marchYear + date.marchDay < yearStart (date.marchYear + 1) := by
  rw [yearStart_succ]
  have last := march.last
  have leap := march.leap
  split
  · omega
  · have short : date.marchDay ≠ 365 := fun full => by
      rename_i ordinary
      exact ordinary (leap full)
    omega

theorem March.months {first second : CalendarDate} (march : first.March) (march' : second.March)
    (before : first.marchMonth < second.marchMonth)
    : first.marchDay < second.marchDay := by
  have stop := march.stop
  have start := march'.start
  have small : second.marchMonth ≤ 11 := by
    rw [marchMonth]
    omega
  omega

/-- Earlier dates have smaller day counts. -/
theorem days_lt_of_before {first second : CalendarDate} (valid : first.Valid)
    (valid' : second.Valid) (before : first.Before second)
    : first.days < second.days := by
  have march := valid.march
  have march' := valid'.march
  have bounds := march.month
  have bounds' := march'.month
  rw [days_eq, days_eq]
  have years : first.marchYear < second.marchYear
      ∨ first.marchYear = second.marchYear ∧ (first.marchMonth < second.marchMonth
        ∨ first.marchMonth = second.marchMonth ∧ first.day < second.day) := by
    rw [Before] at before
    simp only [marchYear, marchMonth]
    split <;> split <;> omega
  rcases years with year | ⟨year, month | ⟨month, day⟩⟩
  · have next := march.before_next
    have later := yearStart_add_le (by omega : first.marchYear + 1 ≤ second.marchYear)
    have start : 0 ≤ second.marchDay := by
      have start := march'.start
      have least : 0 ≤ second.marchMonth := by
        rw [marchMonth]
        omega
      omega
    omega
  · have days := march.months march' month
    rw [year]
    omega
  · have days : first.marchDay < second.marchDay := by
      simp only [marchMonth] at month
      rw [marchDay, marchDay, month]
      omega
    rw [year]
    omega

/-- Two dates are the same or one is before the other. -/
theorem before_trichotomy (first second : CalendarDate)
    : first.Before second ∨ first = second ∨ second.Before first := by
  obtain ⟨year, month, day⟩ := first
  obtain ⟨year', month', day'⟩ := second
  simp only [Before, mk.injEq]
  omega

theorem days_lt_iff {first second : CalendarDate} (valid : first.Valid) (valid' : second.Valid)
    : first.days < second.days ↔ first.Before second := by
  refine ⟨fun less => ?_, days_lt_of_before valid valid'⟩
  rcases before_trichotomy first second with before | rfl | after
  · exact before
  · exact absurd less (lt_irrefl _)
  · exact absurd (days_lt_of_before valid' valid after) (by omega)

theorem days_injective {first second : CalendarDate} (valid : first.Valid) (valid' : second.Valid)
    (same : first.days = second.days)
    : first = second := by
  rcases before_trichotomy first second with before | rfl | after
  · exact absurd (days_lt_of_before valid valid' before) (by omega)
  · rfl
  · exact absurd (days_lt_of_before valid' valid after) (by omega)

-- The next day

theorem daysInMonth_pos {year : Int} {month : Nat} (bounds : 1 ≤ month ∧ month ≤ 12)
    : 28 ≤ daysInMonth year month := by
  have february := daysInMonth_february year
  obtain ⟨low, high⟩ := bounds
  interval_cases month
  case «2» => omega
  all_goals
    simp only [daysInMonth]
    omega

theorem Valid.next {date : CalendarDate} (valid : date.Valid) : date.next.Valid := by
  obtain ⟨month, first, last⟩ := valid.bounds
  rw [CalendarDate.next]
  split
  case isTrue within =>
    simp only [Valid, isValidCalendarDate, Bool.and_eq_true, decide_eq_true_eq]
    exact ⟨⟨⟨month.1, month.2⟩, by omega⟩, within⟩
  case isFalse =>
    split
    case isTrue within =>
      have least : 28 ≤ daysInMonth date.year (date.month + 1) := daysInMonth_pos (by omega)
      simp only [Valid, isValidCalendarDate, Bool.and_eq_true, decide_eq_true_eq]
      omega
    case isFalse => rfl

theorem march_next {date : CalendarDate} (month : 1 ≤ date.month ∧ date.month ≤ 12)
    (full : date.day = daysInMonth date.year date.month) (ordinary : date.month ≠ 2)
    : date.next.marchYear = date.marchYear ∧ date.next.marchDay = date.marchDay + 1 := by
  rw [CalendarDate.next, if_neg (by omega)]
  obtain ⟨year, number, day⟩ := date
  simp only at month full ordinary ⊢
  subst full
  obtain ⟨low, high⟩ := month
  split
  case isTrue within =>
    interval_cases number
    case «2» => exact absurd rfl ordinary
    all_goals
      simp only [marchYear, marchDay, daysInMonth]
      omega
  case isFalse last =>
    have december : number = 12 := by omega
    subst december
    simp only [marchYear, marchDay, daysInMonth]
    omega

theorem Valid.days_next {date : CalendarDate} (valid : date.Valid)
    : date.next.days = date.days + 1 := by
  obtain ⟨month, first, last⟩ := valid.bounds
  rw [days_eq, days_eq]
  by_cases within : date.day < daysInMonth date.year date.month
  · rw [CalendarDate.next, if_pos within]
    simp only [marchYear, marchDay]
    omega
  · have full : date.day = daysInMonth date.year date.month := by omega
    by_cases february : date.month = 2
    · have nextDay : date.next = ⟨date.year, 3, 1⟩ := by
        rw [CalendarDate.next, if_neg within, if_pos (by omega), february]
      have year : date.marchYear = date.year - 1 := by
        rw [marchYear, if_pos (by omega)]
      have succ := yearStart_succ (date.year - 1)
      rw [show date.year - 1 + 1 = date.year by omega] at succ
      have long : (date.day : Int) = if (date.year % 4 = 0 ∧ date.year % 100 ≠ 0)
          ∨ date.year % 400 = 0 then 29 else 28 := by
        rw [full, february, daysInMonth]
        by_cases leap : isLeapYear date.year = true
        · rw [if_pos leap, if_pos ((isLeapYear_iff _).mp leap)]
          rfl
        · rw [if_neg leap, if_neg fun rule => leap ((isLeapYear_iff _).mpr rule)]
          rfl
      have march : (⟨date.year, 3, 1⟩ : CalendarDate).marchYear = date.year := by
        simp only [marchYear]
        omega
      have start : (⟨date.year, 3, 1⟩ : CalendarDate).marchDay = 0 := by
        simp only [marchDay]
        omega
      rw [nextDay, march, start, year, marchDay, february]
      split at long <;> split at succ <;> omega
    · obtain ⟨year, day⟩ := march_next month full february
      rw [year, day]
      omega

-- Back from days

def ofMarch (year day : Int) : CalendarDate :=
  let monthIndex := (5 * day + 2) / 153
  let month := if monthIndex < 10 then monthIndex + 3 else monthIndex - 9
  { year := if month ≤ 2 then year + 1 else year
    month := month.toNat
    day := (day - (153 * monthIndex + 2) / 5 + 1).toNat }

/-- A day of a March year whose last day is there only when it is a leap day. -/
structure MarchDay (year day : Int) : Prop where
  inside : 0 ≤ day ∧ day ≤ 365
  leap : day = 365 → ((year + 1) % 4 = 0 ∧ (year + 1) % 100 ≠ 0) ∨ (year + 1) % 400 = 0

theorem MarchDay.exists (days : Int)
    : ∃ year day, MarchDay year day ∧ days + 719468 = yearStart year + day := by
  have inside : 0 ≤ (days + 719468) % 146097 ∧ (days + 719468) % 146097 < 146097 := by omega
  obtain ⟨century, group, rest, day, parts⟩ := DayParts.exist inside
  obtain ⟨whole, centuries, groups, years, dayBounds, leap⟩ := parts
  refine ⟨(days + 719468) / 146097 * 400 + (100 * century + 4 * group + rest), day,
    ⟨dayBounds, fun last => ?_⟩, ?_⟩
  · have rule := leap last
    omega
  · rw [yearStart_eq]
    have modulo : ((days + 719468) / 146097 * 400 + (100 * century + 4 * group + rest)) % 400
        = 100 * century + 4 * group + rest := by omega
    have quotient : ((days + 719468) / 146097 * 400 + (100 * century + 4 * group + rest)) / 400
        = (days + 719468) / 146097 := by omega
    have groupsOf : (100 * century + 4 * group + rest) / 4 = 25 * century + group := by omega
    have centuriesOf : (100 * century + 4 * group + rest) / 100 = century := by omega
    rw [modulo, quotient, groupsOf, centuriesOf]
    omega

theorem MarchDay.index {year day : Int} (march : MarchDay year day)
    : 0 ≤ (5 * day + 2) / 153 ∧ (5 * day + 2) / 153 ≤ 11 := by
  have inside := march.inside
  omega

theorem MarchDay.valid {year day : Int} (march : MarchDay year day) : (ofMarch year day).Valid := by
  obtain ⟨low, high⟩ := march.index
  obtain ⟨inside, leap⟩ := march
  have february := daysInMonth_february (year + 1)
  generalize same : (5 * day + 2) / 153 = index at low high
  simp only [Valid, isValidCalendarDate, ofMarch, same, Bool.and_eq_true, decide_eq_true_eq]
  interval_cases index
  case «11» =>
    by_cases last : day = 365
    · have long : daysInMonth (year + 1) 2 = 29 := by
        rw [daysInMonth, if_pos ((isLeapYear_iff _).mpr (leap last))]
      refine ⟨⟨by omega, by omega⟩, ?_⟩
      have length : daysInMonth (if (11 : Int) - 9 ≤ 2 then year + 1 else year) ((11 : Int) - 9).toNat
          = 29 := long
      simp only [show ¬(11 : Int) < 10 by omega, if_false]
      rw [length]
      omega
    · have short : 28 ≤ daysInMonth (year + 1) 2 := by omega
      refine ⟨⟨by omega, by omega⟩, ?_⟩
      have length : daysInMonth (if (11 : Int) - 9 ≤ 2 then year + 1 else year) ((11 : Int) - 9).toNat
          = daysInMonth (year + 1) 2 := rfl
      simp only [show ¬(11 : Int) < 10 by omega, if_false]
      rw [length]
      omega
  all_goals
    refine ⟨⟨by omega, by omega⟩, ?_⟩
    simp [daysInMonth]
    omega

theorem MarchDay.march {year day : Int} (march : MarchDay year day)
    : (ofMarch year day).marchYear = year ∧ (ofMarch year day).marchDay = day := by
  obtain ⟨low, high⟩ := march.index
  have inside := march.inside
  generalize same : (5 * day + 2) / 153 = index at low high
  simp only [marchYear, marchDay, ofMarch, same]
  interval_cases index <;> omega

theorem MarchDay.days {year day : Int} (march : MarchDay year day)
    : (ofMarch year day).days = yearStart year + day - 719468 := by
  rw [days_eq, march.march.1, march.march.2]

theorem Valid.ofMarch_eq {date : CalendarDate} (valid : date.Valid)
    : MarchDay date.marchYear date.marchDay ∧ ofMarch date.marchYear date.marchDay = date := by
  have march := valid.march
  have inside : MarchDay date.marchYear date.marchDay := by
    refine ⟨⟨?_, march.last⟩, march.leap⟩
    have start := march.start
    have least : 0 ≤ date.marchMonth := by
      rw [marchMonth]
      omega
    omega
  exact ⟨inside, days_injective inside.valid valid (inside.days.trans (days_eq date).symm)⟩

theorem MarchDay.parts {year day : Int} (march : MarchDay year day)
    : DayParts (year % 400 * 365 + year % 400 / 4 - year % 400 / 100 + day)
        (year % 400 / 100) (year % 400 % 100 / 4) (year % 400 % 4) day := by
  refine DayParts.of_year (by omega) march.inside fun last => ?_
  have rule := march.leap last
  omega

theorem MarchDay.yearOfEra {year day : Int} (march : MarchDay year day)
    : let dayOfEra := year % 400 * 365 + year % 400 / 4 - year % 400 / 100 + day
      (dayOfEra - dayOfEra.tdiv 1460 + dayOfEra.tdiv 36524 - dayOfEra.tdiv 146096).tdiv 365
        = year % 400 := by
  intro dayOfEra
  have inside := march.parts.inside
  have found := march.parts.yearOfEra
  rw [Int.tdiv_eq_ediv_of_nonneg inside.1, Int.tdiv_eq_ediv_of_nonneg inside.1,
    Int.tdiv_eq_ediv_of_nonneg inside.1, Int.tdiv_eq_ediv_of_nonneg (by omega), found]
  omega

/-- The date of a day count whose year fits its type. -/
theorem MarchDay.civilFromDays {days year day : Int} (march : MarchDay year day)
    (same : days + 719468 = yearStart year + day) (fits : InI32 (ofMarch year day).year)
    : civilFromDays days = ofMarch year day := by
  have found := march.yearOfEra
  have inside := march.inside
  have index := march.index
  have era : (days + 719468) / 146097 = year / 400 := by
    have bounds := march.parts.inside
    rw [same, yearStart_eq]
    omega
  have rest : days + 719468 - year / 400 * 146097
      = year % 400 * 365 + year % 400 / 4 - year % 400 / 100 + day := by
    rw [same, yearStart_eq]
    omega
  have cycle : 0 ≤ year % 400 := by omega
  have dayOfYear : year % 400 * 365 + year % 400 / 4 - year % 400 / 100 + day
      - (365 * (year % 400) + year % 400 / 4 - year % 400 / 100) = day := by omega
  have years : year % 400 + year / 400 * 400 = year := by omega
  have month : (5 * day + 2).tdiv 153 = (5 * day + 2) / 153 :=
    Int.tdiv_eq_ediv_of_nonneg (by omega)
  have monthStart : (153 * ((5 * day + 2) / 153) + 2).tdiv 5 = (153 * ((5 * day + 2) / 153) + 2) / 5 :=
    Int.tdiv_eq_ediv_of_nonneg (by omega)
  simp only [Session.civilFromDays, floor_days, era, rest, found,
    Int.tdiv_eq_ediv_of_nonneg cycle, dayOfYear, years, month, monthStart]
  simp only [ofMarch] at fits ⊢
  have monthFits : InU32 (if (5 * day + 2) / 153 < 10 then (5 * day + 2) / 153 + 3
      else (5 * day + 2) / 153 - 9) := by
    unfold InU32
    omega
  have dayFits : InU32 (day - (153 * ((5 * day + 2) / 153) + 2) / 5 + 1) := by
    unfold InU32
    omega
  rw [if_pos fits, if_pos monthFits, if_pos dayFits]

theorem Valid.civilFromDays {date : CalendarDate} (valid : date.Valid) (fits : InI32 date.year)
    : civilFromDays date.days = date := by
  obtain ⟨march, same⟩ := valid.ofMarch_eq
  have days : date.days + 719468 = yearStart date.marchYear + date.marchDay := by
    rw [days_eq]
    omega
  rw [march.civilFromDays days (by rwa [same]), same]

/-- The day counts of the dates whose year is an `i32`. -/
def InDays (n : Int) : Prop :=
  daysFromCivil (-2147483648) 1 1 ≤ n ∧ n ≤ daysFromCivil 2147483647 12 31

/-- A day count in range comes back from its date, which is valid. -/
theorem days_civilFromDays {n : Int} (inside : InDays n)
    : (civilFromDays n).Valid ∧ InI32 (civilFromDays n).year ∧ (civilFromDays n).days = n := by
  obtain ⟨year, day, march, same⟩ := MarchDay.exists n
  have days : (ofMarch year day).days = n := by
    rw [march.days]
    omega
  have first : Valid ⟨-2147483648, 1, 1⟩ := rfl
  have last : Valid ⟨2147483647, 12, 31⟩ := rfl
  have fits : InI32 (ofMarch year day).year := by
    have low : ¬(ofMarch year day).Before ⟨-2147483648, 1, 1⟩ := by
      rw [← days_lt_iff march.valid first, days]
      exact not_lt.mpr inside.1
    have high : ¬(⟨2147483647, 12, 31⟩ : CalendarDate).Before (ofMarch year day) := by
      rw [← days_lt_iff last march.valid, days]
      exact not_lt.mpr inside.2
    simp only [Before] at low high
    unfold InI32
    omega
  rw [march.civilFromDays same fits]
  exact ⟨march.valid, fits, days⟩

-- Weeks

theorem weekdayIndex_eq (date : CalendarDate) : (date.weekdayIndex : Int) = (date.days + 4) % 7 := by
  rw [weekdayIndex]
  omega

theorem mondayWeekStart_eq (date : CalendarDate)
    : date.mondayWeekStart = date.days - (date.days + 3) % 7 := by
  simp only [mondayWeekStart, weekdayIndex_eq]
  rw [Int.tmod_eq_emod_of_nonneg (by omega)]
  omega

/-- Later days of the calendar, by induction over how much later. -/
theorem Valid.days_iterate {date : CalendarDate} (valid : date.Valid) (later : Nat)
    : (CalendarDate.next^[later] date).Valid
      ∧ (CalendarDate.next^[later] date).days = date.days + later := by
  induction later with
  | zero => exact ⟨valid, by simp⟩
  | succ later ih =>
      rw [Function.iterate_succ_apply']
      refine ⟨ih.1.next, ?_⟩
      rw [ih.1.days_next, ih.2]
      omega

theorem exists_days (n : Int) : ∃ date : CalendarDate, date.Valid ∧ date.days = n := by
  obtain ⟨year, day, march, same⟩ := MarchDay.exists n
  refine ⟨ofMarch year day, march.valid, ?_⟩
  rw [march.days]
  omega

/-- Dates share their week's start just when they share a week. -/
theorem mondayWeekStart_eq_iff {first second : CalendarDate} (valid : first.Valid)
    (valid' : second.Valid)
    : first.mondayWeekStart = second.mondayWeekStart ↔ first.SameWeek second := by
  rw [mondayWeekStart_eq, mondayWeekStart_eq]
  constructor
  · intro same
    obtain ⟨monday, start, days⟩ := exists_days (first.days - (first.days + 3) % 7)
    have weekday := weekdayIndex_eq monday
    refine ⟨monday, start, by omega, ((first.days + 3) % 7).toNat, by omega,
      ((second.days + 3) % 7).toNat, by omega, ?_, ?_⟩
    · obtain ⟨later, count⟩ := start.days_iterate ((first.days + 3) % 7).toNat
      exact days_injective valid later (by omega)
    · obtain ⟨later, count⟩ := start.days_iterate ((second.days + 3) % 7).toNat
      exact days_injective valid' later (by omega)
  · rintro ⟨monday, start, weekday, i, small, j, small', rfl, rfl⟩
    have count := (start.days_iterate i).2
    have count' := (start.days_iterate j).2
    have first := weekdayIndex_eq monday
    omega

-- The conversions

theorem new_eq_some_iff {year : Int} {month day : Nat} {date : CalendarDate}
    : new year month day = some date ↔ date = ⟨year, month, day⟩ ∧ date.Valid := by
  by_cases valid : isValidCalendarDate year month day = true
  · simp only [new, valid, if_true, Option.some.injEq]
    exact ⟨fun same => ⟨same.symm, same ▸ valid⟩, fun same => same.1.symm⟩
  · simp only [new, valid]
    refine ⟨fun none => (nomatch none), fun same => ?_⟩
    obtain ⟨rfl, valid'⟩ := same
    exact absurd valid' valid

/-- Dates and day counts convert into each other, in the order of the calendar and one day at a
time; weekdays go on by one, and weeks start on Mondays.
-/
theorem civil_days
    : (∀ year month day date, InI32 year → new year month day = some date
        → civilFromDays (daysFromCivil date.year date.month date.day) = date)
      ∧ (∀ n, InDays n → (civilFromDays n).Valid ∧ InI32 (civilFromDays n).year
        ∧ daysFromCivil (civilFromDays n).year (civilFromDays n).month (civilFromDays n).day = n)
      ∧ (∀ first second : CalendarDate, first.Valid → second.Valid
        → (first.days < second.days ↔ first.Before second))
      ∧ (∀ date : CalendarDate, date.Valid → date.next.Valid ∧ date.next.days = date.days + 1
        ∧ date.next.weekdayIndex = (date.weekdayIndex + 1) % 7)
      ∧ ∀ first second : CalendarDate, first.Valid → second.Valid
        → (first.mondayWeekStart = second.mondayWeekStart ↔ first.SameWeek second) := by
  refine ⟨?_, fun n inside => days_civilFromDays inside, fun first second => days_lt_iff,
    fun date valid => ⟨valid.next, valid.days_next, ?_⟩, fun first second => mondayWeekStart_eq_iff⟩
  · intro year month day date fits found
    obtain ⟨rfl, valid⟩ := new_eq_some_iff.mp found
    exact valid.civilFromDays fits
  · have today := weekdayIndex_eq date
    have tomorrow := weekdayIndex_eq date.next
    rw [valid.days_next] at tomorrow
    omega

/-- Witness: the leap day of 2000, which was a Tuesday. -/
theorem civil_days_leap
    : civilFromDays (daysFromCivil 2000 2 29) = ⟨2000, 2, 29⟩
      ∧ daysFromCivil (civilFromDays 11016).year (civilFromDays 11016).month
        (civilFromDays 11016).day = 11016
      ∧ CalendarDate.days ⟨2000, 2, 29⟩ < CalendarDate.days ⟨2000, 3, 1⟩
      ∧ (CalendarDate.next ⟨2000, 2, 29⟩).weekdayIndex = 3
      ∧ CalendarDate.SameWeek ⟨2000, 2, 29⟩ ⟨2000, 3, 1⟩ := by
  have leap : Valid ⟨2000, 2, 29⟩ := rfl
  have after : Valid ⟨2000, 3, 1⟩ := rfl
  refine ⟨civil_days.1 2000 2 29 ⟨2000, 2, 29⟩ (by decide) (by decide),
    (civil_days.2.1 11016 ⟨by decide, by decide⟩).2.2,
    (civil_days.2.2.1 _ _ leap after).mpr (.inr ⟨rfl, .inl (by decide)⟩), ?_,
    (civil_days.2.2.2.2 _ _ leap after).mp (by decide)⟩
  rw [(civil_days.2.2.2.1 _ leap).2.2]
  decide

end CalendarDate

end Hane.Session
