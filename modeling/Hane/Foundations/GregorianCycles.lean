import Mathlib.Tactic.Common

/-! The 400-year cycle of the Gregorian calendar, in years whose last day is the leap day: a day of
the cycle is a century, a group of four years, a year of the group and a day of that year.
-/

namespace Hane.Foundations.GregorianCycles

def yearStart (year : Int) : Int := 365 * year + year / 4 - year / 100 + year / 400

/-- The parts of a day of the cycle. The last group of a century is without its leap day, but for
that of the last century.
-/
structure DayParts (dayOfEra century group year day : Int) : Prop where
  whole : dayOfEra = 36524 * century + 1461 * group + 365 * year + day
  centuries : 0 ≤ century ∧ century ≤ 3
  groups : 0 ≤ group ∧ group ≤ 24
  years : 0 ≤ year ∧ year ≤ 3
  days : 0 ≤ day ∧ day ≤ 365
  leap : day = 365 → year = 3 ∧ (group < 24 ∨ century = 3)

theorem DayParts.exist {dayOfEra : Int} (inside : 0 ≤ dayOfEra ∧ dayOfEra < 146097)
    : ∃ century group year day, DayParts dayOfEra century group year day := by
  obtain ⟨century, centuries, rest, below, last⟩ : ∃ century : Int, (0 ≤ century ∧ century ≤ 3)
      ∧ 0 ≤ dayOfEra - 36524 * century ∧ dayOfEra - 36524 * century ≤ 36524
      ∧ (dayOfEra - 36524 * century = 36524 → century = 3) := by
    by_cases leap : dayOfEra = 146096
    · exact ⟨3, by omega⟩
    · exact ⟨dayOfEra / 36524, by omega⟩
  obtain ⟨group, groups, rest', below'⟩ : ∃ group : Int, (0 ≤ group ∧ group ≤ 24)
      ∧ 0 ≤ dayOfEra - 36524 * century - 1461 * group
      ∧ dayOfEra - 36524 * century - 1461 * group ≤ 1460 :=
    ⟨(dayOfEra - 36524 * century) / 1461, by omega⟩
  by_cases leap : dayOfEra - 36524 * century - 1461 * group = 1460
  · exact ⟨century, group, 3, 365, by omega, centuries, groups, by omega, by omega, by omega⟩
  · exact ⟨century, group, (dayOfEra - 36524 * century - 1461 * group) / 365,
      (dayOfEra - 36524 * century - 1461 * group) % 365, by omega, centuries, groups, by omega,
      by omega, by omega⟩

theorem DayParts.yearOfEra {dayOfEra century group year day : Int}
    (parts : DayParts dayOfEra century group year day)
    : (dayOfEra - dayOfEra / 1460 + dayOfEra / 36524 - dayOfEra / 146096) / 365
        = 100 * century + 4 * group + year := by
  obtain ⟨whole, centuries, groups, years, days, leap⟩ := parts
  have first : dayOfEra / 36524 = century
      ∨ (dayOfEra / 36524 = century + 1 ∧ group = 24 ∧ year = 3 ∧ day = 365 ∧ century = 3) := by
    omega
  have second : dayOfEra / 146096 = 0
      ∨ (dayOfEra / 146096 = 1 ∧ group = 24 ∧ year = 3 ∧ day = 365 ∧ century = 3) := by
    omega
  have low : 365 * (100 * century + 4 * group + year)
      ≤ dayOfEra - dayOfEra / 1460 + dayOfEra / 36524 - dayOfEra / 146096 := by
    omega
  have high : dayOfEra - dayOfEra / 1460 + dayOfEra / 36524 - dayOfEra / 146096
      < 365 * (100 * century + 4 * group + year + 1) := by
    omega
  omega

theorem DayParts.of_year {yearOfEra day : Int} (inside : 0 ≤ yearOfEra ∧ yearOfEra < 400)
    (days : 0 ≤ day ∧ day ≤ 365)
    (leap : day = 365 → (yearOfEra + 1) % 4 = 0
      ∧ ((yearOfEra + 1) % 100 ≠ 0 ∨ (yearOfEra + 1) % 400 = 0))
    : DayParts (yearOfEra * 365 + yearOfEra / 4 - yearOfEra / 100 + day) (yearOfEra / 100)
        (yearOfEra % 100 / 4) (yearOfEra % 4) day := by
  refine ⟨by omega, by omega, by omega, by omega, days, fun last => ?_⟩
  have rule := leap last
  omega

/-- The days of a cycle are fewer than the next cycle starts after. -/
theorem DayParts.inside {dayOfEra century group year day : Int}
    (parts : DayParts dayOfEra century group year day)
    : 0 ≤ dayOfEra ∧ dayOfEra < 146097 := by
  obtain ⟨whole, centuries, groups, years, days, leap⟩ := parts
  omega

theorem yearStart_eq (year : Int)
    : yearStart year = year / 400 * 146097
        + (year % 400 * 365 + year % 400 / 4 - year % 400 / 100) := by
  rw [yearStart]
  omega

theorem yearStart_succ (year : Int)
    : yearStart (year + 1) = yearStart year
        + if ((year + 1) % 4 = 0 ∧ (year + 1) % 100 ≠ 0) ∨ (year + 1) % 400 = 0 then 366 else 365 := by
  rw [yearStart, yearStart]
  split <;> omega

theorem yearStart_add_le {first second : Int} (before : first ≤ second)
    : yearStart first + 365 * (second - first) ≤ yearStart second := by
  rw [yearStart, yearStart]
  omega

end Hane.Foundations.GregorianCycles
