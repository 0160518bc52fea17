import Mathlib.Tactic.IntervalCases
import Mustache.Calendar

/-!
This module contains the proof that the date of a day is one that there is: it is at fault only if its year is.
-/

namespace Mustache.Date

/-- The year of a day, both counted from the beginning of 400 years. -/
def yearOfEra (n : Nat) : Nat :=
  (n - n / 1460 + n / 36524 - n / 146096) / 365

def dayOfYear (n : Nat) : Nat :=
  n - (365 * yearOfEra n + yearOfEra n / 4 - yearOfEra n / 100)

/--
How many centuries, four years and years are over before a day of 400 years, and how many days of its own year. A leap
day is the last of four years, but only the last century has one at its end.
-/
structure IsSplit (n centuries fours years days : Nat) : Prop where
  eq : n = 36524 * centuries + 1461 * fours + 365 * years + days
  centuries_le : centuries ≤ 3
  fours_le : fours ≤ 24
  years_le : years ≤ 3
  days_le : days ≤ 365
  leap : days = 365 → years = 3 ∧ (fours = 24 → centuries = 3)

variable {n centuries fours years days : Nat}

theorem exists_isSplit (h : n < 146097) : ∃ centuries fours years days, IsSplit n centuries fours years days := by
  have hcentury : ∃ centuries rest,
      n = 36524 * centuries + rest ∧ centuries ≤ 3 ∧ rest ≤ 36524 ∧ (rest = 36524 → centuries = 3) :=
    ⟨min 3 (n / 36524), n - 36524 * min 3 (n / 36524), by omega, by omega, by omega, by omega⟩
  rcases hcentury with ⟨centuries, rest, hn, hcenturies, hrest, hlast⟩
  have hyear : ∃ years days, rest % 1461 = 365 * years + days ∧ years ≤ 3 ∧ days ≤ 365 ∧ (days = 365 → years = 3) :=
    ⟨min 3 (rest % 1461 / 365), rest % 1461 - 365 * min 3 (rest % 1461 / 365), by omega, by omega, by omega, by omega⟩
  rcases hyear with ⟨years, days, hdays, hyears, hle, hleap⟩
  exact ⟨centuries, rest / 1461, years, days, by omega, hcenturies, by omega, hyears, hle, by omega⟩

namespace IsSplit

variable (h : IsSplit n centuries fours years days)
include h

theorem yearOfEra : yearOfEra n = 100 * centuries + 4 * fours + years := by
  rcases h with ⟨hn, hcenturies, hfours, hyears, hdays, hleap⟩
  -- Each step is kept away from the facts about other divisors, with which the arithmetic would be slow.
  have hcarry : (24 * centuries + fours + 365 * years + days) / 1460 ≤ days := by
    clear hn hleap
    omega
  have hrest : days - (24 * centuries + fours + 365 * years + days) / 1460 < 365 := by
    clear hn hcarry
    omega
  have hcentury : n / 36524 = centuries + n / 146096 := by
    clear hcarry hrest
    have hlast : n / 36524 = centuries ∨ n = 146096 ∧ centuries = 3 := by
      by_cases hlt : n < 36524 * (centuries + 1)
      . left
        omega
      . right
        omega
    omega
  have hyear : n / 1460 = 25 * centuries + fours + (24 * centuries + fours + 365 * years + days) / 1460 := by
    omega
  unfold Date.yearOfEra
  rw [hcentury, hyear]
  -- The days without the leap days are 365 for each year, and at most 364 besides.
  generalize (24 * centuries + fours + 365 * years + days) / 1460 = carry at hcarry hrest
  generalize n / 146096 = last
  clear hcentury hyear hleap
  have hsum : n - (25 * centuries + fours + carry) + (centuries + last) - last
      = 365 * (100 * centuries + 4 * fours + years) + (days - carry) := by
    omega
  rw [hsum]
  omega

theorem dayOfYear : dayOfYear n = days := by
  have hfours := h.fours_le
  have hyears := h.years_le
  have hfour : (100 * centuries + 4 * fours + years) / 4 = 25 * centuries + fours := by omega
  have hcentury : (100 * centuries + 4 * fours + years) / 100 = centuries := by omega
  unfold Date.dayOfYear
  rw [h.yearOfEra, hfour, hcentury, h.eq]
  omega

/-- A leap day is one of a leap year: it ends a year that began in March. -/
theorem isLeapYear (era : Int) (hdays : days = 365) : isLeapYear (era * 400 + Date.yearOfEra n + 1) := by
  rw [h.yearOfEra]
  rcases h with ⟨_, hcenturies, hfours, hyears, _, hleap⟩
  unfold Date.isLeapYear
  simp only [Bool.and_eq_true, Bool.or_eq_true, decide_eq_true_eq]
  omega

end IsSplit

/-- The month of a year that begins in March. -/
def monthOf (march : Nat) : Nat :=
  if march < 10 then march + 3 else march - 9

theorem ofDay_eq (day : Int) : ∃ era : Int, ∃ n centuries fours years days,
    IsSplit n centuries fours years days ∧ ofDay day = {
      year := era * 400 + yearOfEra n + (if monthOf ((5 * days + 2) / 153) ≤ 2 then 1 else 0)
      month := monthOf ((5 * days + 2) / 153)
      day := days - (153 * ((5 * days + 2) / 153) + 2) / 5 + 1 } := by
  have hn : (day + 719468 - (day + 719468).fdiv 146097 * 146097).toNat < 146097 := by
    rw [Int.fdiv_eq_ediv_of_nonneg _ (by decide)]
    omega
  rcases exists_isSplit hn with ⟨centuries, fours, years, days, hsplit⟩
  refine ⟨(day + 719468).fdiv 146097, _, centuries, fours, years, days, hsplit, ?_⟩
  rw [← hsplit.dayOfYear]
  rfl

theorem month_ofDay (day : Int) : 1 ≤ (ofDay day).month ∧ (ofDay day).month ≤ 12 := by
  rcases ofDay_eq day with ⟨era, n, centuries, fours, years, days, hsplit, heq⟩
  have hdays := hsplit.days_le
  rw [heq]
  dsimp only
  unfold monthOf
  split <;> omega

theorem daysInMonth_monthOf {march : Nat} (year : Int) (h : march < 11)
    : daysInMonth year (monthOf march) = (153 * (march + 1) + 2) / 5 - (153 * march + 2) / 5 := by
  interval_cases march <;> rfl

theorem day_ofDay (day : Int)
    : 1 ≤ (ofDay day).day ∧ (ofDay day).day ≤ daysInMonth (ofDay day).year (ofDay day).month := by
  rcases ofDay_eq day with ⟨era, n, centuries, fours, years, days, hsplit, heq⟩
  have hdays := hsplit.days_le
  rw [heq]
  refine ⟨Nat.le_add_left 1 _, ?_⟩
  dsimp only
  by_cases hmarch : (5 * days + 2) / 153 < 11
  . rw [daysInMonth_monthOf _ hmarch]
    omega
  . have hlast : (5 * days + 2) / 153 = 11 := by omega
    have hyear : (if monthOf 11 ≤ 2 then (1 : Int) else 0) = 1 := rfl
    have hfebruary (year : Int) : daysInMonth year (monthOf 11) = if isLeapYear year then 29 else 28 := rfl
    rw [hlast, hyear, hfebruary]
    split
    . omega
    . next hleap =>
      have hne : days ≠ 365 := fun h => hleap (hsplit.isLeapYear era h)
      omega

/-- Days have dates, but only those of years that have one to four digits are without fault. -/
theorem fault?_ofDay (day : Int)
    : (ofDay day).fault? = none ↔ 1 ≤ (ofDay day).year ∧ (ofDay day).year ≤ 9999 := by
  have hmonth := month_ofDay day
  have hday := day_ofDay day
  unfold fault?
  rw [if_neg (c := _ < 1 ∨ 12 < _) (by omega), if_neg (c := _ < 1 ∨ daysInMonth _ _ < _) (by omega),
    ite_eq_right_iff]
  simp only [reduceCtorEq, imp_false, not_or, not_lt]

end Mustache.Date
