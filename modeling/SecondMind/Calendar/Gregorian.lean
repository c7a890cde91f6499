import Mathlib

/-!
# The Gregorian calendar

Dates of the years 1 to 9999, each as the number of its day, counted from 1 January of the year 1.

* `Date` — a date; `Date.ofOrdinal` and `Date.ofYmd` — the dates there are;
* `Date.year`, `Date.month`, `Date.day` — what a date is called;
* `Date.valid` — and that is a day of a month of a year.
-/

namespace Gregorian

/-! ## Years and months -/

def isLeap (y : Int) : Bool := y % 4 = 0 ∧ (y % 100 ≠ 0 ∨ y % 400 = 0)

/-- The lengths of the months. -/
def monthLengths (leap : Bool) : List Int :=
  [31, if leap then 29 else 28, 31, 30, 31, 30, 31, 31, 30, 31, 30, 31]

/-- The length of a month; zero if there is no such month. -/
def daysInMonth (y m : Int) : Int :=
  if m < 1 then 0 else (monthLengths (isLeap y))[(m - 1).toNat]?.getD 0

def daysBeforeYear (y : Int) : Int := (y - 1) * 365 + (y - 1) / 4 - (y - 1) / 100 + (y - 1) / 400

def daysBeforeMonth (y m : Int) : Int := ((monthLengths (isLeap y)).take (m - 1).toNat).sum

/-- `y`-`m`-`d` is a day of the calendar. -/
def Valid (y m d : Int) : Prop :=
  (1 ≤ y ∧ y ≤ 9999) ∧ (1 ≤ m ∧ m ≤ 12) ∧ 1 ≤ d ∧ d ≤ daysInMonth y m

instance (y m d : Int) : Decidable (Valid y m d) := inferInstanceAs (Decidable (_ ∧ _))

/-- The number of 31 December 9999. -/
def lastOrdinal : Int := 3652059

/-- Months of a year fit in it. -/
theorem daysBeforeMonth_le {y m d : Int} (h : Valid y m d) :
    0 ≤ daysBeforeMonth y m ∧
      daysBeforeMonth y m + daysInMonth y m ≤ if isLeap y then 366 else 365 := by
  obtain ⟨-, ⟨hm, hm'⟩, -⟩ := h
  unfold daysBeforeMonth daysInMonth
  rw [if_neg (by omega)]
  have hcases : m = 1 ∨ m = 2 ∨ m = 3 ∨ m = 4 ∨ m = 5 ∨ m = 6 ∨ m = 7 ∨ m = 8 ∨ m = 9 ∨ m = 10 ∨
      m = 11 ∨ m = 12 := by omega
  rcases hcases with rfl | rfl | rfl | rfl | rfl | rfl | rfl | rfl | rfl | rfl | rfl | rfl <;>
    cases isLeap y <;> decide

/-- The days of the calendar are numbered from 1 to the last. -/
theorem ordinal_bounds {y m d : Int} (h : Valid y m d) :
    1 ≤ daysBeforeYear y + daysBeforeMonth y m + d ∧
      daysBeforeYear y + daysBeforeMonth y m + d ≤ lastOrdinal := by
  obtain ⟨hlow, hhigh⟩ := daysBeforeMonth_le h
  obtain ⟨⟨hy, hy'⟩, -, hd, hd'⟩ := h
  unfold daysBeforeYear lastOrdinal
  by_cases hlast : y = 9999
  · subst hlast
    have hleap : isLeap 9999 = false := by decide
    rw [hleap, if_neg Bool.false_ne_true] at hhigh
    omega
  · have hyear : daysBeforeMonth y m + daysInMonth y m ≤ 366 := by
      split at hhigh
      · exact hhigh
      · omega
    omega

/-! ## Dates -/

/-- A date. -/
structure Date where
  ordinal : Int
  first : 1 ≤ ordinal
  last : ordinal ≤ lastOrdinal
  deriving DecidableEq

namespace Date

/-- The date with a number. -/
def ofOrdinal (n : Int) : Option Date :=
  if h : 1 ≤ n ∧ n ≤ lastOrdinal then some ⟨n, h.1, h.2⟩ else none

/-- The date with a name. -/
def ofYmd (y m d : Int) : Option Date :=
  if h : Valid y m d then
    some ⟨daysBeforeYear y + daysBeforeMonth y m + d, (ordinal_bounds h).1, (ordinal_bounds h).2⟩
  else none

variable (date : Date)

/-- The days of the cycle of 400 years before the date. -/
def inCycle : Int := (date.ordinal - 1) % 146097

/-- The century of the cycle, from 0 to 3. -/
def century : Int := min 3 (date.inCycle / 36524)

/-- The days of the century before the date. -/
def inCentury : Int := date.inCycle - date.century * 36524

/-- The year of four, from 0 to 3. -/
def ofFour : Int := min 3 (date.inCentury % 1461 / 365)

def year : Int :=
  (date.ordinal - 1) / 146097 * 400 + date.century * 100 + date.inCentury / 1461 * 4 +
    date.ofFour + 1

/-- The days of the year before the date. -/
def dayOfYear : Int := date.inCentury % 1461 - date.ofFour * 365

/-- The month and the day among months of the lengths given, the first of which is `m`. -/
def monthDay (m d : Int) : List Int → Int × Int
  | [] => (m, d)
  | [_] => (m, d)
  | length :: lengths => if d ≤ length then (m, d) else monthDay (m + 1) (d - length) lengths

def month : Int := (monthDay 1 (date.dayOfYear + 1) (monthLengths (isLeap date.year))).1

def day : Int := (monthDay 1 (date.dayOfYear + 1) (monthLengths (isLeap date.year))).2

/-- From Monday, which is 0, to Sunday. -/
def weekday : Int := (date.ordinal + 6) % 7

/-! ## A date has a name -/

/-- Where a date is in the cycle: the century, the four years, the year of them and the day. -/
theorem inCycle_parts : (0 ≤ date.century ∧ date.century ≤ 3) ∧
    (0 ≤ date.inCentury / 1461 ∧ date.inCentury / 1461 ≤ 24) ∧
    (0 ≤ date.ofFour ∧ date.ofFour ≤ 3) ∧ (0 ≤ date.dayOfYear ∧ date.dayOfYear ≤ 365) ∧
    date.ordinal - 1 = 146097 * ((date.ordinal - 1) / 146097) + 36524 * date.century +
      1461 * (date.inCentury / 1461) + 365 * date.ofFour + date.dayOfYear := by
  unfold dayOfYear ofFour inCentury century inCycle
  omega

/-- Only the last of four years has a 366th day, and only if it is a leap year. -/
theorem dayOfYear_lt : date.dayOfYear < if isLeap date.year then 366 else 365 := by
  have hcycle : date.ofFour = 3 ∨ date.dayOfYear ≤ 364 := by
    unfold dayOfYear ofFour
    omega
  have hcentury : date.century = 3 ∨ date.inCentury / 1461 ≤ 23 ∨ date.dayOfYear ≤ 364 := by
    unfold dayOfYear ofFour inCentury century inCycle
    omega
  obtain ⟨⟨hc, hc'⟩, ⟨hf, hf'⟩, ⟨ho, ho'⟩, ⟨-, hday⟩, -⟩ := date.inCycle_parts
  split
  · omega
  · rename_i hleap
    have hyear : date.year = (date.ordinal - 1) / 146097 * 400 + date.century * 100 +
      date.inCentury / 1461 * 4 + date.ofFour + 1 := rfl
    have hleap : ¬ (date.year % 4 = 0 ∧ (date.year % 100 ≠ 0 ∨ date.year % 400 = 0)) := by
      simpa [isLeap] using hleap
    omega

theorem year_bounds : 1 ≤ date.year ∧ date.year ≤ 9999 := by
  have hfirst := date.first
  have hlast := date.last
  obtain ⟨hc, hf, ho, hd, hparts⟩ := date.inCycle_parts
  unfold lastOrdinal at hlast
  unfold year
  omega

theorem daysBeforeYear_year : daysBeforeYear date.year + date.dayOfYear + 1 = date.ordinal := by
  obtain ⟨hc, hf, ho, -, hparts⟩ := date.inCycle_parts
  unfold daysBeforeYear year
  omega

/-- A day among months of lengths given is a day of one of them. -/
theorem monthDay_spec {lengths : List Int} {m d : Int} (hd : 1 ≤ d) (hsum : d ≤ lengths.sum) :
    ∃ i : Nat, (monthDay m d lengths).1 = m + i ∧ i < lengths.length ∧
      (1 ≤ (monthDay m d lengths).2 ∧ (monthDay m d lengths).2 ≤ lengths[i]?.getD 0) ∧
      (lengths.take i).sum + (monthDay m d lengths).2 = d := by
  induction lengths generalizing m d with
  | nil =>
    rw [List.sum_nil] at hsum
    omega
  | cons length lengths ih =>
    cases lengths with
    | nil =>
      rw [List.sum_singleton] at hsum
      exact ⟨0, by simp [monthDay], by simp, ⟨hd, hsum⟩, by simp [monthDay]⟩
    | cons next lengths =>
      rw [monthDay]
      · split
        · rename_i hle
          exact ⟨0, by simp, by simp, ⟨hd, hle⟩, by simp⟩
        · rename_i hlt
          rw [List.sum_cons] at hsum
          obtain ⟨i, hmonth, hi, hbounds, htake⟩ := ih (m := m + 1) (d := d - length)
            (by omega) (by omega)
          refine ⟨i + 1, ?_, by simpa using hi, by simpa using hbounds, ?_⟩
          · rw [hmonth]
            push_cast
            omega
          · rw [List.take_succ_cons, List.sum_cons]
            omega
      · simp

theorem sum_monthLengths (leap : Bool) :
    (monthLengths leap).sum = if leap then 366 else 365 := by
  cases leap <;> decide

/-- Where a date is in its year. -/
theorem month_day_spec : (1 ≤ date.month ∧ date.month ≤ 12) ∧
    (1 ≤ date.day ∧ date.day ≤ daysInMonth date.year date.month) ∧
    daysBeforeMonth date.year date.month + date.day = date.dayOfYear + 1 := by
  have hday := date.dayOfYear_lt
  have hpos := date.inCycle_parts.2.2.2.1.1
  have hfits : date.dayOfYear + 1 ≤ (monthLengths (isLeap date.year)).sum := by
    rw [sum_monthLengths]
    omega
  obtain ⟨i, hmonth, hi, hbounds, htake⟩ := monthDay_spec (m := 1) (by omega) hfits
  have hmonth : date.month = 1 + i := hmonth
  have hindex : (date.month - 1).toNat = i := by omega
  have hlength : (monthLengths (isLeap date.year)).length = 12 := rfl
  refine ⟨by omega, ?_, ?_⟩
  · rw [daysInMonth, if_neg (by omega), hindex]
    exact hbounds
  · rw [daysBeforeMonth, hindex]
    exact htake

/-- **A date** is a day of a month of a year. -/
theorem valid : Valid date.year date.month date.day :=
  ⟨date.year_bounds, date.month_day_spec.1, date.month_day_spec.2.1⟩

theorem ordinal_eq :
    date.ordinal = daysBeforeYear date.year + daysBeforeMonth date.year date.month + date.day := by
  have hyear := date.daysBeforeYear_year
  have hmonth := date.month_day_spec.2.2
  omega

/-- The first of the month of a date. -/
def monthFirst : Date where
  ordinal := date.ordinal - date.day + 1
  first := by
    have hname := date.ordinal_eq
    have hday := date.month_day_spec.2.1
    have hone : Valid date.year date.month 1 :=
      ⟨date.year_bounds, date.month_day_spec.1, Int.le_refl 1, by omega⟩
    have hbounds := (ordinal_bounds hone).1
    omega
  last := by
    have hday := date.month_day_spec.2.1
    have hlast := date.last
    omega

end Date

end Gregorian
