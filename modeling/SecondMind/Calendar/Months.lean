import SecondMind.Calendar.Names

/-!
# Months in a row

The months of all years, counted one after the other.

* `Date.monthNumber` — the number of the month of a date;
* `daysBefore` — the days before a month;
* `daysBefore_add_le` — a month has 28 days or more;
* `Date.first_le_iff` — the first of a month is past just when the month has come.
-/

namespace Gregorian

/-- The days before the month with a number. -/
def daysBefore (k : Int) : Int := daysBeforeYear (k / 12) + daysBeforeMonth (k / 12) (k % 12 + 1)

theorem le_daysInMonth {y m : Int} (hm : 1 ≤ m ∧ m ≤ 12) : 28 ≤ daysInMonth y m := by
  obtain ⟨i, hi, rfl⟩ : ∃ i : Nat, i < 12 ∧ m = 1 + i := ⟨(m - 1).toNat, by omega, by omega⟩
  have hindex : (1 + (i : Int) - 1).toNat = i := by omega
  rw [daysInMonth, if_neg (by omega), hindex]
  unfold monthLengths
  interval_cases i <;> cases isLeap y <;> decide

theorem daysBeforeMonth_succ {y m : Int} (hm : 1 ≤ m) :
    daysBeforeMonth y (m + 1) = daysBeforeMonth y m + daysInMonth y m := by
  obtain ⟨i, rfl⟩ : ∃ i : Nat, m = 1 + i := ⟨(m - 1).toNat, by omega⟩
  have hindex : (1 + (i : Int) - 1).toNat = i := by omega
  have hnext : (1 + (i : Int) + 1 - 1).toNat = i + 1 := by omega
  rw [daysBeforeMonth, daysBeforeMonth, daysInMonth, if_neg (by omega), hindex, hnext,
    List.take_add_one, List.sum_append]
  cases (monthLengths (isLeap y))[i]? <;> simp

/-- **One month after the other.** -/
theorem daysBefore_succ (k : Int) :
    daysBefore (k + 1) = daysBefore k + daysInMonth (k / 12) (k % 12 + 1) := by
  unfold daysBefore
  by_cases hlast : k % 12 = 11
  · have hyear : (k + 1) / 12 = k / 12 + 1 := by omega
    have hmonth : (k + 1) % 12 + 1 = 1 := by omega
    have hsum := daysBeforeMonth_succ (y := k / 12) (m := k % 12 + 1) (by omega)
    have hfull : daysBeforeMonth (k / 12) (12 + 1) = if isLeap (k / 12) then 366 else 365 :=
      Date.sum_monthLengths _
    rw [hlast] at hsum
    rw [hyear, hmonth, daysBeforeYear_succ, ← hfull, hlast]
    have hzero : daysBeforeMonth (k / 12 + 1) 1 = 0 := rfl
    norm_num at hsum ⊢
    omega
  · have hyear : (k + 1) / 12 = k / 12 := by omega
    have hmonth : (k + 1) % 12 + 1 = k % 12 + 1 + 1 := by omega
    rw [hyear, hmonth, daysBeforeMonth_succ (by omega)]
    ring

theorem daysBefore_add_le_succ (k : Int) : daysBefore k + 28 ≤ daysBefore (k + 1) := by
  have hlength := le_daysInMonth (y := k / 12) (m := k % 12 + 1) (by omega)
  have hsucc := daysBefore_succ k
  omega

/-- **A month has 28 days or more.** -/
theorem daysBefore_add_le {j k : Int} (h : j < k) : daysBefore j + 28 ≤ daysBefore k := by
  obtain ⟨n, rfl⟩ : ∃ n : Nat, k = j + 1 + n := ⟨(k - (j + 1)).toNat, by omega⟩
  induction n with
  | zero => simpa using daysBefore_add_le_succ j
  | succ n ih =>
    have hstep := daysBefore_add_le_succ (j + 1 + n)
    have hbefore := ih (by omega)
    rw [Nat.cast_succ, ← add_assoc]
    omega

namespace Date

variable (date : Date)

/-- The number of the month of a date. -/
def monthNumber : Int := date.year * 12 + (date.month - 1)

theorem monthNumber_parts :
    date.monthNumber / 12 = date.year ∧ date.monthNumber % 12 + 1 = date.month := by
  have hmonth := date.month_day_spec.1
  unfold monthNumber
  omega

theorem ordinal_eq_daysBefore : date.ordinal = daysBefore date.monthNumber + date.day := by
  rw [daysBefore, date.monthNumber_parts.1, date.monthNumber_parts.2]
  exact date.ordinal_eq

/-- A date is one of the days of its month. -/
theorem daysBefore_lt_ordinal : daysBefore date.monthNumber < date.ordinal ∧
    date.ordinal ≤ daysBefore (date.monthNumber + 1) := by
  have hday := date.month_day_spec.2.1
  have hordinal := date.ordinal_eq_daysBefore
  have hsucc := daysBefore_succ date.monthNumber
  rw [date.monthNumber_parts.1, date.monthNumber_parts.2] at hsucc
  omega

variable {date} {first : Date}

theorem ordinal_of_first (hfirst : first.day = 1) :
    first.ordinal = daysBefore first.monthNumber + 1 := by
  rw [first.ordinal_eq_daysBefore, hfirst]

/-- Later firsts are 28 days later or more. -/
theorem first_add_le {first' : Date} (hfirst : first.day = 1) (hfirst' : first'.day = 1)
    (h : first.monthNumber < first'.monthNumber) : first.ordinal + 28 ≤ first'.ordinal := by
  have hmono := daysBefore_add_le h
  rw [ordinal_of_first hfirst, ordinal_of_first hfirst']
  omega

/-- A month begins in the month of the day before, or right after it. -/
theorem monthNumber_le_of_before {before : Date} (hfirst : first.day = 1)
    (h : before.ordinal + 1 = first.ordinal) : first.monthNumber ≤ before.monthNumber + 1 := by
  by_contra hlater
  have hmono := daysBefore_add_le (not_le.1 hlater)
  have hbefore := before.daysBefore_lt_ordinal.2
  rw [ordinal_of_first hfirst] at h
  omega

/-- The first of a month is past just when the month has come. -/
theorem first_le_iff (hfirst : first.day = 1) :
    first.ordinal ≤ date.ordinal ↔ first.monthNumber ≤ date.monthNumber := by
  have hdate := date.daysBefore_lt_ordinal
  have hordinal := ordinal_of_first hfirst
  constructor
  · intro hle
    by_contra hlater
    have hmono := daysBefore_add_le (not_le.1 hlater)
    have hnext : daysBefore (date.monthNumber + 1) ≤ daysBefore first.monthNumber := by
      rcases eq_or_lt_of_le (Int.add_one_le_of_lt (not_le.1 hlater)) with heq | hlt
      · rw [heq]
      · have hmono := daysBefore_add_le hlt
        omega
    omega
  · intro hle
    rcases eq_or_lt_of_le hle with heq | hlt
    · rw [heq] at hordinal
      omega
    · have hmono := daysBefore_add_le hlt
      omega

end Date

end Gregorian
