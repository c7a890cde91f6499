import SecondMind.Calendar.Gregorian

/-!
# The names of dates

A day of a month of a year is called one way, and the order of the dates is that of their names.

* `daysBeforeYear_lt`, `daysBeforeMonth_le_of_lt` — the years and the months, one after the other;
* `Date.name_unique`, `Date.ofYmd_eq_some_iff` — the date of a name;
* `Date.ordinal_lt_iff` — the order, by year, month and day;
* `Date.year_eq_of_near` — dates of one month of two years are far apart.
-/

namespace Gregorian

/-! ## Lengths -/

theorem daysInMonth_of_lt {y m : Int} (h : m < 1) : daysInMonth y m = 0 := if_pos h

/-- A month has 28 to 31 days, and only February has not the same number every year. -/
theorem daysInMonth_bounds {m : Int} (y : Int) (h : 1 ≤ m ∧ m ≤ 12) :
    28 ≤ daysInMonth y m ∧ daysInMonth y m ≤ 31 := by
  have hcases : m = 1 ∨ m = 2 ∨ m = 3 ∨ m = 4 ∨ m = 5 ∨ m = 6 ∨ m = 7 ∨ m = 8 ∨ m = 9 ∨ m = 10 ∨
      m = 11 ∨ m = 12 := by omega
  unfold daysInMonth
  rcases hcases with rfl | rfl | rfl | rfl | rfl | rfl | rfl | rfl | rfl | rfl | rfl | rfl <;>
    cases isLeap y <;> decide

theorem daysInMonth_february (y : Int) : daysInMonth y 2 = if isLeap y then 29 else 28 := by
  unfold daysInMonth
  cases isLeap y <;> decide

theorem daysInMonth_eq {m : Int} (y y' : Int) (h : m ≠ 2) : daysInMonth y m = daysInMonth y' m := by
  by_cases hm : 1 ≤ m ∧ m ≤ 12
  · have hcases : m = 1 ∨ m = 3 ∨ m = 4 ∨ m = 5 ∨ m = 6 ∨ m = 7 ∨ m = 8 ∨ m = 9 ∨ m = 10 ∨
        m = 11 ∨ m = 12 := by omega
    unfold daysInMonth
    rcases hcases with rfl | rfl | rfl | rfl | rfl | rfl | rfl | rfl | rfl | rfl | rfl <;>
      cases isLeap y <;> cases isLeap y' <;> decide
  · unfold daysInMonth
    by_cases hlow : m < 1
    · rw [if_pos hlow, if_pos hlow]
    · have hout : ∀ leap, (monthLengths leap)[(m - 1).toNat]? = none := by
        intro leap
        refine List.getElem?_eq_none ?_
        have hlen : (monthLengths leap).length = 12 := rfl
        omega
      rw [if_neg hlow, if_neg hlow, hout, hout]

theorem daysBeforeYear_succ (y : Int) :
    daysBeforeYear (y + 1) = daysBeforeYear y + if isLeap y then 366 else 365 := by
  have hleap : isLeap y = true ↔ y % 4 = 0 ∧ (y % 100 ≠ 0 ∨ y % 400 = 0) := by simp [isLeap]
  unfold daysBeforeYear
  split
  · have := hleap.1 ‹_›
    omega
  · have := mt hleap.2 ‹_›
    omega

theorem daysBeforeYear_mono {y y' : Int} (h : y ≤ y') : daysBeforeYear y ≤ daysBeforeYear y' := by
  unfold daysBeforeYear
  omega

/-- A year is over before a later one begins. -/
theorem daysBeforeYear_lt {y y' : Int} (h : y < y') :
    daysBeforeYear y + (if isLeap y then 366 else 365) ≤ daysBeforeYear y' := by
  rw [← daysBeforeYear_succ]
  exact daysBeforeYear_mono h

/-- A month is over before a later one of its year begins. -/
theorem daysBeforeMonth_le_of_lt {y m m' : Int} (hm : 1 ≤ m) (h : m < m') (hm' : m' ≤ 12) :
    daysBeforeMonth y m + daysInMonth y m ≤ daysBeforeMonth y m' := by
  have hall : ∀ leap : Bool, ∀ i < 12, ∀ j < 12, i < j →
      ((monthLengths leap).take i).sum + (monthLengths leap)[i]?.getD 0 ≤
        ((monthLengths leap).take j).sum := by decide
  unfold daysBeforeMonth daysInMonth
  rw [if_neg (by omega)]
  exact hall (isLeap y) _ (by omega) _ (by omega) (by omega)

/-! ## Dates by name -/

namespace Date

/-- The order of the dates is that of their names. -/
theorem ordinal_lt_of_name {date date' : Date}
    (h : date.year < date'.year ∨ date.year = date'.year ∧
      (date.month < date'.month ∨ date.month = date'.month ∧ date.day < date'.day)) :
    date.ordinal < date'.ordinal := by
  have hname := date.ordinal_eq
  have hname' := date'.ordinal_eq
  obtain ⟨hmonth, hday, -⟩ := date.month_day_spec
  obtain ⟨hmonth', hday', -⟩ := date'.month_day_spec
  obtain ⟨hlow, hhigh⟩ := daysBeforeMonth_le date.valid
  obtain ⟨hlow', -⟩ := daysBeforeMonth_le date'.valid
  rcases h with hyear | ⟨hyear, hmonths | ⟨hmonths, hdays⟩⟩
  · have hover := daysBeforeYear_lt hyear
    omega
  · have hover := daysBeforeMonth_le_of_lt (y := date.year) hmonth.1 hmonths hmonth'.2
    rw [← hyear] at hname'
    omega
  · rw [hname, hname', hyear, hmonths]
    omega

theorem ordinal_lt_iff {date date' : Date} : date.ordinal < date'.ordinal ↔
    date.year < date'.year ∨ date.year = date'.year ∧
      (date.month < date'.month ∨ date.month = date'.month ∧ date.day < date'.day) := by
  refine ⟨fun h => ?_, ordinal_lt_of_name⟩
  by_contra hnot
  by_cases hsame : date.year = date'.year ∧ date.month = date'.month ∧ date.day = date'.day
  · obtain ⟨hyear, hmonth, hday⟩ := hsame
    have hname := date.ordinal_eq
    rw [hyear, hmonth, hday, ← date'.ordinal_eq] at hname
    omega
  · have hback : date'.ordinal < date.ordinal := ordinal_lt_of_name (by omega)
    omega

/-- A date has one name. -/
theorem name_unique {y m d : Int} (h : Valid y m d) {date : Date}
    (hdate : date.ordinal = daysBeforeYear y + daysBeforeMonth y m + d) :
    date.year = y ∧ date.month = m ∧ date.day = d := by
  have hname := date.ordinal_eq
  obtain ⟨hmonth, hday, -⟩ := date.month_day_spec
  obtain ⟨hlow, hhigh⟩ := daysBeforeMonth_le date.valid
  obtain ⟨hlow', hhigh'⟩ := daysBeforeMonth_le h
  obtain ⟨-, hm, hd⟩ := h
  have hyear : date.year = y := by
    by_contra hne
    rcases lt_or_gt_of_ne hne with hlt | hlt
    · have hover := daysBeforeYear_lt hlt
      omega
    · have hover := daysBeforeYear_lt hlt
      omega
  subst hyear
  have hmonths : date.month = m := by
    by_contra hne
    rcases lt_or_gt_of_ne hne with hlt | hlt
    · have hover := daysBeforeMonth_le_of_lt (y := date.year) hmonth.1 hlt hm.2
      omega
    · have hover := daysBeforeMonth_le_of_lt (y := date.year) hm.1 hlt hmonth.2
      omega
  subst hmonths
  exact ⟨rfl, rfl, by omega⟩

/-- The date of a name. -/
theorem ofYmd_eq_some_iff {y m d : Int} {date : Date} :
    ofYmd y m d = some date ↔ date.year = y ∧ date.month = m ∧ date.day = d := by
  unfold ofYmd
  constructor
  · intro h
    split at h
    · rename_i hvalid
      cases h
      exact name_unique hvalid rfl
    · cases h
  · rintro ⟨rfl, rfl, rfl⟩
    rw [dif_pos date.valid, Option.some.injEq]
    have hname := date.ordinal_eq
    cases date
    simp only [mk.injEq]
    exact hname.symm

/-- Dates of one month of two years are far apart. -/
theorem year_eq_of_near {date date' : Date} (hmonth : date.month = date'.month)
    (hlow : date.ordinal - 300 < date'.ordinal) (hhigh : date'.ordinal < date.ordinal + 300) :
    date.year = date'.year := by
  have hname := date.ordinal_eq
  have hname' := date'.ordinal_eq
  have hlong : ∀ y : Int, (if isLeap y = true then (366 : Int) else 365) ≥ 365 := by
    intro y
    split <;> omega
  have hmonths : ∀ y y' m : Int, 1 ≤ m → m ≤ 12 →
      daysBeforeMonth y m ≤ daysBeforeMonth y' m + 1 := by
    intro y y' m hm hm'
    have hall : ∀ leap leap' : Bool, ∀ i < 12,
        ((monthLengths leap).take i).sum ≤ ((monthLengths leap').take i).sum + 1 := by decide
    exact hall (isLeap y) (isLeap y') _ (by omega)
  obtain ⟨hm, hday, -⟩ := date.month_day_spec
  obtain ⟨hm', hday', -⟩ := date'.month_day_spec
  have hshort := (daysInMonth_bounds date.year hm).2
  have hshort' := (daysInMonth_bounds date'.year hm').2
  have hone := hmonths date.year date'.year date.month hm.1 hm.2
  have hother := hmonths date'.year date.year date.month hm.1 hm.2
  rw [← hmonth] at hname'
  by_contra hne
  rcases lt_or_gt_of_ne hne with hlt | hlt
  · have hover := daysBeforeYear_lt hlt
    have hyear := hlong date.year
    omega
  · have hover := daysBeforeYear_lt hlt
    have hyear := hlong date'.year
    omega

theorem eq_of_ordinal {date date' : Date} (h : date.ordinal = date'.ordinal) : date = date' := by
  cases date
  cases date'
  cases h
  rfl

/-- A date is known by its name. -/
theorem eq_of_name {date date' : Date} (hyear : date.year = date'.year)
    (hmonth : date.month = date'.month) (hday : date.day = date'.day) :
    date = date' :=
  eq_of_ordinal (by rw [date.ordinal_eq, date'.ordinal_eq, hyear, hmonth, hday])

end Date

end Gregorian
