import SecondMind.Ingestion.DateForms
import SecondMind.Ingestion.RecurringDates

/-!
# Dates that are named

`ingestion/time.py`: what a text names as a day of a month, and the day that is read from it.

* `named` — the day, the month and the year that a text names;
* `chosenYear` — the year in which a date without one is looked for;
* `span_read` — the day that is read is the one that is named, or the last one of a shorter month;
* `honest_date_iff` — when a day that was moved is marked as assumed.
-/

namespace SecondMind

namespace Time

open Gregorian Regex Regex.Pattern

/-! ## What a text names -/

/-- A day of a month, perhaps with the month and the year. -/
structure Named where
  day : Int
  month : Option Int := none
  year : Option Int := none
  deriving DecidableEq

/-- What a date in figures names: the month comes first in some zones, and second if it is none. -/
def namedNumeric (m : Match) (now : TurnNow) : Named :=
  let a : Int := intOf (m.group 1)
  let b : Int := intOf (m.group 2)
  let (dayNo, monthNo) := if now.monthFirst then (b, a) else (a, b)
  let (dayNo, monthNo) := if 12 < monthNo then (monthNo, dayNo) else (dayNo, monthNo)
  let year : Int := intOf (m.group 3)
  { day := dayNo, month := some monthNo
    year := if m.has 3 then some (if (m.group 3).length = 2 then year + 2000 else year) else none }

/-- What a day and the name of a month come to. -/
def namedInWords (m : Match) (dayText monthText : Text) : Option Named :=
  (monthNo monthText).map fun month =>
    { day := intOf dayText, month := some month
      year := if m.has 3 then some (intOf (m.group 3)) else none }

/-- What a text names. -/
def named (text : Text) (now : TurnNow) : Option Named :=
  match fullmatch isoDateRe text with
  | some m =>
    some { day := intOf (m.group 3), month := some (intOf (m.group 2))
           year := some (intOf (m.group 1)) }
  | none =>
    match fullmatch numericRe text with
    | some m => some (namedNumeric m now)
    | none =>
      match fullmatch dayOfMonthRe text with
      | some m => some { day := intOf (m.group 1) }
      | none =>
        match fullmatch dayMonthRe text, fullmatch monthDayRe text with
        | some m, _ => namedInWords m (m.group 1) (m.group 2)
        | none, some m => namedInWords m (m.group 2) (m.group 1)
        | none, none => (fullmatch bareDayRe text).map fun m => { day := intOf (m.group 1) }

/-! ## The year -/

/-- The year in which a date without one is looked for: this one, unless the date, or the last day
of the month if it has no such day, is past, or yet to come. -/
def chosenYear (month day : Int) (today : Date) (direction : Direction) : Int :=
  let last := min day (daysInMonth today.year month)
  if direction = .past then
    if month < today.month ∨ month = today.month ∧ last ≤ today.day then today.year
    else today.year - 1
  else if today.month < month ∨ month = today.month ∧ today.day ≤ last then today.year
  else today.year + 1

def Named.yearFor (n : Named) (month : Int) (today : Date) (direction : Direction) : Int :=
  n.year.getD (chosenYear month n.day today direction)

section

variable {now : TurnNow} {today : Date} {direction : Direction} {text : Text}

theorem int_eq_ok {digits : Text} {n : Int} (h : int digits = .ok n) : n = intOf digits := by
  unfold int at h
  split at h
  · cases h
    rfl
  · cases h

/-- **The next date**, or the last one, of a day of a month. -/
theorem nextDate_eq_ok (htoday : now.today = .ok today) {month day : Int} {date : Date}
    (h : nextDate month day now direction = .ok date) :
    date.year = chosenYear month day today direction ∧ date.month = month ∧
      date.day = min day (daysInMonth date.year month) := by
  unfold nextDate at h
  rw [htoday] at h
  obtain ⟨today', htoday', h⟩ := bind_eq_ok.1 h
  cases htoday'
  obtain ⟨candidate, hcandidate, h⟩ := bind_eq_ok.1 h
  obtain ⟨hyear, hmonth, hday⟩ := safeDate_eq_ok.1 hcandidate
  have hafter : candidate.ordinal ≤ today.ordinal ↔
      month < today.month ∨
        month = today.month ∧ min day (daysInMonth today.year month) ≤ today.day := by
    rw [← not_lt, Date.ordinal_lt_iff, hyear, hmonth, hday]
    omega
  have hbefore : today.ordinal ≤ candidate.ordinal ↔
      today.month < month ∨
        month = today.month ∧ today.day ≤ min day (daysInMonth today.year month) := by
    rw [← not_lt, Date.ordinal_lt_iff, hyear, hmonth, hday]
    omega
  by_cases hpast : direction = .past
  · rw [if_pos hpast] at h
    have hchosen : chosenYear month day today direction =
        if candidate.ordinal ≤ today.ordinal then today.year else today.year - 1 := by
      unfold chosenYear
      simp only [if_pos hpast, hafter]
    rw [hchosen]
    split at h
    · rename_i hle
      cases h
      exact ⟨by rw [if_pos hle, hyear], hmonth, by rw [hyear, hday]⟩
    · rename_i hle
      obtain ⟨hyear', hmonth', hday'⟩ := safeDate_eq_ok.1 h
      exact ⟨by rw [if_neg hle, hyear'], hmonth', by rw [hyear', hday']⟩
  · rw [if_neg hpast] at h
    have hchosen : chosenYear month day today direction =
        if today.ordinal ≤ candidate.ordinal then today.year else today.year + 1 := by
      unfold chosenYear
      simp only [if_neg hpast, hbefore]
    rw [hchosen]
    split at h
    · rename_i hle
      cases h
      exact ⟨by rw [if_pos hle, hyear], hmonth, by rw [hyear, hday]⟩
    · rename_i hle
      obtain ⟨hyear', hmonth', hday'⟩ := safeDate_eq_ok.1 h
      exact ⟨by rw [if_neg hle, hyear'], hmonth', by rw [hyear', hday']⟩

/-! ## The day that is read -/

/-- How a day is read from what is named: as the day that is named, or the last of a shorter month,
in the year that is looked at; without a month, as that day or marked. -/
structure Named.Read (n : Named) (today : Date) (direction : Direction) (d : Day) : Prop where
  precision : d.precision = .day
  days : d.days = 1
  marked : d.assumed = d.alternative.isSome
  dated : ∀ m ∈ n.month, d.start.year = n.yearFor m today direction ∧ d.start.month = m ∧
    d.start.day = min n.day (daysInMonth d.start.year m) ∧ (d.assumed = true → n.day ≤ 12)
  bare : n.month = none → d.start.day = n.day ∨ d.assumed = true

theorem oneDay_eq_ok {start : Date} {rule : String} {alternative : Option String} {d : Option Day}
    (h : oneDay start rule alternative = .ok d) : d = some
      { start := start, days := 1, precision := .day, rule := rule
        assumed := alternative.isSome, alternative := alternative } := by
  cases h
  rfl

/-- A date in figures, once it is known which of them is the month. -/
theorem figures_read (htoday : now.today = .ok today) {m : Match} {dayNo month : Int}
    {rule : String} {alternative : Option String} {found : Option Day}
    (hfew : alternative.isSome = true → dayNo ≤ 12)
    (h : (if m.has 3 = true then do
        let y ← int (m.group 3)
        let date ← newDate (if (m.group 3).length = 2 then y + 2000 else y) month dayNo
        oneDay date rule alternative
      else do
        let date ← nextDate month dayNo now direction
        oneDay date rule alternative) = .ok found) :
    ∃ d ∈ found, Named.Read
      { day := dayNo, month := some month
        year := if m.has 3 then some (if (m.group 3).length = 2 then
          (intOf (m.group 3) : Int) + 2000 else intOf (m.group 3)) else none }
      today direction d := by
  split at h
  · rename_i hyear
    obtain ⟨y, hy, h⟩ := bind_eq_ok.1 h
    obtain rfl := int_eq_ok hy
    obtain ⟨date, hdate, h⟩ := bind_eq_ok.1 h
    cases h
    obtain ⟨hyear', hmonth', hday'⟩ := newDate_eq_ok.1 hdate
    refine ⟨_, rfl, rfl, rfl, rfl, ?_, fun hnone => absurd hnone (Option.some_ne_none _)⟩
    rintro m' ⟨⟩
    refine ⟨?_, hmonth', ?_, hfew⟩
    · rw [Named.yearFor, if_pos hyear, Option.getD_some]
      exact hyear'
    · have hlength := date.month_day_spec.2.1.2
      rw [hmonth', hday'] at hlength
      rw [hday', min_eq_left hlength]
  · rename_i hyear
    obtain ⟨date, hdate, h⟩ := bind_eq_ok.1 h
    cases h
    obtain ⟨hyear', hmonth', hday'⟩ := nextDate_eq_ok htoday hdate
    refine ⟨_, rfl, rfl, rfl, rfl, ?_, fun hnone => absurd hnone (Option.some_ne_none _)⟩
    rintro m' ⟨⟩
    refine ⟨?_, hmonth', hday', hfew⟩
    rw [Named.yearFor, if_neg hyear, Option.getD_none]
    exact hyear'

/-- A date in figures. -/
theorem numericDate_read (htoday : now.today = .ok today) {m : Match} {found : Option Day}
    (h : numericDate m now direction = .ok found) :
    ∃ d ∈ found, (namedNumeric m now).Read today direction d := by
  obtain ⟨a, ha, h⟩ := bind_eq_ok.1 h
  obtain ⟨b, hb, h⟩ := bind_eq_ok.1 h
  obtain rfl := int_eq_ok ha
  obtain rfl := int_eq_ok hb
  unfold namedNumeric
  generalize (intOf (m.group 1) : Int) = a at *
  generalize (intOf (m.group 2) : Int) = b at *
  have hcases : ∃ day month, (if now.monthFirst = true then (b, a) else (a, b)) = (day, month) ∧
      (a ≤ 12 → b ≤ 12 → day ≤ 12) := by
    cases now.monthFirst with
    | false => exact ⟨a, b, rfl, fun ha _ => ha⟩
    | true => exact ⟨b, a, rfl, fun _ hb => hb⟩
  obtain ⟨day, month, hpair, hboth⟩ := hcases
  dsimp only at h ⊢
  rw [hpair] at h ⊢
  dsimp only at h ⊢
  by_cases hswap : 12 < month
  · rw [if_pos hswap] at h ⊢
    refine figures_read htoday (fun hsome => ?_) h
    split at hsome
    · rename_i hambiguous
      exact absurd hswap (of_decide_eq_true hambiguous).2.2.2
    · cases hsome
  · rw [if_neg hswap] at h ⊢
    refine figures_read htoday (fun hsome => ?_) h
    split at hsome
    · rename_i hambiguous
      have hboth' := of_decide_eq_true hambiguous
      exact hboth hboth'.1 hboth'.2.1
    · cases hsome

/-- A day and a month in words. -/
theorem dayAndMonth_read (htoday : now.today = .ok today) {m : Match} {dayText monthText : Text}
    {n : Named} {d : Day} (hn : namedInWords m dayText monthText = some n)
    (h : dayAndMonth m dayText monthText now direction = .ok (some d)) :
    n.Read today direction d := by
  obtain ⟨month, hmonth, rfl⟩ := Option.map_eq_some_iff.1 hn
  unfold dayAndMonth at h
  rw [htoday] at h
  obtain ⟨today', htoday', h⟩ := bind_eq_ok.1 h
  cases htoday'
  rw [hmonth] at h
  obtain ⟨dayNo, hday, h⟩ := bind_eq_ok.1 h
  obtain rfl := int_eq_ok hday
  split at h
  · cases h
  · split at h
    · rename_i hyear
      obtain ⟨y, hy, h⟩ := bind_eq_ok.1 h
      obtain rfl := int_eq_ok hy
      obtain ⟨date, hdate, h⟩ := bind_eq_ok.1 h
      cases h
      obtain ⟨hyear', hmonth', hday'⟩ := safeDate_eq_ok.1 hdate
      refine ⟨rfl, rfl, rfl, ?_, fun hnone => absurd hnone (Option.some_ne_none _)⟩
      rintro m' ⟨⟩
      refine ⟨?_, hmonth', by rw [hday', hyear'],
        fun hassumed => absurd hassumed Bool.false_ne_true⟩
      rw [Named.yearFor, if_pos hyear, Option.getD_some]
      exact hyear'
    · rename_i hyear
      obtain ⟨date, hdate, h⟩ := bind_eq_ok.1 h
      cases h
      obtain ⟨hyear', hmonth', hday'⟩ := nextDate_eq_ok htoday hdate
      refine ⟨rfl, rfl, rfl, ?_, fun hnone => absurd hnone (Option.some_ne_none _)⟩
      rintro m' ⟨⟩
      refine ⟨?_, hmonth', hday', fun hassumed => absurd hassumed Bool.false_ne_true⟩
      rw [Named.yearFor, if_neg hyear, Option.getD_none]
      exact hyear'

/-- A day that the month may not have. -/
theorem clamped_read {first : Date} {dayNo : Int} {rule : String} {altFirst : Option Date} {d : Day}
    (h : clamped first dayNo rule altFirst = .ok (some d)) :
    ({ day := dayNo } : Named).Read today direction d := by
  unfold clamped at h
  dsimp only at h
  split at h
  · obtain ⟨date, hdate, h⟩ := bind_eq_ok.1 h
    cases h
    obtain ⟨-, -, hday⟩ := newDate_eq_ok.1 hdate
    exact ⟨rfl, rfl, rfl, fun m hm => absurd hm (Option.not_mem_none m), fun _ => .inl hday⟩
  · obtain ⟨date, hdate, h⟩ := bind_eq_ok.1 h
    cases h
    exact ⟨rfl, rfl, rfl, fun m hm => absurd hm (Option.not_mem_none m), fun _ => .inr rfl⟩

theorem bareDay_read (htoday : now.today = .ok today) {dayNo : Int} {d : Day}
    (h : bareDay dayNo now direction = .ok (some d)) :
    ({ day := dayNo } : Named).Read today direction d := by
  unfold bareDay at h
  rw [htoday] at h
  obtain ⟨today', htoday', h⟩ := bind_eq_ok.1 h
  cases htoday'
  obtain ⟨first, -, h⟩ := bind_eq_ok.1 h
  split at h
  · split at h
    · obtain ⟨start, -, h⟩ := bind_eq_ok.1 h
      exact clamped_read h
    · obtain ⟨start, -, h⟩ := bind_eq_ok.1 h
      exact clamped_read h
  · split at h
    · split at h
      · obtain ⟨next, -, h⟩ := bind_eq_ok.1 h
        exact clamped_read h
      · obtain ⟨date, hdate, h⟩ := bind_eq_ok.1 h
        cases h
        obtain ⟨-, -, hday⟩ := newDate_eq_ok.1 hdate
        exact ⟨rfl, rfl, rfl, fun m hm => absurd hm (Option.not_mem_none m), fun _ => .inl hday⟩
    · obtain ⟨next, -, h⟩ := bind_eq_ok.1 h
      exact clamped_read h

/-! ## The rule of a date -/

theorem numbered_dayOfMonth (h : dayOfMonthRe.Lang text) : Numbered text := by
  obtain ⟨number, rest, rfl, hnumber, -⟩ := h
  exact (numbered_of_digits hnumber (by decide)).append_left

theorem numbered_dayMonth (h : dayMonthRe.Lang text) : Numbered text := by
  obtain ⟨number, rest, rfl, hnumber, -⟩ := h
  exact (numbered_of_digits hnumber (by decide)).append_left

theorem numbered_monthDay (h : monthDayRe.Lang text) : Numbered text := by
  obtain ⟨month, rest, rfl, -, blank, rest, rfl, -, number, year, rfl, hnumber, -⟩ := h
  exact (numbered_of_digits hnumber (by decide)).append_left.append_right.append_right

theorem numbered_iso (h : isoDateRe.Lang text) : Numbered text := by
  obtain ⟨number, rest, rfl, hnumber, -⟩ := h
  exact (numbered_of_digits hnumber (by decide)).append_left

theorem numbered_numeric (h : numericRe.Lang text) : Numbered text := by
  obtain ⟨number, rest, rfl, hnumber, -⟩ := h
  exact (numbered_of_digits hnumber (by decide)).append_left

/-- An ISO date is read as it is written. -/
theorem iso_read {m : Match} (hm : fullmatch isoDateRe text = some m) {d : Day}
    (h : span text now direction = .ok (some d)) :
    ({ day := intOf (m.group 3), month := some (intOf (m.group 2))
       year := some (intOf (m.group 1)) } : Named).Read today direction d := by
  have hreads : isoOrNumeric text now direction ≠ .ok none := by
    unfold isoOrNumeric
    rw [hm]
    intro hnone
    obtain ⟨y, -, hnone⟩ := bind_eq_ok.1 hnone
    obtain ⟨month, -, hnone⟩ := bind_eq_ok.1 hnone
    obtain ⟨dayNo, -, hnone⟩ := bind_eq_ok.1 hnone
    obtain ⟨date, -, hnone⟩ := bind_eq_ok.1 hnone
    cases hnone
  have hrule := span_figures (numbered_iso (fullmatch_sound hm).2) hreads h
  unfold isoOrNumeric at hrule
  rw [hm] at hrule
  obtain ⟨y, hy, hrule⟩ := bind_eq_ok.1 hrule
  cases int_eq_ok hy
  obtain ⟨month, hmonth, hrule⟩ := bind_eq_ok.1 hrule
  cases int_eq_ok hmonth
  obtain ⟨dayNo, hdayNo, hrule⟩ := bind_eq_ok.1 hrule
  cases int_eq_ok hdayNo
  obtain ⟨date, hdate, hrule⟩ := bind_eq_ok.1 hrule
  cases hrule
  obtain ⟨hyear', hmonth', hday'⟩ := newDate_eq_ok.1 hdate
  refine ⟨rfl, rfl, rfl, ?_, fun hnone => absurd hnone (Option.some_ne_none _)⟩
  rintro m' ⟨⟩
  refine ⟨hyear', hmonth', ?_, fun hassumed => absurd hassumed Bool.false_ne_true⟩
  have hlength := date.month_day_spec.2.1.2
  rw [hmonth', hday'] at hlength
  rw [hday', min_eq_left hlength]

/-- A date in figures is read by the rule for figures. -/
theorem numeric_read (htoday : now.today = .ok today) {m : Match}
    (hiso : fullmatch isoDateRe text = none) (hm : fullmatch numericRe text = some m) {d : Day}
    (h : span text now direction = .ok (some d)) : (namedNumeric m now).Read today direction d := by
  have heq : isoOrNumeric text now direction = numericDate m now direction := by
    unfold isoOrNumeric
    rw [hiso, hm]
  have hreads : isoOrNumeric text now direction ≠ .ok none := by
    rw [heq]
    intro hnone
    obtain ⟨d, hd, -⟩ := numericDate_read htoday hnone
    cases hd
  have hrule := span_figures (numbered_numeric (fullmatch_sound hm).2) hreads h
  rw [heq] at hrule
  obtain ⟨d', hd', hread⟩ := numericDate_read htoday hrule
  cases hd'
  exact hread

/-- A day of this month, the next or the last. -/
theorem dayOfMonth_read {m : Match} (hm : fullmatch dayOfMonthRe text = some m) {d : Day}
    (h : span text now direction = .ok (some d)) :
    ({ day := intOf (m.group 1) } : Named).Read today direction d := by
  have hlang := (fullmatch_sound hm).2
  have hstarts := starts_dayOfMonth hlang
  have hrule : ∀ {found}, dayOfMonth text now direction = .ok found → ∃ dayNo first rule,
      int (m.group 1) = .ok dayNo ∧ clamped first dayNo rule = .ok found := by
    intro found hfound
    unfold dayOfMonth at hfound
    obtain ⟨today', -, hfound⟩ := bind_eq_ok.1 hfound
    rw [hm] at hfound
    obtain ⟨dayNo, hdayNo, hfound⟩ := bind_eq_ok.1 hfound
    obtain ⟨first, -, hfound⟩ := bind_eq_ok.1 hfound
    exact ⟨dayNo, first, _, hdayNo, hfound⟩
  have hreads : dayOfMonth text now direction ≠ .ok none := by
    intro hnone
    obtain ⟨dayNo, first, rule, -, hclamped⟩ := hrule hnone
    unfold clamped at hclamped
    dsimp only at hclamped
    split at hclamped
    · obtain ⟨date, -, hclamped⟩ := bind_eq_ok.1 hclamped
      cases hclamped
    · obtain ⟨date, -, hclamped⟩ := bind_eq_ok.1 hclamped
      cases hclamped
  obtain ⟨dayNo, first, rule, hdayNo, hclamped⟩ := hrule
    (span_dayOfMonth (numbered_dayOfMonth hlang) (starts_apart (by decide) hstarts)
      (starts_apart (by decide) hstarts) (starts_apart (by decide) hstarts)
      (starts_apart (by decide) hstarts) (.inl hreads) h)
  obtain rfl := int_eq_ok hdayNo
  exact clamped_read hclamped

/-- The texts of a day and the name of a month are read by the rule for days of a month. -/
theorem dayAndMonth_rule (hlang : dayMonthRe.Lang text ∨ monthDayRe.Lang text) {d : Day}
    (h : span text now direction = .ok (some d)) :
    dayOfMonth text now direction = .ok (some d) := by
  have hstarts : Starts monthHeads text := hlang.elim starts_dayMonth starts_monthDay
  exact span_dayOfMonth (hlang.elim numbered_dayMonth numbered_monthDay)
    (starts_apart (by decide) hstarts) (starts_apart (by decide) hstarts)
    (starts_apart (by decide) hstarts) (starts_apart (by decide) hstarts)
    (.inr ⟨not_year_of_starts hstarts, hlang.elim not_month_of_dayMonth not_month_of_monthDay⟩) h

/-- A bare day is read by the rule for bare days. -/
theorem span_bareDay {m : Match} (hm : fullmatch bareDayRe text = some m) {d : Day}
    (h : span text now direction = .ok (some d)) :
    bareDay (intOf (m.group 1)) now direction = .ok (some d) := by
  have hlang := (fullmatch_sound hm).2
  have hdigit : ∀ c ∈ text, isDigit c = true := (lang_digits hlang).1
  have hplain : ∀ {heads}, heads.all plainHead = true → ¬ Starts heads text :=
    not_starts_of_digits hdigit
  have hrule := span_dayOfMonth (numbered_of_digits hlang (by decide)) (hplain (by decide))
    (hplain (by decide)) (hplain (by decide)) (hplain (by decide))
    (.inr ⟨not_year_of_day hlang, not_month_of_digits hdigit⟩) h
  unfold dayOfMonth at hrule
  rw [fullmatch_eq_none (p := dayOfMonthRe) fun h => hplain (by decide) (starts_dayOfMonth h),
    fullmatch_eq_none (p := dayMonthRe) fun h => hplain (by decide) (starts_dayMonth h),
    fullmatch_eq_none (p := monthDayRe) fun h => hplain (by decide) (starts_monthDay h), hm] at hrule
  obtain ⟨today', -, hrule⟩ := bind_eq_ok.1 hrule
  obtain ⟨dayNo, hdayNo, hrule⟩ := bind_eq_ok.1 hrule
  obtain rfl := int_eq_ok hdayNo
  split at hrule
  · exact hrule
  · cases hrule

/-- **What is read** of a text that names a day. -/
theorem span_read (htoday : now.today = .ok today) {n : Named} {d : Day}
    (hn : named text now = some n) (h : span text now direction = .ok (some d)) :
    n.Read today direction d := by
  unfold named at hn
  cases hiso : fullmatch isoDateRe text with
  | some m =>
    rw [hiso] at hn
    cases hn
    exact iso_read hiso h
  | none =>
    rw [hiso] at hn
    cases hnumeric : fullmatch numericRe text with
    | some m =>
      rw [hnumeric] at hn
      cases hn
      exact numeric_read htoday hiso hnumeric h
    | none =>
      rw [hnumeric] at hn
      cases hrelative : fullmatch dayOfMonthRe text with
      | some m =>
        rw [hrelative] at hn
        cases hn
        exact dayOfMonth_read hrelative h
      | none =>
        rw [hrelative] at hn
        cases hdm : fullmatch dayMonthRe text with
        | some m =>
          rw [hdm] at hn
          have hrule := dayAndMonth_rule (.inl (fullmatch_sound hdm).2) h
          unfold dayOfMonth at hrule
          rw [htoday, hrelative, hdm] at hrule
          exact dayAndMonth_read htoday hn hrule
        | none =>
          cases hmd : fullmatch monthDayRe text with
          | some m =>
            rw [hdm, hmd] at hn
            have hrule := dayAndMonth_rule (.inr (fullmatch_sound hmd).2) h
            unfold dayOfMonth at hrule
            rw [htoday, hrelative, hdm, hmd] at hrule
            exact dayAndMonth_read htoday hn hrule
          | none =>
            rw [hdm, hmd] at hn
            obtain ⟨m, hbare, rfl⟩ := Option.map_eq_some_iff.1 hn
            exact bareDay_read htoday (span_bareDay hbare h)

/-! ## What an expression says -/

/-- The words that are read as a date: all of them, those after a preposition, or those after a
weekday. -/
inductive Words (rest : Text) (now : TurnNow) (direction : Direction) : Text → Option Int → Prop
  | whole {d : Day} (read : span rest now direction = .ok (some d)) :
    Words rest now direction rest none
  | bare {d : Day} (unread : span rest now direction = .ok none)
      (read : span (bareText rest) now direction = .ok (some d)) :
    Words rest now direction (bareText rest) none
  | weekday {m : Match} {d : Day} (unread : span rest now direction = .ok none)
      (bareUnread : span (bareText rest) now direction = .ok none)
      (weekday : matchStart weekdayRestRe (bareText rest) = some m)
      (read : span (m.group 2) now direction = .ok (some d)) :
    Words rest now direction (m.group 2) (weekdayNo (m.group 1))

/-- The direction in which an expression is read. -/
def aim (lib : TimeLib) (expression : String) (clock : TimeClock)
    (direction : Direction) : Direction :=
  if direction = .auto then defaultDirection clock (takeBound (norm lib.text expression)).1
  else direction

/-- The words of an expression that are read as a date, neither a routine nor an exact instant, and
the time of day and the weekday that go with them. -/
def Reads (lib : TimeLib) (expression : String) (clock : TimeClock) (now : TurnNow)
    (direction : Direction) (words : Text) (ct : Option ClockTime) (weekday : Option Int) : Prop :=
  routine lib (takeBound (norm lib.text expression)).2 now = .ok none ∧
    ∃ rest part, clockTime (takeBound (norm lib.text expression)).2 = .ok (rest, ct, part) ∧
      exactInstant rest now = .ok none ∧
      Words rest now (aim lib expression clock direction) words weekday

/-- An expression names a day of a month, perhaps with a time of day and a weekday. -/
def Says (lib : TimeLib) (expression : String) (clock : TimeClock) (now : TurnNow)
    (direction : Direction) (n : Named) (ct : Option ClockTime) (weekday : Option Int) : Prop :=
  ∃ words, Reads lib expression clock now direction words ct weekday ∧ named words now = some n

/-- The weekday that is named is not that of the date. -/
def OtherWeekday (weekday : Option Int) (date : Date) : Prop := ∃ wd ∈ weekday, date.weekday ≠ wd

/-- What becomes of a day when a weekday goes with it: another one marks it. -/
structure Day.Of (d e : Day) (weekday : Option Int) : Prop where
  start : d.start = e.start
  precision : d.precision = e.precision
  days : d.days = e.days
  marked : e.assumed = e.alternative.isSome → d.assumed = d.alternative.isSome
  assumed : e.precision = .day →
    (d.assumed = true ↔ e.assumed = true ∨ OtherWeekday weekday e.start)

theorem Day.of_self {d : Day} : d.Of d none where
  start := rfl
  precision := rfl
  days := rfl
  marked := id
  assumed := fun _ => ⟨.inl, fun h => h.resolve_right (by rintro ⟨wd, hwd, -⟩; cases hwd)⟩

/-- **The day of the words** is what they are read as. -/
theorem namedDay_of_words {rest words : Text} {weekday : Option Int} {found : Option Day}
    (hwords : Words rest now direction words weekday)
    (h : namedDay rest now direction = .ok found) :
    ∃ d ∈ found, ∃ e, span words now direction = .ok (some e) ∧ d.Of e weekday := by
  cases hwords with
  | whole hspan =>
    obtain ⟨found', hfound, h⟩ := bind_eq_ok.1 h
    rw [hspan] at hfound
    cases hfound
    cases h
    exact ⟨_, rfl, _, hspan, Day.of_self⟩
  | bare hnone hspan =>
    obtain ⟨found', hfound, h⟩ := bind_eq_ok.1 h
    rw [hnone] at hfound
    cases hfound
    obtain ⟨found', hfound, h⟩ := bind_eq_ok.1 h
    rw [hspan] at hfound
    cases hfound
    cases h
    exact ⟨_, rfl, _, hspan, Day.of_self⟩
  | @weekday m e hnone hnone' hmatch hspan =>
    obtain ⟨found', hfound, h⟩ := bind_eq_ok.1 h
    rw [hnone] at hfound
    cases hfound
    obtain ⟨found', hfound, h⟩ := bind_eq_ok.1 h
    rw [hnone'] at hfound
    cases hfound
    unfold weekdayAndDate at h
    simp only [hmatch] at h
    obtain ⟨found', hfound, h⟩ := bind_eq_ok.1 h
    rw [hspan] at hfound
    cases hfound
    cases hwd : weekdayNo (m.group 1) with
    | none =>
      rw [hwd] at h
      cases h
      exact ⟨e, rfl, e, hspan, Day.of_self⟩
    | some wd =>
      rw [hwd] at h
      dsimp only at h
      split at h
      · rename_i hprecision
        cases h
        exact ⟨e, rfl, e, hspan, rfl, rfl, rfl, id, fun h => absurd h hprecision⟩
      · split at h
        · rename_i hsame
          cases h
          refine ⟨_, rfl, e, hspan, rfl, rfl, rfl, id, fun _ => ⟨.inl, ?_⟩⟩
          rintro (hassumed | ⟨wd', hwd', hother⟩)
          · exact hassumed
          · cases hwd'
            exact absurd hsame hother
        · rename_i hother
          obtain ⟨other, -, h⟩ := bind_eq_ok.1 h
          cases h
          exact ⟨_, rfl, e, hspan, rfl, rfl, rfl, fun _ => rfl,
            fun _ => ⟨fun _ => .inr ⟨wd, rfl, hother⟩, fun _ => rfl⟩⟩

/-- **What is resolved** is the day that the words are read as. -/
theorem resolve_of_reads {lib : TimeLib} {expression : String} {clock : TimeClock} {words : Text}
    {ct : Option ClockTime} {weekday : Option Int} {r : Resolved}
    (hreads : Reads lib expression clock now direction words ct weekday)
    (h : resolve lib expression clock now direction = .ok r) :
    ∃ d e : Day, span words now (aim lib expression clock direction) = .ok (some e) ∧
      d.Of e weekday ∧ d.Comes ct now r := by
  obtain ⟨honce, rest, part, hclock, hexact, hwords⟩ := hreads
  obtain ⟨result, hresult, rfl⟩ := resolve_eq_ok.1 h
  cases resolveText_eq_ok.1 hresult with
  | routine heq =>
    rw [honce] at heq
    cases heq
  | exact _ rest' ct' part' hclock' heq =>
    rw [hclock] at hclock'
    cases hclock'
    rw [hexact] at heq
    cases heq
  | day _ rest' ct' part' hclock' _ d hnamed once htimed heq =>
    rw [hclock] at hclock'
    cases hclock'
    cases heq
    have hcomes := applyTime_comes htimed
    have hd : namedDay rest now (aim lib expression clock direction) = .ok (some d) := by
      rcases hnamed with hnamed | ⟨hnamed, -⟩
      · exact hnamed
      · obtain ⟨d', hd', -⟩ := namedDay_of_words hwords hnamed
        cases hd'
    obtain ⟨d', hd', e, hspan, hof⟩ := namedDay_of_words hwords hd
    cases hd'
    exact ⟨d, e, hspan, hof, hcomes.isOn, hcomes.rrule, hcomes.precision, hcomes.assumed,
      hcomes.alternative⟩

/-! ## Honest dates -/

/-- A moment of the day that is named, or one that is marked, with another to choose. -/
def Named.Honest (n : Named) (now : TurnNow) (r : Resolved) : Prop :=
  (∃ date, now.IsOn date r.start ∧ date.day = n.day ∧ ∀ m ∈ n.month, date.month = m) ∨
    r.assumed = true ∧ r.alternative.isSome = true

/-- The month has the day that is named, in the year that is looked at. -/
def Named.Exists (n : Named) (today : Date) (direction : Direction) : Prop :=
  ∀ m ∈ n.month, n.day ≤ daysInMonth (n.yearFor m today direction) m

/-- The last day of the month that is named. -/
def Named.IsLastDay (n : Named) (today : Date) (direction : Direction) (date : Date) : Prop :=
  ∃ m ∈ n.month, date.year = n.yearFor m today direction ∧ date.month = m ∧
    date.day = daysInMonth date.year m

/-- One moment is on dates that are near each other. -/
theorem near_of_isOn {date date' : Date} {begins : Int} (h : now.IsOn date begins)
    (h' : now.IsOn date' begins) :
    date.ordinal - 300 < date'.ordinal ∧ date'.ordinal < date.ordinal + 300 := by
  obtain ⟨t, ht, ht', -, hat⟩ := h
  obtain ⟨u, hu, hu', -, hat'⟩ := h'
  have hnear := near_of_shown now.zone (.inr ((eq_of_checked hat').symm.trans
    (eq_of_checked hat)))
  unfold day hour second at *
  omega

/-- A day that the month does not have is moved. -/
theorem Named.Read.moved {n : Named} {e : Day} (hread : n.Read today direction e)
    (hlong : ¬ n.Exists today direction) {begins : Int} (hon : now.IsOn e.start begins) :
    ¬ ∃ date, now.IsOn date begins ∧ date.day = n.day ∧ ∀ m ∈ n.month, date.month = m := by
  rintro ⟨date, hdate, hday, hmonth⟩
  refine hlong fun m hm => ?_
  obtain ⟨hyear', hmonth', -, -⟩ := hread.dated m hm
  obtain ⟨hlow, hhigh⟩ := near_of_isOn hon hdate
  have hyear := Date.year_eq_of_near (hmonth'.trans (hmonth m hm).symm) hlow hhigh
  have hlength := date.month_day_spec.2.1.2
  rw [hday, hmonth m hm, ← hyear, hyear'] at hlength
  exact hlength

/-- A day that the month has is not moved, or marked. -/
theorem Named.Read.kept {n : Named} {e : Day} (hread : n.Read today direction e)
    (hexists : n.Exists today direction) :
    e.assumed = true ∨ e.start.day = n.day ∧ ∀ m ∈ n.month, e.start.month = m := by
  cases hmonth : n.month with
  | none =>
    rcases hread.bare hmonth with hday | hassumed
    · exact .inr ⟨hday, fun m hm => absurd hm (Option.not_mem_none m)⟩
    · exact .inl hassumed
  | some m =>
    obtain ⟨hyear, hmonth', hday, -⟩ := hread.dated m hmonth
    have hlength := hexists m hmonth
    rw [← hyear] at hlength
    refine .inr ⟨by rw [hday, min_eq_left hlength], fun m' hm' => ?_⟩
    cases hm'
    exact hmonth'

/-- A figure that is marked is a day that every month has. -/
theorem Named.Read.exists_of_assumed {n : Named} {e : Day} (hread : n.Read today direction e)
    (hassumed : e.assumed = true) : n.Exists today direction := by
  intro m hm
  obtain ⟨hyear, hmonth, -, hfew⟩ := hread.dated m hm
  have hlength := (daysInMonth_bounds (n.yearFor m today direction)
    (hmonth ▸ e.start.month_day_spec.1)).1
  have := hfew hassumed
  omega

/-- A day that the month does not have is read as the last one of it. -/
theorem Named.Read.isLastDay {n : Named} {e : Day} (hread : n.Read today direction e)
    (hlong : ¬ n.Exists today direction) (date : Date) :
    n.IsLastDay today direction date ↔ date = e.start := by
  have hsome : ∃ m ∈ n.month, daysInMonth (n.yearFor m today direction) m < n.day := by
    by_contra hnone
    exact hlong fun m hm => not_lt.1 fun hlt => hnone ⟨m, hm, hlt⟩
  obtain ⟨m, hm, hlt⟩ := hsome
  obtain ⟨hyear, hmonth, hday, -⟩ := hread.dated m hm
  rw [hyear, min_eq_right hlt.le, ← hyear] at hday
  constructor
  · rintro ⟨m', hm', hyear', hmonth', hday'⟩
    cases hm.symm.trans hm'
    exact Date.eq_of_name (hyear'.trans hyear.symm) (hmonth'.trans hmonth.symm)
      (by rw [hday', hday, hyear', hyear])
  · rintro rfl
    exact ⟨m, hm, hyear, hmonth, hday⟩

/-- **Honest dates**: a day that is named is kept or marked if and only if the month has it, or
what it is moved to is another weekday than the one that is named, or the hour is marked. -/
theorem honest_date_iff {lib : TimeLib} {expression : String} {clock : TimeClock}
    {n : Named} {ct : Option ClockTime} {weekday : Option Int} {r : Resolved}
    (htoday : now.today = .ok today) ( hsays : Says lib expression clock now direction n ct weekday)
    (h : resolve lib expression clock now direction = .ok r) :
    n.Honest now r ↔ n.Exists today (aim lib expression clock direction) ∨
      (∃ date, n.IsLastDay today (aim lib expression clock direction) date ∧
        OtherWeekday weekday date) ∨ (ct.bind insteadOf).isSome = true := by
  obtain ⟨words, hreads, hn⟩ := hsays
  obtain ⟨d, e, hspan, hof, hcomes⟩ := resolve_of_reads hreads h
  have hread := span_read htoday hn hspan
  have hsingle : d.precision = .day ∧ d.days = 1 :=
    ⟨hof.precision.trans hread.precision, hof.days.trans hread.days⟩
  have hmarked := hof.marked hread.marked
  have hon := hcomes.isOn
  rw [hof.start] at hon
  have hinstead : (ct.bind insteadOf).isSome = true → ct.any (·.assumed) = true := by
    cases ct with
    | none => exact fun h => absurd h Bool.false_ne_true
    | some ct =>
      intro hsome
      simp only [Option.bind_some, insteadOf] at hsome
      split at hsome
      · rename_i hct
        exact hct
      · cases hsome
  have hmark : r.assumed = true ∧ r.alternative.isSome = true ↔
      d.assumed = true ∨ (ct.bind insteadOf).isSome = true := by
    rw [hcomes.assumed, ← hcomes.alternative, ← hmarked]
    constructor
    · rintro ⟨-, hd | ⟨-, hct⟩⟩
      · exact .inl hd
      · exact .inr hct
    · rintro (hd | hct)
      · exact ⟨.inl hd, .inl hd⟩
      · exact ⟨.inr ⟨hsingle, hinstead hct⟩, .inr ⟨hsingle, hct⟩⟩
  rw [Named.Honest, hmark, hof.assumed hread.precision]
  constructor
  · rintro (hdate | (he | hother) | hct)
    · exact .inl (by_contra fun hlong => hread.moved hlong hon hdate)
    · exact .inl (hread.exists_of_assumed he)
    · by_cases hexists : n.Exists today (aim lib expression clock direction)
      · exact .inl hexists
      · exact .inr (.inl ⟨e.start, (hread.isLastDay hexists _).2 rfl, hother⟩)
    · exact .inr (.inr hct)
  · rintro (hexists | ⟨date, hlast, hother⟩ | hct)
    · rcases hread.kept hexists with he | ⟨hday, hmonth⟩
      · exact .inr (.inl (.inl he))
      · exact .inl ⟨e.start, hon, hday, hmonth⟩
    · by_cases hexists : n.Exists today (aim lib expression clock direction)
      · rcases hread.kept hexists with he | ⟨hday, hmonth⟩
        · exact .inr (.inl (.inl he))
        · exact .inl ⟨e.start, hon, hday, hmonth⟩
      · rw [hread.isLastDay hexists] at hlast
        exact .inr (.inl (.inr (hlast ▸ hother)))
    · exact .inr (.inr hct)

end

/-! ## A day that April does not have, and one that March has -/

/-- An expression that is a date from beginning to end. -/
theorem reads_of_whole {lib : TimeLib} {expression : String} {clock : TimeClock} {now : TurnNow}
    {direction : Direction} {words : Text}
    (honce : isRoutine (takeBound (norm lib.text expression)).2 = false)
    (hread : ∃ p ∈ (clockTime (takeBound (norm lib.text expression)).2).toOption,
      p.1 = words ∧ p.2.1.isNone = true)
    (hexact : ∃ found ∈ (exactInstant words now).toOption, found.isNone = true)
    (hspan : ∃ d ∈ (span words now (aim lib expression clock direction)).toOption,
      d.isSome = true) :
    Reads lib expression clock now direction words none none := by
  obtain ⟨⟨rest, ct, part⟩, hclock, rfl, hct⟩ := hread
  obtain ⟨found, hexact, hfound⟩ := hexact
  obtain ⟨d, hspan, hd⟩ := hspan
  obtain rfl := Option.isNone_iff_eq_none.1 hct
  obtain rfl := Option.isNone_iff_eq_none.1 hfound
  obtain ⟨d, rfl⟩ := Option.isSome_iff_exists.1 hd
  refine ⟨?_, rest, part, of_mem_toOption hclock, of_mem_toOption hexact,
    .whole (of_mem_toOption hspan)⟩
  unfold routine
  rw [honce]
  rfl

/-- The last day of April is all that is read of its 31st, and nothing says so. -/
theorem april_31_moves : ∃ n r, Says yearlyTimes "31/4" .occurred summerNoon .auto n none none ∧
    resolve yearlyTimes "31/4" .occurred summerNoon = .ok r ∧ ¬ n.Honest summerNoon r := by
  have hread : ∃ r ∈ (resolve yearlyTimes "31/4" .occurred summerNoon).toOption,
      r.start = 740101 * day ∧ r.assumed = false := by decide +kernel
  have hlast : ∃ date ∈ Date.ofYmd 2027 4 30, date.ordinal = 740101 := by decide +kernel
  obtain ⟨r, hr, hstart, hassumed⟩ := hread
  obtain ⟨last, hlast, hordinal⟩ := hlast
  obtain ⟨hyear, hmonth, hday⟩ := Date.ofYmd_eq_some_iff.1 hlast
  have hreads : Reads yearlyTimes "31/4" .occurred summerNoon .auto "31/4".toList none none :=
    reads_of_whole (by decide +kernel) (by decide +kernel) (by decide +kernel) (by decide +kernel)
  refine ⟨{ day := 31, month := some 4 }, r, ⟨_, hreads, by decide +kernel⟩, of_mem_toOption hr, ?_⟩
  rintro (⟨date, ⟨t, ht, ht', -, hat⟩, hday', -⟩ | ⟨hassumed', -⟩)
  · -- the moment is on no other date than the last of April
    have hbegins := eq_of_checked hat
    rw [(summerNoon_shows _).2, hstart] at hbegins
    have hsame : date.ordinal = last.ordinal := by
      rw [hordinal]
      unfold day hour second at *
      omega
    rw [Date.eq_of_ordinal hsame, hday] at hday'
    cases hday'
  · rw [hassumed] at hassumed'
    cases hassumed'

/-- The 12th of March is the 12th of March. -/
theorem march_12_stays : ∃ n r, Says yearlyTimes "12 march" .occurred summerNoon .auto n none none ∧
    resolve yearlyTimes "12 march" .occurred summerNoon = .ok r ∧ n.Honest summerNoon r := by
  have hread : ∃ r ∈ (resolve yearlyTimes "12 march" .occurred summerNoon).toOption,
      r.precision = .day := by decide +kernel
  obtain ⟨r, hr, -⟩ := hread
  obtain ⟨today, htoday, -⟩ := summerNoon_today
  have hreads : Reads yearlyTimes "12 march" .occurred summerNoon .auto
      "12 march".toList none none :=
    reads_of_whole (by decide +kernel) (by decide +kernel) (by decide +kernel) (by decide +kernel)
  have hsays : Says yearlyTimes "12 march" .occurred summerNoon .auto
      { day := 12, month := some 3 } none none := ⟨_, hreads, by decide +kernel⟩
  refine ⟨_, r, hsays, of_mem_toOption hr, (honest_date_iff htoday hsays (of_mem_toOption hr)).2
    (.inl ?_)⟩
  rintro m ⟨⟩
  exact le_trans (by decide) (daysInMonth_bounds _ (by decide)).1

end Time

end SecondMind
