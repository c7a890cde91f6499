import SecondMind.Ingestion.NamedDates

/-!
# Dates without a year

`ingestion/time.py`: a weekday, a day and a month, a month or a day of a month say nothing of the
year, and each rule looks for the next such date, or for the last.

* `Yearless` — the forms, and `Yearless.Candidate` — the dates that they may mean;
* `nearest_date_of_year`, `weekday_nearest`, `month_nearest`, `bareDay_nearest` — what each rule
  finds;
* `nearest_date` — the date that is resolved is the nearest of those that are left.
-/

namespace SecondMind

namespace Time

open Gregorian Regex Regex.Pattern

/-! ## What a form may mean -/

/-- What is said of a date without a year. -/
inductive Yearless
  | weekday (wd : Int)
  | date (month day : Int)
  | month (month : Int)
  | day (day : Int)
  deriving DecidableEq

/-- The dates that may be meant; in a shorter month the last day stands for those it lacks, and a
month begins with its first. -/
def Yearless.Candidate : Yearless → Date → Prop
  | .weekday wd, d => d.weekday = wd
  | .date m n, d => d.month = m ∧ d.day = min n (daysInMonth d.year m)
  | .month m, d => d.month = m ∧ d.day = 1
  | .day n, d => d.day = min n (daysInMonth d.year d.month)

/-- The first day of a form from today on: a month is counted whole. -/
def Yearless.earliest : Yearless → Date → Date
  | .month _, today => today.monthFirst
  | _, today => today

/-- The dates in a direction: until today, or from today on; and from this month on. -/
def Yearless.Within (f : Yearless) (today : Date) (direction : Direction) (d : Date) : Prop :=
  if direction = .past then d.ordinal ≤ today.ordinal else (f.earliest today).ordinal ≤ d.ordinal

/-- The dates that are left: a weekday is not today, and the last time of a day that this month has
not reached is before it. -/
def Yearless.Left (f : Yearless) (today : Date) (direction : Direction) (d : Date) : Prop :=
  match f with
  | .weekday _ => d.ordinal ≠ today.ordinal
  | .day n => direction = .past → today.day < n → d.ordinal < today.monthFirst.ordinal
  | _ => True

/-- The nearest of some dates in a direction. -/
structure Nearest (P : Date → Prop) (direction : Direction) (d : Date) : Prop where
  mem : P d
  nearest : ∀ c, P c → if direction = .past then c.ordinal ≤ d.ordinal else d.ordinal ≤ c.ordinal

/-- What a form is in a text. -/
def yearless (text : Text) (now : TurnNow) : Option Yearless :=
  match fullmatch (weekdayRe 2) text with
  | some m => (weekdayNo (m.group 2)).map .weekday
  | none =>
    match fullmatch (monthRe 2) text with
    | some m => (monthNo (m.group 2)).map .month
    | none =>
      match fullmatch bareDayRe text with
      | some m => some (.day (intOf (m.group 1)))
      | none =>
        match named text now with
        | some { day := day, month := some month, year := none } => some (.date month day)
        | _ => none

variable {now : TurnNow} {today : Date} {direction : Direction} {text : Text}

/-! ## Dates in order -/

theorem ordinal_le_iff {c d : Date} : c.ordinal ≤ d.ordinal ↔
    c.year < d.year ∨
      c.year = d.year ∧ (c.month < d.month ∨ c.month = d.month ∧ c.day ≤ d.day) := by
  rw [← not_lt, Date.ordinal_lt_iff]
  omega

theorem monthFirst_le_iff {c d : Date} : d.monthFirst.ordinal ≤ c.ordinal ↔
    d.year < c.year ∨ d.year = c.year ∧ d.month ≤ c.month := by
  have hday := d.month_day_spec.2.1
  have hvalid : Valid d.year d.month 1 :=
    ⟨d.year_bounds, d.month_day_spec.1, le_rfl, hday.1.trans hday.2⟩
  have hfirst : d.monthFirst.ordinal = daysBeforeYear d.year + daysBeforeMonth d.year d.month + 1 := by
    have hname := d.ordinal_eq
    show d.ordinal - d.day + 1 = _
    omega
  obtain ⟨hyear, hmonth, hone⟩ := Date.name_unique hvalid hfirst
  have hpos := c.month_day_spec.2.1.1
  rw [ordinal_le_iff, hyear, hmonth, hone]
  omega

/-! ## Each rule finds the nearest -/

section

variable {f : Yearless} {d : Date}

theorem within_past (h : direction = .past) :
    f.Within today direction d ↔ d.ordinal ≤ today.ordinal := by
  rw [Yearless.Within, if_pos h]

theorem within_future (h : direction ≠ .past) :
    f.Within today direction d ↔ (f.earliest today).ordinal ≤ d.ordinal := by
  rw [Yearless.Within, if_neg h]

/-- A form in a direction. -/
def Yearless.Taken (f : Yearless) (today : Date) (direction : Direction) (d : Date) : Prop :=
  f.Candidate d ∧ f.Within today direction d ∧ f.Left today direction d

theorem nearest_past (h : direction = .past) (hcandidate : f.Candidate d)
    (hwithin : d.ordinal ≤ today.ordinal) (hleft : f.Left today direction d)
    (hnearest : ∀ c, f.Candidate c → c.ordinal ≤ today.ordinal → f.Left today direction c →
      c.ordinal ≤ d.ordinal) : Nearest (f.Taken today direction) direction d where
  mem := ⟨hcandidate, (within_past h).2 hwithin, hleft⟩
  nearest := by
    rintro c ⟨hc, hcwithin, hcleft⟩
    rw [if_pos h]
    exact hnearest c hc ((within_past h).1 hcwithin) hcleft

theorem nearest_future (h : direction ≠ .past) (hcandidate : f.Candidate d)
    (hwithin : (f.earliest today).ordinal ≤ d.ordinal) (hleft : f.Left today direction d)
    (hnearest : ∀ c, f.Candidate c → (f.earliest today).ordinal ≤ c.ordinal →
      f.Left today direction c → d.ordinal ≤ c.ordinal) :
    Nearest (f.Taken today direction) direction d where
  mem := ⟨hcandidate, (within_future h).2 hwithin, hleft⟩
  nearest := by
    rintro c ⟨hc, hcwithin, hcleft⟩
    rw [if_neg h]
    exact hnearest c hc ((within_future h).1 hcwithin) hcleft

/-- A day of a month, in the year that is looked at. -/
theorem nearest_date_of_year {month day : Int}
    (hyear : d.year = chosenYear month day today direction) (hmonth : d.month = month)
    (hday : d.day = min day (daysInMonth d.year month)) :
    Nearest ((Yearless.date month day).Taken today direction) direction d := by
  have hcandidate : (Yearless.date month day).Candidate d := ⟨hmonth, hday⟩
  unfold chosenYear at hyear
  by_cases hpast : direction = .past
  · simp only [if_pos hpast] at hyear
    refine nearest_past hpast hcandidate ?_ trivial fun c hc hwithin _ => ?_
    · rw [ordinal_le_iff, hmonth]
      split at hyear
      · rw [hyear] at hday
        omega
      · omega
    · obtain ⟨hcmonth, hcday⟩ := hc
      rw [ordinal_le_iff] at hwithin ⊢
      by_cases hsame : c.year = d.year
      · rw [hsame, ← hday] at hcday
        omega
      · split at hyear
        · omega
        · by_cases hthis : c.year = today.year
          · rw [hthis] at hcday
            omega
          · omega
  · simp only [if_neg hpast] at hyear
    refine nearest_future hpast hcandidate ?_ trivial fun c hc hwithin _ => ?_
    · show today.ordinal ≤ d.ordinal
      rw [ordinal_le_iff, hmonth]
      split at hyear
      · rw [hyear] at hday
        omega
      · omega
    · obtain ⟨hcmonth, hcday⟩ := hc
      have hwithin : today.ordinal ≤ c.ordinal := hwithin
      rw [ordinal_le_iff] at hwithin ⊢
      by_cases hsame : c.year = d.year
      · rw [hsame, ← hday] at hcday
        omega
      · split at hyear
        · omega
        · by_cases hthis : c.year = today.year
          · rw [hthis] at hcday
            omega
          · omega

theorem addDays_eq_ok {date : Date} {n : Int} (h : addDays date n = .ok d) :
    d.ordinal = date.ordinal + n := ordinal_of_dateOf h

/-- A weekday as it is. -/
theorem weekday_nearest (htoday : now.today = .ok today) {m : Match} {wd : Int}
    {found : Option Day} (hm : fullmatch qualifiedWeekdayRe text = some m) (hplain : m.group 1 = [])
    (hwd : weekdayNo (m.group 2) = some wd) (hrange : 0 ≤ wd ∧ wd < 7)
    (h : weekday text now direction = .ok found) :
    ∃ e ∈ found, Nearest ((Yearless.weekday wd).Taken today direction) direction e.start := by
  unfold weekday at h
  rw [hm] at h
  dsimp only at h
  rw [hwd, htoday] at h
  obtain ⟨today', htoday', h⟩ := bind_eq_ok.1 h
  cases htoday'
  obtain ⟨upcoming, hupcoming, h⟩ := bind_eq_ok.1 h
  obtain ⟨previous, hprevious, h⟩ := bind_eq_ok.1 h
  rw [hplain] at h
  simp only [show ([] : Text) ≠ "last".toList by decide, show ([] : Text) ≠ "past".toList by decide,
    show ([] : Text) ≠ "next".toList by decide, show ([] : Text) ≠ "this".toList by decide,
    show ([] : Text) ≠ "coming".toList by decide, or_self, if_false] at h
  have hup := addDays_eq_ok hupcoming
  have hback := addDays_eq_ok hprevious
  have hweekday : ∀ c : Date, c.weekday = (c.ordinal + 6) % 7 := fun _ => rfl
  by_cases hpast : direction = .past
  · rw [if_pos hpast] at h
    have hstart : ∃ e ∈ found, e.start.ordinal = today.ordinal -
        (if (today.weekday - wd) % 7 = 0 then 7 else (today.weekday - wd) % 7) := by
      split at h
      · rename_i hsame
        obtain ⟨start, hstart, h⟩ := bind_eq_ok.1 h
        cases h
        rw [if_pos (by omega)]
        exact ⟨_, rfl, addDays_eq_ok hstart⟩
      · cases h
        exact ⟨_, rfl, hback⟩
    obtain ⟨e, rfl, hstart⟩ := hstart
    rw [hweekday] at hstart
    refine ⟨e, rfl, ?_⟩
    refine nearest_past hpast ?_ (by omega) ?_ fun c hc hwithin hleft => ?_
    · show e.start.weekday = wd
      rw [hweekday]
      omega
    · show e.start.ordinal ≠ today.ordinal
      omega
    · have hc : c.weekday = wd := hc
      have hleft : c.ordinal ≠ today.ordinal := hleft
      rw [hweekday] at hc
      omega
  · rw [if_neg hpast] at h
    have hstart : ∃ e ∈ found, e.start.ordinal = today.ordinal +
        (if (wd - today.weekday) % 7 = 0 then 7 else (wd - today.weekday) % 7) := by
      split at h
      · rename_i hsame
        obtain ⟨start, hstart, h⟩ := bind_eq_ok.1 h
        cases h
        rw [if_pos hsame]
        exact ⟨_, rfl, addDays_eq_ok hstart⟩
      · rename_i hother
        cases h
        rw [if_neg hother]
        exact ⟨_, rfl, hup⟩
    obtain ⟨e, rfl, hstart⟩ := hstart
    rw [hweekday] at hstart
    refine ⟨e, rfl, ?_⟩
    refine nearest_future hpast ?_ ?_ ?_ fun c hc hwithin hleft => ?_
    · show e.start.weekday = wd
      rw [hweekday]
      omega
    · show today.ordinal ≤ e.start.ordinal
      omega
    · show e.start.ordinal ≠ today.ordinal
      omega
    · have hc : c.weekday = wd := hc
      have hwithin : today.ordinal ≤ c.ordinal := hwithin
      have hleft : c.ordinal ≠ today.ordinal := hleft
      rw [hweekday] at hc
      omega

/-- A month as it is. -/
theorem month_nearest (htoday : now.today = .ok today) {m : Match} {k : Int}
    {found : Option Day} (hm : fullmatch qualifiedMonthRe text = some m) (hplain : m.group 1 = [])
    (hyear : m.has 3 = false) (hk : monthNo (m.group 2) = some k)
    (h : month text now direction = .ok found) :
    ∃ e ∈ found, Nearest ((Yearless.month k).Taken today direction) direction e.start := by
  unfold month at h
  rw [hm, htoday] at h
  obtain ⟨today', htoday', h⟩ := bind_eq_ok.1 h
  cases htoday'
  dsimp only at h
  rw [hk] at h
  dsimp only at h
  rw [if_neg (by rw [hyear]; exact Bool.false_ne_true)] at h
  obtain ⟨thisYear, hthis, h⟩ := bind_eq_ok.1 h
  rw [hplain] at h
  simp only [show ([] : Text) ≠ "last".toList by decide, show ([] : Text) ≠ "next".toList by decide,
    show ([] : Text) ≠ "this".toList by decide, if_false] at h
  obtain ⟨hyear', hmonth', hday'⟩ := newDate_eq_ok.1 hthis
  by_cases hpast : direction = .past
  · rw [if_pos hpast] at h
    have hstart : ∃ e ∈ found,
        e.start.year = (if k ≤ today.month then today.year else today.year - 1) ∧
          e.start.month = k ∧ e.start.day = 1 := by
      split at h
      · rename_i hle
        cases h
        rw [if_pos hle]
        exact ⟨_, rfl, hyear', hmonth', hday'⟩
      · rename_i hlt
        obtain ⟨first, hfirst, h⟩ := bind_eq_ok.1 h
        cases h
        rw [if_neg hlt]
        exact ⟨_, rfl, newDate_eq_ok.1 hfirst⟩
    obtain ⟨e, rfl, hyear, hmonth, hday⟩ := hstart
    refine ⟨e, rfl, ?_⟩
    have hpos := today.month_day_spec.2.1.1
    refine nearest_past hpast ⟨hmonth, hday⟩ ?_ trivial fun c hc hwithin _ => ?_
    · rw [ordinal_le_iff, hmonth]
      split at hyear
      · omega
      · omega
    · obtain ⟨hcmonth, hcday⟩ := hc
      rw [ordinal_le_iff] at hwithin ⊢
      split at hyear
      · omega
      · omega
  · rw [if_neg hpast] at h
    have hstart : ∃ e ∈ found,
        e.start.year = (if today.month ≤ k then today.year else today.year + 1) ∧
          e.start.month = k ∧ e.start.day = 1 := by
      split at h
      · rename_i hle
        cases h
        rw [if_pos hle]
        exact ⟨_, rfl, hyear', hmonth', hday'⟩
      · rename_i hlt
        obtain ⟨first, hfirst, h⟩ := bind_eq_ok.1 h
        cases h
        rw [if_neg hlt]
        exact ⟨_, rfl, newDate_eq_ok.1 hfirst⟩
    obtain ⟨e, rfl, hyear, hmonth, hday⟩ := hstart
    refine ⟨e, rfl, ?_⟩
    refine nearest_future hpast ⟨hmonth, hday⟩ ?_ trivial fun c hc hwithin _ => ?_
    · show today.monthFirst.ordinal ≤ e.start.ordinal
      rw [monthFirst_le_iff, hmonth]
      split at hyear
      · omega
      · omega
    · obtain ⟨hcmonth, hcday⟩ := hc
      have hwithin : today.monthFirst.ordinal ≤ c.ordinal := hwithin
      rw [monthFirst_le_iff] at hwithin
      rw [ordinal_le_iff]
      split at hyear
      · omega
      · omega

/-- The month after, and the month before. -/
theorem addMonths_eq_ok {first next : Date} {step : Int} (hstep : step = 1 ∨ step = -1)
    (h : addMonths first 0 step = .ok next) :
    next.year * 12 + next.month = first.year * 12 + first.month + step ∧
      (1 ≤ next.month ∧ next.month ≤ 12) := by
  refine ⟨?_, next.month_day_spec.1⟩
  have hmonth := first.month_day_spec.1
  unfold addMonths at h
  dsimp only at h
  have hparts : step.tdiv 12 = 0 ∧ step.tmod 12 = step := by
    rcases hstep with rfl | rfl <;> decide
  rw [hparts.1, hparts.2] at h
  generalize hname : (if 12 < first.month + step then
      (first.year + 0 + 0 + 1, first.month + step - 12)
    else if first.month + step < 1 then (first.year + 0 + 0 - 1, first.month + step + 12)
    else (first.year + 0 + 0, first.month + step)) = name at h
  obtain ⟨year, month⟩ := name
  dsimp only at h
  split at h
  · obtain ⟨hyear', hmonth', -⟩ := newDate_eq_ok.1 h
    split at hname
    · cases hname
      omega
    · split at hname
      · cases hname
        omega
      · cases hname
        omega
  · cases h

/-- The day of a month that is read, and the last one if it is shorter. -/
theorem clamped_start {first : Date} {n : Int} {rule : String} {altFirst : Option Date} {e : Day}
    (h : clamped first n rule altFirst = .ok (some e)) :
    e.start.year = first.year ∧ e.start.month = first.month ∧
      e.start.day = min n (daysInMonth first.year first.month) := by
  unfold clamped at h
  dsimp only at h
  split at h
  · rename_i hle
    obtain ⟨date, hdate, h⟩ := bind_eq_ok.1 h
    cases h
    rw [min_eq_left hle]
    exact newDate_eq_ok.1 hdate
  · rename_i hlt
    obtain ⟨date, hdate, h⟩ := bind_eq_ok.1 h
    cases h
    rw [min_eq_right (not_le.1 hlt).le]
    exact newDate_eq_ok.1 hdate

/-- A day of a month as it is. -/
theorem bareDay_nearest (htoday : now.today = .ok today) {n : Int} {e : Day}
    (h : bareDay n now direction = .ok (some e)) :
    Nearest ((Yearless.day n).Taken today direction) direction e.start := by
  unfold bareDay at h
  rw [htoday] at h
  obtain ⟨today', htoday', h⟩ := bind_eq_ok.1 h
  cases htoday'
  obtain ⟨thisMonth, hthis, h⟩ := bind_eq_ok.1 h
  obtain ⟨hyear, hmonth, -⟩ := newDate_eq_ok.1 hthis
  have hlength := today.month_day_spec.2.1
  have hrange := today.month_day_spec.1
  by_cases hpast : direction = .past
  · rw [if_pos hpast] at h
    have hstart :
        (n ≤ today.day ∧ e.start.year * 12 + e.start.month = today.year * 12 + today.month ∨
          today.day < n ∧ e.start.year * 12 + e.start.month = today.year * 12 + today.month - 1) ∧
        e.start.day = min n (daysInMonth e.start.year e.start.month) := by
      split at h
      · rename_i hle
        obtain ⟨first, hfirst, h⟩ := bind_eq_ok.1 h
        cases hfirst
        obtain ⟨hyear', hmonth', hday⟩ := clamped_start h
        rw [hday, hyear', hmonth']
        exact ⟨.inl ⟨hle, by omega⟩, rfl⟩
      · rename_i hlt
        obtain ⟨first, hfirst, h⟩ := bind_eq_ok.1 h
        obtain ⟨hyear', hmonth', hday⟩ := clamped_start h
        obtain ⟨hnext, -⟩ := addMonths_eq_ok (.inr rfl) hfirst
        rw [hday, hyear', hmonth']
        exact ⟨.inr ⟨not_le.1 hlt, by omega⟩, rfl⟩
    obtain ⟨hmonths, hday⟩ := hstart
    have hrange' := e.start.month_day_spec.1
    refine nearest_past hpast hday ?_ (fun _ hlt => ?_) fun c hc hwithin hleft => ?_
    · rw [ordinal_le_iff]
      omega
    · show e.start.ordinal < today.monthFirst.ordinal
      rw [← not_le, monthFirst_le_iff]
      omega
    · have hc : c.day = min n (daysInMonth c.year c.month) := hc
      have hleft : today.day < n → ¬ today.monthFirst.ordinal ≤ c.ordinal :=
        fun hlt => not_le.2 (hleft hpast hlt)
      have hrange'' := c.month_day_spec.1
      rw [monthFirst_le_iff] at hleft
      rw [ordinal_le_iff] at hwithin ⊢
      by_cases hsame : c.year = e.start.year ∧ c.month = e.start.month
      · rw [hsame.1, hsame.2, ← hday] at hc
        omega
      · omega
  · rw [if_neg hpast] at h
    have hstart :
        (today.day ≤ n ∧ e.start.year * 12 + e.start.month = today.year * 12 + today.month ∨
          n < today.day ∧ e.start.year * 12 + e.start.month = today.year * 12 + today.month + 1) ∧
        e.start.day = min n (daysInMonth e.start.year e.start.month) := by
      split at h
      · rename_i hle
        split at h
        · obtain ⟨next, -, h⟩ := bind_eq_ok.1 h
          obtain ⟨hyear', hmonth', hday⟩ := clamped_start h
          rw [hday, hyear', hmonth']
          exact ⟨.inl ⟨hle, by omega⟩, rfl⟩
        · rename_i hfits
          obtain ⟨date, hdate, h⟩ := bind_eq_ok.1 h
          cases h
          obtain ⟨hyear', hmonth', hday⟩ := newDate_eq_ok.1 hdate
          show (_ ∧ date.year * 12 + date.month = _ ∨ _) ∧
            date.day = min n (daysInMonth date.year date.month)
          rw [hday, hyear', hmonth', min_eq_left (not_lt.1 hfits)]
          exact ⟨.inl ⟨hle, rfl⟩, rfl⟩
      · rename_i hlt
        obtain ⟨first, hfirst, h⟩ := bind_eq_ok.1 h
        obtain ⟨hyear', hmonth', hday⟩ := clamped_start h
        obtain ⟨hnext, -⟩ := addMonths_eq_ok (.inl rfl) hfirst
        rw [hday, hyear', hmonth']
        exact ⟨.inr ⟨not_le.1 hlt, by omega⟩, rfl⟩
    obtain ⟨hmonths, hday⟩ := hstart
    have hrange' := e.start.month_day_spec.1
    have hsameMonth : e.start.year * 12 + e.start.month = today.year * 12 + today.month →
        e.start.year = today.year ∧ e.start.month = today.month := by omega
    refine nearest_future hpast hday ?_ (fun hpast' => absurd hpast' hpast) fun c hc hwithin _ => ?_
    · show today.ordinal ≤ e.start.ordinal
      rw [ordinal_le_iff]
      rcases hmonths with ⟨hle, hmonths⟩ | ⟨hlt, hmonths⟩
      · obtain ⟨hy, hm⟩ := hsameMonth hmonths
        rw [hy, hm] at hday
        omega
      · omega
    · have hc : c.day = min n (daysInMonth c.year c.month) := hc
      have hwithin : today.ordinal ≤ c.ordinal := hwithin
      have hrange'' := c.month_day_spec.1
      rw [ordinal_le_iff] at hwithin ⊢
      by_cases hsame : c.year = e.start.year ∧ c.month = e.start.month
      · rw [hsame.1, hsame.2, ← hday] at hc
        omega
      · omega

end

/-! ## Weekdays and months as they are written -/

/-- The texts of a weekday. -/
def weekdayTexts : List Text :=
  (["mon", "monday", "tue", "tues", "tuesday", "wed", "wednesday", "thu", "thur", "thurs",
    "thursday", "fri", "friday", "sat", "saturday", "sun", "sunday"].flatMap
      fun name => [name, name ++ "s"]).map String.toList

/-- The texts of a month. -/
def monthTexts : List Text :=
  ["jan", "january", "feb", "february", "mar", "march", "apr", "april", "may", "jun", "june", "jul",
    "july", "aug", "august", "sep", "sept", "september", "oct", "october", "nov", "november", "dec",
    "december"].map String.toList

theorem among_stem (stem rest : String) : (all [Pattern.text stem, opt (Pattern.text rest)]).Among
    ([stem.toList].flatMap fun u => ([] :: [rest.toList]).map (u ++ ·)) :=
  among_seq (among_text stem) (among_opt (among_text rest))

theorem weekday_among (n : Nat) : (weekdayRe n).Among weekdayTexts := by
  refine (among_seq (among_edge isWord) (among_seq (among_group (among_alt (among_stem "mon" "day")
    (among_alt (among_seq (among_text "tue") (among_opt (among_stem "s" "day")))
      (among_alt (among_stem "wed" "nesday")
        (among_alt (among_seq (among_text "thu")
            (among_opt (among_seq (among_text "r") (among_opt (among_stem "s" "day")))))
          (among_alt (among_stem "fri" "day")
            (among_alt (among_stem "sat" "urday") (among_stem "sun" "day"))))))))
    (among_seq (among_opt (among_text "s")) (among_edge isWord)))).mono ?_
  decide +kernel

theorem month_among (n : Nat) : (monthRe n).Among monthTexts := by
  refine (among_group (among_alt (among_stem "jan" "uary") (among_alt (among_stem "feb" "ruary")
    (among_alt (among_stem "mar" "ch") (among_alt (among_stem "apr" "il")
      (among_alt (among_text "may") (among_alt (among_stem "jun" "e")
        (among_alt (among_stem "jul" "y") (among_alt (among_stem "aug" "ust")
          (among_alt (among_seq (among_text "sep") (among_opt (among_stem "t" "ember")))
            (among_alt (among_stem "oct" "ober")
              (among_alt (among_stem "nov" "ember") (among_stem "dec" "ember"))))))))))))).mono ?_
  decide +kernel

/-- Neither a word for a day nor figures nor a number of days. -/
def noFigures (text : Text) : Bool :=
  (relativeDays.find? (·.1.toList = text)).isNone && (fullmatch isoDateRe text).isNone &&
    (fullmatch numericRe text).isNone && (fullmatch inUnitsRe text).isNone &&
    (fullmatch unitsLaterRe text).isNone && (fullmatch unitsAgoRe text).isNone

/-- Only the rule for weekdays reads it, as the weekday that it is. -/
def readsWeekday (text : Text) : Bool :=
  noFigures text && (fullmatch qualifiedWeekdayRe text).any fun m =>
    m.group 1 = [] ∧ (weekdayNo (m.group 2)).any (fun wd => 0 ≤ wd ∧ wd < 7) ∧
      weekdayNo (m.group 2) = (fullmatch (weekdayRe 2) text).bind fun m => weekdayNo (m.group 2)

/-- Only the rule for months reads it, as the month that it is. -/
def readsMonth (text : Text) : Bool :=
  noFigures text && (fullmatch qualifiedWeekdayRe text).isNone &&
    (fullmatch periodRe text).isNone && (fullmatch edgeRe text).isNone &&
    (fullmatch dayOfMonthRe text).isNone && (fullmatch dayMonthRe text).isNone &&
    (fullmatch monthDayRe text).isNone && (fullmatch bareDayRe text).isNone &&
    (fullmatch qualifiedMonthRe text).any fun m =>
      m.group 1 = [] ∧ m.has 3 = false ∧ (monthNo (m.group 2)).isSome ∧
        monthNo (m.group 2) = (fullmatch (monthRe 2) text).bind fun m => monthNo (m.group 2)

theorem readsWeekday_of_mem : ∀ text ∈ weekdayTexts, readsWeekday text = true := by decide +kernel

theorem readsMonth_of_mem : ∀ text ∈ monthTexts, readsMonth text = true := by decide +kernel

/-- The first three rules do not read such a text. -/
theorem span_of_noFigures (h : noFigures text = true) (htoday : now.today = .ok today) :
    span text now direction =
      firstSpan text now direction [weekday, periods, edges, dayOfMonth, month, year] := by
  simp only [noFigures, Bool.and_eq_true, Option.isNone_iff_eq_none] at h
  obtain ⟨⟨⟨⟨⟨hwords, hiso⟩, hnumeric⟩, hin⟩, hlater⟩, hago⟩ := h
  have hrelative : relativeDay text now direction = .ok none := by
    unfold relativeDay
    rw [htoday, hwords]
    rfl
  have hfigures : isoOrNumeric text now direction = .ok none := by
    unfold isoOrNumeric
    rw [hiso, hnumeric]
  have hunits : inN text now direction = .ok none := by
    unfold inN
    rw [hin, hlater, hago]
    rfl
  rw [span, spanRules, firstSpan_skip hrelative, firstSpan_skip hfigures, firstSpan_skip hunits]

theorem span_weekday (htoday : now.today = .ok today) {m : Match} {wd : Int} {e : Day}
    (hm : fullmatch (weekdayRe 2) text = some m) (hwd : weekdayNo (m.group 2) = some wd)
    (h : span text now direction = .ok (some e)) :
    Nearest ((Yearless.weekday wd).Taken today direction) direction e.start := by
  have hreads := readsWeekday_of_mem text (weekday_among 2 text (fullmatch_sound hm).2)
  simp only [readsWeekday, Bool.and_eq_true] at hreads
  obtain ⟨hfigures, hmatch⟩ := hreads
  obtain ⟨m', hm', hmatch⟩ := (Option.any_eq_true _ _).1 hmatch
  obtain ⟨hplain, hrange, hsame⟩ := of_decide_eq_true hmatch
  rw [hm, Option.bind_some, hwd] at hsame
  rw [hsame, Option.any_some] at hrange
  rw [span_of_noFigures hfigures htoday] at h
  have hrule : ∀ {found}, weekday text now direction = .ok found → ∃ e ∈ found,
      Nearest ((Yearless.weekday wd).Taken today direction) direction e.start :=
    weekday_nearest htoday hm' hplain hsame (of_decide_eq_true hrange)
  rcases firstSpan_cases h with ⟨e', he, hfound⟩ | ⟨hnone, -⟩
  · cases he
    obtain ⟨e', he', hnearest⟩ := hrule hfound
    cases he'
    exact hnearest
  · obtain ⟨e', he', -⟩ := hrule hnone
    cases he'

theorem span_month (htoday : now.today = .ok today) {m : Match} {k : Int} {e : Day}
    (hm : fullmatch (monthRe 2) text = some m) (hk : monthNo (m.group 2) = some k)
    (h : span text now direction = .ok (some e)) :
    Nearest ((Yearless.month k).Taken today direction) direction e.start := by
  have hreads := readsMonth_of_mem text (month_among 2 text (fullmatch_sound hm).2)
  simp only [readsMonth, Bool.and_eq_true, Option.isNone_iff_eq_none] at hreads
  obtain ⟨⟨⟨⟨⟨⟨⟨⟨hfigures, hweekday⟩, hperiod⟩, hedge⟩, hrelative⟩, hdm⟩, hmd⟩, hbare⟩, hmatch⟩ :=
    hreads
  obtain ⟨m', hm', hmatch⟩ := (Option.any_eq_true _ _).1 hmatch
  obtain ⟨hplain, hyear, -, hsame⟩ := of_decide_eq_true hmatch
  rw [hm, Option.bind_some, hk] at hsame
  have hnoWeekday : weekday text now direction = .ok none := by
    unfold weekday
    rw [hweekday]
  have hnoPeriod : periods text now direction = .ok none := by
    unfold periods
    rw [htoday, hperiod]
    rfl
  have hnoEdge : edges text now direction = .ok none := by
    unfold edges
    rw [htoday, hedge]
    rfl
  have hnoDay : dayOfMonth text now direction = .ok none := by
    unfold dayOfMonth
    rw [htoday, hrelative, hdm, hmd, hbare]
    rfl
  rw [span_of_noFigures hfigures htoday, firstSpan_skip hnoWeekday, firstSpan_skip hnoPeriod,
    firstSpan_skip hnoEdge, firstSpan_skip hnoDay] at h
  have hrule : ∀ {found}, month text now direction = .ok found → ∃ e ∈ found,
      Nearest ((Yearless.month k).Taken today direction) direction e.start :=
    month_nearest htoday hm' hplain hyear hsame
  rcases firstSpan_cases h with ⟨e', he, hfound⟩ | ⟨hnone, -⟩
  · cases he
    obtain ⟨e', he', hnearest⟩ := hrule hfound
    cases he'
    exact hnearest
  · obtain ⟨e', he', -⟩ := hrule hnone
    cases he'

/-- **The words** of a form are read as the nearest date. -/
theorem span_nearest (htoday : now.today = .ok today) {f : Yearless} {e : Day}
    (hf : yearless text now = some f) (h : span text now direction = .ok (some e)) :
    Nearest (f.Taken today direction) direction e.start := by
  unfold yearless at hf
  cases hweekday : fullmatch (weekdayRe 2) text with
  | some m =>
    rw [hweekday] at hf
    obtain ⟨wd, hwd, rfl⟩ := Option.map_eq_some_iff.1 hf
    exact span_weekday htoday hweekday hwd h
  | none =>
    rw [hweekday] at hf
    cases hmonth : fullmatch (monthRe 2) text with
    | some m =>
      rw [hmonth] at hf
      obtain ⟨k, hk, rfl⟩ := Option.map_eq_some_iff.1 hf
      exact span_month htoday hmonth hk h
    | none =>
      rw [hmonth] at hf
      cases hbare : fullmatch bareDayRe text with
      | some m =>
        rw [hbare] at hf
        cases hf
        exact bareDay_nearest htoday (span_bareDay hbare h)
      | none =>
        rw [hbare] at hf
        dsimp only at hf
        split at hf
        · rename_i day month hn
          cases hf
          obtain ⟨hyear, hmonth', hday, -⟩ := (span_read htoday hn h).dated month rfl
          exact nearest_date_of_year hyear hmonth' (by rw [hday])
        · cases hf

/-- **Dates without a year** are the nearest of those that are left: from today on, or from this
month on, or until today. -/
theorem nearest_date {lib : TimeLib} {expression : String} {clock : TimeClock} {words : Text}
    {ct : Option ClockTime} {weekday : Option Int} {f : Yearless} {r : Resolved}
    (htoday : now.today = .ok today)
    (hreads : Reads lib expression clock now direction words ct weekday)
    (hf : yearless words now = some f)
    (h : resolve lib expression clock now direction = .ok r) :
    ∃ date, now.IsOn date r.start ∧
      Nearest (f.Taken today (aim lib expression clock direction))
        (aim lib expression clock direction) date := by
  obtain ⟨d, e, hspan, hof, hcomes⟩ := resolve_of_reads hreads h
  have hon := hcomes.isOn
  rw [hof.start] at hon
  exact ⟨e.start, hon, span_nearest htoday hf hspan⟩

/-! ## A Monday and the last of June -/

/-- Noon of 30 June 2026. -/
def juneEnds : TurnNow := { summerNoon with instant := 739797 * day + 12 * hour }

/-- A moment at midnight is on no other date. -/
theorem ordinal_of_isOn {zoned : TurnNow} (hzone : zoned.zone = summerNoon.zone) {date : Date}
    {n : Int} (h : zoned.IsOn date (n * day)) : date.ordinal = n := by
  obtain ⟨t, ht, ht', -, hat⟩ := h
  have hbegins := eq_of_checked hat
  rw [hzone, (summerNoon_shows _).2] at hbegins
  unfold day hour second at *
  omega

theorem juneEnds_today : ∃ today, juneEnds.today = .ok today ∧ today.ordinal = 739797 ∧
    today.day = 30 ∧ daysInMonth today.year today.month = 30 := by
  have hdate : ∃ d ∈ juneEnds.today.toOption, d.ordinal = 739797 ∧ d.day = 30 ∧
      daysInMonth d.year d.month = 30 := by decide +kernel
  obtain ⟨today, htoday, hordinal⟩ := hdate
  exact ⟨today, of_mem_toOption htoday, hordinal⟩

/-- On a Monday, Monday is a week away; and on the last of June the last 31st is that of May, not
the day that June has for it. -/
theorem nearest_is_passed_over :
    (∃ today r, summerNoon.today = .ok today ∧
      Reads yearlyTimes "monday" .occurred summerNoon .future "monday".toList none none ∧
      yearless "monday".toList summerNoon = some (.weekday 0) ∧
      resolve yearlyTimes "monday" .occurred summerNoon .future = .ok r ∧
      ¬ ∃ date, summerNoon.IsOn date r.start ∧ Nearest (fun c => (Yearless.weekday 0).Candidate c ∧
        (Yearless.weekday 0).Within today .future c) .future date) ∧
    ∃ today r, juneEnds.today = .ok today ∧
      Reads yearlyTimes "31" .occurred juneEnds .past "31".toList none none ∧
      yearless "31".toList juneEnds = some (.day 31) ∧
      resolve yearlyTimes "31" .occurred juneEnds .past = .ok r ∧
      ¬ ∃ date, juneEnds.IsOn date r.start ∧ Nearest (fun c => (Yearless.day 31).Candidate c ∧
        (Yearless.day 31).Within today .past c) .past date := by
  constructor
  · obtain ⟨today, htoday, hordinal⟩ := summerNoon_today
    have hread : ∃ r ∈ (resolve yearlyTimes "monday" .occurred summerNoon .future).toOption,
        r.start = 739775 * day := by decide +kernel
    obtain ⟨r, hr, hstart⟩ := hread
    refine ⟨today, r, htoday, reads_of_whole (by decide +kernel) (by decide +kernel)
      (by decide +kernel) (by decide +kernel), by decide +kernel, of_mem_toOption hr, ?_⟩
    rintro ⟨date, hdate, hnearest⟩
    rw [hstart] at hdate
    have hwhen := ordinal_of_isOn rfl hdate
    have htaken : today.weekday = 0 := by
      unfold Date.weekday
      omega
    have hle : date.ordinal ≤ today.ordinal := hnearest.nearest today ⟨htaken, le_rfl⟩
    omega
  · obtain ⟨today, htoday, hordinal, hday, hlength⟩ := juneEnds_today
    have hread : ∃ r ∈ (resolve yearlyTimes "31" .occurred juneEnds .past).toOption,
        r.start = 739767 * day := by decide +kernel
    obtain ⟨r, hr, hstart⟩ := hread
    refine ⟨today, r, htoday, reads_of_whole (by decide +kernel) (by decide +kernel)
      (by decide +kernel) (by decide +kernel), by decide +kernel, of_mem_toOption hr, ?_⟩
    rintro ⟨date, hdate, hnearest⟩
    rw [hstart] at hdate
    have hwhen := ordinal_of_isOn rfl hdate
    have htaken : (Yearless.day 31).Candidate today := by
      show today.day = min 31 (daysInMonth today.year today.month)
      rw [hday, hlength]
      rfl
    have hle : today.ordinal ≤ date.ordinal := hnearest.nearest today ⟨htaken, le_rfl⟩
    omega

/-- The next March, seen from June, is that of the next year. -/
theorem march_is_next : ∃ today r, summerNoon.today = .ok today ∧
    resolve yearlyTimes "march" .occurred summerNoon .future = .ok r ∧
    ∃ date, summerNoon.IsOn date r.start ∧ Nearest ((Yearless.month 3).Taken today
      (aim yearlyTimes "march" .occurred .future)) (aim yearlyTimes "march" .occurred .future)
        date := by
  obtain ⟨today, htoday, -⟩ := summerNoon_today
  have hread : ∃ r ∈ (resolve yearlyTimes "march" .occurred summerNoon .future).toOption,
      r.precision = .month := by decide +kernel
  obtain ⟨r, hr, -⟩ := hread
  have hreads : Reads yearlyTimes "march" .occurred summerNoon .future "march".toList none none :=
    reads_of_whole (by decide +kernel) (by decide +kernel) (by decide +kernel) (by decide +kernel)
  exact ⟨today, r, htoday, of_mem_toOption hr,
    nearest_date htoday hreads (by decide +kernel) (of_mem_toOption hr)⟩

end Time

end SecondMind
