import SecondMind.Ingestion.TimeText

/-!
# Time expressions: days and periods

`ingestion/time.py`: the rules that read a text without a time of day as a span of the calendar,
each of them a pattern and some date arithmetic.

* `Day` — a span, with its precision and the name of its rule;
* `spanRules` — the rules, in the order in which they are tried;
* `span` — the first rule that reads the text.
-/

namespace SecondMind

namespace Time

open Gregorian Regex Regex.Pattern

/-- `Direction`. -/
inductive Direction
  | future | past | auto
  deriving DecidableEq, Repr

/-- `_Day`: a span of the calendar, before a time of day is applied. -/
structure Day where
  start : Date
  days : Int
  precision : TimePrecision
  rule : String
  assumed : Bool := false
  alternative : Option String := none

/-- A rule: none if it does not read the text. -/
abbrev SpanRule := Text → TurnNow → Direction → Attempt (Option Day)

/-- A single day. -/
def oneDay (start : Date) (rule : String) (alternative : Option String := none)
    (assumed : Bool := alternative.isSome) : Attempt (Option Day) :=
  .ok (some { start := start, days := 1, precision := .day, rule := rule, assumed := assumed
              alternative := alternative })

/-- `str.capitalize`, of a name. -/
def capitalize (name : String) : String :=
  match name.toList with
  | [] => ""
  | c :: cs => String.ofList (c.toUpper :: cs)

def monthName (month : Int) : String := capitalize (months[(month - 1).toNat]?.getD "")

def weekdayName (weekday : Int) : String := capitalize (weekdays[weekday.toNat]?.getD "")

/-! ## Dates in words and in figures -/

/-- The table of `_relative_day`. -/
def relativeDays : List (String × Int × String) :=
  [("today", 0, "today"), ("now", 0, "today"), ("tomorrow", 1, "tomorrow"),
    ("yesterday", -1, "yesterday"), ("day after tomorrow", 2, "day_after_tomorrow"),
    ("day before yesterday", -2, "day_before_yesterday"), ("last night", -1, "last_night")]

/-- `_relative_day`. -/
def relativeDay : SpanRule := fun text now _ => do
  let today ← now.today
  match relativeDays.find? (·.1.toList = text) with
  | none => return none
  | some (_, offset, rule) => oneDay (← addDays today offset) rule

/-- `_safe_date`. -/
def safeDate (year month day : Int) : Attempt Date :=
  newDate year month (min day (daysInMonth year month))

/-- `_next_date`. -/
def nextDate (month day : Int) (now : TurnNow) (direction : Direction) : Attempt Date := do
  let today ← now.today
  let candidate ← safeDate today.year month day
  if direction = .past then
    if candidate.ordinal ≤ today.ordinal then return candidate
    else safeDate (today.year - 1) month day
  else if today.ordinal ≤ candidate.ordinal then return candidate
  else safeDate (today.year + 1) month day

/-- `(\d{4})-(\d{1,2})-(\d{1,2})`. -/
def isoDateRe : Pattern :=
  all [group 1 (digits 4 4), text "-", group 2 (digits 1 2), text "-", group 3 (digits 1 2)]

/-- `[/.]`. -/
def slash : Pattern := one (· ∈ ['/', '.'])

/-- `(\d{1,2})[/.](\d{1,2})(?:[/.](\d{2,4}))?`. -/
def numericRe : Pattern :=
  all [group 1 (digits 1 2), slash, group 2 (digits 1 2), opt (all [slash, group 3 (digits 2 4)])]

/-- The zone is one where the month comes first. -/
def TurnNow.monthFirst (now : TurnNow) : Bool := "America/".toList.isPrefixOf now.timezone.toList

/-- A date in figures. -/
def numericDate (m : Match) (now : TurnNow) (direction : Direction) : Attempt (Option Day) := do
  let a ← int (m.group 1)
  let b ← int (m.group 2)
  let (dayNo, monthNo) := if now.monthFirst then (b, a) else (a, b)
  let swapped := 12 < monthNo
  let (dayNo, monthNo) := if swapped then (monthNo, dayNo) else (dayNo, monthNo)
  let ambiguous : Bool := a ≤ 12 ∧ b ≤ 12 ∧ a ≠ b ∧ ¬ swapped
  let d ←
    if m.has 3 then do
      let y ← int (m.group 3)
      newDate (if (m.group 3).length = 2 then y + 2000 else y) monthNo dayNo
    else nextDate monthNo dayNo now direction
  oneDay d (if now.monthFirst then "numeric_date_mdy" else "numeric_date_dmy")
    (if ambiguous then some s!"{b}/{a} read the other way round" else none)

/-- `_iso_or_numeric`. -/
def isoOrNumeric : SpanRule := fun text now direction =>
  match fullmatch isoDateRe text with
  | some m => do
    oneDay (← newDate (← int (m.group 1)) (← int (m.group 2)) (← int (m.group 3))) "iso_date"
  | none =>
    match fullmatch numericRe text with
    | some m => numericDate m now direction
    | none => .ok none

/-! ## Counted days -/

/-- `(\d+)\s*(day|week|fortnight|month|year)s?`. -/
def unitsRe : Pattern :=
  all [group 1 (plus digit), gap, group 2 (texts ["day", "week", "fortnight", "month", "year"]),
    opt (text "s")]

/-- `(?:in|after)\s+ ... (?:\s+(?:from now|from today|time))?`. -/
def inUnitsRe : Pattern :=
  all [texts ["in", "after"], spaces, unitsRe, optAfterSpaces (texts ["from now", "from today", "time"])]

def unitsLaterRe : Pattern :=
  all [unitsRe, spaces, texts ["from now", "from today", "later", "hence"]]

def unitsAgoRe : Pattern := all [unitsRe, spaces, text "ago"]

/-- `_in_n_apply`. -/
def inNApply (m : Match) (now : TurnNow) (sign : Int) : Attempt (Option Day) := do
  let n := (← int (m.group 1)) * sign
  let unit := m.group 2
  let today ← now.today
  let d ←
    if unit = "day".toList then addDays today n
    else if unit = "week".toList then addDays today (n * 7)
    else if unit = "fortnight".toList then addDays today (2 * n * 7)
    else if unit = "month".toList then addMonths today 0 n
    else addMonths today n 0
  oneDay d (if sign < 0 then "n_units_ago" else "in_n_units")

/-- `_in_n`. -/
def inN : SpanRule := fun text now _ =>
  match (fullmatch inUnitsRe text).orElse fun _ => fullmatch unitsLaterRe text with
  | some m => inNApply m now 1
  | none =>
    match fullmatch unitsAgoRe text with
    | some m => inNApply m now (-1)
    | none => .ok none

/-! ## Weekdays -/

/-- `(?:(this|next|last|coming|past)\s+)?` and a weekday. -/
def qualifiedWeekdayRe : Pattern :=
  all [optBeforeSpaces (group 1 (texts ["this", "next", "last", "coming", "past"])), weekdayRe 2]

/-- "next Friday". -/
def nextWeekday (today upcoming : Date) (wd : Int) : Attempt (Option Day) := do
  let ahead := (wd - today.weekday) % 7
  let nextWeek ← addDays (← weekStart today) (7 + wd)
  if nextWeek ≠ upcoming ∧ ahead ≠ 0 then
    oneDay nextWeek "weekday_of_next_week"
      (some s!"{weekdayName wd} {upcoming.day} {monthName upcoming.month}, the coming one")
  else
    oneDay (← if ahead ≠ 0 then pure nextWeek else addDays today 7) "weekday_of_next_week"

/-- `_weekday`. -/
def weekday : SpanRule := fun text now direction =>
  match fullmatch qualifiedWeekdayRe text with
  | none => .ok none
  | some m =>
    match weekdayNo (m.group 2) with
    | none => .ok none
    | some wd => do
      let today ← now.today
      let ahead := (wd - today.weekday) % 7
      let upcoming ← addDays today ahead
      let behind := (today.weekday - wd) % 7
      let previous ← addDays today (-(if behind = 0 then 7 else behind))
      let qualifier := m.group 1
      if qualifier = "last".toList ∨ qualifier = "past".toList then oneDay previous "last_weekday"
      else if qualifier = "next".toList then nextWeekday today upcoming wd
      else if qualifier = "this".toList ∨ qualifier = "coming".toList then
        oneDay upcoming "this_weekday"
      else if direction = .past then
        if ahead = 0 then oneDay (← addDays today (-7)) "past_weekday" (some "today")
        else oneDay previous "past_weekday"
      else if ahead = 0 then oneDay (← addDays today 7) "bare_weekday_today" (some "today")
      else oneDay upcoming "upcoming_weekday"

/-! ## Periods and their edges -/

/-- The step of "this", "next" and "last". -/
def stepOf (which : Text) : Int :=
  if which = "coming".toList ∨ which = "next".toList then 1
  else if which = "last".toList ∨ which = "past".toList then -1
  else 0

/-- `(this|next|last|coming|past)\s+(week|weekend|month|year)`. -/
def periodRe : Pattern :=
  all [group 1 (texts ["this", "next", "last", "coming", "past"]), spaces,
    group 2 (texts ["week", "weekend", "month", "year"])]

/-- The months that begin `step` months from this one. -/
def monthFrom (today : Date) (step : Int) : Attempt Date := do
  addMonths (← monthStart today.year today.month) 0 step

/-- `_periods`. -/
def periods : SpanRule := fun text now _ => do
  let today ← now.today
  match fullmatch periodRe text with
  | none => return none
  | some m =>
    let which := m.group 1
    let unit := m.group 2
    let step := stepOf which
    let name := String.ofList which
    if unit = "week".toList then
      let start ← addDays (← weekStart today) (7 * step)
      return some { start := start, days := 7, precision := .day, rule := name ++ "_week" }
    else if unit = "weekend".toList then
      let saturday ← addDays (← weekStart today) 5
      let saturday ←
        if which = "this".toList ∧ today.weekday = 6 then addDays today (-1) else pure saturday
      let step : Int :=
        if which = "coming".toList then (if today.weekday < 5 then 0 else 1) else step
      let start ← addDays saturday (7 * step)
      return some { start := start, days := 2, precision := .day, rule := name ++ "_weekend" }
    else if unit = "month".toList then
      let start ← monthFrom today step
      return some { start := start, days := 1, precision := .month, rule := name ++ "_month" }
    else
      let start ← newDate (today.year + step) 1 1
      return some { start := start, days := 1, precision := .year, rule := name ++ "_year" }

/-- `(end|start|beginning)\s+(?:of\s+)?(?:the\s+)?(?:(this|next|last)\s+)?(week|month|year)`. -/
def edgeRe : Pattern :=
  all [group 1 (texts ["end", "start", "beginning"]), spaces, optBeforeSpaces (text "of"),
    optBeforeSpaces (text "the"), optBeforeSpaces (group 2 (texts ["this", "next", "last"])),
    group 3 (texts ["week", "month", "year"])]

/-- `_edges`. -/
def edges : SpanRule := fun text now _ => do
  let today ← now.today
  match fullmatch edgeRe text with
  | none => return none
  | some m =>
    let atEnd : Bool := m.group 1 = "end".toList
    let which := if m.has 2 then m.group 2 else "this".toList
    let unit := m.group 3
    let step := stepOf which
    let name := String.ofList which
    if unit = "week".toList then
      let monday ← addDays (← weekStart today) (7 * step)
      if atEnd then
        let sunday ← addDays monday 6
        let friday ← addDays monday 4
        oneDay sunday s!"end_of_{name}_week" (some s!"Friday {friday.day}")
      else oneDay monday s!"start_of_{name}_week"
    else if unit = "month".toList then
      let first ← monthFrom today step
      if atEnd then
        oneDay (← addDays (← addMonths first 0 1) (-1)) s!"end_of_{name}_month"
      else oneDay first s!"start_of_{name}_month"
    else if atEnd then
      oneDay (← newDate (today.year + step) 12 31) s!"end_of_{name}_year"
    else oneDay (← newDate (today.year + step) 1 1) s!"start_of_{name}_year"

/-! ## Days of a month, months and years -/

/-- `_clamped`. -/
def clamped (first : Date) (dayNo : Int) (rule : String) (altFirst : Option Date := none) :
    Attempt (Option Day) := do
  let last := daysInMonth first.year first.month
  if dayNo ≤ last then oneDay (← newDate first.year first.month dayNo) rule
  else
    let name := monthName first.month
    let short := s!"{name} has {last} days"
    let alternative := match altFirst with
      | none => short
      | some next => s!"{dayNo} {monthName next.month} ({short})"
    oneDay (← newDate first.year first.month last) (rule ++ "_clamped") (some alternative)

/-- `(\d{1,2})\s+(this|next|last)\s+month`. -/
def dayOfMonthRe : Pattern :=
  all [group 1 (digits 1 2), spaces, group 2 (texts ["this", "next", "last"]), spaces, text "month"]

/-- `(?:\s+(\d{4}))?`. -/
def optYear : Pattern := optAfterSpaces (group 3 (digits 4 4))

def dayMonthRe : Pattern := all [group 1 (digits 1 2), spaces, monthRe 2, optYear]

def monthDayRe : Pattern := all [monthRe 1, spaces, group 2 (digits 1 2), optYear]

def bareDayRe : Pattern := group 1 (digits 1 2)

/-- A day and a month, with or without a year. -/
def dayAndMonth (m : Match) (dayText monthText : Text) (now : TurnNow) (direction : Direction) :
    Attempt (Option Day) := do
  let today ← now.today
  match monthNo monthText with
  | none => return none
  | some month =>
    let dayNo ← int dayText
    if daysInMonth today.year month < dayNo ∧ ¬ (month = 2 ∧ dayNo = 29) then return none
    else if m.has 3 then oneDay (← safeDate (← int (m.group 3)) month dayNo) "day_month_year"
    else
      oneDay (← nextDate month dayNo now direction)
        (if direction = .past then "day_month_past" else "day_month_next")

/-- A bare day of the month. -/
def bareDay (dayNo : Int) (now : TurnNow) (direction : Direction) : Attempt (Option Day) := do
  let today ← now.today
  let thisMonth ← monthStart today.year today.month
  if direction = .past then
    let first ← if dayNo ≤ today.day then pure thisMonth else addMonths thisMonth 0 (-1)
    clamped first dayNo "bare_day_of_month_past"
  else if today.day ≤ dayNo then
    if daysInMonth today.year today.month < dayNo then
      clamped thisMonth dayNo "bare_day_of_month" (some (← addMonths thisMonth 0 1))
    else oneDay (← newDate today.year today.month dayNo) "bare_day_of_month"
  else clamped (← addMonths thisMonth 0 1) dayNo "bare_day_of_month"

/-- `_day_of_month`. -/
def dayOfMonth : SpanRule := fun text now direction => do
  let today ← now.today
  match fullmatch dayOfMonthRe text with
  | some m =>
    let dayNo ← int (m.group 1)
    let first ← monthFrom today (stepOf (m.group 2))
    clamped first dayNo s!"day_of_{String.ofList (m.group 2)}_month"
  | none =>
    match fullmatch dayMonthRe text, fullmatch monthDayRe text with
    | some m, _ => dayAndMonth m (m.group 1) (m.group 2) now direction
    | none, some m => dayAndMonth m (m.group 2) (m.group 1) now direction
    | none, none =>
      match fullmatch bareDayRe text with
      | none => return none
      | some m =>
        let dayNo ← int (m.group 1)
        if 1 ≤ dayNo ∧ dayNo ≤ 31 then bareDay dayNo now direction else return none

/-- `(?:(this|next|last|coming|early|mid|late)\s+)?`, a month and perhaps a year. -/
def qualifiedMonthRe : Pattern :=
  all [optBeforeSpaces (group 1 (texts ["this", "next", "last", "coming", "early", "mid", "late"])),
    monthRe 2, optYear]

/-- `_month`. -/
def month : SpanRule := fun text now direction => do
  let today ← now.today
  match fullmatch qualifiedMonthRe text with
  | none => return none
  | some m =>
    match monthNo (m.group 2) with
    | none => return none
    | some month =>
      let ofMonth (start : Date) (rule : String) (alternative : Option String) :
          Attempt (Option Day) :=
        .ok (some { start := start, days := 1, precision := .month, rule := rule
                    assumed := alternative.isSome, alternative := alternative })
      if m.has 3 then ofMonth (← newDate (← int (m.group 3)) month 1) "month_year" none
      else
        let qualifier := m.group 1
        let thisYear ← newDate today.year month 1
        if qualifier = "last".toList then
          let first ←
            if month < today.month then pure thisYear else newDate (today.year - 1) month 1
          ofMonth first "last_month_name" none
        else if qualifier = "this".toList then ofMonth thisYear "this_month_name" none
        else if qualifier = "next".toList then
          if today.month < month then
            ofMonth thisYear "next_month_name" (some s!"{monthName month} {today.year + 1}")
          else ofMonth (← newDate (today.year + 1) month 1) "next_month_name" none
        else if direction = .past then
          let first ←
            if month ≤ today.month then pure thisYear else newDate (today.year - 1) month 1
          ofMonth first "month_name_past" none
        else
          let first ←
            if today.month ≤ month then pure thisYear else newDate (today.year + 1) month 1
          ofMonth first "month_name_next" none

def yearRe : Pattern := group 1 (digits 4 4)

/-- `_year`. -/
def year : SpanRule := fun text _ _ =>
  match fullmatch yearRe text with
  | none => .ok none
  | some m => do
    let y ← int (m.group 1)
    if 1900 ≤ y ∧ y ≤ 2200 then
      return some { start := ← newDate y 1 1, days := 1, precision := .year, rule := "year" }
    else return none

/-! ## All rules -/

/-- `_SPAN_RULES`. -/
def spanRules : List SpanRule :=
  [relativeDay, isoOrNumeric, inN, weekday, periods, edges, dayOfMonth, month, year]

/-- The first rule that reads the text. -/
def firstSpan (text : Text) (now : TurnNow) (direction : Direction) :
    List SpanRule → Attempt (Option Day)
  | [] => .ok none
  | rule :: rules => do
    match ← rule text now direction with
    | some d => return some d
    | none => firstSpan text now direction rules

/-- `_span`. -/
def span : SpanRule := fun text now direction => firstSpan text now direction spanRules

/-- A weekday and what follows it. -/
def weekdayRestRe : Pattern :=
  all [start, weekdayRe 1, spaces, group 2 (plus (one (· ≠ '\n'))), stop]

/-- `_weekday_and_date`. -/
def weekdayAndDate : SpanRule := fun text now direction =>
  match matchStart weekdayRestRe text with
  | none => .ok none
  | some m => do
    let day ← span (m.group 2) now direction
    match day, weekdayNo (m.group 1) with
    | some d, some wd =>
      if d.precision ≠ .day then return some d
      else if d.start.weekday = wd then return some { d with rule := d.rule ++ "+weekday" }
      else
        let offset := (wd - d.start.weekday + 3) % 7 - 3
        let other ← addDays d.start offset
        return some { d with
          rule := d.rule ++ "+weekday_mismatch", assumed := true
          alternative := some s!"{weekdayName wd} {other.day} {monthName other.month}" }
    | day, _ => return day

end Time

end SecondMind
