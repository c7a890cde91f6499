import SecondMind.Ingestion.TimeSpans
import SecondMind.Memory.Recurrence

/-!
# Time expressions: what a save stores

`ingestion/time.py`: `resolve` turns one expression into a moment with a precision, or into a
routine with a recurrence rule.

* `routine` — what recurs;
* `applyTime` — a span of the calendar with a time of day;
* `resolve` — the whole of it.
-/

namespace SecondMind

namespace Time

open Gregorian Regex Regex.Pattern

/-- What the built-in strings and the parser of recurrence rules answer. -/
structure TimeLib where
  text : TextLib
  /-- `parse_rrule`: a rule that begins at a time on the wall clock. -/
  parseRrule : String → Int → Attempt RRule

/-- `needle in text`. -/
def contains (needle text : Text) : Bool := text.tails.any needle.isPrefixOf

/-- A `Resolved` whose expression and clock are still to be filled in. -/
def resolved (begins : Int) (ends : Option Int) (precision : TimePrecision) (rule : String) :
    Resolved where
  expression := ""
  clock := .occurred
  start := begins
  end_ := ends
  precision := precision
  rule := rule

/-! ## Routines -/

def everyRe : Pattern :=
  whole (group 1 (texts ["every", "each", "daily", "weekly", "monthly", "yearly", "annually",
    "weekdays", "weekends", "mondays", "tuesdays", "wednesdays", "thursdays", "fridays",
    "saturdays", "sundays"]))

/-- `first|second|third|fourth|last`. -/
def ordinalWord : Pattern := texts ["first", "second", "third", "fourth", "last"]

/-- `\w+day`. -/
def someDay : Pattern := all [plus (one isWord), text "day"]

def nthOfMonthRe : Pattern :=
  whole (all [group 1 ordinalWord, spaces, someDay, spaces, text "of", spaces,
    group 2 (texts ["the", "every", "each"]), spaces, text "month"])

/-- `every|each`. -/
def everyOrEach : Pattern := texts ["every", "each"]

def fillerRe : Pattern := whole (group 1 (texts ["on", "at", "the", "of"]))

def everyOtherRe : Pattern := whole (text "every other")

def nWeeksRe : Pattern :=
  whole (all [text "every", spaces, group 1 (plus digit), spaces, text "week", opt (text "s")])

def nthWeekdayRe : Pattern :=
  whole (all [group 1 ordinalWord, spaces, group 2 someDay, spaces, opt everyOrEach, gap,
    text "month"])

/-- `(?:year\s+)?`. -/
def optYearWord : Pattern := optBeforeSpaces (text "year")

def yearlyDayMonthRe : Pattern :=
  all [opt everyOrEach, gap, optYearWord, group 1 (digits 1 2), spaces, monthRe 2]

def yearlyMonthDayRe : Pattern :=
  all [everyOrEach, spaces, optYearWord, monthRe 2, spaces, group 1 (digits 1 2)]

def dayEveryMonthRe : Pattern :=
  whole (all [group 1 (digits 1 2), spaces, everyOrEach, spaces, text "month"])

def everyMonthDayRe : Pattern :=
  whole (all [everyOrEach, spaces, text "month", spaces, group 1 (digits 1 2)])

def monthlyDayRe : Pattern := whole (all [text "monthly", spaces, group 1 (digits 1 2)])

def weekdaysRe : Pattern := whole (all [text "weekday", opt (text "s")])

def weekendsRe : Pattern := whole (all [text "weekend", opt (text "s")])

def dailyRe : Pattern :=
  whole (group 1 (texts ["daily", "every day", "each day", "every morning", "every evening",
    "every night"]))

def weeklyRe : Pattern := whole (group 1 (texts ["weekly", "every week", "each week"]))

def monthlyRe : Pattern := whole (group 1 (texts ["monthly", "every month", "each month"]))

def yearlyRe : Pattern :=
  whole (group 1 (texts ["yearly", "annually", "every year", "each year"]))

/-- `_WD_RRULE`. -/
def weekdayRrule (wd : Int) : String :=
  ["MO", "TU", "WE", "TH", "FR", "SA", "SU"][wd.toNat]?.getD ""

/-- A recurrence rule, and the name of the rule that made it. -/
abbrev Recurring := Option (String × String)

/-- The nth weekday of a month. -/
def nthWeekday (body : Text) : Recurring :=
  (search nthWeekdayRe body).bind fun m =>
    (weekdayNo (m.group 2)).map fun wd =>
      let n := (ordinalWords.find? (·.1.toList = m.group 1)).elim 0 (·.2)
      (s!"FREQ=MONTHLY;BYDAY={n}{weekdayRrule wd}", "routine_nth_weekday_of_month")

/-- A date every year. -/
def yearlyDate (body : Text) : Attempt Recurring :=
  match (search yearlyDayMonthRe body).orElse fun _ => search yearlyMonthDayRe body with
  | none => .ok none
  | some m =>
    if ["year", "annual", "every", "each"].any (fun word => contains word.toList body) then
      match monthNo (m.group 2) with
      | none => .ok none
      | some month => do
        let dayNo ← int (m.group 1)
        return some (s!"FREQ=YEARLY;BYMONTH={month};BYMONTHDAY={dayNo}", "routine_yearly_date")
    else .ok none

/-- A day every month. -/
def monthlyDay (body : Text) : Attempt Recurring :=
  match ((search dayEveryMonthRe body).orElse fun _ => search everyMonthDayRe body).orElse
      fun _ => search monthlyDayRe body with
  | none => .ok none
  | some m => do
    return some (s!"FREQ=MONTHLY;BYMONTHDAY={← int (m.group 1)}", "routine_day_of_month")

/-- The days of the week that are named. -/
def namedWeekdays (body : Text) : List Int :=
  if found weekdaysRe body then [0, 1, 2, 3, 4]
  else if found weekendsRe body then [5, 6]
  else
    ((findAll (weekdayRe 1) body).filterMap fun m => weekdayNo (m.group 1)).dedup.insertionSort
      (· ≤ ·)

/-- What recurs daily, weekly, monthly or yearly. -/
def plainRoutine (text body : Text) (now : TurnNow) : Attempt Recurring :=
  let named := namedWeekdays body
  if named ≠ [] then
    .ok (some ("FREQ=WEEKLY;BYDAY=" ++ ",".intercalate (named.map weekdayRrule), "routine_weekly"))
  else if found dailyRe text then .ok (some ("FREQ=DAILY", "routine_daily"))
  else if found weeklyRe body then do
    return some ("FREQ=WEEKLY;BYDAY=" ++ weekdayRrule (← now.today).weekday, "routine_weekly")
  else if found monthlyRe body then do
    return some (s!"FREQ=MONTHLY;BYMONTHDAY={(← now.today).day}", "routine_monthly")
  else if found yearlyRe body then do
    let today ← now.today
    return some (s!"FREQ=YEARLY;BYMONTH={today.month};BYMONTHDAY={today.day}", "routine_yearly")
  else .ok none

/-- The rule of a routine, without the time of day. -/
def routineRule (text body : Text) (now : TurnNow) : Attempt Recurring := do
  match nthWeekday body with
  | some rule => return some rule
  | none =>
    match ← yearlyDate body with
    | some rule => return some rule
    | none =>
      match ← monthlyDay body with
      | some rule => return some rule
      | none => plainRoutine text body now

/-- `_first_occurrence`. -/
def firstOccurrence (lib : TimeLib) (rule : String) (now : TurnNow) : Attempt Int := do
  let localStart := (← now.today).ordinal * day
  let after ← if contains "BYHOUR".toList rule.toList then now.localTime else pure localStart
  let parsed ← lib.parseRrule rule localStart
  match parsed.after after true with
  | none => .error (.unresolvable s!"routine {rule} never occurs")
  | some first => checked (now.zone.ofLocal first)

/-- How often: every other time, or every few weeks. -/
def intervalOf (body : Text) : Attempt Int :=
  match search nWeeksRe body with
  | some m => int (m.group 1)
  | none => .ok (if found everyOtherRe body then 2 else 1)

/-- "am instead of pm". -/
def insteadOf (ct : ClockTime) : Option String :=
  if ct.assumed then ct.alternative.map fun t => t.shown ++ " instead of " ++ ct.value.shown else none

/-- The text is about something that recurs. -/
def isRoutine (text : Text) : Bool := found everyRe text || found nthOfMonthRe text

/-- `_routine`. -/
def routine (lib : TimeLib) (text : Text) (now : TurnNow) : Attempt (Option Resolved) :=
  if isRoutine text then do
    let (body, ct, part) ← clockTime text
    let ct := ct.orElse fun _ => part.map fun p => { value := p.starts }
    let body := squeeze (sub fillerRe (fun _ => [' ']) body)
    let interval ← intervalOf body
    match ← routineRule text body now with
    | none => return none
    | some (rule, name) =>
      let rule := if 1 < interval then s!"{rule};INTERVAL={interval}" else rule
      let rule := match ct with
        | none => rule
        | some ct => s!"{rule};BYHOUR={ct.value.hour};BYMINUTE={ct.value.minute}"
      let first ← firstOccurrence lib rule now
      return some { resolved first none (if ct.isSome then .datetime else .day) name with
        rrule := some rule, assumed := ct.any (·.assumed)
        alternative := ct.bind insteadOf, partOfDay := part.map Part.name }
  else .ok none

/-! ## A span with a time of day -/

/-- `_apply_time`. -/
def applyTime (d : Day) (ct : Option ClockTime) (part : Option Part) (now : TurnNow) :
    Attempt Resolved :=
  let single : Bool := d.precision = .day ∧ d.days = 1
  let plain : Attempt Resolved := do
    let window ← now.dayWindow d.start d.days
    let ends ← match d.precision with
      | .month => do now.at_ (← addMonths d.start 0 1) 0
      | .year => do now.at_ (← newDate (d.start.year + 1) 1 1) 0
      | _ => pure window.2
    return { resolved window.1 (if single then none else some ends) d.precision d.rule with
      assumed := d.assumed, alternative := d.alternative, partOfDay := part.map Part.name }
  match ct, part with
  | some ct, part =>
    if single then do
      let begins ← now.at_ d.start ct.value.offset
      return { resolved begins none .datetime (d.rule ++ "+time") with
        assumed := d.assumed || ct.assumed
        alternative := (insteadOf ct).orElse fun _ => d.alternative
        partOfDay := part.map Part.name }
    else plain
  | none, some p =>
    if single then do
      let begins ← now.at_ d.start p.starts.offset
      let ends ← checked ((← now.at_ d.start 0) + p.hours.2 * hour)
      return { resolved begins (some ends) .datetime (d.rule ++ "+part_of_day") with
        assumed := d.assumed, alternative := d.alternative, partOfDay := some p.name }
    else plain
  | none, none => plain

/-- `(\d{4})-(\d{2})-(\d{2})(?:t|\s)(\d{2}):(\d{2})(?::\d{2})?`. -/
def isoInstantRe : Pattern :=
  all [group 1 (digits 4 4), text "-", group 2 (digits 2 2), text "-", group 3 (digits 2 2),
    alt (text "t") (one isSpace), group 4 (digits 2 2), text ":", group 5 (digits 2 2),
    opt (all [text ":", digits 2 2])]

/-- `(\d+)\s*(min|minute|hour|hr)s?`. -/
def clockUnitsRe : Pattern :=
  all [group 1 (plus digit), gap, group 2 (texts ["min", "minute", "hour", "hr"]), opt (text "s")]

def inClockUnitsRe : Pattern :=
  all [optBeforeSpaces (text "in"), clockUnitsRe, optAfterSpaces (text "from now")]

def clockUnitsAgoRe : Pattern := all [clockUnitsRe, spaces, text "ago"]

/-- So many minutes or hours. -/
def clockDelta (m : Match) : Attempt Int := do
  let n ← int (m.group 1)
  return if "min".toList.isPrefixOf (m.group 2) then n * (60 * second) else n * hour

/-- `_exact_instant`. -/
def exactInstant (text : Text) (now : TurnNow) : Attempt (Option Resolved) :=
  match fullmatch isoInstantRe text with
  | some m => do
    let d ← newDate (← int (m.group 1)) (← int (m.group 2)) (← int (m.group 3))
    let t ← newTime (← int (m.group 4)) (← int (m.group 5))
    return some (resolved (← now.at_ d t.offset) none .datetime "iso_datetime")
  | none =>
    match fullmatch inClockUnitsRe text with
    | some m => do
      let begins ← checked (now.instant + (← clockDelta m))
      return some (resolved begins none .datetime "in_n_units")
    | none =>
      match fullmatch clockUnitsAgoRe text with
      | some m => do
        let begins ← checked (now.instant - (← clockDelta m))
        return some (resolved begins none .datetime "n_units_ago")
      | none => .ok none

/-! ## Resolution -/

/-- `_BOUNDS`. -/
def bounds : List (String × Bound) :=
  [("since", .since), ("from", .since), ("until", .until), ("till", .until), ("til", .until),
    ("up to", .until), ("by", .by), ("before", .by)]

/-- The text without the word that bounds it. -/
def takeBound (text : Text) : Option Bound × Text :=
  match bounds.find? fun e => (e.1.toList ++ [' ']).isPrefixOf text with
  | some (word, bound) => (some bound, text.drop (word.length + 1))
  | none => (none, text)

/-- `_default_direction`. -/
def defaultDirection (clock : TimeClock) (bound : Option Bound) : Direction :=
  if clock = .valid ∧ bound = some .since then .past else .future

/-- `^(on|at|in the|in|the|around|about|for)\s+`. -/
def leadingRe : Pattern :=
  all [start, group 1 (texts ["on", "at", "in the", "in", "the", "around", "about", "for"]), spaces]

def theOfRe : Pattern := whole (group 1 (texts ["the", "of"]))

def leftoverRe : Pattern :=
  whole (group 1 (texts ["on", "at", "in", "the", "of", "around", "about"]))

/-- The text without a leading preposition, and without "the" and "of" in a date. -/
def bareText (text : Text) : Text :=
  let bare := sub leadingRe (fun _ => []) text
  if found digit bare then squeeze (sub theOfRe (fun _ => [' ']) bare) else bare

/-- The day that a text without a time of day names. -/
def namedDay (text : Text) (now : TurnNow) (direction : Direction) : Attempt (Option Day) := do
  match ← span text now direction with
  | some d => return some d
  | none =>
    let bare := bareText text
    match ← span bare now direction with
    | some d => return some d
    | none => weekdayAndDate bare now direction

/-- Nothing is left of the text but prepositions. -/
def nothingLeft (text : Text) : Bool :=
  (sub leftoverRe (fun _ => []) text).all isSpace

/-- The day of a time of day alone: today, or tomorrow if it has passed and lies ahead. -/
def impliedDay (ct : Option ClockTime) (now : TurnNow) (direction : Direction) : Attempt Day := do
  let today ← now.today
  let passed ← match ct with
    | none => pure false
    | some ct => do pure (decide ((← now.at_ today ct.value.offset) < now.instant))
  if passed ∧ direction = .future then
    return { start := ← addDays today 1, days := 1, precision := .day, rule := "next_time_of_day" }
  else return { start := today, days := 1, precision := .day, rule := "today_implied" }

/-- `_yearly`. -/
def yearly (result : Resolved) (now : TurnNow) : Attempt Resolved :=
  if result.rrule.isSome then .ok result
  else do
    let localTime ← checked (now.zone.toLocal result.start)
    let date ← dateOf (localTime / day)
    match result.precision with
    | .month =>
      return { result with rrule := some s!"FREQ=YEARLY;BYMONTH={date.month}"
                           rule := result.rule ++ "+yearly" }
    | .year => return result
    | _ =>
      let begins ←
        if date.ordinal < (← now.today).ordinal then do
          now.at_ (← safeDate (date.year + 1) date.month date.day) (localTime % day)
        else pure result.start
      return { result with rrule := some s!"FREQ=YEARLY;BYMONTH={date.month};BYMONTHDAY={date.day}"
                           start := begins, rule := result.rule ++ "+yearly" }

/-- `raise UnresolvableTimeError`. -/
def notUnderstood {α : Type} (lib : TimeLib) (rules expression : String) : Attempt α :=
  .error (.unresolvable ("no " ++ rules ++ " understood " ++ lib.text.repr expression))

/-- `resolve`, of the text without its bound. -/
def resolveText (lib : TimeLib) (expression : String) (text : Text) (now : TurnNow)
    (direction : Direction) (recurring : Bool) : Attempt Resolved := do
  match ← routine lib text now with
  | some r => return r
  | none =>
    let (text, ct, part) ← clockTime text
    match ← exactInstant text now with
    | some r => return r
    | none =>
      let d ← match ← namedDay text now direction with
        | some d => pure d
        | none =>
          if nothingLeft text ∧ (ct.isSome ∨ part.isSome) then impliedDay ct now direction
          else notUnderstood lib "rule" expression
      let result ← applyTime d ct part now
      if recurring then yearly result now else return result

/-- `resolve`. -/
def resolve (lib : TimeLib) (expression : String) (clock : TimeClock) (now : TurnNow)
    (direction : Direction := .auto) (recurring : Bool := false) : Attempt Resolved := do
  let (bound, text) := takeBound (norm lib.text expression)
  let direction := if direction = .auto then defaultDirection clock bound else direction
  let result ← resolveText lib expression text now direction recurring
  return { result with expression := expression, clock := clock, bound := bound }

end Time

end SecondMind
