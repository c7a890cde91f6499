import SecondMind.Calendar.Gregorian
import SecondMind.Core.Letters
import SecondMind.Core.Zone
import SecondMind.Ingestion.Drafts
import SecondMind.Regex.Pattern

/-!
# Time expressions: the text

`ingestion/time.py`: what is said of a time is normalised, and the time of day is pulled out of it.
What is left names a day.  Instants and wall times count from the midnight before 1 January of the
year 1, less a day, so that a date begins at its number times a day.

* `TimeError` — what escapes from `datetime`, and the declared error;
* `norm` — the normal form of an expression;
* `clockTime` — the time of day, the part of the day, and the text without them.
-/

namespace SecondMind

namespace Time

open Gregorian Regex Regex.Pattern

abbrev Text := List Char

/-! ## Errors -/

/-- `UnresolvableTimeError`, and what else may be raised. -/
inductive TimeError
  | unresolvable (message : String)
  | valueError
  | overflowError
  deriving DecidableEq, Repr

abbrev Attempt := Except TimeError

/-! ## Moments -/

/-- A moment of the calendar, or an `OverflowError`. -/
def checked (moment : Int) : Attempt Int :=
  if day ≤ moment ∧ moment < (lastOrdinal + 1) * day then .ok moment else .error .overflowError

theorem eq_of_checked {moment instant : Int} (h : checked moment = .ok instant) :
    instant = moment := by
  unfold checked at h
  split at h
  · cases h
    rfl
  · exact nomatch h

/-- `date.fromordinal`, as date arithmetic uses it. -/
def dateOf (ordinal : Int) : Attempt Date :=
  match Date.ofOrdinal ordinal with
  | some d => .ok d
  | none => .error .overflowError

theorem ordinal_of_dateOf {n : Int} {d : Date} (h : dateOf n = .ok d) : d.ordinal = n := by
  rw [dateOf] at h
  split at h
  · rename_i d' hd
    cases h
    rw [Date.ofOrdinal] at hd
    split at hd
    · cases hd
      rfl
    · exact nomatch hd
  · exact nomatch h

/-- `d + timedelta(days=n)`. -/
def addDays (d : Date) (n : Int) : Attempt Date := dateOf (d.ordinal + n)

/-- `date(y, m, d)`. -/
def newDate (y m d : Int) : Attempt Date :=
  match Date.ofYmd y m d with
  | some d => .ok d
  | none => .error .valueError

/-- `d + relativedelta(years=years, months=months)`; a year that is no C `int` is an
`OverflowError`. -/
def addMonths (d : Date) (years months : Int) : Attempt Date :=
  let year := d.year + years + months.tdiv 12
  let month := d.month + months.tmod 12
  let (year, month) :=
    if 12 < month then (year + 1, month - 12)
    else if month < 1 then (year - 1, month + 12)
    else (year, month)
  if -2 ^ 31 ≤ year ∧ year < 2 ^ 31 then newDate year month (min (daysInMonth year month) d.day)
  else .error .overflowError

/-- A `time` of whole minutes. -/
structure TimeOfDay where
  hour : Int
  minute : Int
  hourValid : 0 ≤ hour ∧ hour < 24
  minuteValid : 0 ≤ minute ∧ minute < 60
  deriving DecidableEq

/-- `time(hour, minute)`. -/
def newTime (hour : Int) (minute : Int := 0) : Attempt TimeOfDay :=
  if h : (0 ≤ hour ∧ hour < 24) ∧ 0 ≤ minute ∧ minute < 60 then .ok ⟨hour, minute, h.1, h.2⟩
  else .error .valueError

/-- The time since midnight on the clock. -/
def TimeOfDay.offset (t : TimeOfDay) : Int := t.hour * SecondMind.hour + t.minute * (60 * second)

def pad2 (n : Int) : String := if n < 10 then "0" ++ toString n else toString n

/-- `strftime('%H:%M')`. -/
def TimeOfDay.shown (t : TimeOfDay) : String := pad2 t.hour ++ ":" ++ pad2 t.minute

/-- `TurnNow`: an instant, and the zone of the workspace with its name. -/
structure TurnNow where
  instant : Int
  zone : Zone
  timezone : String

namespace TurnNow

variable (now : TurnNow)

def localTime : Attempt Int := checked (now.zone.toLocal now.instant)

def today : Attempt Date := do dateOf ((← now.localTime) / day)

/-- `_at`, for a time since midnight. -/
def at_ (d : Date) (t : Int) : Attempt Int := checked (now.zone.ofLocal (d.ordinal * day + t))

/-- `_day_window`. -/
def dayWindow (d : Date) (days : Int := 1) : Attempt (Int × Int) := do
  let start ← now.at_ d 0
  let stop ← now.at_ (← addDays d days) 0
  return (start, stop)

end TurnNow

/-- `_month_start`. -/
def monthStart (year month : Int) : Attempt Date := newDate year month 1

/-- `_week_start`. -/
def weekStart (d : Date) : Attempt Date := addDays d (-d.weekday)

/-! ## Words -/

/-- `WEEKDAYS`. -/
def weekdays : List String :=
  ["monday", "tuesday", "wednesday", "thursday", "friday", "saturday", "sunday"]

/-- `_WD_ABBR`. -/
def weekdayAbbr : List (Text × Int) :=
  [("mon", 0), ("tue", 1), ("tues", 1), ("wed", 2), ("thu", 3), ("thur", 3), ("thurs", 3),
    ("fri", 4), ("sat", 5), ("sun", 6)].map fun e => (e.1.toList, e.2)

/-- `MONTHS`. -/
def months : List String :=
  ["january", "february", "march", "april", "may", "june", "july", "august", "september",
    "october", "november", "december"]

/-- `_MONTH_ABBR`. -/
def monthAbbr : List (Text × Int) :=
  months.zipIdx.map (fun e => (e.1.toList.take 3, (e.2 : Int) + 1)) ++ [("sept".toList, 9)]

/-- `_NUMBERS`. -/
def numbers : List (String × Nat) :=
  [("a", 1), ("an", 1), ("one", 1), ("two", 2), ("three", 3), ("four", 4), ("five", 5), ("six", 6),
    ("seven", 7), ("eight", 8), ("nine", 9), ("ten", 10), ("eleven", 11), ("twelve", 12),
    ("fifteen", 15), ("twenty", 20), ("thirty", 30), ("couple of", 2), ("a couple of", 2),
    ("few", 3), ("a few", 3)]

/-- `_ORDINAL_WORDS`. -/
def ordinalWords : List (String × Int) :=
  [("first", 1), ("second", 2), ("third", 3), ("fourth", 4), ("fifth", 5), ("last", -1)]

/-- The keys of `PARTS`. -/
inductive Part
  | morning | afternoon | evening | night
  deriving DecidableEq, Repr

namespace Part

def name : Part → String
  | morning => "morning"
  | afternoon => "afternoon"
  | evening => "evening"
  | night => "night"

def names : List String := [morning, afternoon, evening, night].map name

def named (word : Text) : Option Part :=
  [morning, afternoon, evening, night].find? fun p => p.name.toList = word

/-- `PARTS`. -/
def hours : Part → Int × Int
  | morning => (8, 12)
  | afternoon => (14, 17)
  | evening => (18, 21)
  | night => (21, 24)

theorem hours_valid (p : Part) : (0 ≤ p.hours.1 ∧ p.hours.1 < 24) ∧ (0 : Int) ≤ 0 ∧ (0 : Int) < 60 := by
  cases p <;> decide

/-- `time(PARTS[part][0])`. -/
def starts (p : Part) : TimeOfDay := ⟨p.hours.1, 0, p.hours_valid.1, p.hours_valid.2⟩

end Part

/-- `" ".join(text.split())`. -/
def squeeze (text : Text) : Text := [' '].intercalate ((text.splitOnP isSpace).filter (· ≠ []))

/-- `int(digits)`, which refuses more than 4300 digits. -/
def int (digits : Text) : Attempt Int :=
  if digits.length ≤ 4300 then .ok (intOf digits) else .error .valueError

/-- `_month_no`. -/
def monthNo (word : Text) : Option Int :=
  match months.findIdx? (·.toList = word) with
  | some i => some (i + 1)
  | none =>
    if 3 ≤ word.length then
      (monthAbbr.lookup (word.take 4)).orElse fun _ => monthAbbr.lookup (word.take 3)
    else none

/-- `_weekday_no`. -/
def weekdayNo (word : Text) : Option Int :=
  let word :=
    if word = "tues".toList ∨ word = "thurs".toList then word
    else (word.reverse.dropWhile (· = 's')).reverse
  match weekdays.findIdx? (·.toList = word) with
  | some i => some i
  | none => weekdayAbbr.lookup word

/-! ## Patterns -/

/-- `\d`. -/
def digit : Pattern := one isDigit

/-- `\d{least,most}`. -/
def digits (least most : Nat) : Pattern := between least most digit

/-- `\s+`. -/
def spaces : Pattern := plus (one isSpace)

/-- `\s*`. -/
def gap : Pattern := star (one isSpace)

/-- `\b`. -/
def edge : Pattern := .edge isWord

/-- `\b(?:...)\b`. -/
def whole (p : Pattern) : Pattern := all [edge, p, edge]

/-- `(?:\s+ ...)?`. -/
def optAfterSpaces (p : Pattern) : Pattern := opt (all [spaces, p])

/-- `(?:... \s+)?`. -/
def optBeforeSpaces (p : Pattern) : Pattern := opt (all [p, spaces])

/-- `_MONTH_RE`, with the number of its group. -/
def monthRe (number : Nat) : Pattern :=
  group number (any
    [all [text "jan", opt (text "uary")], all [text "feb", opt (text "ruary")],
      all [text "mar", opt (text "ch")], all [text "apr", opt (text "il")], text "may",
      all [text "jun", opt (text "e")], all [text "jul", opt (text "y")],
      all [text "aug", opt (text "ust")],
      all [text "sep", opt (all [text "t", opt (text "ember")])],
      all [text "oct", opt (text "ober")], all [text "nov", opt (text "ember")],
      all [text "dec", opt (text "ember")]])

/-- `_WD_RE`, with the number of its group. -/
def weekdayRe (number : Nat) : Pattern :=
  all [edge,
    group number (any
      [all [text "mon", opt (text "day")],
        all [text "tue", opt (all [text "s", opt (text "day")])],
        all [text "wed", opt (text "nesday")],
        all [text "thu", opt (all [text "r", opt (all [text "s", opt (text "day")])])],
        all [text "fri", opt (text "day")], all [text "sat", opt (text "urday")],
        all [text "sun", opt (text "day")]]),
    opt (text "s"), edge]

/-! ## The normal form -/

/-- The quotation marks that are dropped. -/
def quotes : List Char := [0x201c, 0x201d, 0x22, 0x27, 0x60, 0x2019].map Char.ofNat

/-- `(\d+)(st|nd|rd|th)\b`. -/
def ordinalRe : Pattern := all [group 1 (plus digit), texts ["st", "nd", "rd", "th"], edge]

/-- `\bmid-?(\w)`. -/
def midRe : Pattern := all [edge, text "mid", opt (text "-"), group 1 (one isWord)]

/-- A number before a unit of time. -/
def numberRe (word : String) : Pattern :=
  all [edge, text word, spaces,
    ahead true (all [texts ["min", "minute", "hour", "hr", "day", "week", "fortnight", "month", "year"],
      opt (text "s"), edge])]

/-- A full stop that no digit follows. -/
def stopRe : Pattern := all [text ".", ahead false digit]

/-- `_norm`. -/
def norm (lib : TextLib) (expression : String) : Text :=
  let text := (lib.lower expression).toList
  let text := ((text.dropWhile isSpace).reverse.dropWhile isSpace).reverse
  let text := text.filter (· ∉ quotes)
  let text := text.map fun c => if c ∈ [',', ';', '!', '?'] then ' ' else c
  let text := sub stopRe (fun _ => [' ']) text
  let text := sub ordinalRe (·.group 1) text
  let text := sub midRe (fun m => "mid ".toList ++ m.group 1) text
  let byLength := numbers.insertionSort fun a b => b.1.length ≤ a.1.length
  squeeze (byLength.foldl
    (fun text e => sub (numberRe e.1) (fun _ => (toString e.2).toList ++ [' ']) text) text)

/-! ## The time of day -/

/-- `_ClockTime`. -/
structure ClockTime where
  value : TimeOfDay
  assumed : Bool := false
  alternative : Option TimeOfDay := none
  deriving DecidableEq

def tonightRe : Pattern := whole (text "tonight")

def lastNightRe : Pattern := whole (text "last night")

/-- `\b(?:(this|in the)\s+)?(morning|afternoon|evening|night)\b`. -/
def partRe : Pattern :=
  whole (all [optBeforeSpaces (group 1 (texts ["this", "in the"])), group 2 (texts Part.names)])

/-- The part of the day, and the text without it. -/
def takePart (text : Text) : Option Part × Text :=
  if found tonightRe text then (some .night, sub tonightRe (fun _ => "today".toList) text)
  else if found lastNightRe text then
    (some .night, sub lastNightRe (fun _ => "yesterday".toList) text)
  else
    match search partRe text with
    | none => (none, text)
    | some m =>
      let filler := if m.group 1 = "this".toList then " today " else " "
      (Part.named (m.group 2), m.before ++ filler.toList ++ m.rest)

/-- `(?:at\s+)?`. -/
def optAt : Pattern := optBeforeSpaces (text "at")

/-- `"hm_ampm"`. -/
def hmAmPmRe : Pattern :=
  whole (all [optAt, group 1 (digits 1 2), text ":", group 2 (digits 2 2), gap,
    group 3 (texts ["am", "pm"])])

/-- `"h_ampm"`. -/
def hAmPmRe : Pattern :=
  whole (all [optAt, group 1 (digits 1 2), gap, group 2 (texts ["am", "pm"])])

/-- `"hm24"`. -/
def hm24Re : Pattern :=
  whole (all [optAt,
    group 1 (alt (all [opt (one (· ∈ ['0', '1'])), digit])
      (all [text "2", one fun c => '0' ≤ c ∧ c ≤ '3'])),
    text ":", group 2 (all [one fun c => '0' ≤ c ∧ c ≤ '5', digit])])

/-- `"h_bare"`. -/
def hBareRe : Pattern :=
  all [edge, text "at", spaces, group 1 (digits 1 2), edge,
    ahead false (all [gap,
      any [text "st", text "nd", text "rd", text "th", text "/", text "-", digit]])]

/-- `_h24`. -/
def h24 (hour : Int) (ampm : Text) : Int := if ampm = "pm".toList then hour % 12 + 12 else hour % 12

/-- An hour without `am` or `pm`, by the part of the day or by what is likely. -/
def bareHour (hour : Int) (part : Option Part) : Attempt ClockTime := do
  if 12 < hour ∨ hour = 0 then return { value := ← newTime (hour % 24) }
  else if part ∈ [some .evening, some .night, some .afternoon] ∧ hour < 12 then
    return { value := ← newTime (hour + 12) }
  else if part = some .morning then return { value := ← newTime hour }
  else if hour = 12 then return { value := ← newTime 12 }
  else
    let am ← newTime hour
    let pm ← newTime (hour + 12)
    if hour ≤ 6 then return { value := pm, assumed := true, alternative := some am }
    else return { value := am, assumed := true, alternative := some pm }

/-- `\b(?:at\s+)?word\b`. -/
def atWordRe (word : String) : Pattern := whole (all [optAt, text word])

/-- The words for a time of day. -/
def clockWords : List (String × TimeOfDay) :=
  [("noon", ⟨12, 0, by decide, by decide⟩), ("midday", ⟨12, 0, by decide, by decide⟩),
    ("midnight", ⟨0, 0, by decide, by decide⟩)]

/-- The text without a match. -/
def without (m : Match) : Text := squeeze (m.before ++ [' '] ++ m.rest)

/-- `_clock_time`. -/
def clockTime (text : Text) : Attempt (Text × Option ClockTime × Option Part) := do
  let (part, text) := takePart text
  let text := squeeze text
  if let some m := search hmAmPmRe text then
    let time ← newTime (h24 (← int (m.group 1)) (m.group 3)) (← int (m.group 2))
    return (without m, some { value := time }, part)
  if let some m := search hAmPmRe text then
    let time ← newTime (h24 (← int (m.group 1)) (m.group 2))
    return (without m, some { value := time }, part)
  if let some m := search hm24Re text then
    let time ← newTime (← int (m.group 1)) (← int (m.group 2))
    return (without m, some { value := time }, part)
  if let some m := search hBareRe text then
    return (without m, some (← bareHour (← int (m.group 1)) part), part)
  match clockWords.find? fun e => found (atWordRe e.1) text with
  | some (word, time) =>
    return (squeeze (sub (atWordRe word) (fun _ => [' ']) text), some { value := time }, part)
  | none => return (squeeze text, none, part)

end Time

end SecondMind
