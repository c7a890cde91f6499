import SecondMind.Ingestion.TimeResolve

/-!
# Time expressions: what a recall asks for

`ingestion/time.py`: `resolve_window` turns one expression into a span of instants, either side of
which may be open.

* `calendar` — one calendar span, or a part of a day;
* `range` — a span between two others, or on one side of one;
* `anchored` — a span next to an event;
* `resolveWindow` — the whole of it.
-/

namespace SecondMind

namespace Time

open Gregorian Regex Regex.Pattern

/-- `WindowDirection`. -/
inductive WindowDirection
  | past | future | any
  deriving DecidableEq, Repr

/-- `_LOOKUP`. -/
def WindowDirection.lookup : WindowDirection → Direction
  | past => .past
  | future => .future
  | any => .auto

/-- `Window`. -/
structure RecallWindow extends Window where
  expression : String
  clock : TimeClock
  precision : TimePrecision
  rule : String
  anchor : Option String := none

/-- `contains`. -/
def RecallWindow.contains (window : RecallWindow) (instant : Int) : Bool :=
  window.start.all (· ≤ instant) ∧ window.stop.all (instant < ·)

/-- `_Span`. -/
structure Span extends Window where
  precision : TimePrecision
  rule : String

/-- A span that is bounded on both sides. -/
def spanOf (begins ends : Int) (precision : TimePrecision) (rule : String) : Span where
  start := some begins
  stop := some ends
  precision := precision
  rule := rule

/-- `_WINDOW_PARTS`. -/
def Part.windowHours : Part → Int × Int
  | morning => (5, 12)
  | afternoon => (12, 17)
  | evening => (17, 21)
  | night => (21, 29)

/-! ## Calendar spans -/

/-- `_OPEN_ENDED`. -/
def openEndedRe : Pattern :=
  all [start, group 1 (any [text "ever", text "all time",
    all [text "any", opt (text " "), text "time"], text "always"]), stop]

/-- `_UPCOMING`. -/
def upcomingRe : Pattern :=
  all [start, group 1 (texts ["upcoming", "coming up", "soon", "ahead", "in the future", "later"]),
    stop]

/-- `_RECENT`. -/
def recentRe : Pattern :=
  all [start, group 1 (texts ["recently", "lately", "of late", "these days"]), stop]

/-- `(?:(this|yesterday|today|tomorrow)\s+)?(morning|afternoon|evening|night)|(tonight|last night)`. -/
def windowPartRe : Pattern :=
  alt (all [optBeforeSpaces (group 1 (texts ["this", "yesterday", "today", "tomorrow"])),
      group 2 (texts Part.names)])
    (group 3 (texts ["tonight", "last night"]))

/-- The day, counted from today, and the part of it that a match names. -/
def partNamed (m : Match) : Int × Option Part :=
  if m.has 3 then (if m.group 3 = "tonight".toList then 0 else -1, some .night)
  else
    (if m.group 1 = "yesterday".toList then -1 else if m.group 1 = "tomorrow".toList then 1 else 0,
      Part.named (m.group 2))

/-- `_part_of_day`. -/
def partOfDay (m : Match) (now : TurnNow) : Attempt (Option Span) := do
  let today ← now.today
  let (offset, part) := partNamed m
  let d ← addDays today offset
  match part with
  | none => return none
  | some part =>
    let begins ← checked ((← now.at_ d 0) + part.windowHours.1 * hour)
    let ends ← checked ((← now.at_ d 0) + part.windowHours.2 * hour)
    return some (spanOf begins ends .datetime ("part_of_day_" ++ part.name))

/-- `_day_span`. -/
def daySpan (d : Day) (now : TurnNow) : Attempt (Int × Int) := do
  let begins ← now.at_ d.start 0
  match d.precision with
  | .month => return (begins, ← now.at_ (← addMonths d.start 0 1) 0)
  | .year => return (begins, ← now.at_ (← newDate (d.start.year + 1) 1 1) 0)
  | _ => return (begins, ← now.at_ (← addDays d.start d.days) 0)

/-- `_distance`. -/
def distance (span : Int × Int) (now : TurnNow) : Int :=
  if span.1 ≤ now.instant ∧ now.instant < span.2 then 0
  else min |span.1 - now.instant| |span.2 - now.instant|

/-- `^(on|at|in the|in|the|around|about|during)\s+`. -/
def leadingDayRe : Pattern :=
  all [start, group 1 (texts ["on", "at", "in the", "in", "the", "around", "about", "during"]),
    spaces]

/-- `_calendar_day`. -/
def calendarDay : SpanRule := fun text now direction => do
  match ← span text now direction with
  | some d => return some d
  | none =>
    let bare := sub leadingDayRe (fun _ => []) text
    match ← span bare now direction with
    | some d => return some d
    | none => weekdayAndDate bare now direction

/-- The nearer of the last and the next occurrence, if no year and no direction is given. -/
def nearerDay (text : Text) (d : Day) (now : TurnNow) : Attempt Day := do
  match ← calendarDay text now .past, ← calendarDay text now .future with
  | some past, some future =>
    let before := distance (← daySpan past now) now
    let after := distance (← daySpan future now) now
    return if after < before then future else past
  | _, _ => return d

/-- The calendar span of a text that names no part of a day. -/
def calendarSpan (text : Text) (now : TurnNow) (direction : WindowDirection) :
    Attempt (Option Span) := do
  match ← calendarDay text now direction.lookup with
  | none => return none
  | some d =>
    let yearless : Bool := "day_month_".toList.isPrefixOf d.rule.toList ∨
      "month_name_".toList.isPrefixOf d.rule.toList
    let d ← if direction = .any ∧ yearless then nearerDay text d now else pure d
    let found ← daySpan d now
    return some (spanOf found.1 found.2 d.precision d.rule)

/-- `_calendar`. -/
def calendar (text : Text) (now : TurnNow) (direction : WindowDirection) :
    Attempt (Option Span) :=
  if (matchStart openEndedRe text).isSome then
    .ok (some { start := none, stop := none, precision := .year, rule := "open" })
  else if (matchStart upcomingRe text).isSome then do
    let ends ← checked (now.instant + 30 * day)
    return some (spanOf now.instant ends .day "upcoming_30_days")
  else if (matchStart recentRe text).isSome then do
    let begins ← checked (now.instant - 30 * day)
    return some (spanOf begins now.instant .day "recent_30_days")
  else
    match fullmatch windowPartRe text with
    | some m => partOfDay m now
    | none => calendarSpan text now direction

/-! ## Counted spans and ranges -/

/-- `(?:the\s+)?(last|past|previous|next|coming|following)\s+(?:(\d+)\s+)?` and a unit. -/
def relativeSpanRe : Pattern :=
  all [optBeforeSpaces (text "the"),
    group 1 (texts ["last", "past", "previous", "next", "coming", "following"]), spaces,
    optBeforeSpaces (group 2 (plus digit)),
    group 3 (texts ["day", "week", "fortnight", "month", "year"]), opt (text "s")]

/-- `_SPAN_UNITS`. -/
def spanUnits : List (String × Int) :=
  [("day", 1), ("week", 7), ("fortnight", 14), ("month", 30), ("year", 365)]

/-- `_relative_span`. -/
def relativeSpan (text : Text) (now : TurnNow) : Attempt (Option Span) :=
  match fullmatch relativeSpanRe text with
  | none => .ok none
  | some m =>
    let which := m.group 1
    if ¬ m.has 2 ∧ which ∈ ["last", "next", "coming"].map String.toList then .ok none
    else do
      let n ← if m.has 2 then int (m.group 2) else pure 1
      let unit := String.ofList (m.group 3)
      let delta := n * (spanUnits.lookup unit).getD 0 * day
      if which ∈ ["next", "coming", "following"].map String.toList then
        let ends ← checked (now.instant + delta)
        return some (spanOf now.instant ends .day s!"next_{n}_{unit}s")
      else
        let begins ← checked (now.instant - delta)
        return some (spanOf begins now.instant .day s!"last_{n}_{unit}s")

/-- `.` -/
def anything : Pattern := one (· ≠ '\n')

/-- `(?:between|from)\s+(.+?)\s+(?:and|to|until|till)\s+(.+)`. -/
def betweenRe : Pattern :=
  all [texts ["between", "from"], spaces, group 1 (rep 1 none false anything), spaces,
    texts ["and", "to", "until", "till"], spaces, group 2 (plus anything)]

/-- `^\d{1,2}\s+`. -/
def leadingDigitsRe : Pattern := all [start, digits 1 2, spaces]

/-- `[a-z]`. -/
def smallLetter : Pattern := one fun c => 'a' ≤ c ∧ c ≤ 'z'

/-- The left side of a range, with the month of the right side if it names a day only. -/
def leftSide (left right : Text) : Text :=
  if (fullmatch (digits 1 2) left).isSome ∧ found smallLetter right then
    left ++ [' '] ++ sub leadingDigitsRe (fun _ => []) right
  else left

/-- `(since|before|after|until|till|up to|by)\s+(.+)`. -/
def boundRe : Pattern :=
  all [group 1 (texts ["since", "before", "after", "until", "till", "up to", "by"]), spaces,
    group 2 (plus anything)]

/-- The index in `_PRECISION_ORDER`. -/
def precisionOrder : TimePrecision → Nat
  | .datetime => 0
  | .day => 1
  | .month => 2
  | .year => 3

/-- "between A and B". -/
def betweenSpans (m : Match) (now : TurnNow) (direction : WindowDirection) :
    Attempt (Option Span) := do
  let right := m.group 2
  let a ← calendar (leftSide (m.group 1) right) now direction
  let b ← calendar right now direction
  match a, b with
  | some a, some b =>
    if a.start.isNone then return none
    else
      let precision :=
        if precisionOrder b.precision < precisionOrder a.precision then b.precision else a.precision
      return some { start := a.start, stop := b.stop, precision := precision, rule := "between" }
  | _, _ => return none

/-- A span on one side of another. -/
def boundedSpan (word : String) (s : Span) (now : TurnNow) (direction : WindowDirection) : Span :=
  if word = "since" then
    { start := s.start, stop := if s.start.all (· < now.instant) then some now.instant else none
      precision := s.precision, rule := "since_" ++ s.rule }
  else if word = "before" then
    { start := none, stop := s.start, precision := s.precision, rule := "before_" ++ s.rule }
  else if word = "after" then
    { start := s.stop, stop := none, precision := s.precision, rule := "after_" ++ s.rule }
  else
    { start := if direction = .future then some now.instant else none, stop := s.stop
      precision := s.precision, rule := "until_" ++ s.rule }

/-- `_range`. -/
def range (text : Text) (now : TurnNow) (direction : WindowDirection) : Attempt (Option Span) :=
  match fullmatch betweenRe text with
  | some m => betweenSpans m now direction
  | none =>
    match fullmatch boundRe text with
    | none => .ok none
    | some m => do
      let s ← calendar (m.group 2) now direction
      return s.map fun s => boundedSpan (String.ofList (m.group 1)) s now direction

/-! ## Spans next to an event -/

/-- `\s+(it|that|then|this)$`. -/
def pronounRe : Pattern := all [spaces, group 1 (texts ["it", "that", "then", "this"]), stop]

/-- `(?:the\s+)?(?:(\d+)\s+)?(day|days|week|weeks|weekend|month)\s+(before|after)`. -/
def anchoredRe : Pattern :=
  all [optBeforeSpaces (text "the"), optBeforeSpaces (group 1 (plus digit)),
    group 2 (texts ["day", "days", "week", "weeks", "weekend", "month"]), spaces,
    group 3 (texts ["before", "after"])]

/-- The days before the first day of an event, or after its last day. -/
def besideEvent (m : Match) (firstDay lastDay : Date) (now : TurnNow) : Attempt Span := do
  let n ← if m.has 1 then int (m.group 1) else pure 1
  let unit := String.ofList ((m.group 2).reverse.dropWhile (· = 's')).reverse
  let side := String.ofList (m.group 3)
  if unit = "weekend" then
    let saturday ←
      if side = "before" then
        let back := (firstDay.weekday - 5) % 7
        addDays firstDay (-(if back = 0 then 7 else back))
      else
        let ahead := (5 - lastDay.weekday) % 7
        addDays lastDay (if ahead = 0 then 7 else ahead)
    let begins ← now.at_ saturday 0
    return spanOf begins (← checked (begins + 2 * day)) .day s!"anchor_weekend_{side}"
  else
    let days := (spanUnits.lookup unit).getD 0 * n
    if side = "before" then
      let begins ← now.at_ (← addDays firstDay (-days)) 0
      return spanOf begins (← now.at_ firstDay 0) .day s!"anchor_{unit}_before"
    else
      let after ← addDays lastDay 1
      let begins ← now.at_ after 0
      return spanOf begins (← now.at_ (← addDays after days) 0) .day s!"anchor_{unit}_after"

/-- `_anchored`. -/
def anchored (text : Text) (now : TurnNow) (anchor : Int × Option Int) : Attempt (Option Span) := do
  let dateAt (instant : Int) : Attempt Date := do
    dateOf ((← checked (now.zone.toLocal instant)) / day)
  let firstDay ← dateAt anchor.1
  let stop ← match anchor.2.filter (anchor.1 < ·) with
    | some ends => pure ends
    | none => do now.at_ (← addDays firstDay 1) 0
  let lastDay ← dateAt (← checked (stop - 1))
  let text := sub pronounRe (fun _ => []) text
  let among (words : List String) : Bool := words.any (·.toList = text)
  if among ["", "during", "at", "on", "when", "in", "at the time", "the same time"] then
    return some (spanOf anchor.1 stop .day "anchor_during")
  else if among ["before", "earlier", "prior"] then
    return some { start := none, stop := some anchor.1, precision := .day, rule := "anchor_before" }
  else if among ["after", "later", "afterwards"] then
    return some { start := some stop, stop := none, precision := .day, rule := "anchor_after" }
  else if among ["since"] then
    return some (spanOf anchor.1 now.instant .day "anchor_since")
  else
    match fullmatch anchoredRe text with
    | none => return none
    | some m => return some (← besideEvent m firstDay lastDay now)

/-! ## Resolution -/

/-- `_clip`. -/
def clip (w : Window) (instant : Int) (direction : WindowDirection) : Window :=
  if w.start.all (· < instant) ∧ w.stop.all (instant < ·) then
    match direction with
    | .past => { w with stop := some instant }
    | .future => { w with start := some instant }
    | .any => w
  else w

/-- `^(in|during|over|within|for|from|on|at)\s+(?=the\s|last|past|next|this)`. -/
def leadingWindowRe : Pattern :=
  all [start, group 1 (texts ["in", "during", "over", "within", "for", "from", "on", "at"]), spaces,
    ahead true (any [all [text "the", one isSpace], text "last", text "past", text "next",
      text "this"])]

/-- The text that a window is read from. -/
def windowText (text : Text) : Text := sub leadingWindowRe (fun _ => []) text

/-- The span of a text that has no anchor. -/
def freeSpan (text : Text) (now : TurnNow) (direction : WindowDirection) : Attempt (Option Span) := do
  match ← range text now direction with
  | some s => return some s
  | none =>
    match ← relativeSpan text now with
    | some s => return some s
    | none => calendar text now direction

/-- `resolve_window`. -/
def resolveWindow (lib : TimeLib) (expression : String) (clock : TimeClock) (now : TurnNow)
    (direction : WindowDirection := .any) (anchor : Option (Int × Option Int) := none)
    (anchorLabel : Option String := none) : Attempt RecallWindow := do
  let text := windowText (norm lib.text expression)
  let s ← match anchor with
    | some anchor => anchored text now anchor
    | none => freeSpan text now direction
  match s with
  | none => notUnderstood lib "window rule" expression
  | some s =>
    return { toWindow := clip s.toWindow now.instant direction
             expression := expression, clock := clock, precision := s.precision, rule := s.rule
             anchor := anchorLabel }

end Time

end SecondMind
