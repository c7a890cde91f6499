import SecondMind.Calendar.Gregorian
import SecondMind.Core.Letters
import SecondMind.Core.Zone
import SecondMind.Ingestion.Reconcile
import SecondMind.Memory.Writer
import SecondMind.Regex.Pattern
import SecondMind.Texts.Replace

/-!
# Verbalised keys

`memory/render.py`: one plain sentence per memory, rendered from its structured fields.  The parts of
`str` that go by the Unicode tables, and the zone of the workspace, are given.

* `renderVerbal` — the sentence of an item, by its kind and its state;
* `renderChange` — the sentence of an item that superseded another.
-/

namespace SecondMind
namespace Render

open Gregorian Regex Regex.Pattern

/-- What rendering may raise. -/
inductive RenderError
  | overflowError | valueError | keyError | indexError
  deriving DecidableEq, Repr

abbrev Rendered := Except RenderError

/-- `str.lower`, `str.upper`, and the zone of the workspace. -/
structure RenderLib where
  lower : String → String
  upper : String → String
  zone : Zone

structure RenderEntity where
  name : String
  role : EntityRole
  kind : EntityKind := .person
  label : Option String := none
  typeLabel : Option String := none

structure RenderInput where
  item : ItemContent
  entities : List RenderEntity := []
  category : Option String := none
  supersededBy : Option ItemContent := none
  replaced : Option ItemContent := none
  fulfilledBy : Option ItemContent := none
  correctedBy : Option ItemContent := none

/-! ## Tables -/

def weekdayNames : List String :=
  ["Monday", "Tuesday", "Wednesday", "Thursday", "Friday", "Saturday", "Sunday"]

def rruleDays : List (String × Nat) :=
  [("MO", 0), ("TU", 1), ("WE", 2), ("TH", 3), ("FR", 4), ("SA", 5), ("SU", 6)]

def ordinals : List (Int × String) :=
  [(1, "first"), (2, "second"), (3, "third"), (4, "fourth"), (5, "fifth"), (-1, "last")]

def monthNames : List String :=
  ["January", "February", "March", "April", "May", "June", "July", "August", "September",
    "October", "November", "December"]

/-- `_INTENT_VERBS`. -/
def intentVerbs : List (String × String × String) :=
  [("watch", "to watch", "watched"), ("read", "to read", "read"), ("learn", "to learn", "learned"),
    ("buy", "to buy", "bought"), ("visit", "to visit", "visited"), ("try", "to try", "tried"),
    ("gift", "to gift", "given"), ("listen", "to listen to", "listened to"),
    ("play", "to play", "played"), ("eat", "to eat", "eaten"), ("cook", "to cook", "cooked")]

def formatName : ResourceFormat → String
  | .article => "article"
  | .video => "video"
  | .pdf => "pdf"
  | .image => "image"
  | .link => "link"
  | .other => "other"

/-- `_RESOURCE_VERBS`. -/
def resourceVerb : Option ResourceFormat → String
  | some .video => "watched"
  | some .image => "seen"
  | some .link => "opened"
  | _ => "read"

def edge : Pattern := .edge isWord

/-- A letter that `re.IGNORECASE` compares. -/
def anyCase (text : String) : Pattern :=
  all (text.toList.map fun p => one fun c => c = p ∨ c = p.toUpper ∨
    (p = 'i' ∧ (c = Char.ofNat 0x130 ∨ c = Char.ofNat 0x131)) ∨
    (p = 's' ∧ c = Char.ofNat 0x17f) ∨ (p = 'k' ∧ c = Char.ofNat 0x212a))

/-- `\b(\d+(?:\.\d+)?)\s*`. -/
def amount : Pattern :=
  all [edge, group 1 (seq (plus (one isDigit)) (opt (seq (text ".") (plus (one isDigit))))),
    star (one isSpace)]

/-- `_UNITS`. -/
def units : List (Pattern × (Match → List Char)) :=
  let after (unit : String) (m : Match) : List Char := m.group 1 ++ unit.toList
  [(all [amount, alt (seq (anyCase "min") (opt (anyCase "s"))) (anyCase "minute"), edge],
      after " minutes"),
    (all [amount, any [seq (anyCase "hr") (opt (anyCase "s")), anyCase "h", anyCase "hour"], edge],
      after " hours"),
    (all [amount, alt (seq (anyCase "sec") (opt (anyCase "s"))) (anyCase "s"), edge,
        ahead false (one isWord)],
      after " seconds"),
    (all [amount, anyCase "km", opt (anyCase "s"), edge], after " km"),
    (all [amount, anyCase "kg", opt (anyCase "s"), edge], after " kg"),
    (all [edge, text "1 minutes", edge], fun _ => "1 minute".toList),
    (all [edge, text "1 hours", edge], fun _ => "1 hour".toList)]

/-- The entries of `_PAST` on how a text starts. -/
def pastStarts : List (String × String) :=
  [("I live", "I lived"), ("I work", "I worked"), ("I have", "I had"), ("I like", "I liked"),
    ("I love", "I loved"), ("I own", "I owned"), ("I use", "I used"),
    ("I prefer", "I preferred"), ("I study", "I studied"), ("I drive", "I drove")]

/-- The entries of `_PAST` on a word. -/
def pastWords : List (String × String) :=
  [("is", "was"), ("are", "were"), ("lives", "lived"), ("works", "worked"), ("likes", "liked")]

/-- `_PAST`. -/
def past : List (Pattern × String) :=
  (alt (all [start, text "I'm", edge]) (all [start, text "I am", edge]), "I was") ::
    (pastStarts.map fun e => (all [start, text e.1, edge], e.2)) ++
    pastWords.map fun e => (all [edge, text e.1, edge], e.2)

/-! ## Dates -/

section

variable (lib : RenderLib)

/-- A moment on the wall clock. -/
structure Local where
  date : Date
  /-- Since midnight. -/
  time : Int

def Local.hour (d : Local) : Int := d.time / SecondMind.hour

def Local.minute (d : Local) : Int := d.time % SecondMind.hour / (60 * second)

/-- `local`. -/
def localOf (instant : Instant) : Rendered Local :=
  let shown := lib.zone.toLocal instant
  match Date.ofOrdinal (shown / day) with
  | some date => .ok ⟨date, shown % day⟩
  | none => .error .overflowError

def monthName (d : Date) : String := monthNames[(d.month - 1).toNat]?.getD ""

def weekdayName (d : Date) : String := weekdayNames[d.weekday.toNat]?.getD ""

def pad2 (n : Int) : String := if n < 10 then "0" ++ toString n else toString n

def clockTime (hour minute : Int) : String :=
  let shown := if hour % 12 = 0 then 12 else hour % 12
  let suffix := if hour < 12 then "am" else "pm"
  if minute = 0 then toString shown ++ " " ++ suffix
  else toString shown ++ ":" ++ pad2 minute ++ " " ++ suffix

def partOfDay (hour : Int) : String :=
  if 5 ≤ hour ∧ hour < 12 then "morning"
  else if 12 ≤ hour ∧ hour < 17 then "afternoon"
  else if 17 ≤ hour ∧ hour < 21 then "evening"
  else "night"

def formatDay (instant : Instant) (weekday : Bool := true) (year : Bool := true) :
    Rendered String := do
  let d := (← localOf lib instant).date
  let text := toString d.day ++ " " ++ monthName d ++ if year then " " ++ toString d.year else ""
  return if weekday then weekdayName d ++ " " ++ text else text

def formatWhen (instant : Instant) (precision : Option TimePrecision) (part : Bool := false) :
    Rendered String := do
  let d ← localOf lib instant
  match precision with
  | some .year => return toString d.date.year
  | some .month => return monthName d.date ++ " " ++ toString d.date.year
  | some .datetime =>
    let shown ← formatDay lib instant
    if part then
      let period := partOfDay d.hour
      return shown ++ ", " ++ (if period = "night" then "at" else "in the") ++ " " ++ period
    else return shown ++ ", " ++ clockTime d.hour d.minute
  | _ => formatDay lib instant

/-! ## Rules in words -/

/-- `int(text)`. -/
def parseInt (text : String) : Rendered Int :=
  match intIn 10 text.toList with
  | some n => .ok n
  | none => .error .valueError

/-- `_ordinal`. -/
def ordinal (n : Int) : String :=
  let suffix :=
    if 11 ≤ n % 100 ∧ n % 100 ≤ 13 then "th"
    else if n % 10 = 1 then "st"
    else if n % 10 = 2 then "nd"
    else if n % 10 = 3 then "rd"
    else "th"
  toString n ++ suffix

/-- `_join`. -/
def joinAnd (words : List String) : String :=
  match words.reverse with
  | [] => ""
  | [word] => word
  | last :: rest => join ", " rest.reverse ++ " and " ++ last

def splitText (sep : Char) (text : String) : List String :=
  (text.toList.splitOn sep).map String.ofList

/-- The parts of a rule; a later one wins. -/
def ruleParts (rrule : String) : List (String × String) :=
  let body := if "RRULE:".toList <+: rrule.toList then String.ofList (rrule.toList.drop 6) else rrule
  ((splitText ';' body).filterMap fun part =>
    if '=' ∈ part.toList then
      some (String.ofList (part.toList.takeWhile (· ≠ '=')),
        String.ofList (part.toList.dropWhile (· ≠ '=')).tail)
    else none).reverse

/-- `_WEEKDAYS[_RRULE_DAYS[day]]`. -/
def ruleDay (day : String) : Rendered String :=
  match rruleDays.lookup day with
  | some n => .ok (weekdayNames[n]?.getD "")
  | none => .error .keyError

/-- `_MONTHS[month - 1]`, which counts from the end below zero. -/
def monthAt (month : Int) : Rendered String :=
  let i := if month - 1 < 0 then month - 1 + 12 else month - 1
  if 0 ≤ i then
    match monthNames[i.toNat]? with
    | some name => .ok name
    | none => .error .indexError
  else .error .indexError

/-- `^([+-]?\d+)?([A-Z]{2})$`. -/
def bydayRe : Pattern :=
  all [start,
    opt (group 1 (seq (opt (one fun c => c = '+' ∨ c = '-')) (plus (one isDigit)))),
    group 2 (between 2 2 (one fun c => 'A' ≤ c ∧ c ≤ 'Z')), stop]

/-- The time of day of a rule. -/
def ruleTime (parts : List (String × String)) (freq : String) (first : Option Instant) :
    Rendered String := do
  match parts.lookup "BYHOUR" with
  | some hours =>
    let hour ← parseInt ((splitText ',' hours).headD "")
    let minute ← parseInt ((splitText ',' ((parts.lookup "BYMINUTE").getD "0")).headD "")
    if 0 ≤ hour ∧ hour < 24 ∧ 0 ≤ minute ∧ minute < 60 then return " at " ++ clockTime hour minute
    else throw .valueError
  | none =>
    match first with
    | some first =>
      if freq = "DAILY" ∨ freq = "WEEKLY" then
        let s ← localOf lib first
        if s.hour ≠ 0 ∨ s.minute ≠ 0 then return " at " ++ clockTime s.hour s.minute
        else return ""
      else return ""
    | none => return ""

def everyWord (interval : Int) : String :=
  if interval = 2 then "every other"
  else if 2 < interval then "every " ++ toString interval
  else "every"

/-- What the first occurrence says, or one. -/
def firstPart (first : Option Instant) (field : Date → Int) : Rendered String :=
  match first with
  | some first => do return toString (field (← localOf lib first).date)
  | none => .ok "1"

def weeklyWords (days : List String) (every at_ : String) (first : Option Instant) :
    Rendered String := do
  let names ← days.mapM fun d => ruleDay (String.ofList (d.toList.drop (d.toList.length - 2)))
  let names ←
    if names ≠ [] then pure names
    else
      match first with
      | some first => (do return [weekdayName (← localOf lib first).date] : Rendered _)
      | none => pure ["week"]
  if names = weekdayNames.take 5 then return every ++ " weekday" ++ at_
  else if names = weekdayNames.drop 5 then return every ++ " weekend" ++ at_
  else return every ++ " " ++ joinAnd names ++ at_

def monthlyWords (parts : List (String × String)) (days : List String) (every at_ : String)
    (first : Option Instant) : Rendered String := do
  match (days.head?).bind fun d => matchStart bydayRe d.toList with
  | some m =>
    let n ← parseInt (
      if m.group 1 ≠ [] then String.ofList (m.group 1) else (parts.lookup "BYSETPOS").getD "1")
    let day ← ruleDay (String.ofList (m.group 2))
    return "on the " ++ (ordinals.lookup n).getD (toString n) ++ " " ++ day ++ " of " ++ every ++
      " month" ++ at_
  | none =>
    let monthday ←
      match (parts.lookup "BYMONTHDAY").filter (· ≠ "") with
      | some text => pure text
      | none => firstPart lib first (·.day)
    return "on the " ++ ordinal (← parseInt monthday) ++ " of " ++ every ++ " month" ++ at_

def yearlyWords (parts : List (String × String)) (every at_ : String) (first : Option Instant) :
    Rendered String := do
  let firstMonth ← firstPart lib first (·.month)
  let month ← parseInt ((parts.lookup "BYMONTH").getD firstMonth)
  if (parts.lookup "BYMONTHDAY").isNone ∧ (parts.lookup "BYMONTH").isSome then
    return every ++ " year in " ++ (← monthAt month) ++ at_
  else
    let firstDay ← firstPart lib first (·.day)
    let dayOfMonth ← parseInt ((parts.lookup "BYMONTHDAY").getD firstDay)
    return every ++ " year on " ++ toString dayOfMonth ++ " " ++ (← monthAt month) ++ at_

/-- `rrule_words`. -/
def rruleWords (rrule : String) (first : Option Instant) : Rendered String := do
  let parts := ruleParts rrule
  let freq := (parts.lookup "FREQ").getD ""
  let every := everyWord (← parseInt ((parts.lookup "INTERVAL").getD "1"))
  let days := (splitText ',' ((parts.lookup "BYDAY").getD "")).filter (· ≠ "")
  let at_ ← ruleTime lib parts freq first
  if freq = "WEEKLY" then weeklyWords lib days every at_ first
  else if freq = "MONTHLY" then monthlyWords lib parts days every at_ first
  else if freq = "YEARLY" then yearlyWords lib parts every at_ first
  else if freq = "DAILY" then return every ++ " day" ++ at_
  else return "repeating (" ++ rrule ++ ")"

/-! ## Pieces of a sentence -/

def withUnits (text : String) : String :=
  String.ofList (units.foldl (fun text unit => sub unit.1 unit.2 text) text.toList)

/-- `pattern.sub(repl, text, count=1)`. -/
def subOnce (p : Pattern) (repl : String) (text : String) : String :=
  match search p text.toList with
  | some m => String.ofList (m.before ++ repl.toList ++ m.rest)
  | none => text

def pastTense (text : String) : String :=
  ((past.map fun e => subOnce e.1 e.2 text).find? (· ≠ text)).getD text

/-- `_clause`. -/
def clause (text : String) : String :=
  let plain := (join " " (words text)).toList
  withUnits (String.ofList (plain.reverse.dropWhile fun c => c = ' ' ∨ c = '.').reverse)

/-- `text[0].lower() + text[1:]`. -/
def lowerFirst (text : String) : Rendered String :=
  match text.toList with
  | c :: rest => .ok (lib.lower (String.ofList [c]) ++ String.ofList rest)
  | [] => .error .indexError

/-- `str.capitalize` of a lower-case word. -/
def capitalize (word : String) : String :=
  match word.toList with
  | c :: rest => String.ofList (c.toUpper :: rest)
  | [] => ""

/-- `RenderEntity.display`. -/
def RenderEntity.display (e : RenderEntity) : String :=
  if e.kind = .self then "me"
  else
    match (e.label.filter (· ≠ "")).or (e.typeLabel.filter (· ≠ "")) with
    | some extra =>
      if lib.lower extra ≠ lib.lower e.name then e.name ++ " (" ++ extra ++ ")" else e.name
    | none => e.name

/-- `_people`. -/
def people (entities : List RenderEntity) (roles : List EntityRole) : List String :=
  (entities.filter fun e => e.role ∈ roles ∧ e.kind ≠ .self).map (·.display lib)

/-- `_tail`. -/
def tail (instant : Option Instant) (precision : Option TimePrecision) (category : Option String) :
    Rendered String := do
  let dated ←
    match instant with
    | some instant =>
      if precision ∈ [some TimePrecision.day, some .datetime, none] then
        let d := (← localOf lib instant).date
        pure ((if 5 ≤ d.weekday then ["Weekend"] else []) ++
          [monthName d ++ " " ++ toString d.year])
      else pure []
    | none => pure []
  let filed :=
    ((category.filter (· ≠ "")).map fun slug => String.ofList
      ((Writer.lastSegment slug).toList.map fun c => if c = '-' then ' ' else c)).toList
  match (join ", " (dated ++ filed)).toList with
  | c :: rest => return " " ++ lib.upper (String.ofList [c]) ++ String.ofList rest ++ "."
  | [] => if dated ++ filed = [] then return "" else throw .indexError

/-- `_where_who`. -/
def whereWho (entities : List RenderEntity) : String :=
  let places := people lib entities [.at]
  let company := people lib entities [.with]
  (if places ≠ [] then ", at " ++ joinAnd places else "") ++
    if company ≠ [] then ", with " ++ joinAnd company else ""

/-! ## The kinds -/

/-- `_noun`. -/
def noun (item : ItemContent) : String :=
  match item.attributes.get "activity", item.subtype with
  | .str activity, subtype =>
    if activity ≠ "" then activity else named subtype
  | _, subtype => named subtype
where
  named : Option String → String
    | some subtype =>
      if subtype ≠ "" ∧ subtype ∉ ["measurement", "experience", "completion"] then
        String.ofList (subtype.toList.map fun c => if c = '_' then ' ' else c)
      else lib.lower item.title
    | none => lib.lower item.title

/-- `_episode`. -/
def episode (inp : RenderInput) : Rendered String := do
  let item := inp.item
  let sentence := "Logged " ++ noun lib item ++ ": " ++ clause item.text
  let dated ←
    match item.occurredStart with
    | some began =>
      if item.timePrecision = some .month ∨ item.timePrecision = some .year then do
        pure (" in " ++ (← formatWhen lib began item.timePrecision))
      else do
        pure (" on " ++
          (← formatWhen lib began item.timePrecision (decide (item.timePrecision = some .datetime))))
    | none => pure ""
  return sentence ++ dated ++ whereWho lib inp.entities ++ "." ++
    (← tail lib item.occurredStart item.timePrecision inp.category)

/-- `_object`. -/
def object (inp : RenderInput) : String :=
  let works := (inp.entities.filter fun e =>
    e.kind ∈ [EntityKind.work, .thing, .place, .topic, .org, .project] ∧
      e.role ∈ [EntityRole.about, .at, .partOf]).map (·.display lib)
  if works ≠ [] then joinAnd works else clause inp.item.title

/-- `_intention`. -/
def intention (inp : RenderInput) : Rendered String := do
  let item := inp.item
  let (toDo, done) := (intentVerbs.lookup (item.subtype.getD "")).getD
    ("to " ++ (if item.subtype.getD "" ≠ "" then item.subtype.getD "" else "do"), "done")
  let obj := object lib inp
  let sayers := people lib inp.entities [.by]
  let recommended := if sayers ≠ [] then ", recommended by " ++ joinAnd sayers else ""
  let added ← formatDay lib item.mentionedAt
  if item.state = "fulfilled" then
    let dated ←
      match inp.fulfilledBy.bind fun e => e.occurredStart.map fun began => (began, e.timePrecision) with
      | some (began, precision) => do
        pure (" on " ++ (← formatWhen lib began precision (decide (precision = some .datetime))))
      | none => pure ""
    let listed ← formatDay lib item.mentionedAt false
    let before := toDo.toList.takeWhile (· ≠ ' ')
    let after := (toDo.toList.dropWhile (· ≠ ' ')).tail
    return capitalize done ++ " " ++ obj ++ dated ++ ". It was on my " ++
      String.ofList (before ++ '-' :: after) ++ " list from " ++ listed ++ recommended ++ "."
  else if item.state = "dropped" then
    return "Dropped from my wish list, " ++ toDo ++ ": " ++ obj ++ recommended ++ ". Added " ++
      added ++ "."
  else
    let target ←
      match item.dueAt with
      | some due => do pure (" Target: " ++ (← formatWhen lib due item.timePrecision) ++ ".")
      | none => pure ""
    let status := if item.state = "active" then "In progress." else "Not " ++ done ++ " yet."
    return "Wish list, " ++ toDo ++ ": " ++ obj ++ recommended ++ ". Added " ++ added ++ "." ++
      target ++ " " ++ status

/-- `_plan`. -/
def plan (inp : RenderInput) : Rendered String := do
  let item := inp.item
  let title := clause item.title
  let dated ←
    match item.occurredStart with
    | some began => formatWhen lib began item.timePrecision
    | none => pure "no date yet"
  let others := people lib inp.entities [.for, .about]
  let who := whereWho lib inp.entities ++ if others ≠ [] then ", for " ++ joinAnd others else ""
  if item.rrule.getD "" ≠ "" ∧ item.state = "scheduled" then
    let since ←
      match item.validFrom.or item.occurredStart with
      | some since => do pure (", since " ++ (← formatWhen lib since (some .month)))
      | none => pure ""
    let rule ← rruleWords lib (item.rrule.getD "") item.occurredStart
    return "Routine: " ++ (← lowerFirst lib title) ++ " " ++ rule ++ who ++ since ++ "."
  else if item.state = "happened" then
    return "Happened: " ++ title ++ " on " ++ dated ++ who ++ "." ++
      (← tail lib item.occurredStart item.timePrecision inp.category)
  else if item.state = "cancelled" then
    return "Cancelled: " ++ title ++ ", was on " ++ dated ++ who ++ "."
  else if item.state = "moved" then
    let movedTo ←
      match inp.supersededBy.bind fun e => e.occurredStart.map fun began => (began, e.timePrecision) with
      | some (began, precision) => do pure ("; moved to " ++ (← formatWhen lib began precision))
      | none => pure ""
    return "Moved: " ++ title ++ " was on " ++ dated ++ movedTo ++ "."
  else
    return "Upcoming: " ++ title ++ " on " ++ dated ++ who ++ "." ++
      (← tail lib item.occurredStart item.timePrecision inp.category)

/-- `_task`. -/
def task (inp : RenderInput) : Rendered String := do
  let item := inp.item
  let due ←
    match item.dueAt with
    | some due => do pure (", due " ++ (← formatWhen lib due item.timePrecision))
    | none => pure ""
  let others := people lib inp.entities [.for, .with, .about]
  let forWhom := if others ≠ [] then ", for " ++ joinAnd others else ""
  let owed := people lib inp.entities [.by]
  let owedBy := if owed ≠ [] then ", owed by " ++ joinAnd owed else ""
  let text := clause item.text
  if item.state = "done" then
    return "Done: " ++ text ++ forWhom ++ owedBy ++
      String.ofList (Texts.replace ", due".toList ", was due".toList due.toList) ++ "."
  else if item.state = "dropped" then return "Dropped task: " ++ text ++ forWhom ++ "."
  else return "To do: " ++ text ++ due ++ forWhom ++ owedBy ++ ". Open."

/-- `_fact`. -/
def fact (inp : RenderInput) : Rendered String := do
  let item := inp.item
  let text := clause item.text
  let about := people lib inp.entities [.about, .owner]
  let aboutText := if about ≠ [] then " About " ++ joinAnd about ++ "." else ""
  if item.state = "superseded" then
    let since ←
      match item.validTo with
      | some since => formatDay lib since false
      | none => pure "recently"
    let nowText :=
      match inp.supersededBy with
      | some new => " " ++ clause new.text ++ " now."
      | none => ""
    return "No longer true since " ++ since ++ ": " ++ pastTense text ++ "." ++ nowText
  else
    let label := if item.kind = .preference then "Preference" else "Fact"
    let since ←
      match item.validFrom with
      | some since => do
        pure (" True since " ++ (← formatWhen lib since item.timePrecision) ++ ".")
      | none => do pure (" Noted " ++ (← formatDay lib item.mentionedAt) ++ ".")
    return label ++ ": " ++ text ++ "." ++ aboutText ++ since

/-- `_mistake`. -/
def mistake (item fix : ItemContent) : Rendered String := do
  let on ← formatDay lib fix.mentionedAt false
  return "Recorded by mistake, corrected on " ++ on ++ ": " ++ clause item.text ++
    ". The right version: " ++ clause fix.text ++ "."

/-- The branch of `render_verbal` for a resource. -/
def resource (item : ItemContent) : Rendered String := do
  let verb := resourceVerb item.format
  let kind := (item.format.map formatName).getD "link"
  let summary :=
    match item.summary.filter (· ≠ "") with
    | some summary => " " ++ clause summary ++ "."
    | none => ""
  let added := " Saved " ++ (← formatDay lib item.mentionedAt) ++ "."
  if item.state = "consumed" then
    return capitalize verb ++ " " ++ kind ++ ": " ++ clause item.title ++ "." ++ summary ++ added
  else
    return "Saved " ++ kind ++ ": " ++ clause item.title ++ "." ++ summary ++ added ++ " Not " ++
      verb ++ " yet."

/-- The branch of `render_verbal` for a note. -/
def note (inp : RenderInput) : Rendered String := do
  let item := inp.item
  let label :=
    match item.subtype.filter (· ≠ "") with
    | some subtype => " (" ++ subtype ++ ")"
    | none => ""
  let about := people lib inp.entities [.about, .with, .for]
  let aboutText := if about ≠ [] then " About " ++ joinAnd about ++ "." else ""
  return "Note" ++ label ++ ": " ++ clause item.text ++ "." ++ aboutText ++ " Noted " ++
    (← formatDay lib item.mentionedAt) ++ "." ++ (← tail lib none none inp.category)

/-- `render_verbal`. -/
def renderVerbal (inp : RenderInput) : Rendered String :=
  match inp.correctedBy with
  | some fix => mistake lib inp.item fix
  | none =>
    match inp.item.kind with
    | .episode => episode lib inp
    | .intention => intention lib inp
    | .plan => plan lib inp
    | .task => task lib inp
    | .fact | .preference => fact lib inp
    | .resource => resource lib inp.item
    | .note => note lib inp
    | .rule => .ok ("Rule for the assistant (" ++ inp.item.state ++ "): " ++ clause inp.item.text ++ ".")
    | .pattern => .ok ("Pattern (" ++ inp.item.state ++ "): " ++ clause inp.item.text ++ ".")

/-- `render_change`. -/
def renderChange (inp : RenderInput) : Rendered (Option String) :=
  match inp.replaced with
  | none => .ok none
  | some old => do
    let item := inp.item
    let on ← formatDay lib item.mentionedAt false
    match decide (item.kind = .plan), old.occurredStart, item.occurredStart with
    | true, some oldStart, some newStart =>
      let sameYear := (← localOf lib oldStart).date.year = (← localOf lib newStart).date.year
      let before ← formatDay lib oldStart true (!decide sameYear)
      let after ← formatWhen lib newStart item.timePrecision
      return some ("Changed on " ++ on ++ ": " ++ (← lowerFirst lib (clause item.title)) ++
        " moved from " ++ before ++ " to " ++ after ++ ".")
    | _, _, _ =>
      return some ("Changed on " ++ on ++ ": " ++ clause item.text ++ "; before that, " ++
        pastTense (clause old.text) ++ ".")

end
end Render
end SecondMind
