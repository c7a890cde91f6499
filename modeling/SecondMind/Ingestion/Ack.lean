import SecondMind.Ingestion.TimeText
import SecondMind.Memory.Render

/-!
# The acknowledgement of a save

`ingestion/ack.py`: the reply to a message that is saved, from the outcomes of its commit.  The line
of an outcome goes by its op, its verdict and the rows that it logged; an item that replaces another
is said by the line of the op that replaces it.

* `lineOf` — the line of one outcome, `outcomeLines` — those of a commit;
* `acknowledge` — the reply.
-/

namespace SecondMind

namespace Ack

open Gregorian Regex Regex.Pattern Render

/-! ## Tables -/

/-- `_KIND_PHRASE`. -/
def kindPhrase : Kind → String
  | .fact => "a fact"
  | .preference => "a preference"
  | .episode => "a log entry"
  | .plan => "a plan"
  | .task => "a task"
  | .intention => "a wish"
  | .resource => "a saved link"
  | .note => "a note"
  | .rule => "a rule"
  | .pattern => "a memory"

/-- `_INTENT_PHRASE`: what stands before a title, and after it. -/
def intentPhrases : List (String × String × String) :=
  [("watch", "Added ", " to your watch list"), ("read", "Added ", " to your reading list"),
    ("listen", "Added ", " to things to listen to"), ("learn", "Added ", " to things to learn"),
    ("buy", "Added ", " to things to buy"), ("visit", "Added ", " to places to visit"),
    ("try", "Added ", " to things to try"), ("gift", "Saved a gift idea: ", "")]

/-- `_DONE`. -/
def done : List (String × String) :=
  [("watch", "watched"), ("read", "read"), ("learn", "learned"), ("buy", "bought"),
    ("visit", "visited"), ("try", "tried"), ("gift", "given")]

/-- `_SECOND_PERSON`. -/
def secondPersons : List (Pattern × String) :=
  [(all [edge, text "I'm", edge], "you're"), (all [edge, text "I am", edge], "you are"),
    (all [edge, text "I was", edge], "you were"), (all [edge, text "I", edge], "you"),
    (all [edge, anyCase "my", edge], "your"), (all [edge, text "me", edge], "you"),
    (all [edge, text "mine", edge], "yours"), (all [edge, text "myself", edge], "yourself")]

/-! ## Lines -/

/-- A line, with what its text is made of. -/
inductive AckLine
  | saved (item : ItemRecord) (reminders : List Instant)
  | moved (old new : ItemRecord)
  | updated (old new : ItemRecord) (validTo : Instant)
  | marked (intention : ItemRecord)
  | addedToCore (title : String)
  | addedDetail (title : String)
  | held (title reason : String)
  | refusal
  | hypothetical (title : String)
  | coreFull (title : String)
  | notSaved (title reason : String)
  | alreadySaved (title : String)
  | assumedNew (mention : String)
  | took (expression shown : String) (alternative : Option String)
  | unresolved (expression : String)

/-- A time that was assumed, as it is shown. -/
structure AssumedTime where
  expression : String
  shown : String
  alternative : Option String

/-- `AckFacts`, and which of the ops and of the notes carry the decision of reconciliation. -/
structure AckFacts where
  commit : CommitResult
  newPeople : List String := []
  assumedTimes : List AssumedTime := []
  unresolved : List String := []
  reconciled : Op → Bool := fun _ => false
  matched : DiffEntry → Bool := fun _ => false

end Ack

/-! ## The rows of an outcome -/

namespace WriteLogRecord

def isItem (row : WriteLogRecord) : Bool := row.targetType = .item

/-- What an item was before. -/
def itemBefore (row : WriteLogRecord) : Option ItemRecord :=
  match row with
  | { targetType := .item, before := before, .. } => before
  | _ => none

/-- What it is after. -/
def itemAfter (row : WriteLogRecord) : Option ItemRecord :=
  match row with
  | { targetType := .item, after := after, .. } => after
  | _ => none

/-- When a trigger of the row fires. -/
def firesAt (row : WriteLogRecord) : Option Instant :=
  match row with
  | { targetType := .trigger, after := some trigger, .. } => trigger.firesAt
  | _ => none

end WriteLogRecord

/-- `items_after`: the latest snapshot of an item that the commit changed. -/
def CommitResult.itemAfter (r : CommitResult) (id : Uuid) : Option ItemRecord :=
  ((r.rows.filter (·.targetId = id)).filterMap (·.itemAfter)).getLast?

/-- The outcome is that of an op that was applied. -/
def OpOutcome.applied (o : OpOutcome) : Bool := o.verdict.decision = .allowed

/-- The item that an op makes, if it was applied. -/
def OpOutcome.created (o : OpOutcome) : Option Uuid :=
  if o.applied then o.op.body.createdItem else none

/-- The new item of an op that was applied and replaces another item by it. -/
def OpOutcome.replacing (o : OpOutcome) : Option Uuid :=
  match o.op.body with
  | .supersedeItem _ newId .. => if o.applied then some newId else none
  | _ => none

namespace Ack

open Gregorian Regex Regex.Pattern Render

section

variable (f : AckFacts)

/-- The title an op is held under: a batch that is held as a whole has one, for its first op. -/
def heldTitle (i : Nat) (o : OpOutcome) : String :=
  if o.verdict.ruleId = "P-BULK-1" then
    if i = 0 then (f.commit.held.map (·.title)).headD o.op.title else o.op.title
  else Writer.refusedTitle o.op

/-- The line of an op that was not applied. -/
def refusedLine (i : Nat) (o : OpOutcome) : Option AckLine :=
  if o.verdict.decision = .held then some (.held (heldTitle f i o) o.verdict.reason)
  else if o.verdict.ruleId = "P-SECRET-1" then some .refusal
  else if o.verdict.ruleId = "P-MOD-1" then some (.hypothetical o.op.title)
  else if o.verdict.ruleId = "CORE-BUDGET" then some (.coreFull o.op.title)
  else if o.verdict.ruleId = "NOT-APPLICABLE" then none
  else some (.notSaved o.op.title o.verdict.reason)

/-- The line of an op that was applied. -/
def appliedLine (o : OpOutcome) : Option AckLine :=
  match o.op.body with
  | .createItem itemId .. =>
    (f.commit.itemAfter itemId).map (.saved · (o.rows.filterMap (·.firesAt)))
  | .supersedeItem _ newId _ validTo _ => do
    let old ← (o.rows.find? (·.isItem)).bind (·.itemBefore)
    let new ← f.commit.itemAfter newId
    return if old.kind = .plan then .moved old new else .updated old new validTo
  | .fulfilIntention .. => ((o.rows.find? (·.isItem)).bind (·.itemAfter)).map .marked
  | .updateItem _ changes =>
    if changes.inCore = some true then some (.addedToCore o.op.title)
    else if f.reconciled o.op then some (.addedDetail o.op.title)
    else none
  | _ => none

/-- `_line`. -/
def lineOf (i : Nat) (o : OpOutcome) : Option AckLine :=
  if o.applied then appliedLine f o else refusedLine f i o

/-- The op makes an item that replaces another: it is said once, by the line of that. -/
def saidBySupersede (o : OpOutcome) : Bool :=
  o.op.body.createdItem.any (· ∈ f.commit.outcomes.filterMap (·.replacing))

/-- The lines of the outcomes, with the outcome of each. -/
def linesFrom : Nat → List OpOutcome → List (OpOutcome × AckLine)
  | _, [] => []
  | i, o :: os =>
    (if saidBySupersede f o then [] else (lineOf f i o).toList.map (o, ·)) ++ linesFrom (i + 1) os

def outcomeLines : List (OpOutcome × AckLine) := linesFrom f 0 f.commit.outcomes

/-- The lines of the notes, of new people and of times. -/
def otherLines : List AckLine :=
  ((f.commit.notes.filter (·.op = .notWritten)).map fun note =>
      if f.matched note then .alreadySaved note.title else .notSaved note.title note.reason) ++
    f.newPeople.map .assumedNew ++
    (f.assumedTimes.map fun t => .took t.expression t.shown t.alternative) ++
    f.unresolved.map .unresolved

/-- The lines of the reply. -/
def lines : List AckLine := (outcomeLines f).map (·.2) ++ otherLines f

end

/-! ## Texts -/

section

variable (lib : RenderLib) (now : Instant)

/-- `format_short`. -/
def formatShort (instant : Instant) (precision : Option TimePrecision) : Rendered String := do
  let d ← localOf lib instant
  let n ← localOf lib now
  let short (name : String) := String.ofList (name.toList.take 3)
  match precision with
  | some .year => return toString d.date.year
  | some .month => return monthName d.date ++ " " ++ toString d.date.year
  | _ =>
    return short (weekdayName d.date) ++ " " ++ toString d.date.day ++ " " ++
      short (monthName d.date) ++
      (if d.date.year ≠ n.date.year then " " ++ toString d.date.year else "") ++
      if precision = some .datetime then ", " ++ clockTime d.hour d.minute else ""

/-- `_when`. -/
def when_ (item : ItemRecord) : Rendered String :=
  match item.occurredStart, item.dueAt, item.validFrom with
  | some began, _, _ => formatShort lib now began item.timePrecision
  | none, some due, _ => return "due " ++ (← formatShort lib now due item.timePrecision)
  | none, none, some since => return "since " ++ (← formatShort lib now since item.timePrecision)
  | none, none, none => return ""

/-- `_saved`. -/
def savedText (item : ItemRecord) (reminders : List Instant) : Rendered String := do
  let repeats := item.rrule.getD "" ≠ ""
  let text :=
    match if item.kind = .intention then intentPhrases.lookup (item.subtype.getD "") else none with
    | some phrase => phrase.1 ++ item.title ++ phrase.2
    | none =>
      if item.kind = .episode then "Logged: " ++ item.title
      else if repeats then "Saved as a repeating plan: " ++ item.title
      else "Saved as " ++ kindPhrase item.kind ++ ": " ++ item.title
  let shown ← when_ lib now item
  let shown ←
    if repeats ∧ item.occurredStart ≠ none then rruleWords lib (item.rrule.getD "") item.occurredStart
    else pure shown
  let dated :=
    if shown ≠ "" ∧ ¬ shown.toList <:+: item.title.toList then text ++ ", " ++ shown else text
  let reminded ← reminders.mapM fun fires => do
    pure (" I'll remind you " ++ (← formatShort lib now fires (some .day)) ++ ".")
  return dated ++ "." ++ join "" reminded

/-- `_value_text`. -/
def valueText (item : ItemRecord) : Option String :=
  match (item.value.getD (.obj [])).get "text" with
  | .str text => if text ≠ "" then some text else none
  | _ => none

/-- `_object`: the title without the verb it starts with. -/
def objectOf (item : ItemRecord) : String :=
  let subtype := item.subtype.getD ""
  if subtype = "" then item.title
  else
    match matchStart (seq (anyCase subtype) (plus (one isSpace))) item.title.toList with
    | some m => String.ofList m.rest
    | none => item.title

/-- `_second_person`. -/
def secondPerson (sentence : String) : String :=
  let plain := (join " " (words sentence)).toList
  let plain := (plain.reverse.dropWhile (· = '.')).reverse
  let said := secondPersons.foldl (fun said e => sub e.1 (fun _ => e.2.toList) said) plain
  if lib.lower (String.ofList (said.take 3)) = "you" then
    lib.lower (String.ofList (said.take 1)) ++ String.ofList (said.drop 1)
  else String.ofList said

/-- The text of a line. -/
def AckLine.text : AckLine → Rendered String
  | saved item reminders => savedText lib now item reminders
  | moved old new => do
    return "Moved: " ++ new.title ++ " is now " ++ (← when_ lib now new) ++ " (was " ++
      (← when_ lib now old) ++ ")."
  | updated old new validTo => do
    let ended ← formatShort lib now validTo (some .day)
    let today ← formatShort lib now now (some .day)
    return "Updated: " ++ secondPerson lib new.text ++ " now (" ++
      (valueText old).getD old.title ++ " until " ++ (if today = ended then "today" else ended) ++
      ")."
  | marked intention =>
    return "Marked " ++ objectOf intention ++ " as " ++
      (done.lookup (intention.subtype.getD "")).getD "done" ++ "."
  | addedToCore title => return "Added to core memory: " ++ title ++ "."
  | addedDetail title => return "Added detail to " ++ title ++ "."
  | held title reason => return "Held for your confirmation: " ++ title ++ " (" ++ reason ++ ")."
  | refusal =>
    return "I didn't save that: it looks like a password or another secret, and I don't store " ++
      "those. Nothing was written."
  | hypothetical title =>
    return "I didn't save '" ++ title ++ "' as if it were settled: it's hypothetical."
  | coreFull title =>
    return title ++ " is saved, but core memory is full, so it isn't always in context."
  | notSaved title reason => return "Not saved: " ++ title ++ " (" ++ reason ++ ")."
  | alreadySaved title => return "Already saved: " ++ title ++ "."
  | assumedNew mention =>
    return "I've assumed '" ++ mention ++
      "' is someone new; tell me their name and I'll update it."
  | took expression shown alternative =>
    return "I took '" ++ expression ++ "' as " ++ shown ++
      (match alternative with
        | some other => if other ≠ "" then " (not " ++ other ++ ")" else ""
        | none => "") ++ "."
  | unresolved expression =>
    return "I couldn't work out '" ++ expression ++ "', so I saved it without that date."

/-- `acknowledge`. -/
def acknowledge (f : AckFacts) : Rendered String := do
  if lines f = [] then return "Nothing new to save there."
  else return join " " (← (lines f).mapM (·.text lib now))

end

end Ack

end SecondMind
