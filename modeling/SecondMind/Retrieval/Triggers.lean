import SecondMind.Agent.Turn
import SecondMind.Ingestion.Mentions
import SecondMind.Ingestion.SaveKeys
import SecondMind.Links.Fetcher
import SecondMind.Memory.Reader

/-!
# Triggers on people, topics and situations

`retrieval/triggers.py`: every turn ends with a check of the message against the pending triggers,
and those that match fire, by a commit of the same turn.

* `MemoryTables.pendingTriggers` — the triggers that wait;
* `TriggerCheck.why` — why a trigger matches a message;
* `TriggerCheck.noteFor` — what is said of a memory whose trigger fires;
* `TriggerCheck.run` — one check.
-/

namespace SecondMind

open Keyed Agent

/-! ## The listing -/

namespace MemoryTables

/-- The trigger waits for one of these, and its item is active. -/
def waits (t : MemoryTables) (on : List TriggerOn) (r : TriggerRecord) : Bool :=
  r.state = .pending ∧ r.on ∈ on ∧ t.isActive r.itemId

/-- `pending_triggers`: the oldest first. -/
def pendingTriggers (t : MemoryTables) (on : List TriggerOn) : List TriggerRecord :=
  let found := t.triggers.rows.filter fun r => t.waits on r
  (newestFirst (found.map fun r => toLex (r.createdAt, r.id))).reverse.filterMap
    fun k => t.getTrigger (ofLex k).2

end MemoryTables

/-! ## The check -/

/-- A search key of an item, as far as the check reads it. -/
structure KeyRow where
  itemId : Uuid
  contentHash : String
  embedding : Option (List Rat)

/-- What a turn brings to the check: its message, the message's vector if a recall has it already,
the embedding of texts unless the turn has none, and the stored keys. -/
structure Heard where
  turn : Turn
  vector : Option (List Rat) := none
  embed : Option (List String → Option (List (List Rat))) := none
  keys : List KeyRow := []

def Heard.message (h : Heard) : String := String.ofList h.turn.input

/-- `TriggerCheck`, and what it does with texts and vectors. -/
structure TriggerCheck where
  threshold : Rat
  cosine : List Rat → List Rat → Rat
  /-- A score with two decimals. -/
  shown : Rat → String
  lib : TextLib
  contentHash : String → String
  order : List (List Char) → List (List Char) := id

/-- `_uuid`, as `uuid.UUID` reads the text of a value. -/
def uuidOf (lib : TextLib) (value : Json) : Option Uuid :=
  if value.truthy then
    let hex := Texts.replace "uuid:".toList [] (Texts.replace "urn:".toList [] (lib.str value).toList)
    let hex := Texts.replace ['-'] [] (Links.stripChars ['{', '}'] hex)
    if hex.length = 32 then (intIn 16 hex).map Int.toNat else none
  else none

namespace TriggerCheck

variable (c : TriggerCheck) (h : Heard) (t : MemoryTables)

def momentKinds : List TriggerOn := [.person, .topic, .situation]

/-- What the message mentions of the person the trigger waits for. -/
def personWhy (r : TriggerRecord) : Option String :=
  (uuidOf c.lib (r.spec.get "entity_id")).bind fun id =>
    (t.getEntity id).bind fun e =>
      (Mentions.mention c.lib c.order h.message e.toEntityContent).map fun hit =>
        "you mentioned " ++ c.lib.repr (String.ofList hit)

/-- `str(value or "")`. -/
def orEmpty (value : Json) : String := if value.truthy then c.lib.str value else ""

def cue (r : TriggerRecord) : String := c.orEmpty (r.spec.get "cue")

def cueHash (r : TriggerRecord) : String :=
  let given := r.spec.get "cue_hash"
  if given.truthy then c.lib.str given else c.contentHash (c.cue r)

section

variable (topics : List TriggerRecord)

/-- The vector that a key of one of the triggers' items has for the cue; of equal keys the last. -/
def keyVector (r : TriggerRecord) : Option (List Rat) :=
  if c.cue r = "" then none
  else
    (h.keys.reverse.find? fun k =>
      k.itemId ∈ topics.map (·.itemId) ∧ k.embedding.isSome ∧ k.contentHash = c.cueHash r).bind
        (·.embedding)

/-- The texts that have no vector yet: the message, and the other cues in order. -/
def texts : List String :=
  let missing := (topics.filter fun r => c.cue r ≠ "" ∧ c.keyVector h topics r = none).map c.cue
  (if h.vector.isSome then [] else [h.message]) ++ missing.dedup.insertionSort (· ≤ ·)

/-- The vectors that are asked for. -/
def fresh (text : String) : Option (List Rat) :=
  match h.embed with
  | none => none
  | some embed =>
    if c.texts h topics = [] then none
    else
      (((c.texts h topics).zip ((embed (c.texts h topics)).getD [])).reverse.find? fun e =>
        e.1 = text).map (·.2)

def cueVector (r : TriggerRecord) : Option (List Rat) :=
  match c.keyVector h topics r with
  | some (x :: xs) => some (x :: xs)
  | _ => c.fresh h topics (c.cue r)

/-- `_topics`, on one of the triggers. -/
def topicWhy (r : TriggerRecord) : Option String :=
  (h.vector <|> c.fresh h topics h.message).bind fun query =>
    (c.cueVector h topics r).bind fun vector =>
      let score := c.cosine query vector
      if c.threshold ≤ score then
        some ("the topic matched " ++ c.lib.repr (c.cue r) ++ " (" ++ c.shown score ++ ")")
      else none

end

/-- The pending triggers on topics and situations. -/
def topicsOf : List TriggerRecord :=
  (t.pendingTriggers momentKinds).filter fun r => r.on = .topic ∨ r.on = .situation

/-- Why the trigger matches the message, if it does. -/
def why (r : TriggerRecord) : Option String :=
  if r.on = .person then c.personWhy h t r
  else if h.vector.isSome ∨ h.embed.isSome then c.topicWhy h (topicsOf t) r
  else none

/-- The triggers that match, those on people first. -/
def matched : List Fired :=
  let people := (t.pendingTriggers momentKinds).filter fun r => r.on = .person
  (people ++ topicsOf t).filterMap fun r =>
    (c.why h t r).map fun why => { triggerId := r.id, itemId := r.itemId, why := why }

/-! ## What is said -/

/-- `re.IGNORECASE`, on the letters of the two openings. -/
def sameLetter (p c : Char) : Bool :=
  c = p ∨ c = p.toUpper ∨ (p = 'i' ∧ (c = Char.ofNat 0x130 ∨ c = Char.ofNat 0x131))

/-- What follows the opening. -/
def afterOpening : List Char → List Char → Option (List Char)
  | [], text => some text
  | _ :: _, [] => none
  | p :: ps, c :: cs => if sameLetter p c then afterOpening ps cs else none

/-- What follows a blank. -/
def afterSpace : List Char → Option (List Char)
  | [] => none
  | c :: cs => if isSpace c then some (cs.dropWhile isSpace) else none

/-- What is to be remembered, when the text opens with "remember" or "remind me". -/
def remembered (text : List Char) : Option (List Char) :=
  ((afterOpening "remember".toList text).bind afterSpace) <|>
    (afterOpening "remind me".toList text).bind fun rest =>
      ((afterOpening " of".toList rest).bind afterSpace) <|>
        ((afterOpening " about".toList rest).bind afterSpace) <|> afterSpace rest

/-- `note_for`. -/
def noteFor (item : ItemRecord) : String :=
  let text := (Links.stripDots (join " " (words item.text)).toList)
  match remembered text with
  | some rest => "By the way, you asked me to remind you: " ++ String.ofList rest ++ "."
  | none =>
    if item.kind = .task then
      "By the way, you wanted to " ++ c.lib.lower (String.ofList (text.take 1)) ++
        String.ofList (text.drop 1) ++ "."
    else "By the way, you asked me to remind you about " ++ item.title ++ "."

/-! ## The run -/

/-- What a check comes to. -/
structure Checked where
  fired : List Fired := []
  note : String := ""
  tables : Tables

/-- `TriggerCheck.run`. -/
def run (t : Tables) : Except Failure Checked :=
  let found := c.matched h t.toMemoryTables
  if found = [] then .ok { tables := t }
  else do
    let out := found.filter fun f => (t.getItem f.itemId).isSome
    let (t', _) ← (h.turn.firing (out.filterMap (·.op t.toMemoryTables))).commit t
    return {
      fired := out
      note := join " " (out.filterMap fun f => (t.getItem f.itemId).map c.noteFor)
      tables := t' }

end TriggerCheck
end SecondMind
