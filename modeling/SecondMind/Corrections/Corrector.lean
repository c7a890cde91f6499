import SecondMind.Ingestion.TimeResolve
import SecondMind.Memory.Writer

/-!
# Corrections

`corrections/service.py`: what the person says is wrong with a memory, put as ops.  A memory that
was filed wrongly is updated, one that was never true is replaced by a corrected copy, and a
reminder is put off.  The `correct` step has answered already; what the reader gives is a parameter.

* `reclassify` — how a memory is filed;
* `wrongValue` — a corrected copy, and the old row as a mistake;
* `snooze` — another time for a reminder;
* `Corrector.writer` — the writer that commits such ops.
-/

namespace SecondMind

namespace Corrections

/-! ## What a correction is -/

/-- The clocks that a correction may name. -/
inductive DateClock
  | occurred | due | valid
  deriving DecidableEq, Repr

def DateClock.timeClock : DateClock → TimeClock
  | occurred => .occurred
  | due => .due
  | valid => .valid

structure CorrectionChanges where
  kind : Option String := none
  subtype : Option String := none
  category : Option String := none
  tags : Option (List String) := none
  format : Option String := none
  layer : Option Layer := none
  state : Option String := none
  dateExpression : Option String := none
  dateClock : Option DateClock := none

structure RelationFix where
  subject : String
  object : String
  wrong : String
  right : String

structure CorrectContext where
  backend : Backend
  turnId : Uuid
  now : Time.TurnNow
  lib : Time.TimeLib
  settings : WriterSettings := {}
  origin : Origin := .userMessage
  newId : Nat → Uuid := id

/-- A text that is there and not empty. -/
def given (text : Option String) : Option String := text.filter (· ≠ "")

/-! ## Slugs -/

/-- `[a-z0-9]`. -/
def isSlugLetter (c : Char) : Bool := ('a' ≤ c ∧ c ≤ 'z') ∨ ('0' ≤ c ∧ c ≤ '9')

/-- `slugify`, of a text that is no path. -/
def slugify (lib : TextLib) (text : String) : String :=
  let spelled := (lib.lower text).toList.flatMap fun c =>
    if c = '&' then " and ".toList else [c]
  let found := (spelled.splitOnP fun c => !isSlugLetter c).filter (· ≠ [])
  join "_" (found.map String.ofList)

/-- `"/".join(slugify(p) for p in category.split("/") if p.strip())`. -/
def categoryPath (lib : TextLib) (category : String) : String :=
  let parts := (category.toList.splitOn '/').map String.ofList
  join "/" ((parts.filter fun part => strip part ≠ "").map (slugify lib))

/-! ## How a memory is filed -/

def kinds : List Kind :=
  [.fact, .preference, .episode, .plan, .task, .intention, .resource, .note, .rule, .pattern]

/-- `Kind(name)`; none is a `ValueError`. -/
def kindOf (name : String) : Option Kind := kinds.find? fun kind => kindName kind = name

/-- `ResourceFormat(name)`. -/
def formatOf (name : String) : Option ResourceFormat :=
  [("article", .article), ("video", .video), ("pdf", .pdf), ("image", .image), ("link", .link),
    ("other", .other)].lookup name

/-- `initial_state`. -/
def initialState (kind : Kind) : String := (kindStates kind).headD ""

/-- A format goes into the changes as it is; one that is none makes the commit fail. -/
def putFormat (format : Option String) (update : ItemChanges) : ItemChanges :=
  match given format with
  | none => update
  | some name =>
    match formatOf name with
    | some format => { update with format := some (some format) }
    | none => { update with unknown := ["format"] }

def putLayer (layer : Option Layer) (update : ItemChanges) : ItemChanges :=
  match layer with
  | none => update
  | some .core => { update with inCore := some true }
  | some .quick => { update with inQuick := some true }
  | some .archive => { update with inCore := some false, inQuick := some false }

/-- The fields that a resolved date sets. -/
def putDate (clock : DateClock) (r : Resolved) (update : ItemChanges) : ItemChanges :=
  let update := { update with timePrecision := some (some r.precision) }
  match clock with
  | .occurred =>
    { update with occurredStart := some (some r.start), occurredEnd := some r.end_ }
  | .due => { update with dueAt := some (some r.start) }
  | .valid => { update with validFrom := some (some r.start) }

/-- The kind that is asked for, and what is said of a kind that is none. -/
def newKind (changes : CorrectionChanges) : Option Kind × List String :=
  match given changes.kind with
  | none => (none, [])
  | some name =>
    match kindOf name with
    | none => (none, ["'" ++ name ++ "' isn't a kind I know."])
    | some kind => (some kind, [])

/-- The changes of `_reclassify` but for the date. -/
def filing (ctx : CorrectContext) (item : ItemRecord) (changes : CorrectionChanges) : ItemChanges :=
  let lib := ctx.lib.text
  let kind := (newKind changes).1
  let update : ItemChanges :=
    { kind := kind
      subtype := changes.subtype.map fun subtype => given (some (slugify lib subtype))
      categorySlug := (given changes.category).map (categoryPath lib)
      tags := changes.tags.map fun tags =>
        ((tags.map fun tag => lib.lower (strip tag)).filter (· ≠ "")).dedup.insertionSort (· ≤ ·) }
  let update := putLayer changes.layer (putFormat changes.format update)
  let kind := kind.getD item.kind
  let asked := (given changes.state).getD item.state
  let state := if validState kind asked then asked else initialState kind
  if state ≠ item.state then { update with state := some state } else update

/-- `_reclassify`: the ops, and what is said beside them. -/
def reclassify (ctx : CorrectContext) (item : ItemRecord) (changes : Option CorrectionChanges) :
    Time.Attempt (List Op × List String) :=
  match changes with
  | none => .ok ([], ["I couldn't tell what to change."])
  | some changes => do
    let update := filing ctx item changes
    let notes := (newKind changes).2
    let (update, notes) ← match given changes.dateExpression with
      | none => pure (update, notes)
      | some expression =>
        let clock := changes.dateClock.getD
          (if ((newKind changes).1.getD item.kind) = .task then .due else .occurred)
        match Time.resolve ctx.lib expression clock.timeClock ctx.now with
        | .ok r => pure (putDate clock r update, notes)
        | .error (.unresolvable _) =>
          pure (update, notes ++ ["I couldn't work out the date '" ++ expression ++ "'."])
        | .error e => .error e
    if update.isEmpty then return ([], notes)
    else
      return ([{ title := item.title, origin := ctx.origin, body := .updateItem item.id update }],
        notes)

/-! ## What was never true -/

/-- `TITLE_MAX`. -/
def titleMax : Nat := 80

/-- `text.rsplit(" ", 1)[0]`. -/
def beforeLastSpace (text : List Char) : List Char :=
  if ' ' ∈ text then (text.reverse.dropWhile (· ≠ ' ')).tail.reverse else text

/-- `_title_of`. -/
def titleOf (text : String) : String :=
  if text.length ≤ titleMax then text
  else
    let cut := text.toList.take (titleMax - 1)
    let cut := if text.toList[titleMax - 1]? ≠ some ' ' then beforeLastSpace cut else cut
    String.ofList ((cut.reverse.dropWhile (· ∈ " ,;:-".toList)).reverse ++ ['…'])

/-- Where a correction asks for a new id. -/
inductive FixId
  | item | row (i : Nat) | link | relation
  deriving DecidableEq, Repr

/-- What the reader answers for a relation that was wrong: whom the two phrases name, and the
relations of the first. -/
structure RelationRows where
  subject : Option EntityRecord
  object : Option EntityRecord
  relations : List RelationRecord

/-- `_relation`. -/
def relation (lib : TextLib) (newId : FixId → Uuid) (fix : RelationFix) (found : RelationRows)
    (evidence : Uuid) : List Op × List String :=
  match found.subject, found.object with
  | some a, some b =>
    let wrong := slugify lib fix.wrong
    let between := found.relations.filter fun r =>
      r.validTo = none ∧
        ((r.srcEntityId = a.id ∧ r.dstEntityId = b.id) ∨
          (r.srcEntityId = b.id ∧ r.dstEntityId = a.id)) ∧
        (r.relation = wrong ∨ wrong = "")
    let right := slugify lib fix.right
    (between.map (fun r => { title := r.relation, body := .unrelateEntities r.id }) ++
      [{ title := a.name ++ " " ++ right ++ " " ++ b.name
         body := .relateEntities (newId .relation) a.id right b.id none (some evidence) }], [])
  | _, _ => ([], ["I couldn't tell who the relation is between."])

/-- The new text, its spaces made single. -/
def correctedText (newText : Option String) : String := join " " (words (newText.getD ""))

/-- The content of the corrected copy. -/
def correctedContent (old : ItemContent) (text : String) : ItemContent :=
  { old with text := text, title := titleOf text }

/-- `_wrong_value`, with the entity rows of the old item. -/
def wrongValue (lib : TextLib) (newId : FixId → Uuid) (old : ItemRecord)
    (rows : List ItemEntityRecord) (newText : Option String)
    (fix : Option (RelationFix × RelationRows)) : List Op × List String :=
  let text := correctedText newText
  if text = "" then ([], ["I couldn't tell what the right version is."])
  else
    let content := correctedContent old.toItemContent text
    let entities := rows.zipIdx.map fun (row, i) =>
      (⟨newId (.row i), row.entityId, row.role⟩ : EntityLink)
    let related := fix.elim ([], []) fun (fix, found) => relation lib newId fix found (newId .item)
    ([{ title := content.title, body := .createItem (newId .item) content entities [] none none },
      { title := old.title, body := .correctItem old.id (newId .item) (newId .link) }] ++ related.1,
      related.2)

/-! ## A reminder put off -/

/-- `snooze`, up to the commit. -/
def snooze (ctx : CorrectContext) (trigger : Option TriggerRecord) (item : Option ItemRecord)
    (dateExpression : String) : Time.Attempt (Except Failure Op) :=
  match trigger with
  | none => .ok (.error (.validationFailed "That reminder isn't pending any more."))
  | some trigger =>
    if trigger.state ≠ .pending then
      .ok (.error (.validationFailed "That reminder isn't pending any more."))
    else
      match Time.resolve ctx.lib dateExpression .occurred ctx.now with
      | .error (.unresolvable _) => .ok (.error (.validationFailed
          ("I couldn't work out the date '" ++ dateExpression ++ "'.")))
      | .error e => .error e
      | .ok r =>
        if r.start ≤ ctx.now.instant then
          .ok (.error (.validationFailed ("'" ++ dateExpression ++
            "' has already passed. Pick a time that is still ahead.")))
        else
          .ok (.ok
            { title := "reminder: " ++ (item.map (·.title)).getD "reminder"
              rationale := "snoozed to " ++ dateExpression
              body := .updateTrigger trigger.id { firesAt := some (some r.start) } })

/-! ## The commit -/

/-- `_origin`. -/
def withOrigin (op : Op) (origin : Origin) : Op :=
  if origin ≠ .userMessage then { op with origin := origin } else op

theorem withOrigin_body (op : Op) (origin : Origin) : (withOrigin op origin).body = op.body := by
  unfold withOrigin
  split <;> rfl

/-- The writer of `_commit`. -/
def CorrectContext.writer (ctx : CorrectContext) (ops : List Op) : Writer where
  backend := ctx.backend
  turn :=
    { turnId := ctx.turnId
      kind := if ctx.origin = .uiEdit then .edit else .user
      now := ctx.now.instant }
  settings := ctx.settings
  ops := ops.map fun op => withOrigin op ctx.origin
  newId := ctx.newId

end Corrections

end SecondMind
