import SecondMind.Memory.Store

/-!
# Undo

`memory/undo.py`: replay a turn's write log backwards as a new turn.  Created rows are
soft-deleted (items, entities) or removed (links, relations), updated rows go back to
their before snapshot.  A row whose stamp says that a later turn changed it is a conflict:
it is reported, and no op is planned for it.

* `inverse` — the op that takes one log row back;
* `planUndo` — the ops for a turn, newest row first, and its conflicts.

`new_id` is read as in the writer: `newId i` is the id the row at position `i` of the
reversed log is put back under, when it needs a new one.
-/

namespace SecondMind

/-- The value of each target type. -/
def TargetType.value : TargetType → String
  | .item => "item"
  | .entity => "entity"
  | .trigger => "trigger"
  | .link => "link"
  | .itemEntity => "item_entity"
  | .relation => "relation"

/-- The row a log row is about. -/
def WriteLogRecord.key (row : WriteLogRecord) : TargetType × Uuid := (row.targetType, row.targetId)

structure UndoPlan where
  ops : List Op := []
  conflicts : List (String × String × Option Uuid) := []
  nothingToUndo : Bool := false

/-! ## Conflicts -/

def changedLater : String := "a later turn changed it, so it was left as it is"

def stillPointedAt : String := "other memories still point at it, so it was kept"

/-- The item was made by the turn. -/
def MemoryTables.madeBy (t : MemoryTables) (turnId id : Uuid) : Bool :=
  (t.getItem id).any fun item => item.createdByTurnId = turnId

/-- `_conflict`. -/
def conflict (t : MemoryTables) (turnId : Uuid) : TargetType × Uuid → Option String
  | (.item, id) =>
    match t.getItem id with
    | none => none
    | some item => if item.updatedByTurnId ≠ turnId then some changedLater else none
  | (.entity, id) =>
    match t.getEntity id with
    | none => none
    | some entity =>
      if entity.updatedByTurnId ≠ some turnId then some changedLater
      else if entity.createdByTurnId = some turnId ∧ ∃ i ∈ t.entityItems id, ¬ t.madeBy turnId i then
        some stillPointedAt
      else none
  | (.trigger, id) =>
    match t.getTrigger id with
    | none => none
    | some trigger => if trigger.updatedByTurnId ≠ turnId then some changedLater else none
  | _ => none

/-! ## Inverse ops -/

/-- The branch of `_inverse` for items. -/
def inverseItem (id : Uuid) (before after : Option ItemRecord) : Option OpBody :=
  match before, after with
  | none, _ => some (.deleteItem id)
  | some _, none => none
  | some before, some after =>
    if before.status = .active ∧ after.status = .deleted then some (.restoreItem id)
    else if before.status = .deleted ∧ after.status = .active then some (.deleteItem id)
    else
      let changes := before.toItemContent.diff after.toItemContent
      if changes.isEmpty then none else some (.updateItem id changes)

/-- The branch of `_inverse` for entities. -/
def inverseEntity (id : Uuid) (before after : Option EntityRecord) : Option OpBody :=
  match before with
  | none => if after.any (·.kind = .self) then none else some (.deleteEntity id)
  | some before => some (.upsertEntity id before.toEntityContent false)

/-- The branch of `_inverse` for triggers. -/
def inverseTrigger (id : Uuid) (before after : Option TriggerRecord) : Option OpBody :=
  match before, after with
  | none, _ => some (.setTriggerState id .cancelled)
  | some _, none => none
  | some before, some after =>
    let changes := before.toTriggerContent.diff after.toTriggerContent
    if changes.isEmpty then none else some (.updateTrigger id changes)

/-- The branch of `_inverse` for links. -/
def inverseLink (newId id : Uuid) : Option LinkRecord → OpBody
  | none => .unlinkItems id
  | some link => .linkItems newId link.srcItemId link.linkType link.dstItemId

/-- The branch of `_inverse` for entity rows. -/
def inverseItemEntity (newId id : Uuid) : Option ItemEntityRecord → OpBody
  | none => .detachEntity id
  | some ie => .attachEntity newId ie.itemId ie.entityId ie.role

/-- The branch of `_inverse` for relations. -/
def inverseRelation (newId id : Uuid) : Option RelationRecord → OpBody
  | none => .unrelateEntities id
  | some rel =>
    .relateEntities newId rel.srcEntityId rel.relation rel.dstEntityId rel.validFrom
      rel.evidenceItemId

/-- `_inverse`, on a row's target and its two images. -/
def inverseBody (newId : Uuid) :
    (target : TargetType) → Uuid → Option target.Record → Option target.Record → Option OpBody
  | .item, id, before, after => inverseItem id before after
  | .entity, id, before, after => inverseEntity id before after
  | .link, id, before, _ => some (inverseLink newId id before)
  | .itemEntity, id, before, _ => some (inverseItemEntity newId id before)
  | .relation, id, before, _ => some (inverseRelation newId id before)
  | .trigger, id, before, after => inverseTrigger id before after

/-- `_inverse`. -/
def inverse (newId : Uuid) (row : WriteLogRecord) : Option Op :=
  (inverseBody newId row.targetType row.targetId row.before row.after).map fun body =>
    { title := row.title, origin := .undo, rationale := "undo", body := body }

/-! ## The plan -/

/-- The rows a turn wrote, in `seq` order. -/
def wroteRows (t : Tables) (turnId : Uuid) : List WriteLogRecord :=
  (t.writeLogOf turnId).filter (·.decision = .allowed)

/-- The rows of the store the turn wrote that are in conflict, with the reason. -/
def conflicts (t : Tables) (turnId : Uuid) : List ((TargetType × Uuid) × String) :=
  ((wroteRows t turnId).map (·.key)).eraseDups.filterMap fun key =>
    (conflict t.toMemoryTables turnId key).map fun reason => (key, reason)

/-- The ids that are in conflict. -/
def conflicted (t : Tables) (turnId : Uuid) : List Uuid :=
  (conflicts t turnId).map fun c => c.1.2

/-- How a conflict is shown: under the title of the first row about its id. -/
def conflictEntry (rows : List WriteLogRecord) (c : (TargetType × Uuid) × String) :
    String × String × Option Uuid :=
  let title := ((rows.find? (·.targetId = c.1.2)).map (·.title)).getD ""
  (if title = "" then c.1.1.value else title, c.2, if c.1.1 = .item then some c.1.2 else none)

/-- `plan_undo`: inverse ops for everything the turn wrote, newest first. -/
def planUndo (newId : Nat → Uuid) (t : Tables) (turnId : Uuid) : UndoPlan :=
  let rows := wroteRows t turnId
  { conflicts := (conflicts t turnId).map (conflictEntry rows)
    ops := rows.reverse.zipIdx.filterMap fun e =>
      if e.1.targetId ∈ conflicted t turnId then none else inverse (newId e.2) e.1
    nothingToUndo := rows.isEmpty }

end SecondMind
