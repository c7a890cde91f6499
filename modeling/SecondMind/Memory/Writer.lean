import SecondMind.Memory.Store
import SecondMind.Memory.CoreLayer
import SecondMind.Policy.Rules

/-!
# The memory writer

`memory/writer.py`.  A writer holds one turn's ops; `Writer.commit` applies them in one
transaction.  Each op is checked by the write policy before it is applied: an allowed op
changes rows and logs a before and an after image of each, a held op waits in
`held_writes`, a blocked op leaves a log row without its content, and an op that can't
apply any more is skipped.  A failure anywhere rolls everything back.

`new_id` is read from the writer: `newId i` is the id the op at position `i` is given when
it needs one (for a category, or for its held write), `vocabId i` the id of the `i`-th
vocabulary term.
-/

namespace SecondMind

open Policy

/-- The turn a writer belongs to. -/
structure WriterTurn where
  turnId : Uuid
  kind : TurnKind := .user
  now : Instant

structure WriterSettings where
  bulkThreshold : Nat := 5
  coreTokenBudget : Nat := 1500

/-- A deliberate non-write, or a row an undo left alone, as the diff shows it. -/
inductive DiffOp
  | notWritten | conflict
  deriving DecidableEq, Repr

structure DiffEntry where
  op : DiffOp
  layer : Layer := .archive
  title : String
  reason : String
  itemId : Option Uuid := none
  deriving DecidableEq

structure Writer where
  backend : Backend
  turn : WriterTurn
  settings : WriterSettings := {}
  confirmed : Bool := false
  undoOf : Option Uuid := none
  ops : List Op := []
  notes : List DiffEntry := []
  vocab : List (VocabKind × String × List String) := []
  newId : Nat → Uuid := id
  vocabId : Nat → Uuid := id

/-- What happened to one op: its verdict and the rows it logged. -/
structure OpOutcome where
  op : Op
  verdict : PolicyVerdict
  rows : List WriteLogRecord
  heldId : Option Uuid := none

structure CommitResult where
  outcomes : List OpOutcome := []
  notes : List DiffEntry := []
  held : List HeldWriteRecord := []

def CommitResult.rows (r : CommitResult) : List WriteLogRecord := r.outcomes.flatMap (·.rows)

/-- Why an op stops: it can't apply any more, and what it did before it noticed stays; or
something failed and the transaction rolls back. -/
inductive Halt
  | skip (tables : Tables) (reason : String)
  | fail (failure : Failure)

/-- A statement inside an op: its failure is the transaction's. -/
def run {α : Type} (x : Except Failure α) : Except Halt α := x.mapError .fail

/-! ## The ops of a batch -/

/-- `_item_changes`: what an op changes of the item it is about. -/
def OpBody.itemChanges : OpBody → ItemChanges
  | .updateItem _ changes => changes
  | .setItemState _ state => { state := some state }
  | .supersedeItem _ _ _ validTo state => { state := some state, validTo := some (some validTo) }
  | .correctItem .. => { status := some .archived }
  | .fulfilIntention _ _ _ state => { state := some state }
  | .deleteItem _ => { status := some .deleted }
  | .restoreItem _ => { status := some .active }
  | _ => {}

/-- `_layer_only`: the op only places an item in the quick layer. -/
def OpBody.layerOnly : OpBody → Bool
  | .updateItem _ changes => !changes.isEmpty && changes.onlyQuick
  | _ => false

/-- The item an op makes. -/
def OpBody.createdItem : OpBody → Option Uuid
  | .createItem itemId .. => some itemId
  | _ => none

/-- The item an op counts as editing. -/
def OpBody.editedItem (body : OpBody) : Option Uuid :=
  match body with
  | .updateItem itemId _ => if body.layerOnly then none else some itemId
  | .setItemState itemId _ => some itemId
  | .deleteItem itemId => some itemId
  | .restoreItem itemId => some itemId
  | .supersedeItem oldId .. => some oldId
  | .correctItem oldId .. => some oldId
  | .fulfilIntention intentionId .. => some intentionId
  | _ => none

def createdItems (ops : List Op) : Finset Uuid :=
  (ops.filterMap fun op => op.body.createdItem).toFinset

/-- `_edited_items`: the items the batch edits and did not make itself. -/
def editedItems (ops : List Op) : Finset Uuid :=
  (ops.filterMap fun op => op.body.editedItem).toFinset \ createdItems ops

/-- The op asks for an item to be in core. -/
def OpBody.promotes : OpBody → Bool
  | .updateItem _ changes => changes.inCore = some true
  | _ => false

/-- `create` on the ops that have it. -/
def OpBody.creates : OpBody → Bool
  | .upsertEntity _ _ create => create
  | _ => false

/-- Content read for a saved link may set that link item's title, summary and tags. -/
def fillsOwnItem (op : Op) (before : ItemRecord) : Bool :=
  match op.body with
  | .updateItem _ changes =>
    op.origin = .content ∧ before.kind = .resource ∧ before.source = .link ∧ changes.onlyPage
  | _ => false

/-- What the policy is told about an op on a stored item. -/
def itemFacts (op : Op) (created : Finset Uuid) (before : ItemRecord) : OpFacts :=
  let changes := op.body.itemChanges
  let afterCore := changes.inCore.getD before.inCore
  let contentChanged := !changes.onlyQuick
  { op := opLabel op
    kind := some before.kind
    trust := op.trust
    origin := op.origin
    sensitivity := changes.sensitivity.getD before.sensitivity
    modality := before.modality
    confidence := before.confidence
    coreWrite := opLabel op ≠ .delete ∧ afterCore ∧ (!before.inCore ∨ contentChanged)
    editsExisting := op.body.target.2 ∉ created
    layerOnly := op.body.layerOnly
    fillsOwnItem := fillsOwnItem op before }

/-- `_facts`. -/
def facts (t : Tables) (op : Op) (created : Finset Uuid) : OpFacts :=
  let base : OpFacts := { op := opLabel op, trust := op.trust, origin := op.origin }
  match op.body with
  | .createItem _ item _ triggers _ _ =>
    { base with
      kind := some item.kind
      sensitivity := item.sensitivity
      modality := item.modality
      confidence := item.confidence
      coreWrite := item.inCore
      createsTrigger := !triggers.isEmpty }
  | body =>
    match body.target with
    | (.item, itemId) =>
      match t.getItem itemId with
      | none => base
      | some before => itemFacts op created before
    | (.trigger, _) => { base with target := .trigger, editsExisting := true }
    | (.entity, _) => { base with target := .entity, editsExisting := !body.creates }
    | (other, _) => { base with target := other }

namespace Writer

variable (w : Writer)

/-! ## Rows -/

/-- The content of a new item, with the moment a person let it into core. -/
def newContent (item : ItemContent) : ItemContent :=
  if item.inCore ∧ w.confirmed then { item with coreConfirmedAt := some w.turn.now } else item

/-- `_new_item`. -/
def newItem (itemId : Uuid) (item : ItemContent) (categoryId : Option Uuid) :
    Except Failure ItemRecord :=
  let content :=
    match categoryId with
    | none => item
    | some c => { item with categoryId := some c }
  if validState item.kind item.state then
    .ok { toItemContent := w.newContent content
          id := itemId
          createdAt := w.turn.now
          updatedAt := w.turn.now
          createdByTurnId := w.turn.turnId
          updatedByTurnId := w.turn.turnId }
  else .error (.valueError s!"state {item.state} is not valid for its kind")

/-- The content `_changed_item` gives an item: the changes, and the moment a person let it
into core. -/
def changedContent (before : ItemContent) (changes : ItemChanges) : ItemContent :=
  let content := changes.apply before
  if changes.inCore = some true ∧ !before.inCore ∧ w.confirmed then
    { content with coreConfirmedAt := some w.turn.now }
  else content

/-- `_changed_item`. -/
def changedItem (before : ItemRecord) (changes : ItemChanges) : Except Failure ItemRecord :=
  if changes.unknown ≠ [] then .error (.valueError s!"unknown item fields: {changes.unknown}")
  else
    let content := w.changedContent before.toItemContent changes
    if validState content.kind content.state then
      .ok { before with
            toItemContent := content
            updatedAt := w.turn.now
            updatedByTurnId := w.turn.turnId }
    else .error (.valueError s!"state {content.state} is not valid for its kind")

/-- `log_row`. -/
def logRow (seqBase : Nat) (op : Op) (seq : Nat) (verdict : PolicyVerdict) (targetType : TargetType)
    (targetId : Uuid) (layer : Layer) (before after : Option targetType.Record)
    (label : Option WriteOp) : WriteLogRecord where
  turnId := w.turn.turnId
  seq := seqBase + seq
  op := label.getD (opLabel op)
  targetType := targetType
  targetId := targetId
  layer := layer
  title := String.ofList (op.title.toList.take 300)
  before := before
  after := after
  rationale := String.ofList (op.rationale.toList.take 1000)
  trust := op.trust
  decision := verdict.decision
  ruleId := verdict.ruleId
  reason := verdict.reason

/-- `_RowLog`: the rows one applied op has logged so far. -/
structure RowLog where
  seqBase : Nat
  op : Op
  seq : Nat
  rows : List WriteLogRecord := []

/-- `_RowLog._ALLOWED`. -/
def allowedVerdict : PolicyVerdict := ⟨.allowed, "P-DEFAULT", ""⟩

/-- `_RowLog.add`. -/
def add (log : RowLog) (targetType : TargetType) (targetId : Uuid)
    (before after : Option targetType.Record) (layer : Layer) (label : Option WriteOp := none) :
    RowLog :=
  { log with rows := log.rows ++ [w.logRow log.seqBase log.op (log.seq + log.rows.length + 1)
      allowedVerdict targetType targetId layer before after label] }

/-! ## Applying one op -/

/-- `_live_item`. -/
def liveItem (t : Tables) (itemId : Uuid) (allowDeleted : Bool := false) :
    Except Halt ItemRecord :=
  match t.getItem itemId with
  | none => .error (.skip t "the memory no longer exists")
  | some item =>
    if item.status = .deleted ∧ !allowDeleted then .error (.skip t "the memory was deleted")
    else .ok item

/-- `slug.rsplit("/", 1)[-1]`. -/
def lastSegment (slug : String) : String :=
  String.ofList (slug.toList.reverse.takeWhile (· ≠ '/')).reverse

/-- `_slug_category`. -/
def slugCategory (t : Tables) (i : Nat) (slug : String) (name : Option String) : Tables × Uuid :=
  let displayName := if name.getD "" = "" then lastSegment slug else name.getD ""
  let upserted := t.upsertCategory { id := w.newId i, slug := slug, displayName := displayName }
  (upserted.1, upserted.2.id)

/-- `_category`. -/
def category (t : Tables) (i : Nat) (item : ItemContent) (slug name : Option String) :
    Tables × Option Uuid :=
  if slug.getD "" = "" then (t, item.categoryId)
  else
    let filed := w.slugCategory t i (slug.getD "") name
    (filed.1, some filed.2)

/-- The entity rows of a new item, one after the other. -/
def attachNew (record : ItemRecord) : Tables → RowLog → List EntityLink →
    Except Halt (Tables × RowLog)
  | t, log, [] => .ok (t, log)
  | t, log, link :: links => do
    if (t.getEntity link.entityId).isNone then
      throw (.fail (.valueError s!"entity {link.entityId} does not exist"))
    let row : ItemEntityRecord :=
      { id := link.rowId, itemId := record.id, entityId := link.entityId, role := link.role,
        createdByTurnId := w.turn.turnId }
    let t ← run (t.insertItemEntity w.backend row)
    attachNew record t (w.add log .itemEntity row.id none (some row) record.layer (some .link)) links

/-- The triggers of a new item, one after the other. -/
def triggerNew (record : ItemRecord) : Tables → RowLog → List NewTrigger →
    Except Halt (Tables × RowLog)
  | t, log, [] => .ok (t, log)
  | t, log, new :: news => do
    let trigger : TriggerRecord :=
      { toTriggerContent := new.trigger, id := new.triggerId, itemId := record.id,
        createdAt := w.turn.now, updatedAt := w.turn.now, createdByTurnId := w.turn.turnId,
        updatedByTurnId := w.turn.turnId }
    let t ← run (t.insertTrigger w.backend trigger)
    triggerNew record t (w.add log .trigger trigger.id none (some trigger) record.layer) news

/-- `_create_item`. -/
def createItem (t : Tables) (i : Nat) (log : RowLog) (itemId : Uuid) (item : ItemContent)
    (entities : List EntityLink) (triggers : List NewTrigger) (slug name : Option String) :
    Except Halt (Tables × RowLog) := do
  let filed := w.category t i item slug name
  let record ← run (w.newItem itemId item filed.2)
  if (filed.1.getItem record.id).isSome then throw (.skip filed.1 "already exists")
  let t ← run (filed.1.insertItem w.backend record)
  let log := w.add log .item record.id none (some record) record.layer
  let (t, log) ← w.attachNew record t log entities
  w.triggerNew record t log triggers

/-- Re-filed: the category may be new. -/
def refile (t : Tables) (i : Nat) (changes : ItemChanges) : Tables × ItemChanges :=
  match changes.categorySlug with
  | none => (t, changes)
  | some slug =>
    let filed := w.slugCategory t i slug none
    (filed.1, { changes with categorySlug := none, categoryId := some (some filed.2) })

/-- The branch of the ops that change one item's fields. -/
def changeItem (t : Tables) (i : Nat) (log : RowLog) (itemId : Uuid) (changes : ItemChanges) :
    Except Halt (Tables × RowLog) := do
  let before ← liveItem t itemId true
  let filed := w.refile t i changes
  let after ← run (w.changedItem before filed.2)
  let t ← run (filed.1.replaceItem w.backend after)
  .ok (t, w.add log .item after.id (some before) (some after) after.layer)

/-- `_insert_link`, and its log row. -/
def insertLink (t : Tables) (log : RowLog) (linkId src : Uuid) (linkType : LinkType) (dst : Uuid)
    (layer : Layer) : Except Halt (Tables × RowLog) := do
  let link : LinkRecord :=
    { id := linkId, srcItemId := src, linkType := linkType, dstItemId := dst,
      createdByTurnId := w.turn.turnId }
  let t ← run (t.insertLink w.backend link)
  .ok (t, w.add log .link link.id none (some link) layer)

/-- What `_supersede`, `_correct` and `_fulfil` do once their own check has passed: change
the old item and link the new one to it. -/
def changeAndLink (t : Tables) (log : RowLog) (old new : ItemRecord) (changes : ItemChanges)
    (linkId : Uuid) (linkType : LinkType) : Except Halt (Tables × RowLog) := do
  let after ← run (w.changedItem old changes)
  let t ← run (t.replaceItem w.backend after)
  let log := w.add log .item old.id (some old) (some after) old.layer
  w.insertLink t log linkId new.id linkType old.id old.layer

/-- `_supersede`. -/
def supersede (t : Tables) (log : RowLog) (oldId newId linkId : Uuid) (validTo : Instant)
    (state : String) : Except Halt (Tables × RowLog) := do
  let old ← liveItem t oldId
  let new ← liveItem t newId
  if old.validTo ≠ none ∨ old.state ∉ ["current", "scheduled"] then
    throw (.skip t "the old memory was already superseded")
  w.changeAndLink t log old new { state := some state, validTo := some (some validTo) } linkId
    .supersedes

/-- `_correct`. -/
def correct (t : Tables) (log : RowLog) (oldId newId linkId : Uuid) :
    Except Halt (Tables × RowLog) := do
  let old ← liveItem t oldId
  let new ← liveItem t newId
  if old.status ≠ .active then throw (.skip t "the old memory was already corrected")
  w.changeAndLink t log old new { status := some .archived } linkId .corrects

/-- `_fulfil`. -/
def fulfil (t : Tables) (log : RowLog) (intentionId episodeId linkId : Uuid) (state : String) :
    Except Halt (Tables × RowLog) := do
  let intention ← liveItem t intentionId
  let episode ← liveItem t episodeId
  if intention.state ∈ ["fulfilled", "dropped"] then
    throw (.skip t "the intention was already closed")
  w.changeAndLink t log intention episode { state := some state } linkId .fulfils

/-- The branch of `LinkItems`. -/
def linkItems (t : Tables) (log : RowLog) (linkId srcId : Uuid) (linkType : LinkType)
    (dstId : Uuid) : Except Halt (Tables × RowLog) := do
  let _ ← liveItem t srcId
  let _ ← liveItem t dstId
  w.insertLink t log linkId srcId linkType dstId .archive

/-- The branch of `UnlinkItems`. -/
def unlinkItems (t : Tables) (log : RowLog) (linkId : Uuid) : Except Halt (Tables × RowLog) :=
  match t.getLink linkId with
  | none => .error (.skip t "the link no longer exists")
  | some old => .ok (t.deleteLink linkId, w.add log .link linkId (some old) none .archive)

/-- `_attach`. -/
def attach (t : Tables) (log : RowLog) (rowId itemId entityId : Uuid) (role : EntityRole) :
    Except Halt (Tables × RowLog) := do
  let _ ← liveItem t itemId true
  let row : ItemEntityRecord :=
    { id := rowId, itemId := itemId, entityId := entityId, role := role,
      createdByTurnId := w.turn.turnId }
  let t ← run (t.insertItemEntity w.backend row)
  .ok (t, w.add log .itemEntity row.id none (some row) .archive)

/-- The branch of `DetachEntity`. -/
def detach (t : Tables) (log : RowLog) (rowId : Uuid) : Except Halt (Tables × RowLog) :=
  match t.getItemEntity rowId with
  | none => .error (.skip t "the entity link no longer exists")
  | some old => .ok (t.deleteItemEntity rowId, w.add log .itemEntity rowId (some old) none .archive)

/-- `_upsert_entity`. -/
def upsertEntity (t : Tables) (log : RowLog) (entityId : Uuid) (entity : EntityContent)
    (create : Bool) : Except Halt (Tables × RowLog) :=
  match create, t.getEntity entityId with
  | true, some _ => .error (.skip t "the entity already exists")
  | true, none => do
    let record : EntityRecord :=
      { toEntityContent := entity, id := entityId, createdAt := w.turn.now,
        updatedAt := w.turn.now, createdByTurnId := some w.turn.turnId,
        updatedByTurnId := some w.turn.turnId }
    let t ← run (t.insertEntity w.backend record)
    .ok (t, w.add log .entity record.id none (some record) .archive)
  | false, none => .error (.skip t "the entity no longer exists")
  | false, some before => do
    let after : EntityRecord :=
      { before with toEntityContent := entity, updatedAt := w.turn.now,
                    updatedByTurnId := some w.turn.turnId }
    let t ← run (t.replaceEntity w.backend after)
    .ok (t, w.add log .entity after.id (some before) (some after) .archive)

/-- `_delete_entity`. -/
def deleteEntity (t : Tables) (log : RowLog) (entityId : Uuid) : Except Halt (Tables × RowLog) :=
  match t.getEntity entityId with
  | none => .error (.skip t "the entity can't be removed")
  | some entity =>
    if entity.kind = .self then .error (.skip t "the entity can't be removed")
    else do
      let after : EntityRecord :=
        { entity with status := .deleted, updatedAt := w.turn.now,
                      updatedByTurnId := some w.turn.turnId }
      let t ← run (t.replaceEntity w.backend after)
      .ok (t, w.add log .entity entity.id (some entity) (some after) .archive)

/-- `_relate`. -/
def relate (t : Tables) (log : RowLog) (relationId src : Uuid) (relation : String) (dst : Uuid)
    (validFrom : Option Instant) (evidence : Option Uuid) : Except Halt (Tables × RowLog) := do
  let row : RelationRecord :=
    { id := relationId, srcEntityId := src, relation := relation, dstEntityId := dst,
      validFrom := validFrom, evidenceItemId := evidence, createdByTurnId := w.turn.turnId }
  let t ← run (t.insertRelation w.backend row)
  .ok (t, w.add log .relation row.id none (some row) .archive)

/-- The branch of `UnrelateEntities`. -/
def unrelate (t : Tables) (log : RowLog) (relationId : Uuid) : Except Halt (Tables × RowLog) :=
  match t.getRelation relationId with
  | none => .error (.skip t "the relation no longer exists")
  | some old =>
    .ok (t.deleteRelation relationId, w.add log .relation relationId (some old) none .archive)

/-- `_change_trigger`.  The record is written under the id it carries after the changes;
the log row names the trigger the op is about. -/
def changeTrigger (t : Tables) (log : RowLog) (triggerId : Uuid) (changes : TriggerChanges) :
    Except Halt (Tables × RowLog) :=
  match t.getTrigger triggerId with
  | none => .error (.skip t "the trigger no longer exists")
  | some trigger => do
    if changes.unknown ≠ [] then
      throw (.fail (.validationError s!"unknown trigger fields: {changes.unknown}"))
    let after : TriggerRecord :=
      { changes.apply trigger with updatedAt := w.turn.now, updatedByTurnId := w.turn.turnId }
    let t ← run (t.replaceTrigger w.backend after)
    .ok (t, w.add log .trigger trigger.id (some trigger) (some after) .quick)

/-- `_apply`: the op at position `i` of the batch. -/
def apply (t : Tables) (i : Nat) (log : RowLog) : OpBody → Except Halt (Tables × RowLog)
  | .createItem itemId item entities triggers slug name =>
    w.createItem t i log itemId item entities triggers slug name
  | .updateItem itemId changes => w.changeItem t i log itemId changes
  | .setItemState itemId state => w.changeItem t i log itemId { state := some state }
  | .deleteItem itemId => w.changeItem t i log itemId { status := some .deleted }
  | .restoreItem itemId => w.changeItem t i log itemId { status := some .active }
  | .supersedeItem oldId newId linkId validTo state =>
    w.supersede t log oldId newId linkId validTo state
  | .correctItem oldId newId linkId => w.correct t log oldId newId linkId
  | .fulfilIntention intentionId episodeId linkId state =>
    w.fulfil t log intentionId episodeId linkId state
  | .linkItems linkId srcId linkType dstId => w.linkItems t log linkId srcId linkType dstId
  | .unlinkItems linkId => w.unlinkItems t log linkId
  | .attachEntity rowId itemId entityId role => w.attach t log rowId itemId entityId role
  | .detachEntity rowId => w.detach t log rowId
  | .upsertEntity entityId entity create => w.upsertEntity t log entityId entity create
  | .deleteEntity entityId => w.deleteEntity t log entityId
  | .relateEntities relationId src relation dst validFrom evidence =>
    w.relate t log relationId src relation dst validFrom evidence
  | .unrelateEntities relationId => w.unrelate t log relationId
  | .setTriggerState triggerId state => w.changeTrigger t log triggerId { state := some state }
  | .updateTrigger triggerId changes => w.changeTrigger t log triggerId changes

/-! ## Checking one op -/

/-- The item the budget rule measures: as it is stored, or as it would be made. -/
def budgetCandidate (t : Tables) (op : Op) : Except Failure (Option ItemRecord) :=
  match op.body with
  | .createItem itemId item .. => (w.newItem itemId item none).map some
  | body => .ok (t.getItem body.target.2)

/-- What core costs with the candidate among the other items the store lists. -/
def budgetTokens (t : Tables) (candidate : ItemRecord) : Nat :=
  let current := t.findItemsInCore.filter (·.id ≠ candidate.id)
  coreTokensWith (current.map (·.toItemContent)) candidate.toItemContent

/-- `_core_budget`. -/
def coreBudget (t : Tables) (op : Op) (verdict : PolicyVerdict) :
    Except Failure PolicyVerdict := do
  match ← w.budgetCandidate t op with
  | none => return verdict
  | some candidate =>
    let tokens := budgetTokens t candidate
    if tokens > w.settings.coreTokenBudget then
      return { decision := .blocked
               ruleId := "CORE-BUDGET"
               reason := s!"core budget full ({tokens} > {w.settings.coreTokenBudget} tokens); " ++
                 "kept in the archive" }
    else return verdict

/-- The policy context of the whole batch. -/
def context : PolicyContext where
  turnKind := w.turn.kind
  confirmed := w.confirmed
  editedItems := (editedItems w.ops).card
  bulkThreshold := w.settings.bulkThreshold

/-- The verdict an op of the batch gets on the tables as the ops before it left them. -/
def verdict (t : Tables) (op : Op) : Except Failure PolicyVerdict :=
  let about := facts t op (createdItems w.ops)
  let verdict := evaluate about w.context
  if verdict.decision = .allowed ∧ about.coreWrite then w.coreBudget t op verdict
  else .ok verdict

/-- `_proposed_layer`. -/
def proposedLayer (t : Tables) (op : Op) : Layer :=
  match op.body with
  | .createItem _ item .. => if item.inCore then .core else if item.inQuick then .quick else .archive
  | body =>
    if body.promotes then .core
    else
      match body.target with
      | (.item, itemId) => ((t.getItem itemId).map (·.layer)).getD .archive
      | _ => .archive

/-! ## The batch -/

/-- Where a commit stands between two ops. -/
structure Progress where
  tables : Tables
  seq : Nat := 0
  outcomes : List OpOutcome := []
  held : List HeldWriteRecord := []

/-- The name a refused op may be shown under. -/
def refusedTitle (op : Op) : String :=
  match op.body with
  | .createItem _ item .. => if item.sensitivity = .secret then "a secret (not shown)" else op.title
  | _ => op.title

/-- `_refuse`: a log row without content, and a held write if the op waits. -/
def refuse (seqBase i : Nat) (p : Progress) (op : Op) (verdict : PolicyVerdict) : Progress :=
  let seq := p.seq + 1
  let layer := proposedLayer p.tables op
  let row := w.logRow seqBase op seq verdict (target op).1 (target op).2 layer none none none
  if verdict.decision = .held then
    let held : HeldWriteRecord :=
      { id := w.newId i, turnId := w.turn.turnId, ops := [op], ruleId := verdict.ruleId,
        reason := verdict.reason, title := refusedTitle op, layer := layer,
        createdAt := w.turn.now }
    { p with
      seq := seq
      outcomes := p.outcomes ++ [⟨op, verdict, [row], some held.id⟩]
      held := p.held ++ [held] }
  else { p with seq := seq, outcomes := p.outcomes ++ [⟨op, verdict, [row], none⟩] }

/-- An op that can't apply any more. -/
def notApplicable (reason : String) : PolicyVerdict := ⟨.blocked, "NOT-APPLICABLE", reason⟩

/-- One turn of the loop of `_apply_all`. -/
def step (seqBase i : Nat) (p : Progress) (op : Op) : Except Failure Progress := do
  let verdict ← w.verdict p.tables op
  if verdict.decision ≠ .allowed then return w.refuse seqBase i p op verdict
  match w.apply p.tables i { seqBase := seqBase, op := op, seq := p.seq } op.body with
  | .error (.fail failure) => throw failure
  | .error (.skip t reason) =>
    return { p with tables := t, outcomes := p.outcomes ++ [⟨op, notApplicable reason, [], none⟩] }
  | .ok (t, log) =>
    return { p with
             tables := t
             seq := p.seq + log.rows.length
             outcomes := p.outcomes ++ [⟨op, verdict, log.rows, none⟩] }

/-- The loop of `_apply_all`, from the op at position `i` on. -/
def steps (seqBase : Nat) : Nat → Progress → List Op → Except Failure Progress
  | _, p, [] => .ok p
  | i, p, op :: ops => do
    let p ← w.step seqBase i p op
    steps seqBase (i + 1) p ops

/-- The whole batch is held: it edits more items than one turn may. -/
def heldWhole : Bool := !w.confirmed ∧ w.settings.bulkThreshold < (editedItems w.ops).card

/-- `_hold_everything`. -/
def holdEverything (seqBase : Nat) (t : Tables) : Progress :=
  let verdict : PolicyVerdict := ⟨.held, "P-BULK-1", bulkReason w.context⟩
  let held : HeldWriteRecord :=
    { id := w.newId 0, turnId := w.turn.turnId, ops := w.ops, ruleId := verdict.ruleId,
      reason := verdict.reason,
      title := s!"{w.ops.length} changes to {(editedItems w.ops).card} items", layer := .archive,
      createdAt := w.turn.now }
  { tables := t
    seq := w.ops.length
    outcomes := w.ops.zipIdx.map fun e =>
      ⟨e.1, verdict, [w.logRow seqBase e.1 (e.2 + 1) verdict (target e.1).1 (target e.1).2 .archive
        none none none], some held.id⟩
    held := [held] }

/-- `_apply_all`. -/
def applyAll (seqBase : Nat) (t : Tables) : Except Failure Progress :=
  if w.heldWhole then .ok (w.holdEverything seqBase t)
  else w.steps seqBase 0 { tables := t } w.ops

/-- The largest `seq` the turn already has. -/
def seqBase (t : Tables) : Nat :=
  ((t.writeLog.filter (·.turnId = w.turn.turnId)).map (·.seq)).foldl max 0

/-- `_write_versions`: a version for every allowed item row that left a snapshot. -/
def writeVersions (t : Tables) (rows : List WriteLogRecord) : Tables :=
  rows.foldl (fun t row =>
    match row with
    | { targetType := .item, targetId := itemId, after := some snapshot, decision := .allowed, .. } =>
      t.insertVersion ⟨itemId, w.turn.turnId, t.nextVersion w.backend itemId, snapshot⟩
    | _ => t) t

/-- The vocabulary terms of the commit, stored unless they are known. -/
def writeVocab (t : Tables) : Tables :=
  (w.vocab.zipIdx).foldl (fun t term =>
    t.upsertVocab
      { id := w.vocabId term.2, vocab := term.1.1, slug := term.1.2.1, aliases := term.1.2.2 }) t

/-- `commit`: everything in one transaction, or nothing. -/
def commit (t : Tables) : Except Failure (Tables × CommitResult) := do
  let seqBase := w.seqBase t
  let p ← w.applyAll seqBase (w.writeVocab t)
  let rows := p.outcomes.flatMap (·.rows)
  let t := p.tables.insertWriteLog rows
  let t ← p.held.foldlM (fun t held => t.insertHeldWrite w.backend held) t
  return (w.writeVersions t rows, { outcomes := p.outcomes, notes := w.notes, held := p.held })

end Writer
end SecondMind
