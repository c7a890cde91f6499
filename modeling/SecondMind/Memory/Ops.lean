import SecondMind.Memory.Records

/-!
# Operations the memory writer accepts

The ops of `memory/ops.py`.  What every op carries (`title`, `rationale`, `trust`,
`origin`) is in `Op`; what distinguishes the kinds of op is its `body`.  A held write
keeps its ops as JSON, which loads back to the same ops, so here it keeps the ops.
-/

namespace SecondMind

/-- Where an op came from. -/
inductive Origin
  | userMessage | uiEdit | content | system | undo | confirm
  deriving DecidableEq, Repr

structure EntityLink where
  rowId : Uuid
  entityId : Uuid
  role : EntityRole
  deriving DecidableEq

structure NewTrigger where
  triggerId : Uuid
  trigger : TriggerContent
  deriving DecidableEq

/-- What an op does. -/
inductive OpBody
  | createItem (itemId : Uuid) (item : ItemContent) (entities : List EntityLink)
      (triggers : List NewTrigger) (categorySlug categoryName : Option String)
  | updateItem (itemId : Uuid) (changes : ItemChanges)
  | setItemState (itemId : Uuid) (state : String)
  | supersedeItem (oldId newId linkId : Uuid) (validTo : Instant) (state : String)
  | correctItem (oldId newId linkId : Uuid)
  | fulfilIntention (intentionId episodeId linkId : Uuid) (state : String)
  | deleteItem (itemId : Uuid)
  | restoreItem (itemId : Uuid)
  | linkItems (linkId srcId : Uuid) (linkType : LinkType) (dstId : Uuid)
  | unlinkItems (linkId : Uuid)
  | attachEntity (rowId itemId entityId : Uuid) (role : EntityRole)
  | detachEntity (rowId : Uuid)
  | upsertEntity (entityId : Uuid) (entity : EntityContent) (create : Bool)
  | deleteEntity (entityId : Uuid)
  | relateEntities (relationId srcEntityId : Uuid) (relation : String) (dstEntityId : Uuid)
      (validFrom : Option Instant) (evidenceItemId : Option Uuid)
  | unrelateEntities (relationId : Uuid)
  | setTriggerState (triggerId : Uuid) (state : TriggerState)
  | updateTrigger (triggerId : Uuid) (changes : TriggerChanges)
  deriving DecidableEq

/-- An op: what it does, and what every op carries. -/
structure Op where
  title : String := ""
  rationale : String := ""
  trust : Trust := .userStated
  origin : Origin := .userMessage
  body : OpBody
  deriving DecidableEq

/-- `OP_LABELS`: the write-log label of each op. -/
def OpBody.label : OpBody → WriteOp
  | .createItem .. => .create
  | .updateItem .. => .update
  | .setItemState .. => .setState
  | .supersedeItem .. => .supersede
  | .correctItem .. => .correct
  | .fulfilIntention .. => .fulfil
  | .deleteItem .. => .delete
  | .restoreItem .. => .restore
  | .linkItems .. => .link
  | .unlinkItems .. => .unlink
  | .attachEntity .. => .link
  | .detachEntity .. => .unlink
  | .upsertEntity .. => .upsertEntity
  | .deleteEntity .. => .delete
  | .relateEntities .. => .relate
  | .unrelateEntities .. => .unrelate
  | .setTriggerState .. => .setState
  | .updateTrigger .. => .update

def opLabel (op : Op) : WriteOp := op.body.label

/-- `_target`: the row an op is about. -/
def OpBody.target : OpBody → TargetType × Uuid
  | .createItem itemId .. => (.item, itemId)
  | .updateItem itemId _ => (.item, itemId)
  | .setItemState itemId _ => (.item, itemId)
  | .deleteItem itemId => (.item, itemId)
  | .restoreItem itemId => (.item, itemId)
  | .supersedeItem oldId .. => (.item, oldId)
  | .correctItem oldId .. => (.item, oldId)
  | .fulfilIntention intentionId .. => (.item, intentionId)
  | .linkItems linkId .. => (.link, linkId)
  | .unlinkItems linkId => (.link, linkId)
  | .attachEntity rowId .. => (.itemEntity, rowId)
  | .detachEntity rowId => (.itemEntity, rowId)
  | .upsertEntity entityId .. => (.entity, entityId)
  | .deleteEntity entityId => (.entity, entityId)
  | .relateEntities relationId .. => (.relation, relationId)
  | .unrelateEntities relationId => (.relation, relationId)
  | .setTriggerState triggerId _ => (.trigger, triggerId)
  | .updateTrigger triggerId _ => (.trigger, triggerId)

def target (op : Op) : TargetType × Uuid := op.body.target

/-- The op makes an item. -/
def OpBody.isCreate : OpBody → Bool
  | .createItem .. => true
  | _ => false

/-- A write that waits for the person's confirmation. -/
inductive HeldStatus
  | pending | confirmed | rejected
  deriving DecidableEq, Repr

structure HeldWriteRecord where
  id : Uuid
  turnId : Uuid
  ops : List Op
  ruleId : String
  reason : String
  title : String
  layer : Layer
  status : HeldStatus := .pending
  resolvedTurnId : Option Uuid := none
  createdAt : Instant
  resolvedAt : Option Instant := none
  deriving DecidableEq

end SecondMind
