import SecondMind.Core.Json
import SecondMind.Core.MemoryModel
import Mathlib.Algebra.Order.Ring.Rat

/-!
# Stored shapes of memory rows

The records of `memory/records.py`.  A store is bound to one workspace, so the
`workspace_id` every row repeats is left out.  A change to an item arrives as a
dictionary from field names to new values: `ItemChanges` holds, for each field, the new
value if the dictionary names it, and `ItemContent.diff` is the dictionary that turns one
content back into another.

* `ItemChanges.apply_diff` — applying the difference gives the content back, up to the
  access counters, which only retrieval bookkeeping changes.
-/

namespace SecondMind

/-- A row id. -/
abbrev Uuid := Nat

/-- A moment, in microseconds. -/
abbrev Instant := Int

/-- A confidence between 0 and 1. -/
abbrev Confidence := { q : Rat // 0 ≤ q ∧ q ≤ 1 }

instance : One Confidence := ⟨⟨1, by decide⟩⟩

/-- A sentiment between -2 and 2. -/
abbrev Sentiment := { n : Int // -2 ≤ n ∧ n ≤ 2 }

/-- An importance between 1 and 5. -/
abbrev Importance := { n : Nat // 1 ≤ n ∧ n ≤ 5 }

theorem three_isImportance : 1 ≤ 3 ∧ 3 ≤ 5 := by decide

/-! ## Items -/

/-- Everything about a memory item that the writer may set or change. -/
structure ItemContent where
  status : ItemStatus := .active
  source : Source := .userMessage
  trust : Trust := .userStated
  rawContent : Option String := none
  contentRef : Option String := none
  kind : Kind
  subtype : Option String := none
  format : Option ResourceFormat := none
  state : String
  text : String
  title : String
  summary : Option String := none
  categoryId : Option Uuid := none
  tags : List String := []
  attributes : Json := .obj []
  enrichment : Json := .obj []
  rationale : Option String := none
  subjectEntityId : Option Uuid := none
  predicate : Option String := none
  value : Option Json := none
  mentionedAt : Instant
  occurredStart : Option Instant := none
  occurredEnd : Option Instant := none
  timePrecision : Option TimePrecision := none
  rrule : Option String := none
  dueAt : Option Instant := none
  validFrom : Option Instant := none
  validTo : Option Instant := none
  modality : Modality := .asserted
  confidence : Confidence := 1
  sentiment : Option Sentiment := none
  rating : Option (List (String × Rat)) := none
  sensitivity : Sensitivity := .normal
  importance : Importance := ⟨3, three_isImportance⟩
  accessCount : Int := 0
  lastAccessedAt : Option Instant := none
  inCore : Bool := false
  coreConfirmedAt : Option Instant := none
  inQuick : Bool := false
  quickReason : Option String := none
  quickUntil : Option Instant := none
  deriving DecidableEq

/-- A stored item. -/
structure ItemRecord extends ItemContent where
  id : Uuid
  createdAt : Instant
  updatedAt : Instant
  createdByTurnId : Uuid
  updatedByTurnId : Uuid
  deriving DecidableEq

/-- The layer an item sits in, read off its two flags. -/
def ItemRecord.layer (i : ItemRecord) : Layer :=
  if i.inCore then .core else if i.inQuick then .quick else .archive

/-- A dictionary of changes to an item: the new value of every field it names.
`categorySlug` is the writer's own key for re-filing, and `unknown` lists the keys that
are no item field. -/
structure ItemChanges where
  status : Option ItemStatus := none
  source : Option Source := none
  trust : Option Trust := none
  rawContent : Option (Option String) := none
  contentRef : Option (Option String) := none
  kind : Option Kind := none
  subtype : Option (Option String) := none
  format : Option (Option ResourceFormat) := none
  state : Option String := none
  text : Option String := none
  title : Option String := none
  summary : Option (Option String) := none
  categoryId : Option (Option Uuid) := none
  tags : Option (List String) := none
  attributes : Option Json := none
  enrichment : Option Json := none
  rationale : Option (Option String) := none
  subjectEntityId : Option (Option Uuid) := none
  predicate : Option (Option String) := none
  value : Option (Option Json) := none
  mentionedAt : Option Instant := none
  occurredStart : Option (Option Instant) := none
  occurredEnd : Option (Option Instant) := none
  timePrecision : Option (Option TimePrecision) := none
  rrule : Option (Option String) := none
  dueAt : Option (Option Instant) := none
  validFrom : Option (Option Instant) := none
  validTo : Option (Option Instant) := none
  modality : Option Modality := none
  confidence : Option Confidence := none
  sentiment : Option (Option Sentiment) := none
  rating : Option (Option (List (String × Rat))) := none
  sensitivity : Option Sensitivity := none
  importance : Option Importance := none
  accessCount : Option Int := none
  lastAccessedAt : Option (Option Instant) := none
  inCore : Option Bool := none
  coreConfirmedAt : Option (Option Instant) := none
  inQuick : Option Bool := none
  quickReason : Option (Option String) := none
  quickUntil : Option (Option Instant) := none
  categorySlug : Option String := none
  unknown : List String := []
  deriving DecidableEq

namespace ItemChanges

/-- The content with every named field set to its new value. -/
def apply (ch : ItemChanges) (c : ItemContent) : ItemContent where
  status := ch.status.getD c.status
  source := ch.source.getD c.source
  trust := ch.trust.getD c.trust
  rawContent := ch.rawContent.getD c.rawContent
  contentRef := ch.contentRef.getD c.contentRef
  kind := ch.kind.getD c.kind
  subtype := ch.subtype.getD c.subtype
  format := ch.format.getD c.format
  state := ch.state.getD c.state
  text := ch.text.getD c.text
  title := ch.title.getD c.title
  summary := ch.summary.getD c.summary
  categoryId := ch.categoryId.getD c.categoryId
  tags := ch.tags.getD c.tags
  attributes := ch.attributes.getD c.attributes
  enrichment := ch.enrichment.getD c.enrichment
  rationale := ch.rationale.getD c.rationale
  subjectEntityId := ch.subjectEntityId.getD c.subjectEntityId
  predicate := ch.predicate.getD c.predicate
  value := ch.value.getD c.value
  mentionedAt := ch.mentionedAt.getD c.mentionedAt
  occurredStart := ch.occurredStart.getD c.occurredStart
  occurredEnd := ch.occurredEnd.getD c.occurredEnd
  timePrecision := ch.timePrecision.getD c.timePrecision
  rrule := ch.rrule.getD c.rrule
  dueAt := ch.dueAt.getD c.dueAt
  validFrom := ch.validFrom.getD c.validFrom
  validTo := ch.validTo.getD c.validTo
  modality := ch.modality.getD c.modality
  confidence := ch.confidence.getD c.confidence
  sentiment := ch.sentiment.getD c.sentiment
  rating := ch.rating.getD c.rating
  sensitivity := ch.sensitivity.getD c.sensitivity
  importance := ch.importance.getD c.importance
  accessCount := ch.accessCount.getD c.accessCount
  lastAccessedAt := ch.lastAccessedAt.getD c.lastAccessedAt
  inCore := ch.inCore.getD c.inCore
  coreConfirmedAt := ch.coreConfirmedAt.getD c.coreConfirmedAt
  inQuick := ch.inQuick.getD c.inQuick
  quickReason := ch.quickReason.getD c.quickReason
  quickUntil := ch.quickUntil.getD c.quickUntil

/-- The dictionary names no field. -/
def isEmpty (ch : ItemChanges) : Bool := ch = {}

/-- Every key of the dictionary is one of `QUICK_FIELDS`, the fields that only place an
item in the quick layer. -/
def onlyQuick (ch : ItemChanges) : Bool :=
  { ch with inQuick := none, quickReason := none, quickUntil := none } = {}

/-- Every key of the dictionary is a title, a summary or tags. -/
def onlyPage (ch : ItemChanges) : Bool :=
  { ch with title := none, summary := none, tags := none } = {}

end ItemChanges

namespace ItemContent

/-- A field's value before, when it differs from the value after. -/
def changed {α : Type} [DecidableEq α] (before after : α) : Option α :=
  if before = after then none else some before

/-- The fields whose value before differs from the value after, with the value before.
The access counters are not among them. -/
def diff (before after : ItemContent) : ItemChanges where
  status := changed before.status after.status
  source := changed before.source after.source
  trust := changed before.trust after.trust
  rawContent := changed before.rawContent after.rawContent
  contentRef := changed before.contentRef after.contentRef
  kind := changed before.kind after.kind
  subtype := changed before.subtype after.subtype
  format := changed before.format after.format
  state := changed before.state after.state
  text := changed before.text after.text
  title := changed before.title after.title
  summary := changed before.summary after.summary
  categoryId := changed before.categoryId after.categoryId
  tags := changed before.tags after.tags
  attributes := changed before.attributes after.attributes
  enrichment := changed before.enrichment after.enrichment
  rationale := changed before.rationale after.rationale
  subjectEntityId := changed before.subjectEntityId after.subjectEntityId
  predicate := changed before.predicate after.predicate
  value := changed before.value after.value
  mentionedAt := changed before.mentionedAt after.mentionedAt
  occurredStart := changed before.occurredStart after.occurredStart
  occurredEnd := changed before.occurredEnd after.occurredEnd
  timePrecision := changed before.timePrecision after.timePrecision
  rrule := changed before.rrule after.rrule
  dueAt := changed before.dueAt after.dueAt
  validFrom := changed before.validFrom after.validFrom
  validTo := changed before.validTo after.validTo
  modality := changed before.modality after.modality
  confidence := changed before.confidence after.confidence
  sentiment := changed before.sentiment after.sentiment
  rating := changed before.rating after.rating
  sensitivity := changed before.sensitivity after.sensitivity
  importance := changed before.importance after.importance
  inCore := changed before.inCore after.inCore
  coreConfirmedAt := changed before.coreConfirmedAt after.coreConfirmedAt
  inQuick := changed before.inQuick after.inQuick
  quickReason := changed before.quickReason after.quickReason
  quickUntil := changed before.quickUntil after.quickUntil

/-- The content with the access counters set to their defaults, to compare contents
without them. -/
def eraseAccess (c : ItemContent) : ItemContent :=
  { c with accessCount := 0, lastAccessedAt := none }

@[simp] theorem getD_changed {α : Type} [DecidableEq α] (before after : α) :
    (changed before after).getD after = before := by
  unfold changed
  split
  · rename_i h; exact h.symm
  · rfl

end ItemContent

namespace ItemChanges

/-- What a dictionary of changes makes of a content depends on its access counters only
in the access counters. -/
theorem apply_eraseAccess (ch : ItemChanges) (c : ItemContent) :
    (ch.apply c.eraseAccess).eraseAccess = (ch.apply c).eraseAccess := rfl

theorem apply_diff_self (before after : ItemContent) :
    ((before.diff after).apply after).eraseAccess = before.eraseAccess := by
  simp [apply, ItemContent.diff, ItemContent.eraseAccess]

/-- **The difference takes a change back.**  Applied to the content after the change, up
to the access counters, it gives the content before it, up to the access counters. -/
theorem apply_diff {before after c : ItemContent} (h : c.eraseAccess = after.eraseAccess) :
    ((before.diff after).apply c).eraseAccess = before.eraseAccess := by
  rw [← apply_eraseAccess, h, apply_eraseAccess, apply_diff_self]

/-- An empty dictionary changes nothing. -/
theorem apply_of_isEmpty {ch : ItemChanges} (h : ch.isEmpty = true) (c : ItemContent) :
    ch.apply c = c := by
  rw [isEmpty, decide_eq_true_eq] at h
  subst h
  rfl

end ItemChanges

/-! ## Entities -/

structure EntityContent where
  kind : EntityKind
  name : String
  aliases : List String := []
  labels : List String := []
  isKey : Bool := false
  attributes : Json := .obj []
  summary : Option String := none
  summaryUpdatedAt : Option Instant := none
  status : EntityStatus := .active
  deriving DecidableEq

structure EntityRecord extends EntityContent where
  id : Uuid
  createdAt : Instant
  updatedAt : Instant
  createdByTurnId : Option Uuid
  updatedByTurnId : Option Uuid
  deriving DecidableEq

/-! ## Links, entity rows and relations -/

structure ItemEntityRecord where
  id : Uuid
  itemId : Uuid
  entityId : Uuid
  role : EntityRole
  createdByTurnId : Uuid
  deriving DecidableEq

structure LinkRecord where
  id : Uuid
  srcItemId : Uuid
  linkType : LinkType
  dstItemId : Uuid
  createdByTurnId : Uuid
  deriving DecidableEq

structure RelationRecord where
  id : Uuid
  srcEntityId : Uuid
  relation : String
  dstEntityId : Uuid
  validFrom : Option Instant := none
  validTo : Option Instant := none
  evidenceItemId : Option Uuid := none
  createdByTurnId : Uuid
  deriving DecidableEq

/-! ## Triggers -/

structure TriggerContent where
  on : TriggerOn := .time
  spec : Json := .obj []
  firesAt : Option Instant := none
  state : TriggerState := .pending
  expiresAt : Option Instant := none
  deriving DecidableEq

structure TriggerRecord extends TriggerContent where
  id : Uuid
  itemId : Uuid
  createdAt : Instant
  updatedAt : Instant
  createdByTurnId : Uuid
  updatedByTurnId : Uuid
  deriving DecidableEq

/-- A dictionary of changes to a trigger.  Every field of the record may be named, its id
included, except the two stamps the writer overwrites; `unknown` lists the keys that are
no field of the record. -/
structure TriggerChanges where
  on : Option TriggerOn := none
  spec : Option Json := none
  firesAt : Option (Option Instant) := none
  state : Option TriggerState := none
  expiresAt : Option (Option Instant) := none
  id : Option Uuid := none
  itemId : Option Uuid := none
  createdAt : Option Instant := none
  createdByTurnId : Option Uuid := none
  unknown : List String := []
  deriving DecidableEq

/-- The record with every named field set to its new value. -/
def TriggerChanges.apply (ch : TriggerChanges) (r : TriggerRecord) : TriggerRecord :=
  { r with
    on := ch.on.getD r.on
    spec := ch.spec.getD r.spec
    firesAt := ch.firesAt.getD r.firesAt
    state := ch.state.getD r.state
    expiresAt := ch.expiresAt.getD r.expiresAt
    id := ch.id.getD r.id
    itemId := ch.itemId.getD r.itemId
    createdAt := ch.createdAt.getD r.createdAt
    createdByTurnId := ch.createdByTurnId.getD r.createdByTurnId }

def TriggerChanges.isEmpty (ch : TriggerChanges) : Bool := ch = {}

/-- The fields of `TriggerContent` whose value before differs from the value after, with
the value before. -/
def TriggerContent.diff (before after : TriggerContent) : TriggerChanges where
  on := ItemContent.changed before.on after.on
  spec := ItemContent.changed before.spec after.spec
  firesAt := ItemContent.changed before.firesAt after.firesAt
  state := ItemContent.changed before.state after.state
  expiresAt := ItemContent.changed before.expiresAt after.expiresAt

/-! ## Categories and vocabulary -/

structure CategoryRecord where
  id : Uuid
  slug : String
  displayName : String
  aliases : List String := []
  deriving DecidableEq

structure VocabRecord where
  id : Uuid
  vocab : VocabKind
  slug : String
  aliases : List String := []
  deriving DecidableEq

/-! ## The write log -/

/-- The row type of each table the write log speaks about. -/
@[reducible] def TargetType.Record : TargetType → Type
  | .item => ItemRecord
  | .entity => EntityRecord
  | .trigger => TriggerRecord
  | .link => LinkRecord
  | .itemEntity => ItemEntityRecord
  | .relation => RelationRecord

/-- One primitive change (or a refused one) made by a turn.  `before` and `after` are
snapshots of the row under `targetId`. -/
structure WriteLogRecord where
  turnId : Uuid
  seq : Nat
  op : WriteOp
  targetType : TargetType
  targetId : Uuid
  layer : Layer
  title : String
  before : Option targetType.Record := none
  after : Option targetType.Record := none
  rationale : String := ""
  trust : Trust := .userStated
  decision : PolicyDecision
  ruleId : String
  reason : String := ""

/-- An item version: the snapshot a logged change left. -/
structure VersionRecord where
  itemId : Uuid
  turnId : Uuid
  version : Nat
  snapshot : ItemRecord
  deriving DecidableEq

end SecondMind
