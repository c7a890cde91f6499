import SecondMind.Memory.Ops
import SecondMind.Keyed.Changes
import Mathlib.Data.Prod.Lex
import Mathlib.Data.List.Sort

/-!
# The memory store

One workspace's tables, and the row operations of a transaction.  There are two
adapters behind the port: `memory/adapters/inmemory.py`, whose writes always succeed, and
`memory/adapters/store.py` over the tables of `memory/adapters/tables.py`, whose
constraints make a statement raise.  `Backend` says which one a transaction runs on, and
the operations differ in nothing else that matters here: a taken primary key, a missing
foreign key, a second equal link or an item that fails a `CHECK` raises on `sql` and is
written on `inMemory`.

* `insertItem_eq_ok` and the lemmas like it — a row operation that did not raise met the
  constraints, and has put its row in;
* `replaceItem_eq_ok` and the lemmas like it — the same for a row that is there.
-/

namespace SecondMind

open Keyed

/-- Which adapter serves the store. -/
inductive Backend
  | inMemory | sql
  deriving DecidableEq, Repr

/-- Why a transaction rolls back. -/
inductive Failure
  /-- A `ValueError` of the writer. -/
  | valueError (message : String)
  /-- A record that does not validate. -/
  | validationError (message : String)
  /-- A statement that breaks a table's constraint. -/
  | integrityError (constraint : String)
  /-- A refusal of the service. -/
  | validationFailed (message : String)
  | notFound (message : String)
  deriving DecidableEq, Repr

/-- The six tables the write log speaks about. -/
structure MemoryTables where
  items : KeyTable ItemRecord.id
  entities : KeyTable EntityRecord.id
  itemEntities : KeyTable ItemEntityRecord.id
  links : KeyTable LinkRecord.id
  relations : KeyTable RelationRecord.id
  triggers : KeyTable TriggerRecord.id
  deriving DecidableEq

/-- One workspace's tables.  Search keys and access rows are derived data and
bookkeeping that no writer touches; they are left out. -/
structure Tables extends MemoryTables where
  categories : KeyTable CategoryRecord.slug
  vocab : Table (VocabKind × String) VocabRecord
  writeLog : List WriteLogRecord
  held : KeyTable HeldWriteRecord.id
  versions : List VersionRecord

/-- A workspace before its first turn: nothing but the entity `me`. -/
def Tables.initial (me : Uuid) : Tables where
  items := .empty
  entities := KeyTable.empty.put
    { kind := .self, name := "me", id := me, createdAt := 0, updatedAt := 0,
      createdByTurnId := none, updatedByTurnId := none }
  itemEntities := .empty
  links := .empty
  relations := .empty
  triggers := .empty
  categories := .empty
  vocab := ∅
  writeLog := []
  held := .empty
  versions := []

namespace MemoryTables

/-! ## Reads -/

def getItem (t : MemoryTables) (id : Uuid) : Option ItemRecord := t.items.lookup id

def getEntity (t : MemoryTables) (id : Uuid) : Option EntityRecord := t.entities.lookup id

def getLink (t : MemoryTables) (id : Uuid) : Option LinkRecord := t.links.lookup id

def getItemEntity (t : MemoryTables) (id : Uuid) : Option ItemEntityRecord :=
  t.itemEntities.lookup id

def getRelation (t : MemoryTables) (id : Uuid) : Option RelationRecord := t.relations.lookup id

def getTrigger (t : MemoryTables) (id : Uuid) : Option TriggerRecord := t.triggers.lookup id

/-- Ids ordered by the moment they carry and then by themselves, the newest first. -/
def newestFirst (s : Multiset (Instant ×ₗ Uuid)) : List (Instant ×ₗ Uuid) :=
  Quot.liftOn s (List.insertionSort (· ≥ ·)) fun a b h =>
    ((List.perm_insertionSort _ a).trans (h.trans (List.perm_insertionSort _ b).symm)).eq_of_pairwise
      (fun _ _ _ _ h h' => le_antisymm h' h)
      (List.pairwise_insertionSort _ a) (List.pairwise_insertionSort _ b)

/-- `find_items(in_core=True)`: the active items in core, newest first, cut at the default
limit of 200. -/
def findItemsInCore (t : MemoryTables) : List ItemRecord :=
  let found := t.items.rows.filter fun item => item.status = .active ∧ item.inCore
  ((newestFirst (found.map fun item => toLex (item.createdAt, item.id))).take 200).filterMap
    fun k => t.getItem (ofLex k).2

/-- The item is stored and not deleted. -/
def isLive (t : MemoryTables) (id : Uuid) : Bool :=
  (t.getItem id).any fun item => item.status ≠ .deleted

/-- The item is stored and active. -/
def isActive (t : MemoryTables) (id : Uuid) : Bool :=
  (t.getItem id).any fun item => item.status = .active

/-- The item names the entity, in any role or as its subject. -/
def pointsAt (t : MemoryTables) (id entityId : Uuid) : Bool :=
  (t.getItem id).any (fun item => item.subjectEntityId = some entityId) ||
    decide (∃ r ∈ t.itemEntities.rows, r.entityId = entityId ∧ r.itemId = id)

/-- `entity_items`: the active items that name the entity. -/
def entityItems (t : MemoryTables) (entityId : Uuid) : Finset Uuid :=
  t.items.table.keys.filter fun id => t.isActive id ∧ t.pointsAt id entityId

/-! ## Constraints

What `tables.py` asks of a row, besides the closed vocabularies, which the types already
keep. -/

/-- `entities`: exactly one `self` per workspace. -/
def entityFits (t : MemoryTables) (r : EntityRecord) : Bool :=
  r.kind = .self → ∀ row ∈ t.entities.rows, row.kind = .self → row.id = r.id

/-- `memory_entities`: both ends exist, and the triple is new. -/
def itemEntityFits (t : MemoryTables) (r : ItemEntityRecord) : Bool :=
  (t.items.lookup r.itemId).isSome ∧ (t.entities.lookup r.entityId).isSome ∧
    ∀ row ∈ t.itemEntities.rows,
      ¬ (row.itemId = r.itemId ∧ row.entityId = r.entityId ∧ row.role = r.role)

/-- `memory_links`: both ends exist, and the triple is new. -/
def linkFits (t : MemoryTables) (r : LinkRecord) : Bool :=
  (t.items.lookup r.srcItemId).isSome ∧ (t.items.lookup r.dstItemId).isSome ∧
    ∀ row ∈ t.links.rows, ¬ (row.srcItemId = r.srcItemId ∧ row.linkType = r.linkType ∧
      row.dstItemId = r.dstItemId)

/-- `entity_relations`: both ends and the evidence exist. -/
def relationFits (t : MemoryTables) (r : RelationRecord) : Bool :=
  (t.entities.lookup r.srcEntityId).isSome ∧ (t.entities.lookup r.dstEntityId).isSome ∧
    r.evidenceItemId.all fun i => (t.items.lookup i).isSome

/-- `triggers`: the item exists. -/
def triggerFits (t : MemoryTables) (r : TriggerRecord) : Bool := (t.items.lookup r.itemId).isSome

end MemoryTables

namespace Tables

/-- `memory_items`: the state is one of its kind's, a format is a resource's, and the
subject and the category exist. -/
def itemFits (t : Tables) (r : ItemRecord) : Bool :=
  validState r.kind r.state ∧ (r.format = none ∨ r.kind = .resource) ∧
    r.subjectEntityId.all (fun e => (t.entities.lookup e).isSome) ∧
    r.categoryId.all fun c => decide (∃ row ∈ t.categories.rows, row.id = c)

/-- `write_log`: a turn's rows in `seq` order. -/
def writeLogOf (t : Tables) (turnId : Uuid) : List WriteLogRecord :=
  (t.writeLog.filter (·.turnId = turnId)).insertionSort fun r r' => r.seq ≤ r'.seq

/-- A statement whose result is `t`: on `sql` it raises unless the constraints hold. -/
def statement (b : Backend) (fits : Bool) (table : String) (t : Tables) : Except Failure Tables :=
  if b = .sql ∧ ¬ fits then .error (.integrityError table) else .ok t

/-! ## Writes -/

def insertItem (b : Backend) (t : Tables) (r : ItemRecord) : Except Failure Tables :=
  statement b ((t.items.lookup r.id).isNone ∧ t.itemFits r) "memory_items"
    { t with items := t.items.put r }

/-- The record as it is stored: only retrieval bookkeeping changes the access fields. -/
def keepAccess (t : Tables) (r : ItemRecord) : ItemRecord :=
  match t.items.lookup r.id with
  | none => r
  | some stored =>
    { r with accessCount := stored.accessCount, lastAccessedAt := stored.lastAccessedAt }

theorem keepAccess_of_stored {t : Tables} {r stored : ItemRecord}
    (h : t.getItem r.id = some stored) :
    t.keepAccess r =
      { r with accessCount := stored.accessCount, lastAccessedAt := stored.lastAccessedAt } := by
  rw [MemoryTables.getItem] at h
  rw [keepAccess, h]

/-- An `UPDATE` of a row that is not there changes nothing on `sql`; the dictionary of
`inMemory` takes the row as new. -/
def replaceItem (b : Backend) (t : Tables) (r : ItemRecord) : Except Failure Tables :=
  if b = .sql ∧ (t.items.lookup r.id).isNone then .ok t
  else statement b (t.itemFits r) "memory_items" { t with items := t.items.put (t.keepAccess r) }

def insertEntity (b : Backend) (t : Tables) (r : EntityRecord) : Except Failure Tables :=
  statement b ((t.entities.lookup r.id).isNone ∧ t.entityFits r) "entities"
    { t with entities := t.entities.put r }

def replaceEntity (b : Backend) (t : Tables) (r : EntityRecord) : Except Failure Tables :=
  if b = .sql ∧ (t.entities.lookup r.id).isNone then .ok t
  else statement b (t.entityFits r) "entities" { t with entities := t.entities.put r }

def insertItemEntity (b : Backend) (t : Tables) (r : ItemEntityRecord) : Except Failure Tables :=
  statement b ((t.itemEntities.lookup r.id).isNone ∧ t.itemEntityFits r) "memory_entities"
    { t with itemEntities := t.itemEntities.put r }

def deleteItemEntity (t : Tables) (id : Uuid) : Tables :=
  { t with itemEntities := t.itemEntities.drop id }

def insertLink (b : Backend) (t : Tables) (r : LinkRecord) : Except Failure Tables :=
  statement b ((t.links.lookup r.id).isNone ∧ t.linkFits r) "memory_links"
    { t with links := t.links.put r }

def deleteLink (t : Tables) (id : Uuid) : Tables := { t with links := t.links.drop id }

def insertRelation (b : Backend) (t : Tables) (r : RelationRecord) : Except Failure Tables :=
  statement b ((t.relations.lookup r.id).isNone ∧ t.relationFits r) "entity_relations"
    { t with relations := t.relations.put r }

def deleteRelation (t : Tables) (id : Uuid) : Tables :=
  { t with relations := t.relations.drop id }

def insertTrigger (b : Backend) (t : Tables) (r : TriggerRecord) : Except Failure Tables :=
  statement b ((t.triggers.lookup r.id).isNone ∧ t.triggerFits r) "triggers"
    { t with triggers := t.triggers.put r }

def replaceTrigger (b : Backend) (t : Tables) (r : TriggerRecord) : Except Failure Tables :=
  if b = .sql ∧ (t.triggers.lookup r.id).isNone then .ok t
  else statement b (t.triggerFits r) "triggers" { t with triggers := t.triggers.put r }

/-- Insert unless the slug exists; the stored row either way. -/
def upsertCategory (t : Tables) (r : CategoryRecord) : Tables × CategoryRecord :=
  match t.categories.lookup r.slug with
  | some stored => (t, stored)
  | none => ({ t with categories := t.categories.put r }, r)

def upsertVocab (t : Tables) (r : VocabRecord) : Tables :=
  match t.vocab.lookup (r.vocab, r.slug) with
  | some _ => t
  | none => { t with vocab := t.vocab.put (r.vocab, r.slug) r }

def insertWriteLog (t : Tables) (rows : List WriteLogRecord) : Tables :=
  { t with writeLog := t.writeLog ++ rows }

def insertHeldWrite (b : Backend) (t : Tables) (r : HeldWriteRecord) : Except Failure Tables :=
  statement b (t.held.lookup r.id).isNone "held_writes" { t with held := t.held.put r }

/-- Set a held write's status, whatever it was. -/
def resolveHeldWrite (t : Tables) (id : Uuid) (status : HeldStatus) (turnId : Option Uuid)
    (at_ : Instant) : Tables :=
  match t.held.lookup id with
  | none => t
  | some h =>
    let h := { h with status := status, resolvedTurnId := turnId, resolvedAt := some at_ }
    { t with held := t.held.put h }

/-- The number the item's next version gets: one more than the largest on `sql`, one more
than the count on `inMemory`. -/
def nextVersion (b : Backend) (t : Tables) (itemId : Uuid) : Nat :=
  let own := t.versions.filter (·.itemId = itemId)
  match b with
  | .sql => (own.map (·.version)).foldl max 0 + 1
  | .inMemory => 1 + own.length

def insertVersion (t : Tables) (r : VersionRecord) : Tables :=
  { t with versions := t.versions ++ [r] }

/-- `record_access`: retrieval bumps the access counters of the items it found, and nothing
else of them. -/
def recordAccess (t : Tables) (at_ : Instant) (ids : List Uuid) : Tables :=
  ids.foldl (fun t id =>
    match t.items.lookup id with
    | none => t
    | some item =>
      let item :=
        { item with accessCount := item.accessCount + 1, lastAccessedAt := some at_ }
      { t with items := t.items.put item }) t

/-! ## What a row operation that did not raise has done -/

section

variable {b : Backend} {t t' : Tables}

theorem statement_eq_ok {fits : Bool} {table : String} {u : Tables} :
    statement b fits table u = .ok t' ↔ (b = .sql → fits = true) ∧ t' = u := by
  unfold statement
  split
  · rename_i h
    simp [h]
  · rename_i h
    simp only [not_and, Decidable.not_not] at h
    constructor
    · intro e
      cases e
      exact ⟨h, rfl⟩
    · rintro ⟨_, rfl⟩
      rfl

theorem insertItem_eq_ok {r : ItemRecord} :
    t.insertItem b r = .ok t' ↔
      (b = .sql → t.getItem r.id = none ∧ t.itemFits r = true) ∧
        t' = { t with items := t.items.put r } := by
  simp [insertItem, statement_eq_ok, MemoryTables.getItem]

theorem replaceItem_eq_ok {r : ItemRecord} (h : (t.getItem r.id).isSome) :
    t.replaceItem b r = .ok t' ↔
      (b = .sql → t.itemFits r = true) ∧ t' = { t with items := t.items.put (t.keepAccess r) } := by
  obtain ⟨old, hold⟩ := Option.isSome_iff_exists.1 h
  rw [MemoryTables.getItem] at hold
  rw [replaceItem, if_neg (by simp [hold]), statement_eq_ok]

theorem insertEntity_eq_ok {r : EntityRecord} :
    t.insertEntity b r = .ok t' ↔
      (b = .sql → t.getEntity r.id = none ∧ t.entityFits r = true) ∧
        t' = { t with entities := t.entities.put r } := by
  simp [insertEntity, statement_eq_ok, MemoryTables.getEntity]

theorem replaceEntity_eq_ok {r : EntityRecord} (h : (t.getEntity r.id).isSome) :
    t.replaceEntity b r = .ok t' ↔
      (b = .sql → t.entityFits r = true) ∧ t' = { t with entities := t.entities.put r } := by
  obtain ⟨old, hold⟩ := Option.isSome_iff_exists.1 h
  rw [MemoryTables.getEntity] at hold
  rw [replaceEntity, if_neg (by simp [hold]), statement_eq_ok]

theorem insertItemEntity_eq_ok {r : ItemEntityRecord} :
    t.insertItemEntity b r = .ok t' ↔
      (b = .sql → t.getItemEntity r.id = none ∧ t.itemEntityFits r = true) ∧
        t' = { t with itemEntities := t.itemEntities.put r } := by
  simp [insertItemEntity, statement_eq_ok, MemoryTables.getItemEntity]

theorem insertLink_eq_ok {r : LinkRecord} :
    t.insertLink b r = .ok t' ↔
      (b = .sql → t.getLink r.id = none ∧ t.linkFits r = true) ∧
        t' = { t with links := t.links.put r } := by
  simp [insertLink, statement_eq_ok, MemoryTables.getLink]

theorem insertRelation_eq_ok {r : RelationRecord} :
    t.insertRelation b r = .ok t' ↔
      (b = .sql → t.getRelation r.id = none ∧ t.relationFits r = true) ∧
        t' = { t with relations := t.relations.put r } := by
  simp [insertRelation, statement_eq_ok, MemoryTables.getRelation]

theorem insertTrigger_eq_ok {r : TriggerRecord} :
    t.insertTrigger b r = .ok t' ↔
      (b = .sql → t.getTrigger r.id = none ∧ t.triggerFits r = true) ∧
        t' = { t with triggers := t.triggers.put r } := by
  simp [insertTrigger, statement_eq_ok, MemoryTables.getTrigger]

theorem replaceTrigger_eq_ok {r : TriggerRecord} (h : (t.getTrigger r.id).isSome) :
    t.replaceTrigger b r = .ok t' ↔
      (b = .sql → t.triggerFits r = true) ∧ t' = { t with triggers := t.triggers.put r } := by
  obtain ⟨old, hold⟩ := Option.isSome_iff_exists.1 h
  rw [MemoryTables.getTrigger] at hold
  rw [replaceTrigger, if_neg (by simp [hold]), statement_eq_ok]

/-- Nothing happened but that the category table may have grown. -/
structure Aside (t t' : Tables) : Prop where
  memory : t'.toMemoryTables = t.toMemoryTables
  categories : ∀ row ∈ t.categories.rows, row ∈ t'.categories.rows
  vocab : t'.vocab = t.vocab
  writeLog : t'.writeLog = t.writeLog
  held : t'.held = t.held
  versions : t'.versions = t.versions

theorem Aside.refl (t : Tables) : Aside t t := ⟨rfl, fun _ h => h, rfl, rfl, rfl, rfl⟩

theorem aside_upsertCategory (t : Tables) (c : CategoryRecord) :
    Aside t (t.upsertCategory c).1 := by
  unfold upsertCategory
  split
  · exact .refl t
  · rename_i hnone
    refine ⟨rfl, fun row hrow => ?_, rfl, rfl, rfl, rfl⟩
    rw [KeyTable.rows_put hnone]
    exact Multiset.mem_cons_of_mem hrow

end

end Tables
end SecondMind
