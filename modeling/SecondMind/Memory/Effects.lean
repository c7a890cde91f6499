import SecondMind.Memory.Appliers

/-!
# What one op does to the tables

Every op is a short sequence of row writes, each with one log row.  `RowStep` says what one
row write of a turn can be and what it does to the tables; `Does` strings them together,
with the log rows as the writer adds them.

* `Writer.apply_does` — an op that applies does a sequence of row writes, and has logged
  exactly those;
* `db_putItem` and the lemmas like it — what a row write is on the six tables taken as one
  database.
-/

namespace SecondMind

open Keyed

/-! ## The six tables as one database -/

/-- A row write, with its images as the writer logs them. -/
abbrev RowChange := Change TargetType Uuid TargetType.Record

def ItemRecord.eraseAccess (r : ItemRecord) : ItemRecord :=
  { r with accessCount := 0, lastAccessedAt := none }

/-- The row without what only retrieval bookkeeping changes. -/
def eraseAccess : (a : TargetType) → a.Record → a.Record
  | .item, r => r.eraseAccess
  | .entity, r => r
  | .trigger, r => r
  | .link, r => r
  | .itemEntity, r => r
  | .relation, r => r

/-- The id a row carries. -/
def rowId : (a : TargetType) → a.Record → Uuid
  | .item, r => r.id
  | .entity, r => r.id
  | .trigger, r => r.id
  | .link, r => r.id
  | .itemEntity, r => r.id
  | .relation, r => r.id

namespace MemoryTables

/-- The table of each target type. -/
def table (t : MemoryTables) : (a : TargetType) → Table Uuid a.Record
  | .item => t.items.table
  | .entity => t.entities.table
  | .trigger => t.triggers.table
  | .link => t.links.table
  | .itemEntity => t.itemEntities.table
  | .relation => t.relations.table

/-- The six tables as one database, the access counters set aside. -/
def db (t : MemoryTables) : Db TargetType Uuid TargetType.Record :=
  fun a => (t.table a).mapRows (SecondMind.eraseAccess a)

theorem db_at (t : MemoryTables) (a : TargetType) (i : Uuid) :
    t.db.at a i = ((t.table a).lookup i).map (SecondMind.eraseAccess a) :=
  Table.lookup_mapRows _ _ _

/-- The row under an id carries that id. -/
theorem rowId_of_lookup (t : MemoryTables) {a : TargetType} {i : Uuid} {r : a.Record}
    (h : (t.table a).lookup i = some r) : rowId a r = i := by
  cases a with
  | item => exact t.items.keyed i r h
  | entity => exact t.entities.keyed i r h
  | trigger => exact t.triggers.keyed i r h
  | link => exact t.links.keyed i r h
  | itemEntity => exact t.itemEntities.keyed i r h
  | relation => exact t.relations.keyed i r h

/-- Changing one table writes one row of the database. -/
theorem db_write {t u : MemoryTables} (a : TargetType) (i : Uuid) (r : Option a.Record)
    (ha : u.table a = (t.table a).write i r) (h : ∀ b, b ≠ a → u.table b = t.table b) :
    u.db = t.db.write a i (r.map (SecondMind.eraseAccess a)) := by
  funext b
  by_cases hb : b = a
  · subst hb
    rw [db, ha, Table.mapRows_write, Db.write, Function.update_self]
    rfl
  · rw [Db.write, Function.update_of_ne hb, db, h b hb]
    rfl

/-- Putting a row in, or taking one out, writes one row of the database. -/
theorem db_putItem (t : MemoryTables) (r : ItemRecord) :
    { t with items := t.items.put r }.db = t.db.write .item r.id (some r.eraseAccess) :=
  db_write .item r.id (some r) rfl fun b hb => by
    cases b <;> first | rfl | exact absurd rfl hb

theorem db_putEntity (t : MemoryTables) (r : EntityRecord) :
    { t with entities := t.entities.put r }.db = t.db.write .entity r.id (some r) :=
  db_write .entity r.id (some r) rfl fun b hb => by
    cases b <;> first | rfl | exact absurd rfl hb

theorem db_putTrigger (t : MemoryTables) (r : TriggerRecord) :
    { t with triggers := t.triggers.put r }.db = t.db.write .trigger r.id (some r) :=
  db_write .trigger r.id (some r) rfl fun b hb => by
    cases b <;> first | rfl | exact absurd rfl hb

theorem db_putLink (t : MemoryTables) (r : LinkRecord) :
    { t with links := t.links.put r }.db = t.db.write .link r.id (some r) :=
  db_write .link r.id (some r) rfl fun b hb => by
    cases b <;> first | rfl | exact absurd rfl hb

theorem db_dropLink (t : MemoryTables) (i : Uuid) :
    { t with links := t.links.drop i }.db = t.db.write .link i none :=
  db_write .link i none rfl fun b hb => by
    cases b <;> first | rfl | exact absurd rfl hb

theorem db_putItemEntity (t : MemoryTables) (r : ItemEntityRecord) :
    { t with itemEntities := t.itemEntities.put r }.db = t.db.write .itemEntity r.id (some r) :=
  db_write .itemEntity r.id (some r) rfl fun b hb => by
    cases b <;> first | rfl | exact absurd rfl hb

theorem db_dropItemEntity (t : MemoryTables) (i : Uuid) :
    { t with itemEntities := t.itemEntities.drop i }.db = t.db.write .itemEntity i none :=
  db_write .itemEntity i none rfl fun b hb => by
    cases b <;> first | rfl | exact absurd rfl hb

theorem db_putRelation (t : MemoryTables) (r : RelationRecord) :
    { t with relations := t.relations.put r }.db = t.db.write .relation r.id (some r) :=
  db_write .relation r.id (some r) rfl fun b hb => by
    cases b <;> first | rfl | exact absurd rfl hb

theorem db_dropRelation (t : MemoryTables) (i : Uuid) :
    { t with relations := t.relations.drop i }.db = t.db.write .relation i none :=
  db_write .relation i none rfl fun b hb => by
    cases b <;> first | rfl | exact absurd rfl hb

end MemoryTables

/-- Storing an item keeps its access counters as they are. -/
theorem eraseAccess_keepAccess (t : Tables) (r : ItemRecord) :
    (t.keepAccess r).eraseAccess = r.eraseAccess := by
  unfold Tables.keepAccess
  split <;> rfl

@[simp] theorem id_keepAccess (t : Tables) (r : ItemRecord) : (t.keepAccess r).id = r.id := by
  unfold Tables.keepAccess
  split <;> rfl

theorem db_storeItem (t : Tables) (r : ItemRecord) :
    ({ t with items := t.items.put (t.keepAccess r) } : Tables).db
      = t.db.write .item r.id (some r.eraseAccess) := by
  rw [← eraseAccess_keepAccess t r, ← id_keepAccess t r]
  exact t.toMemoryTables.db_putItem _

/-! ## One row write -/

/-- The rows of a log as row writes. -/
def WriteLogRecord.change (row : WriteLogRecord) : RowChange :=
  ⟨row.targetType, row.targetId, row.before, row.after⟩

/-- One row write of a turn: `RowStep b turn t c t'` says that `c` is logged and leads from
`t` to `t'`.  What a store on `sql` checks is part of it. -/
inductive RowStep (b : Backend) (turn : Uuid) : Tables → RowChange → Tables → Prop
  | newItem {t : Tables} {r : ItemRecord} (free : t.getItem r.id = none)
      (made : r.createdByTurnId = turn) (stamp : r.updatedByTurnId = turn)
      (valid : validState r.kind r.state = true) (fits : b = .sql → t.itemFits r = true) :
      RowStep b turn t ⟨.item, r.id, none, some r⟩ { t with items := t.items.put r }
  | editItem {t : Tables} {before after : ItemRecord} (stored : t.getItem before.id = some before)
      (sameId : after.id = before.id) (sameTime : after.createdAt = before.createdAt)
      (made : after.createdByTurnId = before.createdByTurnId) (stamp : after.updatedByTurnId = turn)
      (valid : validState after.kind after.state = true)
      (fits : b = .sql → t.itemFits after = true) :
      RowStep b turn t ⟨.item, before.id, some before, some after⟩
        { t with items := t.items.put (t.keepAccess after) }
  | newEntity {t : Tables} {r : EntityRecord} (free : t.getEntity r.id = none)
      (made : r.createdByTurnId = some turn) (stamp : r.updatedByTurnId = some turn)
      (fits : b = .sql → t.entityFits r = true) :
      RowStep b turn t ⟨.entity, r.id, none, some r⟩ { t with entities := t.entities.put r }
  | editEntity {t : Tables} {before after : EntityRecord}
      (stored : t.getEntity before.id = some before) (sameId : after.id = before.id)
      (sameTime : after.createdAt = before.createdAt)
      (made : after.createdByTurnId = before.createdByTurnId)
      (stamp : after.updatedByTurnId = some turn) (fits : b = .sql → t.entityFits after = true) :
      RowStep b turn t ⟨.entity, before.id, some before, some after⟩
        { t with entities := t.entities.put after }
  | newItemEntity {t : Tables} {r : ItemEntityRecord} (made : r.createdByTurnId = turn)
      (stored : (t.getItem r.itemId).isSome)
      (fits : b = .sql → t.getItemEntity r.id = none ∧ t.itemEntityFits r = true) :
      RowStep b turn t ⟨.itemEntity, r.id, none, some r⟩
        { t with itemEntities := t.itemEntities.put r }
  | dropItemEntity {t : Tables} {r : ItemEntityRecord} (stored : t.getItemEntity r.id = some r) :
      RowStep b turn t ⟨.itemEntity, r.id, some r, none⟩ (t.deleteItemEntity r.id)
  | newLink {t : Tables} {r : LinkRecord} (made : r.createdByTurnId = turn)
      (src : t.isLive r.srcItemId = true) (dst : t.isLive r.dstItemId = true)
      (fits : b = .sql → t.getLink r.id = none ∧ t.linkFits r = true) :
      RowStep b turn t ⟨.link, r.id, none, some r⟩ { t with links := t.links.put r }
  | dropLink {t : Tables} {r : LinkRecord} (stored : t.getLink r.id = some r) :
      RowStep b turn t ⟨.link, r.id, some r, none⟩ (t.deleteLink r.id)
  | newRelation {t : Tables} {r : RelationRecord} (made : r.createdByTurnId = turn)
      (openEnded : r.validTo = none)
      (fits : b = .sql → t.getRelation r.id = none ∧ t.relationFits r = true) :
      RowStep b turn t ⟨.relation, r.id, none, some r⟩ { t with relations := t.relations.put r }
  | dropRelation {t : Tables} {r : RelationRecord} (stored : t.getRelation r.id = some r) :
      RowStep b turn t ⟨.relation, r.id, some r, none⟩ (t.deleteRelation r.id)
  | newTrigger {t : Tables} {r : TriggerRecord} (made : r.createdByTurnId = turn)
      (stamp : r.updatedByTurnId = turn) (stored : (t.getItem r.itemId).isSome)
      (fits : b = .sql → t.getTrigger r.id = none ∧ t.triggerFits r = true) :
      RowStep b turn t ⟨.trigger, r.id, none, some r⟩ { t with triggers := t.triggers.put r }
  | editTrigger {t t' : Tables} {before after : TriggerRecord}
      (stored : t.getTrigger before.id = some before) (stamp : after.updatedByTurnId = turn)
      (written : t.replaceTrigger b after = .ok t') :
      RowStep b turn t ⟨.trigger, before.id, some before, some after⟩ t'

/-! ## The row writes of one op -/

namespace Writer

variable {w : Writer}

/-- A sequence of row writes of a writer, each with its log row: `Does w (t, log) (t', log')`.
Between two row writes the category table may grow. -/
inductive Does (w : Writer) : Tables × RowLog → Tables × RowLog → Prop
  | refl (x : Tables × RowLog) : Does w x x
  | aside {x : Tables × RowLog} {t t' : Tables} {log : RowLog} (h : Does w x (t, log))
      (same : t.Aside t') : Does w x (t', log)
  | row {x : Tables × RowLog} {t t' : Tables} {log : RowLog} {c : RowChange}
      (h : Does w x (t, log)) (step : RowStep w.backend w.turn.turnId t c t') (layer : Layer)
      (label : Option WriteOp) :
      Does w x (t', w.add log c.table c.id c.before c.after layer label)

theorem Does.trans {x y z : Tables × RowLog} (h : Does w x y) (h' : Does w y z) : Does w x z := by
  induction h' with
  | refl => exact h
  | aside _ same ih => exact ih.aside same
  | row _ step layer label ih => exact ih.row step layer label

/-! ### Each op in turn -/

theorem attachNew_does {record : ItemRecord} {links : List EntityLink} {x : Tables × RowLog}
    {t t' : Tables} {log log' : RowLog} (hx : Does w x (t, log))
    (stored : (t.getItem record.id).isSome)
    (h : w.attachNew record t log links = .ok (t', log')) :
    Does w x (t', log') ∧ (t'.getItem record.id).isSome := by
  induction links generalizing t log with
  | nil =>
    cases h
    exact ⟨hx, stored⟩
  | cons link links ih =>
    unfold attachNew at h
    split at h
    · cases h
    · obtain ⟨t₁, hins, h⟩ := bind_eq_ok.1 h
      obtain ⟨hfits, rfl⟩ := Tables.insertItemEntity_eq_ok.1 (run_eq_ok.1 hins)
      exact ih (hx.row (.newItemEntity rfl stored hfits) _ _) stored h

theorem triggerNew_does {record : ItemRecord} {news : List NewTrigger} {x : Tables × RowLog}
    {t t' : Tables} {log log' : RowLog} (hx : Does w x (t, log))
    (stored : (t.getItem record.id).isSome)
    (h : w.triggerNew record t log news = .ok (t', log')) : Does w x (t', log') := by
  induction news generalizing t log with
  | nil => cases h; exact hx
  | cons new news ih =>
    obtain ⟨t₁, hins, h⟩ := bind_eq_ok.1 h
    obtain ⟨hfits, rfl⟩ := Tables.insertTrigger_eq_ok.1 (run_eq_ok.1 hins)
    exact ih (hx.row (.newTrigger rfl rfl stored hfits) _ _) stored h

theorem createItem_does {t t' : Tables} {i : Nat} {log log' : RowLog} {itemId : Uuid}
    {item : ItemContent} {entities : List EntityLink} {triggers : List NewTrigger}
    {slug name : Option String}
    (h : w.createItem t i log itemId item entities triggers slug name = .ok (t', log')) :
    Does w (t, log) (t', log') := by
  obtain ⟨record, hnew, h⟩ := bind_eq_ok.1 h
  obtain ⟨-, -, -, hmade, hstamp⟩ := newItem_eq_ok (run_eq_ok.1 hnew)
  have hvalid := newItem_valid (run_eq_ok.1 hnew)
  split at h
  · exact (nomatch h)
  · rename_i hfree
    obtain ⟨t₁, hins, h⟩ := bind_eq_ok.1 h
    obtain ⟨hfits, rfl⟩ := Tables.insertItem_eq_ok.1 (run_eq_ok.1 hins)
    obtain ⟨⟨t₂, log₂⟩, hatt, h⟩ := bind_eq_ok.1 h
    have hdone := ((Does.refl (t, log)).aside (aside_category t i item slug name)).row
      (.newItem (Option.not_isSome_iff_eq_none.1 hfree) hmade hstamp hvalid
        fun e => (hfits e).2) record.layer none
    have hstored : (({ (w.category t i item slug name).1 with
        items := (w.category t i item slug name).1.items.put record } : Tables).getItem
          record.id).isSome := by
      rw [MemoryTables.getItem, KeyTable.lookup_put_self]; rfl
    obtain ⟨hatt', hstored'⟩ := attachNew_does hdone hstored hatt
    exact triggerNew_does hatt' hstored' h

/-- The row write of an item edit. -/
theorem edit_step {t : Tables} {before : ItemRecord} {changes : ItemChanges}
    (stored : t.getItem before.id = some before)
    (valid : validState (w.edited before changes).kind (w.edited before changes).state = true)
    (fits : w.backend = .sql → t.itemFits (w.edited before changes) = true) :
    RowStep w.backend w.turn.turnId t
      ⟨.item, before.id, some before, some (w.edited before changes)⟩
      (storeItem t (w.edited before changes)) :=
  .editItem stored rfl rfl rfl rfl valid fits

theorem changeItem_does {t t' : Tables} {i : Nat} {log log' : RowLog} {itemId : Uuid}
    {changes : ItemChanges} (h : w.changeItem t i log itemId changes = .ok (t', log')) :
    Does w (t, log) (t', log') := by
  obtain ⟨before, after, hget, rfl, -, hv, hfits, hx⟩ := changeItem_eq_ok.1 h
  obtain ⟨rfl, rfl⟩ := Prod.mk.inj hx
  have hid : before.id = itemId := KeyTable.key_of_lookup hget
  have hstored : (w.refile t i changes).1.getItem before.id = some before := by
    rw [getItem_refile, hid, hget]
  exact ((Does.refl (t, log)).aside (aside_refile t i changes)).row (edit_step hstored hv hfits) _ _

/-- What a live item becomes is live, unless its status becomes `deleted`. -/
theorem isLive_storeItem {t : Tables} {after : ItemRecord} {id : Uuid}
    (h : t.isLive id = true) (hs : after.status ≠ .deleted) :
    (storeItem t after).isLive id = true := by
  unfold MemoryTables.isLive MemoryTables.getItem storeItem at *
  rw [KeyTable.lookup_put]
  split
  · unfold Tables.keepAccess
    split <;> simpa using hs
  · exact h

/-- The two row writes of an item edit with a link. -/
theorem changeAndLink_steps {t t' : Tables} {log log' : RowLog} {oldId newId : Uuid}
    {old new : ItemRecord} {changes : ItemChanges} {linkId : Uuid} {linkType : LinkType}
    (hold : liveItem t oldId = .ok old) (hnew : liveItem t newId = .ok new)
    (hs : (w.edited old changes).status ≠ .deleted)
    (h : w.changeAndLink t log old new changes linkId linkType = .ok (t', log')) :
    let after := w.edited old changes
    let link := w.newLink linkId new.id linkType old.id
    RowStep w.backend w.turn.turnId t ⟨.item, old.id, some old, some after⟩ (storeItem t after) ∧
      RowStep w.backend w.turn.turnId (storeItem t after) ⟨.link, linkId, none, some link⟩ t' ∧
      log' = w.add (w.add log .item old.id (some old) (some after) old.layer) .link linkId none
        (some link) old.layer := by
  have hoid := id_of_liveItem hold
  have hnid := id_of_liveItem hnew
  have hstored : t.getItem old.id = some old := by rw [hoid]; exact (liveItem_eq_ok.1 hold).1
  obtain ⟨after, rfl, -, hv, hfits, hlink⟩ := (changeAndLink_eq_ok hstored).1 h
  obtain ⟨hlfits, hx⟩ := insertLink_eq_ok.1 hlink
  obtain ⟨rfl, rfl⟩ := Prod.mk.inj hx
  refine ⟨edit_step hstored hv hfits, ?_, rfl⟩
  refine .newLink (r := w.newLink linkId new.id linkType old.id) rfl (isLive_storeItem ?_ hs)
    (isLive_storeItem ?_ hs) hlfits
  · show t.isLive new.id = true
    rw [hnid]
    exact isLive_of_liveItem hnew
  · show t.isLive old.id = true
    rw [hoid]
    exact isLive_of_liveItem hold

theorem notDeleted_of_liveItem {t : Tables} {id : Uuid} {item : ItemRecord}
    (h : liveItem t id = .ok item) : item.status ≠ .deleted := fun e =>
  absurd ((liveItem_eq_ok.1 h).2 e) Bool.false_ne_true

/-- An edit of a live item that names no status leaves it live. -/
theorem notDeleted_edited {t : Tables} {id : Uuid} {item : ItemRecord} {changes : ItemChanges}
    (h : liveItem t id = .ok item) (hs : changes.status = none) :
    (w.edited item changes).status ≠ .deleted := by
  have hitem := notDeleted_of_liveItem h
  unfold edited changedContent
  split <;> simpa [ItemChanges.apply, hs] using hitem

theorem changeAndLink_does {t t' : Tables} {log log' : RowLog} {oldId newId : Uuid}
    {old new : ItemRecord} {changes : ItemChanges} {linkId : Uuid} {linkType : LinkType}
    (hold : liveItem t oldId = .ok old) (hnew : liveItem t newId = .ok new)
    (hs : (w.edited old changes).status ≠ .deleted)
    (h : w.changeAndLink t log old new changes linkId linkType = .ok (t', log')) :
    Does w (t, log) (t', log') := by
  obtain ⟨hedit, hlink, rfl⟩ := changeAndLink_steps hold hnew hs h
  exact ((Does.refl (t, log)).row hedit _ _).row hlink _ _

/-- The row write of an entity edit. -/
theorem editEntity_step {t : Tables} {entityId : Uuid} {before : EntityRecord}
    {entity : EntityContent} (stored : t.getEntity entityId = some before)
    (fits : w.backend = .sql → t.entityFits (w.editedEntity before entity) = true) :
    RowStep w.backend w.turn.turnId t
      ⟨.entity, before.id, some before, some (w.editedEntity before entity)⟩
      { t with entities := t.entities.put (w.editedEntity before entity) } := by
  have hid : before.id = entityId := KeyTable.key_of_lookup stored
  exact .editEntity (hid ▸ stored) rfl rfl rfl rfl fits

theorem changeTrigger_does {t t' : Tables} {log log' : RowLog} {triggerId : Uuid}
    {changes : TriggerChanges} (h : w.changeTrigger t log triggerId changes = .ok (t', log')) :
    Does w (t, log) (t', log') := by
  obtain ⟨before, t₁, hget, -, hrep, hx⟩ := changeTrigger_eq_ok.1 h
  obtain ⟨rfl, rfl⟩ := Prod.mk.inj hx
  have hid : before.id = triggerId := KeyTable.key_of_lookup hget
  exact (Does.refl _).row (.editTrigger (hid ▸ hget) rfl hrep) _ _

/-- **An op that applies does what it logs.** -/
theorem apply_does {t t' : Tables} {i : Nat} {log log' : RowLog} {body : OpBody}
    (h : w.apply t i log body = .ok (t', log')) : Does w (t, log) (t', log') := by
  cases body with
  | createItem => exact createItem_does h
  | updateItem => exact changeItem_does h
  | setItemState => exact changeItem_does h
  | deleteItem => exact changeItem_does h
  | restoreItem => exact changeItem_does h
  | supersedeItem oldId newId linkId validTo state =>
    obtain ⟨old, new, hold, hnew, -, h⟩ := supersede_eq_ok.1 h
    exact changeAndLink_does hold hnew (notDeleted_edited hold (by rfl)) h
  | correctItem oldId newId linkId =>
    obtain ⟨old, new, hold, hnew, -, h⟩ := correct_eq_ok.1 h
    exact changeAndLink_does hold hnew (by simp [edited, changedContent, ItemChanges.apply]) h
  | fulfilIntention intentionId episodeId linkId state =>
    obtain ⟨old, new, hold, hnew, -, h⟩ := fulfil_eq_ok.1 h
    exact changeAndLink_does hold hnew (notDeleted_edited hold (by rfl)) h
  | linkItems linkId srcId linkType dstId =>
    obtain ⟨hsrc, hdst, h⟩ := linkItems_eq_ok.1 h
    obtain ⟨hfits, hx⟩ := insertLink_eq_ok.1 h
    obtain ⟨rfl, rfl⟩ := Prod.mk.inj hx
    exact (Does.refl _).row (.newLink (r := w.newLink linkId srcId linkType dstId) rfl hsrc hdst
      hfits) _ _
  | unlinkItems linkId =>
    obtain ⟨old, hget, hx⟩ := unlinkItems_eq_ok.1 h
    obtain ⟨rfl, rfl⟩ := Prod.mk.inj hx
    obtain rfl : old.id = linkId := KeyTable.key_of_lookup hget
    exact (Does.refl _).row (.dropLink hget) _ _
  | attachEntity rowId itemId entityId role =>
    obtain ⟨hstored, hfits, hx⟩ := attach_eq_ok.1 h
    obtain ⟨rfl, rfl⟩ := Prod.mk.inj hx
    exact (Does.refl _).row (.newItemEntity (r := w.newItemEntity rowId itemId entityId role) rfl
      hstored hfits) _ _
  | detachEntity rowId =>
    obtain ⟨old, hget, hx⟩ := detach_eq_ok.1 h
    obtain ⟨rfl, rfl⟩ := Prod.mk.inj hx
    obtain rfl : old.id = rowId := KeyTable.key_of_lookup hget
    exact (Does.refl _).row (.dropItemEntity hget) _ _
  | upsertEntity entityId entity create =>
    rcases upsertEntity_eq_ok.1 h with ⟨-, hfree, hfits, hx⟩ | ⟨-, before, hget, hfits, hx⟩
    · obtain ⟨rfl, rfl⟩ := Prod.mk.inj hx
      exact (Does.refl _).row (.newEntity (r := w.newEntity entityId entity) hfree rfl rfl
        hfits) _ _
    · obtain ⟨rfl, rfl⟩ := Prod.mk.inj hx
      exact (Does.refl _).row (editEntity_step hget hfits) _ _
  | deleteEntity entityId =>
    obtain ⟨before, after, hget, -, rfl, hfits, hx⟩ := deleteEntity_eq_ok.1 h
    obtain ⟨rfl, rfl⟩ := Prod.mk.inj hx
    exact (Does.refl _).row (editEntity_step hget hfits) _ _
  | relateEntities relationId src relation dst validFrom evidence =>
    obtain ⟨hfits, hx⟩ := relate_eq_ok.1 h
    obtain ⟨rfl, rfl⟩ := Prod.mk.inj hx
    exact (Does.refl _).row
      (.newRelation (r := w.newRelation relationId src relation dst validFrom evidence) rfl rfl
        hfits) _ _
  | unrelateEntities relationId =>
    obtain ⟨old, hget, hx⟩ := unrelate_eq_ok.1 h
    obtain ⟨rfl, rfl⟩ := Prod.mk.inj hx
    obtain rfl : old.id = relationId := KeyTable.key_of_lookup hget
    exact (Does.refl _).row (.dropRelation hget) _ _
  | setTriggerState => exact changeTrigger_does h
  | updateTrigger => exact changeTrigger_does h

end Writer
end SecondMind
