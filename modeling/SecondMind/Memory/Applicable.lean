import SecondMind.Memory.Effects

/-!
# When an op applies

What the tables must be like for an op to come to a result: the rows it is about are there
and in a state that it accepts, and, on `sql`, the rows it writes meet the constraints.

* `Writer.Applicable` — the condition, one line for each kind of op;
* `Writer.apply_ok_iff` — an op that is not skipped and does not fail is one that meets it.
-/

namespace SecondMind

open Keyed

namespace Writer

variable {w : Writer}

/-! ## A new item -/

/-- The record a new item is given. -/
def newRecord (w : Writer) (itemId : Uuid) (item : ItemContent) (categoryId : Option Uuid) :
    ItemRecord :=
  { toItemContent := w.newContent (match categoryId with
      | none => item
      | some c => { item with categoryId := some c })
    id := itemId, createdAt := w.turn.now, updatedAt := w.turn.now
    createdByTurnId := w.turn.turnId, updatedByTurnId := w.turn.turnId }

theorem newItem_eq_ok_iff {itemId : Uuid} {item : ItemContent} {categoryId : Option Uuid}
    {r : ItemRecord} :
    w.newItem itemId item categoryId = .ok r ↔
      validState item.kind item.state = true ∧ r = w.newRecord itemId item categoryId := by
  unfold newItem
  dsimp only
  split
  · rename_i hv
    rw [and_iff_right hv]
    exact ⟨fun h => (Except.ok.inj h).symm, fun h => congrArg Except.ok h.symm⟩
  · rename_i hv
    exact iff_of_false (fun h => (nomatch h)) fun h => hv h.1

/-- The entity rows of a new item can be put in: their entities exist, and on `sql` their
ids are free and no row, old or new, names the same entity in the same role. -/
structure AttachesNew (w : Writer) (itemId : Uuid) (t : MemoryTables) (links : List EntityLink) :
    Prop where
  entities : ∀ link ∈ links, (t.getEntity link.entityId).isSome
  ids : w.backend = .sql → FreshIds (t.getItemEntity · = none) (links.map (·.rowId))
  roles : w.backend = .sql →
    FreshIds (fun key : Uuid × EntityRole => ∀ row ∈ t.itemEntities.rows,
      ¬ (row.itemId = itemId ∧ row.entityId = key.1 ∧ row.role = key.2))
      (links.map fun link => (link.entityId, link.role))

/-- The tables with one more entity row. -/
def withItemEntity (t : Tables) (r : ItemEntityRecord) : Tables :=
  { t with itemEntities := t.itemEntities.put r }

/-- The tables with one more trigger. -/
def withTrigger (t : Tables) (r : TriggerRecord) : Tables :=
  { t with triggers := t.triggers.put r }

theorem attachesNew_cons {itemId : Uuid} {t : Tables} {link : EntityLink} {links : List EntityLink}
    (stored : (t.getItem itemId).isSome) :
    let row := w.newItemEntity link.rowId itemId link.entityId link.role
    w.AttachesNew itemId t.toMemoryTables (link :: links) ↔
      (t.getEntity link.entityId).isSome ∧
        (w.backend = .sql → t.getItemEntity row.id = none ∧ t.itemEntityFits row = true) ∧
        w.AttachesNew itemId (withItemEntity t row).toMemoryTables links := by
  intro row
  have hfree : ∀ id, (withItemEntity t row).getItemEntity id = none ↔
      id ≠ link.rowId ∧ t.getItemEntity id = none :=
    fun id => KeyTable.lookup_put_eq_none _ _ _
  have hrows : t.getItemEntity link.rowId = none → ∀ key : Uuid × EntityRole,
      (∀ r ∈ (withItemEntity t row).itemEntities.rows,
        ¬ (r.itemId = itemId ∧ r.entityId = key.1 ∧ r.role = key.2)) ↔
      key ≠ (link.entityId, link.role) ∧ ∀ r ∈ t.itemEntities.rows,
        ¬ (r.itemId = itemId ∧ r.entityId = key.1 ∧ r.role = key.2) := by
    intro hnone key
    have hput : (withItemEntity t row).itemEntities.rows = row ::ₘ t.itemEntities.rows :=
      KeyTable.rows_put hnone
    rw [hput, Multiset.forall_mem_cons]
    refine and_congr_left fun _ => not_congr ?_
    rw [Prod.ext_iff]
    exact ⟨fun h => ⟨h.2.1.symm, h.2.2.symm⟩, fun h => ⟨rfl, h.1.symm, h.2.symm⟩⟩
  constructor
  · intro h
    have hentity := h.entities link List.mem_cons_self
    refine ⟨hentity, fun hsql => ?_, fun link' hl => h.entities link' (List.mem_cons_of_mem _ hl),
      fun hsql => ?_, fun hsql => ?_⟩
    · obtain ⟨hid, -⟩ := freshIds_cons.1 (h.ids hsql)
      obtain ⟨hrole, -⟩ := freshIds_cons.1 (h.roles hsql)
      exact ⟨hid, decide_eq_true ⟨stored, hentity, hrole⟩⟩
    · obtain ⟨-, hids⟩ := freshIds_cons.1 (h.ids hsql)
      simpa only [hfree] using hids
    · obtain ⟨hid, -⟩ := freshIds_cons.1 (h.ids hsql)
      obtain ⟨-, hroles⟩ := freshIds_cons.1 (h.roles hsql)
      simpa only [hrows hid] using hroles
  · rintro ⟨hentity, hfits, hentities, hids, hroles⟩
    refine ⟨fun link' hl => ?_, fun hsql => ?_, fun hsql => ?_⟩
    · rcases List.mem_cons.1 hl with rfl | hl
      · exact hentity
      · exact hentities link' hl
    · have hrest := hids hsql
      simp only [hfree] at hrest
      exact freshIds_cons.2 ⟨(hfits hsql).1, hrest⟩
    · have hrest := hroles hsql
      simp only [hrows (hfits hsql).1] at hrest
      have hnew := of_decide_eq_true (hfits hsql).2
      exact freshIds_cons.2 ⟨hnew.2.2, hrest⟩

theorem attachNew_ok_iff {record : ItemRecord} {links : List EntityLink} {t : Tables}
    {log : RowLog} (stored : (t.getItem record.id).isSome) :
    (∃ x, w.attachNew record t log links = .ok x) ↔
      w.AttachesNew record.id t.toMemoryTables links := by
  induction links generalizing t log with
  | nil =>
    refine iff_of_true ⟨_, rfl⟩ ⟨?_, fun _ => freshIds_nil _, fun _ => freshIds_nil _⟩
    exact fun link hl => absurd hl List.not_mem_nil
  | cons link links ih =>
    let row := w.newItemEntity link.rowId record.id link.entityId link.role
    let log' := w.add log .itemEntity row.id none (some row) record.layer (some .link)
    have hrest : (∃ x, w.attachNew record (withItemEntity t row) log' links = .ok x) ↔
        w.AttachesNew record.id (withItemEntity t row).toMemoryTables links := ih stored
    have hcons : w.AttachesNew record.id t.toMemoryTables (link :: links) ↔ _ :=
      attachesNew_cons stored
    unfold attachNew
    rw [hcons, ← hrest]
    by_cases hentity : (t.getEntity link.entityId).isSome
    · have hsome : ¬ (t.getEntity link.entityId).isNone = true := by
        simpa [Option.isSome_iff_ne_none] using hentity
      rw [and_iff_right hentity, if_neg hsome]
      simp only [bind_eq_ok, run_eq_ok, Tables.insertItemEntity_eq_ok]
      constructor
      · rintro ⟨x, t₁, ⟨hfits, rfl⟩, h⟩
        exact ⟨hfits, x, h⟩
      · rintro ⟨hfits, x, h⟩
        exact ⟨x, _, ⟨hfits, rfl⟩, h⟩
    · rw [if_pos (by simpa using hentity)]
      refine iff_of_false ?_ fun h => hentity h.1
      rintro ⟨_, h⟩
      cases h

theorem triggerNew_ok_iff {record : ItemRecord} {news : List NewTrigger} {t : Tables}
    {log : RowLog} (stored : (t.getItem record.id).isSome) :
    (∃ x, w.triggerNew record t log news = .ok x) ↔
      (w.backend = .sql → FreshIds (t.getTrigger · = none) (news.map (·.triggerId))) := by
  induction news generalizing t log with
  | nil => exact iff_of_true ⟨_, rfl⟩ fun _ => freshIds_nil _
  | cons new news ih =>
    let row : TriggerRecord :=
      { toTriggerContent := new.trigger, id := new.triggerId, itemId := record.id
        createdAt := w.turn.now, updatedAt := w.turn.now, createdByTurnId := w.turn.turnId
        updatedByTurnId := w.turn.turnId }
    let log' := w.add log .trigger row.id none (some row) record.layer
    have hrest : (∃ x, w.triggerNew record (withTrigger t row) log' news = .ok x) ↔
        (w.backend = .sql →
          FreshIds ((withTrigger t row).getTrigger · = none) (news.map (·.triggerId))) :=
      ih stored
    have hfree : ∀ id, (withTrigger t row).getTrigger id = none ↔
        id ≠ new.triggerId ∧ t.getTrigger id = none :=
      fun id => KeyTable.lookup_put_eq_none _ _ _
    simp only [hfree] at hrest
    unfold triggerNew
    simp only [bind_eq_ok, run_eq_ok, Tables.insertTrigger_eq_ok, List.map_cons, freshIds_cons]
    constructor
    · rintro ⟨x, t₁, ⟨hfits, rfl⟩, h⟩ hsql
      exact ⟨(hfits hsql).1, hrest.1 ⟨x, h⟩ hsql⟩
    · intro h
      obtain ⟨x, hx⟩ := hrest.2 fun hsql => (h hsql).2
      exact ⟨x, _, ⟨fun hsql => ⟨(h hsql).1, stored⟩, rfl⟩, hx⟩

/-! ## The condition -/

/-- An item edit: the item is stored, the keys name fields, the state is one of its kind's,
and the record meets the constraints. -/
def ItemChangeable (w : Writer) (t : Tables) (i : Nat) (itemId : Uuid) (changes : ItemChanges) :
    Prop :=
  ∃ before, t.getItem itemId = some before ∧ changes.unknown = [] ∧
    let filed := w.refile t i changes
    let after := w.edited before filed.2
    validState after.kind after.state = true ∧ (w.backend = .sql → filed.1.itemFits after = true)

/-- An edit of a live item with a link to it from another: the state is one of its kind's,
and the record and the link meet the constraints. -/
def ItemLinkable (w : Writer) (t : Tables) (old : ItemRecord) (newId linkId : Uuid)
    (changes : ItemChanges) (linkType : LinkType) : Prop :=
  t.isLive newId = true ∧ changes.unknown = [] ∧
    let after := w.edited old changes
    validState after.kind after.state = true ∧
      (w.backend = .sql → t.itemFits after = true ∧ t.getLink linkId = none ∧
        t.linkFits (w.newLink linkId newId linkType old.id) = true)

/-- A trigger edit: the trigger is stored, the keys name fields, and on `sql`, if the record
is there under the id it is given, the item it is given exists. -/
def TriggerChangeable (w : Writer) (t : Tables) (triggerId : Uuid) (changes : TriggerChanges) :
    Prop :=
  ∃ before, t.getTrigger triggerId = some before ∧ changes.unknown = [] ∧
    let after := w.editedTrigger before changes
    (w.backend = .sql → (t.getTrigger after.id).isSome → t.triggerFits after = true)

/-- **What an op needs of the tables** to be applied. -/
def Applicable (w : Writer) (t : Tables) (i : Nat) : OpBody → Prop
  | .createItem itemId item entities triggers slug name =>
    let filed := w.category t i item slug name
    t.getItem itemId = none ∧ validState item.kind item.state = true ∧
      (w.backend = .sql → filed.1.itemFits (w.newRecord itemId item filed.2) = true) ∧
      w.AttachesNew itemId t.toMemoryTables entities ∧
      (w.backend = .sql → FreshIds (t.getTrigger · = none) (triggers.map (·.triggerId)))
  | .updateItem itemId changes => w.ItemChangeable t i itemId changes
  | .setItemState itemId state => w.ItemChangeable t i itemId { state := some state }
  | .deleteItem itemId => w.ItemChangeable t i itemId { status := some .deleted }
  | .restoreItem itemId => w.ItemChangeable t i itemId { status := some .active }
  | .supersedeItem oldId newId linkId validTo state =>
    ∃ old, t.getItem oldId = some old ∧ old.status ≠ .deleted ∧ old.validTo = none ∧
      old.state ∈ ["current", "scheduled"] ∧
      w.ItemLinkable t old newId linkId { state := some state, validTo := some (some validTo) }
        .supersedes
  | .correctItem oldId newId linkId =>
    ∃ old, t.getItem oldId = some old ∧ old.status = .active ∧
      w.ItemLinkable t old newId linkId { status := some .archived } .corrects
  | .fulfilIntention intentionId episodeId linkId state =>
    ∃ old, t.getItem intentionId = some old ∧ old.status ≠ .deleted ∧
      old.state ∉ ["fulfilled", "dropped"] ∧
      w.ItemLinkable t old episodeId linkId { state := some state } .fulfils
  | .linkItems linkId srcId linkType dstId =>
    t.isLive srcId = true ∧ t.isLive dstId = true ∧
      (w.backend = .sql →
        t.getLink linkId = none ∧ t.linkFits (w.newLink linkId srcId linkType dstId) = true)
  | .unlinkItems linkId => (t.getLink linkId).isSome
  | .attachEntity rowId itemId entityId role =>
    (t.getItem itemId).isSome ∧
      (w.backend = .sql → t.getItemEntity rowId = none ∧
        t.itemEntityFits (w.newItemEntity rowId itemId entityId role) = true)
  | .detachEntity rowId => (t.getItemEntity rowId).isSome
  | .upsertEntity entityId entity true =>
    t.getEntity entityId = none ∧
      (w.backend = .sql → t.entityFits (w.newEntity entityId entity) = true)
  | .upsertEntity entityId entity false =>
    ∃ before, t.getEntity entityId = some before ∧
      (w.backend = .sql → t.entityFits (w.editedEntity before entity) = true)
  | .deleteEntity entityId =>
    ∃ before, t.getEntity entityId = some before ∧ before.kind ≠ .self ∧
      (w.backend = .sql → t.entityFits
        (w.editedEntity before { before.toEntityContent with status := .deleted }) = true)
  | .relateEntities relationId src relation dst validFrom evidence =>
    w.backend = .sql → t.getRelation relationId = none ∧
      t.relationFits (w.newRelation relationId src relation dst validFrom evidence) = true
  | .unrelateEntities relationId => (t.getRelation relationId).isSome
  | .setTriggerState triggerId state => w.TriggerChangeable t triggerId { state := some state }
  | .updateTrigger triggerId changes => w.TriggerChangeable t triggerId changes

theorem createItem_ok_iff {t : Tables} {i : Nat} {log : RowLog} {itemId : Uuid}
    {item : ItemContent} {entities : List EntityLink} {triggers : List NewTrigger}
    {slug name : Option String} :
    (∃ x, w.createItem t i log itemId item entities triggers slug name = .ok x) ↔
      w.Applicable t i (.createItem itemId item entities triggers slug name) := by
  have hmem := (w.aside_category t i item slug name).memory
  unfold createItem Applicable
  dsimp only
  generalize w.category t i item slug name = filed at hmem ⊢
  have hget : filed.1.getItem itemId = t.getItem itemId := by rw [hmem]
  let record := w.newRecord itemId item filed.2
  let put : Tables := { filed.1 with items := filed.1.items.put record }
  let log' := w.add log .item record.id none (some record) record.layer
  have hstored : (put.getItem record.id).isSome := by
    rw [MemoryTables.getItem, KeyTable.lookup_put_self]
    rfl
  have hattach : (∃ x, w.attachNew record put log' entities = .ok x) ↔
      w.AttachesNew itemId t.toMemoryTables entities := by
    rw [attachNew_ok_iff hstored, ← hmem]
    exact ⟨fun h => ⟨h.entities, h.ids, h.roles⟩, fun h => ⟨h.entities, h.ids, h.roles⟩⟩
  have htrigger : ∀ t₁ log₁, w.attachNew record put log' entities = .ok (t₁, log₁) →
      ((∃ x, w.triggerNew record t₁ log₁ triggers = .ok x) ↔
        (w.backend = .sql → FreshIds (t.getTrigger · = none) (triggers.map (·.triggerId)))) := by
    intro t₁ log₁ h
    obtain ⟨hitems, -, htriggers⟩ := attachNew_frame h
    have hstored₁ : (t₁.getItem record.id).isSome := by
      rw [MemoryTables.getItem, hitems]
      exact hstored
    rw [triggerNew_ok_iff hstored₁]
    simp only [MemoryTables.getTrigger, htriggers, ← hmem]
    rfl
  simp only [bind_eq_ok, run_eq_ok, newItem_eq_ok_iff]
  constructor
  · rintro ⟨x, _, ⟨hv, rfl⟩, h⟩
    split at h
    · cases h
    · rename_i hfree
      simp only [bind_eq_ok, run_eq_ok, Tables.insertItem_eq_ok] at h
      obtain ⟨_, ⟨hfits, rfl⟩, ⟨t₁, log₁⟩, hatt, h⟩ := h
      refine ⟨?_, hv, fun hsql => (hfits hsql).2, hattach.1 ⟨_, hatt⟩,
        (htrigger t₁ log₁ hatt).1 ⟨x, h⟩⟩
      rw [← hget]
      exact Option.not_isSome_iff_eq_none.1 hfree
  · rintro ⟨hfree, hv, hfits, hatt, htrig⟩
    obtain ⟨⟨t₁, log₁⟩, hatt⟩ := hattach.2 hatt
    obtain ⟨x, hx⟩ := (htrigger t₁ log₁ hatt).2 htrig
    have hnone : filed.1.getItem record.id = none := hget.trans hfree
    refine ⟨x, record, ⟨hv, rfl⟩, ?_⟩
    rw [if_neg (by simp [hnone])]
    simp only [bind_eq_ok, run_eq_ok, Tables.insertItem_eq_ok]
    exact ⟨put, ⟨fun hsql => ⟨hnone, hfits hsql⟩, rfl⟩, (t₁, log₁), hatt, hx⟩

theorem changeItem_ok_iff {t : Tables} {i : Nat} {log : RowLog} {itemId : Uuid}
    {changes : ItemChanges} :
    (∃ x, w.changeItem t i log itemId changes = .ok x) ↔ w.ItemChangeable t i itemId changes := by
  simp only [changeItem_eq_ok]
  constructor
  · rintro ⟨x, before, after, hget, rfl, hu, hv, hfits, -⟩
    exact ⟨before, hget, hu, hv, hfits⟩
  · rintro ⟨before, hget, hu, hv, hfits⟩
    exact ⟨_, before, _, hget, rfl, hu, hv, hfits, rfl⟩

/-- Storing an item that is there leaves the constraints of links as they are. -/
theorem linkFits_storeItem {t : Tables} {old after : ItemRecord} (hid : after.id = old.id)
    (stored : t.getItem old.id = some old) (r : LinkRecord) :
    (storeItem t after).linkFits r = t.linkFits r := by
  have hsome : ∀ id, ((storeItem t after).items.lookup id).isSome = (t.items.lookup id).isSome := by
    intro id
    unfold storeItem
    rw [KeyTable.lookup_put]
    split
    · rename_i he
      have hold : t.items.lookup id = some old := by
        rw [he, id_keepAccess, hid]
        exact stored
      rw [hold]
      rfl
    · rfl
  unfold MemoryTables.linkFits
  rw [hsome, hsome]
  rfl

theorem changeAndLink_ok_iff {t : Tables} {log : RowLog} {old new : ItemRecord} {newId : Uuid}
    {changes : ItemChanges} {linkId : Uuid} {linkType : LinkType}
    (stored : t.getItem old.id = some old) (hnew : liveItem t newId = .ok new) :
    (∃ x, w.changeAndLink t log old new changes linkId linkType = .ok x) ↔
      w.ItemLinkable t old newId linkId changes linkType := by
  have hid : new.id = newId := id_of_liveItem hnew
  simp only [changeAndLink_eq_ok stored, insertLink_eq_ok, hid]
  have hlink : ∀ after : ItemRecord, after.id = old.id → ∀ r,
      (storeItem t after).linkFits r = t.linkFits r :=
    fun after ha r => linkFits_storeItem ha stored r
  constructor
  · rintro ⟨x, _, rfl, hu, hv, hfits, hlfits, -⟩
    refine ⟨isLive_of_liveItem hnew, hu, hv, fun hsql => ⟨hfits hsql, (hlfits hsql).1, ?_⟩⟩
    rw [← hlink _ (id_edited old changes)]
    exact (hlfits hsql).2
  · rintro ⟨-, hu, hv, hfits⟩
    refine ⟨_, _, rfl, hu, hv, fun hsql => (hfits hsql).1, fun hsql => ⟨(hfits hsql).2.1, ?_⟩, rfl⟩
    rw [hlink _ (id_edited old changes)]
    exact (hfits hsql).2.2

theorem changeTrigger_ok_iff {t : Tables} {log : RowLog} {triggerId : Uuid}
    {changes : TriggerChanges} :
    (∃ x, w.changeTrigger t log triggerId changes = .ok x) ↔
      w.TriggerChangeable t triggerId changes := by
  simp only [changeTrigger_eq_ok]
  have hwritten : ∀ r : TriggerRecord, (∃ t', t.replaceTrigger w.backend r = .ok t') ↔
      (w.backend = .sql → (t.getTrigger r.id).isSome → t.triggerFits r = true) := by
    intro r
    unfold Tables.replaceTrigger
    split
    · rename_i h
      refine iff_of_true ⟨_, rfl⟩ fun _ hsome => ?_
      simp only [MemoryTables.getTrigger] at hsome
      simp [Option.isNone_iff_eq_none.1 h.2] at hsome
    · rename_i h
      simp only [Tables.statement_eq_ok]
      constructor
      · rintro ⟨t', hfits, -⟩ hsql _
        exact hfits hsql
      · intro hfits
        refine ⟨_, fun hsql => hfits hsql ?_, rfl⟩
        simpa [MemoryTables.getTrigger, hsql, Option.isSome_iff_ne_none] using h
  constructor
  · rintro ⟨x, before, t', hget, hu, hrep, -⟩
    exact ⟨before, hget, hu, (hwritten _).1 ⟨t', hrep⟩⟩
  · rintro ⟨before, hget, hu, hfits⟩
    obtain ⟨t', hrep⟩ := (hwritten _).2 hfits
    exact ⟨_, before, t', hget, hu, hrep, rfl⟩

theorem liveItem_ok_iff {t : Tables} {id : Uuid} {item : ItemRecord} :
    liveItem t id = .ok item ↔ t.getItem id = some item ∧ item.status ≠ .deleted := by
  rw [liveItem_eq_ok]
  simp

/-- Two live items, a check of the old one, and an edit of it with a link. -/
theorem linked_ok_iff {t : Tables} {log : RowLog} {oldId newId linkId : Uuid}
    {changes : ItemChanges} {linkType : LinkType} {accepted : ItemRecord → Prop} :
    (∃ x old new, liveItem t oldId = .ok old ∧ liveItem t newId = .ok new ∧ accepted old ∧
      w.changeAndLink t log old new changes linkId linkType = .ok x) ↔
    ∃ old, t.getItem oldId = some old ∧ old.status ≠ .deleted ∧ accepted old ∧
      w.ItemLinkable t old newId linkId changes linkType := by
  constructor
  · rintro ⟨x, old, new, hold, hnew, hc, h⟩
    obtain ⟨hget, hs⟩ := liveItem_ok_iff.1 hold
    have hid : old.id = oldId := KeyTable.key_of_lookup hget
    exact ⟨old, hget, hs, hc, (changeAndLink_ok_iff (hid ▸ hget) hnew).1 ⟨x, h⟩⟩
  · rintro ⟨old, hget, hs, hc, h⟩
    have hid : old.id = oldId := KeyTable.key_of_lookup hget
    obtain ⟨new, hnew⟩ := liveItem_of_isLive h.1
    obtain ⟨x, hx⟩ := (changeAndLink_ok_iff (hid ▸ hget) hnew).2 h
    exact ⟨x, old, new, liveItem_ok_iff.2 ⟨hget, hs⟩, hnew, hc, hx⟩

/-- **An op applies exactly when the tables are as it needs them.** -/
theorem apply_ok_iff {t : Tables} {i : Nat} {log : RowLog} {body : OpBody} :
    (∃ x, w.apply t i log body = .ok x) ↔ w.Applicable t i body := by
  cases body with
  | createItem => exact createItem_ok_iff
  | updateItem => exact changeItem_ok_iff
  | setItemState => exact changeItem_ok_iff
  | deleteItem => exact changeItem_ok_iff
  | restoreItem => exact changeItem_ok_iff
  | supersedeItem =>
    simp only [apply, supersede_eq_ok, linked_ok_iff, Applicable]
    exact exists_congr fun old => and_congr_right fun _ => and_congr_right fun _ => and_assoc
  | correctItem =>
    simp only [apply, correct_eq_ok, linked_ok_iff, Applicable]
    refine exists_congr fun old => and_congr_right fun _ => and_iff_right_of_imp fun h => ?_
    rw [h.1]
    exact ItemStatus.noConfusion
  | fulfilIntention =>
    simp only [apply, fulfil_eq_ok, linked_ok_iff, Applicable]
  | linkItems =>
    simp only [apply, linkItems_eq_ok, insertLink_eq_ok, Applicable]
    constructor
    · rintro ⟨x, hs, hd, hfits, -⟩
      exact ⟨hs, hd, hfits⟩
    · rintro ⟨hs, hd, hfits⟩
      exact ⟨_, hs, hd, hfits, rfl⟩
  | unlinkItems => simp [apply, unlinkItems_eq_ok, Applicable, Option.isSome_iff_exists]
  | attachEntity =>
    simp only [apply, attach_eq_ok, Applicable]
    constructor
    · rintro ⟨x, hs, hfits, -⟩
      exact ⟨hs, hfits⟩
    · rintro ⟨hs, hfits⟩
      exact ⟨_, hs, hfits, rfl⟩
  | detachEntity => simp [apply, detach_eq_ok, Applicable, Option.isSome_iff_exists]
  | upsertEntity entityId entity create =>
    simp only [apply, upsertEntity_eq_ok]
    cases create <;> simp [Applicable]
  | deleteEntity =>
    simp only [apply, deleteEntity_eq_ok, Applicable]
    constructor
    · rintro ⟨x, before, _, hget, hkind, rfl, hfits, -⟩
      exact ⟨before, hget, hkind, hfits⟩
    · rintro ⟨before, hget, hkind, hfits⟩
      exact ⟨_, before, _, hget, hkind, rfl, hfits, rfl⟩
  | relateEntities =>
    simp only [apply, relate_eq_ok, Applicable]
    constructor
    · rintro ⟨x, hfits, -⟩
      exact hfits
    · intro hfits
      exact ⟨_, hfits, rfl⟩
  | unrelateEntities => simp [apply, unrelate_eq_ok, Applicable, Option.isSome_iff_exists]
  | setTriggerState => exact changeTrigger_ok_iff
  | updateTrigger => exact changeTrigger_ok_iff

end Writer
end SecondMind
