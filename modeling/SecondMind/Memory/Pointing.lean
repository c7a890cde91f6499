import SecondMind.Memory.Applicable
import SecondMind.Memory.NewRows
import SecondMind.Memory.Runs

/-!
# Items and the entities they point at

An item points at the entities that its rows name and at its subject.  An entity is deleted by a
mark on its row, and nothing looks at who still points at it when the mark is set.

* `Pointing` — no live item points at a deleted entity;
* `OpBody.KeepsPointing` — the condition on an op, on the tables it meets;
* `Writer.apply_pointing` — such an op keeps what holds;
* `Reached.pointing` — and so does every run of them.
-/

namespace SecondMind

open Keyed

/-! ## Pointers -/

namespace MemoryTables

variable (t : MemoryTables)

/-- The entity is marked as deleted. -/
def entityGone (id : Uuid) : Bool := (t.getEntity id).any (·.status = .deleted)

/-- The item is not marked as deleted, and points at the entity. -/
def LivePoints (id entity : Uuid) : Prop :=
  ∃ r, t.getItem id = some r ∧ r.status ≠ .deleted ∧ t.pointsAt id entity = true

theorem pointsAt_iff {id entity : Uuid} {r : ItemRecord} (h : t.getItem id = some r) :
    t.pointsAt id entity = true ↔ r.subjectEntityId = some entity ∨
      ∃ row ∈ t.itemEntities.rows, row.itemId = id ∧ row.entityId = entity := by
  simp only [pointsAt, h, Option.any_some, Bool.or_eq_true, decide_eq_true_eq]
  refine or_congr_right ⟨?_, ?_⟩
  · rintro ⟨row, hrow, hentity, hitem⟩
    exact ⟨row, hrow, hitem, hentity⟩
  · rintro ⟨row, hrow, hitem, hentity⟩
    exact ⟨row, hrow, hentity, hitem⟩

end MemoryTables

/-- **No live item points at a deleted entity**, and the rows name items that are there. -/
structure Pointing (t : MemoryTables) : Prop where
  bound : ∀ row ∈ t.itemEntities.rows, (t.getItem row.itemId).isSome
  live : ∀ id entity, t.LivePoints id entity → t.entityGone entity = false

theorem pointing_initial (me : Uuid) : Pointing (Tables.initial me).toMemoryTables := by
  constructor
  · intro row hrow
    exact absurd hrow (Multiset.notMem_zero row)
  · rintro id entity ⟨r, hr, -⟩
    rw [show (Tables.initial me).toMemoryTables.getItem id = none from KeyTable.lookup_empty id] at hr
    cases hr

theorem SameMemory.pointing {t t' : Tables} (h : SameMemory t t')
    (hp : Pointing t.toMemoryTables) : Pointing t'.toMemoryTables := by
  constructor
  · intro row hrow
    rw [h.itemEntities] at hrow
    have hsome := hp.bound row hrow
    have hmap := congrArg Option.isSome (h.items row.itemId)
    rw [Option.isSome_map, Option.isSome_map] at hmap
    rwa [hmap]
  · rintro id entity ⟨r', hr', hlive, hpoints⟩
    have hmap := h.items id
    rw [hr', Option.map_some] at hmap
    obtain ⟨r, hr, he⟩ := Option.map_eq_some_iff.1 hmap.symm
    have hstatus : r.eraseAccess.status = r'.eraseAccess.status := by rw [he]
    have hsubject : r.eraseAccess.subjectEntityId = r'.eraseAccess.subjectEntityId := by rw [he]
    have hgone : t'.entityGone entity = t.entityGone entity := by
      rw [MemoryTables.entityGone, MemoryTables.entityGone, MemoryTables.getEntity, h.entities]
      rfl
    rw [hgone]
    refine hp.live id entity ⟨r, hr, fun hd => hlive (hstatus.symm.trans hd), ?_⟩
    rw [MemoryTables.pointsAt_iff _ hr'] at hpoints
    rw [MemoryTables.pointsAt_iff _ hr, ← h.itemEntities]
    exact hpoints.imp_left hsubject.trans

/-! ## The condition on an op -/

/-- The item, if it is live after these changes, points at no deleted entity. -/
def MemoryTables.EditPoints (t : MemoryTables) (id : Uuid) (changes : ItemChanges) : Prop :=
  ∀ r, t.getItem id = some r → changes.status.getD r.status ≠ .deleted →
    (∀ e ∈ changes.subjectEntityId.getD r.subjectEntityId, t.entityGone e = false) ∧
      ∀ row ∈ t.itemEntities.rows, row.itemId = id → t.entityGone row.entityId = false

/-- **The condition on an op**: a new item, an item that is changed or brought back and an item that
is given an entity point at no deleted one; and no live item points at an entity when it goes. -/
def OpBody.KeepsPointing (t : MemoryTables) : OpBody → Prop
  | .createItem _ item entities _ _ _ => item.status ≠ .deleted →
    (∀ e ∈ entities, t.entityGone e.entityId = false) ∧
      ∀ e ∈ item.subjectEntityId, t.entityGone e = false
  | .updateItem itemId changes => t.EditPoints itemId changes
  | .restoreItem itemId => t.EditPoints itemId { status := some .active }
  | .attachEntity _ itemId entityId _ =>
    (∀ r ∈ t.getItem itemId, r.status ≠ .deleted) → t.entityGone entityId = false
  | .upsertEntity entityId entity _ =>
    entity.status = .deleted → ∀ id, ¬ t.LivePoints id entityId
  | .deleteEntity entityId => ∀ id, ¬ t.LivePoints id entityId
  | _ => True

/-- Every op that a batch applies keeps to the condition, unless the batch is held whole. -/
def Writer.KeepsPointing (w : Writer) (t : Tables) : Prop :=
  w.heldWhole = true ∨
    w.EveryApplied (w.seqBase t) (fun u op => op.body.KeepsPointing u.toMemoryTables) 0
      { tables := w.writeVocab t } w.ops

/-! ## One op -/

namespace Writer

variable {w : Writer} {t t' : Tables} {i : Nat} {log log' : RowLog}

/-- An item that is edited: the rows and the entities stay. -/
structure Edits (w : Writer) (t : Tables) (i : Nat) (id : Uuid) (changes : ItemChanges)
    (t' : Tables) : Prop where
  items : ∃ before, t.getItem id = some before ∧
    t'.items = t.items.put (t.keepAccess (w.edited before (w.refile t i changes).2))
  itemEntities : t'.itemEntities = t.itemEntities
  entities : t'.entities = t.entities

theorem changeItem_edits {id : Uuid} {changes : ItemChanges}
    (h : w.changeItem t i log id changes = .ok (t', log')) : w.Edits t i id changes t' := by
  obtain ⟨before, after, hget, rfl, -, -, -, hx⟩ := changeItem_eq_ok.1 h
  obtain ⟨rfl, rfl⟩ := Prod.mk.inj hx
  have hmem := (w.aside_refile t i changes).memory
  refine ⟨⟨before, hget, ?_⟩, ?_, ?_⟩
  · simp only [storeItem, Tables.keepAccess, hmem]
  · simp only [storeItem, hmem]
  · simp only [storeItem, hmem]

theorem changeAndLink_edits {oldId : Uuid} {old new : ItemRecord} {changes : ItemChanges}
    {linkId : Uuid} {linkType : LinkType} (hslug : changes.categorySlug = none)
    (hold : liveItem t oldId = .ok old)
    (h : w.changeAndLink t log old new changes linkId linkType = .ok (t', log')) :
    w.Edits t i oldId changes t' := by
  obtain ⟨hentities, hrows, -⟩ := changeAndLink_puts hold h
  obtain rfl := id_of_liveItem hold
  have hget := (liveItem_eq_ok.1 hold).1
  obtain ⟨after, rfl, -, -, -, hlink⟩ := (changeAndLink_eq_ok hget).1 h
  obtain ⟨-, hx⟩ := insertLink_eq_ok.1 hlink
  obtain ⟨rfl, rfl⟩ := Prod.mk.inj hx
  refine ⟨⟨old, hget, ?_⟩, hrows, hentities⟩
  rw [refile_of_none hslug]
  rfl

/-- **An edit** keeps what holds, if what it makes of the item points at no deleted entity. -/
theorem Edits.pointing {id : Uuid} {changes : ItemChanges} (h : w.Edits t i id changes t')
    (hp : Pointing t.toMemoryTables) (hedit : t.EditPoints id changes) :
    Pointing t'.toMemoryTables := by
  obtain ⟨⟨before, hget, hitems⟩, hrows, hentities⟩ := h
  obtain rfl : before.id = id := KeyTable.key_of_lookup hget
  have hafter : ∀ id', t'.getItem id' =
      if id' = before.id then
        some (t.keepAccess (w.edited before (w.refile t i changes).2))
      else t.getItem id' := by
    intro id'
    rw [MemoryTables.getItem, hitems, KeyTable.lookup_put, id_keepAccess, id_edited]
    rfl
  have hgone : ∀ e, t'.entityGone e = t.entityGone e := by
    intro e
    rw [MemoryTables.entityGone, MemoryTables.entityGone, MemoryTables.getEntity, hentities]
    rfl
  have hfields : (t.keepAccess (w.edited before (w.refile t i changes).2)).status =
        changes.status.getD before.status ∧
      (t.keepAccess (w.edited before (w.refile t i changes).2)).subjectEntityId =
        changes.subjectEntityId.getD before.subjectEntityId := by
    have hrefile : (w.refile t i changes).2.status = changes.status ∧
        (w.refile t i changes).2.subjectEntityId = changes.subjectEntityId := by
      unfold refile
      split <;> exact ⟨rfl, rfl⟩
    rw [← hrefile.1, ← hrefile.2]
    unfold Tables.keepAccess edited changedContent
    dsimp only
    split <;> split <;> exact ⟨rfl, rfl⟩
  constructor
  · intro row hrow
    rw [hrows] at hrow
    rw [hafter]
    split
    · rfl
    · exact hp.bound row hrow
  · rintro id' e ⟨r', hr', hlive, hpoints⟩
    rw [hgone]
    rw [MemoryTables.pointsAt_iff _ hr', hrows] at hpoints
    rw [hafter] at hr'
    split at hr'
    · rename_i hid
      obtain rfl := Option.some.inj hr'
      rw [hfields.1] at hlive
      obtain ⟨hsubject, hnamed⟩ := hedit before hget hlive
      rw [hfields.2] at hpoints
      rcases hpoints with hsame | ⟨row, hrow, hitem, rfl⟩
      · exact hsubject e hsame
      · exact hnamed row hrow (hitem.trans hid)
    · refine hp.live id' e ⟨r', hr', hlive, ?_⟩
      rwa [MemoryTables.pointsAt_iff _ hr']

/-- Changes that bring no item back, and give none another subject. -/
theorem editPoints_of_pointing {id : Uuid} {changes : ItemChanges}
    (hp : Pointing t.toMemoryTables) (hsubject : changes.subjectEntityId = none)
    (hstatus : ∀ r, t.getItem id = some r → changes.status.getD r.status ≠ .deleted →
      r.status ≠ .deleted) : t.EditPoints id changes := by
  intro r hr hlive
  have hpoints : ∀ e, t.pointsAt id e = true → t.entityGone e = false := fun e he =>
    hp.live id e ⟨r, hr, hstatus r hr hlive, he⟩
  rw [hsubject]
  refine ⟨fun e he => hpoints e ?_, fun row hrow hitem => hpoints row.entityId ?_⟩
  · exact (MemoryTables.pointsAt_iff _ hr).2 (.inl he)
  · exact (MemoryTables.pointsAt_iff _ hr).2 (.inr ⟨row, hrow, hitem, rfl⟩)

/-- Items and entity rows as they were, and one entity marked or not: no live item points at it if
it is marked. -/
theorem putEntity_pointing {after : EntityRecord} (hp : Pointing t.toMemoryTables)
    (hgone : after.status = .deleted → ∀ id, ¬ t.LivePoints id after.id) :
    Pointing { t.toMemoryTables with entities := t.entities.put after } := by
  constructor
  · exact hp.bound
  · rintro id e hpoints
    replace hpoints : t.LivePoints id e := hpoints
    unfold MemoryTables.entityGone MemoryTables.getEntity
    dsimp only
    rw [KeyTable.lookup_put]
    split
    · rename_i he
      subst he
      by_contra hd
      simp only [Option.any_some, decide_eq_true_eq, Bool.not_eq_false] at hd
      exact hgone hd id hpoints
    · exact hp.live id e hpoints

theorem changeTrigger_itemEntities {triggerId : Uuid} {changes : TriggerChanges}
    (h : w.changeTrigger t log triggerId changes = .ok (t', log')) :
    t'.itemEntities = t.itemEntities := by
  obtain ⟨before, t₁, -, -, hrep, hx⟩ := changeTrigger_eq_ok.1 h
  obtain ⟨rfl, rfl⟩ := Prod.mk.inj hx
  unfold Tables.replaceTrigger at hrep
  split at hrep
  · cases hrep
    rfl
  · obtain ⟨-, rfl⟩ := Tables.statement_eq_ok.1 hrep
    rfl

/-- **One op keeps what holds.** -/
theorem apply_pointing {body : OpBody} (hp : Pointing t.toMemoryTables)
    (hkeeps : body.KeepsPointing t.toMemoryTables) (h : w.apply t i log body = .ok (t', log')) :
    Pointing t'.toMemoryTables := by
  have hsame : t'.items = t.items → t'.itemEntities = t.itemEntities → t'.entities = t.entities →
      Pointing t'.toMemoryTables := by
    intro hitems hrows hentities
    have hget : ∀ id, t'.getItem id = t.getItem id := fun id => by
      rw [MemoryTables.getItem, hitems]
      rfl
    constructor
    · intro row hrow
      rw [hrows] at hrow
      rw [hget]
      exact hp.bound row hrow
    · rintro id e ⟨r, hr, hlive, hpoints⟩
      rw [hget] at hr
      have hgone : t'.entityGone e = t.entityGone e := by
        rw [MemoryTables.entityGone, MemoryTables.entityGone, MemoryTables.getEntity, hentities]
        rfl
      rw [hgone]
      refine hp.live id e ⟨r, hr, hlive, ?_⟩
      rw [MemoryTables.pointsAt_iff _ hr]
      rwa [MemoryTables.pointsAt_iff _ ((hget id).trans hr), hrows] at hpoints
  cases body with
  | createItem itemId item entities triggers slug name =>
    obtain ⟨hrows, -, hentities, -⟩ := createItem_puts h
    obtain ⟨record, hnew, hfree, hitems, -⟩ := createItem_frame h
    obtain ⟨-, hrecord⟩ := newItem_eq_ok_iff.1 hnew
    have hid : record.id = itemId := (newItem_eq_ok hnew).2.2.1
    have hfields : record.status = item.status ∧ record.subjectEntityId = item.subjectEntityId := by
      rw [hrecord]
      unfold newRecord newContent
      split <;> split <;> exact ⟨rfl, rfl⟩
    have hgone : ∀ e, t'.entityGone e = t.entityGone e := fun e => by
      rw [MemoryTables.entityGone, MemoryTables.entityGone, MemoryTables.getEntity, hentities]
      rfl
    have hafter : ∀ id, t'.getItem id = if id = itemId then some record else t.getItem id := by
      intro id
      rw [MemoryTables.getItem, hitems, KeyTable.lookup_put, hid]
      rfl
    -- a row that is there was there, or it is one of the new item
    have hrow : ∀ row ∈ t'.itemEntities.rows,
        (row.itemId = itemId ∧ ∃ e ∈ entities, row.entityId = e.entityId) ∨
          row ∈ t.itemEntities.rows := by
      intro row hrow
      rw [hrows] at hrow
      refine (KeyTable.mem_of_mem_rows_foldl_put hrow).imp_left fun hmem => ?_
      obtain ⟨e, he, rfl⟩ := List.mem_map.1 hmem
      exact ⟨rfl, e, he, rfl⟩
    constructor
    · intro row hmem
      rw [hafter]
      split
      · rfl
      · rename_i hne
        exact hp.bound row ((hrow row hmem).resolve_left fun hnew => hne hnew.1)
    · rintro id e ⟨r', hr', hlive, hpoints⟩
      rw [hgone]
      rw [MemoryTables.pointsAt_iff _ hr'] at hpoints
      rw [hafter] at hr'
      split at hr'
      · rename_i hnewId
        obtain rfl := Option.some.inj hr'
        obtain ⟨hnamed, hsubject⟩ := hkeeps (by rwa [← hfields.1])
        rcases hpoints with hsame | ⟨row, hmem, hitem, rfl⟩
        · exact hsubject e (hfields.2.symm.trans hsame)
        · rcases hrow row hmem with ⟨-, e', he', heq⟩ | hold
          · rw [heq]
            exact hnamed e' he'
          · have hsome := hp.bound row hold
            rw [hitem, hnewId, hfree] at hsome
            cases hsome
      · rename_i hne
        refine hp.live id e ⟨r', hr', hlive, ?_⟩
        rw [MemoryTables.pointsAt_iff _ hr']
        rcases hpoints with hsame | ⟨row, hmem, hitem, hentity⟩
        · exact .inl hsame
        · exact .inr ⟨row, (hrow row hmem).resolve_left fun hnew => hne (hitem.symm.trans hnew.1),
            hitem, hentity⟩
  | updateItem => exact (changeItem_edits h).pointing hp hkeeps
  | restoreItem => exact (changeItem_edits h).pointing hp hkeeps
  | setItemState =>
    exact (changeItem_edits h).pointing hp (editPoints_of_pointing hp rfl fun _ _ hlive => hlive)
  | deleteItem =>
    exact (changeItem_edits h).pointing hp (editPoints_of_pointing hp rfl fun _ _ hlive =>
      absurd rfl hlive)
  | supersedeItem =>
    obtain ⟨old, new, hold, -, -, h⟩ := supersede_eq_ok.1 h
    exact (changeAndLink_edits (i := i) rfl hold h).pointing hp
      (editPoints_of_pointing hp rfl fun _ _ hlive => hlive)
  | correctItem =>
    obtain ⟨old, new, hold, -, -, h⟩ := correct_eq_ok.1 h
    refine (changeAndLink_edits (i := i) rfl hold h).pointing hp
      (editPoints_of_pointing hp rfl fun r hr _ => ?_)
    obtain ⟨hstored, hlive⟩ := liveItem_eq_ok.1 hold
    rw [hstored] at hr
    cases hr
    exact fun hd => Bool.false_ne_true (hlive hd)
  | fulfilIntention =>
    obtain ⟨old, new, hold, -, -, h⟩ := fulfil_eq_ok.1 h
    exact (changeAndLink_edits (i := i) rfl hold h).pointing hp
      (editPoints_of_pointing hp rfl fun _ _ hlive => hlive)
  | linkItems =>
    obtain ⟨-, -, h⟩ := linkItems_eq_ok.1 h
    obtain ⟨-, hx⟩ := insertLink_eq_ok.1 h
    obtain ⟨rfl, rfl⟩ := Prod.mk.inj hx
    exact hsame rfl rfl rfl
  | unlinkItems =>
    obtain ⟨old, -, hx⟩ := unlinkItems_eq_ok.1 h
    obtain ⟨rfl, rfl⟩ := Prod.mk.inj hx
    exact hsame rfl rfl rfl
  | attachEntity rowId itemId entityId role =>
    obtain ⟨hitem, -, hx⟩ := attach_eq_ok.1 h
    obtain ⟨rfl, rfl⟩ := Prod.mk.inj hx
    have hrow : ∀ row ∈ (t.itemEntities.put (w.newItemEntity rowId itemId entityId role)).rows,
        row = w.newItemEntity rowId itemId entityId role ∨ row ∈ t.itemEntities.rows := by
      intro row hmem
      have hmem' : row ∈ ([w.newItemEntity rowId itemId entityId role].foldl KeyTable.put
        t.itemEntities).rows := hmem
      exact (KeyTable.mem_of_mem_rows_foldl_put hmem').imp_left List.mem_singleton.1
    constructor
    · intro row hmem
      rcases hrow row hmem with rfl | hold
      · exact hitem
      · exact hp.bound row hold
    · rintro id e ⟨r, hr, hlive, hpoints⟩
      rw [MemoryTables.pointsAt_iff _ hr] at hpoints
      replace hr : t.getItem id = some r := hr
      have hold : t.pointsAt id e = true → t.entityGone e = false := fun he =>
        hp.live id e ⟨r, hr, hlive, he⟩
      rw [MemoryTables.pointsAt_iff _ hr] at hold
      rcases hpoints with hsubject | ⟨row, hmem, hitemId, hentity⟩
      · exact hold (.inl hsubject)
      · rcases hrow row hmem with rfl | hmem
        · obtain rfl : itemId = id := hitemId
          obtain rfl : entityId = e := hentity
          refine hkeeps fun r' hr' => ?_
          rw [hr] at hr'
          cases hr'
          exact hlive
        · exact hold (.inr ⟨row, hmem, hitemId, hentity⟩)
  | detachEntity rowId =>
    obtain ⟨old, -, hx⟩ := detach_eq_ok.1 h
    obtain ⟨rfl, rfl⟩ := Prod.mk.inj hx
    constructor
    · exact fun row hrow => hp.bound row (KeyTable.mem_rows_drop.1 hrow).1
    · rintro id e ⟨r, hr, hlive, hpoints⟩
      rw [MemoryTables.pointsAt_iff _ hr] at hpoints
      replace hr : t.getItem id = some r := hr
      refine hp.live id e ⟨r, hr, hlive, (MemoryTables.pointsAt_iff _ hr).2 ?_⟩
      rcases hpoints with hsame | ⟨row, hrow, hitem⟩
      · exact .inl hsame
      · exact .inr ⟨row, (KeyTable.mem_rows_drop.1 hrow).1, hitem⟩
  | upsertEntity entityId entity create =>
    rcases upsertEntity_eq_ok.1 h with ⟨-, -, -, hx⟩ | ⟨-, before, hget, -, hx⟩
    · obtain ⟨rfl, rfl⟩ := Prod.mk.inj hx
      exact putEntity_pointing hp hkeeps
    · obtain ⟨rfl, rfl⟩ := Prod.mk.inj hx
      have hid : before.id = entityId := KeyTable.key_of_lookup hget
      refine putEntity_pointing hp fun hd => ?_
      rw [show (w.editedEntity before entity).id = entityId from hid]
      exact hkeeps hd
  | deleteEntity entityId =>
    obtain ⟨before, after, hget, -, rfl, -, hx⟩ := deleteEntity_eq_ok.1 h
    obtain ⟨rfl, rfl⟩ := Prod.mk.inj hx
    have hid : before.id = entityId := KeyTable.key_of_lookup hget
    refine putEntity_pointing hp fun _ => ?_
    rw [show (w.editedEntity before { before.toEntityContent with status := .deleted }).id = entityId
      from hid]
    exact hkeeps
  | relateEntities =>
    obtain ⟨-, hx⟩ := relate_eq_ok.1 h
    obtain ⟨rfl, rfl⟩ := Prod.mk.inj hx
    exact hsame rfl rfl rfl
  | unrelateEntities =>
    obtain ⟨old, -, hx⟩ := unrelate_eq_ok.1 h
    obtain ⟨rfl, rfl⟩ := Prod.mk.inj hx
    exact hsame rfl rfl rfl
  | setTriggerState =>
    obtain ⟨hitems, hentities⟩ := changeTrigger_frame h
    exact hsame hitems (changeTrigger_itemEntities h) hentities
  | updateTrigger =>
    obtain ⟨hitems, hentities⟩ := changeTrigger_frame h
    exact hsame hitems (changeTrigger_itemEntities h) hentities

end Writer

/-! ## Runs -/

/-- **A commit whose ops keep to the condition** keeps what holds. -/
theorem Writer.KeepsPointing.commit {w : Writer} {t t' : Tables} {res : CommitResult}
    (h : w.KeepsPointing t) (hdone : w.commit t = .ok (t', res)) (hp : Pointing t.toMemoryTables) :
    Pointing t'.toMemoryTables := by
  obtain ⟨q, hq⟩ := Writer.commit_parts hdone
  rw [hq.memory]
  have hbatch := hq.batch
  have hstart : Pointing (w.writeVocab t).toMemoryTables := by rwa [w.writeVocab_memory]
  unfold Writer.applyAll at hbatch
  split at hbatch
  · cases hbatch
    exact hstart
  · rename_i hwhole
    refine Writer.steps_keep (Q := fun q => Pointing q.tables.toMemoryTables)
      (fun i p op p' hop hp hstep => ?_) (h.resolve_left hwhole) hstart hbatch
    rcases Writer.step_cases hstep with ⟨v, -, -, rfl⟩ | ⟨v, u, reason, -, -, hskip, rfl⟩ |
      ⟨v, u, log, hv, hallowed, happly, rfl⟩
    · rwa [Writer.refuse_tables]
    · dsimp only
      rwa [(Writer.apply_skip hskip).memory]
    · exact Writer.apply_pointing hp (hop ⟨⟨v, hv, hallowed⟩, _, happly⟩) happly

/-- **In every run of such commits** no live item points at a deleted entity. -/
theorem Reached.pointing {me : Uuid} {es : List Event} {t : Tables}
    (h : Reached Writer.KeepsPointing (Tables.initial me) es t) : Pointing t.toMemoryTables :=
  h.keeps (P := fun t => Pointing t.toMemoryTables) (pointing_initial me)
    (fun _ _ _ _ hw hdone hp => hw.commit hdone hp) fun _ _ hsame hp => hsame.pointing hp

end SecondMind
