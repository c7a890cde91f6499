import SecondMind.Memory.Writer
import SecondMind.Core.Result

/-!
# When an op applies

For each applier of the writer, the condition under which it comes to a result, and the
result.  Callers use these and never unfold an applier.

* `changeItem_eq_ok`, `changeAndLink_eq_ok` — an item edit, alone or with a link;
* `upsertEntity_eq_ok`, `deleteEntity_eq_ok`, `changeTrigger_eq_ok` — the edits of the
  other stamped rows;
* `insertLink_eq_ok`, `attach_eq_ok`, `relate_eq_ok` and their opposites — the rows that
  are only put in and taken out;
* `apply_skip` — an op that is skipped has left the six tables alone.
-/

namespace SecondMind

open Keyed

namespace Writer

variable {w : Writer}

/-! ## The writer's helpers -/

theorem run_eq_ok {α : Type} {x : Except Failure α} {a : α} : run x = .ok a ↔ x = .ok a := by
  cases x <;> simp [run, Except.mapError]

theorem run_ne_skip {α : Type} {x : Except Failure α} {t : Tables} {reason : String} :
    run x ≠ .error (.skip t reason) := by
  cases x <;> simp [run, Except.mapError]

theorem liveItem_eq_ok {t : Tables} {id : Uuid} {allow : Bool} {item : ItemRecord} :
    liveItem t id allow = .ok item ↔
      t.getItem id = some item ∧ (item.status = .deleted → allow = true) := by
  unfold liveItem
  cases h : t.getItem id with
  | none => simp
  | some old =>
    dsimp only
    by_cases hd : old.status = .deleted ∧ (!allow) = true
    · rw [if_pos hd]
      simp only [reduceCtorEq, Option.some.injEq, false_iff, not_and]
      rintro rfl
      simpa [hd.1] using hd.2
    · rw [if_neg hd]
      simp only [Except.ok.injEq, Option.some.injEq]
      constructor
      · rintro rfl
        exact ⟨rfl, fun he => by simpa [he] using hd⟩
      · exact fun e => e.1

/-- An item found alive is live. -/
theorem isLive_of_liveItem {t : Tables} {id : Uuid} {item : ItemRecord}
    (h : liveItem t id = .ok item) : t.isLive id = true := by
  obtain ⟨hget, hdel⟩ := liveItem_eq_ok.1 h
  simp only [MemoryTables.isLive, hget, Option.any_some, decide_eq_true_eq]
  intro he
  exact absurd (hdel he) Bool.false_ne_true

/-- A live item is found alive. -/
theorem liveItem_of_isLive {t : Tables} {id : Uuid} (h : t.isLive id = true) :
    ∃ item, liveItem t id = .ok item := by
  unfold MemoryTables.isLive at h
  cases hget : t.getItem id with
  | none => rw [hget] at h; exact (nomatch h)
  | some item =>
    rw [hget, Option.any_some, decide_eq_true_eq] at h
    exact ⟨item, liveItem_eq_ok.2 ⟨hget, fun e => absurd e h⟩⟩

theorem id_of_liveItem {t : Tables} {id : Uuid} {allow : Bool} {item : ItemRecord}
    (h : liveItem t id allow = .ok item) : item.id = id :=
  KeyTable.key_of_lookup (liveItem_eq_ok.1 h).1

theorem liveItem_eq_skip {t t' : Tables} {id : Uuid} {allow : Bool} {reason : String}
    (h : liveItem t id allow = .error (.skip t' reason)) : t' = t := by
  unfold liveItem at h
  split at h
  · cases h; rfl
  · split at h
    · cases h; rfl
    · exact (nomatch h)

/-- **A new item** has the content it was given, but for the category it is filed under. -/
theorem newItem_eq_ok {itemId : Uuid} {item : ItemContent} {categoryId : Option Uuid}
    {r : ItemRecord} (h : w.newItem itemId item categoryId = .ok r) :
    (∃ c, r.toItemContent = { w.newContent item with categoryId := c }) ∧
      validState item.kind item.state = true ∧ r.id = itemId ∧
      r.createdByTurnId = w.turn.turnId ∧ r.updatedByTurnId = w.turn.turnId := by
  unfold newItem at h
  dsimp only at h
  split at h
  · rename_i hv
    cases h
    refine ⟨?_, hv, rfl, rfl, rfl⟩
    cases categoryId with
    | none => exact ⟨_, rfl⟩
    | some c =>
      refine ⟨some c, ?_⟩
      simp only [newContent]
      split <;> rfl
  · exact (nomatch h)

theorem newContent_kind (item : ItemContent) :
    (w.newContent item).kind = item.kind ∧ (w.newContent item).state = item.state ∧
      (w.newContent item).inCore = item.inCore ∧ (w.newContent item).text = item.text := by
  unfold newContent
  split <;> exact ⟨rfl, rfl, rfl, rfl⟩

theorem newItem_valid {itemId : Uuid} {item : ItemContent} {categoryId : Option Uuid}
    {r : ItemRecord} (h : w.newItem itemId item categoryId = .ok r) :
    validState r.kind r.state = true := by
  obtain ⟨⟨c, hc⟩, hv, -⟩ := newItem_eq_ok h
  obtain ⟨hkind, hstate, -⟩ := w.newContent_kind item
  rw [hc]
  simpa [hkind, hstate] using hv

/-- What `changedItem` makes of an item. -/
def edited (w : Writer) (before : ItemRecord) (changes : ItemChanges) : ItemRecord :=
  { before with
    toItemContent := w.changedContent before.toItemContent changes
    updatedAt := w.turn.now
    updatedByTurnId := w.turn.turnId }

theorem changedItem_eq_ok {before after : ItemRecord} {changes : ItemChanges} :
    w.changedItem before changes = .ok after ↔
      changes.unknown = [] ∧ validState after.kind after.state = true ∧
        after = w.edited before changes := by
  unfold changedItem
  split
  · rename_i hu
    simp [hu]
  · rename_i hu
    simp only [ne_eq, Decidable.not_not] at hu
    dsimp only
    split
    · rename_i hv
      constructor
      · intro h
        cases h
        exact ⟨hu, hv, rfl⟩
      · rintro ⟨_, _, rfl⟩
        rfl
    · rename_i hv
      constructor
      · exact fun h => (nomatch h)
      · rintro ⟨_, hv', rfl⟩
        exact absurd hv' hv

theorem aside_category (t : Tables) (i : Nat) (item : ItemContent) (slug name : Option String) :
    t.Aside (w.category t i item slug name).1 := by
  unfold category
  split
  · exact .refl t
  · exact Tables.aside_upsertCategory t _

theorem aside_refile (t : Tables) (i : Nat) (changes : ItemChanges) :
    t.Aside (w.refile t i changes).1 := by
  unfold refile
  split
  · exact .refl t
  · exact Tables.aside_upsertCategory t _

theorem id_edited (before : ItemRecord) (changes : ItemChanges) :
    (w.edited before changes).id = before.id := rfl

theorem refile_unknown (t : Tables) (i : Nat) (changes : ItemChanges) :
    (w.refile t i changes).2.unknown = changes.unknown := by
  unfold refile
  split <;> rfl

theorem getItem_refile (t : Tables) (i : Nat) (changes : ItemChanges) (id : Uuid) :
    (w.refile t i changes).1.getItem id = t.getItem id := by
  rw [(aside_refile t i changes).memory]

/-- The tables after an item took new content. -/
def storeItem (t : Tables) (after : ItemRecord) : Tables :=
  { t with items := t.items.put (t.keepAccess after) }

theorem replaceItem_eq_storeItem {t t' : Tables} {before : ItemRecord} {changes : ItemChanges}
    (stored : t.getItem before.id = some before) :
    t.replaceItem w.backend (w.edited before changes) = .ok t' ↔
      (w.backend = .sql → t.itemFits (w.edited before changes) = true) ∧
        t' = storeItem t (w.edited before changes) :=
  Tables.replaceItem_eq_ok (by rw [id_edited, stored]; rfl)

/-! ## The appliers -/

/-- **An item edit.**  It applies exactly when the item is stored, every key names a field,
the state is one of its kind's and the constraints hold. -/
theorem changeItem_eq_ok {t : Tables} {i : Nat} {log : RowLog} {itemId : Uuid}
    {changes : ItemChanges} {x : Tables × RowLog} :
    w.changeItem t i log itemId changes = .ok x ↔
      ∃ before after, t.getItem itemId = some before ∧
        after = w.edited before (w.refile t i changes).2 ∧ changes.unknown = [] ∧
        validState after.kind after.state = true ∧
        (w.backend = .sql → (w.refile t i changes).1.itemFits after = true) ∧
        x = (storeItem (w.refile t i changes).1 after,
          w.add log .item before.id (some before) (some after) after.layer) := by
  unfold changeItem
  simp only [bind_eq_ok, run_eq_ok, changedItem_eq_ok, refile_unknown]
  constructor
  · rintro ⟨before, hlive, after, ⟨hu, hv, rfl⟩, t₁, hrep, hx⟩
    obtain ⟨hget, -⟩ := liveItem_eq_ok.1 hlive
    have hid : before.id = itemId := id_of_liveItem hlive
    have hstored : (w.refile t i changes).1.getItem before.id = some before := by
      rw [getItem_refile, hid, hget]
    obtain ⟨hfits, rfl⟩ := (replaceItem_eq_storeItem hstored).1 hrep
    refine ⟨before, _, hget, rfl, hu, hv, hfits, ?_⟩
    cases hx
    rfl
  · rintro ⟨before, after, hget, rfl, hu, hv, hfits, rfl⟩
    have hid : before.id = itemId := KeyTable.key_of_lookup hget
    have hstored : (w.refile t i changes).1.getItem before.id = some before := by
      rw [getItem_refile, hid, hget]
    exact ⟨before, liveItem_eq_ok.2 ⟨hget, fun _ => rfl⟩, _, ⟨hu, hv, rfl⟩, _,
      (replaceItem_eq_storeItem hstored).2 ⟨hfits, rfl⟩, rfl⟩

/-- The link record a writer makes. -/
def newLink (w : Writer) (linkId src : Uuid) (linkType : LinkType) (dst : Uuid) : LinkRecord :=
  { id := linkId, srcItemId := src, linkType := linkType, dstItemId := dst,
    createdByTurnId := w.turn.turnId }

theorem insertLink_eq_ok {t : Tables} {log : RowLog} {linkId src dst : Uuid}
    {linkType : LinkType} {layer : Layer} {x : Tables × RowLog} :
    w.insertLink t log linkId src linkType dst layer = .ok x ↔
      (w.backend = .sql →
        t.getLink linkId = none ∧ t.linkFits (w.newLink linkId src linkType dst) = true) ∧
      x = ({ t with links := t.links.put (w.newLink linkId src linkType dst) },
        w.add log .link linkId none (some (w.newLink linkId src linkType dst)) layer) := by
  unfold insertLink
  simp only [bind_eq_ok, run_eq_ok, Tables.insertLink_eq_ok]
  constructor
  · rintro ⟨t₁, ⟨hfits, rfl⟩, hx⟩
    cases hx
    exact ⟨hfits, rfl⟩
  · rintro ⟨hfits, rfl⟩
    exact ⟨_, ⟨hfits, rfl⟩, rfl⟩

/-- **An item edit with a link.**  The old item takes the changes, then the link is put
in. -/
theorem changeAndLink_eq_ok {t : Tables} {log : RowLog} {old new : ItemRecord}
    {changes : ItemChanges} {linkId : Uuid} {linkType : LinkType} {x : Tables × RowLog}
    (stored : t.getItem old.id = some old) :
    w.changeAndLink t log old new changes linkId linkType = .ok x ↔
      ∃ after, after = w.edited old changes ∧ changes.unknown = [] ∧
        validState after.kind after.state = true ∧
        (w.backend = .sql → t.itemFits after = true) ∧
        w.insertLink (storeItem t after)
          (w.add log .item old.id (some old) (some after) old.layer) linkId new.id linkType old.id
          old.layer = .ok x := by
  unfold changeAndLink
  simp only [bind_eq_ok, run_eq_ok, changedItem_eq_ok]
  constructor
  · rintro ⟨after, ⟨hu, hv, rfl⟩, t₁, hrep, hx⟩
    obtain ⟨hfits, rfl⟩ := (replaceItem_eq_storeItem stored).1 hrep
    exact ⟨_, rfl, hu, hv, hfits, hx⟩
  · rintro ⟨after, rfl, hu, hv, hfits, hx⟩
    exact ⟨_, ⟨hu, hv, rfl⟩, _, (replaceItem_eq_storeItem stored).2 ⟨hfits, rfl⟩, hx⟩

theorem supersede_eq_ok {t : Tables} {log : RowLog} {oldId newId linkId : Uuid} {validTo : Instant}
    {state : String} {x : Tables × RowLog} :
    w.supersede t log oldId newId linkId validTo state = .ok x ↔
      ∃ old new, liveItem t oldId = .ok old ∧ liveItem t newId = .ok new ∧
        (old.validTo = none ∧ old.state ∈ ["current", "scheduled"]) ∧
        w.changeAndLink t log old new { state := some state, validTo := some (some validTo) }
          linkId .supersedes = .ok x := by
  unfold supersede
  simp only [bind_eq_ok]
  constructor
  · rintro ⟨old, hold, new, hnew, h⟩
    split at h
    · exact (nomatch h)
    · rename_i hc
      simp only [ne_eq, not_or, Decidable.not_not] at hc
      exact ⟨old, new, hold, hnew, hc, h⟩
  · rintro ⟨old, new, hold, hnew, hc, h⟩
    refine ⟨old, hold, new, hnew, ?_⟩
    rw [if_neg (by simpa only [ne_eq, not_or, Decidable.not_not] using hc)]
    exact h

theorem correct_eq_ok {t : Tables} {log : RowLog} {oldId newId linkId : Uuid}
    {x : Tables × RowLog} :
    w.correct t log oldId newId linkId = .ok x ↔
      ∃ old new, liveItem t oldId = .ok old ∧ liveItem t newId = .ok new ∧
        old.status = .active ∧
        w.changeAndLink t log old new { status := some .archived } linkId .corrects = .ok x := by
  unfold correct
  simp only [bind_eq_ok]
  constructor
  · rintro ⟨old, hold, new, hnew, h⟩
    split at h
    · exact (nomatch h)
    · rename_i hc
      exact ⟨old, new, hold, hnew, Decidable.not_not.1 hc, h⟩
  · rintro ⟨old, new, hold, hnew, hc, h⟩
    refine ⟨old, hold, new, hnew, ?_⟩
    rw [if_neg (Decidable.not_not.2 hc)]
    exact h

theorem fulfil_eq_ok {t : Tables} {log : RowLog} {intentionId episodeId linkId : Uuid}
    {state : String} {x : Tables × RowLog} :
    w.fulfil t log intentionId episodeId linkId state = .ok x ↔
      ∃ intention episode, liveItem t intentionId = .ok intention ∧
        liveItem t episodeId = .ok episode ∧ intention.state ∉ ["fulfilled", "dropped"] ∧
        w.changeAndLink t log intention episode { state := some state } linkId .fulfils
          = .ok x := by
  unfold fulfil
  simp only [bind_eq_ok]
  constructor
  · rintro ⟨old, hold, new, hnew, h⟩
    split at h
    · exact (nomatch h)
    · rename_i hc
      exact ⟨old, new, hold, hnew, hc, h⟩
  · rintro ⟨old, new, hold, hnew, hc, h⟩
    refine ⟨old, hold, new, hnew, ?_⟩
    rw [if_neg hc]
    exact h

theorem linkItems_eq_ok {t : Tables} {log : RowLog} {linkId src dst : Uuid} {linkType : LinkType}
    {x : Tables × RowLog} :
    w.linkItems t log linkId src linkType dst = .ok x ↔
      t.isLive src = true ∧ t.isLive dst = true ∧
        w.insertLink t log linkId src linkType dst .archive = .ok x := by
  unfold linkItems
  simp only [bind_eq_ok]
  constructor
  · rintro ⟨_, hsrc, _, hdst, h⟩
    exact ⟨isLive_of_liveItem hsrc, isLive_of_liveItem hdst, h⟩
  · rintro ⟨hsrc, hdst, h⟩
    obtain ⟨a, ha⟩ := liveItem_of_isLive hsrc
    obtain ⟨b, hb⟩ := liveItem_of_isLive hdst
    exact ⟨a, ha, b, hb, h⟩

theorem unlinkItems_eq_ok {t : Tables} {log : RowLog} {linkId : Uuid} {x : Tables × RowLog} :
    w.unlinkItems t log linkId = .ok x ↔
      ∃ old, t.getLink linkId = some old ∧
        x = (t.deleteLink linkId, w.add log .link linkId (some old) none .archive) := by
  unfold unlinkItems
  cases t.getLink linkId <;> simp [eq_comm]

/-- The entity row a writer makes. -/
def newItemEntity (w : Writer) (rowId itemId entityId : Uuid) (role : EntityRole) :
    ItemEntityRecord :=
  { id := rowId, itemId := itemId, entityId := entityId, role := role,
    createdByTurnId := w.turn.turnId }

theorem attach_eq_ok {t : Tables} {log : RowLog} {rowId itemId entityId : Uuid} {role : EntityRole}
    {x : Tables × RowLog} :
    w.attach t log rowId itemId entityId role = .ok x ↔
      (t.getItem itemId).isSome ∧
      (w.backend = .sql → t.getItemEntity rowId = none ∧
        t.itemEntityFits (w.newItemEntity rowId itemId entityId role) = true) ∧
      x = ({ t with itemEntities := t.itemEntities.put (w.newItemEntity rowId itemId entityId role) },
        w.add log .itemEntity rowId none (some (w.newItemEntity rowId itemId entityId role))
          .archive) := by
  unfold attach
  simp only [bind_eq_ok, run_eq_ok, Tables.insertItemEntity_eq_ok]
  constructor
  · rintro ⟨item, hitem, t₁, ⟨hfits, rfl⟩, hx⟩
    cases hx
    exact ⟨by rw [(liveItem_eq_ok.1 hitem).1]; rfl, hfits, rfl⟩
  · rintro ⟨hstored, hfits, rfl⟩
    obtain ⟨item, hitem⟩ := Option.isSome_iff_exists.1 hstored
    exact ⟨item, liveItem_eq_ok.2 ⟨hitem, fun _ => rfl⟩, _, ⟨hfits, rfl⟩, rfl⟩

theorem detach_eq_ok {t : Tables} {log : RowLog} {rowId : Uuid} {x : Tables × RowLog} :
    w.detach t log rowId = .ok x ↔
      ∃ old, t.getItemEntity rowId = some old ∧
        x = (t.deleteItemEntity rowId, w.add log .itemEntity rowId (some old) none .archive) := by
  unfold detach
  cases t.getItemEntity rowId <;> simp [eq_comm]

/-- The entity record a writer makes. -/
def newEntity (w : Writer) (entityId : Uuid) (entity : EntityContent) : EntityRecord :=
  { toEntityContent := entity, id := entityId, createdAt := w.turn.now, updatedAt := w.turn.now,
    createdByTurnId := some w.turn.turnId, updatedByTurnId := some w.turn.turnId }

/-- What a writer makes of an entity. -/
def editedEntity (w : Writer) (before : EntityRecord) (entity : EntityContent) : EntityRecord :=
  { before with toEntityContent := entity, updatedAt := w.turn.now,
                updatedByTurnId := some w.turn.turnId }

theorem replaceEntity_editedEntity {t t' : Tables} {entityId : Uuid} {before : EntityRecord}
    (stored : t.getEntity entityId = some before) (entity : EntityContent) :
    t.replaceEntity w.backend (w.editedEntity before entity) = .ok t' ↔
      (w.backend = .sql → t.entityFits (w.editedEntity before entity) = true) ∧
        t' = { t with entities := t.entities.put (w.editedEntity before entity) } := by
  have hid : before.id = entityId := KeyTable.key_of_lookup stored
  refine Tables.replaceEntity_eq_ok ?_
  show (t.getEntity before.id).isSome
  rw [hid, stored]
  rfl

/-- **An entity upsert.**  It makes the entity if it is to be made and is not there, and
sets its content if it is to be changed and is there. -/
theorem upsertEntity_eq_ok {t : Tables} {log : RowLog} {entityId : Uuid} {entity : EntityContent}
    {create : Bool} {x : Tables × RowLog} :
    w.upsertEntity t log entityId entity create = .ok x ↔
      (create = true ∧ t.getEntity entityId = none ∧
        (w.backend = .sql → t.entityFits (w.newEntity entityId entity) = true) ∧
        x = ({ t with entities := t.entities.put (w.newEntity entityId entity) },
          w.add log .entity entityId none (some (w.newEntity entityId entity)) .archive)) ∨
      (create = false ∧ ∃ before, t.getEntity entityId = some before ∧
        (w.backend = .sql → t.entityFits (w.editedEntity before entity) = true) ∧
        x = ({ t with entities := t.entities.put (w.editedEntity before entity) },
          w.add log .entity before.id (some before) (some (w.editedEntity before entity))
            .archive)) := by
  unfold upsertEntity
  cases hget : t.getEntity entityId with
  | none =>
    cases create
    · simp
    · simp only [bind_eq_ok, run_eq_ok, Tables.insertEntity_eq_ok]
      constructor
      · rintro ⟨t₁, ⟨hfits, rfl⟩, hx⟩
        cases hx
        exact .inl ⟨trivial, trivial, fun e => (hfits e).2, rfl⟩
      · rintro (⟨-, -, hfits, rfl⟩ | ⟨h, -⟩)
        · exact ⟨_, ⟨fun e => ⟨hget, hfits e⟩, rfl⟩, rfl⟩
        · exact (nomatch h)
  | some before =>
    cases create
    · simp only [bind_eq_ok, run_eq_ok]
      constructor
      · rintro ⟨t₁, hrep, hx⟩
        obtain ⟨hfits, rfl⟩ := (replaceEntity_editedEntity hget _).1 hrep
        cases hx
        exact .inr ⟨trivial, before, rfl, hfits, rfl⟩
      · rintro (⟨h, -⟩ | ⟨-, _, ⟨⟩, hfits, rfl⟩)
        · exact (nomatch h)
        · exact ⟨_, (replaceEntity_editedEntity hget _).2 ⟨hfits, rfl⟩, rfl⟩
    · simp

theorem deleteEntity_eq_ok {t : Tables} {log : RowLog} {entityId : Uuid} {x : Tables × RowLog} :
    w.deleteEntity t log entityId = .ok x ↔
      ∃ before after, t.getEntity entityId = some before ∧ before.kind ≠ .self ∧
        after = w.editedEntity before { before.toEntityContent with status := .deleted } ∧
        (w.backend = .sql → t.entityFits after = true) ∧
        x = ({ t with entities := t.entities.put after },
          w.add log .entity before.id (some before) (some after) .archive) := by
  unfold deleteEntity
  cases hget : t.getEntity entityId with
  | none => simp
  | some before =>
    dsimp only
    split
    · rename_i hk
      simp [hk]
    · rename_i hk
      simp only [bind_eq_ok, run_eq_ok]
      constructor
      · rintro ⟨t₁, hrep, hx⟩
        obtain ⟨hfits, rfl⟩ := (replaceEntity_editedEntity hget
          { before.toEntityContent with status := .deleted }).1 hrep
        cases hx
        exact ⟨before, _, rfl, hk, rfl, hfits, rfl⟩
      · rintro ⟨_, _, ⟨⟩, -, rfl, hfits, rfl⟩
        exact ⟨_, (replaceEntity_editedEntity hget _).2 ⟨hfits, rfl⟩, rfl⟩

/-- The relation a writer makes. -/
def newRelation (w : Writer) (relationId src : Uuid) (relation : String) (dst : Uuid)
    (validFrom : Option Instant) (evidence : Option Uuid) : RelationRecord :=
  { id := relationId, srcEntityId := src, relation := relation, dstEntityId := dst,
    validFrom := validFrom, evidenceItemId := evidence, createdByTurnId := w.turn.turnId }

theorem relate_eq_ok {t : Tables} {log : RowLog} {relationId src dst : Uuid} {relation : String}
    {validFrom : Option Instant} {evidence : Option Uuid} {x : Tables × RowLog} :
    w.relate t log relationId src relation dst validFrom evidence = .ok x ↔
      (w.backend = .sql → t.getRelation relationId = none ∧
        t.relationFits (w.newRelation relationId src relation dst validFrom evidence) = true) ∧
      x = ({ t with relations :=
              t.relations.put (w.newRelation relationId src relation dst validFrom evidence) },
        w.add log .relation relationId none
          (some (w.newRelation relationId src relation dst validFrom evidence)) .archive) := by
  unfold relate
  simp only [bind_eq_ok, run_eq_ok, Tables.insertRelation_eq_ok]
  constructor
  · rintro ⟨t₁, ⟨hfits, rfl⟩, hx⟩
    cases hx
    exact ⟨hfits, rfl⟩
  · rintro ⟨hfits, rfl⟩
    exact ⟨_, ⟨hfits, rfl⟩, rfl⟩

theorem unrelate_eq_ok {t : Tables} {log : RowLog} {relationId : Uuid} {x : Tables × RowLog} :
    w.unrelate t log relationId = .ok x ↔
      ∃ old, t.getRelation relationId = some old ∧
        x = (t.deleteRelation relationId,
          w.add log .relation relationId (some old) none .archive) := by
  unfold unrelate
  cases t.getRelation relationId <;> simp [eq_comm]

/-- What a writer makes of a trigger. -/
def editedTrigger (w : Writer) (before : TriggerRecord) (changes : TriggerChanges) :
    TriggerRecord :=
  { changes.apply before with updatedAt := w.turn.now, updatedByTurnId := w.turn.turnId }

theorem changeTrigger_eq_ok {t : Tables} {log : RowLog} {triggerId : Uuid}
    {changes : TriggerChanges} {x : Tables × RowLog} :
    w.changeTrigger t log triggerId changes = .ok x ↔
      ∃ before t', t.getTrigger triggerId = some before ∧ changes.unknown = [] ∧
        t.replaceTrigger w.backend (w.editedTrigger before changes) = .ok t' ∧
        x = (t', w.add log .trigger before.id (some before)
          (some (w.editedTrigger before changes)) .quick) := by
  unfold changeTrigger
  cases hget : t.getTrigger triggerId with
  | none => simp
  | some before =>
    dsimp only
    split
    · rename_i hu
      constructor
      · exact fun h => (nomatch h)
      · rintro ⟨_, _, -, hu', -, -⟩
        exact absurd hu' hu
    · rename_i hu
      simp only [bind_eq_ok, run_eq_ok]
      constructor
      · rintro ⟨t₁, hrep, hx⟩
        cases hx
        exact ⟨before, t₁, rfl, Decidable.not_not.1 hu, hrep, rfl⟩
      · rintro ⟨_, t₁, ⟨⟩, -, hrep, rfl⟩
        exact ⟨t₁, hrep, rfl⟩

theorem changeTrigger_frame {t t' : Tables} {log log' : RowLog} {triggerId : Uuid}
    {changes : TriggerChanges} (h : w.changeTrigger t log triggerId changes = .ok (t', log')) :
    t'.items = t.items ∧ t'.entities = t.entities := by
  obtain ⟨before, t₁, -, -, hrep, hx⟩ := changeTrigger_eq_ok.1 h
  obtain ⟨rfl, rfl⟩ := Prod.mk.inj hx
  unfold Tables.replaceTrigger at hrep
  split at hrep
  · cases hrep
    exact ⟨rfl, rfl⟩
  · obtain ⟨-, rfl⟩ := Tables.statement_eq_ok.1 hrep
    exact ⟨rfl, rfl⟩

/-! ## What an op does to the items -/

theorem attachNew_frame {record : ItemRecord} {links : List EntityLink} {t t' : Tables}
    {log log' : RowLog} (h : w.attachNew record t log links = .ok (t', log')) :
    t'.items = t.items ∧ t'.entities = t.entities ∧ t'.triggers = t.triggers := by
  induction links generalizing t log with
  | nil =>
    cases h
    exact ⟨rfl, rfl, rfl⟩
  | cons link links ih =>
    unfold attachNew at h
    split at h
    · exact (nomatch h)
    · obtain ⟨t₁, hins, h⟩ := bind_eq_ok.1 h
      obtain ⟨-, rfl⟩ := Tables.insertItemEntity_eq_ok.1 (run_eq_ok.1 hins)
      have hrest := ih h
      exact hrest

theorem triggerNew_frame {record : ItemRecord} {news : List NewTrigger} {t t' : Tables}
    {log log' : RowLog} (h : w.triggerNew record t log news = .ok (t', log')) :
    t'.items = t.items ∧ t'.entities = t.entities ∧ (news = [] → t'.triggers = t.triggers) := by
  induction news generalizing t log with
  | nil =>
    cases h
    exact ⟨rfl, rfl, fun _ => rfl⟩
  | cons new news ih =>
    obtain ⟨t₁, hins, h⟩ := bind_eq_ok.1 h
    obtain ⟨-, rfl⟩ := Tables.insertTrigger_eq_ok.1 (run_eq_ok.1 hins)
    obtain ⟨hitems, hentities, -⟩ := ih h
    exact ⟨hitems, hentities, fun e => (nomatch e)⟩

/-- **An item creation** puts one item in, under a free id. -/
theorem createItem_frame {t t' : Tables} {i : Nat} {log log' : RowLog} {itemId : Uuid}
    {item : ItemContent} {entities : List EntityLink} {triggers : List NewTrigger}
    {slug name : Option String}
    (h : w.createItem t i log itemId item entities triggers slug name = .ok (t', log')) :
    ∃ record, w.newItem itemId item (w.category t i item slug name).2 = .ok record ∧
      t.getItem itemId = none ∧ t'.items = t.items.put record ∧ t'.entities = t.entities ∧
      (triggers = [] → t'.triggers = t.triggers) := by
  have hmem := (w.aside_category t i item slug name).memory
  obtain ⟨record, hnew, h⟩ := bind_eq_ok.1 h
  replace hnew := run_eq_ok.1 hnew
  have hid := (newItem_eq_ok hnew).2.2.1
  split at h
  · exact (nomatch h)
  · rename_i hfree
    obtain ⟨t₁, hins, h⟩ := bind_eq_ok.1 h
    obtain ⟨-, rfl⟩ := Tables.insertItem_eq_ok.1 (run_eq_ok.1 hins)
    obtain ⟨⟨t₂, log₂⟩, hatt, h⟩ := bind_eq_ok.1 h
    obtain ⟨hitems, hentities, htriggers⟩ := attachNew_frame hatt
    obtain ⟨hitems', hentities', htriggers'⟩ := triggerNew_frame h
    refine ⟨record, hnew, ?_, ?_, ?_, fun e => ?_⟩
    · rw [← hid, ← hmem]
      exact Option.not_isSome_iff_eq_none.1 hfree
    · rw [hitems', hitems, ← hmem]
    · rw [hentities', hentities, ← hmem]
    · rw [htriggers' e, htriggers, ← hmem]

/-- The dictionary an item edit applies, once its category is filed. -/
def filedChanges (w : Writer) (t : Tables) (i : Nat) (body : OpBody) : ItemChanges :=
  (w.refile t i body.itemChanges).2

theorem refile_of_none {t : Tables} {i : Nat} {changes : ItemChanges}
    (h : changes.categorySlug = none) : w.refile t i changes = (t, changes) := by
  rw [refile, h]

/-- What an op did to the items: nothing, or it put a new one in, or it edited the one it
is about. -/
inductive ItemEffect (w : Writer) (t : Tables) (i : Nat) (body : OpBody) (t' : Tables) : Prop
  | none (same : t'.items = t.items)
  | new {itemId : Uuid} {item : ItemContent} {entities : List EntityLink}
      {triggers : List NewTrigger} {slug name : Option String} {record : ItemRecord}
      (hbody : body = .createItem itemId item entities triggers slug name)
      (hnew : w.newItem itemId item (w.category t i item slug name).2 = .ok record)
      (free : t.getItem itemId = Option.none) (put : t'.items = t.items.put record)
  | edit {before : ItemRecord} (htarget : body.target = (.item, before.id))
      (hcreate : body.isCreate = false) (stored : t.getItem before.id = some before)
      (put : t'.items =
        t.items.put (t.keepAccess (w.edited before (w.filedChanges t i body))))

theorem changeItem_effect {t t' : Tables} {i : Nat} {log log' : RowLog} {body : OpBody}
    {itemId : Uuid} (htarget : body.target = (.item, itemId)) (hcreate : body.isCreate = false)
    (h : w.changeItem t i log itemId body.itemChanges = .ok (t', log')) :
    ItemEffect w t i body t' := by
  obtain ⟨before, after, hget, rfl, -, -, -, hx⟩ := changeItem_eq_ok.1 h
  obtain ⟨rfl, rfl⟩ := Prod.mk.inj hx
  obtain rfl : before.id = itemId := KeyTable.key_of_lookup hget
  have hmem := (w.aside_refile t i body.itemChanges).memory
  refine .edit htarget hcreate hget ?_
  simp only [storeItem, Tables.keepAccess, hmem]
  rfl

theorem changeAndLink_effect {t t' : Tables} {i : Nat} {log log' : RowLog} {body : OpBody}
    {oldId : Uuid} {old new : ItemRecord} {linkId : Uuid} {linkType : LinkType}
    (htarget : body.target = (.item, oldId)) (hcreate : body.isCreate = false)
    (hslug : body.itemChanges.categorySlug = Option.none) (hold : liveItem t oldId = .ok old)
    (h : w.changeAndLink t log old new body.itemChanges linkId linkType = .ok (t', log')) :
    ItemEffect w t i body t' := by
  obtain rfl := id_of_liveItem hold
  have hget := (liveItem_eq_ok.1 hold).1
  obtain ⟨after, rfl, -, -, -, hlink⟩ := (changeAndLink_eq_ok hget).1 h
  obtain ⟨-, hx⟩ := insertLink_eq_ok.1 hlink
  obtain ⟨rfl, rfl⟩ := Prod.mk.inj hx
  refine .edit htarget hcreate hget ?_
  rw [filedChanges, refile_of_none hslug]
  rfl

/-- **What an op does to the items.** -/
theorem apply_itemEffect {t t' : Tables} {i : Nat} {log log' : RowLog} {body : OpBody}
    (h : w.apply t i log body = .ok (t', log')) : ItemEffect w t i body t' := by
  cases body with
  | createItem itemId item entities triggers slug name =>
    obtain ⟨record, hnew, hfree, hitems, -, -⟩ := createItem_frame h
    exact .new rfl hnew hfree hitems
  | updateItem => exact changeItem_effect rfl rfl h
  | setItemState => exact changeItem_effect rfl rfl h
  | deleteItem => exact changeItem_effect rfl rfl h
  | restoreItem => exact changeItem_effect rfl rfl h
  | supersedeItem =>
    obtain ⟨old, new, hold, -, -, h⟩ := supersede_eq_ok.1 h
    exact changeAndLink_effect rfl rfl rfl hold h
  | correctItem =>
    obtain ⟨old, new, hold, -, -, h⟩ := correct_eq_ok.1 h
    exact changeAndLink_effect rfl rfl rfl hold h
  | fulfilIntention =>
    obtain ⟨old, new, hold, -, -, h⟩ := fulfil_eq_ok.1 h
    exact changeAndLink_effect rfl rfl rfl hold h
  | linkItems =>
    obtain ⟨-, -, h⟩ := linkItems_eq_ok.1 h
    obtain ⟨-, hx⟩ := insertLink_eq_ok.1 h
    obtain ⟨rfl, rfl⟩ := Prod.mk.inj hx
    exact .none rfl
  | unlinkItems =>
    obtain ⟨old, -, hx⟩ := unlinkItems_eq_ok.1 h
    obtain ⟨rfl, rfl⟩ := Prod.mk.inj hx
    exact .none rfl
  | attachEntity =>
    obtain ⟨-, -, hx⟩ := attach_eq_ok.1 h
    obtain ⟨rfl, rfl⟩ := Prod.mk.inj hx
    exact .none rfl
  | detachEntity =>
    obtain ⟨old, -, hx⟩ := detach_eq_ok.1 h
    obtain ⟨rfl, rfl⟩ := Prod.mk.inj hx
    exact .none rfl
  | upsertEntity =>
    rcases upsertEntity_eq_ok.1 h with ⟨-, -, -, hx⟩ | ⟨-, before, -, -, hx⟩
    · obtain ⟨rfl, rfl⟩ := Prod.mk.inj hx
      exact .none rfl
    · obtain ⟨rfl, rfl⟩ := Prod.mk.inj hx
      exact .none rfl
  | deleteEntity =>
    obtain ⟨before, after, -, -, -, -, hx⟩ := deleteEntity_eq_ok.1 h
    obtain ⟨rfl, rfl⟩ := Prod.mk.inj hx
    exact .none rfl
  | relateEntities =>
    obtain ⟨-, hx⟩ := relate_eq_ok.1 h
    obtain ⟨rfl, rfl⟩ := Prod.mk.inj hx
    exact .none rfl
  | unrelateEntities =>
    obtain ⟨old, -, hx⟩ := unrelate_eq_ok.1 h
    obtain ⟨rfl, rfl⟩ := Prod.mk.inj hx
    exact .none rfl
  | setTriggerState => exact .none (changeTrigger_frame h).1
  | updateTrigger => exact .none (changeTrigger_frame h).1

/-! ## Skips -/

theorem insertLink_ne_skip {t t' : Tables} {log : RowLog} {linkId src dst : Uuid}
    {linkType : LinkType} {layer : Layer} {reason : String} :
    w.insertLink t log linkId src linkType dst layer ≠ .error (.skip t' reason) := by
  intro h
  unfold insertLink at h
  rcases bind_eq_error.1 h with h | ⟨_, -, h⟩
  · exact run_ne_skip h
  · exact (nomatch h)

theorem changeAndLink_ne_skip {t t' : Tables} {log : RowLog} {old new : ItemRecord}
    {changes : ItemChanges} {linkId : Uuid} {linkType : LinkType} {reason : String} :
    w.changeAndLink t log old new changes linkId linkType ≠ .error (.skip t' reason) := by
  intro h
  unfold changeAndLink at h
  rcases bind_eq_error.1 h with h | ⟨_, -, h⟩
  · exact run_ne_skip h
  · rcases bind_eq_error.1 h with h | ⟨_, -, h⟩
    · exact run_ne_skip h
    · exact insertLink_ne_skip h

theorem attachNew_ne_skip {record : ItemRecord} {links : List EntityLink} {t t' : Tables}
    {log : RowLog} {reason : String} :
    w.attachNew record t log links ≠ .error (.skip t' reason) := by
  induction links generalizing t log with
  | nil => exact fun h => (nomatch h)
  | cons link links ih =>
    intro h
    unfold attachNew at h
    split at h
    · exact (nomatch h)
    · rcases bind_eq_error.1 h with h | ⟨_, -, h⟩
      · exact run_ne_skip h
      · exact ih h

theorem triggerNew_ne_skip {record : ItemRecord} {news : List NewTrigger} {t t' : Tables}
    {log : RowLog} {reason : String} :
    w.triggerNew record t log news ≠ .error (.skip t' reason) := by
  induction news generalizing t log with
  | nil => exact fun h => (nomatch h)
  | cons new news ih =>
    intro h
    rcases bind_eq_error.1 h with h | ⟨_, -, h⟩
    · exact run_ne_skip h
    · exact ih h

/-- A create that is skipped is of a stored item, and has looked up its category. -/
theorem createItem_skip_eq {t t' : Tables} {i : Nat} {log : RowLog} {itemId : Uuid}
    {item : ItemContent} {entities : List EntityLink} {triggers : List NewTrigger}
    {slug name : Option String} {reason : String}
    (h : w.createItem t i log itemId item entities triggers slug name = .error (.skip t' reason)) :
    t' = (w.category t i item slug name).1 ∧ (t.getItem itemId).isSome = true := by
  have hmemory := (aside_category (w := w) t i item slug name).memory
  rcases bind_eq_error.1 h with h | ⟨record, hrecord, h⟩
  · exact absurd h run_ne_skip
  · split at h
    · rename_i hstored
      cases h
      obtain ⟨-, -, rfl, -⟩ := newItem_eq_ok (run_eq_ok.1 hrecord)
      refine ⟨rfl, ?_⟩
      rwa [hmemory] at hstored
    · rcases bind_eq_error.1 h with h | ⟨_, -, h⟩
      · exact absurd h run_ne_skip
      · rcases bind_eq_error.1 h with h | ⟨_, -, h⟩
        · exact absurd h attachNew_ne_skip
        · exact absurd h triggerNew_ne_skip

theorem changeItem_skip {t t' : Tables} {i : Nat} {log : RowLog} {itemId : Uuid}
    {changes : ItemChanges} {reason : String}
    (h : w.changeItem t i log itemId changes = .error (.skip t' reason)) : t' = t := by
  rcases bind_eq_error.1 h with h | ⟨_, -, h⟩
  · exact liveItem_eq_skip h
  · rcases bind_eq_error.1 h with h | ⟨_, -, h⟩
    · exact absurd h run_ne_skip
    · rcases bind_eq_error.1 h with h | ⟨_, -, h⟩
      · exact absurd h run_ne_skip
      · exact (nomatch h)

/-- Two checks of items and then something that never skips. -/
theorem liveItems_skip {t t' : Tables} {a b : Uuid} {reason : String}
    {f : ItemRecord → ItemRecord → Except Halt (Tables × RowLog)}
    (hf : ∀ x y t' reason, f x y = .error (.skip t' reason) → t' = t)
    (h : (do
        let x ← liveItem t a
        let y ← liveItem t b
        f x y) = .error (.skip t' reason)) : t' = t := by
  rcases bind_eq_error.1 h with h | ⟨x, -, h⟩
  · exact liveItem_eq_skip h
  · rcases bind_eq_error.1 h with h | ⟨y, -, h⟩
    · exact liveItem_eq_skip h
    · exact hf x y t' reason h

theorem changeTrigger_skip {t t' : Tables} {log : RowLog} {triggerId : Uuid}
    {changes : TriggerChanges} {reason : String}
    (h : w.changeTrigger t log triggerId changes = .error (.skip t' reason)) : t' = t := by
  unfold changeTrigger at h
  split at h
  · cases h; rfl
  · split at h
    · exact (nomatch h)
    · rcases bind_eq_error.1 h with h | ⟨_, -, h⟩
      · exact absurd h run_ne_skip
      · exact (nomatch h)

/-- **A skipped op has changed nothing**, unless it is a create. -/
theorem apply_skip_eq {t t' : Tables} {i : Nat} {log : RowLog} {body : OpBody} {reason : String}
    (hbody : body.isCreate = false) (h : w.apply t i log body = .error (.skip t' reason)) :
    t' = t := by
  cases body with
  | createItem => exact absurd hbody Bool.noConfusion
  | updateItem => exact changeItem_skip h
  | setItemState => exact changeItem_skip h
  | deleteItem => exact changeItem_skip h
  | restoreItem => exact changeItem_skip h
  | supersedeItem =>
    refine liveItems_skip (fun x y t' reason h => ?_) h
    split at h
    · cases h; rfl
    · exact absurd h changeAndLink_ne_skip
  | correctItem =>
    refine liveItems_skip (fun x y t' reason h => ?_) h
    split at h
    · cases h; rfl
    · exact absurd h changeAndLink_ne_skip
  | fulfilIntention =>
    refine liveItems_skip (fun x y t' reason h => ?_) h
    split at h
    · cases h; rfl
    · exact absurd h changeAndLink_ne_skip
  | linkItems =>
    exact liveItems_skip (fun _ _ _ _ h => absurd h insertLink_ne_skip) h
  | unlinkItems linkId =>
    simp only [apply, unlinkItems] at h
    split at h
    · cases h; rfl
    · exact (nomatch h)
  | attachEntity rowId itemId entityId role =>
    rcases bind_eq_error.1 h with h | ⟨_, -, h⟩
    · exact liveItem_eq_skip h
    · rcases bind_eq_error.1 h with h | ⟨_, -, h⟩
      · exact absurd h run_ne_skip
      · exact (nomatch h)
  | detachEntity rowId =>
    simp only [apply, detach] at h
    split at h
    · cases h; rfl
    · exact (nomatch h)
  | upsertEntity entityId entity create =>
    simp only [apply, upsertEntity] at h
    split at h
    · cases h; rfl
    · rcases bind_eq_error.1 h with h | ⟨_, -, h⟩
      · exact absurd h run_ne_skip
      · exact (nomatch h)
    · cases h; rfl
    · rcases bind_eq_error.1 h with h | ⟨_, -, h⟩
      · exact absurd h run_ne_skip
      · exact (nomatch h)
  | deleteEntity entityId =>
    simp only [apply, deleteEntity] at h
    split at h
    · cases h; rfl
    · split at h
      · cases h; rfl
      · rcases bind_eq_error.1 h with h | ⟨_, -, h⟩
        · exact absurd h run_ne_skip
        · exact (nomatch h)
  | relateEntities =>
    rcases bind_eq_error.1 h with h | ⟨_, -, h⟩
    · exact absurd h run_ne_skip
    · exact (nomatch h)
  | unrelateEntities relationId =>
    simp only [apply, unrelate] at h
    split at h
    · cases h; rfl
    · exact (nomatch h)
  | setTriggerState => exact changeTrigger_skip h
  | updateTrigger => exact changeTrigger_skip h

/-- What a skipped op leaves is at most the category it names. -/
theorem apply_skip {t t' : Tables} {i : Nat} {log : RowLog} {body : OpBody} {reason : String}
    (h : w.apply t i log body = .error (.skip t' reason)) : t.Aside t' := by
  cases hbody : body.isCreate with
  | false => exact apply_skip_eq hbody h ▸ .refl t
  | true =>
    cases body with
    | createItem itemId item entities triggers slug name =>
      exact (createItem_skip_eq h).1 ▸ aside_category t i item slug name
    | _ => exact absurd hbody Bool.noConfusion

end Writer
end SecondMind
