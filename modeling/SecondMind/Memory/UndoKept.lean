import SecondMind.Memory.Pointing
import SecondMind.Memory.UndoConflicts

/-!
# What an undo keeps of a memory

A conflict keeps the row of an item.  The rows around it, its entity rows, its links and its
triggers, are rows of their own: each is taken back for itself, and the entity they name with them.

* `KeptForLater` — an item that the undo keeps for a later turn's sake;
* `Whole` — an item still has its rows, links and triggers;
* `LeftAlone` — the turn made none of them, and changed none of the triggers;
* `undo_keeps_whole` — such items stay whole, and no live item points at a deleted entity;
* `undo_leaves_half` — a renamed memory that loses the place it is about.
-/

namespace SecondMind

open Keyed

/-! ## Kept items -/

/-- The turn wrote the item, and another turn changed it last, so the undo keeps it. -/
def KeptForLater (t : Tables) (turnId id : Uuid) : Prop :=
  (∃ row ∈ wroteRows t turnId, row.key = (.item, id)) ∧
    ∃ r, t.getItem id = some r ∧ r.updatedByTurnId ≠ turnId

/-- **The item is whole**: it has the entity rows, the links and the triggers that it had. -/
structure Whole (t t' : MemoryTables) (id : Uuid) : Prop where
  itemEntities : ∀ row ∈ t.itemEntities.rows, row.itemId = id → row ∈ t'.itemEntities.rows
  links : ∀ row ∈ t.links.rows, row.srcItemId = id ∨ row.dstItemId = id → row ∈ t'.links.rows
  triggers : ∀ r ∈ t.triggers.rows, r.itemId = id → ∃ r', t'.getTrigger r.id = some r' ∧
    r'.itemId = id ∧ r'.toTriggerContent = r.toTriggerContent

/-- The turn made the row, and it is in no conflict. -/
def MadeRow (t : Tables) (turnId : Uuid) (key : TargetType × Uuid) : Prop :=
  ∃ row ∈ wroteRows t turnId, row.key = key ∧ row.before.isNone = true ∧
    key.2 ∉ conflicted t turnId

/-- The op changes a trigger to what it is. -/
def OpBody.LeavesTrigger (r : TriggerRecord) : OpBody → Prop
  | .setTriggerState _ state => r.state = state
  | .updateTrigger _ changes => (changes.apply r).toTriggerContent = r.toTriggerContent
  | _ => True

/-- **The turn left what is around the item alone**: it made none of its entity rows and links, and
what it did to its triggers is nothing to take back. -/
structure LeftAlone (t : Tables) (turnId id : Uuid) : Prop where
  itemEntities : ∀ row ∈ t.itemEntities.rows, row.itemId = id →
    ¬ MadeRow t turnId (.itemEntity, row.id)
  links : ∀ row ∈ t.links.rows, row.srcItemId = id ∨ row.dstItemId = id →
    ¬ MadeRow t turnId (.link, row.id)
  triggers : ∀ r ∈ t.triggers.rows, r.itemId = id → ∀ row ∈ wroteRows t turnId,
    row.key = (.trigger, r.id) → r.id ∉ conflicted t turnId → ∀ newId op,
      inverse newId row = some op → op.body.LeavesTrigger r

/-! ## The ops of a plan -/

/-- An op of a plan takes a row back, under one of the ids of the plan if it needs a new one. -/
theorem taken_of_mem {planId : Nat → Uuid} {t : Tables} {turnId : Uuid} {op : Op}
    (h : op ∈ (planUndo planId t turnId).ops) : ∃ row ∈ wroteRows t turnId,
      row.targetId ∉ conflicted t turnId ∧ ∃ k, inverse (planId k) row = some op := by
  obtain ⟨e, he, hop⟩ := List.mem_filterMap.1 h
  split at hop
  · exact (nomatch hop)
  · rename_i hnot
    have hrow : e.1 ∈ (wroteRows t turnId).reverse := List.fst_mem_of_mem_zipIdx he
    exact ⟨e.1, List.mem_reverse.1 hrow, hnot, _, hop⟩

namespace Writer

variable {w : Writer} {t t' : Tables} {i : Nat} {log log' : RowLog} {newId : Uuid} {a : TargetType}
  {id : Uuid} {before after : Option a.Record} {body : OpBody}

/-- A row that is not stamped stays, unless the log row says that the turn made it. -/
theorem inverse_keeps (hplan : inverseBody newId a id before after = some body)
    (h : w.apply t i log body = .ok (t', log')) {b : TargetType} {j : Uuid}
    (hb : b = .itemEntity ∨ b = .link) (hnew : j ≠ newId)
    (hmade : a = b → id = j → before.isNone = false) : t'.db.at b j = t.db.at b j := by
  cases a with
  | link =>
    cases before with
    | none =>
      cases hplan
      obtain ⟨old, hold, hx⟩ := unlinkItems_eq_ok.1 h
      obtain ⟨rfl, rfl⟩ := Prod.mk.inj hx
      rw [show (t.deleteLink id).db = _ from t.toMemoryTables.db_dropLink id, Db.at_write_of_ne]
      rintro ⟨rfl, rfl⟩
      exact Bool.noConfusion (hmade rfl rfl)
    | some link =>
      cases hplan
      obtain ⟨-, -, h⟩ := linkItems_eq_ok.1 h
      obtain ⟨-, hx⟩ := insertLink_eq_ok.1 h
      obtain ⟨rfl, rfl⟩ := Prod.mk.inj hx
      refine (congrArg (fun d => Db.at d b j) (t.toMemoryTables.db_putLink _)).trans ?_
      rw [Db.at_write_of_ne]
      exact fun he => hnew he.2
  | itemEntity =>
    cases before with
    | none =>
      cases hplan
      obtain ⟨old, hold, hx⟩ := detach_eq_ok.1 h
      obtain ⟨rfl, rfl⟩ := Prod.mk.inj hx
      rw [show (t.deleteItemEntity id).db = _ from t.toMemoryTables.db_dropItemEntity id,
        Db.at_write_of_ne]
      rintro ⟨rfl, rfl⟩
      exact Bool.noConfusion (hmade rfl rfl)
    | some row =>
      cases hplan
      obtain ⟨-, -, hx⟩ := attach_eq_ok.1 h
      obtain ⟨rfl, rfl⟩ := Prod.mk.inj hx
      refine (congrArg (fun d => Db.at d b j) (t.toMemoryTables.db_putItemEntity _)).trans ?_
      rw [Db.at_write_of_ne]
      exact fun he => hnew he.2
  | _ =>
    obtain ⟨k, r, hdb, -⟩ := inverse_db hplan h
    rw [hdb, Db.at_write_of_ne]
    rintro ⟨rfl, -⟩
    rcases hb with hb | hb <;> cases hb

/-- What a trigger is changed to depends on its content alone. -/
theorem apply_content {changes : TriggerChanges} {r r' : TriggerRecord}
    (h : r'.toTriggerContent = r.toTriggerContent) :
    (changes.apply r').toTriggerContent = (changes.apply r).toTriggerContent := by
  have hon : r'.on = r.on := congrArg TriggerContent.on h
  have hspec : r'.spec = r.spec := congrArg TriggerContent.spec h
  have hfires : r'.firesAt = r.firesAt := congrArg TriggerContent.firesAt h
  have hstate : r'.state = r.state := congrArg TriggerContent.state h
  have hexpires : r'.expiresAt = r.expiresAt := congrArg TriggerContent.expiresAt h
  simp only [TriggerChanges.apply, hon, hspec, hfires, hstate, hexpires]

/-- A trigger that is changed to what it is. -/
theorem changeTrigger_keeps {changes : TriggerChanges} (hid : changes.id = none)
    (hitem : changes.itemId = none) {r r' : TriggerRecord} (hr' : t.getTrigger r.id = some r')
    (hsame : r'.toTriggerContent = r.toTriggerContent)
    (hleaves : (changes.apply r).toTriggerContent = r.toTriggerContent)
    (h : w.changeTrigger t log r.id changes = .ok (t', log')) :
    ∃ r₂, t'.getTrigger r.id = some r₂ ∧ r₂.itemId = r'.itemId ∧
      r₂.toTriggerContent = r.toTriggerContent := by
  obtain ⟨old, t₁, hget, -, hrep, hx⟩ := changeTrigger_eq_ok.1 h
  obtain ⟨rfl, rfl⟩ := Prod.mk.inj hx
  obtain rfl : old = r' := Option.some.inj (hget.symm.trans hr')
  have hkey : old.id = r.id := KeyTable.key_of_lookup hget
  have hafter : (w.editedTrigger old changes).id = r.id := by
    simp [editedTrigger, TriggerChanges.apply, hid, hkey]
  have hstored : (t.getTrigger (w.editedTrigger old changes).id).isSome := by
    rw [hafter, hget]
    rfl
  obtain ⟨-, rfl⟩ := (Tables.replaceTrigger_eq_ok hstored).1 hrep
  refine ⟨w.editedTrigger old changes, ?_, ?_, ?_⟩
  · rw [← hafter]
    exact KeyTable.lookup_put_self _ _
  · simp [editedTrigger, TriggerChanges.apply, hitem]
  · exact (apply_content hsame).trans hleaves

/-- A trigger stays as it is, unless the log row has something to take back. -/
theorem inverse_keeps_trigger (hplan : inverseBody newId a id before after = some body)
    (h : w.apply t i log body = .ok (t', log')) {r r' : TriggerRecord}
    (hr' : t.getTrigger r.id = some r') (hsame : r'.toTriggerContent = r.toTriggerContent)
    (hleaves : a = .trigger → id = r.id → body.LeavesTrigger r) :
    ∃ r₂, t'.getTrigger r.id = some r₂ ∧ r₂.itemId = r'.itemId ∧
      r₂.toTriggerContent = r.toTriggerContent := by
  by_cases hown : a = .trigger ∧ id = r.id
  · obtain ⟨rfl, rfl⟩ := hown
    have hleave := hleaves rfl rfl
    simp only [inverseBody, inverseTrigger] at hplan
    split at hplan
    · cases hplan
      replace hleave : r.state = .cancelled := hleave
      refine changeTrigger_keeps rfl rfl hr' hsame ?_ h
      simp only [TriggerChanges.apply, Option.getD_some, Option.getD_none, ← hleave]
    · cases hplan
    · split at hplan
      · cases hplan
      · cases hplan
        exact changeTrigger_keeps rfl rfl hr' hsame hleave h
  · obtain ⟨k, x, hdb, hk⟩ := inverse_db hplan h
    have hat : t'.db.at .trigger r.id = t.db.at .trigger r.id := by
      rw [hdb, Db.at_write_of_ne]
      rintro ⟨rfl, hid⟩
      exact hown ⟨rfl, (hk rfl).symm.trans hid.symm⟩
    rw [MemoryTables.db_at, MemoryTables.db_at] at hat
    have hget : t'.getTrigger r.id = some r' := by
      have hold : ((t.table .trigger).lookup r.id).map (eraseAccess .trigger) = some r' := by
        rw [show (t.table .trigger).lookup r.id = some r' from hr']
        rfl
      rw [hold] at hat
      obtain ⟨x, hx, he⟩ := Option.map_eq_some_iff.1 hat
      cases he
      exact hx
    exact ⟨r', hget, rfl, hsame⟩

end Writer

/-! ## The undo -/

/-- The entity rows, links and triggers of an item are as `Whole` says, at any place of the batch. -/
theorem LeftAlone.whole_steps {planId : Nat → Uuid} {w : Writer} {t : Tables} {turnId id : Uuid}
    (h : LeftAlone t turnId id)
    (hids : ∀ k, t.getItemEntity (planId k) = none ∧ t.getLink (planId k) = none) {sb i : Nat}
    {p p' : Writer.Progress} {ops : List Op} (hops : ∀ op ∈ ops, op ∈ (planUndo planId t turnId).ops)
    (hp : Whole t.toMemoryTables p.tables.toMemoryTables id) (hsteps : w.steps sb i p ops = .ok p') :
    Whole t.toMemoryTables p'.tables.toMemoryTables id := by
  refine Writer.steps_induct (P := fun p => Whole t.toMemoryTables p.tables.toMemoryTables id)
    (fun i p op p' hop hp hstep => ?_) hp hsteps
  rcases Writer.step_cases hstep with ⟨v, -, -, rfl⟩ | ⟨v, u, reason, -, -, hskip, rfl⟩ |
    ⟨v, u, log, -, -, happly, rfl⟩
  · rwa [Writer.refuse_tables]
  · dsimp only
    rwa [(Writer.apply_skip hskip).memory]
  · obtain ⟨row, hrow, hnot, k, hplan⟩ := taken_of_mem (hops op hop)
    obtain ⟨body, hbody, rfl⟩ := Option.map_eq_some_iff.1 hplan
    have hmade : ∀ {b : TargetType} {j : Uuid}, ¬ MadeRow t turnId (b, j) → row.targetType = b →
        row.targetId = j → row.before.isNone = false := by
      rintro b j hfree rfl rfl
      by_contra hbefore
      exact hfree ⟨row, hrow, rfl, Bool.not_eq_false _ ▸ hbefore, hnot⟩
    dsimp only
    constructor
    · intro r hr hitem
      have hlookup : p.tables.itemEntities.lookup r.id = some r :=
        KeyTable.mem_rows.1 (hp.itemEntities r hr hitem)
      have hnew : r.id ≠ planId k := fun he => by
        have hnone := (hids k).1
        rw [← he, MemoryTables.getItemEntity, KeyTable.mem_rows.1 hr] at hnone
        cases hnone
      have hat := Writer.inverse_keeps hbody happly (.inl rfl) hnew
        (hmade (h.itemEntities r hr hitem))
      rw [MemoryTables.db_at, MemoryTables.db_at,
        show (p.tables.table .itemEntity).lookup r.id = some r from hlookup] at hat
      obtain ⟨r', hr', he⟩ := Option.map_eq_some_iff.1 hat
      cases he
      exact KeyTable.mem_rows.2 hr'
    · intro r hr hitem
      have hlookup : p.tables.links.lookup r.id = some r :=
        KeyTable.mem_rows.1 (hp.links r hr hitem)
      have hnew : r.id ≠ planId k := fun he => by
        have hnone := (hids k).2
        rw [← he, MemoryTables.getLink, KeyTable.mem_rows.1 hr] at hnone
        cases hnone
      have hat := Writer.inverse_keeps hbody happly (.inr rfl) hnew (hmade (h.links r hr hitem))
      rw [MemoryTables.db_at, MemoryTables.db_at,
        show (p.tables.table .link).lookup r.id = some r from hlookup] at hat
      obtain ⟨r', hr', he⟩ := Option.map_eq_some_iff.1 hat
      cases he
      exact KeyTable.mem_rows.2 hr'
    · intro r hr hitem
      obtain ⟨r', hr', hitem', hsame⟩ := hp.triggers r hr hitem
      obtain ⟨r₂, hr₂, hitem₂, hsame₂⟩ := Writer.inverse_keeps_trigger hbody happly hr' hsame
        fun htype hid => h.triggers r hr hitem row hrow (Prod.ext htype hid) (hid ▸ hnot) (planId k) _
          hplan
      exact ⟨r₂, hr₂, hitem₂.trans hitem', hsame₂⟩

theorem Whole.refl (t : MemoryTables) (id : Uuid) : Whole t t id :=
  ⟨fun _ hr _ => hr, fun _ hr _ => hr, fun r hr hitem => ⟨r, KeyTable.mem_rows.1 hr, hitem, rfl⟩⟩

/-- **An undo keeps memories whole** in every run whose commits let no live item point at a deleted
entity, if the turn left what is around the kept items alone. -/
theorem undo_keeps_whole {planId : Nat → Uuid} {w : Writer} {t t' : Tables} {turnId me : Uuid}
    {es : List Event} {res : CommitResult}
    (hrun : Reached Writer.KeepsPointing (Tables.initial me) es t)
    (hids : ∀ k, t.getItemEntity (planId k) = none ∧ t.getLink (planId k) = none)
    (hkeeps : (undoWriter w (planUndo planId t turnId) turnId).KeepsPointing t)
    (halone : (undoWriter w (planUndo planId t turnId) turnId).heldWhole = true ∨
      ∀ id, KeptForLater t turnId id → LeftAlone t turnId id)
    (h : undo planId w t turnId = .ok (t', res)) :
    (∀ id, KeptForLater t turnId id → Whole t.toMemoryTables t'.toMemoryTables id) ∧
      ∀ id entity, t'.LivePoints id entity → t'.entityGone entity = false := by
  refine ⟨fun id hkept => ?_, (hkeeps.commit h hrun.pointing).live⟩
  obtain ⟨q, hq⟩ := Writer.commit_parts h
  rw [hq.memory]
  have hbatch := hq.batch
  unfold Writer.applyAll at hbatch
  split at hbatch
  · cases hbatch
    dsimp only [Writer.holdEverything]
    rw [Writer.writeVocab_memory]
    exact .refl _ id
  · rename_i hwhole
    have hleft := halone.resolve_left hwhole id hkept
    refine hleft.whole_steps hids (fun op hop => hop) ?_ hbatch
    dsimp only
    rw [Writer.writeVocab_memory]
    exact .refl _ id

/-! ### A place and a trip to it -/

/-- A trip, with an entity row that names the place. -/
def tripTo (place : Uuid) : OpBody :=
  .createItem 1 { kind := .resource, source := .link, state := "saved", text := "a trip",
                  title := "a trip", mentionedAt := 0, subjectEntityId := some place }
    [⟨11, place, .about⟩] [] none none

/-- A turn that gives the trip a title. -/
def namesTrip (turnId : Uuid) (title : String) : Writer :=
  linkTurn turnId { body := .updateItem 1 { title := some title } }

/-- A turn that saves a place and the trip to it. -/
def savesPlace : Writer :=
  { backend := .sql, turn := { turnId := 60, now := 60 }
    ops := [{ body := .upsertEntity 5 { kind := .place, name := "goa" } true },
      { body := tripTo 5 }] }

def placed : Tables := committed savesPlace (Tables.initial 0)

def titled : Tables := committed (namesTrip 61 "goa") placed

/-- Ids that no row of these tables has. -/
def farId (k : Nat) : Uuid := k + 1000

def undone (t : Tables) (turnId : Uuid) : Tables :=
  committed (undoWriter undoTurn (planUndo farId t turnId) turnId) t

/-- **The trip is kept without its place**: the row is gone, and the place it is about is deleted. -/
theorem undo_leaves_half :
    ∃ es t t' res, Reached (fun w _ => w.confirmed = false) (Tables.initial 0) es t ∧
      undo farId undoTurn t 60 = .ok (t', res) ∧ KeptForLater t 60 1 ∧
      ¬ Whole t.toMemoryTables t'.toMemoryTables 1 ∧
      t'.LivePoints 1 5 ∧ t'.entityGone 5 = true := by
  have h₁ : savesPlace.commit (Tables.initial 0) = .ok (placed, _) := rfl
  have h₂ : (namesTrip 61 "goa").commit placed = .ok (titled, _) := rfl
  have hundo : undo farId undoTurn titled 60 = .ok (undone titled 60, _) := rfl
  have hkept : (.item, 1) ∈ (wroteRows titled 60).map (·.key) ∧
      (∃ r ∈ titled.getItem 1, r.updatedByTurnId ≠ 60) ∧
      ∃ row ∈ titled.itemEntities.rows, row.itemId = 1 := by
    decide +kernel
  have hafter : (∀ row ∈ (undone titled 60).itemEntities.rows, False) ∧
      (∃ r ∈ (undone titled 60).getItem 1, r.status ≠ .deleted) ∧
      (undone titled 60).pointsAt 1 5 = true ∧ (undone titled 60).entityGone 5 = true := by
    decide +kernel
  obtain ⟨hlogged, ⟨r, hr, hlater⟩, row, hrow, hitem⟩ := hkept
  obtain ⟨hnone, ⟨r', hr', hlive⟩, hpoints, hgone⟩ := hafter
  exact ⟨_, titled, undone titled 60, _, (Reached.start.commit rfl h₁).commit rfl h₂, hundo,
    ⟨List.mem_map.1 hlogged, r, hr, hlater⟩,
    fun hwhole => hnone row (hwhole.itemEntities row hrow hitem), ⟨r', hr', hlive, hpoints⟩, hgone⟩

/-- The trip of an earlier turn to a place that was there. -/
def savesTrip : Writer := linkTurn 59 { body := tripTo 0 }

def trip : Tables := committed savesTrip (Tables.initial 0)

def tripNamed : Tables := committed (namesTrip 60 "away") trip

def tripRenamed : Tables := committed (namesTrip 61 "home") tripNamed

/-- Naming the trip keeps to the condition while no entity of it is deleted. -/
theorem namesTrip_keepsPointing {t : Tables} {turnId : Uuid} {title : String}
    (hgone : ∀ e, t.entityGone e = false) : (namesTrip turnId title).KeepsPointing t := by
  refine .inr ⟨fun _ => ?_, fun _ _ => trivial⟩
  dsimp only [OpBody.KeepsPointing, namesTrip, linkTurn]
  rw [Writer.writeVocab_memory]
  exact fun r _ _ => ⟨fun e _ => hgone e, fun row _ _ => hgone row.entityId⟩

/-- What another turn made around the trip stays, and so does the trip. -/
theorem undo_keeps_trip :
    ∃ t t' res, undo farId undoTurn t 60 = .ok (t', res) ∧ KeptForLater t 60 1 ∧
      (∃ row ∈ t'.itemEntities.rows, row.itemId = 1) ∧
      (∀ id, KeptForLater t 60 id → Whole t.toMemoryTables t'.toMemoryTables id) ∧
      ∀ id entity, t'.LivePoints id entity → t'.entityGone entity = false := by
  have h₁ : savesTrip.commit (Tables.initial 0) = .ok (trip, _) := rfl
  have h₂ : (namesTrip 60 "away").commit trip = .ok (tripNamed, _) := rfl
  have h₃ : (namesTrip 61 "home").commit tripNamed = .ok (tripRenamed, _) := rfl
  have hundo : undo farId undoTurn tripRenamed 60 = .ok (undone tripRenamed 60, _) := rfl
  have hops : (planUndo farId tripRenamed 60).ops = [] := rfl
  -- no entity is marked in any of the tables
  have hentities : ∀ t ∈ [Tables.initial 0, trip, tripNamed],
      ∀ row ∈ t.entities.rows, row.status ≠ .deleted := by
    decide +kernel
  have hgone : ∀ t ∈ [Tables.initial 0, trip, tripNamed], ∀ e, t.entityGone e = false := by
    intro t ht e
    unfold MemoryTables.entityGone
    cases hget : t.getEntity e with
    | none => rfl
    | some row =>
      have hid : row.id = e := KeyTable.key_of_lookup hget
      simpa using hentities t ht row (KeyTable.mem_rows.2 (hid ▸ hget))
  have hfirst : savesTrip.KeepsPointing (Tables.initial 0) := by
    refine .inr ⟨fun _ _ => ?_, fun _ _ => trivial⟩
    rw [Writer.writeVocab_memory]
    exact ⟨fun e _ => hgone _ (by simp) _, fun e _ => hgone _ (by simp) _⟩
  have hrun : Reached Writer.KeepsPointing (Tables.initial 0) _ tripRenamed :=
    ((Reached.start.commit hfirst h₁).commit (namesTrip_keepsPointing (hgone _ (by simp))) h₂).commit
      (namesTrip_keepsPointing (hgone _ (by simp))) h₃
  have hkeeps : (undoWriter undoTurn (planUndo farId tripRenamed 60) 60).KeepsPointing tripRenamed := by
    refine .inr ?_
    rw [show (undoWriter undoTurn (planUndo farId tripRenamed 60) 60).ops = [] from hops]
    trivial
  have hstored : (.item, 1) ∈ (wroteRows tripRenamed 60).map (·.key) ∧
      (∀ row ∈ wroteRows tripRenamed 60, row.targetType = .item) ∧
      (∃ r ∈ tripRenamed.getItem 1, r.updatedByTurnId ≠ 60) ∧
      (∀ row ∈ tripRenamed.itemEntities.rows, row.id < 1000) ∧
      (∀ row ∈ tripRenamed.links.rows, row.id < 1000) ∧
      ∃ row ∈ (undone tripRenamed 60).itemEntities.rows, row.itemId = 1 := by
    decide +kernel
  obtain ⟨hlogged, hitems, ⟨r, hr, hlater⟩, hrows, hlinks, hstays⟩ := hstored
  have hids : ∀ k, tripRenamed.getItemEntity (farId k) = none ∧
      tripRenamed.getLink (farId k) = none := by
    intro k
    have hfar : ¬ farId k < 1000 := Nat.not_lt.2 (Nat.le_add_left 1000 k)
    constructor
    · cases hget : tripRenamed.getItemEntity (farId k) with
      | none => rfl
      | some row =>
        have hid : row.id = farId k := KeyTable.key_of_lookup hget
        exact absurd (hid ▸ hrows row (KeyTable.mem_rows.2 (hid ▸ hget))) hfar
    · cases hget : tripRenamed.getLink (farId k) with
      | none => rfl
      | some row =>
        have hid : row.id = farId k := KeyTable.key_of_lookup hget
        exact absurd (hid ▸ hlinks row (KeyTable.mem_rows.2 (hid ▸ hget))) hfar
  have halone : ∀ id, KeptForLater tripRenamed 60 id → LeftAlone tripRenamed 60 id := by
    intro id _
    have hother : ∀ row ∈ wroteRows tripRenamed 60, ∀ b j, b ≠ .item → row.key ≠ (b, j) := by
      intro row hrow b j hb hkey
      exact hb ((congrArg Prod.fst hkey).symm.trans (hitems row hrow))
    refine ⟨fun row _ _ hmade => ?_, fun row _ _ hmade => ?_, fun row _ _ wrote hwrote hkey => ?_⟩
    · obtain ⟨wrote, hwrote, hkey, -⟩ := hmade
      exact absurd hkey (hother wrote hwrote _ _ (by decide))
    · obtain ⟨wrote, hwrote, hkey, -⟩ := hmade
      exact absurd hkey (hother wrote hwrote _ _ (by decide))
    · exact absurd hkey (hother wrote hwrote _ _ (by decide))
  exact ⟨tripRenamed, undone tripRenamed 60, _, hundo, ⟨List.mem_map.1 hlogged, r, hr, hlater⟩,
    hstays, undo_keeps_whole hrun hids hkeeps (.inr halone) hundo⟩

end SecondMind
