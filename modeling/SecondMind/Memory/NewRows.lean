import SecondMind.Memory.Appliers

/-!
# New rows

The rows that come with an op: the entities a new item names, its triggers, links and relations.

* `Writer.newItemEntities`, `newTriggers`, `newLinks`, `newRelations` — the rows an op puts in;
* `Writer.createItem_puts`, `Writer.changeAndLink_puts` — they are put in, and no others.
-/

namespace SecondMind

open Keyed

namespace Writer

variable (w : Writer)

/-- A trigger as a new item gets it. -/
def newTrigger (itemId : Uuid) (new : NewTrigger) : TriggerRecord where
  toTriggerContent := new.trigger
  id := new.triggerId
  itemId := itemId
  createdAt := w.turn.now
  updatedAt := w.turn.now
  createdByTurnId := w.turn.turnId
  updatedByTurnId := w.turn.turnId

def newItemEntities : OpBody → List ItemEntityRecord
  | .createItem itemId _ entities _ _ _ =>
    entities.map fun e => w.newItemEntity e.rowId itemId e.entityId e.role
  | _ => []

def newTriggers : OpBody → List TriggerRecord
  | .createItem itemId _ _ triggers _ _ => triggers.map (w.newTrigger itemId)
  | _ => []

def newLinks : OpBody → List LinkRecord
  | .supersedeItem oldId newId linkId _ _ => [w.newLink linkId newId .supersedes oldId]
  | .fulfilIntention intentionId episodeId linkId _ =>
    [w.newLink linkId episodeId .fulfils intentionId]
  | .linkItems linkId srcId linkType dstId => [w.newLink linkId srcId linkType dstId]
  | _ => []

def newRelations : OpBody → List RelationRecord
  | .relateEntities relationId src relation dst validFrom evidence =>
    [w.newRelation relationId src relation dst validFrom evidence]
  | _ => []

/-- The entity an op makes. -/
def madeEntity : OpBody → Option Uuid
  | .upsertEntity entityId _ true => some entityId
  | _ => none

variable {w}

theorem attachNew_puts {record : ItemRecord} {links : List EntityLink} {t t' : Tables}
    {log log' : RowLog} (h : w.attachNew record t log links = .ok (t', log')) :
    t' = { t with itemEntities := (links.map fun e =>
      w.newItemEntity e.rowId record.id e.entityId e.role).foldl KeyTable.put t.itemEntities } := by
  induction links generalizing t log with
  | nil =>
    cases h
    rfl
  | cons link links ih =>
    unfold attachNew at h
    split at h
    · cases h
    · obtain ⟨t₁, hins, h⟩ := bind_eq_ok.1 h
      obtain ⟨-, rfl⟩ := Tables.insertItemEntity_eq_ok.1 (run_eq_ok.1 hins)
      rw [ih h]
      rfl

theorem triggerNew_puts {record : ItemRecord} {news : List NewTrigger} {t t' : Tables}
    {log log' : RowLog} (h : w.triggerNew record t log news = .ok (t', log')) :
    t' = { t with triggers :=
      (news.map (w.newTrigger record.id)).foldl KeyTable.put t.triggers } := by
  induction news generalizing t log with
  | nil =>
    cases h
    rfl
  | cons new news ih =>
    obtain ⟨t₁, hins, h⟩ := bind_eq_ok.1 h
    obtain ⟨-, rfl⟩ := Tables.insertTrigger_eq_ok.1 (run_eq_ok.1 hins)
    rw [ih h]
    rfl

/-- A new item comes with its own rows. -/
theorem createItem_puts {t t' : Tables} {i : Nat} {log log' : RowLog} {itemId : Uuid}
    {item : ItemContent} {entities : List EntityLink} {triggers : List NewTrigger}
    {slug name : Option String}
    (h : w.createItem t i log itemId item entities triggers slug name = .ok (t', log')) :
    t'.itemEntities = (w.newItemEntities (.createItem itemId item entities triggers slug name)).foldl
        KeyTable.put t.itemEntities ∧
      t'.triggers = (w.newTriggers (.createItem itemId item entities triggers slug name)).foldl
        KeyTable.put t.triggers ∧
      t'.entities = t.entities ∧ t'.links = t.links ∧ t'.relations = t.relations := by
  have hmem := (w.aside_category t i item slug name).memory
  obtain ⟨record, hnew, h⟩ := bind_eq_ok.1 h
  have hid : record.id = itemId := (newItem_eq_ok (run_eq_ok.1 hnew)).2.2.1
  split at h
  · exact (nomatch h)
  · obtain ⟨t₁, hins, h⟩ := bind_eq_ok.1 h
    obtain ⟨-, rfl⟩ := Tables.insertItem_eq_ok.1 (run_eq_ok.1 hins)
    obtain ⟨⟨t₂, log₂⟩, hatt, h⟩ := bind_eq_ok.1 h
    have hatt' := attachNew_puts hatt
    have htrig := triggerNew_puts h
    rw [hid] at hatt' htrig
    subst htrig hatt'
    dsimp only
    rw [hmem]
    exact ⟨rfl, rfl, rfl, rfl, rfl⟩

/-- What an edit of an item leaves. -/
theorem changeAndLink_puts {t t' : Tables} {log log' : RowLog} {oldId : Uuid} {old new : ItemRecord}
    {changes : ItemChanges} {linkId : Uuid} {linkType : LinkType}
    (hold : liveItem t oldId = .ok old)
    (h : w.changeAndLink t log old new changes linkId linkType = .ok (t', log')) :
    t'.entities = t.entities ∧ t'.itemEntities = t.itemEntities ∧ t'.triggers = t.triggers ∧
      t'.links = t.links.put (w.newLink linkId new.id linkType old.id) ∧
      t'.relations = t.relations := by
  obtain rfl := id_of_liveItem hold
  obtain ⟨after, -, -, -, -, hlink⟩ := (changeAndLink_eq_ok (liveItem_eq_ok.1 hold).1).1 h
  obtain ⟨-, hx⟩ := insertLink_eq_ok.1 hlink
  obtain ⟨rfl, rfl⟩ := Prod.mk.inj hx
  exact ⟨rfl, rfl, rfl, rfl, rfl⟩

end Writer

end SecondMind
