import SecondMind.Memory.Batch

/-!
# Runs of the store

What happens to a workspace between its first turn and now: commits, one after the other,
each by a writer of its own, and between them the bookkeeping of retrieval and of held
writes.

* `Reached` — the tables a run comes to, when every commit meets a condition;
* `Reached.keeps` — what every commit keeps, and what does not look at the bookkeeping,
  holds of every run.
-/

namespace SecondMind

open Keyed

/-- The tables are alike in the six tables and in the log, but for the access counters. -/
structure SameMemory (t t' : Tables) : Prop where
  items : ∀ id, (t'.getItem id).map ItemRecord.eraseAccess = (t.getItem id).map ItemRecord.eraseAccess
  entities : t'.entities = t.entities
  itemEntities : t'.itemEntities = t.itemEntities
  links : t'.links = t.links
  relations : t'.relations = t.relations
  triggers : t'.triggers = t.triggers
  writeLog : t'.writeLog = t.writeLog

theorem SameMemory.refl (t : Tables) : SameMemory t t :=
  ⟨fun _ => rfl, rfl, rfl, rfl, rfl, rfl, rfl⟩

theorem SameMemory.trans {t u v : Tables} (h : SameMemory t u) (h' : SameMemory u v) :
    SameMemory t v :=
  ⟨fun id => (h'.items id).trans (h.items id), h'.entities.trans h.entities,
    h'.itemEntities.trans h.itemEntities, h'.links.trans h.links,
    h'.relations.trans h.relations, h'.triggers.trans h.triggers, h'.writeLog.trans h.writeLog⟩

theorem sameMemory_recordAccess (t : Tables) (at_ : Instant) (ids : List Uuid) :
    SameMemory t (t.recordAccess at_ ids) := by
  induction ids generalizing t with
  | nil => exact .refl t
  | cons id ids ih =>
    unfold Tables.recordAccess at ih ⊢
    rw [List.foldl_cons]
    refine SameMemory.trans ?_ (ih _)
    cases hget : t.items.lookup id with
    | none => exact .refl t
    | some item =>
      refine ⟨fun id' => ?_, rfl, rfl, rfl, rfl, rfl, rfl⟩
      obtain rfl : item.id = id := KeyTable.key_of_lookup hget
      unfold MemoryTables.getItem
      rw [KeyTable.lookup_put]
      split
      · rename_i he
        subst he
        exact (congrArg (Option.map ItemRecord.eraseAccess) hget).symm
      · rfl

theorem sameMemory_resolveHeldWrite (t : Tables) (id : Uuid) (status : HeldStatus)
    (turnId : Option Uuid) (at_ : Instant) :
    SameMemory t (t.resolveHeldWrite id status turnId at_) := by
  unfold Tables.resolveHeldWrite
  split
  · exact .refl t
  · exact ⟨fun _ => rfl, rfl, rfl, rfl, rfl, rfl, rfl⟩

/-- One commit of a run. -/
structure Event where
  turnId : Uuid
  before : Tables
  after : Tables

/-- A run from `t₀` to the tables it comes to, with its commits, the newest first; `admits w t`
holds of the writer of every commit and of the tables it begins on. -/
inductive Reached (admits : Writer → Tables → Prop) (t₀ : Tables) : List Event → Tables → Prop
  | start : Reached admits t₀ [] t₀
  | commit {es : List Event} {w : Writer} {t t' : Tables} {res : CommitResult}
      (h : Reached admits t₀ es t) (ok : admits w t) (done : w.commit t = .ok (t', res)) :
      Reached admits t₀ (⟨w.turn.turnId, t, t'⟩ :: es) t'
  | access {es : List Event} {t : Tables} (h : Reached admits t₀ es t) (at_ : Instant)
      (ids : List Uuid) : Reached admits t₀ es (t.recordAccess at_ ids)
  | resolve {es : List Event} {t : Tables} (h : Reached admits t₀ es t) (id : Uuid)
      (status : HeldStatus) (turnId : Option Uuid) (at_ : Instant) :
      Reached admits t₀ es (t.resolveHeldWrite id status turnId at_)

/-- **A run keeps** what every commit keeps and what the bookkeeping does not touch. -/
theorem Reached.keeps {admits : Writer → Tables → Prop} {t₀ t : Tables} {es : List Event}
    {P : Tables → Prop} (hstart : P t₀)
    (hcommit : ∀ (w : Writer) (t t' : Tables) res, admits w t → w.commit t = .ok (t', res) →
      P t → P t')
    (hsame : ∀ t t', SameMemory t t' → P t → P t') (h : Reached admits t₀ es t) : P t := by
  induction h with
  | start => exact hstart
  | commit _ ok done ih => exact hcommit _ _ _ _ ok done ih
  | access _ at_ ids ih => exact hsame _ _ (sameMemory_recordAccess _ at_ ids) ih
  | resolve _ id status turnId at_ ih =>
    exact hsame _ _ (sameMemory_resolveHeldWrite _ id status turnId at_) ih

end SecondMind
