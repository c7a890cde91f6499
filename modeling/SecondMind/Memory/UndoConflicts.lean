import SecondMind.Memory.UndoOps
import SecondMind.Memory.Runs

/-!
# Undo and later changes

`_conflict` asks the row of the store who changed it last.  This file asks the run instead:
which commits changed a row, and under which turn ids.

* `Wrote.at_or_stamped` — a commit leaves a row of a stamped table as it was, or stamps it;
* `Reached.at_last`, `Reached.stamp_last` — a row is as the last commit that changed it
  left it, and carries the turn id of that commit;
* `undo_keepsLater_iff` — an undo keeps and reports a later change exactly when the change is
  still the last one.
-/

namespace SecondMind

open Keyed

/-! ## Stamps and contents -/

/-- The turn that changed a row last, as the row tells it. -/
def stamp : (a : TargetType) → a.Record → Option Uuid
  | .item, r => some r.updatedByTurnId
  | .entity, r => r.updatedByTurnId
  | .trigger, r => some r.updatedByTurnId
  | .link, _ => none
  | .itemEntity, _ => none
  | .relation, _ => none

/-- The content of a row: all of it but the access counters and the stamps of the last
change. -/
def content : (a : TargetType) → a.Record → a.Record
  | .item, r => { r.eraseAccess with updatedAt := 0, updatedByTurnId := 0 }
  | .entity, r => { r with updatedAt := 0, updatedByTurnId := none }
  | .trigger, r => { r with updatedAt := 0, updatedByTurnId := 0 }
  | .link, r => r
  | .itemEntity, r => r
  | .relation, r => r

/-- The content of the row under an id, if it is there. -/
def MemoryTables.contentAt (t : MemoryTables) (a : TargetType) (i : Uuid) : Option a.Record :=
  (t.db.at a i).map (content a)

theorem stamp_eraseAccess (a : TargetType) (r : a.Record) : stamp a (eraseAccess a r) = stamp a r := by
  cases a <;> rfl

/-! ## What a commit does to a row -/

/-- A row is as it was, or it is there and carries the turn id. -/
def AtOrStamped (turn : Uuid) (d d' : Db TargetType Uuid TargetType.Record) (a : TargetType)
    (i : Uuid) : Prop :=
  d'.at a i = d.at a i ∨ ∃ r, d'.at a i = some r ∧ stamp a r = some turn

/-- Writing a row that carries the turn id, or a row of another table. -/
theorem atOrStamped_write {turn : Uuid} {d : Db TargetType Uuid TargetType.Record}
    {a b : TargetType} {i j : Uuid} {r : Option a.Record} (hb : b.stamped = true)
    (h : a.stamped = true → ∃ r', r = some r' ∧ stamp a r' = some turn) :
    AtOrStamped turn d (d.write a i r) b j := by
  by_cases hba : b = a ∧ j = i
  · obtain ⟨rfl, rfl⟩ := hba
    obtain ⟨r', rfl, hs⟩ := h hb
    exact .inr ⟨r', Db.at_write_self _ _ _ _, hs⟩
  · exact .inl (Db.at_write_of_ne d r hba)

theorem RowStep.at_or_stamped {b : Backend} {turn : Uuid} {t t' : Tables} {c : RowChange}
    (h : RowStep b turn t c t') {a : TargetType} {i : Uuid} (ha : a.stamped = true) :
    AtOrStamped turn t.db t'.db a i := by
  cases h with
  | @newItem r free made stamp valid fits =>
    rw [show ({ t with items := t.items.put r } : Tables).db = _ from t.toMemoryTables.db_putItem r]
    exact atOrStamped_write ha fun _ => ⟨_, rfl, congrArg some stamp⟩
  | @editItem before after stored sameId sameTime made stamp valid fits =>
    rw [db_storeItem t after]
    exact atOrStamped_write ha fun _ => ⟨_, rfl, congrArg some stamp⟩
  | @newEntity r free made stamp fits =>
    rw [show ({ t with entities := t.entities.put r } : Tables).db = _ from
      t.toMemoryTables.db_putEntity r]
    exact atOrStamped_write ha fun _ => ⟨_, rfl, stamp⟩
  | @editEntity before after stored sameId sameTime made stamp fits =>
    rw [show ({ t with entities := t.entities.put after } : Tables).db = _ from
      t.toMemoryTables.db_putEntity after]
    exact atOrStamped_write ha fun _ => ⟨_, rfl, stamp⟩
  | @newItemEntity r made stored fits =>
    rw [show ({ t with itemEntities := t.itemEntities.put r } : Tables).db = _ from
      t.toMemoryTables.db_putItemEntity r]
    exact atOrStamped_write ha fun e => (nomatch e)
  | @dropItemEntity r stored =>
    rw [show (t.deleteItemEntity r.id).db = _ from t.toMemoryTables.db_dropItemEntity r.id]
    exact atOrStamped_write ha fun e => (nomatch e)
  | @newLink r made src dst fits =>
    rw [show ({ t with links := t.links.put r } : Tables).db = _ from t.toMemoryTables.db_putLink r]
    exact atOrStamped_write ha fun e => (nomatch e)
  | @dropLink r stored =>
    rw [show (t.deleteLink r.id).db = _ from t.toMemoryTables.db_dropLink r.id]
    exact atOrStamped_write ha fun e => (nomatch e)
  | @newRelation r made openEnded fits =>
    rw [show ({ t with relations := t.relations.put r } : Tables).db = _ from
      t.toMemoryTables.db_putRelation r]
    exact atOrStamped_write ha fun e => (nomatch e)
  | @dropRelation r stored =>
    rw [show (t.deleteRelation r.id).db = _ from t.toMemoryTables.db_dropRelation r.id]
    exact atOrStamped_write ha fun e => (nomatch e)
  | @newTrigger r made stamp stored fits =>
    rw [show ({ t with triggers := t.triggers.put r } : Tables).db = _ from
      t.toMemoryTables.db_putTrigger r]
    exact atOrStamped_write ha fun _ => ⟨_, rfl, congrArg some stamp⟩
  | @editTrigger _ before after stored stamp written =>
    unfold Tables.replaceTrigger at written
    split at written
    · cases written
      exact .inl rfl
    · obtain ⟨-, rfl⟩ := Tables.statement_eq_ok.1 written
      rw [show ({ t with triggers := t.triggers.put after } : Tables).db = _ from
        t.toMemoryTables.db_putTrigger after]
      exact atOrStamped_write ha fun _ => ⟨_, rfl, congrArg some stamp⟩

/-- **A turn's row writes** leave a row of a stamped table as it was, or stamp it. -/
theorem Wrote.at_or_stamped {b : Backend} {turn : Uuid} {t t' : Tables} {cs : List RowChange}
    (h : Wrote b turn t cs t') {a : TargetType} {i : Uuid} (ha : a.stamped = true) :
    AtOrStamped turn t.db t'.db a i := by
  induction h with
  | refl => exact .inl rfl
  | quiet _ q ih =>
    rw [q.memory]
    exact ih
  | row _ step ih =>
    rcases step.at_or_stamped (i := i) ha with same | stamped
    · unfold AtOrStamped
      rw [same]
      exact ih
    · exact .inr stamped

/-! ## Runs -/

/-- The commit changed the row, its access counters aside. -/
def Event.Changed (e : Event) (key : TargetType × Uuid) : Prop :=
  e.after.db.at key.1 key.2 ≠ e.before.db.at key.1 key.2

theorem SameMemory.db {t t' : Tables} (h : SameMemory t t') : t'.db = t.db := by
  refine Db.ext_at fun a i => ?_
  rw [MemoryTables.db_at, MemoryTables.db_at]
  cases a with
  | item => exact h.items i
  | entity => exact congrArg (fun x => (x.lookup i).map id) h.entities
  | trigger => exact congrArg (fun x => (x.lookup i).map id) h.triggers
  | link => exact congrArg (fun x => (x.lookup i).map id) h.links
  | itemEntity => exact congrArg (fun x => (x.lookup i).map id) h.itemEntities
  | relation => exact congrArg (fun x => (x.lookup i).map id) h.relations

section

variable {admits : Writer → Tables → Prop} {t₀ t : Tables} {es : List Event}
  {key : TargetType × Uuid}

/-- **A row is as the last commit that changed it left it.** -/
theorem Reached.at_last (h : Reached admits t₀ es t) {newer older : List Event} {e : Event}
    (hes : es = newer ++ e :: older) (hlast : ∀ e' ∈ newer, ¬ e'.Changed key) :
    t.db.at key.1 key.2 = e.after.db.at key.1 key.2 := by
  induction h generalizing newer with
  | start => cases newer <;> exact (nomatch hes)
  | @commit es w t t' res _ ok done ih =>
    cases newer with
    | nil =>
      obtain ⟨rfl, rfl⟩ := List.cons.inj hes
      rfl
    | cons e' newer =>
      obtain ⟨rfl, rfl⟩ := List.cons.inj hes
      have hsame := Classical.not_not.1 (hlast _ List.mem_cons_self)
      exact hsame.trans (ih rfl fun e hm => hlast e (List.mem_cons_of_mem _ hm))
  | access _ at_ ids ih => rw [(sameMemory_recordAccess _ at_ ids).db, ih hes hlast]
  | resolve _ id status turnId at_ ih =>
    rw [(sameMemory_resolveHeldWrite _ id status turnId at_).db, ih hes hlast]

theorem Reached.at_or_stamped (h : Reached admits t₀ es t) {e : Event} (he : e ∈ es)
    (ha : key.1.stamped = true) :
    AtOrStamped e.turnId e.before.db e.after.db key.1 key.2 := by
  induction h with
  | start => exact absurd he List.not_mem_nil
  | commit _ _ done ih =>
    rcases List.mem_cons.1 he with rfl | he
    · exact (Writer.commit_spec done).wrote.at_or_stamped ha
    · exact ih he
  | access _ _ _ ih => exact ih he
  | resolve _ _ _ _ _ ih => exact ih he

/-- **A row carries the turn id of the last commit that changed it.** -/
theorem Reached.stamp_last (h : Reached admits t₀ es t) {newer older : List Event} {e : Event}
    (hes : es = newer ++ e :: older) (hlast : ∀ e' ∈ newer, ¬ e'.Changed key)
    (hchanged : e.Changed key) (ha : key.1.stamped = true) :
    ∃ r, t.db.at key.1 key.2 = some r ∧ stamp key.1 r = some e.turnId := by
  have hmem : e ∈ es := by
    rw [hes]
    exact List.mem_append_right _ List.mem_cons_self
  rw [h.at_last hes hlast]
  exact (h.at_or_stamped hmem ha).resolve_left hchanged

/-- Among commits of which some changed the row there is a last one. -/
theorem exists_last_change {newer : List Event} (h : ∃ e ∈ newer, e.Changed key) :
    ∃ n e m, newer = n ++ e :: m ∧ e.Changed key ∧ ∀ e' ∈ n, ¬ e'.Changed key := by
  induction newer with
  | nil =>
    obtain ⟨e, he, -⟩ := h
    exact absurd he List.not_mem_nil
  | cons e newer ih =>
    by_cases hc : e.Changed key
    · exact ⟨[], e, newer, rfl, hc, fun _ he => absurd he List.not_mem_nil⟩
    · obtain ⟨e', he', hc'⟩ := h
      have hrest : ∃ e' ∈ newer, e'.Changed key := by
        rcases List.mem_cons.1 he' with rfl | he'
        · exact absurd hc' hc
        · exact ⟨e', he', hc'⟩
      obtain ⟨n, e₁, m, rfl, hc₁, hn⟩ := ih hrest
      refine ⟨e :: n, e₁, m, rfl, hc₁, fun e₂ he₂ => ?_⟩
      rcases List.mem_cons.1 he₂ with rfl | he₂
      · exact hc
      · exact hn e₂ he₂

end

/-! ## What an undo sees -/

/-- The turn made the entity, and items that it did not make point at it. -/
def KeptForOthers (t : MemoryTables) (turnId : Uuid) : TargetType × Uuid → Prop
  | (.entity, id) =>
    (∃ r, t.getEntity id = some r ∧ r.createdByTurnId = some turnId) ∧
      ∃ i ∈ t.entityItems id, ¬ t.madeBy turnId i
  | _ => False

theorem conflict_of_unstamped {t : MemoryTables} {turnId : Uuid} {key : TargetType × Uuid}
    (h : key.1.stamped = false) : conflict t turnId key = none := by
  obtain ⟨a, i⟩ := key
  cases a with
  | item => exact (nomatch h)
  | entity => exact (nomatch h)
  | trigger => exact (nomatch h)
  | _ => rfl

theorem conflict_of_keptForOthers {t : MemoryTables} {turnId : Uuid} {key : TargetType × Uuid}
    (h : KeptForOthers t turnId key) : ∃ reason, conflict t turnId key = some reason := by
  obtain ⟨a, i⟩ := key
  cases a with
  | entity =>
    obtain ⟨⟨r, hget, hmade⟩, hothers⟩ := h
    simp only [conflict, hget]
    by_cases hturn : r.updatedByTurnId = some turnId
    · rw [if_neg (not_not.2 hturn), if_pos ⟨hmade, hothers⟩]
      exact ⟨_, rfl⟩
    · rw [if_pos hturn]
      exact ⟨_, rfl⟩
  | _ => exact h.elim

/-- A row is in conflict when another turn changed it last, or for the sake of others. -/
theorem conflict_iff {t : MemoryTables} {turnId turn : Uuid} {key : TargetType × Uuid}
    {r : key.1.Record} (hat : t.db.at key.1 key.2 = some r) (hstamp : stamp key.1 r = some turn) :
    (∃ reason, conflict t turnId key = some reason) ↔
      turn ≠ turnId ∨ KeptForOthers t turnId key := by
  obtain ⟨a, i⟩ := key
  rw [t.db_at, Option.map_eq_some_iff] at hat
  obtain ⟨r, hget, rfl⟩ := hat
  rw [stamp_eraseAccess] at hstamp
  cases a with
  | item =>
    replace hget : t.getItem i = some r := hget
    replace hstamp : r.updatedByTurnId = turn := Option.some.inj hstamp
    by_cases hturn : turn = turnId <;> simp [conflict, KeptForOthers, hget, hstamp, hturn]
  | entity =>
    replace hget : t.getEntity i = some r := hget
    replace hstamp : r.updatedByTurnId = some turn := hstamp
    by_cases hturn : turn = turnId
    · subst hturn
      refine ⟨fun ⟨reason, h⟩ => .inr ?_, fun h => conflict_of_keptForOthers ?_⟩
      · simp only [conflict, hget, hstamp, ne_eq, not_true, if_false] at h
        split at h
        · rename_i hothers
          exact ⟨⟨r, hget, hothers.1⟩, hothers.2⟩
        · exact (nomatch h)
      · exact h.resolve_left (· rfl)
    · simp [conflict, hget, hstamp, hturn]
  | trigger =>
    replace hget : t.getTrigger i = some r := hget
    replace hstamp : r.updatedByTurnId = turn := Option.some.inj hstamp
    by_cases hturn : turn = turnId <;> simp [conflict, KeptForOthers, hget, hstamp, hturn]
  | _ => exact (nomatch hstamp)

/-- The undo left the row as a later turn had left it, and reports a conflict for it. -/
structure KeptLater (t : Tables) (turnId : Uuid) (key : TargetType × Uuid) (later : Event)
    (t' : Tables) (res : CommitResult) : Prop where
  kept : t'.contentAt key.1 key.2 = later.after.contentAt key.1 key.2
  reported : ∃ reason, (key, reason) ∈ conflicts t turnId ∧
    conflictNote (conflictEntry (wroteRows t turnId) (key, reason)) ∈ res.notes

/-- The undo can see the later change: the log of the turn names the row, the row carries the
turn that changed it last, and that is the later turn; or the row is an entity that is kept
for others, with the content the later turn gave it. -/
structure SeesLater (t : Tables) (turnId : Uuid) (key : TargetType × Uuid) (newer : List Event)
    (later : Event) : Prop where
  logged : ∃ row ∈ wroteRows t turnId, row.key = key
  stamped : key.1.stamped = true
  last : (∀ e ∈ newer, ¬ e.Changed key) ∨ KeptForOthers t.toMemoryTables turnId key ∧
    t.contentAt key.1 key.2 = later.after.contentAt key.1 key.2

/-- Every conflict of the plan is in the notes of the undo. -/
theorem undo_reports {planId : Nat → Uuid} {w : Writer} {t t' : Tables} {turnId : Uuid}
    {res : CommitResult} (h : undo planId w t turnId = .ok (t', res))
    {c : (TargetType × Uuid) × String} (hc : c ∈ conflicts t turnId) :
    conflictNote (conflictEntry (wroteRows t turnId) c) ∈ res.notes := by
  obtain ⟨p, hp⟩ := Writer.commit_parts h
  rw [hp.result]
  exact List.mem_append_left _ (List.mem_map_of_mem (List.mem_map_of_mem hc))

/-- **An undo keeps and reports a later change exactly when it can see it.**  The commits of
the run are `older`, then the change by a later turn, then `newer`, in which only the undone
turn itself changed the row again. -/
theorem undo_keepsLater_iff {admits : Writer → Tables → Prop} {t₀ t t' : Tables}
    {newer older : List Event} {later : Event} {key : TargetType × Uuid} {turnId : Uuid}
    {planId : Nat → Uuid} {w : Writer} {res : CommitResult}
    (hrun : Reached admits t₀ (newer ++ later :: older) t) (hchanged : later.Changed key)
    (hlater : later.turnId ≠ turnId)
    (hnewer : ∀ e ∈ newer, e.Changed key → e.turnId = turnId)
    (h : undo planId w t turnId = .ok (t', res)) :
    KeptLater t turnId key later t' res ↔ SeesLater t turnId key newer later := by
  have hsame : ∀ {reason : String}, key.1.stamped = true → (key, reason) ∈ conflicts t turnId →
      t'.contentAt key.1 key.2 = t.contentAt key.1 key.2 := fun hs hc =>
    congrArg (Option.map _) (undo_keeps h hs (mem_conflicted hc))
  constructor
  · rintro ⟨hkept, reason, hmem, -⟩
    obtain ⟨hlogged, hconflict⟩ := mem_conflicts.1 hmem
    have hstamped : key.1.stamped = true := by
      by_contra hs
      rw [conflict_of_unstamped (by simpa using hs)] at hconflict
      exact (nomatch hconflict)
    refine ⟨hlogged, hstamped, ?_⟩
    by_cases hlast : ∀ e ∈ newer, ¬ e.Changed key
    · exact .inl hlast
    · -- the last change is the turn's own, so its stamp hides the later one
      obtain ⟨n, own, m, rfl, hown, hn⟩ := exists_last_change (by simpa using hlast)
      obtain ⟨r, hat, hstamp⟩ := hrun.stamp_last (List.append_assoc ..) hn hown hstamped
      rw [hnewer own (by simp) hown] at hstamp
      refine .inr ⟨?_, (hsame hstamped hmem).symm.trans hkept⟩
      exact ((conflict_iff hat hstamp).1 ⟨reason, hconflict⟩).resolve_left (· rfl)
  · rintro ⟨hlogged, hstamped, hlast⟩
    have hreported : ∀ reason, conflict t.toMemoryTables turnId key = some reason →
        t.contentAt key.1 key.2 = later.after.contentAt key.1 key.2 →
          KeptLater t turnId key later t' res := fun reason hconflict hcontent => by
      have hmem := mem_conflicts.2 ⟨hlogged, hconflict⟩
      exact ⟨(hsame hstamped hmem).trans hcontent, reason, hmem, undo_reports h hmem⟩
    rcases hlast with hlast | ⟨hothers, hcontent⟩
    · obtain ⟨r, hat, hstamp⟩ := hrun.stamp_last rfl hlast hchanged hstamped
      obtain ⟨reason, hconflict⟩ := (conflict_iff hat hstamp).2 (.inl hlater)
      exact hreported reason hconflict (congrArg (Option.map _) (hrun.at_last rfl hlast))
    · obtain ⟨reason, hconflict⟩ := conflict_of_keptForOthers hothers
      exact hreported reason hconflict hcontent

/-! ### A page read after an edit -/

/-- A turn of a small workspace. -/
def linkTurn (turnId : Uuid) (op : Op) : Writer :=
  { backend := .sql, turn := { turnId := turnId, now := turnId }, ops := [op] }

/-- The person saves a link. -/
def savesLink : Writer :=
  linkTurn 60 { body := .createItem 1 { kind := .resource, source := .link, state := "saved"
                                        text := "a page", title := "a page", mentionedAt := 0 }
                  [] [] none none }

/-- Later the person gives the saved link a title. -/
def namesLink : Writer := linkTurn 61 { body := .updateItem 1 { title := some "mine" } }

/-- The page is read under the id of the turn that saved the link. -/
def readsLink : Writer :=
  linkTurn 60 { trust := .contentDerived, origin := .content
                body := .updateItem 1 { title := some "theirs", summary := some none
                                        tags := some [] } }

/-- The turn of an undo. -/
def undoTurn : Writer :=
  { backend := .sql, turn := { turnId := 62, kind := .undo, now := 62 } }

/-- The tables a commit comes to; those it began on, if it fails. -/
def committed (w : Writer) (t : Tables) : Tables := ((w.commit t).toOption.map (·.1)).getD t

def saved : Tables := committed savesLink (Tables.initial 0)

def named : Tables := committed namesLink saved

def read : Tables := committed readsLink named

/-- The undo of the turn that saved the link deletes it, and does not tell of the edit. -/
theorem reading_hides_edit :
    ∃ newer later older t t' res,
      Reached (fun w _ => w.confirmed = false) (Tables.initial 0) (newer ++ later :: older) t ∧
        later.Changed (.item, 1) ∧ later.turnId ≠ 60 ∧
        (∃ e ∈ older, e.turnId = 60 ∧ e.Changed (.item, 1)) ∧
        undo id undoTurn t 60 = .ok (t', res) ∧ ¬ KeptLater t 60 (.item, 1) later t' res := by
  have h₁ : savesLink.commit (Tables.initial 0) = .ok (saved, _) := rfl
  have h₂ : namesLink.commit saved = .ok (named, _) := rfl
  have h₃ : readsLink.commit named = .ok (read, _) := rfl
  refine ⟨[⟨60, named, read⟩], ⟨61, saved, named⟩, [⟨60, Tables.initial 0, saved⟩], read, _, _,
    ((Reached.start.commit rfl h₁).commit rfl h₂).commit rfl h₃, ?_, by decide,
    ⟨_, List.mem_singleton_self _, rfl, ?_⟩, rfl, ?_⟩
  · show named.db.at .item 1 ≠ saved.db.at .item 1
    decide +kernel
  · show saved.db.at .item 1 ≠ (Tables.initial 0).db.at .item 1
    decide +kernel
  · intro h
    obtain ⟨reason, hmem, -⟩ := h.reported
    have hnone : conflicts read 60 = [] := by decide +kernel
    rw [hnone] at hmem
    exact absurd hmem List.not_mem_nil

theorem edit_kept :
    ∃ later older t t' res,
      Reached (fun w _ => w.confirmed = false) (Tables.initial 0) (later :: older) t ∧
        later.Changed (.item, 1) ∧ later.turnId ≠ 60 ∧
        undo id undoTurn t 60 = .ok (t', res) ∧ KeptLater t 60 (.item, 1) later t' res := by
  have h₁ : savesLink.commit (Tables.initial 0) = .ok (saved, _) := rfl
  have h₂ : namesLink.commit saved = .ok (named, _) := rfl
  have hrun : Reached (fun w _ => w.confirmed = false) (Tables.initial 0)
      ([] ++ ⟨61, saved, named⟩ :: [⟨60, Tables.initial 0, saved⟩]) named :=
    (Reached.start.commit rfl h₁).commit rfl h₂
  have hchanged : Event.Changed ⟨61, saved, named⟩ (.item, 1) := by
    show named.db.at .item 1 ≠ saved.db.at .item 1
    decide +kernel
  have hundo : undo id undoTurn named 60 = .ok (_, _) := rfl
  refine ⟨_, _, _, _, _, hrun, hchanged, by decide, hundo, ?_⟩
  have hnone : ∀ e ∈ ([] : List Event), ¬ e.Changed (.item, 1) := fun e he => (nomatch he)
  refine (undo_keepsLater_iff hrun hchanged (by decide) (fun e he => (nomatch he)) hundo).2
    ⟨?_, rfl, .inl hnone⟩
  have hlogged : (.item, 1) ∈ (wroteRows named 60).map (·.key) := by decide +kernel
  exact List.mem_map.1 hlogged

end SecondMind
