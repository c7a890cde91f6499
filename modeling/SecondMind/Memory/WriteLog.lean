import SecondMind.Memory.Batch

/-!
# The write log is complete

Undo, history and audit read nothing but the write log.  This file is about whether it
tells the whole story: whether installing the `after` image of every allowed row of a
commit, in order, turns the tables before it into the tables after it, with every `before`
image in force when its row comes.

* `Told` — the log of a run of row writes tells what happened;
* `RowStep.told_iff` — one row write is told exactly when it is `Plain`: a row that is put
  in takes a free id, and a row that is edited keeps its id;
* `Wrote.told_append_iff` — a run is told exactly when both its parts are, so nothing that
  comes later mends a log that went wrong;
* `Writer.apply_adds` — an op is told exactly when it is `Orderly`;
* `Writer.commit_logComplete_iff` — the log of a commit is complete exactly when the batch
  is orderly.
-/

namespace SecondMind

open Keyed

/-! ## Logs up to the access counters -/

/-- A row write with the access counters of its images set aside. -/
def eraseChange (c : RowChange) : RowChange :=
  ⟨c.table, c.id, c.before.map (eraseAccess c.table), c.after.map (eraseAccess c.table)⟩

theorem rowId_eraseAccess {a : TargetType} (r : a.Record) : rowId a (eraseAccess a r) = rowId a r := by
  cases a <;> rfl

theorem MemoryTables.rowId_of_db_at (t : MemoryTables) {a : TargetType} {i : Uuid} {r : a.Record}
    (h : t.db.at a i = some r) : rowId a r = i := by
  rw [t.db_at, Option.map_eq_some_iff] at h
  obtain ⟨r', hr', rfl⟩ := h
  rw [rowId_eraseAccess, t.rowId_of_lookup hr']

/-- The log of some row writes tells how the tables `t` became `t'`. -/
structure Told (t : MemoryTables) (cs : List RowChange) (t' : MemoryTables) : Prop where
  /-- Every `before` image is what was in force. -/
  chained : Chained t.db (cs.map eraseChange)
  /-- The `after` images, installed one after the other, make the tables. -/
  replayed : replay t.db (cs.map eraseChange) = t'.db

theorem Told.refl (t : MemoryTables) : Told t [] t := ⟨trivial, rfl⟩

theorem Told.append {t t' t'' : MemoryTables} {cs ds : List RowChange} (h : Told t cs t')
    (h' : Told t' ds t'') : Told t (cs ++ ds) t'' := by
  constructor
  · rw [List.map_append, chained_append, h.replayed]
    exact ⟨h.chained, h'.chained⟩
  · rw [List.map_append, replay_append, h.replayed, h'.replayed]

theorem Told.of_append {t t' t'' : MemoryTables} {cs ds : List RowChange} (h : Told t cs t')
    (h' : Told t (cs ++ ds) t'') : Told t' ds t'' := by
  have hc := h'.chained
  have hr := h'.replayed
  rw [List.map_append, chained_append, h.replayed] at hc
  rw [List.map_append, replay_append, h.replayed] at hr
  exact ⟨hc.2, hr⟩

/-! ## One row write -/

/-- A row that is put in takes a free id, and a row that is edited keeps its id. -/
structure Plain (t : MemoryTables) (c : RowChange) : Prop where
  free : c.before = none → (t.table c.table).lookup c.id = none
  keeps : ∀ r, c.after = some r → rowId c.table r = c.id

theorem MemoryTables.lookup_of_db_at_none {t : MemoryTables} {a : TargetType} {i : Uuid}
    (h : t.db.at a i = none) : (t.table a).lookup i = none := by
  rw [t.db_at] at h
  exact Option.map_eq_none_iff.1 h

/-- A row write that is not an insertion has logged the row that was there. -/
theorem RowStep.lookup_before {b : Backend} {turn : Uuid} {t t' : Tables} {c : RowChange}
    (h : RowStep b turn t c t') : c.before = none ∨ (t.table c.table).lookup c.id = c.before := by
  cases h with
  | newItem => exact .inl rfl
  | newEntity => exact .inl rfl
  | newItemEntity => exact .inl rfl
  | newLink => exact .inl rfl
  | newRelation => exact .inl rfl
  | newTrigger => exact .inl rfl
  | editItem stored => exact .inr stored
  | editEntity stored => exact .inr stored
  | dropItemEntity stored => exact .inr stored
  | dropLink stored => exact .inr stored
  | dropRelation stored => exact .inr stored
  | editTrigger stored => exact .inr stored

/-- A row write that keeps its id leaves its `after` image under the id it logs. -/
theorem RowStep.db_after {b : Backend} {turn : Uuid} {t t' : Tables} {c : RowChange}
    (h : RowStep b turn t c t') (keeps : ∀ r, c.after = some r → rowId c.table r = c.id) :
    t'.db = t.db.write c.table c.id (c.after.map (eraseAccess c.table)) := by
  cases h with
  | newItem => exact t.db_putItem _
  | newEntity => exact t.db_putEntity _
  | newItemEntity => exact t.db_putItemEntity _
  | newLink => exact t.db_putLink _
  | newRelation => exact t.db_putRelation _
  | newTrigger => exact t.db_putTrigger _
  | dropItemEntity => exact t.db_dropItemEntity _
  | dropLink => exact t.db_dropLink _
  | dropRelation => exact t.db_dropRelation _
  | @editItem before after _ sameId =>
    rw [← sameId]
    exact db_storeItem t after
  | @editEntity before after _ sameId =>
    rw [← sameId]
    exact t.db_putEntity after
  | @editTrigger _ before after stored _ written =>
    have hid : after.id = before.id := keeps after rfl
    obtain ⟨-, rfl⟩ := (Tables.replaceTrigger_eq_ok (by rw [hid, stored]; rfl)).1 written
    rw [← hid]
    exact t.db_putTrigger after

/-- The log has gone wrong for good: a `before` image was not in force, or the log has a row
under an id that is not the row's own. -/
def Mistold (t : MemoryTables) (cs : List RowChange) : Prop :=
  ¬ Chained t.db (cs.map eraseChange) ∨
    ∃ a i r, (replay t.db (cs.map eraseChange)).at a i = some r ∧ rowId a r ≠ i

theorem Told.not_mistold {t t' : MemoryTables} {cs : List RowChange} (h : Told t cs t') :
    ¬ Mistold t cs := by
  rintro (hc | ⟨a, i, r, hat, hne⟩)
  · exact hc h.chained
  · rw [h.replayed] at hat
    exact hne (t'.rowId_of_db_at hat)

theorem Told.mistold_append {t t' : MemoryTables} {cs ds : List RowChange} (h : Told t cs t')
    (h' : Mistold t' ds) : Mistold t (cs ++ ds) := by
  unfold Mistold at *
  rw [List.map_append, chained_append, replay_append, h.replayed]
  exact h'.imp (fun hc hc' => hc hc'.2) id

theorem plain_of_not_mistold {t : MemoryTables} {c : RowChange} (h : ¬ Mistold t [c]) :
    Plain t c := by
  obtain ⟨hc, hid⟩ := not_or.1 h
  replace hc := Classical.not_not.1 hc
  constructor
  · intro hb
    have hat : t.db.at c.table c.id = c.before.map (eraseAccess c.table) := hc.1
    rw [hb] at hat
    exact MemoryTables.lookup_of_db_at_none hat
  · intro r hr
    by_contra hne
    refine hid ⟨c.table, c.id, eraseAccess c.table r, ?_, by rwa [rowId_eraseAccess]⟩
    show ((eraseChange c).install t.db).at (eraseChange c).table (eraseChange c).id = _
    rw [at_install_self]
    show c.after.map _ = _
    rw [hr]
    rfl

/-- **One row write** is told by its log row exactly when it is plain. -/
theorem RowStep.told_iff {b : Backend} {turn : Uuid} {t t' : Tables} {c : RowChange}
    (h : RowStep b turn t c t') :
    Told t.toMemoryTables [c] t'.toMemoryTables ↔ Plain t.toMemoryTables c := by
  constructor
  · exact fun told => plain_of_not_mistold told.not_mistold
  · intro plain
    constructor
    · refine ⟨?_, trivial⟩
      show t.db.at c.table c.id = c.before.map (eraseAccess c.table)
      rw [t.db_at]
      rcases h.lookup_before with hb | hb
      · rw [plain.free hb, hb]
      · rw [hb]
    · exact (h.db_after plain.keeps).symm

/-! ## Runs of row writes -/

/-- A row's `before` image carries the id the row is logged under. -/
theorem RowStep.rowId_before {b : Backend} {turn : Uuid} {t t' : Tables} {c : RowChange}
    (h : RowStep b turn t c t') {r : c.table.Record} (hr : c.before = some r) :
    rowId c.table r = c.id := by
  rcases h.lookup_before with hb | hb
  · rw [hb] at hr; exact (nomatch hr)
  · exact t.rowId_of_lookup (hb.trans hr)

/-- What comes later does not mend a log that went wrong. -/
theorem Mistold.step {b : Backend} {turn : Uuid} {s : MemoryTables} {t t' : Tables}
    {cs : List RowChange} {c : RowChange} (h : Mistold s cs) (step : RowStep b turn t c t') :
    Mistold s (cs ++ [c]) := by
  unfold Mistold at *
  rw [List.map_append, chained_append, replay_append]
  rcases h with hc | ⟨a, i, r, hat, hne⟩
  · exact .inl fun h => hc h.1
  · by_cases hn : (eraseChange c).Names a i
    · obtain ⟨rfl, rfl⟩ : c.table = a ∧ c.id = i := hn
      refine .inl fun h => ?_
      have hbefore : some r = c.before.map (eraseAccess c.table) := hat.symm.trans h.2.1
      obtain ⟨r', hr', rfl⟩ := Option.map_eq_some_iff.1 hbefore.symm
      exact hne (by rw [rowId_eraseAccess]; exact step.rowId_before hr')
    · refine .inr ⟨a, i, r, ?_, hne⟩
      rw [List.map_singleton, replay_cons, replay_nil, at_install_of_not_names hn, hat]

theorem Mistold.append {b : Backend} {turn : Uuid} {s : MemoryTables} {t t' : Tables}
    {cs ds : List RowChange} (h : Mistold s cs) (hw : Wrote b turn t ds t') :
    Mistold s (cs ++ ds) := by
  induction hw with
  | refl => rwa [List.append_nil]
  | quiet _ _ ih => exact ih
  | row _ step ih =>
    rw [← List.append_assoc]
    exact ih.step step

/-- A log tells what happened, or has gone wrong for good. -/
theorem Wrote.told_or_mistold {b : Backend} {turn : Uuid} {t t' : Tables} {cs : List RowChange}
    (h : Wrote b turn t cs t') :
    Told t.toMemoryTables cs t'.toMemoryTables ∨ Mistold t.toMemoryTables cs := by
  induction h with
  | refl => exact .inl (.refl _)
  | quiet _ q ih => rw [q.memory]; exact ih
  | @row t₁ t₂ cs c hw step ih =>
    rcases ih with told | wrong
    · by_cases hp : Plain t₁.toMemoryTables c
      · exact .inl (told.append (step.told_iff.2 hp))
      · exact .inr (told.mistold_append (Classical.not_not.1 (mt plain_of_not_mistold hp)))
    · exact .inr (wrong.step step)

/-- **A run is told exactly when both its parts are.** -/
theorem Wrote.told_append_iff {b : Backend} {turn : Uuid} {t t' t'' : Tables}
    {cs ds : List RowChange} (h : Wrote b turn t cs t') (h' : Wrote b turn t' ds t'') :
    Told t.toMemoryTables (cs ++ ds) t''.toMemoryTables ↔
      Told t.toMemoryTables cs t'.toMemoryTables ∧ Told t'.toMemoryTables ds t''.toMemoryTables := by
  constructor
  · intro told
    rcases h.told_or_mistold with htold | wrong
    · exact ⟨htold, htold.of_append told⟩
    · exact absurd (wrong.append h') told.not_mistold
  · rintro ⟨told, told'⟩
    exact told.append told'

/-! ## Ops -/

/-- The rows an op puts in take free ids, and the trigger it changes keeps its id. -/
def OpBody.Orderly (t : MemoryTables) : OpBody → Prop
  | .createItem _ _ entities triggers _ _ =>
    FreshIds (t.getItemEntity · = none) (entities.map (·.rowId)) ∧
      FreshIds (t.getTrigger · = none) (triggers.map (·.triggerId))
  | .supersedeItem _ _ linkId _ _ => t.getLink linkId = none
  | .correctItem _ _ linkId => t.getLink linkId = none
  | .fulfilIntention _ _ linkId _ => t.getLink linkId = none
  | .linkItems linkId _ _ _ => t.getLink linkId = none
  | .attachEntity rowId _ _ _ => t.getItemEntity rowId = none
  | .relateEntities relationId _ _ _ _ _ => t.getRelation relationId = none
  | .updateTrigger triggerId changes => changes.id.getD triggerId = triggerId
  | _ => True

namespace Writer

variable {w : Writer}

/-- The rows that `log'` has beyond `log` are `cs`, and they tell how `t` became `t'`
exactly when `orderly` holds. -/
structure Adds (w : Writer) (t : Tables) (log : RowLog) (t' : Tables) (log' : RowLog)
    (orderly : Prop) (cs : List RowChange) : Prop where
  rows : log'.rows.map (·.change) = log.rows.map (·.change) ++ cs
  wrote : Wrote w.backend w.turn.turnId t cs t'
  told_iff : Told t.toMemoryTables cs t'.toMemoryTables ↔ orderly

/-- One row write adds one row. -/
theorem adds_row {t t' : Tables} {c : RowChange} (step : RowStep w.backend w.turn.turnId t c t')
    (log : RowLog) (layer : Layer) (label : Option WriteOp) :
    Adds w t log t' (w.add log c.table c.id c.before c.after layer label)
      (Plain t.toMemoryTables c) [c] := by
  refine ⟨?_, (Wrote.refl t).row step, step.told_iff⟩
  rw [add, List.map_append]
  rfl

theorem Adds.trans {t t' t'' : Tables} {log log' log'' : RowLog} {p q : Prop}
    {cs ds : List RowChange} (h : Adds w t log t' log' p cs) (h' : Adds w t' log' t'' log'' q ds) :
    Adds w t log t'' log'' (p ∧ q) (cs ++ ds) := by
  refine ⟨?_, h.wrote.trans h'.wrote, ?_⟩
  · rw [h'.rows, h.rows, List.append_assoc]
  · rw [h.wrote.told_append_iff h'.wrote, h.told_iff, h'.told_iff]

theorem Adds.congr {t t' : Tables} {log log' : RowLog} {p q : Prop} {cs : List RowChange}
    (h : Adds w t log t' log' p cs) (hpq : p ↔ q) : Adds w t log t' log' q cs :=
  ⟨h.rows, h.wrote, h.told_iff.trans hpq⟩

theorem Adds.after {t t' t'' : Tables} {log log' : RowLog} {p : Prop} {cs : List RowChange}
    (q : Quiet t t') (h : Adds w t' log t'' log' p cs) : Adds w t log t'' log' p cs :=
  ⟨h.rows, Wrote.after q h.wrote, by rw [← q.memory]; exact h.told_iff⟩

theorem adds_nil (t : Tables) (log : RowLog) : Adds w t log t log True [] :=
  ⟨by simp, .refl t, ⟨fun _ => trivial, fun _ => .refl _⟩⟩

/-- A row that is edited in place is always plain. -/
theorem plain_edit {t : MemoryTables} {a : TargetType} {before after : a.Record}
    (h : rowId a after = rowId a before) :
    Plain t ⟨a, rowId a before, some before, some after⟩ :=
  ⟨fun e => (nomatch e), fun r hr => by cases hr; exact h⟩

/-- A row that is put in is plain when its id is free. -/
theorem plain_new {t : MemoryTables} {a : TargetType} {r : a.Record} :
    Plain t ⟨a, rowId a r, none, some r⟩ ↔ (t.table a).lookup (rowId a r) = none :=
  ⟨fun h => h.free rfl, fun h => ⟨fun _ => h, fun r' hr => by cases hr; rfl⟩⟩

/-- A row that is taken out is always plain. -/
theorem plain_drop {t : MemoryTables} {a : TargetType} {i : Uuid} {r : a.Record} :
    Plain t ⟨a, i, some r, none⟩ :=
  ⟨fun e => (nomatch e), fun _ hr => (nomatch hr)⟩

theorem attachNew_adds {record : ItemRecord} {links : List EntityLink} {t t' : Tables}
    {log log' : RowLog} (stored : (t.getItem record.id).isSome)
    (h : w.attachNew record t log links = .ok (t', log')) :
    (∃ cs, Adds w t log t' log' (FreshIds (t.getItemEntity · = none) (links.map (·.rowId))) cs) ∧
      (t'.getItem record.id).isSome ∧ t'.triggers = t.triggers := by
  induction links generalizing t log with
  | nil =>
    cases h
    exact ⟨⟨[], (adds_nil t' log').congr (by simp [FreshIds])⟩, stored, rfl⟩
  | cons link links ih =>
    unfold attachNew at h
    split at h
    · cases h
    · obtain ⟨t₁, hins, h⟩ := bind_eq_ok.1 h
      obtain ⟨hfits, rfl⟩ := Tables.insertItemEntity_eq_ok.1 (run_eq_ok.1 hins)
      obtain ⟨⟨cs, hcs⟩, hstored, htrig⟩ := ih (by exact stored) h
      refine ⟨⟨_, ((adds_row (.newItemEntity rfl stored hfits) log _ _).trans hcs).congr ?_⟩,
        hstored, htrig⟩
      rw [List.map_cons, freshIds_cons]
      refine and_congr plain_new ?_
      simp only [MemoryTables.getItemEntity, KeyTable.lookup_put_eq_none]

theorem triggerNew_adds {record : ItemRecord} {news : List NewTrigger} {t t' : Tables}
    {log log' : RowLog} (stored : (t.getItem record.id).isSome)
    (h : w.triggerNew record t log news = .ok (t', log')) :
    ∃ cs, Adds w t log t' log' (FreshIds (t.getTrigger · = none) (news.map (·.triggerId))) cs := by
  induction news generalizing t log with
  | nil =>
    cases h
    exact ⟨[], (adds_nil t' log').congr (by simp [FreshIds])⟩
  | cons new news ih =>
    obtain ⟨t₁, hins, h⟩ := bind_eq_ok.1 h
    obtain ⟨hfits, rfl⟩ := Tables.insertTrigger_eq_ok.1 (run_eq_ok.1 hins)
    obtain ⟨cs, hcs⟩ := ih (by exact stored) h
    refine ⟨_, ((adds_row (.newTrigger rfl rfl stored hfits) log _ _).trans hcs).congr ?_⟩
    rw [List.map_cons, freshIds_cons]
    refine and_congr plain_new ?_
    simp only [MemoryTables.getTrigger, KeyTable.lookup_put_eq_none]

theorem createItem_adds {t t' : Tables} {i : Nat} {log log' : RowLog} {itemId : Uuid}
    {item : ItemContent} {entities : List EntityLink} {triggers : List NewTrigger}
    {slug name : Option String}
    (h : w.createItem t i log itemId item entities triggers slug name = .ok (t', log')) :
    ∃ cs, Adds w t log t' log'
      ((OpBody.createItem itemId item entities triggers slug name).Orderly t.toMemoryTables) cs := by
  obtain ⟨record, hnew, h⟩ := bind_eq_ok.1 h
  obtain ⟨-, -, -, hmade, hstamp⟩ := newItem_eq_ok (run_eq_ok.1 hnew)
  have hvalid := newItem_valid (run_eq_ok.1 hnew)
  split at h
  · exact (nomatch h)
  · rename_i hfree
    replace hfree := Option.not_isSome_iff_eq_none.1 hfree
    obtain ⟨t₁, hins, h⟩ := bind_eq_ok.1 h
    obtain ⟨hfits, rfl⟩ := Tables.insertItem_eq_ok.1 (run_eq_ok.1 hins)
    obtain ⟨⟨t₂, log₂⟩, hatt, h⟩ := bind_eq_ok.1 h
    have hmem := (w.aside_category t i item slug name).memory
    have hnew := adds_row (.newItem hfree hmade hstamp hvalid fun e => (hfits e).2)
      log record.layer none
    obtain ⟨⟨cs, hcs⟩, hstored, htrig⟩ :=
      attachNew_adds (by rw [MemoryTables.getItem, KeyTable.lookup_put_self]; rfl) hatt
    obtain ⟨ds, hds⟩ := triggerNew_adds hstored h
    refine ⟨_, (((hnew.trans hcs).trans hds).after
      (w.aside_category t i item slug name).quiet).congr ?_⟩
    have hplain : Plain _ ⟨.item, record.id, none, some record⟩ := plain_new.2 hfree
    simp only [MemoryTables.getTrigger, MemoryTables.getItemEntity, htrig] at *
    rw [and_iff_right hplain]
    simp only [hmem]
    rfl

theorem changeItem_adds {t t' : Tables} {i : Nat} {log log' : RowLog} {itemId : Uuid}
    {changes : ItemChanges} (h : w.changeItem t i log itemId changes = .ok (t', log')) :
    ∃ cs, Adds w t log t' log' True cs := by
  obtain ⟨before, after, hget, rfl, -, hv, hfits, hx⟩ := changeItem_eq_ok.1 h
  obtain ⟨rfl, rfl⟩ := Prod.mk.inj hx
  have hid : before.id = itemId := KeyTable.key_of_lookup hget
  have hstored : (w.refile t i changes).1.getItem before.id = some before := by
    rw [getItem_refile, hid, hget]
  refine ⟨_, ((adds_row (edit_step hstored hv hfits) log _ _).after
    (w.aside_refile t i changes).quiet).congr (iff_true_intro (plain_edit rfl))⟩

theorem changeAndLink_adds {t t' : Tables} {log log' : RowLog} {oldId newId : Uuid}
    {old new : ItemRecord} {changes : ItemChanges} {linkId : Uuid} {linkType : LinkType}
    (hold : liveItem t oldId = .ok old) (hnew : liveItem t newId = .ok new)
    (hs : (w.edited old changes).status ≠ .deleted)
    (h : w.changeAndLink t log old new changes linkId linkType = .ok (t', log')) :
    ∃ cs, Adds w t log t' log' (t.getLink linkId = none) cs := by
  obtain ⟨hedit, hlink, rfl⟩ := changeAndLink_steps hold hnew hs h
  refine ⟨_, ((adds_row hedit log _ _).trans (adds_row hlink _ _ _)).congr ?_⟩
  have hplain : Plain t.toMemoryTables
      ⟨.item, old.id, some old, some (w.edited old changes)⟩ := plain_edit rfl
  rw [and_iff_right hplain]
  exact plain_new (a := .link) (r := w.newLink linkId new.id linkType old.id)

theorem changeTrigger_adds {t t' : Tables} {log log' : RowLog} {triggerId : Uuid}
    {changes : TriggerChanges} (h : w.changeTrigger t log triggerId changes = .ok (t', log')) :
    ∃ cs, Adds w t log t' log' (changes.id.getD triggerId = triggerId) cs := by
  obtain ⟨before, t₁, hget, -, hrep, hx⟩ := changeTrigger_eq_ok.1 h
  obtain ⟨rfl, rfl⟩ := Prod.mk.inj hx
  obtain rfl : before.id = triggerId := KeyTable.key_of_lookup hget
  refine ⟨_, (adds_row (.editTrigger hget rfl hrep) log _ _).congr ?_⟩
  constructor
  · intro h
    exact h.keeps _ rfl
  · intro h
    exact ⟨fun e => (nomatch e), fun r hr => by cases hr; exact h⟩

/-- **An op is told by its log rows exactly when it is orderly.** -/
theorem apply_adds {t t' : Tables} {i : Nat} {log log' : RowLog} {body : OpBody}
    (h : w.apply t i log body = .ok (t', log')) :
    ∃ cs, Adds w t log t' log' (body.Orderly t.toMemoryTables) cs := by
  cases body with
  | createItem => exact createItem_adds h
  | updateItem => exact changeItem_adds h
  | setItemState => exact changeItem_adds h
  | deleteItem => exact changeItem_adds h
  | restoreItem => exact changeItem_adds h
  | supersedeItem oldId newId linkId validTo state =>
    obtain ⟨old, new, hold, hnew, -, h⟩ := supersede_eq_ok.1 h
    exact changeAndLink_adds hold hnew (notDeleted_edited hold (by rfl)) h
  | correctItem oldId newId linkId =>
    obtain ⟨old, new, hold, hnew, -, h⟩ := correct_eq_ok.1 h
    exact changeAndLink_adds hold hnew (by simp [edited, changedContent, ItemChanges.apply]) h
  | fulfilIntention intentionId episodeId linkId state =>
    obtain ⟨old, new, hold, hnew, -, h⟩ := fulfil_eq_ok.1 h
    exact changeAndLink_adds hold hnew (notDeleted_edited hold (by rfl)) h
  | linkItems linkId srcId linkType dstId =>
    obtain ⟨hsrc, hdst, h⟩ := linkItems_eq_ok.1 h
    obtain ⟨hfits, hx⟩ := insertLink_eq_ok.1 h
    obtain ⟨rfl, rfl⟩ := Prod.mk.inj hx
    exact ⟨_, (adds_row (.newLink (r := w.newLink linkId srcId linkType dstId) rfl hsrc hdst
      hfits) log _ _).congr plain_new⟩
  | unlinkItems linkId =>
    obtain ⟨old, hget, hx⟩ := unlinkItems_eq_ok.1 h
    obtain ⟨rfl, rfl⟩ := Prod.mk.inj hx
    obtain rfl : old.id = linkId := KeyTable.key_of_lookup hget
    exact ⟨_, (adds_row (.dropLink hget) log _ _).congr (iff_true_intro plain_drop)⟩
  | attachEntity rowId itemId entityId role =>
    obtain ⟨hstored, hfits, hx⟩ := attach_eq_ok.1 h
    obtain ⟨rfl, rfl⟩ := Prod.mk.inj hx
    exact ⟨_, (adds_row (.newItemEntity (r := w.newItemEntity rowId itemId entityId role) rfl
      hstored hfits) log _ _).congr plain_new⟩
  | detachEntity rowId =>
    obtain ⟨old, hget, hx⟩ := detach_eq_ok.1 h
    obtain ⟨rfl, rfl⟩ := Prod.mk.inj hx
    obtain rfl : old.id = rowId := KeyTable.key_of_lookup hget
    exact ⟨_, (adds_row (.dropItemEntity hget) log _ _).congr (iff_true_intro plain_drop)⟩
  | upsertEntity entityId entity create =>
    rcases upsertEntity_eq_ok.1 h with ⟨-, hfree, hfits, hx⟩ | ⟨-, before, hget, hfits, hx⟩
    · obtain ⟨rfl, rfl⟩ := Prod.mk.inj hx
      exact ⟨_, (adds_row (.newEntity (r := w.newEntity entityId entity) hfree rfl rfl hfits)
        log _ _).congr (iff_true_intro (plain_new.2 hfree))⟩
    · obtain ⟨rfl, rfl⟩ := Prod.mk.inj hx
      exact ⟨_, (adds_row (editEntity_step hget hfits) log _ _).congr
        (iff_true_intro (plain_edit rfl))⟩
  | deleteEntity entityId =>
    obtain ⟨before, after, hget, -, rfl, hfits, hx⟩ := deleteEntity_eq_ok.1 h
    obtain ⟨rfl, rfl⟩ := Prod.mk.inj hx
    exact ⟨_, (adds_row (editEntity_step hget hfits) log _ _).congr
      (iff_true_intro (plain_edit rfl))⟩
  | relateEntities relationId src relation dst validFrom evidence =>
    obtain ⟨hfits, hx⟩ := relate_eq_ok.1 h
    obtain ⟨rfl, rfl⟩ := Prod.mk.inj hx
    exact ⟨_, (adds_row
      (.newRelation (r := w.newRelation relationId src relation dst validFrom evidence) rfl rfl
        hfits) log _ _).congr plain_new⟩
  | unrelateEntities relationId =>
    obtain ⟨old, hget, hx⟩ := unrelate_eq_ok.1 h
    obtain ⟨rfl, rfl⟩ := Prod.mk.inj hx
    obtain rfl : old.id = relationId := KeyTable.key_of_lookup hget
    exact ⟨_, (adds_row (.dropRelation hget) log _ _).congr (iff_true_intro plain_drop)⟩
  | setTriggerState triggerId state =>
    obtain ⟨cs, hcs⟩ := changeTrigger_adds h
    exact ⟨cs, hcs.congr (iff_true_intro rfl)⟩
  | updateTrigger => exact changeTrigger_adds h

/-! ## Batches -/

/-- What the rows of a batch so far tell. -/
def Progress.Told (t : Tables) (p : Progress) : Prop :=
  SecondMind.Told t.toMemoryTables (allowedChanges p.rows) p.tables.toMemoryTables

theorem step_told_iff {sb i : Nat} {t : Tables} {p p' : Progress} {op : Op}
    (hf : p.Follows w sb t) (h : w.step sb i p op = .ok p') :
    p'.Told t ↔ p.Told t ∧ (w.Applies sb i p op → op.body.Orderly p.tables.toMemoryTables) := by
  rcases step_cases h with ⟨v, hv, hd, rfl⟩ | ⟨v, t₁, reason, -, -, ha, rfl⟩ |
    ⟨v, t₁, log, hv, hd, ha, rfl⟩
  · have hnot : ¬ w.Applies sb i p op := by
      rintro ⟨⟨v', hv', hd'⟩, -⟩
      rw [hv] at hv'
      cases hv'
      exact hd hd'
    rw [Progress.Told, w.allowedChanges_refuse _ _ _ _ hd, refuse_tables,
      and_iff_left fun h => absurd h hnot]
    rfl
  · have hnot : ¬ w.Applies sb i p op := by
      rintro ⟨-, x, hx⟩
      rw [ha] at hx
      exact (nomatch hx)
    rw [Progress.Told, rows_append, List.append_nil, and_iff_left fun h => absurd h hnot,
      (apply_skip ha).memory]
    rfl
  · have happ : w.Applies sb i p op := ⟨⟨v, hv, hd⟩, _, ha⟩
    obtain ⟨cs, hcs⟩ := apply_adds ha
    have hrows := hcs.rows
    rw [List.map_nil, List.nil_append] at hrows
    obtain ⟨hsound, -, -⟩ := (apply_does ha).sound ⟨rfl, by simp⟩
    rw [Progress.Told, rows_append, allowedChanges_append,
      allowedChanges_of_allowed fun r hr => (hsound.own r hr).2, hrows,
      hf.wrote.told_append_iff hcs.wrote, hcs.told_iff]
    exact and_congr_right fun _ => ⟨fun h _ => h, fun h => h happ⟩

theorem steps_told_iff {sb : Nat} {t : Tables} {ops : List Op} {i : Nat} {p p' : Progress}
    (hf : p.Follows w sb t) (h : w.steps sb i p ops = .ok p') :
    p'.Told t ↔ p.Told t ∧
      w.EveryApplied sb (fun t op => op.body.Orderly t.toMemoryTables) i p ops := by
  induction ops generalizing i p with
  | nil =>
    cases h
    exact (and_iff_left trivial).symm
  | cons op ops ih =>
    obtain ⟨p₁, h₁, h⟩ := bind_eq_ok.1 h
    rw [ih (hf.step h₁) h, step_told_iff hf h₁, and_assoc]
    refine and_congr_right fun _ => and_congr_right fun _ => ?_
    constructor
    · intro hall p'' hp''
      rw [h₁] at hp''
      cases hp''
      exact hall
    · exact fun hall => hall p₁ h₁

/-- Every op the batch applies is orderly on the tables it meets.  A batch that is held whole
applies none. -/
def OrderlyBatch (w : Writer) (t : Tables) : Prop :=
  w.heldWhole = true ∨
    w.EveryApplied (w.seqBase t) (fun t op => op.body.Orderly t.toMemoryTables) 0
      { tables := w.writeVocab t } w.ops

/-- The log of a commit is complete: installing the `after` image of each allowed row, in
`seq` order, turns the tables before into the tables after; each `before` image is what
was in force when the row comes; and the rows of the commit are numbered one by one from
the largest `seq` the turn already had. -/
structure LogComplete (w : Writer) (t t' : Tables) (res : CommitResult) : Prop where
  replayed : replay t.db ((allowedChanges res.rows).map eraseChange) = t'.db
  chained : Chained t.db ((allowedChanges res.rows).map eraseChange)
  numbered : res.rows.map (·.seq) = List.range' (w.seqBase t + 1) res.rows.length

/-- **The write log is complete exactly when the batch is orderly.**  An op leaves the log
behind in two ways only: it changes the id of a trigger, so that the row it writes is not
the one it logs; or, on a store without primary keys, it puts a row in under an id that
is taken. -/
theorem commit_logComplete_iff {t t' : Tables} {res : CommitResult}
    (h : w.commit t = .ok (t', res)) : LogComplete w t t' res ↔ w.OrderlyBatch t := by
  have hnumbered := (commit_spec h).numbered
  obtain ⟨p, hp⟩ := commit_parts h
  have htold : LogComplete w t t' res ↔ p.Told (w.writeVocab t) := by
    rw [Progress.Told, ← hp.rows, ← hp.memory, writeVocab_memory]
    exact ⟨fun hc => ⟨hc.chained, hc.replayed⟩, fun ht => ⟨ht.replayed, ht.chained, hnumbered⟩⟩
  rw [htold, OrderlyBatch]
  have hbatch := hp.batch
  unfold applyAll at hbatch
  split at hbatch
  · rename_i hwhole
    cases hbatch
    rw [Progress.Told, allowedChanges_holdEverything]
    exact iff_of_true (.refl _) (.inl hwhole)
  · rename_i hwhole
    have hstart : Progress.Follows w (w.seqBase t) (w.writeVocab t) { tables := w.writeVocab t } :=
      ⟨.refl _, rfl, rfl, by simp [Progress.rows], rfl, rfl, rfl⟩
    rw [steps_told_iff hstart hbatch, or_iff_right hwhole]
    exact and_iff_right (.refl _)

/-! ### A trigger that is given another id -/

/-- A note of the person's. -/
def bankNote : ItemContent :=
  { kind := .note, state := "current", text := "call the bank", title := "bank", mentionedAt := 0 }

def bankItem : ItemRecord :=
  { toItemContent := bankNote, id := 1, createdAt := 0, updatedAt := 0, createdByTurnId := 100,
    updatedByTurnId := 100 }

def bankReminder : TriggerRecord :=
  { id := 2, itemId := 1, createdAt := 0, updatedAt := 0, createdByTurnId := 100,
    updatedByTurnId := 100 }

/-- A workspace with the note, and a reminder of it under the id 2. -/
def reminded : Tables :=
  { Tables.initial 0 with
    items := KeyTable.empty.put bankItem
    triggers := KeyTable.empty.put bankReminder }

/-- A turn that sets the id of the reminder. -/
def setTriggerId (id : Uuid) : Writer :=
  { backend := .sql, turn := { turnId := 101, now := 1 }
    ops := [{ body := .updateTrigger 2 { id := some id } }] }

/-- The log says that the reminder under 2 changed; the store has left it as it was. -/
theorem setTriggerId_not_logComplete :
    ∃ t' res, (setTriggerId 3).commit reminded = .ok (t', res) ∧
      ¬ LogComplete (setTriggerId 3) reminded t' res := by
  refine ⟨_, _, rfl, fun h => ?_⟩
  have hat := congrArg (fun d => d.at .trigger 2) h.replayed
  revert hat
  decide +kernel

theorem setTriggerId_same_logComplete :
    ∃ t' res, (setTriggerId 2).commit reminded = .ok (t', res) ∧
      LogComplete (setTriggerId 2) reminded t' res :=
  ⟨_, _, rfl, (commit_logComplete_iff rfl).2 (.inr ⟨fun _ => rfl, fun _ _ => trivial⟩)⟩

end Writer
end SecondMind
