import SecondMind.Memory.UndoRows

/-!
# Redo

An undo is a turn like any other, and its log is taken back like any other.  Nothing has to be
asked of it: the ids it makes up are new, so its log tells what it did, and its ops delete an item
or bring one back without changing anything else of it.

* `Writer.inverse_logs` — what an inverse op logs;
* `UndoneTurn.undo_orderly`, `UndoneTurn.undo_alone` — an undo can be undone;
* `redo_restores` — undoing the undo of a turn gives back what the turn had written.
-/

namespace SecondMind

open Keyed

namespace Writer

variable {w : Writer} {planId : Nat → Uuid}

/-! ## What an inverse op logs -/

theorem map_change_add {log : RowLog} (a : TargetType) (id : Uuid) (before after : Option a.Record)
    (layer : Layer) (label : Option WriteOp) :
    (w.add log a id before after layer label).rows.map (·.change) =
      log.rows.map (·.change) ++ [⟨a, id, before, after⟩] := by
  rw [add, List.map_append]
  rfl

/-- An item edit logs one row, under the id of the item. -/
theorem editItem_logs (hw : w.confirmed = false) {t t' : Tables} {i : Nat} {log log' : RowLog}
    {itemId : Uuid} {changes : ItemChanges} (hslug : changes.categorySlug = none)
    (h : w.changeItem t i log itemId changes = .ok (t', log')) :
    ∃ old new : ItemRecord, t.db.at .item itemId = some old.eraseAccess ∧
      log'.rows.map (·.change) = log.rows.map (·.change) ++ [⟨.item, itemId, some old, some new⟩] ∧
      new.toItemContent = changes.apply old.toItemContent := by
  obtain ⟨before, after, hget, rfl, -, -, -, hx⟩ := changeItem_eq_ok.1 h
  obtain ⟨rfl, rfl⟩ := Prod.mk.inj hx
  obtain rfl : before.id = itemId := KeyTable.key_of_lookup hget
  refine ⟨before, w.edited before changes, ?_, ?_, ?_⟩
  · rw [MemoryTables.db_at, show (t.table .item).lookup before.id = some before from hget]
    rfl
  · rw [refile_of_none hslug]
    exact map_change_add _ _ _ _ _ _
  · simp [edited, changedContent, hw]

/-- An edit that sets the status alone changes nothing else. -/
theorem crossesAlone_status {id : Uuid} {old new : ItemRecord} {status : ItemStatus}
    (h : new.toItemContent = ItemChanges.apply { status := some status } old.toItemContent) :
    CrossesAlone ⟨.item, id, some old, some new⟩ := by
  intro _
  have hstatus : new.status = status := by
    rw [h]
    rfl
  rw [hstatus, h]
  rfl

/-- The difference of two contents does not delete an item, nor bring it back, where the op of an
undo is an update. -/
theorem crossesAlone_diff {id : Uuid} {b a old new : ItemRecord}
    (hsame : old.toItemContent.eraseAccess = a.toItemContent.eraseAccess)
    (hdel : ¬ (b.status = .active ∧ a.status = .deleted))
    (hback : ¬ (b.status = .deleted ∧ a.status = .active))
    (h : new.toItemContent = (b.toItemContent.diff a.toItemContent).apply old.toItemContent) :
    CrossesAlone ⟨.item, id, some old, some new⟩ := by
  intro hcrosses
  have hnew : new.toItemContent.eraseAccess = b.toItemContent.eraseAccess := by
    rw [h]
    exact ItemChanges.apply_diff hsame
  have hstatus := congrArg ItemContent.status hnew
  have hold := congrArg ItemContent.status hsame
  replace hstatus : new.status = b.status := hstatus
  replace hold : old.status = a.status := hold
  unfold Crosses at hcrosses
  rw [hstatus, hold] at hcrosses
  rcases hcrosses with ⟨ha, hb⟩ | ⟨ha, hb⟩
  · exact absurd ⟨hb, ha⟩ hback
  · exact absurd ⟨hb, ha⟩ hdel

/-- **An inverse op logs one row**, of the table its log row is of.  In a stamped table it is the
very row, and an item is not changed on its way out of the archive or into it. -/
theorem inverse_logs (hw : w.confirmed = false) {newId : Uuid} {a : TargetType} {id : Uuid}
    {before after : Option a.Record} {body : OpBody}
    (hplan : inverseBody newId a id before after = some body) {t t' : Tables} {i : Nat}
    {log log' : RowLog} (h : w.apply t i log body = .ok (t', log'))
    (hnear : a.stamped = true → Reverted a (t.db.at a id) after) :
    ∃ c : RowChange, log'.rows.map (·.change) = log.rows.map (·.change) ++ [c] ∧ CrossesAlone c ∧
      c.table = a ∧ (a.stamped = true → c.id = id) := by
  cases a with
  | item =>
    simp only [inverseBody, inverseItem] at hplan
    cases before with
    | none =>
      cases hplan
      obtain ⟨old, new, -, hlog, hcontent⟩ := editItem_logs hw rfl h
      exact ⟨_, hlog, crossesAlone_status hcontent, rfl, fun _ => rfl⟩
    | some b =>
      cases after with
      | none => cases hplan
      | some e =>
        dsimp only at hplan
        split at hplan
        · cases hplan
          obtain ⟨old, new, -, hlog, hcontent⟩ := editItem_logs hw rfl h
          exact ⟨_, hlog, crossesAlone_status hcontent, rfl, fun _ => rfl⟩
        · rename_i hdel
          split at hplan
          · cases hplan
            obtain ⟨old, new, -, hlog, hcontent⟩ := editItem_logs hw rfl h
            exact ⟨_, hlog, crossesAlone_status hcontent, rfl, fun _ => rfl⟩
          · rename_i hback
            split at hplan
            · cases hplan
            · cases hplan
              obtain ⟨old, new, hold, hlog, hcontent⟩ := editItem_logs hw rfl h
              obtain ⟨r, hr, hsame⟩ := hnear rfl
              rw [hold] at hr
              cases hr
              exact ⟨_, hlog, crossesAlone_diff hsame hdel hback hcontent, rfl, fun _ => rfl⟩
  | entity =>
    simp only [inverseBody, inverseEntity] at hplan
    repeat' split at hplan
    all_goals cases hplan
    · obtain ⟨old, _, hget, -, rfl, -, hx⟩ := deleteEntity_eq_ok.1 h
      obtain ⟨rfl, rfl⟩ := Prod.mk.inj hx
      have hid : old.id = id := KeyTable.key_of_lookup hget
      exact ⟨_, map_change_add _ _ _ _ _ _, trivial, rfl, fun _ => hid⟩
    · rcases upsertEntity_eq_ok.1 h with ⟨hc, -⟩ | ⟨-, old, hget, -, hx⟩
      · cases hc
      · obtain ⟨rfl, rfl⟩ := Prod.mk.inj hx
        have hid : old.id = id := KeyTable.key_of_lookup hget
        exact ⟨_, map_change_add _ _ _ _ _ _, trivial, rfl, fun _ => hid⟩
  | trigger =>
    have htrigger : ∃ changes, w.changeTrigger t log id changes = .ok (t', log') := by
      simp only [inverseBody, inverseTrigger] at hplan
      repeat' split at hplan
      all_goals cases hplan
      all_goals exact ⟨_, h⟩
    obtain ⟨changes, h⟩ := htrigger
    obtain ⟨old, t₁, hget, -, -, hx⟩ := changeTrigger_eq_ok.1 h
    obtain ⟨rfl, rfl⟩ := Prod.mk.inj hx
    have hid : old.id = id := KeyTable.key_of_lookup hget
    exact ⟨_, map_change_add _ _ _ _ _ _, trivial, rfl, fun _ => hid⟩
  | link =>
    cases before with
    | none =>
      cases hplan
      obtain ⟨old, -, hx⟩ := unlinkItems_eq_ok.1 h
      obtain ⟨rfl, rfl⟩ := Prod.mk.inj hx
      exact ⟨_, map_change_add _ _ _ _ _ _, trivial, rfl, fun e => absurd e Bool.false_ne_true⟩
    | some link =>
      cases hplan
      obtain ⟨-, -, h⟩ := linkItems_eq_ok.1 h
      obtain ⟨-, hx⟩ := insertLink_eq_ok.1 h
      obtain ⟨rfl, rfl⟩ := Prod.mk.inj hx
      exact ⟨_, map_change_add _ _ _ _ _ _, trivial, rfl, fun e => absurd e Bool.false_ne_true⟩
  | itemEntity =>
    cases before with
    | none =>
      cases hplan
      obtain ⟨old, -, hx⟩ := detach_eq_ok.1 h
      obtain ⟨rfl, rfl⟩ := Prod.mk.inj hx
      exact ⟨_, map_change_add _ _ _ _ _ _, trivial, rfl, fun e => absurd e Bool.false_ne_true⟩
    | some row =>
      cases hplan
      obtain ⟨-, -, hx⟩ := attach_eq_ok.1 h
      obtain ⟨rfl, rfl⟩ := Prod.mk.inj hx
      exact ⟨_, map_change_add _ _ _ _ _ _, trivial, rfl, fun e => absurd e Bool.false_ne_true⟩
  | relation =>
    cases before with
    | none =>
      cases hplan
      obtain ⟨old, -, hx⟩ := unrelate_eq_ok.1 h
      obtain ⟨rfl, rfl⟩ := Prod.mk.inj hx
      exact ⟨_, map_change_add _ _ _ _ _ _, trivial, rfl, fun e => absurd e Bool.false_ne_true⟩
    | some row =>
      cases hplan
      obtain ⟨-, hx⟩ := relate_eq_ok.1 h
      obtain ⟨rfl, rfl⟩ := Prod.mk.inj hx
      exact ⟨_, map_change_add _ _ _ _ _ _, trivial, rfl, fun e => absurd e Bool.false_ne_true⟩

/-! ## The log of an undo -/

/-- What an undo logs: an item is deleted or brought back by itself, and a row of a stamped table is
one that the turn wrote. -/
structure BackLogged (rows : List WriteLogRecord) (c : RowChange) : Prop where
  alone : CrossesAlone c
  touched : c.table.stamped = true → ∃ row ∈ rows, row.key = (c.table, c.id)

/-- **The rows a batch of inverse ops logs**, while it takes a log back. -/
theorem steps_logs (hw : w.confirmed = false) {sb : Nat} {rows : List WriteLogRecord}
    {d : Db TargetType Uuid TargetType.Record} (hrows : ∀ row ∈ rows, Undoable row.change)
    (hchained : Chained d (rows.reverse.map fun row => eraseChange row.change)) {k i : Nat}
    {p p' : Progress}
    (hnear : ∀ row ∈ rows, row.targetType.stamped = true →
      Reverted row.targetType (p.tables.db.at row.targetType row.targetId)
        ((replay d (rows.reverse.map fun row => eraseChange row.change)).at row.targetType
          row.targetId))
    (h : w.steps sb i p ((rows.zipIdx k).filterMap fun e => inverse (planId e.2) e.1) = .ok p')
    (hfull : InFull p'.outcomes) {c : RowChange} (hc : c ∈ allowedChanges p'.rows) :
    c ∈ allowedChanges p.rows ∨ BackLogged rows c := by
  induction rows generalizing k i p with
  | nil =>
    cases h
    exact .inl hc
  | cons row rows ih =>
    have hrow := hrows row List.mem_cons_self
    have hrest := fun r hr => hrows r (List.mem_cons_of_mem _ hr)
    have hwider : ∀ {c}, BackLogged rows c → BackLogged (row :: rows) c := fun hb =>
      ⟨hb.alone, fun ha => by
        obtain ⟨r, hr, hkey⟩ := hb.touched ha
        exact ⟨r, List.mem_cons_of_mem _ hr, hkey⟩⟩
    rw [List.reverse_cons, List.map_append, List.map_singleton] at hchained hnear
    have hnext : ∀ p₁ : Progress, w.UndoStep planId k (eraseChange row.change) p.tables.db
        p₁.tables.db → ∀ r ∈ rows, r.targetType.stamped = true →
        Reverted r.targetType (p₁.tables.db.at r.targetType r.targetId)
          ((replay d (rows.reverse.map fun row => eraseChange row.change)).at r.targetType
            r.targetId) := fun p₁ hstep r hr ha =>
      (hstep.takesBack hw).near_replay hchained ha (hnear r (List.mem_cons_of_mem _ hr) ha)
    rw [List.zipIdx_cons, List.filterMap_cons] at h
    cases hplan : inverse (planId k) row with
    | none =>
      simp only [hplan] at h
      have hstep : w.UndoStep planId k (eraseChange row.change) p.tables.db p.tables.db :=
        ⟨row.change, hrow, rfl, .inl ⟨Option.map_eq_none_iff.1 hplan, rfl⟩⟩
      exact (ih hrest (chained_append.1 hchained).1 (hnext p hstep) h).imp id hwider
    | some op =>
      simp only [hplan] at h
      obtain ⟨p₁, h₁, hmore⟩ := bind_eq_ok.1 h
      obtain ⟨log, happly, hadded⟩ := step_applies h₁ hmore hfull
      obtain ⟨body, hbody, rfl⟩ := Option.map_eq_some_iff.1 hplan
      have hstep : w.UndoStep planId k (eraseChange row.change) p.tables.db p₁.tables.db :=
        ⟨row.change, hrow, rfl, .inr ⟨body, hbody, _, _, _, _, _, rfl, rfl, happly⟩⟩
      rcases ih hrest (chained_append.1 hchained).1 (hnext p₁ hstep) hmore with hold | hlater
      · rw [hadded] at hold
        refine (List.mem_append.1 hold).imp id fun hmem => ?_
        have hat : row.targetType.stamped = true →
            Reverted row.targetType (p.tables.db.at row.targetType row.targetId) row.after := by
          intro ha
          have hat := hnear row List.mem_cons_self ha
          rw [replay_append, replay_cons, replay_nil] at hat
          have hinstall := at_install_self (eraseChange row.change)
            (replay d (rows.reverse.map fun row => eraseChange row.change))
          rw [show ((eraseChange row.change).install _).at row.targetType row.targetId = _ from
            hinstall] at hat
          exact reverted_eraseAccess.1 hat
        obtain ⟨c', hlog, halone, htable, hid⟩ := inverse_logs hw hbody happly hat
        rw [hlog, List.map_nil, List.nil_append, List.mem_singleton] at hmem
        subst hmem
        refine ⟨halone, fun ha => ⟨row, List.mem_cons_self, Prod.ext htable.symm ?_⟩⟩
        rw [htable] at ha
        exact (hid ha).symm
      · exact .inr (hwider hlater)

/-- An op of an undo is orderly: the rows it puts in have made up ids. -/
theorem inverse_orderly {k : Nat} {a : TargetType} {id : Uuid} {before after : Option a.Record}
    {body : OpBody} (hplan : inverseBody (planId k) a id before after = some body)
    {t : MemoryTables} (hfresh : FreshFrom planId k t.db) : body.Orderly t := by
  cases a with
  | item =>
    simp only [inverseBody, inverseItem] at hplan
    repeat' split at hplan
    all_goals cases hplan
    all_goals exact trivial
  | entity =>
    simp only [inverseBody, inverseEntity] at hplan
    repeat' split at hplan
    all_goals cases hplan
    all_goals exact trivial
  | trigger =>
    simp only [inverseBody, inverseTrigger] at hplan
    repeat' split at hplan
    all_goals cases hplan
    · exact trivial
    · exact rfl
  | link =>
    cases before with
    | none =>
      cases hplan
      exact trivial
    | some link =>
      cases hplan
      exact MemoryTables.lookup_of_db_at_none (hfresh k le_rfl .link rfl)
  | itemEntity =>
    cases before with
    | none =>
      cases hplan
      exact trivial
    | some row =>
      cases hplan
      exact MemoryTables.lookup_of_db_at_none (hfresh k le_rfl .itemEntity rfl)
  | relation =>
    cases before with
    | none =>
      cases hplan
      exact trivial
    | some row =>
      cases hplan
      exact MemoryTables.lookup_of_db_at_none (hfresh k le_rfl .relation rfl)

/-- **A batch of inverse ops is orderly.** -/
theorem steps_orderly (hinj : planId.Injective) {sb : Nat} {rows : List WriteLogRecord}
    (hrows : ∀ row ∈ rows, Undoable row.change) {k i : Nat} {p : Progress}
    (hfresh : FreshFrom planId k p.tables.db) :
    w.EveryApplied sb (fun t op => op.body.Orderly t.toMemoryTables) i p
      ((rows.zipIdx k).filterMap fun e => inverse (planId e.2) e.1) := by
  induction rows generalizing k i p with
  | nil => exact trivial
  | cons row rows ih =>
    have hrest := fun r hr => hrows r (List.mem_cons_of_mem _ hr)
    rw [List.zipIdx_cons, List.filterMap_cons]
    cases hplan : inverse (planId k) row with
    | none => exact ih hrest hfresh.next
    | some op =>
      obtain ⟨body, hbody, rfl⟩ := Option.map_eq_some_iff.1 hplan
      refine ⟨fun _ => inverse_orderly hbody hfresh, fun p₁ h₁ => ih hrest ?_⟩
      rcases step_cases h₁ with ⟨v, -, -, rfl⟩ | ⟨v, t₁, reason, -, -, hskip, rfl⟩ |
        ⟨v, t₁, log, -, -, happly, rfl⟩
      · rw [refuse_tables]
        exact hfresh.next
      · dsimp only
        rw [(apply_skip hskip).memory]
        exact hfresh.next
      · have hstep : w.UndoStep planId k (eraseChange row.change) p.tables.db t₁.db :=
          ⟨row.change, hrows row List.mem_cons_self, rfl,
            .inr ⟨body, hbody, _, _, _, _, _, rfl, rfl, happly⟩⟩
        exact hstep.fresh hinj hfresh

end Writer

/-! ## Undoing an undo -/

section

variable {planId : Nat → Uuid} {w u : Writer} {s s' t t' : Tables} {res res' : CommitResult}
  {es : List Event}

namespace UndoneTurn

theorem plan_ops (h : UndoneTurn planId w u s s' t t' res res' es) :
    (planUndo planId t w.turn.turnId).ops =
      ((wroteRows t w.turn.turnId).reverse.zipIdx 0).filterMap fun e =>
        inverse (planId e.2) e.1 := by
  simp [planUndo, conflicted, h.free]

/-- The batch of an undo is orderly. -/
theorem undo_orderly (h : UndoneTurn planId w u s s' t t' res res' es)
    (hnew : NewIds planId t w.turn.turnId) :
    (undoWriter u (planUndo planId t w.turn.turnId) w.turn.turnId).OrderlyBatch t := by
  refine .inr ?_
  show Writer.EveryApplied _ _ _ _ _ (planUndo planId t w.turn.turnId).ops
  rw [h.plan_ops]
  refine Writer.steps_orderly hnew.injective
    (fun row hrow => h.undoable (List.mem_reverse.1 hrow)) fun j _ a ha => ?_
  dsimp only
  rw [Writer.writeVocab_memory]
  exact hnew.free j a ha

/-- What an undo logs takes rows of the turn back, and changes no item that it deletes or brings
back. -/
theorem undo_logs (h : UndoneTurn planId w u s s' t t' res res' es) {c : RowChange}
    (hc : c ∈ allowedChanges res'.rows) :
    Writer.BackLogged (wroteRows t w.turn.turnId).reverse c := by
  obtain ⟨p, hp⟩ := Writer.commit_parts h.undone
  have hbatch := hp.batch
  have hfull := h.inFull
  rw [hp.result] at hfull
  rw [hp.rows] at hc
  have hheld := Writer.not_heldWhole hbatch hfull
  unfold Writer.applyAll at hbatch
  rw [if_neg (by rw [hheld]; exact Bool.false_ne_true)] at hbatch
  replace hbatch : Writer.steps _ _ 0 _ (planUndo planId t w.turn.turnId).ops = .ok p := hbatch
  rw [h.plan_ops] at hbatch
  obtain ⟨hchained, hreplayed⟩ := h.told
  have hrows : ∀ row ∈ (wroteRows t w.turn.turnId).reverse, Undoable row.change := fun row hrow =>
    h.undoable (List.mem_reverse.1 hrow)
  rw [← List.reverse_reverse (wroteRows t w.turn.turnId)] at hchained
  refine (Writer.steps_logs rfl hrows hchained (fun row hrow ha => ?_) hbatch hfull hc).resolve_left
    List.not_mem_nil
  have htouched : Touched t w.turn.turnId (row.targetType, row.targetId) :=
    ⟨row, List.mem_reverse.1 hrow, rfl⟩
  dsimp only
  rw [List.reverse_reverse, hreplayed, Writer.writeVocab_memory, h.unchanged ha htouched]
  obtain ⟨r, hr⟩ := h.isSome_after ha htouched
  rw [hr]
  exact .of_some

end UndoneTurn

/-- **Undoing an undo is a redo.**  A turn is undone in full, other turns follow, and then the undo
is undone in full: an item, an entity or a trigger that the undo had taken back has the content
again that the turn had given it, and nothing else of these tables has changed. -/
theorem redo_restores (h : UndoneTurn planId w u s s' t t' res res' es)
    (hnew : NewIds planId t w.turn.turnId) (hfirst : ∀ row ∈ t.writeLog, row.turnId ≠ u.turn.turnId)
    {planId₂ : Nat → Uuid} {v : Writer} {t₂ t₃ : Tables} {res₂ : CommitResult} {es₂ : List Event}
    (hlater : Reached (fun _ _ => True) t' es₂ t₂) (hothers : ∀ e ∈ es₂, e.turnId ≠ u.turn.turnId)
    (hfree : conflicts t₂ u.turn.turnId = [])
    (hredo : undo planId₂ v t₂ u.turn.turnId = .ok (t₃, res₂))
    (hfull : Writer.InFull res₂.outcomes) {a : TargetType} {i : Uuid} (ha : a.stamped = true) :
    (Touched t₂ u.turn.turnId (a, i) →
      ∃ r r', s'.db.at a i = some r ∧ t₃.db.at a i = some r' ∧ SameContent a r' r) ∧
      (¬ Touched t₂ u.turn.turnId (a, i) → t₃.db.at a i = t₂.db.at a i) := by
  have hturn : UndoneTurn planId₂ (undoWriter u (planUndo planId t w.turn.turnId) w.turn.turnId) v t
      t' t₂ t₃ res' res₂ es₂ := by
    refine ⟨h.undone, hfirst, h.undo_orderly hnew, fun c hc => (h.undo_logs hc).alone, hlater,
      hothers, hfree, hredo, hfull⟩
  obtain ⟨hback, hframe⟩ := hturn.reverts (i := i) ha
  refine ⟨fun htouched => ?_, hframe⟩
  obtain ⟨row, hrow, hkey⟩ := htouched
  obtain ⟨row', hrow', hkey'⟩ := (h.undo_logs (hturn.mem_changes hrow)).touched (by
    show row.targetType.stamped = true
    rw [show row.targetType = a from congrArg Prod.fst hkey]
    exact ha)
  have hwrote : Touched t w.turn.turnId (a, i) :=
    ⟨row', List.mem_reverse.1 hrow', hkey'.trans hkey⟩
  obtain ⟨r, hr⟩ := h.isSome_after ha hwrote
  have hreverted := hback ⟨row, hrow, hkey⟩
  rw [h.unchanged ha hwrote, hr] at hreverted
  obtain ⟨r', hr', hsame⟩ := hreverted
  exact ⟨r, r', hr, hr', hsame⟩

end

/-! ### The notes are tidied again -/

def retidies : Writer :=
  undoWriter (undoingTurn 64) (planUndo unusedId notesUntidied 63) 63

def notesRetidied : Tables := committed retidies notesUntidied

theorem retidied_restores :
    (Touched notesUntidied 63 (.item, 1) →
      ∃ r r', notesTidied.db.at .item 1 = some r ∧ notesRetidied.db.at .item 1 = some r' ∧
        SameContent .item r' r) ∧
      (¬ Touched notesUntidied 63 (.item, 1) →
        notesRetidied.db.at .item 1 = notesUntidied.db.at .item 1) := by
  have hredo : undo unusedId (undoingTurn 64) notesUntidied 63 =
      .ok (notesRetidied, resultOf retidies notesUntidied) := rfl
  refine redo_restores tidied_undone unusedId_new (by decide +kernel) .start
    (fun e he => absurd he List.not_mem_nil) (by decide +kernel) hredo (fun o ho => ?_) rfl
  revert o
  decide +kernel

end SecondMind
