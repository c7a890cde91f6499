import SecondMind.Keyed.Rewind
import SecondMind.Memory.UndoConflicts
import SecondMind.Memory.WriteLog

/-!
# A turn that is undone

An undo takes the log of a turn back, row by row, from the last to the first.  What a row comes
back to is its content: the stamps are those of the undo, and what the turn made is kept and
marked as gone.

* `SameContent`, `Gone`, `Reverted` — what a row of a stamped table comes back to;
* `Writer.UndoStep` — an op of an undo, as the step that takes one log row back;
* `Writer.UndoStep.takesBack` — each one takes its row back and leaves the other rows alone;
* `undo_rewinds` — an undo that is applied in full takes the whole log of the turn back.
-/

namespace SecondMind

open Keyed

/-! ## What a row comes back to -/

/-- The rows say the same, in the fields an undo sets back. -/
def SameContent : (a : TargetType) → a.Record → a.Record → Prop
  | .item, r, r' => r.toItemContent.eraseAccess = r'.toItemContent.eraseAccess
  | .entity, r, r' => r.toEntityContent = r'.toEntityContent
  | .trigger, r, r' => r.toTriggerContent = r'.toTriggerContent
  | _, r, r' => r = r'

theorem SameContent.refl (a : TargetType) (r : a.Record) : SameContent a r r := by
  cases a <;> rfl

theorem SameContent.trans {a : TargetType} {r r' r'' : a.Record} (h : SameContent a r r')
    (h' : SameContent a r' r'') : SameContent a r r'' := by
  cases a <;> exact Eq.trans h h'

/-- The row is kept and marked as gone.  The entity of the person stays. -/
def Gone : (a : TargetType) → a.Record → Prop
  | .item, r => r.status = .deleted
  | .entity, r => r.status = .deleted ∨ r.kind = .self
  | .trigger, r => r.state = .cancelled
  | _, _ => False

/-- **A row taken back**: the row says what it said before; if there was none, it is gone. -/
def Reverted (a : TargetType) (now before : Option a.Record) : Prop :=
  match before with
  | some r => ∃ r', now = some r' ∧ SameContent a r' r
  | none => ∃ r', now = some r' ∧ Gone a r'

theorem Reverted.of_some {a : TargetType} {r : a.Record} : Reverted a (some r) (some r) :=
  ⟨r, rfl, .refl a r⟩

/-- The change deletes an active item, or brings a deleted one back. -/
def Crosses (before after : ItemRecord) : Prop :=
  before.status = .active ∧ after.status = .deleted ∨
    before.status = .deleted ∧ after.status = .active

/-- A change that deletes an item, or brings it back, changes nothing else of it. -/
def CrossesAlone : RowChange → Prop
  | ⟨.item, _, some before, some after⟩ => Crosses before after →
    after.toItemContent.eraseAccess =
      { before.toItemContent.eraseAccess with status := after.status }
  | _ => True

instance (before after : ItemRecord) : Decidable (Crosses before after) := by
  unfold Crosses
  infer_instance

instance : DecidablePred CrossesAlone
  | ⟨.item, _, some before, some after⟩ => inferInstanceAs (Decidable (Crosses before after → _))
  | ⟨.item, _, none, _⟩ => .isTrue trivial
  | ⟨.item, _, some _, none⟩ => .isTrue trivial
  | ⟨.entity, _, _, _⟩ => .isTrue trivial
  | ⟨.trigger, _, _, _⟩ => .isTrue trivial
  | ⟨.link, _, _, _⟩ => .isTrue trivial
  | ⟨.itemEntity, _, _, _⟩ => .isTrue trivial
  | ⟨.relation, _, _, _⟩ => .isTrue trivial

/-- What an undo needs of a log row: a row of a stamped table was not taken away, and an item that
is deleted or brought back is not changed on the way. -/
structure Undoable (c : RowChange) : Prop where
  stays : c.table.stamped = true → c.after.isSome = true
  alone : CrossesAlone c

/-! ## Contents and their differences -/

/-- An item whose difference is empty has not changed. -/
theorem eraseAccess_of_isEmpty {before after : ItemContent}
    (h : (before.diff after).isEmpty = true) : after.eraseAccess = before.eraseAccess := by
  rw [← ItemChanges.apply_diff_self before after, ItemChanges.apply_of_isEmpty h]

theorem TriggerChanges.apply_of_isEmpty {ch : TriggerChanges} (h : ch.isEmpty = true)
    (r : TriggerRecord) : ch.apply r = r := by
  rw [isEmpty, decide_eq_true_eq] at h
  subst h
  rfl

/-- **The difference takes a change of a trigger back.** -/
theorem TriggerChanges.apply_diff {before after : TriggerContent} {r : TriggerRecord}
    (h : r.toTriggerContent = after) :
    ((before.diff after).apply r).toTriggerContent = before := by
  subst h
  simp [apply, TriggerContent.diff]

/-- A trigger whose difference is empty has not changed. -/
theorem content_of_isEmpty {before after : TriggerContent} {r : TriggerRecord}
    (hr : r.toTriggerContent = after) (h : (before.diff after).isEmpty = true) :
    after = before := by
  have hback : ((before.diff after).apply r).toTriggerContent = before :=
    TriggerChanges.apply_diff hr
  rw [← hback, TriggerChanges.apply_of_isEmpty h, hr]

namespace Writer

variable {w : Writer}

/-! ## The ops that take a row back -/

/-- What an item edit leaves of the item. -/
theorem changeItem_at (hw : w.confirmed = false) {t t' : Tables} {i : Nat} {log log' : RowLog}
    {itemId : Uuid} {changes : ItemChanges} (hslug : changes.categorySlug = none)
    (h : w.changeItem t i log itemId changes = .ok (t', log')) :
    ∃ old new : ItemRecord, t.db.at .item itemId = some old.eraseAccess ∧
      t'.db.at .item itemId = some new.eraseAccess ∧
      new.toItemContent = changes.apply old.toItemContent := by
  obtain ⟨before, after, hget, rfl, -, -, -, hx⟩ := changeItem_eq_ok.1 h
  obtain ⟨rfl, rfl⟩ := Prod.mk.inj hx
  have hid : before.id = itemId := KeyTable.key_of_lookup hget
  refine ⟨before, w.edited before changes, ?_, ?_, ?_⟩
  · rw [MemoryTables.db_at, show (t.table .item).lookup itemId = some before from hget]
    rfl
  · rw [refile_of_none hslug, storeItem, db_storeItem, ← hid]
    exact Db.at_write_self _ _ _ _
  · simp [edited, changedContent, hw]

/-- What an entity edit leaves of the entity. -/
theorem at_putEntity (t : MemoryTables) (r : EntityRecord) :
    ({ t with entities := t.entities.put r } : MemoryTables).db.at .entity r.id = some r := by
  rw [MemoryTables.db_putEntity]
  exact Db.at_write_self _ _ _ _

/-- What a trigger edit leaves of the trigger. -/
theorem changeTrigger_at {t t' : Tables} {log log' : RowLog} {triggerId : Uuid}
    {changes : TriggerChanges} (hid : changes.id = none)
    (h : w.changeTrigger t log triggerId changes = .ok (t', log')) :
    ∃ old, t.db.at .trigger triggerId = some old ∧
      t'.db.at .trigger triggerId = some (w.editedTrigger old changes) := by
  obtain ⟨old, t₁, hget, -, hrep, hx⟩ := changeTrigger_eq_ok.1 h
  obtain ⟨rfl, rfl⟩ := Prod.mk.inj hx
  have hkey : old.id = triggerId := KeyTable.key_of_lookup hget
  have hafter : (w.editedTrigger old changes).id = triggerId := by
    simp [editedTrigger, TriggerChanges.apply, hid, hkey]
  have hstored : (t.getTrigger (w.editedTrigger old changes).id).isSome := by
    rw [hafter, hget]
    rfl
  obtain ⟨-, rfl⟩ := (Tables.replaceTrigger_eq_ok hstored).1 hrep
  refine ⟨old, ?_, ?_⟩
  · rw [MemoryTables.db_at, show (t.table .trigger).lookup triggerId = some old from hget]
    rfl
  · rw [show ({ t with triggers := t.triggers.put (w.editedTrigger old changes) } : Tables).db = _
      from t.toMemoryTables.db_putTrigger _, ← hafter]
    exact Db.at_write_self _ _ _ _

/-- An item is taken back. -/
theorem item_reverted (hw : w.confirmed = false) {t t' : Tables} {i : Nat} {log log' : RowLog}
    {id : Uuid} {before after : Option ItemRecord} {body : OpBody}
    (halone : CrossesAlone ⟨.item, id, before, after⟩)
    (hplan : inverseItem id before after = some body)
    (h : w.apply t i log body = .ok (t', log'))
    (hnear : Reverted .item (t.db.at .item id) after) :
    Reverted .item (t'.db.at .item id) before := by
  cases before with
  | none =>
    cases hplan
    obtain ⟨old, new, -, hnew, hcontent⟩ := changeItem_at hw rfl h
    refine ⟨_, hnew, ?_⟩
    show new.toItemContent.status = .deleted
    rw [hcontent]
    rfl
  | some b =>
    cases after with
    | none => cases hplan
    | some a =>
      obtain ⟨r, hr, hsame⟩ := hnear
      simp only [inverseItem] at hplan
      split at hplan
      · rename_i hstatus
        cases hplan
        obtain ⟨old, new, hold, hnew, hcontent⟩ := changeItem_at hw rfl h
        rw [hold] at hr
        cases hr
        refine ⟨_, hnew, ?_⟩
        replace hsame : old.toItemContent.eraseAccess = a.toItemContent.eraseAccess := hsame
        show new.toItemContent.eraseAccess = b.toItemContent.eraseAccess
        calc new.toItemContent.eraseAccess
            = { old.toItemContent.eraseAccess with status := .active } := by rw [hcontent]; rfl
          _ = { b.toItemContent.eraseAccess with status := .active } := by
              rw [hsame, halone (.inl hstatus)]
          _ = b.toItemContent.eraseAccess := by rw [← hstatus.1]; rfl
      · split at hplan
        · rename_i hstatus
          cases hplan
          obtain ⟨old, new, hold, hnew, hcontent⟩ := changeItem_at hw rfl h
          rw [hold] at hr
          cases hr
          refine ⟨_, hnew, ?_⟩
          replace hsame : old.toItemContent.eraseAccess = a.toItemContent.eraseAccess := hsame
          show new.toItemContent.eraseAccess = b.toItemContent.eraseAccess
          calc new.toItemContent.eraseAccess
              = { old.toItemContent.eraseAccess with status := .deleted } := by rw [hcontent]; rfl
            _ = { b.toItemContent.eraseAccess with status := .deleted } := by
                rw [hsame, halone (.inr hstatus)]
            _ = b.toItemContent.eraseAccess := by rw [← hstatus.1]; rfl
        · split at hplan
          · cases hplan
          · cases hplan
            obtain ⟨old, new, hold, hnew, hcontent⟩ := changeItem_at hw rfl h
            rw [hold] at hr
            cases hr
            refine ⟨_, hnew, ?_⟩
            show new.toItemContent.eraseAccess = b.toItemContent.eraseAccess
            rw [hcontent]
            exact ItemChanges.apply_diff hsame

/-- An entity is taken back. -/
theorem entity_reverted {t t' : Tables} {i : Nat} {log log' : RowLog} {id : Uuid}
    {before after : Option EntityRecord} {body : OpBody}
    (hplan : inverseEntity id before after = some body)
    (h : w.apply t i log body = .ok (t', log')) :
    Reverted .entity (t'.db.at .entity id) before := by
  cases before with
  | none =>
    simp only [inverseEntity] at hplan
    split at hplan
    · cases hplan
    · cases hplan
      obtain ⟨old, _, hget, -, rfl, -, hx⟩ := deleteEntity_eq_ok.1 h
      obtain ⟨rfl, rfl⟩ := Prod.mk.inj hx
      obtain rfl : old.id = id := KeyTable.key_of_lookup hget
      exact ⟨_, at_putEntity t.toMemoryTables
        (w.editedEntity old { old.toEntityContent with status := .deleted }), .inl rfl⟩
  | some b =>
    cases hplan
    rcases upsertEntity_eq_ok.1 h with ⟨hc, -⟩ | ⟨-, old, hget, -, hx⟩
    · cases hc
    · obtain ⟨rfl, rfl⟩ := Prod.mk.inj hx
      obtain rfl : old.id = id := KeyTable.key_of_lookup hget
      exact ⟨_, at_putEntity t.toMemoryTables (w.editedEntity old b.toEntityContent), rfl⟩

/-- A trigger is taken back. -/
theorem trigger_reverted {t t' : Tables} {i : Nat} {log log' : RowLog} {id : Uuid}
    {before after : Option TriggerRecord} {body : OpBody}
    (hplan : inverseTrigger id before after = some body)
    (h : w.apply t i log body = .ok (t', log'))
    (hnear : Reverted .trigger (t.db.at .trigger id) after) :
    Reverted .trigger (t'.db.at .trigger id) before := by
  cases before with
  | none =>
    cases hplan
    obtain ⟨old, -, hnew⟩ := changeTrigger_at rfl h
    exact ⟨_, hnew, rfl⟩
  | some b =>
    cases after with
    | none => cases hplan
    | some a =>
      obtain ⟨r, hr, hsame⟩ := hnear
      simp only [inverseTrigger] at hplan
      split at hplan
      · cases hplan
      · cases hplan
        obtain ⟨old, hold, hnew⟩ := changeTrigger_at rfl h
        rw [hold] at hr
        cases hr
        exact ⟨_, hnew, TriggerChanges.apply_diff hsame⟩

/-- A row that has nothing to take back is taken back already. -/
theorem reverted_of_none {newId : Uuid} {a : TargetType} {id : Uuid}
    {before after : Option a.Record} (ha : a.stamped = true) (hstays : after.isSome = true)
    (hplan : inverseBody newId a id before after = none) {now : Option a.Record}
    (hnear : Reverted a now after) : Reverted a now before := by
  obtain ⟨new, rfl⟩ := Option.isSome_iff_exists.1 hstays
  obtain ⟨r, rfl, hsame⟩ := hnear
  cases a with
  | item =>
    cases before with
    | none => cases hplan
    | some b =>
      simp only [inverseBody, inverseItem] at hplan
      split at hplan
      · cases hplan
      · split at hplan
        · cases hplan
        · split at hplan
          · rename_i hempty
            exact ⟨r, rfl, hsame.trans (eraseAccess_of_isEmpty hempty)⟩
          · cases hplan
  | entity =>
    cases before with
    | none =>
      simp only [inverseBody, inverseEntity] at hplan
      split at hplan
      · rename_i hself
        replace hself : new.kind = .self := by simpa using hself
        replace hsame : r.toEntityContent = new.toEntityContent := hsame
        refine ⟨r, rfl, .inr ?_⟩
        show r.toEntityContent.kind = .self
        rw [hsame, hself]
      · cases hplan
    | some b => cases hplan
  | trigger =>
    cases before with
    | none => cases hplan
    | some b =>
      simp only [inverseBody, inverseTrigger] at hplan
      split at hplan
      · rename_i hempty
        exact ⟨r, rfl, hsame.trans (content_of_isEmpty rfl hempty)⟩
      · cases hplan
  | _ => cases ha

/-! ## The steps of an undo -/

/-- **One step of an undo**: the log row has nothing to take back, or an op takes it back. -/
def UndoStep (w : Writer) (planId : Nat → Uuid) (k : Nat) (c : RowChange)
    (d d' : Db TargetType Uuid TargetType.Record) : Prop :=
  ∃ row : RowChange, Undoable row ∧ eraseChange row = c ∧
    (inverseBody (planId k) row.table row.id row.before row.after = none ∧ d' = d ∨
      ∃ body, inverseBody (planId k) row.table row.id row.before row.after = some body ∧
        ∃ (t t' : Tables) (i : Nat) (log log' : RowLog), t.db = d ∧ t'.db = d' ∧
          w.apply t i log body = .ok (t', log'))

/-- Contents are compared without the access counters. -/
theorem reverted_eraseAccess {a : TargetType} {now before : Option a.Record} :
    Reverted a now (before.map (eraseAccess a)) ↔ Reverted a now before := by
  cases before with
  | none => rfl
  | some r => cases a <;> rfl

/-- The keys of the stamped tables. -/
def Stamped (a : TargetType) (_ : Uuid) : Prop := a.stamped = true

/-- **A step of an undo takes its row back** and leaves the other stamped rows alone. -/
theorem UndoStep.takesBack (hw : w.confirmed = false) {planId : Nat → Uuid} {k : Nat}
    {c : RowChange} {d d' : Db TargetType Uuid TargetType.Record}
    (h : w.UndoStep planId k c d d') : TakesBack Reverted Stamped c d d' := by
  obtain ⟨⟨a, id, before, after⟩, hrow, rfl, hstep⟩ := h
  constructor
  · intro ha hnear
    refine reverted_eraseAccess.2 ?_
    replace hnear : Reverted a (d.at a id) after := reverted_eraseAccess.1 hnear
    rcases hstep with ⟨hplan, rfl⟩ | ⟨body, hplan, t, t', i, log, log', rfl, rfl, happly⟩
    · exact reverted_of_none ha (hrow.stays ha) hplan hnear
    · cases a with
      | item => exact item_reverted hw hrow.alone hplan happly hnear
      | entity => exact entity_reverted hplan happly
      | trigger => exact trigger_reverted hplan happly hnear
      | _ => cases ha
  · intro b j hb hnames
    rcases hstep with ⟨-, rfl⟩ | ⟨body, hplan, t, t', i, log, log', rfl, rfl, happly⟩
    · rfl
    · obtain ⟨j', r, hdb, hj'⟩ := inverse_db hplan happly
      rw [hdb, Db.at_write_of_ne]
      rintro ⟨rfl, rfl⟩
      exact hnames ⟨rfl, (hj' hb).symm⟩

/-- Every op was allowed and applied. -/
def InFull (outcomes : List OpOutcome) : Prop := ∀ o ∈ outcomes, o.verdict.decision = .allowed

/-- A step of the loop adds one outcome. -/
theorem step_outcomes {sb i : Nat} {p p' : Progress} {op : Op} (h : w.step sb i p op = .ok p') :
    ∃ o, p'.outcomes = p.outcomes ++ [o] := by
  rcases step_cases h with ⟨v, -, -, rfl⟩ | ⟨v, t₁, reason, -, -, -, rfl⟩ |
    ⟨v, t₁, log, -, -, -, rfl⟩
  · unfold refuse
    dsimp only
    split <;> exact ⟨_, rfl⟩
  · exact ⟨_, rfl⟩
  · exact ⟨_, rfl⟩

theorem steps_outcomes {sb : Nat} {ops : List Op} {i : Nat} {p p' : Progress}
    (h : w.steps sb i p ops = .ok p') : ∃ os, p'.outcomes = p.outcomes ++ os := by
  refine steps_induct (P := fun q => ∃ os, q.outcomes = p.outcomes ++ os)
    (fun i q op q' _ hq hs => ?_) ⟨[], (List.append_nil _).symm⟩ h
  obtain ⟨os, hos⟩ := hq
  obtain ⟨o, ho⟩ := step_outcomes hs
  exact ⟨os ++ [o], by rw [ho, hos, List.append_assoc]⟩

/-- In a batch that is applied in full, an op applies, and its rows are logged. -/
theorem step_applies {sb i : Nat} {p p₁ p' : Progress} {op : Op} {ops : List Op}
    (h₁ : w.step sb i p op = .ok p₁) (h : w.steps sb (i + 1) p₁ ops = .ok p')
    (hfull : InFull p'.outcomes) :
    ∃ log, w.apply p.tables i { seqBase := sb, op := op, seq := p.seq } op.body
      = .ok (p₁.tables, log) ∧
      allowedChanges p₁.rows = allowedChanges p.rows ++ log.rows.map (·.change) := by
  obtain ⟨os, hos⟩ := steps_outcomes h
  have hall : InFull p₁.outcomes := fun o ho =>
    hfull o (by rw [hos]; exact List.mem_append_left _ ho)
  rcases step_cases h₁ with ⟨v, -, hd, rfl⟩ | ⟨v, t₁, reason, -, -, -, rfl⟩ |
    ⟨v, t₁, log, -, -, ha, rfl⟩
  · obtain ⟨row, heldId, held, -, -, -, hr⟩ := w.refuse_eq sb i p op hd
    rw [hr] at hall
    exact absurd (hall _ (List.mem_append_right _ (List.mem_singleton_self _))) hd
  · have hno := hall _ (List.mem_append_right _ (List.mem_singleton_self _))
    cases hno
  · obtain ⟨hsound, -, -⟩ := (apply_does ha).sound ⟨rfl, by simp⟩
    refine ⟨log, ha, ?_⟩
    rw [rows_append, allowedChanges_append,
      allowedChanges_of_allowed fun r hr => (hsound.own r hr).2]

/-- **A batch of inverse ops**, applied in full, takes the log rows back one by one. -/
theorem steps_rewinds {planId : Nat → Uuid} {sb : Nat} {rows : List WriteLogRecord}
    (hrows : ∀ row ∈ rows, Undoable row.change) {k i : Nat} {p p' : Progress}
    (h : w.steps sb i p ((rows.zipIdx k).filterMap fun e => inverse (planId e.2) e.1) = .ok p')
    (hfull : InFull p'.outcomes) :
    Rewinds (w.UndoStep planId) k (rows.reverse.map fun row => eraseChange row.change)
      p.tables.db p'.tables.db := by
  induction rows generalizing k i p with
  | nil =>
    cases h
    exact .nil _ _
  | cons row rows ih =>
    have hrest := fun r hr => hrows r (List.mem_cons_of_mem _ hr)
    have hrow := hrows row List.mem_cons_self
    rw [List.reverse_cons, List.map_append]
    rw [List.zipIdx_cons, List.filterMap_cons] at h
    cases hplan : inverse (planId k) row with
    | none =>
      simp only [hplan] at h
      have hbody := Option.map_eq_none_iff.1 hplan
      exact .snoc ⟨row.change, hrow, rfl, .inl ⟨hbody, rfl⟩⟩ (ih hrest h)
    | some op =>
      simp only [hplan] at h
      obtain ⟨p₁, h₁, hmore⟩ := bind_eq_ok.1 h
      obtain ⟨log, happly, -⟩ := step_applies h₁ hmore hfull
      obtain ⟨body, hbody, rfl⟩ := Option.map_eq_some_iff.1 hplan
      exact .snoc ⟨row.change, hrow, rfl, .inr ⟨body, hbody, _, _, _, _, _, rfl, rfl, happly⟩⟩
        (ih hrest hmore)

/-- A batch that is applied in full is not held. -/
theorem not_heldWhole {sb : Nat} {t : Tables} {p : Progress} (h : w.applyAll sb t = .ok p)
    (hfull : InFull p.outcomes) : w.heldWhole = false := by
  by_contra hheld
  rw [Bool.not_eq_false] at hheld
  unfold applyAll at h
  rw [if_pos hheld] at h
  cases h
  cases hops : w.ops with
  | nil => simp [heldWhole, hops, editedItems] at hheld
  | cons op ops =>
    have hfirst : (holdEverything w sb t).outcomes ≠ [] := by simp [holdEverything, hops]
    obtain ⟨o, os, ho⟩ := List.exists_cons_of_ne_nil hfirst
    have hmem : o ∈ (holdEverything w sb t).outcomes := by
      rw [ho]
      exact List.mem_cons_self
    have hallowed := hfull o hmem
    obtain ⟨e, -, rfl⟩ := List.mem_map.1 hmem
    cases hallowed

end Writer

/-- **An undo that is applied in full takes the whole log of the turn back.** -/
theorem undo_rewinds {planId : Nat → Uuid} {u : Writer} {t t' : Tables} {turnId : Uuid}
    {res : CommitResult} (hfree : conflicts t turnId = [])
    (hrows : ∀ row ∈ wroteRows t turnId, Undoable row.change)
    (h : undo planId u t turnId = .ok (t', res)) (hfull : Writer.InFull res.outcomes) :
    Rewinds ((undoWriter u (planUndo planId t turnId) turnId).UndoStep planId) 0
      ((wroteRows t turnId).map fun row => eraseChange row.change) t.db t'.db := by
  obtain ⟨p, hp⟩ := Writer.commit_parts h
  have hbatch := hp.batch
  rw [hp.result] at hfull
  have hheld := Writer.not_heldWhole hbatch hfull
  unfold Writer.applyAll at hbatch
  rw [if_neg (by rw [hheld]; exact Bool.false_ne_true)] at hbatch
  have hplan : (planUndo planId t turnId).ops =
      ((wroteRows t turnId).reverse.zipIdx 0).filterMap fun e => inverse (planId e.2) e.1 := by
    simp [planUndo, conflicted, hfree]
  replace hbatch : Writer.steps _ _ 0 _ (planUndo planId t turnId).ops = .ok p := hbatch
  rw [hplan] at hbatch
  have hback := Writer.steps_rewinds (fun row hr => hrows row (List.mem_reverse.1 hr)) hbatch hfull
  rw [List.reverse_reverse] at hback
  dsimp only at hback
  rwa [Writer.writeVocab_memory, ← hp.memory] at hback

end SecondMind
