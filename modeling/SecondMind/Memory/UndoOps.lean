import SecondMind.Memory.Batch
import SecondMind.Memory.Service

/-!
# The ops of an undo

Every op of an undo takes one log row back: it writes the row the log row is about, or, to
put back a link, an entity row or a relation that was removed, one new row.

* `Planned` — the ops a plan is made of;
* `Writer.inverse_db` — an inverse op writes one row of the table its log row is about;
* `undo_keeps` — a row in conflict is as it was after the undo.
-/

namespace SecondMind

open Keyed

/-! ## The plan -/

/-- The op takes back a row that the turn wrote and that is not in conflict. -/
def Planned (t : Tables) (turnId : Uuid) (op : Op) : Prop :=
  ∃ row ∈ wroteRows t turnId, row.targetId ∉ conflicted t turnId ∧
    ∃ newId, inverse newId row = some op

theorem planned_of_mem {planId : Nat → Uuid} {t : Tables} {turnId : Uuid} {op : Op}
    (h : op ∈ (planUndo planId t turnId).ops) : Planned t turnId op := by
  obtain ⟨e, he, hop⟩ := List.mem_filterMap.1 h
  split at hop
  · exact (nomatch hop)
  · rename_i hnot
    have hrow : e.1 ∈ (wroteRows t turnId).reverse := List.fst_mem_of_mem_zipIdx he
    exact ⟨e.1, List.mem_reverse.1 hrow, hnot, _, hop⟩

theorem mem_conflicts {t : Tables} {turnId : Uuid} {key : TargetType × Uuid} {reason : String} :
    (key, reason) ∈ conflicts t turnId ↔
      (∃ row ∈ wroteRows t turnId, row.key = key) ∧
        conflict t.toMemoryTables turnId key = some reason := by
  simp only [conflicts, List.mem_filterMap, List.mem_eraseDups, List.mem_map, Option.map_eq_some_iff]
  constructor
  · rintro ⟨_, hrow, _, hconflict, he⟩
    cases he
    exact ⟨hrow, hconflict⟩
  · rintro ⟨hrow, hconflict⟩
    exact ⟨key, hrow, reason, hconflict, rfl⟩

theorem mem_conflicted {t : Tables} {turnId : Uuid} {key : TargetType × Uuid} {reason : String}
    (h : (key, reason) ∈ conflicts t turnId) : key.2 ∈ conflicted t turnId :=
  List.mem_map.2 ⟨(key, reason), h, rfl⟩

/-! ## What an inverse op leaves alone -/

/-- The tables whose rows carry the turn that changed them last. -/
def TargetType.stamped : TargetType → Bool
  | .item => true
  | .entity => true
  | .trigger => true
  | _ => false

namespace Writer

variable {w : Writer}

theorem changeItem_db {t t' : Tables} {i : Nat} {log log' : RowLog} {itemId : Uuid}
    {changes : ItemChanges} (h : w.changeItem t i log itemId changes = .ok (t', log')) :
    ∃ r, t'.db = t.db.write .item itemId r := by
  obtain ⟨before, after, hget, rfl, -, -, -, hx⟩ := changeItem_eq_ok.1 h
  obtain ⟨rfl, rfl⟩ := Prod.mk.inj hx
  have hid : before.id = itemId := KeyTable.key_of_lookup hget
  refine ⟨some (w.edited before (w.refile t i changes).2).eraseAccess, ?_⟩
  rw [← (w.aside_refile t i changes).memory, ← hid]
  exact db_storeItem _ _

/-- A trigger that is changed under its own id. -/
theorem changeTrigger_db {t t' : Tables} {log log' : RowLog} {triggerId : Uuid}
    {changes : TriggerChanges} (hid : changes.id = none)
    (h : w.changeTrigger t log triggerId changes = .ok (t', log')) :
    ∃ r, t'.db = t.db.write .trigger triggerId r := by
  obtain ⟨before, t₁, hget, -, hrep, hx⟩ := changeTrigger_eq_ok.1 h
  obtain ⟨rfl, rfl⟩ := Prod.mk.inj hx
  have hkey : before.id = triggerId := KeyTable.key_of_lookup hget
  have hafter : (w.editedTrigger before changes).id = triggerId := by
    simp [editedTrigger, TriggerChanges.apply, hid, hkey]
  have hstored : (t.getTrigger (w.editedTrigger before changes).id).isSome := by
    rw [hafter, hget]
    rfl
  obtain ⟨-, rfl⟩ := (Tables.replaceTrigger_eq_ok hstored).1 hrep
  refine ⟨some (w.editedTrigger before changes), ?_⟩
  rw [← hafter]
  exact t.toMemoryTables.db_putTrigger _

/-- **An inverse op writes one row**, of the table the log row is about; in a stamped table it
is the very row. -/
theorem inverse_db {newId : Uuid} {a : TargetType} {id : Uuid} {before after : Option a.Record}
    {body : OpBody} (hplan : inverseBody newId a id before after = some body) {t t' : Tables}
    {i : Nat} {log log' : RowLog} (h : w.apply t i log body = .ok (t', log')) :
    ∃ j r, t'.db = t.db.write a j r ∧ (a.stamped = true → j = id) := by
  cases a with
  | item =>
    have hitem : ∃ r, t'.db = t.db.write .item id r := by
      simp only [inverseBody, inverseItem] at hplan
      repeat' split at hplan
      all_goals cases hplan
      all_goals exact changeItem_db h
    obtain ⟨r, hr⟩ := hitem
    exact ⟨id, r, hr, fun _ => rfl⟩
  | entity =>
    simp only [inverseBody, inverseEntity] at hplan
    repeat' split at hplan
    all_goals cases hplan
    · obtain ⟨old, _, hget, -, rfl, -, hx⟩ := deleteEntity_eq_ok.1 h
      obtain ⟨rfl, rfl⟩ := Prod.mk.inj hx
      have hid : old.id = id := KeyTable.key_of_lookup hget
      exact ⟨_, _, t.toMemoryTables.db_putEntity _, fun _ => hid⟩
    · rcases upsertEntity_eq_ok.1 h with ⟨hc, -⟩ | ⟨-, old, hget, -, hx⟩
      · exact (nomatch hc)
      · obtain ⟨rfl, rfl⟩ := Prod.mk.inj hx
        have hid : old.id = id := KeyTable.key_of_lookup hget
        exact ⟨_, _, t.toMemoryTables.db_putEntity _, fun _ => hid⟩
  | trigger =>
    have htrigger : ∃ r, t'.db = t.db.write .trigger id r := by
      simp only [inverseBody, inverseTrigger] at hplan
      repeat' split at hplan
      all_goals cases hplan
      all_goals exact changeTrigger_db (by rfl) h
    obtain ⟨r, hr⟩ := htrigger
    exact ⟨id, r, hr, fun _ => rfl⟩
  | link =>
    cases before with
    | none =>
      cases hplan
      obtain ⟨old, -, hx⟩ := unlinkItems_eq_ok.1 h
      obtain ⟨rfl, rfl⟩ := Prod.mk.inj hx
      exact ⟨_, _, t.toMemoryTables.db_dropLink _, fun e => (nomatch e)⟩
    | some link =>
      cases hplan
      obtain ⟨-, -, h⟩ := linkItems_eq_ok.1 h
      obtain ⟨-, hx⟩ := insertLink_eq_ok.1 h
      obtain ⟨rfl, rfl⟩ := Prod.mk.inj hx
      exact ⟨_, _, t.toMemoryTables.db_putLink _, fun e => (nomatch e)⟩
  | itemEntity =>
    cases before with
    | none =>
      cases hplan
      obtain ⟨old, -, hx⟩ := detach_eq_ok.1 h
      obtain ⟨rfl, rfl⟩ := Prod.mk.inj hx
      exact ⟨_, _, t.toMemoryTables.db_dropItemEntity _, fun e => (nomatch e)⟩
    | some row =>
      cases hplan
      obtain ⟨-, -, hx⟩ := attach_eq_ok.1 h
      obtain ⟨rfl, rfl⟩ := Prod.mk.inj hx
      exact ⟨_, _, t.toMemoryTables.db_putItemEntity _, fun e => (nomatch e)⟩
  | relation =>
    cases before with
    | none =>
      cases hplan
      obtain ⟨old, -, hx⟩ := unrelate_eq_ok.1 h
      obtain ⟨rfl, rfl⟩ := Prod.mk.inj hx
      exact ⟨_, _, t.toMemoryTables.db_dropRelation _, fun e => (nomatch e)⟩
    | some row =>
      cases hplan
      obtain ⟨-, hx⟩ := relate_eq_ok.1 h
      obtain ⟨rfl, rfl⟩ := Prod.mk.inj hx
      exact ⟨_, _, t.toMemoryTables.db_putRelation _, fun e => (nomatch e)⟩

/-- A planned op leaves alone the stamped rows that are in conflict. -/
theorem step_keeps {t₀ : Tables} {turnId : Uuid} {sb i : Nat} {p p' : Progress} {op : Op}
    (hop : Planned t₀ turnId op) {b : TargetType} {j : Uuid} (hb : b.stamped = true)
    (hj : j ∈ conflicted t₀ turnId) (h : w.step sb i p op = .ok p') :
    p'.tables.db.at b j = p.tables.db.at b j := by
  rcases step_cases h with ⟨v, -, -, rfl⟩ | ⟨v, t₁, reason, -, -, ha, rfl⟩ |
    ⟨v, t₁, log, -, -, ha, rfl⟩
  · rw [refuse_tables]
  · rw [(apply_skip ha).memory]
  · obtain ⟨row, -, hnot, newId, hplan⟩ := hop
    obtain ⟨body, hbody, rfl⟩ := Option.map_eq_some_iff.1 hplan
    obtain ⟨k, r, hdb, hk⟩ := inverse_db hbody ha
    show t₁.db.at b j = _
    rw [hdb, Db.at_write_of_ne]
    rintro ⟨rfl, rfl⟩
    rw [hk hb] at hj
    exact hnot hj

end Writer

/-- **An undo leaves conflicts alone.** -/
theorem undo_keeps {planId : Nat → Uuid} {w : Writer} {t t' : Tables} {turnId : Uuid}
    {res : CommitResult} (h : undo planId w t turnId = .ok (t', res)) {b : TargetType} {j : Uuid}
    (hb : b.stamped = true) (hj : j ∈ conflicted t turnId) : t'.db.at b j = t.db.at b j := by
  obtain ⟨p, hp⟩ := Writer.commit_parts h
  rw [hp.memory]
  have hbatch := hp.batch
  unfold Writer.applyAll at hbatch
  split at hbatch
  · cases hbatch
    rfl
  · refine Writer.steps_induct (P := fun p => p.tables.db.at b j = t.db.at b j)
      (fun i p op p' hop hp hs => ?_) rfl hbatch
    exact (Writer.step_keeps (planned_of_mem hop) hb hj hs).trans hp

end SecondMind
