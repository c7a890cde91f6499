import SecondMind.Memory.Store

/-!
# What a reader finds

`find_items` of the two adapters, with its filters, its order and its limit.

* `mem_findItems` — what is found is stored and passes the filters;
* `findItems_eq_nil_iff` — nothing is found exactly when nothing passes them.
-/

namespace SecondMind

open Keyed

/-- The filters of `find_items`. -/
structure ItemQuery where
  kinds : Option (List Kind) := none
  states : Option (List String) := none
  entityId : Option Uuid := none
  subjectEntityId : Option Uuid := none
  predicate : Option String := none
  currentOnly : Bool := false
  inCore : Option Bool := none
  limit : Nat := 200

namespace MemoryTables

variable {t : MemoryTables} {q : ItemQuery}

/-- The item passes the filters. -/
def admits (t : MemoryTables) (q : ItemQuery) (item : ItemRecord) : Bool :=
  item.status = .active ∧ q.kinds.all (·.contains item.kind) ∧
    q.states.all (·.contains item.state) ∧ q.entityId.all (t.pointsAt item.id) ∧
    q.subjectEntityId.all (fun e => item.subjectEntityId = some e) ∧
    q.predicate.all (fun p => item.predicate = some p) ∧
    (q.currentOnly → item.validTo = none) ∧ q.inCore.all (fun inCore => item.inCore = inCore)

/-- `find_items`: newest first, cut at the limit. -/
def findItems (t : MemoryTables) (q : ItemQuery) : List ItemRecord :=
  let found := t.items.rows.filter fun item => t.admits q item
  ((newestFirst (found.map fun item => toLex (item.createdAt, item.id))).take q.limit).filterMap
    fun k => t.getItem (ofLex k).2

theorem mem_newestFirst {s : Multiset (Instant ×ₗ Uuid)} {k : Instant ×ₗ Uuid} :
    k ∈ newestFirst s ↔ k ∈ s := by
  induction s using Quot.inductionOn with
  | h l => exact List.mem_insertionSort _

theorem getItem_of_mem_rows {r : ItemRecord} (h : r ∈ t.items.rows) : t.getItem r.id = some r :=
  KeyTable.mem_rows.1 h

theorem mem_rows_of_getItem {r : ItemRecord} {id : Uuid} (h : t.getItem id = some r) :
    r ∈ t.items.rows := by
  have hid : r.id = id := KeyTable.key_of_lookup h
  exact KeyTable.mem_rows.2 (hid ▸ h)

/-- **What is found** is stored and passes the filters. -/
theorem mem_findItems {r : ItemRecord} (h : r ∈ t.findItems q) :
    t.getItem r.id = some r ∧ t.admits q r = true := by
  obtain ⟨k, hk, hget⟩ := List.mem_filterMap.1 h
  obtain ⟨r', hr', rfl⟩ := Multiset.mem_map.1 (mem_newestFirst.1 (List.mem_of_mem_take hk))
  obtain ⟨hrow, hadmits⟩ := Multiset.mem_filter.1 hr'
  have hstored := getItem_of_mem_rows hrow
  obtain rfl : r' = r := Option.some.inj (hstored.symm.trans hget)
  exact ⟨hstored, hadmits⟩

/-- **Nothing is found** exactly when nothing passes the filters. -/
theorem findItems_eq_nil_iff (hlimit : 0 < q.limit) :
    t.findItems q = [] ↔ ∀ r ∈ t.items.rows, t.admits q r = false := by
  constructor
  · intro hnil r hr
    by_contra hadmits
    rw [Bool.not_eq_false] at hadmits
    have hkey : toLex (r.createdAt, r.id) ∈ newestFirst
        ((t.items.rows.filter fun item => t.admits q item = true).map fun item =>
          toLex (item.createdAt, item.id)) :=
      mem_newestFirst.2 (Multiset.mem_map_of_mem _ (Multiset.mem_filter.2 ⟨hr, hadmits⟩))
    -- the first of the list is within the limit, and its row is stored
    obtain ⟨k, ks, hlist⟩ := List.exists_cons_of_ne_nil (List.ne_nil_of_mem hkey)
    have hk : k ∈ newestFirst ((t.items.rows.filter fun item => t.admits q item = true).map
        fun item => toLex (item.createdAt, item.id)) := by
      rw [hlist]
      exact List.mem_cons_self
    obtain ⟨r', hr', rfl⟩ := Multiset.mem_map.1 (mem_newestFirst.1 hk)
    have hstored := getItem_of_mem_rows (Multiset.mem_filter.1 hr').1
    have hmem : r' ∈ t.findItems q := by
      refine List.mem_filterMap.2 ⟨toLex (r'.createdAt, r'.id), ?_, hstored⟩
      rw [hlist, List.take_cons hlimit]
      exact List.mem_cons_self
    rw [hnil] at hmem
    exact List.not_mem_nil hmem
  · intro hnone
    rw [List.eq_nil_iff_forall_not_mem]
    intro r hr
    obtain ⟨hstored, hadmits⟩ := mem_findItems hr
    rw [hnone r (mem_rows_of_getItem hstored)] at hadmits
    exact (nomatch hadmits)

/-- The query of the core layer. -/
theorem findItemsInCore_eq (t : MemoryTables) :
    t.findItemsInCore = t.findItems { inCore := some true } := by
  have hadmits : ∀ item : ItemRecord, (item.status = .active ∧ item.inCore = true) ↔
      t.admits { inCore := some true } item = true := by
    intro item
    simp [admits]
  unfold findItemsInCore findItems
  simp only [hadmits]

end MemoryTables

end SecondMind
