import SecondMind.Memory.WriteLog
import SecondMind.Memory.Runs

/-!
# The budget of core memory

The rule `_core_budget` refuses an op that would write to core when the items that show,
with the op's own item among them, cost more than the budget.  It takes the op's item as
it is stored (a new one as it would be made), and the other items as the store lists them.
This file follows the measure over whole runs.

* `MemoryTables.coreTokens` — what the stored items cost that show in core;
* `Writer.CoreMeasured` — the op leaves in core what the rule has measured;
* `coreTokens_le_budget` — a run whose ops are all measured never exceeds the budget.
-/

namespace SecondMind

open Keyed Policy

/-! ## The measure on a store -/

theorem coreTokensOf_perm {items items' : List ItemContent} (h : items.Perm items') :
    coreTokensOf items = coreTokensOf items' := by
  rw [coreTokensOf_eq, coreTokensOf_eq, (h.map viewCost).sum_eq]

namespace MemoryTables

/-- What the stored items cost that show in core, as the budget rule counts it. -/
def coreTokens (t : MemoryTables) : Nat :=
  Quot.liftOn (t.items.rows.map ItemRecord.toItemContent) coreTokensOf fun _ _ => coreTokensOf_perm

/-- What the stored items add to core. -/
def viewTotal (t : MemoryTables) : Nat := (t.items.rows.map fun r => viewCost r.toItemContent).sum

theorem coreTokens_eq (t : MemoryTables) :
    t.coreTokens = (coreHeader.length + t.viewTotal + 3) / 4 := by
  have hcost : (t.items.rows.map fun r => viewCost r.toItemContent) =
      (t.items.rows.map ItemRecord.toItemContent).map viewCost := by
    rw [Multiset.map_map]
    rfl
  rw [coreTokens, viewTotal, hcost]
  generalize t.items.rows.map ItemRecord.toItemContent = items
  refine Quot.inductionOn items fun l => ?_
  exact coreTokensOf_eq l

theorem coreTokens_mono {t u : MemoryTables} (h : t.viewTotal ≤ u.viewTotal) :
    t.coreTokens ≤ u.coreTokens := by
  rw [coreTokens_eq, coreTokens_eq]
  omega

/-- An item that is stored costs its part. -/
theorem viewCost_le_viewTotal {t : MemoryTables} {id : Uuid} {c : ItemContent}
    (h : (t.getItem id).map (·.toItemContent) = some c) : viewCost c ≤ t.viewTotal := by
  obtain ⟨r, hr, rfl⟩ := Option.map_eq_some_iff.1 h
  have hid : r.id = id := KeyTable.key_of_lookup hr
  have hmem : r ∈ t.items.rows := by
    rw [KeyTable.mem_rows, hid]
    exact hr
  obtain ⟨rest, hrest⟩ := Multiset.exists_cons_of_mem hmem
  rw [viewTotal, hrest, Multiset.map_cons, Multiset.sum_cons]
  exact Nat.le_add_right _ _

/-- Every item that shows, other than the one under `id`, is on the list the budget rule
reads. -/
def CoreListed (t : MemoryTables) (id : Uuid) : Prop :=
  ∀ r ∈ t.items.rows, r.id ≠ id → inCoreView r.toItemContent = true → r ∈ t.findItemsInCore

/-- The items under other ids cost no more than the items the rule counts. -/
theorem others_le_listed {t : MemoryTables} {id : Uuid} {others : Multiset ItemRecord}
    (hnodup : others.Nodup) (hrows : ∀ r ∈ others, r ∈ t.items.rows ∧ r.id ≠ id)
    (hlisted : t.CoreListed id) :
    (others.map fun r => viewCost r.toItemContent).sum ≤
      ((t.findItemsInCore.filter (·.id ≠ id)).map fun r => viewCost r.toItemContent).sum := by
  -- only the items that show cost anything, and those are all on the list
  have hshown : (others.map fun r => viewCost r.toItemContent).sum =
      ((others.filter fun r => inCoreView r.toItemContent).map fun r =>
        viewCost r.toItemContent).sum := by
    conv_lhs => rw [← Multiset.filter_add_not (fun r => inCoreView r.toItemContent = true) others]
    rw [Multiset.map_add, Multiset.sum_add, Nat.add_eq_left]
    refine Multiset.sum_eq_zero fun n hn => ?_
    obtain ⟨r, hr, rfl⟩ := Multiset.mem_map.1 hn
    rw [viewCost, if_neg (Multiset.mem_filter.1 hr).2]
  have hle : others.filter (fun r => inCoreView r.toItemContent = true) ≤
      ((t.findItemsInCore.filter (·.id ≠ id) : List ItemRecord) : Multiset ItemRecord) := by
    refine (Multiset.le_iff_subset (hnodup.filter _)).2 fun r hr => ?_
    obtain ⟨hmem, hview⟩ := Multiset.mem_filter.1 hr
    obtain ⟨hrow, hne⟩ := hrows r hmem
    simpa [hne] using hlisted r hrow hne hview
  obtain ⟨rest, hrest⟩ := Multiset.le_iff_exists_add.1 hle
  have hsum := congrArg (fun s => (Multiset.map (fun r => viewCost r.toItemContent) s).sum) hrest
  simp only [Multiset.map_coe, Multiset.sum_coe, Multiset.map_add, Multiset.sum_add] at hsum
  rw [hshown, hsum]
  exact Nat.le_add_right _ _

end MemoryTables

theorem SameMemory.viewTotal {t t' : Tables} (h : SameMemory t t') :
    t'.viewTotal = t.viewTotal := by
  have hrows := Table.map_rows_eq h.items
  unfold MemoryTables.viewTotal
  have hcost : ∀ rows : Multiset ItemRecord, rows.map (fun r => viewCost r.toItemContent) =
      (rows.map ItemRecord.eraseAccess).map fun r => viewCost r.toItemContent := by
    intro rows
    rw [Multiset.map_map]
    rfl
  rw [hcost t'.items.rows, hcost t.items.rows]
  exact congrArg _ (congrArg _ hrows)

/-! ## What an op leaves in core -/

namespace Writer

variable {w : Writer}

/-- The budget rule has measured what the op leaves in core.  If the op's item shows
afterwards, then the line of an edited item is not longer than it was; and where the item
did not show before, every other item that shows is on the list the rule reads. -/
def CoreMeasured (w : Writer) (t : Tables) (op : Op) : Prop :=
  match op.body with
  | .createItem itemId item .. => inCoreView (w.newContent item) = true → t.CoreListed itemId
  | body =>
    ∀ before : ItemRecord, body.target = (.item, before.id) → t.getItem before.id = some before →
      inCoreView (w.changedContent before.toItemContent body.itemChanges) = true →
        (coreLine (w.changedContent before.toItemContent body.itemChanges)).length ≤
            (coreLine before.toItemContent).length ∧
          (inCoreView before.toItemContent = false → t.CoreListed before.id)

/-- A new item that is put in adds what it costs. -/
theorem viewTotal_new {t t' : MemoryTables} {record : ItemRecord}
    (free : t.getItem record.id = none) (put : t'.items = t.items.put record) :
    t'.viewTotal = viewCost record.toItemContent + t.viewTotal := by
  rw [MemoryTables.viewTotal, put, KeyTable.rows_put free, Multiset.map_cons, Multiset.sum_cons]
  rfl

/-- An item that is edited costs what it costs now in the place of what it cost. -/
theorem viewTotal_edit {t t' : MemoryTables} {before after : ItemRecord}
    (hid : after.id = before.id) (stored : t.getItem before.id = some before)
    (put : t'.items = t.items.put after) :
    ∃ others : Multiset ItemRecord, others.Nodup ∧
      (∀ r ∈ others, r ∈ t.items.rows ∧ r.id ≠ before.id) ∧
      t.viewTotal = viewCost before.toItemContent +
        (others.map fun r => viewCost r.toItemContent).sum ∧
      t'.viewTotal = viewCost after.toItemContent +
        (others.map fun r => viewCost r.toItemContent).sum := by
  have hold : t.items.lookup after.id = some before := by
    rw [hid]
    exact stored
  obtain ⟨hrows, hrows'⟩ := KeyTable.rows_put_of_lookup hold
  refine ⟨(t.items.drop after.id).rows, KeyTable.nodup_rows _, fun r hr => ?_, ?_, ?_⟩
  · rw [← hid]
    exact KeyTable.mem_rows_drop.1 hr
  · rw [MemoryTables.viewTotal, hrows, Multiset.map_cons, Multiset.sum_cons]
  · rw [MemoryTables.viewTotal, put, hrows', Multiset.map_cons, Multiset.sum_cons]

/-- The budget holds the items that show and the candidate. -/
theorem room_of_listed {t : MemoryTables} {tables : Tables} {candidate : ItemRecord}
    {others : Multiset ItemRecord} {budget : Nat} (ht : tables.toMemoryTables = t)
    (hnodup : others.Nodup) (hrows : ∀ r ∈ others, r ∈ t.items.rows ∧ r.id ≠ candidate.id)
    (hlisted : t.CoreListed candidate.id) (hroom : budgetTokens tables candidate ≤ budget) :
    (coreHeader.length + ((others.map fun r => viewCost r.toItemContent).sum +
      (1 + (coreLine candidate.toItemContent).length)) + 3) / 4 ≤ budget := by
  subst ht
  have hle := MemoryTables.others_le_listed hnodup hrows hlisted
  rw [budgetTokens, coreTokensWith_eq, List.map_map] at hroom
  simp only [Function.comp_def] at hroom
  omega

/-! ### The verdict on an op that shows an item -/

theorem changes_eq_quick {changes : ItemChanges} (h : changes.onlyQuick = true) :
    changes = { inQuick := changes.inQuick, quickReason := changes.quickReason
                quickUntil := changes.quickUntil } := by
  rw [ItemChanges.onlyQuick, decide_eq_true_eq] at h
  have hwith : changes =
      { { changes with inQuick := none, quickReason := none, quickUntil := none } with
        inQuick := changes.inQuick, quickReason := changes.quickReason
        quickUntil := changes.quickUntil } := rfl
  rw [h] at hwith
  exact hwith

/-- Placing an item in the quick layer does not show it. -/
theorem inCoreView_quick {content : ItemContent} {changes : ItemChanges}
    (h : changes.onlyQuick = true) :
    inCoreView (w.changedContent content changes) = inCoreView content := by
  have hquick := changes_eq_quick h
  have hcore : changes.inCore = none := by rw [hquick]
  rw [changedContent, if_neg (by simp [hcore]), hquick]
  rfl

theorem inCore_of_inCoreView {c : ItemContent} (h : inCoreView c = true) :
    c.inCore = true ∧ c.status = .active := by
  unfold inCoreView at h
  split at h
  · exact (nomatch h)
  · rename_i hc
    simp only [not_or, Decidable.not_not] at hc
    exact ⟨hc.1, hc.2.1⟩

theorem changedContent_status (content : ItemContent) (changes : ItemChanges) :
    (w.changedContent content changes).status = changes.status.getD content.status ∧
      (w.changedContent content changes).inCore = changes.inCore.getD content.inCore := by
  unfold changedContent
  dsimp only
  split <;> exact ⟨rfl, rfl⟩

/-- The facts of an edit of a stored item. -/
theorem facts_edit {t : Tables} {op : Op} {before : ItemRecord} {created : Finset Uuid}
    (hcreate : op.body.isCreate = false) (htarget : op.body.target = (.item, before.id))
    (stored : t.getItem before.id = some before) :
    facts t op created = itemFacts op created before := by
  obtain ⟨title, rationale, trust, origin, body⟩ := op
  cases body with
  | createItem => exact (nomatch hcreate)
  | _ =>
    simp only [OpBody.target] at htarget
    cases htarget <;> simp only [facts, OpBody.target, stored]

/-- An edit that shows an item which did not show is a core write. -/
theorem coreWrite_of_shown {op : Op} {before : ItemRecord} {created : Finset Uuid}
    (htarget : op.body.target = (.item, before.id))
    (hbefore : inCoreView before.toItemContent = false)
    (hafter : inCoreView (w.changedContent before.toItemContent op.body.itemChanges) = true) :
    (itemFacts op created before).coreWrite = true := by
  obtain ⟨hin, hactive⟩ := inCore_of_inCoreView hafter
  obtain ⟨hstatus, hcore⟩ := w.changedContent_status before.toItemContent op.body.itemChanges
  have hlabel : opLabel op ≠ .delete := by
    intro hdelete
    obtain ⟨title, rationale, trust, origin, body⟩ := op
    cases body with
    | deleteItem => exact absurd (hstatus.symm.trans hactive) (by simp [OpBody.itemChanges])
    | deleteEntity => exact (nomatch htarget)
    | _ => exact (nomatch hdelete)
  have hcontent : op.body.itemChanges.onlyQuick = false := by
    rw [Bool.eq_false_iff]
    intro hquick
    rw [inCoreView_quick hquick, hbefore] at hafter
    exact (nomatch hafter)
  rw [hcore] at hin
  simp [itemFacts, hlabel, hin, hcontent]

/-- What an edit stores shows, and reads, as its changes say. -/
theorem view_edited (t : Tables) (i : Nat) (body : OpBody) (before : ItemRecord) :
    let after := t.keepAccess (w.edited before (w.filedChanges t i body))
    let content := w.changedContent before.toItemContent body.itemChanges
    inCoreView after.toItemContent = inCoreView content ∧
      coreLine after.toItemContent = coreLine content := by
  have hkept : ∀ r : ItemRecord, inCoreView (t.keepAccess r).toItemContent = inCoreView r.toItemContent
      ∧ coreLine (t.keepAccess r).toItemContent = coreLine r.toItemContent := by
    intro r
    unfold Tables.keepAccess
    split <;> exact ⟨rfl, rfl⟩
  have hfiled : inCoreView (w.edited before (w.filedChanges t i body)).toItemContent =
        inCoreView (w.changedContent before.toItemContent body.itemChanges) ∧
      coreLine (w.edited before (w.filedChanges t i body)).toItemContent =
        coreLine (w.changedContent before.toItemContent body.itemChanges) := by
    unfold filedChanges refile edited changedContent
    split
    · exact ⟨rfl, rfl⟩
    · dsimp only
      split <;> exact ⟨rfl, rfl⟩
  exact ⟨(hkept _).1.trans hfiled.1, (hkept _).2.trans hfiled.2⟩

/-! ### One op -/

/-- **An op that is measured stays within the budget.** -/
theorem apply_coreTokens {t t' : Tables} {i : Nat} {log log' : RowLog} {op : Op}
    {v : PolicyVerdict} (hv : w.verdict t op = .ok v) (hd : v.decision = .allowed)
    (hmeasured : w.CoreMeasured t op) (h : w.apply t i log op.body = .ok (t', log'))
    (hroom : t.coreTokens ≤ w.settings.coreTokenBudget) :
    t'.coreTokens ≤ w.settings.coreTokenBudget := by
  obtain ⟨-, hbudget⟩ := verdict_allowed hv hd
  cases apply_itemEffect h with
  | none same =>
    refine le_trans (MemoryTables.coreTokens_mono (le_of_eq ?_)) hroom
    rw [MemoryTables.viewTotal, same]
    rfl
  | @new itemId item entities triggers slug name record hbody hnew free put =>
    obtain ⟨⟨c, hcontent⟩, -, hid, -⟩ := newItem_eq_ok hnew
    have htotal := viewTotal_new (t := t.toMemoryTables) (hid ▸ free) put
    have hcost : viewCost record.toItemContent = viewCost (w.newContent item) := by
      rw [hcontent]
      rfl
    rw [hcost] at htotal
    by_cases hview : inCoreView (w.newContent item) = true
    · -- the rule has measured the item as it would be made
      have hfacts : (facts t op (createdItems w.ops)).coreWrite = true := by
        obtain ⟨hin, -⟩ := inCore_of_inCoreView hview
        obtain ⟨-, -, hcore, -⟩ := w.newContent_kind item
        simp only [facts, hbody]
        exact hcore.symm.trans hin
      obtain ⟨c', hcandidate, hle⟩ := hbudget hfacts
      simp only [budgetCandidate, hbody] at hcandidate
      cases hmade : w.newItem itemId item Option.none with
      | error e =>
        rw [hmade] at hcandidate
        cases hcandidate
      | ok candidate =>
        rw [hmade] at hcandidate
        cases hcandidate
        obtain ⟨⟨d, hcontent'⟩, -, hid', -⟩ := newItem_eq_ok hmade
        have hline : coreLine candidate.toItemContent = coreLine (w.newContent item) := by
          rw [hcontent']
          rfl
        have hlisted : t.CoreListed candidate.id := by
          have hm : w.CoreMeasured t op := hmeasured
          simp only [CoreMeasured, hbody] at hm
          rw [hid']
          exact hm hview
        have hrows : ∀ r ∈ t.items.rows, r ∈ t.items.rows ∧ r.id ≠ candidate.id := by
          intro r hr
          refine ⟨hr, fun e => ?_⟩
          have hstored := KeyTable.mem_rows.1 hr
          rw [e, hid'] at hstored
          rw [MemoryTables.getItem, hstored] at free
          cases free
        have hfit := room_of_listed rfl (KeyTable.nodup_rows t.items) hrows hlisted
          (hle candidate rfl)
        rw [MemoryTables.coreTokens_eq, htotal, viewCost, if_pos hview, ← hline]
        rw [MemoryTables.viewTotal]
        omega
    · refine le_trans (MemoryTables.coreTokens_mono (le_of_eq ?_)) hroom
      rw [htotal, viewCost, if_neg hview, Nat.zero_add]
  | @edit before htarget hcreate stored put =>
    obtain ⟨hview, hline⟩ := w.view_edited t i op.body before
    have hid : (t.keepAccess (w.edited before (w.filedChanges t i op.body))).id = before.id :=
      id_keepAccess t _
    obtain ⟨others, hnodup, hrows, htotal, htotal'⟩ :=
      viewTotal_edit (t := t.toMemoryTables) hid stored put
    by_cases hafter : inCoreView (w.changedContent before.toItemContent op.body.itemChanges) = true
    · have hm : (coreLine (w.changedContent before.toItemContent op.body.itemChanges)).length ≤
            (coreLine before.toItemContent).length ∧
          (inCoreView before.toItemContent = false → t.CoreListed before.id) := by
        have hm := hmeasured
        unfold CoreMeasured at hm
        split at hm
        · rename_i hbody
          rw [hbody] at hcreate
          cases hcreate
        · exact hm before htarget stored hafter
      obtain ⟨hshort, hlisted⟩ := hm
      rw [viewCost, if_pos (hview.trans hafter), hline] at htotal'
      by_cases hbefore : inCoreView before.toItemContent = true
      · -- the item showed before, and its line has not grown
        refine le_trans (MemoryTables.coreTokens_mono ?_) hroom
        rw [viewCost, if_pos hbefore] at htotal
        omega
      · -- the rule has measured the line the item had
        replace hbefore := Bool.eq_false_iff.2 hbefore
        have hfacts : (facts t op (createdItems w.ops)).coreWrite = true := by
          rw [facts_edit hcreate htarget stored]
          exact coreWrite_of_shown htarget hbefore hafter
        obtain ⟨c, hcandidate, hle⟩ := hbudget hfacts
        have hstored : c = some before := by
          have hget : w.budgetCandidate t op = .ok (t.getItem op.body.target.2) := by
            unfold budgetCandidate
            split
            · rename_i hbody
              rw [hbody] at hcreate
              cases hcreate
            · rfl
          rw [hget, htarget, stored] at hcandidate
          exact (Except.ok.inj hcandidate).symm
        have hfit := room_of_listed rfl hnodup hrows (hlisted hbefore) (hle before hstored)
        rw [MemoryTables.coreTokens_eq]
        omega
    · refine le_trans (MemoryTables.coreTokens_mono ?_) hroom
      rw [viewCost, if_neg (by rw [hview]; exact hafter)] at htotal'
      omega

/-! ### Batches and runs -/

/-- Every op the batch applies is measured on the tables it meets. -/
def CoreMeasuredBatch (w : Writer) (t : Tables) : Prop :=
  w.heldWhole = true ∨
    w.EveryApplied (w.seqBase t) w.CoreMeasured 0 { tables := w.writeVocab t } w.ops

theorem step_coreTokens {sb i : Nat} {p p' : Progress} {op : Op}
    (hmeasured : w.Applies sb i p op → w.CoreMeasured p.tables op)
    (hroom : p.tables.coreTokens ≤ w.settings.coreTokenBudget) (h : w.step sb i p op = .ok p') :
    p'.tables.coreTokens ≤ w.settings.coreTokenBudget := by
  rcases step_cases h with ⟨v, -, -, rfl⟩ | ⟨v, t₁, reason, -, -, ha, rfl⟩ |
    ⟨v, t₁, log, hv, hd, ha, rfl⟩
  · rw [refuse_tables]
    exact hroom
  · have hmemory := (apply_skip ha).memory
    rw [hmemory]
    exact hroom
  · exact apply_coreTokens hv hd (hmeasured ⟨⟨v, hv, hd⟩, _, ha⟩) ha hroom

theorem commit_coreTokens {t t' : Tables} {res : CommitResult} (hmeasured : w.CoreMeasuredBatch t)
    (hroom : t.coreTokens ≤ w.settings.coreTokenBudget) (h : w.commit t = .ok (t', res)) :
    t'.coreTokens ≤ w.settings.coreTokenBudget := by
  obtain ⟨p, hp⟩ := commit_parts h
  rw [hp.memory]
  have hstart : (w.writeVocab t).coreTokens ≤ w.settings.coreTokenBudget := by
    rw [writeVocab_memory]
    exact hroom
  have hbatch := hp.batch
  unfold applyAll at hbatch
  split at hbatch
  · cases hbatch
    exact hstart
  · rename_i hwhole
    have hall := hmeasured.resolve_left hwhole
    exact steps_keep (fun i p op p' hm hq hs => step_coreTokens hm hq hs) hall hstart hbatch

end Writer

theorem coreTokens_initial (me : Uuid) : (Tables.initial me).coreTokens = 12 := by
  have hheader : coreHeader.length = 45 := by decide +kernel
  have htotal : (Tables.initial me).viewTotal = 0 := rfl
  rw [MemoryTables.coreTokens_eq, hheader, htotal]

/-- **Core stays within its budget** in every run whose applied ops are all measured: with a
budget the settings admit, whatever the writers, confirmed or not. -/
theorem coreTokens_le_budget {me : Uuid} {budget : Nat} {es : List Event} {t : Tables}
    (hbudget : 100 ≤ budget)
    (h : Reached (fun w t => w.settings.coreTokenBudget = budget ∧ w.CoreMeasuredBatch t)
      (Tables.initial me) es t) : t.coreTokens ≤ budget := by
  refine h.keeps (P := fun t => t.coreTokens ≤ budget) ?_ ?_ ?_
  · rw [coreTokens_initial]
    omega
  · rintro w t t' res ⟨rfl, hmeasured⟩ hdone hroom
    exact Writer.commit_coreTokens hmeasured hroom hdone
  · intro t t' hsame hroom
    exact le_trans (MemoryTables.coreTokens_mono hsame.viewTotal.le) hroom

/-! ### A core item that grows -/

/-- Something about the person, in core. -/
def aboutMe : ItemContent :=
  { kind := .note, state := "current", text := "I paint", title := "I paint", mentionedAt := 0
    inCore := true }

/-- A turn of a workspace with a budget of 100 tokens. -/
def coreTurn (turnId : Uuid) (body : OpBody) : Writer :=
  { backend := .sql, turn := { turnId := turnId, now := turnId }
    settings := { coreTokenBudget := 100 }, ops := [{ body := body }] }

/-- The line of a text of one long word. -/
theorem length_coreLine_word (n : Nat) (h : n ≠ 0) :
    (coreLine { aboutMe with text := String.ofList (List.replicate n 'a') }).length = 2 + n := by
  have hwords : words (String.ofList (List.replicate n 'a')) =
      [String.ofList (List.replicate n 'a')] := by
    refine words_of_not_isSpace (fun c hc => ?_) ?_
    · rw [String.toList_ofList] at hc
      rw [List.eq_of_mem_replicate hc]
      decide
    · rw [String.toList_ofList]
      exact mt (List.replicate_eq_nil_iff 'a').1 h
  have hprefix : "- ".length = 2 := rfl
  simp only [coreLine, hwords, join, String.length_append, hprefix]
  rw [← String.length_toList, String.toList_ofList, List.length_replicate]

/-- A text that alone takes more than 100 tokens. -/
def longText : String := String.ofList (List.replicate 400 'a')

/-- The item is made short, and then given the long text, which the rule does not measure. -/
theorem reached_longText :
    ∃ es t, Reached (fun w _ => w.settings.coreTokenBudget = 100 ∧ w.confirmed = false)
      (Tables.initial 0) es t ∧
        (t.getItem 1).map (·.toItemContent) = some { aboutMe with text := longText } := by
  refine ⟨_, _, .commit (w := coreTurn 2 (.updateItem 1 { text := some longText }))
    (.commit (w := coreTurn 1 (.createItem 1 aboutMe [] [] none none)) .start ⟨rfl, rfl⟩ rfl)
    ⟨rfl, rfl⟩ rfl, ?_⟩
  decide +kernel

/-- Nobody confirmed anything, and core costs more than its budget. -/
theorem long_text_over_budget :
    ∃ es t, Reached (fun w _ => w.settings.coreTokenBudget = 100 ∧ w.confirmed = false)
      (Tables.initial 0) es t ∧ 100 < t.coreTokens := by
  obtain ⟨es, t, hrun, hstored⟩ := reached_longText
  have hheader : coreHeader.length = 45 := by decide +kernel
  have hview : inCoreView { aboutMe with text := longText } = true := rfl
  have hline : (coreLine { aboutMe with text := longText }).length = 2 + 400 :=
    length_coreLine_word 400 (by decide)
  have hcost : 1 + (2 + 400) = viewCost { aboutMe with text := longText } :=
    ((if_pos hview).trans (congrArg (1 + ·) hline)).symm
  have hle := hcost.trans_le (MemoryTables.viewCost_le_viewTotal hstored)
  refine ⟨es, t, hrun, ?_⟩
  rw [MemoryTables.coreTokens_eq, hheader]
  omega

theorem short_text_within_budget :
    ∃ es t, Reached (fun w t => w.settings.coreTokenBudget = 100 ∧ w.CoreMeasuredBatch t)
      (Tables.initial 0) es t ∧ t.coreTokens ≤ 100 := by
  have hdone : ∃ t res, (coreTurn 1 (.createItem 1 aboutMe [] [] none none)).commit
      (Tables.initial 0) = .ok (t, res) := ⟨_, _, rfl⟩
  obtain ⟨t, res, hdone⟩ := hdone
  have hmeasured : (coreTurn 1 (.createItem 1 aboutMe [] [] none none)).CoreMeasuredBatch
      (Tables.initial 0) := by
    refine .inr ⟨fun _ _ r hr => ?_, fun _ _ => trivial⟩
    exact absurd hr (Multiset.notMem_zero r)
  have hrun : Reached (fun w t => w.settings.coreTokenBudget = 100 ∧ w.CoreMeasuredBatch t)
      (Tables.initial 0) _ t := .commit .start ⟨rfl, hmeasured⟩ hdone
  exact ⟨_, t, hrun, coreTokens_le_budget (by decide) hrun⟩

end SecondMind
