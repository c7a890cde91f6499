import SecondMind.Memory.CoreBudget

/-!
# Many changes at once

The rule `P-BULK-1` and the count before the batch: what one commit may change without the person's
confirmation.

* `ChangedMore` — more than the place of an item in the quick layer has changed;
* `OpBody.edits_or_quick` — an op on an item is counted, or it is housekeeping;
* `Writer.bulk_law` — an unconfirmed commit changes no more items than the threshold, and deletes
  none, or it is held whole.
-/

namespace SecondMind

open Keyed Policy

/-! ## What counts as a change -/

/-- The row without its place in the quick layer, its access counters and its last turn. -/
def ItemRecord.eraseQuick (r : ItemRecord) : ItemRecord :=
  { r with
    inQuick := false
    quickReason := none
    quickUntil := none
    accessCount := 0
    lastAccessedAt := none
    updatedAt := 0
    updatedByTurnId := 0 }

/-- The item was stored, and more than its place in the quick layer is different. -/
def ChangedMore (t t' : MemoryTables) (id : Uuid) : Prop :=
  ∃ r, t.getItem id = some r ∧
    (t'.getItem id).map ItemRecord.eraseQuick ≠ some r.eraseQuick

/-- The op is about the item: then it is counted as an edit of it, or it is housekeeping. -/
theorem OpBody.edits_or_quick {body : OpBody} {id : Uuid} (htarget : body.target = (.item, id))
    (hcreate : body.isCreate = false) :
    body.editedItem = some id ∨ body.itemChanges.onlyQuick = true := by
  cases body with
  | createItem => exact nomatch hcreate
  | updateItem itemId changes =>
    cases htarget
    by_cases hlayer : (OpBody.updateItem id changes).layerOnly = true
    · right
      exact (Bool.and_eq_true_iff.1 hlayer).2
    · left
      rw [OpBody.editedItem, if_neg hlayer]
  | setItemState => cases htarget; exact .inl rfl
  | deleteItem => cases htarget; exact .inl rfl
  | restoreItem => cases htarget; exact .inl rfl
  | supersedeItem => cases htarget; exact .inl rfl
  | correctItem => cases htarget; exact .inl rfl
  | fulfilIntention => cases htarget; exact .inl rfl
  | _ => exact nomatch htarget

namespace Writer

variable {w : Writer}

theorem eraseQuick_keepAccess (t : Tables) (r : ItemRecord) :
    (t.keepAccess r).eraseQuick = r.eraseQuick := by
  unfold Tables.keepAccess
  split <;> rfl

/-- Housekeeping changes nothing else. -/
theorem eraseQuick_edited {t : Tables} {i : Nat} {body : OpBody} (before : ItemRecord)
    (h : body.itemChanges.onlyQuick = true) :
    (w.edited before (w.filedChanges t i body)).eraseQuick = before.eraseQuick := by
  have hquick := changes_eq_quick h
  have hslug : body.itemChanges.categorySlug = none := by rw [hquick]
  have hcore : body.itemChanges.inCore = none := by rw [hquick]
  rw [filedChanges, refile_of_none hslug, edited, changedContent, if_neg (by simp [hcore]), hquick]
  rfl

/-! ## One op -/

/-- The items that were stored, and that the batch neither edits nor names as new, are as they were
but for the quick layer. -/
def SparesUncounted (w : Writer) (t : MemoryTables) (u : MemoryTables) : Prop :=
  ∀ id r, t.getItem id = some r → id ∉ createdItems w.ops → id ∉ editedItems w.ops →
    (u.getItem id).map ItemRecord.eraseQuick = some r.eraseQuick

/-- **An op of the batch** spares what the batch does not count. -/
theorem apply_sparesUncounted {t : MemoryTables} {u u' : Tables} {i : Nat} {log log' : RowLog} {op : Op}
    (hop : op ∈ w.ops) (h : w.apply u i log op.body = .ok (u', log'))
    (hspares : w.SparesUncounted t u.toMemoryTables) : w.SparesUncounted t u'.toMemoryTables := by
  intro id r hr hcreated hedited
  have hbefore := hspares id r hr hcreated hedited
  cases apply_itemEffect h with
  | none same =>
    rw [MemoryTables.getItem, same]
    exact hbefore
  | @new itemId item entities triggers slug name record hbody hnew free put =>
    -- the id of a new item is free, and that of the stored item is not
    obtain ⟨-, -, hid, -⟩ := newItem_eq_ok hnew
    have hne : record.id ≠ id := by
      rintro rfl
      rw [← hid] at free
      rw [free] at hbefore
      cases hbefore
    rw [MemoryTables.getItem, put, KeyTable.lookup_put_of_ne _ hne.symm]
    exact hbefore
  | @edit before htarget hcreate stored put =>
    have hid : (u.keepAccess (w.edited before (w.filedChanges u i op.body))).id = before.id :=
      id_keepAccess u _
    by_cases hsame : before.id = id
    · subst hsame
      have hquick : op.body.itemChanges.onlyQuick = true := by
        refine (OpBody.edits_or_quick htarget hcreate).resolve_left fun hcounted => hedited ?_
        rw [editedItems, Finset.mem_sdiff]
        refine ⟨?_, hcreated⟩
        rw [List.mem_toFinset]
        exact List.mem_filterMap.2 ⟨op, hop, hcounted⟩
      have hput : u'.getItem before.id =
          some (u.keepAccess (w.edited before (w.filedChanges u i op.body))) := by
        rw [MemoryTables.getItem, put, KeyTable.lookup_put, if_pos hid.symm]
      rw [hput, Option.map_some, eraseQuick_keepAccess, eraseQuick_edited before hquick]
      rw [stored] at hbefore
      exact hbefore
    · have hne : id ≠ (u.keepAccess (w.edited before (w.filedChanges u i op.body))).id := by
        rw [hid]
        exact Ne.symm hsame
      rw [MemoryTables.getItem, put, KeyTable.lookup_put_of_ne _ hne]
      exact hbefore

/-- **A delete that is allowed**, outside a confirmation, is of an item that the batch names as new,
or it reverses what a turn did, or tidies up. -/
theorem delete_allowed (hconfirmed : w.confirmed = false) {u : Tables} {op : Op} {id : Uuid}
    {v : PolicyVerdict} {r : ItemRecord} (hbody : op.body = .deleteItem id)
    (stored : u.getItem id = some r) (hcreated : id ∉ createdItems w.ops)
    (hv : w.verdict u op = .ok v) (hd : v.decision = .allowed) :
    op.origin ∈ [Origin.undo, .system] := by
  obtain ⟨hallowed, -⟩ := verdict_allowed hv hd
  have hid : r.id = id := KeyTable.key_of_lookup stored
  subst hid
  have hbulk := Policy.evaluate_allowed_iff.1 hallowed Policy.pBulk1 (by simp [Policy.rules])
  rw [facts_edit (by rw [hbody]; rfl) (by rw [hbody]; rfl) stored] at hbulk
  by_contra horigin
  have hconfirmed' : ¬ w.context.confirmed = true := by
    show ¬ w.confirmed = true
    rw [hconfirmed]
    exact Bool.false_ne_true
  unfold Policy.pBulk1 at hbulk
  rw [if_neg, if_pos] at hbulk
  · cases hbulk
  · exact ⟨by rw [itemFacts]; simp [opLabel, hbody, OpBody.label], horigin⟩
  · simp [hconfirmed', itemFacts, hbody, OpBody.layerOnly, OpBody.target, hcreated]

/-- Every delete among the outcomes that was applied. -/
def DeletesReversed (w : Writer) (outcomes : List OpOutcome) : Prop :=
  ∀ o ∈ outcomes, o.verdict.decision = .allowed → ∀ id, o.op.body = .deleteItem id →
    id ∉ createdItems w.ops → o.op.origin ∈ [Origin.undo, .system]

theorem step_bulk (hconfirmed : w.confirmed = false) {t : MemoryTables} {sb i : Nat}
    {p p' : Progress} {op : Op} (hop : op ∈ w.ops)
    (hp : w.SparesUncounted t p.tables.toMemoryTables ∧ w.DeletesReversed p.outcomes)
    (h : w.step sb i p op = .ok p') :
    w.SparesUncounted t p'.tables.toMemoryTables ∧ w.DeletesReversed p'.outcomes := by
  obtain ⟨hspares, hdeletes⟩ := hp
  rcases step_cases h with ⟨v, -, hv, rfl⟩ | ⟨v, u, reason, -, -, ha, rfl⟩ |
    ⟨v, u, log, hv, hd, ha, rfl⟩
  · refine ⟨by rw [refuse_tables]; exact hspares, fun o ho hallowed => ?_⟩
    obtain ⟨row, heldId, held, -, -, -, hrefused⟩ := w.refuse_eq sb i p op hv
    rw [hrefused] at ho
    rcases List.mem_append.1 ho with ho | ho
    · exact hdeletes o ho hallowed
    · rw [List.mem_singleton.1 ho] at hallowed
      exact absurd hallowed hv
  · refine ⟨?_, fun o ho hallowed => ?_⟩
    · show w.SparesUncounted t u.toMemoryTables
      rw [(apply_skip ha).memory]
      exact hspares
    · rcases List.mem_append.1 ho with ho | ho
      · exact hdeletes o ho hallowed
      · rw [List.mem_singleton.1 ho] at hallowed
        exact nomatch hallowed
  · refine ⟨apply_sparesUncounted hop ha hspares, fun o ho hallowed id hbody hcreated => ?_⟩
    rcases List.mem_append.1 ho with ho | ho
    · exact hdeletes o ho hallowed id hbody hcreated
    · rw [List.mem_singleton.1 ho] at hbody ⊢
      replace hbody : op.body = .deleteItem id := hbody
      rw [hbody] at ha
      obtain ⟨before, after, hget, -⟩ := changeItem_eq_ok.1 ha
      exact delete_allowed hconfirmed hbody hget hcreated hv hd

/-! ## A commit -/

/-- A batch that is held whole: nothing is written, and one held write keeps every op. -/
theorem holds_whole {t t' : Tables} {res : CommitResult} (hwhole : w.heldWhole = true)
    (h : w.commit t = .ok (t', res)) :
    t'.toMemoryTables = t.toMemoryTables ∧ res.outcomes.map (·.op) = w.ops ∧
      (∀ o ∈ res.outcomes, o.verdict.decision = .held) ∧
      ∃ held, res.held = [held] ∧ held.ops = w.ops := by
  obtain ⟨p, hp⟩ := commit_parts h
  have hbatch := hp.batch
  rw [applyAll, if_pos hwhole] at hbatch
  cases hbatch
  rw [hp.memory, hp.result]
  refine ⟨w.writeVocab_memory t, ?_, fun o ho => ?_, _, rfl, rfl⟩
  · show ((w.ops.zipIdx.map fun e => _).map fun o : OpOutcome => o.op) = w.ops
    rw [List.map_map]
    exact List.zipIdx_map_fst 0 w.ops
  · obtain ⟨e, -, rfl⟩ := List.mem_map.1 ho
    rfl

/-- **The bulk law.**  A commit that the person did not confirm changes no more of the items that
were stored before it than the threshold, items that its own creates name and the quick layer aside,
and applies no delete of such an item but one that undoes a turn or tidies up.  A batch that counts
more edits is held, all of it. -/
theorem bulk_law {w : Writer} {t t' : Tables} {res : CommitResult} (hconfirmed : w.confirmed = false)
    (h : w.commit t = .ok (t', res)) :
    {id | id ∉ createdItems w.ops ∧ ChangedMore t.toMemoryTables t'.toMemoryTables id}.encard ≤
        w.settings.bulkThreshold ∧
      w.DeletesReversed res.outcomes ∧
      (w.settings.bulkThreshold < (editedItems w.ops).card →
        t'.toMemoryTables = t.toMemoryTables ∧ res.outcomes.map (·.op) = w.ops ∧
          (∀ o ∈ res.outcomes, o.verdict.decision = .held) ∧
          ∃ held, res.held = [held] ∧ held.ops = w.ops) := by
  have hwhole_iff : w.heldWhole = true ↔ w.settings.bulkThreshold < (editedItems w.ops).card := by
    simp [heldWhole, hconfirmed]
  by_cases hwhole : w.heldWhole = true
  · obtain ⟨hmemory, hops, hheld, hone⟩ := holds_whole hwhole h
    refine ⟨?_, fun o ho hallowed => ?_, fun _ => ⟨hmemory, hops, hheld, hone⟩⟩
    · have hempty : {id | id ∉ createdItems w.ops ∧
          ChangedMore t.toMemoryTables t'.toMemoryTables id} = ∅ := by
        refine Set.eq_empty_of_forall_notMem fun id hid => ?_
        obtain ⟨-, r, hr, hne⟩ := hid
        rw [hmemory, hr] at hne
        exact hne rfl
      rw [hempty, Set.encard_empty]
      exact bot_le
    · rw [hheld o ho] at hallowed
      exact nomatch hallowed
  · obtain ⟨p, hp⟩ := commit_parts h
    have hbatch := hp.batch
    rw [applyAll, if_neg hwhole] at hbatch
    have hstart : w.SparesUncounted t.toMemoryTables (w.writeVocab t).toMemoryTables ∧
        w.DeletesReversed [] := by
      rw [writeVocab_memory]
      exact ⟨fun id r hr _ _ => by rw [hr]; rfl, fun o ho => absurd ho List.not_mem_nil⟩
    obtain ⟨hspares, hdeletes⟩ := steps_induct
      (P := fun q => w.SparesUncounted t.toMemoryTables q.tables.toMemoryTables ∧ w.DeletesReversed q.outcomes)
      (fun i q op q' hop hq hs => step_bulk hconfirmed hop hq hs) hstart hbatch
    refine ⟨?_, by rw [hp.result]; exact hdeletes, fun hmany => absurd (hwhole_iff.2 hmany) hwhole⟩
    have hsubset : {id | id ∉ createdItems w.ops ∧
        ChangedMore t.toMemoryTables t'.toMemoryTables id} ⊆ ↑(editedItems w.ops) := by
      rintro id ⟨hcreated, r, hr, hne⟩
      by_contra hedited
      rw [hp.memory] at hne
      exact hne (hspares id r hr hcreated hedited)
    refine (Set.encard_le_encard hsubset).trans ?_
    rw [Set.encard_coe_eq_coe_finsetCard]
    exact_mod_cast Nat.not_lt.1 fun hmany => hwhole (hwhole_iff.2 hmany)

end Writer

/-! ## Deletes without a confirmation -/

/-- A turn of one batch of ops, of a person who confirms nothing. -/
def unconfirmed (turnId : Uuid) (ops : List Op) : Writer :=
  { backend := .sql, turn := { turnId := turnId, now := turnId }, ops := ops }

def createGreeting : Op where
  body := .createItem 5
    { kind := .note, state := "current", text := "hi", title := "hi", mentionedAt := 0 } [] [] none
    none

/-- The delete comes in the name of the housekeeping, or next to an op that names the item as
new. -/
def sparedDeletes : List (List Op) :=
  [[{ origin := .system, body := .deleteItem 5 }], [createGreeting, { body := .deleteItem 5 }]]

/-- The person's turn deletes a note it stored before, and nothing holds the delete back. -/
theorem unconfirmed_delete_applied :
    ∃ t res, (unconfirmed 1 [createGreeting]).commit (Tables.initial 0) = .ok (t, res) ∧
      (t.getItem 5).isSome = true ∧
      ∀ ops ∈ sparedDeletes, ∃ t' res', (unconfirmed 2 ops).commit t = .ok (t', res') ∧
        (∃ o ∈ res'.outcomes, o.op.body = .deleteItem 5 ∧ o.verdict.decision = .allowed) ∧
        (t'.getItem 5).any (·.status = .deleted) = true := by
  have hran : ∃ x ∈ ((unconfirmed 1 [createGreeting]).commit (Tables.initial 0)).toOption,
      (x.1.getItem 5).isSome = true ∧
      ∀ ops ∈ sparedDeletes, ∃ y ∈ ((unconfirmed 2 ops).commit x.1).toOption,
        (∃ o ∈ y.2.outcomes, o.op.body = .deleteItem 5 ∧ o.verdict.decision = .allowed) ∧
          (y.1.getItem 5).any (·.status = .deleted) = true := by
    decide +kernel
  obtain ⟨x, hx, hstored, hdeletes⟩ := hran
  refine ⟨x.1, x.2, of_mem_toOption hx, hstored, fun ops hops => ?_⟩
  obtain ⟨y, hy, hy'⟩ := hdeletes ops hops
  exact ⟨y.1, y.2, of_mem_toOption hy, hy'⟩

/-- Two edits over a threshold of one: the batch is held. -/
def twoEdits : Writer :=
  { unconfirmed 2 [{ body := .setItemState 5 "current" }, { body := .setItemState 6 "current" }] with
    settings := { bulkThreshold := 1 } }

theorem two_edits_held : ∃ t res, twoEdits.commit (Tables.initial 0) = .ok (t, res) ∧
    t.toMemoryTables = (Tables.initial 0).toMemoryTables ∧
      ∀ o ∈ res.outcomes, o.verdict.decision = .held := by
  have hran : (twoEdits.commit (Tables.initial 0)).toOption.isSome = true := by decide +kernel
  obtain ⟨x, hx⟩ := Option.isSome_iff_exists.1 hran
  obtain ⟨-, -, hheld⟩ := Writer.bulk_law rfl (of_mem_toOption hx)
  obtain ⟨hmemory, -, houtcomes, -⟩ := hheld (by decide +kernel)
  exact ⟨x.1, x.2, of_mem_toOption hx, hmemory, houtcomes⟩

end SecondMind
