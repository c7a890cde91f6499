import SecondMind.Memory.UndoConflicts
import SecondMind.Retrieval.Triggers

/-!
# When a trigger fires

A history of a workspace has the commits of its turns, the checks that end them, and the bookkeeping
between them.  A check lists the pending triggers of active items; it asks neither whether the memory
is still open nor which turn made the trigger.

* `Passed` — a history, with what each check fired;
* `FiresRight` — a trigger fires while its memory is open, not in the turn that made it, and once
  until it is put back;
* `fires_right_iff` — a history fires right exactly when every matching trigger was due;
* `done_task_fires` — a task that is done, and announced all the same.
-/

namespace SecondMind

open Keyed Agent

/-! ## The listing -/

namespace MemoryTables

variable {t : MemoryTables} {on : List TriggerOn} {r : TriggerRecord}

/-- **What waits** is listed, and nothing else. -/
theorem mem_pendingTriggers :
    r ∈ t.pendingTriggers on ↔ t.getTrigger r.id = some r ∧ t.waits on r = true := by
  unfold pendingTriggers
  rw [List.mem_filterMap]
  constructor
  · rintro ⟨k, hk, hget⟩
    obtain ⟨r', hr', rfl⟩ := Multiset.mem_map.1 (mem_newestFirst.1 (List.mem_reverse.1 hk))
    obtain ⟨hrow, hwaits⟩ := Multiset.mem_filter.1 hr'
    have hstored : t.getTrigger r'.id = some r' := KeyTable.mem_rows.1 hrow
    obtain rfl : r' = r := Option.some.inj (hstored.symm.trans hget)
    exact ⟨hstored, hwaits⟩
  · rintro ⟨hstored, hwaits⟩
    refine ⟨toLex (r.createdAt, r.id), List.mem_reverse.2 (mem_newestFirst.2 ?_), hstored⟩
    exact Multiset.mem_map_of_mem _ (Multiset.mem_filter.2 ⟨KeyTable.mem_rows.2 hstored, hwaits⟩)

theorem coe_newestFirst (s : Multiset (Instant ×ₗ Uuid)) : (newestFirst s : Multiset _) = s := by
  induction s using Quot.inductionOn with
  | h l => exact Multiset.coe_eq_coe.2 (List.perm_insertionSort _ l)

/-- The ids of the triggers found under their keys. -/
theorem ids_filterMap_keys {s : Multiset TriggerRecord}
    (hs : ∀ r ∈ s, t.getTrigger r.id = some r) {ks : List (Instant ×ₗ Uuid)}
    (hks : ∀ k ∈ ks, k ∈ s.map fun r => toLex (r.createdAt, r.id)) :
    (ks.filterMap fun k => t.getTrigger (ofLex k).2).map (·.id) = ks.map fun k => (ofLex k).2 := by
  induction ks with
  | nil => rfl
  | cons k ks ih =>
    obtain ⟨r, hr, rfl⟩ := Multiset.mem_map.1 (hks k List.mem_cons_self)
    have hget : t.getTrigger (ofLex (toLex (r.createdAt, r.id))).2 = some r := hs r hr
    rw [List.filterMap_cons, hget, List.map_cons, List.map_cons,
      ih fun k hk => hks k (List.mem_cons_of_mem _ hk)]
    rfl

/-- No trigger is listed twice. -/
theorem nodup_pendingTriggers : ((t.pendingTriggers on).map (·.id)).Nodup := by
  have hstored : ∀ r ∈ t.triggers.rows.filter fun r => t.waits on r = true,
      t.getTrigger r.id = some r := fun r hr => KeyTable.mem_rows.1 (Multiset.mem_filter.1 hr).1
  unfold pendingTriggers
  rw [ids_filterMap_keys hstored fun k hk => mem_newestFirst.1 (List.mem_reverse.1 hk),
    List.map_reverse, List.nodup_reverse, ← Multiset.coe_nodup, ← Multiset.map_coe, coe_newestFirst,
    Multiset.map_map]
  refine Multiset.Nodup.map_on ?_ (t.triggers.nodup_rows.filter _)
  intro r hr r' hr' hid
  replace hid : r.id = r'.id := hid
  exact Option.some.inj (((hstored r hr).symm.trans (congrArg t.getTrigger hid)).trans (hstored r' hr'))

end MemoryTables

/-! ## What a check finds -/

namespace TriggerCheck

variable {c : TriggerCheck} {h : Heard} {t : MemoryTables}

/-- A trigger of the three kinds waits, and the message matches it. -/
def Matches (c : TriggerCheck) (h : Heard) (t : MemoryTables) (r : TriggerRecord) : Prop :=
  r ∈ t.pendingTriggers momentKinds ∧ (c.why h t r).isSome

/-- The triggers a check goes through. -/
theorem perm_matched : ((c.matched h t).map (·.triggerId)).Sublist
    ((((t.pendingTriggers momentKinds).filter fun r => r.on = .person) ++ topicsOf t).map (·.id)) := by
  unfold matched
  rw [List.map_filterMap]
  generalize ((t.pendingTriggers momentKinds).filter fun r => r.on = .person) ++ topicsOf t = rs
  induction rs with
  | nil => exact .slnil
  | cons r rs ih =>
    cases hwhy : c.why h t r with
    | none =>
      rw [List.filterMap_cons_none (by simp [hwhy]), List.map_cons]
      exact ih.cons _
    | some why =>
      rw [List.filterMap_cons_some (by simp only [hwhy, Option.map_some]; rfl), List.map_cons]
      exact ih.cons_cons _

/-- A check fires no trigger twice. -/
theorem nodup_matched : ((c.matched h t).map (·.triggerId)).Nodup := by
  refine perm_matched.nodup ?_
  have hall : ((t.pendingTriggers momentKinds).map (·.id)).Nodup := t.nodup_pendingTriggers
  unfold topicsOf
  rw [List.map_append]
  refine List.Nodup.append (hall.sublist (List.filter_sublist.map _))
    (hall.sublist (List.filter_sublist.map _)) ?_
  intro id hpeople htopics
  obtain ⟨r, hr, rfl⟩ := List.mem_map.1 hpeople
  obtain ⟨r', hr', hid⟩ := List.mem_map.1 htopics
  obtain ⟨hr, hperson⟩ := List.mem_filter.1 hr
  obtain ⟨hr', htopic⟩ := List.mem_filter.1 hr'
  obtain rfl : r' = r := List.inj_on_of_nodup_map hall hr' hr hid
  rw [decide_eq_true_eq] at hperson htopic
  rw [hperson] at htopic
  rcases htopic with h | h <;> cases h

/-- **What matches** is what the check finds. -/
theorem mem_matched {id : Uuid} :
    id ∈ (c.matched h t).map (·.triggerId) ↔ ∃ r, r.id = id ∧ c.Matches h t r := by
  have hkinds : ∀ r, r ∈ ((t.pendingTriggers momentKinds).filter fun r => r.on = .person) ++
      topicsOf t ↔ r ∈ t.pendingTriggers momentKinds := by
    intro r
    unfold topicsOf
    simp only [List.mem_append, List.mem_filter, decide_eq_true_eq, ← and_or_left]
    refine ⟨And.left, fun hr => ⟨hr, ?_⟩⟩
    have hwaits := (MemoryTables.mem_pendingTriggers.1 hr).2
    have hon : r.on ∈ momentKinds := (of_decide_eq_true hwaits).2.1
    simpa [momentKinds] using hon
  unfold matched
  simp only [List.mem_map, List.mem_filterMap, hkinds, Option.map_eq_some_iff]
  constructor
  · rintro ⟨f, ⟨r, hr, why, hwhy, rfl⟩, rfl⟩
    exact ⟨r, rfl, hr, by rw [hwhy]; rfl⟩
  · rintro ⟨r, rfl, hr, hsome⟩
    obtain ⟨why, hwhy⟩ := Option.isSome_iff_exists.1 hsome
    exact ⟨_, ⟨r, hr, why, hwhy, rfl⟩, rfl⟩

end TriggerCheck

/-! ## What firing does -/

namespace MemoryTables

/-- The trigger is as it was, or it has fired. -/
def LeftOrFired (t t' : MemoryTables) (id : Uuid) : Prop :=
  t'.getTrigger id = t.getTrigger id ∨ ∃ r, t'.getTrigger id = some r ∧ r.state = .fired

/-- The trigger has fired. -/
def HasFired (t : MemoryTables) (id : Uuid) : Prop := ∃ r, t.getTrigger id = some r ∧ r.state = .fired

theorem HasFired.left {t t' : MemoryTables} {id : Uuid} (h : t.HasFired id)
    (hleft : t.LeftOrFired t' id) : t'.HasFired id := by
  rcases hleft with hsame | hfired
  · unfold HasFired
    rw [hsame]
    exact h
  · exact hfired

end MemoryTables

namespace Writer

variable {w : Writer}

/-- The triggers after one of them is set. -/
theorem setTriggerState_trigger {t t' : Tables} {i : Nat} {log log' : RowLog} {id : Uuid}
    {state : TriggerState} (h : w.apply t i log (.setTriggerState id state) = .ok (t', log')) :
    (∃ r, t'.getTrigger id = some r ∧ r.state = state) ∧
      ∀ id', id' ≠ id → t'.getTrigger id' = t.getTrigger id' := by
  obtain ⟨before, t₁, hget, -, hrep, hx⟩ := changeTrigger_eq_ok.1 h
  obtain ⟨rfl, rfl⟩ := Prod.mk.inj hx
  obtain rfl : before.id = id := KeyTable.key_of_lookup hget
  have hstored : (t.getTrigger (w.editedTrigger before { state := some state }).id).isSome := by
    rw [show (w.editedTrigger before { state := some state }).id = before.id from rfl, hget]
    rfl
  obtain ⟨-, rfl⟩ := (Tables.replaceTrigger_eq_ok hstored).1 hrep
  exact ⟨⟨_, KeyTable.lookup_put_self _ _, rfl⟩,
    fun id' hne => KeyTable.lookup_put_of_ne t.triggers hne⟩

/-- A step that fires a trigger leaves the others alone. -/
theorem step_leftOrFired {sb i : Nat} {p p' : Progress} {op : Op} {id : Uuid}
    (hbody : op.body = .setTriggerState id .fired) (h : w.step sb i p op = .ok p') (id' : Uuid) :
    p.tables.LeftOrFired p'.tables.toMemoryTables id' := by
  rcases step_cases h with ⟨v, -, -, rfl⟩ | ⟨v, u, reason, -, -, hskip, rfl⟩ |
    ⟨v, u, log, -, -, happly, rfl⟩
  · rw [refuse_tables]
    exact .inl rfl
  · exact .inl (congrArg (MemoryTables.getTrigger · id') (apply_skip hskip).memory)
  · rw [hbody] at happly
    obtain ⟨hfired, hothers⟩ := setTriggerState_trigger happly
    by_cases hid : id' = id
    · subst hid
      exact .inr hfired
    · exact .inl (hothers id' hid)

/-- Only a trigger that is not there is skipped. -/
theorem changeTrigger_ne_skip {t u : Tables} {log : RowLog} {id : Uuid} {changes : TriggerChanges}
    {r : TriggerRecord} {reason : String} (hr : t.getTrigger id = some r) :
    w.changeTrigger t log id changes ≠ .error (.skip u reason) := by
  intro h
  unfold changeTrigger at h
  rw [hr] at h
  dsimp only at h
  split at h
  · exact (nomatch h)
  · rcases bind_eq_error.1 h with h | ⟨_, -, h⟩
    · exact run_ne_skip h
    · exact (nomatch h)

/-- A stored trigger fires, when the batch edits few items. -/
theorem step_fires (hfew : (editedItems w.ops).card ≤ w.settings.bulkThreshold) {sb i : Nat} {p p' : Progress} {op : Op}
    {id : Uuid} (hbody : op.body = .setTriggerState id .fired) (htrust : op.trust = .userStated)
    (hstored : (p.tables.getTrigger id).isSome) (h : w.step sb i p op = .ok p') :
    p'.tables.HasFired id := by
  have hallows : w.Allows p.tables op := by
    have hfacts : facts p.tables op (createdItems w.ops) =
        { op := .setState, trust := op.trust, origin := op.origin, target := .trigger
          editsExisting := true } := by
      simp only [facts, hbody, OpBody.target, opLabel]
      rfl
    rw [Allows, verdict_allowed_iff, hfacts]
    exact ⟨Policy.evaluate_trigger rfl rfl htrust rfl rfl rfl rfl hfew, by intro hheld; cases hheld⟩
  rcases step_cases h with ⟨v, hv, hrefused, rfl⟩ | ⟨v, u, reason, -, -, hskip, rfl⟩ |
    ⟨v, u, log, -, -, happly, rfl⟩
  · obtain ⟨v', hv', hallowed⟩ := hallows
    obtain rfl := Except.ok.inj (hv.symm.trans hv')
    exact absurd hallowed hrefused
  · obtain ⟨r, hr⟩ := Option.isSome_iff_exists.1 hstored
    rw [hbody] at hskip
    exact absurd hskip (changeTrigger_ne_skip hr)
  · rw [hbody] at happly
    exact (setTriggerState_trigger happly).1

theorem steps_leftOrFired {sb i : Nat} {p p' : Progress} {ops : List Op}
    (hops : ∀ op ∈ ops, ∃ id, op.body = .setTriggerState id .fired)
    (h : w.steps sb i p ops = .ok p') (id : Uuid) :
    p.tables.LeftOrFired p'.tables.toMemoryTables id := by
  refine steps_induct (P := fun q => p.tables.LeftOrFired q.tables.toMemoryTables id)
    (fun _ q op q' hop hq hstep => ?_) (.inl rfl) h
  obtain ⟨id', hbody⟩ := hops op hop
  have hleft := step_leftOrFired hbody hstep id
  rcases hq with hsame | hfired
  · unfold MemoryTables.LeftOrFired at hleft ⊢
    rwa [hsame] at hleft
  · exact .inr (MemoryTables.HasFired.left hfired hleft)

/-- Every stored trigger of the batch fires. -/
theorem steps_fire (hfew : (editedItems w.ops).card ≤ w.settings.bulkThreshold) {sb i : Nat} {p p' : Progress} {ops : List Op}
    (hops : ∀ op ∈ ops, op.trust = .userStated ∧ ∃ id, op.body = .setTriggerState id .fired)
    (h : w.steps sb i p ops = .ok p') {op : Op} (hop : op ∈ ops) {id : Uuid}
    (hbody : op.body = .setTriggerState id .fired) (hstored : (p.tables.getTrigger id).isSome) :
    p'.tables.HasFired id := by
  induction ops generalizing i p with
  | nil => exact absurd hop List.not_mem_nil
  | cons first ops ih =>
    obtain ⟨p₁, h₁, hsteps⟩ := bind_eq_ok.1 h
    have hrest : ∀ op ∈ ops, op.trust = .userStated ∧ ∃ id, op.body = .setTriggerState id .fired :=
      fun op hop => hops op (List.mem_cons_of_mem _ hop)
    obtain ⟨htrust, id', hbody'⟩ := hops first List.mem_cons_self
    rcases List.mem_cons.1 hop with rfl | hop
    · exact (step_fires hfew hbody htrust hstored h₁).left
        (steps_leftOrFired (fun op hop => (hrest op hop).2) hsteps id)
    · refine ih hrest hsteps hop ?_
      rcases step_leftOrFired hbody' h₁ id with hsame | ⟨r, hr, -⟩
      · rw [hsame]
        exact hstored
      · rw [hr]
        rfl

end Writer

namespace TriggerCheck

variable {c : TriggerCheck} {h : Heard}

/-- A match is a trigger that waits, of an item that is stored. -/
theorem stored_of_mem {t : MemoryTables} {f : Fired} (hf : f ∈ c.matched h t) :
    (t.getItem f.itemId).isSome ∧ (t.getTrigger f.triggerId).isSome := by
  obtain ⟨r, hr, why, hf⟩ : ∃ r, r ∈ t.pendingTriggers momentKinds ∧ ∃ why : String,
      f = { triggerId := r.id, itemId := r.itemId, why := why } := by
    unfold matched at hf
    obtain ⟨r, hr, hfound⟩ := List.mem_filterMap.1 hf
    obtain ⟨why, -, rfl⟩ := Option.map_eq_some_iff.1 hfound
    refine ⟨r, ?_, why, rfl⟩
    rcases List.mem_append.1 hr with hr | hr
    · exact (List.mem_filter.1 hr).1
    · exact (List.mem_filter.1 hr).1
  subst hf
  obtain ⟨hstored, hwaits⟩ := MemoryTables.mem_pendingTriggers.1 hr
  have hactive := (of_decide_eq_true hwaits).2.2
  unfold MemoryTables.isActive at hactive
  refine ⟨?_, by rw [hstored]; rfl⟩
  cases hitem : t.getItem r.itemId with
  | none =>
    rw [hitem] at hactive
    exact (nomatch hactive)
  | some item => rfl

/-- The ops of the triggers that fire. -/
theorem of_mem_ops {t : MemoryTables} {fired : List Fired} {op : Op}
    (hop : op ∈ fired.filterMap (·.op t)) :
    op.trust = .userStated ∧ ∃ id, op.body = .setTriggerState id .fired := by
  obtain ⟨f, -, hfound⟩ := List.mem_filterMap.1 hop
  obtain ⟨item, -, rfl⟩ := Option.map_eq_some_iff.1 hfound
  exact ⟨rfl, f.triggerId, rfl⟩

/-- Firing edits no item. -/
theorem editedItems_ops {t : MemoryTables} {fired : List Fired} :
    editedItems (fired.filterMap (·.op t)) = ∅ := by
  have hnone : (fired.filterMap (·.op t)).filterMap (fun op => op.body.editedItem) = [] := by
    rw [List.filterMap_eq_nil_iff]
    intro op hop
    obtain ⟨-, id, hbody⟩ := of_mem_ops hop
    rw [hbody]
    rfl
  unfold editedItems
  rw [hnone, List.toFinset_nil, Finset.empty_sdiff]

/-- **A check** fires what matches, and leaves the other triggers alone. -/
theorem run_fires {t : Tables} {x : Checked} (hrun : c.run h t = .ok x) :
    x.fired = c.matched h t.toMemoryTables ∧
      (∀ f ∈ x.fired, x.tables.HasFired f.triggerId) ∧
      ∀ id, t.LeftOrFired x.tables.toMemoryTables id := by
  unfold run at hrun
  dsimp only at hrun
  split at hrun
  · rename_i hnone
    cases hrun
    exact ⟨hnone.symm, fun f hf => absurd hf List.not_mem_nil, fun id => .inl rfl⟩
  · obtain ⟨⟨t', res⟩, hcommit, hx⟩ := bind_eq_ok.1 hrun
    cases hx
    have hout : ((c.matched h t.toMemoryTables).filter fun f => (t.getItem f.itemId).isSome) =
        c.matched h t.toMemoryTables := List.filter_eq_self.2 fun f hf => (stored_of_mem hf).1
    rw [hout] at hcommit
    dsimp only
    rw [hout]
    have hfew : (editedItems (h.turn.firing
        ((c.matched h t.toMemoryTables).filterMap (·.op t.toMemoryTables))).ops).card ≤
        h.turn.settings.bulkThreshold := by
      unfold Turn.firing
      rw [editedItems_ops, Finset.card_empty]
      exact Nat.zero_le _
    obtain ⟨p, hparts⟩ := Writer.commit_parts hcommit
    have hbatch := hparts.batch
    unfold Writer.applyAll at hbatch
    split at hbatch
    · rename_i hwhole
      simp only [Writer.heldWhole, decide_eq_true_eq] at hwhole
      exact absurd hwhole.2 (Nat.not_lt.2 hfew)
    · have hsame : ((h.turn.firing ((c.matched h t.toMemoryTables).filterMap
          (·.op t.toMemoryTables))).writeVocab t).toMemoryTables = t.toMemoryTables :=
        Writer.writeVocab_memory t
      have hleft := Writer.steps_leftOrFired (fun op hop => (of_mem_ops hop).2) hbatch
      refine ⟨rfl, fun f hf => ?_, fun id => ?_⟩
      · obtain ⟨item, hitem⟩ := Option.isSome_iff_exists.1 (stored_of_mem hf).1
        have hop : f.op t.toMemoryTables = some
            { title := "reminder: " ++ item.title, rationale := f.why
              body := .setTriggerState f.triggerId .fired } := by
          unfold Fired.op
          rw [hitem]
          rfl
        rw [hparts.memory]
        refine Writer.steps_fire hfew (fun op hop => of_mem_ops hop) hbatch
          (List.mem_filterMap.2 ⟨f, hf, hop⟩) rfl ?_
        rw [hsame]
        exact (stored_of_mem hf).2
      · rw [hparts.memory]
        have hid := hleft id
        rwa [hsame] at hid

end TriggerCheck

/-! ## What a commit keeps -/

/-- No trigger goes. -/
theorem RowStep.trigger_kept {b : Backend} {turn : Uuid} {t t' : Tables} {c : RowChange}
    (h : RowStep b turn t c t') {id : Uuid} (hid : (t.getTrigger id).isSome) :
    (t'.getTrigger id).isSome := by
  cases h with
  | newTrigger =>
    unfold MemoryTables.getTrigger
    rw [KeyTable.isSome_lookup_put]
    exact .inl hid
  | editTrigger _ _ hwritten =>
    unfold Tables.replaceTrigger at hwritten
    split at hwritten
    · cases hwritten
      exact hid
    · obtain ⟨-, rfl⟩ := Tables.statement_eq_ok.1 hwritten
      unfold MemoryTables.getTrigger
      rw [KeyTable.isSome_lookup_put]
      exact .inl hid
  | _ => exact hid

theorem Writer.commit_trigger_kept {w : Writer} {t t' : Tables} {res : CommitResult}
    (h : w.commit t = .ok (t', res)) {id : Uuid} (hid : (t.getTrigger id).isSome) :
    (t'.getTrigger id).isSome := by
  have hwrote := (commit_spec h).wrote
  clear h
  generalize allowedChanges res.rows = cs at hwrote
  induction hwrote with
  | refl => exact hid
  | quiet _ hquiet ih =>
    rw [hquiet.memory]
    exact ih
  | row _ hstep ih => exact hstep.trigger_kept ih

/-! ## Histories -/

/-- A commit of a history, or a check with what it fired. -/
structure Occasion where
  turnId : Uuid
  heard : Option Heard := none
  fired : List Uuid := []
  before : Tables
  after : Tables

/-- A history from `t₀` to the tables it comes to, the newest moment first. -/
inductive Passed (c : TriggerCheck) (t₀ : Tables) : List Occasion → Tables → Prop
  | start : Passed c t₀ [] t₀
  | commit {ms : List Occasion} {w : Writer} {t t' : Tables} {res : CommitResult}
      (h : Passed c t₀ ms t) (done : w.commit t = .ok (t', res)) :
      Passed c t₀ ({ turnId := w.turn.turnId, before := t, after := t' } :: ms) t'
  | check {ms : List Occasion} {t : Tables} (h : Passed c t₀ ms t) (heard : Heard)
      {x : TriggerCheck.Checked} (done : c.run heard t = .ok x) :
      Passed c t₀ ({ turnId := heard.turn.turnId, heard := some heard
                     fired := x.fired.map (·.triggerId), before := t, after := x.tables } :: ms)
        x.tables
  | access {ms : List Occasion} {t : Tables} (h : Passed c t₀ ms t) (at_ : Instant)
      (ids : List Uuid) : Passed c t₀ ms (t.recordAccess at_ ids)
  | resolve {ms : List Occasion} {t : Tables} (h : Passed c t₀ ms t) (id : Uuid)
      (status : HeldStatus) (turnId : Option Uuid) (at_ : Instant) :
      Passed c t₀ ms (t.resolveHeldWrite id status turnId at_)

/-- The states of a memory that is over. -/
def closedStates : List String := ["done", "dropped", "moved", "fulfilled", "superseded"]

/-- **The trigger is due**: its memory is active and open, and another turn made it. -/
def Due (t : MemoryTables) (turnId id : Uuid) : Prop :=
  ∃ r item, t.getTrigger id = some r ∧ t.getItem r.itemId = some item ∧ item.status = .active ∧
    item.state ∉ closedStates ∧ r.createdByTurnId ≠ turnId

/-- The trigger is put back to pending. -/
def Occasion.PutsBack (m : Occasion) (id : Uuid) : Prop :=
  (∃ r, m.before.getTrigger id = some r ∧ r.state ≠ .pending) ∧
    ∃ r, m.after.getTrigger id = some r ∧ r.state = .pending

/-- **A history fires right**: what fires is due, and fires once until it is put back. -/
structure FiresRight (ms : List Occasion) : Prop where
  due : ∀ m ∈ ms, ∀ id ∈ m.fired, Due m.before.toMemoryTables m.turnId id
  nodup : ∀ m ∈ ms, m.fired.Nodup
  once : ∀ newer m mid m' older, ms = newer ++ m :: (mid ++ m' :: older) → ∀ id ∈ m.fired,
    id ∈ m'.fired → ∃ e ∈ mid, e.PutsBack id

/-- Every trigger that waits and matches the message is of an open memory that another turn made. -/
def Occasion.Timely (c : TriggerCheck) (m : Occasion) : Prop :=
  ∀ h, m.heard = some h → ∀ r, c.Matches h m.before.toMemoryTables r →
    r.createdByTurnId ≠ m.turnId ∧
      ∀ item, m.before.getItem r.itemId = some item → item.state ∉ closedStates

namespace Passed

variable {c : TriggerCheck} {t₀ t : Tables} {ms : List Occasion}

/-- A moment that fires something is a check. -/
theorem check_of_mem (h : Passed c t₀ ms t) {m : Occasion} (hm : m ∈ ms) :
    (m.heard = none ∧ m.fired = []) ∨
      ∃ heard x, m.heard = some heard ∧ m.turnId = heard.turn.turnId ∧
        c.run heard m.before = .ok x ∧ m.fired = x.fired.map (·.triggerId) := by
  induction h with
  | start => exact absurd hm List.not_mem_nil
  | commit _ _ ih =>
    rcases List.mem_cons.1 hm with rfl | hm
    · exact .inl ⟨rfl, rfl⟩
    · exact ih hm
  | check _ heard hdone ih =>
    rcases List.mem_cons.1 hm with rfl | hm
    · exact .inr ⟨heard, _, rfl, rfl, hdone, rfl⟩
    · exact ih hm
  | access _ _ _ ih => exact ih hm
  | resolve _ _ _ _ _ ih => exact ih hm

/-- **What fires** is what matches. -/
theorem mem_fired (h : Passed c t₀ ms t) {m : Occasion} (hm : m ∈ ms) {id : Uuid} :
    id ∈ m.fired ↔ ∃ heard, m.heard = some heard ∧
      ∃ r, r.id = id ∧ c.Matches heard m.before.toMemoryTables r := by
  rcases h.check_of_mem hm with ⟨hheard, hfired⟩ | ⟨heard, x, hheard, -, hrun, hfired⟩
  · rw [hfired, hheard]
    simp
  · rw [hfired, hheard, (TriggerCheck.run_fires hrun).1, TriggerCheck.mem_matched]
    simp

/-- Each moment begins where the ones before it end. -/
theorem older (h : Passed c t₀ ms t) {newer rest : List Occasion} {m : Occasion}
    (hms : ms = newer ++ m :: rest) : Passed c t₀ rest m.before := by
  induction h generalizing newer with
  | start => exact absurd hms (by simp)
  | commit hpassed _ ih =>
    cases newer with
    | nil =>
      obtain ⟨rfl, rfl⟩ := List.cons.inj hms
      exact hpassed
    | cons _ newer => exact ih (List.cons.inj hms).2
  | check hpassed _ _ ih =>
    cases newer with
    | nil =>
      obtain ⟨rfl, rfl⟩ := List.cons.inj hms
      exact hpassed
    | cons _ newer => exact ih (List.cons.inj hms).2
  | access _ _ _ ih => exact ih hms
  | resolve _ _ _ _ _ ih => exact ih hms

/-- The trigger is there, and not pending. -/
def Settled (t : MemoryTables) (id : Uuid) : Prop :=
  ∃ r, t.getTrigger id = some r ∧ r.state ≠ .pending

theorem Settled.of_same {t t' : Tables} {id : Uuid} (hsame : SameMemory t t')
    (h : Settled t.toMemoryTables id) : Settled t'.toMemoryTables id := by
  unfold Settled MemoryTables.getTrigger
  rw [hsame.triggers]
  exact h

/-- **What has fired** stays settled until it is put back. -/
theorem settled_or_putBack (h : Passed c t₀ ms t) {mid older : List Occasion} {m' : Occasion}
    (hms : ms = mid ++ m' :: older) {id : Uuid} (hid : id ∈ m'.fired) :
    (∃ e ∈ mid, e.PutsBack id) ∨ Settled t.toMemoryTables id := by
  induction h generalizing mid with
  | start => exact absurd hms (by simp)
  | @commit ms w t t' res hpassed hdone ih =>
    cases mid with
    | nil =>
      obtain ⟨rfl, -⟩ := List.cons.inj hms
      exact absurd hid List.not_mem_nil
    | cons e mid =>
      obtain ⟨rfl, holder⟩ := List.cons.inj hms
      rcases ih holder with ⟨e, he, hback⟩ | ⟨r, hr, hstate⟩
      · exact .inl ⟨e, List.mem_cons_of_mem _ he, hback⟩
      · have hkept : (t'.getTrigger id).isSome = true :=
          Writer.commit_trigger_kept hdone (by rw [hr]; rfl)
        obtain ⟨r', hr'⟩ := Option.isSome_iff_exists.1 hkept
        by_cases hpending : r'.state = .pending
        · exact .inl ⟨_, List.mem_cons_self, ⟨r, hr, hstate⟩, r', hr', hpending⟩
        · exact .inr ⟨r', hr', hpending⟩
  | @check ms t hpassed heard x hdone ih =>
    obtain ⟨-, hfired, hleft⟩ := TriggerCheck.run_fires hdone
    cases mid with
    | nil =>
      obtain ⟨rfl, -⟩ := List.cons.inj hms
      obtain ⟨f, hf, rfl⟩ := List.mem_map.1 hid
      obtain ⟨r, hr, hstate⟩ := hfired f hf
      exact .inr ⟨r, hr, by rw [hstate]; decide⟩
    | cons e mid =>
      obtain ⟨rfl, holder⟩ := List.cons.inj hms
      rcases ih holder with ⟨e, he, hback⟩ | ⟨r, hr, hstate⟩
      · exact .inl ⟨e, List.mem_cons_of_mem _ he, hback⟩
      · rcases hleft id with hsame | ⟨r', hr', hstate'⟩
        · exact .inr ⟨r, hsame.trans hr, hstate⟩
        · exact .inr ⟨r', hr', by rw [hstate']; decide⟩
  | access _ at_ ids ih =>
    exact (ih hms).imp_right fun hs => hs.of_same (sameMemory_recordAccess _ at_ ids)
  | resolve _ held status turnId at_ ih =>
    exact (ih hms).imp_right fun hs => hs.of_same (sameMemory_resolveHeldWrite _ held status turnId at_)

/-- **A trigger fires once** until it is put back. -/
theorem fires_once (h : Passed c t₀ ms t) {newer mid older : List Occasion} {m m' : Occasion}
    (hms : ms = newer ++ m :: (mid ++ m' :: older)) {id : Uuid} (hid : id ∈ m.fired)
    (hid' : id ∈ m'.fired) : ∃ e ∈ mid, e.PutsBack id := by
  refine ((h.older hms).settled_or_putBack rfl hid').resolve_right ?_
  rintro ⟨r, hr, hstate⟩
  have hm : m ∈ ms := by
    rw [hms]
    exact List.mem_append_right _ List.mem_cons_self
  obtain ⟨heard, -, r', rfl, hpending, -⟩ := (h.mem_fired hm).1 hid
  obtain ⟨hstored, hwaits⟩ := MemoryTables.mem_pendingTriggers.1 hpending
  obtain rfl := Option.some.inj (hr.symm.trans hstored)
  exact hstate (of_decide_eq_true hwaits).1

theorem nodup_fired (h : Passed c t₀ ms t) {m : Occasion} (hm : m ∈ ms) : m.fired.Nodup := by
  rcases h.check_of_mem hm with ⟨-, hfired⟩ | ⟨heard, x, -, -, hrun, hfired⟩
  · rw [hfired]
    exact List.nodup_nil
  · rw [hfired, (TriggerCheck.run_fires hrun).1]
    exact TriggerCheck.nodup_matched

end Passed

/-- **Triggers fire right** in a history exactly when every trigger that matches at a check is of a
memory that is still open, and was made by another turn. -/
theorem fires_right_iff {c : TriggerCheck} {me : Uuid} {ms : List Occasion} {t : Tables}
    (h : Passed c (.initial me) ms t) : FiresRight ms ↔ ∀ m ∈ ms, m.Timely c := by
  constructor
  · intro hright m hm heard hheard r hmatches
    obtain ⟨r', item, hr', hitem, -, hopen, hturn⟩ :=
      hright.due m hm r.id ((h.mem_fired hm).2 ⟨heard, hheard, r, rfl, hmatches⟩)
    have hstored := (MemoryTables.mem_pendingTriggers.1 hmatches.1).1
    obtain rfl := Option.some.inj (hstored.symm.trans hr')
    refine ⟨hturn, fun item' hitem' => ?_⟩
    obtain rfl := Option.some.inj (hitem.symm.trans hitem')
    exact hopen
  · intro htimely
    refine ⟨fun m hm id hid => ?_, fun m hm => h.nodup_fired hm,
      fun newer m mid m' older hms id hid hid' => h.fires_once hms hid hid'⟩
    obtain ⟨heard, hheard, r, rfl, hmatches⟩ := (h.mem_fired hm).1 hid
    obtain ⟨hturn, hopen⟩ := htimely m hm heard hheard r hmatches
    obtain ⟨hstored, hwaits⟩ := MemoryTables.mem_pendingTriggers.1 hmatches.1
    have hactive := (of_decide_eq_true hwaits).2.2
    unfold MemoryTables.isActive at hactive
    rw [Option.any_eq_true] at hactive
    obtain ⟨item, hitem, hstatus⟩ := hactive
    exact ⟨r, item, hstored, hitem, of_decide_eq_true hstatus, hopen item hitem, hturn⟩

/-! ## A task for a person -/

/-- "Next time I talk to Nisha, ask about her interview." -/
def asksNisha : Writer where
  backend := .sql
  turn := { turnId := 1, now := 1 }
  ops :=
    [{ body := .upsertEntity 5 { kind := .person, name := "nisha" } true },
      { body := .createItem 10
          { kind := .task, state := "open", text := "Ask Nisha about her interview."
            title := "Ask Nisha", mentionedAt := 1 } []
          [{ triggerId := 20
             trigger :=
               { on := .person
                 spec := objectOf [("entity_id", .str "00000000000000000000000000000005"),
                   ("name", .str "nisha")] } }] none none }]

def asked : Tables := committed asksNisha (Tables.initial 0)

/-- The user has asked her. -/
def askedNisha : Writer where
  backend := .sql
  turn := { turnId := 2, now := 2 }
  ops := [{ body := .setItemState 10 "done" }]

def nishaCheck : TriggerCheck where
  threshold := 3 / 5
  cosine := fun _ _ => 0
  shown := fun _ => ""
  lib := plainText
  contentHash := id

/-- A turn in which Nisha is mentioned. -/
def nishaCalled (turnId : Uuid) : Heard where
  turn := { plainTurn "nisha called" {} with turnId := turnId }

/-- **A task that is done** is announced when the person comes up. -/
theorem done_task_fires :
    ∃ ms t, Passed nishaCheck (.initial 0) ms t ∧ ¬ FiresRight ms := by
  have h₁ : asksNisha.commit (Tables.initial 0) = .ok (asked, _) := rfl
  have h₂ : askedNisha.commit asked = .ok (committed askedNisha asked, _) := rfl
  have hchecked : (∃ x ∈ (nishaCheck.run (nishaCalled 3) (committed askedNisha asked)).toOption,
      20 ∈ x.fired.map (·.triggerId)) ∧
      (∃ r ∈ (committed askedNisha asked).getTrigger 20, r.itemId = 10) ∧
      ∃ item ∈ (committed askedNisha asked).getItem 10, item.state ∈ closedStates := by
    decide +kernel
  obtain ⟨⟨x, hx, hfired⟩, ⟨r, hr, hid⟩, item, hitem, hclosed⟩ := hchecked
  refine ⟨_, _, ((Passed.start.commit h₁).commit h₂).check (nishaCalled 3) (of_mem_toOption hx),
    fun hright => ?_⟩
  obtain ⟨r', item', hr', hitem', -, hopen, -⟩ := hright.due _ List.mem_cons_self 20 hfired
  obtain rfl : r = r' := Option.some.inj (Eq.trans hr.symm hr')
  rw [hid] at hitem'
  obtain rfl : item = item' := Option.some.inj (Eq.trans hitem.symm hitem')
  exact hopen hclosed

/-- The task is announced once when Nisha comes up, and then no more. -/
theorem open_task_fires_once :
    ∃ ms t, Passed nishaCheck (.initial 0) ms t ∧ FiresRight ms ∧
      ms.map (·.fired) = [[], [20], []] := by
  have h₁ : asksNisha.commit (Tables.initial 0) = .ok (asked, _) := rfl
  have hchecked : ∃ x ∈ (nishaCheck.run (nishaCalled 2) asked).toOption,
      x.fired.map (·.triggerId) = [20] ∧
        ∃ y ∈ (nishaCheck.run (nishaCalled 3) x.tables).toOption,
          y.fired.map (·.triggerId) = [] ∧
            x.tables.pendingTriggers TriggerCheck.momentKinds = [] := by
    decide +kernel
  have hopen : ∀ r ∈ asked.pendingTriggers TriggerCheck.momentKinds, r.createdByTurnId = 1 ∧
      ∀ item ∈ asked.getItem r.itemId, item.state ∉ closedStates := by
    decide +kernel
  obtain ⟨x, hx, hfired, y, hy, hquiet, hnone⟩ := hchecked
  have hpassed := ((Passed.start.commit h₁).check (nishaCalled 2) (of_mem_toOption hx)).check
    (nishaCalled 3) (of_mem_toOption hy)
  refine ⟨_, _, hpassed, (fires_right_iff hpassed).2 ?_, ?_⟩
  · intro m hm
    rcases List.mem_cons.1 hm with rfl | hm
    · rintro _ - r ⟨hr, -⟩
      rw [hnone] at hr
      exact absurd hr List.not_mem_nil
    · rcases List.mem_cons.1 hm with rfl | hm
      · rintro _ - r ⟨hr, -⟩
        obtain ⟨hmade, hstate⟩ := hopen r hr
        have hother : (1 : Uuid) ≠ 2 := by decide
        refine ⟨?_, hstate⟩
        rw [hmade]
        exact hother
      · obtain rfl := List.mem_singleton.1 hm
        exact fun _ hheard => (nomatch hheard)
  · simp only [List.map_cons, List.map_nil, hfired, hquiet]

end SecondMind
