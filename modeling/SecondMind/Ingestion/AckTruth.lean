import SecondMind.Ingestion.Ack
import SecondMind.Ingestion.SaveRows

/-!
# What the acknowledgement says

`ingestion/ack.py`, on the commits of a writer: the reply is compared with what was written.

* `Truthful` — every new item is said once, nothing that was refused is said to be done, and nothing
  is said to be unwritten where something was written;
* `truthful_iff` — when the reply is so.
-/

namespace SecondMind

namespace Ack

variable {f : AckFacts} {o : OpOutcome}

/-! ## What lines say -/

/-- The op does nothing but ask for an item to be in core. -/
def asksCoreOnly : OpBody → Bool
  | .updateItem _ changes => changes = { inCore := some true }
  | _ => false

/-- The line of an op says that it was done: that its item is saved or changed.  That an item is
saved and not in core says so of every op that does more than to ask for core. -/
def saysDone (e : OpOutcome × AckLine) : Bool :=
  match e.2 with
  | .saved .. | .moved .. | .updated .. | .marked .. | .addedToCore .. | .addedDetail .. => true
  | .coreFull .. => !asksCoreOnly e.1.op.body
  | _ => false

/-- A line that says a new item. -/
def saysNew : AckLine → Bool
  | .saved .. | .moved .. | .updated .. => true
  | _ => false

/-- The item that an op makes, or by which it replaces another. -/
def newItemOf : OpBody → Option Uuid
  | .createItem itemId .. => some itemId
  | .supersedeItem _ newId .. => some newId
  | _ => none

/-- The line of an op reports a new item: it is the line of the op that makes it, or of one that
replaces another by it. -/
def reports (id : Uuid) (e : OpOutcome × AckLine) : Bool :=
  saysNew e.2 && newItemOf e.1.op.body = some id

/-- The reply says that nothing was written, or that there was nothing new. -/
def SaysNothing (f : AckFacts) : Prop := lines f = [] ∨ .refusal ∈ lines f

/-- **The reply tells what was written.** -/
structure Truthful (f : AckFacts) : Prop where
  once : ∀ o ∈ f.commit.outcomes, ∀ id ∈ o.created, (outcomeLines f).countP (reports id) = 1
  honest : ∀ e ∈ outcomeLines f, e.1.applied = false → saysDone e = false
  nothing : SaysNothing f → ∀ o ∈ f.commit.outcomes, o.applied = false

/-! ## When they are true -/

/-- An op that is said in any reply. -/
def speaks (f : AckFacts) (o : OpOutcome) : Bool :=
  if o.applied then
    match o.op.body with
    | .createItem .. => true
    | .supersedeItem _ newId .. => (f.commit.itemAfter newId).isSome
    | .fulfilIntention .. => true
    | .updateItem _ changes => changes.inCore = some true || f.reconciled o.op
    | _ => false
  else decide (o.verdict.decision = .held) || decide (o.verdict.ruleId ≠ "NOT-APPLICABLE")

/-- The outcomes that have lines of their own. -/
def said (f : AckFacts) : List OpOutcome := f.commit.outcomes.filter fun o => !saidBySupersede f o

/-- A new item replaces one other item at most; core is full for ops only that ask for nothing else;
and where an op was applied, no secret is refused and there is something to say. -/
structure Sayable (f : AckFacts) : Prop where
  once : ∀ o ∈ f.commit.outcomes, ∀ id ∈ o.created,
    f.commit.outcomes.countP (·.replacing = some id) ≤ 1
  core : ∀ o ∈ said f, o.verdict.decision = .blocked → o.verdict.ruleId = "CORE-BUDGET" →
    asksCoreOnly o.op.body = true
  plain : (∃ o ∈ f.commit.outcomes, o.applied = true) →
    (∀ o ∈ said f, o.verdict.decision = .blocked → o.verdict.ruleId ≠ "P-SECRET-1") ∧
      ((∃ o ∈ said f, speaks f o = true) ∨ otherLines f ≠ [])

/-! ## The rows of the ops -/

/-- The first row of an op that was applied is that of its item. -/
def FirstRow (o : OpOutcome) : Prop :=
  match o.op.body with
  | .createItem itemId .. =>
    ∃ row rest, o.rows = row :: rest ∧ row.isItem ∧ row.targetId = itemId ∧ row.itemAfter.isSome
  | .supersedeItem .. => ∃ row rest, o.rows = row :: rest ∧ row.isItem ∧ row.itemBefore.isSome
  | .fulfilIntention .. => ∃ row rest, o.rows = row :: rest ∧ row.isItem ∧ row.itemAfter.isSome
  | _ => True

end Ack

namespace Writer

variable {w : Writer} {t t' : Tables} {log log' : RowLog}

theorem attachNew_rows {record : ItemRecord} {links : List EntityLink}
    (h : w.attachNew record t log links = .ok (t', log')) :
    ∃ more, log'.rows = log.rows ++ more := by
  induction links generalizing t log with
  | nil =>
    cases h
    exact ⟨[], (List.append_nil _).symm⟩
  | cons link links ih =>
    unfold attachNew at h
    split at h
    · cases h
    · obtain ⟨t₁, -, h⟩ := bind_eq_ok.1 h
      obtain ⟨more, hmore⟩ := ih h
      rw [hmore]
      exact ⟨_ :: more, List.append_assoc _ [_] more⟩

theorem triggerNew_rows {record : ItemRecord} {news : List NewTrigger}
    (h : w.triggerNew record t log news = .ok (t', log')) :
    ∃ more, log'.rows = log.rows ++ more := by
  induction news generalizing t log with
  | nil =>
    cases h
    exact ⟨[], (List.append_nil _).symm⟩
  | cons new news ih =>
    obtain ⟨t₁, -, h⟩ := bind_eq_ok.1 h
    obtain ⟨more, hmore⟩ := ih h
    rw [hmore]
    exact ⟨_ :: more, List.append_assoc _ [_] more⟩

/-- The first row of a new item. -/
theorem createItem_rows {i : Nat} {itemId : Uuid} {item : ItemContent} {entities : List EntityLink}
    {triggers : List NewTrigger} {slug name : Option String}
    (h : w.createItem t i log itemId item entities triggers slug name = .ok (t', log')) :
    ∃ (record : ItemRecord) (more : List WriteLogRecord), record.id = itemId ∧
      log'.rows = (w.add log .item record.id none (some record) record.layer).rows ++ more := by
  obtain ⟨record, hnew, h⟩ := bind_eq_ok.1 h
  have hid : record.id = itemId := (newItem_eq_ok (run_eq_ok.1 hnew)).2.2.1
  split at h
  · cases h
  · obtain ⟨t₁, -, h⟩ := bind_eq_ok.1 h
    obtain ⟨⟨t₂, log₂⟩, hattach, h⟩ := bind_eq_ok.1 h
    obtain ⟨more, hmore⟩ := attachNew_rows hattach
    obtain ⟨more', hmore'⟩ := triggerNew_rows h
    refine ⟨record, more ++ more', hid, ?_⟩
    rw [hmore', hmore, List.append_assoc]

/-- The rows of an item that is changed and linked. -/
theorem changeAndLink_rows {old new : ItemRecord} {changes : ItemChanges} {linkId : Uuid}
    {linkType : LinkType}
    (h : w.changeAndLink t log old new changes linkId linkType = .ok (t', log')) :
    ∃ (after : ItemRecord) (more : List WriteLogRecord),
      log'.rows = (w.add log .item old.id (some old) (some after) old.layer).rows ++ more := by
  obtain ⟨after, -, h⟩ := bind_eq_ok.1 h
  obtain ⟨t₁, -, h⟩ := bind_eq_ok.1 h
  obtain ⟨t₂, -, h⟩ := bind_eq_ok.1 h
  cases h
  exact ⟨after, [_], rfl⟩

/-- **The first row** of an op that is applied. -/
theorem apply_firstRow {i : Nat} {op : Op} {v : PolicyVerdict} (hlog : log.rows = [])
    (h : w.apply t i log op.body = .ok (t', log')) : Ack.FirstRow ⟨op, v, log'.rows, none⟩ := by
  unfold Ack.FirstRow
  dsimp only
  cases hbody : op.body with
  | createItem itemId item entities triggers slug name =>
    rw [hbody] at h
    obtain ⟨record, more, hid, hrows⟩ := createItem_rows h
    exact ⟨_, more, by rw [hrows, add, hlog]; rfl, rfl, hid, rfl⟩
  | supersedeItem oldId newId linkId validTo state =>
    rw [hbody] at h
    obtain ⟨old, new, -, -, -, hchange⟩ := supersede_eq_ok.1 h
    obtain ⟨after, more, hrows⟩ := changeAndLink_rows hchange
    exact ⟨_, more, by rw [hrows, add, hlog]; rfl, rfl, rfl⟩
  | fulfilIntention intentionId episodeId linkId state =>
    rw [hbody] at h
    obtain ⟨old, new, -, -, -, hchange⟩ := fulfil_eq_ok.1 h
    obtain ⟨after, more, hrows⟩ := changeAndLink_rows hchange
    exact ⟨_, more, by rw [hrows, add, hlog]; rfl, rfl, rfl⟩
  | _ => trivial

/-! ## The outcomes of a commit -/

/-- What the outcomes of a batch are: every op that was applied logged its item first, and no item
was made twice. -/
structure Told (os : List OpOutcome) : Prop where
  firstRow : ∀ o ∈ os, o.applied = true → Ack.FirstRow o
  distinct : (os.filterMap (·.created)).Nodup

/-- The items that were made are stored. -/
def MadeStored (p : Progress) : Prop :=
  ∀ id ∈ p.outcomes.filterMap (·.created), (p.tables.getItem id).isSome

theorem Told.of_refused {os : List OpOutcome} {o : OpOutcome} (h : Told os)
    (ho : o.applied = false) : Told (os ++ [o]) where
  firstRow o' ho' happlied := by
    rcases List.mem_append.1 ho' with ho' | ho'
    · exact h.firstRow o' ho' happlied
    · rw [List.mem_singleton.1 ho', ho] at happlied
      cases happlied
  distinct := by
    have hnone : o.created = none := if_neg (by rw [ho]; decide)
    rw [List.filterMap_append, List.filterMap_cons_none hnone, List.filterMap_nil, List.append_nil]
    exact h.distinct

theorem created_of_refused {os : List OpOutcome} {o : OpOutcome} (ho : o.applied = false) :
    (os ++ [o]).filterMap (·.created) = os.filterMap (·.created) := by
  have hnone : o.created = none := if_neg (by rw [ho]; decide)
  rw [List.filterMap_append, List.filterMap_cons_none hnone, List.filterMap_nil, List.append_nil]

/-- A step makes no item that is there. -/
theorem step_told {sb i : Nat} {p p' : Progress} {op : Op} (h : w.step sb i p op = .ok p')
    (htold : Told p.outcomes) (hstored : MadeStored p) : Told p'.outcomes ∧ MadeStored p' := by
  rcases step_cases h with ⟨v, -, hv, rfl⟩ | ⟨v, u, reason, -, -, hskip, rfl⟩ |
    ⟨v, u, log, -, hv, happly, rfl⟩
  · obtain ⟨row, heldId, held, -, -, -, heq⟩ := w.refuse_eq sb i p op hv
    have happlied : (OpOutcome.mk op v [row] heldId).applied = false := decide_eq_false hv
    rw [heq]
    refine ⟨htold.of_refused happlied, ?_⟩
    unfold MadeStored
    rw [created_of_refused happlied]
    exact hstored
  · have happlied : (OpOutcome.mk op (notApplicable reason) [] none).applied = false := rfl
    refine ⟨htold.of_refused happlied, ?_⟩
    unfold MadeStored
    dsimp only
    rw [created_of_refused happlied, (apply_skip hskip).memory]
    exact hstored
  · have happlied : (OpOutcome.mk op v log.rows none).applied = true := decide_eq_true hv
    have hcreated : (OpOutcome.mk op v log.rows none).created = op.body.createdItem :=
      if_pos happlied
    have hgrown : ∀ id, (p.tables.getItem id).isSome ∨ op.body.createdItem = some id →
        (u.getItem id).isSome := fun id => (apply_items happly id).2
    refine ⟨⟨fun o ho hyes => ?_, ?_⟩, fun id hid => ?_⟩
    · rcases List.mem_append.1 ho with ho | ho
      · exact htold.firstRow o ho hyes
      · rw [List.mem_singleton.1 ho]
        exact apply_firstRow rfl happly
    · rw [List.filterMap_append]
      refine List.nodup_append.2 ⟨htold.distinct, ?_, fun a ha b hb => ?_⟩
      · cases hmade : op.body.createdItem with
        | none =>
          rw [List.filterMap_cons_none (hcreated.trans hmade)]
          exact List.nodup_nil
        | some id =>
          rw [List.filterMap_cons_some (hcreated.trans hmade)]
          exact List.nodup_singleton _
      · rintro rfl
        obtain ⟨o, ho, hmade⟩ := List.mem_filterMap.1 hb
        rw [List.mem_singleton.1 ho, hcreated] at hmade
        have hfree : p.tables.getItem a = none := by
          cases hbody : op.body with
          | createItem itemId item entities triggers slug name =>
            rw [hbody] at hmade happly
            cases hmade
            obtain ⟨record, -, hfree, -⟩ := createItem_frame happly
            exact hfree
          | _ =>
            rw [hbody] at hmade
            cases hmade
        have hthere := hstored a ha
        rw [hfree] at hthere
        cases hthere
    · rw [List.filterMap_append, List.mem_append] at hid
      rcases hid with hid | hid
      · exact hgrown id (.inl (hstored id hid))
      · obtain ⟨o, ho, hmade⟩ := List.mem_filterMap.1 hid
        rw [List.mem_singleton.1 ho, hcreated] at hmade
        exact hgrown id (.inr hmade)

/-- **The outcomes of a commit.** -/
theorem commit_told {r : CommitResult} (h : w.commit t = .ok (t', r)) : Told r.outcomes := by
  obtain ⟨p, hp⟩ := commit_parts h
  have hbatch := hp.batch
  rw [hp.result]
  show Told p.outcomes
  unfold applyAll at hbatch
  split at hbatch
  · cases hbatch
    have hrefused : ∀ o ∈ (w.holdEverything (w.seqBase t) (w.writeVocab t)).outcomes,
        o.applied = false := by
      intro o ho
      obtain ⟨e, -, rfl⟩ := List.mem_map.1 ho
      rfl
    refine ⟨fun o ho happlied => ?_, ?_⟩
    · rw [hrefused o ho] at happlied
      cases happlied
    · have hnone : ((w.holdEverything (w.seqBase t) (w.writeVocab t)).outcomes.filterMap
          (·.created)) = [] := by
        refine List.filterMap_eq_nil_iff.2 fun o ho => if_neg ?_
        rw [hrefused o ho]
        decide
      rw [hnone]
      exact List.nodup_nil
  · refine (steps_induct (P := fun q => Told q.outcomes ∧ MadeStored q)
      (fun i q op q' _ hq hstep => step_told hstep hq.1 hq.2) ⟨⟨?_, ?_⟩, ?_⟩ hbatch).1
    · exact fun o ho => absurd ho List.not_mem_nil
    · exact List.nodup_nil
    · exact fun id hid => absurd hid List.not_mem_nil

end Writer

/-- An item that has a row has a snapshot. -/
theorem CommitResult.isSome_itemAfter {r : CommitResult} {row : WriteLogRecord} {id : Uuid}
    (hrow : row ∈ r.rows) (hid : row.targetId = id) (hafter : row.itemAfter.isSome) :
    (r.itemAfter id).isSome := by
  obtain ⟨item, hitem⟩ := Option.isSome_iff_exists.1 hafter
  unfold CommitResult.itemAfter
  rw [List.getLast?_isSome]
  refine List.ne_nil_of_mem (List.mem_filterMap.2 ⟨row, ?_, hitem⟩)
  exact List.mem_filter.2 ⟨hrow, decide_eq_true hid⟩

namespace Ack

variable {f : AckFacts} {o : OpOutcome} {id : Uuid}

/-! ## The line of an outcome -/

theorem isSome_refusedLine (i : Nat) (ho : o.applied = false) :
    (refusedLine f i o).isSome = speaks f o := by
  have hno : ¬ o.applied = true := by rw [ho]; decide
  unfold refusedLine speaks
  rw [if_neg hno]
  by_cases hheld : o.verdict.decision = .held
  · simp [hheld]
  · rw [if_neg hheld]
    by_cases hnot : o.verdict.ruleId = "NOT-APPLICABLE"
    · simp [hheld, hnot]
    · rw [decide_eq_false hheld, decide_eq_true hnot]
      split
      · rfl
      · split
        · rfl
        · split
          · rfl
          · rfl

/-- A new item that was made has a snapshot. -/
theorem isSome_itemAfter (htold : Writer.Told f.commit.outcomes) (ho : o ∈ f.commit.outcomes)
    (hid : o.created = some id) : (f.commit.itemAfter id).isSome := by
  have happlied : o.applied = true := by
    by_contra hno
    rw [OpOutcome.created, if_neg hno] at hid
    cases hid
  rw [OpOutcome.created, if_pos happlied] at hid
  have hfirst := htold.firstRow o ho happlied
  unfold FirstRow at hfirst
  cases hbody : o.op.body with
  | createItem itemId item entities triggers slug name =>
    rw [hbody] at hid hfirst
    cases hid
    obtain ⟨row, rest, hrows, -, htarget, hafter⟩ := hfirst
    refine CommitResult.isSome_itemAfter (List.mem_flatMap.2 ⟨o, ho, ?_⟩) htarget hafter
    rw [hrows]
    exact List.mem_cons_self
  | _ =>
    rw [hbody] at hid
    cases hid

theorem isSome_appliedLine (htold : Writer.Told f.commit.outcomes) (ho : o ∈ f.commit.outcomes)
    (happlied : o.applied = true) : (appliedLine f o).isSome = speaks f o := by
  have hfirst := htold.firstRow o ho happlied
  unfold FirstRow at hfirst
  unfold appliedLine speaks
  rw [if_pos happlied]
  cases hbody : o.op.body with
  | createItem itemId item entities triggers slug name =>
    have hcreated : o.created = some itemId := by
      rw [OpOutcome.created, if_pos happlied, hbody]
      rfl
    dsimp only
    rw [Option.isSome_map]
    exact isSome_itemAfter htold ho hcreated
  | supersedeItem oldId newId linkId validTo state =>
    rw [hbody] at hfirst
    obtain ⟨row, rest, hrows, hitem, hbefore⟩ := hfirst
    obtain ⟨old, hold⟩ := Option.isSome_iff_exists.1 hbefore
    dsimp only
    rw [hrows, List.find?_cons_of_pos hitem, Option.bind_some, hold]
    cases f.commit.itemAfter newId with
    | none => rfl
    | some new => rfl
  | fulfilIntention intentionId episodeId linkId state =>
    rw [hbody] at hfirst
    obtain ⟨row, rest, hrows, hitem, hafter⟩ := hfirst
    dsimp only
    rw [hrows, List.find?_cons_of_pos hitem, Option.bind_some, Option.isSome_map]
    exact hafter
  | updateItem itemId changes =>
    dsimp only
    by_cases hcore : changes.inCore = some true
    · simp [hcore]
    · by_cases hreconciled : f.reconciled o.op = true
      · simp [hcore, hreconciled]
      · simp [hcore, hreconciled]
  | _ => rfl

/-- **A line is there** for an op that speaks. -/
theorem isSome_lineOf (htold : Writer.Told f.commit.outcomes) (ho : o ∈ f.commit.outcomes)
    (i : Nat) : (lineOf f i o).isSome = speaks f o := by
  unfold lineOf
  split
  · rename_i happlied
    exact isSome_appliedLine htold ho happlied
  · rename_i hno
    exact isSome_refusedLine i (Bool.eq_false_of_not_eq_true hno)

/-! ## Reports -/

/-- The ops whose lines report a new item. -/
def isReporter (id : Uuid) (o : OpOutcome) : Bool := o.created = some id ∨ o.replacing = some id

theorem saysNew_refusedLine (i : Nat) : (refusedLine f i o).any saysNew = false := by
  unfold refusedLine
  split
  · rfl
  · split
    · rfl
    · split
      · rfl
      · split
        · rfl
        · split
          · rfl
          · rfl

/-- The line of an op reports what it makes, or by which it replaces another item. -/
theorem reports_lineOf (htold : Writer.Told f.commit.outcomes) (ho : o ∈ f.commit.outcomes)
    (hid : (f.commit.itemAfter id).isSome) (i : Nat) :
    (lineOf f i o).any (reports id ⟨o, ·⟩) = isReporter id o := by
  unfold lineOf isReporter
  split
  · rename_i happlied
    have hfirst := htold.firstRow o ho happlied
    unfold FirstRow at hfirst
    unfold appliedLine OpOutcome.created OpOutcome.replacing reports
    cases hbody : o.op.body with
    | createItem itemId item entities triggers slug name =>
      have hcreated : o.created = some itemId := by
        rw [OpOutcome.created, if_pos happlied, hbody]
        rfl
      obtain ⟨record, hrecord⟩ :=
        Option.isSome_iff_exists.1 (isSome_itemAfter htold ho hcreated)
      have hnew : newItemOf o.op.body = some itemId := by
        rw [hbody]
        rfl
      simp [happlied, hrecord, saysNew, OpBody.createdItem, hnew]
    | supersedeItem oldId newId linkId validTo state =>
      rw [hbody] at hfirst
      obtain ⟨row, rest, hrows, hitem, hbefore⟩ := hfirst
      obtain ⟨old, hold⟩ := Option.isSome_iff_exists.1 hbefore
      have hnewItem : newItemOf o.op.body = some newId := by
        rw [hbody]
        rfl
      dsimp only
      rw [hrows, List.find?_cons_of_pos hitem, Option.bind_some, hold]
      by_cases hnew : newId = id
      · obtain ⟨new, hnewAfter⟩ := Option.isSome_iff_exists.1 hid
        subst hnew
        by_cases hplan : old.kind = .plan
        · simp [happlied, hnewAfter, hnewItem, saysNew, hplan]
        · simp [happlied, hnewAfter, hnewItem, saysNew, hplan]
      · simp [happlied, hnew, hnewItem, OpBody.createdItem]
    | _ =>
      have hnone : newItemOf o.op.body = none := by
        rw [hbody]
        rfl
      simp [hnone, OpBody.createdItem]
  · rename_i hno
    have hnew := saysNew_refusedLine (f := f) (o := o) i
    have hnone : o.created = none := if_neg hno
    have hreplaces : o.replacing = none := by
      unfold OpOutcome.replacing
      split
      · exact if_neg hno
      · rfl
    rw [hnone, hreplaces]
    cases hline : refusedLine f i o with
    | none => rfl
    | some line =>
      have hsays : saysNew line = false := by rwa [hline] at hnew
      rw [Option.any_some, reports, hsays]
      rfl

/-- Lines are counted through their ops. -/
theorem countP_linesFrom {p : OpOutcome × AckLine → Bool} {q : OpOutcome → Bool}
    {os : List OpOutcome} (h : ∀ o ∈ os, ∀ i, (lineOf f i o).any (p ⟨o, ·⟩) = q o) (i : Nat) :
    (linesFrom f i os).countP p = os.countP fun o => !saidBySupersede f o && q o := by
  induction os generalizing i with
  | nil => rfl
  | cons o os ih =>
    rw [linesFrom, List.countP_append, ih fun o ho => h o (List.mem_cons_of_mem _ ho),
      List.countP_cons, Nat.add_comm]
    congr 1
    by_cases hsaid : saidBySupersede f o = true
    · simp [hsaid]
    · have hq := h o List.mem_cons_self i
      cases hline : lineOf f i o with
      | none =>
        rw [hline] at hq
        simp [hsaid, ← hq]
      | some line =>
        rw [hline] at hq
        simp [hsaid, ← hq, List.countP_singleton]

/-- **How often a new item is said**: once, or once for each item that it replaces. -/
theorem count_reports (htold : Writer.Told f.commit.outcomes) (ho : o ∈ f.commit.outcomes)
    (hid : o.created = some id) : (outcomeLines f).countP (reports id) =
      if id ∈ f.commit.outcomes.filterMap (·.replacing) then
        f.commit.outcomes.countP (·.replacing = some id)
      else 1 := by
  have hafter := isSome_itemAfter htold ho hid
  rw [outcomeLines, countP_linesFrom fun o ho i => reports_lineOf htold ho hafter i]
  have hmade : ∀ o : OpOutcome, o.created = some id → o.op.body.createdItem = some id := by
    intro o hcreated
    unfold OpOutcome.created at hcreated
    split at hcreated
    · exact hcreated
    · cases hcreated
  have hreplaces : ∀ o : OpOutcome, o.replacing = some id → o.op.body.createdItem = none := by
    intro o hreplacing
    unfold OpOutcome.replacing at hreplacing
    split at hreplacing
    · rename_i hbody
      rw [hbody]
      rfl
    · cases hreplacing
  split
  · rename_i hreplaced
    refine List.countP_congr fun o _ => ?_
    by_cases hreplacing : o.replacing = some id
    · simp [saidBySupersede, isReporter, hreplaces o hreplacing, hreplacing]
    · by_cases hcreated : o.created = some id
      · have hsaid : saidBySupersede f o = true := by
          rw [saidBySupersede, hmade o hcreated]
          exact decide_eq_true hreplaced
        simp [hsaid, hreplacing]
      · simp [isReporter, hreplacing, hcreated]
  · rename_i hnot
    have hcount : f.commit.outcomes.countP (fun o => !saidBySupersede f o && isReporter id o) =
        f.commit.outcomes.countP (fun o => o.created == some id) := by
      refine List.countP_congr fun o ho => ?_
      have hreplacing : o.replacing ≠ some id := fun heq =>
        hnot (List.mem_filterMap.2 ⟨o, ho, heq⟩)
      by_cases hcreated : o.created = some id
      · have hsaid : saidBySupersede f o = false := by
          rw [saidBySupersede, hmade o hcreated]
          exact decide_eq_false hnot
        simp [hsaid, isReporter, hcreated]
      · simp [isReporter, hreplacing, hcreated]
    rw [hcount, ← List.count_filterMap]
    exact List.count_eq_one_of_mem htold.distinct (List.mem_filterMap.2 ⟨o, ho, hid⟩)

/-! ## The lines of a commit -/

theorem mem_linesFrom {os : List OpOutcome} {i : Nat} {e : OpOutcome × AckLine} :
    e ∈ linesFrom f i os → ∃ j, e.1 ∈ os ∧ saidBySupersede f e.1 = false ∧
      lineOf f j e.1 = some e.2 := by
  induction os generalizing i with
  | nil =>
    intro h
    cases h
  | cons o os ih =>
    intro h
    rw [linesFrom, List.mem_append] at h
    rcases h with h | h
    · split at h
      · cases h
      · rename_i hsaid
        obtain ⟨line, hline, rfl⟩ := List.mem_map.1 h
        exact ⟨i, List.mem_cons_self, Bool.eq_false_of_not_eq_true hsaid,
          Option.mem_toList.1 hline⟩
    · obtain ⟨j, hmem, hsaid, hline⟩ := ih h
      exact ⟨j, List.mem_cons_of_mem _ hmem, hsaid, hline⟩

/-- An outcome that has a line of its own has one of the reply. -/
theorem exists_mem_linesFrom {os : List OpOutcome} (i : Nat) (ho : o ∈ os)
    (hsaid : saidBySupersede f o = false) :
    ∃ j, ∀ line, lineOf f j o = some line → (o, line) ∈ linesFrom f i os := by
  induction os generalizing i with
  | nil => cases ho
  | cons first os ih =>
    rcases List.mem_cons.1 ho with rfl | ho
    · refine ⟨i, fun line hline => ?_⟩
      rw [linesFrom, hsaid, hline]
      exact List.mem_append_left _ (List.mem_singleton_self _)
    · obtain ⟨j, hj⟩ := ih (i + 1) ho
      exact ⟨j, fun line hline => List.mem_append_right _ (hj line hline)⟩

theorem mem_said : o ∈ said f ↔ o ∈ f.commit.outcomes ∧ saidBySupersede f o = false := by
  rw [said, List.mem_filter, Bool.not_eq_true']

/-- There is a line if and only if an op speaks. -/
theorem outcomeLines_ne_nil_iff (htold : Writer.Told f.commit.outcomes) :
    outcomeLines f ≠ [] ↔ ∃ o ∈ said f, speaks f o = true := by
  constructor
  · intro h
    obtain ⟨e, he⟩ := List.exists_mem_of_ne_nil _ h
    obtain ⟨j, hmem, hsaid, hline⟩ := mem_linesFrom he
    refine ⟨e.1, mem_said.2 ⟨hmem, hsaid⟩, ?_⟩
    rw [← isSome_lineOf htold hmem j, hline]
    rfl
  · rintro ⟨o, ho, hspeaks⟩
    obtain ⟨hmem, hsaid⟩ := mem_said.1 ho
    obtain ⟨j, hj⟩ := exists_mem_linesFrom 0 hmem hsaid
    rw [← isSome_lineOf htold hmem j] at hspeaks
    obtain ⟨line, hline⟩ := Option.isSome_iff_exists.1 hspeaks
    exact List.ne_nil_of_mem (hj line hline)

/-- What the line of an op that was refused says. -/
theorem refusedLine_eq_refusal (i : Nat) : refusedLine f i o = some .refusal ↔
    o.verdict.decision ≠ .held ∧ o.verdict.ruleId = "P-SECRET-1" := by
  unfold refusedLine
  by_cases hheld : o.verdict.decision = .held
  · simp [hheld]
  · by_cases hsecret : o.verdict.ruleId = "P-SECRET-1"
    · simp [hheld, hsecret]
    · rw [if_neg hheld, if_neg hsecret]
      split
      · simp [hsecret]
      · split
        · simp [hsecret]
        · split
          · simp [hsecret]
          · simp [hsecret]

/-- It says that the op was done if and only if core is full. -/
theorem refusedLine_saysDone (i : Nat) :
    (refusedLine f i o).any (saysDone ⟨o, ·⟩) = true ↔ o.verdict.decision ≠ .held ∧
      o.verdict.ruleId = "CORE-BUDGET" ∧ asksCoreOnly o.op.body = false := by
  unfold refusedLine
  by_cases hheld : o.verdict.decision = .held
  · simp [hheld, saysDone]
  · rw [if_neg hheld]
    by_cases hcore : o.verdict.ruleId = "CORE-BUDGET"
    · simp [hheld, hcore, saysDone]
    · split
      · simp [hcore, saysDone]
      · split
        · simp [hcore, saysDone]
        · split
          · simp [hcore]
          · simp [hcore, saysDone]

theorem appliedLine_ne_refusal : appliedLine f o ≠ some .refusal := by
  unfold appliedLine
  split
  · simp
  · intro h
    obtain ⟨old, -, h⟩ := Option.bind_eq_some_iff.1 h
    obtain ⟨new, -, h⟩ := Option.bind_eq_some_iff.1 h
    split at h
    · cases h
    · cases h
  · intro h
    obtain ⟨intention, -, heq⟩ := Option.map_eq_some_iff.1 h
    cases heq
  · split
    · simp
    · split
      · simp
      · simp
  · simp

theorem blocked_iff : o.verdict.decision = .blocked ↔
    o.applied = false ∧ o.verdict.decision ≠ .held := by
  unfold OpOutcome.applied
  cases o.verdict.decision <;> simp

/-! ## The reply -/

theorem refusal_notMem_otherLines : AckLine.refusal ∉ otherLines f := by
  intro h
  rcases List.mem_append.1 h with h | h
  · rcases List.mem_append.1 h with h | h
    · rcases List.mem_append.1 h with h | h
      · obtain ⟨note, -, heq⟩ := List.mem_map.1 h
        split at heq
        · cases heq
        · cases heq
      · obtain ⟨mention, -, heq⟩ := List.mem_map.1 h
        cases heq
    · obtain ⟨t, -, heq⟩ := List.mem_map.1 h
      cases heq
  · obtain ⟨expression, -, heq⟩ := List.mem_map.1 h
    cases heq

/-- A secret is refused in the reply if and only if one was. -/
theorem refusal_mem_lines_iff : .refusal ∈ lines f ↔
    ∃ o ∈ said f, o.verdict.decision = .blocked ∧ o.verdict.ruleId = "P-SECRET-1" := by
  rw [lines, List.mem_append, or_iff_left refusal_notMem_otherLines]
  constructor
  · intro h
    obtain ⟨e, he, hrefusal⟩ := List.mem_map.1 h
    obtain ⟨j, hmem, hsaid, hline⟩ := mem_linesFrom he
    rw [hrefusal] at hline
    unfold lineOf at hline
    split at hline
    · exact absurd hline appliedLine_ne_refusal
    · rename_i hno
      obtain ⟨hheld, hsecret⟩ := (refusedLine_eq_refusal j).1 hline
      exact ⟨e.1, mem_said.2 ⟨hmem, hsaid⟩,
        blocked_iff.2 ⟨Bool.eq_false_of_not_eq_true hno, hheld⟩, hsecret⟩
  · rintro ⟨o, ho, hblocked, hsecret⟩
    obtain ⟨hmem, hsaid⟩ := mem_said.1 ho
    obtain ⟨hno, hheld⟩ := blocked_iff.1 hblocked
    obtain ⟨j, hj⟩ := exists_mem_linesFrom 0 hmem hsaid
    refine List.mem_map.2 ⟨(o, .refusal), hj _ ?_, rfl⟩
    unfold lineOf
    rw [if_neg (by rw [hno]; decide)]
    exact (refusedLine_eq_refusal j).2 ⟨hheld, hsecret⟩

/-- The reply says nothing of what was written. -/
theorem saysNothing_iff (htold : Writer.Told f.commit.outcomes) : SaysNothing f ↔
    ((∀ o ∈ said f, speaks f o = false) ∧ otherLines f = []) ∨
      ∃ o ∈ said f, o.verdict.decision = .blocked ∧ o.verdict.ruleId = "P-SECRET-1" := by
  rw [SaysNothing, refusal_mem_lines_iff, lines, List.append_eq_nil_iff, List.map_eq_nil_iff]
  refine or_congr (and_congr_left fun _ => ?_) Iff.rfl
  rw [← not_iff_not, ← ne_eq, outcomeLines_ne_nil_iff htold]
  simp

/-- **The reply is true** if and only if a new item replaces one other item at most, core is full
only for ops that ask for nothing else, and where something was written no secret is refused and
there is something to say. -/
theorem truthful_iff {w : Writer} {t t' : Tables} {f : AckFacts}
    (h : w.commit t = .ok (t', f.commit)) : Truthful f ↔ Sayable f := by
  have htold := Writer.commit_told h
  have honce : (∀ o ∈ f.commit.outcomes, ∀ id ∈ o.created,
      (outcomeLines f).countP (reports id) = 1) ↔
      ∀ o ∈ f.commit.outcomes, ∀ id ∈ o.created,
        f.commit.outcomes.countP (·.replacing = some id) ≤ 1 := by
    refine forall₂_congr fun o ho => forall₂_congr fun id hid => ?_
    rw [count_reports htold ho hid]
    split
    · rename_i hreplaced
      obtain ⟨o', ho', heq⟩ := List.mem_filterMap.1 hreplaced
      have hpos : 0 < f.commit.outcomes.countP (·.replacing = some id) :=
        List.countP_pos_iff.2 ⟨o', ho', decide_eq_true heq⟩
      omega
    · rename_i hnot
      have hzero : f.commit.outcomes.countP (·.replacing = some id) = 0 :=
        List.countP_eq_zero.2 fun o' ho' heq =>
          hnot (List.mem_filterMap.2 ⟨o', ho', of_decide_eq_true heq⟩)
      omega
  have hhonest : (∀ e ∈ outcomeLines f, e.1.applied = false → saysDone e = false) ↔
      ∀ o ∈ said f, o.verdict.decision = .blocked → o.verdict.ruleId = "CORE-BUDGET" →
        asksCoreOnly o.op.body = true := by
    constructor
    · intro hlines o ho hblocked hcore
      obtain ⟨hmem, hsaid⟩ := mem_said.1 ho
      obtain ⟨hno, hheld⟩ := blocked_iff.1 hblocked
      obtain ⟨j, hj⟩ := exists_mem_linesFrom 0 hmem hsaid
      by_contra hasks
      have hdone := (refusedLine_saysDone (f := f) j).2
        ⟨hheld, hcore, Bool.eq_false_of_not_eq_true hasks⟩
      obtain ⟨line, hline, hsays⟩ := (Option.any_eq_true _ _).1 hdone
      have hof : lineOf f j o = some line := by
        unfold lineOf
        rw [if_neg (by rw [hno]; decide)]
        exact hline
      rw [hlines (o, line) (hj line hof) hno] at hsays
      cases hsays
    · rintro hasks e he hno
      obtain ⟨j, hmem, hsaid, hline⟩ := mem_linesFrom he
      by_contra hdone
      unfold lineOf at hline
      rw [if_neg (by rw [hno]; decide)] at hline
      obtain ⟨hheld, hcore, hmore⟩ := (refusedLine_saysDone j).1
        ((Option.any_eq_true _ _).2 ⟨e.2, hline, Bool.eq_true_of_not_eq_false hdone⟩)
      rw [hasks e.1 (mem_said.2 ⟨hmem, hsaid⟩) (blocked_iff.2 ⟨hno, hheld⟩) hcore] at hmore
      cases hmore
  have hnothing : (SaysNothing f → ∀ o ∈ f.commit.outcomes, o.applied = false) ↔
      ((∃ o ∈ f.commit.outcomes, o.applied = true) →
        (∀ o ∈ said f, o.verdict.decision = .blocked → o.verdict.ruleId ≠ "P-SECRET-1") ∧
          ((∃ o ∈ said f, speaks f o = true) ∨ otherLines f ≠ [])) := by
    rw [saysNothing_iff htold, ← not_imp_not]
    refine imp_congr (by simp) ?_
    rw [not_or, not_and_or, and_comm]
    refine and_congr ?_ ?_
    · simp
    · simp
  exact ⟨fun htrue => ⟨honce.1 htrue.once, hhonest.1 htrue.honest, hnothing.1 htrue.nothing⟩,
    fun hsay => ⟨honce.2 hsay.once, hhonest.2 hsay.core, hnothing.2 hsay.plain⟩⟩

/-! ## A secret in a message with more in it -/

/-- "Nisha likes tea." -/
def likesTea : Op where
  title := "Nisha likes tea"
  body := .createItem 10
    { kind := .fact, state := "current", text := "Nisha likes tea.", title := "Nisha likes tea"
      mentionedAt := 1 } [] [] none none

/-- A message that is saved. -/
def saying (ops : List Op) : Writer where
  backend := .sql
  turn := { turnId := 1, now := 1 }
  ops := ops

/-- The password in it. -/
def password : Op where
  title := "a secret (not shown)"
  rationale := "secret"
  body := .createItem 11
    { kind := .fact, state := "current", text := "[redacted secret]", title := "a secret (not shown)"
      mentionedAt := 1, sensitivity := .secret } [] [] none none

/-- **"Nothing was written"** is said of a message of which a fact was saved. -/
theorem nothing_was_written : ∃ t r,
    (saying [likesTea, password]).commit (Tables.initial 0) = .ok (t, r) ∧
      ¬ Truthful { commit := r } := by
  refine ⟨_, _, rfl, fun h => ?_⟩
  have hrefused := h.nothing (.inr (refusal_mem_lines_iff.2 (by decide +kernel)))
  revert hrefused
  decide +kernel

/-- Of a message with a fact only the reply is true. -/
theorem tea_is_told : ∃ t r,
    (saying [likesTea]).commit (Tables.initial 0) = .ok (t, r) ∧ Truthful { commit := r } := by
  refine ⟨_, _, rfl, (truthful_iff (w := saying [likesTea]) (t := Tables.initial 0) rfl).2
    ⟨?_, ?_, fun _ => ⟨?_, .inl ?_⟩⟩⟩
  · decide +kernel
  · decide +kernel
  · decide +kernel
  · decide +kernel

end Ack

end SecondMind
