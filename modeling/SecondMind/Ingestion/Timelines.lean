import SecondMind.Ingestion.PastStatements
import SecondMind.Memory.CorePrompt

/-!
# Timelines

The item that a draft replaces ends where the draft starts, or now if the draft does not say.  No
one looks at where the item itself starts, or whether the draft has ended already.

* `ItemContent.Spanned`, `ItemContent.ValidAt` — the time a value holds;
* `Timelines` — values end after they start, and before what comes after them starts;
* `Save.KeepsTime` — the condition on a save: what it replaces has started, and something holds now;
* `timelines_kept` — every run of such saves keeps the timelines;
* `ended_before_it_began` — a home told in the other order.
-/

namespace SecondMind

open Keyed Reconciler

/-! ## Values in time -/

/-- A value that has both bounds does not end before it starts. -/
def ItemContent.Spanned (c : ItemContent) : Prop := ∀ v ∈ c.validFrom, ∀ e ∈ c.validTo, v ≤ e

/-- A value holds at a moment; without a bound it has always held, or it has no end. -/
def ItemContent.ValidAt (c : ItemContent) (m : Instant) : Prop :=
  (∀ v ∈ c.validFrom, v ≤ m) ∧ ∀ e ∈ c.validTo, m < e

instance (c : ItemContent) : Decidable c.Spanned := by
  unfold ItemContent.Spanned; infer_instance

instance (c : ItemContent) (m : Instant) : Decidable (c.ValidAt m) := by
  unfold ItemContent.ValidAt; infer_instance

/-- A value ends where it was replaced: not before it starts, and not after the new one does. -/
structure Succeeds (old new : ItemContent) : Prop where
  ended : old.validTo ≠ none
  started : old.Spanned
  before : ∀ e ∈ old.validTo, ∀ v ∈ new.validFrom, e ≤ v

/-- The item was replaced by the other one. -/
structure Superseded (t : MemoryTables) (row : LinkRecord) (old new : ItemRecord) : Prop where
  type : row.linkType = .supersedes
  dst : t.getItem row.dstItemId = some old
  src : t.getItem row.srcItemId = some new

/-- **The timelines of a store.** -/
structure Timelines (t : MemoryTables) : Prop where
  spanned : ∀ id r, t.getItem id = some r → r.Spanned
  chained : ∀ row ∈ t.links.rows, row.linkType = .supersedes →
    ∃ old new, Superseded t row old new ∧ Succeeds old.toItemContent new.toItemContent

/-- After a commit, what was replaced in it or what replaced it holds. -/
def Commit.Covered (c : Commit) : Prop :=
  ∀ row ∈ c.after.links.rows, row ∉ c.before.links.rows → row.linkType = .supersedes →
    ∃ old new, Superseded c.after.toMemoryTables row old new ∧
      (old.ValidAt c.writer.turn.now ∨ new.ValidAt c.writer.turn.now)

/-! ## The condition on a save -/

/-- Where a draft ends what it replaces. -/
def IngestContext.closing (ctx : IngestContext) (draft : Draft) : Instant :=
  draft.content.validFrom.getD ctx.now

/-- A plan ends the item: its draft replaces it, its own item is made, and the policy lets the op
in where the batch comes to it and finds the item open. -/
structure Save.Ends (s : Save) (w : Writer) (t : Tables) (plans : List DecidedPlan)
    (old : ItemRecord) (n : Nat) (q : DecidedPlan) : Prop where
  planned : plans[n]? = some q
  replaces : s.reconciler.Replaces t.toMemoryTables q.draft old
  admitted : q.Admitted
  comes : ∃ pre op u r, op ∈ q.changeOps s.lib s.ctx n ∧ w.ComesTo t pre op u ∧ w.Allows u op ∧
    u.getItem old.id = some r ∧ r.validTo = none

/-- **A save keeps time**: the values it states end after they start, an item is replaced where it
has started, and either what replaces it holds now, or it is yet to come and the item holds till
then. -/
structure Save.KeepsTime (s : Save) (w : Writer) (t : Tables) (plans : List DecidedPlan) :
    Prop where
  spanned : ∀ q ∈ plans, (∀ old, ¬ s.reconciler.TakenFor t.toMemoryTables q.draft old) →
    q.Admitted → q.draft.content.Spanned
  started : ∀ old n q, s.Ends w t plans old n q →
    ∀ v ∈ old.validFrom, v ≤ s.ctx.closing q.draft
  covered : ∀ old n q, s.Ends w t plans old n q → q.draft.content.ValidAt s.ctx.now ∨
    (∃ v ∈ q.draft.content.validFrom, s.ctx.now < v) ∧ ∀ v ∈ old.validFrom, v ≤ s.ctx.now

/-! ## What one op does to the bounds -/

section

variable {s : Save} {t : Tables} {w : Writer} {plans : List DecidedPlan}

/-- The op is the one by which a plan ends the item. -/
structure Save.EndingOp (s : Save) (plans : List DecidedPlan) (op : Op) (id : Uuid) (n : Nat)
    (q : DecidedPlan) : Prop where
  planned : plans[n]? = some q
  decision : q.decision.decision = .supersede
  candidate : ∃ c ∈ q.decision.candidate, c.id = id
  mem : op ∈ q.changeOps s.lib s.ctx n

/-- The bounds of a stored item after an op: the start stays, and so does the end unless a plan
ends the item. -/
theorem apply_bounds {op : Op} (hop : s.OpOf plans op) {u u' : Tables} {i : Nat}
    {log log' : Writer.RowLog} (h : w.apply u i log op.body = .ok (u', log')) {id : Uuid}
    {r : ItemRecord} (hr : u.getItem id = some r) :
    ∃ r', u'.getItem id = some r' ∧ r'.validFrom = r.validFrom ∧
      (r'.validTo = r.validTo ∨ r.validTo = none ∧ ∃ n q, s.EndingOp plans op id n q ∧
        r'.validTo = some (s.ctx.closing q.draft)) := by
  have hstart : ∀ r', u'.getItem id = some r' → r'.validFrom = r.validFrom := by
    intro r' hr'
    obtain ⟨r₂, hr₂, hrest⟩ := Writer.apply_has hop.light h (.of_getItem hr)
    obtain rfl : r₂ = r' := Option.some.inj (hr₂.symm.trans hr')
    have hfrom : r₂.rest.validFrom = r.rest.validFrom := congrArg ItemContent.validFrom hrest
    exact hfrom
  rcases Writer.getItem_edit hop.light h hr with hsame | ⟨htarget, hcreate, hedit⟩
  · exact ⟨r, hsame, rfl, .inl rfl⟩
  · refine ⟨_, hedit, hstart _ hedit, ?_⟩
    rw [(Writer.keepAccess_span u _).2.2, (w.edited_span r _).2.2]
    cases hop.spans with
    | @closes n q c linkId validTo state planned decision candidate mem body =>
      right
      obtain ⟨linkId', state', hbody⟩ := changeOps_supersede decision candidate mem
      rw [hbody] at h htarget ⊢
      obtain ⟨-, rfl⟩ := Prod.mk.inj htarget
      obtain ⟨old, new, hold, -, hopen, -⟩ := Writer.supersede_eq_ok.1 h
      obtain rfl : old = r := Option.some.inj ((Writer.liveItem_eq_ok.1 hold).1.symm.trans hr)
      exact ⟨hopen.1, n, q, ⟨planned, decision, ⟨c, candidate, rfl⟩, mem⟩, rfl⟩
    | fulfils body =>
      left
      rw [body]
      rfl
    | leaves state validTo =>
      left
      rw [validTo]
      rfl

/-- An item that is there only after an op has the bounds of the draft it is made of. -/
theorem apply_made (hw : s.writer t.toMemoryTables = .ok w)
    (hplans : s.decidedPlans t.toMemoryTables = .ok plans) {op : Op} (hmem : op ∈ w.ops)
    {u u' : Tables} (hallows : w.Allows u op) {i : Nat} {log log' : Writer.RowLog}
    (h : w.apply u i log op.body = .ok (u', log')) {id : Uuid} {r : ItemRecord}
    (hnone : u.getItem id = none) (hr : u'.getItem id = some r) :
    ∃ (n : Nat) (q : DecidedPlan), plans[n]? = some q ∧ q.merged = none ∧ q.Admitted ∧
      q.draft.itemId = id ∧ r.validFrom = q.draft.content.validFrom ∧ r.validTo = q.draft.content.validTo := by
  obtain ⟨huser, -⟩ := Save.writer_makes hw hplans
  have hcreated : op.body.createdItem = some id := by
    have hsome : (u'.getItem id).isSome := by rw [hr]; rfl
    refine ((Writer.apply_items h id).1 hsome).resolve_left ?_
    rw [hnone]
    exact Bool.false_ne_true
  rcases Save.createdItem_cases hw hplans hmem hcreated with rfl | ⟨n, q, hq, hmerged, rfl, rfl⟩
  · exact absurd hallows Save.secretOp_not_allowed
  · refine ⟨n, q, hq, hmerged, (Save.allows_create_iff huser hplans hq).1 hallows, rfl, ?_⟩
    obtain ⟨record, hnew, -, put, -, -⟩ := Writer.createItem_frame h
    obtain ⟨-, rfl⟩ := Writer.newItem_eq_ok_iff.1 hnew
    have hself : u'.getItem q.draft.itemId = some (w.newRecord q.draft.itemId q.draft.content
        (w.category u i q.draft.content q.categorySlug none).2) := by
      rw [MemoryTables.getItem, put]
      exact KeyTable.lookup_put_self _ _
    obtain rfl := Option.some.inj (hself.symm.trans hr)
    unfold Writer.newRecord Writer.newContent
    split <;> split <;> exact ⟨rfl, rfl⟩

/-- The only links of a save that replace an item come with the op that ends it. -/
theorem link_ends {op : Op} (hop : s.OpOf plans op) {row : LinkRecord}
    (hrow : row ∈ w.newLinks op.body) (htype : row.linkType = .supersedes) :
    ∃ n q, s.EndingOp plans op row.dstItemId n q ∧ row.srcItemId = q.draft.itemId := by
  cases hop with
  | entity named upsert eq =>
    rw [eq] at hrow
    exact absurd hrow List.not_mem_nil
  | create planned apart eq =>
    rw [eq] at hrow
    exact absurd hrow List.not_mem_nil
  | @change n q planned mem =>
    have hmem := mem
    unfold DecidedPlan.changeOps at hmem
    split at hmem
    · exact absurd hmem List.not_mem_nil
    · rename_i c hcandidate
      dsimp only at hmem
      split at hmem
      · rename_i hdecision
        rw [List.mem_singleton.1 hmem] at hrow
        obtain rfl := List.mem_singleton.1 hrow
        exact ⟨n, q, ⟨planned, hdecision, ⟨c, hcandidate, rfl⟩, mem⟩, rfl⟩
      · rw [List.mem_singleton.1 hmem] at hrow
        obtain rfl := List.mem_singleton.1 hrow
        cases htype
      · rw [List.mem_singleton.1 hmem] at hrow
        obtain rfl := List.mem_singleton.1 hrow
        cases htype
      · unfold DecidedPlan.detailOps at hmem
        dsimp only at hmem
        split at hmem
        · exact absurd hmem List.not_mem_nil
        · rw [List.mem_singleton.1 hmem] at hrow
          exact absurd hrow List.not_mem_nil
      · exact absurd hmem List.not_mem_nil
      · exact absurd hmem List.not_mem_nil
  | link planned mem =>
    obtain ⟨i, l, src, dst, -, -, -, -, rfl⟩ := Save.mem_linkOps.1 mem
    obtain rfl := List.mem_singleton.1 hrow
    -- a model proposes no link of this type
    replace htype : l.type.1 = .supersedes := htype
    have hlabel := l.type.2
    rw [htype] at hlabel
    simp at hlabel
  | relation mem eq =>
    obtain ⟨i, src, dst, slug, evidence, hbody, -⟩ := Save.mem_relations mem
    rw [eq, hbody] at hrow
    exact absurd hrow List.not_mem_nil
  | promotion planned apart mem =>
    unfold DecidedPlan.promotionOps at mem
    split at mem
    · rw [List.mem_singleton.1 mem] at hrow
      exact absurd hrow List.not_mem_nil
    · exact absurd mem List.not_mem_nil
  | secret eq =>
    rw [eq] at hrow
    exact absurd hrow List.not_mem_nil

end

/-! ## What holds during a batch -/

/-- A row that says that an item was replaced, with what holds of it: one of this batch comes from
a new item, and something holds now. -/
def Save.Chained (s : Save) (t u : MemoryTables) (row : LinkRecord) : Prop :=
  ∃ old new, Superseded u row old new ∧ Succeeds old.toItemContent new.toItemContent ∧
    (row ∉ t.links.rows → t.getItem row.srcItemId = none ∧
      (old.ValidAt s.ctx.now ∨ new.ValidAt s.ctx.now))

/-- **What holds of the timelines while a batch runs** from `t`. -/
structure Save.Timed (s : Save) (t : MemoryTables) (plans : List DecidedPlan) (u : MemoryTables) :
    Prop where
  spanned : ∀ id r, u.getItem id = some r → r.Spanned
  made : ∀ (n : Nat) (q : DecidedPlan) r, plans[n]? = some q →
    u.getItem q.draft.itemId = some r → r.validFrom = q.draft.content.validFrom ∧ r.validTo = q.draft.content.validTo
  chained : ∀ row ∈ u.links.rows, row.linkType = .supersedes → s.Chained t u row

section

variable {s : Save} {t : Tables} {w : Writer} {plans : List DecidedPlan}
variable (hvalid : ValidExtraction s.lib.lib s.extraction)
  (hw : s.writer t.toMemoryTables = .ok w)
  (hplans : s.decidedPlans t.toMemoryTables = .ok plans) (hnew : s.NewIds t.toMemoryTables)
include hplans

omit hplans in
/-- What an item that is ended is: one of the store as it was. -/
theorem Save.EndingOp.stored (hplans : s.decidedPlans t.toMemoryTables = .ok plans) {op : Op}
    {id : Uuid} {n : Nat} {q : DecidedPlan} (h : s.EndingOp plans op id n q) :
    ∃ c, t.getItem id = some c ∧ s.reconciler.Replaces t.toMemoryTables q.draft c := by
  obtain ⟨c, hc, rfl⟩ := h.candidate
  obtain ⟨m, -, -, hdecided⟩ := Save.planned hplans h.planned
  have hdecision := h.decision
  rw [hdecided] at hc hdecision
  exact ⟨c, (decide_candidate hc).1, replaces_iff.2 ⟨hdecision, hc⟩⟩

include hnew in
/-- The id of a plan is new. -/
theorem Save.fresh_of_planned {n : Nat} {q : DecidedPlan} (hq : plans[n]? = some q) :
    t.getItem q.draft.itemId = none := by
  obtain ⟨m, -, hplanned, -⟩ := Save.planned hplans hq
  rw [hplanned.itemId]
  exact hnew.items _

include hvalid hw hnew

/-- The op that ends an item ends one of the store, of which the condition on the save speaks. -/
theorem Save.EndingOp.ends {pre : List Op} {op : Op} {u u' : Tables} (hcomes : w.ComesTo t pre op u)
    (hallows : w.Allows u op) {i : Nat} {log log' : Writer.RowLog}
    (h : w.apply u i log op.body = .ok (u', log')) {id : Uuid} {r : ItemRecord}
    (hr : u.getItem id = some r) (hopen : r.validTo = none) {n : Nat} {q : DecidedPlan}
    (hend : s.EndingOp plans op id n q) :
    ∃ c, c.validFrom = r.validFrom ∧ s.Ends w t plans c n q := by
  obtain ⟨c, hc, hreplaces⟩ := hend.stored hplans
  obtain rfl : c.id = id := KeyTable.key_of_lookup hc
  obtain ⟨r', hr', hrest⟩ := hcomes.has hw (.of_getItem hc)
  obtain rfl : r = r' := Option.some.inj (hr.symm.trans hr')
  have hfrom : r.rest.validFrom = c.rest.validFrom := congrArg ItemContent.validFrom hrest
  refine ⟨c, hfrom.symm, hend.planned, hreplaces, ?_, pre, op, u, r, hend.mem, hcomes, hallows, hr,
    hopen⟩
  obtain ⟨c', hcandidate, -⟩ := hend.candidate
  obtain ⟨linkId, state, hbody⟩ := changeOps_supersede hend.decision hcandidate hend.mem
  rw [hbody] at h
  obtain ⟨old, new, -, hlive, -⟩ := Writer.supersede_eq_ok.1 h
  refine Save.admitted_of_stored hvalid hw hplans hnew hcomes hend.planned ?_
  rw [(Writer.liveItem_eq_ok.1 hlive).1]
  rfl

variable {pre : List Op} {op : Op} {u u' : Tables} {i : Nat} {log log' : Writer.RowLog}

omit hvalid hw hnew in
/-- An item that the batch made keeps its bounds. -/
theorem made_kept (hop : s.OpOf plans op) (h : w.apply u i log op.body = .ok (u', log')) {id : Uuid}
    (hnone : t.getItem id = none) {r : ItemRecord} (hr : u.getItem id = some r) :
    ∃ r', u'.getItem id = some r' ∧ r'.validFrom = r.validFrom ∧ r'.validTo = r.validTo := by
  obtain ⟨r', hr', hfrom, hto | ⟨-, n, q, hend, -⟩⟩ := apply_bounds hop h hr
  · exact ⟨r', hr', hfrom, hto⟩
  · obtain ⟨c, hc, -⟩ := hend.stored hplans
    rw [hnone] at hc
    cases hc

/-- **Values end after they start**, also the one that the op ends. -/
theorem Save.Timed.apply_spanned (hkeeps : s.KeepsTime w t plans)
    (htimed : s.Timed t.toMemoryTables plans u.toMemoryTables) (hop : s.OpOf plans op)
    (hcomes : w.ComesTo t pre op u) (hallows : w.Allows u op)
    (h : w.apply u i log op.body = .ok (u', log')) {id : Uuid} {r' : ItemRecord}
    (hr' : u'.getItem id = some r') : r'.Spanned := by
  cases hr : u.getItem id with
  | none =>
    obtain ⟨n, q, hq, hmerged, hadmitted, -, hfrom, hto⟩ :=
      apply_made hw hplans (hcomes.mem_ops (.inr rfl)) hallows h hr hr'
    obtain ⟨m, -, -, hdecided⟩ := Save.planned hplans hq
    have hspanned := hkeeps.spanned q (List.mem_of_getElem? hq)
      ((DecidedPlan.merged_eq_none_iff hdecided).1 hmerged) hadmitted
    unfold ItemContent.Spanned at hspanned ⊢
    rwa [hfrom, hto]
  | some r =>
    obtain ⟨r₂, hr₂, hfrom, hcases⟩ := apply_bounds hop h hr
    obtain rfl : r₂ = r' := Option.some.inj (hr₂.symm.trans hr')
    rcases hcases with hto | ⟨hopen, n, q, hend, hclosed⟩
    · have hspanned := htimed.spanned id r hr
      unfold ItemContent.Spanned at hspanned ⊢
      rwa [hfrom, hto]
    · obtain ⟨c, hstart, hends⟩ := hend.ends hvalid hw hplans hnew hcomes hallows h hr hopen
      intro v hv e he
      rw [hclosed, Option.mem_some_iff] at he
      rw [hfrom, ← hstart] at hv
      exact he ▸ hkeeps.started c n q hends v hv

omit hvalid in
/-- **The items of the plans** have the bounds of their drafts. -/
theorem Save.Timed.apply_made (htimed : s.Timed t.toMemoryTables plans u.toMemoryTables)
    (hop : s.OpOf plans op) (hcomes : w.ComesTo t pre op u) (hallows : w.Allows u op)
    (h : w.apply u i log op.body = .ok (u', log')) {n : Nat} {q : DecidedPlan} {r' : ItemRecord}
    (hq : plans[n]? = some q) (hr' : u'.getItem q.draft.itemId = some r') :
    r'.validFrom = q.draft.content.validFrom ∧ r'.validTo = q.draft.content.validTo := by
  cases hr : u.getItem q.draft.itemId with
  | none =>
    obtain ⟨n', q', hq', -, -, hid, hbounds⟩ :=
      SecondMind.apply_made hw hplans (hcomes.mem_ops (.inr rfl)) hallows h hr hr'
    obtain ⟨m, -, hplanned, -⟩ := Save.planned hplans hq
    obtain ⟨m', -, hplanned', -⟩ := Save.planned hplans hq'
    rw [hplanned.itemId, hplanned'.itemId] at hid
    obtain rfl : n' = n := IdFor.item.inj (hnew.injective hid)
    rw [hq] at hq'
    cases hq'
    exact hbounds
  | some r =>
    obtain ⟨r₂, hr₂, hfrom, hto⟩ :=
      made_kept hplans hop h (Save.fresh_of_planned hplans hnew hq) hr
    obtain rfl : r₂ = r' := Option.some.inj (hr₂.symm.trans hr')
    rw [hfrom, hto]
    exact htimed.made n q r hq hr

omit hvalid hw hnew in
/-- A row that was there says of its items what it said. -/
theorem Save.Chained.apply (hop : s.OpOf plans op) (h : w.apply u i log op.body = .ok (u', log'))
    {row : LinkRecord} (hrow : s.Chained t.toMemoryTables u.toMemoryTables row) :
    s.Chained t.toMemoryTables u'.toMemoryTables row := by
  obtain ⟨old, new, ⟨htype, hdst, hsrc⟩, ⟨hended, hstarted, hbefore⟩, hcovered⟩ := hrow
  obtain ⟨old', hold', hfrom, hcases⟩ := apply_bounds hop h hdst
  -- what has ended is not ended again
  have hto : old'.validTo = old.validTo := hcases.resolve_right fun ⟨hopen, _⟩ => hended hopen
  obtain ⟨new', hnew', hstart, -⟩ := apply_bounds hop h hsrc
  refine ⟨old', new', ⟨htype, hold', hnew'⟩, ⟨by rwa [hto], ?_, ?_⟩, fun hlate => ?_⟩
  · unfold ItemContent.Spanned at hstarted ⊢
    rwa [hfrom, hto]
  · rwa [hto, hstart]
  · obtain ⟨hnone, hholds⟩ := hcovered hlate
    obtain ⟨new₂, hnew₂, hfrom₂, hto₂⟩ := made_kept hplans hop h hnone hsrc
    obtain rfl : new₂ = new' := Option.some.inj (hnew₂.symm.trans hnew')
    refine ⟨hnone, hholds.imp (fun hv => ?_) fun hv => ?_⟩
    · unfold ItemContent.ValidAt at hv ⊢
      rwa [hfrom, hto]
    · unfold ItemContent.ValidAt at hv ⊢
      rwa [hfrom₂, hto₂]

/-- **The row of an item that the op ends.** -/
theorem Save.Timed.ends_chained (hkeeps : s.KeepsTime w t plans)
    (htimed : s.Timed t.toMemoryTables plans u.toMemoryTables) (hop : s.OpOf plans op)
    (hcomes : w.ComesTo t pre op u) (hallows : w.Allows u op)
    (h : w.apply u i log op.body = .ok (u', log')) {row : LinkRecord}
    (htype : row.linkType = .supersedes) {n : Nat} {q : DecidedPlan}
    (hend : s.EndingOp plans op row.dstItemId n q) (hsrc : row.srcItemId = q.draft.itemId) :
    s.Chained t.toMemoryTables u'.toMemoryTables row := by
  obtain ⟨c₀, hcandidate, hid₀⟩ := hend.candidate
  obtain ⟨linkId, state, hbody⟩ := changeOps_supersede hend.decision hcandidate hend.mem
  rw [hid₀] at hbody
  have hfree := Save.fresh_of_planned hplans hnew hend.planned
  have happlied := h
  rw [hbody] at happlied
  obtain ⟨old, new, hold, hnewLive, hopen, -⟩ := Writer.supersede_eq_ok.1 happlied
  have holdStored := (Writer.liveItem_eq_ok.1 hold).1
  have hnewStored := (Writer.liveItem_eq_ok.1 hnewLive).1
  obtain ⟨hnewFrom, hnewTo⟩ := htimed.made n q new hend.planned hnewStored
  -- the item has ended where the draft says
  obtain ⟨old', hold', hfrom, hcases⟩ := apply_bounds hop h holdStored
  have hto : old'.validTo = some (s.ctx.closing q.draft) := by
    rcases hcases with hsame | ⟨-, n', q', hend', hto⟩
    · obtain ⟨r, hr, hshut⟩ := Writer.supersede_shuts happlied
      obtain rfl : r = old' := Option.some.inj (hr.symm.trans hold')
      exact absurd (hsame.trans hopen.1) hshut
    · obtain ⟨c', hc', -⟩ := hend'.candidate
      obtain ⟨linkId', state', hbody'⟩ := changeOps_supersede hend'.decision hc' hend'.mem
      rw [hbody] at hbody'
      injection hbody' with _ _ _ hclosing
      rw [hto]
      exact congrArg some hclosing.symm
  obtain ⟨new', hnew', hstart, hnewEnd⟩ := made_kept hplans hop h hfree hnewStored
  obtain ⟨c, hcFrom, hends⟩ :=
    hend.ends hvalid hw hplans hnew hcomes hallows h holdStored hopen.1
  refine ⟨old', new', ⟨htype, hold', hsrc ▸ hnew'⟩, ⟨?_, ?_, ?_⟩, fun _ => ⟨hsrc ▸ hfree, ?_⟩⟩
  · rw [hto]
    exact Option.some_ne_none _
  · intro v hv e he
    rw [hto, Option.mem_some_iff] at he
    rw [hfrom, ← hcFrom] at hv
    exact he ▸ hkeeps.started c n q hends v hv
  · intro e he v hv
    rw [hto, Option.mem_some_iff] at he
    rw [hstart, hnewFrom] at hv
    rw [← he, IngestContext.closing, Option.mem_def.1 hv]
    exact le_refl _
  · rcases hkeeps.covered c n q hends with hvalid' | ⟨⟨v, hv, hlater⟩, hbegun⟩
    · right
      unfold ItemContent.ValidAt at hvalid' ⊢
      rwa [hstart, hnewEnd, hnewFrom, hnewTo]
    · left
      refine ⟨fun v' hv' => hbegun v' ?_, fun e he => ?_⟩
      · rwa [hcFrom, ← hfrom]
      · rw [hto, Option.mem_some_iff, IngestContext.closing, Option.mem_def.1 hv] at he
        exact he ▸ hlater

/-- **One op keeps the timelines.** -/
theorem Save.Timed.apply (hkeeps : s.KeepsTime w t plans)
    (htimed : s.Timed t.toMemoryTables plans u.toMemoryTables) (hop : s.OpOf plans op)
    (hcomes : w.ComesTo t pre op u) (hallows : w.Allows u op)
    (h : w.apply u i log op.body = .ok (u', log')) :
    s.Timed t.toMemoryTables plans u'.toMemoryTables where
  spanned _ _ hr' :=
    htimed.apply_spanned hvalid hw hplans hnew hkeeps hop hcomes hallows h hr'
  made _ _ _ hq hr' := htimed.apply_made hw hplans hnew hop hcomes hallows h hq hr'
  chained row hrow htype := by
    have hputs := Writer.apply_puts (Save.ops_saveOp hvalid hw (hcomes.mem_ops (.inr rfl))) h
    rw [hputs.links, List.flatMap_singleton] at hrow
    rcases KeyTable.mem_of_mem_rows_foldl_put hrow with hrow | hrow
    · obtain ⟨n, q, hend, hsrc⟩ := link_ends hop hrow htype
      exact htimed.ends_chained hvalid hw hplans hnew hkeeps hop hcomes hallows h htype hend hsrc
    · exact (htimed.chained row hrow htype).apply hplans hop h

/-- **A batch keeps the timelines.** -/
theorem Save.timed_of_batch (hkeeps : s.KeepsTime w t plans) (hfew : w.heldWhole = false)
    (htimes : Timelines t.toMemoryTables) {q : Writer.Progress}
    (h : w.steps (w.seqBase t) 0 { tables := w.writeVocab t } w.ops = .ok q) :
    s.Timed t.toMemoryTables plans q.tables.toMemoryTables := by
  obtain ⟨-, -, hof, -⟩ := Save.writer_makes hw hplans
  refine Writer.steps_prefix
    (P := fun q => s.Timed t.toMemoryTables plans q.tables.toMemoryTables)
    (fun a op b p p' heq ha hstep htimed => ?_) ?_ h
  · have hop : s.OpOf plans op := hof op (heq ▸ List.mem_append_right _ List.mem_cons_self)
    have hcomes : w.ComesTo t a op p.tables := ⟨hfew, ⟨b, heq⟩, p, ha, rfl⟩
    rcases Writer.step_cases hstep with ⟨v, -, -, rfl⟩ | ⟨v, u, reason, -, -, hskip, rfl⟩ |
      ⟨v, u, log, hv, hallowed, happly, rfl⟩
    · rwa [Writer.refuse_tables]
    · dsimp only
      rwa [(Writer.apply_skip hskip).memory]
    · exact htimed.apply hvalid hw hplans hnew hkeeps hop hcomes ⟨v, hv, hallowed⟩ happly
  · dsimp only
    rw [Writer.writeVocab_memory]
    refine ⟨htimes.spanned, fun n q r hq hr => ?_, fun row hrow htype => ?_⟩
    · rw [Save.fresh_of_planned hplans hnew hq] at hr
      cases hr
    · obtain ⟨old, new, hrowOf, hsucceeds⟩ := htimes.chained row hrow htype
      exact ⟨old, new, hrowOf, hsucceeds, fun hlate => absurd hrow hlate⟩

end

/-! ## Runs -/

/-- The writer is that of a save which keeps time, or whose batch is held whole. -/
def SavesInTime (w : Writer) (t : Tables) : Prop :=
  ∃ (s : Save) (plans : List DecidedPlan), ValidExtraction s.lib.lib s.extraction ∧
    s.writer t.toMemoryTables = .ok w ∧ s.decidedPlans t.toMemoryTables = .ok plans ∧
    s.NewIds t.toMemoryTables ∧ (w.heldWhole = true ∨ s.KeepsTime w t plans)

theorem Save.now_of_writer {s : Save} {t : MemoryTables} {w : Writer} (hw : s.writer t = .ok w) :
    w.turn.now = s.ctx.now := by
  unfold Save.writer at hw
  split at hw
  · cases hw
    rfl
  · obtain ⟨made, -, hw⟩ := bind_eq_ok.1 hw
    cases hw
    rfl

/-- **A save keeps the timelines**, and something holds now of what it replaces. -/
theorem SavesInTime.keeps {w : Writer} {t t' : Tables} {res : CommitResult}
    (h : SavesInTime w t) (hdone : w.commit t = .ok (t', res))
    (htimes : Timelines t.toMemoryTables) :
    Timelines t'.toMemoryTables ∧ Commit.Covered ⟨w, t, t'⟩ := by
  obtain ⟨s, plans, hvalid, hw, hplans, hnew, hcases⟩ := h
  obtain ⟨q, hq⟩ := Writer.commit_parts hdone
  have hbatch := hq.batch
  unfold Writer.applyAll at hbatch
  by_cases hwhole : w.heldWhole = true
  · rw [if_pos hwhole] at hbatch
    cases hbatch
    have hsame : t'.toMemoryTables = t.toMemoryTables :=
      hq.memory.trans (w.writeVocab_memory t)
    rw [hsame]
    refine ⟨htimes, fun row hrow hlate => absurd ?_ hlate⟩
    replace hrow : row ∈ t'.toMemoryTables.links.rows := hrow
    rwa [hsame] at hrow
  · rw [if_neg hwhole] at hbatch
    have hkeeps := hcases.resolve_left hwhole
    have htimed := Save.timed_of_batch hvalid hw hplans hnew hkeeps (Bool.not_eq_true _ ▸ hwhole)
      htimes hbatch
    rw [← hq.memory] at htimed
    refine ⟨⟨htimed.spanned, fun row hrow htype => ?_⟩, fun row hrow hlate htype => ?_⟩
    · obtain ⟨old, new, hrowOf, hsucceeds, -⟩ := htimed.chained row hrow htype
      exact ⟨old, new, hrowOf, hsucceeds⟩
    · obtain ⟨old, new, hrowOf, -, hcovered⟩ := htimed.chained row hrow htype
      refine ⟨old, new, hrowOf, ?_⟩
      rw [Save.now_of_writer hw]
      exact (hcovered hlate).2

/-- Retrieval bookkeeping leaves the timelines. -/
theorem SameMemory.timelines {t t' : Tables} (h : SameMemory t t')
    (htimes : Timelines t.toMemoryTables) : Timelines t'.toMemoryTables := by
  have hbounds : ∀ {r r' : ItemRecord}, r'.eraseAccess = r.eraseAccess →
      r'.validFrom = r.validFrom ∧ r'.validTo = r.validTo := by
    intro r r' he
    have hfrom : r'.eraseAccess.validFrom = r.eraseAccess.validFrom := by rw [he]
    have hto : r'.eraseAccess.validTo = r.eraseAccess.validTo := by rw [he]
    exact ⟨hfrom, hto⟩
  constructor
  · intro id r' hr'
    have hmap := h.items id
    rw [hr', Option.map_some] at hmap
    obtain ⟨r, hr, he⟩ := Option.map_eq_some_iff.1 hmap.symm
    obtain ⟨hfrom, hto⟩ := hbounds he.symm
    have hspanned := htimes.spanned id r hr
    unfold ItemContent.Spanned at hspanned ⊢
    rwa [hfrom, hto]
  · intro row hrow htype
    rw [h.links] at hrow
    obtain ⟨old, new, ⟨-, hdst, hsrc⟩, ⟨hended, hstarted, hbefore⟩⟩ := htimes.chained row hrow htype
    have hstill : ∀ {id r}, t.getItem id = some r →
        ∃ r', t'.getItem id = some r' ∧ r'.validFrom = r.validFrom ∧ r'.validTo = r.validTo := by
      intro id r hr
      have hmap := h.items id
      rw [hr, Option.map_some] at hmap
      obtain ⟨r', hr', he⟩ := Option.map_eq_some_iff.1 hmap
      exact ⟨r', hr', hbounds he⟩
    obtain ⟨old', hold', hfrom, hto⟩ := hstill hdst
    obtain ⟨new', hnew', hstart, -⟩ := hstill hsrc
    refine ⟨old', new', ⟨htype, hold', hnew'⟩, ⟨by rwa [hto], ?_, by rwa [hto, hstart]⟩⟩
    unfold ItemContent.Spanned at hstarted ⊢
    rwa [hfrom, hto]

/-- **Timelines are kept** in every run of saves that keep time. -/
theorem timelines_kept {me : Uuid} {cs : List Commit} {t : Tables}
    (h : Ran SavesInTime (Tables.initial me) cs t) :
    Timelines t.toMemoryTables ∧ ∀ c ∈ cs, c.Covered := by
  induction h with
  | start =>
    refine ⟨⟨fun id r hr => ?_, fun row hrow => absurd hrow (Multiset.notMem_zero row)⟩,
      fun c hc => absurd hc List.not_mem_nil⟩
    rw [show (Tables.initial me).toMemoryTables.getItem id = none from KeyTable.lookup_empty id] at hr
    cases hr
  | commit _ ok done ih =>
    obtain ⟨hkept, hcovered⟩ := ok.keeps done ih.1
    refine ⟨hkept, fun c hc => ?_⟩
    rcases List.mem_cons.1 hc with rfl | hc
    · exact hcovered
    · exact ih.2 c hc
  | access _ at_ ids ih => exact ⟨(sameMemory_recordAccess _ at_ ids).timelines ih.1, ih.2⟩
  | resolve _ id status turnId at_ ih =>
    exact ⟨(sameMemory_resolveHeldWrite _ id status turnId at_).timelines ih.1, ih.2⟩

/-! ### Homes told in either order -/

/-- The writer is that of a save. -/
def Saves (w : Writer) (t : Tables) : Prop :=
  ∃ (s : Save) (plans : List DecidedPlan), ValidExtraction s.lib.lib s.extraction ∧
    s.writer t.toMemoryTables = .ok w ∧ s.decidedPlans t.toMemoryTables = .ok plans ∧
    s.NewIds t.toMemoryTables

def lateHome : Save := home 1 "i live in pune from june." [boundAt (some .since) 8]

def earlyHome : Save := home 2 "i live in mumbai since may." [boundAt (some .since) 5]

/-- A home of which only the move is known, in the turn of the move. -/
def movedHome : Save := home 2 "i moved to mumbai." [boundAt (some .since) 2]

def firstHome : Save := home 1 "i live in pune." []

set_option synthInstance.maxSize 512 in
/-- **The home that is told first starts last**, and ends before it has begun. -/
theorem ended_before_it_began :
    ∃ cs t, Ran Saves (Tables.initial 0) cs t ∧ ¬ Timelines t.toMemoryTables := by
  have hran : ∃ w ∈ (lateHome.writer (Tables.initial 0).toMemoryTables).toOption,
      ∃ plans ∈ (lateHome.decidedPlans (Tables.initial 0).toMemoryTables).toOption,
        ∃ x ∈ (w.commit (Tables.initial 0)).toOption,
          (∀ r ∈ x.1.items.rows, r.id < 2000) ∧ (∀ r ∈ x.1.links.rows, r.id < 2000) ∧
            ∃ w' ∈ (earlyHome.writer x.1.toMemoryTables).toOption,
              ∃ plans' ∈ (earlyHome.decidedPlans x.1.toMemoryTables).toOption,
                ∃ y ∈ (w'.commit x.1).toOption, ∃ r ∈ y.1.getItem 1000, ¬ r.Spanned := by
    decide +kernel
  have hvalid : validateExtraction plainText lateHome.extraction = [] := by decide +kernel
  have hvalid' : validateExtraction plainText earlyHome.extraction = [] := by decide +kernel
  obtain ⟨w, hw, plans, hplans, x, hx, hitems, hlinks, w', hw', plans', hplans', y, hy, r, hr,
    hspan⟩ := hran
  have hfirst : Saves w (Tables.initial 0) := ⟨lateHome, plans, hvalid, of_mem_toOption hw,
    of_mem_toOption hplans, newIds_of_small (fun r hr => absurd hr (Multiset.notMem_zero r))
      fun r hr => absurd hr (Multiset.notMem_zero r)⟩
  have hsecond : Saves w' x.1 := ⟨earlyHome, plans', hvalid', of_mem_toOption hw',
    of_mem_toOption hplans', newIds_of_small hitems hlinks⟩
  exact ⟨_, y.1, (Ran.start.commit hfirst (of_mem_toOption hx)).commit hsecond (of_mem_toOption hy),
    fun htimes => hspan (htimes.spanned 1000 r hr)⟩

set_option synthInstance.maxSize 512 in
/-- A move that is told when it happens keeps the timelines. -/
theorem moved_home_keeps : ∃ cs t, Ran SavesInTime (Tables.initial 0) cs t ∧
    (∃ row ∈ t.links.rows, row.linkType = .supersedes) ∧ Timelines t.toMemoryTables ∧
      ∀ c ∈ cs, c.Covered := by
  have hran : ∃ w ∈ (firstHome.writer (Tables.initial 0).toMemoryTables).toOption,
      ∃ plans ∈ (firstHome.decidedPlans (Tables.initial 0).toMemoryTables).toOption,
        ∃ x ∈ (w.commit (Tables.initial 0)).toOption,
          (∀ r ∈ x.1.items.rows, r.id < 2000 ∧ r.validFrom = none) ∧
            (∀ r ∈ x.1.links.rows, r.id < 2000) ∧ (∀ q ∈ plans, q.draft.content.Spanned) ∧
            ∃ w' ∈ (movedHome.writer x.1.toMemoryTables).toOption,
              ∃ plans' ∈ (movedHome.decidedPlans x.1.toMemoryTables).toOption,
                (∀ q ∈ plans', q.draft.content.Spanned ∧ q.draft.content.ValidAt 2) ∧
                  ∃ y ∈ (w'.commit x.1).toOption,
                    ∃ row ∈ y.1.getLink 2004, row.id = 2004 ∧ row.linkType = .supersedes := by
    decide +kernel
  have hvalid : validateExtraction plainText firstHome.extraction = [] := by decide +kernel
  have hvalid' : validateExtraction plainText movedHome.extraction = [] := by decide +kernel
  obtain ⟨w, hw, plans, hplans, x, hx, hitems, hlinks, hspanned, w', hw', plans', hplans', hbounds,
    y, hy, row, hrow, hid, htype⟩ := hran
  -- what is replaced is stored
  have hstored : ∀ {s : Save} {w : Writer} {t : Tables} {plans : List DecidedPlan} {old n q},
      s.Ends w t plans old n q → old ∈ t.items.rows := fun hends =>
    MemoryTables.mem_rows_of_getItem (decide_candidate (replaces_iff.1 hends.replaces).2).1
  have hfirst : SavesInTime w (Tables.initial 0) := by
    refine ⟨firstHome, plans, hvalid, of_mem_toOption hw, of_mem_toOption hplans,
      newIds_of_small (fun r hr => absurd hr (Multiset.notMem_zero r))
        fun r hr => absurd hr (Multiset.notMem_zero r), .inr ⟨fun q hq _ _ => hspanned q hq, ?_, ?_⟩⟩
    · exact fun old n q hends => absurd (hstored hends) (Multiset.notMem_zero old)
    · exact fun old n q hends => absurd (hstored hends) (Multiset.notMem_zero old)
  have hsecond : SavesInTime w' x.1 := by
    refine ⟨movedHome, plans', hvalid', of_mem_toOption hw', of_mem_toOption hplans',
      newIds_of_small (fun r hr => (hitems r hr).1) hlinks,
      .inr ⟨fun q hq _ _ => (hbounds q hq).1, ?_, ?_⟩⟩
    · intro old n q hends v hv
      rw [(hitems old (hstored hends)).2] at hv
      cases hv
    · exact fun old n q hends => .inl (hbounds q (List.mem_of_getElem? hends.planned)).2
  have hreached := (Ran.start.commit hfirst (of_mem_toOption hx)).commit hsecond (of_mem_toOption hy)
  obtain ⟨hkept, hcovered⟩ := timelines_kept hreached
  exact ⟨_, y.1, hreached, ⟨row, KeyTable.mem_rows.2 (hid ▸ hrow), htype⟩, hkept, hcovered⟩

end SecondMind
