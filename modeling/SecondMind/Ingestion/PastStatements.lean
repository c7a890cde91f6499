import SecondMind.Ingestion.SaveKeys

/-!
# Statements about the past

`Reconciler.decide` looks for the current item of a draft's key whether the draft says how things
are or how they were, so a statement about the past is taken for the new value, or for the value
that is stored already.

* `StandsAt` — an item that says how things are;
* `Beside` — the item is as it was, and the statement is stored beside it;
* `Save.ClosedBy` — a plan of the save closes the item, and the policy lets it;
* `past_beside_iff` — when a statement is stored beside what stands;
* `former_home_retires` — the city someone used to live in.
-/

namespace SecondMind

open Keyed Reconciler

/-! ## What stands -/

/-- The content says how things are at a moment: its state is the current one, and it has not
ended. -/
def ItemContent.HoldsAt (c : ItemContent) (now : Instant) : Prop :=
  c.state = "current" ∧ ∀ v ∈ c.validTo, now < v

instance (c : ItemContent) (now : Instant) : Decidable (c.HoldsAt now) := by
  unfold ItemContent.HoldsAt; infer_instance

/-- An active item of the key says how things are. -/
structure StandsAt (t : MemoryTables) (key : SingleKey) (now : Instant) (old : ItemRecord) :
    Prop where
  stored : t.getItem old.id = some old
  active : old.status = .active
  key : old.toItemContent.singleKey = some key
  holds : old.HoldsAt now

/-- The item is as it was, in state and end. -/
def Kept (old : ItemRecord) (t : MemoryTables) : Prop :=
  ∃ r, t.getItem old.id = some r ∧ r.kind = old.kind ∧ r.state = old.state ∧ r.validTo = old.validTo

/-- The item has been closed. -/
def Shut (old : ItemRecord) (t : MemoryTables) : Prop :=
  ∃ r, t.getItem old.id = some r ∧ r.kind = old.kind ∧ old.validTo = none ∧ r.validTo ≠ none

/-- **What stands of a key** is as it was, and the statement is stored beside it. -/
structure Beside (t t' : MemoryTables) (key : SingleKey) (now : Instant) (draft : Draft) :
    Prop where
  kept : ∀ old, StandsAt t key now old →
    ∃ r, t'.getItem old.id = some r ∧ r.state = old.state ∧ r.validTo = old.validTo
  stored : ∃ r, t'.getItem draft.itemId = some r ∧ r.status = .active ∧ r.text = draft.content.text

/-- A draft replaces the item: the newest current item of its key has another value, or the key has
none and the model, asked about what the draft is like, says so. -/
inductive Reconciler.Replaces (r : Reconciler) (t : MemoryTables) (draft : Draft)
    (old : ItemRecord) : Prop
  | value (first : (current t draft).head? = some old)
      (other : sameValue r.lib old.toItemContent draft.content = false)
  | chosen (none : current t draft = []) (decision : (r.decideOther t draft).decision = .supersede)
      (candidate : (r.decideOther t draft).candidate = some old)

/-- A draft is taken for an item that is stored: the newest current item of its key has its value,
or the key has none and the draft is found in another item. -/
inductive Reconciler.TakenFor (r : Reconciler) (t : MemoryTables) (draft : Draft)
    (old : ItemRecord) : Prop
  | value (first : (current t draft).head? = some old)
      (same : sameValue r.lib old.toItemContent draft.content = true)
  | chosen (none : current t draft = [])
      (decision : (r.decideOther t draft).decision ∈ [ReconcileDecision.noOp, .addDetail])
      (candidate : (r.decideOther t draft).candidate = some old)

/-- A plan of the save closes the item: its draft replaces it, its own item is made, and the policy
lets the op in where the batch comes to it. -/
structure Save.ClosedBy (s : Save) (w : Writer) (t : Tables) (plans : List DecidedPlan)
    (old : ItemRecord) (n : Nat) (q : DecidedPlan) : Prop where
  «open» : old.validTo = none
  planned : plans[n]? = some q
  replaces : s.reconciler.Replaces t.toMemoryTables q.draft old
  admitted : q.Admitted
  allowed : ∃ pre op u, op ∈ q.changeOps s.lib s.ctx n ∧ w.ComesTo t pre op u ∧ w.Allows u op

namespace Reconciler

variable {r : Reconciler} {t : MemoryTables} {draft : Draft} {old : ItemRecord}

/-- What the rules and the model answer of a draft that replaces an item. -/
theorem replaces_iff : r.Replaces t draft old ↔
    (r.decide t draft).decision = .supersede ∧ (r.decide t draft).candidate = some old := by
  unfold decide
  constructor
  · intro h
    cases h with
    | value first other =>
      split
      · rename_i found rest hfound
        rw [hfound] at first
        obtain rfl := Option.some.inj first
        rw [if_neg (by simp [other])]
        exact ⟨rfl, rfl⟩
      · rename_i hfound
        rw [hfound] at first
        cases first
    | chosen none decision candidate =>
      rw [none]
      exact ⟨decision, candidate⟩
  · rintro ⟨hdecision, hcandidate⟩
    split at hdecision
    · rename_i found rest hfound
      rw [hfound] at hcandidate
      dsimp only at hcandidate
      split at hdecision
      · cases hdecision
      · rename_i hother
        rw [if_neg hother] at hcandidate
        obtain rfl := Option.some.inj hcandidate
        exact .value (by rw [hfound]; rfl) (Bool.not_eq_true _ ▸ hother)
    · rename_i hfound
      rw [hfound] at hcandidate
      exact .chosen hfound hdecision hcandidate

/-- What they answer of a draft that is taken for an item. -/
theorem takenFor_iff : r.TakenFor t draft old ↔
    (r.decide t draft).decision ∈ [ReconcileDecision.noOp, .addDetail] ∧
      (r.decide t draft).candidate = some old := by
  unfold decide
  constructor
  · intro h
    cases h with
    | value first same =>
      split
      · rename_i found rest hfound
        rw [hfound] at first
        obtain rfl := Option.some.inj first
        rw [if_pos same]
        exact ⟨List.mem_cons_self, rfl⟩
      · rename_i hfound
        rw [hfound] at first
        cases first
    | chosen none decision candidate =>
      rw [none]
      exact ⟨decision, candidate⟩
  · rintro ⟨hdecision, hcandidate⟩
    split at hdecision
    · rename_i found rest hfound
      rw [hfound] at hcandidate
      dsimp only at hcandidate
      split at hdecision
      · rename_i hsame
        rw [if_pos hsame] at hcandidate
        obtain rfl := Option.some.inj hcandidate
        exact .value (by rw [hfound]; rfl) hsame
      · simp at hdecision
    · rename_i hfound
      rw [hfound] at hcandidate
      exact .chosen hfound hdecision hcandidate

end Reconciler

/-- A draft that is taken for no item has its own made. -/
theorem DecidedPlan.merged_eq_none_iff {r : Reconciler} {t : MemoryTables} {p : DecidedPlan}
    (h : p.decision = r.decide t p.draft) : p.merged = none ↔ ∀ old, ¬ r.TakenFor t p.draft old := by
  unfold merged
  rw [h]
  constructor
  · intro hnone old htaken
    obtain ⟨hdecision, hcandidate⟩ := takenFor_iff.1 htaken
    rw [if_pos hdecision, hcandidate] at hnone
    cases hnone
  · intro hnot
    split
    · rename_i hdecision
      cases hcandidate : (r.decide t p.draft).candidate with
      | none => rfl
      | some old => exact absurd (takenFor_iff.2 ⟨hdecision, hcandidate⟩) (hnot old)
    · rfl

/-! ## What an op of a save does to a value -/

/-- The op is the one by which a plan closes the item, and the plan's own item is there. -/
def Save.Closing (s : Save) (plans : List DecidedPlan) (u : MemoryTables) (id : Uuid) (op : Op) :
    Prop :=
  ∃ (n : Nat) (q : DecidedPlan) (c : ItemRecord), plans[n]? = some q ∧
    q.decision.decision = .supersede ∧ q.decision.candidate = some c ∧ c.id = id ∧
    op ∈ q.changeOps s.lib s.ctx n ∧ u.isLive q.draft.itemId = true

/-- The op closes an item, or fulfils a wish, or leaves states and ends alone. -/
inductive Save.Spans (s : Save) (plans : List DecidedPlan) (op : Op) : Prop
  | closes {n : Nat} {q : DecidedPlan} {c : ItemRecord} {linkId : Uuid} {validTo : Instant}
      {state : String} (planned : plans[n]? = some q) (decision : q.decision.decision = .supersede)
      (candidate : q.decision.candidate = some c) (mem : op ∈ q.changeOps s.lib s.ctx n)
      (body : op.body = .supersedeItem c.id q.draft.itemId linkId validTo state)
  | fulfils {id episode linkId : Uuid} (body : op.body = .fulfilIntention id episode linkId "fulfilled")
  | leaves (state : op.body.itemChanges.state = none) (validTo : op.body.itemChanges.validTo = none)

theorem Save.OpOf.spans {s : Save} {plans : List DecidedPlan} {op : Op} (h : s.OpOf plans op) :
    s.Spans plans op := by
  cases h with
  | entity named upsert eq => exact .leaves (by rw [eq]; rfl) (by rw [eq]; rfl)
  | create planned apart eq => exact .leaves (by rw [eq]; rfl) (by rw [eq]; rfl)
  | @change n q planned mem =>
    have hop := mem
    unfold DecidedPlan.changeOps at hop
    split at hop
    · exact absurd hop List.not_mem_nil
    · rename_i c hcandidate
      dsimp only at hop
      split at hop
      · rename_i hdecision
        exact .closes planned hdecision hcandidate mem (congrArg Op.body (List.mem_singleton.1 hop))
      · exact .fulfils (congrArg Op.body (List.mem_singleton.1 hop))
      · rw [List.mem_singleton.1 hop]
        exact .leaves rfl rfl
      · unfold DecidedPlan.detailOps at hop
        dsimp only at hop
        split at hop
        · exact absurd hop List.not_mem_nil
        · rw [List.mem_singleton.1 hop]
          exact .leaves rfl rfl
      · exact absurd hop List.not_mem_nil
      · exact absurd hop List.not_mem_nil
  | link planned mem =>
    obtain ⟨i, l, src, dst, -, -, -, -, rfl⟩ := Save.mem_linkOps.1 mem
    exact .leaves rfl rfl
  | relation mem eq =>
    obtain ⟨i, src, dst, slug, evidence, hbody, -⟩ := Save.mem_relations mem
    rw [eq]
    exact .leaves (by rw [hbody]; rfl) (by rw [hbody]; rfl)
  | promotion planned apart mem =>
    unfold DecidedPlan.promotionOps at mem
    split at mem
    · rw [List.mem_singleton.1 mem]
      exact .leaves rfl rfl
    · exact absurd mem List.not_mem_nil
  | secret eq => exact .leaves (by rw [eq]; rfl) (by rw [eq]; rfl)

namespace Writer

variable {w : Writer}

/-- An item after an edit, as it is stored. -/
theorem keepAccess_span (t : Tables) (r : ItemRecord) : (t.keepAccess r).kind = r.kind ∧
    (t.keepAccess r).state = r.state ∧ (t.keepAccess r).validTo = r.validTo := by
  unfold Tables.keepAccess
  split <;> exact ⟨rfl, rfl, rfl⟩

theorem edited_span (before : ItemRecord) (changes : ItemChanges) :
    (w.edited before changes).kind = changes.kind.getD before.kind ∧
      (w.edited before changes).state = changes.state.getD before.state ∧
      (w.edited before changes).validTo = changes.validTo.getD before.validTo := by
  unfold edited changedContent
  dsimp only
  split <;> exact ⟨rfl, rfl, rfl⟩

/-- What an op that closes nothing and fulfils nothing leaves of an item. -/
theorem getItem_edit {t t' : Tables} {i : Nat} {log log' : RowLog} {body : OpBody}
    (hlight : body.itemChanges.Light) (h : w.apply t i log body = .ok (t', log')) {id : Uuid}
    {r : ItemRecord} (hr : t.getItem id = some r) :
    t'.getItem id = some r ∨ body.target = (.item, id) ∧ body.isCreate = false ∧
      t'.getItem id = some (t.keepAccess (w.edited r body.itemChanges)) := by
  have hfiled : w.filedChanges t i body = body.itemChanges := by
    obtain ⟨state, summary, tags, attributes, validTo, inCore, heq⟩ := hlight
    rw [filedChanges, refile_of_none (by rw [heq])]
  cases apply_itemEffect h with
  | none same =>
    left
    rwa [MemoryTables.getItem, same]
  | new hbody hnew hfree put =>
    left
    have hid := (newItem_eq_ok hnew).2.2.1
    rw [MemoryTables.getItem, put, KeyTable.lookup_put_of_ne]
    · exact hr
    · rintro rfl
      rw [hid, hfree] at hr
      cases hr
  | @edit before htarget hcreate stored put =>
    by_cases hid : id = before.id
    · right
      subst hid
      rw [stored] at hr
      cases hr
      refine ⟨htarget, hcreate, ?_⟩
      rw [MemoryTables.getItem, put, KeyTable.lookup_put, id_keepAccess, id_edited, if_pos rfl,
        hfiled]
    · left
      rw [MemoryTables.getItem, put, KeyTable.lookup_put_of_ne]
      · exact hr
      · rw [id_keepAccess, id_edited]
        exact hid

end Writer

section

variable {s : Save} {t : Tables} {w : Writer} {plans : List DecidedPlan}

/-- **One op**: it closes the item, which was open, or leaves its state and its end. -/
theorem apply_span {op : Op} (hop : s.OpOf plans op) {u u' : Tables} {i : Nat}
    {log log' : Writer.RowLog} (h : w.apply u i log op.body = .ok (u', log')) {id : Uuid}
    {r : ItemRecord} (hr : u.getItem id = some r) (hkind : r.kind ≠ .intention) :
    ∃ r', u'.getItem id = some r' ∧ r'.kind = r.kind ∧
      ((r'.state = r.state ∧ r'.validTo = r.validTo) ∨
        (r.validTo = none ∧ r'.validTo ≠ none ∧ s.Closing plans u.toMemoryTables id op)) := by
  rcases Writer.getItem_edit hop.light h hr with hsame | ⟨htarget, hcreate, hedit⟩
  · exact ⟨r, hsame, rfl, .inl ⟨rfl, rfl⟩⟩
  · obtain ⟨hkindKept, hstateKept, hvalidKept⟩ :=
      Writer.keepAccess_span u (w.edited r op.body.itemChanges)
    obtain ⟨hkindOf, hstateOf, hvalidOf⟩ := w.edited_span r op.body.itemChanges
    have hnokind : op.body.itemChanges.kind = none := by
      obtain ⟨state, summary, tags, attributes, validTo, inCore, heq⟩ := hop.light
      rw [heq]
    have hkind' : (u.keepAccess (w.edited r op.body.itemChanges)).kind = r.kind := by
      rw [hkindKept, hkindOf, hnokind]
      rfl
    refine ⟨_, hedit, hkind', ?_⟩
    cases hop.spans with
    | @closes n q c linkId validTo state planned decision candidate mem body =>
      right
      rw [body] at h htarget
      obtain ⟨-, rfl⟩ := Prod.mk.inj htarget
      obtain ⟨old, new, hold, hnew, hopen, -⟩ := Writer.supersede_eq_ok.1 h
      obtain ⟨hnewStored, hnewLive⟩ := Writer.liveItem_eq_ok.1 hnew
      have hlive : u.isLive q.draft.itemId = true := by
        rw [MemoryTables.isLive, hnewStored]
        simpa using hnewLive
      obtain rfl : old = r := Option.some.inj ((Writer.liveItem_eq_ok.1 hold).1.symm.trans hr)
      refine ⟨hopen.1, ?_, n, q, c, planned, decision, candidate, rfl, mem, hlive⟩
      rw [hvalidKept, hvalidOf, body]
      exact Option.some_ne_none _
    | @fulfils intention episode linkId body =>
      -- only a wish can be fulfilled
      rw [body] at h htarget
      obtain ⟨-, rfl⟩ := Prod.mk.inj htarget
      obtain ⟨old, new, hold, -, -, hchange⟩ := Writer.fulfil_eq_ok.1 h
      obtain rfl : old = r := Option.some.inj ((Writer.liveItem_eq_ok.1 hold).1.symm.trans hr)
      have hid : old.id = intention := KeyTable.key_of_lookup hr
      obtain ⟨after, rfl, -, hvalid, -, -⟩ := (Writer.changeAndLink_eq_ok (hid ▸ hr)).1 hchange
      obtain ⟨hk, hs, -⟩ := w.edited_span old { state := some "fulfilled" }
      rw [hk, hs] at hvalid
      replace hvalid : validState old.kind "fulfilled" = true := hvalid
      cases hold : old.kind <;> rw [hold] at hvalid <;> first | exact absurd hold hkind | cases hvalid
    | leaves state validTo =>
      left
      rw [hstateKept, hstateOf, hvalidKept, hvalidOf, state, validTo]
      exact ⟨rfl, rfl⟩

/-- One turn of the loop of a save. -/
theorem step_span {op : Op} (hop : s.OpOf plans op) {sb i : Nat} {p p' : Writer.Progress}
    (h : w.step sb i p op = .ok p') {id : Uuid} {r : ItemRecord}
    (hr : p.tables.getItem id = some r) (hkind : r.kind ≠ .intention) :
    ∃ r', p'.tables.getItem id = some r' ∧ r'.kind = r.kind ∧
      ((r'.state = r.state ∧ r'.validTo = r.validTo) ∨
        (r.validTo = none ∧ r'.validTo ≠ none ∧ w.Allows p.tables op ∧
          s.Closing plans p.tables.toMemoryTables id op)) := by
  rcases Writer.step_cases h with ⟨v, -, -, rfl⟩ | ⟨v, u, reason, -, -, hskip, rfl⟩ |
    ⟨v, u, log, hv, hallowed, happly, rfl⟩
  · rw [Writer.refuse_tables]
    exact ⟨r, hr, rfl, .inl ⟨rfl, rfl⟩⟩
  · refine ⟨r, ?_, rfl, .inl ⟨rfl, rfl⟩⟩
    rw [(Writer.apply_skip hskip).memory]
    exact hr
  · obtain ⟨r', hr', hk, hcases⟩ := apply_span hop happly hr hkind
    refine ⟨r', hr', hk, hcases.imp_right fun ⟨hopen, hclosed, hplan⟩ => ?_⟩
    exact ⟨hopen, hclosed, ⟨v, hv, hallowed⟩, hplan⟩

variable {old : ItemRecord}

/-- An item that was as before is so after the op, or the op has closed it. -/
theorem step_kept {op : Op} (hop : s.OpOf plans op) {sb i : Nat} {p p' : Writer.Progress}
    (h : w.step sb i p op = .ok p') (hkind : old.kind ≠ .intention)
    (hkept : Kept old p.tables.toMemoryTables) : Kept old p'.tables.toMemoryTables ∨
      (Shut old p'.tables.toMemoryTables ∧ w.Allows p.tables op ∧
        s.Closing plans p.tables.toMemoryTables old.id op) := by
  obtain ⟨r, hr, hk, hstate, hvalid⟩ := hkept
  obtain ⟨r', hr', hk', hcases⟩ := step_span hop h hr (hk ▸ hkind)
  rcases hcases with ⟨hstate', hvalid'⟩ | ⟨hopen, hclosed, hallows, hplan⟩
  · exact .inl ⟨r', hr', hk'.trans hk, hstate'.trans hstate, hvalid'.trans hvalid⟩
  · exact .inr ⟨⟨r', hr', hk'.trans hk, hvalid ▸ hopen, hclosed⟩, hallows, hplan⟩

/-- A closed item stays closed. -/
theorem step_shut {op : Op} (hop : s.OpOf plans op) {sb i : Nat} {p p' : Writer.Progress}
    (h : w.step sb i p op = .ok p') (hkind : old.kind ≠ .intention)
    (hshut : Shut old p.tables.toMemoryTables) : Shut old p'.tables.toMemoryTables := by
  obtain ⟨r, hr, hk, hopen, hclosed⟩ := hshut
  obtain ⟨r', hr', hk', hcases⟩ := step_span hop h hr (hk ▸ hkind)
  refine ⟨r', hr', hk'.trans hk, hopen, ?_⟩
  rcases hcases with ⟨-, hvalid'⟩ | ⟨-, hclosed', -⟩
  · rwa [hvalid']
  · exact hclosed'

theorem Kept.not_shut {t : MemoryTables} (h : Kept old t) : ¬ Shut old t := by
  obtain ⟨r, hr, -, -, hvalid⟩ := h
  rintro ⟨r', hr', -, hopen, hclosed⟩
  rw [hr] at hr'
  cases hr'
  exact hclosed (hvalid.trans hopen)

/-- What every turn of the loop keeps, said with the turns before it. -/
theorem Writer.steps_prefix {P : Writer.Progress → Prop} {sb i : Nat} {p p' : Writer.Progress}
    {ops : List Op}
    (hstep : ∀ a op b q q', ops = a ++ op :: b → w.steps sb i p a = .ok q →
      w.step sb (i + a.length) q op = .ok q' → P q → P q')
    (hp : P p) (h : w.steps sb i p ops = .ok p') : P p' := by
  induction ops using List.reverseRecOn generalizing p' with
  | nil =>
    cases h
    exact hp
  | append_singleton ops op ih =>
    obtain ⟨q, hq, h⟩ := Writer.steps_append.1 h
    obtain ⟨q', hq', h⟩ := bind_eq_ok.1 h
    cases h
    have hbefore : P q := ih (fun a o b q₁ q₂ heq => hstep a o (b ++ [op]) q₁ q₂ (by simp [heq])) hq
    exact hstep ops op [] q p' rfl hq hq' hbefore

end

/-- The op by which a plan closes an item. -/
theorem changeOps_supersede {lib : PlanLib} {ctx : IngestContext} {n : Nat} {q : DecidedPlan}
    {old : ItemRecord} (hdecision : q.decision.decision = .supersede)
    (hcandidate : q.decision.candidate = some old) {op : Op} (h : op ∈ q.changeOps lib ctx n) :
    ∃ linkId state, op.body = .supersedeItem old.id q.draft.itemId linkId
      (q.draft.content.validFrom.getD ctx.now) state := by
  simp only [DecidedPlan.changeOps, hdecision, hcandidate, List.mem_singleton] at h
  exact ⟨_, _, congrArg Op.body h⟩

/-- A superseded item is closed. -/
theorem Writer.supersede_shuts {w : Writer} {u u' : Tables} {i : Nat} {log log' : Writer.RowLog}
    {oldId newId linkId : Uuid} {validTo : Instant} {state : String}
    (h : w.apply u i log (.supersedeItem oldId newId linkId validTo state) = .ok (u', log')) :
    ∃ r, u'.getItem oldId = some r ∧ r.validTo ≠ none := by
  obtain ⟨old, new, hold, -, -, hchange⟩ := Writer.supersede_eq_ok.1 h
  have hstored := (Writer.liveItem_eq_ok.1 hold).1
  obtain rfl : old.id = oldId := KeyTable.key_of_lookup hstored
  obtain ⟨after, rfl, -, -, -, hlink⟩ := (Writer.changeAndLink_eq_ok hstored).1 hchange
  obtain ⟨-, hx⟩ := Writer.insertLink_eq_ok.1 hlink
  obtain ⟨rfl, -⟩ := Prod.mk.inj hx
  refine ⟨u.keepAccess (w.edited old { state := some state, validTo := some (some validTo) }), ?_, ?_⟩
  · rw [MemoryTables.getItem, Writer.storeItem, KeyTable.lookup_put, if_pos]
    exact ((id_keepAccess _ _).trans (Writer.id_edited old _)).symm
  · rw [(Writer.keepAccess_span u _).2.2, (w.edited_span old _).2.2]
    exact Option.some_ne_none _

section

variable {s : Save} {t : Tables} {w : Writer} {plans : List DecidedPlan}
variable (hvalid : ValidExtraction s.lib.lib s.extraction)
  (hw : s.writer t.toMemoryTables = .ok w)
  (hplans : s.decidedPlans t.toMemoryTables = .ok plans) (hnew : s.NewIds t.toMemoryTables)
include hvalid hw hplans hnew

omit hvalid hw hnew in
/-- What is decided of a plan that closes an item. -/
theorem Save.ClosedBy.decided {old : ItemRecord} {n : Nat} {q : DecidedPlan}
    (h : s.ClosedBy w t plans old n q) :
    q.decision.decision = .supersede ∧ q.decision.candidate = some old := by
  obtain ⟨m, -, -, hdecided⟩ := Save.planned hplans h.planned
  rw [hdecided]
  exact replaces_iff.1 h.replaces

/-- The plan whose item is there was let in. -/
theorem Save.admitted_of_stored {pre : List Op} {op : Op} {u : Tables} (h : w.ComesTo t pre op u)
    {n : Nat} {q : DecidedPlan} (hq : plans[n]? = some q)
    (hstored : (u.getItem q.draft.itemId).isSome) : q.Admitted := by
  obtain ⟨m, -, hplanned, -⟩ := Save.planned hplans hq
  rcases Save.standing_of_stored hvalid hw hplans h hstored with hold | ⟨q', hq', -, hid, hadmitted⟩
  · rw [hplanned.itemId, hnew.items] at hold
    cases hold
  · obtain ⟨n', hn'⟩ := List.getElem?_of_mem hq'
    obtain ⟨m', -, hplanned', -⟩ := Save.planned hplans hn'
    rw [hplanned.itemId, hplanned'.itemId] at hid
    obtain rfl : n' = n := IdFor.item.inj (hnew.injective hid)
    rw [hq] at hn'
    cases hn'
    exact hadmitted

/-- An op by which a plan closes an item, at its place in the batch. -/
theorem Save.Closing.closedBy {pre : List Op} {op : Op} {u : Tables} (h : w.ComesTo t pre op u)
    (hallows : w.Allows u op) {old : ItemRecord} (hold : t.getItem old.id = some old)
    (hopen : old.validTo = none) (hclosing : s.Closing plans u.toMemoryTables old.id op) :
    ∃ n q, s.ClosedBy w t plans old n q := by
  obtain ⟨n, q, c, hq, hdecision, hcandidate, hid, hmem, hlive⟩ := hclosing
  obtain ⟨m, -, -, hdecided⟩ := Save.planned hplans hq
  rw [hdecided] at hdecision hcandidate
  have hc : t.getItem c.id = some c := (decide_candidate hcandidate).1
  obtain rfl : c = old := by
    rw [hid, hold] at hc
    exact (Option.some.inj hc).symm
  have hstored : (u.getItem q.draft.itemId).isSome := by
    unfold MemoryTables.isLive at hlive
    cases hget : u.getItem q.draft.itemId with
    | none => rw [hget] at hlive; cases hlive
    | some r => rfl
  exact ⟨n, q, hopen, hq, replaces_iff.2 ⟨hdecision, hcandidate⟩,
    Save.admitted_of_stored hvalid hw hplans hnew h hq hstored, pre, op, u, hmem, h, hallows⟩

/-- **An item that no plan closes** is as it was. -/
theorem Save.kept_of_batch (hfew : w.heldWhole = false) {old : ItemRecord}
    (hold : t.getItem old.id = some old) (hkind : old.kind ≠ .intention)
    (hnone : ∀ n q, ¬ s.ClosedBy w t plans old n q) {q : Writer.Progress}
    (h : w.steps (w.seqBase t) 0 { tables := w.writeVocab t } w.ops = .ok q) :
    Kept old q.tables.toMemoryTables := by
  obtain ⟨-, -, hof, -⟩ := Save.writer_makes hw hplans
  refine Writer.steps_prefix (P := fun q => Kept old q.tables.toMemoryTables)
    (fun a op b p p' heq ha hstep hkept => ?_) ?_ h
  · have hop : s.OpOf plans op := hof op (heq ▸ List.mem_append_right _ List.mem_cons_self)
    rcases step_kept hop hstep hkind hkept with hk | ⟨⟨-, -, -, hopen, -⟩, hallows, hclosing⟩
    · exact hk
    · have hcomes : w.ComesTo t a op p.tables := ⟨hfew, ⟨b, heq⟩, p, ha, rfl⟩
      obtain ⟨n, q, hclosed⟩ :=
        hclosing.closedBy hvalid hw hplans hnew hcomes hallows hold hopen
      exact absurd hclosed (hnone n q)
  · refine ⟨old, ?_, rfl, rfl, rfl⟩
    show (w.writeVocab t).toMemoryTables.getItem old.id = _
    rw [Writer.writeVocab_memory]
    exact hold

/-- Where the closing op is let in, it closes the item. -/
theorem Save.ClosedBy.not_kept {old : ItemRecord} {n : Nat} {q : DecidedPlan}
    (hclosed : s.ClosedBy w t plans old n q) (hold : t.getItem old.id = some old)
    (hactive : old.status = .active) (hstate : old.state = "current") {pre : List Op} {op : Op}
    {linkId : Uuid} {validTo : Instant} {state : String}
    (hbody : op.body = .supersedeItem old.id q.draft.itemId linkId validTo state)
    {p p' : Writer.Progress} (hcomes : w.ComesTo t pre op p.tables) (hallows : w.Allows p.tables op)
    (hkept : Kept old p.tables.toMemoryTables) {sb i : Nat} (h : w.step sb i p op = .ok p') :
    ¬ Kept old p'.tables.toMemoryTables := by
  obtain ⟨r, hr, -, hrstate, hrvalid⟩ := hkept
  have hrlive : r.status = .active := by
    obtain ⟨r', hr', hrest⟩ := hcomes.has hw (.of_getItem hold)
    obtain rfl : r = r' := Option.some.inj (hr.symm.trans hr')
    have hstatus : r.rest.status = old.rest.status := congrArg ItemContent.status hrest
    exact hstatus.trans hactive
  have hrItem : Writer.liveItem p.tables old.id = .ok r :=
    Writer.liveItem_eq_ok.2 ⟨hr, fun e => by rw [hrlive] at e; cases e⟩
  -- its own item has been made
  have hmade : ∀ o ∈ s.makes plans, o ∈ pre := by
    refine hcomes.made hw hplans fun hmem => ?_
    rcases Save.mem_makes hmem with ⟨e, -, x, -, rfl⟩ | ⟨k, p, -, -, rfl⟩
    · cases hbody
    · cases hbody
  obtain ⟨hdecision, -⟩ := hclosed.decided hplans
  have hmerged : q.merged = none := by
    rw [DecidedPlan.merged, hdecision, if_neg (by simp)]
  have hstored : (p.tables.getItem q.draft.itemId).isSome :=
    Save.stored_of_standing hvalid hw hplans hcomes hmade
      (.inr ⟨q, List.mem_of_getElem? hclosed.planned, hmerged, rfl, hclosed.admitted⟩)
  have hlive := (Known.isLive_iff hvalid hw hplans hnew hcomes (.planned hclosed.planned rfl)).2 hstored
  obtain ⟨new, hnewItem⟩ := Option.isSome_iff_exists.1 hstored
  have hnewLive : Writer.liveItem p.tables q.draft.itemId = .ok new := by
    refine Writer.liveItem_eq_ok.2 ⟨hnewItem, fun e => ?_⟩
    rw [MemoryTables.isLive, hnewItem, Option.any_some, e] at hlive
    cases hlive
  rcases Writer.step_cases h with ⟨v, hv, hd, -⟩ | ⟨v, u, reason, -, -, hskip, -⟩ |
    ⟨v, u, log, -, -, happly, rfl⟩
  · obtain ⟨v', hv', hd'⟩ := hallows
    rw [hv] at hv'
    cases hv'
    exact absurd hd' hd
  · rw [hbody] at hskip
    simp only [Writer.apply, Writer.supersede, hrItem, hnewLive, bind, Except.bind] at hskip
    rw [if_neg (by simp [hrvalid, hclosed.open, hrstate, hstate])] at hskip
    exact absurd hskip Writer.changeAndLink_ne_skip
  · rw [hbody] at happly
    obtain ⟨r', hr', hshut⟩ := Writer.supersede_shuts happly
    rintro ⟨r₂, hr₂, -, -, hsame⟩
    rw [hr'] at hr₂
    cases hr₂
    exact hshut (hsame.trans hclosed.open)

/-- **An item that a plan closes** is closed. -/
theorem Save.shut_of_closedBy {old : ItemRecord} (hold : t.getItem old.id = some old)
    (hactive : old.status = .active) (hstate : old.state = "current")
    (hkind : old.kind ≠ .intention) {n : Nat} {q : DecidedPlan}
    (hclosed : s.ClosedBy w t plans old n q) {p : Writer.Progress}
    (h : w.steps (w.seqBase t) 0 { tables := w.writeVocab t } w.ops = .ok p) :
    Shut old p.tables.toMemoryTables := by
  obtain ⟨pre, op, u, hmem, hcomes, hallows⟩ := hclosed.allowed
  obtain ⟨hdecision, hcandidate⟩ := hclosed.decided hplans
  obtain ⟨linkId, state, hbody⟩ := changeOps_supersede hdecision hcandidate hmem
  obtain ⟨-, -, hof, -⟩ := Save.writer_makes hw hplans
  obtain ⟨post, hpost⟩ := hcomes.within
  obtain ⟨p₀, hp₀, rfl⟩ := hcomes.reached
  rw [hpost] at h
  obtain ⟨p₁, hp₁, h⟩ := Writer.steps_append.1 h
  obtain rfl : p₁ = p₀ := Except.ok.inj (hp₁.symm.trans hp₀)
  obtain ⟨p₂, hstep, hrest⟩ := bind_eq_ok.1 h
  have hops : ∀ o, o ∈ pre ∨ o = op ∨ o ∈ post → s.OpOf plans o := by
    intro o ho
    refine hof o (hpost ▸ ?_)
    rcases ho with ho | rfl | ho
    · exact List.mem_append_left _ ho
    · exact List.mem_append_right _ List.mem_cons_self
    · exact List.mem_append_right _ (List.mem_cons_of_mem _ ho)
  -- before the op the item is as it was, or it is closed already
  have hbefore : Kept old p₁.tables.toMemoryTables ∨ Shut old p₁.tables.toMemoryTables := by
    refine Writer.steps_induct
      (P := fun x => Kept old x.tables.toMemoryTables ∨ Shut old x.tables.toMemoryTables)
      (fun i x o x' ho hx hs => ?_) (.inl ?_) hp₁
    · rcases hx with hx | hx
      · exact (step_kept (hops o (.inl ho)) hs hkind hx).imp_right (·.1)
      · exact .inr (step_shut (hops o (.inl ho)) hs hkind hx)
    · refine ⟨old, ?_, rfl, rfl, rfl⟩
      show (w.writeVocab t).toMemoryTables.getItem old.id = _
      rw [Writer.writeVocab_memory]
      exact hold
  have hafter : Shut old p₂.tables.toMemoryTables := by
    rcases hbefore with hkept | hshut
    · rcases step_kept (hops op (.inr (.inl rfl))) hstep hkind hkept with hkept' | ⟨hshut, -⟩
      · exact absurd hkept' (hclosed.not_kept hvalid hw hplans hnew hold hactive hstate hbody hcomes
          hallows hkept hstep)
      · exact hshut
    · exact step_shut (hops op (.inr (.inl rfl))) hstep hkind hshut
  exact Writer.steps_induct (P := fun x => Shut old x.tables.toMemoryTables)
    (fun i x o x' ho hx hs => step_shut (hops o (.inr (.inr ho))) hs hkind hx) hafter hrest

/-- **The item of a plan** is stored when the batch is through exactly if it is made and let in. -/
theorem Save.stored_iff {n : Nat} {p : DecidedPlan} (hp : plans[n]? = some p) {q : Writer.Progress}
    (h : w.steps (w.seqBase t) 0 { tables := w.writeVocab t } w.ops = .ok q) :
    (∃ r, q.tables.getItem p.draft.itemId = some r ∧ r.status = .active ∧
      r.text = p.draft.content.text) ↔ p.merged = none ∧ p.Admitted := by
  obtain ⟨huser, -, hof, last, hmakes, -⟩ := Save.writer_makes hw hplans
  obtain ⟨m, -, hplanned, -⟩ := Save.planned hplans hp
  obtain ⟨done, hdone⟩ := Writer.steps_applied (fun o ho => Save.ops_saveOp hvalid hw ho) h
  have hputs := hdone.puts
  rw [Writer.writeVocab_memory] at hputs
  obtain rfl : Writer.appliedOps q.outcomes = done := hdone.outcomes
  -- what is stored under the id of the plan was made by its op
  have hmade : (q.tables.getItem p.draft.itemId).isSome →
      p.merged = none ∧ p.Admitted ∧ p.createOp s.lib n ∈ Writer.appliedOps q.outcomes := by
    intro hsome
    rcases (hputs.items _).1 hsome with hold | ⟨o, ho, hid⟩
    · rw [hplanned.itemId, hnew.items] at hold
      cases hold
    · obtain ⟨v, hv⟩ := hdone.allowed o ho
      rcases Save.createdItem_cases hw hplans (hdone.within.subset ho) hid with
        rfl | ⟨n', p', hp', hmerged, rfl, hsame⟩
      · exact absurd hv Save.secretOp_not_allowed
      · obtain ⟨m', -, hplanned', -⟩ := Save.planned hplans hp'
        rw [hplanned.itemId, hplanned'.itemId] at hsame
        obtain rfl : n' = n := IdFor.item.inj (hnew.injective hsame)
        rw [hp] at hp'
        cases hp'
        exact ⟨hmerged, (Save.allows_create_iff huser hplans hp).1 hv, ho⟩
  constructor
  · rintro ⟨r, hr, -, -⟩
    obtain ⟨hmerged, hadmitted, -⟩ := hmade (by rw [hr]; rfl)
    exact ⟨hmerged, hadmitted⟩
  · rintro ⟨hmerged, hadmitted⟩
    have hop : p.createOp s.lib n ∈ w.ops := by
      rw [hmakes]
      exact List.mem_append_left _ (Save.createOp_mem_makes hplans hp hmerged)
    obtain ⟨a, b, j, q₁, q₂, hsplit, -, hstep, hafterwards⟩ := Writer.steps_mem h hop
    -- its op has made it, or found it made
    have hafter : (q₂.tables.getItem p.draft.itemId).isSome := by
      rcases Writer.step_cases hstep with ⟨v, hv, hd, -⟩ | ⟨v, u, reason, -, -, hskip, rfl⟩ |
        ⟨v, u, log, -, -, happly, rfl⟩
      · obtain ⟨v', hv', hd'⟩ := (Save.allows_create_iff huser hplans hp).2 hadmitted
        rw [hv] at hv'
        cases hv'
        exact absurd hd' hd
      · have htaken : q₁.tables.getItem p.draft.itemId ≠ none := fun hfree =>
          Writer.createItem_ne_skip hfree hskip
        dsimp only
        rw [(Writer.apply_skip hskip).memory]
        exact Option.isSome_iff_ne_none.2 htaken
      · exact (Writer.apply_items happly _).2 (.inr rfl)
    have hstored : (q.tables.getItem p.draft.itemId).isSome := by
      obtain ⟨later, hlater⟩ := Writer.steps_applied (fun o ho => Save.ops_saveOp hvalid hw
        (hsplit ▸ List.mem_append_right _ (List.mem_cons_of_mem _ ho))) hafterwards
      exact (hlater.puts.items _).2 (.inl hafter)
    obtain ⟨-, -, happlied⟩ := hmade hstored
    obtain ⟨r, hr, hrest⟩ := Writer.steps_created (fun o ho => (hof o ho).light) h rfl happlied rfl
    have hstatus : r.rest.status = p.draft.content.rest.status := congrArg ItemContent.status hrest
    have htext : r.rest.text = p.draft.content.rest.text := congrArg ItemContent.text hrest
    exact ⟨r, hr, hstatus.trans hplanned.toDrafted.fresh.1, htext⟩

omit hvalid hw hnew in
/-- A statement under a key is asserted, so the policy lets it in. -/
theorem Save.admitted_of_key {n : Nat} {p : DecidedPlan} (hp : plans[n]? = some p) {key : SingleKey}
    (hkey : p.draft.content.singleKey = some key) : p.Admitted := by
  obtain ⟨m, -, hplanned, -⟩ := Save.planned hplans hp
  obtain ⟨f, sentiment, importance, quick, -, hcontent⟩ := hplanned.content
  obtain ⟨⟨-, -, hpredicate⟩, -⟩ := ItemContent.singleKey_eq_some.1 hkey
  intro hmodality
  rw [hcontent] at hpredicate hmodality
  replace hmodality : m.modality = .hypothetical := hmodality
  have hnone : (if m.modality = .asserted then
      (said m.predicate).map (s.lib.normalise .predicate s.predicates) else none) =
        some key.predicate := hpredicate
  rw [if_neg (by rw [hmodality]; exact fun h => nomatch h)] at hnone
  cases hnone

end

/-- **A statement is stored beside what stands** exactly when the batch is not held whole, the
statement is taken for nothing that is stored, and no draft of the message replaces what stands: a
statement about the past is no exception. -/
theorem past_beside_iff {s : Save} {t t' : Tables} {w : Writer} {plans : List DecidedPlan}
    {res : CommitResult} (hvalid : ValidExtraction s.lib.lib s.extraction)
    (hw : s.writer t.toMemoryTables = .ok w)
    (hplans : s.decidedPlans t.toMemoryTables = .ok plans) (hnew : s.NewIds t.toMemoryTables)
    (hcommit : w.commit t = .ok (t', res)) {n : Nat} {p : DecidedPlan} (hp : plans[n]? = some p)
    {key : SingleKey} (hkey : p.draft.content.singleKey = some key) :
    Beside t.toMemoryTables t'.toMemoryTables key s.ctx.now p.draft ↔
      w.heldWhole = false ∧
        (∀ old, ¬ s.reconciler.TakenFor t.toMemoryTables p.draft old) ∧
        ∀ old, StandsAt t.toMemoryTables key s.ctx.now old →
          ∀ n q, ¬ s.ClosedBy w t plans old n q := by
  obtain ⟨m, -, hplanned, hdecided⟩ := Save.planned hplans hp
  have hadmitted := Save.admitted_of_key hplans hp hkey
  rw [← DecidedPlan.merged_eq_none_iff hdecided]
  obtain ⟨q, hq⟩ := Writer.commit_parts hcommit
  have hbatch := hq.batch
  unfold Writer.applyAll at hbatch
  by_cases hwhole : w.heldWhole = true
  · -- a batch that is held whole writes nothing
    rw [if_pos hwhole] at hbatch
    cases hbatch
    have hsame : t'.toMemoryTables = t.toMemoryTables :=
      hq.memory.trans (w.writeVocab_memory t)
    constructor
    · rintro ⟨-, r, hr, -⟩
      rw [hsame, hplanned.itemId, hnew.items] at hr
      cases hr
    · rintro ⟨hfew, -⟩
      rw [hwhole] at hfew
      cases hfew
  · have hfew : w.heldWhole = false := Bool.not_eq_true _ ▸ hwhole
    rw [if_neg hwhole] at hbatch
    have hstored := Save.stored_iff hvalid hw hplans hnew hp hbatch
    have hkind : ∀ old, StandsAt t.toMemoryTables key s.ctx.now old → old.kind ≠ .intention := by
      intro old hold hintention
      obtain ⟨⟨hsame, -⟩, hsingle, -⟩ := ItemContent.singleKey_eq_some.1 hold.key
      rw [← hsame, hintention] at hsingle
      simp at hsingle
    constructor
    · rintro ⟨hkept, hthere⟩
      rw [hq.memory] at hthere
      refine ⟨hfew, (hstored.1 hthere).1, fun old hold n q hclosed => ?_⟩
      obtain ⟨r, hr, -, hopen, hshut⟩ := Save.shut_of_closedBy hvalid hw hplans hnew hold.stored
        hold.active hold.holds.1 (hkind old hold) hclosed hbatch
      obtain ⟨r', hr', -, hsame⟩ := hkept old hold
      rw [hq.memory, hr] at hr'
      cases hr'
      exact hshut (hsame.trans hopen)
    · rintro ⟨-, hmerged, hnone⟩
      refine ⟨fun old hold => ?_, ?_⟩
      · obtain ⟨r, hr, -, hstate, hend⟩ := Save.kept_of_batch hvalid hw hplans hnew hfew hold.stored
          (hkind old hold) (hnone old hold) hbatch
        rw [hq.memory]
        exact ⟨r, hr, hstate, hend⟩
      · rw [hq.memory]
        exact hstored.2 ⟨hmerged, hadmitted⟩

/-! ## A city someone used to live in -/

/-- Where someone lives or lived, as a model extracts it. -/
def livesIn (text : String) : ProposedMemory where
  ref := "m1"
  kind := ⟨.fact, fact_isLabel⟩
  title := "home"
  text := text
  subject := some "self"
  predicate := some "lives_in"

def homeKey : SingleKey := ⟨.fact, 0, "lives_in"⟩

/-- A bound of a value, as it is resolved. -/
def boundAt (bound : Option Bound) (start : Instant) : Resolved where
  expression := "bound"
  clock := .valid
  start := start
  precision := .year
  rule := "bound"
  bound := bound

/-- A message that says where someone lives, with the bounds of it. -/
def home (turn : Nat) (text : String) (bounds : List Resolved) : Save :=
  let base := saveOf turn text [livesIn text]
  { base with
    lib := { base.lib with newId := fun k => 1000 * turn + ownId k }
    resolve := fun _ => bounds.map fun r => ("t1", r) }

def formerHome : Save := home 2 "i lived in mumbai until 2019." [boundAt (some .«until») 0]

/-- The ids of a turn are new in a store of earlier ones. -/
theorem newIds_of_small {t : MemoryTables} {turn : Nat} {text : String} {bounds : List Resolved}
    (hitems : ∀ r ∈ t.items.rows, r.id < 1000 * turn)
    (hlinks : ∀ r ∈ t.links.rows, r.id < 1000 * turn) : (home turn text bounds).NewIds t := by
  have hlarge : ∀ k, ¬ (home turn text bounds).lib.newId k < 1000 * turn := fun k =>
    Nat.not_lt.2 (Nat.le_add_right (1000 * turn) (ownId k))
  refine ⟨fun k k' h => ownId_injective (Nat.add_left_cancel h), fun k => ?_, fun k => ?_⟩
  · cases hget : t.getItem ((home turn text bounds).lib.newId k) with
    | none => rfl
    | some r =>
      have hid : r.id = _ := KeyTable.key_of_lookup hget
      exact absurd (hid ▸ hitems r (KeyTable.mem_rows.2 (hid ▸ hget))) (hlarge k)
  · cases hget : t.getLink ((home turn text bounds).lib.newId k) with
    | none => rfl
    | some r =>
      have hid : r.id = _ := KeyTable.key_of_lookup hget
      exact absurd (hid ▸ hlinks r (KeyTable.mem_rows.2 (hid ▸ hget))) (hlarge k)

set_option synthInstance.maxSize 512 in
/-- **The city someone used to live in** retires the city they live in. -/
theorem former_home_retires :
    ∃ x ∈ ((home 1 "i live in pune." []).run (Tables.initial 0)).toOption,
      ∃ w ∈ (formerHome.writer x.1.toMemoryTables).toOption, ∃ y ∈ (w.commit x.1).toOption,
        ∃ plans ∈ (formerHome.decidedPlans x.1.toMemoryTables).toOption, ∃ p ∈ plans,
          ValidExtraction formerHome.lib.lib formerHome.extraction ∧
            formerHome.NewIds x.1.toMemoryTables ∧
            p.draft.content.singleKey = some homeKey ∧
            ¬ p.draft.content.HoldsAt formerHome.ctx.now ∧
            ¬ Beside x.1.toMemoryTables y.1.toMemoryTables homeKey formerHome.ctx.now p.draft := by
  have hran : ∃ x ∈ ((home 1 "i live in pune." []).run (Tables.initial 0)).toOption,
      ∃ w ∈ (formerHome.writer x.1.toMemoryTables).toOption, ∃ y ∈ (w.commit x.1).toOption,
        ∃ plans ∈ (formerHome.decidedPlans x.1.toMemoryTables).toOption, ∃ p ∈ plans,
          (∀ r ∈ x.1.items.rows, r.id < 2000) ∧ (∀ r ∈ x.1.links.rows, r.id < 2000) ∧
            p.draft.content.singleKey = some homeKey ∧
            ¬ p.draft.content.HoldsAt formerHome.ctx.now ∧
            ∃ old ∈ x.1.getItem 1000, old.id = 1000 ∧ old.status = .active ∧
              old.toItemContent.singleKey = some homeKey ∧ old.HoldsAt formerHome.ctx.now ∧
              ∀ r ∈ y.1.getItem 1000, r.validTo ≠ old.validTo := by
    decide +kernel
  have hvalid : validateExtraction plainText formerHome.extraction = [] := by decide +kernel
  obtain ⟨x, hx, w, hw, y, hy, plans, hplans, p, hp, hitems, hlinks, hkey, hpast, old, hold, hid,
    hactive, hsame, hholds, hclosed⟩ := hran
  refine ⟨x, hx, w, hw, y, hy, plans, hplans, p, hp, hvalid, newIds_of_small hitems hlinks, hkey,
    hpast, fun hbeside => ?_⟩
  obtain ⟨r, hr, -, hend⟩ := hbeside.kept old ⟨hid ▸ hold, hactive, hsame, hholds⟩
  exact hclosed r (hid ▸ hr) hend

set_option synthInstance.maxSize 512 in
/-- A home that is known to end is not found, so the former one is stored beside it. -/
theorem former_home_beside :
    ∃ x ∈ ((home 1 "i live in pune until may." [boundAt (some .«until») 5]).run
        (Tables.initial 0)).toOption,
      ∃ w ∈ (formerHome.writer x.1.toMemoryTables).toOption, ∃ y ∈ (w.commit x.1).toOption,
        ∃ plans ∈ (formerHome.decidedPlans x.1.toMemoryTables).toOption, ∃ p ∈ plans,
          (∃ old, StandsAt x.1.toMemoryTables homeKey formerHome.ctx.now old) ∧
            ¬ p.draft.content.HoldsAt formerHome.ctx.now ∧
            Beside x.1.toMemoryTables y.1.toMemoryTables homeKey formerHome.ctx.now p.draft := by
  have hran : ∃ x ∈
        ((home 1 "i live in pune until may." [boundAt (some .«until») 5]).run
        (Tables.initial 0)).toOption,
      ∃ w ∈ (formerHome.writer x.1.toMemoryTables).toOption, ∃ y ∈ (w.commit x.1).toOption,
        ∃ plans ∈ (formerHome.decidedPlans x.1.toMemoryTables).toOption, ∃ p ∈ plans[0]?,
          (∀ r ∈ x.1.items.rows, r.id < 2000 ∧ r.validTo ≠ none) ∧
            (∀ r ∈ x.1.links.rows, r.id < 2000) ∧ w.heldWhole = false ∧ p.merged.isNone = true ∧
            p.draft.content.singleKey = some homeKey ∧
            ¬ p.draft.content.HoldsAt formerHome.ctx.now ∧
            ∃ old ∈ x.1.getItem 1000, old.id = 1000 ∧ old.status = .active ∧
              old.toItemContent.singleKey = some homeKey ∧ old.HoldsAt formerHome.ctx.now := by
    decide +kernel
  have hvalid : validateExtraction plainText formerHome.extraction = [] := by decide +kernel
  obtain ⟨x, hx, w, hw, y, hy, plans, hplans, p, hp, hitems, hlinks, hfew, hmade, hkey, hpast, old,
    hold, hid, hactive, hsame, hholds⟩ := hran
  refine ⟨x, hx, w, hw, y, hy, plans, hplans, p, List.mem_of_getElem? hp,
    ⟨old, hid ▸ hold, hactive, hsame, hholds⟩, hpast, ?_⟩
  have hplans' := of_mem_toOption hplans
  obtain ⟨m, -, -, hdecided⟩ := Save.planned hplans' hp
  refine (past_beside_iff hvalid (of_mem_toOption hw) hplans'
    (newIds_of_small (fun r hr => (hitems r hr).1) hlinks) (of_mem_toOption hy) hp hkey).2
    ⟨hfew, (DecidedPlan.merged_eq_none_iff hdecided).1 (Option.isNone_iff_eq_none.1 hmade), ?_⟩
  intro old hstands n q hclosed
  exact (hitems old (MemoryTables.mem_rows_of_getItem hstands.stored)).2 hclosed.open

end SecondMind
