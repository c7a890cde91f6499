import SecondMind.Ingestion.Pipeline
import SecondMind.Memory.Secrets

/-!
# What the ops of a save do to the items

Where the rules decide, a save makes the items of its drafts, closes items that a new value
supersedes, fulfils wishes, adds details and puts items in core.  No op of it touches what an item
is about.

* `ItemContent.Ages` — what an item keeps under the ops of a save;
* `Grown` — what a store keeps, and what is new in it;
* `RuleOp.grown` — one op; `grown_of_steps` — any number of them;
* `Save.firstOps_rules`, `Save.lastOps_rules` — the ops of a save that the rules decide are such
  ops.
-/

namespace SecondMind

open Keyed Reconciler

/-! ## Items -/

/-- The content `r'` is `r` after some ops of a save; if none of them promotes, it is in core
as it was. -/
structure ItemContent.Ages (promoting : Prop) (r r' : ItemContent) : Prop where
  status : r'.status = r.status
  kind : r'.kind = r.kind
  subject : r'.subjectEntityId = r.subjectEntityId
  predicate : r'.predicate = r.predicate
  sensitivity : r'.sensitivity = r.sensitivity
  modality : r'.modality = r.modality
  text : r'.text = r.text
  confirmedAt : r'.coreConfirmedAt = r.coreConfirmedAt
  core : promoting ∨ r'.inCore = r.inCore
  /-- A closed item stays closed. -/
  closed : r'.validTo = none → r.validTo = none
  /-- While an item is open only a wish changes its state. -/
  state : r'.validTo = none → r'.state = r.state ∨ (r.kind = .intention ∧ r'.state = "fulfilled")

namespace ItemContent.Ages

variable {promoting : Prop} {r r' r'' : ItemContent}

theorem refl (r : ItemContent) : Ages promoting r r :=
  ⟨rfl, rfl, rfl, rfl, rfl, rfl, rfl, rfl, .inr rfl, fun h => h, fun _ => .inl rfl⟩

theorem trans (h : Ages promoting r r') (h' : Ages promoting r' r'') : Ages promoting r r'' where
  status := h'.status.trans h.status
  kind := h'.kind.trans h.kind
  subject := h'.subject.trans h.subject
  predicate := h'.predicate.trans h.predicate
  sensitivity := h'.sensitivity.trans h.sensitivity
  modality := h'.modality.trans h.modality
  text := h'.text.trans h.text
  confirmedAt := h'.confirmedAt.trans h.confirmedAt
  core := by
    rcases h.core with hp | hcore
    · exact .inl hp
    · rcases h'.core with hp | hcore'
      · exact .inl hp
      · exact .inr (hcore'.trans hcore)
  closed := fun hopen => h.closed (h'.closed hopen)
  state := fun hopen => by
    rcases h'.state hopen with hs | ⟨hk, hs⟩
    · rcases h.state (h'.closed hopen) with hs' | ⟨hk, hs'⟩
      · exact .inl (hs.trans hs')
      · exact .inr ⟨hk, hs.trans hs'⟩
    · exact .inr ⟨h.kind ▸ hk, hs⟩

theorem singleKey (h : Ages promoting r r') : r'.singleKey = r.singleKey := by
  rw [ItemContent.singleKey, ItemContent.singleKey, h.kind, h.subject, h.predicate]

theorem promoted (h : Ages False r r') : Ages promoting r r' :=
  { h with core := .inr (h.core.resolve_left fun hf => hf) }

end ItemContent.Ages

/-- Changes that let an item age. -/
structure ItemChanges.Mild (promoting : Prop) (before : ItemContent) (ch : ItemChanges) : Prop where
  status : ch.status = none
  kind : ch.kind = none
  subject : ch.subjectEntityId = none
  predicate : ch.predicate = none
  sensitivity : ch.sensitivity = none
  modality : ch.modality = none
  text : ch.text = none
  confirmedAt : ch.coreConfirmedAt = none
  slug : ch.categorySlug = none
  core : promoting ∨ ch.inCore = none
  closes : ch.validTo ≠ some none
  state : ch.state = none ∨ ch.validTo ≠ none ∨
    (before.kind = .intention ∧ ch.state = some "fulfilled")

theorem ItemChanges.Mild.ages {promoting : Prop} {before : ItemContent} {ch : ItemChanges}
    (h : ch.Mild promoting before) : before.Ages promoting (ch.apply before) where
  status := by rw [ItemChanges.apply, h.status]; rfl
  kind := by rw [ItemChanges.apply, h.kind]; rfl
  subject := by rw [ItemChanges.apply, h.subject]; rfl
  predicate := by rw [ItemChanges.apply, h.predicate]; rfl
  sensitivity := by rw [ItemChanges.apply, h.sensitivity]; rfl
  modality := by rw [ItemChanges.apply, h.modality]; rfl
  text := by rw [ItemChanges.apply, h.text]; rfl
  confirmedAt := by rw [ItemChanges.apply, h.confirmedAt]; rfl
  core := by
    rcases h.core with hp | hcore
    · exact .inl hp
    · refine .inr ?_
      rw [ItemChanges.apply, hcore]
      rfl
  closed := fun hopen => by
    cases hv : ch.validTo with
    | none => rw [ItemChanges.apply, hv] at hopen; exact hopen
    | some v =>
      rw [ItemChanges.apply, hv, Option.getD_some] at hopen
      exact absurd (hopen ▸ hv) h.closes
  state := fun hopen => by
    rcases h.state with hs | hv | ⟨hk, hs⟩
    · refine .inl ?_
      rw [ItemChanges.apply, hs]
      rfl
    · obtain ⟨v, hv⟩ := Option.ne_none_iff_exists'.1 hv
      rw [ItemChanges.apply, hv, Option.getD_some] at hopen
      exact absurd (hopen ▸ hv) h.closes
    · refine .inr ⟨hk, ?_⟩
      rw [ItemChanges.apply, hs]
      rfl

/-! ## Stores -/

/-- What is stored in `t` has aged to what is stored in `u`. -/
def Aged (promoting : Prop) (t u : MemoryTables) : Prop :=
  ∀ id r, t.getItem id = some r → ∃ r', u.getItem id = some r' ∧
    r'.createdAt = r.createdAt ∧ r.Ages promoting r'.toItemContent

theorem Aged.trans {promoting : Prop} {t u v : MemoryTables} (h : Aged promoting t u)
    (h' : Aged promoting u v) : Aged promoting t v := by
  intro id r hr
  obtain ⟨r', hr', hcreated, hages⟩ := h id r hr
  obtain ⟨r'', hr'', hcreated', hages'⟩ := h' id r' hr'
  exact ⟨r'', hr'', hcreated'.trans hcreated, hages.trans hages'⟩

theorem Aged.promoted {promoting : Prop} {t u : MemoryTables} (h : Aged False t u) :
    Aged promoting t u := by
  intro id r hr
  obtain ⟨r', hr', hcreated, hages⟩ := h id r hr
  exact ⟨r', hr', hcreated, hages.promoted⟩

theorem Aged.kind {promoting : Prop} {t u : MemoryTables} (h : Aged promoting t u) {id : Uuid}
    {r r' : ItemRecord} (hr : t.getItem id = some r) (hr' : u.getItem id = some r') :
    r'.kind = r.kind := by
  obtain ⟨r₂, hr₂, -, hages⟩ := h id r hr
  obtain rfl : r₂ = r' := Option.some.inj (hr₂.symm.trans hr')
  exact hages.kind

/-- `u` is `t` after some ops of a save with the drafts `ds`. -/
structure Grown (promoting : Prop) (ds : List Draft) (t u : MemoryTables) : Prop where
  ages : Aged promoting t u
  new : ∀ id r', u.getItem id = some r' → t.getItem id = none →
    ∃ d ∈ ds, d.itemId = id ∧ d.content.Ages promoting r'.toItemContent

namespace Grown

variable {promoting : Prop} {ds : List Draft} {t u v : MemoryTables}

theorem of_same (h : ∀ id, u.getItem id = t.getItem id) : Grown promoting ds t u where
  ages := fun id r hr => ⟨r, (h id).trans hr, rfl, .refl _⟩
  new := fun id r' hr' hnone => by
    rw [h id, hnone] at hr'
    cases hr'

theorem refl (t : MemoryTables) : Grown promoting ds t t := of_same fun _ => rfl

theorem trans (h : Grown promoting ds t u) (h' : Grown promoting ds u v) :
    Grown promoting ds t v where
  ages := h.ages.trans h'.ages
  new := fun id r'' hr'' hnone => by
    cases hu : u.getItem id with
    | none => exact h'.new id r'' hr'' hu
    | some r' =>
      obtain ⟨d, hd, hid, hages⟩ := h.new id r' hu hnone
      obtain ⟨r₂, hr₂, -, hages'⟩ := h'.ages id r' hu
      obtain rfl : r₂ = r'' := Option.some.inj (hr₂.symm.trans hr'')
      exact ⟨d, hd, hid, hages.trans hages'⟩

/-- An edit that lets the item age. -/
theorem of_edit {before after : ItemRecord} (hid : after.id = before.id)
    (stored : t.getItem before.id = some before) (hcreated : after.createdAt = before.createdAt)
    (hages : before.Ages promoting after.toItemContent) (put : u.items = t.items.put after) :
    Grown promoting ds t u where
  ages := fun id r hr => by
    rw [MemoryTables.getItem, put, KeyTable.lookup_put]
    split
    · rename_i he
      obtain rfl : r = before := by
        rw [he, hid, stored] at hr
        exact (Option.some.inj hr).symm
      exact ⟨after, rfl, hcreated, hages⟩
    · exact ⟨r, hr, rfl, .refl _⟩
  new := fun id r' hr' hnone => by
    rw [MemoryTables.getItem, put, KeyTable.lookup_put] at hr'
    split at hr'
    · rename_i he
      rw [he, hid, stored] at hnone
      cases hnone
    · rw [MemoryTables.getItem] at hnone
      rw [hnone] at hr'
      cases hr'

/-- A new item that a draft gives. -/
theorem of_new {record : ItemRecord} {d : Draft} (hd : d ∈ ds) (hid : record.id = d.itemId)
    (free : t.getItem d.itemId = none) (hages : d.content.Ages promoting record.toItemContent)
    (put : u.items = t.items.put record) : Grown promoting ds t u where
  ages := fun id r hr => by
    rw [MemoryTables.getItem, put, KeyTable.lookup_put]
    split
    · rename_i he
      rw [he, hid, free] at hr
      cases hr
    · exact ⟨r, hr, rfl, .refl _⟩
  new := fun id r' hr' hnone => by
    rw [MemoryTables.getItem, put, KeyTable.lookup_put] at hr'
    split at hr'
    · rename_i he
      cases hr'
      exact ⟨d, hd, (he.trans hid).symm, hages⟩
    · rw [MemoryTables.getItem] at hnone
      rw [hnone] at hr'
      cases hr'

end Grown

/-! ## Ops -/

/-- An op of a save with the drafts `ds` that the rules decided on `t`. -/
inductive RuleOp (promoting : Prop) (ds : List Draft) (t : MemoryTables) (op : Op) : Prop
  | create {d : Draft} {rows : List EntityLink} {triggers : List NewTrigger} {slug : Option String}
      (drafted : d ∈ ds) (body : op.body = .createItem d.itemId d.content rows triggers slug none)
  | secret {itemId : Uuid} {item : ItemContent} {rows : List EntityLink}
      {triggers : List NewTrigger} {slug name : Option String}
      (body : op.body = .createItem itemId item rows triggers slug name)
      (secret : item.sensitivity = .secret)
  /-- An op that makes no item, and lets the item it is about age. -/
  | edit (body : op.body.isCreate = false)
      (mild : ∀ id (before : ItemContent), op.body.target = (.item, id) →
        (∀ r, t.getItem id = some r → before.kind = r.kind) →
          op.body.itemChanges.Mild promoting before)

section

variable {w : Writer} {promoting : Prop} {ds : List Draft} {t : MemoryTables}

theorem keepAccess_fields (promoting : Prop) (t : Tables) (r : ItemRecord) :
    (t.keepAccess r).id = r.id ∧ (t.keepAccess r).createdAt = r.createdAt ∧
      r.Ages promoting (t.keepAccess r).toItemContent := by
  unfold Tables.keepAccess
  split
  · exact ⟨rfl, rfl, .refl _⟩
  · exact ⟨rfl, rfl, { ItemContent.Ages.refl r.toItemContent with }⟩

theorem newItem_ages (promoting : Prop) {itemId : Uuid} {item : ItemContent} {categoryId : Option Uuid}
    {r : ItemRecord} (hconf : w.confirmed = false)
    (h : w.newItem itemId item categoryId = .ok r) :
    r.id = itemId ∧ item.Ages promoting r.toItemContent := by
  obtain ⟨⟨c, hc⟩, -, hid, -⟩ := Writer.newItem_eq_ok h
  have hsame : w.newContent item = item := if_neg (by simp [hconf])
  refine ⟨hid, ?_⟩
  rw [hc, hsame]
  exact { ItemContent.Ages.refl item with }

theorem edited_ages {before : ItemRecord} {changes : ItemChanges} (hconf : w.confirmed = false)
    (h : changes.Mild promoting before.toItemContent) :
    before.Ages promoting (w.edited before changes).toItemContent := by
  have hsame : w.changedContent before.toItemContent changes = changes.apply before.toItemContent :=
    if_neg (by simp [hconf])
  have hages := h.ages
  rw [← hsame] at hages
  exact hages

/-- **One op of a save** lets the items age and makes at most the item of a draft. -/
theorem RuleOp.grown {op : Op} {sb i : Nat} {p p' : Writer.Progress} (hop : RuleOp promoting ds t op)
    (hconf : w.confirmed = false) (hg : Aged promoting t p.tables.toMemoryTables)
    (h : w.step sb i p op = .ok p') :
    Grown promoting ds p.tables.toMemoryTables p'.tables.toMemoryTables := by
  rcases Writer.step_cases h with ⟨v, -, -, rfl⟩ | ⟨v, u, reason, -, -, hskip, rfl⟩ |
    ⟨v, u, log, hv, hallowed, happly, rfl⟩
  · rw [Writer.refuse_tables]
    exact .refl _
  · have hmem := (Writer.apply_skip hskip).memory
    exact .of_same fun id => by rw [hmem]
  · rcases Writer.apply_itemEffect happly with hsame | ⟨hbody, hnew, free, put⟩ |
      ⟨htarget, hcreate, stored, put⟩
    · exact .of_same fun id => by
        unfold MemoryTables.getItem
        rw [hsame]
    · cases hop with
      | create drafted body =>
        rw [hbody] at body
        cases body
        obtain ⟨hid, hages⟩ := newItem_ages promoting hconf hnew
        exact .of_new drafted hid free hages put
      | secret body secret =>
        exact absurd hallowed (Writer.secret_refused body secret hv)
      | edit body mild => rw [hbody] at body; exact (nomatch body)
    · rename_i before
      cases hop with
      | create drafted body => rw [body] at hcreate; exact (nomatch hcreate)
      | secret body secret => rw [body] at hcreate; exact (nomatch hcreate)
      | edit body mild =>
        have hmild := mild before.id before.toItemContent htarget fun r hr => hg.kind hr stored
        rw [Writer.filedChanges, Writer.refile_of_none hmild.slug] at put
        obtain ⟨hid, hcreated, hkeeps⟩ :=
          keepAccess_fields promoting p.tables (w.edited before op.body.itemChanges)
        exact .of_edit (hid.trans (Writer.id_edited before _)) stored hcreated
          ((edited_ages hconf hmild).trans hkeeps) put

/-- Ops one after the other. -/
theorem grown_of_steps {ops : List Op} {sb i : Nat} {p p' : Writer.Progress}
    (hconf : w.confirmed = false) (hops : ∀ op ∈ ops, RuleOp promoting ds t op)
    (hg : Aged promoting t p.tables.toMemoryTables) (h : w.steps sb i p ops = .ok p') :
    Grown promoting ds p.tables.toMemoryTables p'.tables.toMemoryTables :=
  Writer.steps_induct (P := fun q => Grown promoting ds p.tables.toMemoryTables
      q.tables.toMemoryTables)
    (fun _ _ _ _ hop hp hstep => hp.trans ((hops _ hop).grown hconf (hg.trans hp.ages) hstep))
    (.refl _) h

end

/-! ## The ops of a save -/

section

variable {promoting : Prop} {ds : List Draft} {t : MemoryTables}

/-- An op on another table than the items'. -/
theorem RuleOp.of_table {op : Op} (hcreate : op.body.isCreate = false)
    (htable : op.body.target.1 ≠ .item) : RuleOp promoting ds t op :=
  .edit hcreate fun id _ htarget => by
    rw [htarget] at htable
    exact absurd rfl htable

theorem RuleOp.weaken {ds' : List Draft} {op : Op} (h : RuleOp False ds t op) (hds : ds ⊆ ds') :
    RuleOp promoting ds' t op := by
  cases h with
  | create drafted body => exact .create (hds drafted) body
  | secret body secret => exact .secret body secret
  | edit body mild =>
    exact .edit body fun id before htarget hkind =>
      { mild id before htarget hkind with
        core := .inr ((mild id before htarget hkind).core.resolve_left fun hf => hf) }

theorem RuleOp.drafts {op : Op} (h : RuleOp promoting [] t op) : RuleOp promoting ds t op := by
  cases h with
  | create drafted body => exact absurd drafted List.not_mem_nil
  | secret body secret => exact .secret body secret
  | edit body mild => exact .edit body mild

variable {lib : PlanLib} {ctx : IngestContext}

/-- What a decision of the rules changes. -/
theorem changeOps_rules {p : DecidedPlan} {n : Nat} {text : TextLib}
    (hrules : Ruled text t p.draft p.decision) {op : Op} (hop : op ∈ p.changeOps lib ctx n) :
    RuleOp False ds t op := by
  unfold DecidedPlan.changeOps at hop
  cases hrules with
  | same found value decision candidate =>
    rw [decision, candidate] at hop
    exact absurd hop List.not_mem_nil
  | changed found value decision candidate =>
    rw [decision, candidate] at hop
    obtain rfl := List.mem_singleton.1 hop
    exact .edit rfl fun _ _ _ _ => ⟨rfl, rfl, rfl, rfl, rfl, rfl, rfl, rfl, rfl, .inr rfl,
      by simp [OpBody.itemChanges], .inr (.inl (by simp [OpBody.itemChanges]))⟩
  | fulfils kind found decision candidate =>
    rw [decision, candidate] at hop
    obtain rfl := List.mem_singleton.1 hop
    obtain ⟨hstored, -, hkind, -⟩ := mem_wishes found
    refine .edit rfl fun id before htarget hsame => ?_
    obtain ⟨-, rfl⟩ := Prod.mk.inj htarget
    exact ⟨rfl, rfl, rfl, rfl, rfl, rfl, rfl, rfl, rfl, .inr rfl,
      by simp [OpBody.itemChanges], .inr (.inr ⟨(hsame _ hstored).trans hkind, rfl⟩)⟩
  | again kind stored active decision candidate =>
    rw [candidate] at hop
    rcases List.mem_pair.1 decision with hd | hd
    · rw [hd] at hop
      exact absurd hop List.not_mem_nil
    · rw [hd] at hop
      simp only [DecidedPlan.detailOps] at hop
      split at hop
      · exact absurd hop List.not_mem_nil
      · obtain rfl := List.mem_singleton.1 hop
        exact .edit rfl fun _ _ _ _ => ⟨rfl, rfl, rfl, rfl, rfl, rfl, rfl, rfl, rfl, .inr rfl,
          by simp [OpBody.itemChanges, DecidedPlan.detailChanges], .inl rfl⟩
  | fresh found decision candidate =>
    rw [candidate] at hop
    exact absurd hop List.not_mem_nil

namespace Save

variable {s : Save} {plans : List Plan}

/-- The drafts a save makes items of. -/
def written (plans : List DecidedPlan) : List Draft :=
  (plans.filter (·.merged.isNone)).map (·.draft)

theorem decided_rules (hrules : s.reconciler.choose = none) {p : DecidedPlan}
    (hp : p ∈ s.decided t plans) : Ruled s.reconciler.lib t p.draft p.decision := by
  obtain ⟨plan, -, rfl⟩ := List.mem_map.1 hp
  exact decide_rules hrules

/-- The ops before the links: entities, new items, changes. -/
def firstOps (s : Save) (plans : List DecidedPlan) : List Op :=
  s.entityOps ++ s.createOps plans ++ s.changeOps plans

/-- The links, the relations, the promotions, and the secret that is refused. -/
def lastOps (s : Save) (plans : List DecidedPlan) : List Op :=
  (plans.zipIdx.flatMap fun e => s.linkOps (idsByRef plans) e.2 e.1) ++
    (s.relations (idsByRef plans)).map (·.2) ++ promotionOps plans ++
    if s.secrets = [] then [] else [s.secretOp]

theorem ops_eq (plans : List DecidedPlan) :
    (s.ops plans ++ if s.secrets = [] then [] else [s.secretOp]) =
      s.firstOps plans ++ s.lastOps plans := by
  simp only [ops, firstOps, lastOps, List.append_assoc]

theorem secretOp_rules : RuleOp promoting ds t s.secretOp := .secret rfl rfl

theorem firstOps_rules (hrules : s.reconciler.choose = none) {op : Op}
    (hop : op ∈ s.firstOps (s.decided t plans)) :
    RuleOp False (written (s.decided t plans)) t op := by
  rcases List.mem_append.1 hop with hop | hop
  · rcases List.mem_append.1 hop with hop | hop
    · obtain ⟨e, -, he⟩ := List.mem_filterMap.1 hop
      obtain ⟨u, -, rfl⟩ := Option.map_eq_some_iff.1 he
      exact .of_table rfl (by simp [EntityUpsert.op, OpBody.target])
    · obtain ⟨e, he, hcreate⟩ := List.mem_filterMap.1 hop
      split at hcreate
      · exact (nomatch hcreate)
      · rename_i hnew
        cases hcreate
        have hnone : e.1.merged.isNone = true := by simpa using hnew
        exact .create (List.mem_map_of_mem
          (List.mem_filter.2 ⟨List.fst_mem_of_mem_zipIdx he, hnone⟩)) rfl
  · obtain ⟨e, he, hchange⟩ := List.mem_flatMap.1 hop
    exact changeOps_rules (decided_rules hrules (List.fst_mem_of_mem_zipIdx he)) hchange

theorem lastOps_rules {plans : List DecidedPlan} {op : Op} (hop : op ∈ s.lastOps plans) :
    RuleOp True [] t op := by
  rcases List.mem_append.1 hop with hop | hop
  · rcases List.mem_append.1 hop with hop | hop
    · rcases List.mem_append.1 hop with hop | hop
      · obtain ⟨e, -, hlink⟩ := List.mem_flatMap.1 hop
        obtain ⟨l, -, hl⟩ := List.mem_filterMap.1 hlink
        split at hl
        · split at hl
          · exact (nomatch hl)
          · cases hl
            exact .of_table rfl (by simp [OpBody.target])
        · exact (nomatch hl)
      · obtain ⟨r, hr, rfl⟩ := List.mem_map.1 hop
        obtain ⟨e, -, he⟩ := List.mem_filterMap.1 hr
        unfold relationOp at he
        split at he
        · split at he
          · exact (nomatch he)
          · cases he
            exact .of_table rfl (by simp [OpBody.target])
        · exact (nomatch he)
    · obtain ⟨p, -, hp⟩ := List.mem_flatMap.1 hop
      split at hp
      · exact absurd hp List.not_mem_nil
      · unfold DecidedPlan.promotionOps at hp
        split at hp
        · obtain rfl := List.mem_singleton.1 hp
          exact .edit rfl fun _ _ _ _ => ⟨rfl, rfl, rfl, rfl, rfl, rfl, rfl, rfl, rfl, .inl trivial,
            by simp [OpBody.itemChanges], .inl rfl⟩
        · exact absurd hp List.not_mem_nil
  · split at hop
    · exact absurd hop List.not_mem_nil
    · obtain rfl := List.mem_singleton.1 hop
      exact secretOp_rules

end Save

end

end SecondMind
