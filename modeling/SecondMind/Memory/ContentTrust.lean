import SecondMind.Memory.Batch

/-!
# What content may do

Material read from a page or a file is data.  Its ops carry the trust `contentDerived`,
and the rule `pTrust1` lets them store items and what these mention, and fill in the page
of a saved link.  This file follows that rule through the appliers, for every batch of
such ops that no one confirmed.

* `contentOp_cases` — the ops that pass;
* `ContentStep` — what one of them can do to the tables, and `apply_contentStep`;
* `Writer.commit_contentSafe_iff` — a commit leaves alone what the person said exactly when
  the last content it gives an entity that was there is the content the entity had.
-/

namespace SecondMind

open Keyed Policy

/-! ## The ops that pass -/

/-- An op of content that the rules allow writes nothing to core; it fills in its own item,
or it is one of the ops content may use and makes neither a rule nor a trigger. -/
theorem contentFacts_of_allowed {about : OpFacts} {ctx : PolicyContext}
    (htrust : about.trust = .contentDerived) (h : (evaluate about ctx).decision = .allowed) :
    about.coreWrite = false ∧
      (about.op = .update ∧ about.fillsOwnItem = true ∨
        about.kind ≠ some .rule ∧ about.createsTrigger = false ∧ about.op ∈ contentAllowedOps) := by
  have hrule : pTrust1 about ctx = none := evaluate_allowed_iff.1 h pTrust1 (by simp [rules])
  unfold pTrust1 at hrule
  rw [if_neg (by simp [htrust])] at hrule
  split at hrule
  · cases hrule
  · rename_i hcore
    refine ⟨by simpa using hcore, ?_⟩
    split at hrule
    · rename_i hfill
      exact .inl ⟨hfill.1, hfill.2.1⟩
    · split at hrule
      · cases hrule
      · rename_i hnot
        simp only [not_or, Decidable.not_not, Bool.not_eq_true] at hnot
        exact .inr hnot

/-- Every op is judged under its own label and its own trust. -/
theorem facts_label (t : Tables) (op : Op) (created : Finset Uuid) :
    (facts t op created).op = opLabel op ∧ (facts t op created).trust = op.trust := by
  unfold facts
  dsimp only
  repeat' split
  all_goals exact ⟨rfl, rfl⟩

theorem changes_eq_empty {changes : ItemChanges} (hq : changes.onlyQuick = true)
    (hp : changes.onlyPage = true) : changes = {} := by
  rw [ItemChanges.onlyQuick, decide_eq_true_eq] at hq
  rw [ItemChanges.onlyPage, decide_eq_true_eq] at hp
  have htitle : changes.title = none := congrArg ItemChanges.title hq
  have hsummary : changes.summary = none := congrArg ItemChanges.summary hq
  have htags : changes.tags = none := congrArg ItemChanges.tags hq
  rw [← hp, ← htitle, ← hsummary, ← htags]

/-- The ops content may have applied. -/
inductive ContentOp (t : Tables) : OpBody → Prop
  | create {itemId : Uuid} {item : ItemContent} {entities : List EntityLink}
      {slug name : Option String} (hkind : item.kind ≠ .rule) (hcore : item.inCore = false) :
      ContentOp t (.createItem itemId item entities [] slug name)
  | link (linkId srcId : Uuid) (linkType : LinkType) (dstId : Uuid) :
      ContentOp t (.linkItems linkId srcId linkType dstId)
  | attach (rowId itemId entityId : Uuid) (role : EntityRole) :
      ContentOp t (.attachEntity rowId itemId entityId role)
  | upsert (entityId : Uuid) (entity : EntityContent) (create : Bool) :
      ContentOp t (.upsertEntity entityId entity create)
  | fill {itemId : Uuid} {changes : ItemChanges} {before : ItemRecord}
      (stored : t.getItem itemId = some before) (hkind : before.kind = .resource)
      (hsource : before.source = .link) (hpage : changes.onlyPage = true)
      (hcore : before.inCore = true → changes = {}) : ContentOp t (.updateItem itemId changes)

theorem contentOp_of_allowed {t : Tables} {op : Op} {created : Finset Uuid} {ctx : PolicyContext}
    (htrust : op.trust = .contentDerived)
    (h : (evaluate (facts t op created) ctx).decision = .allowed) : ContentOp t op.body := by
  obtain ⟨hlabel, htrust'⟩ := facts_label t op created
  obtain ⟨hcore, hcases⟩ := contentFacts_of_allowed (htrust'.trans htrust) h
  rw [hlabel] at hcases
  obtain ⟨title, rationale, trust, origin, body⟩ := op
  cases body with
  | createItem itemId item entities triggers slug name =>
    rcases hcases with ⟨hop, -⟩ | ⟨hkind, htriggers, -⟩
    · exact (nomatch hop)
    · have hnil : triggers = [] := by simpa [facts] using htriggers
      subst hnil
      exact .create (fun e => hkind (congrArg some e)) hcore
  | linkItems => exact .link _ _ _ _
  | attachEntity => exact .attach _ _ _ _
  | upsertEntity => exact .upsert _ _ _
  | updateItem itemId changes =>
    rcases hcases with ⟨-, hfill⟩ | ⟨-, -, hop⟩
    · cases hget : t.getItem itemId with
      | none => simp [facts, OpBody.target, hget] at hfill
      | some before =>
        simp only [facts, OpBody.target, hget, itemFacts, fillsOwnItem, decide_eq_true_eq] at hfill
        obtain ⟨-, hkind, hsource, hpage⟩ := hfill
        refine .fill hget hkind hsource hpage fun hin => ?_
        have hnone : changes.inCore = none := by
          rw [ItemChanges.onlyPage, decide_eq_true_eq] at hpage
          exact congrArg ItemChanges.inCore hpage
        have hquick : changes.onlyQuick = true := by
          simpa [facts, OpBody.target, hget, itemFacts, OpBody.itemChanges, hnone, hin, opLabel,
            OpBody.label] using hcore
        exact changes_eq_empty hquick hpage
    · simp [opLabel, OpBody.label, contentAllowedOps] at hop
  | updateTrigger =>
    simp [facts, OpBody.target, opLabel, OpBody.label, contentAllowedOps] at hcases
  | _ => simp [opLabel, OpBody.label, contentAllowedOps] at hcases

/-! ## What one of them does -/

/-- An item that only its own page was filled in of, if anything: everything but the title,
the summary, the tags and the stamps of the change is as it was. -/
def PageOnly (old new : ItemRecord) : Prop :=
  new = { old with updatedAt := new.updatedAt, updatedByTurnId := new.updatedByTurnId } ∨
    (old.kind = .resource ∧ old.source = .link ∧ old.inCore = false) ∧
      new = { old with title := new.title, summary := new.summary, tags := new.tags
                       updatedAt := new.updatedAt, updatedByTurnId := new.updatedByTurnId }

theorem PageOnly.refl (r : ItemRecord) : PageOnly r r := .inl rfl

theorem PageOnly.trans {r s t : ItemRecord} (h : PageOnly r s) (h' : PageOnly s t) :
    PageOnly r t := by
  rcases h with h | ⟨hr, h⟩
  · rcases h' with h' | ⟨hs, h'⟩
    · left
      rw [h', h]
    · right
      rw [h] at hs
      refine ⟨hs, ?_⟩
      rw [h', h]
  · right
    refine ⟨hr, ?_⟩
    rcases h' with h' | ⟨-, h'⟩
    · rw [h', h]
    · rw [h', h]

/-- The content an op gives an entity that is there. -/
def OpBody.gives (id : Uuid) : OpBody → Option EntityContent
  | .upsertEntity entityId entity false => if entityId = id then some entity else none
  | _ => none

/-- What content ops may make of the tables; `f` is what they make of the content of an
entity that is there. -/
structure ContentKept (f : Uuid → EntityContent → EntityContent) (t t' : Tables) : Prop where
  item : ∀ id old, t.getItem id = some old → ∃ new, t'.getItem id = some new ∧ PageOnly old new
  newItem : ∀ id new, t'.getItem id = some new → t.getItem id = none →
    new.kind ≠ .rule ∧ new.inCore = false
  entity : ∀ id old, t.getEntity id = some old → ∃ new, t'.getEntity id = some new ∧
    new.toEntityContent = f id old.toEntityContent
  triggers : t'.triggers = t.triggers

theorem ContentKept.of_same {t t' : Tables} (hitems : t'.items = t.items)
    (hentities : t'.entities = t.entities) (htriggers : t'.triggers = t.triggers) :
    ContentKept (fun _ c => c) t t' := by
  refine ⟨fun id old h => ⟨old, ?_, .refl old⟩, fun id new h h' => ?_, fun id old h => ⟨old, ?_, rfl⟩,
    htriggers⟩
  · rw [MemoryTables.getItem, hitems]
    exact h
  · rw [MemoryTables.getItem, hitems] at h
    rw [MemoryTables.getItem, h] at h'
    cases h'
  · rw [MemoryTables.getEntity, hentities]
    exact h

theorem ContentKept.refl (t : Tables) : ContentKept (fun _ c => c) t t := .of_same rfl rfl rfl

theorem ContentKept.trans {f g : Uuid → EntityContent → EntityContent} {t u v : Tables}
    (h : ContentKept f t u) (h' : ContentKept g u v) :
    ContentKept (fun id c => g id (f id c)) t v := by
  refine ⟨fun id old hold => ?_, fun id new hnew hnone => ?_, fun id old hold => ?_,
    h'.triggers.trans h.triggers⟩
  · obtain ⟨mid, hmid, hpage⟩ := h.item id old hold
    obtain ⟨new, hnew, hpage'⟩ := h'.item id mid hmid
    exact ⟨new, hnew, hpage.trans hpage'⟩
  · cases hmid : u.getItem id with
    | none => exact h'.newItem id new hnew hmid
    | some mid =>
      obtain ⟨hkind, hcore⟩ := h.newItem id mid hmid hnone
      obtain ⟨new', hnew', hpage⟩ := h'.item id mid hmid
      rw [hnew] at hnew'
      obtain rfl := Option.some.inj hnew'
      rcases hpage with hpage | ⟨-, hpage⟩
      · rw [hpage]
        exact ⟨hkind, hcore⟩
      · rw [hpage]
        exact ⟨hkind, hcore⟩
  · obtain ⟨mid, hmid, hc⟩ := h.entity id old hold
    obtain ⟨new, hnew, hc'⟩ := h'.entity id mid hmid
    exact ⟨new, hnew, hc'.trans (congrArg (g id) hc)⟩

/-- No item of a sort was added, changed or lost. -/
def SameItems (t t' : Tables) (sort : ItemContent → Bool) : Prop :=
  ∀ id, ((t'.getItem id).map (·.toItemContent)).filter sort =
    ((t.getItem id).map (·.toItemContent)).filter sort

/-- What the person said is as it was: of the items that were there, at most the page of a
saved link changed; the entities that were there have their content; and no rule, no
trigger and nothing in the core view was added, changed or lost. -/
structure ContentSafe (t t' : Tables) : Prop where
  item : ∀ id old, t.getItem id = some old → ∃ new, t'.getItem id = some new ∧ PageOnly old new
  entity : ∀ id old, t.getEntity id = some old → ∃ new, t'.getEntity id = some new ∧
    new.toEntityContent = old.toEntityContent
  rules : SameItems t t' (·.kind = .rule)
  triggers : t'.triggers = t.triggers
  core : SameItems t t' inCoreView

/-- Nothing changes of a sort that only rules and core items are of. -/
theorem ContentKept.sameItems {f : Uuid → EntityContent → EntityContent} {t t' : Tables}
    (h : ContentKept f t t') {sort : ItemContent → Bool}
    (hsort : ∀ c : ItemContent, c.kind ≠ .rule → c.inCore = false → sort c = false) :
    SameItems t t' sort := by
  intro id
  cases hold : t.getItem id with
  | none =>
    cases hget : t'.getItem id with
    | none => rfl
    | some new =>
      obtain ⟨hkind, hcore⟩ := h.newItem id new hget hold
      simp [Option.filter, hsort new.toItemContent hkind hcore]
  | some old =>
    obtain ⟨new, hget, hpageOnly⟩ := h.item id old hold
    rw [hget]
    rcases hpageOnly with he | ⟨⟨hkind, -, hcore⟩, he⟩
    · have hcontent : new.toItemContent = old.toItemContent := by rw [he]
      rw [Option.map_some, Option.map_some, hcontent]
    · have hnew : sort new.toItemContent = false := by
        rw [he]
        exact hsort _ (by simp [hkind]) hcore
      have hold' : sort old.toItemContent = false := hsort _ (by simp [hkind]) hcore
      simp [Option.filter, hnew, hold']

theorem inCoreView_of_not_inCore {c : ItemContent} (h : c.inCore = false) : inCoreView c = false := by
  rw [inCoreView, if_pos (by simp [h])]

theorem ContentKept.of_memory {f : Uuid → EntityContent → EntityContent} {t u t' u' : Tables}
    (h : ContentKept f t u) (ht : t'.toMemoryTables = t.toMemoryTables)
    (hu : u'.toMemoryTables = u.toMemoryTables) : ContentKept f t' u' := by
  refine ⟨?_, ?_, ?_, ?_⟩
  · rw [ht, hu]; exact h.item
  · rw [ht, hu]; exact h.newItem
  · rw [ht, hu]; exact h.entity
  · rw [ht, hu]; exact h.triggers

theorem changes_eq_page {changes : ItemChanges} (h : changes.onlyPage = true) :
    changes = { title := changes.title, summary := changes.summary, tags := changes.tags } := by
  rw [ItemChanges.onlyPage, decide_eq_true_eq] at h
  have hwith : changes = { { changes with title := none, summary := none, tags := none } with
      title := changes.title, summary := changes.summary, tags := changes.tags } := rfl
  rw [h] at hwith
  exact hwith

namespace Writer

variable {w : Writer}

/-- Filling in the page of an item leaves the rest of it. -/
theorem edited_page {before : ItemRecord} {changes : ItemChanges}
    (h : changes.onlyPage = true) :
    w.edited before changes =
      { before with title := changes.title.getD before.title
                    summary := changes.summary.getD before.summary
                    tags := changes.tags.getD before.tags
                    updatedAt := w.turn.now, updatedByTurnId := w.turn.turnId } := by
  have hpage := changes_eq_page h
  have hcore : changes.inCore = none := by rw [hpage]
  have hcontent : w.changedContent before.toItemContent changes =
      changes.apply before.toItemContent := by
    rw [changedContent, if_neg (by simp [hcore])]
  rw [edited, hcontent, hpage]
  rfl

theorem fill_contentKept {t : Tables} {itemId : Uuid} {changes : ItemChanges}
    {before : ItemRecord} (stored : t.getItem itemId = some before) (hkind : before.kind = .resource)
    (hsource : before.source = .link) (hpage : changes.onlyPage = true)
    (hcore : before.inCore = true → changes = {}) :
    ContentKept (fun _ c => c) t (storeItem t (w.edited before changes)) := by
  have hid : before.id = itemId := KeyTable.key_of_lookup stored
  have hedited : w.edited before changes = _ := edited_page hpage
  have hkept : t.keepAccess (w.edited before changes) = w.edited before changes := by
    rw [Tables.keepAccess_of_stored (r := w.edited before changes) (hid ▸ stored), hedited]
  have hstore : storeItem t (w.edited before changes) =
      { t with items := t.items.put (w.edited before changes) } := by
    rw [storeItem, hkept]
  have hpageOnly : PageOnly before (w.edited before changes) := by
    by_cases hin : before.inCore = true
    · left
      rw [hedited, hcore hin]
      rfl
    · right
      refine ⟨⟨hkind, hsource, by simpa using hin⟩, ?_⟩
      rw [hedited]
  rw [hstore]
  have hsame := ContentKept.refl t
  refine ⟨fun id old hold => ?_, fun id new hnew hnone => ?_, hsame.entity, rfl⟩
  · by_cases he : id = (w.edited before changes).id
    · rw [he, id_edited, hid, stored] at hold
      obtain rfl := Option.some.inj hold
      exact ⟨_, (congrArg _ he).trans (KeyTable.lookup_put_self _ _), hpageOnly⟩
    · exact ⟨old, (KeyTable.lookup_put_of_ne _ he).trans hold, .refl old⟩
  · have hne : id ≠ (w.edited before changes).id := by
      intro e
      rw [e, id_edited, hid, stored] at hnone
      cases hnone
    have hsame : t.getItem id = some new := (KeyTable.lookup_put_of_ne _ hne).symm.trans hnew
    rw [hnone] at hsame
    cases hsame

theorem apply_contentKept {t t' : Tables} {i : Nat} {log log' : RowLog} {body : OpBody}
    (hop : ContentOp t body) (h : w.apply t i log body = .ok (t', log')) :
    ContentKept (fun id c => (body.gives id).getD c) t t' := by
  cases hop with
  | @create itemId item entities slug name hkind hcore =>
    obtain ⟨record, hnew, hfree, hitems, hentities, htriggers⟩ := createItem_frame h
    obtain ⟨⟨c, hcontent⟩, -, hid, -, -⟩ := newItem_eq_ok hnew
    obtain ⟨hk, -, hc, -⟩ := w.newContent_kind item
    refine ⟨fun id old hold => ⟨old, ?_, .refl old⟩, fun id new hnew' hnone => ?_,
      fun id old hold => ⟨old, ?_, rfl⟩, htriggers rfl⟩
    · have hne : id ≠ record.id := by
        intro e
        rw [e, hid, hfree] at hold
        cases hold
      rw [MemoryTables.getItem, hitems, KeyTable.lookup_put_of_ne _ hne]
      exact hold
    · rw [MemoryTables.getItem, hitems, KeyTable.lookup_put] at hnew'
      split at hnew'
      · obtain rfl := Option.some.inj hnew'
        rw [hcontent]
        exact ⟨hk ▸ hkind, hc.trans hcore⟩
      · rw [MemoryTables.getItem, hnew'] at hnone
        cases hnone
    · rw [MemoryTables.getEntity, hentities]
      exact hold
  | link =>
    obtain ⟨-, -, h⟩ := linkItems_eq_ok.1 h
    obtain ⟨-, hx⟩ := insertLink_eq_ok.1 h
    obtain ⟨rfl, rfl⟩ := Prod.mk.inj hx
    exact .of_same rfl rfl rfl
  | attach =>
    obtain ⟨-, -, hx⟩ := attach_eq_ok.1 h
    obtain ⟨rfl, rfl⟩ := Prod.mk.inj hx
    exact .of_same rfl rfl rfl
  | upsert entityId entity create =>
    rcases upsertEntity_eq_ok.1 h with ⟨rfl, hfree, -, hx⟩ | ⟨rfl, before, hget, -, hx⟩
    · obtain ⟨rfl, rfl⟩ := Prod.mk.inj hx
      have hsame := ContentKept.refl t
      refine ⟨hsame.item, hsame.newItem, fun id old hold => ⟨old, ?_, rfl⟩, rfl⟩
      have hne : id ≠ entityId := by
        intro e
        rw [e, hfree] at hold
        cases hold
      exact (KeyTable.lookup_put_of_ne _ hne).trans hold
    · obtain ⟨rfl, rfl⟩ := Prod.mk.inj hx
      obtain rfl : before.id = entityId := KeyTable.key_of_lookup hget
      have hsame := ContentKept.refl t
      refine ⟨hsame.item, hsame.newItem, fun id old hold => ?_, rfl⟩
      by_cases hid : before.id = id
      · subst hid
        rw [hget] at hold
        obtain rfl := Option.some.inj hold
        refine ⟨w.editedEntity before entity, KeyTable.lookup_put_self _ _, ?_⟩
        simp [OpBody.gives, editedEntity]
      · refine ⟨old, ?_, by simp [OpBody.gives, hid]⟩
        have hne : id ≠ (w.editedEntity before entity).id := fun e => hid e.symm
        exact (KeyTable.lookup_put_of_ne _ hne).trans hold
  | @fill itemId changes before stored hkind hsource hpage hcore =>
    obtain ⟨before', after, hget, rfl, -, -, -, hx⟩ := changeItem_eq_ok.1 h
    rw [stored] at hget
    obtain rfl := Option.some.inj hget
    obtain ⟨rfl, rfl⟩ := Prod.mk.inj hx
    have hslug : changes.categorySlug = none := by rw [changes_eq_page hpage]
    rw [refile_of_none hslug]
    exact fill_contentKept stored hkind hsource hpage hcore

/-! ## The batch -/

/-- Without confirmation, in a batch that is not held whole, an entity upsert of content is
allowed. -/
theorem evaluate_upsert {t : Tables} {op : Op} {created : Finset Uuid} {id : Uuid}
    {c : EntityContent} {create : Bool} (hbody : op.body = .upsertEntity id c create)
    (hunconfirmed : w.confirmed = false) (hwhole : w.heldWhole = false) :
    (evaluate (facts t op created) w.context).decision = .allowed := by
  have hbulk : ¬ w.settings.bulkThreshold < (editedItems w.ops).card := by
    simpa [heldWhole, hunconfirmed] using hwhole
  have hfacts : facts t op created =
      { op := .upsertEntity, trust := op.trust, origin := op.origin, target := .entity
        editsExisting := !create } := by
    simp [facts, hbody, opLabel, OpBody.label, OpBody.target, OpBody.creates]
  rw [evaluate_allowed_iff, hfacts]
  intro rule hrule
  simp only [rules, List.mem_cons, List.not_mem_nil, or_false] at hrule
  rcases hrule with rfl | rfl | rfl | rfl | rfl | rfl | rfl
  · simp [pSecret1]
  · simp [pTrust1, contentAllowedOps]
  · simp [pMod1]
  · simp [pInfer1]
  · simp [pSens1]
  · simp [pCore1]
  · simp [pBulk1, context, hbulk]

theorem verdict_upsert {t : Tables} {op : Op} {id : Uuid} {c : EntityContent} {create : Bool}
    {v : PolicyVerdict} (hbody : op.body = .upsertEntity id c create)
    (hunconfirmed : w.confirmed = false) (hwhole : w.heldWhole = false)
    (h : w.verdict t op = .ok v) : v.decision = .allowed := by
  have heval : (evaluate (facts t op (createdItems w.ops)) w.context).decision = .allowed :=
    evaluate_upsert hbody hunconfirmed hwhole
  have hcore : (facts t op (createdItems w.ops)).coreWrite = false := by
    simp [facts, hbody, OpBody.target]
  unfold verdict at h
  dsimp only at h
  rw [if_neg (by simp [hcore])] at h
  cases h
  exact heval

/-- An upsert that is skipped was about an entity that is not there, or that was to be
made. -/
theorem gives_of_skip {t t' : Tables} {i : Nat} {log : RowLog} {body : OpBody} {reason : String}
    (h : w.apply t i log body = .error (.skip t' reason)) {id : Uuid} {old : EntityRecord}
    (hold : t.getEntity id = some old) : body.gives id = none := by
  cases body with
  | upsertEntity entityId entity create =>
    cases create with
    | true => rfl
    | false =>
      by_cases hid : entityId = id
      · subst hid
        simp only [apply, upsertEntity, hold] at h
        rcases bind_eq_error.1 h with h | ⟨_, -, h⟩
        · exact absurd h run_ne_skip
        · cases h
      · simp [OpBody.gives, hid]
  | _ => rfl

/-- What one op of content makes of the tables, whether it is applied or not. -/
theorem step_contentKept {sb i : Nat} {p p' : Progress} {op : Op}
    (htrust : op.trust = .contentDerived) (hunconfirmed : w.confirmed = false)
    (hwhole : w.heldWhole = false) (h : w.step sb i p op = .ok p') :
    ContentKept (fun id c => (op.body.gives id).getD c) p.tables p'.tables := by
  rcases step_cases h with ⟨v, hv, hd, rfl⟩ | ⟨v, t₁, reason, -, -, ha, rfl⟩ |
    ⟨v, t₁, log, hv, hd, ha, rfl⟩
  · have hsame := ContentKept.refl p.tables
    have hgives : ∀ id, op.body.gives id = none := by
      intro id
      cases hbody : op.body with
      | upsertEntity => exact absurd (verdict_upsert hbody hunconfirmed hwhole hv) hd
      | _ => rfl
    rw [refuse_tables]
    simpa [hgives] using hsame
  · have same := (apply_skip ha).memory
    have hsame : ContentKept (fun _ c => c) p.tables t₁ :=
      .of_same (by rw [same]) (by rw [same]) (by rw [same])
    refine ⟨hsame.item, hsame.newItem, fun id old hold => ?_, hsame.triggers⟩
    rw [gives_of_skip ha hold]
    exact hsame.entity id old hold
  · exact apply_contentKept (contentOp_of_allowed htrust (verdict_allowed hv hd).1) ha

/-- The last content a batch gives an entity that is there. -/
def lastGiven (ops : List Op) (id : Uuid) : Option EntityContent :=
  (ops.filterMap fun op => op.body.gives id).getLast?

theorem lastGiven_cons (op : Op) (ops : List Op) (id : Uuid) (c : EntityContent) :
    (lastGiven (op :: ops) id).getD c = (lastGiven ops id).getD ((op.body.gives id).getD c) := by
  unfold lastGiven
  cases h : op.body.gives id with
  | none => simp [h]
  | some given =>
    rw [List.filterMap_cons, h]
    cases hrest : (ops.filterMap fun op => op.body.gives id) with
    | nil => rfl
    | cons g gs => simp [List.getLast?_cons]

theorem steps_contentKept {sb : Nat} {ops : List Op} (hunconfirmed : w.confirmed = false)
    (hwhole : w.heldWhole = false) (htrust : ∀ op ∈ ops, op.trust = .contentDerived) {i : Nat}
    {p p' : Progress} (h : w.steps sb i p ops = .ok p') :
    ContentKept (fun id c => (lastGiven ops id).getD c) p.tables p'.tables := by
  induction ops generalizing i p with
  | nil =>
    cases h
    exact .refl p'.tables
  | cons op ops ih =>
    obtain ⟨p₁, h₁, h⟩ := bind_eq_ok.1 h
    have hstep := step_contentKept (htrust op List.mem_cons_self) hunconfirmed hwhole h₁
    have hrest := ih (fun op hop => htrust op (List.mem_cons_of_mem _ hop)) h
    simpa only [lastGiven_cons] using hstep.trans hrest

/-- **Content leaves alone what the person said** exactly when the last content the batch
gives an entity that was there is the content the entity had.  Everything else it does is
safe, whatever the ops. -/
theorem commit_contentSafe_iff {t t' : Tables} {res : CommitResult}
    (hunconfirmed : w.confirmed = false) (htrust : ∀ op ∈ w.ops, op.trust = .contentDerived)
    (h : w.commit t = .ok (t', res)) :
    ContentSafe t t' ↔ w.heldWhole = true ∨
      ∀ id old c, t.getEntity id = some old → lastGiven w.ops id = some c →
        c = old.toEntityContent := by
  have hsafe : ∀ {f}, ContentKept f t t' → (ContentSafe t t' ↔
      ∀ id old, t.getEntity id = some old → f id old.toEntityContent = old.toEntityContent) := by
    intro f hkept
    constructor
    · intro safe id old hold
      obtain ⟨new, hnew, hc⟩ := safe.entity id old hold
      obtain ⟨new', hnew', hc'⟩ := hkept.entity id old hold
      rw [hnew] at hnew'
      obtain rfl := Option.some.inj hnew'
      exact hc'.symm.trans hc
    · intro hf
      refine ⟨hkept.item, fun id old hold => ?_, hkept.sameItems fun c hkind _ => by simp [hkind],
        hkept.triggers, hkept.sameItems fun c _ hcore => inCoreView_of_not_inCore hcore⟩
      obtain ⟨new, hnew, hc⟩ := hkept.entity id old hold
      exact ⟨new, hnew, hc.trans (hf id old hold)⟩
  obtain ⟨p, hp⟩ := commit_parts h
  have hbatch := hp.batch
  unfold applyAll at hbatch
  split at hbatch
  · rename_i hwhole
    cases hbatch
    have hkept := (ContentKept.refl t).of_memory rfl (hp.memory.trans (w.writeVocab_memory t))
    rw [hsafe hkept]
    exact iff_of_true (fun _ _ _ => rfl) (.inl hwhole)
  · rename_i hwhole
    have hkept := (steps_contentKept hunconfirmed (by simpa using hwhole) htrust hbatch).of_memory
      (w.writeVocab_memory t).symm hp.memory
    rw [hsafe hkept, or_iff_right hwhole]
    constructor
    · intro hall id old c hold hlast
      have hgiven := hall id old hold
      rw [hlast] at hgiven
      exact hgiven
    · intro hall id old hold
      cases hlast : lastGiven w.ops id with
      | none => rfl
      | some c => exact hall id old c hold hlast

/-! ### A page that renames the person -/

/-- A job that read a page, with one op. -/
def readPage (body : OpBody) : Writer :=
  { backend := .sql, turn := { turnId := 7, kind := .system, now := 1 }
    ops := [{ trust := .contentDerived, origin := .content, body := body }] }

/-- The page gives the entity `me` another name. -/
theorem readPage_renames_me :
    ∃ t' res, (readPage (.upsertEntity 0 { kind := .self, name := "you" } false)).commit
      (Tables.initial 0) = .ok (t', res) ∧ ¬ ContentSafe (Tables.initial 0) t' := by
  refine ⟨_, _, rfl, fun safe => ?_⟩
  obtain ⟨new, hnew, hcontent⟩ := safe.entity 0 _ rfl
  have hyou : some "you" = some new.name :=
    congrArg (Option.map fun e : EntityRecord => e.name) hnew
  have hme : new.name = "me" := congrArg EntityContent.name hcontent
  rw [hme] at hyou
  exact absurd hyou (by decide)

/-- The page is stored as a note. -/
def pageNote : OpBody :=
  .createItem 1 { kind := .note, state := "current", text := "a page", title := "a page",
                  mentionedAt := 0 } [] [] none none

theorem readPage_stores_note :
    ∃ t' res, (readPage pageNote).commit (Tables.initial 0) = .ok (t', res) ∧
      ContentSafe (Tables.initial 0) t' := by
  refine ⟨_, _, rfl, (commit_contentSafe_iff (w := readPage pageNote) rfl ?_ rfl).2 (.inr ?_)⟩
  · intro op hop
    rw [List.mem_singleton.1 hop]
  · intro id old c _ hlast
    exact (nomatch hlast)

end Writer
end SecondMind
