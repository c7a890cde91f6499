import SecondMind.Ingestion.SaveRows
import SecondMind.Memory.Secrets
import Mathlib.Data.List.Flatten
import Mathlib.Data.Nat.Pairing

/-!
# The keys of a save

On `sql` a row whose key is taken, or which names a row that is not there, fails its statement, and
with it the turn.  Nothing in a save looks for such rows: an item may name one entity twice in one
role, a link may be stated twice, and the evidence of a relation may be a memory that the policy
refuses.

* `Save.KeysClear` — what the plans and the store must be like for the rows of an op;
* `Save.stored_of_standing` — which items are there once the creates of a save are through;
* `save_keys_iff` — the ops of a save keep the keys exactly when their rows are clear;
* `twice_named_fails` — a message that names one show twice, and is lost.
-/

namespace SecondMind

open Keyed Reconciler

/-! ## What the keys ask -/

/-- The rows that an op puts into the store `u` take no key that is taken, and name items and
entities that are there.  That the entities of a new item are there the op checks itself. -/
def KeysHold (u : MemoryTables) : OpBody → Prop
  | .createItem itemId _ entities _ _ _ =>
    u.getItem itemId = none →
      (entities.map fun e => (e.entityId, e.role)).Nodup ∧
        ∀ e ∈ entities, ∀ row ∈ u.itemEntities.rows,
          ¬ (row.itemId = itemId ∧ row.entityId = e.entityId ∧ row.role = e.role)
  | .supersedeItem oldId newId _ _ _ => u.isLive oldId = true → u.isLive newId = true →
    ∀ row ∈ u.links.rows,
      ¬ (row.srcItemId = newId ∧ row.linkType = .supersedes ∧ row.dstItemId = oldId)
  | .fulfilIntention intentionId episodeId _ _ =>
    u.isLive intentionId = true → u.isLive episodeId = true → ∀ row ∈ u.links.rows,
      ¬ (row.srcItemId = episodeId ∧ row.linkType = .fulfils ∧ row.dstItemId = intentionId)
  | .linkItems _ srcId linkType dstId => u.isLive srcId = true → u.isLive dstId = true →
    ∀ row ∈ u.links.rows,
      ¬ (row.srcItemId = srcId ∧ row.linkType = linkType ∧ row.dstItemId = dstId)
  | .relateEntities _ src _ dst _ evidence =>
    (u.getEntity src).isSome ∧ (u.getEntity dst).isSome ∧ ∀ i ∈ evidence, (u.getItem i).isSome
  | _ => True

/-- The batch of `w` comes to `op`, after the ops `pre`, on the tables `u`. -/
structure Writer.ComesTo (w : Writer) (t : Tables) (pre : List Op) (op : Op) (u : Tables) : Prop where
  apart : w.heldWhole = false
  within : ∃ post, w.ops = pre ++ op :: post
  reached : ∃ q, w.steps (w.seqBase t) 0 { tables := w.writeVocab t } pre = .ok q ∧ q.tables = u

/-- The policy refuses no memory but a hypothetical that is not a note. -/
def DecidedPlan.Admitted (p : DecidedPlan) : Prop :=
  p.draft.content.modality = .hypothetical → p.draft.content.kind = .note

namespace Save

variable (s : Save) (t : MemoryTables) (plans : List DecidedPlan)

/-- The item is stored, or a plan makes it. -/
def Standing (id : Uuid) : Prop :=
  (t.getItem id).isSome ∨ ∃ p ∈ plans, p.merged = none ∧ p.draft.itemId = id ∧ p.Admitted

/-- The entity is stored, or the message introduces it. -/
def Introduced (id : Uuid) : Prop :=
  (t.getEntity id).isSome ∨ ∃ e ∈ s.entities, ∃ u, e.2.op = some u ∧ u.create = true ∧ u.entityId = id

/-- No item is given one entity twice in one role, no link is stored or was stated before, and a
relation names entities and a memory that stand. -/
def KeysClear (pre : List Op) : OpBody → Prop
  | .createItem _ _ entities _ _ _ => (entities.map fun e => (e.entityId, e.role)).Nodup
  | .linkItems _ srcId linkType dstId => Standing t plans srcId → Standing t plans dstId →
    (∀ row ∈ t.links.rows,
      ¬ (row.srcItemId = srcId ∧ row.linkType = linkType ∧ row.dstItemId = dstId)) ∧
      ∀ o ∈ pre, ∀ linkId, o.body ≠ .linkItems linkId srcId linkType dstId
  | .relateEntities _ src _ dst _ evidence => s.Introduced t src ∧ s.Introduced t dst ∧
    ∀ i ∈ evidence, Standing t plans i
  | _ => True

end Save

/-! ## What the policy lets through -/

namespace Policy

/-- No rule speaks up about a plain op of a user's turn. -/
theorem evaluate_plain {op : OpFacts} {ctx : PolicyContext} (htrust : op.trust = .userStated)
    (hsens : op.sensitivity = .normal) (hmod : op.modality = .asserted) (hkind : op.kind = none)
    (hcore : op.coreWrite = false) (hedit : op.editsExisting = false) (huser : ctx.turnKind = .user) :
    (evaluate op ctx).decision = .allowed := by
  rw [evaluate_allowed_iff]
  simp [rules, pSecret1, pTrust1, pMod1, pInfer1, pSens1, pCore1, pBulk1, htrust, hsens, hmod, hkind,
    hcore, hedit, huser]

/-- What the rules say about a new item outside core, in a user's turn. -/
theorem evaluate_create_iff {op : OpFacts} {ctx : PolicyContext} {kind : Kind}
    (hop : op.op = .create) (htrust : op.trust = .userStated) (hsens : op.sensitivity ≠ .secret)
    (hkind : op.kind = some kind) (hpattern : kind ≠ .pattern) (hcore : op.coreWrite = false)
    (hedit : op.editsExisting = false) (huser : ctx.turnKind = .user) :
    (evaluate op ctx).decision = .allowed ↔ (op.modality = .hypothetical → kind = .note) := by
  rw [evaluate_allowed_iff]
  simp [rules, pSecret1, pTrust1, pMod1, pInfer1, pSens1, pCore1, pBulk1, hypotheticalKinds, hop,
    htrust, hsens, hkind, hpattern, hcore, hedit, huser]

end Policy

namespace Save

variable {s : Save} {t : Tables} {w : Writer} {plans : List DecidedPlan}

/-- The ops that make what the other ops of the batch are about. -/
def makes (s : Save) (plans : List DecidedPlan) : List Op :=
  if s.refuses then [] else s.entityOps ++ s.createOps plans

theorem mem_makes {op : Op} (h : op ∈ s.makes plans) :
    (∃ e ∈ s.entities, ∃ u, e.2.op = some u ∧ op = u.op) ∨
      ∃ (n : Nat) (p : DecidedPlan), plans[n]? = some p ∧ p.merged = none ∧
        op = p.createOp s.lib n := by
  unfold makes at h
  split at h
  · exact absurd h List.not_mem_nil
  · exact (List.mem_append.1 h).imp mem_entityOps.1 mem_createOps.1

/-- The op makes neither an item nor an entity. -/
def MakesNothing (body : OpBody) : Prop := Writer.madeEntity body = none ∧ body.createdItem = none

theorem changeOps_makeNothing {lib : PlanLib} {ctx : IngestContext} {n : Nat} {p : DecidedPlan}
    {op : Op} (h : op ∈ p.changeOps lib ctx n) : MakesNothing op.body := by
  unfold DecidedPlan.changeOps at h
  split at h
  · exact absurd h List.not_mem_nil
  · dsimp only at h
    split at h
    · rw [List.mem_singleton.1 h]
      exact ⟨rfl, rfl⟩
    · rw [List.mem_singleton.1 h]
      exact ⟨rfl, rfl⟩
    · rw [List.mem_singleton.1 h]
      exact ⟨rfl, rfl⟩
    · unfold DecidedPlan.detailOps at h
      dsimp only at h
      split at h
      · exact absurd h List.not_mem_nil
      · rw [List.mem_singleton.1 h]
        exact ⟨rfl, rfl⟩
    · exact absurd h List.not_mem_nil
    · exact absurd h List.not_mem_nil

/-- A link of a memory joins what its reference and the reference it states mean. -/
theorem mem_linkOps {ids : String → Option Uuid} {n : Nat} {p : DecidedPlan} {op : Op} :
    op ∈ s.linkOps ids n p ↔ ∃ i l src dst, p.proposed.links[i]? = some l ∧
      ids p.proposed.ref = some src ∧ ids l.«to» = some dst ∧ src ≠ dst ∧
      op = { title := p.title ++ " · " ++ linkName l.type.1
             body := .linkItems (s.lib.newId (.memoryLink n i)) src l.type.1 dst } := by
  unfold linkOps
  rw [List.mem_filterMap]
  constructor
  · rintro ⟨e, he, h⟩
    split at h
    · rename_i src dst hsrc hdst
      split at h
      · exact (nomatch h)
      · rename_i hne
        cases h
        exact ⟨e.2, e.1, src, dst, List.mem_zipIdx_iff_getElem?.1 he, hsrc, hdst, hne, rfl⟩
    · exact (nomatch h)
  · rintro ⟨i, l, src, dst, hl, hsrc, hdst, hne, rfl⟩
    refine ⟨(l, i), List.mem_zipIdx_iff_getElem?.2 hl, ?_⟩
    dsimp only
    rw [hsrc, hdst]
    exact if_neg hne

/-- A relation joins the entities it names, on the evidence it names. -/
theorem mem_relations {ids : String → Option Uuid} {r : String × Op}
    (h : r ∈ s.relations ids) : ∃ (i : Nat) (src dst : EntityPlan) (slug : String)
      (evidence : Option String), r.2.body = .relateEntities (s.lib.newId (.relation i)) src.entityId
        slug dst.entityId none (evidence.bind ids) ∧ r.2.trust = .userStated := by
  obtain ⟨e, -, he⟩ := List.mem_filterMap.1 h
  unfold relationOp at he
  split at he
  · split at he
    · exact (nomatch he)
    · cases he
      exact ⟨_, _, _, _, _, rfl, rfl⟩
  · exact (nomatch he)

theorem promotionOps_makeNothing {p : DecidedPlan} {op : Op} (h : op ∈ p.promotionOps) :
    MakesNothing op.body := by
  unfold DecidedPlan.promotionOps at h
  split at h
  · rw [List.mem_singleton.1 h]
    exact ⟨rfl, rfl⟩
  · exact absurd h List.not_mem_nil

/-- The ops of the plans after those that make. -/
def usesOps (s : Save) (plans : List DecidedPlan) : List Op :=
  if s.refuses then []
  else
    s.changeOps plans ++ (plans.zipIdx.flatMap fun e => s.linkOps (idsByRef plans) e.2 e.1) ++
      (s.relations (idsByRef plans)).map (·.2) ++ promotionOps plans

theorem usesOps_makeNothing {op : Op} (h : op ∈ s.usesOps plans) : MakesNothing op.body := by
  unfold usesOps at h
  split at h
  · exact absurd h List.not_mem_nil
  · simp only [List.mem_append] at h
    rcases h with ((h | h) | h) | h
    · obtain ⟨n, p, -, hop⟩ := mem_changeOps.1 h
      exact changeOps_makeNothing hop
    · obtain ⟨e, -, hop⟩ := List.mem_flatMap.1 h
      obtain ⟨i, l, src, dst, -, -, -, -, rfl⟩ := mem_linkOps.1 hop
      exact ⟨rfl, rfl⟩
    · obtain ⟨r, hr, rfl⟩ := List.mem_map.1 h
      obtain ⟨i, src, dst, slug, evidence, hbody, -⟩ := mem_relations hr
      rw [hbody]
      exact ⟨rfl, rfl⟩
    · obtain ⟨p, -, hop⟩ := List.mem_flatMap.1 h
      split at hop
      · exact absurd hop List.not_mem_nil
      · exact promotionOps_makeNothing hop

/-- **A batch** first makes, then uses what it made, and ends with the secret, if there is one. -/
theorem writer_makes (hw : s.writer t.toMemoryTables = .ok w)
    (hplans : s.decidedPlans t.toMemoryTables = .ok plans) :
    w.turn.kind = .user ∧ w.confirmed = false ∧ (∀ op ∈ w.ops, s.OpOf plans op) ∧
      ∃ last, w.ops = s.makes plans ++ (s.usesOps plans ++ last) ∧ ∀ op ∈ last, op = s.secretOp := by
  obtain ⟨plans', hplans', hops⟩ := batch_ops hw
  rw [hplans] at hplans'
  cases hplans'
  unfold writer at hw
  unfold decidedPlans at hplans
  unfold makes usesOps
  split at hw
  · rename_i hrefuses
    cases hw
    refine ⟨rfl, rfl, hops, [s.secretOp], by rw [if_pos hrefuses, if_pos hrefuses]; rfl, ?_⟩
    exact fun op hop => List.mem_singleton.1 hop
  · rename_i hrefuses
    obtain ⟨made, hmade, hw⟩ := bind_eq_ok.1 hw
    rw [if_neg hrefuses, hmade] at hplans
    cases hplans
    cases hw
    refine ⟨rfl, rfl, hops, if s.secrets = [] then [] else [s.secretOp], ?_, ?_⟩
    · rw [if_neg hrefuses, if_neg hrefuses]
      simp only [turnWriter, ops, List.append_assoc]
    · intro op hop
      split at hop
      · exact absurd hop List.not_mem_nil
      · exact List.mem_singleton.1 hop

end Save

/-! ## What is there when a batch comes to an op -/

section

variable {s : Save} {t : Tables} {w : Writer} {plans : List DecidedPlan}

theorem Writer.allows_plain {u : Tables} {op : Op} (huser : w.turn.kind = .user)
    (htrust : op.trust = .userStated)
    (hfacts : facts u op (createdItems w.ops) =
      { op := opLabel op, trust := op.trust, origin := op.origin, target := op.body.target.1 }) :
    w.Allows u op := by
  rw [Writer.Allows, Writer.verdict_allowed_iff, hfacts]
  exact ⟨Policy.evaluate_plain htrust rfl rfl rfl rfl rfl huser, fun h => (nomatch h)⟩

/-- A new entity is never refused. -/
theorem Writer.allows_entity {u : Tables} {e : EntityUpsert} (huser : w.turn.kind = .user)
    (hcreate : e.create = true) : w.Allows u e.op := by
  refine Writer.allows_plain huser rfl ?_
  simp only [facts, EntityUpsert.op, OpBody.target, OpBody.creates, hcreate]
  rfl

/-- A link is never refused. -/
theorem Writer.allows_link {u : Tables} {op : Op} (huser : w.turn.kind = .user)
    (htrust : op.trust = .userStated) {linkId src dst : Uuid} {linkType : LinkType}
    (hbody : op.body = .linkItems linkId src linkType dst) : w.Allows u op := by
  refine Writer.allows_plain huser htrust ?_
  simp only [facts, hbody, OpBody.target]

/-- **A new item** is refused exactly when it is a hypothetical that is not a note. -/
theorem Save.allows_create_iff (huser : w.turn.kind = .user) {u : Tables}
    (hplans : s.decidedPlans t.toMemoryTables = .ok plans) {n : Nat} {p : DecidedPlan}
    (hp : plans[n]? = some p) : w.Allows u (p.createOp s.lib n) ↔ p.Admitted := by
  obtain ⟨m, hm, hplanned, -⟩ := Save.planned hplans hp
  obtain ⟨-, hcore, hsens, -⟩ := hplanned.toDrafted.fresh
  obtain ⟨f, sentiment, importance, quick, -, hcontent⟩ := hplanned.content
  have hkind : p.draft.content.kind = m.kind.1 := by rw [hcontent]; rfl
  have hopen : m.sensitivity ≠ .secret := by
    have hmem := (List.mem_filter.1 (List.mem_of_getElem? hm)).2
    simpa using hmem
  rw [Writer.Allows, Writer.verdict_allowed_iff]
  have hwrite : (facts u (p.createOp s.lib n) (createdItems w.ops)).coreWrite = false := hcore
  rw [hwrite]
  refine (and_iff_left fun h => (nomatch h)).trans ?_
  exact Policy.evaluate_create_iff rfl rfl (by rw [← hsens] at hopen; exact hopen) rfl
    (by rw [hkind]; exact m.kind.2) hwrite rfl huser

namespace Writer.ComesTo

variable {pre : List Op} {op : Op} {u : Tables}

theorem mem_ops (h : w.ComesTo t pre op u) {o : Op} (ho : o ∈ pre ∨ o = op) : o ∈ w.ops := by
  obtain ⟨post, hpost⟩ := h.within
  rw [hpost]
  rcases ho with ho | rfl
  · exact List.mem_append_left _ ho
  · exact List.mem_append_right _ List.mem_cons_self

/-- The tables a batch comes to have the rows of the ops that it applied. -/
theorem applied (hvalid : ValidExtraction s.lib.lib s.extraction)
    (hw : s.writer t.toMemoryTables = .ok w) (h : w.ComesTo t pre op u) :
    ∃ q, w.steps (w.seqBase t) 0 { tables := w.writeVocab t } pre = .ok q ∧ q.tables = u ∧
      w.Puts (Writer.appliedOps q.outcomes) t.toMemoryTables u.toMemoryTables ∧
      (Writer.appliedOps q.outcomes).Sublist pre ∧
      ∀ o ∈ Writer.appliedOps q.outcomes, ∃ v, w.Allows v o := by
  obtain ⟨q, hq, rfl⟩ := h.reached
  obtain ⟨done, hdone⟩ := Writer.steps_applied
    (fun o ho => Save.ops_saveOp hvalid hw (h.mem_ops (.inl ho))) hq
  have hputs := hdone.puts
  rw [Writer.writeVocab_memory] at hputs
  obtain rfl : Writer.appliedOps q.outcomes = done := hdone.outcomes
  exact ⟨q, hq, rfl, hputs, hdone.within, hdone.allowed⟩

/-- An op before it that is never refused was met, and then applied or skipped. -/
theorem met (hvalid : ValidExtraction s.lib.lib s.extraction)
    (hw : s.writer t.toMemoryTables = .ok w) (h : w.ComesTo t pre op u) {o : Op} (ho : o ∈ pre)
    (hallows : ∀ v, w.Allows v o) : ∃ a v x i log later, (∃ b, pre = a ++ o :: b) ∧
      w.ComesTo t a o v ∧ w.Puts later x.toMemoryTables u.toMemoryTables ∧
      ((∃ log', w.apply v i log o.body = .ok (x, log') ∧ ∀ q,
          w.steps (w.seqBase t) 0 { tables := w.writeVocab t } pre = .ok q →
            o ∈ Writer.appliedOps q.outcomes) ∨
        ∃ reason, w.apply v i log o.body = .error (.skip x reason)) := by
  obtain ⟨q, hq, rfl⟩ := h.reached
  obtain ⟨a, b, j, q₁, q₂, rfl, ha, hstep, hrest⟩ := Writer.steps_mem hq ho
  obtain ⟨post, hpost⟩ := h.within
  have hcomes : w.ComesTo t a o q₁.tables := by
    refine ⟨h.apart, ⟨b ++ op :: post, ?_⟩, q₁, ha, rfl⟩
    rw [hpost, List.append_assoc, List.cons_append]
  obtain ⟨later, hlater⟩ := Writer.steps_applied (fun o' ho' => Save.ops_saveOp hvalid hw
    (h.mem_ops (.inl (List.mem_append_right _ (List.mem_cons_of_mem _ ho'))))) hrest
  obtain ⟨v, hv, hd⟩ := hallows q₁.tables
  rcases Writer.step_cases hstep with ⟨v', hv', hd', -⟩ | ⟨v', x, reason, -, -, hskip, rfl⟩ |
    ⟨v', x, log, -, hd', happly, rfl⟩
  · rw [hv] at hv'
    cases hv'
    exact absurd hd hd'
  · exact ⟨a, _, x, j, _, later, ⟨b, rfl⟩, hcomes, hlater.puts, .inr ⟨reason, hskip⟩⟩
  · refine ⟨a, _, x, j, _, later, ⟨b, rfl⟩, hcomes, hlater.puts, .inl ⟨log, happly, fun q' hq' => ?_⟩⟩
    rw [hq] at hq'
    cases hq'
    rw [hlater.outcomes, Writer.appliedOps_append]
    exact List.mem_append_left _ (List.mem_append_right _ (by simp [Writer.appliedOps, hd']))

/-- What is stored before the save stays, but for the fields that a save changes. -/
theorem has (hw : s.writer t.toMemoryTables = .ok w) (h : w.ComesTo t pre op u) {id : Uuid}
    {c : ItemContent} (hc : Has t.toMemoryTables id c) : Has u.toMemoryTables id c := by
  obtain ⟨q, hq, rfl⟩ := h.reached
  obtain ⟨plans, -, hof⟩ := Save.batch_ops hw
  refine Writer.steps_has (fun o ho => (hof o (h.mem_ops (.inl ho))).light) hq ?_
  show Has (w.writeVocab t).toMemoryTables id c
  rw [Writer.writeVocab_memory]
  exact hc

end Writer.ComesTo

/-- The op that makes the item of a plan. -/
theorem Save.createOp_mem_makes (hplans : s.decidedPlans t.toMemoryTables = .ok plans) {n : Nat}
    {p : DecidedPlan} (hp : plans[n]? = some p) (hmerged : p.merged = none) :
    p.createOp s.lib n ∈ s.makes plans := by
  unfold Save.makes
  split
  · rename_i hrefuses
    rw [Save.decidedPlans, if_pos hrefuses] at hplans
    cases hplans
    exact (nomatch hp)
  · exact List.mem_append_right _ (Save.mem_createOps.2 ⟨n, p, hp, hmerged, rfl⟩)

/-- An item that a batch of a save makes is the item of a plan. -/
theorem Save.createdItem_cases (hw : s.writer t.toMemoryTables = .ok w)
    (hplans : s.decidedPlans t.toMemoryTables = .ok plans) {o : Op} (ho : o ∈ w.ops) {id : Uuid}
    (hid : o.body.createdItem = some id) : o = s.secretOp ∨ ∃ (n : Nat) (p : DecidedPlan),
      plans[n]? = some p ∧ p.merged = none ∧ o = p.createOp s.lib n ∧ p.draft.itemId = id := by
  obtain ⟨-, -, -, last, heq, hlast⟩ := Save.writer_makes hw hplans
  rw [heq, List.mem_append, List.mem_append] at ho
  rcases ho with ho | ho | ho
  · rcases Save.mem_makes ho with ⟨e, -, x, -, rfl⟩ | ⟨n, p, hp, hmerged, rfl⟩
    · exact (nomatch hid)
    · exact .inr ⟨n, p, hp, hmerged, rfl, Option.some.inj hid⟩
  · rw [(Save.usesOps_makeNothing ho).2] at hid
    exact (nomatch hid)
  · exact .inl (hlast o ho)

theorem Save.secretOp_not_allowed {u : Tables} : ¬ w.Allows u s.secretOp := by
  rintro ⟨v, hv, hallowed⟩
  exact Writer.secret_refused rfl rfl hv hallowed

section

variable (hvalid : ValidExtraction s.lib.lib s.extraction)
  (hw : s.writer t.toMemoryTables = .ok w)
  (hplans : s.decidedPlans t.toMemoryTables = .ok plans)
include hvalid hw hplans

variable {pre : List Op} {op : Op} {u : Tables}

/-- What is stored when a batch comes to an op stands. -/
theorem Save.standing_of_stored (h : w.ComesTo t pre op u) {id : Uuid}
    (hid : (u.getItem id).isSome) : Save.Standing t.toMemoryTables plans id := by
  obtain ⟨huser, -⟩ := Save.writer_makes hw hplans
  obtain ⟨q, -, -, hputs, hsub, hallowed⟩ := h.applied hvalid hw
  rcases (hputs.items id).1 hid with hid | ⟨o, ho, hid⟩
  · exact .inl hid
  · obtain ⟨v, hv⟩ := hallowed o ho
    rcases Save.createdItem_cases hw hplans (h.mem_ops (.inl (hsub.subset ho))) hid with
      rfl | ⟨n, p, hp, hmerged, rfl, rfl⟩
    · exact absurd hv Save.secretOp_not_allowed
    · exact .inr ⟨p, List.mem_of_getElem? hp, hmerged, rfl,
        (Save.allows_create_iff huser hplans hp).1 hv⟩

/-- **Once a batch has made what it makes**, the items that stand are stored. -/
theorem Save.stored_of_standing (h : w.ComesTo t pre op u) (hmade : ∀ o ∈ s.makes plans, o ∈ pre)
    {id : Uuid} (hid : Save.Standing t.toMemoryTables plans id) : (u.getItem id).isSome := by
  obtain ⟨huser, -⟩ := Save.writer_makes hw hplans
  rcases hid with hid | ⟨p, hp, hmerged, rfl, hadmitted⟩
  · obtain ⟨q, -, -, hputs, -⟩ := h.applied hvalid hw
    exact (hputs.items id).2 (.inl hid)
  · obtain ⟨n, hn⟩ := List.getElem?_of_mem hp
    obtain ⟨a, v, x, i, log, later, -, -, hlater, hdone | hdone⟩ := h.met hvalid hw
      (hmade _ (Save.createOp_mem_makes hplans hn hmerged)) fun v =>
        (Save.allows_create_iff huser hplans hn).2 hadmitted
    · obtain ⟨log', happly, -⟩ := hdone
      exact (hlater.items _).2 (.inl ((Writer.apply_items happly _).2 (.inr rfl)))
    · -- a new item is skipped only if its id is taken
      obtain ⟨reason, hskip⟩ := hdone
      have htaken : v.getItem p.draft.itemId ≠ none := fun hfree =>
        Writer.createItem_ne_skip hfree hskip
      refine (hlater.items _).2 (.inl ?_)
      rw [(Writer.apply_skip hskip).memory]
      exact Option.isSome_iff_ne_none.2 htaken

/-- Once a batch has made what it makes, the entities that the message introduces are stored, and
no others are new. -/
theorem Save.isSome_getEntity_iff (hruns : s.refuses = false) (h : w.ComesTo t pre op u)
    (hmade : ∀ o ∈ s.makes plans, o ∈ pre) (id : Uuid) :
    (u.getEntity id).isSome ↔ s.Introduced t.toMemoryTables id := by
  obtain ⟨huser, -, -, last, heq, hlast⟩ := Save.writer_makes hw hplans
  obtain ⟨q, -, -, hputs, hsub, -⟩ := h.applied hvalid hw
  constructor
  · intro hid
    rcases (hputs.entities id).1 hid with hid | ⟨o, ho, hid⟩
    · exact .inl hid
    · have hmem := h.mem_ops (.inl (hsub.subset ho))
      rw [heq, List.mem_append, List.mem_append] at hmem
      rcases hmem with hmem | hmem | hmem
      · rcases Save.mem_makes hmem with ⟨e, he, x, hx, rfl⟩ | ⟨n, p, -, -, rfl⟩
        · cases hcreate : x.create with
          | true =>
            rw [EntityUpsert.op, hcreate] at hid
            exact .inr ⟨e, he, x, hx, hcreate, Option.some.inj hid⟩
          | false =>
            rw [EntityUpsert.op, hcreate] at hid
            exact (nomatch hid)
        · exact (nomatch hid)
      · rw [(Save.usesOps_makeNothing hmem).1] at hid
        exact (nomatch hid)
      · rw [hlast o hmem] at hid
        exact (nomatch hid)
  · rintro (hid | ⟨e, he, x, hx, hcreate, rfl⟩)
    · exact (hputs.entities id).2 (.inl hid)
    · have hmem : x.op ∈ pre := hmade _ (by
        rw [Save.makes, hruns]
        exact List.mem_append_left _ (Save.mem_entityOps.2 ⟨e, he, x, hx, rfl⟩))
      have hbody : x.op.body = .upsertEntity x.entityId x.entity true := by
        rw [EntityUpsert.op, hcreate]
      obtain ⟨a, v, y, i, log, later, -, -, hlater, hdone | hdone⟩ := h.met hvalid hw hmem
        fun v => Writer.allows_entity huser hcreate
      · obtain ⟨log', happly, -⟩ := hdone
        have hputs' := Writer.apply_puts (t := t.toMemoryTables) (.entity hbody) happly
        refine (hlater.entities _).2 (.inl ((hputs'.entities _).2 (.inr ?_)))
        exact ⟨x.op, List.mem_singleton_self _, by rw [hbody]; rfl⟩
      · obtain ⟨reason, hskip⟩ := hdone
        refine (hlater.entities _).2 (.inl ?_)
        rw [(Writer.apply_skip hskip).memory]
        rw [hbody] at hskip
        -- a new entity is skipped only if it is there
        refine Option.isSome_iff_ne_none.2 fun hnone => ?_
        replace hskip : w.upsertEntity v log x.entityId x.entity true = .error (.skip y reason) :=
          hskip
        unfold Writer.upsertEntity at hskip
        rw [hnone] at hskip
        rcases bind_eq_error.1 hskip with hskip | ⟨_, -, hskip⟩
        · exact Writer.run_ne_skip hskip
        · exact (nomatch hskip)

end

/-! ## New ids -/

/-- The ids that the links of a save are given. -/
def linkIds (plans : List DecidedPlan) : List IdFor :=
  (plans.zipIdx.flatMap fun e => [IdFor.decisionLink e.2]) ++
    plans.zipIdx.flatMap fun e => e.1.proposed.links.zipIdx.map fun l => IdFor.memoryLink e.2 l.2

theorem sublist_flatMap_filterMap {α β γ : Type} {f : α → Option β} {g : β → List γ} {k : α → γ}
    {l : List α} (h : ∀ x ∈ l, ∀ y, f x = some y → g y = [k x]) :
    ((l.filterMap f).flatMap g).Sublist (l.map k) := by
  induction l with
  | nil => exact List.Sublist.refl _
  | cons x l ih =>
    have hrest := ih fun y hy => h y (List.mem_cons_of_mem _ hy)
    cases hx : f x with
    | none =>
      rw [List.filterMap_cons_none hx]
      exact hrest.cons _
    | some y =>
      rw [List.filterMap_cons_some hx, List.flatMap_cons, h x List.mem_cons_self y hx]
      exact hrest.cons_cons _

theorem nodup_linkIds (plans : List DecidedPlan) : (linkIds plans).Nodup := by
  have hsnd : ∀ {α : Type} (l : List α), l.zipIdx.Pairwise fun e e' => e.2 ≠ e'.2 := fun l => by
    refine List.pairwise_map.1 ?_
    rw [List.zipIdx_map_snd]
    exact List.nodup_range'
  unfold linkIds
  rw [List.nodup_append]
  refine ⟨?_, ?_, ?_⟩
  · refine List.nodup_flatMap.2 ⟨fun e _ => List.nodup_singleton _, (hsnd plans).imp ?_⟩
    intro e e' hne id hid hid'
    rw [List.mem_singleton] at hid hid'
    exact hne (IdFor.decisionLink.inj (hid.symm.trans hid'))
  · refine List.nodup_flatMap.2 ⟨fun e _ => ?_, (hsnd plans).imp ?_⟩
    · refine List.pairwise_map.2 ((hsnd e.1.proposed.links).imp fun hne he => ?_)
      exact hne (IdFor.memoryLink.inj he).2
    · intro e e' hne id hid hid'
      obtain ⟨l, -, rfl⟩ := List.mem_map.1 hid
      obtain ⟨l', -, he⟩ := List.mem_map.1 hid'
      exact hne (IdFor.memoryLink.inj he).1.symm
  · intro id hid id' hid' he
    obtain ⟨e, -, hid⟩ := List.mem_flatMap.1 hid
    obtain ⟨e', -, hid'⟩ := List.mem_flatMap.1 hid'
    obtain ⟨l, -, rfl⟩ := List.mem_map.1 hid'
    rw [List.mem_singleton.1 hid] at he
    exact (nomatch he)

/-- What a decision changes puts at most one link in. -/
theorem changeOps_links (w : Writer) {lib : PlanLib} {ctx : IngestContext} {n : Nat}
    {p : DecidedPlan} : (((p.changeOps lib ctx n).flatMap (w.newLinks ·.body)).map (·.id)).Sublist
      [lib.newId (.decisionLink n)] := by
  unfold DecidedPlan.changeOps
  split
  · exact List.nil_sublist _
  · dsimp only
    split
    · exact List.Sublist.refl _
    · exact List.Sublist.refl _
    · exact List.Sublist.refl _
    · unfold DecidedPlan.detailOps
      dsimp only
      split
      · exact List.nil_sublist _
      · exact List.nil_sublist _
    · exact List.nil_sublist _
    · exact List.nil_sublist _

theorem linkOps_links (w : Writer) {ids : String → Option Uuid} {n : Nat} {p : DecidedPlan} :
    (((s.linkOps ids n p).flatMap (w.newLinks ·.body)).map (·.id)).Sublist
      (p.proposed.links.zipIdx.map fun l => s.lib.newId (.memoryLink n l.2)) := by
  rw [List.map_flatMap]
  refine sublist_flatMap_filterMap fun e _ op hop => ?_
  split at hop
  · split at hop
    · exact (nomatch hop)
    · cases hop
      rfl
  · exact (nomatch hop)

/-- Nothing else puts a link in. -/
theorem makes_links (w : Writer) : (s.makes plans).flatMap (w.newLinks ·.body) = [] := by
  refine List.flatMap_eq_nil_iff.2 fun o ho => ?_
  rcases Save.mem_makes ho with ⟨e, -, x, -, rfl⟩ | ⟨n, p, -, -, rfl⟩
  · rfl
  · rfl

theorem relations_links (w : Writer) (ids : String → Option Uuid) :
    ((s.relations ids).map (·.2)).flatMap (w.newLinks ·.body) = [] := by
  refine List.flatMap_eq_nil_iff.2 fun o ho => ?_
  obtain ⟨r, hr, rfl⟩ := List.mem_map.1 ho
  obtain ⟨i, src, dst, slug, evidence, hbody, -⟩ := Save.mem_relations hr
  rw [hbody]
  rfl

theorem promotionOps_links (w : Writer) :
    (Save.promotionOps plans).flatMap (w.newLinks ·.body) = [] := by
  refine List.flatMap_eq_nil_iff.2 fun o ho => ?_
  obtain ⟨p, -, ho⟩ := List.mem_flatMap.1 ho
  split at ho
  · exact absurd ho List.not_mem_nil
  · unfold DecidedPlan.promotionOps at ho
    split at ho
    · rw [List.mem_singleton.1 ho]
      rfl
    · exact absurd ho List.not_mem_nil

/-- **The links of a save** get the ids that are for them. -/
theorem Save.links_sublist (hw : s.writer t.toMemoryTables = .ok w)
    (hplans : s.decidedPlans t.toMemoryTables = .ok plans) :
    ((w.ops.flatMap (w.newLinks ·.body)).map (·.id)).Sublist
      ((linkIds plans).map s.lib.newId) := by
  obtain ⟨-, -, -, last, heq, hlast⟩ := Save.writer_makes hw hplans
  have hlast' : last.flatMap (w.newLinks ·.body) = [] :=
    List.flatMap_eq_nil_iff.2 fun o ho => by
      rw [hlast o ho]
      rfl
  rw [heq, List.flatMap_append, List.flatMap_append, makes_links, hlast', List.append_nil,
    List.nil_append]
  unfold Save.usesOps
  split
  · exact List.nil_sublist _
  · rw [List.flatMap_append, List.flatMap_append, List.flatMap_append, relations_links,
      promotionOps_links, List.append_nil, List.append_nil, List.map_append, linkIds, List.map_append]
    refine List.Sublist.append ?_ ?_
    · rw [Save.changeOps, List.flatMap_assoc, List.map_flatMap, List.map_flatMap]
      exact List.Sublist.flatMap_right _ fun e _ => changeOps_links w
    · rw [List.flatMap_assoc, List.map_flatMap, List.map_flatMap]
      refine List.Sublist.flatMap_right _ fun e _ => ?_
      rw [List.map_map]
      exact linkOps_links w

/-- What a batch makes, it makes once. -/
theorem nodup_created (hinj : Function.Injective s.lib.newId)
    (hplans : s.decidedPlans t.toMemoryTables = .ok plans) :
    ((s.makes plans).flatMap (·.body.createdItem.toList)).Nodup := by
  have hids : (plans.zipIdx.map fun e => s.lib.newId (.item e.2)).Nodup := by
    have hsnd : (plans.zipIdx.map Prod.snd).Nodup := by
      rw [List.zipIdx_map_snd]
      exact List.nodup_range'
    have heq : plans.zipIdx.map (fun e => s.lib.newId (.item e.2)) =
        (plans.zipIdx.map Prod.snd).map fun n => s.lib.newId (.item n) := by
      rw [List.map_map]
      rfl
    rw [heq]
    exact hsnd.map fun n n' hn => IdFor.item.inj (hinj hn)
  have hentities : s.entityOps.flatMap (·.body.createdItem.toList) = [] :=
    List.flatMap_eq_nil_iff.2 fun o ho => by
      obtain ⟨e, -, x, -, rfl⟩ := Save.mem_entityOps.1 ho
      rfl
  unfold Save.makes
  split
  · exact List.nodup_nil
  · rw [List.flatMap_append, hentities, List.nil_append]
    refine hids.sublist (sublist_flatMap_filterMap fun e he op hop => ?_)
    split at hop
    · exact (nomatch hop)
    · cases hop
      obtain ⟨m, -, hplanned, -⟩ := Save.planned hplans (List.mem_zipIdx_iff_getElem?.1 he)
      exact congrArg (fun id => [id]) hplanned.itemId

/-- When a batch comes to an op that makes nothing, it has made what it makes. -/
theorem Writer.ComesTo.made {pre : List Op} {op : Op} {u : Tables}
    (hw : s.writer t.toMemoryTables = .ok w) (hplans : s.decidedPlans t.toMemoryTables = .ok plans)
    (h : w.ComesTo t pre op u) (hnot : op ∉ s.makes plans) : ∀ o ∈ s.makes plans, o ∈ pre := by
  obtain ⟨-, -, -, last, heq, -⟩ := Save.writer_makes hw hplans
  obtain ⟨post, hpost⟩ := h.within
  rw [heq] at hpost
  intro o ho
  rcases List.append_eq_append_iff.1 hpost with ⟨a, rfl, -⟩ | ⟨c, hc, hrest⟩
  · exact List.mem_append_left a ho
  · cases c with
    | nil => rwa [hc, List.append_nil] at ho
    | cons x c =>
      cases hrest
      exact absurd (hc ▸ List.mem_append_right pre List.mem_cons_self) hnot

/-- When a batch comes to an op that makes an item, it has only made. -/
theorem Writer.ComesTo.making {pre : List Op} {op : Op} {u : Tables}
    (hw : s.writer t.toMemoryTables = .ok w) (hplans : s.decidedPlans t.toMemoryTables = .ok plans)
    (h : w.ComesTo t pre op u) {id : Uuid} (hid : op.body.createdItem = some id)
    (hsecret : op ≠ s.secretOp) : ∃ c, s.makes plans = pre ++ op :: c := by
  obtain ⟨-, -, -, last, heq, hlast⟩ := Save.writer_makes hw hplans
  obtain ⟨post, hpost⟩ := h.within
  rw [heq] at hpost
  have hnot : op ∉ s.usesOps plans ++ last := fun hmem => by
    rcases List.mem_append.1 hmem with hmem | hmem
    · rw [(Save.usesOps_makeNothing hmem).2] at hid
      exact (nomatch hid)
    · exact hsecret (hlast op hmem)
  rcases List.append_eq_append_iff.1 hpost with ⟨a, -, hrest⟩ | ⟨c, hc, hrest⟩
  · exact absurd (hrest ▸ List.mem_append_right a List.mem_cons_self) hnot
  · cases c with
    | nil =>
      rw [List.nil_append] at hrest
      exact absurd (hrest ▸ List.mem_cons_self) hnot
    | cons x c =>
      cases hrest
      exact ⟨c, hc⟩

/-! ## Links -/

/-- An item that a link of a save may join: an active one, or the item of a plan. -/
inductive Known (t : MemoryTables) (plans : List DecidedPlan) (id : Uuid) : Prop
  | stored {c : ItemRecord} (stored : t.getItem id = some c) (active : c.status = .active)
  | planned {n : Nat} {p : DecidedPlan} (planned : plans[n]? = some p) (id : p.draft.itemId = id)

theorem known_of_ids (hplans : s.decidedPlans t.toMemoryTables = .ok plans) {ref : String} {id : Uuid}
    (h : idsByRef plans ref = some id) : Known t.toMemoryTables plans id := by
  unfold idsByRef at h
  obtain ⟨p, hp, hid⟩ : ∃ p ∈ plans, p.itemId = some id := by
    obtain ⟨l, l', heq, -⟩ := List.lookup_eq_some_iff.1 h
    have hmem : (ref, id) ∈ plans.filterMap fun p => p.itemId.map (p.draft.ref, ·) := by
      rw [← List.mem_reverse, heq]
      exact List.mem_append_right l List.mem_cons_self
    obtain ⟨p, hp, hpair⟩ := List.mem_filterMap.1 hmem
    obtain ⟨id', hid', heq'⟩ := Option.map_eq_some_iff.1 hpair
    exact ⟨p, hp, by rw [hid', (Prod.mk.inj heq').2]⟩
  obtain ⟨n, hn⟩ := List.getElem?_of_mem hp
  obtain ⟨-, -, -, hdecision⟩ := Save.planned hplans hn
  unfold DecidedPlan.itemId at hid
  split at hid
  · obtain ⟨c, hc, rfl⟩ := Option.map_eq_some_iff.1 hid
    rw [hdecision] at hc
    obtain ⟨hstored, hactive⟩ := decide_candidate hc
    exact .stored hstored hactive
  · exact .planned hn (Option.some.inj hid)

/-- The new ids of a save are new. -/
structure Save.NewIds (s : Save) (t : MemoryTables) : Prop where
  injective : Function.Injective s.lib.newId
  items : ∀ k, t.getItem (s.lib.newId k) = none
  links : ∀ k, t.getLink (s.lib.newId k) = none

/-- What the tables ask of the rows that are stored: the items they name are there. -/
structure MemoryTables.Bound (t : MemoryTables) : Prop where
  itemEntities : ∀ row ∈ t.itemEntities.rows, (t.getItem row.itemId).isSome
  links : ∀ row ∈ t.links.rows, (t.getItem row.srcItemId).isSome

section

variable (hvalid : ValidExtraction s.lib.lib s.extraction)
  (hw : s.writer t.toMemoryTables = .ok w)
  (hplans : s.decidedPlans t.toMemoryTables = .ok plans)
include hvalid hw hplans

variable {pre : List Op} {op : Op} {u : Tables}

/-- A known item is live exactly when it is stored. -/
theorem Known.isLive_iff (hnew : s.NewIds t.toMemoryTables) (h : w.ComesTo t pre op u) {id : Uuid}
    (hknown : Known t.toMemoryTables plans id) : u.isLive id = true ↔ (u.getItem id).isSome := by
  have hof : ∀ {c : ItemContent}, c.status = .active → Has u.toMemoryTables id c →
      u.isLive id = true := by
    rintro c hc ⟨r, hr, hrest⟩
    have hstatus : r.rest.status = c.rest.status := congrArg ItemContent.status hrest
    replace hstatus : r.status = c.status := hstatus
    rw [MemoryTables.isLive, hr, Option.any_some, hstatus, hc]
    rfl
  constructor
  · intro hlive
    unfold MemoryTables.isLive at hlive
    cases hget : u.getItem id with
    | none => rw [hget] at hlive; cases hlive
    | some r => rfl
  · intro hsome
    cases hknown with
    | stored stored active => exact hof active (h.has hw (.of_getItem stored))
    | @planned n p planned id =>
      obtain ⟨m, -, hplanned, -⟩ := Save.planned hplans planned
      obtain ⟨hactive, -⟩ := hplanned.toDrafted.fresh
      subst id
      obtain ⟨q, hq, rfl, hputs, hsub, hallowed⟩ := h.applied hvalid hw
      rcases (hputs.items _).1 hsome with hold | ⟨o, ho, hid⟩
      · rw [hplanned.itemId, hnew.items] at hold
        cases hold
      · obtain ⟨v, hv⟩ := hallowed o ho
        rcases Save.createdItem_cases hw hplans (h.mem_ops (.inl (hsub.subset ho))) hid with
          rfl | ⟨n', p', hp', -, rfl, hsame⟩
        · exact absurd hv Save.secretOp_not_allowed
        · obtain ⟨m', -, hplanned', -⟩ := Save.planned hplans hp'
          rw [hplanned.itemId, hplanned'.itemId] at hsame
          obtain rfl : n' = n := IdFor.item.inj (hnew.injective hsame)
          rw [planned] at hp'
          cases hp'
          obtain ⟨plans', -, hops⟩ := Save.batch_ops hw
          refine hof hactive (Writer.steps_created
            (fun o ho => (hops o (h.mem_ops (.inl ho))).light) hq rfl ho rfl)

/-- The links of the store a batch comes to. -/
theorem Save.mem_links_iff (hnew : s.NewIds t.toMemoryTables) (h : w.ComesTo t pre op u) :
    ∃ q, w.steps (w.seqBase t) 0 { tables := w.writeVocab t } pre = .ok q ∧
      (Writer.appliedOps q.outcomes).Sublist pre ∧ ∀ row, row ∈ u.links.rows ↔
        (∃ o ∈ Writer.appliedOps q.outcomes, row ∈ w.newLinks o.body) ∨ row ∈ t.links.rows := by
  obtain ⟨q, hq, rfl, hputs, hsub, -⟩ := h.applied hvalid hw
  obtain ⟨post, hpost⟩ := h.within
  refine ⟨q, hq, hsub, fun row => ?_⟩
  have hlinks := Save.links_sublist hw hplans
  have hdone : ((Writer.appliedOps q.outcomes).flatMap (w.newLinks ·.body)).Sublist
      (w.ops.flatMap (w.newLinks ·.body)) := by
    rw [hpost, List.flatMap_append]
    exact (List.Sublist.flatMap hsub _).trans (List.sublist_append_left _ _)
  have hids := (hdone.map (·.id)).trans hlinks
  have hfresh : FreshIds (t.links.lookup · = none)
      (((Writer.appliedOps q.outcomes).flatMap (w.newLinks ·.body)).map (·.id)) := by
    refine ⟨((nodup_linkIds plans).map hnew.injective).sublist hids, fun id hid => ?_⟩
    obtain ⟨k, -, rfl⟩ := List.mem_map.1 (hids.subset hid)
    exact hnew.links k
  rw [hputs.links, KeyTable.mem_rows_foldl_put hfresh, List.mem_flatMap]

end

/-! ## The ops, one by one -/

theorem Save.OpOf.trust {op : Op} (h : s.OpOf plans op) : op.trust = .userStated := by
  cases h with
  | entity named upsert eq => rw [eq]; rfl
  | create planned apart eq => rw [eq]; rfl
  | @change n p planned mem =>
    unfold DecidedPlan.changeOps at mem
    split at mem
    · exact absurd mem List.not_mem_nil
    · dsimp only at mem
      split at mem
      · rw [List.mem_singleton.1 mem]
      · rw [List.mem_singleton.1 mem]
      · rw [List.mem_singleton.1 mem]
      · unfold DecidedPlan.detailOps at mem
        dsimp only at mem
        split at mem
        · exact absurd mem List.not_mem_nil
        · rw [List.mem_singleton.1 mem]
      · exact absurd mem List.not_mem_nil
      · exact absurd mem List.not_mem_nil
  | link planned mem =>
    obtain ⟨i, l, src, dst, -, -, -, -, rfl⟩ := Save.mem_linkOps.1 mem
    rfl
  | relation mem eq =>
    obtain ⟨i, src, dst, slug, evidence, -, htrust⟩ := Save.mem_relations mem
    rw [eq, htrust]
  | promotion planned apart mem =>
    unfold DecidedPlan.promotionOps at mem
    split at mem
    · rw [List.mem_singleton.1 mem]
    · exact absurd mem List.not_mem_nil
  | secret eq => rw [eq]; rfl

/-- A decision changes one thing at most. -/
theorem changeOps_one {lib : PlanLib} {ctx : IngestContext} {n : Nat} {p : DecidedPlan} {o op : Op}
    (ho : o ∈ p.changeOps lib ctx n) (hop : op ∈ p.changeOps lib ctx n) : o = op := by
  unfold DecidedPlan.changeOps at ho hop
  split at ho
  · exact absurd ho List.not_mem_nil
  · rename_i c hc
    rw [hc] at hop
    dsimp only at ho hop
    split at ho
    · rename_i hd
      rw [hd] at hop
      exact (List.mem_singleton.1 ho).trans (List.mem_singleton.1 hop).symm
    · rename_i hd
      rw [hd] at hop
      exact (List.mem_singleton.1 ho).trans (List.mem_singleton.1 hop).symm
    · rename_i hd
      rw [hd] at hop
      exact (List.mem_singleton.1 ho).trans (List.mem_singleton.1 hop).symm
    · rename_i hd
      rw [hd] at hop
      unfold DecidedPlan.detailOps at ho hop
      dsimp only at ho hop
      split at ho
      · exact absurd ho List.not_mem_nil
      · rename_i he
        rw [if_neg he] at hop
        exact (List.mem_singleton.1 ho).trans (List.mem_singleton.1 hop).symm
    · exact absurd ho List.not_mem_nil
    · exact absurd ho List.not_mem_nil

/-- The link a decision makes leads from the item of its plan. -/
theorem changeOps_link_src (w : Writer) {lib : PlanLib} {ctx : IngestContext} {n : Nat}
    {p : DecidedPlan} {op : Op} (h : op ∈ p.changeOps lib ctx n) {row : LinkRecord}
    (hrow : row ∈ w.newLinks op.body) : row.srcItemId = p.draft.itemId := by
  unfold DecidedPlan.changeOps at h
  split at h
  · exact absurd h List.not_mem_nil
  · dsimp only at h
    split at h
    · rw [List.mem_singleton.1 h] at hrow
      rw [List.mem_singleton.1 hrow]
      rfl
    · rw [List.mem_singleton.1 h] at hrow
      rw [List.mem_singleton.1 hrow]
      rfl
    · rw [List.mem_singleton.1 h] at hrow
      rw [List.mem_singleton.1 hrow]
      rfl
    · unfold DecidedPlan.detailOps at h
      dsimp only at h
      split at h
      · exact absurd h List.not_mem_nil
      · rw [List.mem_singleton.1 h] at hrow
        exact absurd hrow List.not_mem_nil
    · exact absurd h List.not_mem_nil
    · exact absurd h List.not_mem_nil

/-- The entity rows of a new item name it. -/
theorem newItemEntities_created {body : OpBody} {row : ItemEntityRecord}
    (h : row ∈ w.newItemEntities body) : body.createdItem = some row.itemId := by
  cases body with
  | createItem =>
    obtain ⟨e, -, rfl⟩ := List.mem_map.1 h
    rfl
  | _ => exact absurd h List.not_mem_nil

/-- An op that puts a link in comes once. -/
theorem not_before_of_link (hw : s.writer t.toMemoryTables = .ok w)
    (hplans : s.decidedPlans t.toMemoryTables = .ok plans) (hnew : s.NewIds t.toMemoryTables)
    {pre : List Op} {op : Op} {u : Tables} (h : w.ComesTo t pre op u) {row : LinkRecord}
    (hrow : row ∈ w.newLinks op.body) : op ∉ pre := by
  intro hmem
  obtain ⟨post, hpost⟩ := h.within
  have hnodup := ((nodup_linkIds plans).map hnew.injective).sublist (Save.links_sublist hw hplans)
  rw [hpost, List.flatMap_append, List.map_append, List.flatMap_cons, List.map_append] at hnodup
  have hid : ∀ {ops : List Op}, op ∈ ops → row.id ∈ (ops.flatMap (w.newLinks ·.body)).map (·.id) :=
    fun ho => List.mem_map_of_mem (List.mem_flatMap.2 ⟨op, ho, hrow⟩)
  exact List.disjoint_of_nodup_append hnodup (hid hmem)
    (List.mem_append_left _ (List.mem_map_of_mem hrow))

section

variable (hvalid : ValidExtraction s.lib.lib s.extraction)
  (hw : s.writer t.toMemoryTables = .ok w)
  (hplans : s.decidedPlans t.toMemoryTables = .ok plans) (hnew : s.NewIds t.toMemoryTables)
include hvalid hw hplans hnew

variable {pre : List Op} {op : Op} {u : Tables}

/-- The link that closes an old item is the only one of its kind from the new item. -/
theorem closing_link_new (hbound : t.Bound) (h : w.ComesTo t pre op u) {n : Nat} {p : DecidedPlan}
    (hp : plans[n]? = some p) (hop : op ∈ p.changeOps s.lib s.ctx n) {made : LinkRecord}
    (hmade : made ∈ w.newLinks op.body) {row : LinkRecord} (hrow : row ∈ u.links.rows)
    (htype : row.linkType ∈ [LinkType.supersedes, .fulfils]) : row.srcItemId ≠ p.draft.itemId := by
  intro hsrc
  obtain ⟨m, -, hplanned, -⟩ := Save.planned hplans hp
  obtain ⟨q, -, hsub, hlinks⟩ := Save.mem_links_iff hvalid hw hplans hnew h
  rcases (hlinks row).1 hrow with ⟨o, ho, hrow⟩ | hrow
  · replace ho := hsub.subset ho
    obtain ⟨plans', hplans', hof⟩ := Save.batch_ops hw
    rw [hplans] at hplans'
    cases hplans'
    cases hof o (h.mem_ops (.inl ho)) with
    | entity named upsert eq => rw [eq] at hrow; exact absurd hrow List.not_mem_nil
    | create planned apart eq => rw [eq] at hrow; exact absurd hrow List.not_mem_nil
    | @change n' p' planned mem =>
      rw [changeOps_link_src w mem hrow] at hsrc
      obtain ⟨m', -, hplanned', -⟩ := Save.planned hplans planned
      rw [hplanned.itemId, hplanned'.itemId] at hsrc
      obtain rfl : n' = n := IdFor.item.inj (hnew.injective hsrc)
      rw [hp] at planned
      cases planned
      rw [changeOps_one mem hop] at ho
      exact not_before_of_link hw hplans hnew h hmade ho
    | link planned mem =>
      obtain ⟨i, l, src, dst, -, -, -, -, rfl⟩ := Save.mem_linkOps.1 mem
      obtain rfl := List.mem_singleton.1 hrow
      revert htype
      show l.type.1 ∈ _ → False
      obtain ⟨type, htype⟩ := l.type
      revert htype
      cases type <;> decide
    | relation mem eq =>
      obtain ⟨i, src, dst, slug, evidence, hbody, -⟩ := Save.mem_relations mem
      rw [eq, hbody] at hrow
      exact absurd hrow List.not_mem_nil
    | promotion planned apart mem =>
      unfold DecidedPlan.promotionOps at mem
      split at mem
      · rw [List.mem_singleton.1 mem] at hrow
        exact absurd hrow List.not_mem_nil
      · exact absurd mem List.not_mem_nil
    | secret eq => rw [eq] at hrow; exact absurd hrow List.not_mem_nil
  · have hstored := hbound.links row hrow
    rw [hsrc, hplanned.itemId, hnew.items] at hstored
    exact (nomatch hstored)

/-- **A new item** names no entity twice in one role exactly when its draft does not. -/
theorem keysHold_create_iff (hbound : t.Bound) (h : w.ComesTo t pre op u) {n : Nat}
    {p : DecidedPlan} (hp : plans[n]? = some p) (heq : op = p.createOp s.lib n) :
    KeysHold u.toMemoryTables op.body ↔ s.KeysClear t.toMemoryTables plans pre op.body := by
  obtain ⟨m, -, hplanned, -⟩ := Save.planned hplans hp
  have hid : op.body.createdItem = some p.draft.itemId := by rw [heq]; rfl
  have hsecret : op ≠ s.secretOp := fun e => by
    rw [e] at hid
    have hsame : s.lib.newId .secret = s.lib.newId (.item n) :=
      (Option.some.inj hid).trans hplanned.itemId
    exact (nomatch hnew.injective hsame)
  obtain ⟨c, hc⟩ := h.making hw hplans hid hsecret
  obtain ⟨q, -, -, hputs, hsub, hallowed⟩ := h.applied hvalid hw
  -- nothing before the op makes its item
  have hbefore : ∀ o ∈ pre, o.body.createdItem ≠ some p.draft.itemId := fun o ho he => by
    have hnodup := nodup_created hnew.injective hplans
    rw [hc, List.flatMap_append, List.flatMap_cons] at hnodup
    refine List.disjoint_of_nodup_append hnodup
      (List.mem_flatMap.2 ⟨o, ho, (by rw [he]; exact List.mem_singleton_self _)⟩)
      (List.mem_append_left _ ?_)
    rw [hid]
    exact List.mem_singleton_self _
  have hfree : u.getItem p.draft.itemId = none := by
    refine Option.not_isSome_iff_eq_none.1 fun hsome => ?_
    rcases (hputs.items _).1 hsome with hold | ⟨o, ho, he⟩
    · rw [hplanned.itemId, hnew.items] at hold
      exact (nomatch hold)
    · exact hbefore o (hsub.subset ho) he
  have hrows : ∀ row ∈ u.itemEntities.rows, row.itemId ≠ p.draft.itemId := fun row hrow he => by
    rw [hputs.itemEntities] at hrow
    rcases KeyTable.mem_of_mem_rows_foldl_put hrow with hrow | hrow
    · obtain ⟨o, ho, hrow⟩ := List.mem_flatMap.1 hrow
      exact hbefore o (hsub.subset ho) (he ▸ newItemEntities_created hrow)
    · have hstored := hbound.itemEntities row hrow
      rw [he, hplanned.itemId, hnew.items] at hstored
      exact (nomatch hstored)
  subst heq
  constructor
  · exact fun hk => (hk hfree).1
  · exact fun hk _ => ⟨hk, fun e _ row hrow hlike => hrows row hrow hlike.1⟩

/-- **A link** is new exactly when none like it is stored and none like it was stated before. -/
theorem keysHold_link_iff (h : w.ComesTo t pre op u) {linkId src dst : Uuid} {linkType : LinkType}
    (hbody : op.body = .linkItems linkId src linkType dst) (hsrc : Known t.toMemoryTables plans src)
    (hdst : Known t.toMemoryTables plans dst) (hsup : linkType ≠ .supersedes)
    (hful : linkType ≠ .fulfils) :
    KeysHold u.toMemoryTables op.body ↔ s.KeysClear t.toMemoryTables plans pre op.body := by
  obtain ⟨huser, -⟩ := Save.writer_makes hw hplans
  have hnot : ∀ {o : Op} {id : Uuid}, o.body = .linkItems id src linkType dst →
      o ∉ s.makes plans := fun {o id} ho hmem => by
    rcases Save.mem_makes hmem with ⟨e, -, x, -, rfl⟩ | ⟨n, p, -, -, rfl⟩
    · exact (nomatch ho)
    · exact (nomatch ho)
  have hlive : ∀ {a : List Op} {o : Op} {v : Tables}, w.ComesTo t a o v → o ∉ s.makes plans →
      ∀ {id}, Known t.toMemoryTables plans id →
        (v.isLive id = true ↔ Save.Standing t.toMemoryTables plans id) := fun ha ho id hid => by
    rw [hid.isLive_iff hvalid hw hplans hnew ha]
    exact ⟨Save.standing_of_stored hvalid hw hplans ha,
      Save.stored_of_standing hvalid hw hplans ha (ha.made hw hplans ho)⟩
  obtain ⟨q, hq, hsub, hlinks⟩ := Save.mem_links_iff hvalid hw hplans hnew h
  have hends := hlive h (hnot hbody) hsrc
  have hends' := hlive h (hnot hbody) hdst
  rw [hbody]
  constructor
  · intro hk hs hd
    have hfree := hk (hends.2 hs) (hends'.2 hd)
    refine ⟨fun row hrow => hfree row ((hlinks row).2 (.inr hrow)), fun o ho id hsame => ?_⟩
    obtain ⟨plans', hplans', hof⟩ := Save.batch_ops hw
    have htrust := (hof o (h.mem_ops (.inl ho))).trust
    obtain ⟨a, v, x, i, log, later, -, ha, -, hdone | hdone⟩ := h.met hvalid hw ho fun v =>
      Writer.allows_link huser htrust hsame
    · obtain ⟨log', -, happlied⟩ := hdone
      refine hfree (w.newLink id src linkType dst) ((hlinks _).2 (.inl ⟨o, happlied q hq, ?_⟩))
        ⟨rfl, rfl, rfl⟩
      rw [hsame]
      exact List.mem_singleton_self _
    · -- the same ends were live before, so the link was not skipped
      obtain ⟨reason, hskip⟩ := hdone
      rw [hsame] at hskip
      replace hskip : w.linkItems v log id src linkType dst = .error (.skip x reason) := hskip
      obtain ⟨a', ha'⟩ := Writer.liveItem_of_isLive ((hlive ha (hnot hsame) hsrc).2 hs)
      obtain ⟨b', hb'⟩ := Writer.liveItem_of_isLive ((hlive ha (hnot hsame) hdst).2 hd)
      rw [Writer.linkItems, ha', hb'] at hskip
      exact Writer.insertLink_ne_skip hskip
  · intro hk hs hd row hrow hlike
    obtain ⟨hstored, hbefore⟩ := hk (hends.1 hs) (hends'.1 hd)
    rcases (hlinks row).1 hrow with ⟨o, ho, hrow⟩ | hrow
    · obtain ⟨hsrc', htype, hdst'⟩ := hlike
      cases hob : o.body with
      | supersedeItem =>
        rw [hob] at hrow
        obtain rfl := List.mem_singleton.1 hrow
        exact hsup htype.symm
      | fulfilIntention =>
        rw [hob] at hrow
        obtain rfl := List.mem_singleton.1 hrow
        exact hful htype.symm
      | linkItems id =>
        rw [hob] at hrow
        obtain rfl := List.mem_singleton.1 hrow
        refine hbefore o (hsub.subset ho) id ?_
        rw [hob, ← hsrc', ← htype, ← hdst']
        rfl
      | _ =>
        rw [hob] at hrow
        exact absurd hrow List.not_mem_nil
    · exact hstored row hrow hlike

end

section

variable (hvalid : ValidExtraction s.lib.lib s.extraction)
  (hw : s.writer t.toMemoryTables = .ok w)
  (hplans : s.decidedPlans t.toMemoryTables = .ok plans) (hnew : s.NewIds t.toMemoryTables)
  (hbound : t.Bound)
include hvalid hw hplans hnew hbound

variable {pre : List Op} {op : Op} {u : Tables}

/-- **An op of a save** keeps the keys exactly when its rows are clear. -/
theorem keysHold_iff (h : w.ComesTo t pre op u) :
    KeysHold u.toMemoryTables op.body ↔ s.KeysClear t.toMemoryTables plans pre op.body := by
  obtain ⟨plans', hplans', hof⟩ := Save.batch_ops hw
  rw [hplans] at hplans'
  cases hplans'
  cases hof op (h.mem_ops (.inr rfl)) with
  | entity named upsert eq =>
    rw [eq]
    exact Iff.rfl
  | create planned apart eq => exact keysHold_create_iff hvalid hw hplans hnew hbound h planned eq
  | @change n p planned mem =>
    obtain ⟨m, -, -, hdecision⟩ := Save.planned hplans planned
    have hclosing : ∀ {made : LinkRecord}, made ∈ w.newLinks op.body → ∀ row ∈ u.links.rows,
        row.linkType ∈ [LinkType.supersedes, .fulfils] → row.srcItemId ≠ p.draft.itemId :=
      fun hmade row hrow => closing_link_new hvalid hw hplans hnew hbound h planned mem hmade hrow
    have hmem := mem
    unfold DecidedPlan.changeOps at hmem
    split at hmem
    · exact absurd hmem List.not_mem_nil
    · rename_i c hc
      rw [hdecision] at hc
      obtain ⟨hstored, hactive⟩ := decide_candidate hc
      dsimp only at hmem
      split at hmem
      · rw [List.mem_singleton.1 hmem] at hclosing ⊢
        refine iff_of_true (fun _ _ row hrow hlike => ?_) trivial
        exact hclosing (List.mem_singleton_self _) row hrow (by rw [hlike.2.1]; decide) hlike.1
      · rw [List.mem_singleton.1 hmem] at hclosing ⊢
        refine iff_of_true (fun _ _ row hrow hlike => ?_) trivial
        exact hclosing (List.mem_singleton_self _) row hrow (by rw [hlike.2.1]; decide) hlike.1
      · have hbody : op.body = .linkItems (s.lib.newId (.decisionLink n)) p.draft.itemId .follows c.id := by
          rw [List.mem_singleton.1 hmem]
        exact keysHold_link_iff hvalid hw hplans hnew h hbody (.planned planned rfl)
          (.stored hstored hactive) (by decide) (by decide)
      · unfold DecidedPlan.detailOps at hmem
        dsimp only at hmem
        split at hmem
        · exact absurd hmem List.not_mem_nil
        · rw [List.mem_singleton.1 hmem]
          exact Iff.rfl
      · exact absurd hmem List.not_mem_nil
      · exact absurd hmem List.not_mem_nil
  | @link n p planned mem =>
    obtain ⟨i, l, src, dst, -, hsrc, hdst, -, heq⟩ := Save.mem_linkOps.1 mem
    have hlabel : l.type.1 ≠ .supersedes ∧ l.type.1 ≠ .fulfils := by
      obtain ⟨type, htype⟩ := l.type
      revert htype
      cases type <;> decide
    have hbody : op.body = .linkItems (s.lib.newId (.memoryLink n i)) src l.type.1 dst := by rw [heq]
    exact keysHold_link_iff hvalid hw hplans hnew h hbody (known_of_ids hplans hsrc)
      (known_of_ids hplans hdst) hlabel.1 hlabel.2
  | relation mem eq =>
    obtain ⟨i, src, dst, slug, evidence, hbody, -⟩ := Save.mem_relations mem
    rw [← eq] at hbody
    have hnot : op ∉ s.makes plans := fun hmem => by
      rcases Save.mem_makes hmem with ⟨e, -, x, -, rfl⟩ | ⟨n, p, -, -, rfl⟩
      · exact (nomatch hbody)
      · exact (nomatch hbody)
    have hruns : s.refuses = false := by
      obtain ⟨-, -, -, last, heq, hlast⟩ := Save.writer_makes hw hplans
      have hmem := h.mem_ops (.inr rfl)
      rw [heq, List.mem_append, List.mem_append] at hmem
      rcases hmem with hmem | hmem | hmem
      · exact absurd hmem hnot
      · unfold Save.usesOps at hmem
        split at hmem
        · exact absurd hmem List.not_mem_nil
        · rename_i hr
          simpa using hr
      · rw [hlast op hmem] at hbody
        exact (nomatch hbody)
    have hmade := h.made hw hplans hnot
    rw [hbody]
    refine and_congr (Save.isSome_getEntity_iff hvalid hw hplans hruns h hmade _) (and_congr
      (Save.isSome_getEntity_iff hvalid hw hplans hruns h hmade _) (forall₂_congr fun j _ => ?_))
    exact ⟨Save.standing_of_stored hvalid hw hplans h,
      Save.stored_of_standing hvalid hw hplans h hmade⟩
  | promotion planned apart mem =>
    unfold DecidedPlan.promotionOps at mem
    split at mem
    · rw [List.mem_singleton.1 mem]
      exact Iff.rfl
    · exact absurd mem List.not_mem_nil
  | secret eq =>
    rw [eq]
    refine iff_of_true (fun _ => ⟨List.nodup_nil, fun e he => absurd he List.not_mem_nil⟩) ?_
    exact List.nodup_nil

end

end

/-! ## Saves -/

/-- **The ops of a save** keep the keys of every store whose rows name items that are there, in the
order of the batch and whatever the policy refuses, exactly when their rows are clear. -/
theorem save_keys_iff {s : Save} {t : Tables} {w : Writer} {plans : List DecidedPlan}
    (hvalid : ValidExtraction s.lib.lib s.extraction) (hw : s.writer t.toMemoryTables = .ok w)
    (hplans : s.decidedPlans t.toMemoryTables = .ok plans) (hnew : s.NewIds t.toMemoryTables)
    (hbound : t.Bound) :
    (∀ pre op u, w.ComesTo t pre op u → w.Allows u op → KeysHold u.toMemoryTables op.body) ↔
      ∀ pre op u, w.ComesTo t pre op u → w.Allows u op →
        s.KeysClear t.toMemoryTables plans pre op.body :=
  forall₃_congr fun _ _ _ => forall_congr' fun h => forall_congr' fun _ =>
    keysHold_iff hvalid hw hplans hnew hbound h

/-! ### A show that is named twice -/

/-- The ids of a turn, each of them for one thing. -/
def ownId : IdFor → Nat
  | .item n => 8 * n
  | .timeTrigger n => 8 * n + 1
  | .momentTrigger n => 8 * n + 2
  | .entityRow n i => 8 * Nat.pair n i + 3
  | .decisionLink n => 8 * n + 4
  | .memoryLink n i => 8 * Nat.pair n i + 5
  | .relation i => 8 * i + 6
  | .secret => 7

theorem ownId_injective : Function.Injective ownId := by
  intro k k' h
  cases k <;> cases k' <;> simp only [ownId] at h ⊢ <;>
    first
    | omega
    | (congr 1; omega)
    | (have hpair : Nat.pair _ _ = Nat.pair _ _ := Nat.eq_of_mul_eq_mul_left (by decide) (Nat.add_right_cancel h)
       obtain ⟨rfl, rfl⟩ := Nat.pair_eq_pair.1 hpair
       rfl)

/-- A message that names one show twice: the second mention means what the first one introduces. -/
def watchedTwice (roles : List EntityRef) : Save :=
  let base := saveOf 1 "i began dark, and dark is good."
    [{ ref := "m1", kind := ⟨.note, note_isLabel⟩, title := "dark", text := "i began dark"
       entities := roles }]
  let mention (id : String) : ExtractedEntity := ⟨id, "dark", some "dark", .work, none⟩
  let upsert : EntityUpsert := ⟨17, { kind := .work, name := "dark" }, true, "dark", "no match"⟩
  { base with
    lib := { base.lib with newId := ownId }
    extraction := { base.extraction with entities := [mention "e1", mention "e2"] }
    entities := base.entities ++ [("e1", ⟨17, .work, "dark", some upsert, false⟩),
      ("e2", ⟨17, .work, "dark", none, false⟩)] }

/-- Both mentions in one role: the flush fails, and the turn with it. -/
theorem twice_named_fails : ∃ (s : Save) (t : Tables) (w : Writer) (pre : List Op) (op : Op)
    (u : Tables), ValidExtraction s.lib.lib s.extraction ∧ s.writer t.toMemoryTables = .ok w ∧
      s.NewIds t.toMemoryTables ∧ t.Bound ∧ w.ComesTo t pre op u ∧ w.Allows u op ∧
      ¬ KeysHold u.toMemoryTables op.body ∧
      w.commit t = .error (.integrityError "memory_entities") := by
  let s := watchedTwice [⟨"e1", .about⟩, ⟨"e2", .about⟩]
  let t := Tables.initial 0
  have hran : ∃ w ∈ (s.writer t.toMemoryTables).toOption, w.heldWhole = false ∧
      (∃ e ∈ (match w.commit t with | .error (.integrityError e) => some e | _ => none),
        e = "memory_entities") ∧
      ∃ op ∈ w.ops[1]?, (∃ q ∈ (w.steps (w.seqBase t) 0 { tables := w.writeVocab t }
          (w.ops.take 1)).toOption,
        (∃ v ∈ (w.verdict q.tables op).toOption, v.decision = .allowed) ∧
        ∃ id ∈ op.body.createdItem, q.tables.getItem id = none) ∧
      ¬ ((w.newItemEntities op.body).map fun row => (row.entityId, row.role)).Nodup := by
    decide +kernel
  have hvalid : validateExtraction plainText s.extraction = [] := by decide +kernel
  obtain ⟨w, hw, hwhole, ⟨e, he, rfl⟩, op, hop, ⟨q, hq, ⟨v, hv, hallowed⟩, id, hid, hfree⟩, hdup⟩ :=
    hran
  refine ⟨s, t, w, w.ops.take 1, op, q.tables, hvalid, of_mem_toOption hw,
    ⟨ownId_injective, fun _ => KeyTable.lookup_empty _, fun _ => KeyTable.lookup_empty _⟩,
    ⟨fun row hrow => absurd hrow (Multiset.notMem_zero row),
      fun row hrow => absurd hrow (Multiset.notMem_zero row)⟩,
    ⟨hwhole, ⟨w.ops.drop 2, ?_⟩, q, of_mem_toOption hq, rfl⟩, ⟨v, of_mem_toOption hv, hallowed⟩,
    fun hkeys => ?_, ?_⟩
  · conv_lhs => rw [← List.take_append_drop 1 w.ops]
    rw [List.drop_eq_getElem?_toList_append, hop]
    rfl
  · cases hbody : op.body with
    | createItem itemId item entities triggers slug name =>
      rw [hbody] at hid hdup hkeys
      cases hid
      refine hdup ?_
      have hnodup := (hkeys hfree).1
      rw [Writer.newItemEntities, List.map_map]
      exact hnodup
    | _ =>
      rw [hbody] at hdup
      exact hdup List.nodup_nil
  · split at he
    · rename_i e' hcommit
      rw [hcommit, Option.mem_some_iff.1 he]
    · exact (nomatch he)

/-- In two roles, both rows are new. -/
theorem twice_named_keeps : ∃ w, (watchedTwice [⟨"e1", .about⟩, ⟨"e2", .with⟩]).writer
      (Tables.initial 0).toMemoryTables = .ok w ∧ w.ops ≠ [] ∧
    ∀ pre op u, w.ComesTo (Tables.initial 0) pre op u → w.Allows u op →
      KeysHold u.toMemoryTables op.body := by
  let s := watchedTwice [⟨"e1", .about⟩, ⟨"e2", .with⟩]
  let t := Tables.initial 0
  have hran : ∃ w ∈ (s.writer t.toMemoryTables).toOption,
      ∃ plans ∈ (s.decidedPlans t.toMemoryTables).toOption, w.ops ≠ [] ∧
        (w.ops.all fun op => match op.body with
          | .createItem _ _ entities _ _ _ => (entities.map fun e => (e.entityId, e.role)).Nodup
          | .linkItems .. | .relateEntities .. => False
          | _ => True) = true := by
    decide +kernel
  have hvalid : validateExtraction plainText s.extraction = [] := by decide +kernel
  obtain ⟨w, hw, plans, hplans, hsome, hops⟩ := hran
  refine ⟨w, of_mem_toOption hw, hsome, ?_⟩
  refine (save_keys_iff (s := s) hvalid (of_mem_toOption hw) (of_mem_toOption hplans)
    ⟨ownId_injective, fun _ => KeyTable.lookup_empty _, fun _ => KeyTable.lookup_empty _⟩
    ⟨fun row hrow => absurd hrow (Multiset.notMem_zero row),
      fun row hrow => absurd hrow (Multiset.notMem_zero row)⟩).2 fun pre op u h _ => ?_
  obtain ⟨post, hpost⟩ := h.within
  have hop := List.all_eq_true.1 hops op (by rw [hpost]; exact List.mem_append_right _ List.mem_cons_self)
  cases hbody : op.body with
  | createItem itemId item entities =>
    rw [hbody] at hop
    have hnodup : (entities.map fun e => (e.entityId, e.role)).Nodup := of_decide_eq_true hop
    exact hnodup
  | linkItems =>
    rw [hbody] at hop
    exact (nomatch hop)
  | relateEntities =>
    rw [hbody] at hop
    exact (nomatch hop)
  | _ => trivial

end SecondMind
