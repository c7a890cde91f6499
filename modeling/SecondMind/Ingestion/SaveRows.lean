import SecondMind.Ingestion.SaveCommits
import SecondMind.Memory.NewRows

/-!
# The rows a save puts in

Besides its items a save only puts rows in: the entities a new item names, its triggers, links and
relations.  So the tables after any number of its ops are the tables before them with the rows of
the ops that were applied.

* `Save.OpOf` — where an op of a save comes from;
* `Writer.apply_puts` — an op that is applied puts these in, and no others;
* `Writer.steps_applied` — a batch leaves the tables with the rows of the ops it applied;
* `Writer.steps_has` — what a save leaves of the items that are stored.
-/

namespace SecondMind

open Keyed

/-! ## The plan at a position -/

/-- The plan `p` is made of the memory `m` at position `n`. -/
structure PlannedAt (lib : PlanLib) (ctx : IngestContext) (entities : List (String × EntityPlan))
    (resolve : ProposedMemory → List (String × Resolved)) (subtypes predicates : List Term) (n : Nat)
    (m : ProposedMemory) (p : Plan) : Prop
    extends Drafted lib ctx entities resolve subtypes predicates m p where
  itemId : p.draft.itemId = lib.newId (.item n)
  triggers : ∃ f, timeFields lib (resolve m) = .ok f ∧
    p.triggers = timeTriggers lib ctx n m f (resolve m) ++ momentTriggers lib n m entities

theorem makePlans_planned {lib : PlanLib} {ctx : IngestContext}
    {entities : List (String × EntityPlan)} {resolve : ProposedMemory → List (String × Resolved)}
    {subtypes predicates categories : List Term} {k : Nat} {ms : List ProposedMemory}
    {plans : List Plan}
    (h : makePlans lib ctx entities resolve subtypes predicates categories k ms = .ok plans) {n : Nat}
    {p : Plan} (hp : plans[n]? = some p) : ∃ m, ms[n]? = some m ∧
      PlannedAt lib ctx entities resolve subtypes predicates (k + n) m p := by
  induction ms generalizing categories k plans n with
  | nil =>
    cases h
    exact (nomatch hp)
  | cons m ms ih =>
    obtain ⟨⟨plan, categories'⟩, hplan, h⟩ := bind_eq_ok.1 h
    obtain ⟨rest, hrest, h⟩ := bind_eq_ok.1 h
    cases h
    cases n with
    | zero =>
      cases hp
      refine ⟨m, rfl, { makePlan_drafted hplan with itemId := ?_, triggers := ?_ }⟩
      all_goals
        obtain ⟨f, hf, hplan⟩ := bind_eq_ok.1 hplan
        obtain ⟨sentiment, -, hplan⟩ := bind_eq_ok.1 hplan
        obtain ⟨importance, -, hplan⟩ := bind_eq_ok.1 hplan
        cases hplan
      · rfl
      · exact ⟨f, hf, rfl⟩
    | succ n =>
      obtain ⟨m', hm', hplanned⟩ := ih hrest hp
      exact ⟨m', hm', by rwa [Nat.add_right_comm] at hplanned⟩

/-! ## Where an op of a save comes from -/

/-- The op is one of the save that the decided plans give. -/
inductive Save.OpOf (s : Save) (plans : List DecidedPlan) (op : Op) : Prop
  | entity {e : String × EntityPlan} {u : EntityUpsert} (named : e ∈ s.entities)
      (upsert : e.2.op = some u) (eq : op = u.op)
  | create {n : Nat} {p : DecidedPlan} (planned : plans[n]? = some p) (apart : p.merged = none)
      (eq : op = p.createOp s.lib n)
  | change {n : Nat} {p : DecidedPlan} (planned : plans[n]? = some p)
      (mem : op ∈ p.changeOps s.lib s.ctx n)
  | link {n : Nat} {p : DecidedPlan} (planned : plans[n]? = some p)
      (mem : op ∈ s.linkOps (idsByRef plans) n p)
  | relation {r : String × Op} (mem : r ∈ s.relations (idsByRef plans)) (eq : op = r.2)
  | promotion {p : DecidedPlan} (planned : p ∈ plans) (apart : p.merged = none)
      (mem : op ∈ p.promotionOps)
  | secret (eq : op = s.secretOp)

namespace Save

variable {s : Save} {t : MemoryTables} {w : Writer} {plans : List DecidedPlan} {op : Op}

theorem mem_createOps : op ∈ s.createOps plans ↔
    ∃ (n : Nat) (p : DecidedPlan), plans[n]? = some p ∧ p.merged = none ∧
      op = p.createOp s.lib n := by
  unfold createOps
  rw [List.mem_filterMap]
  constructor
  · rintro ⟨e, he, hmade⟩
    split at hmade
    · exact (nomatch hmade)
    · rename_i hmerged
      cases hmade
      exact ⟨e.2, e.1, List.mem_zipIdx_iff_getElem?.1 he, by simpa using hmerged, rfl⟩
  · rintro ⟨n, p, hp, hmerged, rfl⟩
    exact ⟨(p, n), List.mem_zipIdx_iff_getElem?.2 hp, by rw [hmerged]; rfl⟩

theorem mem_changeOps : op ∈ s.changeOps plans ↔
    ∃ (n : Nat) (p : DecidedPlan), plans[n]? = some p ∧ op ∈ p.changeOps s.lib s.ctx n := by
  unfold changeOps
  rw [List.mem_flatMap]
  constructor
  · rintro ⟨e, he, hop⟩
    exact ⟨e.2, e.1, List.mem_zipIdx_iff_getElem?.1 he, hop⟩
  · rintro ⟨n, p, hp, hop⟩
    exact ⟨(p, n), List.mem_zipIdx_iff_getElem?.2 hp, hop⟩

theorem mem_entityOps : op ∈ s.entityOps ↔ ∃ e ∈ s.entities, ∃ u, e.2.op = some u ∧ op = u.op := by
  unfold entityOps
  rw [List.mem_filterMap]
  constructor
  · rintro ⟨e, he, hop⟩
    obtain ⟨u, hu, rfl⟩ := Option.map_eq_some_iff.1 hop
    exact ⟨e, he, u, hu, rfl⟩
  · rintro ⟨e, he, u, hu, rfl⟩
    exact ⟨e, he, Option.map_eq_some_iff.2 ⟨u, hu, rfl⟩⟩

/-- **The ops of the plans**, one source after the other. -/
theorem opOf_of_mem_ops (h : op ∈ s.ops plans) : s.OpOf plans op := by
  simp only [ops, List.mem_append] at h
  rcases h with ((((h | h) | h) | h) | h) | h
  · obtain ⟨e, he, u, hu, rfl⟩ := mem_entityOps.1 h
    exact .entity he hu rfl
  · obtain ⟨n, p, hp, hmerged, rfl⟩ := mem_createOps.1 h
    exact .create hp hmerged rfl
  · obtain ⟨n, p, hp, hop⟩ := mem_changeOps.1 h
    exact .change hp hop
  · obtain ⟨e, he, hop⟩ := List.mem_flatMap.1 h
    exact .link (List.mem_zipIdx_iff_getElem?.1 he) hop
  · obtain ⟨r, hr, rfl⟩ := List.mem_map.1 h
    exact .relation hr rfl
  · obtain ⟨p, hp, hop⟩ := List.mem_flatMap.1 h
    split at hop
    · exact absurd hop List.not_mem_nil
    · rename_i hmerged
      exact .promotion hp (by simpa using hmerged) hop

/-- The plans of a save as it decides them on a store; a save that refuses has none. -/
def decidedPlans (s : Save) (t : MemoryTables) : Except Failure (List DecidedPlan) :=
  if s.refuses then .ok [] else s.plans.map (s.decided t)

/-- **The batch of a save**: the ops of its plans, and the op of its secrets. -/
theorem batch_ops (hw : s.writer t = .ok w) : ∃ plans, s.decidedPlans t = .ok plans ∧
    ∀ op ∈ w.ops, s.OpOf plans op := by
  unfold writer at hw
  unfold decidedPlans
  split at hw
  · rename_i hrefuses
    cases hw
    refine ⟨[], if_pos hrefuses, fun op hop => ?_⟩
    exact .secret (List.mem_singleton.1 hop)
  · rename_i hrefuses
    obtain ⟨plans, hplans, hw⟩ := bind_eq_ok.1 hw
    cases hw
    refine ⟨s.decided t plans, by rw [if_neg hrefuses, hplans]; rfl, fun op hop => ?_⟩
    rcases List.mem_append.1 hop with hop | hop
    · exact opOf_of_mem_ops hop
    · split at hop
      · exact absurd hop List.not_mem_nil
      · exact .secret (List.mem_singleton.1 hop)

/-- The plan at a position of the batch: its memory, and the decision the store gives it. -/
theorem planned {n : Nat} {p : DecidedPlan} (h : s.decidedPlans t = .ok plans)
    (hp : plans[n]? = some p) : ∃ m, s.memories[n]? = some m ∧
      PlannedAt s.lib s.ctx s.entities s.resolve s.subtypes s.predicates n m p.toPlan ∧
      p.decision = s.reconciler.decide t p.draft := by
  unfold decidedPlans at h
  split at h
  · cases h
    exact (nomatch hp)
  · cases hmade : s.plans with
    | error e =>
      rw [hmade] at h
      cases h
    | ok made =>
      rw [hmade] at h
      cases h
      rw [decided, List.getElem?_map] at hp
      obtain ⟨q, hq, rfl⟩ := Option.map_eq_some_iff.1 hp
      obtain ⟨m, hm, hplanned⟩ := makePlans_planned hmade hq
      exact ⟨m, hm, by rwa [Nat.zero_add] at hplanned, rfl⟩

end Save

/-! ## The rows of one op -/

namespace Writer

variable (w : Writer)

/-- The tables `t'` are `t` after these ops were applied: their items and entities are there, and
their rows are put in. -/
structure Puts (ops : List Op) (t t' : MemoryTables) : Prop where
  items : ∀ id, (t'.getItem id).isSome ↔
    (t.getItem id).isSome ∨ ∃ op ∈ ops, op.body.createdItem = some id
  entities : ∀ id, (t'.getEntity id).isSome ↔
    (t.getEntity id).isSome ∨ ∃ op ∈ ops, madeEntity op.body = some id
  itemEntities : t'.itemEntities =
    (ops.flatMap (w.newItemEntities ·.body)).foldl KeyTable.put t.itemEntities
  triggers : t'.triggers = (ops.flatMap (w.newTriggers ·.body)).foldl KeyTable.put t.triggers
  links : t'.links = (ops.flatMap (w.newLinks ·.body)).foldl KeyTable.put t.links
  relations : t'.relations = (ops.flatMap (w.newRelations ·.body)).foldl KeyTable.put t.relations

theorem Puts.refl (t : MemoryTables) : w.Puts [] t t :=
  ⟨fun id => by simp, fun id => by simp, rfl, rfl, rfl, rfl⟩

variable {w} in
theorem Puts.trans {ops ops' : List Op} {t u v : MemoryTables} (h : w.Puts ops t u)
    (h' : w.Puts ops' u v) : w.Puts (ops ++ ops') t v where
  items := fun id => by
    rw [h'.items, h.items, or_assoc]
    simp only [List.mem_append, or_and_right, exists_or]
  entities := fun id => by
    rw [h'.entities, h.entities, or_assoc]
    simp only [List.mem_append, or_and_right, exists_or]
  itemEntities := by
    rw [h'.itemEntities, h.itemEntities, List.flatMap_append, List.foldl_append]
  triggers := by rw [h'.triggers, h.triggers, List.flatMap_append, List.foldl_append]
  links := by rw [h'.links, h.links, List.flatMap_append, List.foldl_append]
  relations := by rw [h'.relations, h.relations, List.flatMap_append, List.foldl_append]

variable {w}

/-- An op that is applied leaves every item, and makes at most one. -/
theorem apply_items {t t' : Tables} {i : Nat} {log log' : RowLog} {body : OpBody}
    (h : w.apply t i log body = .ok (t', log')) (id : Uuid) :
    (t'.getItem id).isSome ↔ (t.getItem id).isSome ∨ body.createdItem = some id := by
  by_cases hcreate : body.isCreate = true
  · cases body with
    | createItem itemId item entities triggers slug name =>
      obtain ⟨record, hnew, -, put, -, -⟩ := createItem_frame h
      have hid : record.id = itemId := (newItem_eq_ok hnew).2.2.1
      rw [MemoryTables.getItem, put, KeyTable.isSome_lookup_put, hid]
      exact or_congr_right (Option.some_inj).symm
    | _ => cases hcreate
  · have hnone : body.createdItem = none := by
      cases body with
      | createItem => exact absurd rfl hcreate
      | _ => rfl
    rw [hnone, or_iff_left (Option.some_ne_none _ ∘ Eq.symm)]
    rcases apply_itemEffect h with hsame | ⟨rfl, -, -, -⟩ | ⟨-, -, stored, put⟩
    · rw [MemoryTables.getItem, hsame]
      rfl
    · exact absurd rfl hcreate
    · rw [MemoryTables.getItem, put, KeyTable.isSome_lookup_put, id_keepAccess, id_edited]
      refine or_iff_left_of_imp fun he => ?_
      rw [← he]
      exact Option.isSome_iff_exists.2 ⟨_, stored⟩

/-- **An op of a save** that is applied puts its rows in. -/
theorem apply_puts {t : MemoryTables} {u u' : Tables} {i : Nat} {log log' : RowLog} {op : Op}
    (hop : SaveOp t op) (h : w.apply u i log op.body = .ok (u', log')) :
    w.Puts [op] u.toMemoryTables u'.toMemoryTables := by
  have hitems : ∀ id, (u'.getItem id).isSome ↔
      (u.getItem id).isSome ∨ ∃ o ∈ [op], o.body.createdItem = some id := by
    intro id
    rw [apply_items h]
    simp only [List.mem_singleton, exists_eq_left]
  have hsame : madeEntity op.body = none → u'.entities = u.entities → ∀ id,
      ((u'.getEntity id).isSome ↔
        (u.getEntity id).isSome ∨ ∃ o ∈ [op], madeEntity o.body = some id) := by
    intro hmade he id
    simp only [List.mem_singleton, exists_eq_left]
    rw [hmade, or_iff_left (Option.some_ne_none _ ∘ Eq.symm), MemoryTables.getEntity, he]
    rfl
  cases hop with
  | @entity id entity create body =>
    rw [body] at h
    refine ⟨hitems, fun id' => ?_, ?_, ?_, ?_, ?_⟩
    · simp only [List.mem_singleton, exists_eq_left]
      rw [body]
      rcases upsertEntity_eq_ok.1 h with ⟨rfl, -, -, hx⟩ | ⟨rfl, before, hget, -, hx⟩
      · obtain ⟨rfl, rfl⟩ := Prod.mk.inj hx
        rw [MemoryTables.getEntity, KeyTable.isSome_lookup_put]
        exact or_congr_right (Option.some_inj).symm
      · obtain ⟨rfl, rfl⟩ := Prod.mk.inj hx
        rw [MemoryTables.getEntity, KeyTable.isSome_lookup_put]
        have hid : before.id = id := KeyTable.key_of_lookup hget
        have hedited : (w.editedEntity before entity).id = before.id := rfl
        refine ⟨fun hs => .inl (hs.elim (fun hs => hs) fun he => ?_), fun hs => .inl ?_⟩
        · rw [← he, hedited, hid, hget]
          rfl
        · exact hs.resolve_right (Option.some_ne_none _ ∘ Eq.symm)
    all_goals
      rw [List.flatMap_singleton, body]
      rcases upsertEntity_eq_ok.1 h with ⟨-, -, -, hx⟩ | ⟨-, before, -, -, hx⟩
      · obtain ⟨rfl, rfl⟩ := Prod.mk.inj hx
        rfl
      · obtain ⟨rfl, rfl⟩ := Prod.mk.inj hx
        rfl
  | create body =>
    rw [body] at h
    obtain ⟨hentities, htriggers, hsame', hlinks, hrelations⟩ := createItem_puts h
    refine ⟨hitems, hsame (by rw [body]; rfl) hsame', ?_, ?_, ?_, ?_⟩
    all_goals rw [List.flatMap_singleton, body]
    · exact hentities
    · exact htriggers
    · exact hlinks
    · exact hrelations
  | @update itemId changes body =>
    rw [body] at h
    obtain ⟨before, after, -, -, -, -, -, hx⟩ := changeItem_eq_ok.1 h
    obtain ⟨rfl, rfl⟩ := Prod.mk.inj hx
    have hmem := (w.aside_refile u i changes).memory
    refine ⟨hitems, hsame (by rw [body]; rfl) ?_, ?_, ?_, ?_, ?_⟩
    all_goals
      try rw [List.flatMap_singleton, body]
      dsimp only [storeItem]
      rw [hmem]
      try rfl
  | supersede stored body =>
    rw [body] at h
    obtain ⟨old, new, hold, hnew, -, h⟩ := supersede_eq_ok.1 h
    obtain ⟨he, hie, htr, hl, hr⟩ := changeAndLink_puts hold h
    rw [id_of_liveItem hnew, id_of_liveItem hold] at hl
    refine ⟨hitems, hsame (by rw [body]; rfl) he, ?_, ?_, ?_, ?_⟩
    all_goals rw [List.flatMap_singleton, body]
    · exact hie
    · exact htr
    · exact hl
    · exact hr
  | fulfil body =>
    rw [body] at h
    obtain ⟨old, new, hold, hnew, -, h⟩ := fulfil_eq_ok.1 h
    obtain ⟨he, hie, htr, hl, hr⟩ := changeAndLink_puts hold h
    rw [id_of_liveItem hnew, id_of_liveItem hold] at hl
    refine ⟨hitems, hsame (by rw [body]; rfl) he, ?_, ?_, ?_, ?_⟩
    all_goals rw [List.flatMap_singleton, body]
    · exact hie
    · exact htr
    · exact hl
    · exact hr
  | link body =>
    rw [body] at h
    obtain ⟨-, -, h⟩ := linkItems_eq_ok.1 h
    obtain ⟨-, hx⟩ := insertLink_eq_ok.1 h
    obtain ⟨rfl, rfl⟩ := Prod.mk.inj hx
    refine ⟨hitems, hsame (by rw [body]; rfl) rfl, ?_, ?_, ?_, ?_⟩
    all_goals rw [List.flatMap_singleton, body]; rfl
  | relate body =>
    rw [body] at h
    obtain ⟨-, hx⟩ := relate_eq_ok.1 h
    obtain ⟨rfl, rfl⟩ := Prod.mk.inj hx
    refine ⟨hitems, hsame (by rw [body]; rfl) rfl, ?_, ?_, ?_, ?_⟩
    all_goals rw [List.flatMap_singleton, body]; rfl

/-! ## The rows of a batch -/

/-- The ops of these outcomes that were applied. -/
def appliedOps (outcomes : List OpOutcome) : List Op :=
  (outcomes.filter (·.verdict.decision = .allowed)).map (·.op)

theorem mem_appliedOps {outcomes : List OpOutcome} {op : Op} : op ∈ appliedOps outcomes ↔
    ∃ o ∈ outcomes, o.verdict.decision = .allowed ∧ o.op = op := by
  simp [appliedOps, and_assoc]

theorem appliedOps_append (os os' : List OpOutcome) :
    appliedOps (os ++ os') = appliedOps os ++ appliedOps os' := by
  simp [appliedOps]

/-- A batch that has come from `p` to `p'` has applied the ops `done` of `ops`. -/
structure Applied (w : Writer) (ops : List Op) (p p' : Progress) (done : List Op) : Prop where
  outcomes : appliedOps p'.outcomes = appliedOps p.outcomes ++ done
  puts : w.Puts done p.tables.toMemoryTables p'.tables.toMemoryTables
  within : done.Sublist ops
  allowed : ∀ op ∈ done, ∃ u, w.Allows u op

/-- One turn of the loop of a save. -/
theorem step_applied {t : MemoryTables} {sb i : Nat} {p p' : Progress} {op : Op} (hop : SaveOp t op)
    (h : w.step sb i p op = .ok p') : ∃ done, Applied w [op] p p' done := by
  rcases step_cases h with ⟨v, -, hv, rfl⟩ | ⟨v, u, reason, -, -, hskip, rfl⟩ |
    ⟨v, u, log, hverdict, hv, happly, rfl⟩
  · refine ⟨[], ?_, ?_, List.nil_sublist _, fun o ho => absurd ho List.not_mem_nil⟩
    · obtain ⟨row, heldId, held, -, -, -, heq⟩ := refuse_eq sb i p op hv
      rw [heq, appliedOps_append]
      simp [appliedOps, hv]
    · rw [refuse_tables]
      exact .refl w _
  · refine ⟨[], ?_, ?_, List.nil_sublist _, fun o ho => absurd ho List.not_mem_nil⟩
    · rw [appliedOps_append]
      rfl
    · dsimp only
      rw [(apply_skip hskip).memory]
      exact .refl w _
  · refine ⟨[op], ?_, apply_puts hop happly, List.Sublist.refl _, fun o ho => ?_⟩
    · rw [appliedOps_append]
      simp [appliedOps, hv]
    · rw [List.mem_singleton.1 ho]
      exact ⟨p.tables, v, hverdict, hv⟩

/-- **A batch of a save** leaves the tables with the rows of the ops that were applied. -/
theorem steps_applied {t : MemoryTables} {sb : Nat} {ops : List Op} {i : Nat} {p p' : Progress}
    (hops : ∀ op ∈ ops, SaveOp t op) (h : w.steps sb i p ops = .ok p') :
    ∃ done, Applied w ops p p' done := by
  induction ops generalizing i p with
  | nil =>
    cases h
    exact ⟨[], (List.append_nil _).symm, .refl w _, List.Sublist.refl _,
      fun o ho => absurd ho List.not_mem_nil⟩
  | cons op ops ih =>
    obtain ⟨p₁, h₁, h⟩ := bind_eq_ok.1 h
    obtain ⟨done₁, hdone₁⟩ := step_applied (hops op List.mem_cons_self) h₁
    obtain ⟨done, hdone⟩ := ih (fun op hop => hops op (List.mem_cons_of_mem _ hop)) h
    refine ⟨done₁ ++ done, ?_, hdone₁.puts.trans hdone.puts, hdone₁.within.append hdone.within, ?_⟩
    · rw [hdone.outcomes, hdone₁.outcomes, List.append_assoc]
    · intro o ho
      exact (List.mem_append.1 ho).elim (hdone₁.allowed o) (hdone.allowed o)

/-- The loop comes to each op of the batch. -/
theorem steps_mem {sb : Nat} {ops : List Op} {i : Nat} {p p' : Progress}
    (h : w.steps sb i p ops = .ok p') {op : Op} (hop : op ∈ ops) :
    ∃ a b j q q', ops = a ++ op :: b ∧ w.steps sb i p a = .ok q ∧ w.step sb j q op = .ok q' ∧
      w.steps sb (j + 1) q' b = .ok p' := by
  obtain ⟨a, b, rfl⟩ := List.append_of_mem hop
  obtain ⟨q, hq, h⟩ := steps_append.1 h
  obtain ⟨q', hq', h⟩ := bind_eq_ok.1 h
  exact ⟨a, b, _, q, q', rfl, hq, hq', h⟩

end Writer

/-! ## What a save leaves of an item -/

/-- A content without the fields that a save, or reading it, changes of a stored item. -/
def ItemContent.rest (c : ItemContent) : ItemContent :=
  { c with
    state := "", summary := none, categoryId := none, tags := [], attributes := .null
    validTo := none, accessCount := 0, lastAccessedAt := none, inCore := false
    coreConfirmedAt := none }

/-- Changes of these fields only. -/
def ItemChanges.Light (ch : ItemChanges) : Prop :=
  ∃ state summary tags attributes validTo inCore,
    ch = { state := state, summary := summary, tags := tags, attributes := attributes
           validTo := validTo, inCore := inCore }

/-- The item is stored with this content, but for these fields. -/
def Has (t : MemoryTables) (id : Uuid) (c : ItemContent) : Prop :=
  ∃ r, t.getItem id = some r ∧ r.rest = c.rest

theorem Has.of_getItem {t : MemoryTables} {id : Uuid} {r : ItemRecord} (h : t.getItem id = some r) :
    Has t id r.toItemContent := ⟨r, h, rfl⟩

namespace Save

variable {s : Save} {plans : List DecidedPlan} {op : Op}

theorem OpOf.light (h : s.OpOf plans op) : op.body.itemChanges.Light := by
  have hnothing : ({} : ItemChanges).Light := ⟨none, none, none, none, none, none, rfl⟩
  cases h with
  | entity named upsert eq => rw [eq]; exact hnothing
  | create planned apart eq => rw [eq]; exact hnothing
  | change planned mem =>
    unfold DecidedPlan.changeOps at mem
    split at mem
    · exact absurd mem List.not_mem_nil
    · dsimp only at mem
      split at mem
      · rw [List.mem_singleton.1 mem]
        exact ⟨_, none, none, none, _, none, rfl⟩
      · rw [List.mem_singleton.1 mem]
        exact ⟨_, none, none, none, none, none, rfl⟩
      · rw [List.mem_singleton.1 mem]
        exact hnothing
      · unfold DecidedPlan.detailOps at mem
        dsimp only at mem
        split at mem
        · exact absurd mem List.not_mem_nil
        · rw [List.mem_singleton.1 mem]
          exact ⟨none, _, _, _, none, none, rfl⟩
      · exact absurd mem List.not_mem_nil
      · exact absurd mem List.not_mem_nil
  | link planned mem =>
    obtain ⟨l, -, hl⟩ := List.mem_filterMap.1 mem
    split at hl
    · split at hl
      · exact (nomatch hl)
      · cases hl
        exact hnothing
    · exact (nomatch hl)
  | relation mem eq =>
    obtain ⟨e, -, he⟩ := List.mem_filterMap.1 mem
    unfold relationOp at he
    split at he
    · split at he
      · exact (nomatch he)
      · cases he
        rw [eq]
        exact hnothing
    · exact (nomatch he)
  | promotion planned apart mem =>
    unfold DecidedPlan.promotionOps at mem
    split at mem
    · rw [List.mem_singleton.1 mem]
      exact ⟨none, none, none, none, none, _, rfl⟩
    · exact absurd mem List.not_mem_nil
  | secret eq => rw [eq]; exact hnothing

end Save

namespace Writer

variable {w : Writer}

theorem rest_edited (before : ItemRecord) {changes : ItemChanges} (h : changes.Light) :
    (w.edited before changes).rest = before.rest := by
  obtain ⟨state, summary, tags, attributes, validTo, inCore, rfl⟩ := h
  show (w.changedContent before.toItemContent _).rest = _
  unfold changedContent
  dsimp only
  split <;> rfl

theorem rest_keepAccess (t : Tables) (r : ItemRecord) :
    (t.keepAccess r).rest = r.rest := by
  unfold Tables.keepAccess
  split <;> rfl

theorem rest_newRecord (itemId : Uuid) (item : ItemContent) (categoryId : Option Uuid) :
    (w.newRecord itemId item categoryId).rest = item.rest := by
  have hnew : ∀ c, (w.newContent c).rest = c.rest := fun c => by
    unfold newContent
    split <;> rfl
  refine (hnew _).trans ?_
  cases categoryId <;> rfl

/-- A light op leaves every item as it is, but for the fields it may change. -/
theorem apply_has {t t' : Tables} {i : Nat} {log log' : RowLog} {body : OpBody}
    (hlight : body.itemChanges.Light) (h : w.apply t i log body = .ok (t', log')) {id : Uuid}
    {c : ItemContent} (hc : Has t.toMemoryTables id c) : Has t'.toMemoryTables id c := by
  obtain ⟨r, hr, hrest⟩ := hc
  have hfiled : w.filedChanges t i body = body.itemChanges := by
    obtain ⟨state, summary, tags, attributes, validTo, inCore, heq⟩ := hlight
    rw [filedChanges, refile_of_none (by rw [heq])]
  rcases apply_itemEffect h with hsame | ⟨hbody, hnew, hfree, put⟩ | ⟨-, -, stored, put⟩
  · exact ⟨r, by rwa [MemoryTables.getItem, hsame], hrest⟩
  · refine ⟨r, ?_, hrest⟩
    have hid := (newItem_eq_ok hnew).2.2.1
    rw [MemoryTables.getItem, put, KeyTable.lookup_put_of_ne]
    · exact hr
    · rintro rfl
      rw [hid, hfree] at hr
      cases hr
  · rename_i before
    rw [hfiled] at put
    unfold Has
    rw [MemoryTables.getItem, put, KeyTable.lookup_put, id_keepAccess, id_edited]
    split
    · rename_i he
      subst he
      rw [stored] at hr
      cases hr
      exact ⟨_, rfl, by rw [rest_keepAccess, rest_edited _ hlight, hrest]⟩
    · exact ⟨r, hr, hrest⟩

/-- A new item is there with its content. -/
theorem createItem_has {t t' : Tables} {i : Nat} {log log' : RowLog} {itemId : Uuid}
    {item : ItemContent} {entities : List EntityLink} {triggers : List NewTrigger}
    {slug name : Option String}
    (h : w.createItem t i log itemId item entities triggers slug name = .ok (t', log')) :
    Has t'.toMemoryTables itemId item := by
  obtain ⟨record, hnew, -, put, -, -⟩ := createItem_frame h
  obtain ⟨-, rfl⟩ := newItem_eq_ok_iff.1 hnew
  refine ⟨w.newRecord itemId item (w.category t i item slug name).2, ?_, rest_newRecord itemId item _⟩
  rw [MemoryTables.getItem, put]
  exact KeyTable.lookup_put_self _ _

theorem step_has {sb i : Nat} {p p' : Progress} {op : Op} (hlight : op.body.itemChanges.Light)
    (h : w.step sb i p op = .ok p') {id : Uuid} {c : ItemContent}
    (hc : Has p.tables.toMemoryTables id c) : Has p'.tables.toMemoryTables id c := by
  rcases step_cases h with ⟨v, -, -, rfl⟩ | ⟨v, u, reason, -, -, hskip, rfl⟩ |
    ⟨v, u, log, -, -, happly, rfl⟩
  · rw [refuse_tables]
    exact hc
  · dsimp only
    rw [(apply_skip hskip).memory]
    exact hc
  · exact apply_has hlight happly hc

/-- The new items that were applied are there with their content. -/
theorem steps_created {sb : Nat} {ops : List Op} {i : Nat} {p p' : Progress}
    (hlight : ∀ op ∈ ops, op.body.itemChanges.Light) (h : w.steps sb i p ops = .ok p')
    (hp : p.outcomes = []) {op : Op} (hop : op ∈ appliedOps p'.outcomes) {itemId : Uuid}
    {item : ItemContent} {entities : List EntityLink} {triggers : List NewTrigger}
    {slug name : Option String}
    (hbody : op.body = .createItem itemId item entities triggers slug name) :
    Has p'.tables.toMemoryTables itemId item := by
  refine steps_induct (P := fun q => ∀ op ∈ appliedOps q.outcomes,
    ∀ itemId item entities triggers slug name,
      op.body = .createItem itemId item entities triggers slug name →
        Has q.tables.toMemoryTables itemId item) (fun i q op q' hmem hq hstep => ?_) ?_ h op hop
        itemId item entities triggers slug name hbody
  · intro o ho itemId item entities triggers slug name hbody
    have hkeep : ∀ {id c}, Has q.tables.toMemoryTables id c → Has q'.tables.toMemoryTables id c :=
      fun hc => step_has (hlight op hmem) hstep hc
    rcases step_cases hstep with ⟨v, -, hv, rfl⟩ | ⟨v, u, reason, -, -, hskip, rfl⟩ |
      ⟨v, u, log, hverdict, hv, happly, rfl⟩
    · obtain ⟨row, heldId, held, -, -, -, heq⟩ := refuse_eq sb i q op hv
      rw [heq, appliedOps_append] at ho
      refine hkeep (hq o ?_ _ _ _ _ _ _ hbody)
      simpa [appliedOps, hv] using ho
    · rw [appliedOps_append] at ho
      refine hkeep (hq o ?_ _ _ _ _ _ _ hbody)
      simpa [appliedOps, notApplicable] using ho
    · rw [appliedOps_append] at ho
      rcases List.mem_append.1 ho with ho | ho
      · exact hkeep (hq o ho _ _ _ _ _ _ hbody)
      · obtain rfl : o = op := by simpa [appliedOps, hv] using ho
        rw [hbody] at happly
        exact createItem_has happly
  · rw [hp]
    intro o ho
    exact absurd ho List.not_mem_nil

/-- **Light ops** leave every item as it is, but for the fields they may change. -/
theorem steps_has {sb : Nat} {ops : List Op} {i : Nat} {p p' : Progress}
    (hlight : ∀ op ∈ ops, op.body.itemChanges.Light) (h : w.steps sb i p ops = .ok p') {id : Uuid}
    {c : ItemContent} (hc : Has p.tables.toMemoryTables id c) : Has p'.tables.toMemoryTables id c :=
  steps_induct (P := fun q => Has q.tables.toMemoryTables id c)
    (fun _ _ op _ hop hq hstep => step_has (hlight op hop) hstep hq) hc h

end Writer
end SecondMind
