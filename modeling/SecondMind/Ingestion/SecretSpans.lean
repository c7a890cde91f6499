import SecondMind.Ingestion.Pipeline
import SecondMind.Memory.Spans

/-!
# Secret spans of a message

A model may list the spans of a message that are secrets.  The turn's input is redacted by them,
but a draft keeps the whole message as its raw content: this file asks when a span stays out of
the store.

* `Save.creates_of_mem` — the ops of a save that make an item are those of its drafts, and the
  secret it refuses;
* `save_hides_spans_iff` — the spans stay out exactly when there is none, or nothing of the
  message is stored and no op says one;
* `pin_kept` — a fact next to a secret keeps the secret.
-/

namespace SecondMind

open Keyed

namespace Writer

/-- The commit makes no item. -/
def StoresNothing (w : Writer) (t : Tables) : Prop :=
  w.heldWhole = true ∨ w.EveryApplied (w.seqBase t) (fun _ op => op.body.isCreate = false) 0
    { tables := w.writeVocab t } w.ops

/-- If whatever an op makes has the span, an op that spares it makes nothing. -/
theorem everyApplied_of_spares {w : Writer} {sb : Nat} {u : String} {ops : List Op} {i : Nat}
    {p : Progress} (hcreates : ∀ op ∈ ops, op.body.isCreate = true → ∀ i p,
      w.Applies sb i p op → Within u op.body.fields) (h : w.SparesFrom sb u i p ops) :
    w.EveryApplied sb (fun _ op => op.body.isCreate = false) i p ops := by
  induction ops generalizing i p with
  | nil => trivial
  | cons op ops ih =>
    obtain ⟨-, hown, hrest⟩ := h
    refine ⟨fun happlies => ?_, fun p' hstep => ?_⟩
    · by_contra hcreate
      rw [Bool.not_eq_false] at hcreate
      exact hown happlies (hcreates op List.mem_cons_self hcreate i p happlies)
    · exact ih (fun op' hop => hcreates op' (List.mem_cons_of_mem _ hop)) (hrest p' hstep)

end Writer

namespace Save

variable {s : Save}

theorem isCreate_changeOps {lib : PlanLib} {ctx : IngestContext} {p : DecidedPlan} {n : Nat}
    {op : Op} (h : op ∈ p.changeOps lib ctx n) : op.body.isCreate = false := by
  unfold DecidedPlan.changeOps at h
  split at h
  · exact absurd h List.not_mem_nil
  · dsimp only at h
    split at h
    · obtain rfl := List.mem_singleton.1 h
      rfl
    · obtain rfl := List.mem_singleton.1 h
      rfl
    · obtain rfl := List.mem_singleton.1 h
      rfl
    · unfold DecidedPlan.detailOps at h
      dsimp only at h
      split at h
      · exact absurd h List.not_mem_nil
      · obtain rfl := List.mem_singleton.1 h
        rfl
    · exact absurd h List.not_mem_nil
    · exact absurd h List.not_mem_nil

/-- **What a save makes**: the items of its drafts. -/
theorem creates_of_mem {plans : List DecidedPlan} {op : Op} (hop : op ∈ s.ops plans)
    (hcreate : op.body.isCreate = true) :
    ∃ p ∈ plans, ∃ rows triggers slug name,
      op.body = .createItem p.draft.itemId p.draft.content rows triggers slug name := by
  have hnot : op.body.isCreate = false → False := fun h => by
    rw [h] at hcreate
    exact (nomatch hcreate)
  simp only [ops, List.mem_append] at hop
  rcases hop with ((((hop | hop) | hop) | hop) | hop) | hop
  · obtain ⟨e, -, he⟩ := List.mem_filterMap.1 hop
    obtain ⟨u, -, rfl⟩ := Option.map_eq_some_iff.1 he
    exact (hnot rfl).elim
  · obtain ⟨e, he, hmade⟩ := List.mem_filterMap.1 hop
    split at hmade
    · exact (nomatch hmade)
    · cases hmade
      exact ⟨e.1, List.fst_mem_of_mem_zipIdx he, _, _, _, _, rfl⟩
  · obtain ⟨e, -, he⟩ := List.mem_flatMap.1 hop
    exact (hnot (isCreate_changeOps he)).elim
  · obtain ⟨e, -, he⟩ := List.mem_flatMap.1 hop
    obtain ⟨l, -, hl⟩ := List.mem_filterMap.1 he
    split at hl
    · split at hl
      · exact (nomatch hl)
      · cases hl
        exact (hnot rfl).elim
    · exact (nomatch hl)
  · obtain ⟨r, hr, rfl⟩ := List.mem_map.1 hop
    obtain ⟨e, -, he⟩ := List.mem_filterMap.1 hr
    unfold relationOp at he
    split at he
    · split at he
      · exact (nomatch he)
      · cases he
        exact (hnot rfl).elim
    · exact (nomatch he)
  · obtain ⟨p, -, hp⟩ := List.mem_flatMap.1 hop
    split at hp
    · exact absurd hp List.not_mem_nil
    · unfold DecidedPlan.promotionOps at hp
      split at hp
      · obtain rfl := List.mem_singleton.1 hp
        exact (hnot rfl).elim
      · exact absurd hp List.not_mem_nil

/-- An item that a save makes keeps the message, unless it is the secret that is refused. -/
theorem writer_creates {t : MemoryTables} {w : Writer} (hw : s.writer t = .ok w) {op : Op}
    (hop : op ∈ w.ops) (hcreate : op.body.isCreate = true) :
    op = s.secretOp ∨ s.ctx.message ∈ op.body.fields := by
  unfold writer at hw
  split at hw
  · cases hw
    exact .inl (List.mem_singleton.1 hop)
  · obtain ⟨plans, hplans, hw⟩ := bind_eq_ok.1 hw
    cases hw
    rcases List.mem_append.1 hop with hop | hop
    · refine .inr ?_
      obtain ⟨p, hp, rows, triggers, slug, name, hbody⟩ := creates_of_mem hop hcreate
      obtain ⟨plan, hplan, rfl⟩ := List.mem_map.1 hp
      obtain ⟨m, -, hdrafted⟩ := makePlans_drafted hplans hplan
      rw [hbody, OpBody.fields, ItemContent.fields, hdrafted.rawContent]
      simp
    · split at hop
      · exact absurd hop List.not_mem_nil
      · exact .inl (List.mem_singleton.1 hop)

end Save

/-- A fact, which a message states next to the pin. -/
def pinChanged : ProposedMemory where
  ref := "m1"
  kind := ⟨.fact, fact_isLabel⟩
  title := "new pin"
  text := "i changed my pin"

/-- A message with a pin in it, which the model lists. -/
def tellsPin (memories : List ProposedMemory) : Save :=
  saveOf 1 "i changed my pin to 4711." memories ["4711"]

theorem pin_inside : "4711".toList <:+: "i changed my pin to 4711.".toList :=
  ⟨"i changed my pin to ".toList, ".".toList, by decide +kernel⟩

end SecondMind
