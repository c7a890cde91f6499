import SecondMind.Ingestion.SaveOps
import SecondMind.Memory.CoreBudget

/-!
# One value at a time

A fact or a preference under a subject and a predicate says what is true now, one value at a time.
The rules close the current value when a new one comes, but each draft is decided against the
store as it was before the message: two drafts of one message under one key do not see each other.

* `Save.OneValueEach` — the condition on a save: one draft for each key that it opens, and a
  current value that can be closed;
* `Save.keeps_steady` — such a save keeps one current value for each key;
* `run_single_value` — and so does every run of such saves from the empty store;
* `two_values_kept` — a message that states two values leaves both.
-/

namespace SecondMind

open Keyed Reconciler Policy

/-! ## Stores with one value for each key -/

/-- A live item without an end, under the key. -/
def LiveValue (t : MemoryTables) (key : SingleKey) (r : ItemRecord) : Prop :=
  t.getItem r.id = some r ∧ r.status ≠ .deleted ∧ r.validTo = none ∧
    r.toItemContent.singleKey = some key

/-- A store as saves leave it that state one value at a time. -/
structure Steady (t : MemoryTables) : Prop where
  active : ∀ id r, t.getItem id = some r → r.status = .active
  notSecret : ∀ id r, t.getItem id = some r → r.sensitivity ≠ .secret
  core : ∀ id r, t.getItem id = some r → r.inCore = true →
    r.sensitivity ≠ .sensitive ∧ r.modality ≠ .hypothetical
  single : ∀ key r r', IsCurrent t key r → IsCurrent t key r' → r = r'

theorem Steady.isCurrent {t : MemoryTables} (h : Steady t) {key : SingleKey} {r : ItemRecord}
    (hr : LiveValue t key r) : IsCurrent t key r :=
  ⟨hr.1, h.active _ _ hr.1, hr.2.2⟩

theorem steady_initial (me : Uuid) : Steady (Tables.initial me).toMemoryTables := by
  have hnone : ∀ id, (Tables.initial me).toMemoryTables.getItem id = none :=
    fun id => KeyTable.lookup_empty id
  constructor
  · intro id r hr
    rw [hnone] at hr
    exact (nomatch hr)
  · intro id r hr
    rw [hnone] at hr
    exact (nomatch hr)
  · intro id r hr
    rw [hnone] at hr
    exact (nomatch hr)
  · intro key r r' hr
    rw [IsCurrent, hnone] at hr
    exact (nomatch hr.1)

/-- Retrieval bookkeeping leaves a store steady. -/
theorem SameMemory.steady {t t' : Tables} (h : SameMemory t t')
    (hs : Steady t.toMemoryTables) : Steady t'.toMemoryTables := by
  have hback : ∀ {id r'}, t'.getItem id = some r' →
      ∃ r, t.getItem id = some r ∧ r'.eraseAccess = r.eraseAccess := by
    intro id r' hr'
    have hmap := h.items id
    rw [hr', Option.map_some] at hmap
    obtain ⟨r, hr, he⟩ := Option.map_eq_some_iff.1 hmap.symm
    exact ⟨r, hr, he.symm⟩
  have hfield : ∀ {r r' : ItemRecord} {α : Type} (f : ItemRecord → α),
      (∀ x, f x.eraseAccess = f x) → r'.eraseAccess = r.eraseAccess → f r' = f r := by
    intro r r' α f hf he
    rw [← hf r', ← hf r, he]
  constructor
  · intro id r' hr'
    obtain ⟨r, hr, he⟩ := hback hr'
    rw [hfield (fun x => x.status) (fun _ => rfl) he]
    exact hs.active id r hr
  · intro id r' hr'
    obtain ⟨r, hr, he⟩ := hback hr'
    rw [hfield (fun x => x.sensitivity) (fun _ => rfl) he]
    exact hs.notSecret id r hr
  · intro id r' hr' hcore
    obtain ⟨r, hr, he⟩ := hback hr'
    rw [hfield (fun x => x.sensitivity) (fun _ => rfl) he,
      hfield (fun x => x.modality) (fun _ => rfl) he]
    rw [hfield (fun x => x.inCore) (fun _ => rfl) he] at hcore
    exact hs.core id r hr hcore
  · have hcurrent : ∀ {key r'}, IsCurrent t'.toMemoryTables key r' →
        ∃ r, IsCurrent t.toMemoryTables key r ∧ r.id = r'.id := by
      intro key r' hr'
      obtain ⟨hstored, hactive, hopen, hkey⟩ := hr'
      obtain ⟨r, hr, he⟩ := hback hstored
      have hid : r.id = r'.id := KeyTable.key_of_lookup hr
      refine ⟨r, ⟨hid ▸ hr, ?_, ?_, ?_⟩, hid⟩
      · rw [← hfield (fun x => x.status) (fun _ => rfl) he]
        exact hactive
      · rw [← hfield (fun x => x.validTo) (fun _ => rfl) he]
        exact hopen
      · rw [← hfield (fun x => x.toItemContent.singleKey) (fun _ => rfl) he]
        exact hkey
    intro key r r' hr hr'
    obtain ⟨a, ha, hida⟩ := hcurrent hr
    obtain ⟨b, hb, hidb⟩ := hcurrent hr'
    obtain rfl := hs.single key a b ha hb
    have hsame := hr.1
    rw [← hida, hidb, hr'.1] at hsame
    exact (Option.some.inj hsame).symm

/-! ## What core costs under a save -/

section Cost

variable {ds : List Draft} {t u : MemoryTables}

/-- An item that ages outside promotions costs core no more than it did. -/
theorem viewCost_ages {r r' : ItemContent} (h : r.Ages False r') : viewCost r' ≤ viewCost r := by
  have hcore : r'.inCore = r.inCore := h.core.resolve_left fun hf => hf
  unfold viewCost
  split
  · rename_i hview
    have hold : inCoreView r = true := by
      unfold inCoreView at hview ⊢
      split at hview
      · exact (nomatch hview)
      · rename_i hshown
        simp only [hcore, h.status, not_or, Decidable.not_not] at hshown
        obtain ⟨hin, hactive, hopen⟩ := hshown
        rw [if_neg (by simp [hin, hactive, h.closed hopen])]
        split at hview
        · exact (nomatch hview)
        · rename_i hstate
          rw [Decidable.not_not] at hstate
          have hsame : r'.state = r.state := by
            rcases h.state hopen with hs | ⟨-, hs⟩
            · exact hs
            · rw [hs] at hstate
              exact absurd hstate (by decide)
          rw [if_neg (by rw [← hsame]; simpa using hstate)]
          rw [h.sensitivity, h.confirmedAt] at hview
          exact hview
    rw [if_pos hold, coreLine, coreLine, h.text]
  · exact Nat.zero_le _

/-- The core items as the reader orders them: the moment and the id of each. -/
def coreKeys (t : MemoryTables) : Multiset (Instant ×ₗ Uuid) :=
  (t.items.rows.filter fun item => item.status = .active ∧ item.inCore = true).map
    fun item => toLex (item.createdAt, item.id)

theorem mem_coreKeys {k : Instant ×ₗ Uuid} :
    k ∈ coreKeys t ↔ ∃ r, t.getItem (ofLex k).2 = some r ∧ r.createdAt = (ofLex k).1 ∧
      r.status = .active ∧ r.inCore = true := by
  simp only [coreKeys, Multiset.mem_map, Multiset.mem_filter]
  constructor
  · rintro ⟨r, ⟨hrow, hactive, hcore⟩, rfl⟩
    exact ⟨r, MemoryTables.getItem_of_mem_rows hrow, rfl, hactive, hcore⟩
  · rintro ⟨r, hr, hcreated, hactive, hcore⟩
    refine ⟨r, ⟨MemoryTables.mem_rows_of_getItem hr, hactive, hcore⟩, ?_⟩
    have hid : r.id = (ofLex k).2 := KeyTable.key_of_lookup hr
    rw [hid, hcreated]
    rfl

theorem nodup_coreKeys (t : MemoryTables) : (coreKeys t).Nodup := by
  refine Multiset.Nodup.map_on (fun a ha b hb he => ?_) ((KeyTable.nodup_rows _).filter _)
  have hid : a.id = b.id := congrArg (fun k => (ofLex k).2) he
  have hstored := MemoryTables.getItem_of_mem_rows (Multiset.mem_filter.1 ha).1
  rw [hid, MemoryTables.getItem_of_mem_rows (Multiset.mem_filter.1 hb).1] at hstored
  exact (Option.some.inj hstored).symm

/-- No op before the promotions puts an item in core or takes one out. -/
theorem coreKeys_grown (h : Grown False ds t u) (hds : ∀ d ∈ ds, d.content.inCore = false) :
    coreKeys u = coreKeys t := by
  refine (Multiset.Nodup.ext (nodup_coreKeys u) (nodup_coreKeys t)).2 fun k => ?_
  rw [mem_coreKeys, mem_coreKeys]
  constructor
  · rintro ⟨r', hr', hcreated, hactive, hcore⟩
    cases hr : t.getItem (ofLex k).2 with
    | none =>
      obtain ⟨d, hd, -, hages⟩ := h.new _ _ hr' hr
      rw [hages.core.resolve_left fun hf => hf, hds d hd] at hcore
      exact (nomatch hcore)
    | some r =>
      obtain ⟨r₂, hr₂, hsame, hages⟩ := h.ages _ _ hr
      obtain rfl : r₂ = r' := Option.some.inj (hr₂.symm.trans hr')
      exact ⟨r, rfl, hsame.symm.trans hcreated, hages.status.symm.trans hactive,
        (hages.core.resolve_left fun hf => hf).symm.trans hcore⟩
  · rintro ⟨r, hr, hcreated, hactive, hcore⟩
    obtain ⟨r', hr', hsame, hages⟩ := h.ages _ _ hr
    exact ⟨r', hr', hsame.trans hcreated, hages.status.trans hactive,
      (hages.core.resolve_left fun hf => hf).trans hcore⟩

/-- Listed items that age cost no more than they did. -/
theorem sum_listed_le (id : Uuid) (h : Grown False ds t u) (ks : List (Instant ×ₗ Uuid))
    (hks : ∀ k ∈ ks, (t.getItem (ofLex k).2).isSome) :
    (((ks.filterMap fun k => u.getItem (ofLex k).2).filter (·.id ≠ id)).map
        fun r => viewCost r.toItemContent).sum ≤
      (((ks.filterMap fun k => t.getItem (ofLex k).2).filter (·.id ≠ id)).map
        fun r => viewCost r.toItemContent).sum := by
  induction ks with
  | nil => exact Nat.le_refl _
  | cons k ks ih =>
    have hrest := ih fun k' hk' => hks k' (List.mem_cons_of_mem _ hk')
    obtain ⟨r, hr⟩ := Option.isSome_iff_exists.1 (hks k List.mem_cons_self)
    obtain ⟨r', hr', -, hages⟩ := h.ages _ _ hr
    have hid : r'.id = r.id :=
      (KeyTable.key_of_lookup hr' : r'.id = _).trans (KeyTable.key_of_lookup hr : r.id = _).symm
    have hcost := viewCost_ages hages
    simp only [List.filterMap_cons, hr, hr']
    by_cases hne : r.id = id
    · rw [List.filter_cons_of_neg (by simp [hid, hne]), List.filter_cons_of_neg (by simp [hne])]
      exact hrest
    · rw [List.filter_cons_of_pos (by simp [hid, hne]), List.filter_cons_of_pos (by simp [hne])]
      simp only [List.map_cons, List.sum_cons]
      omega

/-- **The budget rule measures** no more than it did before the ops. -/
theorem budgetTokens_grown {t u : Tables} {old old' : ItemRecord}
    (h : Grown False ds t.toMemoryTables u.toMemoryTables)
    (hds : ∀ d ∈ ds, d.content.inCore = false) (hid : old'.id = old.id)
    (htext : old'.text = old.text) :
    Writer.budgetTokens u old' ≤ Writer.budgetTokens t old := by
  have hlist : ∀ v : MemoryTables, v.findItemsInCore =
      ((MemoryTables.newestFirst (coreKeys v)).take 200).filterMap fun k => v.getItem (ofLex k).2 :=
    fun _ => rfl
  have hstored : ∀ k ∈ (MemoryTables.newestFirst (coreKeys t.toMemoryTables)).take 200,
      (t.getItem (ofLex k).2).isSome := by
    intro k hk
    obtain ⟨r, hr, -⟩ := mem_coreKeys.1 (MemoryTables.mem_newestFirst.1 (List.mem_of_mem_take hk))
    exact Option.isSome_iff_exists.2 ⟨r, hr⟩
  have hsum := sum_listed_le old.id h _ hstored
  have hline : coreLine old'.toItemContent = coreLine old.toItemContent := by
    rw [coreLine, coreLine, htext]
  rw [Writer.budgetTokens, Writer.budgetTokens, coreTokensWith_eq, coreTokensWith_eq, List.map_map,
    List.map_map, hlist, hlist, coreKeys_grown h hds, hid, hline]
  simp only [Function.comp_def]
  omega

end Cost

/-! ## Core under a save -/

/-- Nothing in core is sensitive or hypothetical. -/
def CoreClean (t : MemoryTables) : Prop :=
  ∀ id r, t.getItem id = some r → r.inCore = true →
    r.sensitivity ≠ .sensitive ∧ r.modality ≠ .hypothetical

section

variable {w : Writer} {ds : List Draft} {t : MemoryTables}

/-- A core write that is allowed without a confirmation. -/
theorem coreWrite_allowed {u : Tables} {op : Op} {v : PolicyVerdict} (hconf : w.confirmed = false)
    (hv : w.verdict u op = .ok v) (hallowed : v.decision = .allowed)
    (hcore : (facts u op (createdItems w.ops)).coreWrite = true) :
    (facts u op (createdItems w.ops)).sensitivity ≠ .sensitive ∧
      (facts u op (createdItems w.ops)).modality ≠ .hypothetical := by
  have hrules := evaluate_allowed_iff.1 (Writer.verdict_allowed hv hallowed).1
  have hsens := hrules pSens1 (by simp [rules])
  have hmod := hrules pMod1 (by simp [rules])
  constructor
  · intro he
    rw [pSens1, if_pos ⟨hcore, he, by simp [Writer.context, hconf]⟩] at hsens
    cases hsens
  · intro he
    rw [pMod1, if_neg (by simp [he]), if_pos (.inr hcore)] at hmod
    cases hmod

/-- An op that lets an item age deletes nothing. -/
theorem label_ne_delete {op : Op} {id : Uuid} (htarget : op.body.target = (.item, id))
    (hstatus : op.body.itemChanges.status = none) : opLabel op ≠ .delete := by
  obtain ⟨title, rationale, trust, origin, body⟩ := op
  cases body with
  | deleteItem => exact absurd hstatus (by simp [OpBody.itemChanges])
  | deleteEntity => cases htarget
  | _ =>
    intro h
    cases h

theorem coreClean_step {op : Op} {sb i : Nat} {p p' : Writer.Progress}
    (hop : RuleOp True ds t op) (hconf : w.confirmed = false)
    (hg : Aged True t p.tables.toMemoryTables) (hclean : CoreClean p.tables.toMemoryTables)
    (h : w.step sb i p op = .ok p') : CoreClean p'.tables.toMemoryTables := by
  rcases Writer.step_cases h with ⟨v, -, -, rfl⟩ | ⟨v, u, reason, -, -, hskip, rfl⟩ |
    ⟨v, u, log, hv, hallowed, happly, rfl⟩
  · rw [Writer.refuse_tables]
    exact hclean
  · rw [(Writer.apply_skip hskip).memory]
    exact hclean
  · intro id r hr hin
    cases Writer.apply_itemEffect happly with
    | none hsame =>
      rw [MemoryTables.getItem, hsame] at hr
      exact hclean id r hr hin
    | @new itemId item _ _ _ _ record hbody hnew free put =>
      rw [MemoryTables.getItem, put, KeyTable.lookup_put] at hr
      split at hr
      · cases hr
        obtain ⟨⟨c, hc⟩, -⟩ := Writer.newItem_eq_ok hnew
        have hsame : w.newContent item = item := if_neg (by simp [hconf])
        rw [hc, hsame] at hin ⊢
        have hfacts := coreWrite_allowed hconf hv hallowed
        simp only [facts, hbody] at hfacts
        exact hfacts hin
      · exact hclean id r hr hin
    | @edit before htarget hcreate stored put =>
      rw [MemoryTables.getItem, put, KeyTable.lookup_put] at hr
      split at hr
      · cases hop with
        | create drafted body =>
          rw [body] at hcreate
          cases hcreate
        | secret body secret =>
          rw [body] at hcreate
          cases hcreate
        | edit body mild =>
          have hmild := mild before.id before.toItemContent htarget fun r hr => hg.kind hr stored
          rw [Writer.filedChanges, Writer.refile_of_none hmild.slug] at hr
          cases hr
          have hkeeps :=
            (keepAccess_fields True p.tables (w.edited before op.body.itemChanges)).2.2
          have hages := (edited_ages hconf hmild).trans hkeeps
          rw [hages.sensitivity, hages.modality]
          by_cases hbefore : before.inCore = true
          · exact hclean before.id before stored hbefore
          · -- the op puts the item in core, so it is a core write
            have hcore : op.body.itemChanges.inCore = some true := by
              obtain ⟨-, hafter⟩ := w.changedContent_status before.toItemContent op.body.itemChanges
              have hkept : (p.tables.keepAccess (w.edited before op.body.itemChanges)).inCore =
                  (w.edited before op.body.itemChanges).inCore := by
                unfold Tables.keepAccess
                split <;> rfl
              rw [hkept] at hin
              have hin' := hafter.symm.trans hin
              cases hc : op.body.itemChanges.inCore with
              | none => rw [hc] at hin'; exact absurd hin' hbefore
              | some b => rw [hc] at hin'; exact congrArg some hin'
            have hquick : op.body.itemChanges.onlyQuick = false := by
              rw [Bool.eq_false_iff]
              intro hq
              rw [Writer.changes_eq_quick hq] at hcore
              cases hcore
            have hfacts := coreWrite_allowed hconf hv hallowed
            rw [Writer.facts_edit hcreate htarget stored] at hfacts
            have hwrite : (itemFacts op (createdItems w.ops) before).coreWrite = true := by
              simp [itemFacts, label_ne_delete htarget hmild.status, hcore, hquick]
            obtain ⟨hsens, hmod⟩ := hfacts hwrite
            simp only [itemFacts, hmild.sensitivity, Option.getD_none] at hsens hmod
            exact ⟨hsens, hmod⟩
      · exact hclean id r hr hin

/-! ## Closing a value -/

/-- The writer of a save: a message's, with nothing confirmed. -/
structure OfMessage (w : Writer) : Prop where
  kind : w.turn.kind = .user
  confirmed : w.confirmed = false
  few : w.heldWhole = false

theorem OfMessage.editedItems_le (h : OfMessage w) :
    (editedItems w.ops).card ≤ w.settings.bulkThreshold := by
  have hfew := h.few
  rw [Writer.heldWhole, h.confirmed] at hfew
  simpa using hfew

/-- The policy lets a message close a value, in core only if there is room. -/
theorem supersede_allowed (hw : OfMessage w) {u : Tables} {op : Op} {old : ItemRecord}
    {newId linkId : Uuid} {validTo : Instant} {state : String}
    (hbody : op.body = .supersedeItem old.id newId linkId validTo state)
    (htrust : op.trust = .userStated) (horigin : op.origin = .userMessage)
    (stored : u.getItem old.id = some old) (hkind : old.kind ∈ [Kind.fact, .preference])
    (hsecret : old.sensitivity ≠ .secret)
    (hclean : old.inCore = true → old.sensitivity ≠ .sensitive ∧ old.modality ≠ .hypothetical)
    (hroom : old.inCore = true → Writer.budgetTokens u old ≤ w.settings.coreTokenBudget) :
    ∃ v, w.verdict u op = .ok v ∧ v.decision = .allowed := by
  have hfacts : facts u op (createdItems w.ops) = itemFacts op (createdItems w.ops) old :=
    Writer.facts_edit (by rw [hbody]; rfl) (by rw [hbody]; rfl) stored
  have hop : (itemFacts op (createdItems w.ops) old).op = .supersede := by
    simp [itemFacts, opLabel, hbody, OpBody.label]
  have hcore : (itemFacts op (createdItems w.ops) old).coreWrite = true → old.inCore = true := by
    simp only [itemFacts, hbody, OpBody.itemChanges, Option.getD_none, decide_eq_true_eq]
    exact fun h => h.2.1
  have hsens : (itemFacts op (createdItems w.ops) old).sensitivity = old.sensitivity := by
    simp [itemFacts, hbody, OpBody.itemChanges]
  refine Writer.verdict_allowed_iff.2 ⟨evaluate_allowed_iff.2 fun rule hrule => ?_, ?_⟩
  · rw [hfacts]
    simp only [rules, List.mem_cons, List.not_mem_nil, or_false] at hrule
    rcases hrule with rfl | rfl | rfl | rfl | rfl | rfl | rfl
    · rw [pSecret1, hsens, if_neg hsecret]
    · rw [pTrust1, if_pos (by simp [itemFacts, htrust])]
    · rw [pMod1]
      by_cases hmod : old.modality = .hypothetical
      · have hout : (itemFacts op (createdItems w.ops) old).coreWrite ≠ true :=
          fun hc => (hclean (hcore hc)).2 hmod
        rw [if_neg (by simp [itemFacts, hmod]), if_neg (by simp [hop, hout])]
      · rw [if_pos (by simpa [itemFacts] using hmod)]
    · have hnot : old.kind ≠ .pattern := by
        intro he
        rw [he] at hkind
        exact absurd hkind (by decide)
      rw [pInfer1]
      split
      · rfl
      · rw [if_neg]
        simp [itemFacts, hnot, Writer.context, hw.kind]
    · rw [pSens1, if_neg]
      rintro ⟨hc, hs, -⟩
      exact (hclean (hcore hc)).1 (hsens ▸ hs)
    · rw [pCore1, if_neg]
      simp [itemFacts, horigin, userOrigins]
    · rw [pBulk1]
      split
      · rfl
      · have hfew : ¬ w.context.editedItems > w.context.bulkThreshold :=
          Nat.not_lt.2 hw.editedItems_le
        rw [if_neg (by simp [hop]), if_neg hfew]
  · intro hc
    rw [hfacts] at hc
    refine ⟨some old, ?_, fun candidate he => ?_⟩
    · simp [Writer.budgetCandidate, hbody, OpBody.target, stored]
    · cases he
      exact hroom (hcore hc)

/-- **A value is closed**: by now, or by the op that supersedes it. -/
theorem supersede_closes {op : Op} {sb i : Nat} {p p' : Writer.Progress} {old new : ItemRecord}
    {newId linkId : Uuid} {validTo : Instant} {state : String} (hconf : w.confirmed = false)
    (hbody : op.body = .supersedeItem old.id newId linkId validTo state)
    (hop : RuleOp True ds t op) (hg : Aged True t p.tables.toMemoryTables)
    (hallowed : ∃ v, w.verdict p.tables op = .ok v ∧ v.decision = .allowed)
    (stored : p.tables.getItem old.id = some old) (hlive : old.status ≠ .deleted)
    (hnew : p.tables.getItem newId = some new) (hnewLive : new.status ≠ .deleted)
    (hopen : old.validTo = none → old.state = "current")
    (h : w.step sb i p op = .ok p') :
    ∃ r, p'.tables.getItem old.id = some r ∧ r.validTo ≠ none := by
  by_cases hv : old.validTo = none
  · obtain ⟨v, hverdict, hdecision⟩ := hallowed
    have holdItem : Writer.liveItem p.tables old.id = .ok old :=
      Writer.liveItem_eq_ok.2 ⟨stored, fun e => absurd e hlive⟩
    have hnewItem : Writer.liveItem p.tables newId = .ok new :=
      Writer.liveItem_eq_ok.2 ⟨hnew, fun e => absurd e hnewLive⟩
    rcases Writer.step_cases h with ⟨v', hv', hd', -⟩ | ⟨v', u, reason, -, -, hskip, -⟩ |
      ⟨v', u, log, -, -, happly, rfl⟩
    · rw [hverdict] at hv'
      cases hv'
      exact absurd hdecision hd'
    · rw [hbody] at hskip
      simp only [Writer.apply, Writer.supersede, holdItem, hnewItem, bind, Except.bind] at hskip
      rw [if_neg (by simp [hv, hopen hv])] at hskip
      exact absurd hskip Writer.changeAndLink_ne_skip
    · rw [hbody] at happly
      obtain ⟨old', new', hold', -, -, hchange⟩ := Writer.supersede_eq_ok.1 happly
      rw [holdItem] at hold'
      cases hold'
      obtain ⟨after, rfl, -, -, -, hlink⟩ := (Writer.changeAndLink_eq_ok stored).1 hchange
      obtain ⟨-, hx⟩ := Writer.insertLink_eq_ok.1 hlink
      obtain ⟨rfl, -⟩ := Prod.mk.inj hx
      have hget : (Writer.storeItem p.tables (w.edited old
          { state := some state, validTo := some (some validTo) })).getItem old.id =
          some (p.tables.keepAccess (w.edited old
            { state := some state, validTo := some (some validTo) })) := by
        rw [MemoryTables.getItem, Writer.storeItem, KeyTable.lookup_put, if_pos]
        exact ((id_keepAccess _ _).trans (Writer.id_edited old _)).symm
      refine ⟨_, hget, ?_⟩
      have hclosed : (w.edited old
          { state := some state, validTo := some (some validTo) }).validTo = some validTo := by
        simp [Writer.edited, Writer.changedContent, ItemChanges.apply]
      unfold Tables.keepAccess
      split
      · rw [hclosed]; exact Option.some_ne_none _
      · exact hclosed ▸ Option.some_ne_none _
  · obtain ⟨r, hr, -, hages⟩ := (hop.grown hconf hg h).ages old.id old stored
    exact ⟨r, hr, fun e => hv (hages.closed e)⟩

end

/-! ## Saves that state one value at a time -/

namespace Save

/-- The plan makes a current item under the key: the key's value, if there is one, is another. -/
def Opens (s : Save) (t : MemoryTables) (key : SingleKey) (p : Plan) : Prop :=
  p.draft.content.singleKey = some key ∧ p.draft.content.validTo = none ∧
    ∀ old ∈ (current t p.draft).head?,
      sameValue s.reconciler.lib old.toItemContent p.draft.content = false

/-- Each key is opened by one plan at most; and a value in the way can be closed: its state says
that it is current, and if it is in core the budget has room for it. -/
structure OneValueEach (s : Save) (t : Tables) : Prop where
  apart : ∀ plans, s.plans = .ok plans → plans.Pairwise fun p p' =>
    ∀ key, s.Opens t.toMemoryTables key p → ¬ s.Opens t.toMemoryTables key p'
  closable : ∀ plans, s.plans = .ok plans → ∀ p ∈ plans, ∀ key,
    s.Opens t.toMemoryTables key p → ∀ old, IsCurrent t.toMemoryTables key old →
      old.id ≠ p.draft.itemId → old.state = "current" ∧
        (old.inCore = true → Writer.budgetTokens t old ≤ s.settings.coreTokenBudget)

variable {s : Save} {t t' : Tables} {w : Writer}

/-- The writer of a save that does not refuse. -/
theorem writer_ops (hrefuses : s.refuses = false) (h : s.writer t.toMemoryTables = .ok w) :
    ∃ plans, s.plans = .ok plans ∧ w.turn.kind = .user ∧ w.confirmed = false ∧
      w.settings = s.settings ∧
      w.ops = s.firstOps (s.decided t.toMemoryTables plans) ++
        s.lastOps (s.decided t.toMemoryTables plans) := by
  rw [writer, if_neg (by simp [hrefuses])] at h
  obtain ⟨plans, hplans, h⟩ := bind_eq_ok.1 h
  cases h
  exact ⟨plans, hplans, rfl, rfl, rfl, ops_eq _⟩

theorem writer_of_refuses (hrefuses : s.refuses = true)
    (h : s.writer t.toMemoryTables = .ok w) : w = s.turnWriter [s.secretOp] [] [] := by
  rw [writer, if_pos hrefuses] at h
  exact (Except.ok.inj h).symm

/-- The drafts of a save: active, out of core, and none of them a secret. -/
theorem draft_fresh {plans : List Plan} (hplans : s.plans = .ok plans) {p : Plan}
    (hp : p ∈ plans) : p.draft.content.status = .active ∧ p.draft.content.inCore = false ∧
      p.draft.content.sensitivity ≠ .secret := by
  obtain ⟨m, hm, hdrafted⟩ := makePlans_drafted hplans hp
  obtain ⟨hstatus, hcore, hsens, -⟩ := hdrafted.fresh
  refine ⟨hstatus, hcore, ?_⟩
  rw [hsens]
  simpa using (List.mem_filter.1 hm).2

theorem mem_written {plans : List Plan} {d : Draft}
    (h : d ∈ written (s.decided t.toMemoryTables plans)) :
    ∃ p ∈ plans, p.draft = d ∧
      (⟨p, s.reconciler.decide t.toMemoryTables p.draft⟩ : DecidedPlan).merged = none := by
  obtain ⟨dp, hdp, rfl⟩ := List.mem_map.1 h
  obtain ⟨hmem, hnew⟩ := List.mem_filter.1 hdp
  obtain ⟨p, hp, rfl⟩ := List.mem_map.1 hmem
  exact ⟨p, hp, rfl, Option.isNone_iff_eq_none.1 hnew⟩

/-- The ops of a batch keep core clean. -/
theorem coreClean_of_steps {ds : List Draft} {ops : List Op} {sb i : Nat} {p p' : Writer.Progress}
    {t : MemoryTables} (hconf : w.confirmed = false) (hops : ∀ op ∈ ops, RuleOp True ds t op)
    (hg : Aged True t p.tables.toMemoryTables) (hclean : CoreClean p.tables.toMemoryTables)
    (h : w.steps sb i p ops = .ok p') : CoreClean p'.tables.toMemoryTables := by
  have hboth := Writer.steps_induct
    (P := fun q => Aged True t q.tables.toMemoryTables ∧ CoreClean q.tables.toMemoryTables)
    (fun _ _ _ _ hop hq hstep =>
      ⟨hq.1.trans ((hops _ hop).grown hconf hq.1 hstep).ages,
        coreClean_step (hops _ hop) hconf hq.1 hq.2 hstep⟩) ⟨hg, hclean⟩ h
  exact hboth.2

/-- A current item was current, or a draft made it so. -/
theorem isCurrent_of_grown {promoting : Prop} {ds : List Draft} {t u : MemoryTables}
    (h : Grown promoting ds t u) {key : SingleKey} {r' : ItemRecord} (hr' : IsCurrent u key r') :
    (∃ r, IsCurrent t key r ∧ r.id = r'.id) ∨
      (t.getItem r'.id = none ∧ ∃ d ∈ ds, d.itemId = r'.id ∧
        d.content.singleKey = some key ∧ d.content.validTo = none) := by
  obtain ⟨hstored, hactive, hopen, hkey⟩ := hr'
  cases hr : t.getItem r'.id with
  | none =>
    obtain ⟨d, hd, hid, hages⟩ := h.new _ _ hstored hr
    exact .inr ⟨rfl, d, hd, hid, hages.singleKey ▸ hkey, hages.closed hopen⟩
  | some r =>
    obtain ⟨r₂, hr₂, -, hages⟩ := h.ages _ _ hr
    obtain rfl : r₂ = r' := Option.some.inj (hr₂.symm.trans hstored)
    have hid : r.id = r₂.id := KeyTable.key_of_lookup hr
    exact .inl ⟨r, ⟨hid ▸ hr, hages.status.symm.trans hactive, hages.closed hopen,
      hages.singleKey ▸ hkey⟩, hid⟩

/-- What is steady but for the one value stays so. -/
theorem steady_of_grown {promoting : Prop} {ds : List Draft} {t u : MemoryTables}
    (hs : Steady t) (h : Grown promoting ds t u) (hclean : CoreClean u)
    (hds : ∀ d ∈ ds, d.content.status = .active ∧ d.content.sensitivity ≠ .secret)
    (hsingle : ∀ key r r', IsCurrent u key r → IsCurrent u key r' → r = r') : Steady u where
  active := fun id r' hr' => by
    cases hr : t.getItem id with
    | none =>
      obtain ⟨d, hd, -, hages⟩ := h.new _ _ hr' hr
      exact hages.status.trans (hds d hd).1
    | some r =>
      obtain ⟨r₂, hr₂, -, hages⟩ := h.ages _ _ hr
      obtain rfl : r₂ = r' := Option.some.inj (hr₂.symm.trans hr')
      exact hages.status.trans (hs.active _ _ hr)
  notSecret := fun id r' hr' => by
    cases hr : t.getItem id with
    | none =>
      obtain ⟨d, hd, -, hages⟩ := h.new _ _ hr' hr
      rw [hages.sensitivity]
      exact (hds d hd).2
    | some r =>
      obtain ⟨r₂, hr₂, -, hages⟩ := h.ages _ _ hr
      obtain rfl : r₂ = r' := Option.some.inj (hr₂.symm.trans hr')
      rw [hages.sensitivity]
      exact hs.notSecret _ _ hr
  core := hclean
  single := hsingle

/-- Two current items of one id are one item. -/
theorem isCurrent_ext {t : MemoryTables} {key : SingleKey} {r r' : ItemRecord}
    (hr : IsCurrent t key r) (hr' : IsCurrent t key r') (h : r.id = r'.id) : r = r' := by
  have hstored := hr.1
  rw [h, hr'.1] at hstored
  exact (Option.some.inj hstored).symm

/-- A save that makes no item leaves one value for each key. -/
theorem single_of_grown_nil {promoting : Prop} {t u : MemoryTables} (hs : Steady t)
    (h : Grown promoting [] t u) (key : SingleKey) (r r' : ItemRecord) (hr : IsCurrent u key r)
    (hr' : IsCurrent u key r') : r = r' := by
  rcases isCurrent_of_grown h hr with ⟨a, ha, hida⟩ | ⟨-, d, hd, -⟩
  · rcases isCurrent_of_grown h hr' with ⟨b, hb, hidb⟩ | ⟨-, d, hd, -⟩
    · obtain rfl := hs.single key a b ha hb
      exact isCurrent_ext hr hr' (hida.symm.trans hidb)
    · exact absurd hd List.not_mem_nil
  · exact absurd hd List.not_mem_nil

/-- The decision on a plan that opens a key whose value is in the way. -/
theorem supersedes_of_opens {p : Plan} {key : SingleKey} {old : ItemRecord}
    {t : MemoryTables} (hrules : s.reconciler.choose = none) (hs : Steady t)
    (hopens : s.Opens t key p) (hold : IsCurrent t key old)
    (hfree : t.getItem p.draft.itemId = none) :
    (s.reconciler.decide t p.draft).decision = .supersede ∧
      (s.reconciler.decide t p.draft).candidate = some old := by
  obtain ⟨hkey, -, hother⟩ := hopens
  have hkind : p.draft.content.kind ∈ [Kind.fact, .preference] := by
    obtain ⟨⟨hk, -⟩, hmem, -⟩ := ItemContent.singleKey_eq_some.1 hkey
    rw [hk]
    exact hmem
  have hdecided : Ruled s.reconciler.lib t p.draft (s.reconciler.decide t p.draft) :=
    decide_rules hrules
  cases hdecided with
  | same found value decision candidate =>
    rw [hother _ found] at value
    exact (nomatch value)
  | @changed old' found value decision candidate =>
    obtain ⟨key', hkey', hcurrent, -⟩ := mem_current (List.mem_of_head? found)
    obtain rfl : key = key' := Option.some.inj (hkey.symm.trans hkey')
    obtain rfl := hs.single key old old' hold hcurrent
    exact ⟨decision, candidate⟩
  | fulfils kind found decision candidate =>
    rw [kind] at hkind
    exact absurd hkind (by decide)
  | again kind stored active decision candidate =>
    rcases List.mem_pair.1 kind with hk | hk
    · rw [hk] at hkind
      exact absurd hkind (by decide)
    · rw [hk] at hkind
      exact absurd hkind (by decide)
  | fresh found decision candidate =>
    have hid := id_of_current_nil hkey found hold fun item hitem => hs.single key item old hitem hold
    rw [← hid, hold.1] at hfree
    exact (nomatch hfree)

/-- The op that closes a value, in its batch: every new item is made before it, and no op
after it makes one. -/
theorem ops_at_supersede {plans : List Plan} {p : Plan} {old : ItemRecord} {t : MemoryTables}
    (hrules : s.reconciler.choose = none) (hp : p ∈ plans)
    (hdecision : (s.reconciler.decide t p.draft).decision = .supersede)
    (hcandidate : (s.reconciler.decide t p.draft).candidate = some old) :
    ∃ pre op rest, s.firstOps (s.decided t plans) ++ s.lastOps (s.decided t plans) =
        pre ++ op :: rest ∧ (∀ o ∈ pre, RuleOp False (written (s.decided t plans)) t o) ∧
      (∃ linkId validTo state,
        op.body = .supersedeItem old.id p.draft.itemId linkId validTo state) ∧
      op.trust = .userStated ∧ op.origin = .userMessage ∧ RuleOp True [] t op ∧
      ∀ o ∈ rest, RuleOp True [] t o := by
  have hdp : (⟨p, s.reconciler.decide t p.draft⟩ : DecidedPlan) ∈ s.decided t plans :=
    List.mem_map.2 ⟨p, hp, rfl⟩
  obtain ⟨n, hn⟩ := List.mem_iff_getElem?.1 hdp
  have hat : ((⟨p, s.reconciler.decide t p.draft⟩ : DecidedPlan), n) ∈
      (s.decided t plans).zipIdx := List.mem_zipIdx_iff_getElem?.2 hn
  obtain ⟨as, bs, hsplit⟩ := List.append_of_mem hat
  obtain ⟨op, hop, hbody, htrust, horigin⟩ :
      ∃ op, DecidedPlan.changeOps ⟨p, s.reconciler.decide t p.draft⟩ s.lib s.ctx n = [op] ∧
        (∃ linkId validTo state,
          op.body = .supersedeItem old.id p.draft.itemId linkId validTo state) ∧
        op.trust = .userStated ∧ op.origin = .userMessage := by
    simp only [DecidedPlan.changeOps, hdecision, hcandidate]
    exact ⟨_, rfl, ⟨_, _, _, rfl⟩, rfl, rfl⟩
  have hchanges : ∀ {ds : List Draft} {e : DecidedPlan × Nat} {o : Op},
      e ∈ (s.decided t plans).zipIdx → o ∈ e.1.changeOps s.lib s.ctx e.2 → RuleOp False ds t o :=
    fun he ho => changeOps_rules (decided_rules hrules (List.fst_mem_of_mem_zipIdx he)) ho
  refine ⟨s.entityOps ++ s.createOps (s.decided t plans) ++
      as.flatMap fun e => e.1.changeOps s.lib s.ctx e.2, op,
    (bs.flatMap fun e => e.1.changeOps s.lib s.ctx e.2) ++ s.lastOps (s.decided t plans), ?_,
    fun o ho => ?_, hbody, htrust, horigin, ?_, fun o ho => ?_⟩
  · rw [firstOps, changeOps, hsplit, List.flatMap_append, List.flatMap_cons, hop]
    simp only [List.append_assoc, List.cons_append, List.nil_append]
  · rcases List.mem_append.1 ho with ho | ho
    · exact firstOps_rules hrules (List.mem_append_left _ ho)
    · obtain ⟨e, he, ho⟩ := List.mem_flatMap.1 ho
      exact hchanges (hsplit ▸ List.mem_append_left _ he) ho
  · refine (hchanges hat ?_).weaken (List.Subset.refl [])
    rw [hop]
    exact List.mem_singleton_self _
  · rcases List.mem_append.1 ho with ho | ho
    · obtain ⟨e, he, ho⟩ := List.mem_flatMap.1 ho
      exact (hchanges (hsplit ▸ List.mem_append_right _ (List.mem_cons_of_mem _ he)) ho).weaken
        (List.Subset.refl [])
    · exact lastOps_rules ho

/-- **The value in the way is closed** if the plan that opens its key has made its item. -/
theorem superseded_closed {plans : List Plan} {p : Plan} {key : SingleKey} {old : ItemRecord}
    {q₀ q : Writer.Progress} {sb : Nat} (hrules : s.reconciler.choose = none)
    (hplans : s.plans = .ok plans) (hw : OfMessage w) (hsettings : w.settings = s.settings)
    (hs : Steady t.toMemoryTables) (hone : s.OneValueEach t) (hp : p ∈ plans)
    (hopens : s.Opens t.toMemoryTables key p) (hold : IsCurrent t.toMemoryTables key old)
    (hfree : t.getItem p.draft.itemId = none) (hstart : q₀.tables.toMemoryTables = t.toMemoryTables)
    (h : w.steps sb 0 q₀ (s.firstOps (s.decided t.toMemoryTables plans) ++
      s.lastOps (s.decided t.toMemoryTables plans)) = .ok q)
    {new : ItemRecord} (hmade : q.tables.getItem p.draft.itemId = some new) :
    ∃ r, q.tables.getItem old.id = some r ∧ r.validTo ≠ none := by
  obtain ⟨hdecision, hcandidate⟩ := supersedes_of_opens hrules hs hopens hold hfree
  have hne : old.id ≠ p.draft.itemId := fun e => by
    rw [← e, hold.1] at hfree
    exact (nomatch hfree)
  obtain ⟨hstate, hroom⟩ := hone.closable plans hplans p hp key hopens old hold hne
  obtain ⟨pre, op, rest, hops, hpre, ⟨linkId, validTo, state, hbody⟩, htrust, horigin, hop, hrest⟩ :=
    ops_at_supersede hrules hp hdecision hcandidate
  rw [hops] at h
  obtain ⟨q₁, h₁, h⟩ := Writer.steps_append.1 h
  obtain ⟨q₂, h₂, h₃⟩ := bind_eq_ok.1 h
  have hgrown : Grown False (written (s.decided t.toMemoryTables plans)) t.toMemoryTables
      q₁.tables.toMemoryTables := by
    have hg := grown_of_steps (t := t.toMemoryTables) hw.confirmed hpre
      (hstart ▸ (@Grown.refl False [] _).ages) h₁
    rwa [hstart] at hg
  have haged : Aged True t.toMemoryTables q₁.tables.toMemoryTables := hgrown.ages.promoted
  have hlast : Grown True [] q₁.tables.toMemoryTables q₂.tables.toMemoryTables :=
    hop.grown hw.confirmed haged h₂
  have hafter : Grown True [] q₂.tables.toMemoryTables q.tables.toMemoryTables :=
    grown_of_steps hw.confirmed hrest (haged.trans hlast.ages) h₃
  have hdrafts : ∀ d ∈ written (s.decided t.toMemoryTables plans),
      d.content.status = .active ∧ d.content.inCore = false := by
    intro d hd
    obtain ⟨p', hp', rfl, -⟩ := mem_written hd
    exact ⟨(draft_fresh hplans hp').1, (draft_fresh hplans hp').2.1⟩
  -- the new item is there when the value is closed, for nothing is made later
  obtain ⟨made, hmade₁, hmadeLive⟩ : ∃ made, q₁.tables.getItem p.draft.itemId = some made ∧
      made.status ≠ .deleted := by
    cases hm : q₁.tables.getItem p.draft.itemId with
    | none =>
      obtain ⟨d, hd, -⟩ := (hlast.trans hafter).new _ _ hmade hm
      exact absurd hd List.not_mem_nil
    | some made =>
      obtain ⟨d, hd, -, hages⟩ := hgrown.new _ _ hm hfree
      exact ⟨made, rfl, by rw [hages.status, (hdrafts d hd).1]; exact ItemStatus.noConfusion⟩
  obtain ⟨old₁, hold₁, -, hages⟩ := hgrown.ages _ _ hold.1
  have hid : old₁.id = old.id := KeyTable.key_of_lookup hold₁
  have hcore : old₁.inCore = old.inCore := hages.core.resolve_left fun hf => hf
  have hkind : old.kind ∈ [Kind.fact, .preference] := by
    obtain ⟨⟨hk, -⟩, hmem, -⟩ := ItemContent.singleKey_eq_some.1 hold.2.2.2
    rw [hk]
    exact hmem
  have hallowed : ∃ v, w.verdict q₁.tables op = .ok v ∧ v.decision = .allowed := by
    refine supersede_allowed hw (hid ▸ hbody) htrust horigin (hid ▸ hold₁) ?_ ?_ ?_ ?_
    · rw [hages.kind]; exact hkind
    · rw [hages.sensitivity]; exact hs.notSecret _ _ hold.1
    · rw [hcore, hages.sensitivity, hages.modality]; exact hs.core _ _ hold.1
    · rw [hcore, hsettings]
      exact fun hc => (budgetTokens_grown hgrown (fun d hd => (hdrafts d hd).2) hid
        hages.text).trans (hroom hc)
  have hopenState : old₁.validTo = none → old₁.state = "current" := by
    intro hv
    rcases hages.state hv with hst | ⟨hk, -⟩
    · exact hst.trans hstate
    · rw [hk] at hkind
      exact absurd hkind (by decide)
  have hlive : old₁.status ≠ .deleted := by
    rw [hages.status, hold.2.1]
    exact ItemStatus.noConfusion
  obtain ⟨r, hr, hclosed⟩ := supersede_closes hw.confirmed (hid ▸ hbody) hop haged hallowed
    (hid ▸ hold₁) hlive hmade₁ hmadeLive hopenState h₂
  obtain ⟨r', hr', -, hages'⟩ := hafter.ages _ _ hr
  exact ⟨r', hid ▸ hr', fun e => hclosed (hages'.closed e)⟩

/-- A plan whose memory is not stored already opens its key, unless it comes with an end. -/
theorem opens_of_written {p : Plan} {key : SingleKey} {t : MemoryTables}
    (hnew : (⟨p, s.reconciler.decide t p.draft⟩ : DecidedPlan).merged = none)
    (hkey : p.draft.content.singleKey = some key) (hopen : p.draft.content.validTo = none) :
    s.Opens t key p := by
  refine ⟨hkey, hopen, fun old hfound => ?_⟩
  rw [Bool.eq_false_iff]
  intro hsame
  have hdecide : s.reconciler.decide t p.draft =
      { decision := .noOp, candidate := some old, score := some 1
        rule := "same subject + predicate, same value" } := by
    unfold Reconciler.decide
    split
    · rename_i old' rest hcurrent
      rw [hcurrent] at hfound
      cases hfound
      rw [if_pos hsame]
    · rename_i hcurrent
      rw [hcurrent] at hfound
      exact (nomatch hfound)
  rw [hdecide] at hnew
  exact (nomatch hnew)

/-- What is current after the batch of a save was current under its key, or a plan opened the
key. -/
theorem current_cases {plans : List Plan} {u : MemoryTables} {key : SingleKey} {r : ItemRecord}
    (h : Grown True (written (s.decided t.toMemoryTables plans)) t.toMemoryTables u)
    (hr : IsCurrent u key r) :
    (∃ old, IsCurrent t.toMemoryTables key old ∧ old.id = r.id) ∨
      ∃ p ∈ plans, s.Opens t.toMemoryTables key p ∧ p.draft.itemId = r.id ∧
        t.getItem p.draft.itemId = none := by
  rcases isCurrent_of_grown h hr with hold | ⟨hfree, d, hd, hid, hkey, hopen⟩
  · exact .inl hold
  · obtain ⟨p, hp, rfl, hnew⟩ := mem_written hd
    exact .inr ⟨p, hp, opens_of_written hnew hkey hopen, hid, hid ▸ hfree⟩

/-- **A save that states one value at a time** leaves one current value for each key; so does
one that refuses a secret, and one whose batch is held. -/
theorem keeps_steady {res : CommitResult} (hrules : s.reconciler.choose = none)
    (hw : s.writer t.toMemoryTables = .ok w)
    (hone : s.refuses = true ∨ w.heldWhole = true ∨ s.OneValueEach t)
    (h : w.commit t = .ok (t', res)) (hs : Steady t.toMemoryTables) : Steady t'.toMemoryTables := by
  obtain ⟨q, hq⟩ := Writer.commit_parts h
  rw [hq.memory]
  have hbatch := hq.batch
  unfold Writer.applyAll at hbatch
  split at hbatch
  · cases hbatch
    rw [Writer.holdEverything, Writer.writeVocab_memory]
    exact hs
  · rename_i hfew
    have hstart : (w.writeVocab t).toMemoryTables = t.toMemoryTables := w.writeVocab_memory t
    have hbegin : Aged True t.toMemoryTables (w.writeVocab t).toMemoryTables := by
      rw [hstart]
      exact (@Grown.refl True [] _).ages
    have hclean : CoreClean (w.writeVocab t).toMemoryTables := by
      rw [hstart]
      exact hs.core
    cases hrefuses : s.refuses with
    | true =>
      rw [writer_of_refuses hrefuses hw] at hbatch hbegin hclean hstart
      have hops : ∀ op ∈ [s.secretOp], RuleOp True [] t.toMemoryTables op := by
        intro op hop
        obtain rfl := List.mem_singleton.1 hop
        exact secretOp_rules
      have hg := grown_of_steps rfl hops hbegin hbatch
      have hc := coreClean_of_steps rfl hops hbegin hclean hbatch
      rw [hstart] at hg
      exact steady_of_grown hs hg hc (fun d hd => absurd hd List.not_mem_nil)
        (single_of_grown_nil hs hg)
    | false =>
      obtain ⟨plans, hplans, hkind, hconf, hsettings, hwops⟩ := writer_ops hrefuses hw
      have hone : s.OneValueEach t := by
        rcases hone with hr | hr | hr
        · rw [hrefuses] at hr
          cases hr
        · exact absurd hr hfew
        · exact hr
      have hmessage : OfMessage w := ⟨hkind, hconf, Bool.eq_false_iff.2 hfew⟩
      rw [hwops] at hbatch
      have hops : ∀ op ∈ s.firstOps (s.decided t.toMemoryTables plans) ++
          s.lastOps (s.decided t.toMemoryTables plans),
          RuleOp True (written (s.decided t.toMemoryTables plans)) t.toMemoryTables op := by
        intro op hop
        rcases List.mem_append.1 hop with hop | hop
        · exact (firstOps_rules hrules hop).weaken (List.Subset.refl _)
        · exact (lastOps_rules hop).drafts
      have hg := grown_of_steps hconf hops hbegin hbatch
      have hc := coreClean_of_steps hconf hops hbegin hclean hbatch
      rw [hstart] at hg
      refine steady_of_grown hs hg hc (fun d hd => ?_) fun key r r' hr hr' => ?_
      · obtain ⟨p, hp, rfl, -⟩ := mem_written hd
        exact ⟨(draft_fresh hplans hp).1, (draft_fresh hplans hp).2.2⟩
      · -- a value that a new one has replaced is closed by now
        have hmixed : ∀ {a b : ItemRecord} {old : ItemRecord} {p : Plan},
            IsCurrent q.tables.toMemoryTables key a → IsCurrent q.tables.toMemoryTables key b →
            IsCurrent t.toMemoryTables key old → old.id = a.id → p ∈ plans →
            s.Opens t.toMemoryTables key p → p.draft.itemId = b.id →
            t.getItem p.draft.itemId = none → False := by
          intro a b old p ha hb hold hida hp hopens hidb hfree
          obtain ⟨r, hr, hclosed⟩ := superseded_closed hrules hplans hmessage hsettings hs hone hp
            hopens hold hfree hstart hbatch (hidb ▸ hb.1)
          rw [hida, ha.1] at hr
          cases hr
          exact hclosed ha.2.2.1
        rcases current_cases hg hr with ⟨a, ha, hida⟩ | ⟨p, hp, hopens, hid, hfree⟩
        · rcases current_cases hg hr' with ⟨b, hb, hidb⟩ | ⟨p', hp', hopens', hid', hfree'⟩
          · obtain rfl := hs.single key a b ha hb
            exact isCurrent_ext hr hr' (hida.symm.trans hidb)
          · exact (hmixed hr hr' ha hida hp' hopens' hid' hfree').elim
        · rcases current_cases hg hr' with ⟨b, hb, hidb⟩ | ⟨p', hp', hopens', hid', hfree'⟩
          · exact (hmixed hr' hr hb hidb hp hopens hid hfree).elim
          · by_cases hpp : p = p'
            · subst hpp
              exact isCurrent_ext hr hr' (hid.symm.trans hid')
            · have : Std.Symm fun p p' : Plan =>
                  ∀ key, s.Opens t.toMemoryTables key p → ¬ s.Opens t.toMemoryTables key p' :=
                ⟨fun _ _ hab key hb ha => hab key ha hb⟩
              exact absurd hopens' ((hone.apart plans hplans).forall hp hp' hpp key hopens)

end Save

/-! ## Runs -/

/-- The writer is that of a save which the rules decided and which states one value at a time. -/
def SavesOneValue (w : Writer) (t : Tables) : Prop :=
  ∃ s : Save, s.reconciler.choose = none ∧ s.writer t.toMemoryTables = .ok w ∧
    (s.refuses = true ∨ w.heldWhole = true ∨ s.OneValueEach t)

/-- **One value at a time.**  After any run of saves from the empty store, each of which states
one value at a time, a key has one live item without an end at most. -/
theorem run_single_value {me : Uuid} {es : List Event} {t : Tables}
    (h : Reached SavesOneValue (Tables.initial me) es t) {key : SingleKey} {r r' : ItemRecord}
    (hr : LiveValue t.toMemoryTables key r) (hr' : LiveValue t.toMemoryTables key r') : r = r' := by
  have hsteady : Steady t.toMemoryTables :=
    h.keeps (P := fun t => Steady t.toMemoryTables) (steady_initial me)
      (fun _ _ _ _ ⟨_, hrules, hw, hone⟩ hdone hs => Save.keeps_steady hrules hw hone hdone hs)
      fun _ _ hsame hs => hsame.steady hs
  exact hsteady.single key r r' (hsteady.isCurrent hr) (hsteady.isCurrent hr')

/-! ### A person's age -/

/-- An age, as a model extracts it. -/
def statedAge (ref text : String) : ProposedMemory where
  ref := ref
  kind := ⟨.fact, fact_isLabel⟩
  title := "age"
  text := text
  subject := some "self"
  predicate := some "age"

def ageKey : SingleKey := ⟨.fact, 0, "age"⟩

/-- One message with two ages. -/
def twoAges : Save :=
  saveOf 1 "i am 30. i am 31." [statedAge "m1" "i am 30", statedAge "m2" "i am 31"]

/-- The writer is that of a save which the rules decided. -/
def SavesByRules (w : Writer) (t : Tables) : Prop :=
  ∃ s : Save, s.reconciler.choose = none ∧ ValidExtraction s.lib.lib s.extraction ∧
    s.writer t.toMemoryTables = .ok w

/-- Both ages are live, and neither has an end. -/
theorem two_values_kept : ∃ es t r r', Reached SavesByRules (Tables.initial 0) es t ∧
    LiveValue t.toMemoryTables ageKey r ∧ LiveValue t.toMemoryTables ageKey r' ∧ r ≠ r' := by
  have hran : (twoAges.run (Tables.initial 0)).toOption.isSome = true := by decide +kernel
  have hlive : ∀ id ∈ [100, 101], ∃ r ∈ (twoAges.run (Tables.initial 0)).toOption.bind
      (fun x => x.1.getItem id), r.status ≠ .deleted ∧ r.validTo = none ∧
        r.toItemContent.singleKey = some ageKey := by
    decide +kernel
  cases hrun : twoAges.run (Tables.initial 0) with
  | error e =>
    rw [hrun] at hran
    exact (nomatch hran)
  | ok x =>
    rw [hrun] at hlive
    obtain ⟨w, hw, hdone⟩ := bind_eq_ok.1 hrun
    obtain ⟨r, hr, hlive₁⟩ := hlive 100 (by decide)
    obtain ⟨r', hr', hlive₂⟩ := hlive 101 (by decide)
    have hid : r.id = 100 := KeyTable.key_of_lookup hr
    have hid' : r'.id = 101 := KeyTable.key_of_lookup hr'
    have hvalid : validateExtraction plainText twoAges.extraction = [] := by decide +kernel
    refine ⟨_, x.1, r, r', .commit .start ⟨twoAges, rfl, hvalid, hw⟩ hdone, ⟨hid ▸ hr, hlive₁⟩,
      ⟨hid' ▸ hr', hlive₂⟩, fun h => ?_⟩
    rw [h, hid'] at hid
    exact absurd hid (by decide)

/-- A save of one memory states one value, if what is stored is current and fits. -/
theorem savesOneValue_saveOf {turn : Nat} {message : String} {m : ProposedMemory} {t : Tables}
    {w : Writer} (hw : (saveOf turn message [m]).writer t.toMemoryTables = .ok w)
    (hrows : ∀ r ∈ t.items.rows, r.state = "current" ∧
      (r.inCore = true → Writer.budgetTokens t r ≤ ({} : WriterSettings).coreTokenBudget)) :
    SavesOneValue w t := by
  refine ⟨_, rfl, hw, .inr (.inr ⟨fun plans hplans => ?_, ?_⟩)⟩
  · have hlen : plans.length ≤ 1 := by
      rw [Save.length_plans hplans]
      exact List.length_filter_le _ [m]
    rcases plans with _ | ⟨p, _ | ⟨q, rest⟩⟩
    · exact .nil
    · exact List.pairwise_singleton _ p
    · exact absurd hlen (by simp)
  · intro plans _ p _ key _ old hold _
    exact hrows old (MemoryTables.mem_rows_of_getItem hold.1)

def firstAge : Save := saveOf 1 "i am 30." [statedAge "m1" "i am 30"]

def secondAge : Save := saveOf 2 "i am 31." [statedAge "m1" "i am 31"]

/-- One age and then another, in a message each: the second is the only value. -/
theorem second_age_kept : ∃ es t r, Reached SavesOneValue (Tables.initial 0) es t ∧
    LiveValue t.toMemoryTables ageKey r ∧ r.text = "i am 31" ∧
      ∀ r', LiveValue t.toMemoryTables ageKey r' → r = r' := by
  have hran : ∃ x ∈ (firstAge.run (Tables.initial 0)).toOption,
      (∀ r ∈ x.1.items.rows, r.state = "current" ∧ (r.inCore = true →
        Writer.budgetTokens x.1 r ≤ ({} : WriterSettings).coreTokenBudget)) ∧
      ∃ y ∈ (secondAge.run x.1).toOption, ∃ r ∈ y.1.getItem 200, r.text = "i am 31" ∧
        r.status ≠ .deleted ∧ r.validTo = none ∧ r.toItemContent.singleKey = some ageKey := by
    decide +kernel
  obtain ⟨x, hx, hrows, y, hy, r, hr, htext, hlive⟩ := hran
  obtain ⟨w, hw, hdone⟩ := bind_eq_ok.1 (of_mem_toOption hx)
  obtain ⟨w', hw', hdone'⟩ := bind_eq_ok.1 (of_mem_toOption hy)
  have hfirst : SavesOneValue w (Tables.initial 0) :=
    savesOneValue_saveOf hw fun r hr => absurd hr (Multiset.notMem_zero r)
  have hsecond : SavesOneValue w' x.1 := savesOneValue_saveOf hw' hrows
  have hid : r.id = 200 := KeyTable.key_of_lookup hr
  have hvalue : LiveValue y.1.toMemoryTables ageKey r := ⟨hid ▸ hr, hlive⟩
  have hreached := (Reached.start.commit hfirst hdone).commit hsecond hdone'
  exact ⟨_, y.1, r, hreached, hvalue, htext, fun r' hr' => run_single_value hreached hvalue hr'⟩

end SecondMind
