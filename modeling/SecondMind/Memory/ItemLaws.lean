import SecondMind.Memory.CoreBudget

/-!
# Laws of every stored item

What is true of the content of an item when it is made, and stays true when it is edited, is true of
every item a run comes to.  The policy has looked at the op that makes it or edits it.

* `Writer.Lawful` — the ops that a law has to be shown for;
* `Writer.commit_everyItem` — one commit;
* `Reached.everyItem` — any run.
-/

namespace SecondMind

open Keyed Policy

variable {I : ItemContent → Prop}

/-- Every stored item meets the law. -/
def MemoryTables.EveryItem (I : ItemContent → Prop) (t : MemoryTables) : Prop :=
  ∀ id r, t.getItem id = some r → I r.toItemContent

/-- The law does not look at the access counters, nor at the category. -/
structure IgnoresUse (I : ItemContent → Prop) : Prop where
  access : ∀ c, I c.eraseAccess ↔ I c
  category : ∀ c id, I { c with categoryId := id } ↔ I c

namespace Writer

variable {w : Writer}

/-- **The law of one op**, on the tables it meets, once the policy has allowed it: a new item meets
the law, and an item that met it meets it after the edit. -/
structure Lawful (w : Writer) (I : ItemContent → Prop) (t : Tables) (op : Op) : Prop where
  new : ∀ itemId item entities triggers slug name,
    op.body = .createItem itemId item entities triggers slug name →
    (evaluate (facts t op (createdItems w.ops)) w.context).decision = .allowed →
    I (w.newContent item)
  edit : ∀ before : ItemRecord, op.body.isCreate = false → op.body.target = (.item, before.id) →
    t.getItem before.id = some before →
    (evaluate (itemFacts op (createdItems w.ops) before) w.context).decision = .allowed →
    I before.toItemContent → I (w.changedContent before.toItemContent op.body.itemChanges)

theorem newContent_eq (item : ItemContent) :
    ∃ confirmed, w.newContent item = { item with coreConfirmedAt := confirmed } := by
  unfold newContent
  split
  · exact ⟨_, rfl⟩
  · exact ⟨item.coreConfirmedAt, rfl⟩

theorem changedContent_eq (before : ItemContent) (changes : ItemChanges) :
    ∃ confirmed, w.changedContent before changes =
      { changes.apply before with coreConfirmedAt := confirmed } := by
  unfold changedContent
  dsimp only
  split
  · exact ⟨_, rfl⟩
  · exact ⟨(changes.apply before).coreConfirmedAt, rfl⟩

/-- An edit that is no update leaves the kind, the modality and the place in core. -/
theorem itemChanges_of_not_update {body : OpBody}
    (h : ∀ itemId changes, body ≠ .updateItem itemId changes) :
    body.itemChanges.kind = none ∧ body.itemChanges.modality = none ∧
      body.itemChanges.inCore = none := by
  cases body with
  | updateItem itemId changes => exact absurd rfl (h itemId changes)
  | _ => exact ⟨rfl, rfl, rfl⟩

/-- Filing an edit sets the category at most. -/
theorem edited_filedChanges (t : Tables) (i : Nat) (body : OpBody) (before : ItemRecord) :
    ∃ c, (w.edited before (w.filedChanges t i body)).toItemContent =
      { w.changedContent before.toItemContent body.itemChanges with categoryId := c } := by
  unfold filedChanges edited refile
  split
  · exact ⟨_, rfl⟩
  · rename_i slug _
    refine ⟨some (w.slugCategory t i slug none).2, ?_⟩
    unfold changedContent
    dsimp only
    split <;> rfl

theorem keepAccess_law (hI : IgnoresUse I) (t : Tables) (r : ItemRecord) :
    I (t.keepAccess r).toItemContent ↔ I r.toItemContent := by
  have herase := congrArg ItemRecord.toItemContent (eraseAccess_keepAccess t r)
  rw [← hI.access (t.keepAccess r).toItemContent, ← hI.access r.toItemContent]
  exact iff_of_eq (congrArg I herase)

/-- **One op.** -/
theorem apply_everyItem (hI : IgnoresUse I) {t t' : Tables} {i : Nat} {log log' : RowLog} {op : Op}
    {v : PolicyVerdict} (hv : w.verdict t op = .ok v) (hd : v.decision = .allowed)
    (hlaw : w.Lawful I t op) (h : w.apply t i log op.body = .ok (t', log'))
    (hall : t.EveryItem I) : t'.EveryItem I := by
  intro id r hr
  obtain ⟨hallowed, -⟩ := verdict_allowed hv hd
  cases apply_itemEffect h with
  | none same =>
    rw [MemoryTables.getItem, same] at hr
    exact hall id r hr
  | @new itemId item entities triggers slug name record hbody hnew free put =>
    rw [MemoryTables.getItem, put, KeyTable.lookup_put] at hr
    split at hr
    · obtain rfl := Option.some.inj hr
      obtain ⟨⟨c, hcontent⟩, -⟩ := newItem_eq_ok hnew
      rw [hcontent, hI.category]
      exact hlaw.new itemId item entities triggers slug name hbody hallowed
    · exact hall id r hr
  | @edit before htarget hcreate stored put =>
    rw [MemoryTables.getItem, put, KeyTable.lookup_put] at hr
    split at hr
    · obtain rfl := Option.some.inj hr
      obtain ⟨c, hcontent⟩ := w.edited_filedChanges t i op.body before
      rw [keepAccess_law hI, hcontent, hI.category]
      rw [facts_edit hcreate htarget stored] at hallowed
      exact hlaw.edit before hcreate htarget stored hallowed (hall before.id before stored)
    · exact hall id r hr

/-- The law holds of every op that the batch applies. -/
def LawfulBatch (w : Writer) (I : ItemContent → Prop) (t : Tables) : Prop :=
  w.heldWhole = true ∨
    w.EveryApplied (w.seqBase t) (w.Lawful I) 0 { tables := w.writeVocab t } w.ops

theorem step_everyItem (hI : IgnoresUse I) {sb i : Nat} {p p' : Progress} {op : Op}
    (hlaw : w.Applies sb i p op → w.Lawful I p.tables op)
    (hall : p.tables.EveryItem I) (h : w.step sb i p op = .ok p') : p'.tables.EveryItem I := by
  rcases step_cases h with ⟨v, -, -, rfl⟩ | ⟨v, t₁, reason, -, -, ha, rfl⟩ |
    ⟨v, t₁, log, hv, hd, ha, rfl⟩
  · rw [refuse_tables]
    exact hall
  · have hmemory := (apply_skip ha).memory
    rw [hmemory]
    exact hall
  · exact apply_everyItem hI hv hd (hlaw ⟨⟨v, hv, hd⟩, _, ha⟩) ha hall

/-- **One commit.** -/
theorem commit_everyItem (hI : IgnoresUse I) {t t' : Tables} {res : CommitResult}
    (hlaw : w.LawfulBatch I t) (hall : t.EveryItem I) (h : w.commit t = .ok (t', res)) :
    t'.EveryItem I := by
  obtain ⟨p, hp⟩ := commit_parts h
  rw [hp.memory]
  have hstart : (w.writeVocab t).EveryItem I := by
    rw [writeVocab_memory]
    exact hall
  have hbatch := hp.batch
  unfold applyAll at hbatch
  split at hbatch
  · cases hbatch
    exact hstart
  · rename_i hwhole
    have hevery := hlaw.resolve_left hwhole
    exact steps_keep (fun i p op p' hm hq hs => step_everyItem hI hm hq hs) hevery hstart hbatch

/-- A weaker law of the applied ops. -/
theorem EveryApplied.mono {P Q : Tables → Op → Prop} {sb : Nat} (hPQ : ∀ t op, P t op → Q t op)
    {ops : List Op} {i : Nat} {p : Progress} (h : w.EveryApplied sb P i p ops) :
    w.EveryApplied sb Q i p ops := by
  induction ops generalizing i p with
  | nil => exact trivial
  | cons op ops ih =>
    obtain ⟨hop, hrest⟩ := h
    exact ⟨fun happlies => hPQ p.tables op (hop happlies), fun p' hp' => ih (hrest p' hp')⟩

/-- What holds of every op of a batch holds of the ones it applies. -/
theorem everyApplied_of_mem {P : Tables → Op → Prop} {sb : Nat} {ops : List Op} {i : Nat}
    {p : Progress} (hP : ∀ op ∈ ops, ∀ t, P t op) : w.EveryApplied sb P i p ops := by
  induction ops generalizing i p with
  | nil => exact trivial
  | cons op ops ih =>
    refine ⟨fun _ => hP op List.mem_cons_self p.tables, fun p' _ => ?_⟩
    exact ih fun op' hop' => hP op' (List.mem_cons_of_mem _ hop')

/-- Two laws of the ops of a batch. -/
theorem EveryApplied.and {P Q : Tables → Op → Prop} {sb : Nat} {ops : List Op} {i : Nat}
    {p : Progress} (hP : w.EveryApplied sb P i p ops) (hQ : ∀ op ∈ ops, ∀ t, Q t op) :
    w.EveryApplied sb (fun t op => P t op ∧ Q t op) i p ops := by
  induction ops generalizing i p with
  | nil => exact trivial
  | cons op ops ih =>
    obtain ⟨hop, hrest⟩ := hP
    refine ⟨fun happlies => ⟨hop happlies, hQ op List.mem_cons_self p.tables⟩, fun p' hp' => ?_⟩
    exact ih (hrest p' hp') fun op' hop' => hQ op' (List.mem_cons_of_mem _ hop')

end Writer

theorem SameMemory.everyItem (hI : IgnoresUse I) {t t' : Tables} (h : SameMemory t t')
    (hall : t.EveryItem I) : t'.EveryItem I := by
  intro id r' hr'
  have herased := h.items id
  rw [hr', Option.map_some] at herased
  obtain ⟨r, hr, hsame⟩ := Option.map_eq_some_iff.1 herased.symm
  have hcontent : r.toItemContent.eraseAccess = r'.toItemContent.eraseAccess :=
    congrArg ItemRecord.toItemContent hsame
  rw [← hI.access, ← hcontent, hI.access]
  exact hall id r hr

/-- **Any run** keeps a law that holds of every op applied in it. -/
theorem Reached.everyItem (hI : IgnoresUse I) {admits : Writer → Tables → Prop} {t₀ t : Tables}
    {es : List Event} (hstart : t₀.EveryItem I)
    (hlaw : ∀ w t, admits w t → w.LawfulBatch I t) (h : Reached admits t₀ es t) : t.EveryItem I :=
  h.keeps (P := fun t => t.EveryItem I) hstart
    (fun _ _ _ _ hadmits hdone hall => Writer.commit_everyItem hI (hlaw _ _ hadmits) hall hdone)
    fun _ _ hsame hall => hsame.everyItem hI hall

theorem everyItem_initial (I : ItemContent → Prop) (me : Uuid) :
    (Tables.initial me).EveryItem I := by
  intro id r hr
  exact nomatch hr

end SecondMind
