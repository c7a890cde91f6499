import SecondMind.Memory.Applicable
import SecondMind.Memory.Runs

/-!
# When a commit fails

One op that raises rolls the whole turn back.  An op ends well if it is applied or skipped.

* `WellKept` — what the stored items are like after any run on one backend;
* `Writer.step_ok_iff` — a turn of the loop fails only on an allowed op that does not end well;
* `Writer.commit_ok_iff` — a batch whose held writes get new ids commits exactly when every
  allowed op, on the tables it meets, ends well.
-/

namespace SecondMind

open Keyed

/-! ## Well-kept stores -/

/-- Every item is in a state of its kind, and on `sql` meets the constraints of its table. -/
structure WellKept (b : Backend) (t : Tables) : Prop where
  state : ∀ id r, t.getItem id = some r → validState r.kind r.state = true
  fits : b = .sql → ∀ id r, t.getItem id = some r → t.itemFits r = true

theorem wellKept_initial (b : Backend) (me : Uuid) : WellKept b (Tables.initial me) := by
  have hnone : ∀ id, (Tables.initial me).getItem id = none := fun id => KeyTable.lookup_empty id
  constructor
  · intro id r hr
    rw [hnone] at hr
    exact (nomatch hr)
  · intro _ id r hr
    rw [hnone] at hr
    exact (nomatch hr)

/-- The constraints of an item look at entities and categories only, and these do not go away. -/
theorem itemFits_mono {t t' : Tables}
    (hentities : ∀ id, (t.getEntity id).isSome → (t'.getEntity id).isSome)
    (hcategories : ∀ row ∈ t.categories.rows, row ∈ t'.categories.rows) {r : ItemRecord}
    (h : t.itemFits r = true) : t'.itemFits r = true := by
  simp only [Tables.itemFits, decide_eq_true_eq] at h ⊢
  obtain ⟨hstate, hformat, hsubject, hcategory⟩ := h
  refine ⟨hstate, hformat, ?_, ?_⟩
  · cases hs : r.subjectEntityId with
    | none => rfl
    | some e =>
      rw [hs] at hsubject
      exact hentities e hsubject
  · cases hc : r.categoryId with
    | none => rfl
    | some c =>
      rw [hc] at hcategory
      obtain ⟨row, hrow, hid⟩ := of_decide_eq_true hcategory
      exact decide_eq_true ⟨row, hcategories row hrow, hid⟩

/-- An item that is put in is in a state of its kind. -/
theorem WellKept.put {b : Backend} {t t' : Tables} {r : ItemRecord} (h : WellKept b t)
    (hitems : t'.items = t.items.put r) (hentities : t'.entities = t.entities)
    (hcategories : t'.categories = t.categories) (hstate : validState r.kind r.state = true)
    (hfits : b = .sql → t.itemFits r = true) : WellKept b t' := by
  have hmono : ∀ {r : ItemRecord}, t.itemFits r = true → t'.itemFits r = true :=
    fun hr => itemFits_mono (fun id hid => by rwa [MemoryTables.getEntity, hentities])
      (fun row hrow => by rwa [hcategories]) hr
  constructor
  · intro id r' hr'
    rw [MemoryTables.getItem, hitems, KeyTable.lookup_put] at hr'
    split at hr'
    · cases hr'
      exact hstate
    · exact h.state id r' hr'
  · intro hsql id r' hr'
    rw [MemoryTables.getItem, hitems, KeyTable.lookup_put] at hr'
    split at hr'
    · cases hr'
      exact hmono (hfits hsql)
    · exact hmono (h.fits hsql id r' hr')

/-- Nothing happened to the items, and no entity or category went away. -/
theorem WellKept.of_items {b : Backend} {t t' : Tables} (h : WellKept b t)
    (hitems : t'.items = t.items)
    (hentities : ∀ id, (t.getEntity id).isSome → (t'.getEntity id).isSome)
    (hcategories : ∀ row ∈ t.categories.rows, row ∈ t'.categories.rows) : WellKept b t' := by
  constructor
  · intro id r hr
    rw [MemoryTables.getItem, hitems] at hr
    exact h.state id r hr
  · intro hsql id r hr
    rw [MemoryTables.getItem, hitems] at hr
    exact itemFits_mono hentities hcategories (h.fits hsql id r hr)

theorem WellKept.quiet {b : Backend} {t t' : Tables} (h : WellKept b t) (q : Quiet t t') :
    WellKept b t' :=
  h.of_items (by rw [q.memory]) (fun id hid => by rwa [MemoryTables.getEntity, q.memory])
    q.categories

theorem RowStep.wellKept {b : Backend} {turn : Uuid} {t t' : Tables} {c : RowChange}
    (h : RowStep b turn t c t') (hkept : WellKept b t) : WellKept b t' := by
  have hput : ∀ (entities : KeyTable EntityRecord.id) (r : EntityRecord) (id : Uuid),
      (entities.lookup id).isSome → ((entities.put r).lookup id).isSome := by
    intro entities r id hid
    rw [KeyTable.lookup_put]
    split
    · rfl
    · exact hid
  cases h with
  | newItem free made stamp valid fits => exact hkept.put rfl rfl rfl valid fits
  | @editItem before after stored sameId sameTime made stamp valid fits =>
    have hfields : (t.keepAccess after).kind = after.kind ∧
        (t.keepAccess after).state = after.state ∧
        t.itemFits (t.keepAccess after) = t.itemFits after := by
      unfold Tables.keepAccess
      split <;> exact ⟨rfl, rfl, rfl⟩
    obtain ⟨hkind, hstate, hfits⟩ := hfields
    exact hkept.put rfl rfl rfl (by rw [hkind, hstate]; exact valid)
      fun hsql => hfits.trans (fits hsql)
  | newEntity => exact hkept.of_items rfl (fun id hid => hput _ _ id hid) fun _ hrow => hrow
  | editEntity => exact hkept.of_items rfl (fun id hid => hput _ _ id hid) fun _ hrow => hrow
  | editTrigger stored stamp written =>
    unfold Tables.replaceTrigger at written
    split at written
    · cases written
      exact hkept
    · obtain ⟨-, rfl⟩ := Tables.statement_eq_ok.1 written
      exact hkept.of_items rfl (fun _ hid => hid) fun _ hrow => hrow
  | _ => exact hkept.of_items rfl (fun _ hid => hid) fun _ hrow => hrow

theorem Wrote.wellKept {b : Backend} {turn : Uuid} {t t' : Tables} {cs : List RowChange}
    (h : Wrote b turn t cs t') (hkept : WellKept b t) : WellKept b t' := by
  induction h with
  | refl => exact hkept
  | quiet _ q ih => exact ih.quiet q
  | row _ step ih => exact step.wellKept ih

theorem categories_recordAccess (t : Tables) (at_ : Instant) (ids : List Uuid) :
    (t.recordAccess at_ ids).categories = t.categories := by
  induction ids generalizing t with
  | nil => rfl
  | cons id ids ih =>
    unfold Tables.recordAccess at ih ⊢
    rw [List.foldl_cons, ih]
    split <;> rfl

/-- Retrieval bookkeeping keeps the items well. -/
theorem WellKept.recordAccess {b : Backend} {t : Tables} (h : WellKept b t) (at_ : Instant)
    (ids : List Uuid) : WellKept b (t.recordAccess at_ ids) := by
  have hsame := sameMemory_recordAccess t at_ ids
  have hback : ∀ {id r'}, (t.recordAccess at_ ids).getItem id = some r' →
      ∃ r, t.getItem id = some r ∧ r.eraseAccess = r'.eraseAccess := by
    intro id r' hr'
    have hmap := hsame.items id
    rw [hr', Option.map_some] at hmap
    exact Option.map_eq_some_iff.1 hmap.symm
  constructor
  · intro id r' hr'
    obtain ⟨r, hr, he⟩ := hback hr'
    have hstate : validState r.eraseAccess.kind r.eraseAccess.state = true := h.state id r hr
    rw [he] at hstate
    exact hstate
  · intro hsql id r' hr'
    obtain ⟨r, hr, he⟩ := hback hr'
    have hfits : t.itemFits r'.eraseAccess = true := by
      rw [← he]
      exact h.fits hsql id r hr
    refine itemFits_mono (t := t) (fun e he => ?_) (fun row hrow => ?_) hfits
    · rwa [MemoryTables.getEntity, hsame.entities]
    · rwa [categories_recordAccess]

/-- **Every store** that commits on one backend come to is well kept. -/
theorem Reached.wellKept {b : Backend} {me : Uuid} {es : List Event} {t : Tables}
    (h : Reached (fun w _ => w.backend = b) (Tables.initial me) es t) : WellKept b t := by
  induction h with
  | start => exact wellKept_initial b me
  | commit _ ok done ih =>
    have hwrote := (Writer.commit_spec done).wrote
    rw [ok] at hwrote
    exact hwrote.wellKept ih
  | access _ at_ ids ih => exact ih.recordAccess at_ ids
  | resolve _ id status turnId at_ ih =>
    unfold Tables.resolveHeldWrite
    split
    · exact ih
    · exact ih.of_items rfl (fun _ hid => hid) fun _ hrow => hrow

namespace Writer

variable {w : Writer}

/-! ## One op -/

/-- The op does not raise: it is applied or skipped. -/
def EndsWell (x : Except Halt (Tables × RowLog)) : Prop :=
  (∃ y, x = .ok y) ∨ ∃ t reason, x = .error (.skip t reason)

theorem endsWell_ok (y : Tables × RowLog) : EndsWell (.ok y) := .inl ⟨y, rfl⟩

theorem endsWell_skip (t : Tables) (reason : String) : EndsWell (.error (.skip t reason)) :=
  .inr ⟨t, reason, rfl⟩

theorem endsWell_iff_ok {x : Except Halt (Tables × RowLog)}
    (h : ∀ t reason, x ≠ .error (.skip t reason)) : EndsWell x ↔ ∃ y, x = .ok y :=
  or_iff_left fun ⟨t, reason, hx⟩ => h t reason hx

/-- A live item, or the op is skipped. -/
theorem liveItem_cases (t : Tables) (id : Uuid) :
    (∃ item, liveItem t id = .ok item ∧ t.getItem id = some item ∧ item.status ≠ .deleted) ∨
      (∃ reason, liveItem t id = .error (.skip t reason)) ∧
        ∀ item, t.getItem id = some item → item.status = .deleted := by
  cases hget : t.getItem id with
  | none =>
    refine .inr ⟨⟨"the memory no longer exists", ?_⟩, fun item hitem => (nomatch hitem)⟩
    rw [liveItem, hget]
  | some item =>
    by_cases hd : item.status = .deleted
    · refine .inr ⟨⟨"the memory was deleted", ?_⟩, fun item' hitem => ?_⟩
      · rw [liveItem, hget]
        exact if_pos ⟨hd, rfl⟩
      · cases hitem
        exact hd
    · exact .inl ⟨item, liveItem_ok_iff.2 ⟨hget, hd⟩, rfl, hd⟩

theorem liveItem_of_not_isLive {t : Tables} {id : Uuid} (h : ¬ t.isLive id = true) :
    ∃ reason, liveItem t id = .error (.skip t reason) := by
  rcases liveItem_cases t id with ⟨item, hitem, -⟩ | ⟨hskip, -⟩
  · exact absurd (isLive_of_liveItem hitem) h
  · exact hskip

/-- An op that ends in one statement. -/
theorem endsWell_run_iff {x : Except Failure Tables} {f : Tables → Tables × RowLog} :
    EndsWell (run x >>= fun t => .ok (f t)) ↔ ∃ t, x = .ok t := by
  cases x with
  | error e =>
    refine iff_of_false ?_ fun ⟨_, h⟩ => (nomatch h)
    rintro (⟨_, h⟩ | ⟨_, _, h⟩) <;> exact (nomatch h)
  | ok t => exact iff_of_true (endsWell_ok (f t)) ⟨t, rfl⟩

/-- Two live items, a check of the old one, and an edit of it with a link. -/
theorem linked_endsWell_iff {t : Tables} {log : RowLog} {oldId newId linkId : Uuid}
    {changes : ItemChanges} {linkType : LinkType} {reason : String} {closed : ItemRecord → Prop}
    [DecidablePred closed] :
    EndsWell (do
      let old ← liveItem t oldId
      let new ← liveItem t newId
      if closed old then throw (.skip t reason)
      w.changeAndLink t log old new changes linkId linkType) ↔
    ∀ old, t.getItem oldId = some old → old.status ≠ .deleted → t.isLive newId = true →
      ¬ closed old → w.ItemLinkable t old newId linkId changes linkType := by
  rcases liveItem_cases t oldId with ⟨old, hold, hget, hlive⟩ | ⟨⟨why, hold⟩, hdead⟩
  · rcases liveItem_cases t newId with ⟨new, hnew, -⟩ | ⟨⟨why, hnew⟩, hdead⟩
    · have hnewLive := isLive_of_liveItem hnew
      have hid : old.id = oldId := KeyTable.key_of_lookup hget
      have hlinked : (∃ r, w.changeAndLink t log old new changes linkId linkType = .ok r) ↔ _ :=
        changeAndLink_ok_iff (hid ▸ hget) hnew
      rw [hold, hnew]
      by_cases hc : closed old
      · refine iff_of_true ?_ fun old' hget' _ _ hopen => ?_
        · show EndsWell (if closed old then _ else _)
          rw [if_pos hc]
          exact endsWell_skip t reason
        · rw [hget] at hget'
          cases hget'
          exact absurd hc hopen
      · have hends : EndsWell (w.changeAndLink t log old new changes linkId linkType) ↔
            w.ItemLinkable t old newId linkId changes linkType :=
          (endsWell_iff_ok fun _ _ => changeAndLink_ne_skip).trans hlinked
        show EndsWell (if closed old then _ else _) ↔ _
        rw [if_neg hc]
        refine hends.trans ⟨fun h old' hget' _ _ _ => ?_, fun h => h old hget hlive hnewLive hc⟩
        rw [hget] at hget'
        cases hget'
        exact h
    · refine iff_of_true ?_ fun _ _ _ hnewLive _ => ?_
      · rw [hold, hnew]
        exact endsWell_skip t why
      · obtain ⟨new, hnew'⟩ := liveItem_of_isLive hnewLive
        rw [hnew] at hnew'
        exact (nomatch hnew')
  · refine iff_of_true ?_ fun old hget hlive _ _ => absurd (hdead old hget) hlive
    rw [hold]
    exact endsWell_skip t why

/-! ## The loop -/

theorem step_wellKept {sb i : Nat} {p p' : Progress} {op : Op}
    (hp : WellKept w.backend p.tables) (h : w.step sb i p op = .ok p') :
    WellKept w.backend p'.tables := by
  rcases step_cases h with ⟨v, -, -, rfl⟩ | ⟨v, t, reason, -, -, hskip, rfl⟩ |
    ⟨v, t, log, -, -, happly, rfl⟩
  · rw [refuse_tables]
    exact hp
  · exact hp.quiet (apply_skip hskip).quiet
  · obtain ⟨cs, -, hwrote⟩ := (apply_does happly).wrote
    exact hwrote.wellKept hp

/-- The policy allows the op. -/
def Allows (w : Writer) (t : Tables) (op : Op) : Prop :=
  ∃ v, w.verdict t op = .ok v ∧ v.decision = .allowed

/-- Nothing but a new item in core and in no state of its kind is without a verdict. -/
theorem verdict_ok {t : Tables} {op : Op} (h : ∀ itemId item entities triggers slug name,
    op.body = .createItem itemId item entities triggers slug name → item.inCore = false) :
    ∃ v, w.verdict t op = .ok v := by
  unfold verdict
  dsimp only
  split
  · rename_i hcore
    have hcandidate : ∃ c, w.budgetCandidate t op = .ok c := by
      unfold budgetCandidate
      split
      · rename_i itemId item entities triggers slug name hbody
        have hwrite := hcore.2
        simp only [facts, hbody] at hwrite
        rw [h _ _ _ _ _ _ hbody] at hwrite
        exact (nomatch hwrite)
      · exact ⟨_, rfl⟩
    obtain ⟨c, hc⟩ := hcandidate
    rw [coreBudget, hc]
    cases c with
    | none => exact ⟨_, rfl⟩
    | some candidate =>
      dsimp only [bind, Except.bind]
      split
      · exact ⟨_, rfl⟩
      · exact ⟨_, rfl⟩
  · exact ⟨_, rfl⟩

/-- **A turn of the loop** fails only on an allowed op that does not end well. -/
theorem step_ok_iff {sb i : Nat} {p : Progress} {op : Op} (hv : ∃ v, w.verdict p.tables op = .ok v) :
    (∃ p', w.step sb i p op = .ok p') ↔ (w.Allows p.tables op →
      EndsWell (w.apply p.tables i { seqBase := sb, op := op, seq := p.seq } op.body)) := by
  obtain ⟨v, hv⟩ := hv
  have hallows : w.Allows p.tables op ↔ v.decision = .allowed := by
    constructor
    · rintro ⟨v', hv', hd⟩
      rw [hv] at hv'
      cases hv'
      exact hd
    · exact fun hd => ⟨v, hv, hd⟩
  rw [hallows]
  unfold step
  rw [hv]
  dsimp only [bind, Except.bind]
  by_cases hd : v.decision = .allowed
  · rw [if_neg (by simp [hd])]
    constructor
    · rintro ⟨p', hp'⟩ -
      split at hp'
      · exact (nomatch hp')
      · rename_i t reason happly
        rw [happly]
        exact endsWell_skip t reason
      · rename_i t log happly
        rw [happly]
        exact endsWell_ok (t, log)
    · intro h
      rcases h hd with ⟨⟨t, log⟩, happly⟩ | ⟨t, reason, happly⟩
      · rw [happly]
        exact ⟨_, rfl⟩
      · rw [happly]
        exact ⟨_, rfl⟩
  · rw [if_pos hd]
    exact iff_of_true ⟨_, rfl⟩ fun h => absurd h hd

/-- `P` holds of every op that the policy allows, on the tables the op meets. -/
def EveryAllowed (w : Writer) (sb : Nat) (P : Tables → Nat → OpBody → Prop) :
    Nat → Progress → List Op → Prop
  | _, _, [] => True
  | i, p, op :: ops =>
    (w.Allows p.tables op → P p.tables i op.body) ∧
      ∀ p', w.step sb i p op = .ok p' → EveryAllowed w sb P (i + 1) p' ops

/-- **The loop** comes to its end exactly when every allowed op meets `P`, which says that the op
ends well. -/
theorem steps_ok_iff {sb : Nat} {P : Tables → Nat → OpBody → Prop} {Q : Progress → Prop}
    {ops : List Op} (hverdict : ∀ op ∈ ops, ∀ t, ∃ v, w.verdict t op = .ok v)
    (hstep : ∀ i p op p', op ∈ ops → Q p → w.step sb i p op = .ok p' → Q p')
    (hends : ∀ i p op, op ∈ ops → Q p → (EndsWell
      (w.apply p.tables i { seqBase := sb, op := op, seq := p.seq } op.body) ↔
        P p.tables i op.body)) {i : Nat} {p : Progress} (hp : Q p) :
    (∃ p', w.steps sb i p ops = .ok p') ↔ w.EveryAllowed sb P i p ops := by
  induction ops generalizing i p with
  | nil => exact iff_of_true ⟨p, rfl⟩ trivial
  | cons op ops ih =>
    have hfirst : (∃ p', w.step sb i p op = .ok p') ↔ _ :=
      step_ok_iff (hverdict op List.mem_cons_self p.tables)
    rw [hends i p op List.mem_cons_self hp] at hfirst
    have hrest : ∀ p', w.step sb i p op = .ok p' →
        ((∃ p'', w.steps sb (i + 1) p' ops = .ok p'') ↔ w.EveryAllowed sb P (i + 1) p' ops) :=
      fun p' hp' => ih (fun op' hop => hverdict op' (List.mem_cons_of_mem _ hop))
        (fun i p op' p' hop => hstep i p op' p' (List.mem_cons_of_mem _ hop))
        (fun i p op' hop => hends i p op' (List.mem_cons_of_mem _ hop))
        (hstep i p op p' List.mem_cons_self hp hp')
    rw [EveryAllowed, ← hfirst]
    simp only [steps, bind_eq_ok]
    constructor
    · rintro ⟨p'', p', hp', h⟩
      refine ⟨⟨p', hp'⟩, fun q hq => ?_⟩
      rw [hp'] at hq
      cases hq
      exact (hrest p' hp').1 ⟨p'', h⟩
    · rintro ⟨⟨p', hp'⟩, h⟩
      obtain ⟨p'', hp''⟩ := (hrest p' hp').2 (h p' hp')
      exact ⟨p'', p', hp', hp''⟩

/-! ## The transaction -/

/-- The held writes so far have the ids of their positions. -/
def HeldIds (w : Writer) (n : Nat) (held : List HeldWriteRecord) : Prop :=
  ∃ js : List Nat, held.map (·.id) = js.map w.newId ∧ js.Nodup ∧ ∀ j ∈ js, j < n

theorem step_heldIds {sb i : Nat} {p p' : Progress} {op : Op} (h : w.step sb i p op = .ok p')
    (hp : w.HeldIds i p.held) : w.HeldIds (i + 1) p'.held := by
  obtain ⟨js, hmap, hnodup, hlt⟩ := hp
  have hsame : w.HeldIds (i + 1) p.held :=
    ⟨js, hmap, hnodup, fun j hj => Nat.lt_succ_of_lt (hlt j hj)⟩
  rcases step_cases h with ⟨v, -, -, rfl⟩ | ⟨v, t, reason, -, -, -, rfl⟩ | ⟨v, t, log, -, -, -, rfl⟩
  · unfold refuse
    dsimp only
    split
    · refine ⟨js ++ [i], by simp [hmap], ?_, fun j hj => ?_⟩
      · refine List.nodup_append.2 ⟨hnodup, List.nodup_singleton i, fun a ha b hb => ?_⟩
        rw [List.mem_singleton.1 hb]
        exact Nat.ne_of_lt (hlt a ha)
      · rcases List.mem_append.1 hj with hj | hj
        · exact Nat.lt_succ_of_lt (hlt j hj)
        · rw [List.mem_singleton.1 hj]
          exact Nat.lt_succ_self i
    · exact hsame
  · exact hsame
  · exact hsame

theorem steps_heldIds {sb : Nat} {ops : List Op} {i : Nat} {p p' : Progress}
    (hp : w.HeldIds i p.held) (h : w.steps sb i p ops = .ok p') : ∃ n, w.HeldIds n p'.held := by
  induction ops generalizing i p with
  | nil =>
    cases h
    exact ⟨i, hp⟩
  | cons op ops ih =>
    obtain ⟨p₁, h₁, h⟩ := bind_eq_ok.1 h
    exact ih (step_heldIds h₁ hp) h

/-- Held writes with new ids go in. -/
theorem insertHeldWrites_ok {b : Backend} {held : List HeldWriteRecord} {t : Tables}
    (hfree : ∀ h ∈ held, t.held.lookup h.id = none) (hapart : (held.map (·.id)).Nodup) :
    ∃ t', held.foldlM (fun t held => t.insertHeldWrite b held) t = .ok t' := by
  induction held generalizing t with
  | nil => exact ⟨t, rfl⟩
  | cons h held ih =>
    rw [List.map_cons, List.nodup_cons] at hapart
    have hput : t.insertHeldWrite b h = .ok { t with held := t.held.put h } :=
      Tables.statement_eq_ok.2 ⟨fun _ => by simp [hfree h List.mem_cons_self], rfl⟩
    rw [List.foldlM_cons, hput]
    refine ih (fun h' hh' => ?_) hapart.2
    rw [KeyTable.lookup_put_eq_none]
    exact ⟨fun he => hapart.1 (he ▸ List.mem_map_of_mem hh'),
      hfree h' (List.mem_cons_of_mem _ hh')⟩

/-- **A commit** whose held writes get new ids goes through exactly when its batch does. -/
theorem commit_ok_iff {t : Tables} (hinj : Function.Injective w.newId)
    (hfree : ∀ n, t.held.lookup (w.newId n) = none) :
    (∃ x, w.commit t = .ok x) ↔ w.heldWhole = true ∨
      ∃ p, w.steps (w.seqBase t) 0 { tables := w.writeVocab t } w.ops = .ok p := by
  have hgo : ∀ p n, w.applyAll (w.seqBase t) (w.writeVocab t) = .ok p → w.HeldIds n p.held →
      ∃ x, w.commit t = .ok x := by
    rintro p n hp ⟨js, hmap, hnodup, -⟩
    have hheld : p.tables.held = t.held := (applyAll_follows hp).held.trans (w.writeVocab_held t)
    have hnew : ∀ h ∈ p.held,
        (p.tables.insertWriteLog (p.outcomes.flatMap (·.rows))).held.lookup h.id = none := by
      intro h hh
      have hid : h.id ∈ js.map w.newId := hmap ▸ List.mem_map_of_mem hh
      obtain ⟨j, -, hj⟩ := List.mem_map.1 hid
      show p.tables.held.lookup h.id = none
      rw [hheld, ← hj]
      exact hfree j
    have hapart : (p.held.map (·.id)).Nodup := by
      rw [hmap]
      exact hnodup.map hinj
    obtain ⟨t', ht'⟩ := insertHeldWrites_ok (b := w.backend) hnew hapart
    exact ⟨_, bind_eq_ok.2 ⟨p, hp, bind_eq_ok.2 ⟨t', ht', rfl⟩⟩⟩
  constructor
  · rintro ⟨x, hx⟩
    obtain ⟨p, hp, -⟩ := bind_eq_ok.1 hx
    unfold applyAll at hp
    split at hp
    · rename_i hwhole
      exact .inl hwhole
    · exact .inr ⟨p, hp⟩
  · intro h
    by_cases hwhole : w.heldWhole = true
    · refine hgo (w.holdEverything (w.seqBase t) (w.writeVocab t)) 1 (if_pos hwhole) ⟨[0], rfl, ?_, ?_⟩
      · exact List.nodup_singleton 0
      · intro j hj
        rw [List.mem_singleton.1 hj]
        exact Nat.one_pos
    · obtain ⟨p, hp⟩ := h.resolve_left hwhole
      obtain ⟨n, hn⟩ := steps_heldIds ⟨[], rfl, List.nodup_nil, fun j hj => absurd hj List.not_mem_nil⟩
        hp
      exact hgo p n ((if_neg hwhole).trans hp) hn

end Writer

end SecondMind
