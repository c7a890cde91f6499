import SecondMind.Memory.Applicable
import SecondMind.Memory.Batch
import SecondMind.Memory.Service

/-!
# Confirming a held write

A held write keeps the ops that a commit did not apply.  `confirm_held` looks at the items
the ops name and commits the ops again, as confirmed.  The second commit judges every op
afresh, so whether all of them are applied depends on the ops and on the store.

* `Writer.commit_pending` — a write that a commit held is pending in the store it leaves;
* `Writer.OpConfirmable` — what one op needs when its turn comes;
* `confirmHeld_applies_iff` — a confirmation applies the whole held write exactly when the
  items it names are live and every op is confirmable when its turn comes.
-/

namespace SecondMind

open Keyed Policy

namespace Writer

variable {w : Writer}

/-! ## The held writes of a commit -/

/-- The writes held so far are pending, under ids the writer gave out before position `i`. -/
def HeldBefore (w : Writer) (i : Nat) (held : List HeldWriteRecord) : Prop :=
  (∀ h ∈ held, h.status = .pending ∧ ∃ k < i, h.id = w.newId k) ∧
    (Function.Injective w.newId → (held.map (·.id)).Nodup)

theorem heldBefore_nil (w : Writer) (i : Nat) : HeldBefore w i [] :=
  ⟨fun _ h => (nomatch h), fun _ => List.nodup_nil⟩

theorem HeldBefore.mono {i : Nat} {held : List HeldWriteRecord} (h : HeldBefore w i held) :
    HeldBefore w (i + 1) held := by
  refine ⟨fun r hr => ?_, h.2⟩
  obtain ⟨hs, k, hk, hid⟩ := h.1 r hr
  exact ⟨hs, k, Nat.lt_succ_of_lt hk, hid⟩

theorem HeldBefore.snoc {i : Nat} {held : List HeldWriteRecord} {r : HeldWriteRecord}
    (h : HeldBefore w i held) (hs : r.status = .pending) (hid : r.id = w.newId i) :
    HeldBefore w (i + 1) (held ++ [r]) := by
  refine ⟨fun r' hr => ?_, fun hinj => ?_⟩
  · rcases List.mem_append.1 hr with hr | hr
    · exact h.mono.1 r' hr
    · rw [List.mem_singleton.1 hr]
      exact ⟨hs, i, Nat.lt_succ_self i, hid⟩
  · rw [List.map_append, List.nodup_append]
    refine ⟨h.2 hinj, List.nodup_singleton _, fun a ha b hb => ?_⟩
    obtain ⟨r', hr', rfl⟩ := List.mem_map.1 ha
    obtain ⟨-, k, hk, hid'⟩ := h.1 r' hr'
    have hb : b = r.id := List.mem_singleton.1 hb
    rw [hb, hid, hid']
    exact fun e => absurd (hinj e) (Nat.ne_of_lt hk)

theorem step_heldBefore {sb i : Nat} {p p' : Progress} {op : Op} (hp : HeldBefore w i p.held)
    (h : w.step sb i p op = .ok p') : HeldBefore w (i + 1) p'.held := by
  rcases step_cases h with ⟨v, -, -, rfl⟩ | ⟨v, t₁, reason, -, -, -, rfl⟩ |
    ⟨v, t₁, log, -, -, -, rfl⟩
  · unfold refuse
    dsimp only
    split
    · exact hp.snoc rfl rfl
    · exact hp.mono
  · exact hp.mono
  · exact hp.mono

theorem steps_heldBefore {sb : Nat} {ops : List Op} {i : Nat} {p p' : Progress}
    (hp : HeldBefore w i p.held) (h : w.steps sb i p ops = .ok p') : ∃ n, HeldBefore w n p'.held := by
  induction ops generalizing i p with
  | nil =>
    cases h
    exact ⟨i, hp⟩
  | cons op ops ih =>
    obtain ⟨p₁, h₁, h⟩ := bind_eq_ok.1 h
    exact ih (step_heldBefore hp h₁) h

theorem applyAll_heldBefore {sb : Nat} {t : Tables} {p : Progress} (h : w.applyAll sb t = .ok p) :
    ∃ n, HeldBefore w n p.held := by
  unfold applyAll at h
  split at h
  · cases h
    refine ⟨1, fun r hr => ?_, fun _ => List.nodup_singleton _⟩
    rw [List.mem_singleton.1 hr]
    exact ⟨rfl, 0, Nat.zero_lt_one, rfl⟩
  · exact steps_heldBefore (heldBefore_nil w 0) h

theorem lookup_foldl_put {held : KeyTable HeldWriteRecord.id} {rows : List HeldWriteRecord}
    {id : Uuid} (h : ∀ r ∈ rows, r.id ≠ id) :
    (rows.foldl KeyTable.put held).lookup id = held.lookup id := by
  induction rows generalizing held with
  | nil => rfl
  | cons r rows ih =>
    rw [List.foldl_cons, ih fun r' hr => h r' (List.mem_cons_of_mem _ hr)]
    exact KeyTable.lookup_put_of_ne _ (h r List.mem_cons_self).symm

theorem lookup_foldl_put_mem {held : KeyTable HeldWriteRecord.id} {rows : List HeldWriteRecord}
    {r : HeldWriteRecord} (hnodup : (rows.map (·.id)).Nodup) (hr : r ∈ rows) :
    (rows.foldl KeyTable.put held).lookup r.id = some r := by
  induction rows generalizing held with
  | nil => exact absurd hr List.not_mem_nil
  | cons r' rows ih =>
    rw [List.map_cons, List.nodup_cons] at hnodup
    rw [List.foldl_cons]
    rcases List.mem_cons.1 hr with rfl | hr
    · rw [lookup_foldl_put fun r' hr' e => hnodup.1 (List.mem_map.2 ⟨r', hr', e⟩)]
      exact KeyTable.lookup_put_self _ _
    · exact ih hnodup.2 hr

/-- **A commit leaves other held writes alone.** -/
theorem held_commit {t t' : Tables} {res : CommitResult} {heldId : Uuid}
    (fresh : ∀ k, w.newId k ≠ heldId) (h : w.commit t = .ok (t', res)) :
    t'.held.lookup heldId = t.held.lookup heldId := by
  obtain ⟨p, hp⟩ := commit_parts h
  obtain ⟨n, hheld, -⟩ := applyAll_heldBefore hp.batch
  rw [hp.held, (applyAll_follows hp.batch).held, writeVocab_held]
  refine lookup_foldl_put fun r hr => ?_
  obtain ⟨-, k, -, hid⟩ := hheld r hr
  rw [hid]
  exact fresh k

/-- **A write that a commit held is pending** in the store the commit leaves. -/
theorem commit_pending {t t' : Tables} {res : CommitResult} {held : HeldWriteRecord}
    (fresh : Function.Injective w.newId) (h : w.commit t = .ok (t', res)) (hr : held ∈ res.held) :
    SecondMind.pending t' held.id = .ok held := by
  obtain ⟨p, hp⟩ := commit_parts h
  obtain ⟨n, hheld, hnodup⟩ := applyAll_heldBefore hp.batch
  rw [hp.result] at hr
  have hget : t'.held.lookup held.id = some held := by
    rw [hp.held]
    exact lookup_foldl_put_mem (hnodup fresh) hr
  rw [SecondMind.pending, hget]
  exact if_neg (Decidable.not_not.2 (hheld held hr).1)

/-! ## Ops that are confirmed -/

/-- What an op of a confirmed batch needs when its turn comes: none of the rules that do not
ask for a confirmation speaks up, core has room for what it writes there, and the tables are
as the op needs them. -/
structure OpConfirmable (w : Writer) (t : Tables) (i : Nat) (op : Op) : Prop where
  noSecret : pSecret1 (facts t op (createdItems w.ops)) w.context = none
  trusted : pTrust1 (facts t op (createdItems w.ops)) w.context = none
  noHypothetical : pMod1 (facts t op (createdItems w.ops)) w.context = none
  room : (facts t op (createdItems w.ops)).coreWrite = true → w.Room t op
  applicable : w.Applicable t i op.body

/-- `P` holds of every op when its turn comes. -/
def EveryOp (w : Writer) (sb : Nat) (P : Tables → Nat → Op → Prop) :
    Nat → Progress → List Op → Prop
  | _, _, [] => True
  | i, p, op :: ops =>
    P p.tables i op ∧ ∀ p', w.step sb i p op = .ok p' → EveryOp w sb P (i + 1) p' ops

/-- So far every op has been applied. -/
def Progress.Clean (p : Progress) : Prop :=
  (∀ o ∈ p.outcomes, o.verdict.decision = .allowed) ∧ p.held = []

theorem step_clean_iff (hconfirmed : w.confirmed = true) {sb i : Nat} {p : Progress} {op : Op} :
    (∃ p', w.step sb i p op = .ok p' ∧ p'.Clean) ↔ p.Clean ∧ w.OpConfirmable p.tables i op := by
  have hverdict : (∃ v, w.verdict p.tables op = .ok v ∧ v.decision = .allowed) ↔ _ :=
    verdict_allowed_iff
  have hctx : w.context.confirmed = true := hconfirmed
  rw [evaluate_confirmed_iff hctx] at hverdict
  have happly : (∃ x, w.apply p.tables i { seqBase := sb, op := op, seq := p.seq } op.body = .ok x) ↔
      w.Applicable p.tables i op.body := apply_ok_iff
  constructor
  · rintro ⟨p', h, hclean⟩
    rcases step_cases h with ⟨v, -, hd, rfl⟩ | ⟨v, t₁, reason, -, -, -, rfl⟩ |
      ⟨v, t₁, log, hv, hd, ha, rfl⟩
    · obtain ⟨row, heldId, held, -, -, -, hr⟩ := w.refuse_eq sb i p op hd
      rw [hr] at hclean
      exact absurd (hclean.1 _ (List.mem_append_right _ List.mem_cons_self)) hd
    · have hskip := hclean.1 _ (List.mem_append_right _ List.mem_cons_self)
      exact (nomatch hskip)
    · obtain ⟨⟨hsecret, htrust, hmod⟩, hroom⟩ := hverdict.1 ⟨v, hv, hd⟩
      refine ⟨⟨fun o ho => hclean.1 o (List.mem_append_left _ ho), hclean.2⟩,
        ⟨hsecret, htrust, hmod, hroom, happly.1 ⟨_, ha⟩⟩⟩
  · rintro ⟨hclean, hsecret, htrust, hmod, hroom, happlicable⟩
    obtain ⟨v, hv, hd⟩ := hverdict.2 ⟨⟨hsecret, htrust, hmod⟩, hroom⟩
    obtain ⟨⟨t₁, log⟩, ha⟩ := happly.2 happlicable
    refine ⟨_, step_of_apply hv hd ha, fun o ho => ?_, hclean.2⟩
    rcases List.mem_append.1 ho with ho | ho
    · exact hclean.1 o ho
    · rw [List.mem_singleton.1 ho]
      exact hd

/-- **A confirmed batch is applied whole** exactly when every op is confirmable when its turn
comes. -/
theorem steps_clean_iff (hconfirmed : w.confirmed = true) {sb : Nat} {ops : List Op} {i : Nat}
    {p : Progress} :
    (∃ p', w.steps sb i p ops = .ok p' ∧ p'.Clean) ↔
      p.Clean ∧ w.EveryOp sb w.OpConfirmable i p ops := by
  induction ops generalizing i p with
  | nil =>
    rw [EveryOp, and_true]
    exact ⟨fun ⟨p', h, hclean⟩ => by cases h; exact hclean, fun hclean => ⟨p, rfl, hclean⟩⟩
  | cons op ops ih =>
    have hstep : (∃ p', w.step sb i p op = .ok p' ∧ p'.Clean) ↔ _ := step_clean_iff hconfirmed
    rw [EveryOp, ← and_assoc, ← hstep]
    constructor
    · rintro ⟨p', h, hclean⟩
      obtain ⟨p₁, h₁, h⟩ := bind_eq_ok.1 h
      obtain ⟨hclean₁, hrest⟩ := ih.1 ⟨p', h, hclean⟩
      refine ⟨⟨p₁, h₁, hclean₁⟩, fun p₂ h₂ => ?_⟩
      rw [h₁] at h₂
      cases h₂
      exact hrest
    · rintro ⟨⟨p₁, h₁, hclean₁⟩, hrest⟩
      obtain ⟨p', h, hclean⟩ := ih.2 ⟨hclean₁, hrest p₁ h₁⟩
      exact ⟨p', bind_eq_ok.2 ⟨p₁, h₁, h⟩, hclean⟩

/-- Every op of a batch has an outcome. -/
theorem steps_ops {sb : Nat} {ops : List Op} {i : Nat} {p p' : Progress}
    (h : w.steps sb i p ops = .ok p') : p'.outcomes.map (·.op) = p.outcomes.map (·.op) ++ ops := by
  induction ops generalizing i p with
  | nil =>
    cases h
    rw [List.append_nil]
  | cons op ops ih =>
    obtain ⟨p₁, h₁, h⟩ := bind_eq_ok.1 h
    have hone : p₁.outcomes.map (·.op) = p.outcomes.map (·.op) ++ [op] := by
      rcases step_cases h₁ with ⟨v, -, hd, rfl⟩ | ⟨v, t₁, reason, -, -, -, rfl⟩ |
        ⟨v, t₁, log, -, -, -, rfl⟩
      · obtain ⟨row, heldId, held, -, -, -, hr⟩ := w.refuse_eq sb i p op hd
        rw [hr, List.map_append]
        rfl
      · rw [List.map_append]
        rfl
      · rw [List.map_append]
        rfl
    rw [ih h, hone, List.append_assoc]
    rfl

/-- A commit that is not held whole and whose batch went through. -/
theorem commit_of_clean {t : Tables} {p : Progress} (hwhole : w.heldWhole = false)
    (h : w.steps (w.seqBase t) 0 { tables := w.writeVocab t } w.ops = .ok p) (hclean : p.Clean) :
    ∃ t', w.commit t = .ok (t', { outcomes := p.outcomes, notes := w.notes, held := [] }) := by
  have hbatch : w.applyAll (w.seqBase t) (w.writeVocab t) = .ok p := by
    rw [applyAll, if_neg (by simp [hwhole]), h]
  refine ⟨w.writeVersions (p.tables.insertWriteLog p.rows) p.rows, bind_eq_ok.2 ⟨p, hbatch, ?_⟩⟩
  rw [hclean.2]
  rfl

end Writer

/-! ## Confirmations -/

/-- The confirmation has applied every op of the held write: each has an outcome, each was
allowed, and nothing waits again. -/
structure AppliedInFull (held : HeldWriteRecord) (res : CommitResult) : Prop where
  every : res.outcomes.map (·.op) = confirmedOps held
  allowed : ∀ o ∈ res.outcomes, o.verdict.decision = .allowed
  noneHeld : res.held = []

/-- What a held write needs of the store for its confirmation by `w`.  The items its ops
name, creations aside, are live before anything is applied; and every op is confirmable
when its turn comes. -/
structure Confirmable (w : Writer) (held : HeldWriteRecord) (t : Tables) : Prop where
  targets : ∀ op ∈ held.ops, ∀ id, op.body.itemId = some id → t.isLive id = true
  everyOp : (confirmingWriter w held).EveryOp ((confirmingWriter w held).seqBase t)
    (confirmingWriter w held).OpConfirmable 0 { tables := t } (confirmedOps held)

theorem targetsGone_eq_false_iff {t : MemoryTables} {ops : List Op} :
    targetsGone t ops = false ↔
      ∀ op ∈ ops, ∀ id, op.body.itemId = some id → t.isLive id = true := by
  simp [targetsGone, Option.any_eq_false]

theorem confirmHeld_eq_ok {w : Writer} {t : Tables} {held : HeldWriteRecord}
    (hpending : pending t held.id = .ok held) :
    (∃ x, confirmHeld w t held.id = .ok x ∧ AppliedInFull held x.2) ↔
      targetsGone t.toMemoryTables held.ops = false ∧
        ∃ x, (confirmingWriter w held).commit t = .ok x ∧ AppliedInFull held x.2 := by
  unfold confirmHeld commitHeld
  simp only [hpending, bind_eq_ok]
  constructor
  · rintro ⟨x, ⟨_, hheld, y, hy, hx⟩, happlied⟩
    cases hheld
    split at hy
    · exact (nomatch hy)
    · rename_i hgone
      cases hx
      exact ⟨by simpa using hgone, y, hy, happlied⟩
  · rintro ⟨hgone, y, hy, happlied⟩
    refine ⟨_, ⟨held, rfl, y, ?_, rfl⟩, happlied⟩
    rw [if_neg (by simp [hgone]), hy]

/-- **A confirmation applies the whole held write** exactly when the items it names are live
and every op is confirmable when its turn comes. -/
theorem confirmHeld_applies_iff {w w' : Writer} {t t' : Tables} {res : CommitResult}
    {held : HeldWriteRecord} (fresh : Function.Injective w.newId)
    (hcommit : w.commit t = .ok (t', res)) (hheld : held ∈ res.held) :
    (∃ x, confirmHeld w' t' held.id = .ok x ∧ AppliedInFull held x.2) ↔ Confirmable w' held t' := by
  rw [confirmHeld_eq_ok (Writer.commit_pending fresh hcommit hheld), targetsGone_eq_false_iff]
  let c := confirmingWriter w' held
  have hsteps : (∃ p, c.steps (c.seqBase t') 0 { tables := t' } c.ops = .ok p ∧ p.Clean) ↔ _ :=
    Writer.steps_clean_iff rfl
  have hstart : (Writer.Progress.mk t' 0 [] []).Clean := ⟨fun _ ho => (nomatch ho), rfl⟩
  rw [and_iff_right hstart] at hsteps
  have hcommit : (∃ x, c.commit t' = .ok x ∧ AppliedInFull held x.2) ↔
      ∃ p, c.steps (c.seqBase t') 0 { tables := t' } c.ops = .ok p ∧ p.Clean := by
    constructor
    · rintro ⟨⟨u, res'⟩, hdone, happlied⟩
      obtain ⟨p, hp⟩ := Writer.commit_parts hdone
      have hres := hp.result
      subst hres
      exact ⟨p, hp.batch, happlied.allowed, happlied.noneHeld⟩
    · rintro ⟨p, hp, hclean⟩
      obtain ⟨u, hu⟩ := Writer.commit_of_clean (w := c) (t := t') rfl hp hclean
      exact ⟨_, hu, Writer.steps_ops hp, hclean.1, rfl⟩
  rw [hcommit, hsteps]
  exact ⟨fun h => ⟨h.1, h.2⟩, fun h => ⟨h.targets, h.everyOp⟩⟩

/-! ### A core write proposed from content -/

/-- A job that read a page proposes something for core. -/
def proposesCore : Writer :=
  { backend := .sql, turn := { turnId := 40, kind := .system, now := 40 }
    ops := [{ trust := .contentDerived, origin := .content
              body := .createItem 1 { kind := .note, state := "current", text := "paints"
                                      title := "paints", mentionedAt := 0, inCore := true }
                [] [] none none }] }

/-- The turn of a confirmation. -/
def confirmTurn : Writer :=
  { backend := .sql, turn := { turnId := 41, now := 41 }, newId := fun k => 100 + k }

/-- The proposal waits for the person, and confirmed it waits again. -/
theorem core_proposal_held_again :
    ∃ t' res held, proposesCore.commit (Tables.initial 0) = .ok (t', res) ∧ held ∈ res.held ∧
      ¬ ∃ x, confirmHeld confirmTurn t' held.id = .ok x ∧ AppliedInFull held x.2 := by
  refine ⟨_, _, _, rfl, List.mem_singleton.2 rfl, ?_⟩
  rintro ⟨x, hx, happlied⟩
  have hagain := happlied.noneHeld
  cases hx
  cases hagain

/-! ### A deletion -/

/-- A note. -/
def keptNote : ItemRecord :=
  { kind := .note, state := "current", text := "a note", title := "a note", mentionedAt := 0
    id := 1, createdAt := 0, updatedAt := 0, createdByTurnId := 50, updatedByTurnId := 50 }

def oneNote : Tables := { Tables.initial 0 with items := KeyTable.empty.put keptNote }

/-- The person asks for the deletion of the note, which needs a confirmation. -/
def deletesNote : Writer :=
  { backend := .sql, turn := { turnId := 51, now := 51 }, ops := [{ body := .deleteItem 1 }] }

theorem deletion_applied :
    ∃ t' res held, deletesNote.commit oneNote = .ok (t', res) ∧ held ∈ res.held ∧
      ∃ x, confirmHeld confirmTurn t' held.id = .ok x ∧ AppliedInFull held x.2 := by
  have hcommit : deletesNote.commit oneNote = .ok (_, _) := rfl
  refine ⟨_, _, _, hcommit, List.mem_singleton.2 rfl, ?_⟩
  refine (confirmHeld_applies_iff (fun _ _ h => h) hcommit (List.mem_singleton.2 rfl)).2
    ⟨fun op hop id hid => ?_, ⟨⟨rfl, rfl, rfl, fun h => (nomatch h), ?_⟩, fun _ _ => trivial⟩⟩
  · rw [List.mem_singleton.1 hop] at hid
    cases hid
    rfl
  · exact ⟨keptNote, rfl, rfl, rfl, fun _ => rfl⟩

end SecondMind
