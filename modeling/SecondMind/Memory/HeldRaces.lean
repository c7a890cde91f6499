import SecondMind.Memory.Confirm

/-!
# Requests on one held write

`confirm_held` and `reject_held` are several transactions each, and the requests of one
workspace run side by side.  A confirmation checks that the write is pending, looks at the
items of its ops, commits the ops, and resolves the write; a rejection checks and
resolves.  Only a single transaction is atomic.

* `Race.step` — the next transaction of one request;
* `Race.Inv` — how the requests, the commits and the status hang together;
* `Race.run_inv` — the invariant over every schedule in which no two confirmations
  overlap and no confirmation resolves while a rejection is on its way;
* `Race.resolved_once` — what such a schedule leaves when every request is through.
-/

namespace SecondMind

open Keyed

/-- A request on the held write: a confirmation, with the writer of its turn, or a
rejection. -/
inductive Request
  | confirm (w : Writer)
  | reject (at_ : Instant)

/-- How far a request has come. -/
inductive Stage
  | asked
  /-- `_pending` has returned the held write. -/
  | pending (held : HeldWriteRecord)
  /-- The items of its ops are there. -/
  | found (held : HeldWriteRecord)
  | committed
  | resolved
  | failed
  deriving DecidableEq

/-- The request is through. -/
def Stage.over : Stage → Bool
  | .resolved => true
  | .failed => true
  | _ => false

/-- The request has passed its check and is not through. -/
def Stage.inFlight : Stage → Bool
  | .pending _ => true
  | .found _ => true
  | .committed => true
  | _ => false

/-- The ops have been committed for the request. -/
def Stage.hasApplied : Stage → Bool
  | .committed => true
  | .resolved => true
  | _ => false

/-- The store, how far each request has come, and how often the ops were committed. -/
structure Race where
  tables : Tables
  stage : Nat → Stage := fun _ => .asked
  applied : Nat := 0

namespace Race

/-- The race with the request `i` at another stage. -/
def at_ (r : Race) (i : Nat) (s : Stage) : Race := { r with stage := Function.update r.stage i s }

/-- The next transaction of a confirmation. -/
def stepConfirm (heldId : Uuid) (w : Writer) (r : Race) (i : Nat) : Race :=
  match r.stage i with
  | .asked =>
    match SecondMind.pending r.tables heldId with
    | .error _ => r.at_ i .failed
    | .ok held => r.at_ i (.pending held)
  | .pending held =>
    if targetsGone r.tables.toMemoryTables held.ops then r.at_ i .failed else r.at_ i (.found held)
  | .found held =>
    match (confirmingWriter w held).commit r.tables with
    | .error _ => r.at_ i .failed
    | .ok (t, _) => { r.at_ i .committed with tables := t, applied := r.applied + 1 }
  | .committed =>
    { r.at_ i .resolved with
      tables := r.tables.resolveHeldWrite heldId .confirmed (some w.turn.turnId) w.turn.now }
  | _ => r

/-- The next transaction of a rejection. -/
def stepReject (heldId : Uuid) (now : Instant) (r : Race) (i : Nat) : Race :=
  match r.stage i with
  | .asked =>
    match SecondMind.pending r.tables heldId with
    | .error _ => r.at_ i .failed
    | .ok held => r.at_ i (.pending held)
  | .pending _ =>
    { r.at_ i .resolved with tables := r.tables.resolveHeldWrite heldId .rejected none now }
  | _ => r

/-- **The next transaction** of the request `i`. -/
def step (heldId : Uuid) (requests : Nat → Request) (r : Race) (i : Nat) : Race :=
  match requests i with
  | .confirm w => r.stepConfirm heldId w i
  | .reject now => r.stepReject heldId now i

/-- The transactions of a schedule, which names the request that comes next. -/
def run (heldId : Uuid) (requests : Nat → Request) (r : Race) (schedule : List Nat) : Race :=
  schedule.foldl (step heldId requests) r

/-- The status of the held write. -/
def status (heldId : Uuid) (r : Race) : Option HeldStatus :=
  (r.tables.held.lookup heldId).map (·.status)

/-- The request `i` is a confirmation. -/
def Confirms (requests : Nat → Request) (i : Nat) : Prop := ∃ w, requests i = .confirm w

/-- The request `i` is a rejection. -/
def Rejects (requests : Nat → Request) (i : Nat) : Prop := ∃ now, requests i = .reject now

/-! ## Schedules without overlap -/

/-- The request `i` may come next.  A confirmation passes its check only while no other one
is on its way, and resolves the write only while no rejection is. -/
structure Apart (heldId : Uuid) (requests : Nat → Request) (r : Race) (i : Nat) : Prop where
  alone : Confirms requests i → r.stage i = .asked → r.status heldId = some .pending →
    ∀ j, Confirms requests j → (r.stage j).inFlight = false
  last : Confirms requests i → r.stage i = .committed →
    ∀ j, Rejects requests j → (r.stage j).inFlight = false

/-- Every request of the schedule comes when it may. -/
def AllApart (heldId : Uuid) (requests : Nat → Request) : Race → List Nat → Prop
  | _, [] => True
  | r, i :: schedule =>
    Apart heldId requests r i ∧ AllApart heldId requests (r.step heldId requests i) schedule

/-- How the requests, the commits and the status hang together. -/
structure Inv (heldId : Uuid) (requests : Nat → Request) (r : Race) : Prop where
  one : ∀ i j, Confirms requests i → Confirms requests j → (r.stage i).inFlight = true →
    (r.stage j).inFlight = true → i = j
  once : r.applied ≤ 1
  applied : r.applied = 0 ↔ ∀ i, Confirms requests i → (r.stage i).hasApplied = false
  status : (r.status heldId = some .pending ∧ ∀ i, r.stage i ≠ .resolved) ∨
    (r.status heldId = some .rejected ∧ ∀ i, Confirms requests i → r.stage i ≠ .resolved) ∨
    (r.status heldId = some .confirmed ∧ (∃ i, Confirms requests i ∧ r.stage i = .resolved) ∧
      ∀ i, (r.stage i).inFlight = false)

variable {heldId : Uuid} {requests : Nat → Request} {r : Race} {i : Nat}

@[simp] theorem stage_at (r : Race) (i j : Nat) (s : Stage) :
    (r.at_ i s).stage j = if j = i then s else r.stage j := by
  simp [at_, Function.update_apply]

@[simp] theorem tables_at (r : Race) (i : Nat) (s : Stage) : (r.at_ i s).tables = r.tables := rfl

@[simp] theorem applied_at (r : Race) (i : Nat) (s : Stage) : (r.at_ i s).applied = r.applied := rfl

theorem not_rejects_of_confirms (h : Confirms requests i) : ¬ Rejects requests i := by
  obtain ⟨w, hw⟩ := h
  rintro ⟨now, hnow⟩
  rw [hw] at hnow
  exact (nomatch hnow)

theorem not_inFlight_of_resolved {s : Stage} (h : s = .resolved) : s.inFlight = false := by
  rw [h]
  rfl

/-! ### The transactions -/

theorem pending_eq_ok {t : Tables} {held : HeldWriteRecord}
    (h : SecondMind.pending t heldId = .ok held) :
    t.held.lookup heldId = some held ∧ held.status = .pending := by
  unfold SecondMind.pending at h
  split at h
  · exact (nomatch h)
  · rename_i held' hget
    split at h
    · exact (nomatch h)
    · rename_i hs
      cases h
      exact ⟨hget, Decidable.not_not.1 hs⟩

theorem status_resolve {t : Tables} {s : HeldStatus} {turnId : Option Uuid} {now : Instant}
    (h : (t.held.lookup heldId).isSome) :
    ((t.resolveHeldWrite heldId s turnId now).held.lookup heldId).map (·.status) = some s := by
  obtain ⟨held, hget⟩ := Option.isSome_iff_exists.1 h
  have hid : held.id = heldId := KeyTable.key_of_lookup hget
  subst hid
  simp [Tables.resolveHeldWrite, hget, KeyTable.lookup_put]

theorem Inv.has_status (h : Inv heldId requests r) : (r.tables.held.lookup heldId).isSome := by
  have hsome : (r.status heldId).isSome := by
    rcases h.status with ⟨hs, -⟩ | ⟨hs, -⟩ | ⟨hs, -⟩ <;> rw [hs] <;> rfl
  simpa [Race.status] using hsome

/-- A request goes on, or gives up, without a write. -/
theorem Inv.quiet {s : Stage} (h : Inv heldId requests r)
    (hflight : s.inFlight = true → (r.stage i).inFlight = true)
    (happlied : s.hasApplied = (r.stage i).hasApplied) (hold : r.stage i ≠ .resolved)
    (hnew : s ≠ .resolved) : Inv heldId requests (r.at_ i s) := by
  have hstage : ∀ j, ((r.at_ i s).stage j).inFlight = true → (r.stage j).inFlight = true := by
    intro j hj
    rw [stage_at] at hj
    split at hj
    · rename_i he
      rw [he]
      exact hflight hj
    · exact hj
  have hresolved : ∀ j, (r.at_ i s).stage j = .resolved ↔ r.stage j = .resolved := by
    intro j
    rw [stage_at]
    split
    · rename_i he
      rw [he]
      exact iff_of_false hnew hold
    · exact Iff.rfl
  refine ⟨fun j k hj hk fj fk => h.one j k hj hk (hstage j fj) (hstage k fk), h.once, ?_, ?_⟩
  · rw [applied_at, h.applied]
    refine forall_congr' fun j => imp_congr_right fun _ => ?_
    rw [stage_at]
    split
    · rename_i he
      rw [he, happlied]
    · exact Iff.rfl
  · simp only [hresolved, ne_eq]
    rcases h.status with hs | hs | ⟨hs, hdone, hnone⟩
    · exact .inl hs
    · exact .inr (.inl hs)
    · refine .inr (.inr ⟨hs, hdone, fun j => ?_⟩)
      exact Bool.eq_false_iff.2 fun hj => Bool.eq_false_iff.1 (hnone j) (hstage j hj)

/-- A request that has not committed gives up. -/
theorem Inv.fail (h : Inv heldId requests r) (hnot : (r.stage i).hasApplied = false) :
    Inv heldId requests (r.at_ i .failed) := by
  refine h.quiet (fun e => (nomatch e)) hnot.symm (fun e => ?_) Stage.noConfusion
  rw [e] at hnot
  exact (nomatch hnot)

/-- A request passes its check. -/
theorem Inv.check {held : HeldWriteRecord} (h : Inv heldId requests r) (hstage : r.stage i = .asked)
    (hpending : r.status heldId = some .pending)
    (halone : Confirms requests i → ∀ j, Confirms requests j → (r.stage j).inFlight = false) :
    Inv heldId requests (r.at_ i (.pending held)) := by
  have happlied : ∀ j, ((r.at_ i (.pending held)).stage j).hasApplied = (r.stage j).hasApplied := by
    intro j
    rw [stage_at]
    split
    · rename_i he
      rw [he, hstage]
      rfl
    · rfl
  refine ⟨fun j k hj hk fj fk => ?_, h.once, ?_, .inl ⟨hpending, fun j => ?_⟩⟩
  · rw [stage_at] at fj fk
    split at fj
    · rename_i he
      subst he
      split at fk
      · rename_i he'
        exact he'.symm
      · exact absurd fk (by simp [halone hj k hk])
    · split at fk
      · rename_i he
        subst he
        exact absurd fj (by simp [halone hk j hj])
      · exact h.one j k hj hk fj fk
  · simp only [happlied, applied_at]
    exact h.applied
  · have hnone : ∀ k, r.stage k ≠ .resolved := by
      rcases h.status with ⟨-, hn⟩ | ⟨hs, -⟩ | ⟨hs, -⟩
      · exact hn
      · rw [hs] at hpending
        exact (nomatch hpending)
      · rw [hs] at hpending
        exact (nomatch hpending)
    rw [stage_at]
    split
    · exact Stage.noConfusion
    · exact hnone j

/-- While a confirmation is on its way, none has been resolved, and none has committed but
this one. -/
theorem Inv.not_applied {held : HeldWriteRecord} (h : Inv heldId requests r)
    (hi : Confirms requests i) (hstage : r.stage i = .found held) : r.applied = 0 := by
  have hflight : (r.stage i).inFlight = true := by rw [hstage]; rfl
  rw [h.applied]
  intro j hj
  cases hs : r.stage j with
  | committed =>
    have he : j = i := h.one j i hj hi (by rw [hs]; rfl) hflight
    rw [he, hstage] at hs
    exact (nomatch hs)
  | resolved =>
    rcases h.status with ⟨-, hn⟩ | ⟨-, hn⟩ | ⟨-, -, hn⟩
    · exact absurd hs (hn j)
    · exact absurd hs (hn j hj)
    · exact absurd hflight (by simp [hn i])
  | _ => rfl

/-- A confirmation commits the ops. -/
theorem Inv.commit {held : HeldWriteRecord} {t : Tables} (h : Inv heldId requests r)
    (hi : Confirms requests i) (hstage : r.stage i = .found held)
    (hsame : t.held.lookup heldId = r.tables.held.lookup heldId) :
    Inv heldId requests { r.at_ i .committed with tables := t, applied := r.applied + 1 } := by
  have hquiet : ∀ j, ((r.at_ i .committed).stage j).inFlight = (r.stage j).inFlight := by
    intro j
    rw [stage_at]
    split
    · rename_i he
      rw [he, hstage]
      rfl
    · rfl
  have hresolved : ∀ j, (r.at_ i .committed).stage j = .resolved ↔ r.stage j = .resolved := by
    intro j
    rw [stage_at]
    split
    · rename_i he
      rw [he, hstage]
      exact iff_of_false Stage.noConfusion Stage.noConfusion
    · exact Iff.rfl
  have hzero := h.not_applied hi hstage
  have hstatus : Race.status heldId
      { r.at_ i .committed with tables := t, applied := r.applied + 1 } = r.status heldId := by
    unfold Race.status
    rw [hsame]
  refine ⟨fun j k hj hk fj fk => ?_, ?_, ?_, ?_⟩
  · simp only [hquiet] at fj fk
    exact h.one j k hj hk fj fk
  · simp [hzero]
  · refine iff_of_false (Nat.succ_ne_zero _) fun hall => ?_
    have hmine := hall i hi
    simp [Stage.hasApplied] at hmine
  · rw [hstatus]
    simp only [hresolved, hquiet, ne_eq]
    exact h.status

/-- A confirmation resolves the write. -/
theorem Inv.confirm {t : Tables} (h : Inv heldId requests r) (hi : Confirms requests i)
    (hstage : r.stage i = .committed)
    (hlast : ∀ j, Rejects requests j → (r.stage j).inFlight = false)
    (hstatus : (t.held.lookup heldId).map (·.status) = some .confirmed) :
    Inv heldId requests { r.at_ i .resolved with tables := t } := by
  have hflight : (r.stage i).inFlight = true := by rw [hstage]; rfl
  have hover : ∀ j, ((r.at_ i .resolved).stage j).inFlight = false := by
    intro j
    rw [stage_at]
    split
    · rfl
    · rename_i hne
      cases hj : requests j with
      | reject now => exact hlast j ⟨now, hj⟩
      | confirm w =>
        exact Bool.eq_false_iff.2 fun fj => hne (h.one j i ⟨w, hj⟩ hi fj hflight)
  have happlied : ∀ j, ((r.at_ i .resolved).stage j).hasApplied = (r.stage j).hasApplied := by
    intro j
    rw [stage_at]
    split
    · rename_i he
      rw [he, hstage]
      rfl
    · rfl
  refine ⟨fun j k _ _ fj _ => ?_, h.once, ?_, .inr (.inr ⟨hstatus, ⟨i, hi, ?_⟩, hover⟩)⟩
  · exact absurd fj (Bool.eq_false_iff.1 (hover j))
  · simp only [happlied]
    exact h.applied
  · simp

/-- A rejection resolves the write. -/
theorem Inv.reject {held : HeldWriteRecord} {t : Tables} (h : Inv heldId requests r)
    (hi : Rejects requests i) (hstage : r.stage i = .pending held)
    (hstatus : (t.held.lookup heldId).map (·.status) = some .rejected) :
    Inv heldId requests { r.at_ i .resolved with tables := t } := by
  have hflight : (r.stage i).inFlight = true := by rw [hstage]; rfl
  have hother : ∀ j, Confirms requests j → (r.at_ i .resolved).stage j = r.stage j := by
    intro j hj
    rw [stage_at, if_neg]
    rintro rfl
    exact not_rejects_of_confirms hj hi
  refine ⟨fun j k hj hk fj fk => ?_, h.once, ?_, .inr (.inl ⟨hstatus, fun j hj => ?_⟩)⟩
  · dsimp only at fj fk
    rw [hother j hj] at fj
    rw [hother k hk] at fk
    exact h.one j k hj hk fj fk
  · show r.applied = 0 ↔ _
    rw [h.applied]
    refine forall_congr' fun j => imp_congr_right fun hj => ?_
    rw [show ({ r.at_ i .resolved with tables := t } : Race).stage j = r.stage j from hother j hj]
  · show (r.at_ i .resolved).stage j ≠ .resolved
    rw [hother j hj]
    rcases h.status with ⟨-, hn⟩ | ⟨-, hn⟩ | ⟨-, -, hn⟩
    · exact hn j
    · exact hn j hj
    · exact absurd hflight (by simp [hn i])

/-! ## Whole schedules -/

/-- **One transaction keeps the invariant**, if its request may come next. -/
theorem Inv.step (fresh : ∀ i w, requests i = .confirm w → ∀ k, w.newId k ≠ heldId)
    (h : Inv heldId requests r) (hapart : Apart heldId requests r i) :
    Inv heldId requests (r.step heldId requests i) := by
  have hpending : ∀ held, SecondMind.pending r.tables heldId = .ok held →
      r.status heldId = some .pending := by
    intro held hok
    obtain ⟨hget, hs⟩ := pending_eq_ok hok
    rw [Race.status, hget, Option.map_some, hs]
  unfold Race.step
  cases hi : requests i with
  | confirm w =>
    have hconfirm : Confirms requests i := ⟨w, hi⟩
    unfold stepConfirm
    cases hstage : r.stage i with
    | asked =>
      cases hok : SecondMind.pending r.tables heldId with
      | error e => exact h.fail (by rw [hstage]; rfl)
      | ok held =>
        have hs := hpending held hok
        exact h.check hstage hs fun _ => hapart.alone hconfirm hstage hs
    | pending held =>
      dsimp only
      split
      · exact h.fail (by rw [hstage]; rfl)
      · exact h.quiet (fun _ => by rw [hstage]; rfl) (by rw [hstage]; rfl)
          (by rw [hstage]; exact Stage.noConfusion) Stage.noConfusion
    | found held =>
      cases hdone : (confirmingWriter w held).commit r.tables with
      | error e =>
        simp only [hdone]
        exact h.fail (by rw [hstage]; rfl)
      | ok x =>
        simp only [hdone]
        exact h.commit hconfirm hstage
          (Writer.held_commit (w := confirmingWriter w held) (fresh i w hi) hdone)
    | committed =>
      exact h.confirm hconfirm hstage (hapart.last hconfirm hstage) (status_resolve h.has_status)
    | resolved => exact h
    | failed => exact h
  | reject now =>
    have hreject : Rejects requests i := ⟨now, hi⟩
    unfold stepReject
    cases hstage : r.stage i with
    | asked =>
      cases hok : SecondMind.pending r.tables heldId with
      | error e => exact h.fail (by rw [hstage]; rfl)
      | ok held =>
        exact h.check hstage (hpending held hok) fun hc => absurd hreject (not_rejects_of_confirms hc)
    | pending held => exact h.reject hreject hstage (status_resolve h.has_status)
    | found held => exact h
    | committed => exact h
    | resolved => exact h
    | failed => exact h

/-- **A schedule keeps the invariant.** -/
theorem run_inv (fresh : ∀ i w, requests i = .confirm w → ∀ k, w.newId k ≠ heldId)
    {schedule : List Nat} (h : Inv heldId requests r) (hapart : AllApart heldId requests r schedule) :
    Inv heldId requests (r.run heldId requests schedule) := by
  induction schedule generalizing r with
  | nil => exact h
  | cons i schedule ih =>
    obtain ⟨hi, hrest⟩ := hapart
    exact ih (h.step fresh hi) hrest

/-- Before any request has begun. -/
theorem inv_start {t : Tables} {held : HeldWriteRecord}
    (hpending : SecondMind.pending t heldId = .ok held) : Inv heldId requests { tables := t } := by
  obtain ⟨hget, hs⟩ := pending_eq_ok hpending
  refine ⟨fun _ _ _ _ fj => (nomatch fj), Nat.zero_le 1, iff_of_true rfl fun _ _ => rfl,
    .inl ⟨?_, fun _ => Stage.noConfusion⟩⟩
  rw [Race.status, hget, Option.map_some, hs]

/-- **A held write is resolved once** by every schedule that keeps its requests apart.  The
ops are never committed twice; and once every request that began is through and one of them
has resolved the write, it is confirmed exactly when its ops were committed, and rejected
exactly when they were not. -/
theorem resolved_once {t : Tables} {held : HeldWriteRecord} {schedule : List Nat}
    (hpending : SecondMind.pending t heldId = .ok held)
    (fresh : ∀ i w, requests i = .confirm w → ∀ k, w.newId k ≠ heldId)
    (hapart : AllApart heldId requests { tables := t } schedule) :
    let r := run heldId requests { tables := t } schedule
    r.applied ≤ 1 ∧
      ((∀ i, r.stage i = .asked ∨ (r.stage i).over = true) → (∃ i, r.stage i = .resolved) →
        (r.status heldId = some .confirmed ↔ r.applied = 1) ∧
          (r.status heldId = some .rejected ↔ r.applied = 0)) := by
  intro r
  have hinv : Inv heldId requests r := run_inv fresh (inv_start hpending) hapart
  refine ⟨hinv.once, fun hover ⟨i, hi⟩ => ?_⟩
  rcases hinv.status with ⟨-, hnone⟩ | ⟨hs, hnone⟩ | ⟨hs, ⟨j, hj, hresolved⟩, -⟩
  · exact absurd hi (hnone i)
  · have hzero : r.applied = 0 := by
      rw [hinv.applied]
      intro j hj
      rcases hover j with hasked | hover
      · rw [hasked]
        rfl
      · cases hstage : r.stage j with
        | resolved => exact absurd hstage (hnone j hj)
        | committed =>
          rw [hstage] at hover
          exact (nomatch hover)
        | _ => rfl
    simp [hs, hzero]
  · have hone : r.applied = 1 := by
      have hne : r.applied ≠ 0 := by
        rw [Ne, hinv.applied]
        intro hall
        have hmine := hall j hj
        rw [hresolved] at hmine
        exact (nomatch hmine)
      have hle := hinv.once
      omega
    simp [hs, hone]

/-- With nothing between its transactions, a confirmation is `confirm_held`. -/
theorem run_alone {w : Writer} (hi : requests i = .confirm w) (t : Tables) :
    let r := run heldId requests { tables := t } [i, i, i, i]
    match confirmHeld w t heldId with
    | .ok x => r.stage i = .resolved ∧ r.tables = x.1
    | .error _ => r.stage i = .failed ∧ r.tables = t := by
  intro r
  have hr : r = run heldId requests { tables := t } [i, i, i, i] := rfl
  simp only [run, List.foldl_cons, List.foldl_nil, step, hi] at hr
  unfold confirmHeld
  cases hpending : SecondMind.pending t heldId with
  | error e =>
    simp [hr, stepConfirm, hpending, bind, Except.bind]
  | ok held =>
    unfold commitHeld
    by_cases hgone : targetsGone t.toMemoryTables held.ops = true
    · simp [hr, stepConfirm, hpending, hgone, bind, Except.bind]
    · cases hdone : (confirmingWriter w held).commit t with
      | error e => simp [hr, stepConfirm, hpending, hgone, hdone, bind, Except.bind]
      | ok x => simp [hr, stepConfirm, hpending, hgone, hdone, bind, Except.bind, pure, Except.pure]

/-! ### Two confirmations of one deletion -/

/-- The deletion of a note, which waits. -/
def heldDeletion : HeldWriteRecord :=
  { id := 9, turnId := 51, ops := [{ body := .deleteItem 1 }], ruleId := "P-BULK-1"
    reason := "deleting needs your confirmation", title := "a note", layer := .archive
    createdAt := 0 }

def deletionWaits : Tables :=
  { oneNote with held := KeyTable.empty.put heldDeletion }

/-- Every request confirms the deletion, in a turn of its own. -/
def confirmations (i : Nat) : Request :=
  .confirm { backend := .sql, turn := { turnId := 60 + i, now := 60 }, newId := fun k => 100 + k }

/-- Two confirmations that take turns both commit the deletion. -/
theorem two_confirmations_commit_twice :
    SecondMind.pending deletionWaits 9 = .ok heldDeletion ∧
      (run 9 confirmations { tables := deletionWaits } [0, 1, 0, 1, 0, 1, 0, 1]).applied = 2 := by
  decide +kernel

/-- One after the other, the first is resolved and the second is refused. -/
theorem confirmations_in_turn :
    let r := run 9 confirmations { tables := deletionWaits } [0, 0, 0, 0, 1]
    r.applied ≤ 1 ∧ ((∀ i, r.stage i = .asked ∨ (r.stage i).over = true) →
      (∃ i, r.stage i = .resolved) → (r.status 9 = some .confirmed ↔ r.applied = 1) ∧
        (r.status 9 = some .rejected ↔ r.applied = 0)) := by
  have hpending : SecondMind.pending deletionWaits 9 = .ok heldDeletion := by decide +kernel
  have hnone : ∀ j, ¬ Rejects confirmations j := by
    rintro j ⟨now, h⟩
    exact (nomatch h)
  refine resolved_once hpending ?_ ?_
  · rintro i w ⟨⟩ k
    show 100 + k ≠ 9
    omega
  · refine ⟨⟨fun _ _ _ _ _ => rfl, fun _ _ j hj => absurd hj (hnone j)⟩,
      ⟨fun _ h => absurd h (by decide +kernel), fun _ _ j hj => absurd hj (hnone j)⟩,
      ⟨fun _ h => absurd h (by decide +kernel), fun _ _ j hj => absurd hj (hnone j)⟩,
      ⟨fun _ h => absurd h (by decide +kernel), fun _ _ j hj => absurd hj (hnone j)⟩,
      ⟨fun _ _ h => absurd h (by decide +kernel), fun _ _ j hj => absurd hj (hnone j)⟩, trivial⟩

end Race
end SecondMind
