import SecondMind.Memory.Effects

/-!
# What a commit does

The loop of `_apply_all` and the transaction around it.

* `Writer.step_cases` — one turn of the loop refuses the op, skips it or applies it;
* `Writer.steps_induct` — what every turn of the loop keeps, the batch keeps;
* `Writer.commit_spec` — a commit makes the row writes that its allowed log rows name, in
  their order, and appends its rows to the log under the numbers that follow the turn's
  last one.
-/

namespace SecondMind

open Keyed

/-! ## Row writes across a turn -/

/-- Nothing of the six tables changed, and no category went away. -/
structure Quiet (t t' : Tables) : Prop where
  memory : t'.toMemoryTables = t.toMemoryTables
  categories : ∀ row ∈ t.categories.rows, row ∈ t'.categories.rows

theorem Quiet.refl (t : Tables) : Quiet t t := ⟨rfl, fun _ h => h⟩

theorem Quiet.trans {t u v : Tables} (h : Quiet t u) (h' : Quiet u v) : Quiet t v :=
  ⟨h'.memory.trans h.memory, fun row hr => h'.categories row (h.categories row hr)⟩

theorem Tables.Aside.quiet {t t' : Tables} (h : t.Aside t') : Quiet t t' :=
  ⟨h.memory, h.categories⟩

theorem RowStep.books {b : Backend} {turn : Uuid} {t t' : Tables} {c : RowChange}
    (h : RowStep b turn t c t') :
    t'.writeLog = t.writeLog ∧ t'.held = t.held ∧ t'.versions = t.versions := by
  cases h with
  | editTrigger stored stamp written =>
    unfold Tables.replaceTrigger at written
    split at written
    · cases written; exact ⟨rfl, rfl, rfl⟩
    · obtain ⟨-, rfl⟩ := Tables.statement_eq_ok.1 written
      exact ⟨rfl, rfl, rfl⟩
  | _ => exact ⟨rfl, rfl, rfl⟩

/-- A turn's row writes, one after the other, with anything quiet between them. -/
inductive Wrote (b : Backend) (turn : Uuid) : Tables → List RowChange → Tables → Prop
  | refl (t : Tables) : Wrote b turn t [] t
  | quiet {t t' t'' : Tables} {cs : List RowChange} (h : Wrote b turn t cs t')
      (q : Quiet t' t'') : Wrote b turn t cs t''
  | row {t t' t'' : Tables} {cs : List RowChange} {c : RowChange} (h : Wrote b turn t cs t')
      (step : RowStep b turn t' c t'') : Wrote b turn t (cs ++ [c]) t''

theorem Wrote.trans {b : Backend} {turn : Uuid} {t t' t'' : Tables} {cs cs' : List RowChange}
    (h : Wrote b turn t cs t') (h' : Wrote b turn t' cs' t'') : Wrote b turn t (cs ++ cs') t'' := by
  induction h' with
  | refl => rw [List.append_nil]; exact h
  | quiet _ q ih => exact ih.quiet q
  | row _ step ih => rw [← List.append_assoc]; exact ih.row step

theorem Wrote.after {b : Backend} {turn : Uuid} {t t' t'' : Tables} {cs : List RowChange}
    (q : Quiet t t') (h : Wrote b turn t' cs t'') : Wrote b turn t cs t'' :=
  ((Wrote.refl t).quiet q).trans h

/-- The row writes among log rows: those of the allowed ones. -/
def allowedChanges (rows : List WriteLogRecord) : List RowChange :=
  (rows.filter (·.decision = .allowed)).map (·.change)

@[simp] theorem allowedChanges_nil : allowedChanges [] = [] := rfl

theorem allowedChanges_append (rows rows' : List WriteLogRecord) :
    allowedChanges (rows ++ rows') = allowedChanges rows ++ allowedChanges rows' := by
  simp [allowedChanges]

theorem allowedChanges_of_allowed {rows : List WriteLogRecord}
    (h : ∀ row ∈ rows, row.decision = .allowed) : allowedChanges rows = rows.map (·.change) := by
  rw [allowedChanges, List.filter_eq_self.2 fun row hr => decide_eq_true (h row hr)]

theorem allowedChanges_of_refused {rows : List WriteLogRecord}
    (h : ∀ row ∈ rows, row.decision ≠ .allowed) : allowedChanges rows = [] := by
  rw [allowedChanges, List.filter_eq_nil_iff.2 fun row hr => by simpa using h row hr]
  rfl

namespace Writer

variable {w : Writer}

/-! ## The log of one op -/

/-- The rows of one op are numbered from `seq + 1` on and belong to the turn. -/
structure RowLog.Sound (w : Writer) (log : RowLog) : Prop where
  numbered : log.rows.map (·.seq) = List.range' (log.seqBase + log.seq + 1) log.rows.length
  own : ∀ row ∈ log.rows, row.turnId = w.turn.turnId ∧ row.decision = .allowed

theorem RowLog.Sound.add {log : RowLog} (h : log.Sound w) (a : TargetType) (id : Uuid)
    (before after : Option a.Record) (layer : Layer) (label : Option WriteOp) :
    (w.add log a id before after layer label).Sound w := by
  constructor
  · simp only [Writer.add, List.map_append, h.numbered, List.map_cons, List.map_nil,
      List.length_append, List.length_cons, List.length_nil, Nat.zero_add,
      List.range'_concat, Nat.one_mul]
    congr 2
    simp only [logRow]
    omega
  · intro row hrow
    rcases List.mem_append.1 hrow with hr | hr
    · exact h.own row hr
    · rw [List.mem_singleton.1 hr]
      exact ⟨rfl, rfl⟩

theorem Does.sound {t t' : Tables} {log log' : RowLog} (h : Does w (t, log) (t', log'))
    (hs : log.Sound w) : log'.Sound w ∧ log'.seqBase = log.seqBase ∧ log'.seq = log.seq := by
  generalize hx : (t', log') = x at h
  induction h generalizing t' log' with
  | refl => cases hx; exact ⟨hs, rfl, rfl⟩
  | aside _ _ ih => cases hx; exact ih rfl
  | row _ _ layer label ih =>
    cases hx
    obtain ⟨ih, hb, hseq⟩ := ih rfl
    exact ⟨ih.add _ _ _ _ _ _, hb, hseq⟩

/-- The row writes of an op are the rows it logs. -/
theorem Does.wrote {t t' : Tables} {log log' : RowLog} (h : Does w (t, log) (t', log')) :
    ∃ cs, log'.rows.map (·.change) = log.rows.map (·.change) ++ cs ∧
      Wrote w.backend w.turn.turnId t cs t' := by
  generalize hx : (t', log') = x at h
  induction h generalizing t' log' with
  | refl => cases hx; exact ⟨[], by simp, .refl t⟩
  | aside _ same ih =>
    cases hx
    obtain ⟨cs, hcs, hw⟩ := ih rfl
    exact ⟨cs, hcs, hw.quiet same.quiet⟩
  | @row _ _ _ c _ step layer label ih =>
    cases hx
    obtain ⟨cs, hcs, hw⟩ := ih rfl
    refine ⟨cs ++ [c], ?_, hw.row step⟩
    rw [Writer.add, List.map_append, hcs, List.append_assoc]
    rfl

/-! ## The verdict -/

/-- There is room in core for the candidate of the op. -/
def Room (w : Writer) (t : Tables) (op : Op) : Prop :=
  ∃ c, w.budgetCandidate t op = .ok c ∧
    ∀ candidate, c = some candidate → budgetTokens t candidate ≤ w.settings.coreTokenBudget

theorem coreBudget_allowed_iff {t : Tables} {op : Op} {v : PolicyVerdict}
    (hv : v.decision = .allowed) :
    (∃ v', w.coreBudget t op v = .ok v' ∧ v'.decision = .allowed) ↔ w.Room t op := by
  unfold coreBudget
  simp only [bind_eq_ok]
  constructor
  · rintro ⟨v', ⟨c, hc, h⟩, hv'⟩
    refine ⟨c, hc, fun candidate e => ?_⟩
    subst e
    dsimp only at h
    split at h
    · cases h
      exact (nomatch hv')
    · rename_i hle
      exact Nat.not_lt.1 hle
  · rintro ⟨c, hc, hroom⟩
    refine ⟨v, ⟨c, hc, ?_⟩, hv⟩
    cases c with
    | none => rfl
    | some candidate =>
      dsimp only
      rw [if_neg (Nat.not_lt.2 (hroom candidate rfl))]
      rfl

/-- **An allowed op**: no rule speaks up, and if it writes to core there is room. -/
theorem verdict_allowed_iff {t : Tables} {op : Op} :
    (∃ v, w.verdict t op = .ok v ∧ v.decision = .allowed) ↔
      (Policy.evaluate (facts t op (createdItems w.ops)) w.context).decision = .allowed ∧
        ((facts t op (createdItems w.ops)).coreWrite = true → w.Room t op) := by
  unfold verdict
  dsimp only
  split
  · rename_i hc
    rw [coreBudget_allowed_iff hc.1, and_iff_right hc.1]
    exact ⟨fun h _ => h, fun h => h hc.2⟩
  · rename_i hc
    constructor
    · rintro ⟨v, hv, hd⟩
      cases hv
      exact ⟨hd, fun hcore => absurd ⟨hd, hcore⟩ hc⟩
    · rintro ⟨hd, -⟩
      exact ⟨_, rfl, hd⟩

theorem verdict_allowed {t : Tables} {op : Op} {v : PolicyVerdict}
    (h : w.verdict t op = .ok v) (hv : v.decision = .allowed) :
    (Policy.evaluate (facts t op (createdItems w.ops)) w.context).decision = .allowed ∧
      ((facts t op (createdItems w.ops)).coreWrite = true → w.Room t op) :=
  verdict_allowed_iff.1 ⟨v, h, hv⟩

/-! ## The loop -/

/-- The rows logged so far. -/
def Progress.rows (p : Progress) : List WriteLogRecord := p.outcomes.flatMap (·.rows)

/-- **One turn of the loop** refuses the op, skips it or applies it. -/
theorem step_cases {sb i : Nat} {p p' : Progress} {op : Op} (h : w.step sb i p op = .ok p') :
    (∃ v, w.verdict p.tables op = .ok v ∧ v.decision ≠ .allowed ∧ p' = w.refuse sb i p op v) ∨
    (∃ v t reason, w.verdict p.tables op = .ok v ∧ v.decision = .allowed ∧
      w.apply p.tables i { seqBase := sb, op := op, seq := p.seq } op.body
        = .error (.skip t reason) ∧
      p' = { p with tables := t
                    outcomes := p.outcomes ++ [⟨op, notApplicable reason, [], none⟩] }) ∨
    (∃ v t log, w.verdict p.tables op = .ok v ∧ v.decision = .allowed ∧
      w.apply p.tables i { seqBase := sb, op := op, seq := p.seq } op.body = .ok (t, log) ∧
      p' = { p with tables := t, seq := p.seq + log.rows.length
                    outcomes := p.outcomes ++ [⟨op, v, log.rows, none⟩] }) := by
  obtain ⟨v, hv, h⟩ := bind_eq_ok.1 h
  split at h
  · rename_i hd
    cases h
    exact .inl ⟨v, hv, hd, rfl⟩
  · rename_i hd
    replace hd := Decidable.not_not.1 hd
    split at h
    · exact (nomatch h)
    · rename_i t reason ha
      cases h
      exact .inr (.inl ⟨v, t, reason, hv, hd, ha, rfl⟩)
    · rename_i t log ha
      cases h
      exact .inr (.inr ⟨v, t, log, hv, hd, ha, rfl⟩)

/-- An op that is allowed and applies. -/
theorem step_of_apply {sb i : Nat} {p : Progress} {op : Op} {v : PolicyVerdict} {t : Tables}
    {log : RowLog} (hv : w.verdict p.tables op = .ok v) (hd : v.decision = .allowed)
    (ha : w.apply p.tables i { seqBase := sb, op := op, seq := p.seq } op.body = .ok (t, log)) :
    w.step sb i p op = .ok { p with tables := t, seq := p.seq + log.rows.length
                                    outcomes := p.outcomes ++ [⟨op, v, log.rows, none⟩] } := by
  refine bind_eq_ok.2 ⟨v, hv, ?_⟩
  rw [if_neg (Decidable.not_not.2 hd), ha]
  rfl

/-- A batch in two parts. -/
theorem steps_append {sb : Nat} {ops ops' : List Op} {i : Nat} {p p' : Progress} :
    w.steps sb i p (ops ++ ops') = .ok p' ↔
      ∃ q, w.steps sb i p ops = .ok q ∧ w.steps sb (i + ops.length) q ops' = .ok p' := by
  induction ops generalizing i p with
  | nil =>
    constructor
    · intro h
      exact ⟨p, rfl, h⟩
    · rintro ⟨q, hq, h⟩
      cases hq
      exact h
  | cons op ops ih =>
    simp only [List.cons_append, steps, bind_eq_ok, ih, List.length_cons]
    constructor
    · rintro ⟨p₁, h₁, q, hq, h⟩
      exact ⟨q, ⟨p₁, h₁, hq⟩, by rwa [Nat.add_assoc, Nat.add_comm 1] at h⟩
    · rintro ⟨q, ⟨p₁, h₁, hq⟩, h⟩
      exact ⟨p₁, h₁, q, hq, by rwa [Nat.add_assoc, Nat.add_comm 1]⟩

/-- What every turn of the loop keeps, the batch keeps. -/
theorem steps_induct {P : Progress → Prop} {sb : Nat} {ops : List Op}
    (hstep : ∀ i p op p', op ∈ ops → P p → w.step sb i p op = .ok p' → P p') :
    ∀ {i : Nat} {p p' : Progress}, P p → w.steps sb i p ops = .ok p' → P p' := by
  induction ops with
  | nil =>
    intro i p p' hp h
    cases h
    exact hp
  | cons op ops ih =>
    intro i p p' hp h
    obtain ⟨p₁, h₁, h⟩ := bind_eq_ok.1 h
    exact ih (fun i p op' p' hop => hstep i p op' p' (List.mem_cons_of_mem _ hop))
      (hstep i p op p₁ List.mem_cons_self hp h₁) h

/-- The op is applied: it is allowed, and its applier comes to a result. -/
def Applies (w : Writer) (sb i : Nat) (p : Progress) (op : Op) : Prop :=
  (∃ v, w.verdict p.tables op = .ok v ∧ v.decision = .allowed) ∧
    ∃ x, w.apply p.tables i { seqBase := sb, op := op, seq := p.seq } op.body = .ok x

/-- `P` holds of every op the batch applies, on the tables the op meets. -/
def EveryApplied (w : Writer) (sb : Nat) (P : Tables → Op → Prop) :
    Nat → Progress → List Op → Prop
  | _, _, [] => True
  | i, p, op :: ops =>
    (w.Applies sb i p op → P p.tables op) ∧
      ∀ p', w.step sb i p op = .ok p' → EveryApplied w sb P (i + 1) p' ops

/-- What a turn of the loop keeps when its op, if it is applied, meets `P`, a batch keeps
whose applied ops all meet `P`. -/
theorem steps_keep {P : Tables → Op → Prop} {Q : Progress → Prop} {sb : Nat}
    (hstep : ∀ i p op p', (w.Applies sb i p op → P p.tables op) → Q p →
      w.step sb i p op = .ok p' → Q p') {ops : List Op} {i : Nat} {p p' : Progress}
    (hall : w.EveryApplied sb P i p ops) (hp : Q p) (h : w.steps sb i p ops = .ok p') : Q p' := by
  induction ops generalizing i p with
  | nil =>
    cases h
    exact hp
  | cons op ops ih =>
    obtain ⟨p₁, h₁, h⟩ := bind_eq_ok.1 h
    obtain ⟨hop, hrest⟩ := hall
    exact ih (hrest p₁ h₁) (hstep i p op p₁ hop hp h₁) h

/-- How a batch begun on `t` with the numbers after `sb` stands: its tables are what the
row writes of its allowed rows made, its rows are the turn's and are numbered one by one,
and the log itself has not been written yet. -/
structure Progress.Follows (w : Writer) (sb : Nat) (t : Tables) (p : Progress) : Prop where
  wrote : Wrote w.backend w.turn.turnId t (allowedChanges p.rows) p.tables
  numbered : p.rows.map (·.seq) = List.range' (sb + 1) p.rows.length
  counted : p.seq = p.rows.length
  own : ∀ row ∈ p.rows, row.turnId = w.turn.turnId
  writeLog : p.tables.writeLog = t.writeLog
  held : p.tables.held = t.held
  versions : p.tables.versions = t.versions

theorem Does.books {t t' : Tables} {log log' : RowLog} (h : Does w (t, log) (t', log')) :
    t'.writeLog = t.writeLog ∧ t'.held = t.held ∧ t'.versions = t.versions := by
  generalize hx : (t', log') = x at h
  induction h generalizing t' log' with
  | refl => cases hx; exact ⟨rfl, rfl, rfl⟩
  | aside _ same ih =>
    cases hx
    obtain ⟨h₁, h₂, h₃⟩ := ih rfl
    exact ⟨same.writeLog.trans h₁, same.held.trans h₂, same.versions.trans h₃⟩
  | row _ step _ _ ih =>
    cases hx
    obtain ⟨h₁, h₂, h₃⟩ := ih rfl
    obtain ⟨g₁, g₂, g₃⟩ := step.books
    exact ⟨g₁.trans h₁, g₂.trans h₂, g₃.trans h₃⟩

theorem rows_append (p : Progress) (o : OpOutcome) (t : Tables) (n : Nat) (hs : List HeldWriteRecord) :
    Progress.rows { tables := t, seq := n, outcomes := p.outcomes ++ [o], held := hs }
      = p.rows ++ o.rows := by
  simp [Progress.rows]

theorem numbered_append {rows rows' : List WriteLogRecord} {sb : Nat}
    (h : rows.map (·.seq) = List.range' (sb + 1) rows.length)
    (h' : rows'.map (·.seq) = List.range' (sb + rows.length + 1) rows'.length) :
    (rows ++ rows').map (·.seq) = List.range' (sb + 1) (rows ++ rows').length := by
  rw [List.map_append, h, h', List.length_append, ← List.range'_append_1]
  congr 2
  omega

/-- A refused op leaves one row, which says so, and the tables as they are. -/
theorem refuse_eq (sb i : Nat) (p : Progress) (op : Op) {v : PolicyVerdict}
    (hv : v.decision ≠ .allowed) :
    ∃ (row : WriteLogRecord) (heldId : Option Uuid) (held : List HeldWriteRecord),
      row.turnId = w.turn.turnId ∧ row.decision ≠ .allowed ∧ row.seq = sb + (p.seq + 1) ∧
      w.refuse sb i p op v =
        ⟨p.tables, p.seq + 1, p.outcomes ++ [⟨op, v, [row], heldId⟩], held⟩ := by
  unfold refuse
  dsimp only
  split
  · exact ⟨_, _, _, rfl, hv, rfl, rfl⟩
  · exact ⟨_, _, _, rfl, hv, rfl, rfl⟩

theorem refuse_tables (sb i : Nat) (p : Progress) (op : Op) (v : PolicyVerdict) :
    (w.refuse sb i p op v).tables = p.tables := by
  unfold refuse
  dsimp only
  split <;> rfl

theorem allowedChanges_refuse (sb i : Nat) (p : Progress) (op : Op) {v : PolicyVerdict}
    (hv : v.decision ≠ .allowed) :
    allowedChanges (w.refuse sb i p op v).rows = allowedChanges p.rows := by
  obtain ⟨row, heldId, held, -, hdec, -, hr⟩ := w.refuse_eq sb i p op hv
  have hnone : allowedChanges [row] = [] := allowedChanges_of_refused (by simpa using hdec)
  rw [hr, rows_append, allowedChanges_append, hnone, List.append_nil]

theorem Progress.Follows.refuse {sb i : Nat} {t : Tables} {p : Progress} {op : Op}
    {v : PolicyVerdict} (h : p.Follows w sb t) (hv : v.decision ≠ .allowed) :
    (w.refuse sb i p op v).Follows w sb t := by
  have hallowed := w.allowedChanges_refuse sb i p op hv
  obtain ⟨row, heldId, held, hturn, -, hseq, hr⟩ := w.refuse_eq sb i p op hv
  refine ⟨?_, ?_, ?_, ?_, ?_, ?_, ?_⟩
  · rw [hallowed, refuse_tables]
    exact h.wrote
  · rw [hr, rows_append]
    refine numbered_append h.numbered ?_
    simp [hseq, h.counted, Nat.add_assoc]
  · rw [hr, rows_append]
    simp [h.counted]
  · intro r hr'
    rw [hr, rows_append] at hr'
    rcases List.mem_append.1 hr' with hr' | hr'
    · exact h.own r hr'
    · rw [List.mem_singleton.1 hr']; exact hturn
  · rw [refuse_tables]; exact h.writeLog
  · rw [refuse_tables]; exact h.held
  · rw [refuse_tables]; exact h.versions

/-- **The loop keeps its books.** -/
theorem Progress.Follows.step {sb i : Nat} {t : Tables} {p p' : Progress} {op : Op}
    (h : p.Follows w sb t) (hstep : w.step sb i p op = .ok p') : p'.Follows w sb t := by
  rcases step_cases hstep with ⟨v, -, hv, rfl⟩ | ⟨v, t₁, reason, -, -, ha, rfl⟩ |
    ⟨v, t₁, log, -, -, ha, rfl⟩
  · exact h.refuse hv
  · have same := apply_skip ha
    refine ⟨?_, ?_, ?_, ?_, same.writeLog.trans h.writeLog, same.held.trans h.held,
      same.versions.trans h.versions⟩ <;> rw [rows_append, List.append_nil]
    · exact h.wrote.quiet same.quiet
    · exact h.numbered
    · exact h.counted
    · exact h.own
  · have hdoes := apply_does ha
    obtain ⟨hw₁, hw₂, hw₃⟩ := hdoes.books
    obtain ⟨cs, hcs, hw⟩ := hdoes.wrote
    obtain ⟨hsound, hsb, hseq⟩ := hdoes.sound ⟨rfl, by simp⟩
    rw [List.map_nil, List.nil_append] at hcs
    refine ⟨?_, ?_, ?_, ?_, hw₁.trans h.writeLog, hw₂.trans h.held, hw₃.trans h.versions⟩
    · rw [rows_append, allowedChanges_append,
        allowedChanges_of_allowed fun r hr => (hsound.own r hr).2, hcs]
      exact h.wrote.trans hw
    · rw [rows_append]
      refine numbered_append h.numbered ?_
      rw [hsound.numbered, hsb, hseq]
      simp [h.counted]
    · rw [rows_append]
      simp [h.counted]
    · intro r hr
      rw [rows_append] at hr
      rcases List.mem_append.1 hr with hr | hr
      · exact h.own r hr
      · exact (hsound.own r hr).1

/-- A batch held whole has logged one row for each op and written nothing. -/
theorem holdEverything_rows (sb : Nat) (t : Tables) :
    (w.holdEverything sb t).rows = w.ops.zipIdx.map fun e =>
      w.logRow sb e.1 (e.2 + 1) ⟨.held, "P-BULK-1", Policy.bulkReason w.context⟩ (target e.1).1
        (target e.1).2 .archive none none none := by
  rw [Progress.rows, holdEverything, List.flatMap_map]
  exact List.map_eq_flatMap.symm

theorem allowedChanges_holdEverything (sb : Nat) (t : Tables) :
    allowedChanges (w.holdEverything sb t).rows = [] := by
  refine allowedChanges_of_refused fun row hr => ?_
  rw [holdEverything_rows] at hr
  obtain ⟨e, -, rfl⟩ := List.mem_map.1 hr
  exact PolicyDecision.noConfusion

theorem holdEverything_follows (sb : Nat) (t : Tables) :
    (w.holdEverything sb t).Follows w sb t := by
  refine ⟨(w.allowedChanges_holdEverything sb t) ▸ .refl t, ?_, ?_, fun row hr => ?_, rfl, rfl, rfl⟩
  · rw [holdEverything_rows, List.map_map, List.length_map, List.length_zipIdx]
    refine List.ext_getElem (by simp) fun i h₁ h₂ => ?_
    simp [logRow]
    omega
  · rw [holdEverything_rows, List.length_map, List.length_zipIdx]
    rfl
  · rw [holdEverything_rows] at hr
    obtain ⟨e, -, rfl⟩ := List.mem_map.1 hr
    rfl

theorem applyAll_follows {sb : Nat} {t : Tables} {p : Progress} (h : w.applyAll sb t = .ok p) :
    p.Follows w sb t := by
  unfold applyAll at h
  split at h
  · cases h
    exact w.holdEverything_follows sb t
  · refine steps_induct (fun i p op p' _ hp hs => Progress.Follows.step hp hs) ?_ h
    exact ⟨.refl t, rfl, rfl, by simp [Progress.rows], rfl, rfl, rfl⟩

/-! ## The transaction -/

/-- Only the version table changes. -/
theorem writeVersions_eq (t : Tables) (rows : List WriteLogRecord) :
    ∃ vs, w.writeVersions t rows = { t with versions := vs } := by
  induction rows generalizing t with
  | nil => exact ⟨_, rfl⟩
  | cons row rows ih =>
    rw [writeVersions, List.foldl_cons]
    split
    · exact ih _
    · exact ih t

/-- Only the table of held writes changes. -/
theorem foldlM_insertHeldWrite {b : Backend} {held : List HeldWriteRecord} {t t' : Tables}
    (h : held.foldlM (fun t held => t.insertHeldWrite b held) t = .ok t') :
    t' = { t with held := held.foldl KeyTable.put t.held } := by
  induction held generalizing t with
  | nil => cases h; rfl
  | cons r held ih =>
    rw [List.foldlM_cons] at h
    obtain ⟨t₁, h₁, h⟩ := bind_eq_ok.1 h
    obtain ⟨-, rfl⟩ := Tables.statement_eq_ok.1 h₁
    exact ih h

/-- Only the vocabulary changes. -/
theorem writeVocab_eq (t : Tables) : ∃ v, w.writeVocab t = { t with vocab := v } := by
  unfold writeVocab
  generalize w.vocab.zipIdx = terms
  induction terms generalizing t with
  | nil => exact ⟨_, rfl⟩
  | cons term terms ih =>
    rw [List.foldl_cons, Tables.upsertVocab]
    split
    · exact ih t
    · exact ih _

@[simp] theorem writeVocab_memory (t : Tables) :
    (w.writeVocab t).toMemoryTables = t.toMemoryTables := by
  obtain ⟨v, hv⟩ := w.writeVocab_eq t
  rw [hv]

theorem writeVocab_quiet (t : Tables) : Quiet t (w.writeVocab t) := by
  obtain ⟨v, hv⟩ := w.writeVocab_eq t
  rw [hv]
  exact ⟨rfl, fun _ h => h⟩

theorem writeVocab_writeLog (t : Tables) : (w.writeVocab t).writeLog = t.writeLog := by
  obtain ⟨v, hv⟩ := w.writeVocab_eq t
  rw [hv]

theorem writeVocab_held (t : Tables) : (w.writeVocab t).held = t.held := by
  obtain ⟨v, hv⟩ := w.writeVocab_eq t
  rw [hv]

/-- **The parts of a commit**: the batch, and then its log rows and held writes. -/
structure CommitParts (w : Writer) (t t' : Tables) (res : CommitResult) (p : Progress) : Prop where
  batch : w.applyAll (w.seqBase t) (w.writeVocab t) = .ok p
  memory : t'.toMemoryTables = p.tables.toMemoryTables
  categories : t'.categories = p.tables.categories
  writeLog : t'.writeLog = p.tables.writeLog ++ p.rows
  held : t'.held = p.held.foldl KeyTable.put p.tables.held
  result : res = { outcomes := p.outcomes, notes := w.notes, held := p.held }

theorem commit_parts {t t' : Tables} {res : CommitResult} (h : w.commit t = .ok (t', res)) :
    ∃ p, CommitParts w t t' res p := by
  obtain ⟨p, hp, h⟩ := bind_eq_ok.1 h
  obtain ⟨t₁, ht₁, h⟩ := bind_eq_ok.1 h
  obtain ⟨vs, hvs⟩ := w.writeVersions_eq t₁ (p.outcomes.flatMap (·.rows))
  cases h
  rw [hvs, foldlM_insertHeldWrite ht₁]
  exact ⟨p, hp, rfl, rfl, rfl, rfl, rfl⟩

theorem CommitParts.rows {t t' : Tables} {res : CommitResult} {p : Progress}
    (h : CommitParts w t t' res p) : res.rows = p.rows := by
  rw [h.result]
  rfl

/-- What a commit by `w` has done. -/
structure Committed (w : Writer) (t t' : Tables) (res : CommitResult) : Prop where
  wrote : Wrote w.backend w.turn.turnId t (allowedChanges res.rows) t'
  numbered : res.rows.map (·.seq) = List.range' (w.seqBase t + 1) res.rows.length
  own : ∀ row ∈ res.rows, row.turnId = w.turn.turnId
  writeLog : t'.writeLog = t.writeLog ++ res.rows

/-- **A commit does what it logs.** -/
theorem commit_spec {t t' : Tables} {res : CommitResult} (h : w.commit t = .ok (t', res)) :
    Committed w t t' res := by
  obtain ⟨p, hp⟩ := commit_parts h
  have hf := applyAll_follows hp.batch
  constructor
  · rw [hp.rows]
    refine Wrote.after (writeVocab_quiet t) (hf.wrote.quiet ⟨hp.memory, ?_⟩)
    rw [hp.categories]
    exact fun _ hr => hr
  · rw [hp.rows]
    exact hf.numbered
  · rw [hp.rows]
    exact hf.own
  · rw [hp.rows, hp.writeLog, hf.writeLog, writeVocab_writeLog]

end Writer
end SecondMind
