import SecondMind.Ingestion.RecurringDates
import SecondMind.Ingestion.Reminders

/-!
# A reminder put off, and a new one

When a reminder fires that is put off to a time, by `snooze` of `corrections/service.py`, and when
one that a message sets for the same time does, by `_resolve_times` and `_triggers` of
`ingestion/pipeline.py`.

* `resolveTimes` — the times of a memory;
* `explicitFires` — when a reminder with a time of its own fires;
* `timeTriggers_explicit` — and that is the trigger of the save;
* `snooze_agrees_iff` — when both let it fire at the same moment;
* `tomorrow_at_midnight` — a reminder put off to a day.
-/

namespace SecondMind

namespace Time

/-! ## The times of a memory -/

/-- The direction in which the time of a memory is looked for. -/
def directionOf (t : TimeExpression) (kind : Kind) : Direction :=
  match t.direction with
  | some .past => .past
  | some .future => .future
  | none => if t.clock = .occurred ∧ kind = .episode then .past else .auto

/-- `resolved[t.id] = r`. -/
def putTime (resolved : List (String × Resolved)) (id : String) (r : Resolved) :
    List (String × Resolved) :=
  if resolved.any (·.1 = id) then resolved.map fun e => if e.1 = id then (id, r) else e
  else resolved ++ [(id, r)]

/-- `_resolve_times`, after what is resolved already: a time that is not understood is left out. -/
def resolveTimes (lib : TimeLib) (now : TurnNow) (kind : Kind)
    (resolved : List (String × Resolved)) :
    List TimeExpression → Attempt (List (String × Resolved))
  | [] => .ok resolved
  | t :: times =>
    match resolve lib t.expression t.clock now (directionOf t kind) t.recurring with
    | .ok r => resolveTimes lib now kind (putTime resolved t.id r) times
    | .error (.unresolvable _) => resolveTimes lib now kind resolved times
    | .error e => .error e

/-- `_triggers`, for a memory with a time on the clock of its reminder: when it fires. -/
def explicitFires (now : TurnNow) (resolved : List (String × Resolved)) :
    Attempt (Option Instant) :=
  match resolved.find? (·.2.clock = .trigger) with
  | none => .ok none
  | some (_, r) =>
    if r.precision = .datetime then .ok (some r.start)
    else (reminderTime now r.start r.precision 0).map some

/-- The reminder of a memory whose only time is the one it is asked for. -/
def newReminder (lib : TimeLib) (now : TurnNow) (kind : Kind) (id expression : String) :
    Attempt (Option Instant) := do
  explicitFires now (← resolveTimes lib now kind []
    [{ id := id, expression := expression, clock := .trigger, direction := none
       recurring := false }])

section

variable {lib : TimeLib} {now : TurnNow} {r : Resolved} {expression : String}

/-- A time on the clock of what happened and on that of a reminder is looked for in the same
direction. -/
theorem resolve_trigger (h : resolve lib expression .occurred now = .ok r) :
    resolve lib expression .trigger now = .ok { r with clock := .trigger } := by
  obtain ⟨result, hresult, hr⟩ := (@resolve_eq_ok lib expression .occurred now .auto false r).1 h
  have hsame (bound : Option Bound) :
      defaultDirection .trigger bound = defaultDirection .occurred bound := by
    simp [defaultDirection]
  refine (@resolve_eq_ok lib expression .trigger now .auto false _).2 ⟨result, ?_, ?_⟩
  · rw [hsame]
    exact hresult
  · rw [hr]

/-- **A new reminder** fires at the time itself if that has an hour, and at nine o'clock on its day
if it has none. -/
theorem newReminder_eq (h : resolve lib expression .occurred now = .ok r) (kind : Kind)
    (id : String) : newReminder lib now kind id expression =
      if r.precision = .datetime then .ok (some r.start)
      else (reminderTime now r.start r.precision 0).map some := by
  have htimes : resolveTimes lib now kind [] [{ id := id, expression := expression
                                                clock := .trigger, direction := none
                                                recurring := false }] =
      .ok [(id, { r with clock := .trigger })] := by
    simp [resolveTimes, directionOf, putTime, resolve_trigger h]
  unfold newReminder
  rw [htimes]
  show explicitFires now [(id, { r with clock := .trigger })] = _
  simp only [explicitFires, List.find?_cons, decide_true]

theorem newReminder_iff (h : resolve lib expression .occurred now = .ok r) (kind : Kind)
    (id : String) : newReminder lib now kind id expression = .ok (some r.start) ↔
      r.precision = .datetime ∨ reminderTime now r.start r.precision 0 = .ok r.start := by
  rw [newReminder_eq h]
  split
  · rename_i hprecise
    simp [hprecise]
  · rename_i hprecise
    cases reminderTime now r.start r.precision 0 <;> simp [hprecise, Except.map]

theorem newReminder_ne_none (h : resolve lib expression .occurred now = .ok r) (kind : Kind)
    (id : String) : newReminder lib now kind id expression ≠ .ok none := by
  rw [newReminder_eq h]
  split
  · simp
  · cases reminderTime now r.start r.precision 0 <;> simp [Except.map]

/-- What `_triggers` makes of it. -/
theorem timeTriggers_explicit {plan : PlanLib} {ctx : IngestContext} {n : Nat}
    {m : ProposedMemory} {f : TimeFields} {resolved : List (String × Resolved)} {x : Instant}
    (hplan : plan.reminderTime = fireTime now.zone)
    (h : explicitFires now resolved = .ok (some x)) :
    ∃ spec, timeTriggers plan ctx n m f resolved =
      [⟨plan.newId (.timeTrigger n), { on := .time, spec := spec, firesAt := some x }⟩] := by
  unfold explicitFires at h
  unfold timeTriggers
  cases hfound : resolved.find? (·.2.clock = .trigger) with
  | none =>
    rw [hfound] at h
    cases h
  | some e =>
    rw [hfound] at h
    obtain ⟨id, r⟩ := e
    dsimp only at h ⊢
    split at h
    · rename_i hprecise
      cases h
      rw [if_pos hprecise]
      exact ⟨_, rfl⟩
    · rename_i hprecise
      cases hfires : reminderTime now r.start r.precision 0 with
      | error e =>
        rw [hfires] at h
        cases h
      | ok fires =>
        rw [hfires] at h
        cases h
        rw [if_neg hprecise, hplan, ← reminderTime_eq_ok hfires]
        exact ⟨_, rfl⟩

end

end Time

/-! ## Put off to a time -/

namespace Corrections

variable {ctx : CorrectContext} {row : TriggerRecord} {item : Option ItemRecord}
  {expression : String} {r : Resolved}

/-- The reminder that is put off and the new one fire at the same moment, or both are refused. -/
def Agree (row : TriggerRecord) (snoozed : Time.Attempt (Except Failure Op))
    (saved : Time.Attempt (Option Instant)) : Prop :=
  (∃ op x, snoozed = .ok (.ok op) ∧ saved = .ok (some x) ∧
    op.body = .updateTrigger row.id { firesAt := some (some x) }) ∨
  ∃ failure, snoozed = .ok (.error failure) ∧ saved = .ok none

variable (item) in
/-- What a snooze of a pending reminder comes to. -/
theorem snooze_eq (hpending : row.state = .pending)
    (h : Time.resolve ctx.lib expression .occurred ctx.now = .ok r) :
    (r.start ≤ ctx.now.instant → ∃ failure,
      snooze ctx (some row) item expression = .ok (.error failure)) ∧
    (ctx.now.instant < r.start → ∃ op, snooze ctx (some row) item expression = .ok (.ok op) ∧
      op.body = .updateTrigger row.id { firesAt := some (some r.start) }) := by
  unfold snooze
  dsimp only
  rw [if_neg (not_not.2 hpending), h]
  dsimp only
  constructor
  · intro hpassed
    rw [if_pos hpassed]
    exact ⟨_, rfl⟩
  · intro hahead
    rw [if_neg (not_le.2 hahead)]
    exact ⟨_, rfl, rfl⟩

/-- **A reminder that is put off agrees with a new one** just when the time lies ahead and has an
hour, or is nine o'clock of its day by itself. -/
theorem snooze_agrees_iff (hpending : row.state = .pending)
    (h : Time.resolve ctx.lib expression .occurred ctx.now = .ok r) (kind : Kind) (id : String) :
    Agree row (snooze ctx (some row) item expression)
        (Time.newReminder ctx.lib ctx.now kind id expression) ↔
      ctx.now.instant < r.start ∧ (r.precision = .datetime ∨
        Time.reminderTime ctx.now r.start r.precision 0 = .ok r.start) := by
  obtain ⟨hpassed, hahead⟩ := snooze_eq item hpending h
  have hsaved := Time.newReminder_eq h kind id
  rcases lt_or_ge ctx.now.instant r.start with hlt | hle
  · obtain ⟨op, hsnooze, hbody⟩ := hahead hlt
    rw [and_iff_right hlt, hsnooze]
    constructor
    · rintro (⟨op', x, hop, hsave, hbody'⟩ | ⟨failure, hfailure, -⟩)
      · obtain rfl := Except.ok.inj (Except.ok.inj hop)
        rw [hbody] at hbody'
        obtain rfl : r.start = x := by simpa using hbody'
        exact (Time.newReminder_iff h kind id).1 hsave
      · exact nomatch Except.ok.inj hfailure
    · intro hhour
      exact .inl ⟨op, r.start, rfl, (Time.newReminder_iff h kind id).2 hhour, hbody⟩
  · obtain ⟨failure, hsnooze⟩ := hpassed hle
    rw [hsnooze]
    refine iff_of_false ?_ fun hahead => absurd hahead.1 (not_lt.2 hle)
    rintro (⟨op, x, hop, -, -⟩ | ⟨-, -, hsave⟩)
    · exact nomatch Except.ok.inj hop
    · exact Time.newReminder_ne_none h kind id hsave

/-! ### Put off to tomorrow -/

/-- Someone looks at a reminder at noon of 1 June 2026. -/
def noonContext : CorrectContext where
  backend := .inMemory
  turnId := 1
  now := Time.summerNoon
  lib := ⟨plainText, fun _ _ => .error .valueError⟩

/-- A reminder that is pending. -/
def pendingRow : TriggerRecord :=
  { id := 1, itemId := 1, createdAt := 0, updatedAt := 0, createdByTurnId := 1
    updatedByTurnId := 1 }

/-- In three hours both fire. -/
theorem three_hours_agree : Agree pendingRow
    (snooze noonContext (some pendingRow) none "in 3 hours")
    (Time.newReminder noonContext.lib noonContext.now .task "t1" "in 3 hours") := by
  have hread : ∃ r ∈
      (Time.resolve noonContext.lib "in 3 hours" .occurred noonContext.now).toOption,
      noonContext.now.instant < r.start ∧ r.precision = .datetime := by decide +kernel
  obtain ⟨r, hr, hahead, hprecise⟩ := hread
  exact (snooze_agrees_iff rfl (of_mem_toOption hr) .task "t1").2 ⟨hahead, .inl hprecise⟩

/-- Put off to tomorrow, a reminder fires at midnight; a new one fires at nine. -/
theorem tomorrow_at_midnight :
    ¬ ∀ (ctx : CorrectContext) (row : TriggerRecord) (item : Option ItemRecord)
        (expression : String) (r : Resolved) (kind : Kind) (id : String), row.state = .pending →
      Time.resolve ctx.lib expression .occurred ctx.now = .ok r →
        Agree row (snooze ctx (some row) item expression)
          (Time.newReminder ctx.lib ctx.now kind id expression) := by
  intro h
  have hread : ∃ r ∈ (Time.resolve noonContext.lib "tomorrow" .occurred noonContext.now).toOption,
      noonContext.now.instant < r.start ∧ r.precision ≠ .datetime ∧
        ∃ fires ∈ (Time.reminderTime noonContext.now r.start r.precision 0).toOption,
          fires ≠ r.start := by decide +kernel
  obtain ⟨r, hr, hahead, hprecise, fires, hfires, hlater⟩ := hread
  have hresolved := of_mem_toOption hr
  obtain ⟨op, hop, hbody⟩ := (@snooze_eq noonContext pendingRow none _ r rfl hresolved).2 hahead
  rcases h noonContext pendingRow none "tomorrow" r .task "t1" rfl hresolved with
    ⟨op', x, hop', hsave, hbody'⟩ | ⟨failure, -, hsave⟩
  · obtain rfl := Except.ok.inj (Except.ok.inj (hop.symm.trans hop'))
    rw [hbody] at hbody'
    obtain rfl : r.start = x := by simpa using hbody'
    rcases (Time.newReminder_iff hresolved .task "t1").1 hsave with hdatetime | hsame
    · exact hprecise hdatetime
    · exact hlater (Except.ok.inj ((of_mem_toOption hfires).symm.trans hsame))
  · exact Time.newReminder_ne_none hresolved .task "t1" hsave

end Corrections

end SecondMind
