import SecondMind.Corrections.Corrector
import SecondMind.Ingestion.SaveKeys
import SecondMind.Memory.BulkLaw

/-!
# Reminders

When the time triggers of a save fire, by `reminder_time` of `ingestion/time.py` and `_triggers` of
`ingestion/pipeline.py`, and when a reminder that was put off does.

* `fireTime` — the moment before an event, or nine o'clock on the day before it;
* `timeTriggers_eq` — the trigger of a reminder fires then, whether that has passed or not;
* `reminders_ahead_iff` — the reminders that a save sets, and the ones that are put off.
-/

namespace SecondMind

open Keyed

namespace Time

/-! ## The moment of a reminder -/

/-- `REMINDER_HOUR`. -/
def reminderHour : Int := 9

/-- `math.ceil(lead / timedelta(days=1))`, for a lead in minutes. -/
def leadDays (minutes : Int) : Int := -(-minutes / (24 * 60))

/-- `reminder_time`. -/
def reminderTime (now : TurnNow) (start : Instant) (precision : TimePrecision) (minutes : Int) :
    Attempt Int :=
  if precision = .datetime then checked (start - minutes * (60 * second))
  else do
    let localDay ← dateOf ((← checked (now.zone.toLocal start)) / day)
    now.at_ (← addDays localDay (-leadDays minutes)) (reminderHour * hour)

/-- So long before a moment, or at nine o'clock so many days before its day. -/
def fireTime (zone : Zone) (start : Instant) (precision : TimePrecision) (minutes : Int) : Instant :=
  if precision = .datetime then start - minutes * (60 * second)
  else zone.ofLocal ((zone.toLocal start / day - leadDays minutes) * day + reminderHour * hour)

/-- What `reminder_time` answers. -/
theorem reminderTime_eq_ok {now : TurnNow} {start : Instant} {precision : TimePrecision}
    {minutes x : Int} (h : reminderTime now start precision minutes = .ok x) :
    x = fireTime now.zone start precision minutes := by
  unfold reminderTime at h
  unfold fireTime
  split at h
  · rename_i hprecise
    rw [if_pos hprecise, eq_of_checked h]
  · rename_i hprecise
    obtain ⟨wall, hwall, h⟩ := bind_eq_ok.1 h
    obtain ⟨localDay, hlocalDay, h⟩ := bind_eq_ok.1 h
    obtain ⟨d, hd, h⟩ := bind_eq_ok.1 h
    rw [if_neg hprecise, eq_of_checked h, ordinal_of_dateOf hd, ordinal_of_dateOf hlocalDay,
      eq_of_checked hwall, sub_eq_add_neg]

end Time

/-! ## The reminder of a memory -/

/-- What a reminder is set before: the moment, its precision, and how many minutes before it. -/
structure Reminded where
  moment : Instant
  precision : TimePrecision
  minutes : Int

def Reminded.fires (zone : Zone) (e : Reminded) : Instant :=
  Time.fireTime zone e.moment e.precision e.minutes

/-- What the reminder of a memory is set before, if it has one: a time that was said for it, or the
event or the deadline of the memory. -/
def reminded (lib : PlanLib) (ctx : IngestContext) (m : ProposedMemory) (f : TimeFields)
    (resolved : List (String × Resolved)) : Option Reminded :=
  match resolved.find? (·.2.clock = .trigger) with
  | some (_, r) => some ⟨r.start, r.precision, 0⟩
  | none =>
    match m.reminder, f.occurredStart <|> f.dueAt with
    | none, _ | _, none => none
    | some reminder, some anchor =>
      let minutes := (((said reminder.lead).bind lib.resolveLead).map (·.1)).getD
        ctx.defaultLeadMinutes
      some ⟨anchor, f.timePrecision.getD .day, minutes⟩

/-- What `_triggers` says could not be done. -/
inductive ReminderNote
  /-- "a reminder with no date to remind you about" -/
  | noDate
  | lead (text : String)
  deriving DecidableEq

/-- The notes of `_triggers`. -/
def reminderNotes (lib : PlanLib) (m : ProposedMemory) (f : TimeFields)
    (resolved : List (String × Resolved)) : List ReminderNote :=
  match resolved.find? (·.2.clock = .trigger) with
  | some _ => []
  | none =>
    match m.reminder, f.occurredStart <|> f.dueAt with
    | none, _ => []
    | some _, none => [.noDate]
    | some reminder, some _ =>
      match said reminder.lead with
      | none => []
      | some text => if (lib.resolveLead text).isSome then [] else [.lead text]

section

variable {lib : PlanLib} {ctx : IngestContext} {n : Nat} {m : ProposedMemory} {f : TimeFields}
  {resolved : List (String × Resolved)} {zone : Zone}

/-- **The trigger of a reminder** fires at its moment, and there is one for every reminder that is
set before something. -/
theorem timeTriggers_eq (hlib : lib.reminderTime = Time.fireTime zone) :
    ∃ spec, timeTriggers lib ctx n m f resolved = (reminded lib ctx m f resolved).toList.map fun e =>
      ⟨lib.newId (.timeTrigger n), { on := .time, spec := spec, firesAt := some (e.fires zone) }⟩ := by
  unfold timeTriggers reminded
  cases hfound : resolved.find? (·.2.clock = .trigger) with
  | some e =>
    obtain ⟨key, r⟩ := e
    refine ⟨objectOf [("rule", .str "explicit"), ("expression", .str r.expression)], ?_⟩
    rw [hlib]
    by_cases hprecise : r.precision = .datetime
    · simp [Reminded.fires, Time.fireTime, hprecise]
    · simp [Reminded.fires, hprecise]
  | none =>
    dsimp only
    cases hreminder : m.reminder with
    | none => exact ⟨.null, rfl⟩
    | some reminder =>
      cases hanchor : (f.occurredStart <|> f.dueAt) with
      | none => exact ⟨.null, rfl⟩
      | some anchor =>
        let asked := (said reminder.lead).bind lib.resolveLead
        let lead := asked.getD (ctx.defaultLeadMinutes, "workspace default")
        have hminutes : (asked.map (·.1)).getD ctx.defaultLeadMinutes = lead.1 := by
          show _ = (asked.getD _).1
          cases asked <;> rfl
        refine ⟨objectOf [("lead_minutes", .num lead.1), ("rule", .str lead.2)], ?_⟩
        rw [hlib]
        dsimp only
        rw [hminutes]
        rfl

/-- A memory whose reminder is set is not one whose reminder has no date. -/
theorem noDate_notMem (h : (reminded lib ctx m f resolved).isSome = true) :
    ReminderNote.noDate ∉ reminderNotes lib m f resolved := by
  unfold reminded at h
  unfold reminderNotes
  cases hfound : resolved.find? (·.2.clock = .trigger) with
  | some e => exact List.not_mem_nil
  | none =>
    rw [hfound] at h
    dsimp only at h ⊢
    cases hreminder : m.reminder with
    | none => exact List.not_mem_nil
    | some reminder =>
      rw [hreminder] at h
      cases hanchor : (f.occurredStart <|> f.dueAt) with
      | none =>
        rw [hanchor] at h
        exact nomatch h
      | some anchor =>
        dsimp only
        cases said reminder.lead with
        | none => exact List.not_mem_nil
        | some text =>
          dsimp only
          split <;> simp

end

theorem momentTriggers_on {lib : PlanLib} {n : Nat} {m : ProposedMemory}
    {entities : List (String × EntityPlan)} {new : NewTrigger}
    (h : new ∈ momentTriggers lib n m entities) : new.trigger.on ≠ .time := by
  unfold momentTriggers at h
  dsimp only at h
  split at h
  · exact absurd h List.not_mem_nil
  · split at h
    · split at h
      · exact absurd h List.not_mem_nil
      · split at h
        · exact absurd h List.not_mem_nil
        · rw [List.mem_singleton.1 h]
          exact TriggerOn.noConfusion
    · split at h
      · exact absurd h List.not_mem_nil
      · rw [List.mem_singleton.1 h]
        exact TriggerOn.noConfusion
    · split at h
      · exact absurd h List.not_mem_nil
      · rw [List.mem_singleton.1 h]
        exact TriggerOn.noConfusion

/-! ## The triggers of a save -/

namespace Save

variable {s : Save} {t t' : Tables} {w : Writer} {plans : List DecidedPlan} {res : CommitResult}

/-- The rows of a save's commit are those of the ops that it applied. -/
theorem commit_puts (hvalid : ValidExtraction s.lib.lib s.extraction)
    (hw : s.writer t.toMemoryTables = .ok w) (h : w.commit t = .ok (t', res)) :
    w.Puts (Writer.appliedOps res.outcomes) t.toMemoryTables t'.toMemoryTables ∧
      ∀ op ∈ Writer.appliedOps res.outcomes, op ∈ w.ops := by
  by_cases hwhole : w.heldWhole = true
  · obtain ⟨hmemory, -, hheld, -⟩ := Writer.holds_whole hwhole h
    have hnone : Writer.appliedOps res.outcomes = [] := by
      rw [List.eq_nil_iff_forall_not_mem]
      intro op hop
      obtain ⟨o, ho, hallowed, -⟩ := Writer.mem_appliedOps.1 hop
      rw [hheld o ho] at hallowed
      exact nomatch hallowed
    rw [hnone, hmemory]
    exact ⟨.refl w _, fun op hop => absurd hop List.not_mem_nil⟩
  · obtain ⟨p, hp⟩ := Writer.commit_parts h
    have hbatch := hp.batch
    rw [Writer.applyAll, if_neg hwhole] at hbatch
    obtain ⟨done, hdone⟩ := Writer.steps_applied (fun op hop => ops_saveOp hvalid hw hop) hbatch
    have hputs := hdone.puts
    obtain rfl : Writer.appliedOps p.outcomes = done := hdone.outcomes
    rw [Writer.writeVocab_memory] at hputs
    rw [hp.memory, hp.result]
    exact ⟨hputs, fun op hop => hdone.within.subset hop⟩

/-- The commit made an item of the memory at position `n`, with the triggers of its plan. -/
def Made (s : Save) (plans : List DecidedPlan) (res : CommitResult) (n : Nat) (p : DecidedPlan) :
    Prop :=
  plans[n]? = some p ∧ p.merged = none ∧ p.createOp s.lib n ∈ Writer.appliedOps res.outcomes

/-- The triggers that a commit of a save adds are those of the plans it made items of. -/
theorem new_triggers (hvalid : ValidExtraction s.lib.lib s.extraction)
    (hw : s.writer t.toMemoryTables = .ok w)
    (hplans : s.decidedPlans t.toMemoryTables = .ok plans) (h : w.commit t = .ok (t', res))
    {row : TriggerRecord} (hrow : row ∈ t'.triggers.rows) (hfree : t.getTrigger row.id = none) :
    ∃ n p, s.Made plans res n p ∧ ∃ new ∈ p.triggers, row.toTriggerContent = new.trigger := by
  obtain ⟨hputs, hops⟩ := commit_puts hvalid hw h
  rw [hputs.triggers] at hrow
  rcases KeyTable.mem_of_mem_rows_foldl_put hrow with hmade | hold
  · obtain ⟨op, hop, hrow⟩ := List.mem_flatMap.1 hmade
    obtain ⟨id, hid⟩ : ∃ id, op.body.createdItem = some id := by
      unfold Writer.newTriggers at hrow
      split at hrow
      · rename_i hbody
        exact ⟨_, by rw [hbody]; rfl⟩
      · exact absurd hrow List.not_mem_nil
    rcases createdItem_cases hw hplans (hops op hop) hid with rfl | ⟨n, p, hp, hmerged, rfl, -⟩
    · exact absurd hrow List.not_mem_nil
    · obtain ⟨new, hnew, rfl⟩ := List.mem_map.1 hrow
      exact ⟨n, p, ⟨hp, hmerged, hop⟩, new, hnew, rfl⟩
  · have hstored := KeyTable.mem_rows.1 hold
    rw [MemoryTables.getTrigger, hstored] at hfree
    cases hfree

end Save

/-! ## A reminder put off -/

namespace Corrections

variable {ctx : CorrectContext} {trigger : Option TriggerRecord} {item : Option ItemRecord}
  {dateExpression : String} {op : Op}

/-- **A snooze that is accepted** sets a moment that lies ahead. -/
theorem snooze_eq_ok (h : snooze ctx trigger item dateExpression = .ok (.ok op)) :
    ∃ row start, trigger = some row ∧ row.state = .pending ∧ ctx.now.instant < start ∧
      op.body = .updateTrigger row.id { firesAt := some (some start) } := by
  unfold snooze at h
  split at h
  · exact nomatch Except.ok.inj h
  · rename_i row
    split at h
    · exact nomatch Except.ok.inj h
    · rename_i hpending
      split at h
      · exact nomatch Except.ok.inj h
      · exact nomatch h
      · rename_i r _
        split at h
        · exact nomatch Except.ok.inj h
        · rename_i hahead
          obtain rfl := Except.ok.inj (Except.ok.inj h)
          exact ⟨row, r.start, rfl, not_not.1 hpending, not_le.1 hahead, rfl⟩

/-- What the commit of a snooze leaves of the trigger. -/
theorem commit_snooze {id : Uuid} {start : Instant} {t t' : Tables} {res : CommitResult}
    (hbody : op.body = .updateTrigger id { firesAt := some (some start) })
    (h : (ctx.writer [op]).commit t = .ok (t', res)) {row : TriggerRecord}
    (hrow : t'.getTrigger id = some row) : t.getTrigger id = some row ∨ row.firesAt = some start := by
  obtain ⟨p, hp⟩ := Writer.commit_parts h
  have hsame : p.tables.toMemoryTables = t.toMemoryTables →
      t.getTrigger id = some row ∨ row.firesAt = some start := by
    intro hmemory
    rw [hp.memory, hmemory] at hrow
    exact .inl hrow
  have hbatch := hp.batch
  unfold Writer.applyAll at hbatch
  split at hbatch
  · cases hbatch
    exact hsame (Writer.writeVocab_memory t)
  · obtain ⟨q, hstep, hrest⟩ := bind_eq_ok.1 hbatch
    cases hrest
    rcases Writer.step_cases hstep with ⟨v, -, -, rfl⟩ | ⟨v, u, reason, -, -, ha, rfl⟩ |
      ⟨v, u, log, -, -, ha, rfl⟩
    · rw [Writer.refuse_tables] at hsame
      exact hsame (Writer.writeVocab_memory t)
    · exact hsame ((Writer.apply_skip ha).memory.trans (Writer.writeVocab_memory t))
    · rw [withOrigin_body, hbody] at ha
      obtain ⟨before, u', hget, -, hreplace, hx⟩ := Writer.changeTrigger_eq_ok.1 ha
      obtain ⟨rfl, -⟩ := Prod.mk.inj hx
      have hid : before.id = id := KeyTable.key_of_lookup hget
      have hstored : ((ctx.writer [op]).writeVocab t).getTrigger
          ((ctx.writer [op]).editedTrigger before { firesAt := some (some start) }).id =
          some before := by
        show ((ctx.writer [op]).writeVocab t).getTrigger before.id = some before
        rw [hid]
        exact hget
      obtain ⟨-, rfl⟩ := (Tables.replaceTrigger_eq_ok (by rw [hstored]; rfl)).1 hreplace
      rw [hp.memory, MemoryTables.getTrigger] at hrow
      have hput := KeyTable.lookup_put_self
        (((ctx.writer [op]).writeVocab t).triggers)
        ((ctx.writer [op]).editedTrigger before { firesAt := some (some start) })
      rw [show id = ((ctx.writer [op]).editedTrigger before
        { firesAt := some (some start) }).id from hid.symm, hput] at hrow
      obtain rfl := Option.some.inj hrow
      exact .inr rfl

end Corrections

/-! ## Reminders ahead -/

/-- The reminder is set for a moment that lies ahead, or the notes say that it is not set. -/
def SetAhead (now : Instant) (notes : List ReminderNote) (new : NewTrigger) : Prop :=
  (∃ fires, new.trigger.firesAt = some fires ∧ now < fires) ∨ .noDate ∈ notes

/-- **The reminders of a save** are set ahead, or reported, exactly when each of them is asked for
early enough: its moment, less the lead, or nine o'clock on its day, less the days of the lead, is
still to come.  The triggers of these plans are the ones that the commit adds.  And a snooze that is
accepted moves its reminder to a time ahead. -/
theorem reminders_ahead_iff {s : Save} {t t' : Tables} {w : Writer} {plans : List DecidedPlan}
    {res : CommitResult} {zone : Zone} (hvalid : ValidExtraction s.lib.lib s.extraction)
    (hlib : s.lib.reminderTime = Time.fireTime zone) (hw : s.writer t.toMemoryTables = .ok w)
    (hplans : s.decidedPlans t.toMemoryTables = .ok plans) (h : w.commit t = .ok (t', res)) :
    ((∀ n p f, s.Made plans res n p → timeFields s.lib (s.resolve p.proposed) = .ok f →
      ∀ new ∈ p.triggers, new.trigger.on = .time → new.trigger.state = .pending →
        SetAhead s.ctx.now (reminderNotes s.lib p.proposed f (s.resolve p.proposed)) new) ↔
      ∀ n p f, s.Made plans res n p → timeFields s.lib (s.resolve p.proposed) = .ok f →
        ∀ e ∈ reminded s.lib s.ctx p.proposed f (s.resolve p.proposed),
          s.ctx.now < e.fires zone) ∧
    (∀ row ∈ t'.triggers.rows, t.getTrigger row.id = none → ∃ n p, s.Made plans res n p ∧
      ∃ new ∈ p.triggers, row.toTriggerContent = new.trigger) ∧
    ∀ ctx trigger item dateExpression op u u' res',
      Corrections.snooze ctx trigger item dateExpression = .ok (.ok op) →
      (ctx.writer [op]).commit u = .ok (u', res') →
      ∃ row, trigger = some row ∧ ∀ row', u'.getTrigger row.id = some row' →
        u.getTrigger row.id = some row' ∨
          ∃ fires, row'.firesAt = some fires ∧ ctx.now.instant < fires := by
  refine ⟨?_, fun row hrow hfree => Save.new_triggers hvalid hw hplans h hrow hfree,
    fun ctx trigger item dateExpression op u u' res' hsnooze hcommit => ?_⟩
  · refine forall_congr' fun n => forall_congr' fun p => forall_congr' fun f =>
      imp_congr_right fun hmade => imp_congr_right fun hf => ?_
    obtain ⟨m, -, hplanned, -⟩ := Save.planned hplans hmade.1
    obtain rfl : p.proposed = m := hplanned.proposed
    obtain ⟨f', hf', htriggers⟩ := hplanned.triggers
    obtain rfl : f = f' := Except.ok.inj (hf.symm.trans hf')
    obtain ⟨spec, htime⟩ :=
      @timeTriggers_eq s.lib s.ctx n p.proposed f (s.resolve p.proposed) zone hlib
    rw [htriggers, htime]
    constructor
    · intro hset e he
      have hmem : (⟨s.lib.newId (.timeTrigger n),
          { on := .time, spec := spec, firesAt := some (e.fires zone) }⟩ : NewTrigger) ∈
          ((reminded s.lib s.ctx p.proposed f (s.resolve p.proposed)).toList.map fun e =>
            (⟨s.lib.newId (.timeTrigger n),
              { on := .time, spec := spec, firesAt := some (e.fires zone) }⟩ : NewTrigger)) ++
            momentTriggers s.lib n p.proposed s.entities :=
        List.mem_append_left _ (List.mem_map.2 ⟨e, Option.mem_toList.2 he, rfl⟩)
      rcases hset _ hmem rfl rfl with ⟨fires, hfires, hahead⟩ | hnote
      · rw [Option.some.inj hfires]
        exact hahead
      · exact absurd hnote (noDate_notMem (Option.isSome_iff_exists.2 ⟨e, he⟩))
    · intro hahead new hnew hon hpending
      rcases List.mem_append.1 hnew with hnew | hnew
      · obtain ⟨e, he, rfl⟩ := List.mem_map.1 hnew
        exact .inl ⟨e.fires zone, rfl, hahead e (Option.mem_toList.1 he)⟩
      · exact absurd hon (momentTriggers_on hnew)
  · obtain ⟨row, start, rfl, -, hahead, hbody⟩ := Corrections.snooze_eq_ok hsnooze
    refine ⟨row, rfl, fun row' hrow' => ?_⟩
    exact (Corrections.commit_snooze hbody hcommit hrow').imp_right fun hfires =>
      ⟨start, hfires, hahead⟩

/-! ### A concert -/

def utc : Zone :=
  { initial := 0, changes := [], ascending := none_ascending, small := none_small }

/-- Someone asks to be reminded of a concert that begins in so many hours. -/
def concertIn (hours : Int) : Save :=
  let base := saveOf 1 "remind me of the concert"
    [{ ref := "m1", kind := ⟨.plan, by decide⟩, title := "concert", text := "the concert"
       reminder := some ⟨none⟩ }]
  let begins : Resolved :=
    { expression := "tonight", clock := .occurred, start := base.ctx.now + hours * hour
      precision := .datetime, rule := "tonight" }
  { base with
    lib := { base.lib with reminderTime := Time.fireTime utc }
    resolve := fun _ => [("t1", begins)] }

/-- Two hours before it, the reminder of the day before has passed: it is set all the same, and
nothing is said. -/
theorem concert_reminder_passed : ∃ (s : Save) (w : Writer) (t' : Tables) (res : CommitResult),
    ValidExtraction s.lib.lib s.extraction ∧ s.lib.reminderTime = Time.fireTime utc ∧
      s.writer (Tables.initial 0).toMemoryTables = .ok w ∧
      w.commit (Tables.initial 0) = .ok (t', res) ∧
      (∀ m ∈ s.memories, ∀ f, timeFields s.lib (s.resolve m) = .ok f →
        reminderNotes s.lib m f (s.resolve m) = []) ∧
      ∃ row, t'.getTrigger 120 = some row ∧ row.on = .time ∧ row.state = .pending ∧
        ∃ fires, row.firesAt = some fires ∧ fires < s.ctx.now := by
  let s := concertIn 2
  have hran : ∃ w ∈ (s.writer (Tables.initial 0).toMemoryTables).toOption,
      ∃ x ∈ (w.commit (Tables.initial 0)).toOption, ∃ row ∈ x.1.getTrigger 120,
        row.on = .time ∧ row.state = .pending ∧ ∃ fires ∈ row.firesAt, fires < s.ctx.now := by
    decide +kernel
  have hvalid : validateExtraction plainText s.extraction = [] := by decide +kernel
  have hnotes : ∀ m ∈ s.memories, ∃ f ∈ (timeFields s.lib (s.resolve m)).toOption,
      reminderNotes s.lib m f (s.resolve m) = [] := by decide +kernel
  obtain ⟨w, hw, x, hx, row, hrow, hon, hpending, fires, hfires, hpassed⟩ := hran
  refine ⟨s, w, x.1, x.2, hvalid, rfl, of_mem_toOption hw, of_mem_toOption hx, fun m hm f hf => ?_,
    row, hrow, hon, hpending, fires, hfires, hpassed⟩
  obtain ⟨f', hf', hnone⟩ := hnotes m hm
  obtain rfl : f = f' := Except.ok.inj (hf.symm.trans (of_mem_toOption hf'))
  exact hnone

/-- Two days before it, the reminder lies ahead. -/
theorem concert_reminder_ahead : ∃ (w : Writer) (plans : List DecidedPlan) (t' : Tables)
    (res : CommitResult), (concertIn 48).writer (Tables.initial 0).toMemoryTables = .ok w ∧
      w.commit (Tables.initial 0) = .ok (t', res) ∧
      (∃ row, t'.getTrigger 120 = some row) ∧
      ∀ n p f, (concertIn 48).Made plans res n p →
        timeFields (concertIn 48).lib ((concertIn 48).resolve p.proposed) = .ok f →
        ∀ new ∈ p.triggers, new.trigger.on = .time → new.trigger.state = .pending →
          SetAhead (concertIn 48).ctx.now
            (reminderNotes (concertIn 48).lib p.proposed f ((concertIn 48).resolve p.proposed))
            new := by
  let s := concertIn 48
  have hran : ∃ w ∈ (s.writer (Tables.initial 0).toMemoryTables).toOption,
      ∃ plans ∈ (s.decidedPlans (Tables.initial 0).toMemoryTables).toOption,
      ∃ x ∈ (w.commit (Tables.initial 0)).toOption, (x.1.getTrigger 120).isSome ∧
        ∀ p ∈ plans, ∃ f ∈ (timeFields s.lib (s.resolve p.proposed)).toOption,
          ∀ e ∈ (reminded s.lib s.ctx p.proposed f (s.resolve p.proposed)).toList,
            s.ctx.now < e.fires utc := by
    decide +kernel
  have hvalid : validateExtraction plainText s.extraction = [] := by decide +kernel
  obtain ⟨w, hw, plans, hplans, x, hx, hsome, hahead⟩ := hran
  refine ⟨w, plans, x.1, x.2, of_mem_toOption hw, of_mem_toOption hx,
    Option.isSome_iff_exists.1 hsome, ?_⟩
  refine (reminders_ahead_iff (s := concertIn 48) hvalid rfl (of_mem_toOption hw)
    (of_mem_toOption hplans) (of_mem_toOption hx)).1.2 fun n p f hmade hf e he => ?_
  obtain ⟨f', hf', hmoments⟩ := hahead p (List.mem_of_getElem? hmade.1)
  obtain rfl : f = f' := Except.ok.inj (hf.symm.trans (of_mem_toOption hf'))
  exact hmoments e (Option.mem_toList.2 he)

end SecondMind
