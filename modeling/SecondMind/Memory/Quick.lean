import SecondMind.Core.Result
import SecondMind.Memory.Recurrence
import SecondMind.Memory.Store

/-!
# The quick layer

`memory/quick.py`: plain rules say which items are kept at hand, why, and until when.

* `QuickRules.reasons` — the rules that keep an item, each with its end;
* `QuickRules.quickLayer` — the decision: the first reason, and the latest end;
* `quickLayer_lasts` — an item that stays does not stay until a time that has passed;
* `quickLayer_frequent` — an item that is cited often stays.
-/

namespace SecondMind

structure QuickDecision where
  inQuick : Bool
  reason : Option String := none
  until_ : Option Instant := none

/-- `FREQUENT_REASON`. -/
def frequentReason : String := "frequently retrieved"

namespace ItemContent

/-- `bool(item.rrule)`. -/
def recurs (item : ItemContent) : Bool := item.rrule.getD "" ≠ ""

end ItemContent

/-- `occurrence_length`. -/
def occurrenceLength : Option TimePrecision → Int
  | some .datetime => hour
  | some .month => 31 * day
  | some .year => 366 * day
  | _ => day

/-- `_length`. -/
def ItemContent.length (item : ItemContent) : Int :=
  match item.occurredStart, item.occurredEnd with
  | some start, some stop =>
    if item.recurs then occurrenceLength item.timePrecision else stop - start
  | _, _ => occurrenceLength item.timePrecision

/-- What the rules are given: the parser of recurrence rules, the clock of the workspace and the
settings. -/
structure QuickRules where
  /-- `parse_rrule`: a rule that begins at a time on the wall clock. -/
  parseRrule : String → Int → Except Failure RRule
  zone : Zone
  horizonDays : Int
  recentDays : Int

namespace QuickRules

variable (q : QuickRules)

/-- `next_occurrence_of`. -/
def nextOccurrenceOf (rule : String) (first length now : Int) :
    Except Failure (Option (Int × Int)) := do
  let parsed ← q.parseRrule rule (q.zone.toLocal first)
  return (expandRrule q.zone length ⟨some now, none⟩ 1 (fun _ => parsed) first).head?

/-- `next_occurrence`. -/
def nextOccurrence (item : ItemContent) (now : Int) : Except Failure (Option (Int × Int)) :=
  match item.occurredStart with
  | none => .ok none
  | some start =>
    if item.recurs then q.nextOccurrenceOf (item.rrule.getD "") start item.length now
    else .ok (some (start, item.occurredEnd.getD (start + item.length)))

/-- Plans stay until they pass. -/
def planReason (item : ItemContent) (now : Int) :
    Except Failure (List (String × Option Int)) := do
  if item.kind = .plan ∧ item.state = "scheduled" then
    match ← q.nextOccurrence item now with
    | some (begins, ends) =>
      if begins ≤ now + q.horizonDays * day ∧ now < ends then
        return [(s!"plan within {q.horizonDays} days", some ends)]
      else return []
    | none => return []
  else return []

/-- When the trigger fires, if it waits for a time that is not past. -/
def dueAt (now : Int) (trigger : TriggerContent) : Option Int :=
  if trigger.on = .time ∧ trigger.state = .pending then trigger.firesAt.filter (now ≤ ·) else none

/-- Items with a pending time trigger stay until it fires. -/
def reminderReason (triggers : List TriggerContent) (now : Int) : List (String × Option Int) :=
  let pending := triggers.filterMap (dueAt now)
  if pending = [] then [] else [("pending reminder", pending.max?)]

/-- Open tasks stay until they are done. -/
def taskReason (item : ItemContent) : List (String × Option Int) :=
  if item.kind = .task ∧ item.state = "open" then [("open task, until done", none)] else []

/-- What has been mentioned lately stays for that long. -/
def recentReason (item : ItemContent) (now : Int) : List (String × Option Int) :=
  let recentUntil := item.mentionedAt + q.recentDays * day
  if 0 < q.recentDays ∧ now < recentUntil then
    [(s!"mentioned in the last {q.recentDays} days", some recentUntil)]
  else []

/-- How long an item stays that is cited often. -/
def stay (now : Int) : Int := now + max q.recentDays 1 * day

def frequentRule (frequent : Bool) (now : Int) : List (String × Option Int) :=
  if frequent then [(frequentReason, some (q.stay now))] else []

/-- The rules that keep the item, in their order, each with its end. -/
def reasons (item : ItemContent) (now : Int) (triggers : List TriggerContent) (frequent : Bool) :
    Except Failure (List (String × Option Int)) := do
  let plan ← q.planReason item now
  return plan ++ reminderReason triggers now ++ taskReason item ++ q.recentReason item now ++
    q.frequentRule frequent now

/-- The latest of the ends, unless one of the rules has none. -/
def lastEnd (reasons : List (String × Option Int)) : Option Int :=
  if reasons.any (·.2.isNone) then none else (reasons.filterMap (·.2)).max?

/-- The decision, once the rules have spoken. -/
def decision (reasons : List (String × Option Int)) : QuickDecision :=
  match reasons with
  | [] => { inQuick := false }
  | first :: _ => { inQuick := true, reason := some first.1, until_ := lastEnd reasons }

/-- `quick_layer`. -/
def quickLayer (item : ItemContent) (now : Int) (triggers : List TriggerContent)
    (frequent : Bool := false) : Except Failure QuickDecision := do
  let reasons ← q.reasons item now triggers frequent
  return decision reasons

/-! ## What stays, stays for a while -/

variable {q} {item : ItemContent} {now : Int} {triggers : List TriggerContent} {frequent : Bool}

/-- None of the ends has passed. -/
def NotPast (now : Int) (reasons : List (String × Option Int)) : Prop :=
  ∀ r ∈ reasons, ∀ u ∈ r.2, now ≤ u

theorem NotPast.append {xs ys : List (String × Option Int)} (hx : NotPast now xs)
    (hy : NotPast now ys) : NotPast now (xs ++ ys) := by
  intro r hr
  rcases List.mem_append.1 hr with hr | hr
  · exact hx r hr
  · exact hy r hr

theorem notPast_nil : NotPast now [] := fun _ hr => absurd hr List.not_mem_nil

theorem notPast_singleton {reason : String} {ends : Option Int} (h : ∀ u ∈ ends, now ≤ u) :
    NotPast now [(reason, ends)] := by
  intro r hr
  obtain rfl := List.mem_singleton.1 hr
  exact h

theorem notPast_planReason {reasons : List (String × Option Int)}
    (h : q.planReason item now = .ok reasons) : NotPast now reasons := by
  unfold planReason at h
  split at h
  · obtain ⟨found, -, h⟩ := bind_eq_ok.1 h
    cases found with
    | none =>
      cases h
      exact notPast_nil
    | some occurrence =>
      dsimp only at h
      split at h
      · rename_i hsoon
        cases h
        exact notPast_singleton fun u hu => Option.mem_some_iff.1 hu ▸ hsoon.2.le
      · cases h
        exact notPast_nil
  · cases h
    exact notPast_nil

theorem le_of_dueAt {trigger : TriggerContent} {u : Int} (h : dueAt now trigger = some u) :
    now ≤ u := by
  unfold dueAt at h
  split at h
  · exact of_decide_eq_true (Option.filter_eq_some_iff.1 h).2
  · exact (nomatch h)

theorem notPast_reminderReason : NotPast now (reminderReason triggers now) := by
  unfold reminderReason
  dsimp only
  split
  · exact notPast_nil
  · refine notPast_singleton fun u hu => ?_
    obtain ⟨trigger, -, htrigger⟩ := List.mem_filterMap.1 (List.max?_mem hu)
    exact le_of_dueAt htrigger

theorem notPast_taskReason : NotPast now (taskReason item) := by
  unfold taskReason
  split
  · exact notPast_singleton fun u hu => (nomatch hu)
  · exact notPast_nil

theorem notPast_recentReason : NotPast now (q.recentReason item now) := by
  unfold recentReason
  dsimp only
  split
  · rename_i hrecent
    exact notPast_singleton fun u hu => Option.mem_some_iff.1 hu ▸ hrecent.2.le
  · exact notPast_nil

theorem le_stay : now ≤ q.stay now := by
  unfold stay day hour second
  omega

theorem notPast_frequentRule : NotPast now (q.frequentRule frequent now) := by
  unfold frequentRule
  split
  · exact notPast_singleton fun u hu => Option.mem_some_iff.1 hu ▸ le_stay
  · exact notPast_nil

/-- **No rule keeps an item until a time that has passed.** -/
theorem notPast_reasons {reasons : List (String × Option Int)}
    (h : q.reasons item now triggers frequent = .ok reasons) : NotPast now reasons := by
  obtain ⟨plan, hplan, h⟩ := bind_eq_ok.1 h
  cases h
  exact (((notPast_planReason hplan).append notPast_reminderReason).append
    notPast_taskReason |>.append notPast_recentReason).append notPast_frequentRule

/-- **An item that stays** does not stay until a time that has passed. -/
theorem quickLayer_lasts {d : QuickDecision}
    (h : q.quickLayer item now triggers frequent = .ok d) : ∀ u ∈ d.until_, now ≤ u := by
  obtain ⟨reasons, hreasons, h⟩ := bind_eq_ok.1 h
  cases h
  intro u hu
  cases reasons with
  | nil => exact (nomatch hu)
  | cons first rest =>
    change u ∈ lastEnd (first :: rest) at hu
    unfold lastEnd at hu
    split at hu
    · exact (nomatch hu)
    · obtain ⟨r, hr, hend⟩ := List.mem_filterMap.1 (List.max?_mem hu)
      exact notPast_reasons hreasons r hr u hend

/-- **An item that is cited often** stays. -/
theorem quickLayer_frequent {d : QuickDecision}
    (h : q.quickLayer item now triggers true = .ok d) : d.inQuick = true := by
  obtain ⟨reasons, hreasons, h⟩ := bind_eq_ok.1 h
  cases h
  obtain ⟨plan, -, hreasons⟩ := bind_eq_ok.1 hreasons
  cases hreasons
  have hcited : (frequentReason, some (q.stay now)) ∈ plan ++ reminderReason triggers now ++
      taskReason item ++ q.recentReason item now ++ q.frequentRule true now :=
    List.mem_append_right _ (List.mem_singleton_self _)
  unfold decision
  split
  · rename_i hnone
    rw [hnone] at hcited
    exact absurd hcited List.not_mem_nil
  · rfl

end QuickRules
end SecondMind
