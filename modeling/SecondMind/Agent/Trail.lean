import SecondMind.Memory.Records

/-!
# The trail of a turn

`TurnTrail` of `agent/trail.py`: the events of a step are held until the step ends, and are then
written with the record of the step, in one write.

* `TurnTrail.commitSteps` — the two steps of a commit: `guard`, and `save` with the diff that `guard`
  held;
* `call_keeps` — one call: what was held or is emitted is stored or held after it, in order;
* `trail_loses_nothing` — any sequence of calls.
-/

namespace SecondMind
namespace Agent

/-- The agent steps that a turn can report. -/
inductive AgentStep
  | understand | extract | dates | entities | reconcile | enrich | guard | save | answer | undo
  | confirm | plan | search | rank | triggers | fetch | blocked
  deriving DecidableEq, Repr

inductive StepStatus
  | done | held | refused | failed
  deriving DecidableEq, Repr

/-- One agent step that ran. -/
structure StepEvent where
  step : AgentStep
  status : StepStatus
  startedAt : Instant
  latencyMs : Nat
  deriving DecidableEq

/-- An event of the trail: one that was emitted, or the record of a step. -/
inductive TurnEvent (E : Type)
  | event (e : E)
  | step (record : StepEvent)
  deriving DecidableEq

/-- What the client gets. -/
inductive Published (E : Type)
  | started (step : AgentStep) (start : Instant)
  | recorded (e : TurnEvent E)
  deriving DecidableEq

/-- One open step. -/
structure StepRun (E : Type) where
  step : AgentStep
  startedAt : Instant
  status : StepStatus := .done
  latencyMs : Option Nat := none
  events : List E := []

/-- The events that match are given away, so that another step writes them. -/
def StepRun.take {E : Type} (run : StepRun E) (matches_ : E → Bool) : List E × StepRun E :=
  (run.events.filter matches_, { run with events := run.events.filter fun e => !matches_ e })

/-- The trail, the rows that its store holds and what was sent to the client. -/
structure TurnTrail (E : Type) where
  stored : List (TurnEvent E) := []
  published : List (Published E) := []
  «open» : Option (StepRun E) := none

namespace TurnTrail

variable {E : Type}

/-- `_write`. -/
def write (trail : TurnTrail E) (events : List (TurnEvent E)) : TurnTrail E :=
  { trail with
    stored := trail.stored ++ events
    published := trail.published ++ events.map .recorded }

def emit (trail : TurnTrail E) (e : E) : TurnTrail E :=
  match trail.open with
  | some run => { trail with «open» := some { run with events := run.events ++ [e] } }
  | none => trail.write [.event e]

/-- The beginning of `run`; a step inside a step is an error. -/
def start (trail : TurnTrail E) (step : AgentStep) (start : Instant) : TurnTrail E :=
  match trail.open with
  | some _ => trail
  | none =>
    { trail with
      published := trail.published ++ [.started step start]
      «open» := some { step := step, startedAt := start } }

/-- What the block of a step sets on it. -/
def mark (trail : TurnTrail E) (status : StepStatus) (latencyMs : Option Nat) : TurnTrail E :=
  { trail with «open» := trail.open.map fun run =>
      { run with status := status, latencyMs := latencyMs } }

/-- `StepRun.take` of the open step. -/
def take (trail : TurnTrail E) (matches_ : E → Bool) : List E × TurnTrail E :=
  match trail.open with
  | some run => ((run.take matches_).1, { trail with «open» := some (run.take matches_).2 })
  | none => ([], trail)

/-- The end of `run`, however its block ends. -/
def finish (trail : TurnTrail E) (raised : Bool) (measured : Nat) : TurnTrail E :=
  match trail.open with
  | none => trail
  | some run =>
    write { trail with «open» := none }
      (run.events.map .event ++ [.step {
        step := run.step
        status := if raised then .failed else run.status
        startedAt := run.startedAt
        latencyMs := run.latencyMs.getD measured }])

/-- `report`: a step that was measured elsewhere. -/
def report (trail : TurnTrail E) (step : AgentStep) (status : StepStatus) (startedAt : Instant)
    (latencyMs : Int) (events : List E) : TurnTrail E :=
  write { trail with published := trail.published ++ [.started step startedAt] }
    (events.map .event ++ [.step {
      step := step, status := status, startedAt := startedAt, latencyMs := latencyMs.toNat }])

/-- What the open step holds. -/
def held (trail : TurnTrail E) : List E :=
  match trail.open with
  | some run => run.events
  | none => []

end TurnTrail

/-- A commit, as far as the trail sees it: what the writer emits, the diff last. -/
structure Committed {E : Type} (isDiff : E → Bool) where
  began : Instant
  verdicts : List E
  diff : E
  saved : Bool
  status : StepStatus
  policyMs : Nat
  totalMs : Nat
  plain : ∀ e ∈ verdicts, isDiff e = false
  isDiff_diff : isDiff diff = true

section

variable {E : Type} {isDiff : E → Bool}

/-- `_commit` of the pipeline: `save` is reported only when something was saved. -/
def TurnTrail.commitSteps (trail : TurnTrail E) (c : Committed isDiff) : TurnTrail E :=
  match trail.open with
  | some _ => trail
  | none =>
    let trail := (c.verdicts.foldl emit (trail.start .guard c.began)).emit c.diff
    let trail := trail.mark c.status (some c.policyMs)
    if c.saved then
      let (diff, trail) := trail.take isDiff
      (trail.finish false c.totalMs).report .save .done (c.began + c.policyMs)
        (c.totalMs - c.policyMs) diff
    else trail.finish false c.totalMs

/-- A call of the program. -/
inductive Call (isDiff : E → Bool)
  | emit (e : E)
  | start (step : AgentStep) (start : Instant)
  | mark (status : StepStatus) (latencyMs : Option Nat)
  | finish (raised : Bool) (measured : Nat)
  | report (step : AgentStep) (status : StepStatus) (startedAt : Instant) (latencyMs : Int)
      (events : List E)
  | commit (c : Committed isDiff)

def TurnTrail.call (trail : TurnTrail E) : Call isDiff → TurnTrail E
  | .emit e => trail.emit e
  | .start step start => trail.start step start
  | .mark status latencyMs => trail.mark status latencyMs
  | .finish raised measured => trail.finish raised measured
  | .report step status startedAt latencyMs events =>
    trail.report step status startedAt latencyMs events
  | .commit c => trail.commitSteps c

def TurnTrail.run (trail : TurnTrail E) (calls : List (Call isDiff)) : TurnTrail E :=
  calls.foldl TurnTrail.call trail

/-- What a call emits: a commit that is started inside a step does not begin. -/
def Call.emits (trail : TurnTrail E) : Call isDiff → List E
  | .emit e => [e]
  | .commit c => if trail.open.isSome then [] else c.verdicts ++ [c.diff]
  | _ => []

/-- What a call reports of its own. -/
def Call.reports : Call isDiff → List E
  | .report _ _ _ _ events => events
  | _ => []

/-- What is emitted in a run of calls, in order. -/
def emissions (trail : TurnTrail E) : List (Call isDiff) → List E
  | [] => []
  | c :: cs => c.emits trail ++ emissions (trail.call c) cs

/-- The events among stored rows. -/
def eventsOf (rows : List (TurnEvent E)) : List E :=
  rows.filterMap fun
    | .event e => some e
    | .step _ => none

/-- What the client was told of stored rows. -/
def replay (published : List (Published E)) : List (TurnEvent E) :=
  published.filterMap fun
    | .started _ _ => none
    | .recorded e => some e

/-! ## Writing -/

theorem eventsOf_append (rows rows' : List (TurnEvent E)) :
    eventsOf (rows ++ rows') = eventsOf rows ++ eventsOf rows' :=
  List.filterMap_append

theorem eventsOf_events (events : List E) :
    eventsOf (events.map TurnEvent.event) = events := by
  induction events with
  | nil => rfl
  | cons e events ih => exact congrArg (e :: ·) ih

/-- A block of rows: events, and the record of a step behind them. -/
theorem eventsOf_block (events : List E) (record : StepEvent) :
    eventsOf (events.map TurnEvent.event ++ [.step record]) = events := by
  rw [eventsOf_append, eventsOf_events]
  exact List.append_nil events

theorem replay_append (published published' : List (Published E)) :
    replay (published ++ published') = replay published ++ replay published' :=
  List.filterMap_append

theorem replay_recorded (rows : List (TurnEvent E)) :
    replay (rows.map Published.recorded) = rows := by
  induction rows with
  | nil => rfl
  | cons e rows ih => exact congrArg (e :: ·) ih

theorem replay_started (step : AgentStep) (start : Instant) :
    replay [(Published.started step start : Published E)] = [] := rfl

namespace TurnTrail

variable {trail : TurnTrail E}

/-- The client was told of what is stored, in that order. -/
def InStep (trail : TurnTrail E) : Prop := replay trail.published = trail.stored

theorem InStep.write (h : trail.InStep) (rows : List (TurnEvent E)) :
    (trail.write rows).InStep := by
  unfold InStep TurnTrail.write
  rw [replay_append, replay_recorded, h]

theorem InStep.emit (h : trail.InStep) (e : E) : (trail.emit e).InStep := by
  unfold TurnTrail.emit
  split
  · exact h
  · exact h.write _

theorem InStep.start (h : trail.InStep) (step : AgentStep) (start : Instant) :
    (trail.start step start).InStep := by
  unfold TurnTrail.start
  split
  · exact h
  · unfold InStep
    rw [replay_append, replay_started, List.append_nil]
    exact h

theorem InStep.mark (h : trail.InStep) (status : StepStatus) (latencyMs : Option Nat) :
    (trail.mark status latencyMs).InStep := h

theorem InStep.take (h : trail.InStep) (matches_ : E → Bool) : (trail.take matches_).2.InStep := by
  unfold TurnTrail.take
  split
  · exact h
  · exact h

theorem InStep.finish (h : trail.InStep) (raised : Bool) (measured : Nat) :
    (trail.finish raised measured).InStep := by
  unfold TurnTrail.finish
  split
  · exact h
  · have hclosed : InStep { trail with «open» := none } := h
    exact hclosed.write _

theorem InStep.report (h : trail.InStep) (step : AgentStep) (status : StepStatus)
    (startedAt : Instant) (latencyMs : Int) (events : List E) :
    (trail.report step status startedAt latencyMs events).InStep := by
  have hstarted : InStep { trail with published := trail.published ++ [.started step startedAt] } := by
    unfold InStep
    rw [replay_append, replay_started, List.append_nil]
    exact h
  exact hstarted.write _

theorem InStep.foldl_emit (h : trail.InStep) (events : List E) :
    (events.foldl TurnTrail.emit trail).InStep := by
  induction events generalizing trail with
  | nil => exact h
  | cons e events ih => exact ih (h.emit e)

theorem InStep.commitSteps (h : trail.InStep) (c : Committed isDiff) :
    (trail.commitSteps c).InStep := by
  unfold TurnTrail.commitSteps
  split
  · exact h
  · have hguard := (((h.start .guard c.began).foldl_emit c.verdicts).emit c.diff).mark c.status
      (some c.policyMs)
    dsimp only
    split
    · exact ((hguard.take isDiff).finish _ _).report _ _ _ _ _
    · exact hguard.finish _ _

/-- **A call** keeps the client in step with the store. -/
theorem InStep.call (h : trail.InStep) (c : Call isDiff) : (trail.call c).InStep := by
  cases c with
  | emit e => exact h.emit e
  | start step start => exact h.start step start
  | mark status latencyMs => exact h.mark status latencyMs
  | finish raised measured => exact h.finish raised measured
  | report step status startedAt latencyMs events => exact h.report _ _ _ _ _
  | commit c => exact h.commitSteps c

/-! ## Commits -/

/-- What is emitted in a step is held by it. -/
theorem foldl_emit_open {run : StepRun E} (h : trail.open = some run) (events : List E) :
    events.foldl TurnTrail.emit trail =
      { trail with «open» := some { run with events := run.events ++ events } } := by
  induction events generalizing trail run with
  | nil =>
    rw [List.append_nil]
    obtain ⟨stored, published, opened⟩ := trail
    cases h
    rfl
  | cons e events ih =>
    have hemit : trail.emit e =
        { trail with «open» := some { run with events := run.events ++ [e] } } := by
      unfold TurnTrail.emit
      rw [h]
    rw [List.foldl_cons, hemit, ih rfl, List.append_assoc]
    rfl

/-- What a step holds is written, in order, in front of its record. -/
theorem finish_open {run : StepRun E} (h : trail.open = some run) (raised : Bool) (measured : Nat) :
    (trail.finish raised measured).open = none ∧ ∃ record : StepEvent,
      record.step = run.step ∧ record.startedAt = run.startedAt ∧
        (raised = true → record.status = .failed) ∧
        (trail.finish raised measured).stored =
          trail.stored ++ (run.events.map .event ++ [.step record]) := by
  unfold TurnTrail.finish
  rw [h]
  refine ⟨rfl, _, rfl, rfl, ?_, rfl⟩
  rintro rfl
  rfl

/-- The diff is the last of what a commit emits, and so what is taken for `save`. -/
theorem take_diff {run : StepRun E} {c : Committed isDiff} (h : trail.open = some run)
    (hevents : run.events = c.verdicts ++ [c.diff]) :
    (trail.take isDiff).1 = [c.diff] ∧ (trail.take isDiff).2.stored = trail.stored ∧
      (trail.take isDiff).2.open = some { run with events := c.verdicts } := by
  have hkept : run.events.filter (fun e => !isDiff e) = c.verdicts := by
    rw [hevents, List.filter_append, List.filter_eq_self.2 fun e he => by rw [c.plain e he]; rfl,
      List.filter_cons_of_neg (by rw [c.isDiff_diff]; decide), List.filter_nil, List.append_nil]
  have htaken : run.events.filter isDiff = [c.diff] := by
    rw [hevents, List.filter_append,
      List.filter_eq_nil_iff.2 fun e he => by rw [c.plain e he]; decide,
      List.filter_cons_of_pos c.isDiff_diff, List.filter_nil, List.nil_append]
  unfold TurnTrail.take
  rw [h]
  refine ⟨htaken, rfl, ?_⟩
  show some { run with events := run.events.filter fun e => !isDiff e } = _
  rw [hkept]

/-- **The two steps of a commit**: the verdicts with `guard`, and the diff with `save` if something
was saved, else with `guard`. -/
theorem commitSteps_stored (hopen : trail.open = none) (c : Committed isDiff) :
    (trail.commitSteps c).open = none ∧ ∃ guard save : StepEvent,
      guard.step = .guard ∧ save.step = .save ∧
        (trail.commitSteps c).stored = trail.stored ++
          if c.saved then
            (c.verdicts.map .event ++ [.step guard]) ++ ([.event c.diff] ++ [.step save])
          else (c.verdicts ++ [c.diff]).map .event ++ [.step guard] := by
  have hstart : trail.start .guard c.began =
      { trail with
        published := trail.published ++ [.started .guard c.began]
        «open» := some { step := .guard, startedAt := c.began } } := by
    unfold TurnTrail.start
    rw [hopen]
  have hheld : (c.verdicts.foldl TurnTrail.emit (trail.start .guard c.began)).emit c.diff =
      (c.verdicts ++ [c.diff]).foldl TurnTrail.emit (trail.start .guard c.began) := by
    rw [List.foldl_append]
    rfl
  unfold TurnTrail.commitSteps
  rw [hopen]
  dsimp only
  rw [hheld, hstart, foldl_emit_open rfl]
  generalize hguard : TurnTrail.mark _ c.status (some c.policyMs) = guarded
  have hstored : guarded.stored = trail.stored := by rw [← hguard]; rfl
  obtain ⟨run, hrun, hstep, hevents⟩ : ∃ run, guarded.open = some run ∧ run.step = .guard ∧
      run.events = c.verdicts ++ [c.diff] := by
    rw [← hguard]
    exact ⟨_, rfl, rfl, rfl⟩
  by_cases hsaved : c.saved = true
  · obtain ⟨hdiff, htaken, hleft⟩ := take_diff hrun hevents
    obtain ⟨hclosed, record, hrecord, -, -, hrows⟩ := finish_open hleft false c.totalMs
    rw [if_pos hsaved, hdiff]
    refine ⟨hclosed, record, ⟨.save, .done, c.began + c.policyMs, (c.totalMs - c.policyMs : Int).toNat⟩,
      hrecord.trans hstep, rfl, ?_⟩
    show (TurnTrail.finish _ false c.totalMs).stored ++ _ = _
    rw [if_pos hsaved, hrows, htaken, hstored, List.append_assoc]
    rfl
  · obtain ⟨hclosed, record, hrecord, -, -, hrows⟩ := finish_open hrun false c.totalMs
    rw [if_neg hsaved]
    refine ⟨hclosed, record, { record with step := .save }, hrecord.trans hstep, rfl, ?_⟩
    rw [if_neg hsaved, hrows, hstored, hevents]

end TurnTrail

/-! ## Nothing is lost -/

/-- Each event that was held before or is emitted (marked `true`) is stored or held after, and each
that is reported (marked `false`) is stored, all of them once and in order. -/
def Keeps (before after : TurnTrail E) (emitted reported : List E) : Prop :=
  ∃ marked : List (E × Bool),
    eventsOf after.stored = eventsOf before.stored ++ marked.map (·.1) ∧
      before.held ++ emitted = (marked.filter (·.2)).map (·.1) ++ after.held ∧
      (marked.filter (!·.2)).map (·.1) = reported

namespace Keeps

variable {trail trail' trail'' : TurnTrail E} {xs xs' ys ys' : List E}

/-- Only emitted events are stored. -/
theorem of_emitted (events : List E)
    (hstored : eventsOf trail'.stored = eventsOf trail.stored ++ events)
    (hheld : trail.held ++ xs = events ++ trail'.held) : Keeps trail trail' xs [] := by
  refine ⟨events.map (·, true), ?_, ?_, ?_⟩
  · rw [hstored, List.map_map]
    exact congrArg _ (List.map_id events).symm
  · rw [List.filter_eq_self.2, List.map_map, hheld]
    · exact congrArg (· ++ _) (List.map_id events).symm
    · intro e he
      obtain ⟨e', -, rfl⟩ := List.mem_map.1 he
      rfl
  · rw [List.filter_eq_nil_iff.2, List.map_nil]
    intro e he
    obtain ⟨e', -, rfl⟩ := List.mem_map.1 he
    exact Bool.false_ne_true

/-- Only reported events are stored. -/
theorem of_reported (events : List E)
    (hstored : eventsOf trail'.stored = eventsOf trail.stored ++ events)
    (hheld : trail'.held = trail.held) : Keeps trail trail' [] events := by
  refine ⟨events.map (·, false), ?_, ?_, ?_⟩
  · rw [hstored, List.map_map]
    exact congrArg _ (List.map_id events).symm
  · rw [List.filter_eq_nil_iff.2, List.map_nil, List.append_nil, List.nil_append, hheld]
    intro e he
    obtain ⟨e', -, rfl⟩ := List.mem_map.1 he
    exact Bool.false_ne_true
  · rw [List.filter_eq_self.2, List.map_map]
    · exact List.map_id events
    · intro e he
      obtain ⟨e', -, rfl⟩ := List.mem_map.1 he
      rfl

theorem refl (trail : TurnTrail E) : Keeps trail trail [] [] :=
  of_emitted [] (List.append_nil _).symm (List.append_nil _)

theorem trans (h : Keeps trail trail' xs ys) (h' : Keeps trail' trail'' xs' ys') :
    Keeps trail trail'' (xs ++ xs') (ys ++ ys') := by
  obtain ⟨marked, hstored, hheld, hreported⟩ := h
  obtain ⟨marked', hstored', hheld', hreported'⟩ := h'
  refine ⟨marked ++ marked', ?_, ?_, ?_⟩
  · rw [hstored', hstored, List.map_append, List.append_assoc]
  · rw [← List.append_assoc, hheld, List.append_assoc, hheld', List.filter_append, List.map_append,
      List.append_assoc]
  · rw [List.filter_append, List.map_append, hreported, hreported']

end Keeps

theorem held_of_open {trail : TurnTrail E} {run : StepRun E} (h : trail.open = some run) :
    trail.held = run.events := by
  rw [TurnTrail.held, h]

theorem held_of_closed {trail : TurnTrail E} (h : trail.open = none) : trail.held = [] := by
  rw [TurnTrail.held, h]

/-- An event that is emitted is held by the open step, or stored. -/
theorem emit_keeps (trail : TurnTrail E) (e : E) : Keeps trail (trail.emit e) [e] [] := by
  cases hopen : trail.open with
  | none =>
    have hemit : trail.emit e = trail.write [.event e] := by rw [TurnTrail.emit, hopen]
    have hclosed : (trail.write [.event e]).open = none := hopen
    rw [hemit]
    refine .of_emitted [e] (eventsOf_append _ _) ?_
    rw [held_of_closed hopen, held_of_closed hclosed]
    rfl
  | some run =>
    have hemit : trail.emit e =
        { trail with «open» := some { run with events := run.events ++ [e] } } := by
      rw [TurnTrail.emit, hopen]
    rw [hemit]
    refine .of_emitted [] (List.append_nil _).symm ?_
    rw [held_of_open hopen]
    rfl

theorem start_keeps (trail : TurnTrail E) (step : AgentStep) (start : Instant) :
    Keeps trail (trail.start step start) [] [] := by
  cases hopen : trail.open with
  | some run =>
    have hstart : trail.start step start = trail := by rw [TurnTrail.start, hopen]
    rw [hstart]
    exact .refl trail
  | none =>
    have hstored : (trail.start step start).stored = trail.stored := by rw [TurnTrail.start, hopen]
    have hheld : (trail.start step start).held = [] := by rw [TurnTrail.start, hopen]; rfl
    refine .of_emitted [] (by rw [hstored, List.append_nil]) ?_
    rw [hheld, held_of_closed hopen]

theorem mark_keeps (trail : TurnTrail E) (status : StepStatus) (latencyMs : Option Nat) :
    Keeps trail (trail.mark status latencyMs) [] [] := by
  refine .of_emitted [] (List.append_nil _).symm ?_
  rw [List.append_nil, List.nil_append]
  cases hopen : trail.open with
  | none =>
    rw [held_of_closed hopen, TurnTrail.held, TurnTrail.mark, hopen]
    rfl
  | some run =>
    rw [held_of_open hopen, TurnTrail.held, TurnTrail.mark, hopen]
    rfl

/-- What a step holds is stored when it ends. -/
theorem finish_keeps (trail : TurnTrail E) (raised : Bool) (measured : Nat) :
    Keeps trail (trail.finish raised measured) [] [] := by
  cases hopen : trail.open with
  | none =>
    have hfinish : trail.finish raised measured = trail := by rw [TurnTrail.finish, hopen]
    rw [hfinish]
    exact .refl trail
  | some run =>
    obtain ⟨hclosed, record, -, -, -, hstored⟩ := TurnTrail.finish_open hopen raised measured
    refine .of_emitted run.events ?_ ?_
    · rw [hstored, eventsOf_append, eventsOf_block]
    · rw [held_of_open hopen, held_of_closed hclosed]

/-- **A commit** loses nothing: what its steps hold is stored, the diff behind the verdicts. -/
theorem commit_keeps {trail : TurnTrail E} (hopen : trail.open = none) (c : Committed isDiff) :
    Keeps trail (trail.commitSteps c) (c.verdicts ++ [c.diff]) [] := by
  obtain ⟨hclosed, guard, save, -, -, hstored⟩ := TurnTrail.commitSteps_stored hopen c
  refine .of_emitted (c.verdicts ++ [c.diff]) ?_ ?_
  · rw [hstored, eventsOf_append]
    split
    · rw [eventsOf_append, eventsOf_block]
      rfl
    · rw [eventsOf_block]
  · rw [held_of_closed hopen, held_of_closed hclosed, List.append_nil, List.nil_append]

/-- **A call** loses nothing. -/
theorem call_keeps (trail : TurnTrail E) (c : Call isDiff) :
    Keeps trail (trail.call c) (c.emits trail) c.reports := by
  cases c with
  | emit e => exact emit_keeps trail e
  | start step start => exact start_keeps trail step start
  | mark status latencyMs => exact mark_keeps trail status latencyMs
  | finish raised measured => exact finish_keeps trail raised measured
  | report step status startedAt latencyMs events =>
    refine .of_reported events ?_ rfl
    exact (eventsOf_append _ _).trans (congrArg _ (eventsOf_block _ _))
  | commit c =>
    cases hopen : trail.open with
    | none =>
      have hemits : (Call.commit c).emits trail = c.verdicts ++ [c.diff] := by
        rw [Call.emits, hopen]
        rfl
      rw [hemits]
      exact commit_keeps hopen c
    | some run =>
      have hcall : trail.call (.commit c) = trail := by
        show trail.commitSteps c = trail
        rw [TurnTrail.commitSteps, hopen]
      have hemits : (Call.commit c).emits trail = [] := by
        rw [Call.emits, hopen]
        rfl
      rw [hcall, hemits]
      exact .refl trail

/-- **A run of calls** loses nothing. -/
theorem run_keeps (trail : TurnTrail E) (calls : List (Call isDiff)) :
    Keeps trail (trail.run calls) (emissions trail calls) (calls.flatMap Call.reports) := by
  induction calls generalizing trail with
  | nil => exact .refl trail
  | cons c cs ih => exact (call_keeps trail c).trans (ih (trail.call c))

theorem run_inStep {trail : TurnTrail E} (h : trail.InStep) (calls : List (Call isDiff)) :
    (trail.run calls).InStep := by
  induction calls generalizing trail with
  | nil => exact h
  | cons c cs ih => exact ih (h.call c)

/-! ## Steps -/

/-- A call inside the block of a step: the block has no step of its own. -/
def Call.Inner : Call isDiff → Prop
  | .finish .. | .commit .. => False
  | _ => True

/-- **Inside a step** what is emitted is held, behind what was. -/
theorem run_inner {trail : TurnTrail E} {run : StepRun E} (hopen : trail.open = some run)
    {calls : List (Call isDiff)} (hinner : ∀ c ∈ calls, c.Inner) :
    ∃ run', (trail.run calls).open = some run' ∧ run'.step = run.step ∧
      run'.startedAt = run.startedAt ∧ run'.events = run.events ++ emissions trail calls := by
  induction calls generalizing trail run with
  | nil => exact ⟨run, hopen, rfl, rfl, (List.append_nil _).symm⟩
  | cons c cs ih =>
    have hrest : ∀ c ∈ cs, c.Inner := fun c hc => hinner c (List.mem_cons_of_mem _ hc)
    obtain ⟨run', hopen', hstep, hstart, hevents⟩ : ∃ run', (trail.call c).open = some run' ∧
        run'.step = run.step ∧ run'.startedAt = run.startedAt ∧
          run'.events = run.events ++ c.emits trail := by
      cases c with
      | emit e =>
        refine ⟨{ run with events := run.events ++ [e] }, ?_, rfl, rfl, rfl⟩
        show (trail.emit e).open = _
        rw [TurnTrail.emit, hopen]
      | start step start =>
        refine ⟨run, ?_, rfl, rfl, (List.append_nil _).symm⟩
        show (trail.start step start).open = _
        rw [TurnTrail.start, hopen]
        exact hopen
      | mark status latencyMs =>
        refine ⟨{ run with status := status, latencyMs := latencyMs }, ?_, rfl, rfl,
          (List.append_nil _).symm⟩
        show trail.open.map _ = _
        rw [hopen]
        rfl
      | report => exact ⟨run, hopen, rfl, rfl, (List.append_nil _).symm⟩
      | finish => exact absurd (hinner _ List.mem_cons_self) id
      | commit => exact absurd (hinner _ List.mem_cons_self) id
    obtain ⟨run'', hopen'', hstep', hstart', hevents'⟩ := ih hopen' hrest
    refine ⟨run'', hopen'', hstep'.trans hstep, hstart'.trans hstart, ?_⟩
    rw [hevents', hevents, List.append_assoc]
    rfl

/-- **The trail of a turn loses nothing.**  After any calls, in any order and however their steps
end: the events that were emitted are stored, once each and in order, but for those that the open
step still holds; so are those that were reported; the client was told of what is stored, in the
order it is stored in.  When a step ends, what was emitted in it stands right before its record, and
a commit puts the verdicts before the record of `guard` and the diff before the record that closes
over it. -/
theorem trail_loses_nothing (calls : List (Call isDiff)) :
    (∃ marked : List (E × Bool),
      eventsOf (({} : TurnTrail E).run calls).stored = marked.map (·.1) ∧
        (marked.filter (·.2)).map (·.1) ++ (({} : TurnTrail E).run calls).held =
          emissions {} calls ∧
        (marked.filter (!·.2)).map (·.1) = calls.flatMap Call.reports) ∧
      replay (({} : TurnTrail E).run calls).published = (({} : TurnTrail E).run calls).stored ∧
      (∀ pre step start block raised measured post,
        calls = pre ++ .start step start :: block ++ .finish raised measured :: post →
          (({} : TurnTrail E).run pre).open = none → (∀ c ∈ block, c.Inner) →
            let before := ({} : TurnTrail E).run (pre ++ .start step start :: block)
            ∃ record : StepEvent, record.step = step ∧ record.startedAt = start ∧
              (raised = true → record.status = .failed) ∧
              (before.finish raised measured).open = none ∧
              (before.finish raised measured).stored = before.stored ++
                ((emissions ((({} : TurnTrail E).run pre).start step start) block).map .event ++
                  [.step record])) ∧
      ∀ pre c post, calls = pre ++ .commit c :: post →
        (({} : TurnTrail E).run pre).open = none → ∃ guard save : StepEvent,
          guard.step = .guard ∧ save.step = .save ∧
            (({} : TurnTrail E).run (pre ++ [.commit c])).stored =
              (({} : TurnTrail E).run pre).stored ++
                if c.saved then
                  (c.verdicts.map .event ++ [.step guard]) ++ ([.event c.diff] ++ [.step save])
                else (c.verdicts ++ [c.diff]).map .event ++ [.step guard] := by
  have hbegin : TurnTrail.InStep ({} : TurnTrail E) := rfl
  refine ⟨?_, run_inStep hbegin calls, ?_, ?_⟩
  · obtain ⟨marked, hstored, hheld, hreported⟩ := run_keeps ({} : TurnTrail E) calls
    exact ⟨marked, hstored, hheld.symm, hreported⟩
  · intro pre step start block raised measured post _ hclosed hinner
    have hopen : ((({} : TurnTrail E).run pre).start step start).open =
        some { step := step, startedAt := start } := by
      rw [TurnTrail.start, hclosed]
    have hrun : ({} : TurnTrail E).run (pre ++ .start step start :: block) =
        ((({} : TurnTrail E).run pre).start step start).run block :=
      List.foldl_append
    obtain ⟨run', hopen', hstep, hstart, hevents⟩ := run_inner hopen hinner
    rw [← hrun] at hopen'
    obtain ⟨hfinished, record, hrecord, hat, hstatus, hstored⟩ :=
      TurnTrail.finish_open hopen' raised measured
    refine ⟨record, hrecord.trans hstep, hat.trans hstart, hstatus, hfinished, ?_⟩
    rw [hstored, hevents]
    rfl
  · intro pre c post _ hclosed
    have hrun : ({} : TurnTrail E).run (pre ++ [.commit c]) =
        (({} : TurnTrail E).run pre).commitSteps c :=
      List.foldl_append
    obtain ⟨-, guard, save, hguard, hsave, hstored⟩ := TurnTrail.commitSteps_stored hclosed c
    exact ⟨guard, save, hguard, hsave, by rw [hrun, hstored]⟩

end

end Agent
end SecondMind
