import SecondMind.Agent.Trail
import SecondMind.Agent.Turn
import SecondMind.Core.Json
import SecondMind.Texts.EventStream

/-!
# The stream of a turn

What a running turn puts on its queue (`agent/runner.py`) and the server-sent frames that
`turn_stream` of `api/sse.py` makes of it.  The turn's trail writes to the store while others, such
as the reader of a link, may store events of the same turn; the store numbers them all.

* `Streaming` — the trail, the rows of the turn, and the queue;
* `Streaming.Told` — what the queue says of the trail and of the rows;
* `TurnRecord.finished`, `Streaming.finish` — `_finish`;
* `turnStream`, `frame_eq` — the frames, with keep-alives.
-/

namespace SecondMind
namespace Agent

open EventStream

/-! ## Turns as they are stored -/

inductive TraceStatus
  | recorded | unavailable | disabled
  deriving DecidableEq, Repr

/-- `Turn` of `agent/turns.py`. -/
structure TurnRecord where
  id : Uuid
  workspaceId : Uuid
  input : String
  output : Option String := none
  status : TurnStatus := .running
  startedAt : Instant
  finishedAt : Option Instant := none
  configHash : String
  promptVersions : List String := []
  models : List (String × Json) := []
  usage : Json
  traceStatus : TraceStatus := .disabled
  errorCode : Option String := none
  errorMessage : Option String := none
  kind : TurnKind := .user
  parentTurnId : Option Uuid := none

/-- The error that ends a turn. -/
structure ErrorEvent where
  code : String
  message : String
  step : Option String := none
  retryable : Bool := false

/-- `TurnOutcome`. -/
structure TurnOutcome where
  status : TurnStatus
  output : Option String
  usage : Json
  models : List (String × Json)
  promptVersions : List String
  traceStatus : TraceStatus
  finishedAt : Instant
  errorCode : Option String := none
  errorMessage : Option String := none

def internalErrorMessage : String :=
  "Something went wrong on our side, and this turn was not saved."

/-- What the end of a run knows: the answer and the error of its body, what was tallied, whether
the end can be stored, the input if it was redacted, and the event of the quota. -/
structure Closing (E : Type) where
  answer : Option String
  error : Option ErrorEvent
  usage : Json
  models : List (String × Json)
  promptVersions : List String
  traceStatus : TraceStatus
  finishedAt : Instant
  redacted : Option String
  stores : Bool
  /-- Events of the turn that others store before the quota's. -/
  between : List (TurnEvent E)
  quota : Option E

def Closing.outcome {E : Type} (c : Closing E) : TurnOutcome where
  status := if c.error.isSome then .failed else .completed
  output := if c.error.isSome then none else c.answer
  usage := c.usage
  models := c.models
  promptVersions := c.promptVersions
  traceStatus := c.traceStatus
  finishedAt := c.finishedAt
  errorCode := c.error.map ErrorEvent.code
  errorMessage := c.error.map ErrorEvent.message

namespace TurnRecord

/-- `TurnStore.finish`. -/
def withOutcome (row : TurnRecord) (outcome : TurnOutcome) : TurnRecord :=
  { row with
    status := outcome.status
    output := outcome.output
    finishedAt := some outcome.finishedAt
    usage := outcome.usage
    models := outcome.models
    promptVersions := outcome.promptVersions
    traceStatus := outcome.traceStatus
    errorCode := outcome.errorCode
    errorMessage := outcome.errorMessage }

/-- The turn that `_finish` reports: the row, or the turn of its start where the row cannot be
written. -/
def finished {E : Type} (turn : TurnRecord) (c : Closing E) : TurnRecord :=
  if c.stores then
    ({ turn with input := c.redacted.getD turn.input } : TurnRecord).withOutcome c.outcome
  else
    { turn with
      status := .failed
      errorCode := some "internal_error"
      errorMessage := some internalErrorMessage }

end TurnRecord

/-! ## The queue -/

/-- `TurnStreamEvent`. -/
inductive StreamEvent (E : Type)
  | turnStarted (turn : TurnRecord)
  | tokenDelta (text : String)
  | stepStarted (step : AgentStep) (start : Instant)
  | eventRecorded (seq : Nat) (e : TurnEvent E)
  | turnCompleted (turn : TurnRecord)
  | turnFailed (turn : TurnRecord)

/-- What happens while a turn runs. -/
inductive Doing (E : Type)
  | emit (e : E)
  | start (step : AgentStep) (start : Instant)
  | mark (status : StepStatus) (latencyMs : Option Nat)
  | take (matches_ : E → Bool)
  | finish (raised : Bool) (measured : Nat)
  | report (step : AgentStep) (status : StepStatus) (startedAt : Instant) (latencyMs : Int)
      (events : List E)
  | token (text : String)
  /-- Another writer stores an event of the turn. -/
  | stored (row : TurnEvent E)

section

variable {E : Type}

/-- What a doing does to the trail: one write at most. -/
def Doing.onTrail (trail : TurnTrail E) : Doing E → TurnTrail E
  | .emit e => trail.emit e
  | .start step began => trail.start step began
  | .mark status latencyMs => trail.mark status latencyMs
  | .take matches_ => (trail.take matches_).2
  | .finish raised measured => trail.finish raised measured
  | .report step status startedAt latencyMs events =>
    trail.report step status startedAt latencyMs events
  | .token _ | .stored _ => trail

/-- What is put on the queue: the store numbers a row as the next of the turn's. -/
def numbered (count : Nat) : List (Published E) → List (StreamEvent E)
  | [] => []
  | .started step start :: rest => .stepStarted step start :: numbered count rest
  | .recorded e :: rest => .eventRecorded (count + 1) e :: numbered (count + 1) rest

/-- A turn that runs: its trail, the turn's rows in the store, and what its queue got. -/
structure Streaming (E : Type) where
  trail : TurnTrail E := {}
  rows : List (TurnEvent E) := []
  queue : List (StreamEvent E) := []

namespace Streaming

/-- What the trail published between two of its states. -/
def news (before after : TurnTrail E) : List (Published E) :=
  after.published.drop before.published.length

/-- The trail writes and publishes. -/
def publish (s : Streaming E) (after : TurnTrail E) : Streaming E where
  trail := after
  rows := s.rows ++ replay (news s.trail after)
  queue := s.queue ++ numbered s.rows.length (news s.trail after)

def step (s : Streaming E) : Doing E → Streaming E
  | .token text => { s with queue := s.queue ++ [.tokenDelta text] }
  | .stored row => { s with rows := s.rows ++ [row] }
  | d => s.publish (d.onTrail s.trail)

def run (s : Streaming E) (doings : List (Doing E)) : Streaming E := doings.foldl step s

/-- `_finish`, up to its terminal event: the error's event and the quota's. -/
def finish (s : Streaming E) (asEvent : ErrorEvent → E) (c : Closing E) : Streaming E :=
  s.run ((c.error.toList.map fun error => .emit (asEvent error)) ++
    (c.between.map .stored ++ c.quota.toList.map .emit))

end Streaming

/-- The queue of a turn, from its start to its terminal event. -/
def queued (turn : TurnRecord) (asEvent : ErrorEvent → E) (doings : List (Doing E))
    (c : Closing E) : List (StreamEvent E) :=
  let s := (({} : Streaming E).run doings).finish asEvent c
  let final := turn.finished c
  .turnStarted turn :: (s.queue ++
    [if final.status = .completed then .turnCompleted final else .turnFailed final])

/-! ## What the queue says -/

def tokensOf (queue : List (StreamEvent E)) : List String :=
  queue.filterMap fun
    | .tokenDelta text => some text
    | _ => none

def startsOf (queue : List (StreamEvent E)) : List (AgentStep × Instant) :=
  queue.filterMap fun
    | .stepStarted step start => some (step, start)
    | _ => none

def recordedOf (queue : List (StreamEvent E)) : List (TurnEvent E × Nat) :=
  queue.filterMap fun
    | .eventRecorded seq e => some (e, seq)
    | _ => none

/-- The steps that a trail published. -/
def startedOf (published : List (Published E)) : List (AgentStep × Instant) :=
  published.filterMap fun
    | .started step start => some (step, start)
    | .recorded _ => none

/-- The texts that the doings write. -/
def tokenTexts (doings : List (Doing E)) : List String :=
  doings.filterMap fun
    | .token text => some text
    | _ => none

/-- Neither the start nor the end of a turn. -/
def StreamEvent.Within : StreamEvent E → Prop
  | .tokenDelta _ | .stepStarted _ _ | .eventRecorded _ _ => True
  | _ => False

theorem tokensOf_append (q q' : List (StreamEvent E)) :
    tokensOf (q ++ q') = tokensOf q ++ tokensOf q' :=
  List.filterMap_append

theorem startsOf_append (q q' : List (StreamEvent E)) :
    startsOf (q ++ q') = startsOf q ++ startsOf q' :=
  List.filterMap_append

theorem recordedOf_append (q q' : List (StreamEvent E)) :
    recordedOf (q ++ q') = recordedOf q ++ recordedOf q' :=
  List.filterMap_append

theorem startedOf_append (p p' : List (Published E)) :
    startedOf (p ++ p') = startedOf p ++ startedOf p' :=
  List.filterMap_append

/-- What is put on the queue has no token, its steps are the published ones, and its rows are
numbered on from what the store holds. -/
theorem numbered_told (count : Nat) (published : List (Published E)) :
    tokensOf (numbered count published) = [] ∧
      startsOf (numbered count published) = startedOf published ∧
      recordedOf (numbered count published) = (replay published).zipIdx (count + 1) ∧
      ∀ e ∈ numbered count published, e.Within := by
  induction published generalizing count with
  | nil =>
    refine ⟨rfl, rfl, rfl, ?_⟩
    intro e he
    cases he
  | cons p rest ih =>
    cases p with
    | started step start =>
      obtain ⟨htokens, hstarts, hrecorded, hwithin⟩ := ih count
      refine ⟨htokens, congrArg ((step, start) :: ·) hstarts, hrecorded, ?_⟩
      intro e he
      rcases List.mem_cons.1 he with rfl | he
      · exact trivial
      · exact hwithin e he
    | recorded row =>
      obtain ⟨htokens, hstarts, hrecorded, hwithin⟩ := ih (count + 1)
      refine ⟨htokens, hstarts, congrArg ((row, count + 1) :: ·) hrecorded, ?_⟩
      intro e he
      rcases List.mem_cons.1 he with rfl | he
      · exact trivial
      · exact hwithin e he

/-! ## The trail only adds -/

namespace TurnTrail

variable (trail : TurnTrail E)

theorem published_write (rows : List (TurnEvent E)) :
    trail.published <+: (trail.write rows).published :=
  List.prefix_append _ _

theorem published_emit (e : E) : trail.published <+: (trail.emit e).published := by
  unfold TurnTrail.emit
  split
  · exact List.prefix_refl _
  · exact trail.published_write _

theorem published_start (step : AgentStep) (start : Instant) :
    trail.published <+: (trail.start step start).published := by
  unfold TurnTrail.start
  split
  · exact List.prefix_refl _
  · exact List.prefix_append _ _

theorem published_take (matches_ : E → Bool) :
    trail.published <+: (trail.take matches_).2.published := by
  unfold TurnTrail.take
  split
  · exact List.prefix_refl _
  · exact List.prefix_refl _

theorem published_finish (raised : Bool) (measured : Nat) :
    trail.published <+: (trail.finish raised measured).published := by
  unfold TurnTrail.finish
  split
  · exact List.prefix_refl _
  · exact published_write { trail with «open» := none } _

theorem published_report (step : AgentStep) (status : StepStatus) (startedAt : Instant)
    (latencyMs : Int) (events : List E) :
    trail.published <+: (trail.report step status startedAt latencyMs events).published :=
  (List.prefix_append _ _).trans
    (published_write
      { trail with published := trail.published ++ [.started step startedAt] } _)

end TurnTrail

/-- A doing publishes behind what was published, and keeps the trail in step with the store. -/
theorem Doing.onTrail_adds (d : Doing E) (trail : TurnTrail E) :
    trail.published <+: (d.onTrail trail).published ∧
      (trail.InStep → (d.onTrail trail).InStep) := by
  cases d with
  | emit e => exact ⟨trail.published_emit e, fun h => h.emit e⟩
  | start step start => exact ⟨trail.published_start step start, fun h => h.start step start⟩
  | mark status latencyMs => exact ⟨List.prefix_refl _, fun h => h.mark status latencyMs⟩
  | take matches_ => exact ⟨trail.published_take matches_, fun h => h.take matches_⟩
  | finish raised measured =>
    exact ⟨trail.published_finish raised measured, fun h => h.finish raised measured⟩
  | report step status startedAt latencyMs events =>
    exact ⟨trail.published_report _ _ _ _ _, fun h => h.report _ _ _ _ _⟩
  | token text => exact ⟨List.prefix_refl _, id⟩
  | stored row => exact ⟨List.prefix_refl _, id⟩

namespace Streaming

/-- What the queue says: the steps that began, the texts that were written, and the rows that the
trail stored, in order, each with its place among the rows of the turn. -/
structure Told (s : Streaming E) (tokens : List String) : Prop where
  inStep : s.trail.InStep
  tokens_eq : tokensOf s.queue = tokens
  starts_eq : startsOf s.queue = startedOf s.trail.published
  rows_eq : (recordedOf s.queue).map Prod.fst = s.trail.stored
  places : (recordedOf s.queue).Sublist (s.rows.zipIdx 1)
  within : ∀ e ∈ s.queue, e.Within

theorem Told.begin : Told ({} : Streaming E) [] where
  inStep := rfl
  tokens_eq := rfl
  starts_eq := rfl
  rows_eq := rfl
  places := List.Sublist.refl _
  within e he := by cases he

/-- **The trail publishes**: what it stored is told behind what was told. -/
theorem Told.publish {s : Streaming E} {tokens : List String} (h : s.Told tokens)
    {after : TurnTrail E} (hadds : s.trail.published <+: after.published) (hafter : after.InStep) :
    (s.publish after).Told tokens := by
  obtain ⟨added, hadded⟩ := hadds
  have hnews : news s.trail after = added := by
    rw [news, ← hadded, List.drop_left]
  obtain ⟨htokens, hstarts, hrecorded, hwithin⟩ := numbered_told s.rows.length added
  have hstored : after.stored = s.trail.stored ++ replay added := by
    rw [← h.inStep, ← hafter, ← hadded, replay_append]
  have hqueue : (s.publish after).queue = s.queue ++ numbered s.rows.length added := by
    rw [Streaming.publish, hnews]
  have hrows : (s.publish after).rows = s.rows ++ replay added := by
    rw [Streaming.publish, hnews]
  constructor
  · exact hafter
  · rw [hqueue, tokensOf_append, htokens, List.append_nil, h.tokens_eq]
  · rw [hqueue, startsOf_append, hstarts, h.starts_eq, ← startedOf_append, hadded]
    rfl
  · rw [hqueue, recordedOf_append, hrecorded, List.map_append, h.rows_eq, List.zipIdx_map_fst]
    exact hstored.symm
  · rw [hqueue, hrows, recordedOf_append, hrecorded, List.zipIdx_append, Nat.add_comm 1]
    exact h.places.append (List.Sublist.refl _)
  · intro e he
    rw [hqueue] at he
    rcases List.mem_append.1 he with he | he
    · exact h.within e he
    · exact hwithin e he

/-- **A doing** is told. -/
theorem Told.step {s : Streaming E} {tokens : List String} (h : s.Told tokens) (d : Doing E) :
    (s.step d).Told (tokens ++ tokenTexts [d]) := by
  have hpublish := h.publish (d.onTrail_adds s.trail).1 ((d.onTrail_adds s.trail).2 h.inStep)
  cases d with
  | token text =>
    constructor
    · exact h.inStep
    · exact (tokensOf_append _ _).trans (congrArg (· ++ [text]) h.tokens_eq)
    · exact (startsOf_append _ _).trans ((List.append_nil _).trans h.starts_eq)
    · exact (congrArg _ ((recordedOf_append _ _).trans (List.append_nil _))).trans h.rows_eq
    · have hsame : recordedOf (s.step (.token text)).queue = recordedOf s.queue :=
        (recordedOf_append _ _).trans (List.append_nil _)
      rw [hsame]
      exact h.places
    · intro e he
      rcases List.mem_append.1 he with he | he
      · exact h.within e he
      · rw [List.mem_singleton.1 he]
        exact trivial
  | stored row =>
    rw [show tokenTexts [Doing.stored row] = ([] : List String) from rfl, List.append_nil]
    refine ⟨h.inStep, h.tokens_eq, h.starts_eq, h.rows_eq, ?_, h.within⟩
    show (recordedOf s.queue).Sublist ((s.rows ++ [row]).zipIdx 1)
    rw [List.zipIdx_append]
    exact h.places.trans (List.sublist_append_left _ _)
  | emit e => exact (List.append_nil tokens).symm ▸ hpublish
  | start step start => exact (List.append_nil tokens).symm ▸ hpublish
  | mark status latencyMs => exact (List.append_nil tokens).symm ▸ hpublish
  | take matches_ => exact (List.append_nil tokens).symm ▸ hpublish
  | finish raised measured => exact (List.append_nil tokens).symm ▸ hpublish
  | report step status startedAt latencyMs events => exact (List.append_nil tokens).symm ▸ hpublish

/-- **A run of doings** is told. -/
theorem Told.run {s : Streaming E} {tokens : List String} (h : s.Told tokens)
    (doings : List (Doing E)) : (s.run doings).Told (tokens ++ tokenTexts doings) := by
  induction doings generalizing s tokens with
  | nil =>
    rw [show tokenTexts ([] : List (Doing E)) = [] from rfl, List.append_nil]
    exact h
  | cons d doings ih =>
    have hsplit : tokenTexts (d :: doings) = tokenTexts [d] ++ tokenTexts doings :=
      List.filterMap_append (l := [d])
    rw [hsplit, ← List.append_assoc]
    exact ih (h.step d)

/-- The end of a turn writes no text. -/
theorem Told.finish {s : Streaming E} {tokens : List String} (h : s.Told tokens)
    (asEvent : ErrorEvent → E) (c : Closing E) : (s.finish asEvent c).Told tokens := by
  have hnone : tokenTexts ((c.error.toList.map fun error => Doing.emit (asEvent error)) ++
      (c.between.map Doing.stored ++ c.quota.toList.map Doing.emit)) = [] := by
    refine List.filterMap_eq_nil_iff.2 ?_
    intro d hd
    rcases List.mem_append.1 hd with hd | hd
    · obtain ⟨_, -, rfl⟩ := List.mem_map.1 hd
      rfl
    · rcases List.mem_append.1 hd with hd | hd
      · obtain ⟨_, -, rfl⟩ := List.mem_map.1 hd
        rfl
      · obtain ⟨_, -, rfl⟩ := List.mem_map.1 hd
        rfl
  have hrun := h.run ((c.error.toList.map fun error => Doing.emit (asEvent error)) ++
    (c.between.map Doing.stored ++ c.quota.toList.map Doing.emit))
  rw [hnone, List.append_nil] at hrun
  exact hrun

end Streaming

end

/-! ## Frames -/

/-- How the values of a payload are written, which the libraries decide. -/
structure Formats (E : Type) where
  id : Uuid → String
  time : Instant → String
  event : TurnEvent E → Json

/-- `model_dump_json` of a payload, and `JSON.parse`. -/
structure Codec where
  dump : Json → List Char
  parse : List Char → Option Json

/-- The text of a payload is one line, and is read back as it was. -/
def Codec.Exact (codec : Codec) (data : Json) : Prop :=
  Line (codec.dump data) ∧ codec.parse (codec.dump data) = some data

def AgentStep.value : AgentStep → String
  | .understand => "understand"
  | .extract => "extract"
  | .dates => "dates"
  | .entities => "entities"
  | .reconcile => "reconcile"
  | .enrich => "enrich"
  | .guard => "guard"
  | .save => "save"
  | .answer => "answer"
  | .undo => "undo"
  | .confirm => "confirm"
  | .plan => "plan"
  | .search => "search"
  | .rank => "rank"
  | .triggers => "triggers"
  | .fetch => "fetch"
  | .blocked => "blocked"

def TurnStatus.value : TurnStatus → String
  | .running => "running"
  | .completed => "completed"
  | .failed => "failed"

def TraceStatus.value : TraceStatus → String
  | .recorded => "recorded"
  | .unavailable => "unavailable"
  | .disabled => "disabled"

def turnKindValue : TurnKind → String
  | .user => "user"
  | .undo => "undo"
  | .confirm => "confirm"
  | .edit => "edit"
  | .system => "system"

/-- A value that may be `None`. -/
def orNull {α : Type} (json : α → Json) : Option α → Json
  | some a => json a
  | none => .null

structure TurnError where
  code : String
  message : String

def TurnError.json (error : TurnError) : Json :=
  .obj [("code", .str error.code), ("message", .str error.message)]

/-- `TurnOut.of`: an error is shown when the turn has a code. -/
def TurnRecord.error (turn : TurnRecord) : Option TurnError :=
  match turn.errorCode with
  | some code => if code = "" then none else some ⟨code, turn.errorMessage.getD ""⟩
  | none => none

section

variable {E : Type}

/-- The payload of `TurnOut.of`. -/
def TurnRecord.out (w : Formats E) (turn : TurnRecord) (traceUrl : Option String) : Json :=
  .obj [("id", .str (w.id turn.id)),
    ("workspace_id", .str (w.id turn.workspaceId)),
    ("input", .str turn.input),
    ("output", orNull .str turn.output),
    ("status", .str turn.status.value),
    ("started_at", .str (w.time turn.startedAt)),
    ("finished_at", orNull (fun time => .str (w.time time)) turn.finishedAt),
    ("config_hash", .str turn.configHash),
    ("prompt_versions", .arr (turn.promptVersions.map .str)),
    ("models", .obj turn.models),
    ("usage", turn.usage),
    ("trace", .obj [("status", .str turn.traceStatus.value),
      ("url", if turn.traceStatus = .recorded then orNull .str traceUrl else .null)]),
    ("error", orNull TurnError.json turn.error),
    ("kind", .str (turnKindValue turn.kind)),
    ("parent_turn_id", orNull (fun id => .str (w.id id)) turn.parentTurnId)]

/-- `_quota`: what cannot be read is not sent. -/
def quotaRead : Option (Except Unit Json) → Json
  | some (.ok usage) => usage
  | _ => .null

/-- The name and the payload of a frame. -/
def StreamEvent.payload (w : Formats E) (traceUrl : Option String)
    (quotaAfter : Option (Except Unit Json)) : StreamEvent E → String × Json
  | .turnStarted turn =>
    ("turn.started", .obj [("turn_id", .str (w.id turn.id)),
      ("workspace_id", .str (w.id turn.workspaceId)),
      ("started_at", .str (w.time turn.startedAt))])
  | .tokenDelta text => ("token", .obj [("text", .str text)])
  | .stepStarted step start =>
    ("step.started", .obj [("step", .str step.value), ("at", .str (w.time start))])
  | .eventRecorded seq e => ("turn.event", .obj [("seq", .num seq), ("event", w.event e)])
  | .turnCompleted turn =>
    ("turn.completed", .obj [("turn_id", .str (w.id turn.id)), ("usage", turn.usage),
      ("turn", turn.out w traceUrl), ("quota", quotaRead quotaAfter)])
  | .turnFailed turn =>
    ("turn.failed", .obj [("turn_id", .str (w.id turn.id)),
      ("error", TurnError.json
        ⟨turn.errorCode.filter (· ≠ "") |>.getD "internal_error", turn.errorMessage.getD ""⟩),
      ("usage", turn.usage), ("turn", turn.out w traceUrl), ("quota", quotaRead quotaAfter)])

def frame (codec : Codec) (event : String) (data : Json) : List Char :=
  "event: ".toList ++ event.toList ++ "\ndata: ".toList ++ codec.dump data ++ "\n\n".toList

def keepAlive : List Char := ": keep-alive\n\n".toList

/-- `turn_stream`: the frame of every event, and a comment each time that none came in time. -/
def turnStream (codec : Codec) (w : Formats E) (traceUrl : Option String)
    (quotaAfter : Option (Except Unit Json)) (answers : List (Option (StreamEvent E))) :
    List (List Char) :=
  answers.map fun
    | some e => frame codec (e.payload w traceUrl quotaAfter).1 (e.payload w traceUrl quotaAfter).2
    | none => keepAlive

/-- A frame is a message of the stream. -/
theorem frame_eq (codec : Codec) (event : String) (data : Json) :
    frame codec event data =
      (EventStream.Block.message ⟨event.toList, codec.dump data⟩).text := by
  have hevent : "event: ".toList = eventName ++ [':', ' '] := by decide
  have hdata : "\ndata: ".toList = '\n' :: (dataName ++ [':', ' ']) := by decide
  have hend : "\n\n".toList = ['\n', '\n'] := by decide
  unfold frame
  rw [hevent, hdata, hend]
  simp only [EventStream.Block.text, field, List.append_assoc, List.cons_append, List.nil_append]

theorem keepAlive_eq :
    keepAlive = (EventStream.Block.comment [' ', 'k', 'e', 'e', 'p', '-', 'a', 'l', 'i', 'v', 'e']).text := by
  decide

end

end Agent
end SecondMind
