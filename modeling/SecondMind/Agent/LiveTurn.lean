import SecondMind.Agent.Stream

/-!
# A turn as its client sees it

`streamTurn` of `api/client.ts` and the `send` of `hooks/useConversation.ts`: what the client makes
of the frames of a turn while they arrive.

* `ChatTurn.apply` — one frame;
* `ChatTurn.receive` — the frames as they come out of the stream's reader;
* `turn_reaches_client` — what the client shows, at any moment and at the end.
-/

namespace SecondMind
namespace Agent

open EventStream

/-! ## The client -/

/-- A member of a value; a value that is missing is `null` here. -/
def jsonMember (name : String) : Json → Json
  | .obj members => (members.lookup name).getD .null
  | _ => .null

/-- `a ?? b`. -/
def orElse (a b : Json) : Json := if a = .null then b else a

/-- A text among chunks, as `join` reads it. -/
def chunkText : Json → String
  | .str text => text
  | _ => ""

def joined (chunks : List Json) : String := String.join (chunks.map chunkText)

inductive ChatStatus
  | streaming | completed | failed | running
  deriving DecidableEq, Repr

structure StepStart where
  step : Json
  start : Json
  deriving DecidableEq

structure TrailEvent where
  seq : Json
  event : Json
  deriving DecidableEq

/-- `ChatTurn` of a message. -/
structure ChatTurn where
  key : String
  id : Json := .null
  kind : String := "user"
  input : String
  chunks : List Json := []
  status : ChatStatus := .streaming
  turn : Json := .null
  error : Json := .null
  events : List TrailEvent := []
  starts : List StepStart := []
  live : Bool := true
  sentAt : Json
  quotaAfter : Json := .null
  deriving DecidableEq

inductive FrameName
  | turnStarted | token | stepStarted | turnEvent | turnCompleted | turnFailed
  deriving DecidableEq, Repr

def FrameName.value : FrameName → String
  | .turnStarted => "turn.started"
  | .token => "token"
  | .stepStarted => "step.started"
  | .turnEvent => "turn.event"
  | .turnCompleted => "turn.completed"
  | .turnFailed => "turn.failed"

/-- `FRAME_NAMES`. -/
def frameNames : List FrameName :=
  [.turnStarted, .token, .stepStarted, .turnEvent, .turnCompleted, .turnFailed]

def FrameName.of (event : String) : Option FrameName :=
  frameNames.find? fun name => name.value = event

theorem FrameName.of_value (name : FrameName) : FrameName.of name.value = some name := by
  cases name <;> decide

theorem FrameName.line_value (name : FrameName) : Line name.value.toList := by
  cases name <;> decide

namespace ChatTurn

/-- The last frame: the chunks are kept when they add up to the reply. -/
def ended (t : ChatTurn) (failed : Bool) (data : Json) : ChatTurn :=
  let turn := jsonMember "turn" data
  let output := orElse (jsonMember "output" turn) (.str "")
  { t with
    status := if failed then .failed else .completed
    turn := turn
    chunks := if failed ∨ .str (joined t.chunks) = output then t.chunks else [output]
    error := if failed then
      orElse (jsonMember "message" (jsonMember "error" turn)) (.str "This turn failed.") else .null
    quotaAfter := orElse (jsonMember "quota" data) .null }

/-- A frame of the stream. -/
def apply (t : ChatTurn) (data : Json) : FrameName → ChatTurn
  | .turnStarted =>
    { t with id := jsonMember "turn_id" data, sentAt := jsonMember "started_at" data }
  | .token => { t with chunks := t.chunks ++ [jsonMember "text" data] }
  | .stepStarted =>
    { t with starts := t.starts ++ [⟨jsonMember "step" data, jsonMember "at" data⟩] }
  | .turnEvent =>
    { t with events := t.events ++ [⟨jsonMember "seq" data, jsonMember "event" data⟩] }
  | .turnCompleted => t.ended false data
  | .turnFailed => t.ended true data

/-- The frames that come out of the reader: one with another name is passed over, and one that
cannot be parsed ends the loop with the error of `JSON.parse`. -/
def receive (codec : Codec) (syntaxError : String) (t : ChatTurn) : List Message → ChatTurn
  | [] => t
  | m :: rest =>
    match FrameName.of (String.ofList m.event) with
    | none => receive codec syntaxError t rest
    | some name =>
      match codec.parse m.data with
      | some data => receive codec syntaxError (t.apply data name) rest
      | none => { t with status := .failed, error := .str syntaxError }

end ChatTurn

/-! ## What the client makes of an event -/

section

variable {E : Type} (codec : Codec) (w : Formats E) (traceUrl : Option String)
  (quotaAfter : Option (Except Unit Json))

def StreamEvent.name : StreamEvent E → FrameName
  | .turnStarted _ => .turnStarted
  | .tokenDelta _ => .token
  | .stepStarted _ _ => .stepStarted
  | .eventRecorded _ _ => .turnEvent
  | .turnCompleted _ => .turnCompleted
  | .turnFailed _ => .turnFailed

/-- The names of the two sides are the same. -/
theorem payload_name (e : StreamEvent E) :
    (e.payload w traceUrl quotaAfter).1 = e.name.value := by
  cases e <;> rfl

/-- What the client makes of an event. -/
def ChatTurn.told (t : ChatTurn) (e : StreamEvent E) : ChatTurn :=
  t.apply (e.payload w traceUrl quotaAfter).2 e.name

/-- The message of an event. -/
def StreamEvent.message (e : StreamEvent E) : Message :=
  ⟨(e.payload w traceUrl quotaAfter).1.toList, codec.dump (e.payload w traceUrl quotaAfter).2⟩

/-- The block of an answer of the queue. -/
def answerBlock : Option (StreamEvent E) → EventStream.Block
  | some e => .message (e.message codec w traceUrl quotaAfter)
  | none => .comment [' ', 'k', 'e', 'e', 'p', '-', 'a', 'l', 'i', 'v', 'e']

/-- The stream is a text of blocks. -/
theorem turnStream_text (answers : List (Option (StreamEvent E))) :
    (turnStream codec w traceUrl quotaAfter answers).flatten =
      (answers.map (answerBlock codec w traceUrl quotaAfter)).flatMap EventStream.Block.text := by
  induction answers with
  | nil => rfl
  | cons a answers ih =>
    rw [turnStream] at ih
    rw [turnStream, List.map_cons, List.flatten_cons, ih, List.map_cons, List.flatMap_cons]
    cases a with
    | none => exact congrArg (· ++ _) keepAlive_eq
    | some e => exact congrArg (· ++ _) (frame_eq codec _ _)

/-- The keep-alives give nothing. -/
theorem given_answers (answers : List (Option (StreamEvent E))) :
    (answers.map (answerBlock codec w traceUrl quotaAfter)).filterMap EventStream.Block.given =
      answers.reduceOption.map (StreamEvent.message codec w traceUrl quotaAfter) := by
  induction answers with
  | nil => rfl
  | cons a answers ih =>
    cases a with
    | none => exact ih
    | some e => exact congrArg (_ :: ·) ih

/-- The payload of an event is exact. -/
def StreamEvent.Sent (e : StreamEvent E) : Prop :=
  codec.Exact (e.payload w traceUrl quotaAfter).2

theorem lines_answers {answers : List (Option (StreamEvent E))}
    (h : ∀ e ∈ answers.reduceOption, e.Sent codec w traceUrl quotaAfter) :
    ∀ b ∈ answers.map (answerBlock codec w traceUrl quotaAfter), b.Lines := by
  intro b hb
  obtain ⟨a, ha, rfl⟩ := List.mem_map.1 hb
  cases a with
  | none =>
    show Line _
    decide
  | some e =>
    refine ⟨?_, (h e (List.reduceOption_mem_iff.2 ha)).1⟩
    show Line (e.payload w traceUrl quotaAfter).1.toList
    rw [payload_name]
    exact e.name.line_value

/-- **What is received**: the client makes of each event what it makes of it alone. -/
theorem receive_events (syntaxError : String) (t : ChatTurn) {events : List (StreamEvent E)}
    (h : ∀ e ∈ events, e.Sent codec w traceUrl quotaAfter) :
    t.receive codec syntaxError (events.map (StreamEvent.message codec w traceUrl quotaAfter)) =
      events.foldl (ChatTurn.told w traceUrl quotaAfter) t := by
  induction events generalizing t with
  | nil => rfl
  | cons e events ih =>
    have hrest := ih (t.told w traceUrl quotaAfter e)
      fun e' he' => h e' (List.mem_cons_of_mem e he')
    have hsent := (h e List.mem_cons_self).2
    rw [List.foldl_cons, ← hrest, List.map_cons, ChatTurn.receive, StreamEvent.message]
    simp only [String.ofList_toList, payload_name, FrameName.of_value, hsent]
    rfl

/-- **The stream carries the queue**, however its text is cut and whatever keep-alives stand in it;
a part of the text carries a part of the queue. -/
theorem receive_stream (source : EventSource) {answers : List (Option (StreamEvent E))}
    (hsent : ∀ e ∈ answers.reduceOption, e.Sent codec w traceUrl quotaAfter)
    {chunks : List (List Char)}
    (hchunks : chunks.flatten = (turnStream codec w traceUrl quotaAfter answers).flatten)
    (syntaxError : String) (t : ChatTurn) :
    t.receive codec syntaxError (source.read chunks) =
        answers.reduceOption.foldl (ChatTurn.told w traceUrl quotaAfter) t ∧
      ∀ pre post, chunks = pre ++ post → ∃ part, part <+: answers.reduceOption ∧
        t.receive codec syntaxError (source.read pre) =
          part.foldl (ChatTurn.told w traceUrl quotaAfter) t := by
  rw [turnStream_text] at hchunks
  have hread := source.read_blocks (lines_answers codec w traceUrl quotaAfter hsent) hchunks
  rw [given_answers] at hread
  refine ⟨?_, ?_⟩
  · rw [hread]
    exact receive_events codec w traceUrl quotaAfter syntaxError t hsent
  · intro pre post hcut
    have hprefix : source.read pre <+: source.read chunks := by
      rw [hcut]
      exact source.readFrom_prefix _ pre post
    rw [hread] at hprefix
    obtain ⟨part, hpart, hmessages⟩ := List.prefix_map_iff.1 hprefix
    refine ⟨part, hpart, ?_⟩
    rw [hmessages]
    exact receive_events codec w traceUrl quotaAfter syntaxError t
      fun e he => hsent e (hpart.subset he)

/-! ## What is shown -/

def shownStart (s : AgentStep × Instant) : StepStart := ⟨.str s.1.value, .str (w.time s.2)⟩

def shownEvent (p : TurnEvent E × Nat) : TrailEvent := ⟨.num p.2, w.event p.1⟩

/-- Between the start and the end of a turn the client adds what it is told. -/
theorem told_within (t : ChatTurn) {events : List (StreamEvent E)} (h : ∀ e ∈ events, e.Within) :
    events.foldl (ChatTurn.told w traceUrl quotaAfter) t =
      { t with
        chunks := t.chunks ++ (tokensOf events).map .str
        starts := t.starts ++ (startsOf events).map (shownStart w)
        events := t.events ++ (recordedOf events).map (shownEvent w) } := by
  induction events generalizing t with
  | nil =>
    simp only [List.foldl_nil, tokensOf, startsOf, recordedOf, List.filterMap_nil, List.map_nil,
      List.append_nil]
  | cons e events ih =>
    have hevents : ∀ e' ∈ events, e'.Within := fun e' he' => h e' (List.mem_cons_of_mem e he')
    rw [List.foldl_cons, ih _ hevents]
    cases e with
    | tokenDelta text =>
      have htokens : tokensOf (.tokenDelta text :: events) = text :: tokensOf events := rfl
      rw [htokens, List.map_cons, List.append_cons]
      rfl
    | stepStarted step start =>
      have hstarts : startsOf (.stepStarted step start :: events) =
          (step, start) :: startsOf events := rfl
      rw [hstarts, List.map_cons, List.append_cons]
      rfl
    | eventRecorded seq row =>
      have hrecorded : recordedOf (.eventRecorded seq row :: events) =
          (row, seq) :: recordedOf events := rfl
      rw [hrecorded, List.map_cons, List.append_cons]
      rfl
    | turnStarted turn => exact absurd (h _ List.mem_cons_self) id
    | turnCompleted turn => exact absurd (h _ List.mem_cons_self) id
    | turnFailed turn => exact absurd (h _ List.mem_cons_self) id

theorem joined_tokens (tokens : List String) : joined (tokens.map .str) = String.join tokens := by
  rw [joined, List.map_map]
  exact congrArg String.join (List.map_id tokens)

/-- What `send` begins with. -/
def ChatTurn.asked (key message now : String) : ChatTurn where
  key := key
  input := message
  sentAt := .str now

/-- The client after the first frame, and after others that came before the last. -/
def midway (asked : ChatTurn) (turn : TurnRecord) (events : List (StreamEvent E)) : ChatTurn :=
  events.foldl (ChatTurn.told w traceUrl quotaAfter)
    (asked.told w traceUrl quotaAfter (.turnStarted turn))

theorem midway_eq (asked : ChatTurn) (turn : TurnRecord) {events : List (StreamEvent E)}
    (h : ∀ e ∈ events, e.Within) :
    midway w traceUrl quotaAfter asked turn events =
      { asked with
        id := .str (w.id turn.id)
        sentAt := .str (w.time turn.startedAt)
        chunks := asked.chunks ++ (tokensOf events).map .str
        starts := asked.starts ++ (startsOf events).map (shownStart w)
        events := asked.events ++ (recordedOf events).map (shownEvent w) } :=
  told_within w traceUrl quotaAfter _ h

/-- The status of the last turn. -/
theorem finished_status (turn : TurnRecord) (c : Closing E) :
    (turn.finished c).status =
      if c.error = none ∧ c.stores = true then .completed else .failed := by
  unfold TurnRecord.finished
  by_cases hstores : c.stores = true
  · rw [if_pos hstores]
    cases herror : c.error with
    | none =>
      rw [if_pos ⟨rfl, hstores⟩]
      simp [TurnRecord.withOutcome, Closing.outcome, herror]
    | some error =>
      rw [if_neg fun h => by cases h.1]
      simp [TurnRecord.withOutcome, Closing.outcome, herror]
  · rw [if_neg hstores, if_neg fun h => hstores h.2]

/-- The error that a client is shown for a turn that failed. -/
def Closing.shownError (c : Closing E) : String :=
  match c.error with
  | some error =>
    if c.stores then if error.code = "" then "This turn failed." else error.message
    else internalErrorMessage
  | none => internalErrorMessage

/-- The text of the error is the one of the payload. -/
theorem failed_error {turn : TurnRecord} {c : Closing E}
    (h : ¬ (c.error = none ∧ c.stores = true)) :
    orElse (jsonMember "message" (orNull TurnError.json (turn.finished c).error))
      (.str "This turn failed.") = .str c.shownError := by
  have hmessage : ∀ code message : String, (TurnError.json ⟨code, message⟩) =
      .obj [("code", .str code), ("message", .str message)] := fun _ _ => rfl
  unfold TurnRecord.finished TurnRecord.error Closing.shownError
  by_cases hstores : c.stores = true
  · cases herror : c.error with
    | none => exact absurd ⟨herror, hstores⟩ h
    | some error =>
      simp only [if_pos hstores, TurnRecord.withOutcome, Closing.outcome, herror, Option.map_some]
      by_cases hcode : error.code = ""
      · rw [if_pos hcode, if_pos hcode]
        decide
      · rw [if_neg hcode, if_neg hcode]
        rfl
  · have hshown : (match c.error with
        | some error =>
          if c.stores = true then
            if error.code = "" then "This turn failed." else error.message
          else internalErrorMessage
        | none => internalErrorMessage) = internalErrorMessage := by
      cases c.error with
      | none => rfl
      | some error => exact if_neg hstores
    rw [hshown]
    simp only [if_neg hstores]
    decide

/-- The output of a turn that is completed. -/
theorem finished_output (turn : TurnRecord) {c : Closing E} (herror : c.error = none)
    (hstores : c.stores = true) : (turn.finished c).output = c.answer := by
  unfold TurnRecord.finished
  rw [if_pos hstores]
  simp [TurnRecord.withOutcome, Closing.outcome, herror]

theorem orElse_null (a : Json) : orElse a .null = a := by
  unfold orElse
  split
  · next h => exact h.symm
  · rfl

theorem orElse_output (output : Option String) :
    orElse (orNull .str output) (.str "") = .str (output.getD "") := by
  cases output with
  | none => rfl
  | some text => rfl

/-- The terminal event. -/
def lastEvent (turn : TurnRecord) (c : Closing E) : StreamEvent E :=
  if (turn.finished c).status = .completed then .turnCompleted (turn.finished c)
  else .turnFailed (turn.finished c)

/-- **The last frame** of a turn that is completed. -/
theorem told_completed (t : ChatTurn) {turn : TurnRecord} {c : Closing E} (herror : c.error = none)
    (hstores : c.stores = true) :
    t.told w traceUrl quotaAfter (lastEvent turn c) =
      { t with
        status := .completed
        turn := (turn.finished c).out w traceUrl
        chunks := if joined t.chunks = c.answer.getD "" then t.chunks
          else [.str (c.answer.getD "")]
        error := .null
        quotaAfter := quotaRead quotaAfter } := by
  have hlast : lastEvent turn c = .turnCompleted (turn.finished c) := by
    have hstatus := finished_status turn c
    rw [if_pos ⟨herror, hstores⟩] at hstatus
    exact if_pos hstatus
  have houtput : jsonMember "output" ((turn.finished c).out w traceUrl) =
      orNull .str c.answer := by
    rw [← finished_output turn herror hstores]
    rfl
  rw [hlast]
  show t.ended false (.obj _) = _
  have hturn : ∀ a b q : Json, jsonMember "turn" (.obj [("turn_id", a), ("usage", b),
      ("turn", (turn.finished c).out w traceUrl), ("quota", q)]) =
        (turn.finished c).out w traceUrl := fun _ _ _ => rfl
  have hquota : ∀ a b d q : Json, jsonMember "quota" (.obj [("turn_id", a), ("usage", b),
      ("turn", d), ("quota", q)]) = q := fun _ _ _ _ => rfl
  simp only [ChatTurn.ended, hturn, hquota, houtput, orElse_output, orElse_null, Json.str.injEq,
    Bool.false_eq_true, if_false, false_or]

/-- **The last frame** of a turn that failed. -/
theorem told_failed (t : ChatTurn) {turn : TurnRecord} {c : Closing E}
    (h : ¬ (c.error = none ∧ c.stores = true)) :
    t.told w traceUrl quotaAfter (lastEvent turn c) =
      { t with
        status := .failed
        turn := (turn.finished c).out w traceUrl
        error := .str c.shownError
        quotaAfter := quotaRead quotaAfter } := by
  have hlast : lastEvent turn c = .turnFailed (turn.finished c) := by
    have hstatus := finished_status turn c
    rw [if_neg h] at hstatus
    exact if_neg (by rw [hstatus]; decide)
  have herror : jsonMember "error" ((turn.finished c).out w traceUrl) =
      orNull TurnError.json (turn.finished c).error := rfl
  rw [hlast]
  show t.ended true (.obj _) = _
  have hturn : ∀ a e b q : Json, jsonMember "turn" (.obj [("turn_id", a), ("error", e),
      ("usage", b), ("turn", (turn.finished c).out w traceUrl), ("quota", q)]) =
        (turn.finished c).out w traceUrl := fun _ _ _ _ => rfl
  have hquota : ∀ a e b d q : Json, jsonMember "quota" (.obj [("turn_id", a), ("error", e),
      ("usage", b), ("turn", d), ("quota", q)]) = q := fun _ _ _ _ _ => rfl
  simp only [ChatTurn.ended, hturn, hquota, herror, failed_error h, orElse_null, if_true, true_or]

/-- **A turn reaches its client.**  Whatever a turn does, however the stream of its frames is cut
and wherever keep-alives stand in it, the client ends up with the turn: its id and its start, the
steps that began, every row that the turn's trail stored, each once, in order and with its place
among the rows of the turn, and the quota; of a turn that is completed its reply, as the tokens that
came if they add up to it; of a turn that failed the tokens and the error.  Before its last frame it
shows a part of that, and says that the turn is still going on. -/
theorem turn_reaches_client (source : EventSource) (asEvent : ErrorEvent → E) (turn : TurnRecord)
    (doings : List (Doing E)) (c : Closing E) {answers : List (Option (StreamEvent E))}
    (hanswers : answers.reduceOption = queued turn asEvent doings c)
    (hsent : ∀ e ∈ queued turn asEvent doings c, e.Sent codec w traceUrl quotaAfter)
    {chunks : List (List Char)}
    (hchunks : chunks.flatten = (turnStream codec w traceUrl quotaAfter answers).flatten)
    (syntaxError key message now : String) :
    let s := (({} : Streaming E).run doings).finish asEvent c
    let tokens := (tokenTexts doings).map Json.str
    let receive := fun pre =>
      (ChatTurn.asked key message now).receive codec syntaxError (source.read pre)
    let shown := receive chunks
    (shown.key = key ∧ shown.input = message ∧ shown.id = .str (w.id turn.id) ∧
      shown.sentAt = .str (w.time turn.startedAt)) ∧
    shown.starts = (startedOf s.trail.published).map (shownStart w) ∧
    (∃ rows : List (TurnEvent E × Nat), rows.Sublist (s.rows.zipIdx 1) ∧
      rows.map Prod.fst = s.trail.stored ∧ shown.events = rows.map (shownEvent w)) ∧
    (shown.turn = (turn.finished c).out w traceUrl ∧ shown.quotaAfter = quotaRead quotaAfter) ∧
    (if c.error = none ∧ c.stores = true then
      shown.status = .completed ∧ shown.error = .null ∧
        joined shown.chunks = c.answer.getD "" ∧
        (String.join (tokenTexts doings) = c.answer.getD "" → shown.chunks = tokens)
    else shown.status = .failed ∧ shown.error = .str c.shownError ∧ shown.chunks = tokens) ∧
    ∀ pre post, chunks = pre ++ post → receive pre = shown ∨
      (receive pre).status = .streaming ∧ (receive pre).error = .null ∧
        (receive pre).turn = .null ∧ (receive pre).chunks <+: tokens ∧
        (receive pre).starts <+: shown.starts ∧ (receive pre).events <+: shown.events := by
  intro s tokens receive shown
  have htold : s.Told (tokenTexts doings) := (Streaming.Told.begin.run doings).finish asEvent c
  obtain ⟨hwhole, hparts⟩ := receive_stream codec w traceUrl quotaAfter source
    (by rw [hanswers]; exact hsent) hchunks syntaxError (ChatTurn.asked key message now)
  rw [hanswers] at hwhole hparts
  have hmid := midway_eq w traceUrl quotaAfter (ChatTurn.asked key message now) turn htold.within
  have hshown : shown =
      (midway w traceUrl quotaAfter (ChatTurn.asked key message now) turn s.queue).told w traceUrl
        quotaAfter (lastEvent turn c) := by
    refine hwhole.trans ?_
    show List.foldl _ _ (s.queue ++ [lastEvent turn c]) = _
    rw [List.foldl_append]
    rfl
  rw [hmid] at hshown
  have htokens : tokensOf s.queue = tokenTexts doings := htold.tokens_eq
  -- a part of the queue is nothing, the start and a part of what is between, or the whole
  have hpart : shown.starts = (startsOf s.queue).map (shownStart w) →
      shown.events = (recordedOf s.queue).map (shownEvent w) →
      ∀ pre post, chunks = pre ++ post → receive pre = shown ∨
        (receive pre).status = .streaming ∧ (receive pre).error = .null ∧
          (receive pre).turn = .null ∧ (receive pre).chunks <+: tokens ∧
          (receive pre).starts <+: shown.starts ∧ (receive pre).events <+: shown.events := by
    intro hstarts hevents pre post hcut
    obtain ⟨part, hprefix, hreceived⟩ := hparts pre post hcut
    cases part with
    | nil =>
      refine .inr ?_
      rw [show receive pre = ChatTurn.asked key message now from hreceived]
      exact ⟨rfl, rfl, rfl, List.nil_prefix, List.nil_prefix, List.nil_prefix⟩
    | cons e part =>
      obtain ⟨rfl, hrest⟩ := List.cons_prefix_cons.1 hprefix
      rcases List.prefix_concat_iff.1 hrest with hall | hsome
      · refine .inl (hreceived.trans ?_)
        rw [hall]
        exact hwhole.symm
      · have hwithin : ∀ e ∈ part, e.Within := fun e he => htold.within e (hsome.subset he)
        have hpre : receive pre = midway w traceUrl quotaAfter (ChatTurn.asked key message now) turn
            part := hreceived
        rw [midway_eq w traceUrl quotaAfter _ turn hwithin] at hpre
        refine .inr ?_
        rw [hpre, hstarts, hevents]
        refine ⟨rfl, rfl, rfl, ?_, ?_, ?_⟩
        · show (tokensOf part).map Json.str <+: (tokenTexts doings).map Json.str
          rw [← htokens]
          exact (hsome.filterMap _).map _
        · exact (hsome.filterMap _).map _
        · exact (hsome.filterMap _).map _
  by_cases hdone : c.error = none ∧ c.stores = true
  · rw [told_completed w traceUrl quotaAfter _ hdone.1 hdone.2] at hshown
    have hchunksShown : shown.chunks =
        if joined tokens = c.answer.getD "" then tokens else [.str (c.answer.getD "")] := by
      rw [hshown]
      simp only [ChatTurn.asked, List.nil_append, htokens]
      rfl
    refine ⟨?_, ?_, ⟨recordedOf s.queue, htold.places, htold.rows_eq, ?_⟩, ?_, ?_, hpart ?_ ?_⟩
    · rw [hshown]
      exact ⟨rfl, rfl, rfl, rfl⟩
    · rw [hshown, ← htold.starts_eq]
      rfl
    · rw [hshown]
      rfl
    · rw [hshown]
      exact ⟨rfl, rfl⟩
    · rw [if_pos hdone, hchunksShown]
      refine ⟨by rw [hshown], by rw [hshown], ?_, ?_⟩
      · split
        · assumption
        · exact joined_tokens [c.answer.getD ""]
      · intro hsame
        rw [joined_tokens, if_pos hsame]
    · rw [hshown]
      rfl
    · rw [hshown]
      rfl
  · rw [told_failed w traceUrl quotaAfter _ hdone] at hshown
    refine ⟨?_, ?_, ⟨recordedOf s.queue, htold.places, htold.rows_eq, ?_⟩, ?_, ?_, hpart ?_ ?_⟩
    · rw [hshown]
      exact ⟨rfl, rfl, rfl, rfl⟩
    · rw [hshown, ← htold.starts_eq]
      rfl
    · rw [hshown]
      rfl
    · rw [hshown]
      exact ⟨rfl, rfl⟩
    · rw [if_neg hdone, hshown]
      refine ⟨rfl, rfl, ?_⟩
      simp only [ChatTurn.asked, List.nil_append, htokens]
      rfl
    · rw [hshown]
      rfl
    · rw [hshown]
      rfl

end

/-! ## A greeting -/

/-- Compact JSON of values whose numbers are whole. -/
def jsonText : Json → List Char
  | .null => ['n', 'u', 'l', 'l']
  | .bool b => if b then ['t', 'r', 'u', 'e'] else ['f', 'a', 'l', 's', 'e']
  | .num q => (if q.num < 0 then ['-'] else []) ++ strOf q.num.natAbs
  | .str text => JsonText.literal text.toList
  | .arr elems => '[' :: ([','].intercalate (elemTexts elems) ++ [']'])
  | .obj members => '\x7b' :: ([','].intercalate (memberTexts members) ++ ['\x7d'])
where
  elemTexts : List Json → List (List Char)
    | [] => []
    | value :: rest => jsonText value :: elemTexts rest
  memberTexts : List (String × Json) → List (List Char)
    | [] => []
    | (name, value) :: rest =>
      (JsonText.literal name.toList ++ ':' :: jsonText value) :: memberTexts rest

theorem line_digitChar (n : Nat) : n.digitChar ≠ '\n' ∧ n.digitChar ≠ '\r' :=
  ⟨Nat.digitChar_ne _ (by decide), Nat.digitChar_ne _ (by decide)⟩

/-- No letter of a literal breaks the line. -/
theorem line_literal (text : List Char) : Line (JsonText.literal text) := by
  have hunit : ∀ u, Line (JsonText.unitEscape u) := by
    intro u c hc
    simp only [JsonText.unitEscape, List.mem_cons, List.not_mem_nil, or_false] at hc
    rcases hc with rfl | rfl | rfl | rfl | rfl | rfl
    · decide
    · decide
    all_goals exact line_digitChar _
  have hshort : ∀ p ∈ JsonText.shortEscapes, p.2 ≠ '\n' ∧ p.2 ≠ '\r' := by decide
  have hescape : ∀ c, Line (JsonText.escapeChar c) := by
    intro c d hd
    unfold JsonText.escapeChar at hd
    split at hd
    case h_1 e he =>
      obtain ⟨l₁, l₂, hl, -⟩ := List.lookup_eq_some_iff.1 he
      rcases List.mem_cons.1 hd with rfl | hd
      · decide
      · rw [List.mem_singleton.1 hd]
        exact hshort (c, e) (hl ▸ List.mem_append_right _ List.mem_cons_self)
    case h_2 =>
      split at hd
      case isTrue hplain =>
        rw [List.mem_singleton.1 hd]
        constructor
        · rintro rfl
          exact absurd hplain (by decide)
        · rintro rfl
          exact absurd hplain (by decide)
      case isFalse =>
        obtain ⟨u, -, hd⟩ := List.mem_flatMap.1 hd
        exact hunit u d hd
  intro c hc
  simp only [JsonText.literal, JsonText.escape, List.mem_cons, List.mem_append, List.mem_flatMap,
    List.not_mem_nil, or_false] at hc
  rcases hc with rfl | ⟨d, -, hd⟩ | rfl
  · decide
  · exact hescape d c hd
  · decide

theorem line_strOf (n : Nat) : Line (strOf n) := by
  intro c hc
  have hdigit := Nat.isDigit_of_mem_toDigits (by decide) (by decide) hc
  constructor
  · rintro rfl
    exact absurd hdigit (by decide)
  · rintro rfl
    exact absurd hdigit (by decide)

theorem line_joined {texts : List (List Char)} (h : ∀ text ∈ texts, Line text) :
    Line ([','].intercalate texts) := by
  induction texts with
  | nil => exact fun c hc => absurd hc List.not_mem_nil
  | cons text texts ih =>
    have htext := h text List.mem_cons_self
    have hrest := ih fun other hother => h other (List.mem_cons_of_mem text hother)
    cases texts with
    | nil =>
      rw [List.intercalate_singleton]
      exact htext
    | cons next texts =>
      rw [List.intercalate_cons_cons]
      exact line_append (line_append htext (by decide)) hrest

theorem line_wrapped {a b : Char} (h : Line [a, b]) {text : List Char} (htext : Line text) :
    Line (a :: (text ++ [b])) := by
  intro c hc
  simp only [List.mem_cons, List.mem_append, List.not_mem_nil, or_false] at hc
  rcases hc with rfl | hc | rfl
  · exact h c List.mem_cons_self
  · exact htext c hc
  · exact h c (List.mem_cons_of_mem a List.mem_cons_self)

/-- The text of a value is one line. -/
theorem line_jsonText (value : Json) : Line (jsonText value) := by
  refine @Json.rec (fun value => Line (jsonText value))
    (fun elems => ∀ text ∈ jsonText.elemTexts elems, Line text)
    (fun members => ∀ text ∈ jsonText.memberTexts members, Line text)
    (fun member => Line (jsonText member.2)) ?_ ?_ ?_ ?_ ?_ ?_ ?_ ?_ ?_ ?_ ?_ value
  · decide
  · rintro (_ | _) <;> decide
  · intro q
    refine line_append ?_ (line_strOf _)
    split <;> decide
  · exact fun text => line_literal text.toList
  · exact fun elems ih => line_wrapped (by decide) (line_joined ih)
  · exact fun members ih => line_wrapped (by decide) (line_joined ih)
  · exact fun text htext => absurd htext List.not_mem_nil
  · intro value elems hvalue helems text htext
    rcases List.mem_cons.1 htext with rfl | htext
    · exact hvalue
    · exact helems text htext
  · exact fun text htext => absurd htext List.not_mem_nil
  · intro member members hmember hmembers text htext
    rcases List.mem_cons.1 htext with rfl | htext
    · refine line_append (line_literal _) fun c hc => ?_
      rcases List.mem_cons.1 hc with rfl | hc
      · decide
      · exact hmember c hc
    · exact hmembers text htext
  · exact fun name value ih => ih

/-- The codec of a stream whose payloads are known. -/
def knownCodec (payloads : List Json) : Codec where
  dump := jsonText
  parse text := payloads.find? fun data => jsonText data = text

/-- What is known, and is no other's text, is read back. -/
theorem exact_knownCodec {payloads : List Json} (h : (payloads.map jsonText).Nodup) {data : Json}
    (hdata : data ∈ payloads) : (knownCodec payloads).Exact data := by
  refine ⟨line_jsonText data, ?_⟩
  show payloads.find? (fun other => jsonText other = jsonText data) = some data
  induction payloads with
  | nil => exact absurd hdata List.not_mem_nil
  | cons first payloads ih =>
    rw [List.map_cons, List.nodup_cons] at h
    rcases List.mem_cons.1 hdata with rfl | hdata
    · exact List.find?_cons_of_pos (decide_eq_true rfl)
    · refine (List.find?_cons_of_neg ?_).trans (ih h.2 hdata)
      rw [decide_eq_true_eq]
      exact fun hsame => h.1 (hsame ▸ List.mem_map_of_mem hdata)

def plainFormats : Formats String where
  id n := "00000000-0000-0000-0000-00000000000" ++ toString n
  time _ := "2026-05-01T09:00:00Z"
  event
    | .event text => .obj [("type", .str "note"), ("text", .str text)]
    | .step record => .obj [("type", .str "step"), ("step", .str record.step.value),
        ("latency_ms", .num record.latencyMs)]

def greeting : TurnRecord where
  id := 1
  workspaceId := 2
  input := "Hello"
  startedAt := 0
  configHash := "c0ffee"
  usage := .obj [("total_tokens", .num 12)]

def greets : List (Doing String) :=
  [.start .answer 0, .emit "asked", .stored (.event "read"), .token "Hi ", .token "there.",
    .finish false 5]

def greeted : Closing String where
  answer := some "Hi there."
  error := none
  usage := .obj [("total_tokens", .num 12)]
  models := []
  promptVersions := ["answer@1"]
  traceStatus := .disabled
  finishedAt := 1
  redacted := none
  stores := true
  between := []
  quota := none

/-- What the queue of the greeting answers: the first wait runs out. -/
def greetingAnswers : List (Option (StreamEvent String)) :=
  none :: (queued greeting ErrorEvent.message greets greeted).map some

def greetingPayloads : List Json :=
  (queued greeting ErrorEvent.message greets greeted).map fun e =>
    (e.payload plainFormats none none).2

def greetingCodec : Codec := knownCodec greetingPayloads

def greetingText : List Char :=
  (turnStream greetingCodec plainFormats none none greetingAnswers).flatten

theorem greeting_sent : ∀ e ∈ queued greeting ErrorEvent.message greets greeted,
    e.Sent greetingCodec plainFormats none none := by
  have hknown : (greetingPayloads.map jsonText).Nodup := by decide +kernel
  exact fun e he => exact_knownCodec hknown (List.mem_map_of_mem he)

/-- The greeting, with another writer's row among those of its trail, and its text cut in the middle
of a frame. -/
theorem greeting_reaches_client :
    let receive := fun pre => (ChatTurn.asked "local-1" "Hello" "2026-05-01T08:59:59Z").receive
      greetingCodec "Unexpected end of JSON input" (reader.read pre)
    let shown := receive [greetingText.take 100, greetingText.drop 100]
    shown.status = .completed ∧ shown.error = .null ∧ joined shown.chunks = "Hi there." ∧
      shown.chunks = [.str "Hi ", .str "there."] ∧
      (shown.events.map TrailEvent.seq).Sublist [.num 1, .num 2, .num 3] ∧
      (receive [greetingText.take 100] = shown ∨
        (receive [greetingText.take 100]).events <+: shown.events) := by
  intro receive shown
  have hanswers : greetingAnswers.reduceOption =
      queued greeting ErrorEvent.message greets greeted := by
    rw [greetingAnswers, List.reduceOption_cons_of_none, List.reduceOption, List.filterMap_map]
    exact List.filterMap_some
  have hcut : [greetingText.take 100, greetingText.drop 100].flatten = greetingText := by
    rw [List.flatten_cons, List.flatten_cons, List.flatten_nil, List.append_nil,
      List.take_append_drop]
  obtain ⟨-, -, ⟨rows, hrows, -, hevents⟩, -, hdone, hparts⟩ :=
    turn_reaches_client greetingCodec plainFormats none none reader ErrorEvent.message greeting
      greets greeted hanswers greeting_sent hcut "Unexpected end of JSON input" "local-1"
      "Hello" "2026-05-01T08:59:59Z"
  rw [if_pos ⟨rfl, rfl⟩] at hdone
  obtain ⟨hstatus, herror, hjoined, htokens⟩ := hdone
  refine ⟨hstatus, herror, hjoined, htokens (by decide), ?_, ?_⟩
  · have hseqs : shown.events.map TrailEvent.seq = rows.map fun p => Json.num p.2 := by
      rw [show shown.events = _ from hevents, List.map_map]
      rfl
    rw [hseqs]
    exact hrows.map _
  · rcases hparts [greetingText.take 100] _ rfl with hall | ⟨-, -, -, -, -, hsome⟩
    · exact .inl hall
    · exact .inr hsome

end Agent
end SecondMind
