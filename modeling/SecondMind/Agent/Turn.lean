import SecondMind.Corrections.Corrector
import SecondMind.Ingestion.Pipeline
import SecondMind.Links.Saver
import SecondMind.Policy.Redaction
import SecondMind.Steps.Program

/-!
# A turn

`TurnRunner._run` and the graph it drives: what a turn does to the store and to the trace, step
by step, when any step may fail and the turn may be cancelled before it.  What the models answer,
and what recall, the corrector and the trigger check make of it, is given.

* `Turn.understand`, `Turn.ingest`, `Turn.recallNode`, `Turn.correct`, `Turn.answer`,
  `Turn.triggers` — the nodes;
* `Turn.graph` — the graph;
* `Turn.body` — the `try` block of `_run`;
* `Turn.finished` — `_finish`, with the generations that are sent.

Reads, events and what the client is told leave the world as it is: where several stand in a row
they are one step, `Act.wait`.
-/

namespace SecondMind
namespace Agent

open Links Texts JsonText Steps

/-! ## The world of a turn -/

/-- Why a turn stops. -/
inductive Stop
  | providerUnavailable | extractionInvalid | cancelled | crashed
  deriving DecidableEq, Repr

/-- What is recorded of a model call. -/
structure Generation where
  prompt : PromptInput
  output : List Char

/-- The store, `steps.secrets`, and what the turn keeps of itself. -/
structure World where
  kept : LinkTables
  secrets : List (List Char) := []
  generations : List Generation := []
  storedInput : List Char
  secretValues : List (List Char) := []
  redactedInput : Option (List Char) := none

/-! ## Model calls -/

/-- A model call that is answered. -/
inductive ModelCall
  | structured (messages : Nested) (output : List Char) (spans : List (List Char))
  | stream (messages : Nested) (output : List Char)
  | embed (output : List Char)

/-- `_labelled_secrets`. -/
def ModelCall.labelled : ModelCall → List (List Char)
  | .structured _ _ spans => spans.filter fun span => span.any fun c => !isSpace c
  | _ => []

/-- What is recorded of the call, once these spans are labelled: a structured call is scrubbed. -/
def ModelCall.generation (order : ∀ values, RedactionOrder values) (labelled : List (List Char)) :
    ModelCall → Generation
  | .structured messages output _ =>
    { prompt := recordedInput (order labelled) messages
      output := if labelled = [] then output else redactValues output (order labelled) }
  | .stream messages output => { prompt := .object messages, output := output }
  | .embed output => { prompt := .object .null, output := output }

/-- What `_send_generations` sends of a generation. -/
def Generation.sent (order : ∀ values, RedactionOrder values) (secrets : List (List Char))
    (g : Generation) : Generation where
  prompt := sentInput (order secrets) g.prompt
  output := if secrets = [] then g.output else redactValues g.output (order secrets)

/-! ## Steps -/

/-- One step of a turn. -/
inductive Act
  /-- Reads, events, what the client is told. -/
  | wait
  | answer (call : ModelCall)
  | record (call : ModelCall)
  | commit (writer : Writer)
  | addSource (backend : Backend) (source : LinkSource)
  | recordAccess (at_ : Instant) (ids : List Uuid)
  /-- The end of the graph: `run.secret_values` and `run.redacted_input` are set. -/
  | close (values : List (List Char))
  | redactInput

/-- What a step does, under the orders in which values are redacted. -/
def exec (order : ∀ values, RedactionOrder values) (input : List Char) :
    Act → World → Except Stop World
  | .wait, w => .ok w
  | .answer call, w => .ok { w with secrets := w.secrets ++ call.labelled }
  | .record call, w =>
    .ok { w with generations := w.generations ++ [call.generation order w.secrets] }
  | .commit writer, w =>
    match writer.commit w.kept.tables with
    | .error _ => .error .crashed
    | .ok (tables, _) => .ok { w with kept := { w.kept with tables := tables } }
  | .addSource backend source, w =>
    match w.kept.add backend source with
    | .error _ => .error .crashed
    | .ok kept => .ok { w with kept := kept }
  | .recordAccess at_ ids, w =>
    .ok { w with kept := { w.kept with tables := w.kept.tables.recordAccess at_ ids } }
  | .close values, w =>
    let values := values ++ w.secrets
    .ok { w with
          secretValues := values
          redactedInput := if values = [] then none else some (redactValues input (order values)) }
  | .redactInput, w => .ok { w with storedInput := w.redactedInput.getD w.storedInput }

/-- A part of a turn. -/
abbrev Run := Raising Act World Stop

def ModelCall.ask (call : ModelCall) : Run Unit := do
  let _ ← Raising.perform (.answer call)
  let _ ← Raising.perform (.record call)

/-- `except ProviderUnavailableError`. -/
def guarded (x : Run Unit) : Run Unit :=
  tryCatch x fun
    | .providerUnavailable => pure ()
    | e => throw e

/-- A model call, and whether the turn does without its answer when no provider gives one. -/
structure Asked where
  call : ModelCall
  guarded : Bool := false

def Asked.ask (a : Asked) : Run Unit := if a.guarded then Agent.guarded a.call.ask else a.call.ask

def askAll : List Asked → Run Unit
  | [] => pure ()
  | a :: as => do
    a.ask
    askAll as

/-! ## Saving -/

/-- `LinkSaver.save`, step by step. -/
def addSources (backend : Backend) : List LinkSource → Run Unit
  | [] => pure ()
  | source :: sources => do
    let _ ← Raising.perform (.addSource backend source)
    addSources backend sources

def saveLinks (saver : LinkSaver) (message : List Char) : Run (Option LinkSaveResult) :=
  if extractUrls saver.lib.lower message = [] then pure none
  else do
    let w ← Raising.perform .wait
    match saver.plan message w.kept with
    | .error _ => throw .crashed
    | .ok none => pure none
    | .ok (some plan) =>
      if plan.ops ≠ [] then
        let _ ← Raising.perform (.commit (saver.writer plan.ops))
        let _ ← Raising.perform .wait
        addSources saver.backend plan.sources
      let _ ← Raising.perform .wait
      return some plan.result

/-- One answer of the `extract` step. -/
structure Extraction where
  messages : Nested
  output : List Char
  out : ExtractOutput

def Extraction.call (e : Extraction) : ModelCall :=
  .structured e.messages e.output (e.out.secretSpans.map String.toList)

/-- What a save is given: the answers of its steps, and what becomes of an extraction. -/
structure Ingest where
  save : Save
  first : Extraction
  again : Extraction
  /-- The choices, similarities and vectors that are asked for before the commit. -/
  before : List Asked := []
  /-- The enrichment and the vectors of the keys. -/
  after : List Asked := []
  reply : String

structure IngestOutcome where
  reply : String
  secretValues : List (List Char) := []

namespace Ingest

variable (i : Ingest)

/-- `_extract`: asked once more when the first answer has errors. -/
def extract : Run ExtractOutput := do
  i.first.call.ask
  if validateExtraction i.save.lib.lib i.first.out = [] then return i.first.out
  i.again.call.ask
  if validateExtraction i.save.lib.lib i.again.out = [] then return i.again.out
  throw .extractionInvalid

/-- `outcome.secret_values`: for a refused save with no spans, the texts of its memories. -/
def secretValues (s : Save) : List (List Char) :=
  if s.refuses ∧ s.extraction.secretSpans = [] then s.secrets.map (·.text.toList)
  else s.extraction.secretSpans.map String.toList

/-- The commit of a save, and what follows it. -/
def finish (s : Save) (values : List (List Char)) : Run IngestOutcome := do
  let w ← Raising.perform .wait
  match s.writer w.kept.tables.toMemoryTables with
  | .error _ => throw .crashed
  | .ok writer =>
    let _ ← Raising.perform (.commit writer)
    let _ ← Raising.perform .wait
    unless s.refuses do
      askAll i.after
      let _ ← Raising.perform .wait
    return { reply := i.reply, secretValues := values }

/-- The save of an extraction. -/
def saveFrom (secretFound : Bool) (out : ExtractOutput) : Save :=
  { i.save with ctx := { i.save.ctx with secretFound := secretFound }, extraction := out }

/-- `IngestionPipeline.run`, once the reader has been asked. -/
def run (secretFound : Bool) : Run IngestOutcome :=
  if secretFound then i.finish (i.saveFrom true {}) []
  else do
    let out ← i.extract
    unless (i.saveFrom false out).refuses do askAll i.before
    i.finish (i.saveFrom false out) (secretValues (i.saveFrom false out))

end Ingest

/-! ## What the other nodes are given -/

/-- What a recall asks, and what it retrieves and cites. -/
structure Recall where
  calls : List Asked
  retrieved : List Uuid := []
  cited : List Uuid := []
  reply : String

def Recall.run (r : Recall) (now : Instant) : Run String := do
  askAll r.calls
  let _ ← Raising.perform .wait
  let ids := (r.retrieved ++ r.cited).reverse.dedup.reverse
  if ids ≠ [] then
    let _ ← Raising.perform (.recordAccess now ids)
  return r.reply

/-- What the `correct` step makes of a message. -/
structure Correction where
  calls : List Asked := []
  notACorrection : Bool := false
  ctx : Corrections.CorrectContext
  ops : List Op
  after : List Asked := []
  reply : String

/-- `Corrector._commit`. -/
def Correction.commit (c : Correction) : Run String := do
  if c.ops ≠ [] then
    let _ ← Raising.perform (.commit (c.ctx.writer c.ops))
    let _ ← Raising.perform .wait
    askAll c.after
    let _ ← Raising.perform .wait
  return c.reply

/-- A trigger that matched. -/
structure Fired where
  triggerId : Uuid
  itemId : Uuid
  why : String

/-- The op of a trigger that fires, if its item is stored. -/
def Fired.op (t : MemoryTables) (f : Fired) : Option Op :=
  (t.getItem f.itemId).map fun item =>
    { title := "reminder: " ++ item.title
      rationale := f.why
      body := .setTriggerState f.triggerId .fired }

/-- What the trigger check asks, what matches, and what is said of it. -/
structure Matches where
  calls : List Asked := []
  fired : List Fired := []
  note : String := ""

/-- What the previous reply offered, and a "yes" accepts. -/
inductive Offer
  | refile
  | save (message : List Char)

inductive Intent
  | save | recall | saveAndRecall | correct | chitChat
  deriving DecidableEq, Repr

/-- The answer of the `intent` step. -/
structure Understood where
  messages : Nested
  output : List Char
  intent : Intent

/-- The answer to chit-chat. -/
structure Chat where
  messages : Nested
  text : String

/-! ## The turn -/

inductive TurnStatus
  | running | completed | failed
  deriving DecidableEq, Repr

/-- A turn of a user: its message, and what its steps are given. -/
structure Turn where
  turnId : Uuid
  now : Instant
  input : List Char
  /-- The pre-check matched. -/
  secretFound : Bool := false
  offer : Option Offer := none
  backend : Backend
  settings : WriterSettings := {}
  newId : Nat → Uuid := id
  linkSaver : Option LinkSaver := none
  understood : Understood
  ingestOf : List Char → Tables → Ingest
  recallOf : Bool → Tables → Recall
  correctionOf : Tables → Correction
  chat : Chat
  matchesOf : Tables → Matches := fun _ => {}
  order : ∀ values, RedactionOrder values := sortedValues
  /-- The reply of a turn that the spend gate stopped. -/
  blocked : Option String := none
  /-- The end of the turn cannot be stored. -/
  finishFails : Bool := false

namespace Turn

variable (t : Turn)

/-- `intent_node`. -/
def understand : Run Intent :=
  match t.secretFound, t.offer with
  | true, _ | false, some (.save _) => do
    let _ ← Raising.perform .wait
    return .save
  | false, some .refile => do
    let _ ← Raising.perform .wait
    return .correct
  | false, none => do
    (ModelCall.structured t.understood.messages t.understood.output []).ask
    let _ ← Raising.perform .wait
    return t.understood.intent

/-- The pipeline on a message. -/
def save (message : List Char) : Run IngestOutcome := do
  let w ← Raising.perform .wait
  (t.ingestOf message w.kept.tables).run t.secretFound

/-- `to_save`: a "yes" to an offer saves what was offered. -/
def toSave : List Char :=
  match t.offer with
  | some (.save message) => message
  | _ => t.input

/-- The links of the message; one with a secret in it is left to the secret path, links and
all. -/
def saveItsLinks : Run (Option LinkSaveResult) :=
  match t.secretFound, t.linkSaver with
  | false, some saver => saveLinks saver t.toSave
  | _, _ => pure none

/-- What is left of a message once its links are saved. -/
def saveRest : Option LinkSaveResult → Run IngestOutcome
  | none => t.save t.toSave
  | some links =>
    if links.onlyLinks then pure { reply := links.reply }
    else do
      let outcome ← t.save links.remaining
      return { outcome with reply := strip (outcome.reply ++ "\n\n" ++ links.reply) }

/-- `ingest_node`: the links of the message first, and then the rest of it. -/
def ingest : Run IngestOutcome := do
  let saved ← t.saveItsLinks
  let outcome ← t.saveRest saved
  let _ ← Raising.perform .wait
  return outcome

/-- `recall_node`, after what a save has answered. -/
def recallNode (before : String) : Run String := do
  let w ← Raising.perform .wait
  let reply ← (t.recallOf (before ≠ "") w.kept.tables).run t.now
  return if before = "" then reply else before ++ "\n\n" ++ reply

/-- `correct_node`; nothing is answered to what is no correction. -/
def correct : Run (Option String) := do
  let w ← Raising.perform .wait
  let c := t.correctionOf w.kept.tables
  match t.offer with
  | some .refile => return some (← c.commit)
  | _ =>
    askAll c.calls
    if c.notACorrection then return none
    return some (← c.commit)

/-- `answer_node`. -/
def answer : Run String := do
  (ModelCall.stream t.chat.messages t.chat.text.toList).ask
  return t.chat.text

/-- The writer of the triggers that fire. -/
def firing (ops : List Op) : Writer where
  backend := t.backend
  turn := { turnId := t.turnId, kind := .user, now := t.now }
  settings := t.settings
  ops := ops
  newId := t.newId

/-- The commit of the triggers that match, and what is said of them. -/
def fire (w : World) (found : Matches) : Run String := do
  if found.fired = [] then return ""
  let ops := found.fired.filterMap (·.op w.kept.tables.toMemoryTables)
  let _ ← Raising.perform (.commit (t.firing ops))
  let _ ← Raising.perform .wait
  return if ops = [] ∨ found.note = "" then "" else "\n\n" ++ found.note

/-- `triggers_node`: what is said after the answer. -/
def triggers : Run String := do
  let w ← Raising.perform .wait
  unless t.secretFound do askAll (t.matchesOf w.kept.tables).calls
  t.fire w (t.matchesOf w.kept.tables)

/-- The node that the intent names, and what may follow it. -/
def route : Intent → Run IngestOutcome
  | .save => t.ingest
  | .saveAndRecall => do
    let saved ← t.ingest
    return { saved with reply := ← t.recallNode saved.reply }
  | .recall => do
    return { reply := ← t.recallNode "" }
  | .correct => do
    match ← t.correct with
    | some reply => return { reply := reply }
    | none => t.ingest
  | .chitChat => do
    return { reply := ← t.answer }

/-- The graph of the turn: its answer, and the secret values a save found. -/
def graph : Run IngestOutcome := do
  let intent ← t.understand
  let outcome ← t.route intent
  let note ← t.triggers
  return { outcome with reply := outcome.reply ++ note }

/-- The hook for renamed entities: only a cancellation gets through. -/
def renamed : Run Unit :=
  tryCatch (do let _ ← Raising.perform .wait) fun
    | .cancelled => throw .cancelled
    | _ => pure ()

/-- The stored input is redacted once a span is known. -/
def redactStored (w : World) : Run Unit :=
  if w.secretValues = [] then pure ()
  else do let _ ← Raising.perform .redactInput

/-- What follows the graph. -/
def close (outcome : IngestOutcome) : Run String := do
  let w ← Raising.perform (.close outcome.secretValues)
  redactStored w
  renamed
  return outcome.reply

/-- The `try` block of `_run`, up to the end of the graph. -/
def opened : Run IngestOutcome := do
  let _ ← Raising.perform .wait
  t.graph

/-- The `try` block of `_run`, or of `_run_blocked`. -/
def body : Run String :=
  match t.blocked with
  | some reply => do
    let _ ← Raising.perform .wait
    return reply
  | none => do
    let outcome ← t.opened
    close outcome

/-- The world in which the turn starts. -/
def opening (start : LinkTables) : World where
  kept := start
  storedInput := t.input

/-- How the `try` block ends. -/
def ran (faults : Nat → Option Stop) (start : LinkTables) : Ending World (Except Stop String) :=
  t.body.run.run (exec t.order t.input) faults 0 (t.opening start)

end Turn

/-- A turn that is over: its status, its reply, and what is stored and was sent of it. -/
structure Finished where
  status : TurnStatus
  output : Option String
  kept : LinkTables
  /-- The spans that a model output of the turn labelled. -/
  labelled : List (List Char)
  storedInput : List Char
  tracedInput : List Char
  sent : List Generation

/-- `_finish`: the status of the turn, and the generations that wait for its end. -/
def Turn.finished (t : Turn) (faults : Nat → Option Stop) (start : LinkTables) : Finished :=
  let e := t.ran faults start
  let output := match e.value with
    | .ok answer => if t.finishFails then none else some answer
    | .error _ => none
  { status := if output.isSome then .completed else .failed
    output := output
    kept := e.world.kept
    labelled := e.world.secrets
    storedInput := e.world.storedInput
    tracedInput := e.world.redactedInput.getD t.input
    sent := e.world.generations.map (·.sent t.order e.world.secretValues) }

/-! ## A turn on plain text -/

/-- A turn that saves a message, with what a model extracts from it. -/
def plainTurn (message : String) (out : ExtractOutput) : Turn where
  turnId := 1
  now := 1
  input := message.toList
  backend := .sql
  understood := { messages := oneMessage message, output := [], intent := .save }
  ingestOf := fun _ _ =>
    let extraction : Extraction := { messages := oneMessage message, output := [], out := out }
    { save := saveOf 1 message [], first := extraction, again := extraction, reply := "Saved." }
  recallOf := fun _ _ => { calls := [], reply := "" }
  correctionOf := fun _ =>
    { ctx :=
        { backend := .sql, turnId := 1
          now :=
            { instant := 1, timezone := "UTC"
              zone :=
                { initial := 0, changes := [], ascending := none_ascending
                  small := none_small } }
          lib := { text := plainText, parseRrule := fun _ _ => .error .valueError } }
      ops := [], reply := "" }
  chat := { messages := .null, text := "" }

end Agent
end SecondMind
