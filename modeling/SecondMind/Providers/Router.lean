import SecondMind.Providers.Breaker
import Mathlib.Logic.Function.Basic

/-!
# The model router

`ModelRouter` of `providers/router.py`: a plain call and a streamed one, against adapters, a guard
and other calls that may do anything while the call waits.

* `Scene` — what a call shares with all others: the clock, the breakers, and the world behind the
  adapters and the guard;
* `invokeTurn`, `streamTurn` — one attempt, plain or streamed, and what follows it;
* `attempts`, `candidates` — the two loops, of which `call` and `stream` are instances.
-/

namespace SecondMind
namespace ModelRouter

/-! ## Routes and requests -/

inductive Step
  | intent | extract | resolve | enrich | digest | reconcile | plan | rerank | correct | answer
  | judge | embed
  deriving DecidableEq, Repr

def Step.value : Step → String
  | .intent => "intent"
  | .extract => "extract"
  | .resolve => "resolve"
  | .enrich => "enrich"
  | .digest => "digest"
  | .reconcile => "reconcile"
  | .plan => "plan"
  | .rerank => "rerank"
  | .correct => "correct"
  | .answer => "answer"
  | .judge => "judge"
  | .embed => "embed"

inductive StepKind
  | chat | embedding
  deriving DecidableEq, Repr

def StepKind.value : StepKind → String
  | .chat => "chat"
  | .embedding => "embedding"

structure ModelRef where
  provider : String
  model : String
  deriving DecidableEq, Repr

/-- `ResolvedRoute`, the timeout as its error message writes it. -/
structure ResolvedRoute where
  kind : StepKind
  primary : ModelRef
  fallback : Option ModelRef
  timeout : String
  maxOutputTokens : Nat
  effort : Option String
  prompt : Option String

inductive Role
  | user | assistant | tool
  deriving DecidableEq, Repr

structure ChatMessage where
  role : Role
  content : String
  deriving DecidableEq, Repr

structure ToolSpec where
  name : String
  description : String
  parameters : String
  deriving DecidableEq, Repr

structure Payload where
  system : Option String
  messages : List ChatMessage
  tools : List ToolSpec := []
  cachePrefix : Option String := none
  deriving DecidableEq, Repr

structure AdapterRequest where
  step : String
  model : String
  system : Option String
  messages : List ChatMessage
  maxOutputTokens : Nat
  effort : Option String
  tools : List ToolSpec
  cachePrefix : Option String
  deriving DecidableEq, Repr

structure RawUsage where
  inputTokens : Nat
  outputTokens : Nat
  cachedInputTokens : Nat := 0
  deriving DecidableEq, Repr

/-- `AdapterReply`, less the calls of tools. -/
structure AdapterReply where
  text : String
  usage : RawUsage
  stopReason : Option String := none
  deriving DecidableEq, Repr

inductive AdapterStreamEvent
  | textDelta (text : String)
  | keepAlive
  | streamEnd (reply : AdapterReply)
  deriving DecidableEq, Repr

/-! ## Errors -/

inductive ProviderErrorKind
  | timeout | rateLimited | server | connection | badRequest | auth | invalidOutput | unsupported
  | credit
  deriving DecidableEq, Repr

def ProviderErrorKind.value : ProviderErrorKind → String
  | .timeout => "timeout"
  | .rateLimited => "rate_limited"
  | .server => "server"
  | .connection => "connection"
  | .badRequest => "bad_request"
  | .auth => "auth"
  | .invalidOutput => "invalid_output"
  | .unsupported => "unsupported"
  | .credit => "credit"

def retryableKinds : List ProviderErrorKind := [.timeout, .rateLimited, .server, .connection]

structure ProviderError where
  kind : ProviderErrorKind
  message : String
  provider : String
  statusCode : Option Nat := none
  rawOutput : Option String := none
  deriving DecidableEq, Repr

def ProviderError.retryable (err : ProviderError) : Bool := err.kind ∈ retryableKinds

structure Attempt where
  provider : String
  model : String
  outcome : String
  deriving DecidableEq, Repr

/-- How a call fails: with one of the errors that `providers/errors.py` declares for it, with the
`ValueError` of a step of another kind, or because it is cancelled. `unfinished` is no end of a
call: the loop was not followed far enough. -/
inductive CallError
  | unavailable (step : String) (attempts : List Attempt)
  | refused (step : String) (reason : String)
  | interrupted (step : String) (attempts : List Attempt)
  | wrongKind (message : String)
  | cancelled
  | unfinished
  deriving DecidableEq, Repr

/-! ## What a call costs -/

structure Usage where
  provider : String
  model : String
  inputTokens : Nat
  cachedInputTokens : Nat
  outputTokens : Nat
  costUsd : Int
  latencyMs : Int
  priceVersion : String
  chargedTokens : Int
  deriving DecidableEq, Repr

structure FallbackInfo where
  fromProvider : String
  fromModel : String
  reason : String
  deriving DecidableEq, Repr

structure ModelCall where
  step : String
  provider : String
  model : String
  prompt : Option String
  startedAt : Int
  latencyMs : Int
  timeToFirstTokenMs : Option Int
  attempts : Nat
  usage : Usage
  fallback : Option FallbackInfo
  deriving DecidableEq, Repr

/-- The price table: it has a price for every model of the routes. -/
structure PriceTable where
  version : String
  cost : ModelRef → RawUsage → Int
  chargedTokens : ModelRef → Nat → Int

/-! ## The surroundings of a call -/

structure Scene (σ : Type) where
  state : σ
  monotonic : Int
  breakers : String → CircuitBreaker := fun _ => {}

/-- How a wait ends. -/
inductive Wait (α : Type)
  | value (a : α)
  | cancelled

/-- How a call of an adapter ends, or its stream. -/
inductive Ending (α : Type)
  | value (a : α)
  | timedOut
  | failed (err : ProviderError)
  | cancelled

structure CallGuard (σ : Type) where
  refuse : Scene σ → Wait (Option String) × Scene σ
  skipProvider : Scene σ → String → Wait Bool × Scene σ
  spent : Scene σ → String → Int → Wait Unit × Scene σ
  outOfCredit : Scene σ → String → Wait Unit × Scene σ

structure Policy extends ResiliencePolicy where
  maxRetries : Nat := 2

/-- A router, and the waits of a call: the adapters answer with an `R`, or with the events of a
stream and the times they come at; `backOff` waits after so many tries. -/
structure Router (σ R : Type) where
  routing : Step → ResolvedRoute
  prices : PriceTable
  policy : Policy
  guard : Option (CallGuard σ) := none
  admitted : Bool := false
  now : Scene σ → Int
  milliseconds : Int → Int
  backOff : Scene σ → Nat → Wait Unit × Scene σ
  invoke : Scene σ → String → AdapterRequest → Ending R × Scene σ
  usageOf : R → RawUsage
  streamChat : Scene σ → String → AdapterRequest →
    List (AdapterStreamEvent × Int) × Ending Unit × Scene σ

/-- What others see of a call, in order: the candidate that is asked, a token for the caller, and
the cancellation. -/
inductive CallEvent
  | request (index : Nat)
  | token (text : String)
  | cancelled
  deriving DecidableEq, Repr

/-- A call on its way. -/
structure Run (σ : Type) where
  scene : Scene σ
  attempts : List Attempt := []
  totalAttempts : Nat := 0
  log : List CallEvent := []

abbrev Call (σ : Type) := ExceptT CallError (StateM (Run σ))

/-- What `_start` settles. -/
structure CallState where
  step : Step
  route : ResolvedRoute
  prompt : Option String
  startedAt : Int
  t0 : Int

section

variable {σ R : Type} (router : Router σ R)

/-- `await`. -/
def await {α : Type} (f : Scene σ → Wait α × Scene σ) : Call σ α := do
  let c ← get
  match f c.scene with
  | (.value a, scene) =>
    set { c with scene := scene }
    return a
  | (.cancelled, scene) =>
    set { c with scene := scene, log := c.log ++ [CallEvent.cancelled] }
    throw .cancelled

/-- `breaker.allow()`. -/
def allow (ref : ModelRef) : Call σ Bool := do
  let c ← get
  let answer := (c.scene.breakers ref.provider).allow router.policy.toResiliencePolicy
    c.scene.monotonic
  let breakers := Function.update c.scene.breakers ref.provider answer.2
  set { c with scene := { c.scene with breakers := breakers } }
  return answer.1

/-- `breaker.record_success()`, `breaker.record_failure()` and `breaker.release_probe()`. -/
def settle (ref : ModelRef) (outcome : Outcome) : Call σ Unit := do
  let c ← get
  let breaker := (c.scene.breakers ref.provider).settle router.policy.toResiliencePolicy
    c.scene.monotonic outcome
  let breakers := Function.update c.scene.breakers ref.provider breaker
  set { c with scene := { c.scene with breakers := breakers } }

def note (ref : ModelRef) (outcome : String) : Call σ Unit :=
  modify fun c => { c with attempts := c.attempts ++ [⟨ref.provider, ref.model, outcome⟩] }

/-! ## One call -/

/-- `_start`. -/
def start (step : Step) (kind : StepKind) (prompt : Option String) : Call σ CallState := do
  let c ← get
  let route := router.routing step
  if route.kind ≠ kind then
    throw (.wrongKind
      s!"step '{step.value}' is a {route.kind.value} step, not {kind.value}")
  return {
    step := step
    route := route
    prompt := if prompt = none ∨ prompt = some "" then route.prompt else prompt
    startedAt := router.now c.scene
    t0 := c.scene.monotonic }

/-- `_candidates`. -/
def candidatesOf (route : ResolvedRoute) : List ModelRef := route.primary :: route.fallback.toList

/-- `_request`. -/
def requestOf (state : CallState) (ref : ModelRef) (payload : Payload) : AdapterRequest where
  step := state.step.value
  model := ref.model
  system := payload.system
  messages := payload.messages
  maxOutputTokens := state.route.maxOutputTokens
  effort := state.route.effort
  tools := payload.tools
  cachePrefix := payload.cachePrefix

/-- `_check`. -/
def check (state : CallState) : Call σ Unit :=
  match router.guard with
  | none => return ()
  | some guard => do
    if router.admitted then return ()
    match ← await guard.refuse with
    | none => return ()
    | some reason => throw (.refused state.step.value reason)

/-- `_skip`. -/
def skip (ref : ModelRef) : Call σ Bool :=
  match router.guard with
  | none => return false
  | some guard => do
    if ¬ (← await fun scene => guard.skipProvider scene ref.provider) then return false
    note ref "skipped: out of credit"
    return true

/-- `_spent`. -/
def spent (call : ModelCall) : Call σ Unit :=
  match router.guard with
  | none => return ()
  | some guard => do
    if call.usage.costUsd = 0 then return ()
    await fun scene => guard.spent scene call.provider call.usage.costUsd

/-- `_attempt`: its outcome. -/
def outcomeOf (err : ProviderError) : String :=
  let status := match err.statusCode with
    | none | some 0 => ""
    | some code => " " ++ toString code
  let why := if err.kind = .invalidOutput then ": " ++ err.message else ""
  err.kind.value ++ status ++ why

/-- `_fail`. -/
def fail (ref : ModelRef) (err : ProviderError) : Call σ Unit := do
  settle router ref (.providerError err.retryable)
  note ref (outcomeOf err)

/-- `_retry_after`. -/
def retryAfter (ref : ModelRef) (err : ProviderError) (tries : Nat) : Call σ Bool := do
  fail router ref err
  match router.guard with
  | some guard =>
    if err.kind = .credit then await fun scene => guard.outOfCredit scene ref.provider
  | none => pure ()
  if err.retryable ∧ tries ≤ router.policy.maxRetries then
    await fun scene => router.backOff scene tries
    return true
  return false

/-- `_repair`. -/
def repair (payload : Payload) (err : ProviderError) : Payload :=
  let said := s!"That output was invalid: {err.message}. Return the whole output again, corrected."
  { payload with
    messages := payload.messages ++ [⟨.assistant, err.rawOutput.getD ""⟩, ⟨.user, said⟩] }

/-- `_ms_since`. -/
def msSince (t0 t1 : Int) : Int := max 0 (router.milliseconds (t1 - t0))

/-- The mark of a call that another candidate than the primary served. -/
def fallbackInfo (route : ResolvedRoute) (attempts : List Attempt) (index : Nat) :
    Option FallbackInfo :=
  if 0 < index then
    let outcomes := (attempts.filter (·.provider = route.primary.provider)).map (·.outcome)
    let reason := "; ".intercalate outcomes
    some {
      fromProvider := route.primary.provider
      fromModel := route.primary.model
      reason := if reason = "" then "primary unavailable" else reason }
  else none

/-- `_finish`. -/
def finish (state : CallState) (ref : ModelRef) (raw : RawUsage) (index : Nat) (ttft : Option Int) :
    Call σ ModelCall := do
  let c ← get
  let latency := msSince router state.t0 c.scene.monotonic
  return {
    step := state.step.value
    provider := ref.provider
    model := ref.model
    prompt := state.prompt
    startedAt := state.startedAt
    latencyMs := latency
    timeToFirstTokenMs := ttft
    attempts := c.totalAttempts
    usage := {
      provider := ref.provider
      model := ref.model
      inputTokens := raw.inputTokens
      cachedInputTokens := raw.cachedInputTokens
      outputTokens := raw.outputTokens
      costUsd := router.prices.cost ref raw
      latencyMs := latency
      priceVersion := router.prices.version
      chargedTokens := router.prices.chargedTokens ref
        (raw.inputTokens + raw.cachedInputTokens + raw.outputTokens) }
    fallback := fallbackInfo state.route c.attempts index }

/-! ## One attempt -/

/-- What the loop does after an attempt: return its result, ask again with a payload that may be a
repaired one, or go on to the next candidate. -/
inductive Turn (α : Type)
  | served (a : α)
  | again (payload : Payload) (repaired : Bool)
  | passed

def timeoutError (state : CallState) (ref : ModelRef) : ProviderError where
  kind := .timeout
  message := s!"no response within {state.route.timeout}s"
  provider := ref.provider

/-- The adapter is asked. -/
def invokeOnce (state : CallState) (index : Nat) (ref : ModelRef) (payload : Payload) :
    Call σ (Except ProviderError R) := do
  let c ← get
  let answer := router.invoke c.scene ref.provider (requestOf state ref payload)
  let c := { c with
    scene := answer.2
    totalAttempts := c.totalAttempts + 1
    log := c.log ++ [CallEvent.request index] }
  match answer.1 with
  | .value r =>
    set c
    return .ok r
  | .timedOut =>
    set c
    return .error (timeoutError state ref)
  | .failed err =>
    set c
    return .error err
  | .cancelled =>
    set { c with log := c.log ++ [CallEvent.cancelled] }
    settle router ref (.cancelled false)
    throw .cancelled

/-- One turn of the loop of `_invoke`. -/
def invokeTurn (state : CallState) (original : Payload) (index : Nat) (ref : ModelRef)
    (tries : Nat) (payload : Payload) (repaired : Bool) : Call σ (Turn (R × ModelCall)) := do
  match ← invokeOnce router state index ref payload with
  | .ok r =>
    settle router ref .reply
    let call ← finish router state ref (router.usageOf r) index none
    spent router call
    return .served (r, call)
  | .error err =>
    if err.kind = .invalidOutput ∧ err.rawOutput.getD "" ≠ "" ∧ repaired = false then
      fail router ref err
      return .again (repair original err) true
    else if ← retryAfter router ref err tries then return .again payload repaired
    else return .passed

/-- What comes out of a stream: its reply, the time of the first token, and the tokens. -/
structure Received where
  reply : Option AdapterReply := none
  firstTokenAt : Option Int := none
  tokens : List String := []
  deriving DecidableEq

def Received.add (received : Received) : AdapterStreamEvent × Int → Received
  | (.streamEnd reply, _) => { received with reply := some reply }
  | (.keepAlive, _) => received
  | (.textDelta text, time) =>
    if text = "" then received
    else { received with
      firstTokenAt := received.firstTokenAt <|> some time
      tokens := received.tokens ++ [text] }

/-- The stream of an adapter, with each token given to the caller. -/
def streamOnce (state : CallState) (index : Nat) (ref : ModelRef) (payload : Payload) :
    Call σ (Received × Except ProviderError AdapterReply) := do
  let c ← get
  let (events, ending, scene) :=
    router.streamChat c.scene ref.provider (requestOf state ref payload)
  let received := events.foldl Received.add {}
  let c := { c with
    scene := scene
    totalAttempts := c.totalAttempts + 1
    log := c.log ++ CallEvent.request index :: received.tokens.map CallEvent.token }
  match ending with
  | .value () =>
    set c
    match received.reply with
    | some reply => return (received, .ok reply)
    | none => return (received, .error {
        kind := .invalidOutput
        message := "stream ended without a final message"
        provider := ref.provider })
  | .timedOut =>
    set c
    return (received, .error (timeoutError state ref))
  | .failed err =>
    set c
    return (received, .error err)
  | .cancelled =>
    set { c with log := c.log ++ [CallEvent.cancelled] }
    settle router ref (.cancelled received.reply.isSome)
    throw .cancelled

/-- One turn of the loop of `stream`. -/
def streamTurn (state : CallState) (index : Nat) (ref : ModelRef) (tries : Nat)
    (payload : Payload) (repaired : Bool) : Call σ (Turn (AdapterReply × ModelCall)) := do
  match ← streamOnce router state index ref payload with
  | (received, .ok reply) =>
    settle router ref .reply
    let ttft := received.firstTokenAt.map (msSince router state.t0)
    let call ← finish router state ref reply.usage index ttft
    spent router call
    return .served (reply, call)
  | (received, .error err) =>
    if received.firstTokenAt.isSome then
      fail router ref err
      throw (.interrupted state.step.value (← get).attempts)
    else if ← retryAfter router ref err tries then return .again payload repaired
    else return .passed

/-! ## The loops -/

/-- `while breaker.allow()`, for so many turns. -/
def attempts {α : Type} (ref : ModelRef) (turn : Nat → Payload → Bool → Call σ (Turn α)) :
    Nat → Nat → Payload → Bool → Call σ (Option α)
  | 0, _, _, _ => throw .unfinished
  | turns + 1, tries, payload, repaired => do
    if ← allow router ref then
      match ← turn (tries + 1) payload repaired with
      | .served a => return some a
      | .again payload repaired => attempts ref turn turns (tries + 1) payload repaired
      | .passed => return none
    else
      note ref "skipped: breaker open"
      return none

/-- `for index, ref in enumerate(candidates)`. -/
def candidates {α : Type} (turns : Nat) (state : CallState) (payload : Payload)
    (turn : Nat → ModelRef → Nat → Payload → Bool → Call σ (Turn α)) :
    List (ModelRef × Nat) → Call σ α
  | [] => do throw (.unavailable state.step.value (← get).attempts)
  | (ref, index) :: rest => do
    if ← skip router ref then candidates turns state payload turn rest
    else
      match ← attempts router ref (turn index ref) turns 0 payload false with
      | some a => return a
      | none => candidates turns state payload turn rest

/-- `chat`, `structured` and `embed`, by way of `_invoke`. -/
def call (turns : Nat) (step : Step) (kind : StepKind) (prompt : Option String)
    (payload : Payload) : Call σ (R × ModelCall) := do
  let state ← start router step kind prompt
  check router state
  candidates router turns state payload (invokeTurn router state payload)
    (candidatesOf state.route).zipIdx

def stream (turns : Nat) (step : Step) (prompt : Option String) (payload : Payload) :
    Call σ (AdapterReply × ModelCall) := do
  let state ← start router step .chat prompt
  check router state
  candidates router turns state payload (streamTurn router state)
    (candidatesOf state.route).zipIdx

end

end ModelRouter
end SecondMind
