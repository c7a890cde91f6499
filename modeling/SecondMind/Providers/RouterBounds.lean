import SecondMind.Core.Triples
import SecondMind.Providers.Router

/-!
# The bounds of the model router

A turn of a loop asks a provider once, and another turn follows it only while nothing was given to
the caller.

* `Asking`, `Told` — a call before and after a turn;
* `invokeTurn_spec`, `streamTurn_spec` — what a turn does to a call;
* `attempts_spec`, `candidates_spec` — from it, the two loops;
* `router_bounds` — how often a call asks a provider, and how it ends.
-/

set_option mvcgen.warning false

namespace SecondMind
namespace ModelRouter

open Std.Do

variable {σ R : Type} {router : Router σ R}

/-! ## The log of a call -/

def CallEvent.IsRequest : CallEvent → Prop
  | .request _ => True
  | _ => False

instance : DecidablePred CallEvent.IsRequest
  | .request _ => isTrue trivial
  | .token _ => isFalse id
  | .cancelled => isFalse id

def requestsOf (log : List CallEvent) : List CallEvent := log.filter (·.IsRequest)

/-- At most so many requests, and none after the first token. -/
structure Bounded (n : Nat) (log : List CallEvent) : Prop where
  few : (requestsOf log).length ≤ n
  ordered : log.Pairwise fun e e' => ¬ e.IsRequest → ¬ e'.IsRequest

theorem Bounded.mono {n m : Nat} {log : List CallEvent} (h : Bounded n log) (hle : n ≤ m) :
    Bounded m log :=
  ⟨h.few.trans hle, h.ordered⟩

section

variable {requests rest : List CallEvent}

theorem requestsOf_append (hrequests : ∀ e ∈ requests, e.IsRequest)
    (hrest : ∀ e ∈ rest, ¬ e.IsRequest) : requestsOf (requests ++ rest) = requests := by
  rw [requestsOf, List.filter_append, (List.filter_eq_nil_iff (l := rest)).2 (by simpa using hrest),
    List.append_nil, List.filter_eq_self]
  simpa using hrequests

/-- Requests, and then none. -/
theorem Bounded.of_append {n : Nat} (hrequests : ∀ e ∈ requests, e.IsRequest)
    (hrest : ∀ e ∈ rest, ¬ e.IsRequest) (hfew : requests.length ≤ n) :
    Bounded n (requests ++ rest) := by
  constructor
  · rwa [requestsOf_append hrequests hrest]
  · refine List.pairwise_append.2 ⟨?_, ?_, ?_⟩
    · exact List.pairwise_of_forall_mem_list fun e he _ _ h => absurd (hrequests e he) h
    · exact List.pairwise_of_forall_mem_list fun _ _ e' he' _ => hrest e' he'
    · exact fun _ _ e' he' _ => hrest e' he'

end

theorem Bounded.of_requests {n : Nat} {log : List CallEvent} (h : ∀ e ∈ log, e.IsRequest)
    (hfew : log.length ≤ n) : Bounded n log := by
  have hbounded := Bounded.of_append h (List.forall_mem_nil fun e => ¬ CallEvent.IsRequest e) hfew
  rwa [List.append_nil] at hbounded

/-! ## A call on its way, and at its end -/

/-- Nothing but requests so far, and at most so many. -/
structure Asking (n : Nat) (log : List CallEvent) (total : Nat) : Prop where
  requests : ∀ e ∈ log, e.IsRequest
  few : log.length ≤ n
  counted : total = log.length

/-- Then a candidate was asked, and gave the caller these tokens. -/
def Told (n index : Nat) (tokens : List String) (log : List CallEvent) (total : Nat) : Prop :=
  ∃ asked, Asking n asked asked.length ∧
    log = asked ++ .request index :: tokens.map .token ∧ total = asked.length + 1

/-- The call that is returned: the attempts so far, the candidate, and the mark of a fallback. -/
def ServedBy (total index : Nat) (ref : ModelRef) (call : ModelCall) : Prop :=
  call.attempts = total ∧ (⟨call.provider, call.model⟩ : ModelRef) = ref ∧
    (call.fallback.isSome ↔ 0 < index)

/-- The candidate at `index` served the call. -/
structure Served (n index : Nat) (ref : ModelRef) (call : ModelCall) (c : Run σ) : Prop where
  bounded : Bounded n c.log
  alive : CallEvent.cancelled ∉ c.log
  last : (requestsOf c.log).getLast? = some (.request index)
  by_ref : ServedBy (requestsOf c.log).length index ref call

/-- The call failed once it had begun. -/
structure Failed (n : Nat) (e : CallError) (c : Run σ) : Prop where
  bounded : Bounded n c.log
  cancelled_iff : e = .cancelled ↔ CallEvent.cancelled ∈ c.log
  finished : e ≠ .unfinished
  kind : ∀ message, e ≠ .wrongKind message

section

variable {n m index : Nat} {tokens : List String} {log : List CallEvent} {total : Nat}
  {ref : ModelRef} {call : ModelCall} {e : CallError} {c : Run σ}

theorem Asking.mono (h : Asking n log total) (hle : n ≤ m) : Asking m log total :=
  ⟨h.requests, h.few.trans hle, h.counted⟩

theorem Served.mono (h : Served n index ref call c) (hle : n ≤ m) : Served m index ref call c :=
  { h with bounded := h.bounded.mono hle }

theorem Failed.mono (h : Failed n e c) (hle : n ≤ m) : Failed m e c :=
  { h with bounded := h.bounded.mono hle }

theorem Asking.failed (h : Asking n c.log c.totalAttempts) (hcancelled : e ≠ .cancelled)
    (hfinished : e ≠ .unfinished) (hkind : ∀ message, e ≠ .wrongKind message) : Failed n e c where
  bounded := .of_requests h.requests h.few
  cancelled_iff := iff_of_false hcancelled fun hmem => h.requests _ hmem
  finished := hfinished
  kind := hkind

theorem Asking.told (h : Asking n log total) (index : Nat) (tokens : List String) :
    Told n index tokens (log ++ .request index :: tokens.map .token) (total + 1) :=
  ⟨log, ⟨h.requests, h.few, rfl⟩, rfl, congrArg (· + 1) h.counted⟩

/-- What was told, as requests and tokens. -/
theorem Told.parts (h : Told n index tokens log total) :
    ∃ requests : List CallEvent, (∀ e ∈ requests, e.IsRequest) ∧ requests.length ≤ n + 1 ∧
      requests.getLast? = some (.request index) ∧ log = requests ++ tokens.map .token ∧
      total = requests.length := by
  obtain ⟨asked, hasked, hlog, htotal⟩ := h
  refine ⟨asked ++ [.request index], fun e he => ?_, ?_, ?_, ?_, ?_⟩
  · rcases List.mem_append.1 he with he | he
    · exact hasked.requests e he
    · rw [List.mem_singleton.1 he]
      trivial
  · rw [List.length_append]
    exact Nat.succ_le_succ hasked.few
  · exact List.getLast?_concat
  · rw [hlog, List.append_assoc]
    rfl
  · rw [htotal, List.length_append]
    rfl

theorem not_isRequest_token : ∀ e ∈ tokens.map CallEvent.token, ¬ e.IsRequest := by
  intro e he
  obtain ⟨text, -, rfl⟩ := List.mem_map.1 he
  exact id

/-- A request without a token leaves the call on its way. -/
theorem Told.asking (h : Told n index [] log total) : Asking (n + 1) log total := by
  obtain ⟨requests, hrequests, hfew, -, hlog, htotal⟩ := h.parts
  rw [List.map_nil, List.append_nil] at hlog
  exact hlog ▸ ⟨hrequests, hfew, htotal⟩

theorem Told.served (h : Told n index tokens c.log c.totalAttempts)
    (hcall : ServedBy c.totalAttempts index ref call) : Served (n + 1) index ref call c := by
  obtain ⟨requests, hrequests, hfew, hlast, hlog, htotal⟩ := h.parts
  have heq := requestsOf_append hrequests (@not_isRequest_token tokens)
  rw [htotal] at hcall
  constructor
  · rw [hlog]
    exact Bounded.of_append hrequests not_isRequest_token hfew
  · intro hmem
    rw [hlog, List.mem_append] at hmem
    rcases hmem with hmem | hmem
    · exact hrequests _ hmem
    · obtain ⟨text, -, htext⟩ := List.mem_map.1 hmem
      cases htext
  · rwa [hlog, heq]
  · rwa [hlog, heq]

/-- A stream is interrupted after its tokens. -/
theorem Told.interrupted (h : Told n index tokens c.log c.totalAttempts) (step : String)
    (attempts : List Attempt) : Failed (n + 1) (.interrupted step attempts) c := by
  obtain ⟨requests, hrequests, hfew, -, hlog, -⟩ := h.parts
  refine ⟨?_, iff_of_false CallError.noConfusion fun hmem => ?_, CallError.noConfusion,
    fun _ => CallError.noConfusion⟩
  · rw [hlog]
    exact Bounded.of_append hrequests not_isRequest_token hfew
  · rw [hlog, List.mem_append] at hmem
    rcases hmem with hmem | hmem
    · exact hrequests _ hmem
    · obtain ⟨text, -, htext⟩ := List.mem_map.1 hmem
      cases htext

end

/-! ## The parts of a turn -/

/-- A wait was cancelled in a state of which `P` holds. -/
def Cancelled (P : List CallEvent → Nat → Prop) (e : CallError) (c : Run σ) : Prop :=
  e = .cancelled ∧ ∃ log, P log c.totalAttempts ∧ c.log = log ++ [.cancelled]

/-- A call that is cancelled after requests and tokens fails so. -/
theorem Cancelled.failed {n : Nat} {P : List CallEvent → Nat → Prop} {e : CallError} {c : Run σ}
    (h : Cancelled P e c)
    (hparts : ∀ log total, P log total → ∃ requests : List CallEvent, ∃ tokens : List String,
      (∀ e ∈ requests, e.IsRequest) ∧ requests.length ≤ n ∧ log = requests ++ tokens.map .token) :
    Failed n e c := by
  obtain ⟨rfl, log, hlog, hc⟩ := h
  obtain ⟨requests, tokens, hrequests, hfew, rfl⟩ := hparts log _ hlog
  rw [List.append_assoc] at hc
  refine ⟨?_, iff_of_true rfl ?_, CallError.noConfusion, fun _ => CallError.noConfusion⟩
  · rw [hc]
    refine Bounded.of_append hrequests (fun e he => ?_) hfew
    rcases List.mem_append.1 he with he | he
    · exact not_isRequest_token e he
    · rw [List.mem_singleton.1 he]
      exact id
  · rw [hc]
    simp

theorem Cancelled.failed_of_told {n index : Nat} {P : List CallEvent → Nat → Prop} {e : CallError}
    {c : Run σ} (h : Cancelled P e c)
    (htold : ∀ log total, P log total → ∃ tokens, Told n index tokens log total) :
    Failed (n + 1) e c := by
  refine h.failed fun log total hP => ?_
  obtain ⟨tokens, htokens⟩ := htold log total hP
  obtain ⟨requests, hrequests, hfew, -, hlog, -⟩ := htokens.parts
  exact ⟨requests, tokens, hrequests, hfew, hlog⟩

theorem Cancelled.failed_of_asking {n : Nat} {e : CallError} {c : Run σ}
    (h : Cancelled (Asking n) e c) : Failed n e c :=
  h.failed fun log _ hasking => ⟨log, [], hasking.requests, hasking.few, by simp⟩

section

variable (P : List CallEvent → Nat → Prop)

theorem await_spec {α : Type} (f : Scene σ → Wait α × Scene σ) :
    ⦃fun c => ⌜P c.log c.totalAttempts⌝⦄
    await f
    ⦃post⟨fun _ c => ⌜P c.log c.totalAttempts⌝, fun e c => ⌜Cancelled P e c⌝⟩⦄ := by
  mvcgen [await]
  rename_i c h _ _
  exact ⟨rfl, c.log, h, rfl⟩

theorem settle_spec (ref : ModelRef) (outcome : Outcome) :
    ⦃fun c => ⌜P c.log c.totalAttempts⌝⦄
    (settle router ref outcome : Call σ Unit)
    ⦃post⟨fun _ c => ⌜P c.log c.totalAttempts⌝, fun _ _ => ⌜False⌝⟩⦄ := by
  mvcgen [settle]

theorem note_spec (ref : ModelRef) (outcome : String) :
    ⦃fun c => ⌜P c.log c.totalAttempts⌝⦄
    (note ref outcome : Call σ Unit)
    ⦃post⟨fun _ c => ⌜P c.log c.totalAttempts⌝, fun _ _ => ⌜False⌝⟩⦄ := by
  mvcgen [note]

theorem allow_spec (ref : ModelRef) :
    ⦃fun c => ⌜P c.log c.totalAttempts⌝⦄
    (allow router ref : Call σ Bool)
    ⦃post⟨fun _ c => ⌜P c.log c.totalAttempts⌝, fun _ _ => ⌜False⌝⟩⦄ := by
  mvcgen [allow]

theorem skip_spec (ref : ModelRef) :
    ⦃fun c => ⌜P c.log c.totalAttempts⌝⦄
    (skip router ref : Call σ Bool)
    ⦃post⟨fun _ c => ⌜P c.log c.totalAttempts⌝, fun e c => ⌜Cancelled P e c⌝⟩⦄ := by
  have hawait := @await_spec σ P
  have hnote := @note_spec σ P
  mvcgen [skip, hawait, hnote]

theorem fail_spec (ref : ModelRef) (err : ProviderError) :
    ⦃fun c => ⌜P c.log c.totalAttempts⌝⦄
    (fail router ref err : Call σ Unit)
    ⦃post⟨fun _ c => ⌜P c.log c.totalAttempts⌝, fun _ _ => ⌜False⌝⟩⦄ := by
  have hsettle := @settle_spec σ R router P
  have hnote := @note_spec σ P
  mvcgen [fail, hsettle, hnote]

/-- Another try is one of those that the policy allows. -/
theorem retryAfter_spec (ref : ModelRef) (err : ProviderError) (tries : Nat) :
    ⦃fun c => ⌜P c.log c.totalAttempts⌝⦄
    (retryAfter router ref err tries : Call σ Bool)
    ⦃post⟨fun retried c => ⌜P c.log c.totalAttempts ∧
        (retried = true → tries ≤ router.policy.maxRetries)⌝,
      fun e c => ⌜Cancelled P e c⌝⟩⦄ := by
  have hfail := @fail_spec σ R router P
  have hawait := @await_spec σ P
  mvcgen [retryAfter, hfail, hawait] <;> simp_all

theorem spent_spec (call : ModelCall) :
    ⦃fun c => ⌜P c.log c.totalAttempts⌝⦄
    (spent router call : Call σ Unit)
    ⦃post⟨fun _ c => ⌜P c.log c.totalAttempts⌝, fun e c => ⌜Cancelled P e c⌝⟩⦄ := by
  have hawait := @await_spec σ P
  mvcgen [spent, hawait]

theorem finish_spec (state : CallState) (ref : ModelRef) (raw : RawUsage) (index : Nat)
    (ttft : Option Int) :
    ⦃fun c => ⌜P c.log c.totalAttempts⌝⦄
    (finish router state ref raw index ttft : Call σ ModelCall)
    ⦃post⟨fun call c => ⌜P c.log c.totalAttempts ∧ ServedBy c.totalAttempts index ref call⌝,
      fun _ _ => ⌜False⌝⟩⦄ := by
  mvcgen [finish]
  rename_i h _
  refine ⟨h, rfl, rfl, ?_⟩
  unfold fallbackInfo
  split <;> simp_all

end

/-! ## One turn -/

/-- After a turn the call is served, or goes on: with fewer tries left, or, once, with a repaired
payload. -/
def Turned {α : Type} (policy : Policy) (n index : Nat) (ref : ModelRef) (tries : Nat)
    (repaired : Bool) (turn : Turn (α × ModelCall)) (c : Run σ) : Prop :=
  match turn with
  | .served a => Served (n + 1) index ref a.2 c
  | .again _ repaired' => Asking (n + 1) c.log c.totalAttempts ∧
      (repaired = false ∧ repaired' = true ∨ repaired' = repaired ∧ tries ≤ policy.maxRetries)
  | .passed => Asking (n + 1) c.log c.totalAttempts

theorem invokeOnce_spec (state : CallState) (index : Nat) (ref : ModelRef) (payload : Payload)
    (n : Nat) :
    ⦃fun c => ⌜Asking n c.log c.totalAttempts⌝⦄
    (invokeOnce router state index ref payload : Call σ (Except ProviderError R))
    ⦃post⟨fun _ c => ⌜Told n index [] c.log c.totalAttempts⌝,
      fun e c => ⌜Cancelled (Told n index []) e c⌝⟩⦄ := by
  mvcgen [invokeOnce, settle]
  case vc4.h_4 => exact ⟨rfl, _, Asking.told ‹_› index [], rfl⟩
  all_goals exact Asking.told ‹_› index []

/-- The time of the first token is taken with the first token. -/
theorem Received.add_firstTokenAt {received : Received}
    (h : received.firstTokenAt.isSome ↔ received.tokens ≠ []) (event : AdapterStreamEvent × Int) :
    (received.add event).firstTokenAt.isSome ↔ (received.add event).tokens ≠ [] := by
  obtain ⟨event, time⟩ := event
  cases event with
  | streamEnd reply => exact h
  | keepAlive => exact h
  | textDelta text =>
    by_cases htext : text = ""
    · simpa [Received.add, htext] using h
    · cases received.firstTokenAt <;> simp [Received.add, htext]

theorem Received.foldl_firstTokenAt (events : List (AdapterStreamEvent × Int)) {received : Received}
    (h : received.firstTokenAt.isSome ↔ received.tokens ≠ []) :
    (events.foldl Received.add received).firstTokenAt.isSome ↔
      (events.foldl Received.add received).tokens ≠ [] := by
  induction events generalizing received with
  | nil => exact h
  | cons event events ih => exact ih (Received.add_firstTokenAt h event)

theorem streamOnce_spec (state : CallState) (index : Nat) (ref : ModelRef) (payload : Payload)
    (n : Nat) :
    ⦃fun c => ⌜Asking n c.log c.totalAttempts⌝⦄
    (streamOnce router state index ref payload :
      Call σ (Received × Except ProviderError AdapterReply))
    ⦃post⟨fun x c => ⌜Told n index x.1.tokens c.log c.totalAttempts ∧
        (x.1.firstTokenAt.isSome ↔ x.1.tokens ≠ [])⌝,
      fun e c => ⌜∃ tokens, Cancelled (Told n index tokens) e c⌝⟩⦄ := by
  have hfirst := fun events => @Received.foldl_firstTokenAt events {} (by decide)
  mvcgen [streamOnce, settle]
  case vc5.h_4 => exact ⟨_, rfl, _, Asking.told ‹_› index _, rfl⟩
  all_goals exact ⟨Asking.told ‹_› index _, hfirst _⟩

theorem invokeTurn_spec (state : CallState) (original : Payload) (index : Nat) (ref : ModelRef)
    (tries : Nat) (payload : Payload) (repaired : Bool) (n : Nat) :
    ⦃fun c => ⌜Asking n c.log c.totalAttempts⌝⦄
    (invokeTurn router state original index ref tries payload repaired :
      Call σ (Turn (R × ModelCall)))
    ⦃post⟨fun turn c => ⌜Turned router.policy n index ref tries repaired turn c⌝,
      fun e c => ⌜Failed (n + 1) e c⌝⟩⦄ := by
  have honce := fun payload => @invokeOnce_spec σ R router state index ref payload n
  have hsettle := @settle_spec σ R router (Told n index [])
  have hfinish := @finish_spec σ R router (Told n index [])
  have hspent := fun call => @spent_spec σ R router
    (fun log total => Told n index [] log total ∧ ServedBy total index ref call) call
  have hfail := @fail_spec σ R router (Told n index [])
  have hretry := @retryAfter_spec σ R router (Told n index [])
  mvcgen [invokeTurn, honce, hsettle, hfinish, hspent, hfail, hretry]
  case vc5.post.success.h_1.post.success.post.success.post.success h =>
    exact Told.served h.1 h.2
  case vc6.post.success.h_1.post.success.post.success.post.except.handle =>
    exact fun h => h.failed_of_told fun log total hP => ⟨[], hP.1⟩
  case vc8.post.success.h_2.isTrue.post.success hrepair _ _ _ _ h =>
    exact ⟨Told.asking h, .inl ⟨hrepair.2.2, rfl⟩⟩
  case vc10.post.success.h_2.isFalse.post.success.isTrue hretried _ h =>
    exact ⟨Told.asking h.1, .inr ⟨rfl, h.2 hretried⟩⟩
  case vc11.post.success.h_2.isFalse.post.success.isFalse h =>
    exact Told.asking h.1
  all_goals exact fun h => h.failed_of_told fun log total htold => ⟨[], htold⟩

theorem streamTurn_spec (state : CallState) (index : Nat) (ref : ModelRef)
    (tries : Nat) (payload : Payload) (repaired : Bool) (n : Nat) :
    ⦃fun c => ⌜Asking n c.log c.totalAttempts⌝⦄
    (streamTurn router state index ref tries payload repaired :
      Call σ (Turn (AdapterReply × ModelCall)))
    ⦃post⟨fun turn c => ⌜Turned router.policy n index ref tries repaired turn c⌝,
      fun e c => ⌜Failed (n + 1) e c⌝⟩⦄ := by
  have honce := fun payload => @streamOnce_spec σ R router state index ref payload n
  have hsettle := @settle_spec σ R router fun log total => ∃ tokens, Told n index tokens log total
  have hfinish := @finish_spec σ R router fun log total => ∃ tokens, Told n index tokens log total
  have hspent := fun call => @spent_spec σ R router (fun log total =>
    (∃ tokens, Told n index tokens log total) ∧ ServedBy total index ref call) call
  have hfail := @fail_spec σ R router fun log total => ∃ tokens, Told n index tokens log total
  have hretry := @retryAfter_spec σ R router (Told n index [])
  mvcgen [streamTurn, honce, hsettle, hfinish, hspent, hfail, hretry]
  case vc2.post.success.h_1.pre h => exact ⟨_, h.1⟩
  case vc5.post.success.h_1.post.success.post.success.post.success h =>
    obtain ⟨tokens, htold⟩ := h.1
    exact htold.served h.2
  case vc6.post.success.h_1.post.success.post.success.post.except.handle =>
    exact fun h => h.failed_of_told fun log total hP => hP.1
  case vc7.post.success.h_2.isTrue.pre h => exact ⟨_, h.1⟩
  case vc8.post.success.h_2.isTrue.post.success h =>
    obtain ⟨tokens, htold⟩ := h
    exact htold.interrupted _ _
  case vc9.post.success.h_2.isFalse.pre hfirst _ h =>
    rw [h.2, ne_eq, not_not] at hfirst
    exact hfirst ▸ h.1
  case vc10.post.success.h_2.isFalse.post.success.isTrue hretried _ h =>
    exact ⟨Told.asking h.1, .inr ⟨rfl, h.2 hretried⟩⟩
  case vc11.post.success.h_2.isFalse.post.success.isFalse h =>
    exact Told.asking h.1
  case vc12.post.success.h_2.isFalse.post.except.handle =>
    exact fun h => h.failed_of_told fun log total htold => ⟨[], htold⟩
  case vc13.post.except.handle =>
    rintro ⟨tokens, h⟩
    exact h.failed_of_told fun log total htold => ⟨tokens, htold⟩

/-! ## The loops -/

/-- A turn of a loop that does what turns do. -/
def IsTurn {α : Type} (policy : Policy) (index : Nat) (ref : ModelRef)
    (turn : Nat → Payload → Bool → Call σ (Turn (α × ModelCall))) : Prop :=
  ∀ tries payload repaired n,
    ⦃fun c => ⌜Asking n c.log c.totalAttempts⌝⦄
    turn tries payload repaired
    ⦃post⟨fun turn c => ⌜Turned policy n index ref tries repaired turn c⌝,
      fun e c => ⌜Failed (n + 1) e c⌝⟩⦄

/-- How the attempts with one candidate end. -/
def Tried {α : Type} (n index : Nat) (ref : ModelRef) (a : Option (α × ModelCall)) (c : Run σ) :
    Prop :=
  match a with
  | some a => Served n index ref a.2 c
  | none => Asking n c.log c.totalAttempts

theorem Tried.mono {α : Type} {n m index : Nat} {ref : ModelRef} {a : Option (α × ModelCall)}
    {c : Run σ} (h : Tried n index ref a c) (hle : n ≤ m) : Tried m index ref a c := by
  cases a with
  | some a => exact Served.mono h hle
  | none => exact Asking.mono h hle

/-- **The attempts with one candidate.** A payload that was not repaired has so many tries left,
and a repaired one has one more. -/
theorem attempts_spec {α : Type} {index : Nat} {ref : ModelRef}
    {turn : Nat → Payload → Bool → Call σ (Turn (α × ModelCall))}
    (hturn : IsTurn router.policy index ref turn) (turns tries n : Nat) (payload : Payload)
    (repaired : Bool) (htries : tries ≤ router.policy.maxRetries + repaired.toNat)
    (hturns : router.policy.maxRetries + 2 ≤ turns + tries) :
    ⦃fun c => ⌜Asking n c.log c.totalAttempts⌝⦄
    (attempts router ref turn turns tries payload repaired : Call σ (Option (α × ModelCall)))
    ⦃post⟨fun a c => ⌜Tried (n + (router.policy.maxRetries + 2 - tries)) index ref a c⌝,
      fun e c => ⌜Failed (n + (router.policy.maxRetries + 2 - tries)) e c⌝⟩⦄ := by
  induction turns generalizing tries n payload repaired with
  | zero =>
    have := Bool.toNat_le repaired
    omega
  | succ turns ih =>
    have hallow := @allow_spec σ R router (Asking n)
    have hnote := @note_spec σ (Asking n)
    have hstep := fun payload repaired => hturn (tries + 1) payload repaired n
    have hih := fun payload repaired => ih (tries + 1) (n + 1) payload repaired
    have hleft : tries + 1 ≤ router.policy.maxRetries + 2 := by
      have := Bool.toNat_le repaired
      omega
    mvcgen [attempts, hallow, hnote, hstep, hih]
    case vc3.succ.post.success.isTrue.post.success.h_1 h => exact Served.mono h (by omega)
    case vc4.succ.post.success.isTrue.post.success.h_2.pre h => exact h.1
    case vc5.succ.post.success.isTrue.post.success.h_2.post.success =>
      exact fun h => h.mono (by omega)
    case vc6.succ.post.success.isTrue.post.success.h_2.post.except.handle =>
      exact fun h => h.mono (by omega)
    case vc7 =>
      rintro _ ⟨-, ⟨hfirst, hrepaired⟩ | ⟨hsame, hretry⟩⟩
      · rw [hrepaired]
        rw [hfirst] at htries
        exact Nat.succ_le_succ htries
      · omega
    case vc8 => omega
    case vc9.succ.post.success.isTrue.post.success.h_3 h => exact Asking.mono h (by omega)
    case vc10.succ.post.success.isTrue.post.except.handle => exact fun h => h.mono (by omega)
    case vc12.succ.post.success.isFalse.post.success h => exact Asking.mono h (by omega)

/-- **The candidates, in their order.** -/
theorem candidates_spec {α : Type} {state : CallState} {payload : Payload}
    {turn : Nat → ModelRef → Nat → Payload → Bool → Call σ (Turn (α × ModelCall))} {turns : Nat}
    (hturn : ∀ index ref, IsTurn router.policy index ref (turn index ref))
    (hturns : router.policy.maxRetries + 2 ≤ turns) (rest : List (ModelRef × Nat)) (n : Nat) :
    ⦃fun c => ⌜Asking n c.log c.totalAttempts⌝⦄
    (candidates router turns state payload turn rest : Call σ (α × ModelCall))
    ⦃post⟨fun a c => ⌜∃ x ∈ rest,
        Served (n + rest.length * (router.policy.maxRetries + 2)) x.2 x.1 a.2 c⌝,
      fun e c => ⌜Failed (n + rest.length * (router.policy.maxRetries + 2)) e c⌝⟩⦄ := by
  induction rest generalizing n with
  | nil =>
    mvcgen [candidates]
    rename_i c h
    have hfailed := h.failed (e := .unavailable state.step.value c.attempts)
      CallError.noConfusion CallError.noConfusion fun _ => CallError.noConfusion
    exact hfailed.mono (by omega)
  | cons x rest ih =>
    obtain ⟨ref, index⟩ := x
    have hskip := @skip_spec σ R router (Asking n)
    have htry := attempts_spec (hturn index ref) turns 0 n payload false (Nat.zero_le _) hturns
    have hlength : (((ref, index) :: rest).length * (router.policy.maxRetries + 2)) =
        rest.length * (router.policy.maxRetries + 2) + (router.policy.maxRetries + 2) :=
      Nat.succ_mul _ _
    mvcgen [candidates, hskip, htry, ih]
    case vc3.cons.post.success.isTrue.post.success =>
      rintro ⟨x, hx, h⟩
      exact ⟨x, List.mem_cons_of_mem _ hx, h.mono (by omega)⟩
    case vc7.cons.post.success.isFalse.post.success.h_1 h =>
      exact ⟨_, List.mem_cons_self, Served.mono h (by omega)⟩
    case vc9.cons.post.success.isFalse.post.success.h_2.post.success =>
      rintro ⟨x, hx, h⟩
      exact ⟨x, List.mem_cons_of_mem _ hx, h.mono (by omega)⟩
    case vc13.cons.post.except.handle => exact fun h => h.failed_of_asking.mono (by omega)
    all_goals exact fun h => h.mono (by omega)

/-! ## The calls -/

theorem start_spec (step : Step) (kind : StepKind) (prompt : Option String) (n : Nat) :
    ⦃fun c => ⌜Asking n c.log c.totalAttempts⌝⦄
    (start router step kind prompt : Call σ CallState)
    ⦃post⟨fun state c => ⌜Asking n c.log c.totalAttempts ∧ state.route = router.routing step ∧
        (router.routing step).kind = kind⌝,
      fun e c => ⌜Asking n c.log c.totalAttempts ∧ (router.routing step).kind ≠ kind ∧
        ∃ message, e = .wrongKind message⌝⟩⦄ := by
  mvcgen [start]
  all_goals simp_all +zetaDelta

theorem check_spec (state : CallState) (n : Nat) :
    ⦃fun c => ⌜Asking n c.log c.totalAttempts⌝⦄
    (check router state : Call σ Unit)
    ⦃post⟨fun _ c => ⌜Asking n c.log c.totalAttempts⌝, fun e c => ⌜Failed n e c⌝⟩⦄ := by
  have hawait := @await_spec σ (Asking n)
  mvcgen [check, hawait]
  case vc5.h_2.isFalse.post.success.h_2 h =>
    exact Asking.failed h CallError.noConfusion CallError.noConfusion fun _ => CallError.noConfusion
  case vc6.h_2.isFalse.post.except.handle => exact Cancelled.failed_of_asking

/-- An error that `providers/errors.py` declares for a call. -/
def CallError.Declared : CallError → Prop
  | .unavailable _ _ | .refused _ _ | .interrupted _ _ => True
  | _ => False

/-- The bounds of a call, with its end: it is served by a candidate, the last one that was asked,
and has the mark of a fallback if that one is not the primary; or it fails, with a declared error,
or because it was cancelled, or because its step is of another kind. -/
structure WithinBounds {α : Type} (router : Router σ R) (step : Step) (kind : StepKind)
    (x : Except CallError (α × ModelCall) × Run σ) : Prop where
  bounded : Bounded ((candidatesOf (router.routing step)).length * (router.policy.maxRetries + 2))
    x.2.log
  cancelled_iff : x.1 = .error .cancelled ↔ CallEvent.cancelled ∈ x.2.log
  wrongKind_iff : (∃ message, x.1 = .error (.wrongKind message)) ↔
    (router.routing step).kind ≠ kind
  served : ∀ a, x.1 = .ok a → ∃ ref index,
    (ref, index) ∈ (candidatesOf (router.routing step)).zipIdx ∧
      (requestsOf x.2.log).getLast? = some (.request index) ∧
      ServedBy (requestsOf x.2.log).length index ref a.2
  failed : ∀ e, x.1 = .error e →
    e.Declared ∨ e = .cancelled ∨ ∃ message, e = .wrongKind message

/-- What the triple of a call says of its end. -/
theorem withinBounds_of_triple {α : Type} {step : Step} {kind : StepKind}
    {m : Call σ (α × ModelCall)}
    (h : ⦃fun c => ⌜Asking 0 c.log c.totalAttempts⌝⦄
      m
      ⦃post⟨fun a c => ⌜(router.routing step).kind = kind ∧
          ∃ x ∈ (candidatesOf (router.routing step)).zipIdx,
            Served (0 + (candidatesOf (router.routing step)).zipIdx.length *
              (router.policy.maxRetries + 2)) x.2 x.1 a.2 c⌝,
        fun e c => ⌜(router.routing step).kind = kind ∧
            Failed (0 + (candidatesOf (router.routing step)).zipIdx.length *
              (router.policy.maxRetries + 2)) e c ∨
          Asking 0 c.log c.totalAttempts ∧ (router.routing step).kind ≠ kind ∧
            ∃ message, e = .wrongKind message⌝⟩⦄) (scene : Scene σ) :
    WithinBounds router step kind (m.run.run { scene := scene }) := by
  have hrun := run_of_triple h (w := { scene := scene }) ⟨by simp, Nat.zero_le _, rfl⟩
  rw [Nat.zero_add, List.length_zipIdx] at hrun
  split at hrun
  · rename_i a c heq
    rw [heq]
    obtain ⟨hkind, ⟨ref, index⟩, hmem, hserved⟩ := hrun
    constructor
    · exact hserved.bounded
    · exact iff_of_false (by simp) hserved.alive
    · exact iff_of_false (by simp) (not_not_intro hkind)
    · rintro _ ⟨⟩
      exact ⟨ref, index, hmem, hserved.last, hserved.by_ref⟩
    · simp
  · rename_i e c heq
    rw [heq]
    obtain ⟨hkind, hfailed⟩ | ⟨hasking, hkind, message, rfl⟩ := hrun
    · constructor
      · exact hfailed.bounded
      · exact ⟨fun h => hfailed.cancelled_iff.1 (Except.error.inj h),
          fun h => congrArg _ (hfailed.cancelled_iff.2 h)⟩
      · refine iff_of_false ?_ (not_not_intro hkind)
        rintro ⟨message, hmessage⟩
        exact hfailed.kind message (Except.error.inj hmessage)
      · simp
      · rintro _ ⟨⟩
        cases e with
        | unavailable | refused | interrupted => exact .inl trivial
        | wrongKind message => exact .inr (.inr ⟨message, rfl⟩)
        | cancelled => exact .inr (.inl rfl)
        | unfinished => exact absurd rfl hfailed.finished
    · constructor
      · exact (Bounded.of_requests hasking.requests hasking.few).mono (Nat.zero_le _)
      · exact iff_of_false (by simp) fun h => hasking.requests _ h
      · exact iff_of_true ⟨message, rfl⟩ hkind
      · simp
      · rintro _ ⟨⟩
        exact .inr (.inr ⟨message, rfl⟩)

/-- A call is within the bounds whichever turn its loops make. -/
theorem withinBounds_of_isTurn {α : Type} {turns : Nat} (step : Step) (kind : StepKind)
    (prompt : Option String) (payload : Payload)
    {turn : CallState → Nat → ModelRef → Nat → Payload → Bool → Call σ (Turn (α × ModelCall))}
    (hturn : ∀ state index ref, IsTurn router.policy index ref (turn state index ref))
    (hturns : router.policy.maxRetries + 2 ≤ turns) (scene : Scene σ) :
    WithinBounds router step kind ((do
      let state ← start router step kind prompt
      check router state
      candidates router turns state payload (turn state) (candidatesOf state.route).zipIdx :
        Call σ (α × ModelCall)).run.run { scene := scene }) := by
  refine withinBounds_of_triple ?_ scene
  have hstart := @start_spec σ R router step kind prompt 0
  have hcheck := fun state => @check_spec σ R router state 0
  have hcandidates := fun state => @candidates_spec σ R router α state payload (turn state) turns
    (hturn state) hturns (candidatesOf state.route).zipIdx 0
  mvcgen [hstart, hcheck, hcandidates]
  case vc2.post.success.pre h => exact h.1
  case vc4.post.success.post.success.post.success hstate _ _ _ _ _ =>
    rw [hstate.2.1]
    exact fun h => ⟨hstate.2.2, h⟩
  case vc5.post.success.post.success.post.except.handle hstate _ _ _ _ _ =>
    rw [hstate.2.1]
    exact fun h => .inl ⟨hstate.2.2, h⟩
  case vc6.post.success.post.except.handle hstate _ _ =>
    exact fun h => .inl ⟨hstate.2.2, h.mono (Nat.zero_le _)⟩
  case vc7.post.except.handle => exact fun hasking hkind he => .inr ⟨hasking, hkind, he⟩

/-- **The bounds of the router**, for a plain call and for a streamed one, whatever the providers,
the guard, the caller and other calls do, and however many more turns a loop may make. -/
theorem router_bounds (router : Router σ R) (scene : Scene σ) (more : Nat) (step : Step)
    (kind : StepKind) (prompt : Option String) (payload : Payload) :
    WithinBounds router step kind ((call router (router.policy.maxRetries + 2 + more) step kind
      prompt payload).run.run { scene := scene }) ∧
    WithinBounds router step .chat ((stream router (router.policy.maxRetries + 2 + more) step
      prompt payload).run.run { scene := scene }) := by
  have hturns := Nat.le_add_right (router.policy.maxRetries + 2) more
  constructor
  · exact withinBounds_of_isTurn step kind prompt payload
      (fun state index ref tries payload' repaired n =>
        invokeTurn_spec state payload index ref tries payload' repaired n) hturns scene
  · exact withinBounds_of_isTurn step .chat prompt payload
      (fun state index ref tries payload' repaired n =>
        streamTurn_spec state index ref tries payload' repaired n) hturns scene

/-- A route to one model. -/
def oneModel : ResolvedRoute where
  kind := .chat
  primary := ⟨"anthropic", "claude"⟩
  fallback := none
  timeout := "30"
  maxOutputTokens := 1024
  effort := none
  prompt := none

/-- A router whose calls are cancelled while they wait for an answer. -/
def leftRouter : Router Unit Unit where
  routing _ := oneModel
  prices := { version := "1", cost := fun _ _ => 0, chargedTokens := fun _ _ => 0 }
  policy := {}
  now _ := 0
  milliseconds time := time
  backOff scene _ := (.value (), scene)
  invoke scene _ _ := (.cancelled, scene)
  usageOf _ := { inputTokens := 0, outputTokens := 0 }
  streamChat scene _ _ := ([], .cancelled, scene)

/-- A cancelled call ends with its cancellation, which is no declared error. -/
theorem cancelled_call_undeclared :
    ¬ ∀ (σ R : Type) (router : Router σ R) (scene : Scene σ) (more : Nat) (step : Step)
        (prompt : Option String) (payload : Payload) (e : CallError),
      (router.routing step).kind = .chat →
      ((call router (router.policy.maxRetries + 2 + more) step .chat prompt payload).run.run
        { scene := scene }).1 = .error e → e.Declared := by
  intro h
  exact h Unit Unit leftRouter { state := (), monotonic := 0 } 0 .answer none
    { system := none, messages := [] } .cancelled rfl rfl

end ModelRouter
end SecondMind
