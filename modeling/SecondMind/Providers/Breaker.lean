import SecondMind.Core.Zone

/-!
# The circuit breaker of a provider

`providers/resilience.py`, and what the attempt loops of `ModelRouter` do with one breaker: any
number of calls attempt, reply, fail or are cancelled, in any order.

* `CircuitBreaker` — the breaker, with its four operations;
* `Traffic.step` — one operation of one call, or the clock;
* `Traffic.run_onlyProbe` — at most one probe is in flight, as long as no other call settles
  while it is;
* `Traffic.run_lets_through` — while the breaker is open, no call is let through early;
* `breaker_discipline` — both, for every run.
-/

namespace SecondMind

/-- `ResiliencePolicy`, as far as the breaker reads it. -/
structure ResiliencePolicy where
  breakerThreshold : Int := 5
  breakerWindow : Int := 60 * second
  breakerCooldown : Int := 30 * second

/-- `BreakerState`. -/
inductive BreakerState
  | closed | opened | halfOpen
  deriving DecidableEq, Repr

structure CircuitBreaker where
  failures : List Int := []
  openedAt : Option Int := none
  probeInFlight : Bool := false
  deriving DecidableEq

namespace CircuitBreaker

variable (p : ResiliencePolicy) (b : CircuitBreaker) (now : Int)

def state : BreakerState :=
  match b.openedAt with
  | none => .closed
  | some openedAt => if p.breakerCooldown ≤ now - openedAt then .halfOpen else .opened

/-- `allow`: the answer, and the breaker after it. -/
def allow : Bool × CircuitBreaker :=
  match b.state p now with
  | .closed => (true, b)
  | .halfOpen => if b.probeInFlight then (false, b) else (true, { b with probeInFlight := true })
  | .opened => (false, b)

def releaseProbe : CircuitBreaker := { b with probeInFlight := false }

def recordSuccess (_ : CircuitBreaker) : CircuitBreaker where
  failures := []
  openedAt := none
  probeInFlight := false

def recordFailure : CircuitBreaker :=
  match b.openedAt with
  | some _ => { b with openedAt := some now, probeInFlight := false }
  | none =>
    let failures := (b.failures ++ [now]).dropWhile (p.breakerWindow < now - ·)
    if p.breakerThreshold ≤ failures.length then { b with failures := [], openedAt := some now }
    else { b with failures := failures }

end CircuitBreaker

/-! ## Calls -/

/-- How an attempt ends. -/
inductive Outcome
  | reply
  /-- A `ProviderError`, which counts against the provider's health only if it is retryable. -/
  | providerError (retryable : Bool)
  /-- Cancelled; a stream may be cancelled after its reply. -/
  | cancelled (replied : Bool)
  deriving DecidableEq

/-- What an attempt tells the breaker at its end. -/
def CircuitBreaker.settle (p : ResiliencePolicy) (b : CircuitBreaker) (now : Int) :
    Outcome → CircuitBreaker
  | .reply => b.recordSuccess
  | .providerError true => b.recordFailure p now
  | .providerError false => b.recordSuccess
  | .cancelled false => b.releaseProbe
  | .cancelled true => b

/-- The breaker is told something. -/
def Outcome.told : Outcome → Bool
  | .cancelled true => false
  | _ => true

/-- The clock, the breaker, and the calls with an attempt in flight: those that were let through as
a probe, and the others. -/
structure Traffic where
  now : Int
  breaker : CircuitBreaker := {}
  probes : List Nat := []
  others : List Nat := []
  deriving DecidableEq

/-- What happens next. -/
inductive Act
  | wait (time : Nat)
  | attempt (call : Nat)
  | settle (call : Nat) (outcome : Outcome)
  deriving DecidableEq

namespace Traffic

variable (p : ResiliencePolicy) (t : Traffic)

def InFlight (call : Nat) : Prop := call ∈ t.probes ∨ call ∈ t.others

instance (call : Nat) : Decidable (t.InFlight call) := inferInstanceAs (Decidable (_ ∨ _))

/-- `while breaker.allow()`. -/
def attempt (call : Nat) : Traffic :=
  let (allowed, breaker) := t.breaker.allow p t.now
  if ¬ allowed then { t with breaker := breaker }
  else if t.breaker.state p t.now = .halfOpen then
    { t with breaker := breaker, probes := call :: t.probes }
  else { t with breaker := breaker, others := call :: t.others }

def settle (call : Nat) (outcome : Outcome) : Traffic where
  now := t.now
  breaker := t.breaker.settle p t.now outcome
  probes := t.probes.erase call
  others := t.others.erase call

/-- **One step**: a call has one attempt in flight at a time. -/
def step : Act → Traffic
  | .wait time => { t with now := t.now + time }
  | .attempt call => if t.InFlight call then t else t.attempt p call
  | .settle call outcome => if t.InFlight call then t.settle p call outcome else t

def run (acts : List Act) : Traffic := acts.foldl (step p) t

/-- No other call tells the breaker something while a probe is in flight. -/
def Undisturbed : Act → Prop
  | .settle call outcome => call ∈ t.others → outcome.told = true → t.probes = []
  | _ => True

instance (act : Act) : Decidable (t.Undisturbed act) :=
  match act with
  | .settle _ _ => inferInstanceAs (Decidable (_ → _ → _))
  | .wait _ => isTrue trivial
  | .attempt _ => isTrue trivial

/-- So it is in every step of a run. -/
def Calm : Traffic → List Act → Prop
  | _, [] => True
  | t, act :: acts => t.Undisturbed act ∧ Calm (t.step p act) acts

instance decidableCalm (t : Traffic) : (acts : List Act) → Decidable (Calm p t acts)
  | [] => isTrue trivial
  | act :: acts =>
    have := decidableCalm (t.step p act) acts
    inferInstanceAs (Decidable (_ ∧ _))

/-! ## The probe -/

/-- At most one probe is in flight, and it has the slot of an open breaker. -/
structure OnlyProbe : Prop where
  single : t.probes.length ≤ 1
  held : t.probes ≠ [] → t.breaker.probeInFlight = true
  isOpen : t.probes ≠ [] → t.breaker.openedAt ≠ none

variable {p t}

theorem OnlyProbe.of_nil (h : t.probes = []) : t.OnlyProbe where
  single := by simp [h]
  held := fun hne => absurd h hne
  isOpen := fun hne => absurd h hne

theorem OnlyProbe.attempt (h : t.OnlyProbe) (call : Nat) : (t.attempt p call).OnlyProbe := by
  unfold Traffic.attempt CircuitBreaker.allow
  cases hstate : t.breaker.state p t.now with
  | closed => exact ⟨h.single, h.held, h.isOpen⟩
  | opened => exact ⟨h.single, h.held, h.isOpen⟩
  | halfOpen =>
    by_cases hslot : t.breaker.probeInFlight = true
    · simp only [hslot, if_true]
      exact ⟨h.single, h.held, h.isOpen⟩
    · have hnone : t.probes = [] := by
        by_contra hne
        exact hslot (h.held hne)
      have hopen : t.breaker.openedAt ≠ none := by
        intro hclosed
        rw [CircuitBreaker.state, hclosed] at hstate
        exact nomatch hstate
      simp only [hslot]
      exact ⟨by simp [hnone], fun _ => rfl, fun _ => hopen⟩

theorem OnlyProbe.settle (h : t.OnlyProbe) {call : Nat} {outcome : Outcome}
    (hin : t.InFlight call) (hcalm : t.Undisturbed (.settle call outcome)) :
    (t.settle p call outcome).OnlyProbe := by
  by_cases hprobe : call ∈ t.probes
  · refine .of_nil (List.eq_nil_of_length_eq_zero ?_)
    have hsingle := h.single
    show (t.probes.erase call).length = 0
    rw [List.length_erase_of_mem hprobe]
    omega
  · have hkept : (t.settle p call outcome).probes = t.probes := List.erase_of_not_mem hprobe
    by_cases htold : outcome.told = true
    · exact .of_nil (hkept.trans (hcalm (hin.resolve_left hprobe) htold))
    · have hsame : (t.settle p call outcome).breaker = t.breaker := by
        match outcome, htold with
        | .cancelled true, _ => rfl
        | .cancelled false, htold | .reply, htold | .providerError _, htold => exact absurd rfl htold
      refine ⟨?_, fun hne => ?_, fun hne => ?_⟩
      · rw [hkept]
        exact h.single
      · rw [hsame]
        exact h.held (hkept ▸ hne)
      · rw [hsame]
        exact h.isOpen (hkept ▸ hne)

/-- One step keeps the probe the only one. -/
theorem OnlyProbe.step (h : t.OnlyProbe) {act : Act} (hcalm : t.Undisturbed act) :
    (t.step p act).OnlyProbe := by
  cases act with
  | wait time => exact ⟨h.single, h.held, h.isOpen⟩
  | attempt call =>
    show OnlyProbe (if _ then _ else _)
    split
    · exact h
    · exact h.attempt call
  | settle call outcome =>
    show OnlyProbe (if _ then _ else _)
    split
    · rename_i hin
      exact h.settle hin hcalm
    · exact h

theorem run_onlyProbe {acts : List Act} (h : t.OnlyProbe) (hcalm : Calm p t acts) :
    (t.run p acts).OnlyProbe := by
  induction acts generalizing t with
  | nil => exact h
  | cons act acts ih => exact ih (h.step hcalm.1) hcalm.2

/-! ## The cooldown -/

/-- The breaker has been open since an instant, or has tripped again. -/
def OpenSince (t : Traffic) (instant : Int) : Prop :=
  ∃ openedAt ∈ t.breaker.openedAt, instant ≤ openedAt

/-- The breaker trips: it opens, or opens for another cooldown. -/
def Trips (p : ResiliencePolicy) (t : Traffic) (act : Act) : Prop :=
  ∃ call, act = .settle call (.providerError true) ∧ t.InFlight call ∧
    (t.step p act).breaker.openedAt = some t.now

/-- A call is let through. -/
def LetsThrough (p : ResiliencePolicy) (t : Traffic) (call : Nat) : Prop :=
  ¬ t.InFlight call ∧ (t.breaker.allow p t.now).1 = true

/-- The breaker is not closed in any state of a run. -/
def StaysOpen (p : ResiliencePolicy) (t : Traffic) (acts : List Act) : Prop :=
  ∀ before, before <+: acts → (t.run p before).breaker.openedAt ≠ none

theorem now_le_step (p : ResiliencePolicy) (t : Traffic) (act : Act) : t.now ≤ (t.step p act).now := by
  cases act with
  | wait time =>
    show t.now ≤ t.now + time
    omega
  | attempt call =>
    show _ ≤ Traffic.now (if _ then _ else _)
    split
    · exact Int.le_refl _
    · unfold Traffic.attempt
      dsimp only
      split
      · exact Int.le_refl _
      · split <;> exact Int.le_refl _
  | settle call outcome =>
    show _ ≤ Traffic.now (if _ then _ else _)
    split <;> exact Int.le_refl _

theorem allow_openedAt (b : CircuitBreaker) (p : ResiliencePolicy) (now : Int) :
    (b.allow p now).2.openedAt = b.openedAt := by
  unfold CircuitBreaker.allow
  split
  · rfl
  · split <;> rfl
  · rfl

theorem OpenSince.step {instant : Int} {act : Act} (h : t.OpenSince instant)
    (hle : instant ≤ t.now) (hopen : (t.step p act).breaker.openedAt ≠ none) :
    (t.step p act).OpenSince instant := by
  have hsame : (t.step p act).breaker.openedAt = t.breaker.openedAt →
      (t.step p act).OpenSince instant := by
    intro heq
    rw [OpenSince, heq]
    exact h
  cases act with
  | wait time => exact h
  | attempt call =>
    refine hsame ?_
    show CircuitBreaker.openedAt (Traffic.breaker (if _ then _ else _)) = _
    split
    · rfl
    · unfold Traffic.attempt
      dsimp only
      split
      · exact allow_openedAt _ _ _
      · split <;> exact allow_openedAt _ _ _
  | settle call outcome =>
    by_cases hin : t.InFlight call
    · have hstep : t.step p (.settle call outcome) = t.settle p call outcome := if_pos hin
      rw [hstep] at hopen ⊢
      cases outcome with
      | reply => exact absurd (rfl : (none : Option Int) = none) hopen
      | providerError retryable =>
        cases retryable with
        | false => exact absurd (rfl : (none : Option Int) = none) hopen
        | true =>
          obtain ⟨openedAt, hopened, -⟩ := h
          refine ⟨t.now, ?_, hle⟩
          show _ ∈ (t.breaker.recordFailure p t.now).openedAt
          rw [CircuitBreaker.recordFailure, Option.mem_def.1 hopened]
          rfl
      | cancelled replied => cases replied <;> exact h
    · have hstep : t.step p (.settle call outcome) = t := if_neg hin
      rw [hstep]
      exact h

theorem run_openSince {instant : Int} {acts : List Act} (h : t.OpenSince instant)
    (hle : instant ≤ t.now) (hopen : StaysOpen p t acts) : (t.run p acts).OpenSince instant := by
  induction acts generalizing t with
  | nil => exact h
  | cons act acts ih =>
    have hone : (t.step p act).breaker.openedAt ≠ none := hopen [act] ⟨acts, rfl⟩
    refine ih (h.step hle hone) (Int.le_trans hle (now_le_step p t act)) ?_
    intro before hbefore
    exact hopen (act :: before) (List.cons_prefix_cons.2 ⟨rfl, hbefore⟩)

/-- An open breaker lets a call through after its cooldown only. -/
theorem OpenSince.lets_through {instant : Int} {call : Nat} (h : t.OpenSince instant)
    (hcall : LetsThrough p t call) : p.breakerCooldown ≤ t.now - instant := by
  obtain ⟨openedAt, hopened, hle⟩ := h
  have hallow := hcall.2
  by_cases hcool : p.breakerCooldown ≤ t.now - openedAt
  · omega
  · have hstate : t.breaker.state p t.now = .opened := by
      rw [CircuitBreaker.state, Option.mem_def.1 hopened]
      exact if_neg hcool
    rw [CircuitBreaker.allow, hstate] at hallow
    exact absurd hallow Bool.false_ne_true

/-- **No call is let through early** while the breaker is open. -/
theorem run_lets_through {act : Act} {acts : List Act} {call : Nat} (htrip : Trips p t act)
    (hopen : StaysOpen p (t.step p act) acts)
    (hcall : LetsThrough p ((t.step p act).run p acts) call) :
    p.breakerCooldown ≤ ((t.step p act).run p acts).now - t.now := by
  obtain ⟨call', -, -, hopened⟩ := htrip
  have hsince : (t.step p act).OpenSince t.now := ⟨t.now, hopened, Int.le_refl _⟩
  exact (run_openSince hsince (now_le_step p t act) hopen).lets_through hcall

end Traffic

/-! ## Both -/

open Traffic

/-- **The breaker's discipline**, in every run in which no other call settles while a probe is in
flight: one probe at a time, and none before the cooldown. -/
theorem breaker_discipline (p : ResiliencePolicy) (start : Int) (acts : List Act)
    (hcalm : Calm p { now := start } acts) :
    (Traffic.run p { now := start } acts).probes.length ≤ 1 ∧
      ∀ before act after call, acts = before ++ act :: after →
        Trips p (Traffic.run p { now := start } before) act →
        StaysOpen p (Traffic.run p { now := start } (before ++ [act])) after →
        LetsThrough p (Traffic.run p { now := start } acts) call →
        p.breakerCooldown ≤
          (Traffic.run p { now := start } acts).now - (Traffic.run p { now := start } before).now := by
  refine ⟨(run_onlyProbe (.of_nil rfl) hcalm).single, ?_⟩
  rintro before act after call rfl htrip hopen hcall
  have hsplit : Traffic.run p { now := start } (before ++ act :: after) =
      Traffic.run p (Traffic.step p (Traffic.run p { now := start } before) act) after := by
    rw [Traffic.run, List.foldl_append]
    rfl
  have hone : Traffic.run p { now := start } (before ++ [act]) =
      Traffic.step p (Traffic.run p { now := start } before) act := by
    rw [Traffic.run, List.foldl_append]
    rfl
  rw [hone] at hopen
  rw [hsplit] at hcall ⊢
  exact run_lets_through htrip hopen hcall

/-- Five calls fail, and after the cooldown another one is let through. -/
def recovery : List Act :=
  (List.range 5).map .attempt ++ (List.range 5).map (.settle · (.providerError true)) ++
    [.wait 30000000, .attempt 5]

theorem recovery_one_probe : (Traffic.run {} { now := 0 } recovery).probes.length ≤ 1 :=
  (breaker_discipline {} 0 recovery (by decide)).1

/-- **Two probes**: a call from before the trip is cancelled, and its slot is none of its own. -/
theorem late_cancellation_second_probe :
    let t := Traffic.run {} { now := 0 }
      (.attempt 6 :: recovery ++ [.settle 6 (.cancelled false), .attempt 7])
    t.breaker.state {} t.now = .halfOpen ∧ t.probes = [7, 5] := by
  decide

end SecondMind
