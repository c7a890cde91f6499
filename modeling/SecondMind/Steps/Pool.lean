import SecondMind.Steps.Program

/-!
# Programs side by side

Requests come in, each with a program of its own.  At every move one of the programs does its next
action on the world they share, or a fault strikes there; the others wait, and a program may wait
for good.

* `Pool.run` — the run of a pool under a schedule;
* `Program.Keeps` — a program keeps to a rule about what may be done after what was done, and ends
  as the rule has it;
* `Pool.run_keeps` — what every allowed action keeps, of the world and of what was done, holds after
  every schedule.
-/

namespace Steps

variable {L A W ε α β : Type}

/-- What a program did, and what became of it; the last comes first. -/
abbrev Past (A W ε : Type) := List (A × Except ε W)

/-! ## Rules -/

/-- What can become of an action: a world it leads to, or any failure. -/
def Results (exec : A → W → Except ε W) (a : A) : Except ε W → Prop
  | .ok w' => ∃ w, exec a w = .ok w'
  | .error _ => True

variable (exec : A → W → Except ε W)

theorem results_attempt (faults : Nat → Option ε) (n : Nat) (a : A) (w : W) :
    Results exec a (Program.attempt exec faults n a w) := by
  cases hr : Program.attempt exec faults n a w with
  | error e => trivial
  | ok w' => exact ⟨w, (Program.attempt_ok hr).2⟩

/-- Every action was allowed after those before it. -/
def Lawful (rule : Past A W ε → A → Prop) : Past A W ε → Prop
  | [] => True
  | (a, _) :: past => rule past a ∧ Lawful rule past

/-- What is done next is allowed, whatever became of what was done; the end is as it should be. -/
def Program.Keeps (rule : Past A W ε → A → Prop) (ends : α → Past A W ε → Prop) :
    Program A W ε α → Past A W ε → Prop
  | .done a, past => ends a past
  | .act a next, past =>
    rule past a ∧ ∀ r, Results exec a r → (next r).Keeps rule ends ((a, r) :: past)

section

variable {exec} {rule : Past A W ε → A → Prop} {ends : β → Past A W ε → Prop}

theorem Program.keeps_bind {p : Program A W ε α} {f : α → Program A W ε β} {past : Past A W ε}
    (h : p.Keeps exec rule (fun a past => (f a).Keeps exec rule ends past) past) :
    (p >>= f).Keeps exec rule ends past := by
  induction p generalizing past with
  | done a => exact h
  | act a next ih => exact ⟨h.1, fun r hr => ih r (h.2 r hr)⟩

theorem Program.Keeps.mono {ends' : β → Past A W ε → Prop} {p : Program A W ε β}
    {past : Past A W ε} (h : p.Keeps exec rule ends past)
    (himp : ∀ b past, ends b past → ends' b past) : p.Keeps exec rule ends' past := by
  induction p generalizing past with
  | done b => exact himp b past h
  | act a next ih => exact ⟨h.1, fun r hr => ih r (h.2 r hr)⟩

end

namespace Raising

/-- A program that may raise keeps to a rule. -/
def Keeps (rule : Past A W ε → A → Prop) (ends : Except ε α → Past A W ε → Prop)
    (x : Raising A W ε α) (past : Past A W ε) : Prop :=
  Program.Keeps exec rule ends x.run past

/-- The end of a program that another follows, unless it raises. -/
def Follows (rule : Past A W ε → A → Prop) (ends : Except ε β → Past A W ε → Prop)
    (f : α → Raising A W ε β) : Except ε α → Past A W ε → Prop
  | .ok a, past => Keeps exec rule ends (f a) past
  | .error e, past => ends (.error e) past

/-- The end of a program with a handler. -/
def Handled (rule : Past A W ε → A → Prop) (ends : Except ε α → Past A W ε → Prop)
    (handle : ε → Raising A W ε α) : Except ε α → Past A W ε → Prop
  | .ok a, past => ends (.ok a) past
  | .error e, past => Keeps exec rule ends (handle e) past

variable {exec} {rule : Past A W ε → A → Prop} {past : Past A W ε}

theorem keeps_perform {a : A} {ends : Except ε W → Past A W ε → Prop} (hrule : rule past a)
    (h : ∀ r, Results exec a r → ends r ((a, r) :: past)) :
    Keeps exec rule ends (perform a) past :=
  ⟨hrule, h⟩

theorem keeps_pure {a : α} {ends : Except ε α → Past A W ε → Prop} (h : ends (.ok a) past) :
    Keeps exec rule ends (pure a) past := h

theorem keeps_throw {e : ε} {ends : Except ε α → Past A W ε → Prop} (h : ends (.error e) past) :
    Keeps exec rule ends (throw e) past := h

/-- What follows goes on where the program before it stopped, unless that raised. -/
theorem keeps_bind {x : Raising A W ε α} {f : α → Raising A W ε β}
    {ends : Except ε β → Past A W ε → Prop}
    (h : Keeps exec rule (Follows exec rule ends f) x past) :
    Keeps exec rule ends (x >>= f) past := by
  refine Program.keeps_bind (Program.Keeps.mono h fun r past hr => ?_)
  cases r with
  | ok a => exact hr
  | error e => exact hr

/-- One action, and what follows it. -/
theorem keeps_perform_bind {a : A} {f : W → Raising A W ε β}
    {ends : Except ε β → Past A W ε → Prop} (hrule : rule past a)
    (hok : ∀ w', Results exec a (.ok w') → Keeps exec rule ends (f w') ((a, .ok w') :: past))
    (herror : ∀ e, ends (.error e) ((a, .error e) :: past)) :
    Keeps exec rule ends (perform a >>= f) past := by
  refine keeps_bind (keeps_perform hrule fun r hr => ?_)
  cases r with
  | ok w' => exact hok w' hr
  | error e => exact herror e

/-- The handler goes on where the program raised. -/
theorem keeps_tryCatch {x : Raising A W ε α} {handle : ε → Raising A W ε α}
    {ends : Except ε α → Past A W ε → Prop}
    (h : Keeps exec rule (Handled exec rule ends handle) x past) :
    Keeps exec rule ends (tryCatch x handle) past := by
  refine Program.keeps_bind (Program.Keeps.mono h fun r past hr => ?_)
  cases r with
  | ok a => exact hr
  | error e => exact hr

theorem Keeps.mono {x : Raising A W ε α} {ends ends' : Except ε α → Past A W ε → Prop}
    (h : Keeps exec rule ends x past) (himp : ∀ r past, ends r past → ends' r past) :
    Keeps exec rule ends' x past :=
  Program.Keeps.mono h himp

end Raising

/-! ## Pools -/

/-- A program under way, for a request. -/
structure Thread (L A W ε α : Type) where
  label : L
  past : Past A W ε := []
  rest : Program A W ε α

namespace Thread

/-- The next action of a thread. -/
def go (fault : Option ε) (t : Thread L A W ε α) (w : W) : Thread L A W ε α × W :=
  match t.rest with
  | .done _ => (t, w)
  | .act a next =>
    let r := Program.attempt exec (fun _ => fault) 0 a w
    ({ t with past := (a, r) :: t.past, rest := next r }, Program.after w r)

end Thread

/-- The programs that run side by side, and the world they share. -/
structure Pool (L A W ε α : Type) where
  world : W
  threads : List (Thread L A W ε α) := []

/-- A move: a request comes, or a thread does its next action. -/
inductive Move (L ε : Type)
  | comes (label : L)
  | goes (i : Nat) (fault : Option ε)

namespace Pool

variable (program : L → Program A W ε α)

def step (pool : Pool L A W ε α) : Move L ε → Pool L A W ε α
  | .comes label => { pool with threads := pool.threads ++ [{ label, rest := program label }] }
  | .goes i fault =>
    match pool.threads[i]? with
    | none => pool
    | some t =>
      let (t', w') := t.go exec fault pool.world
      { world := w', threads := pool.threads.set i t' }

/-- The run of a pool under a schedule. -/
def run (pool : Pool L A W ε α) (moves : List (Move L ε)) : Pool L A W ε α :=
  moves.foldl (step exec program) pool

/-- What was done, for whom. -/
def traces (pool : Pool L A W ε α) : List (L × Past A W ε) :=
  pool.threads.map fun t => (t.label, t.past)

/-- What is kept when a request comes, and when an action that is allowed is done or fails. -/
structure Kept (rule : L → Past A W ε → A → Prop) (inv : W → List (L × Past A W ε) → Prop) :
    Prop where
  comes : ∀ {w traces}, inv w traces → ∀ l, inv w (traces ++ [(l, [])])
  goes : ∀ {w traces}, inv w traces → ∀ {i : Nat} {l past}, traces[i]? = some (l, past) →
    Lawful (rule l) past → ∀ {a}, rule l past a → ∀ {r},
    (∀ w', r = .ok w' → exec a w = .ok w') →
    inv (Program.after w r) (traces.set i (l, (a, r) :: past))

/-- A thread kept to its rule, and will. -/
structure Orderly (rule : L → Past A W ε → A → Prop) (ends : L → α → Past A W ε → Prop)
    (t : Thread L A W ε α) : Prop where
  lawful : Lawful (rule t.label) t.past
  keeps : t.rest.Keeps exec (rule t.label) (ends t.label) t.past

variable {exec program} {rule : L → Past A W ε → A → Prop} {ends : L → α → Past A W ε → Prop}
  {inv : W → List (L × Past A W ε) → Prop}

theorem Orderly.go {t : Thread L A W ε α} (h : Orderly exec rule ends t) (fault : Option ε)
    (w : W) : Orderly exec rule ends (t.go exec fault w).1 := by
  unfold Thread.go
  split
  case h_1 => exact h
  case h_2 a next hrest =>
    have hkeeps := h.keeps
    rw [hrest] at hkeeps
    exact ⟨⟨hkeeps.1, h.lawful⟩, hkeeps.2 _ (results_attempt exec _ 0 a w)⟩

/-- What a move keeps. -/
theorem step_keeps (hkept : Kept exec rule inv)
    (hprogram : ∀ l, (program l).Keeps exec (rule l) (ends l) []) {pool : Pool L A W ε α}
    (h : inv pool.world pool.traces ∧ ∀ t ∈ pool.threads, Orderly exec rule ends t)
    (move : Move L ε) :
    inv (pool.step exec program move).world (pool.step exec program move).traces ∧
      ∀ t ∈ (pool.step exec program move).threads, Orderly exec rule ends t := by
  obtain ⟨hinv, hthreads⟩ := h
  cases move with
  | comes l =>
    refine ⟨?_, ?_⟩
    · have hcomes := hkept.comes hinv l
      rwa [traces, ← List.map_singleton (f := fun t : Thread L A W ε α => (t.label, t.past))
        (a := { label := l, rest := program l }), ← List.map_append] at hcomes
    · intro t ht
      rcases List.mem_append.1 ht with ht | ht
      · exact hthreads t ht
      · rw [List.mem_singleton.1 ht]
        exact ⟨trivial, hprogram l⟩
  | goes i fault =>
    rw [step]
    split
    case h_1 => exact ⟨hinv, hthreads⟩
    case h_2 t ht =>
      have horderly := hthreads t (List.mem_of_getElem? ht)
      refine ⟨?_, ?_⟩
      · show inv (t.go exec fault pool.world).2
          ((pool.threads.set i (t.go exec fault pool.world).1).map fun t => (t.label, t.past))
        have htrace : pool.traces[i]? = some (t.label, t.past) := by
          rw [traces, List.getElem?_map, ht]
          rfl
        rw [List.map_set]
        unfold Thread.go
        split
        case h_1 =>
          obtain ⟨hlt, hself⟩ := List.getElem?_eq_some_iff.1 htrace
          have hsame : pool.traces.set i (t.label, t.past) = pool.traces := by
            rw [← hself, List.set_getElem_self]
          exact hsame ▸ hinv
        case h_2 a next hrest =>
          have hkeeps := horderly.keeps
          rw [hrest] at hkeeps
          exact hkept.goes hinv htrace horderly.lawful hkeeps.1
            fun w' hr => (Program.attempt_ok hr).2
      · intro t' ht'
        rcases List.mem_or_eq_of_mem_set ht' with ht' | rfl
        · exact hthreads t' ht'
        · exact horderly.go fault pool.world

/-- **What every allowed action keeps** holds after every schedule. -/
theorem run_keeps (hkept : Kept exec rule inv)
    (hprogram : ∀ l, (program l).Keeps exec (rule l) (ends l) []) {pool : Pool L A W ε α}
    (h : inv pool.world pool.traces ∧ ∀ t ∈ pool.threads, Orderly exec rule ends t)
    (moves : List (Move L ε)) :
    inv (pool.run exec program moves).world (pool.run exec program moves).traces ∧
      ∀ t ∈ (pool.run exec program moves).threads, Orderly exec rule ends t := by
  induction moves generalizing pool with
  | nil => exact h
  | cons move moves ih => exact ih (step_keeps hkept hprogram h move)

end Pool

end Steps
