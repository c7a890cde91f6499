import Mathlib.Order.Basic

/-!
# Programs of steps that can fail

A program does one action after the other on a world.  Before an action a fault may strike, and
the action may fail by itself; the world is then as it was, and the program goes on with the
failure, as a handler would.

* `Program.run` — the run of a program under a pattern of faults;
* `Program.run_bind` — a program goes on where the one before it stopped;
* `Program.Only`, `Program.run_keeps` — what the actions of a program keep, its runs keep;
* `Program.Settled`, `Program.unchanged_iff` — a run that ends badly has changed nothing, if and
  only if no run goes on to a bad end from an action that changes something.
-/

namespace Steps

/-- A program of actions `A`; each goes on with the world it leaves, or with its failure. -/
inductive Program (A W ε α : Type)
  | done (value : α)
  | act (action : A) (next : Except ε W → Program A W ε α)

/-- How a run ends: with its value, after so many steps, in this world. -/
structure Ending (W α : Type) where
  value : α
  steps : Nat
  world : W

namespace Program

variable {A W ε α β : Type}

protected def bind (f : α → Program A W ε β) : Program A W ε α → Program A W ε β
  | done a => f a
  | act a next => act a fun r => (next r).bind f

instance : Monad (Program A W ε) where
  pure := done
  bind p f := p.bind f

@[simp] theorem bind_done (a : α) (f : α → Program A W ε β) : done a >>= f = f a := rfl

@[simp] theorem bind_act (a : A) (next : Except ε W → Program A W ε α)
    (f : α → Program A W ε β) : act a next >>= f = act a fun r => next r >>= f := rfl

/-! ## Runs -/

section

variable (exec : A → W → Except ε W) (faults : Nat → Option ε)

/-- What becomes of an action at a step. -/
def attempt (n : Nat) (a : A) (w : W) : Except ε W :=
  match faults n with
  | some e => .error e
  | none => exec a w

/-- The world after a step. -/
def after (w : W) : Except ε W → W
  | .ok w' => w'
  | .error _ => w

/-- The run of a program, from the step with number `n` on. -/
def run : Program A W ε α → Nat → W → Ending W α
  | done a, n, w => ⟨a, n, w⟩
  | act a next, n, w =>
    let r := attempt exec faults n a w
    (next r).run (n + 1) (after w r)

end

section

variable {exec : A → W → Except ε W} {faults : Nat → Option ε}

theorem attempt_ok {n : Nat} {a : A} {w w' : W} (h : attempt exec faults n a w = .ok w') :
    faults n = none ∧ exec a w = .ok w' := by
  unfold attempt at h
  split at h
  · cases h
  · rename_i hnone
    exact ⟨hnone, h⟩

theorem attempt_of_fault {n : Nat} {e : ε} (h : faults n = some e) (a : A) (w : W) :
    attempt exec faults n a w = .error e := by
  rw [attempt, h]

theorem attempt_of_none {n : Nat} (h : faults n = none) (a : A) (w : W) :
    attempt exec faults n a w = exec a w := by
  rw [attempt, h]

variable (exec faults) in
theorem run_act (a : A) (next : Except ε W → Program A W ε α) (n : Nat) (w : W) :
    (act a next).run exec faults n w =
      (next (attempt exec faults n a w)).run exec faults (n + 1)
        (after w (attempt exec faults n a w)) := rfl

variable (exec faults) in
/-- **A program goes on** where the one before it stopped. -/
theorem run_bind (p : Program A W ε α) (f : α → Program A W ε β) (n : Nat) (w : W) :
    (p >>= f).run exec faults n w =
      (f (p.run exec faults n w).value).run exec faults (p.run exec faults n w).steps
        (p.run exec faults n w).world := by
  induction p generalizing n w with
  | done a => rfl
  | act a next ih =>
    rw [bind_act, run_act, run_act]
    exact ih _ _ _

/-! ## What the actions keep -/

/-- Every action of the program is one of these. -/
def Only (P : A → Prop) : Program A W ε α → Prop
  | done _ => True
  | act a next => P a ∧ ∀ r, (next r).Only P

theorem only_bind {P : A → Prop} {p : Program A W ε α} {f : α → Program A W ε β}
    (hp : p.Only P) (hf : ∀ a, (f a).Only P) : (p >>= f).Only P := by
  induction p with
  | done a => exact hf a
  | act a next ih => exact ⟨hp.1, fun r => ih r (hp.2 r)⟩

/-- **A run keeps** what each of its actions keeps. -/
theorem run_keeps {P : A → Prop} {I : W → Prop}
    (hstep : ∀ a w w', P a → exec a w = .ok w' → I w → I w') {p : Program A W ε α}
    (hp : p.Only P) {n : Nat} {w : W} (hw : I w) : I (p.run exec faults n w).world := by
  induction p generalizing n w with
  | done a => exact hw
  | act a next ih =>
    rw [run_act]
    refine ih _ (hp.2 _) ?_
    cases hr : attempt exec faults n a w with
    | error e => exact hw
    | ok w' => exact hstep a w w' hp.1 (attempt_ok hr).2 hw

/-! ## What a bad end leaves -/

/-- An action changes what is seen of the world when it does something, and then for good. -/
structure Observed {V : Type} [Preorder V] (exec : A → W → Except ε W) (does : A → W → Prop)
    (view : W → V) : Prop where
  still : ∀ {a w w'}, exec a w = .ok w' → ¬ does a w → view w' = view w
  grows : ∀ {a w w'}, exec a w = .ok w' → does a w → view w < view w'

variable (exec faults) in
/-- Behind an action that does something, the run comes to no bad end. -/
def Settled (does : A → W → Prop) (bad : α → Prop) : Program A W ε α → Nat → W → Prop
  | done _, _, _ => True
  | act a next, n, w =>
    let r := attempt exec faults n a w
    (r.isOk → does a w → ¬ bad ((next r).run exec faults (n + 1) (after w r)).value) ∧
      (next r).Settled does bad (n + 1) (after w r)

variable {V : Type} [Preorder V] {does : A → W → Prop} {view : W → V} {bad : α → Prop}

variable (faults) in
/-- What is seen of the world only grows. -/
theorem Observed.le_run (h : Observed exec does view) (p : Program A W ε α) (n : Nat) (w : W) :
    view w ≤ view (p.run exec faults n w).world := by
  induction p generalizing n w with
  | done a => exact le_rfl
  | act a next ih =>
    rw [run_act]
    refine le_trans ?_ (ih _ _ _)
    cases hr : attempt exec faults n a w with
    | error e => exact le_rfl
    | ok w' =>
      by_cases hdoes : does a w
      · exact (h.grows (attempt_ok hr).2 hdoes).le
      · exact (h.still (attempt_ok hr).2 hdoes).ge

/-- **A bad end leaves the world unchanged** if and only if no action did anything before it. -/
theorem Observed.unchanged_iff (h : Observed exec does view) (p : Program A W ε α) (n : Nat)
    (w : W) :
    (bad (p.run exec faults n w).value → view (p.run exec faults n w).world = view w) ↔
      p.Settled exec faults does bad n w := by
  induction p generalizing n w with
  | done a => exact iff_of_true (fun _ => rfl) trivial
  | act a next ih =>
    rw [run_act, Settled]
    cases hr : attempt exec faults n a w with
    | error e =>
      rw [← ih]
      exact (and_iff_right fun hok => absurd hok Bool.false_ne_true).symm
    | ok w' =>
      have hle := h.le_run faults (next (.ok w')) (n + 1) w'
      rw [← ih]
      by_cases hdoes : does a w
      · -- what was done stays, so the run must not end badly
        have hlt : view w < view ((next (.ok w')).run exec faults (n + 1) w').world :=
          (h.grows (attempt_ok hr).2 hdoes).trans_le hle
        constructor
        · intro hsame
          have hgood : ¬ bad ((next (.ok w')).run exec faults (n + 1) w').value :=
            fun hbad => hlt.ne' (hsame hbad)
          exact ⟨fun _ _ => hgood, fun hbad => absurd hbad hgood⟩
        · rintro ⟨hgood, -⟩ hbad
          exact absurd hbad (hgood rfl hdoes)
      · have hsame := h.still (attempt_ok hr).2 hdoes
        show (_ → view ((next (.ok w')).run exec faults (n + 1) w').world = view w) ↔ _
        rw [← hsame]
        exact (and_iff_right fun _ hdid => absurd hdid hdoes).symm

end

end Program

/-! ## Programs with exceptions -/

/-- A program that may raise. -/
abbrev Raising (A W ε α : Type) := ExceptT ε (Program A W ε) α

namespace Raising

variable {A W ε α β : Type}

/-- One action. -/
def perform (a : A) : Raising A W ε W := ExceptT.mk (.act a .done)

def Only (P : A → Prop) (x : Raising A W ε α) : Prop := Program.Only P x.run

variable {P : A → Prop} {x : Raising A W ε α}

theorem only_perform {a : A} (h : P a) : Only P (perform a : Raising A W ε W) :=
  ⟨h, fun _ => trivial⟩

theorem only_pure (a : α) : Only P (pure a : Raising A W ε α) := trivial

theorem only_throw (e : ε) : Only P (throw e : Raising A W ε α) := trivial

theorem only_bind {f : α → Raising A W ε β} (hx : Only P x) (hf : ∀ a, Only P (f a)) :
    Only P (x >>= f) := by
  refine Program.only_bind hx fun r => ?_
  cases r with
  | error e => trivial
  | ok a => exact hf a

theorem only_tryCatch {handle : ε → Raising A W ε α} (hx : Only P x)
    (hhandle : ∀ e, Only P (handle e)) : Only P (tryCatch x handle) := by
  refine Program.only_bind hx fun r => ?_
  cases r with
  | error e => exact hhandle e
  | ok a => trivial

variable {exec : A → W → Except ε W} {faults : Nat → Option ε}

variable (exec faults) in
theorem run_perform (a : A) (n : Nat) (w : W) :
    Program.run exec faults (perform a).run n w =
      ⟨Program.attempt exec faults n a w, n + 1,
        Program.after w (Program.attempt exec faults n a w)⟩ := rfl

/-- The run of a program that is not stopped, and of what comes behind it. -/
theorem run_bind_ok (f : α → Raising A W ε β) {n : Nat} {w : W} {a : α}
    (h : (Program.run exec faults x.run n w).value = .ok a) :
    Program.run exec faults (x >>= f).run n w =
      Program.run exec faults (f a).run (Program.run exec faults x.run n w).steps
        (Program.run exec faults x.run n w).world := by
  refine (Program.run_bind exec faults x.run _ n w).trans ?_
  rw [h]
  rfl

theorem run_bind_error (f : α → Raising A W ε β) {n : Nat} {w : W} {e : ε}
    (h : (Program.run exec faults x.run n w).value = .error e) :
    Program.run exec faults (x >>= f).run n w =
      ⟨.error e, (Program.run exec faults x.run n w).steps,
        (Program.run exec faults x.run n w).world⟩ := by
  refine (Program.run_bind exec faults x.run _ n w).trans ?_
  rw [h]
  rfl

end Raising

end Steps
