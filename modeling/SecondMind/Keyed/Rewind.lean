import Mathlib.Algebra.Group.Pi.Basic
import SecondMind.Keyed.Changes

/-!
# Taking a log back

A log is taken back from its last change to its first.  What takes a change back need not be
exact: rows are compared by a relation `near`, and some keys are none of its business.

* `Rewinds` — a log taken back, each change by a step of its own;
* `TakesBack` — a step that leaves near the `before` image what was near the `after` image, and
  leaves the rows of the other keys alone;
* `Rewinds.ends_near` — a log taken back so ends near where it began;
* `Rewinds.frame` — and the rows that the log does not name are as they were;
* `Rewinds.weighed` — what each change adds and takes away, the log adds and takes away, and what
  each step gives back is given back in all;
* `Db.tally_write` — what a write does to the rows of a table, whatever ids they have.
-/

namespace Keyed

variable {τ ι : Type} {ρ : τ → Type} [DecidableEq τ] [DecidableEq ι]

/-- A row that a log writes, and never takes away, is there in the end. -/
theorem isSome_at_replay {cs : List (Change τ ι ρ)} {a : τ} {i : ι}
    (hstays : ∀ c ∈ cs, c.Names a i → c.after.isSome = true) (hnamed : ∃ c ∈ cs, c.Names a i)
    (d : Db τ ι ρ) : ((replay d cs).at a i).isSome = true := by
  induction cs using List.reverseRecOn with
  | nil =>
    obtain ⟨c, hc, -⟩ := hnamed
    cases hc
  | append_singleton cs c ih =>
    rw [replay_append, replay_cons, replay_nil]
    by_cases hn : c.Names a i
    · have hsome := hstays c (List.mem_append_right _ List.mem_cons_self) hn
      obtain ⟨rfl, rfl⟩ := hn
      rwa [at_install_self]
    · rw [at_install_of_not_names hn]
      refine ih (fun c' hc' => hstays c' (List.mem_append_left _ hc')) ?_
      obtain ⟨c', hc', hn'⟩ := hnamed
      rcases List.mem_append.1 hc' with hc' | hc'
      · exact ⟨c', hc', hn'⟩
      · rw [List.mem_singleton.1 hc'] at hn'
        exact absurd hn' hn

/-- A log is taken back, the newest change first: step `k` takes the change there back, and the
steps are counted from `k` on. -/
inductive Rewinds (step : Nat → Change τ ι ρ → Db τ ι ρ → Db τ ι ρ → Prop) :
    Nat → List (Change τ ι ρ) → Db τ ι ρ → Db τ ι ρ → Prop
  | nil (k : Nat) (e : Db τ ι ρ) : Rewinds step k [] e e
  | snoc {k : Nat} {cs : List (Change τ ι ρ)} {c : Change τ ι ρ} {e e₁ e' : Db τ ι ρ}
      (back : step k c e e₁) (rest : Rewinds step (k + 1) cs e₁ e') :
      Rewinds step k (cs ++ [c]) e e'

/-- A step takes a change back, up to `near`, and leaves the other rows among `mine` alone. -/
structure TakesBack (near : (a : τ) → Option (ρ a) → Option (ρ a) → Prop) (mine : τ → ι → Prop)
    (c : Change τ ι ρ) (e e' : Db τ ι ρ) : Prop where
  back : mine c.table c.id → near c.table (e.at c.table c.id) c.after →
    near c.table (e'.at c.table c.id) c.before
  frame : ∀ a i, mine a i → ¬ c.Names a i → e'.at a i = e.at a i

section

variable {step : Nat → Change τ ι ρ → Db τ ι ρ → Db τ ι ρ → Prop}
  {near : (a : τ) → Option (ρ a) → Option (ρ a) → Prop} {mine : τ → ι → Prop}
  {d e e' : Db τ ι ρ} {k : Nat} {cs : List (Change τ ι ρ)}

/-- One step takes the end of a log back. -/
theorem TakesBack.near_replay {c : Change τ ι ρ} {e₁ : Db τ ι ρ} (h : TakesBack near mine c e e₁)
    (hc : Chained d (cs ++ [c])) {a : τ} {i : ι} (hmine : mine a i)
    (hnear : near a (e.at a i) ((replay d (cs ++ [c])).at a i)) :
    near a (e₁.at a i) ((replay d cs).at a i) := by
  have hbefore := (chained_append.1 hc).2.1
  rw [replay_append, replay_cons, replay_nil] at hnear
  by_cases hn : c.Names a i
  · obtain ⟨rfl, rfl⟩ := hn
    rw [at_install_self] at hnear
    rw [hbefore]
    exact h.back hmine hnear
  · rw [at_install_of_not_names hn] at hnear
    rw [h.frame a i hmine hn]
    exact hnear

/-- **A log taken back** ends near where it began, at every key where it ended near where the log
ended. -/
theorem Rewinds.ends_near (hstep : ∀ k c e e₁, c ∈ cs → step k c e e₁ → TakesBack near mine c e e₁)
    (h : Rewinds step k cs e e') (hc : Chained d cs) {a : τ} {i : ι} (hmine : mine a i)
    (hnear : near a (e.at a i) ((replay d cs).at a i)) : near a (e'.at a i) (d.at a i) := by
  induction h with
  | nil => exact hnear
  | snoc back rest ih =>
    refine ih (fun k c e e₁ hmem => hstep k c e e₁ (List.mem_append_left _ hmem))
      (chained_append.1 hc).1 ?_
    have hback := hstep _ _ _ _ (List.mem_append_right _ List.mem_cons_self) back
    exact hback.near_replay hc hmine hnear

omit [DecidableEq τ] in
/-- A row that the log does not name is as it was. -/
theorem Rewinds.frame (hstep : ∀ k c e e₁, c ∈ cs → step k c e e₁ → TakesBack near mine c e e₁)
    (h : Rewinds step k cs e e') {a : τ} {i : ι} (hmine : mine a i)
    (hnone : ∀ c ∈ cs, ¬ c.Names a i) : e'.at a i = e.at a i := by
  induction h with
  | nil => rfl
  | @snoc k cs c e e₁ e' back rest ih =>
    have hlast : c ∈ cs ++ [c] := List.mem_append_right _ List.mem_cons_self
    rw [ih (fun k c e e₁ hmem => hstep k c e e₁ (List.mem_append_left _ hmem))
      fun c hmem => hnone c (List.mem_append_left _ hmem)]
    exact (hstep _ _ _ _ hlast back).frame a i hmine (hnone _ hlast)

end

/-! ## What a log adds and takes away -/

section

variable {μ : Type} [AddCommMonoid μ]

/-- What the images of a log weigh. -/
def weighs (wt : Change τ ι ρ → μ) (cs : List (Change τ ι ρ)) : μ := (cs.map wt).sum

variable {step : Nat → Change τ ι ρ → Db τ ι ρ → Db τ ι ρ → Prop} (weight : Db τ ι ρ → μ)
  {old new : Change τ ι ρ → μ} {d e e' : Db τ ι ρ} {k : Nat} {cs : List (Change τ ι ρ)}

omit [DecidableEq τ] [DecidableEq ι] in
theorem weighs_append (wt : Change τ ι ρ → μ) (cs : List (Change τ ι ρ)) (c : Change τ ι ρ) :
    weighs wt (cs ++ [c]) = weighs wt cs + wt c := by
  simp [weighs]

/-- What every change of a log adds and takes away, the log does. -/
theorem Chained.weighed (hc : Chained d cs)
    (hone : ∀ d c, c ∈ cs → d.at c.table c.id = c.before →
      weight (c.install d) + old c = weight d + new c) :
    weight (replay d cs) + weighs old cs = weight d + weighs new cs := by
  induction cs generalizing d with
  | nil => simp [weighs]
  | cons c cs ih =>
    have hfirst := hone d c List.mem_cons_self hc.1
    have hrest := ih hc.2 fun d c' hmem => hone d c' (List.mem_cons_of_mem _ hmem)
    simp only [weighs, List.map_cons, List.sum_cons, replay_cons] at hrest ⊢
    rw [← add_assoc, add_right_comm, hrest, add_right_comm, hfirst, add_assoc]

/-- **What the steps give back**: each gives back what its change took away and takes away what it
added, as long as the row is near what the change left. -/
theorem Rewinds.weighed (near : (a : τ) → Option (ρ a) → Option (ρ a) → Prop) (mine : τ → ι → Prop)
    (fresh : Nat → Db τ ι ρ → Prop)
    (hstep : ∀ k c e e₁, c ∈ cs → step k c e e₁ → fresh k e → fresh (k + 1) e₁ ∧
      TakesBack near mine c e e₁ ∧
        ((mine c.table c.id → near c.table (e.at c.table c.id) c.after) →
          weight e₁ + new c = weight e + old c))
    (h : Rewinds step k cs e e') (hfresh : fresh k e) (hc : Chained d cs)
    (hnear : ∀ a i, mine a i → near a (e.at a i) ((replay d cs).at a i)) :
    weight e' + weighs new cs = weight e + weighs old cs := by
  induction h with
  | nil => rfl
  | @snoc k cs c e e₁ e' back rest ih =>
    have hlast : c ∈ cs ++ [c] := List.mem_append_right _ List.mem_cons_self
    obtain ⟨hfresh₁, hback, hweigh⟩ := hstep _ _ _ _ hlast back hfresh
    have hat : mine c.table c.id → near c.table (e.at c.table c.id) c.after := fun hmine => by
      have hat := hnear _ _ hmine
      rwa [replay_append, replay_cons, replay_nil, at_install_self] at hat
    have hrest := ih (fun k c e e₁ hmem => hstep k c e e₁ (List.mem_append_left _ hmem)) hfresh₁
      (chained_append.1 hc).1 fun a i ha => hback.near_replay hc ha (hnear a i ha)
    rw [weighs_append, weighs_append, ← add_assoc, hrest, add_right_comm, hweigh hat, add_assoc,
      add_comm (old c)]

end

/-! ## The rows of a table, whatever their ids -/

/-- The row of an image, if there is one. -/
def one {α : Type} : Option α → Multiset α
  | some r => {r}
  | none => 0

/-- What a write takes out of the rows of a table, and what it brings. -/
theorem Table.rows_write {α : Type} (t : Table ι α) (i : ι) (r : Option α) :
    (t.write i r).rows + one (t.lookup i) = t.rows + one r := by
  have hfree : (t.drop i).lookup i = none := by rw [Table.lookup_drop, if_pos rfl]
  have hwrite : (t.write i r).rows = (t.drop i).rows + one r := by
    cases r with
    | none => exact (add_zero _).symm
    | some r =>
      have hput : t.put i r = (t.drop i).put i r := by
        refine Finmap.ext_lookup fun j => ?_
        rw [Table.lookup_put, Table.lookup_put, Table.lookup_drop]
        split <;> rfl
      show (t.put i r).rows = _
      rw [hput, Table.rows_put hfree, ← Multiset.singleton_add, add_comm]
      rfl
  have hdrop : (t.drop i).rows + one (t.lookup i) = t.rows := by
    cases hget : t.lookup i with
    | none =>
      have hsame : t.drop i = t := by
        refine Finmap.ext_lookup fun j => ?_
        rw [Table.lookup_drop]
        split
        · rename_i hj
          rw [hj, hget]
        · rfl
      rw [hsame]
      exact add_zero _
    | some old =>
      rw [← Table.rows_drop hget, ← Multiset.singleton_add, add_comm]
      rfl
  rw [hwrite, add_right_comm, hdrop]

/-- What the rows of each table say. -/
def Db.tally (f : (a : τ) → ρ a → ρ a) (d : Db τ ι ρ) (a : τ) : Multiset (ρ a) :=
  (d a).rows.map (f a)

/-- What an image says, in the table it is of. -/
def imageTally (f : (a : τ) → ρ a → ρ a) (a : τ) (r : Option (ρ a)) : (b : τ) → Multiset (ρ b) :=
  Pi.single a ((one r).map (f a))

/-- What a write takes out of what the tables say, and what it brings. -/
theorem Db.tally_write (f : (a : τ) → ρ a → ρ a) (d : Db τ ι ρ) (a : τ) (i : ι) (r : Option (ρ a)) :
    (d.write a i r).tally f + imageTally f a (d.at a i) = d.tally f + imageTally f a r := by
  funext b
  rw [Pi.add_apply, Pi.add_apply, Db.tally, Db.tally, Db.write, imageTally, imageTally]
  by_cases hb : b = a
  · subst hb
    rw [Function.update_self, Pi.single_eq_same, Pi.single_eq_same, ← Multiset.map_add,
      ← Multiset.map_add]
    exact congrArg _ ((d b).rows_write i r)
  · rw [Function.update_of_ne hb, Pi.single_eq_of_ne hb, Pi.single_eq_of_ne hb]

end Keyed
