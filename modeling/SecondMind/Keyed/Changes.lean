import SecondMind.Keyed.Table

/-!
# Logs of row changes

A database is one keyed table for each table name, the row type depending on the name.
A `Change` records one row write: the table, the id, and what the id held before and
after it.  This file is about lists of changes read as a log:

* `Change.install` and `replay` — write every `after` image, in order;
* `Chained` — every `before` image is what the id held when the change was made, so the
  log is a faithful history of the replay;
* `at_replay_of_untouched` — an id no change names keeps its row;
* `at_replay_eq_after` — an id holds the `after` image of the last change that names it;
* `Chained.at_eq_before` — and held, to begin with, the `before` image of the first.
-/

namespace Keyed

variable {τ ι : Type} {ρ : τ → Type} [DecidableEq τ] [DecidableEq ι]

/-- One table of rows `ρ a` for each table name `a`. -/
abbrev Db (τ ι : Type) (ρ : τ → Type) := (a : τ) → Table ι (ρ a)

/-- One row write. -/
structure Change (τ ι : Type) (ρ : τ → Type) where
  table : τ
  id : ι
  before : Option (ρ table)
  after : Option (ρ table)

/-- The row under an id of a table. -/
def Db.at (d : Db τ ι ρ) (a : τ) (i : ι) : Option (ρ a) := (d a).lookup i

omit [DecidableEq τ] in
theorem Db.ext_at {d e : Db τ ι ρ} (h : ∀ a i, d.at a i = e.at a i) : d = e :=
  funext fun a => Finmap.ext_lookup (h a)

/-- Write one row of one table. -/
def Db.write (d : Db τ ι ρ) (a : τ) (i : ι) (r : Option (ρ a)) : Db τ ι ρ :=
  Function.update d a ((d a).write i r)

theorem Db.at_write_self (d : Db τ ι ρ) (a : τ) (i : ι) (r : Option (ρ a)) :
    (d.write a i r).at a i = r := by
  rw [Db.at, Db.write, Function.update_self, Table.lookup_write, if_pos rfl]

theorem Db.at_write_of_ne (d : Db τ ι ρ) {a b : τ} {i j : ι} (r : Option (ρ a))
    (h : ¬ (b = a ∧ j = i)) : (d.write a i r).at b j = d.at b j := by
  rw [Db.at, Db.at, Db.write]
  by_cases hb : b = a
  · subst hb
    rw [Function.update_self, Table.lookup_write, if_neg fun hj => h ⟨rfl, hj⟩]
  · rw [Function.update_of_ne hb]

theorem Db.write_at (d : Db τ ι ρ) (a : τ) (i : ι) : d.write a i (d.at a i) = d := by
  rw [Db.write, Db.at, Table.write_lookup, Function.update_eq_self]

/-! ## Replaying a log -/

/-- Write a change's `after` image under its id. -/
def Change.install (c : Change τ ι ρ) (d : Db τ ι ρ) : Db τ ι ρ := d.write c.table c.id c.after

/-- Write every `after` image of a log, in order. -/
def replay (d : Db τ ι ρ) (cs : List (Change τ ι ρ)) : Db τ ι ρ :=
  cs.foldl (fun d c => c.install d) d

/-- Every `before` image is what the id held when the change was made. -/
def Chained : Db τ ι ρ → List (Change τ ι ρ) → Prop
  | _, [] => True
  | d, c :: cs => d.at c.table c.id = c.before ∧ Chained (c.install d) cs

@[simp] theorem replay_nil (d : Db τ ι ρ) : replay d [] = d := rfl

@[simp] theorem replay_cons (d : Db τ ι ρ) (c : Change τ ι ρ) (cs : List (Change τ ι ρ)) :
    replay d (c :: cs) = replay (c.install d) cs := rfl

theorem replay_append (d : Db τ ι ρ) (cs cs' : List (Change τ ι ρ)) :
    replay d (cs ++ cs') = replay (replay d cs) cs' := List.foldl_append

theorem chained_append {d : Db τ ι ρ} {cs cs' : List (Change τ ι ρ)} :
    Chained d (cs ++ cs') ↔ Chained d cs ∧ Chained (replay d cs) cs' := by
  induction cs generalizing d with
  | nil => simp [Chained]
  | cons c cs ih => simp [Chained, ih, and_assoc]

/-- A change that names the row `i` of table `a`. -/
def Change.Names (c : Change τ ι ρ) (a : τ) (i : ι) : Prop := c.table = a ∧ c.id = i

instance (c : Change τ ι ρ) (a : τ) (i : ι) : Decidable (c.Names a i) := by
  unfold Change.Names; infer_instance

theorem at_install_of_not_names {c : Change τ ι ρ} {a : τ} {i : ι} (h : ¬ c.Names a i)
    (d : Db τ ι ρ) : (c.install d).at a i = d.at a i :=
  Db.at_write_of_ne d c.after fun e => h ⟨e.1.symm, e.2.symm⟩

theorem at_install_self (c : Change τ ι ρ) (d : Db τ ι ρ) :
    (c.install d).at c.table c.id = c.after :=
  Db.at_write_self d c.table c.id c.after

/-- An id that no change names keeps its row. -/
theorem at_replay_of_untouched {cs : List (Change τ ι ρ)} {a : τ} {i : ι}
    (h : ∀ c ∈ cs, ¬ c.Names a i) (d : Db τ ι ρ) : (replay d cs).at a i = d.at a i := by
  induction cs generalizing d with
  | nil => rfl
  | cons c cs ih =>
    rw [replay_cons, ih (fun c' hc' => h c' (List.mem_cons_of_mem _ hc')),
      at_install_of_not_names (h c List.mem_cons_self)]

/-- An id holds the `after` image of the last change that names it. -/
theorem at_replay_eq_after {cs : List (Change τ ι ρ)} {c : Change τ ι ρ}
    {cs' : List (Change τ ι ρ)} (h : ∀ c' ∈ cs', ¬ c'.Names c.table c.id) (d : Db τ ι ρ) :
    (replay d (cs ++ c :: cs')).at c.table c.id = c.after := by
  rw [replay_append, replay_cons, at_replay_of_untouched h, at_install_self]

/-- An id held, to begin with, the `before` image of the first change that names it. -/
theorem Chained.at_eq_before {d : Db τ ι ρ} {cs : List (Change τ ι ρ)} {c : Change τ ι ρ}
    {cs' : List (Change τ ι ρ)} (hd : Chained d (cs ++ c :: cs'))
    (h : ∀ c' ∈ cs, ¬ c'.Names c.table c.id) : d.at c.table c.id = c.before := by
  rw [← at_replay_of_untouched h d]
  exact (chained_append.1 hd).2.1

end Keyed
