import Mathlib.Data.List.Nodup

/-!
# Rows under new ids

Rows that are copied get new ids, and what refers to them is rewritten.  An `IdMap` holds the new id
of every old one, by the kind of row it names.

* `IdMap.rename` — the new id of a known one;
* `IdMap.rename_injective` — two ids stay two ids when the new ones differ;
* `insertAll_eq` — a copy row by row.
-/

namespace Keyed

/-- The new id of every old one. -/
abbrev IdMap (κ ι : Type) := List ((κ × ι) × ι)

namespace IdMap

variable {κ ι : Type} [DecidableEq κ] [DecidableEq ι] (m : IdMap κ ι)

def new? (k : κ) (old : ι) : Option ι := m.lookup (k, old)

/-- The ids that have a new one. -/
def Knows (k : κ) (old : ι) : Prop := (k, old) ∈ m.map Prod.fst

instance (k : κ) (old : ι) : Decidable (m.Knows k old) := by
  unfold Knows
  infer_instance

/-- The new id, or the old one where there is none. -/
def rename (k : κ) (old : ι) : ι := (m.new? k old).getD old

/-- The new ids of one kind differ. -/
def Distinct : Prop := (m.map fun e => (e.1.1, e.2)).Nodup

variable {m} {k : κ} {old : ι}

theorem new?_of_knows (h : m.Knows k old) : m.new? k old = some (m.rename k old) := by
  obtain ⟨e, he, hold⟩ := List.mem_map.1 h
  have hsome : (m.new? k old).isSome = true := by
    rw [new?, List.lookup_isSome_iff]
    exact ⟨e, he, by rw [hold]; exact beq_self_eq_true _⟩
  obtain ⟨new, hnew⟩ := Option.isSome_iff_exists.1 hsome
  rw [rename, hnew]
  rfl

theorem new?_of_not_knows (h : ¬ m.Knows k old) : m.new? k old = none := by
  rw [new?, List.lookup_eq_none_iff]
  intro e he
  exact bne_iff_ne.2 fun hold => h (List.mem_map.2 ⟨e, he, hold.symm⟩)

/-- A known id and its new one are of the map. -/
theorem rename_mem (h : m.Knows k old) : ((k, old), m.rename k old) ∈ m := by
  have hlookup := new?_of_knows h
  generalize m.rename k old = new at hlookup
  obtain ⟨before, after, hsplit, -⟩ := List.lookup_eq_some_iff.1 hlookup
  rw [hsplit]
  exact List.mem_append_right _ List.mem_cons_self

/-- An entry of the map is what it renames, when no id has two. -/
theorem rename_of_mem (hkeys : (m.map Prod.fst).Nodup) {new : ι} (h : ((k, old), new) ∈ m) :
    m.rename k old = new := by
  have hknows : m.Knows k old := List.mem_map.2 ⟨_, h, rfl⟩
  have hsame := List.inj_on_of_nodup_map hkeys (rename_mem hknows) h rfl
  exact congrArg Prod.snd hsame

/-- **Two ids stay two ids.** -/
theorem rename_injective (hdistinct : m.Distinct) {old' : ι} (h : m.Knows k old)
    (h' : m.Knows k old') (hsame : m.rename k old = m.rename k old') : old = old' := by
  have hmem := List.inj_on_of_nodup_map hdistinct (rename_mem h) (rename_mem h')
    (Prod.ext rfl hsame)
  exact congrArg (fun e => e.1.2) hmem

/-- A reference that need not resolve: it is kept when it is known. -/
theorem bind_new? (o : Option ι) :
    o.bind (m.new? k) = (o.filter fun old => decide (m.Knows k old)).map (m.rename k) := by
  cases o with
  | none => rfl
  | some old =>
    by_cases h : m.Knows k old
    · rw [Option.bind_some, new?_of_knows h, Option.filter_some, if_pos (decide_eq_true h)]
      rfl
    · rw [Option.bind_some, new?_of_not_knows h, Option.filter_some,
        if_neg (by rw [decide_eq_true_eq]; exact h)]
      rfl

end IdMap

/-! ## Copying rows -/

variable {α β ε : Type}

/-- The rows of a join, each written or refused. -/
def insertAll (rows : List α) (select : α → Option (Except ε β)) : Except ε (List β) :=
  (rows.filterMap select).mapM id

/-- **A copy row by row**, when every row is joined and none refused. -/
theorem insertAll_eq {rows : List α} {select : α → Option (Except ε β)} {f : α → β}
    (h : ∀ row ∈ rows, select row = some (.ok (f row))) :
    insertAll rows select = .ok (rows.map f) := by
  induction rows with
  | nil => rfl
  | cons row rows ih =>
    have hrest := ih fun row' hrow' => h row' (List.mem_cons_of_mem row hrow')
    unfold insertAll at hrest ⊢
    rw [List.filterMap_cons_some (h row List.mem_cons_self), List.mapM_cons, hrest]
    rfl

end Keyed
