import Mathlib.Data.Finmap
import Mathlib.Data.List.Sort

/-!
# Keyed tables

A table is a finite map from row ids to rows, Mathlib's `Finmap` with the row type
constant.  This file adds the few operations a row store needs on top of it and the
facts the rest of the development reads off them:

* `Table.put`, `Table.drop` and `Table.write` — put a row under an id, take the id out, or
  either in one operation, with `lookup_write` saying what every id holds afterwards;
* `Table.mapRows` — the same ids with every row mapped, which is how a table is read
  "up to" some fields;
* `Table.rows` — the rows as a multiset, with `rows_put` and `rows_drop`, so that a
  table can be compared with another one whose rows sit under different ids;
* `KeyTable` — a table whose rows carry their own id, so that a row is put in without
  saying where, with `KeyTable.inOrder`, the rows by their ids.
-/

namespace Keyed

variable {ι ρ σ : Type} [DecidableEq ι]

/-- A table: rows of type `ρ` under ids of type `ι`. -/
abbrev Table (ι ρ : Type) := Finmap fun _ : ι => ρ

namespace Table

/-! ## Writing -/

/-- Put a row under an id. -/
def put (t : Table ι ρ) (i : ι) (r : ρ) : Table ι ρ := t.insert i r

/-- Take an id out of the table. -/
def drop (t : Table ι ρ) (i : ι) : Table ι ρ := t.erase i

/-- What every id holds after a row was put in. -/
theorem lookup_put (t : Table ι ρ) (i j : ι) (r : ρ) :
    (t.put i r).lookup j = if j = i then some r else t.lookup j := by
  unfold put
  by_cases h : j = i
  · subst h; rw [if_pos rfl, Finmap.lookup_insert]
  · rw [if_neg h, Finmap.lookup_insert_of_ne _ h]

/-- What every id holds after one was taken out. -/
theorem lookup_drop (t : Table ι ρ) (i j : ι) :
    (t.drop i).lookup j = if j = i then none else t.lookup j := by
  unfold drop
  by_cases h : j = i
  · subst h; rw [if_pos rfl, Finmap.lookup_erase]
  · rw [if_neg h, Finmap.lookup_erase_ne h]

/-- Put a row under an id, or take the id out of the table. -/
def write (t : Table ι ρ) (i : ι) : Option ρ → Table ι ρ
  | some r => t.put i r
  | none => t.drop i

theorem lookup_write (t : Table ι ρ) (i j : ι) (r : Option ρ) :
    (t.write i r).lookup j = if j = i then r else t.lookup j := by
  cases r with
  | none => exact lookup_drop t i j
  | some r => exact lookup_put t i j r

/-- Writing what an id already holds changes nothing. -/
theorem write_lookup (t : Table ι ρ) (i : ι) : t.write i (t.lookup i) = t := by
  refine Finmap.ext_lookup fun j => ?_
  rw [lookup_write]
  split
  · rename_i h; rw [h]
  · rfl

/-- Only the last of two writes to one id counts. -/
theorem write_write (t : Table ι ρ) (i : ι) (r r' : Option ρ) :
    (t.write i r).write i r' = t.write i r' := by
  refine Finmap.ext_lookup fun j => ?_
  simp only [lookup_write]
  split <;> rfl

/-! ## Mapping the rows -/

/-- The table with `f` applied to every row. -/
def mapRows (f : ρ → σ) (t : Table ι ρ) : Table ι σ where
  entries := t.entries.map fun e => ⟨e.1, f e.2⟩
  nodupKeys := by
    have h := Multiset.nodup_keys.2 t.nodupKeys
    rw [← Multiset.nodup_keys]
    simpa [Multiset.keys, Multiset.map_map, Function.comp_def] using h

theorem lookup_mapRows (f : ρ → σ) (t : Table ι ρ) (i : ι) :
    (t.mapRows f).lookup i = (t.lookup i).map f := by
  cases h : t.lookup i with
  | none =>
    rw [Option.map_none, Finmap.lookup_eq_none, Finmap.mem_def]
    have hi : i ∉ t.entries.keys := by
      rw [← Finmap.mem_def]
      exact Finmap.lookup_eq_none.1 h
    simpa [mapRows, Multiset.keys, Multiset.map_map, Function.comp_def] using hi
  | some r =>
    rw [Option.map_some, Finmap.lookup_eq_some_iff]
    exact Multiset.mem_map.2 ⟨⟨i, r⟩, Finmap.lookup_eq_some_iff.1 h, rfl⟩

theorem mapRows_write (f : ρ → σ) (t : Table ι ρ) (i : ι) (r : Option ρ) :
    (t.write i r).mapRows f = (t.mapRows f).write i (r.map f) := by
  refine Finmap.ext_lookup fun j => ?_
  rw [lookup_mapRows, lookup_write, lookup_write, lookup_mapRows]
  split <;> rfl

/-! ## The rows as a multiset -/

/-- The rows of a table, without their ids. -/
def rows (t : Table ι ρ) : Multiset ρ := t.entries.map Sigma.snd

instance decidableExistsRow (s : Multiset ρ) (p : ρ → Prop) [DecidablePred p] :
    Decidable (∃ r ∈ s, p r) := Multiset.decidableExistsMultiset

theorem mem_rows {t : Table ι ρ} {r : ρ} : r ∈ t.rows ↔ ∃ i, t.lookup i = some r := by
  simp only [rows, Multiset.mem_map]
  constructor
  · rintro ⟨⟨i, r'⟩, he, rfl⟩
    exact ⟨i, Finmap.lookup_eq_some_iff.2 he⟩
  · rintro ⟨i, hi⟩
    exact ⟨⟨i, r⟩, Finmap.lookup_eq_some_iff.1 hi, rfl⟩

/-- A row put under a free id joins the rows. -/
theorem rows_put {t : Table ι ρ} {i : ι} (h : t.lookup i = none) (r : ρ) :
    (t.put i r).rows = r ::ₘ t.rows := by
  rw [rows, put, Finmap.entries_insert_of_notMem (Finmap.lookup_eq_none.1 h), Multiset.map_cons, rows]

omit [DecidableEq ι] in
theorem rows_mapRows (f : ρ → σ) (t : Table ι ρ) : (t.mapRows f).rows = t.rows.map f := by
  simp [rows, mapRows, Multiset.map_map]

/-- Tables that hold alike rows under each id have alike rows. -/
theorem map_rows_eq {f : ρ → σ} {t u : Table ι ρ}
    (h : ∀ i, (t.lookup i).map f = (u.lookup i).map f) : t.rows.map f = u.rows.map f := by
  have hmap : t.mapRows f = u.mapRows f := by
    refine Finmap.ext_lookup fun i => ?_
    rw [lookup_mapRows, lookup_mapRows, h i]
  rw [← rows_mapRows, ← rows_mapRows, hmap]

/-- Taking an id out removes the row it held. -/
theorem rows_drop {t : Table ι ρ} {i : ι} {r : ρ} (h : t.lookup i = some r) :
    r ::ₘ (t.drop i).rows = t.rows := by
  have hfree : (t.drop i).lookup i = none := by rw [lookup_drop, if_pos rfl]
  rw [← rows_put hfree r]
  congr 1
  refine Finmap.ext_lookup fun j => ?_
  rw [lookup_put, lookup_drop]
  split
  · rename_i hj; rw [hj, h]
  · rfl

end Table

/-! ## Tables whose rows carry their id -/

/-- A table in which the row under `i` has the id `i`. -/
structure KeyTable (key : ρ → ι) where
  table : Table ι ρ
  keyed : ∀ i r, table.lookup i = some r → key r = i

namespace KeyTable

variable {key : ρ → ι}

@[ext] theorem ext_table {t u : KeyTable key} (h : t.table = u.table) : t = u := by
  cases t; cases u; cases h; rfl

instance [DecidableEq ρ] : DecidableEq (KeyTable key) := fun t u =>
  decidable_of_iff (t.table = u.table) ⟨ext_table, fun h => h ▸ rfl⟩

/-- The table with nothing in it. -/
def empty : KeyTable key := ⟨∅, fun i _ h => by rw [Finmap.lookup_empty] at h; cases h⟩

/-- The row with this id. -/
def lookup (t : KeyTable key) (i : ι) : Option ρ := t.table.lookup i

/-- Put a row under its own id. -/
def put (t : KeyTable key) (r : ρ) : KeyTable key where
  table := t.table.put (key r) r
  keyed := by
    intro i r' h
    rw [Table.lookup_put] at h
    split at h
    · rename_i hi; cases h; exact hi.symm
    · exact t.keyed i r' h

/-- Take an id out of the table. -/
def drop (t : KeyTable key) (i : ι) : KeyTable key where
  table := t.table.drop i
  keyed := by
    intro j r' h
    rw [Table.lookup_drop] at h
    split at h
    · cases h
    · exact t.keyed j r' h

/-- The rows of the table. -/
def rows (t : KeyTable key) : Multiset ρ := t.table.rows

theorem ext_lookup {t u : KeyTable key} (h : ∀ i, t.lookup i = u.lookup i) : t = u :=
  ext_table (Finmap.ext_lookup h)

theorem key_of_lookup {t : KeyTable key} {i : ι} {r : ρ} (h : t.lookup i = some r) :
    key r = i := t.keyed i r h

@[simp] theorem lookup_empty (i : ι) : (empty : KeyTable key).lookup i = none :=
  Finmap.lookup_empty i

theorem lookup_put (t : KeyTable key) (r : ρ) (i : ι) :
    (t.put r).lookup i = if i = key r then some r else t.lookup i :=
  Table.lookup_put t.table (key r) i r

theorem lookup_put_self (t : KeyTable key) (r : ρ) : (t.put r).lookup (key r) = some r := by
  rw [lookup_put, if_pos rfl]

theorem lookup_put_eq_none (t : KeyTable key) (r : ρ) (i : ι) :
    (t.put r).lookup i = none ↔ i ≠ key r ∧ t.lookup i = none := by
  rw [lookup_put]
  split
  · rename_i h; simp [h]
  · rename_i h; simp [h]

theorem isSome_lookup_put (t : KeyTable key) (r : ρ) (i : ι) :
    ((t.put r).lookup i).isSome ↔ (t.lookup i).isSome ∨ key r = i := by
  rw [lookup_put]
  split
  · rename_i h; simp [h]
  · rename_i h; simp [Ne.symm h]

theorem lookup_put_of_ne (t : KeyTable key) {r : ρ} {i : ι} (h : i ≠ key r) :
    (t.put r).lookup i = t.lookup i := by
  rw [lookup_put, if_neg h]

theorem lookup_drop (t : KeyTable key) (i j : ι) :
    (t.drop i).lookup j = if j = i then none else t.lookup j :=
  Table.lookup_drop t.table i j

/-- Putting a row back where it is changes nothing. -/
theorem put_of_lookup {t : KeyTable key} {r : ρ} (h : t.lookup (key r) = some r) :
    t.put r = t := by
  refine ext_lookup fun i => ?_
  rw [lookup_put]
  split
  · rename_i hi; rw [hi, h]
  · rfl

/-- Dropping an id that is not there changes nothing. -/
theorem drop_of_lookup {t : KeyTable key} {i : ι} (h : t.lookup i = none) : t.drop i = t := by
  refine ext_lookup fun j => ?_
  rw [lookup_drop]
  split
  · rename_i hj; rw [hj, h]
  · rfl

theorem mem_rows {t : KeyTable key} {r : ρ} : r ∈ t.rows ↔ t.lookup (key r) = some r := by
  rw [rows, Table.mem_rows]
  constructor
  · rintro ⟨i, hi⟩
    rwa [t.keyed i r hi]
  · intro h
    exact ⟨key r, h⟩

/-- A row with a free id joins the rows. -/
theorem rows_put {t : KeyTable key} {r : ρ} (h : t.lookup (key r) = none) :
    (t.put r).rows = r ::ₘ t.rows := Table.rows_put h r

/-- Taking an id out removes the row it held. -/
theorem rows_drop {t : KeyTable key} {i : ι} {r : ρ} (h : t.lookup i = some r) :
    r ::ₘ (t.drop i).rows = t.rows := Table.rows_drop h

/-- No row is there twice. -/
theorem nodup_rows (t : KeyTable key) : t.rows.Nodup := by
  refine Multiset.Nodup.map_on ?_ t.table.nodupKeys.nodup
  intro e he e' he' hrow
  have hkey : ∀ d ∈ t.table.entries, key d.2 = d.1 := fun d hd =>
    t.keyed d.1 d.2 (Finmap.lookup_eq_some_iff.2 hd)
  have hid : e.1 = e'.1 := by rw [← hkey e he, ← hkey e' he', hrow]
  exact Sigma.ext hid (heq_of_eq hrow)

/-- Putting a row in the place of another: the rows are what they were, but for the two. -/
theorem rows_put_of_lookup {t : KeyTable key} {r old : ρ} (h : t.lookup (key r) = some old) :
    t.rows = old ::ₘ (t.drop (key r)).rows ∧ (t.put r).rows = r ::ₘ (t.drop (key r)).rows := by
  refine ⟨(rows_drop h).symm, ?_⟩
  have hfree : (t.drop (key r)).lookup (key r) = none := by rw [lookup_drop, if_pos rfl]
  rw [← rows_put hfree]
  congr 1
  refine ext_lookup fun i => ?_
  rw [lookup_put, lookup_put, lookup_drop]
  split <;> rfl

/-- The rows that are left when an id is taken out. -/
theorem mem_rows_drop {t : KeyTable key} {i : ι} {r : ρ} :
    r ∈ (t.drop i).rows ↔ r ∈ t.rows ∧ key r ≠ i := by
  rw [mem_rows, mem_rows, lookup_drop]
  split
  · rename_i h; simp [h]
  · rename_i h; simp [h]

end KeyTable

/-! ## New keys -/

/-- The keys a list of new rows takes are free, and no two are the same. -/
def FreshIds {κ : Type} (free : κ → Prop) (ids : List κ) : Prop := ids.Nodup ∧ ∀ id ∈ ids, free id

theorem freshIds_nil {κ : Type} (free : κ → Prop) : FreshIds free [] :=
  ⟨List.nodup_nil, fun _ h => absurd h List.not_mem_nil⟩

/-- The first key is free, and the others are free when it is taken. -/
theorem freshIds_cons {κ : Type} {free : κ → Prop} {id : κ} {ids : List κ} :
    FreshIds free (id :: ids) ↔ free id ∧ FreshIds (fun j => j ≠ id ∧ free j) ids := by
  unfold FreshIds
  rw [List.nodup_cons, List.forall_mem_cons]
  constructor
  · rintro ⟨⟨hnot, hnodup⟩, hid, hids⟩
    exact ⟨hid, hnodup, fun j hj => ⟨fun e => hnot (e ▸ hj), hids j hj⟩⟩
  · rintro ⟨hid, hnodup, hids⟩
    exact ⟨⟨fun h => (hids id h).1 rfl, hnodup⟩, hid, fun j hj => (hids j hj).2⟩

namespace KeyTable

variable {key : ρ → ι}

/-- What an id holds after rows were put in that do not have it. -/
theorem lookup_foldl_put_of_ne {rs : List ρ} {t : KeyTable key} {i : ι} (h : ∀ r ∈ rs, key r ≠ i) :
    (rs.foldl put t).lookup i = t.lookup i := by
  induction rs generalizing t with
  | nil => rfl
  | cons r rs ih =>
    rw [List.foldl_cons, ih fun r' hr => h r' (List.mem_cons_of_mem _ hr)]
    exact lookup_put_of_ne t (h r List.mem_cons_self).symm

/-- New rows under ids of their own join the rows, and their ids hold them. -/
theorem lookup_foldl_put {rs : List ρ} {t : KeyTable key} (h : (rs.map key).Nodup) {r : ρ}
    (hr : r ∈ rs) : (rs.foldl put t).lookup (key r) = some r := by
  induction rs generalizing t with
  | nil => exact absurd hr List.not_mem_nil
  | cons r₀ rs ih =>
    rw [List.map_cons, List.nodup_cons] at h
    rw [List.foldl_cons]
    rcases List.mem_cons.1 hr with rfl | hr
    · have hapart : ∀ r' ∈ rs, key r' ≠ key r := fun r' hr' e =>
        h.1 (List.mem_map.2 ⟨r', hr', e⟩)
      rw [lookup_foldl_put_of_ne hapart]
      exact lookup_put_self t r
    · exact ih h.2 hr

/-- The rows that are there after rows were put in. -/
theorem mem_of_mem_rows_foldl_put {rs : List ρ} {t : KeyTable key} {r : ρ}
    (h : r ∈ (rs.foldl put t).rows) : r ∈ rs ∨ r ∈ t.rows := by
  induction rs generalizing t with
  | nil => exact .inr h
  | cons r₀ rs ih =>
    rcases ih h with hr | hr
    · exact .inl (List.mem_cons_of_mem _ hr)
    · rw [mem_rows, lookup_put] at hr
      split at hr
      · cases hr
        exact .inl List.mem_cons_self
      · exact .inr (mem_rows.2 hr)

theorem mem_rows_foldl_put {rs : List ρ} {t : KeyTable key}
    (h : FreshIds (t.lookup · = none) (rs.map key)) {r : ρ} :
    r ∈ (rs.foldl put t).rows ↔ r ∈ rs ∨ r ∈ t.rows := by
  induction rs generalizing t with
  | nil => simp
  | cons r₀ rs ih =>
    obtain ⟨hfree, hrest⟩ := freshIds_cons.1 h
    rw [List.foldl_cons, ih ⟨hrest.1, fun i hi => (lookup_put_eq_none t r₀ i).2 (hrest.2 i hi)⟩,
      rows_put hfree, Multiset.mem_cons, List.mem_cons]
    tauto

/-! ## The rows in order -/

section InOrder

variable [LinearOrder ι]

/-- The ids of a multiset, ascending. -/
def ascending (s : Multiset ι) : List ι :=
  Quot.liftOn s (List.insertionSort (· ≤ ·)) fun a b h =>
    ((List.perm_insertionSort _ a).trans (h.trans (List.perm_insertionSort _ b).symm)).eq_of_pairwise
      (fun _ _ _ _ h h' => le_antisymm h h')
      (List.pairwise_insertionSort _ a) (List.pairwise_insertionSort _ b)

omit [DecidableEq ι] in
theorem coe_ascending (s : Multiset ι) : (ascending s : Multiset ι) = s := by
  induction s using Quot.inductionOn with
  | h l => exact Multiset.coe_eq_coe.2 (List.perm_insertionSort _ l)

omit [DecidableEq ι] [LinearOrder ι] in
theorem filterMap_of_eq_some {f : ρ → Option ρ} {s : Multiset ρ} (h : ∀ r ∈ s, f r = some r) :
    s.filterMap f = s := by
  induction s using Quot.inductionOn with
  | h l =>
    have hl : l.filterMap f = l := (List.filterMap_congr h).trans List.filterMap_some
    exact congrArg (fun l : List ρ => (l : Multiset ρ)) hl

/-- The rows by their ids. -/
def inOrder (t : KeyTable key) : List ρ := (ascending (t.rows.map key)).filterMap t.lookup

theorem coe_inOrder (t : KeyTable key) : (t.inOrder : Multiset ρ) = t.rows := by
  rw [inOrder, ← Multiset.filterMap_coe, coe_ascending, Multiset.filterMap_map]
  exact filterMap_of_eq_some fun r hr => mem_rows.1 hr

end InOrder

end KeyTable

end Keyed
