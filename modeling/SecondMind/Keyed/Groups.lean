import Mathlib.Data.List.Nodup
import Mathlib.Data.List.Induction

/-!
# Grouping a stream by a key

A loop over a stream that keeps one state per key: the first element of a key starts its state, and
each later one is added to it.  The states stand in the order in which their keys first came.

* `Grouping` — how a state is started and gone on with, and the key it belongs to;
* `Grouping.mem_groups` — the states are those of the keys that came, each made of its own elements;
* `Grouping.map_groups_perm` — the states of two streams agree, in some order, when the keys are the
  same and each key's state agrees.
-/

namespace Keyed

variable {ι ε σ τ : Type} [DecidableEq ι]

/-- A state per key. -/
structure Grouping (ι ε σ : Type) where
  key : ε → ι
  start : ι → σ
  step : σ → ε → σ
  keyOf : σ → ι
  keyOf_start : ∀ i, keyOf (start i) = i
  keyOf_step : ∀ s e, keyOf (step s e) = keyOf s

namespace Grouping

variable (g : Grouping ι ε σ)

/-- One turn of the loop. -/
def add (states : List σ) (e : ε) : List σ :=
  if states.any (g.keyOf · = g.key e) then
    states.map fun s => if g.keyOf s = g.key e then g.step s e else s
  else states ++ [g.step (g.start (g.key e)) e]

/-- The states, after the whole stream. -/
def groups (es : List ε) : List σ := es.foldl g.add []

/-- The state of one key, made of its own elements. -/
def gather (es : List ε) (i : ι) : σ := (es.filter (g.key · = i)).foldl g.step (g.start i)

omit [DecidableEq ι] in
theorem keyOf_foldl (es : List ε) (s : σ) : g.keyOf (es.foldl g.step s) = g.keyOf s := by
  induction es generalizing s with
  | nil => rfl
  | cons e es ih => rw [List.foldl_cons, ih, g.keyOf_step]

theorem keyOf_gather (es : List ε) (i : ι) : g.keyOf (g.gather es i) = i := by
  rw [gather, keyOf_foldl, g.keyOf_start]

theorem gather_concat_self (es : List ε) (e : ε) :
    g.gather (es ++ [e]) (g.key e) = g.step (g.gather es (g.key e)) e := by
  simp [gather, List.filter_append]

theorem gather_concat_of_ne (es : List ε) {e : ε} {i : ι} (h : g.key e ≠ i) :
    g.gather (es ++ [e]) i = g.gather es i := by
  simp [gather, List.filter_append, h]

/-- The state of a key that has not come is the one it starts from. -/
theorem gather_of_new {es : List ε} {i : ι} (h : ∀ e ∈ es, g.key e ≠ i) :
    g.gather es i = g.start i := by
  rw [gather, List.filter_eq_nil_iff.2 fun e he => by simpa using h e he]
  rfl

/-- **The states** are those of the keys that came. -/
theorem mem_groups (es : List ε) {s : σ} :
    s ∈ g.groups es ↔ ∃ e ∈ es, s = g.gather es (g.key e) := by
  induction es using List.reverseRecOn generalizing s with
  | nil => simp [groups]
  | append_singleton es e ih =>
    have hfold : g.groups (es ++ [e]) = g.add (g.groups es) e := by simp [groups]
    have hkeys : (g.groups es).any (g.keyOf · = g.key e) = true ↔ ∃ d ∈ es, g.key d = g.key e := by
      simp only [List.any_eq_true, decide_eq_true_eq, ih]
      constructor
      · rintro ⟨_, ⟨d, hd, rfl⟩, hkey⟩
        exact ⟨d, hd, (g.keyOf_gather es _).symm.trans hkey⟩
      · rintro ⟨d, hd, hkey⟩
        exact ⟨_, ⟨d, hd, rfl⟩, (g.keyOf_gather es _).trans hkey⟩
    rw [hfold, add]
    split
    · rename_i hold
      obtain ⟨d₀, hd₀, hkey₀⟩ := hkeys.1 hold
      rw [List.mem_map]
      constructor
      · rintro ⟨_, hs, rfl⟩
        obtain ⟨d, hd, rfl⟩ := ih.1 hs
        refine ⟨d, List.mem_append_left _ hd, ?_⟩
        rw [g.keyOf_gather]
        split
        · rename_i hkey
          rw [hkey, gather_concat_self]
        · rename_i hkey
          rw [g.gather_concat_of_ne es (Ne.symm hkey)]
      · rintro ⟨d, hd, rfl⟩
        by_cases hkey : g.key d = g.key e
        · refine ⟨g.gather es (g.key e), ih.2 ⟨d₀, hd₀, by rw [hkey₀]⟩, ?_⟩
          rw [g.keyOf_gather, if_pos rfl, hkey, gather_concat_self]
        · have hold : d ∈ es := by
            rcases List.mem_append.1 hd with hd | hd
            · exact hd
            · exact absurd (congrArg g.key (List.mem_singleton.1 hd)) hkey
          refine ⟨g.gather es (g.key d), ih.2 ⟨d, hold, rfl⟩, ?_⟩
          rw [g.keyOf_gather, if_neg hkey, g.gather_concat_of_ne es (Ne.symm hkey)]
    · rename_i hnew
      have hnone : ∀ d ∈ es, g.key d ≠ g.key e := fun d hd hkey => hnew (hkeys.2 ⟨d, hd, hkey⟩)
      rw [List.mem_append, List.mem_singleton, ih]
      constructor
      · rintro (⟨d, hd, rfl⟩ | rfl)
        · refine ⟨d, List.mem_append_left _ hd, ?_⟩
          rw [g.gather_concat_of_ne es (Ne.symm (hnone d hd))]
        · refine ⟨e, by simp, ?_⟩
          rw [gather_concat_self, g.gather_of_new hnone]
      · rintro ⟨d, hd, rfl⟩
        rcases List.mem_append.1 hd with hd | hd
        · exact .inl ⟨d, hd, g.gather_concat_of_ne es (Ne.symm (hnone d hd))⟩
        · rw [List.mem_singleton.1 hd, gather_concat_self, g.gather_of_new hnone]
          exact .inr rfl

/-- No key has two states. -/
theorem nodup_groups (es : List ε) : ((g.groups es).map g.keyOf).Nodup := by
  induction es using List.reverseRecOn with
  | nil => simp [groups]
  | append_singleton es e ih =>
    have hfold : g.groups (es ++ [e]) = g.add (g.groups es) e := by simp [groups]
    rw [hfold, add]
    split
    · have hmap : (g.groups es).map
          (g.keyOf ∘ fun s => if g.keyOf s = g.key e then g.step s e else s) =
          (g.groups es).map g.keyOf := by
        refine List.map_congr_left fun s _ => ?_
        dsimp only [Function.comp]
        split
        · exact g.keyOf_step s e
        · rfl
      rw [List.map_map, hmap]
      exact ih
    · rename_i hnew
      rw [List.map_append, List.map_singleton, g.keyOf_step, g.keyOf_start, List.nodup_append]
      refine ⟨ih, List.nodup_singleton _, fun i hi j hj hij => hnew ?_⟩
      obtain ⟨s, hs, rfl⟩ := List.mem_map.1 hi
      rw [List.mem_singleton.1 hj] at hij
      exact List.any_eq_true.2 ⟨s, hs, decide_eq_true hij⟩

theorem eq_of_keyOf {es : List ε} {s s' : σ} (hs : s ∈ g.groups es) (hs' : s' ∈ g.groups es)
    (h : g.keyOf s = g.keyOf s') : s = s' :=
  List.inj_on_of_nodup_map (g.nodup_groups es) hs hs' h

/-- **The same states**, seen through a function that shows their keys. -/
theorem map_groups_perm {es es' : List ε} {f : σ → τ} (keyOf : τ → ι)
    (hkey : ∀ s, keyOf (f s) = g.keyOf s) (hmem : ∀ e, e ∈ es ↔ e ∈ es')
    (h : ∀ e ∈ es, f (g.gather es (g.key e)) = f (g.gather es' (g.key e))) :
    ((g.groups es).map f).Perm ((g.groups es').map f) := by
  have hnodup : ∀ es : List ε, ((g.groups es).map f).Nodup := fun es => by
    refine List.Nodup.of_map keyOf ?_
    rw [List.map_map, show keyOf ∘ f = g.keyOf from funext hkey]
    exact g.nodup_groups es
  refine (List.perm_ext_iff_of_nodup (hnodup es) (hnodup es')).2 fun x => ?_
  rw [List.mem_map, List.mem_map]
  constructor
  · rintro ⟨s, hs, rfl⟩
    obtain ⟨e, he, rfl⟩ := (g.mem_groups es).1 hs
    exact ⟨_, (g.mem_groups es').2 ⟨e, (hmem e).1 he, rfl⟩, (h e he).symm⟩
  · rintro ⟨s, hs, rfl⟩
    obtain ⟨e, he, rfl⟩ := (g.mem_groups es').1 hs
    exact ⟨_, (g.mem_groups es).2 ⟨e, (hmem e).2 he, rfl⟩, h e ((hmem e).2 he)⟩

end Grouping

end Keyed
