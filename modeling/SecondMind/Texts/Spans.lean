import Mathlib.Data.List.Infix
import Mathlib.Data.List.Sort
import Mathlib.Data.Nat.Basic

/-!
# Spans of a text

Labelled spans over the places of a text: sorted and merged where they overlap, and cut out of the
text, with a mark in the place of each.

* `merge` — the merged spans: sorted and separate (`merge_separate`), over the same places
  (`covered_merge`);
* `cut` — the text with a mark for each span, and `kept` — the stretches between the marks;
* `flatten_kept` — the stretches are the letters that no span is over, in order.
-/

namespace Texts

variable {κ α : Type}

/-- A span over the places from `start` up to `stop`. -/
structure Span (κ : Type) where
  kind : κ
  start : Nat
  stop : Nat
  le : start ≤ stop
  deriving DecidableEq

namespace Span

/-- The place is in the span. -/
def Has (s : Span κ) (i : Nat) : Prop := s.start ≤ i ∧ i < s.stop

instance (s : Span κ) (i : Nat) : Decidable (s.Has i) := by
  unfold Has
  infer_instance

/-- The order in which spans are merged: the first start first, and of one start the last end. -/
def Before (a b : Span κ) : Prop := a.start < b.start ∨ a.start = b.start ∧ b.stop ≤ a.stop

instance : DecidableRel (Before (κ := κ)) := fun a b => by
  unfold Before
  infer_instance

/-- The span, up to the end of another that begins in it. -/
def extend (s t : Span κ) : Span κ where
  kind := s.kind
  start := s.start
  stop := max s.stop t.stop
  le := s.le.trans (le_max_left _ _)

end Span

open Span

/-- One of the spans is over the place. -/
def Covered (spans : List (Span κ)) (i : Nat) : Prop := ∃ s ∈ spans, s.Has i

instance (spans : List (Span κ)) (i : Nat) : Decidable (Covered spans i) := by
  unfold Covered
  infer_instance

/-! ## Merging -/

/-- The spans after `last`, in their order: one that begins before `last` ends is merged with it. -/
def mergeFrom (last : Span κ) : List (Span κ) → List (Span κ)
  | [] => [last]
  | s :: spans =>
    if s.start < last.stop then mergeFrom (last.extend s) spans else last :: mergeFrom s spans

/-- The spans, sorted and merged. -/
def merge (spans : List (Span κ)) : List (Span κ) :=
  match spans.insertionSort Before with
  | [] => []
  | s :: spans => mergeFrom s spans

/-- The starts ascend. -/
def Ascending (spans : List (Span κ)) : Prop := spans.Pairwise fun a b => a.start ≤ b.start

/-- The starts ascend when the second span is merged with the first. -/
theorem Ascending.extend {last s : Span κ} {spans : List (Span κ)}
    (h : Ascending (last :: s :: spans)) : Ascending (last.extend s :: spans) := by
  obtain ⟨hlast, hrest⟩ := List.pairwise_cons.1 h
  exact List.pairwise_cons.2
    ⟨fun t ht => hlast t (List.mem_cons_of_mem s ht), (List.pairwise_cons.1 hrest).2⟩

theorem ascending_insertionSort (spans : List (Span κ)) :
    Ascending (spans.insertionSort Before) := by
  have htotal : Std.Total (Before (κ := κ)) := ⟨fun a b => by unfold Before; omega⟩
  have htrans : IsTrans (Span κ) Before := ⟨fun a b c => by unfold Before; omega⟩
  refine (List.pairwise_insertionSort Before spans).imp fun {a b} h => ?_
  unfold Before at h
  omega

theorem mergeFrom_start {last : Span κ} {spans : List (Span κ)} (h : Ascending (last :: spans))
    {x : Span κ} (hx : x ∈ mergeFrom last spans) : last.start ≤ x.start := by
  induction spans generalizing last with
  | nil =>
    obtain rfl := List.mem_singleton.1 hx
    exact le_rfl
  | cons s spans ih =>
    obtain ⟨hlast, hrest⟩ := List.pairwise_cons.1 h
    unfold mergeFrom at hx
    split at hx
    · have hnext : (last.extend s).start ≤ x.start := ih h.extend hx
      exact hnext
    · rcases List.mem_cons.1 hx with rfl | hx
      · exact le_rfl
      · exact (hlast s List.mem_cons_self).trans (ih hrest hx)

/-- The spans are in their order, and no two of them meet. -/
def Separate (spans : List (Span κ)) : Prop :=
  spans.Pairwise fun a b => a.start ≤ b.start ∧ a.stop ≤ b.start

theorem mergeFrom_separate {last : Span κ} {spans : List (Span κ)} (h : Ascending (last :: spans)) :
    Separate (mergeFrom last spans) := by
  induction spans generalizing last with
  | nil => exact List.pairwise_singleton _ _
  | cons s spans ih =>
    obtain ⟨hlast, hrest⟩ := List.pairwise_cons.1 h
    unfold mergeFrom
    split
    · exact ih h.extend
    · rename_i happart
      refine List.pairwise_cons.2 ⟨fun x hx => ?_, ih hrest⟩
      have hstart := mergeFrom_start hrest hx
      exact ⟨(hlast s List.mem_cons_self).trans hstart, (not_lt.1 happart).trans hstart⟩

theorem covered_mergeFrom {last : Span κ} {spans : List (Span κ)} (h : Ascending (last :: spans))
    (i : Nat) : Covered (mergeFrom last spans) i ↔ Covered (last :: spans) i := by
  induction spans generalizing last with
  | nil => exact Iff.rfl
  | cons s spans ih =>
    obtain ⟨hlast, hrest⟩ := List.pairwise_cons.1 h
    unfold mergeFrom
    split
    · rename_i hmeets
      rw [ih h.extend]
      -- the two spans meet, so that together they are over what the longer one is over
      have hjoin : (last.extend s).Has i ↔ last.Has i ∨ s.Has i := by
        have hbegins := hlast s List.mem_cons_self
        have hends := s.le
        unfold Has Span.extend
        dsimp only
        omega
      simp only [Covered, List.exists_mem_cons_iff, hjoin, or_assoc]
    · have hcovered := ih hrest
      simp only [Covered, List.exists_mem_cons_iff] at hcovered ⊢
      rw [hcovered]

/-- **Merged spans** are sorted and separate. -/
theorem merge_separate (spans : List (Span κ)) : Separate (merge spans) := by
  have hsorted := ascending_insertionSort spans
  unfold merge
  split
  · exact List.Pairwise.nil
  · rename_i s sorted hsort
    rw [hsort] at hsorted
    exact mergeFrom_separate hsorted

/-- **Merged spans** are over the same places. -/
theorem covered_merge (spans : List (Span κ)) (i : Nat) :
    Covered (merge spans) i ↔ Covered spans i := by
  have hsorted := ascending_insertionSort spans
  have hsame : Covered (spans.insertionSort Before) i ↔ Covered spans i := by
    simp only [Covered, List.mem_insertionSort]
  rw [← hsame]
  unfold merge
  split
  · rename_i hsort
    rw [hsort]
  · rename_i s sorted hsort
    rw [hsort] at hsorted ⊢
    exact covered_mergeFrom hsorted i

/-! ## Cutting -/

/-- The text from a place on, with a mark in the place of each span. -/
def cutFrom (mark text : List α) (cursor : Nat) : List (Span κ) → List α
  | [] => text.drop cursor
  | s :: spans =>
    (text.drop cursor).take (s.start - cursor) ++ mark ++ cutFrom mark text s.stop spans

/-- The text with a mark in the place of each span. -/
def cut (mark text : List α) (spans : List (Span κ)) : List α := cutFrom mark text 0 spans

/-- The stretches between the spans, from a place on. -/
def keptFrom (text : List α) (cursor : Nat) : List (Span κ) → List (List α)
  | [] => [text.drop cursor]
  | s :: spans => (text.drop cursor).take (s.start - cursor) :: keptFrom text s.stop spans

/-- The stretches between the spans. -/
def kept (text : List α) (spans : List (Span κ)) : List (List α) := keptFrom text 0 spans

theorem keptFrom_ne_nil (text : List α) (cursor : Nat) (spans : List (Span κ)) :
    keptFrom text cursor spans ≠ [] := by
  cases spans <;> exact List.cons_ne_nil _ _

theorem length_keptFrom (text : List α) (cursor : Nat) (spans : List (Span κ)) :
    (keptFrom text cursor spans).length = spans.length + 1 := by
  induction spans generalizing cursor with
  | nil => rfl
  | cons s spans ih => rw [keptFrom, List.length_cons, List.length_cons, ih]

theorem cutFrom_eq (mark text : List α) (cursor : Nat) (spans : List (Span κ)) :
    cutFrom mark text cursor spans = mark.intercalate (keptFrom text cursor spans) := by
  induction spans generalizing cursor with
  | nil => simp [cutFrom, keptFrom, List.intercalate]
  | cons s spans ih =>
    obtain ⟨piece, pieces, hpieces⟩ :=
      List.exists_cons_of_ne_nil (keptFrom_ne_nil text s.stop spans)
    rw [cutFrom, keptFrom, ih, hpieces, List.intercalate_cons_cons, List.append_assoc]

/-- **The cut text** is the stretches with a mark between any two. -/
theorem cut_eq (mark text : List α) (spans : List (Span κ)) :
    cut mark text spans = mark.intercalate (kept text spans) :=
  cutFrom_eq mark text 0 spans

/-- The letters that no span is over, in order. -/
def uncovered (text : List α) (spans : List (Span κ)) : List α :=
  (text.zipIdx.filter fun e => ¬ Covered spans e.2).map (·.1)

theorem place_of_mem {text : List α} {a b : Nat} {e : α × Nat}
    (h : e ∈ (text.zipIdx.drop a).take b) : a ≤ e.2 ∧ e.2 < a + b := by
  obtain ⟨i, hi, rfl⟩ := List.mem_take_iff_getElem.1 h
  rw [List.getElem_drop, List.getElem_zipIdx]
  omega

theorem map_take_drop_zipIdx (text : List α) (a b : Nat) :
    ((text.zipIdx.drop a).take b).map (·.1) = (text.drop a).take b := by
  rw [List.map_take, List.map_drop, List.zipIdx_map_fst]

theorem flatten_keptFrom (text : List α) {cursor : Nat} {spans : List (Span κ)}
    (h : Separate spans) (hcursor : ∀ s ∈ spans, cursor ≤ s.start) :
    (keptFrom text cursor spans).flatten =
      ((text.zipIdx.drop cursor).filter fun e => ¬ Covered spans e.2).map (·.1) := by
  induction spans generalizing cursor with
  | nil =>
    have hall : ((text.zipIdx.drop cursor).filter fun e => ¬ Covered ([] : List (Span κ)) e.2) =
        text.zipIdx.drop cursor := by
      refine List.filter_eq_self.2 fun e _ => decide_eq_true ?_
      exact fun ⟨_, hs, _⟩ => absurd hs List.not_mem_nil
    rw [hall, List.map_drop, List.zipIdx_map_fst, keptFrom, List.flatten_singleton]
  | cons s spans ih =>
    obtain ⟨hapart, hrest⟩ := List.pairwise_cons.1 h
    have hstart := hcursor s List.mem_cons_self
    have hle := s.le
    -- the places before the span, the places in it, and the places after it
    have hsplit : text.zipIdx.drop cursor = (text.zipIdx.drop cursor).take (s.start - cursor) ++
        ((text.zipIdx.drop s.start).take (s.stop - s.start) ++ text.zipIdx.drop s.stop) := by
      have hspan : text.zipIdx.drop s.stop =
          (text.zipIdx.drop s.start).drop (s.stop - s.start) := by
        rw [List.drop_drop, Nat.add_sub_cancel' hle]
      have hbegin : text.zipIdx.drop s.start =
          (text.zipIdx.drop cursor).drop (s.start - cursor) := by
        rw [List.drop_drop, Nat.add_sub_cancel' hstart]
      rw [hspan, List.take_append_drop, hbegin, List.take_append_drop]
    have hbefore : ((text.zipIdx.drop cursor).take (s.start - cursor)).filter
        (fun e => ¬ Covered (s :: spans) e.2) =
          (text.zipIdx.drop cursor).take (s.start - cursor) := by
      refine List.filter_eq_self.2 fun e he => decide_eq_true ?_
      have hplace := place_of_mem he
      rintro ⟨x, hx, hhas, -⟩
      rcases List.mem_cons.1 hx with rfl | hx
      · omega
      · have hafter := (hapart x hx).1
        omega
    have hinside : ((text.zipIdx.drop s.start).take (s.stop - s.start)).filter
        (fun e => ¬ Covered (s :: spans) e.2) = [] := by
      refine List.filter_eq_nil_iff.2 fun e he => ?_
      have hplace := place_of_mem he
      simpa using ⟨s, List.mem_cons_self, hplace.1, by omega⟩
    have hafter : (text.zipIdx.drop s.stop).filter (fun e => ¬ Covered (s :: spans) e.2) =
        (text.zipIdx.drop s.stop).filter fun e => ¬ Covered spans e.2 := by
      refine List.filter_congr fun e he => ?_
      obtain ⟨i, hi, rfl⟩ := List.mem_drop_iff_getElem.1 he
      have hnot : ¬ s.Has (text.zipIdx[s.stop + i]).2 := by
        rw [List.getElem_zipIdx]
        unfold Has
        omega
      refine decide_eq_decide.2 (not_congr ?_)
      simp only [Covered, List.exists_mem_cons_iff, or_iff_right hnot]
    rw [hsplit, List.filter_append, List.filter_append, hbefore, hinside, hafter, List.nil_append,
      List.map_append, map_take_drop_zipIdx, keptFrom, List.flatten_cons,
      ih hrest fun x hx => (hapart x hx).2]

/-- **The stretches between separate spans** are the letters that no span is over. -/
theorem flatten_kept (text : List α) {spans : List (Span κ)} (h : Separate spans) :
    (kept text spans).flatten = uncovered text spans := by
  rw [kept, flatten_keptFrom text h fun _ _ => Nat.zero_le _, List.drop_zero, uncovered]

/-- The letters that are left depend on the places that are covered. -/
theorem uncovered_congr (text : List α) {spans spans' : List (Span κ)}
    (h : ∀ i, Covered spans i ↔ Covered spans' i) :
    uncovered text spans = uncovered text spans' := by
  simp only [uncovered, h]

/-! ## What stands between the spans -/

theorem exists_of_infix_keptFrom {text w : List α} {cursor : Nat} {spans : List (Span κ)}
    (h : Separate spans) (hcursor : ∀ s ∈ spans, cursor ≤ s.start) {piece : List α}
    (hpiece : piece ∈ keptFrom text cursor spans) (hw : w <:+: piece) :
    ∃ i, cursor ≤ i ∧ w <+: text.drop i ∧ ∀ j, i ≤ j → j < i + w.length → ¬ Covered spans j := by
  induction spans generalizing cursor with
  | nil =>
    obtain rfl := List.mem_singleton.1 hpiece
    obtain ⟨before, after, hparts⟩ := hw
    refine ⟨cursor + before.length, Nat.le_add_right _ _, ⟨after, ?_⟩, fun _ _ _ hcovered => ?_⟩
    · rw [← List.drop_drop, ← hparts, List.append_assoc, List.drop_left]
    · obtain ⟨s, hs, -⟩ := hcovered
      exact absurd hs List.not_mem_nil
  | cons s spans ih =>
    obtain ⟨hapart, hrest⟩ := List.pairwise_cons.1 h
    have hstart := hcursor s List.mem_cons_self
    have hle := s.le
    rcases List.mem_cons.1 hpiece with rfl | hpiece
    · obtain ⟨before, after, hparts⟩ := hw
      have hlength : before.length + w.length ≤ s.start - cursor := by
        have htake := List.length_take_le (s.start - cursor) (text.drop cursor)
        rw [← hparts, List.length_append, List.length_append] at htake
        omega
      refine ⟨cursor + before.length, Nat.le_add_right _ _, ?_, ?_⟩
      · obtain ⟨rest, hsplit⟩ := List.take_prefix (s.start - cursor) (text.drop cursor)
        refine ⟨after ++ rest, ?_⟩
        rw [← List.drop_drop, ← hsplit, ← hparts]
        simp
      · rintro j hfirst hlast ⟨x, hx, hhas, -⟩
        rcases List.mem_cons.1 hx with rfl | hx
        · omega
        · have hafter := (hapart x hx).1
          omega
    · obtain ⟨i, hi, hprefix, hfree⟩ := ih hrest (fun x hx => (hapart x hx).2) hpiece
      refine ⟨i, by omega, hprefix, fun j hfirst hlast => ?_⟩
      rintro ⟨x, hx, hhas⟩
      rcases List.mem_cons.1 hx with rfl | hx
      · have hend := hhas.2
        omega
      · exact hfree j hfirst hlast ⟨x, hx, hhas⟩

/-- **A text that stands between spans** stands in the text, at places that no span is over. -/
theorem exists_of_infix_kept {text w : List α} {spans : List (Span κ)} (h : Separate spans)
    {piece : List α} (hpiece : piece ∈ kept text spans) (hw : w <:+: piece) :
    ∃ i, w <+: text.drop i ∧ ∀ j, i ≤ j → j < i + w.length → ¬ Covered spans j := by
  obtain ⟨i, -, hi⟩ := exists_of_infix_keptFrom h (fun _ _ => Nat.zero_le _) hpiece hw
  exact ⟨i, hi⟩

end Texts
