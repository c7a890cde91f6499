import Mathlib.Data.List.Infix

/-!
# Replacing a text by a mark

`replace old new text` is the text with every occurrence of `old`, read from the left, put as
`new`.  When the occurrences of many texts are replaced one after the other by the same mark,
what each of the replacements does to the texts of the others is a question about how they
overlap with the mark.

* `Apart` — a text that shares nothing with the mark, not even an edge;
* `Marked` — the second text is the first with some of its parts put as marks;
* `Marked.of_within` — a text apart from the mark is in the second only if it was in the first;
* `replace_gone` — after the replacement it is in there no longer;
* `Marked.replace` — a further replacement goes on from the first text.
-/

namespace Texts

variable {α : Type}

/-! ## Replacing -/

section Replacing

variable [DecidableEq α]

/-- Replace after leaving out a number of letters. -/
def replaceFrom (old new : List α) : Nat → List α → List α
  | _, [] => []
  | skip + 1, _ :: text => replaceFrom old new skip text
  | 0, c :: text =>
    if old <+: c :: text then new ++ replaceFrom old new (old.length - 1) text
    else c :: replaceFrom old new 0 text

/-- Every occurrence of a nonempty text, from the left, put as another. -/
def replace (old new text : List α) : List α := replaceFrom old new 0 text

@[simp] theorem replace_nil (old new : List α) : replace old new [] = [] := rfl

theorem replaceFrom_length (old new left text : List α) :
    replaceFrom old new left.length (left ++ text) = replace old new text := by
  induction left with
  | nil => rfl
  | cons c left ih => exact ih

theorem replace_append {old : List α} (h : old ≠ []) (new text : List α) :
    replace old new (old ++ text) = new ++ replace old new text := by
  obtain ⟨c, left, rfl⟩ := List.exists_cons_of_ne_nil h
  rw [List.cons_append, replace, replaceFrom, if_pos ⟨text, rfl⟩, List.length_cons,
    Nat.add_sub_cancel, replaceFrom_length]

theorem replace_cons {old : List α} {c : α} {text : List α} (h : ¬ old <+: c :: text)
    (new : List α) : replace old new (c :: text) = c :: replace old new text := by
  rw [replace, replaceFrom, if_neg h, replace]

/-- A stretch in which no occurrence begins is passed over. -/
theorem replace_pass {old w text : List α}
    (h : ∀ u v, w = u ++ v → v ≠ [] → ¬ old <+: v ++ text) (new : List α) :
    replace old new (w ++ text) = w ++ replace old new text := by
  induction w with
  | nil => rfl
  | cons c w ih =>
    have hno : ¬ old <+: c :: (w ++ text) := h [] (c :: w) rfl (List.cons_ne_nil c w)
    rw [List.cons_append, replace_cons hno, List.cons_append,
      ih fun u v huv hv => h (c :: u) v (congrArg _ huv) hv]

/-- The induction of `replace`: an occurrence is passed whole, any other letter alone. -/
theorem replace_induct {old : List α} (hold : old ≠ []) {motive : List α → Prop}
    (nil : motive []) (occurrence : ∀ text, motive text → motive (old ++ text))
    (letter : ∀ c text, ¬ old <+: c :: text → motive text → motive (c :: text)) :
    ∀ text, motive text
  | [] => nil
  | c :: text => by
    by_cases h : old <+: c :: text
    · obtain ⟨rest, hrest⟩ := h
      have hlen : rest.length < (c :: text).length := by
        have hpos := List.length_pos_of_ne_nil hold
        rw [← hrest, List.length_append]
        omega
      rw [← hrest]
      exact occurrence rest (replace_induct hold nil occurrence letter rest)
    · exact letter c text h (replace_induct hold nil occurrence letter text)
termination_by text => text.length
decreasing_by
  · exact hlen
  · exact Nat.lt_succ_self _

/-- A text without an occurrence stays as it is. -/
theorem replace_of_absent {old text : List α} (h : ¬ old <:+: text) (new : List α) :
    replace old new text = text := by
  induction text with
  | nil => rfl
  | cons c text ih =>
    rw [List.infix_cons_iff, not_or] at h
    rw [replace_cons h.1, ih h.2]

end Replacing

/-! ## Apart from the mark -/

/-- A text shares nothing with a mark: neither is inside the other, and no end of one is a
beginning of the other. -/
def Apart (text mark : List α) : Prop :=
  ¬ text <:+: mark ∧ ¬ mark <:+: text ∧ (∀ p ∈ text.tails, p ≠ [] → ¬ p <+: mark) ∧
    ∀ p ∈ mark.tails, p ≠ [] → ¬ p <+: text

instance [DecidableEq α] (text mark : List α) : Decidable (Apart text mark) := by
  unfold Apart
  infer_instance

namespace Apart

variable {t mark : List α}

theorem ne_nil (h : Apart t mark) : t ≠ [] := by
  rintro rfl
  exact h.1 List.nil_infix

theorem mark_ne_nil (h : Apart t mark) : mark ≠ [] := by
  rintro rfl
  exact h.2.1 List.nil_infix

theorem not_end (h : Apart t mark) {p : List α} (hp : p ≠ []) (hend : p <:+ t) : ¬ p <+: mark :=
  h.2.2.1 p ((List.mem_tails p t).2 hend) hp

theorem not_start (h : Apart t mark) {p : List α} (hp : p ≠ []) (hend : p <:+ mark) : ¬ p <+: t :=
  h.2.2.2 p ((List.mem_tails p mark).2 hend) hp

/-- No occurrence starts inside a mark. -/
theorem not_prefix_append (h : Apart t mark) {p text : List α} (hp : p ≠ []) (hend : p <:+ mark) :
    ¬ t <+: p ++ text := by
  rintro ⟨rest, hrest⟩
  rcases List.append_eq_append_iff.1 hrest with ⟨x, hx, -⟩ | ⟨x, hx, -⟩
  · exact h.1 ((show t <+: p from ⟨x, hx.symm⟩).isInfix.trans hend.isInfix)
  · exact h.not_start hp hend ⟨x, hx.symm⟩

/-- An occurrence in a text that begins with a mark is behind it. -/
theorem infix_of_append (h : Apart t mark) {p text : List α} (hend : p <:+ mark)
    (ht : t <:+: p ++ text) : t <:+: text := by
  induction p with
  | nil => exact ht
  | cons c p ih =>
    rw [List.cons_append, List.infix_cons_iff] at ht
    rcases ht with hstart | hlater
    · exact absurd hstart (h.not_prefix_append (List.cons_ne_nil c p) hend)
    · exact ih ((List.suffix_cons c p).trans hend) hlater

/-- An occurrence around which there is a mark is before the mark or behind it. -/
theorem infix_around (h : Apart t mark) {first rest : List α}
    (ht : t <:+: first ++ (mark ++ rest)) : t <:+: first ∨ t <:+: rest := by
  induction first with
  | nil => exact .inr (h.infix_of_append (List.suffix_refl mark) ht)
  | cons c first ih =>
    rw [List.cons_append, List.infix_cons_iff] at ht
    rcases ht with hstart | hlater
    · -- an occurrence at the start ends before the mark, or it would meet it
      have hstart : t <+: (c :: first) ++ (mark ++ rest) := hstart
      rcases List.prefix_or_prefix_of_prefix hstart (List.prefix_append _ _) with hin | ⟨t', ht'⟩
      · exact .inl hin.isInfix
      · rw [← ht', List.prefix_append_right_inj] at hstart
        by_cases hnil : t' = []
        · rw [hnil, List.append_nil] at ht'
          exact .inl (ht' ▸ List.infix_rfl)
        · have hend : t' <:+ t := ⟨c :: first, ht'⟩
          rcases List.prefix_or_prefix_of_prefix hstart (List.prefix_append mark rest) with hm | hm
          · exact absurd hm (h.not_end hnil hend)
          · exact absurd (hm.isInfix.trans hend.isInfix) h.2.1
    · exact (ih hlater).imp_left fun hin => hin.trans (List.suffix_cons c first).isInfix

/-- An occurrence in pieces with marks between them is in one of the pieces. -/
theorem infix_piece (h : Apart t mark) {pieces : List (List α)}
    (ht : t <:+: mark.intercalate pieces) : ∃ piece ∈ pieces, t <:+: piece := by
  induction pieces with
  | nil => exact absurd (List.infix_nil.1 ht) h.ne_nil
  | cons piece pieces ih =>
    cases pieces with
    | nil => exact ⟨piece, List.mem_cons_self, by rwa [List.intercalate_singleton] at ht⟩
    | cons next pieces =>
      rw [List.intercalate_cons_cons, List.append_assoc] at ht
      rcases h.infix_around ht with hhere | hlater
      · exact ⟨piece, List.mem_cons_self, hhere⟩
      · obtain ⟨p, hp, hin⟩ := ih hlater
        exact ⟨p, List.mem_cons_of_mem _ hp, hin⟩

/-- A mark is passed as it is. -/
theorem replace_append_mark [DecidableEq α] (h : Apart t mark) (new : List α) {p : List α}
    (hend : p <:+ mark) (text : List α) : replace t new (p ++ text) = p ++ replace t new text := by
  induction p with
  | nil => rfl
  | cons c p ih =>
    have hno : ¬ t <+: c :: (p ++ text) := h.not_prefix_append (List.cons_ne_nil c p) hend
    rw [List.cons_append, replace_cons hno, ih ((List.suffix_cons c p).trans hend),
      List.cons_append]

end Apart

/-! ## Marked texts -/

/-- The second text is the first with some of its parts, all of a kind, put as marks. -/
inductive Marked (P : List α → Prop) (mark : List α) : List α → List α → Prop
  | nil : Marked P mark [] []
  | cons (c : α) {a b : List α} : Marked P mark a b → Marked P mark (c :: a) (c :: b)
  | mark {t a b : List α} : P t → t ≠ [] → Marked P mark a b → Marked P mark (t ++ a) (mark ++ b)

namespace Marked

variable {P : List α → Prop} {t mark a b : List α}

theorem refl (P : List α → Prop) (mark : List α) : ∀ a, Marked P mark a a
  | [] => nil
  | c :: a => cons c (refl P mark a)

theorem append (w : List α) (h : Marked P mark a b) : Marked P mark (w ++ a) (w ++ b) := by
  induction w with
  | nil => exact h
  | cons c w ih => exact cons c ih

/-- The first letter of what was marked is the letter that was there, or a mark begins. -/
theorem cons_inv {c : α} (h : Marked P mark (c :: a) b) :
    (∃ b', b = c :: b' ∧ Marked P mark a b') ∨
      ∃ t a' b', P t ∧ t ≠ [] ∧ c :: a = t ++ a' ∧ b = mark ++ b' ∧ Marked P mark a' b' := by
  generalize hca : c :: a = ca at h
  cases h with
  | nil => cases hca
  | cons d h =>
    cases hca
    exact .inl ⟨_, rfl, h⟩
  | mark hp hne h => exact .inr ⟨_, _, _, hp, hne, rfl, rfl, h⟩

/-- What a marked text begins with was there, if it ends a text apart from the mark. -/
theorem of_append (h : Marked P mark a b) (ht : Apart t mark) :
    ∀ {w b' : List α}, w <:+ t → b = w ++ b' → ∃ a', a = w ++ a' ∧ Marked P mark a' b' := by
  induction h with
  | nil =>
    intro w b' _ hb
    obtain ⟨rfl, rfl⟩ := List.append_eq_nil_iff.1 hb.symm
    exact ⟨[], rfl, nil⟩
  | @cons c a b h ih =>
    intro w b' hw hb
    cases w with
    | nil => exact ⟨c :: a, rfl, by rw [← hb.trans (List.nil_append b')]; exact cons c h⟩
    | cons d w =>
      obtain ⟨rfl, hrest⟩ := List.cons.inj hb
      obtain ⟨a', rfl, hm⟩ := ih ((List.suffix_cons c w).trans hw) hrest
      exact ⟨a', rfl, hm⟩
  | @mark s a b hs hne h ih =>
    intro w b' hw hb
    by_cases hnil : w = []
    · subst hnil
      exact ⟨s ++ a, rfl, by rw [← hb.trans (List.nil_append b')]; exact .mark hs hne h⟩
    · exfalso
      rcases List.append_eq_append_iff.1 hb with ⟨x, rfl, -⟩ | ⟨x, hx, -⟩
      · exact ht.2.1 ((List.prefix_append mark x).isInfix.trans hw.isInfix)
      · exact ht.not_end hnil hw ⟨x, hx.symm⟩

/-- **No mark makes an occurrence**: a text apart from it was there before. -/
theorem of_within (h : Marked P mark a b) (ht : Apart t mark) : t <:+: b → t <:+: a := by
  induction h with
  | nil => exact id
  | @cons c a b h ih =>
    intro hin
    rcases List.infix_cons_iff.1 hin with ⟨b', hb⟩ | hin
    · obtain ⟨a', ha, -⟩ := (cons c h).of_append ht (List.suffix_refl t) hb.symm
      exact ⟨[], a', by rw [ha, List.nil_append]⟩
    · exact (ih hin).trans (List.suffix_cons c a).isInfix
  | @mark s a b hs hne h ih =>
    intro hin
    exact (ih (ht.infix_of_append (List.suffix_refl mark) hin)).trans
      (List.suffix_append s a).isInfix

/-- **A further replacement** marks the first text in one more place or none. -/
theorem replace [DecidableEq α] (ht : Apart t mark) (hp : P t) :
    ∀ {a b : List α}, Marked P mark a b → Marked P mark a (Texts.replace t mark b)
  | a, b, h => by
    have hpos : 0 < t.length := List.length_pos_of_ne_nil ht.ne_nil
    have hmark : 0 < mark.length := List.length_pos_of_ne_nil ht.mark_ne_nil
    by_cases hstart : t <+: b
    · obtain ⟨b', hb⟩ := hstart
      obtain ⟨a', rfl, h'⟩ := h.of_append ht (List.suffix_refl t) hb.symm
      have hlen : b'.length < b.length := by rw [← hb, List.length_append]; omega
      rw [← hb, replace_append ht.ne_nil]
      exact .mark hp ht.ne_nil (replace ht hp h')
    · cases h with
      | nil => exact nil
      | @cons c a b h =>
        rw [replace_cons hstart]
        exact cons c (replace ht hp h)
      | @mark s a b hs hne h =>
        rw [ht.replace_append_mark mark (List.suffix_refl mark)]
        exact .mark hs hne (replace ht hp h)
termination_by _ b => b.length

end Marked

/-- A replacement marks the text it is done in. -/
theorem marked_replace [DecidableEq α] {t : List α} (ht : t ≠ []) (mark text : List α) :
    Marked (· = t) mark text (replace t mark text) := by
  induction text using replace_induct ht with
  | nil => exact .nil
  | occurrence text ih =>
    rw [replace_append ht]
    exact .mark rfl ht ih
  | letter c text h ih =>
    rw [replace_cons h]
    exact .cons c ih

/-- **What was replaced is gone.** -/
theorem replace_gone [DecidableEq α] {t mark : List α} (ht : Apart t mark) (text : List α) :
    ¬ t <:+: replace t mark text := by
  induction text using replace_induct ht.ne_nil with
  | nil => exact fun h => ht.ne_nil (List.infix_nil.1 h)
  | occurrence text ih =>
    rw [replace_append ht.ne_nil]
    exact fun h => ih (ht.infix_of_append (List.suffix_refl mark) h)
  | letter c text h ih =>
    rw [replace_cons h]
    intro hin
    rcases List.infix_cons_iff.1 hin with ⟨rest, hrest⟩ | hlater
    · have hm : Marked (· = t) mark (c :: text) (c :: replace t mark text) :=
        .cons c (marked_replace ht.ne_nil mark text)
      obtain ⟨a, ha, -⟩ := hm.of_append ht (List.suffix_refl t) hrest.symm
      exact h ⟨a, ha.symm⟩
    · exact ih hlater

end Texts
