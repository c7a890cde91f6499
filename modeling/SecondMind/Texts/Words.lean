import Mathlib.Data.List.DropRight
import Mathlib.Data.List.Infix

/-!
# The words of a text

A text is split at its spaces into words.

* `words` — the words, and `words_around` — the words of two texts with a space between them;
* `strip`, `splitAround` — the text without the spaces around it, and its parts around a text;
* `words_intercalate` — the words of parts that are joined by spaces are those of the parts.
-/

namespace Texts

variable {α : Type}

section

variable (space : α → Bool)

/-- The runs of other letters between spaces; `word` is the run that is being read, backwards. -/
def wordsFrom (word : List α) : List α → List (List α)
  | [] => if word.isEmpty then [] else [word.reverse]
  | c :: text =>
    if space c then
      if word.isEmpty then wordsFrom [] text else word.reverse :: wordsFrom [] text
    else wordsFrom (c :: word) text

/-- The words of a text. -/
def words (text : List α) : List (List α) := wordsFrom space [] text

/-- The text without the spaces around it. -/
def strip (text : List α) : List α :=
  (text.dropWhile space).rdropWhile space

/-- A word is letters, none of which is a space. -/
def IsWord (w : List α) : Prop := w ≠ [] ∧ ∀ c ∈ w, space c = false

end

variable {space : α → Bool}

@[simp] theorem words_nil : words space [] = [] := rfl

theorem wordsFrom_append (word a b : List α) {c : α} (hc : space c = true) :
    wordsFrom space word (a ++ c :: b) = wordsFrom space word a ++ words space b := by
  induction a generalizing word with
  | nil => by_cases hword : word.isEmpty = true <;> simp [wordsFrom, words, hc, hword]
  | cons d a ih =>
    rw [List.cons_append, wordsFrom, wordsFrom]
    split
    · split
      · exact ih []
      · rw [ih, List.cons_append]
    · exact ih (d :: word)

/-- **With a space between them** two texts have the words of both. -/
theorem words_around (a b : List α) {c : α} (hc : space c = true) :
    words space (a ++ c :: b) = words space a ++ words space b :=
  wordsFrom_append [] a b hc

/-- Spaces before a text. -/
theorem words_spaces_append {s : List α} (hs : ∀ c ∈ s, space c = true) (b : List α) :
    words space (s ++ b) = words space b := by
  induction s with
  | nil => rfl
  | cons c s ih =>
    have hc := words_around [] (s ++ b) (hs c List.mem_cons_self)
    rw [List.nil_append, words_nil, List.nil_append] at hc
    rw [List.cons_append, hc, ih fun d hd => hs d (List.mem_cons_of_mem c hd)]

/-- Spaces behind a text. -/
theorem words_append_spaces {s : List α} (hs : ∀ c ∈ s, space c = true) (a : List α) :
    words space (a ++ s) = words space a := by
  cases s with
  | nil => rw [List.append_nil]
  | cons c s =>
    have hrest := words_spaces_append (fun d hd => hs d (List.mem_cons_of_mem c hd)) ([] : List α)
    rw [List.append_nil, words_nil] at hrest
    rw [words_around a s (hs c List.mem_cons_self), hrest, List.append_nil]

theorem words_dropWhile (text : List α) :
    words space (text.dropWhile space) = words space text := by
  conv_rhs => rw [← List.takeWhile_append_dropWhile (p := space) (l := text)]
  exact (words_spaces_append (fun c hc => List.mem_takeWhile_imp hc) _).symm

theorem words_strip (text : List α) : words space (strip space text) = words space text := by
  rw [← words_dropWhile text, strip]
  generalize text.dropWhile space = front
  have hsplit : front.rdropWhile space ++ (front.reverse.takeWhile space).reverse = front := by
    rw [List.rdropWhile, ← List.reverse_append, List.takeWhile_append_dropWhile,
      List.reverse_reverse]
  have hspaces : ∀ c ∈ (front.reverse.takeWhile space).reverse, space c = true :=
    fun c hc => List.mem_takeWhile_imp (List.mem_reverse.1 hc)
  have hback := words_append_spaces hspaces (front.rdropWhile space)
  rw [hsplit] at hback
  exact hback.symm

theorem wordsFrom_ne_nil {word : List α} (hword : word ≠ []) (text : List α) :
    wordsFrom space word text ≠ [] := by
  induction text generalizing word with
  | nil => simp [wordsFrom, hword]
  | cons c text ih =>
    rw [wordsFrom]
    split
    · simp [hword]
    · exact ih (List.cons_ne_nil c word)

/-- A text that is not spaces alone has a word. -/
theorem words_ne_nil_of_strip {text : List α} (h : strip space text ≠ []) :
    words space text ≠ [] := by
  rw [← words_dropWhile]
  unfold strip at h
  cases hfront : text.dropWhile space with
  | nil =>
    rw [hfront] at h
    exact absurd rfl h
  | cons c rest =>
    have hc : space c = false := by
      have hne : text.dropWhile space ≠ [] := by
        rw [hfront]
        exact List.cons_ne_nil c rest
      have hhead := List.head_dropWhile_not space hne
      simpa [hfront] using hhead
    rw [words, wordsFrom, if_neg (by simp [hc])]
    exact wordsFrom_ne_nil (List.cons_ne_nil c []) rest

/-- **Parts that are joined by spaces** have their own words. -/
theorem words_intercalate {sep : List α} (hne : sep ≠ []) (hsep : ∀ c ∈ sep, space c = true)
    (parts : List (List α)) :
    words space (sep.intercalate parts) = parts.flatMap (words space) := by
  induction parts with
  | nil => rfl
  | cons part parts ih =>
    cases parts with
    | nil => rw [List.intercalate_singleton, List.flatMap_singleton]
    | cons next parts =>
      obtain ⟨c, sep, rfl⟩ := List.exists_cons_of_ne_nil hne
      rw [List.intercalate_cons_cons, List.append_assoc, List.cons_append,
        words_around part _ (hsep c List.mem_cons_self),
        words_spaces_append (fun d hd => hsep d (List.mem_cons_of_mem c hd)), ih]
      rfl

theorem wordsFrom_isWord {word text : List α} (hword : ∀ c ∈ word, space c = false) :
    ∀ w ∈ wordsFrom space word text, IsWord space w := by
  have hread : ∀ {word : List α}, word.isEmpty ≠ true → (∀ c ∈ word, space c = false) →
      IsWord space word.reverse := fun hne hword =>
    ⟨fun h => hne (List.isEmpty_iff.2 (List.reverse_eq_nil_iff.1 h)),
      fun c hc => hword c (List.mem_reverse.1 hc)⟩
  induction text generalizing word with
  | nil =>
    intro w hw
    rw [wordsFrom] at hw
    split at hw
    · exact absurd hw List.not_mem_nil
    · rename_i hne
      rw [List.mem_singleton.1 hw]
      exact hread hne hword
  | cons c text ih =>
    intro w hw
    rw [wordsFrom] at hw
    split at hw
    · split at hw
      · exact ih (fun _ h => absurd h List.not_mem_nil) w hw
      · rename_i hne
        rcases List.mem_cons.1 hw with rfl | hw
        · exact hread hne hword
        · exact ih (fun _ h => absurd h List.not_mem_nil) w hw
    · rename_i hc
      refine ih (fun d hd => ?_) w hw
      rcases List.mem_cons.1 hd with rfl | hd
      · exact Bool.not_eq_true _ ▸ hc
      · exact hword d hd

/-- The words of a text are words. -/
theorem isWord_of_mem_words {text w : List α} (h : w ∈ words space text) : IsWord space w :=
  wordsFrom_isWord (fun _ h => absurd h List.not_mem_nil) w h

theorem flatten_wordsFrom (word text : List α) :
    (wordsFrom space word text).flatten = word.reverse ++ text.filter (!space ·) := by
  induction text generalizing word with
  | nil =>
    rw [wordsFrom]
    split
    · rename_i hempty
      simp [List.isEmpty_iff.1 hempty]
    · simp
  | cons c text ih =>
    rw [wordsFrom]
    by_cases hc : space c = true
    · rw [if_pos hc, List.filter_cons_of_neg (by simp [hc])]
      split
      · rename_i hempty
        rw [ih, List.isEmpty_iff.1 hempty]
      · rw [List.flatten_cons, ih]
        rfl
    · rw [if_neg hc, ih, List.filter_cons_of_pos (by simp [hc])]
      simp

/-- The words of a text are its letters that are no spaces. -/
theorem flatten_words (text : List α) : (words space text).flatten = text.filter (!space ·) :=
  flatten_wordsFrom [] text

theorem wordsFrom_of_isWord {word text : List α} (hne : word.reverse ++ text ≠ [])
    (h : ∀ c ∈ text, space c = false) :
    wordsFrom space word text = [word.reverse ++ text] := by
  induction text generalizing word with
  | nil =>
    have hword : word.isEmpty = false := by simpa using hne
    simp [wordsFrom, hword]
  | cons c text ih =>
    have hc := h c List.mem_cons_self
    rw [wordsFrom, if_neg (by simp [hc]), ih (by simp) fun d hd => h d (List.mem_cons_of_mem c hd)]
    simp

/-- A word is its own only word. -/
theorem words_of_isWord {w : List α} (h : IsWord space w) : words space w = [w] :=
  wordsFrom_of_isWord h.1 h.2

/-- **Words that are joined by spaces** are the words of the text. -/
theorem words_intercalate_words {sep : List α} (hne : sep ≠ []) (hsep : ∀ c ∈ sep, space c = true)
    {ws : List (List α)} (hws : ∀ w ∈ ws, IsWord space w) :
    words space (sep.intercalate ws) = ws := by
  rw [words_intercalate hne hsep]
  induction ws with
  | nil => rfl
  | cons w ws ih =>
    rw [List.flatMap_cons, words_of_isWord (hws w List.mem_cons_self),
      ih fun v hv => hws v (List.mem_cons_of_mem w hv)]
    rfl

/-! ## Splitting around a text -/

section

variable [DecidableEq α] (sep : List α)

/-- The parts around a text, after leaving out a number of letters; `part` is the part that is
being read, backwards. -/
def splitAroundFrom (part : List α) : Nat → List α → List (List α)
  | _, [] => [part.reverse]
  | skip + 1, _ :: text => splitAroundFrom part skip text
  | 0, c :: text =>
    if sep <+: c :: text then part.reverse :: splitAroundFrom [] (sep.length - 1) text
    else splitAroundFrom (c :: part) 0 text

/-- The parts around each occurrence of a nonempty text, from the left. -/
def splitAround (text : List α) : List (List α) := splitAroundFrom sep [] 0 text

end

section

variable [DecidableEq α] {sep : List α}

theorem splitAroundFrom_length (part left text : List α) :
    splitAroundFrom sep part left.length (left ++ text) = splitAroundFrom sep part 0 text := by
  induction left with
  | nil => rfl
  | cons c left ih => exact ih

theorem splitAroundFrom_ne_nil (part : List α) (skip : Nat) (text : List α) :
    splitAroundFrom sep part skip text ≠ [] := by
  induction text generalizing part skip with
  | nil => cases skip <;> exact List.cons_ne_nil _ _
  | cons c text ih =>
    cases skip with
    | succ skip => exact ih part skip
    | zero =>
      rw [splitAroundFrom]
      split
      · exact List.cons_ne_nil _ _
      · exact ih _ _

theorem intercalate_splitAroundFrom (hne : sep ≠ []) (part text : List α) :
    sep.intercalate (splitAroundFrom sep part 0 text) = part.reverse ++ text := by
  induction hn : text.length using Nat.strong_induction_on generalizing part text with
  | _ n ih =>
    cases text with
    | nil => simp [splitAroundFrom, List.intercalate]
    | cons c text =>
      rw [splitAroundFrom]
      split
      · rename_i hstart
        obtain ⟨rest, hrest⟩ := hstart
        obtain ⟨d, left, rfl⟩ := List.exists_cons_of_ne_nil hne
        obtain ⟨rfl, rfl⟩ := List.cons.inj hrest
        have hlength : rest.length < n := by
          rw [← hn, List.length_cons, List.append_eq, List.length_append]
          omega
        rw [List.length_cons, Nat.add_sub_cancel, List.append_eq, splitAroundFrom_length]
        obtain ⟨next, parts, hparts⟩ :=
          List.exists_cons_of_ne_nil (@splitAroundFrom_ne_nil α _ (d :: left) [] 0 rest)
        rw [hparts, List.intercalate_cons_cons, ← hparts, ih _ hlength [] rest rfl]
        simp
      · rw [ih text.length (hn ▸ Nat.lt_succ_self _) (c :: part) text rfl]
        simp

/-- The parts, joined by the text, are the text again. -/
theorem intercalate_splitAround (hne : sep ≠ []) (text : List α) :
    sep.intercalate (splitAround sep text) = text :=
  intercalate_splitAroundFrom hne [] text

end

end Texts
