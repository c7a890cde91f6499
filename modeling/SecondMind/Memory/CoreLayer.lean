import Mathlib
import SecondMind.Core.Text
import SecondMind.Memory.Records

/-!
# Core memory

The budget side of `memory/core_layer.py`: what a core line costs, which items the core
view shows, and the measure the budget rule takes, `coreTokensWith`.

* `length_join` — the length of joined lines, so that the measure is a sum;
* `coreTokensOf` — the same measure without a candidate, and `coreTokensWith_eq` — both are
  sums of what the items cost that show.
-/

namespace SecondMind

/-! ## Text -/

/-- The runs of other characters between spaces; `word` is the run being read, backwards. -/
def splitWords (word : List Char) : List Char → List String
  | [] => if word.isEmpty then [] else [String.ofList word.reverse]
  | c :: cs =>
    if isSpace c then
      if word.isEmpty then splitWords [] cs
      else String.ofList word.reverse :: splitWords [] cs
    else splitWords (c :: word) cs

/-- `text.split()`. -/
def words (text : String) : List String := splitWords [] text.toList

theorem splitWords_of_not_isSpace {word cs : List Char} (h : ∀ c ∈ cs, isSpace c = false)
    (hne : word.reverse ++ cs ≠ []) : splitWords word cs = [String.ofList (word.reverse ++ cs)] := by
  induction cs generalizing word with
  | nil =>
    have hword : word.isEmpty = false := by simpa using hne
    simp [splitWords, hword]
  | cons c cs ih =>
    have hc := h c List.mem_cons_self
    rw [splitWords, if_neg (by simp [hc]), ih (fun d hd => h d (List.mem_cons_of_mem _ hd)) (by simp)]
    simp

/-- A text without spaces is one word. -/
theorem words_of_not_isSpace {text : String} (h : ∀ c ∈ text.toList, isSpace c = false)
    (hne : text.toList ≠ []) : words text = [text] := by
  rw [words, splitWords_of_not_isSpace h (by simpa using hne)]
  simp

/-- `sep.join(parts)`. -/
def join (sep : String) : List String → String
  | [] => ""
  | [part] => part
  | part :: part' :: parts => part ++ sep ++ join sep (part' :: parts)

theorem length_join_cons (sep part : String) (parts : List String) (h : parts ≠ []) :
    (join sep (part :: parts)).length = part.length + sep.length + (join sep parts).length := by
  cases parts with
  | nil => exact absurd rfl h
  | cons part' parts => simp [join]

/-- Joined lines are as long as the lines and the separators between them. -/
theorem length_join (sep part : String) (parts : List String) :
    (join sep (part :: parts)).length =
      part.length + (parts.map fun p => sep.length + p.length).sum := by
  induction parts generalizing part with
  | nil => simp [join]
  | cons part' parts ih =>
    rw [length_join_cons sep part _ (by simp), ih]
    simp only [List.map_cons, List.sum_cons]
    omega

/-! ## The budget's measure -/

/-- `HEADER`. -/
def coreHeader : String := "## Core memory (what I always know about you)"

/-- `_CORE_STATES`. -/
def coreStates : List String := ["current", "active", "confirmed"]

/-- About four characters per token, rounded up. -/
def estimateTokens (text : String) : Nat := (text.length + 3) / 4

def coreLine (item : ItemContent) : String := "- " ++ join " " (words item.text)

/-- Current state only; sensitive items only once the user confirmed them. -/
def inCoreView (item : ItemContent) : Bool :=
  if ¬ item.inCore ∨ item.status ≠ .active ∨ item.validTo ≠ none then false
  else if ¬ coreStates.contains item.state then false
  else item.sensitivity ≠ .sensitive ∨ item.coreConfirmedAt ≠ none

/-- What the core items that show, and one candidate, cost together. -/
def coreTokensWith (items : List ItemContent) (candidate : ItemContent) : Nat :=
  estimateTokens (join "\n" (coreHeader ::
    ((items.filter inCoreView).map coreLine ++ [coreLine candidate])))

/-- What the core items that show cost together. -/
def coreTokensOf (items : List ItemContent) : Nat :=
  estimateTokens (join "\n" (coreHeader :: (items.filter inCoreView).map coreLine))

/-- The characters an item adds to core: its line and the line break before it, if it
shows. -/
def viewCost (item : ItemContent) : Nat :=
  if inCoreView item then 1 + (coreLine item).length else 0

/-- What the items that show add to core. -/
theorem sum_lines (items : List ItemContent) :
    (((items.filter inCoreView).map coreLine).map fun line => "\n".length + line.length).sum =
      (items.map viewCost).sum := by
  induction items with
  | nil => rfl
  | cons item items ih =>
    rw [List.map_cons, List.sum_cons, ← ih, viewCost]
    by_cases h : inCoreView item = true
    · rw [List.filter_cons_of_pos h, if_pos h, List.map_cons, List.map_cons, List.sum_cons]
      rfl
    · rw [List.filter_cons_of_neg h, if_neg h, Nat.zero_add]

theorem coreTokensOf_eq (items : List ItemContent) :
    coreTokensOf items = (coreHeader.length + (items.map viewCost).sum + 3) / 4 := by
  rw [coreTokensOf, estimateTokens, length_join, sum_lines]

/-- **The budget rule's measure**: the items that show, and the candidate's line whether it
shows or not. -/
theorem coreTokensWith_eq (items : List ItemContent) (candidate : ItemContent) :
    coreTokensWith items candidate =
      (coreHeader.length + (items.map viewCost).sum + (1 + (coreLine candidate).length) + 3) / 4 := by
  have hbreak : "\n".length = 1 := rfl
  rw [coreTokensWith, estimateTokens, length_join, List.map_append, List.sum_append, sum_lines]
  simp only [List.map_cons, List.map_nil, List.sum_cons, List.sum_nil, hbreak, Nat.add_zero,
    Nat.add_assoc]

end SecondMind
