import SecondMind.Core.Text
import Mathlib.Data.Finset.Basic

/-!
# Citations in a streamed answer

`CitationFilter` of `retrieval/answer.py`.  The answer comes in pieces, and what could be a
marker `[n]` is held back until its bracket closes: then the numbers that name evidence are
let out, each in brackets of its own, and the others are dropped and counted.

* `drain` — the loop of `feed` over the buffer;
* `drain_open`, `drain_bracket`, `drain_hold` and `drain_break` — what it does with each
  shape a buffer can have;
* `run` — a whole answer, fed piece by piece and finished.
-/

namespace SecondMind

/-! ## The marker grammar -/

/-- One number of a marker: digits, with spaces around them. -/
def markerNumber (part : List Char) : Option Nat :=
  let rest := part.dropWhile isSpace
  let digits := rest.takeWhile isDigit
  if digits ≠ [] ∧ (rest.dropWhile isDigit).all isSpace then some (intOf digits) else none

/-- The part before the first comma, and the part after it. -/
def splitComma (part : List Char) : List Char → List (List Char)
  | [] => [part.reverse]
  | c :: cs => if c = ',' then part.reverse :: splitComma [] cs else splitComma (c :: part) cs

/-- `_MARKER` between its brackets: the numbers of a marker, or none if it is no marker. -/
def markerNumbers (body : List Char) : Option (List Nat) := (splitComma [] body).mapM markerNumber

/-- `[\d,\s]`. -/
def markerChar (c : Char) : Bool := isDigit c || c = ',' || isSpace c

/-! ## The filter -/

structure CitationFilter where
  evidence : Finset Nat
  buffer : List Char := []
  used : List Nat := []
  stripped : Nat := 0
  deriving DecidableEq

/-- `[n]` for each number. -/
def printed (numbers : List Nat) : List Char := numbers.flatMap fun n => '[' :: strOf n ++ [']']

/-- Keep a number that was named, unless it was named before. -/
def mention (used : List Nat) (n : Nat) : List Nat := if n ∈ used then used else used ++ [n]

namespace CitationFilter

/-- What `_marker` does with the numbers of a marker. -/
def read (f : CitationFilter) (numbers : List Nat) : List Char × CitationFilter :=
  let good := numbers.filter (· ∈ f.evidence)
  (printed good, { f with stripped := f.stripped + (numbers.length - good.length)
                          used := good.foldl mention f.used })

/-- `_marker`, of the bracket with this body. -/
def marker (f : CitationFilter) (body : List Char) : List Char × CitationFilter :=
  match markerNumbers body with
  | none => ('[' :: body ++ [']'], f)
  | some numbers => f.read numbers

/-- The loop of `feed`, over the text in the buffer. -/
def drain (f : CitationFilter) (text : List Char) : List Char × CitationFilter :=
  let before := text.takeWhile (· ≠ '[')
  match _h : text.dropWhile (· ≠ '[') with
  | [] => (before, { f with buffer := [] })
  | _ :: more =>
    let body := more.takeWhile (· ≠ ']')
    match _h' : more.dropWhile (· ≠ ']') with
    | [] =>
      if more.length + 1 > 24 ∨ ¬ more.all markerChar then
        let x := drain f more
        (before ++ '[' :: x.1, x.2)
      else (before, { f with buffer := '[' :: more })
    | _ :: after =>
      let y := f.marker body
      let x := drain y.2 after
      (before ++ y.1 ++ x.1, x.2)
  termination_by text.length
  decreasing_by
    · have hle := List.length_dropWhile_le (· ≠ '[') text
      rw [_h, List.length_cons] at hle
      omega
    · have hle := List.length_dropWhile_le (· ≠ '[') text
      have hle' := List.length_dropWhile_le (· ≠ ']') more
      rw [_h, List.length_cons] at hle
      rw [_h', List.length_cons] at hle'
      omega

/-! ### The shapes of a buffer -/

/-- Without a bracket, everything is let out. -/
theorem drain_open (f : CitationFilter) {text : List Char} (h : '[' ∉ text) :
    f.drain text = (text, { f with buffer := [] }) := by
  obtain ⟨htake, hdrop⟩ := cut_of_notMem h
  unfold drain
  split
  · rw [htake]
  · rename_i heq
    rw [hdrop] at heq
    exact (nomatch heq)

/-- A bracket that closes is taken for a marker, or let out as it is. -/
theorem drain_bracket (f : CitationFilter) {before body after : List Char} (h : '[' ∉ before)
    (h' : ']' ∉ body) :
    f.drain (before ++ '[' :: (body ++ ']' :: after)) =
      (before ++ (f.marker body).1 ++ ((f.marker body).2.drain after).1,
        ((f.marker body).2.drain after).2) := by
  obtain ⟨htake, hdrop⟩ := cut_append (body ++ ']' :: after) h
  obtain ⟨htake', hdrop'⟩ := cut_append after h'
  rw [drain]
  split
  · rename_i heq
    rw [hdrop] at heq
    exact (nomatch heq)
  · rename_i heq
    rw [hdrop] at heq
    obtain ⟨-, rfl⟩ := List.cons.inj heq
    split
    · rename_i heq'
      rw [hdrop'] at heq'
      exact (nomatch heq')
    · rename_i heq'
      rw [hdrop'] at heq'
      obtain ⟨-, rfl⟩ := List.cons.inj heq'
      rw [htake, htake']

/-- What an open bracket may hold back. -/
def Holdable (more : List Char) : Prop := more.length + 1 ≤ 24 ∧ more.all markerChar = true

theorem drain_unclosed (f : CitationFilter) {before more : List Char} (h : '[' ∉ before)
    (h' : ']' ∉ more) :
    f.drain (before ++ '[' :: more) =
      if more.length + 1 > 24 ∨ ¬ more.all markerChar then
        (before ++ '[' :: (f.drain more).1, (f.drain more).2)
      else (before, { f with buffer := '[' :: more }) := by
  obtain ⟨htake, hdrop⟩ := cut_append more h
  obtain ⟨-, hdrop'⟩ := cut_of_notMem h'
  rw [drain]
  split
  · rename_i heq
    rw [hdrop] at heq
    exact (nomatch heq)
  · rename_i heq
    rw [hdrop] at heq
    obtain ⟨-, rfl⟩ := List.cons.inj heq
    split
    · rw [htake]
    · rename_i heq'
      rw [hdrop'] at heq'
      exact (nomatch heq')

/-- A short open bracket that may become a marker is held back. -/
theorem drain_hold (f : CitationFilter) {before more : List Char} (h : '[' ∉ before)
    (h' : ']' ∉ more) (hold : Holdable more) :
    f.drain (before ++ '[' :: more) = (before, { f with buffer := '[' :: more }) := by
  rw [drain_unclosed f h h', if_neg]
  rw [not_or, not_lt, Decidable.not_not]
  exact hold

/-- Another open bracket is let out, and what follows it is looked at afresh. -/
theorem drain_break (f : CitationFilter) {before more : List Char} (h : '[' ∉ before)
    (h' : ']' ∉ more) (hbreak : ¬ Holdable more) :
    f.drain (before ++ '[' :: more) = (before ++ '[' :: (f.drain more).1, (f.drain more).2) := by
  rw [drain_unclosed f h h', if_pos]
  rw [Holdable, not_and_or, not_le] at hbreak
  exact hbreak

/-- `feed`. -/
def feed (f : CitationFilter) (text : List Char) : List Char × CitationFilter :=
  drain { f with buffer := [] } (f.buffer ++ text)

/-- `finish`. -/
def finish (f : CitationFilter) : List Char × CitationFilter := (f.buffer, { f with buffer := [] })

/-- What a filter lets out of some deltas, one after the other, and then of the end. -/
def runFrom (f : CitationFilter) : List (List Char) → List Char × CitationFilter
  | [] => f.finish
  | delta :: deltas =>
    let x := f.feed delta
    let y := runFrom x.2 deltas
    (x.1 ++ y.1, y.2)

end CitationFilter

/-- A whole answer. -/
def citationRun (evidence : Finset Nat) (deltas : List (List Char)) : List Char × CitationFilter :=
  CitationFilter.runFrom { evidence := evidence } deltas

end SecondMind
