import Mathlib.Data.List.Basic

/-!
# Backtracking patterns

Regular expressions as a backtracking engine runs them: a pattern tries its ways to match in a
fixed order, and the first way that the rest of the pattern accepts is the match.

* `Pattern.run` — every way a pattern matches from a place on, the preferred ones first;
* `search`, `fullmatch`, `matchStart` — the preferred match anywhere, of the whole text, or at
  its start;
* `sub`, `findAll` — the matches one after the other.

A body that is repeated takes at least one character each time; the texts are lists of characters.
-/

namespace Regex

/-- A pattern.  Groups have numbers. -/
inductive Pattern
  | empty
  /-- One character of a class. -/
  | one (accepts : Char → Bool)
  | seq (p q : Pattern)
  | alt (p q : Pattern)
  /-- At least `least` times and at most `most` times, as often as possible or as rarely. -/
  | rep (least : Nat) (most : Option Nat) (greedy : Bool) (p : Pattern)
  | group (number : Nat) (p : Pattern)
  /-- The start of the text. -/
  | start
  /-- The end of the text, or of its last line. -/
  | stop
  /-- Between a character of the class and one that is not in it. -/
  | edge (word : Char → Bool)
  /-- What follows matches, or does not. -/
  | ahead (positive : Bool) (p : Pattern)

/-- A place in a text: what is before it, backwards, what comes, and the groups that are read. -/
structure Cursor where
  before : List Char
  rest : List Char
  groups : List (Nat × List Char) := []
  deriving DecidableEq

namespace Cursor

/-- The text between two places. -/
def taken (c d : Cursor) : List Char := (d.before.take (d.before.length - c.before.length)).reverse

def record (number : Nat) (c d : Cursor) : Cursor :=
  { d with groups := (number, c.taken d) :: d.groups }

def atEdge (word : Char → Bool) (c : Cursor) : Bool :=
  c.before.head?.any word != c.rest.head?.any word

end Cursor

/-- One way after the other, up to `fuel` times: on before stopping, or stopping first. -/
def iterate (step : Cursor → List Cursor) (greedy : Bool) : Nat → Cursor → List Cursor
  | 0, c => [c]
  | fuel + 1, c =>
    let more := (step c).flatMap fun d =>
      if d.rest.length < c.rest.length then iterate step greedy fuel d else []
    if greedy then more ++ [c] else c :: more

/-- Exactly `n` times. -/
def times (step : Cursor → List Cursor) : Nat → Cursor → List Cursor
  | 0, c => [c]
  | n + 1, c => (step c).flatMap (times step n)

/-- Every way a pattern matches from a place on, the preferred ones first. -/
def Pattern.run : Pattern → Cursor → List Cursor
  | empty, c => [c]
  | one accepts, c =>
    match c.rest with
    | [] => []
    | x :: rest => if accepts x then [{ c with before := x :: c.before, rest := rest }] else []
  | seq p q, c => (p.run c).flatMap q.run
  | alt p q, c => p.run c ++ q.run c
  | rep least most greedy p, c =>
    (times p.run least c).flatMap fun d =>
      iterate p.run greedy (most.elim d.rest.length (· - least)) d
  | group number p, c => (p.run c).map (c.record number)
  | start, c => if c.before = [] then [c] else []
  | stop, c => if c.rest = [] ∨ c.rest = ['\n'] then [c] else []
  | edge word, c => if c.atEdge word then [c] else []
  | ahead positive p, c => if (p.run c).isEmpty = !positive then [c] else []

/-! ## Matches -/

/-- A match: the text before it, what it took, and the text after it. -/
structure Match where
  before : List Char
  taken : List Char
  rest : List Char
  groups : List (Nat × List Char)
  deriving DecidableEq

/-- `match.group(number)`; empty if the group took no part. -/
def Match.group (m : Match) (number : Nat) : List Char := (m.groups.lookup number).getD []

/-- The group took part in the match. -/
def Match.has (m : Match) (number : Nat) : Bool := (m.groups.lookup number).isSome

def Cursor.between (c d : Cursor) : Match where
  before := c.before.reverse
  taken := c.taken d
  rest := d.rest
  groups := d.groups

/-- The preferred match from a place on. -/
def matchAt (p : Pattern) (c : Cursor) : Option Match := (p.run c).head?.map c.between

/-- The preferred match at the start of a text. -/
def matchStart (p : Pattern) (text : List Char) : Option Match := matchAt p { before := [], rest := text }

/-- The preferred match of a whole text. -/
def fullmatch (p : Pattern) (text : List Char) : Option Match :=
  let c : Cursor := { before := [], rest := text }
  ((p.run c).find? (·.rest.isEmpty)).map c.between

/-- The first place from which on the pattern matches. -/
def searchFrom (p : Pattern) (before : List Char) : List Char → Option Match
  | [] => matchAt p { before := before, rest := [] }
  | x :: rest =>
    (matchAt p { before := before, rest := x :: rest }).orElse fun _ =>
      searchFrom p (x :: before) rest

def search (p : Pattern) (text : List Char) : Option Match := searchFrom p [] text

def found (p : Pattern) (text : List Char) : Bool := (search p text).isSome

/-- The matches from a place on, one after the other, each of which takes something; `skip` counts
the characters that the last one took. -/
def matchesFrom (p : Pattern) (before : List Char) : Nat → List Char → List Match
  | _, [] => []
  | skip + 1, x :: rest => matchesFrom p (x :: before) skip rest
  | 0, x :: rest =>
    match matchAt p { before := before, rest := x :: rest } with
    | none => matchesFrom p (x :: before) 0 rest
    | some m =>
      if m.taken = [] then matchesFrom p (x :: before) 0 rest
      else m :: matchesFrom p (x :: before) (m.taken.length - 1) rest

def findAll (p : Pattern) (text : List Char) : List Match := matchesFrom p [] 0 text

/-- Every match replaced; a match takes something. -/
def subFrom (p : Pattern) (by_ : Match → List Char) (before : List Char) :
    Nat → List Char → List Char
  | _, [] => []
  | skip + 1, x :: rest => subFrom p by_ (x :: before) skip rest
  | 0, x :: rest =>
    match matchAt p { before := before, rest := x :: rest } with
    | none => x :: subFrom p by_ (x :: before) 0 rest
    | some m =>
      if m.taken = [] then x :: subFrom p by_ (x :: before) 0 rest
      else by_ m ++ subFrom p by_ (x :: before) (m.taken.length - 1) rest

def sub (p : Pattern) (by_ : Match → List Char) (text : List Char) : List Char :=
  subFrom p by_ [] 0 text

/-! ## Writing patterns -/

namespace Pattern

/-- One pattern after the other. -/
def all : List Pattern → Pattern
  | [] => empty
  | [p] => p
  | p :: ps => seq p (all ps)

/-- One of the patterns, the first that matches. -/
def any : List Pattern → Pattern
  | [] => one fun _ => false
  | [p] => p
  | p :: ps => alt p (any ps)

/-- A text, letter by letter. -/
def chars (text : List Char) : Pattern := all (text.map fun c => one (· = c))

def text (s : String) : Pattern := chars s.toList

/-- One of the texts. -/
def texts (ss : List String) : Pattern := any (ss.map text)

def opt (p : Pattern) : Pattern := rep 0 (some 1) true p

def star (p : Pattern) : Pattern := rep 0 none true p

def plus (p : Pattern) : Pattern := rep 1 none true p

/-- `{least,most}`. -/
def between (least most : Nat) (p : Pattern) : Pattern := rep least (some most) true p

end Pattern

end Regex
