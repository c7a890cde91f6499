import Mathlib.Data.List.Basic
import Mathlib.Data.List.TakeWhile

/-!
# Characters and numbers in text

What the built-in string operations and regular expressions take a character for, and how an
`int` is read from digits and written with them.

* `isSpace` — the characters of `\s`, of `str.isspace` and of `str.split()`;
* `digitValue` — the decimal digits of every script, which are `\d` and which `int` reads;
* `intOf_strOf` — a number that is written and read again is the number it was.
-/

namespace SecondMind

/-- Texts are compared letter by letter. -/
instance lawfulBEqText : LawfulBEq (List Char) := inferInstance

/-- `str.isspace`, for one character. -/
def isSpace (c : Char) : Bool :=
  c.val ∈ [0x09, 0x0a, 0x0b, 0x0c, 0x0d, 0x1c, 0x1d, 0x1e, 0x1f, 0x20, 0x85, 0xa0, 0x1680,
    0x2000, 0x2001, 0x2002, 0x2003, 0x2004, 0x2005, 0x2006, 0x2007, 0x2008, 0x2009, 0x200a,
    0x2028, 0x2029, 0x202f, 0x205f, 0x3000]

/-! ## Digits -/

/-- The zeros of the scripts that have decimal digits (category `Nd`); the other nine digits
follow each of them. -/
def digitZeros : List Nat :=
  [0x30, 0x660, 0x6f0, 0x7c0, 0x966, 0x9e6, 0xa66, 0xae6, 0xb66, 0xbe6, 0xc66, 0xce6, 0xd66,
    0xde6, 0xe50, 0xed0, 0xf20, 0x1040, 0x1090, 0x17e0, 0x1810, 0x1946, 0x19d0, 0x1a80, 0x1a90,
    0x1b50, 0x1bb0, 0x1c40, 0x1c50, 0xa620, 0xa8d0, 0xa900, 0xa9d0, 0xa9f0, 0xaa50, 0xabf0,
    0xff10, 0x104a0, 0x10d30, 0x11066, 0x110f0, 0x11136, 0x111d0, 0x112f0, 0x11450, 0x114d0,
    0x11650, 0x116c0, 0x11730, 0x118e0, 0x11950, 0x11c50, 0x11d50, 0x11da0, 0x11f50, 0x16a60,
    0x16ac0, 0x16b50, 0x1d7ce, 0x1d7d8, 0x1d7e2, 0x1d7ec, 0x1d7f6, 0x1e140, 0x1e2f0, 0x1e4f0,
    0x1e950, 0x1fbf0]

/-- The value of a decimal digit. -/
def digitValue (c : Char) : Option Nat :=
  (digitZeros.find? fun z => z ≤ c.toNat ∧ c.toNat < z + 10).map fun z => c.toNat - z

/-- `\d`. -/
def isDigit (c : Char) : Bool := (digitValue c).isSome

/-- The digits of `str.isdigit` that are no decimal digits, as first and last of each run. -/
def otherDigits : List (Nat × Nat) :=
  [(0xb2, 0xb3), (0xb9, 0xb9), (0x1369, 0x1371), (0x19da, 0x19da), (0x2070, 0x2070),
    (0x2074, 0x2079), (0x2080, 0x2089), (0x2460, 0x2468), (0x2474, 0x247c), (0x2488, 0x2490),
    (0x24ea, 0x24ea), (0x24f5, 0x24fd), (0x24ff, 0x24ff), (0x2776, 0x277e), (0x2780, 0x2788),
    (0x278a, 0x2792), (0x10a40, 0x10a43), (0x10e60, 0x10e68), (0x11052, 0x1105a),
    (0x1f100, 0x1f10a)]

/-- `str.isdigit`, for one character. -/
def isDigitChar (c : Char) : Bool :=
  isDigit c || otherDigits.any fun run => run.1 ≤ c.toNat ∧ c.toNat ≤ run.2

/-- `int(digits)`. -/
def intOf (digits : List Char) : Nat :=
  digits.foldl (fun n c => 10 * n + (digitValue c).getD 0) 0

/-- A digit of a base, as `int` takes it: a letter counts from ten on. -/
def digitIn (base : Nat) (c : Char) : Option Nat :=
  let value :=
    if 'a' ≤ c ∧ c ≤ 'z' then some (c.toNat - 'a'.toNat + 10)
    else if 'A' ≤ c ∧ c ≤ 'Z' then some (c.toNat - 'A'.toNat + 10)
    else digitValue c
  value.filter (· < base)

/-- Digits with single underscores between them, after the number read so far. -/
def digitsIn (base : Nat) (n : Nat) : List Char → Option Nat
  | [] => some n
  | '_' :: c :: cs => (digitIn base c).bind fun d => digitsIn base (base * n + d) cs
  | c :: cs => (digitIn base c).bind fun d => digitsIn base (base * n + d) cs

/-- `int(text, base)`, for a base of 8, 10 or 16; none is a `ValueError`. -/
def intIn (base : Nat) (text : List Char) : Option Int :=
  let text := (text.dropWhile isSpace).reverse.dropWhile isSpace |>.reverse
  let (sign, text) : Int × List Char :=
    match text with
    | '-' :: cs => (-1, cs)
    | '+' :: cs => (1, cs)
    | cs => (1, cs)
  let digits :=
    match text with
    | '0' :: x :: cs =>
      if base = 16 ∧ (x = 'x' ∨ x = 'X') ∨ base = 8 ∧ (x = 'o' ∨ x = 'O') then
        if cs.head? = some '_' then cs.tail else cs
      else text
    | _ => text
  match digits with
  | [] => none
  | c :: cs => (digitIn base c).bind fun d => (digitsIn base d cs).map (sign * ·)

/-- `str(n)`. -/
def strOf (n : Nat) : List Char := Nat.toDigits 10 n

theorem digitValue_of_isDigit {c : Char} (h : c.isDigit = true) :
    digitValue c = some (c.toNat - '0'.toNat) := by
  have hc : 0x30 ≤ c.toNat ∧ c.toNat < 0x30 + 10 := by
    simp only [Char.isDigit, Bool.and_eq_true, decide_eq_true_eq, UInt32.le_iff_toNat_le] at h
    exact ⟨h.1, Nat.lt_succ_of_le h.2⟩
  unfold digitValue digitZeros
  rw [List.find?_cons_of_pos (by simpa using hc)]
  rfl

theorem isDigit_strOf {n : Nat} {c : Char} (h : c ∈ strOf n) : isDigit c = true := by
  rw [isDigit, digitValue_of_isDigit (Nat.isDigit_of_mem_toDigits (by decide) (by decide) h)]
  rfl

theorem not_isSpace_strOf {n : Nat} {c : Char} (h : c ∈ strOf n) : isSpace c = false := by
  have hdigit : 48 ≤ c.val.toNat ∧ c.val.toNat ≤ 57 := by
    have hd := Nat.isDigit_of_mem_toDigits (by decide) (by decide) h
    simp only [Char.isDigit, Bool.and_eq_true, decide_eq_true_eq, UInt32.le_iff_toNat_le] at hd
    exact hd
  refine decide_eq_false fun hm => ?_
  simp only [List.mem_cons, List.not_mem_nil, or_false, ← UInt32.toNat_inj,
    UInt32.reduceToNat] at hm
  omega

theorem strOf_ne_nil (n : Nat) : strOf n ≠ [] := Nat.toDigits_ne_nil

/-- **Reading back** what was written. -/
theorem intOf_strOf (n : Nat) : intOf (strOf n) = n := by
  have hfold : intOf (strOf n) = Nat.ofDigitChars 10 (Nat.toDigits 10 n) 0 := by
    rw [Nat.ofDigitChars_eq_foldl]
    refine List.foldl_ext _ _ _ fun a c hc => ?_
    have hdigit := Nat.isDigit_of_mem_toDigits (by decide) (by decide) hc
    rw [digitValue_of_isDigit hdigit]
    rfl
  rw [hfold, Nat.ofDigitChars_ten_toDigits]

/-- A number has one way to be written. -/
theorem strOf_injective : Function.Injective strOf := fun m n h => by
  rw [← intOf_strOf m, h, intOf_strOf]

/-! ## Cutting at a character -/

section

variable {c : Char} {cs cs' rest rest' : List Char}

/-- A text without the character is all before it. -/
theorem cut_of_notMem (h : c ∉ cs) :
    cs.takeWhile (· ≠ c) = cs ∧ cs.dropWhile (· ≠ c) = [] := by
  have hall : ∀ d ∈ cs, decide (d ≠ c) = true := fun d hd =>
    decide_eq_true fun e => h (e ▸ hd)
  exact ⟨List.takeWhile_eq_self_iff.2 hall, List.dropWhile_eq_nil_iff.2 hall⟩

/-- A text is cut where the character comes first. -/
theorem cut_append (rest : List Char) (h : c ∉ cs) :
    (cs ++ c :: rest).takeWhile (· ≠ c) = cs ∧ (cs ++ c :: rest).dropWhile (· ≠ c) = c :: rest := by
  have hall : ∀ d ∈ cs, decide (d ≠ c) = true := fun d hd =>
    decide_eq_true fun e => h (e ▸ hd)
  rw [List.takeWhile_append_of_pos hall, List.dropWhile_append_of_pos hall]
  simp

/-- What is left starts with the character. -/
theorem head_of_cut {d : Char} (h : cs.dropWhile (· ≠ c) = d :: rest) :
    d = c ∧ cs = cs.takeWhile (· ≠ c) ++ c :: rest := by
  by_cases hc : c ∈ cs
  · obtain ⟨before, after, rfl, hnot⟩ := List.eq_append_cons_of_mem hc
    rw [(cut_append after hnot).2] at h
    obtain ⟨rfl, rfl⟩ := List.cons.inj h
    rw [(cut_append after hnot).1]
    exact ⟨rfl, rfl⟩
  · rw [(cut_of_notMem hc).2] at h
    exact (nomatch h)

/-- There is one place where the character comes first. -/
theorem cut_inj (h : c ∉ cs) (h' : c ∉ cs') (heq : cs ++ c :: rest = cs' ++ c :: rest') :
    cs = cs' ∧ rest = rest' := by
  have htake := (cut_append rest h).1
  have hdrop := (cut_append rest h).2
  rw [heq, (cut_append rest' h').1] at htake
  rw [heq, (cut_append rest' h').2] at hdrop
  exact ⟨htake.symm, (List.cons.inj hdrop).2.symm⟩

end

/-- A list that was read was read at each of its parts. -/
theorem exists_of_mapM_eq_some {α β : Type} {f : α → Option β} {xs : List α} {ys : List β}
    (h : xs.mapM f = some ys) {x : α} (hx : x ∈ xs) : ∃ y ∈ ys, f x = some y := by
  induction xs generalizing ys with
  | nil => exact absurd hx List.not_mem_nil
  | cons x' xs ih =>
    rw [List.mapM_cons] at h
    obtain ⟨y, hy, h⟩ := Option.bind_eq_some_iff.1 h
    obtain ⟨ys, hys, h⟩ := Option.bind_eq_some_iff.1 h
    cases h
    rcases List.mem_cons.1 hx with rfl | hx
    · exact ⟨y, List.mem_cons_self, hy⟩
    · obtain ⟨z, hz, hxz⟩ := ih hys hx
      exact ⟨z, List.mem_cons_of_mem _ hz, hxz⟩

end SecondMind
