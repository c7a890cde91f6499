import Mathlib.Data.List.Basic
import Mathlib.Logic.Function.Basic

/-!
# Base64 for names and addresses

Three bytes as four letters, with `-` and `_` as the last two of the alphabet, and without the
padding at the end.

* `encode` — the letters of bytes;
* `encode_injective` — no two byte strings have the same letters;
* `mem_alphabet_of_mem_encode` — all letters are of the alphabet.
-/

namespace Texts.Base64

/-- The letters, in their order. -/
def alphabet : List Char :=
  "ABCDEFGHIJKLMNOPQRSTUVWXYZabcdefghijklmnopqrstuvwxyz0123456789-_".toList

/-- The letter of six bits. -/
def letter (n : Nat) : Char := alphabet[n]?.getD 'A'

/-- The letters of bytes. -/
def encode : List UInt8 → List Char
  | a :: b :: c :: rest =>
    letter (a.toNat / 4) :: letter (a.toNat % 4 * 16 + b.toNat / 16) ::
      letter (b.toNat % 16 * 4 + c.toNat / 64) :: letter (c.toNat % 64) :: encode rest
  | [a, b] =>
    [letter (a.toNat / 4), letter (a.toNat % 4 * 16 + b.toNat / 16), letter (b.toNat % 16 * 4)]
  | [a] => [letter (a.toNat / 4), letter (a.toNat % 4 * 16)]
  | [] => []

theorem idxOf_letter : ∀ n < 64, alphabet.idxOf (letter n) = n := by decide

/-- A letter stands for one number. -/
theorem letter_inj {m n : Nat} (hm : m < 64) (hn : n < 64) (h : letter m = letter n) : m = n := by
  rw [← idxOf_letter m hm, h, idxOf_letter n hn]

theorem letter_mem (n : Nat) : letter n ∈ alphabet := by
  unfold letter
  cases h : alphabet[n]? with
  | none => decide
  | some c => exact List.mem_of_getElem? h

theorem mem_alphabet_of_mem_encode {bytes : List UInt8} {c : Char} (h : c ∈ encode bytes) :
    c ∈ alphabet := by
  fun_induction encode bytes with
  | case1 x y z rest ih =>
    simp only [List.mem_cons] at h
    rcases h with rfl | rfl | rfl | rfl | h
    · exact letter_mem _
    · exact letter_mem _
    · exact letter_mem _
    · exact letter_mem _
    · exact ih h
  | case2 x y =>
    simp only [List.mem_cons, List.not_mem_nil, or_false] at h
    rcases h with rfl | rfl | rfl <;> exact letter_mem _
  | case3 x =>
    simp only [List.mem_cons, List.not_mem_nil, or_false] at h
    rcases h with rfl | rfl <;> exact letter_mem _
  | case4 => exact absurd h List.not_mem_nil

/-- The first byte, by its two letters. -/
theorem first_inj {a b x y : UInt8} (h : letter (a.toNat / 4) = letter (x.toNat / 4))
    (h' : letter (a.toNat % 4 * 16 + b.toNat / 16) = letter (x.toNat % 4 * 16 + y.toNat / 16)) :
    a = x ∧ b.toNat / 16 = y.toNat / 16 := by
  have ha := a.toNat_lt
  have hb := b.toNat_lt
  have hx := x.toNat_lt
  have hy := y.toNat_lt
  have hhigh := letter_inj (by omega) (by omega) h
  have hlow := letter_inj (by omega) (by omega) h'
  exact ⟨UInt8.toNat_inj.1 (by omega), by omega⟩

/-- **The letters tell the bytes.** -/
theorem encode_injective : Function.Injective encode := by
  intro bytes bytes' h
  induction bytes using encode.induct generalizing bytes' with
  | case1 x y z rest ih =>
    rcases bytes' with _ | ⟨x', _ | ⟨y', _ | ⟨z', rest'⟩⟩⟩
    · simp [encode] at h
    · simp [encode] at h
    · simp [encode] at h
    · simp only [encode, List.cons.injEq] at h
      obtain ⟨h₁, h₂, h₃, h₄, hrest⟩ := h
      have hy := y.toNat_lt
      have hy' := y'.toNat_lt
      have hz := z.toNat_lt
      have hz' := z'.toNat_lt
      obtain ⟨rfl, hyhigh⟩ := first_inj h₁ h₂
      have hmid := letter_inj (by omega) (by omega) h₃
      have hlast := letter_inj (by omega) (by omega) h₄
      obtain rfl : y = y' := UInt8.toNat_inj.1 (by omega)
      obtain rfl : z = z' := UInt8.toNat_inj.1 (by omega)
      rw [ih hrest]
  | case2 x y =>
    rcases bytes' with _ | ⟨x', _ | ⟨y', _ | ⟨z', rest'⟩⟩⟩
    · simp [encode] at h
    · simp [encode] at h
    · simp only [encode, List.cons.injEq, and_true] at h
      obtain ⟨h₁, h₂, h₃⟩ := h
      have hy := y.toNat_lt
      have hy' := y'.toNat_lt
      obtain ⟨rfl, hyhigh⟩ := first_inj h₁ h₂
      have hmid := letter_inj (by omega) (by omega) h₃
      obtain rfl : y = y' := UInt8.toNat_inj.1 (by omega)
      rfl
    · simp [encode] at h
  | case3 x =>
    rcases bytes' with _ | ⟨x', _ | ⟨y', _ | ⟨z', rest'⟩⟩⟩
    · simp [encode] at h
    · simp only [encode, List.cons.injEq, and_true] at h
      obtain ⟨h₁, h₂⟩ := h
      have hx := x.toNat_lt
      have hx' := x'.toNat_lt
      have hhigh := letter_inj (by omega) (by omega) h₁
      have hlow := letter_inj (by omega) (by omega) h₂
      obtain rfl : x = x' := UInt8.toNat_inj.1 (by omega)
      rfl
    · simp [encode] at h
    · simp [encode] at h
  | case4 =>
    rcases bytes' with _ | ⟨x', _ | ⟨y', _ | ⟨z', rest'⟩⟩⟩
    · rfl
    · simp [encode] at h
    · simp [encode] at h
    · simp [encode] at h

end Texts.Base64
