import Mathlib.Data.Rat.Floor
import SecondMind.Core.Result
import SecondMind.Core.Text
import SecondMind.Texts.Base64
import SecondMind.Texts.Replace

/-!
# Session tokens

`auth/sessions.py`: a token is the version, the user id, the second of its expiry and a signature,
with dots between them.  A string of Python may hold lone surrogates, which have no UTF-8; the
digest of `hmac` is given.

* `SessionSigner.sign`, `SessionSigner.verify` — as the source has them;
* `uuidOf_uuidText`, `intIn_strOfInt` — what is read back from a token;
* `signed_of_verify`, `verify_of_signed` — what is accepted is what was signed;
* `verify_exact_iff` — and nothing is raised where the parts can be encoded and compared.
-/

namespace SecondMind

namespace Sessions

open Texts

/-! ## Strings -/

/-- A character of a Python string. -/
inductive PyChar
  | scalar (c : Char)
  | surrogate (n : Fin 2048)
  deriving DecidableEq

abbrev PyStr := List PyChar

/-- A string without surrogates. -/
def pyStr (text : List Char) : PyStr := text.map .scalar

def PyChar.isAscii : PyChar → Bool
  | .scalar c => c.toNat < 128
  | .surrogate _ => false

/-- The characters, if none is a surrogate. -/
def scalars : PyStr → Option (List Char)
  | [] => some []
  | .scalar c :: text => (scalars text).map (c :: ·)
  | .surrogate _ :: _ => none

@[simp] theorem scalars_pyStr (text : List Char) : scalars (pyStr text) = some text := by
  induction text with
  | nil => rfl
  | cons c text ih =>
    rw [pyStr, List.map_cons, scalars]
    exact congrArg (Option.map (c :: ·)) ih

theorem pyStr_of_scalars {text : PyStr} {cs : List Char} (h : scalars text = some cs) :
    text = pyStr cs := by
  induction text generalizing cs with
  | nil =>
    cases h
    rfl
  | cons c text ih =>
    cases c with
    | scalar c =>
      obtain ⟨cs', hcs', rfl⟩ := Option.map_eq_some_iff.1 h
      rw [ih hcs']
      rfl
    | surrogate n => cases h

theorem pyStr_injective : Function.Injective pyStr := fun text text' h => by
  have hscalars := scalars_pyStr text
  rw [h, scalars_pyStr] at hscalars
  exact (Option.some.inj hscalars).symm

/-- What escapes from `verify`. -/
inductive SessionError
  | unicodeEncodeError | typeError
  deriving DecidableEq, Repr

/-- `text.encode("utf-8")`, as the characters that are encoded. -/
def encodable (text : PyStr) : Except SessionError (List Char) :=
  match scalars text with
  | none => .error .unicodeEncodeError
  | some cs => .ok cs

/-- `hmac.compare_digest`, of strings. -/
def compareDigest (a b : PyStr) : Except SessionError Bool :=
  if a.all PyChar.isAscii ∧ b.all PyChar.isAscii then .ok (a = b) else .error .typeError

theorem compareDigest_ascii (a : PyStr) {b : PyStr} (hb : b.all PyChar.isAscii = true) :
    compareDigest a b =
      if a.all PyChar.isAscii = true then .ok (a = b) else .error .typeError := by
  simp [compareDigest, hb]

/-! ## User ids and seconds -/

abbrev UserId := Fin (2 ^ 128)

/-- The last digits of a number, in hexadecimal. -/
def hexOf : Nat → Nat → List Char
  | 0, _ => []
  | k + 1, n => hexOf k (n / 16) ++ [Nat.digitChar (n % 16)]

/-- `str(user_id)`. -/
def uuidText (u : UserId) : List Char :=
  let hex := hexOf 32 u
  List.intercalate ['-'] [hex.take 8, (hex.drop 8).take 4, (hex.drop 12).take 4,
    (hex.drop 16).take 4, hex.drop 20]

/-- `text.strip("\x7b\x7d")`. -/
def stripBraces (text : List Char) : List Char :=
  let brace (c : Char) : Bool := c = '\x7b' ∨ c = '\x7d'
  ((text.dropWhile brace).reverse.dropWhile brace).reverse

/-- `uuid.UUID(text)`; none is a `ValueError`. -/
def uuidOf (text : List Char) : Option UserId :=
  let bare := replace "uuid:".toList [] (replace "urn:".toList [] text)
  let hex := replace ['-'] [] (stripBraces bare)
  if hex.length ≠ 32 then none
  else (intIn 16 hex).bind fun n =>
    if h : n.toNat < 2 ^ 128 ∧ 0 ≤ n then some ⟨n.toNat, h.1⟩ else none

/-- `str(n)`. -/
def strOfInt (n : Int) : List Char := if n < 0 then '-' :: strOf n.natAbs else strOf n.natAbs

/-- `int(x)`, of a float. -/
def truncate (x : Rat) : Int := if 0 ≤ x then x.floor else x.ceil

/-! ### Reading digits back -/

theorem digitsIn_cons {base n : Nat} {c : Char} (h : c ≠ '_') (cs : List Char) :
    digitsIn base n (c :: cs) = (digitIn base c).bind fun d => digitsIn base (base * n + d) cs := by
  cases cs with
  | nil => simp [digitsIn]
  | cons d cs => simp [digitsIn, h]

theorem digitsIn_append {base n : Nat} {cs : List Char} (h : '_' ∉ cs) (ds : List Char) :
    digitsIn base n (cs ++ ds) = (digitsIn base n cs).bind fun m => digitsIn base m ds := by
  induction cs generalizing n with
  | nil => rfl
  | cons c cs ih =>
    rw [List.mem_cons, not_or] at h
    rw [List.cons_append, digitsIn_cons (Ne.symm h.1), digitsIn_cons (Ne.symm h.1),
      Option.bind_assoc]
    congr 1
    funext d
    exact ih h.2

theorem digitIn_hex : ∀ n < 16, digitIn 16 (Nat.digitChar n) = some n := by decide

/-- The letters of hexadecimal digits. -/
def hexLetters : List Char := "0123456789abcdef".toList

theorem digitChar_mem : ∀ n < 16, Nat.digitChar n ∈ hexLetters := by decide

theorem mem_hexOf {k n : Nat} {c : Char} (h : c ∈ hexOf k n) : c ∈ hexLetters := by
  induction k generalizing n with
  | zero => exact absurd h List.not_mem_nil
  | succ k ih =>
    rcases List.mem_append.1 h with h | h
    · exact ih h
    · rw [List.mem_singleton.1 h]
      exact digitChar_mem _ (Nat.mod_lt _ (by decide))

theorem notMem_hexOf {k n : Nat} {c : Char} (h : c ∉ hexLetters) : c ∉ hexOf k n :=
  fun hmem => h (mem_hexOf hmem)

theorem length_hexOf (k n : Nat) : (hexOf k n).length = k := by
  induction k generalizing n with
  | zero => rfl
  | succ k ih => simp [hexOf, ih]

theorem digitsIn_hexOf (k m n : Nat) :
    digitsIn 16 m (hexOf k n) = some (m * 16 ^ k + n % 16 ^ k) := by
  induction k generalizing n with
  | zero => simp [hexOf, digitsIn, Nat.mod_one]
  | succ k ih =>
    have hdigit : n % 16 < 16 := Nat.mod_lt _ (by decide)
    have hletter : Nat.digitChar (n % 16) ≠ '_' := fun heq => by
      have hmem := digitChar_mem _ hdigit
      rw [heq] at hmem
      exact absurd hmem (by decide)
    rw [hexOf, digitsIn_append (notMem_hexOf (by decide)), ih, Option.bind_some,
      digitsIn_cons hletter, digitIn_hex _ hdigit, Option.bind_some, digitsIn]
    congr 1
    have hpow : 16 ^ (k + 1) = 16 * 16 ^ k := by rw [pow_succ, Nat.mul_comm]
    rw [hpow, Nat.mod_mul]
    ring

/-- What `int` reads of digits. -/
theorem intIn_digits {base n : Nat} {cs : List Char} (hspace : ∀ c ∈ cs, isSpace c = false)
    (hplain : ∀ c ∈ cs, c ∉ ['-', '+', '_', 'x', 'X', 'o', 'O']) (hne : cs ≠ [])
    (h : digitsIn base 0 cs = some n) :
    intIn base cs = some (n : Int) ∧ intIn base ('-' :: cs) = some (-(n : Int)) := by
  have hkept : ∀ l : List Char, (∀ c ∈ l, isSpace c = false) → l.dropWhile isSpace = l := by
    intro l hl
    cases l with
    | nil => rfl
    | cons c l => rw [List.dropWhile_cons, if_neg (by simp [hl c List.mem_cons_self])]
  have hstrip : ∀ l : List Char, (∀ c ∈ l, isSpace c = false) →
      ((l.dropWhile isSpace).reverse.dropWhile isSpace).reverse = l := by
    intro l hl
    rw [hkept l hl, hkept l.reverse fun c hc => hl c (List.mem_reverse.1 hc), List.reverse_reverse]
  obtain ⟨c, cs, rfl⟩ := List.exists_cons_of_ne_nil hne
  have hminus : ∀ d ∈ '-' :: c :: cs, isSpace d = false := by
    intro d hd
    rcases List.mem_cons.1 hd with rfl | hd
    · decide
    · exact hspace d hd
  have hc := hplain c List.mem_cons_self
  simp only [List.mem_cons, List.not_mem_nil, or_false, not_or] at hc
  rw [digitsIn_cons hc.2.2.1] at h
  obtain ⟨d, hd, hrest⟩ := Option.bind_eq_some_iff.1 h
  rw [Nat.mul_zero, Nat.zero_add] at hrest
  cases cs with
  | nil => simp [intIn, hstrip _ hspace, hstrip _ hminus, hc, hd, hrest]
  | cons x cs =>
    have hx := hplain x (by simp)
    simp only [List.mem_cons, List.not_mem_nil, or_false, not_or] at hx
    by_cases hzero : c = '0'
    · subst hzero
      simp [intIn, hstrip _ hspace, hstrip _ hminus, hx, hd, hrest]
    · simp [intIn, hstrip _ hspace, hstrip _ hminus, hc, hzero, hd, hrest]

/-! ### Reading an id back -/

theorem replace_singleton (c : Char) (text : List Char) :
    replace [c] [] text = text.filter (· ≠ c) := by
  induction text with
  | nil => rfl
  | cons d text ih =>
    by_cases hd : c = d
    · subst hd
      have hstep := replace_append (List.cons_ne_nil c []) [] text
      rw [List.singleton_append, List.nil_append] at hstep
      rw [hstep, ih]
      simp
    · have hnot : ¬ [c] <+: d :: text := by simp [hd]
      rw [replace_cons hnot, ih]
      simp [Ne.symm hd]

/-- A text in which a letter of another does not occur. -/
theorem replace_absent {old text : List Char} {c : Char} (hold : c ∈ old) (htext : c ∉ text) :
    replace old [] text = text :=
  replace_of_absent (fun hinfix => htext ( hinfix.subset hold)) []

theorem stripBraces_of_notMem {text : List Char} (hopen : '\x7b' ∉ text) (hclose : '\x7d' ∉ text) :
    stripBraces text = text := by
  have hnone : ∀ c ∈ text, ¬ decide (c = '\x7b' ∨ c = '\x7d') = true := by
    intro c hc hbrace
    rcases of_decide_eq_true hbrace with rfl | rfl
    · exact hopen hc
    · exact hclose hc
  have hkept : ∀ l : List Char, (∀ c ∈ l, c ∈ text) →
      l.dropWhile (fun c => decide (c = '\x7b' ∨ c = '\x7d')) = l := by
    intro l hl
    cases l with
    | nil => rfl
    | cons c l => rw [List.dropWhile_cons, if_neg (hnone c (hl c List.mem_cons_self))]
  unfold stripBraces
  simp only [hkept text fun _ h => h, hkept text.reverse fun _ h => List.mem_reverse.1 h,
    List.reverse_reverse]

/-- The letters of an id, and the hyphens between them. -/
theorem mem_uuidText {u : UserId} {c : Char} (h : c ∈ uuidText u) : c = '-' ∨ c ∈ hexLetters := by
  simp only [uuidText, List.intercalate, List.intersperse, List.flatten_cons, List.flatten_nil,
    List.mem_append, List.mem_singleton, List.not_mem_nil, or_false] at h
  have htake : ∀ {m n : Nat}, c ∈ ((hexOf 32 u).drop m).take n → c ∈ hexLetters :=
    fun hmem => mem_hexOf (List.mem_of_mem_drop (List.mem_of_mem_take hmem))
  rcases h with h | rfl | h | rfl | h | rfl | h | rfl | h
  · exact .inr (mem_hexOf (List.mem_of_mem_take h))
  · exact .inl rfl
  · exact .inr (htake h)
  · exact .inl rfl
  · exact .inr (htake h)
  · exact .inl rfl
  · exact .inr (htake h)
  · exact .inl rfl
  · exact .inr (mem_hexOf (List.mem_of_mem_drop h))

theorem notMem_uuidText {u : UserId} {c : Char} (hhyphen : c ≠ '-') (hhex : c ∉ hexLetters) :
    c ∉ uuidText u := fun h => (mem_uuidText h).elim hhyphen hhex

/-- Without the hyphens, the digits are left. -/
theorem filter_uuidText (u : UserId) : (uuidText u).filter (· ≠ '-') = hexOf 32 u := by
  have hkept : ∀ l : List Char, (∀ c ∈ l, c ∈ hexOf 32 u) → l.filter (· ≠ '-') = l := by
    intro l hl
    refine List.filter_eq_self.2 fun c hc => decide_eq_true ?_
    rintro rfl
    exact notMem_hexOf (by decide) (hl _ hc)
  have hmid (m n : Nat) : (((hexOf 32 u).drop m).take n).filter (· ≠ '-') =
      ((hexOf 32 u).drop m).take n :=
    hkept _ fun c hc => List.mem_of_mem_drop (List.mem_of_mem_take hc)
  have hfirst := hkept ((hexOf 32 u).take 8) fun c hc => List.mem_of_mem_take hc
  have hlast := hkept ((hexOf 32 u).drop 20) fun c hc => List.mem_of_mem_drop hc
  have hhyphen : ['-'].filter (· ≠ '-') = [] := by decide
  simp only [uuidText, List.intercalate, List.intersperse, List.flatten_cons, List.flatten_nil,
    List.filter_append, hfirst, hmid, hlast, hhyphen, List.nil_append, List.append_nil]
  have hsplit : ∀ m n : Nat, ((hexOf 32 u).drop m).take n ++ (hexOf 32 u).drop (m + n) =
      (hexOf 32 u).drop m := fun m n => by
    rw [← List.drop_drop, List.take_append_drop]
  rw [hsplit 16 4, hsplit 12 4, hsplit 8 4, List.take_append_drop]

/-- **An id is read back.** -/
theorem uuidOf_uuidText (u : UserId) : uuidOf (uuidText u) = some u := by
  have hcolon : ':' ∉ uuidText u := notMem_uuidText (by decide) (by decide)
  have hbare : replace "uuid:".toList [] (replace "urn:".toList [] (uuidText u)) = uuidText u := by
    rw [replace_absent (c := ':') (by decide) hcolon, replace_absent (c := ':') (by decide) hcolon]
  have hstrip := stripBraces_of_notMem
    (notMem_uuidText (u := u) (c := '\x7b') (by decide) (by decide))
    (notMem_uuidText (c := '\x7d') (by decide) (by decide))
  have hread : digitsIn 16 0 (hexOf 32 u) = some u.val := by
    rw [digitsIn_hexOf, Nat.zero_mul, Nat.zero_add, Nat.mod_eq_of_lt (by omega)]
  have hint : intIn 16 (hexOf 32 u) = some (u.val : Int) := by
    refine (intIn_digits (fun c hc => ?_) (fun c hc => ?_) ?_ hread).1
    · have hletters : (hexLetters.all fun c => !isSpace c) = true := by decide
      simpa using List.all_eq_true.1 hletters c (mem_hexOf hc)
    · have hletters : (hexLetters.all fun c => c ∉ ['-', '+', '_', 'x', 'X', 'o', 'O']) = true := by
        decide
      exact of_decide_eq_true (List.all_eq_true.1 hletters c (mem_hexOf hc))
    · exact List.ne_nil_of_length_pos (by rw [length_hexOf]; decide)
  unfold uuidOf
  simp only [hbare, hstrip, replace_singleton, filter_uuidText, length_hexOf, ne_eq,
    not_true_eq_false, if_false, hint, Option.bind_some]
  rw [dif_pos ⟨by simp, by simp⟩]
  simp

/-- The decimal digits are 48 to 57. -/
theorem mem_strOf {n : Nat} {c : Char} (h : c ∈ strOf n) : 48 ≤ c.toNat ∧ c.toNat ≤ 57 := by
  have hdigit := Nat.isDigit_of_mem_toDigits (by decide) (by decide) h
  simp only [Char.isDigit, Bool.and_eq_true, decide_eq_true_eq, UInt32.le_iff_toNat_le] at hdigit
  exact hdigit

theorem digitsIn_decimal {m : Nat} {cs : List Char} (h : ∀ c ∈ cs, c.isDigit = true) :
    digitsIn 10 m cs = some (Nat.ofDigitChars 10 cs m) := by
  induction cs generalizing m with
  | nil => simp [digitsIn]
  | cons c cs ih =>
    have hc := h c List.mem_cons_self
    have hvalue := digitValue_of_isDigit hc
    simp only [Char.isDigit, Bool.and_eq_true, decide_eq_true_eq, UInt32.le_iff_toNat_le] at hc
    have hbound : 48 ≤ c.toNat ∧ c.toNat ≤ 57 := hc
    have hunderscore : c ≠ '_' := by
      rintro rfl
      exact absurd hbound (by decide)
    have hlower : ¬ ('a' ≤ c ∧ c ≤ 'z') := fun hle => by
      have hlow : 97 ≤ c.toNat := hle.1
      omega
    have hupper : ¬ ('A' ≤ c ∧ c ≤ 'Z') := fun hle => by
      have hlow : 65 ≤ c.toNat := hle.1
      omega
    have hdigit : digitIn 10 c = some (c.toNat - 48) := by
      simp only [digitIn, if_neg hlower, if_neg hupper, hvalue]
      exact Option.filter_eq_some_iff.2 ⟨rfl, decide_eq_true (show c.toNat - 48 < 10 by omega)⟩
    rw [digitsIn_cons hunderscore, hdigit, Option.bind_some, ih fun d hd =>
      h d (List.mem_cons_of_mem _ hd), Nat.ofDigitChars_cons]
    rfl

/-- **A second is read back.** -/
theorem intIn_strOfInt (n : Int) : intIn 10 (strOfInt n) = some n := by
  have hvalue : digitsIn 10 0 (strOf n.natAbs) = some n.natAbs := by
    unfold strOf
    rw [digitsIn_decimal fun c hc => Nat.isDigit_of_mem_toDigits (by decide) (by decide) hc,
      Nat.ofDigitChars_ten_toDigits]
  have hplain : ∀ c ∈ strOf n.natAbs, c ∉ ['-', '+', '_', 'x', 'X', 'o', 'O'] := by
    intro c hc hmem
    have hbound := mem_strOf hc
    simp only [List.mem_cons, List.not_mem_nil, or_false] at hmem
    rcases hmem with rfl | rfl | rfl | rfl | rfl | rfl | rfl <;> exact absurd hbound (by decide)
  have hread := intIn_digits (fun c hc => not_isSpace_strOf hc) hplain (strOf_ne_nil _) hvalue
  unfold strOfInt
  split
  · rw [hread.2]
    congr 1
    omega
  · rw [hread.1]
    congr 1
    omega

/-! ## The signer -/

/-- The bytes of `text.encode("utf-8")`. -/
def utf8 (text : List Char) : List UInt8 := (String.ofList text).toUTF8.data.toList

theorem utf8_injective : Function.Injective utf8 := fun text text' h => by
  have hbytes : (String.ofList text).toUTF8 = (String.ofList text').toUTF8 :=
    ByteArray.ext (Array.toList_inj.1 h)
  exact String.ofList_inj.1 (String.toByteArray_inj.1 hbytes)

structure SessionSigner where
  secret : String
  /-- `__init__` raises a `ValueError` on a shorter secret. -/
  long : 32 ≤ secret.length
  ttl : Int := 30 * 24 * 3600
  purpose : String := ""

namespace SessionSigner

def key (v : SessionSigner) : List UInt8 :=
  utf8 (if v.purpose = "" then v.secret else v.secret ++ "|" ++ v.purpose).toList

def version (v : SessionSigner) : List Char :=
  if v.purpose = "device" then "d1".toList else "v1".toList

section

variable (hmac : List UInt8 → List UInt8 → List UInt8)

/-- `_mac`, of a text that can be encoded. -/
def signature (v : SessionSigner) (text : List Char) : List Char :=
  Base64.encode (hmac v.key (utf8 text))

/-- `_mac`. -/
def mac (v : SessionSigner) (payload : PyStr) : Except SessionError PyStr :=
  (encodable payload).map fun text => pyStr (v.signature hmac text)

/-- The payload that `sign` makes. -/
def payload (v : SessionSigner) (clock : Rat) (user : UserId) : List Char :=
  ['.'].intercalate [v.version, uuidText user, strOfInt (truncate clock + v.ttl)]

def sign (v : SessionSigner) (clock : Rat) (user : UserId) : List Char :=
  let payload := v.payload clock user
  ['.'].intercalate [payload, v.signature hmac payload]

/-- The user and the second of expiry that `verify` reads, where they are not past. -/
def holder (clock : Rat) (user expires : PyStr) : Option UserId := do
  let user ← (scalars user).bind uuidOf
  let expires ← (scalars expires).bind (intIn 10)
  if expires < clock then none else some user

def verify (v : SessionSigner) (clock : Rat) (token : PyStr) :
    Except SessionError (Option UserId) :=
  match token.splitOn (.scalar '.') with
  | [version, user, expires, signature] =>
    if version ≠ pyStr v.version then .ok none
    else do
      let expected ← v.mac hmac ([PyChar.scalar '.'].intercalate [version, user, expires])
      let same ← compareDigest signature expected
      return if same then holder clock user expires else none
  | _ => .ok none

end

end SessionSigner

/-! ## Tokens and their parts -/

theorem pyStr_intercalate (parts : List (List Char)) :
    pyStr (['.'].intercalate parts) = [PyChar.scalar '.'].intercalate (parts.map pyStr) := by
  induction parts with
  | nil => rfl
  | cons part parts ih =>
    cases parts with
    | nil => simp
    | cons part' parts =>
      rw [List.intercalate_cons_cons, List.map_cons, List.map_cons, List.intercalate_cons_cons,
        ← List.map_cons, ← ih]
      simp [pyStr]

theorem mem_pyStr {c : Char} {text : List Char} (h : PyChar.scalar c ∈ pyStr text) : c ∈ text := by
  obtain ⟨d, hd, heq⟩ := List.mem_map.1 h
  cases heq
  exact hd

/-- Parts without dots are found again. -/
theorem splitOn_dotted {parts : List (List Char)} (hdot : ∀ part ∈ parts, '.' ∉ part)
    (hne : parts ≠ []) :
    (pyStr (['.'].intercalate parts)).splitOn (.scalar '.') = parts.map pyStr := by
  rw [pyStr_intercalate, List.splitOn_intercalate]
  · intro part hpart
    obtain ⟨text, htext, rfl⟩ := List.mem_map.1 hpart
    exact fun hmem => hdot text htext (mem_pyStr hmem)
  · simpa using hne

theorem scalars_append (text text' : PyStr) :
    (scalars (text ++ text')).isSome = ((scalars text).isSome && (scalars text').isSome) := by
  induction text with
  | nil => simp [scalars]
  | cons c text ih =>
    cases c with
    | scalar c => simpa [scalars] using ih
    | surrogate n => simp [scalars]

namespace SessionSigner

variable {hmac : List UInt8 → List UInt8 → List UInt8} {v : SessionSigner}

theorem dot_notMem_version (v : SessionSigner) : '.' ∉ v.version := by
  unfold version
  split <;> decide

theorem dot_notMem_signature (v : SessionSigner) (text : List Char) :
    '.' ∉ v.signature hmac text := fun h =>
  absurd (Base64.mem_alphabet_of_mem_encode h) (by decide)

theorem dot_notMem_strOfInt (n : Int) : '.' ∉ strOfInt n := by
  have hdigits : '.' ∉ strOf n.natAbs := fun h => absurd (mem_strOf h) (by decide)
  unfold strOfInt
  split
  · simpa using hdigits
  · exact hdigits

theorem isAscii_signature (v : SessionSigner) (text : List Char) :
    (pyStr (v.signature hmac text)).all PyChar.isAscii = true := by
  refine List.all_eq_true.2 fun c hc => ?_
  obtain ⟨letter, hletter, rfl⟩ := List.mem_map.1 hc
  have halphabet : (Base64.alphabet.all fun c => (PyChar.scalar c).isAscii) = true := by decide
  exact List.all_eq_true.1 halphabet letter (Base64.mem_alphabet_of_mem_encode hletter)

theorem dot_notMem_uuidText (u : UserId) : '.' ∉ uuidText u := by
  have hhex : '.' ∉ hexLetters := by decide
  exact notMem_uuidText (by decide) hhex

/-- A token, as its four parts. -/
theorem sign_eq (v : SessionSigner) (clock : Rat) (user : UserId) :
    v.sign hmac clock user = ['.'].intercalate [v.version, uuidText user,
      strOfInt (truncate clock + v.ttl), v.signature hmac (v.payload clock user)] := by
  simp [sign, payload, List.intercalate_cons_cons]

variable (hmac) in
theorem splitOn_sign (v : SessionSigner) (clock : Rat) (user : UserId) :
    (pyStr (v.sign hmac clock user)).splitOn (.scalar '.') =
      [pyStr v.version, pyStr (uuidText user), pyStr (strOfInt (truncate clock + v.ttl)),
        pyStr (v.signature hmac (v.payload clock user))] := by
  rw [sign_eq, splitOn_dotted ?_ (List.cons_ne_nil _ _)]
  · rfl
  · intro part hpart
    simp only [List.mem_cons, List.not_mem_nil, or_false] at hpart
    rcases hpart with h | h | h | h
    · rw [h]
      exact dot_notMem_version v
    · rw [h]
      exact dot_notMem_uuidText user
    · rw [h]
      exact dot_notMem_strOfInt _
    · rw [h]
      exact dot_notMem_signature v _

/-- What is read back from what was written. -/
theorem holder_written (clock : Rat) (user : UserId) (expires : Int) :
    holder clock (pyStr (uuidText user)) (pyStr (strOfInt expires)) =
      if (expires : Rat) < clock then none else some user := by
  simp [holder, uuidOf_uuidText, intIn_strOfInt]

/-- **`verify`, of four parts with the version first.** -/
theorem verify_parts_iff {token user expires signature : PyStr} {clock : Rat} {r : Option UserId}
    (h : token.splitOn (.scalar '.') = [pyStr v.version, user, expires, signature]) :
    v.verify hmac clock token = .ok r ↔
      ∃ text, [PyChar.scalar '.'].intercalate [pyStr v.version, user, expires] = pyStr text ∧
        signature.all PyChar.isAscii = true ∧
        r = if signature = pyStr (v.signature hmac text) then holder clock user expires
          else none := by
  unfold verify mac encodable
  rw [h]
  simp only [ne_eq, not_true_eq_false, if_false]
  cases htext : scalars ([PyChar.scalar '.'].intercalate [pyStr v.version, user, expires]) with
  | none =>
    refine iff_of_false ?_ ?_
    · intro herror
      cases herror
    · rintro ⟨text, hpayload, -⟩
      rw [hpayload, scalars_pyStr] at htext
      cases htext
  | some text =>
    rw [pyStr_of_scalars htext]
    have hsigned : (pyStr (v.signature hmac text)).all PyChar.isAscii = true :=
      isAscii_signature v text
    have hcompare := compareDigest_ascii signature hsigned
    by_cases hascii : signature.all PyChar.isAscii = true
    · rw [if_pos hascii] at hcompare
      constructor
      · intro hok
        obtain ⟨expected, hexpected, hok⟩ := bind_eq_ok.1 hok
        cases hexpected
        obtain ⟨same, hsame, hok⟩ := bind_eq_ok.1 hok
        rw [hcompare] at hsame
        cases hsame
        cases hok
        exact ⟨text, rfl, hascii, by simp⟩
      · rintro ⟨text', htext', -, rfl⟩
        cases pyStr_injective htext'
        refine bind_eq_ok.2 ⟨_, rfl, bind_eq_ok.2 ⟨_, hcompare, ?_⟩⟩
        simp [pure, Except.pure]
    · rw [if_neg hascii] at hcompare
      refine iff_of_false (fun hok => ?_) fun hright => ?_
      · obtain ⟨expected, hexpected, hok⟩ := bind_eq_ok.1 hok
        cases hexpected
        obtain ⟨same, hsame, -⟩ := bind_eq_ok.1 hok
        rw [hcompare] at hsame
        cases hsame
      · obtain ⟨-, -, hascii', -⟩ := hright
        exact hascii hascii'

variable (v) in
/-- A payload without surrogates. -/
theorem encodable_payload (user expires : PyStr) :
    (scalars ([PyChar.scalar '.'].intercalate [pyStr v.version, user, expires])).isSome =
      ((scalars user).isSome && (scalars expires).isSome) := by
  have hdot : (scalars [PyChar.scalar '.']).isSome = true := rfl
  simp only [List.intercalate_cons_cons, List.intercalate_singleton, scalars_append,
    scalars_pyStr, hdot, Option.isSome_some, Bool.true_and, Bool.and_true]

/-! ## What verify knows -/

/-- A call of `sign`. -/
structure Signing where
  signer : SessionSigner
  clock : Rat
  user : UserId

def Signing.text (s : Signing) : List Char := s.signer.payload s.clock s.user

/-- The code at the end of a token, if it is one of what stands before it, was made by signing:
nobody else has the key. -/
def Unforged (hmac : List UInt8 → List UInt8 → List UInt8) (signings : List Signing) (clock : Rat)
    (token : PyStr) : Prop :=
  ∀ (key : List UInt8) (text : List Char),
    token = pyStr (['.'].intercalate [text, Base64.encode (hmac key (utf8 text))]) →
    ∃ s ∈ signings, s.clock ≤ clock ∧ s.signer.key = key ∧ utf8 s.text = utf8 text

/-- The token of a user, by a signer with this secret and purpose, that has not expired. -/
def Signed (hmac : List UInt8 → List UInt8 → List UInt8) (v : SessionSigner) (clock : Rat)
    (token : PyStr) (user : UserId) : Prop :=
  ∃ earlier ≤ clock, ∃ ttl, token = pyStr ({ v with ttl := ttl }.sign hmac earlier user) ∧
    ¬ ((truncate earlier + ttl : Int) : Rat) < clock

/-- A token that is accepted has four parts, the version first. -/
theorem exists_parts {clock : Rat} {token : PyStr} {user : UserId}
    (h : v.verify hmac clock token = .ok (some user)) :
    ∃ user expires signature,
      token.splitOn (.scalar '.') = [pyStr v.version, user, expires, signature] := by
  unfold verify at h
  split at h
  · rename_i version user expires signature hparts
    by_cases hversion : version = pyStr v.version
    · exact ⟨user, expires, signature, hversion ▸ hparts⟩
    · rw [if_pos hversion] at h
      cases h
  · cases h

/-- What is accepted was signed. -/
theorem signed_of_verify {signings : List Signing} {clock : Rat} {token : PyStr} {user : UserId}
    (hunforged : Unforged hmac signings clock token)
    (h : v.verify hmac clock token = .ok (some user)) : Signed hmac v clock token user := by
  obtain ⟨who, expires, signature, hparts⟩ := exists_parts h
  obtain ⟨text, hpayload, -, hholder⟩ := (verify_parts_iff hparts).1 h
  split at hholder
  case isFalse => cases hholder
  case isTrue hsignature =>
  have htoken : token = pyStr (['.'].intercalate [text, v.signature hmac text]) := by
    have hsplit : [PyChar.scalar '.'].intercalate (token.splitOn (.scalar '.')) = token :=
      List.intercalate_splitOn _
    rw [← hsplit, hparts, pyStr_intercalate]
    simp only [List.map_cons, List.map_nil, ← hpayload, ← hsignature]
    simp [List.intercalate_cons_cons]
  obtain ⟨s, -, hearlier, hkey, hbytes⟩ := hunforged v.key text htoken
  obtain rfl : s.text = text := utf8_injective hbytes
  have hsigned : token = pyStr (s.signer.sign hmac s.clock s.user) := by
    rw [htoken]
    unfold SessionSigner.signature
    rw [← hkey]
    rfl
  -- the parts of the token are those of what was signed
  rw [hsigned, splitOn_sign] at hparts
  simp only [List.cons.injEq, and_true] at hparts
  obtain ⟨hversion, rfl, rfl, -⟩ := hparts
  rw [holder_written] at hholder
  split at hholder
  case isTrue => cases hholder
  case isFalse hlive =>
  cases hholder
  refine ⟨s.clock, hearlier, s.signer.ttl, ?_, hlive⟩
  rw [hsigned]
  have hversion' : s.signer.version = v.version := pyStr_injective hversion
  simp only [sign, payload, SessionSigner.signature, hversion', hkey]
  rfl

/-- What was signed is accepted. -/
theorem verify_of_signed {clock : Rat} {token : PyStr} {user : UserId}
    (h : Signed hmac v clock token user) : v.verify hmac clock token = .ok (some user) := by
  obtain ⟨earlier, -, ttl, rfl, hlive⟩ := h
  have hparts := splitOn_sign hmac { v with ttl := ttl } earlier user
  refine (verify_parts_iff hparts).2 ⟨{ v with ttl := ttl }.payload earlier user, ?_,
    isAscii_signature _ _, ?_⟩
  · rw [payload, pyStr_intercalate]
    rfl
  · rw [holder_written, if_neg hlive]
    exact (if_pos rfl).symm

/-- Whose four parts, where the first is the version, can be encoded and compared. -/
def Readable (v : SessionSigner) (token : PyStr) : Prop :=
  ∀ user expires signature,
    token.splitOn (.scalar '.') = [pyStr v.version, user, expires, signature] →
    (scalars user).isSome ∧ (scalars expires).isSome ∧ signature.all PyChar.isAscii

/-- Where nothing is raised. -/
theorem verify_answers_iff {clock : Rat} {token : PyStr} :
    (∃ r, v.verify hmac clock token = .ok r) ↔ Readable v token := by
  constructor
  · rintro ⟨r, hr⟩ user expires signature hparts
    obtain ⟨text, hpayload, hascii, -⟩ := (verify_parts_iff hparts).1 hr
    have hencodable := encodable_payload v user expires
    rw [hpayload, scalars_pyStr, Option.isSome_some, eq_comm, Bool.and_eq_true] at hencodable
    exact ⟨hencodable.1, hencodable.2, hascii⟩
  · intro hreadable
    by_cases hparts : ∃ user expires signature,
        token.splitOn (.scalar '.') = [pyStr v.version, user, expires, signature]
    · obtain ⟨user, expires, signature, hparts⟩ := hparts
      obtain ⟨huser, hexpires, hascii⟩ := hreadable _ _ _ hparts
      have hencodable := encodable_payload v user expires
      rw [huser, hexpires, Bool.and_self, Option.isSome_iff_exists] at hencodable
      obtain ⟨text, htext⟩ := hencodable
      exact ⟨_, (verify_parts_iff hparts).2 ⟨text, pyStr_of_scalars htext, hascii, rfl⟩⟩
    · refine ⟨none, ?_⟩
      unfold verify
      split
      · rename_i version user expires signature hsplit
        by_cases hversion : version = pyStr v.version
        · exact absurd ⟨user, expires, signature, hversion ▸ hsplit⟩ hparts
        · rw [if_pos hversion]
      · rfl

/-- A token of another version is refused. -/
theorem verify_other_version {d : SessionSigner} (hversion : d.version ≠ v.version) {clock : Rat}
    (earlier : Rat) (user : UserId) :
    v.verify hmac clock (pyStr (d.sign hmac earlier user)) = .ok none := by
  unfold verify
  rw [splitOn_sign]
  exact if_pos fun h => hversion (pyStr_injective h)

/-- What `verify` is for. -/
structure Exact (hmac : List UInt8 → List UInt8 → List UInt8) (v : SessionSigner) (clock : Rat)
    (token : PyStr) : Prop where
  answers : ∃ r, v.verify hmac clock token = .ok r
  knows : ∀ user, v.verify hmac clock token = .ok (some user) ↔ Signed hmac v clock token user
  apart : ∀ d : SessionSigner, d.purpose = "device" → v.purpose ≠ "device" → ∀ earlier user,
    token = pyStr (d.sign hmac earlier user) → v.verify hmac clock token = .ok none

end SessionSigner

open SessionSigner

/-- **What verify knows.** -/
theorem verify_exact_iff {hmac : List UInt8 → List UInt8 → List UInt8} (v : SessionSigner)
    {signings : List Signing} {clock : Rat} {token : PyStr}
    (hunforged : Unforged hmac signings clock token) :
    Exact hmac v clock token ↔ Readable v token := by
  refine ⟨fun h => verify_answers_iff.1 h.answers, fun hreadable =>
    ⟨verify_answers_iff.2 hreadable, fun user =>
      ⟨signed_of_verify hunforged, verify_of_signed⟩, ?_⟩⟩
  rintro d hdevice hsession earlier user rfl
  refine verify_other_version ?_ earlier user
  rw [version, version, if_pos hdevice, if_neg hsession]
  decide

/-! ### A token, and a cookie that is none -/

theorem secret_long : 32 ≤ "aaaaaaaaaaaaaaaaaaaaaaaaaaaaaaaa".length := by decide

def minuteSigner : SessionSigner where
  secret := "aaaaaaaaaaaaaaaaaaaaaaaaaaaaaaaa"
  long := secret_long
  ttl := 60

def firstSigning : Signing := ⟨minuteSigner, 100, 1⟩

/-- HMAC-SHA256, of what is signed here. -/
def digest (key message : List UInt8) : List UInt8 :=
  if key = minuteSigner.key ∧ message = utf8 firstSigning.text then
    [243, 239, 142, 201, 222, 11, 81, 217, 84, 175, 230, 160, 170, 180, 111, 224, 162, 24, 200, 53,
      211, 75, 179, 218, 197, 51, 114, 11, 152, 5, 165, 10]
  else if key = minuteSigner.key ∧ message = utf8 "v1.a.b".toList then
    [86, 7, 35, 121, 15, 149, 59, 143, 173, 76, 75, 84, 181, 87, 84, 233, 121, 181, 180, 238, 234,
      196, 174, 172, 133, 184, 136, 87, 169, 18, 251, 43]
  else []

def firstToken : PyStr := pyStr
  "v1.00000000-0000-0000-0000-000000000001.160.8--Oyd4LUdlUr-agqrRv4KIYyDXTS7PaxTNyC5gFpQo".toList

/-- What a token ends with is of its code. -/
theorem last_mem_code {token : PyStr} {text code : List Char} {c : Char}
    (h : token = pyStr (['.'].intercalate [text, code]))
    (hlast : token.getLast? = some (.scalar c)) (hc : c ≠ '.') : c ∈ code := by
  rw [h] at hlast
  cases code with
  | nil => simp [pyStr, Ne.symm hc] at hlast
  | cons d code =>
    have hcode : (pyStr (d :: code)).getLast? = some (.scalar c) := by
      simpa [pyStr, List.intercalate_cons_cons, List.getLast?_append, List.getLast?_cons] using hlast
    exact mem_pyStr (List.mem_of_getLast? hcode)

theorem unforged_firstToken : Unforged digest [firstSigning] 130 firstToken := by
  intro key text h
  have hcode := last_mem_code (c := 'o') h (by decide +kernel) (by decide)
  by_cases hfirst : key = minuteSigner.key ∧ utf8 text = utf8 firstSigning.text
  · exact ⟨firstSigning, List.mem_singleton_self _, by decide, hfirst.1.symm, hfirst.2.symm⟩
  · rw [digest, if_neg hfirst] at hcode
    split at hcode
    · exact absurd hcode (by decide)
    · exact absurd hcode (by decide)

/-- Half a minute after the signing. -/
theorem firstToken_verifies : Exact digest minuteSigner 130 firstToken ∧
    minuteSigner.verify digest 130 firstToken = .ok (some 1) := by
  have hsigned : firstToken = pyStr (minuteSigner.sign digest 100 1) := by decide +kernel
  refine ⟨(verify_exact_iff minuteSigner unforged_firstToken).2 ?_, by decide +kernel⟩
  intro user expires signature hparts
  rw [hsigned, splitOn_sign] at hparts
  simp only [List.cons.injEq, and_true] at hparts
  obtain ⟨-, rfl, rfl, rfl⟩ := hparts
  exact ⟨by rw [scalars_pyStr]; rfl, by rw [scalars_pyStr]; rfl, isAscii_signature _ _⟩

/-- A cookie in which a letter is accented. -/
def accented : PyStr := pyStr "v1.a.b.é".toList

theorem accented_raises : Unforged digest [] 0 accented ∧
    minuteSigner.verify digest 0 accented = .error .typeError ∧
    ¬ Exact digest minuteSigner 0 accented := by
  have hraised : minuteSigner.verify digest 0 accented = .error .typeError := by decide +kernel
  refine ⟨fun key text h => ?_, hraised, fun hexact => ?_⟩
  · have hcode := last_mem_code (c := 'é') h (by decide +kernel) (by decide)
    exact absurd (Base64.mem_alphabet_of_mem_encode hcode) (by decide)
  · obtain ⟨r, hr⟩ := hexact.answers
    rw [hraised] at hr
    cases hr

end Sessions

end SecondMind
