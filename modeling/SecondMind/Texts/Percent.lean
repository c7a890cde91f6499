import Mathlib.Data.List.DropRight

/-!
# Percent-encoded text

`quote`, `unquote`, `parse_qsl` and `urlencode` of `urllib.parse`, for UTF-8: a text as bytes, a
byte as itself or as `%` with two digits, and pairs of texts as a query.

* `unquote_quote` — what was quoted reads back as it was;
* `parseQsl_urlencode` — so do the pairs of a query;
* `rdropWhile_quote` — a safe letter at the end of a text is one at the end of the quoted text.
-/

namespace Texts

/-! ## Bytes -/

def encodeUtf8 (text : List Char) : List UInt8 := text.flatMap String.utf8EncodeChar

/-- The bytes that may follow a first byte: the range of the second, and how many there are. -/
def following (first : UInt8) : UInt8 × UInt8 × Nat :=
  if 0xc2 ≤ first ∧ first ≤ 0xdf then (0x80, 0xbf, 1)
  else if first = 0xe0 then (0xa0, 0xbf, 2)
  else if first = 0xed then (0x80, 0x9f, 2)
  else if 0xe1 ≤ first ∧ first ≤ 0xef then (0x80, 0xbf, 2)
  else if first = 0xf0 then (0x90, 0xbf, 3)
  else if first = 0xf4 then (0x80, 0x8f, 3)
  else if 0xf1 ≤ first ∧ first ≤ 0xf3 then (0x80, 0xbf, 3)
  else (0, 0, 0)

/-- How many bytes at the start of an invalid text one replacement character stands for. -/
def badLength : List UInt8 → Nat
  | [] => 0
  | [_] => 1
  | first :: second :: rest =>
    let (low, high, more) := following first
    if 0 < more ∧ low ≤ second ∧ second ≤ high then
      2 + ((rest.take (more - 1)).takeWhile fun b => 0x80 ≤ b ∧ b ≤ 0xbf).length
    else 1

/-- `bytes.decode("utf-8", "replace")`, for at most so many characters. -/
def decodeFrom : Nat → List UInt8 → List Char
  | 0, _ => []
  | _ + 1, [] => []
  | n + 1, bytes =>
    match bytes.toByteArray.utf8DecodeChar? 0 with
    | some c => c :: decodeFrom n (bytes.drop c.utf8Size)
    | none => '\ufffd' :: decodeFrom n (bytes.drop (badLength bytes))

/-- `bytes.decode("utf-8", "replace")`. -/
def decodeUtf8 (bytes : List UInt8) : List Char := decodeFrom bytes.length bytes

theorem decodeFrom_encode (text : List Char) {n : Nat} (h : (encodeUtf8 text).length ≤ n) :
    decodeFrom n (encodeUtf8 text) = text := by
  induction text generalizing n with
  | nil => cases n <;> rfl
  | cons c text ih =>
    have hcons : encodeUtf8 (c :: text) = String.utf8EncodeChar c ++ encodeUtf8 text := rfl
    have hpos := c.utf8Size_pos
    rw [hcons, List.length_append, String.length_utf8EncodeChar] at h
    obtain ⟨n, rfl⟩ := Nat.exists_eq_succ_of_ne_zero (by omega : n ≠ 0)
    have hdecode :
        (String.utf8EncodeChar c ++ encodeUtf8 text).toByteArray.utf8DecodeChar? 0 = some c := by
      rw [List.toByteArray_append]
      exact ByteArray.utf8DecodeChar?_utf8EncodeChar_append
    have hdrop : (String.utf8EncodeChar c ++ encodeUtf8 text).drop c.utf8Size = encodeUtf8 text :=
      List.drop_left' (String.length_utf8EncodeChar c)
    obtain ⟨b, bytes, hbytes⟩ := List.exists_cons_of_ne_nil
      (List.length_pos_iff.1 (hpos.trans_eq (String.length_utf8EncodeChar c).symm))
    rw [hcons]
    rw [hbytes] at hdecode hdrop ⊢
    rw [List.cons_append, decodeFrom]
    · rw [List.cons_append] at hdecode hdrop
      rw [hdecode]
      simp only
      rw [hdrop, ih (by omega)]
    · exact List.cons_ne_nil _ _

/-- **Decoding** what was encoded. -/
theorem decodeUtf8_encodeUtf8 (text : List Char) : decodeUtf8 (encodeUtf8 text) = text :=
  decodeFrom_encode text le_rfl

/-! ## Bytes as letters -/

/-- `0` to `9` and `A` to `F`. -/
def hexDigit (n : Nat) : Char := Char.ofNat (if n < 10 then n + 48 else n + 55)

/-- A hexadecimal digit in either case. -/
def hexValue (c : Char) : Option Nat :=
  if '0' ≤ c ∧ c ≤ '9' then some (c.toNat - 48)
  else if 'A' ≤ c ∧ c ≤ 'F' then some (c.toNat - 55)
  else if 'a' ≤ c ∧ c ≤ 'f' then some (c.toNat - 87)
  else none

def percent (b : UInt8) : List Char := ['%', hexDigit (b.toNat / 16), hexDigit (b.toNat % 16)]

/-- The letters that are never quoted. -/
def alwaysSafe (c : Char) : Bool := c.isAlphanum ∨ c ∈ ['_', '.', '-', '~']

/-- A byte, as itself if it is a safe letter. -/
def quoteByte (safe : List Char) (b : UInt8) : List Char :=
  let c := Char.ofNat b.toNat
  if b < 128 ∧ (alwaysSafe c ∨ c ∈ safe) then [c] else percent b

/-- `quote(text, safe)`. -/
def quote (safe text : List Char) : List Char := (encodeUtf8 text).flatMap (quoteByte safe)

/-- `unquote_to_bytes(text)`, for a text of ASCII. -/
def unquoteBytes : List Char → List UInt8
  | [] => []
  | '%' :: a :: b :: text =>
    match hexValue a, hexValue b with
    | some x, some y => UInt8.ofNat (16 * x + y) :: unquoteBytes text
    | _, _ => 0x25 :: unquoteBytes (a :: b :: text)
  | c :: text => UInt8.ofNat c.toNat :: unquoteBytes text

/-- `unquote`, after so much of a run of ASCII: each run is decoded on its own. -/
def unquoteFrom (run : List Char) : List Char → List Char
  | [] => decodeUtf8 (unquoteBytes run)
  | c :: text =>
    if c.toNat < 128 then unquoteFrom (run ++ [c]) text
    else decodeUtf8 (unquoteBytes run) ++ c :: unquoteFrom [] text

/-- `unquote(text)`. -/
def unquote (text : List Char) : List Char := unquoteFrom [] text

theorem toNat_ofNat : ∀ n < 128, (Char.ofNat n).toNat = n := by decide

theorem unquoteFrom_ascii {text : List Char} (h : ∀ c ∈ text, c.toNat < 128) (run : List Char) :
    unquoteFrom run text = decodeUtf8 (unquoteBytes (run ++ text)) := by
  induction text generalizing run with
  | nil => rw [unquoteFrom, List.append_nil]
  | cons c text ih =>
    rw [unquoteFrom, if_pos (h c List.mem_cons_self),
      ih (fun d hd => h d (List.mem_cons_of_mem _ hd)), List.append_assoc, List.singleton_append]

theorem hexDigit_spec :
    ∀ n < 16, hexValue (hexDigit n) = some n ∧ alwaysSafe (hexDigit n) = true := by
  decide

/-- A byte that was written with two digits is read. -/
theorem unquoteBytes_percent (b : UInt8) (text : List Char) :
    unquoteBytes (percent b ++ text) = b :: unquoteBytes text := by
  have hb : b.toNat < 256 := b.toNat_lt
  have hhigh := (hexDigit_spec (b.toNat / 16) (by omega)).1
  have hlow := (hexDigit_spec (b.toNat % 16) (by omega)).1
  have hsum : 16 * (b.toNat / 16) + b.toNat % 16 = b.toNat := Nat.div_add_mod _ _
  rw [percent]
  simp only [List.cons_append, List.nil_append]
  rw [unquoteBytes, hhigh, hlow]
  simp only [hsum, UInt8.ofNat_toNat]

theorem unquoteBytes_cons {c : Char} (h : c ≠ '%') (text : List Char) :
    unquoteBytes (c :: text) = UInt8.ofNat c.toNat :: unquoteBytes text := by
  rw [unquoteBytes]
  intro a b text' hc
  exact absurd hc h

theorem unquoteBytes_quoteByte {safe : List Char} (hsafe : '%' ∉ safe) (b : UInt8)
    (text : List Char) : unquoteBytes (quoteByte safe b ++ text) = b :: unquoteBytes text := by
  unfold quoteByte
  simp only
  split
  · rename_i h
    have hne : Char.ofNat b.toNat ≠ '%' := by
      intro he
      rw [he] at h
      exact h.2.elim (by decide) (fun hmem => hsafe hmem)
    have hlt : b.toNat < 128 := h.1
    have hvalue := toNat_ofNat b.toNat hlt
    rw [List.singleton_append, unquoteBytes_cons hne, hvalue, UInt8.ofNat_toNat]
  · exact unquoteBytes_percent b text

theorem unquoteBytes_quote {safe : List Char} (hsafe : '%' ∉ safe) (bytes : List UInt8) :
    unquoteBytes (bytes.flatMap (quoteByte safe)) = bytes := by
  induction bytes with
  | nil => rfl
  | cons b bytes ih => rw [List.flatMap_cons, unquoteBytes_quoteByte hsafe, ih]

/-- The letters of a quoted byte. -/
theorem mem_quoteByte {safe : List Char} {b : UInt8} {c : Char} (h : c ∈ quoteByte safe b) :
    c.toNat < 128 ∧ (c = '%' ∨ alwaysSafe c = true ∨ c ∈ safe) := by
  unfold quoteByte at h
  simp only at h
  have hdigit : ∀ n < 16, (hexDigit n).toNat < 128 := by decide
  split at h
  · rename_i hb
    have hlt : b.toNat < 128 := hb.1
    have hvalue := toNat_ofNat b.toNat hlt
    rw [List.mem_singleton.1 h]
    exact ⟨hvalue.trans_lt hlt, .inr hb.2⟩
  · have hb : b.toNat < 256 := b.toNat_lt
    simp only [percent, List.mem_cons, List.not_mem_nil, or_false] at h
    rcases h with rfl | rfl | rfl
    · exact ⟨by decide, .inl rfl⟩
    · exact ⟨hdigit _ (by omega), .inr (.inl (hexDigit_spec _ (by omega)).2)⟩
    · exact ⟨hdigit _ (by omega), .inr (.inl (hexDigit_spec _ (by omega)).2)⟩

theorem mem_quote {safe text : List Char} {c : Char} (h : c ∈ quote safe text) :
    c.toNat < 128 ∧ (c = '%' ∨ alwaysSafe c = true ∨ c ∈ safe) := by
  obtain ⟨b, -, hc⟩ := List.mem_flatMap.1 h
  exact mem_quoteByte hc

/-- **Reading back** what was quoted. -/
theorem unquote_quote {safe : List Char} (hsafe : '%' ∉ safe) (text : List Char) :
    unquote (quote safe text) = text := by
  rw [unquote, unquoteFrom_ascii (fun c hc => (mem_quote hc).1), List.nil_append, quote,
    unquoteBytes_quote hsafe, decodeUtf8_encodeUtf8]

/-! ## The end of a text -/

theorem quote_append (safe text text' : List Char) :
    quote safe (text ++ text') = quote safe text ++ quote safe text' := by
  simp only [quote, encodeUtf8, List.flatMap_append]

/-- A byte of ASCII is all that its letter is encoded as. -/
theorem eq_of_mem_utf8EncodeChar {c : Char} {b : UInt8} (h : b ∈ String.utf8EncodeChar c)
    (hb : b.toNat < 128) : Char.ofNat b.toNat = c := by
  have hvalue : ∀ n, 128 ≤ n → n < 256 → b = UInt8.ofNat n → False := by
    rintro n hlow hhigh rfl
    rw [UInt8.toNat_ofNat', Nat.mod_eq_of_lt hhigh] at hb
    omega
  unfold String.utf8EncodeChar at h
  simp only at h
  split at h
  · rename_i hle
    rw [List.mem_singleton.1 h, UInt8.toNat_ofNat', Nat.mod_eq_of_lt (by omega)]
    exact Char.ofNat_toNat c
  · split at h
    · simp only [List.mem_cons, List.not_mem_nil, or_false] at h
      rcases h with h | h <;> exact (hvalue _ (by omega) (by omega) h).elim
    · split at h
      · simp only [List.mem_cons, List.not_mem_nil, or_false] at h
        rcases h with h | h | h <;> exact (hvalue _ (by omega) (by omega) h).elim
      · simp only [List.mem_cons, List.not_mem_nil, or_false] at h
        rcases h with h | h | h | h <;> exact (hvalue _ (by omega) (by omega) h).elim

section

variable {safe : List Char} {c d : Char}

/-- A safe letter of ASCII is quoted as itself. -/
theorem quote_of_safe (hascii : c.toNat < 128) (h : alwaysSafe c = true ∨ c ∈ safe) :
    quote safe [c] = [c] := by
  have hencode : encodeUtf8 [c] = [UInt8.ofNat c.toNat] := by
    rw [encodeUtf8, List.flatMap_singleton]
    exact if_pos (Nat.le_of_lt_succ hascii)
  have hvalue : (UInt8.ofNat c.toNat).toNat = c.toNat := by
    rw [UInt8.toNat_ofNat', Nat.mod_eq_of_lt (by omega)]
  have hlt : UInt8.ofNat c.toNat < 128 := by
    rw [UInt8.lt_iff_toNat_lt, hvalue]
    exact hascii
  rw [quote, hencode, List.flatMap_singleton, quoteByte]
  simp only [hvalue, Char.ofNat_toNat]
  exact if_pos ⟨hlt, h⟩

/-- A letter that only a safe list keeps from being quoted comes from itself. -/
theorem eq_of_mem_quote (hd : alwaysSafe d = false) (hpercent : d ≠ '%')
    (h : d ∈ quote safe [c]) : d = c := by
  obtain ⟨b, hb, hmem⟩ := List.mem_flatMap.1 h
  rw [encodeUtf8, List.flatMap_singleton] at hb
  unfold quoteByte at hmem
  simp only at hmem
  split at hmem
  · rename_i hsafe
    rw [List.mem_singleton.1 hmem]
    exact eq_of_mem_utf8EncodeChar hb hsafe.1
  · have hlt : b.toNat < 256 := b.toNat_lt
    simp only [percent, List.mem_cons, List.not_mem_nil, or_false] at hmem
    rcases hmem with rfl | rfl | rfl
    · exact absurd rfl hpercent
    · exact absurd ((hexDigit_spec _ (by omega)).2.symm.trans hd) (by decide)
    · exact absurd ((hexDigit_spec _ (by omega)).2.symm.trans hd) (by decide)

theorem quote_singleton_ne_nil (safe : List Char) (c : Char) : quote safe [c] ≠ [] := by
  intro h
  have hlength := String.length_utf8EncodeChar c
  have hpos := c.utf8Size_pos
  rw [quote, encodeUtf8, List.flatMap_singleton, List.flatMap_eq_nil_iff] at h
  obtain ⟨b, hb⟩ := List.exists_mem_of_length_pos (by omega : 0 < (String.utf8EncodeChar c).length)
  have hnil := h b hb
  unfold quoteByte percent at hnil
  simp only at hnil
  split at hnil <;> cases hnil

/-- **The end of a quoted text**: a letter that a safe list keeps is at the end as often as it was
at the end of the text. -/
theorem rdropWhile_quote (hascii : d.toNat < 128) (hsafe : d ∈ safe) (hd : alwaysSafe d = false)
    (hpercent : d ≠ '%') (text : List Char) :
    (quote safe text).rdropWhile (· = d) = quote safe (text.rdropWhile (· = d)) := by
  induction text using List.reverseRecOn with
  | nil => rfl
  | append_singleton text c ih =>
    by_cases hc : c = d
    · rw [hc, quote_append, quote_of_safe hascii (.inr hsafe),
        List.rdropWhile_concat_pos _ _ _ (by simp), List.rdropWhile_concat_pos _ _ _ (by simp), ih]
    · rw [List.rdropWhile_concat_neg _ _ _ (by simpa using hc), List.rdropWhile_eq_self_iff,
        quote_append]
      intro hne
      rw [List.getLast_append_of_ne_nil _ (quote_singleton_ne_nil safe c)]
      have hmem := List.getLast_mem (quote_singleton_ne_nil safe c)
      simp only [decide_eq_true_eq]
      intro he
      rw [he] at hmem
      exact hc (eq_of_mem_quote hd hpercent hmem).symm

end

/-! ## Queries -/

/-- `quote_plus(text)`. -/
def quotePlus (text : List Char) : List Char :=
  (quote [' '] text).map fun c => if c = ' ' then '+' else c

/-- `unquote_plus(text)`. -/
def unquotePlus (text : List Char) : List Char :=
  unquote (text.map fun c => if c = '+' then ' ' else c)

/-- `urlencode(pairs)`. -/
def urlencode (pairs : List (List Char × List Char)) : List Char :=
  ['&'].intercalate (pairs.map fun e => quotePlus e.1 ++ '=' :: quotePlus e.2)

/-- `parse_qsl(text, keep_blank_values=True)`. -/
def parseQsl (text : List Char) : List (List Char × List Char) :=
  (text.splitOn '&').filterMap fun part =>
    if part = [] then none
    else some (unquotePlus (part.takeWhile (· ≠ '=')), unquotePlus (part.dropWhile (· ≠ '=')).tail)

theorem unquotePlus_quotePlus (text : List Char) : unquotePlus (quotePlus text) = text := by
  rw [unquotePlus, quotePlus, List.map_map]
  have hid : ∀ c ∈ quote [' '] text,
      ((fun c => if c = '+' then ' ' else c) ∘ fun c => if c = ' ' then '+' else c) c = c := by
    intro c hc
    have hplus : c ≠ '+' := by
      rintro rfl
      exact absurd (mem_quote hc).2 (by decide)
    by_cases hspace : c = ' '
    · simp [hspace]
    · simp [hspace, hplus]
  rw [List.map_congr_left hid, List.map_id', unquote_quote (by decide)]

theorem mem_quotePlus {text : List Char} {c : Char} (h : c ∈ quotePlus text) :
    c = '%' ∨ c = '+' ∨ alwaysSafe c = true := by
  obtain ⟨d, hd, rfl⟩ := List.mem_map.1 h
  rcases (mem_quote hd).2 with rfl | hsafe | hspace
  · exact .inl rfl
  · split
    · exact .inr (.inl rfl)
    · exact .inr (.inr hsafe)
  · rw [List.mem_singleton.1 hspace]
    exact .inr (.inl rfl)

theorem notMem_quotePlus {c : Char} (hpercent : c ≠ '%') (hplus : c ≠ '+')
    (hsafe : alwaysSafe c = false) (text : List Char) : c ∉ quotePlus text := by
  intro h
  rcases mem_quotePlus h with h | h | h
  · exact hpercent h
  · exact hplus h
  · exact absurd (h.symm.trans hsafe) (by decide)

theorem mem_urlencode {pairs : List (List Char × List Char)} {c : Char} (h : c ∈ urlencode pairs) :
    c ∈ ['&', '=', '%', '+'] ∨ alwaysSafe c = true := by
  have hplus : ∀ {text}, c ∈ quotePlus text → c ∈ ['&', '=', '%', '+'] ∨ alwaysSafe c = true := by
    intro text hc
    rcases mem_quotePlus hc with rfl | rfl | hsafe
    · exact .inl (by decide)
    · exact .inl (by decide)
    · exact .inr hsafe
  rw [urlencode] at h
  induction pairs with
  | nil => cases h
  | cons e pairs ih =>
    have hone : c ∈ quotePlus e.1 ++ '=' :: quotePlus e.2 →
        c ∈ ['&', '=', '%', '+'] ∨ alwaysSafe c = true := by
      intro hc
      rcases List.mem_append.1 hc with hc | hc
      · exact hplus hc
      · rcases List.mem_cons.1 hc with rfl | hc
        · exact .inl (by decide)
        · exact hplus hc
    cases pairs with
    | nil => exact hone (by simpa using h)
    | cons e' pairs =>
      rw [List.map_cons, List.map_cons, List.intercalate_cons_cons, List.append_assoc] at h
      rcases List.mem_append.1 h with h | h
      · exact hone h
      · rcases List.mem_append.1 h with h | h
        · rw [List.mem_singleton.1 h]
          exact .inl (by decide)
        · exact ih h

/-- **Reading back** a query. -/
theorem parseQsl_urlencode (pairs : List (List Char × List Char)) :
    parseQsl (urlencode pairs) = pairs := by
  cases pairs with
  | nil => rfl
  | cons e pairs =>
    have hamp : ∀ text, '&' ∉ quotePlus text :=
      notMem_quotePlus (by decide) (by decide) (by decide)
    have hequals : ∀ text, '=' ∉ quotePlus text :=
      notMem_quotePlus (by decide) (by decide) (by decide)
    rw [parseQsl, urlencode, List.splitOn_intercalate]
    · rw [List.filterMap_map]
      refine (List.filterMap_congr fun e _ => ?_).trans List.filterMap_some
      have hall : ∀ c ∈ quotePlus e.1, decide (c ≠ '=') = true :=
        fun c hc => decide_eq_true fun he => hequals e.1 (he ▸ hc)
      simp only [Function.comp_apply]
      rw [if_neg (by simp), List.takeWhile_append_of_pos hall, List.dropWhile_append_of_pos hall]
      simp [unquotePlus_quotePlus]
    · intro part hpart hmem
      obtain ⟨e, -, rfl⟩ := List.mem_map.1 hpart
      rcases List.mem_append.1 hmem with h | h
      · exact hamp e.1 h
      · rcases List.mem_cons.1 h with h | h
        · exact absurd h (by decide)
        · exact hamp e.2 h
    · exact List.cons_ne_nil _ _

end Texts
