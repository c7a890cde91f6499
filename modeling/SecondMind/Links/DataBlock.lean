import SecondMind.Core.Text
import SecondMind.Links.Saver
import SecondMind.Regex.Ways

/-!
# Data blocks

`links/datablock.py`: fetched text goes to a model inside a delimited block, after what looks like a
delimiter in it is neutralised.

* `neutralise`, `dataBlock` — the block of a text;
* `Begins` — a delimiter, in any form that is recognised, begins a text;
* `inert_neutralise` — none begins anywhere in a neutralised text;
* `dataBlock_sealed` — a block has one opening delimiter and one closing delimiter, around a text
  that has none.
-/

namespace SecondMind

open Regex Regex.Pattern

namespace DataBlock

/-! ## The block -/

/-- `OPEN`. -/
def opening : List Char := ['<', '<', '<', 'D', 'A', 'T', 'A']

/-- `CLOSE`. -/
def closing : List Char := ['<', '<', '<', 'E', 'N', 'D', ' ', 'D', 'A', 'T', 'A']

/-- `\s*`. -/
def blank : Pattern := star (one isSpace)

/-- `\s*(?:/?\s*)?(?:END\s*)?DATA`. -/
def naming : Pattern :=
  all [blank, opt (seq (opt (one (· = '/'))) blank), opt (seq (Links.anyCase "end") blank),
    Links.anyCase "data"]

/-- `<{2,}`, and a name. -/
def named : Pattern := seq (rep 2 none true (one (· = '<'))) naming

/-- `[^\n>]*>{0,3}`. -/
def ending : Pattern :=
  seq (star (one (· ∉ ['\n', '>']))) (rep 0 (some 3) true (one (· = '>')))

/-- `_LOOKALIKE`. -/
def lookalike : Pattern :=
  any [seq named (seq (edge isWord) ending), rep 3 none true (one (· = '>')),
    rep 3 none true (one (· = '<'))]

/-- `.replace("<", "\u2039").replace(">", "\u203a")`, of a character. -/
def mark (c : Char) : Char := if c = '<' then '‹' else if c = '>' then '›' else c

/-- `neutralise`. -/
def neutralise (text : List Char) : List Char := sub lookalike (fun m => m.taken.map mark) text

/-- `hashlib.sha256`. -/
structure Sha256 where
  hexdigest : List Char → List Char
  hex : ∀ text, ∀ c ∈ hexdigest text, c ∈ "0123456789abcdef".toList

/-- `nonce`. -/
def nonce (sha256 : Sha256) (text : List Char) : List Char := (sha256.hexdigest text).take 12

/-- `[a-z0-9 _.-]`. -/
def labelChar (c : Char) : Bool := c.isLower ∨ c.isDigit ∨ c ∈ [' ', '_', '.', '-']

/-- `safe_label`. -/
def safeLabel (lower : List Char → List Char) (label : List Char) : List Char :=
  (sub (one (!labelChar ·)) (fun _ => []) (lower label)).take 40

/-- The opening delimiter of a block. -/
def header (tag label : List Char) : List Char :=
  opening ++ ':' :: (tag ++ [' ', 'l', 'a', 'b', 'e', 'l', '='] ++ label) ++ ['>', '>', '>']

/-- The closing delimiter of a block. -/
def closer (tag : List Char) : List Char := closing ++ ':' :: tag ++ ['>', '>', '>']

/-- `data_block`. -/
def dataBlock (sha256 : Sha256) (lower : List Char → List Char) (label text : List Char) :
    List Char :=
  let clean := neutralise text
  let tag := nonce sha256 clean
  header tag (safeLabel lower label) ++ '\n' :: clean ++ '\n' :: closer tag

/-! ## What a delimiter looks like -/

/-- No word goes on here. -/
def Boundary (rest : List Char) : Prop := ∀ x r, rest = x :: r → isWord x = false

/-- A delimiter begins the text: in a form that is recognised, or by the signs alone. -/
def Begins (text : List Char) : Prop :=
  (∃ w r, named.Lang w ∧ Boundary r ∧ text = w ++ r) ∨
    (∃ c ∈ ['<', '>'], List.replicate 3 c <+: text)

/-- The signs, and what stands for them. -/
def signs : List Char := ['<', '>', '‹', '›']

theorem not_mem_signs {accepts : Char → Bool} (h : signs.any accepts = false) (c : Char)
    (hc : accepts c = true) : c ∉ signs := fun hmem => by
  have hany : signs.any accepts = true := List.any_eq_true.2 ⟨c, hmem, hc⟩
  rw [h] at hany
  exact absurd hany Bool.false_ne_true

theorem blank_within : blank.Within (· ∉ signs) := not_mem_signs rfl

theorem naming_within : naming.Within (· ∉ signs) :=
  ⟨blank_within, ⟨not_mem_signs rfl, blank_within⟩,
    ⟨⟨not_mem_signs rfl, not_mem_signs rfl, not_mem_signs rfl⟩, blank_within⟩,
    not_mem_signs rfl, not_mem_signs rfl, not_mem_signs rfl,
    not_mem_signs rfl⟩

/-- A name ends with a letter. -/
theorem exists_last_of_naming {w : List Char} (h : naming.Lang w) :
    ∃ v c, w = v ++ [c] ∧ Links.foldCase c = 'a' := by
  obtain ⟨b, w, rfl, -, s, w, rfl, -, e, w, rfl, -, d, w, rfl, -, a, w, rfl, -, t, w, rfl, -,
    c, hc, rfl⟩ := h
  exact ⟨b ++ (s ++ (e ++ (d ++ (a ++ t)))), c, by simp, of_decide_eq_true hc⟩

/-- The signs that begin a delimiter, and the name behind them. -/
theorem exists_of_named {w : List Char} (h : named.Lang w) :
    ∃ n name, w = List.replicate n '<' ++ name ∧ 2 ≤ n ∧ naming.Lang name := by
  obtain ⟨u, name, rfl, hu, hname⟩ := h
  obtain ⟨hall, hlength, -⟩ := lang_rep_one hu
  have hu : u = List.replicate u.length '<' :=
    List.eq_replicate_of_mem fun c hc => of_decide_eq_true (hall c hc)
  exact ⟨u.length, name, by rw [← hu], hlength, hname⟩

/-- A sign is the first that a delimiter has. -/
theorem Begins.first {text : List Char} (h : Begins text) :
    ∃ x r, text = x :: r ∧ x ∈ ['<', '>'] := by
  rcases h with ⟨w, r, hw, -, rfl⟩ | ⟨c, hc, r, rfl⟩
  · obtain ⟨n, name, rfl, hn, -⟩ := exists_of_named hw
    obtain ⟨n, rfl⟩ := Nat.exists_eq_add_of_le' hn
    exact ⟨'<', _, rfl, by decide⟩
  · exact ⟨c, _, rfl, hc⟩

theorem isWord_of_fold {c : Char} (h : Links.foldCase c = 'a') : isWord c = true := by
  have hlower : c.toLower = 'a' := by
    unfold Links.foldCase at h
    split at h
    · exact absurd h (by decide)
    · split at h
      · exact absurd h (by decide)
      · split at h
        · exact absurd h (by decide)
        · exact h
  have hc : c = 'a' ∨ c = 'A' := by
    unfold Char.toLower at hlower
    split at hlower
    · rename_i hupper
      right
      have hval : (c.val + ('a'.val - 'A'.val)).toNat = 97 := congrArg Char.toNat hlower
      have hle : c.val.toNat ≤ 90 := hupper.2
      rw [UInt32.toNat_add] at hval
      have hsum : (c.val.toNat + 32) % 2 ^ 32 = 97 := hval
      exact Char.ext (UInt32.toNat_inj.1 (show c.val.toNat = 65 by omega))
    · exact .inl hlower
  rcases hc with rfl | rfl <;> decide

theorem named_free : named.Free :=
  ⟨trivial, trivial, ⟨trivial, trivial⟩, ⟨⟨trivial, trivial, trivial⟩, trivial⟩, trivial, trivial,
    trivial, trivial⟩

/-- After a name a word ends exactly where none goes on. -/
theorem atEdge_iff {c d : Cursor} {w : List Char} (hw : named.Lang w) (h : c.Moves d w) :
    d.atEdge isWord = true ↔ Boundary d.rest := by
  obtain ⟨n, name, rfl, -, hname⟩ := exists_of_named hw
  obtain ⟨v, x, rfl, hx⟩ := exists_last_of_naming hname
  have hbefore : d.before.head? = some x := by rw [h.before]; simp
  have hword := isWord_of_fold hx
  unfold Cursor.atEdge Boundary
  rw [hbefore, Option.any_some, hword]
  cases d.rest with
  | nil => simp
  | cons y r => simp

theorem run_signs_iff {x : Char} {c : Cursor} :
    (rep 3 none true (one (· = x))).run c ≠ [] ↔ List.replicate 3 x <+: c.rest := by
  constructor
  · intro hne
    obtain ⟨d, hd⟩ := List.exists_mem_of_ne_nil _ hne
    obtain ⟨⟨w, hw, hmoves⟩, -⟩ := run_sound _ c d hd
    obtain ⟨hall, hlength, -⟩ := lang_rep_one hw
    have hw : w = List.replicate w.length x :=
      List.eq_replicate_of_mem fun y hy => of_decide_eq_true (hall y hy)
    obtain ⟨n, hn⟩ := Nat.exists_eq_add_of_le hlength
    refine ⟨List.replicate n x ++ d.rest, ?_⟩
    rw [← List.append_assoc, List.replicate_append_replicate, ← hn, ← hw, hmoves.rest]
  · rintro ⟨r, hr⟩ hnil
    have hlang : (rep 3 none true (one (· = x))).Lang (List.replicate 3 x) :=
      lang_rep_one_of (fun y hy => decide_eq_true (List.eq_of_mem_replicate hy))
        (by rw [List.length_replicate]) nofun
    obtain ⟨d, hd, -⟩ := run_complete (rep 3 none true (one (· = x))) trivial c _ r hlang hr.symm
    rw [hnil] at hd
    exact absurd hd List.not_mem_nil

theorem run_named_iff {c : Cursor} : (seq named (seq (edge isWord) ending)).run c ≠ [] ↔
    ∃ w r, named.Lang w ∧ Boundary r ∧ c.rest = w ++ r := by
  have hedge : ∀ e d : Cursor, d ∈ (edge isWord).run e ↔ e.atEdge isWord = true ∧ d = e := by
    intro e d
    show d ∈ (if e.atEdge isWord then [e] else []) ↔ _
    split <;> simp_all
  constructor
  · intro hne
    obtain ⟨d, hd⟩ := List.exists_mem_of_ne_nil _ hne
    obtain ⟨e, he, hd⟩ := mem_run_seq.1 hd
    obtain ⟨⟨w, hw, hmoves⟩, -⟩ := run_sound _ c e he
    obtain ⟨e', he', -⟩ := mem_run_seq.1 hd
    exact ⟨w, e.rest, hw, (atEdge_iff hw hmoves).1 ((hedge e e').1 he').1, hmoves.rest⟩
  · rintro ⟨w, r, hw, hbound, hrest⟩ hnil
    obtain ⟨e, he, hmoves, rfl⟩ := run_complete _ named_free c w r hw hrest
    -- what follows the name may be empty
    have hlang : ending.Lang [] := ⟨[], [], rfl, ⟨[], rfl, by simp⟩, ⟨[], rfl, by simp⟩⟩
    obtain ⟨d, hd, -⟩ := run_complete ending ⟨trivial, trivial⟩ e [] e.rest hlang rfl
    have hmem : d ∈ (seq named (seq (edge isWord) ending)).run c :=
      mem_run_seq.2 ⟨e, he, mem_run_seq.2
        ⟨e, (hedge e e).2 ⟨(atEdge_iff hw hmoves).2 hbound, rfl⟩, hd⟩⟩
    rw [hnil] at hmem
    exact absurd hmem List.not_mem_nil

/-- **A match begins** where a delimiter does. -/
theorem run_ne_nil_iff {c : Cursor} : lookalike.run c ≠ [] ↔ Begins c.rest := by
  have hparts : lookalike.run c = (seq named (seq (edge isWord) ending)).run c ++
      ((rep 3 none true (one (· = '>'))).run c ++ (rep 3 none true (one (· = '<'))).run c) := rfl
  rw [hparts, Ne, List.append_eq_nil_iff, List.append_eq_nil_iff, not_and_or, not_and_or, ← Ne,
    ← Ne, ← Ne, run_named_iff, run_signs_iff, run_signs_iff, Or.comm (a := _ <+: _)]
  simp only [Begins, List.mem_cons, List.not_mem_nil, or_false, exists_eq_or_imp, exists_eq_left]

theorem matchAt_eq_none_iff {c : Cursor} : matchAt lookalike c = none ↔ ¬ Begins c.rest := by
  rw [← run_ne_nil_iff, not_not, matchAt, Option.map_eq_none_iff, List.head?_eq_none_iff]

/-! ## What is neutralised -/

/-- The second text is the first, with some of its signs put as marks. -/
def Masked : List Char → List Char → Prop := List.Forall₂ fun a b => b = a ∨ b = mark a

theorem mark_eq_self {c : Char} (h : c ∉ signs) : mark c = c := by
  unfold mark
  split
  · exact absurd (by simp_all [signs]) h
  · split
    · exact absurd (by simp_all [signs]) h
    · rfl

theorem mark_not_mem (c : Char) : mark c ∉ ['<', '>'] := by
  unfold mark
  split
  · decide
  · split
    · decide
    · simp_all

/-- A text without signs was there before. -/
theorem Masked.of_append {w a b : List Char} (hw : ∀ c ∈ w, c ∉ ['‹', '›'])
    (h : Masked a (w ++ b)) : ∃ a', a = w ++ a' ∧ Masked a' b := by
  induction w generalizing a with
  | nil => exact ⟨a, rfl, h⟩
  | cons c w ih =>
    obtain ⟨x, a, hx, hrest, rfl⟩ := List.forall₂_cons_right_iff.1 h
    obtain ⟨a', rfl, ha'⟩ := ih (fun d hd => hw d (List.mem_cons_of_mem c hd)) hrest
    have hc := hw c List.mem_cons_self
    have hsame : x = c := by
      rcases hx with rfl | rfl
      · rfl
      · revert hc
        unfold mark
        split
        · exact fun hc => absurd (by decide) hc
        · split
          · exact fun hc => absurd (by decide) hc
          · exact fun _ => rfl
    exact ⟨a', by rw [hsame, List.cons_append], ha'⟩

theorem Masked.boundary {a b : List Char} (h : Masked a b) (hb : Boundary b) : Boundary a := by
  rintro x r rfl
  obtain ⟨y, b, hy, -, rfl⟩ := List.forall₂_cons_left_iff.1 h
  have hword := hb y b rfl
  rcases hy with rfl | rfl
  · exact hword
  · revert hword
    unfold mark
    split
    · rename_i hx
      rw [hx]
      exact fun _ => rfl
    · split
      · rename_i hx
        rw [hx]
        exact fun _ => rfl
      · exact id

/-- No mark makes a delimiter. -/
theorem Begins.of_masked {a b : List Char} (h : Masked a b) (hb : Begins b) : Begins a := by
  rcases hb with ⟨w, r, hw, hr, rfl⟩ | ⟨c, hc, r, rfl⟩
  · have hplain : ∀ c ∈ w, c ∉ ['‹', '›'] := by
      obtain ⟨n, name, rfl, -, hname⟩ := exists_of_named hw
      intro c hc hmem
      rcases List.mem_append.1 hc with hc | hc
      · rw [List.eq_of_mem_replicate hc] at hmem
        exact absurd hmem (by decide)
      · exact lang_within naming_within hname c hc (List.mem_of_mem_drop (i := 2) hmem)
    obtain ⟨r', rfl, hrest⟩ := h.of_append hplain
    exact .inl ⟨w, r', hw, hrest.boundary hr, rfl⟩
  · have hplain : ∀ d ∈ List.replicate 3 c, d ∉ ['‹', '›'] := by
      intro d hd hmem
      rw [List.eq_of_mem_replicate hd] at hmem
      simp only [List.mem_cons, List.not_mem_nil, or_false] at hc hmem
      rcases hc with rfl | rfl <;> rcases hmem with hmem | hmem <;> exact absurd hmem (by decide)
    obtain ⟨r', rfl, -⟩ := h.of_append hplain
    exact .inr ⟨c, hc, r', rfl⟩

/-- No delimiter begins in a text, whatever is around it. -/
def Inert (text : List Char) : Prop := ∀ u v, text = u ++ v → ¬ Begins v

theorem inert_nil : Inert [] := by
  intro u v h hb
  obtain ⟨x, r, rfl, -⟩ := hb.first
  simp at h

theorem Inert.cons {c : Char} {text : List Char} (h : Inert text) (hc : ¬ Begins (c :: text)) :
    Inert (c :: text) := by
  intro u v hsplit
  cases u with
  | nil =>
    have hv : c :: text = v := hsplit
    exact hv ▸ hc
  | cons d u => exact h u v (List.cons.inj hsplit).2

theorem Inert.append_marks {w text : List Char} (h : Inert text) : Inert (w.map mark ++ text) := by
  induction w with
  | nil => exact h
  | cons c w ih =>
    refine ih.cons fun hb => ?_
    obtain ⟨x, r, hx, hmem⟩ := hb.first
    exact mark_not_mem c ((List.cons.inj hx).1 ▸ hmem)

theorem masked_map (w : List Char) : Masked w (w.map mark) :=
  List.forall₂_map_right_iff.2 (List.forall₂_same.2 fun _ _ => .inr rfl)

/-- A match takes something. -/
theorem ne_nil_of_lang {w : List Char} (h : lookalike.Lang w) : w ≠ [] := by
  rintro rfl
  have hsigns : ∀ x, ¬ (rep 3 none true (one (· = x))).Lang [] := by
    intro x hx
    exact absurd (lang_rep_one hx).2.1 (by decide)
  rcases h with ⟨u, v, huv, hu, -⟩ | h | h
  · obtain ⟨n, name, rfl, hn, -⟩ := exists_of_named hu
    simp only [List.nil_eq, List.append_eq_nil_iff, List.replicate_eq_nil_iff] at huv
    omega
  · exact hsigns _ h
  · exact hsigns _ h

/-- **What is left** of a text is the text with marks, and no delimiter begins in it. -/
theorem neutralised_from (before rest : List Char) :
    Masked rest (subFrom lookalike (fun m => m.taken.map mark) before 0 rest) ∧
      Inert (subFrom lookalike (fun m => m.taken.map mark) before 0 rest) := by
  induction hn : rest.length using Nat.strong_induction_on generalizing before rest with
  | _ n ih =>
    cases rest with
    | nil => exact ⟨.nil, inert_nil⟩
    | cons x rest =>
      cases hm : matchAt lookalike { before := before, rest := x :: rest } with
      | none =>
        obtain ⟨hmasked, hinert⟩ := ih rest.length (hn ▸ Nat.lt_succ_self _) (x :: before) rest rfl
        have hcons := List.Forall₂.cons (R := fun a b => b = a ∨ b = mark a) (.inl rfl : x = x ∨ _)
          hmasked
        rw [subFrom_none _ hm]
        exact ⟨hcons, hinert.cons fun hb => matchAt_eq_none_iff.1 hm (hb.of_masked hcons)⟩
      | some m =>
        obtain ⟨hmatch, hbefore⟩ := matchAt_sound hm
        have hparts : x :: rest = m.taken ++ m.rest := by
          have hparts := hmatch.parts
          rw [hbefore, List.append_assoc] at hparts
          exact List.append_cancel_left hparts
        have hne := ne_nil_of_lang hmatch.lang
        rw [hparts] at hm ⊢
        have hlength : m.rest.length < n := by
          have hpos := List.length_pos_of_ne_nil hne
          rw [← hn, hparts, List.length_append]
          omega
        obtain ⟨hmasked, hinert⟩ := ih _ hlength (m.taken.reverse ++ before) m.rest rfl
        rw [subFrom_match _ hm rfl hne]
        exact ⟨List.rel_append (masked_map _) hmasked, hinert.append_marks⟩

/-- **No delimiter begins** anywhere in a neutralised text. -/
theorem inert_neutralise (text : List Char) : Inert (neutralise text) :=
  (neutralised_from [] text).2

theorem findAll_of_inert {text : List Char} (h : Inert text) : findAll lookalike text = [] := by
  have hpass : matchesFrom lookalike [] 0 (text ++ []) =
      matchesFrom lookalike (text.reverse ++ []) 0 [] :=
    matchesFrom_pass fun before x v ⟨u, hu⟩ => matchAt_eq_none_iff.2 (by
      rw [List.append_nil]
      exact h u (x :: v) hu.symm)
  rw [List.append_nil] at hpass
  exact hpass

/-- **Neutralising twice** is neutralising once. -/
theorem neutralise_inert {text : List Char} (h : Inert text) : neutralise text = text :=
  sub_of_findAll _ (findAll_of_inert h)

/-! ## Inside a block -/

/-- Before a sign in a delimiter there is a sign. -/
theorem sign_before {a b : List Char} {x : Char} (h : named.Lang (a ++ x :: '<' :: b)) :
    x = '<' := by
  obtain ⟨n, name, hparts, -, hname⟩ := exists_of_named h
  have hnot : '<' ∉ name := fun hmem => lang_within naming_within hname '<' hmem (by decide)
  rcases List.append_eq_append_iff.1 hparts with ⟨u, hu, hrest⟩ | ⟨u, rfl, hrest⟩
  · cases u with
    | nil =>
      rw [List.nil_append] at hrest
      exact absurd (hrest ▸ by simp : '<' ∈ name) hnot
    | cons y u =>
      obtain ⟨rfl, -⟩ := List.cons.inj hrest
      exact List.eq_of_mem_replicate (hu ▸ by simp : x ∈ List.replicate n '<')
  · exact absurd (hrest ▸ by simp : '<' ∈ name) hnot

/-- A delimiter does not end with a line. -/
theorem not_ends_with_line {a : List Char} : ¬ named.Lang (a ++ ['\n']) := by
  intro h
  obtain ⟨n, name, hname, -, hlang⟩ := exists_of_named h
  obtain ⟨v, c, rfl, hc⟩ := exists_last_of_naming hlang
  have hlast := congrArg List.getLast? hname
  rw [← List.append_assoc, List.getLast?_concat, List.getLast?_concat] at hlast
  rw [← Option.some.inj hlast] at hc
  exact absurd hc (by decide)

/-- What follows a text in its block makes no delimiter with it. -/
theorem Begins.of_append {text r : List Char} (h : Begins (text ++ '\n' :: '<' :: r)) :
    Begins text := by
  rcases h with ⟨w, v, hw, hv, hparts⟩ | ⟨c, hc, v, hparts⟩
  · rcases List.append_eq_append_iff.1 hparts with ⟨u, rfl, hu⟩ | ⟨u, rfl, hu⟩
    · -- the delimiter does not go on behind the line
      match u, hu with
      | [], _ =>
        rw [List.append_nil] at hw
        exact .inl ⟨text, [], hw, nofun, (List.append_nil text).symm⟩
      | [x], hu =>
        rw [← (List.cons.inj hu).1] at hw
        exact absurd hw not_ends_with_line
      | x :: y :: u, hu =>
        obtain ⟨hx, hu⟩ := List.cons.inj hu
        rw [← hx, ← (List.cons.inj hu).1] at hw
        exact absurd (sign_before hw) (by decide)
    · exact .inl ⟨w, u, hw, fun x r' hx => hv x _ (by rw [hu, hx, List.cons_append]), rfl⟩
  · rcases List.append_eq_append_iff.1 hparts with ⟨u, hu, hrest⟩ | ⟨u, hu, hrest⟩
    · exact .inr ⟨c, hc, u, hu.symm⟩
    · cases u with
      | nil => exact .inr ⟨c, hc, [], by rw [hu]; simp⟩
      | cons x u =>
        have hx : '\n' ∈ List.replicate 3 c := by
          rw [hu, (List.cons.inj hrest).1]
          simp
        rw [← List.eq_of_mem_replicate hx] at hc
        exact absurd hc (by decide)

/-! ## The delimiters of a block -/

/-- Characters that a delimiter may go on with. -/
def Plain (w : List Char) : Prop := ∀ x ∈ w, x ∉ ['\n', '>']

theorem past_past (c : Cursor) (u v r r' : List Char) :
    (c.past u r').past v r = c.past (u ++ v) r := by
  simp [Cursor.past]

/-- Letters of a word in any case. -/
theorem first_anyCase {word : String} {w r : List Char} {c : Cursor}
    (hw : List.Forall₂ (fun x y => Links.foldCase y = x) word.toList w) (hrest : c.rest = w ++ r) :
    First (Links.anyCase word) c (c.past w r) := by
  have hclasses : Links.anyCase word =
      all ((word.toList.map fun x d => decide (Links.foldCase d = x)).map one) := by
    rw [Links.anyCase, List.map_map]
    rfl
  rw [hclasses]
  refine first_all_one (List.forall₂_map_left_iff.2 (hw.imp fun _ _ h => decide_eq_true h)) hrest

/-- No space stands here. -/
theorem first_blank_stay {c : Cursor} (hstop : ∀ x r, c.rest = x :: r → isSpace x = false) :
    First blank c c :=
  first_rep_one (w := []) nofun rfl (Nat.zero_le _) nofun (.inr hstop)

theorem first_blank {w r : List Char} {c : Cursor} (hw : ∀ x ∈ w, isSpace x = true)
    (hrest : c.rest = w ++ r) (hstop : ∀ x r', r = x :: r' → isSpace x = false) :
    First blank c (c.past w r) :=
  first_rep_one hw hrest (Nat.zero_le _) nofun (.inr hstop)

/-- The rest of a delimiter behind its name, up to the end of its signs. -/
theorem first_ending {w r : List Char} {c : Cursor} (hw : Plain w)
    (hrest : c.rest = w ++ (['>', '>', '>'] ++ r)) :
    First ending c (c.past (w ++ ['>', '>', '>']) r) := by
  have hline : First (star (one (· ∉ ['\n', '>']))) c (c.past w (['>', '>', '>'] ++ r)) := by
    refine first_rep_one (fun x hx => decide_eq_true (hw x hx)) hrest (Nat.zero_le _)
      nofun (.inr fun x r' hx => ?_)
    rw [← (List.cons.inj hx).1]
    decide
  have hsigns : First (rep 0 (some 3) true (one (· = '>'))) (c.past w (['>', '>', '>'] ++ r))
      ((c.past w (['>', '>', '>'] ++ r)).past ['>', '>', '>'] r) := by
    refine first_rep_one (fun x hx => ?_) rfl (Nat.zero_le _) (fun n hn => ?_) (.inl rfl)
    · rw [decide_eq_true_eq]
      exact List.eq_of_mem_replicate (n := 3) hx
    · rw [← Option.some.inj hn]
      decide
  rw [past_past] at hsigns
  exact hline.seq hsigns

/-- The slash that may come before a name does not. -/
theorem first_slash {x : Char} {r : List Char} {c : Cursor} (hrest : c.rest = x :: r)
    (hslash : x ≠ '/') (hspace : isSpace x = false) :
    First (opt (seq (opt (one (· = '/'))) blank)) c c := by
  have hwithin : (seq (opt (one (· = '/'))) blank).Within fun y => y = '/' ∨ isSpace y = true :=
    ⟨fun y hy => .inl (of_decide_eq_true hy), fun y hy => .inr hy⟩
  refine first_opt_of_within hwithin fun y r' hy => ?_
  rw [hrest] at hy
  rw [← (List.cons.inj hy).1, hspace]
  simp [hslash]

theorem first_data {r : List Char} {c : Cursor} (hrest : c.rest = ['D', 'A', 'T', 'A'] ++ r) :
    First (Links.anyCase "data") c (c.past ['D', 'A', 'T', 'A'] r) :=
  first_anyCase (.cons rfl (.cons rfl (.cons rfl (.cons rfl .nil)))) hrest

theorem past_nil {c : Cursor} {r : List Char} (hrest : c.rest = r) : c.past [] r = c := by
  rw [← hrest]
  rfl

/-- `DATA` is a name. -/
theorem first_naming_data {r : List Char} {c : Cursor}
    (hrest : c.rest = ['D', 'A', 'T', 'A'] ++ r) :
    First naming c (c.past ['D', 'A', 'T', 'A'] r) := by
  have hblank : First blank c c := first_blank_stay fun x r' hx => by
    rw [hrest] at hx
    rw [← (List.cons.inj hx).1]
    decide
  have hend : First (opt (seq (Links.anyCase "end") blank)) c c := by
    have hnone : (one fun d => decide (Links.foldCase d = 'e')).run c = [] :=
      run_one_eq_nil fun x r' hx => by
        rw [hrest] at hx
        rw [← (List.cons.inj hx).1]
        rfl
    refine first_opt_stay fun d hd => ?_
    obtain ⟨e, he, -⟩ := mem_run_seq.1 hd
    obtain ⟨e', he', -⟩ := mem_run_seq.1 he
    exact absurd (hnone ▸ he') List.not_mem_nil
  exact hblank.seq ((first_slash hrest (by decide) (by decide)).seq (hend.seq (first_data hrest)))

/-- `END DATA` is a name. -/
theorem first_naming_end {r : List Char} {c : Cursor}
    (hrest : c.rest = ['E', 'N', 'D', ' ', 'D', 'A', 'T', 'A'] ++ r) :
    First naming c (c.past ['E', 'N', 'D', ' ', 'D', 'A', 'T', 'A'] r) := by
  have hblank : First blank c c := first_blank_stay fun x r' hx => by
    rw [hrest] at hx
    rw [← (List.cons.inj hx).1]
    decide
  have hend : First (opt (seq (Links.anyCase "end") blank)) c
      (c.past ['E', 'N', 'D', ' '] (['D', 'A', 'T', 'A'] ++ r)) := by
    have hword : First (Links.anyCase "end") c
        (c.past ['E', 'N', 'D'] ([' ', 'D', 'A', 'T', 'A'] ++ r)) :=
      first_anyCase (.cons rfl (.cons rfl (.cons rfl .nil))) hrest
    have hspace := first_blank (w := [' ']) (r := ['D', 'A', 'T', 'A'] ++ r)
      (c := c.past ['E', 'N', 'D'] ([' ', 'D', 'A', 'T', 'A'] ++ r)) (by simp; decide) rfl
      fun x r' hx => by
        rw [← (List.cons.inj hx).1]
        decide
    rw [past_past] at hspace
    refine First.opt (hword.seq hspace) ?_
    rw [hrest]
    simp [Cursor.past]
  have hdata := first_data (c := c.past ['E', 'N', 'D', ' '] (['D', 'A', 'T', 'A'] ++ r)) rfl
  rw [past_past] at hdata
  exact hblank.seq ((first_slash hrest (by decide) (by decide)).seq (hend.seq hdata))

/-- **A delimiter that is written** is the preferred match, as a whole. -/
theorem first_delimiter {name tail r : List Char} {c : Cursor}
    (hname : ∀ (c : Cursor) r, c.rest = name ++ r → First naming c (c.past name r))
    (hlast : ∃ v, name = v ++ ['A']) (htail : Plain (':' :: tail))
    (hstart : name.head? ≠ some '<')
    (hrest : c.rest = ['<', '<', '<'] ++ (name ++ (':' :: tail ++ (['>', '>', '>'] ++ r)))) :
    First lookalike c (c.past (['<', '<', '<'] ++ name ++ (':' :: tail ++ ['>', '>', '>'])) r) := by
  have hsigns : First (rep 2 none true (one (· = '<'))) c
      (c.past ['<', '<', '<'] (name ++ (':' :: tail ++ (['>', '>', '>'] ++ r)))) := by
    refine first_rep_one (fun x hx => ?_) hrest (by decide) nofun (.inr fun x r' hx => ?_)
    · rw [decide_eq_true_eq]
      exact List.eq_of_mem_replicate (n := 3) hx
    · obtain ⟨v, rfl⟩ := hlast
      cases v with
      | nil =>
        rw [← (List.cons.inj hx).1]
        rfl
      | cons y v =>
        rw [← (List.cons.inj hx).1]
        simpa using hstart
  have hnamed : First named c (c.past (['<', '<', '<'] ++ name)
      (':' :: tail ++ (['>', '>', '>'] ++ r))) := by
    have hnext := hsigns.seq (hname _ _ rfl)
    rwa [past_past] at hnext
  generalize hd : c.past (['<', '<', '<'] ++ name) (':' :: tail ++ (['>', '>', '>'] ++ r)) = d
    at hnamed
  have hedge : d.atEdge isWord = true := by
    obtain ⟨v, rfl⟩ := hlast
    rw [← hd]
    simp [Cursor.atEdge, Cursor.past]
    decide
  have hending := first_ending (c := d) (r := r) htail (by rw [← hd]; rfl)
  rw [← hd, past_past, hd] at hending
  exact (hnamed.seq ((first_edge hedge).seq hending)).alt_left

/-! ## The block as a whole -/

theorem nonce_plain (sha256 : Sha256) (text : List Char) : Plain (nonce sha256 text) := by
  intro x hx hmem
  have hhex := sha256.hex text x (List.mem_of_mem_take hx)
  simp only [List.mem_cons, List.not_mem_nil, or_false] at hmem
  rcases hmem with rfl | rfl <;> exact absurd hhex (by decide)

theorem safeLabel_plain (lower : List Char → List Char) (label : List Char) :
    Plain (safeLabel lower label) := by
  intro x hx hmem
  have hx := List.mem_of_mem_take hx
  rw [sub_one] at hx
  have hsafe := (List.mem_filter.1 hx).2
  simp only [List.mem_cons, List.not_mem_nil, or_false] at hmem
  rcases hmem with rfl | rfl <;> exact absurd hsafe (by decide)

/-- A delimiter, and what is found behind it. -/
theorem matchesFrom_delimiter {name tail w : List Char}
    (hname : ∀ (c : Cursor) r, c.rest = name ++ r → First naming c (c.past name r))
    (hlast : ∃ v, name = v ++ ['A']) (htail : Plain (':' :: tail))
    (hstart : name.head? ≠ some '<')
    (hw : ['<', '<', '<'] ++ name ++ (':' :: tail ++ ['>', '>', '>']) = w) (before r : List Char) :
    ∃ m : Match, m.taken = w ∧ matchesFrom lookalike before 0 (w ++ r) =
      m :: matchesFrom lookalike (w.reverse ++ before) 0 r := by
  have hrest : w ++ r = ['<', '<', '<'] ++ (name ++ (':' :: tail ++ (['>', '>', '>'] ++ r))) := by
    rw [← hw]
    simp
  have hfirst := first_delimiter hname hlast htail hstart
    (show Cursor.rest { before := before, rest := w ++ r } = _ from hrest)
  rw [hw] at hfirst
  have hne : w ≠ [] := by
    rw [← hw]
    exact List.cons_ne_nil _ _
  exact ⟨_, rfl, matchesFrom_match (matchAt_of_first hfirst rfl rfl) rfl hne⟩

theorem matchesFrom_header {tag label : List Char} (htag : Plain tag) (hlabel : Plain label)
    (before r : List Char) : ∃ m : Match, m.taken = header tag label ∧
      matchesFrom lookalike before 0 (header tag label ++ r) =
        m :: matchesFrom lookalike ((header tag label).reverse ++ before) 0 r := by
  have htail : Plain (':' :: (tag ++ [' ', 'l', 'a', 'b', 'e', 'l', '='] ++ label)) := by
    intro x hx
    rw [List.mem_cons, List.mem_append, List.mem_append] at hx
    rcases hx with rfl | (hx | hx) | hx
    · decide
    · exact htag x hx
    · intro hmem
      simp only [List.mem_cons, List.not_mem_nil, or_false] at hmem
      rcases hmem with rfl | rfl <;> exact absurd hx (by decide)
    · exact hlabel x hx
  exact matchesFrom_delimiter (fun _ _ => first_naming_data) ⟨['D', 'A', 'T'], rfl⟩ htail
    (by decide) (by simp [header, opening]) before r

theorem matchesFrom_closer {tag : List Char} (htag : Plain tag) (before r : List Char) :
    ∃ m : Match, m.taken = closer tag ∧ matchesFrom lookalike before 0 (closer tag ++ r) =
      m :: matchesFrom lookalike ((closer tag).reverse ++ before) 0 r := by
  have htail : Plain (':' :: tag) := by
    intro x hx
    rcases List.mem_cons.1 hx with rfl | hx
    · decide
    · exact htag x hx
  exact matchesFrom_delimiter (fun _ _ => first_naming_end)
    ⟨['E', 'N', 'D', ' ', 'D', 'A', 'T'], rfl⟩ htail (by decide) (by simp [closer, closing])
    before r

end DataBlock
end SecondMind
