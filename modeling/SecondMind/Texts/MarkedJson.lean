import SecondMind.Texts.JsonText

/-!
# Reading a marked JSON text

Parts of the JSON text of a structure, plain letters all, are put as marks.  A mark that falls
between the literals or inside an escape makes the text unreadable; every other lies inside a
literal, and the reader sees it there.

* `readString_marked` — a string whose literal was marked reads as the string with marks, and
  its literal is the escape of what was read;
* `loads_marked` — and so every string of a structure whose text was marked.
-/

namespace JsonText

open Texts Nested

variable {P : List Char → Prop} {mark : List Char}

/-- A mark that is plain itself, stands for plain letters, and begins like a list of words,
which no value is. -/
structure JsonMark (P : List Char → Prop) (mark : List Char) : Prop where
  parts : ∀ t, P t → AllPlain t
  plain : AllPlain mark
  head : ∃ rest, mark = '[' :: 'r' :: rest

/-! ## Strings -/

section Strings

variable (hmark : JsonMark P mark)
include hmark

theorem marked_cons {c : Char} {a T : List Char} (h : Marked P mark (c :: a) T) :
    (∃ b, T = c :: b ∧ Marked P mark a b) ∨ ∃ b, T = '[' :: 'r' :: b := by
  obtain ⟨m, rfl⟩ := hmark.head
  rcases h.cons_inv with hcons | ⟨t, a', b', -, -, -, rfl, -⟩
  · exact .inl hcons
  · exact .inr ⟨m ++ b', rfl⟩

/-- A letter that no mark begins with is the letter that was there. -/
theorem marked_head {c d : Char} (hd : d ≠ '[') {a T : List Char}
    (h : Marked P mark (c :: a) (d :: T)) : d = c ∧ Marked P mark a T := by
  rcases marked_cons hmark h with ⟨b, hb, hm⟩ | ⟨b, hb⟩
  · obtain ⟨rfl, rfl⟩ := List.cons.inj hb
    exact ⟨rfl, hm⟩
  · exact absurd (List.cons.inj hb).1 hd

/-- No mark begins at a letter that is not plain. -/
theorem marked_cons_of_not_plain {c : Char} (hc : ¬ Plain c) {a T : List Char}
    (h : Marked P mark (c :: a) T) : ∃ b, T = c :: b ∧ Marked P mark a b := by
  rcases h.cons_inv with hcons | ⟨t, a', b', ht, hne, hta, -, -⟩
  · exact hcons
  · obtain ⟨d, t, rfl⟩ := List.exists_cons_of_ne_nil hne
    obtain ⟨rfl, -⟩ := List.cons.inj hta
    exact absurd (hmark.parts _ ht c List.mem_cons_self) hc

omit hmark in
theorem readUnits_plain {c : Char} (hc : Plain c) (T : List Char) :
    readUnits (c :: T) = (readUnits T).map fun p => (c.toNat :: p.1, p.2) := by
  have hlow : ¬ c.toNat < 0x20 := Nat.not_lt.2 hc.1
  rw [readUnits]
  · rw [if_neg hlow]
    cases readUnits T <;> rfl
  · exact hc.2.2.1
  · exact fun _ _ _ _ _ h => absurd h hc.2.2.2
  · exact fun _ _ h => absurd h hc.2.2.2

omit hmark in
theorem readUnits_short {e : Char} (he : e ≠ 'u') {T r : List Char} {us : List Nat}
    (h : readUnits ('\\' :: e :: T) = some (us, r)) :
    ∃ unit us', shortValue e = some unit ∧ readUnits T = some (us', r) ∧ us = unit :: us' := by
  rw [readUnits] at h
  · simp only [Option.bind_eq_bind, Option.bind_eq_some_iff, Option.pure_def, Option.some.injEq,
      Prod.mk.injEq, Prod.exists] at h
    obtain ⟨unit, hunit, us', r', hr, rfl, rfl⟩ := h
    exact ⟨unit, us', hunit, hr, rfl⟩
  · exact fun _ _ _ _ _ hu => absurd hu he

omit hmark in
theorem readUnits_unit {T r : List Char} {us : List Nat}
    (h : readUnits ('\\' :: 'u' :: T) = some (us, r)) :
    ∃ a b c d T' unit us', T = a :: b :: c :: d :: T' ∧ hexUnit a b c d = some unit ∧
      readUnits T' = some (us', r) ∧ us = unit :: us' := by
  rcases T with - | ⟨a, - | ⟨b, - | ⟨c, - | ⟨d, T⟩⟩⟩⟩
  case cons.cons.cons.cons =>
    rw [readUnits] at h
    simp only [Option.bind_eq_bind, Option.bind_eq_some_iff, Option.pure_def, Option.some.injEq,
      Prod.mk.injEq, Prod.exists] at h
    obtain ⟨unit, hunit, us', r', hr, rfl, rfl⟩ := h
    exact ⟨a, b, c, d, T, unit, us', rfl, hunit, hr, rfl⟩
  all_goals exact absurd h (by simp [readUnits, shortValue, shortEscapes])

/-- The digits of an escape that was read are as they were. -/
theorem readUnits_hex {h₁ h₂ h₃ h₄ : Char} {a T r : List Char} {us : List Nat}
    (hm : Marked P mark ('\\' :: 'u' :: h₁ :: h₂ :: h₃ :: h₄ :: a) T)
    (hr : readUnits T = some (us, r)) :
    ∃ b unit us', T = '\\' :: 'u' :: h₁ :: h₂ :: h₃ :: h₄ :: b ∧
      hexUnit h₁ h₂ h₃ h₄ = some unit ∧ us = unit :: us' ∧ readUnits b = some (us', r) ∧
      Marked P mark a b := by
  have hbracket : ∀ {x : Char}, hexValue x ≠ none → x ≠ '[' := by
    rintro x hx rfl
    exact hx (by decide)
  obtain ⟨T₀, rfl, hm₀⟩ := marked_cons_of_not_plain hmark (by decide) hm
  rcases marked_cons hmark hm₀ with ⟨T₁, rfl, hm₁⟩ | ⟨T₁, rfl⟩
  · obtain ⟨x₁, x₂, x₃, x₄, T, unit, us', rfl, hunit, hr', rfl⟩ := readUnits_unit hr
    obtain ⟨hx₁, hx₂, hx₃, hx₄⟩ := hexUnit_some hunit
    obtain ⟨rfl, hm₂⟩ := marked_head hmark (hbracket hx₁) hm₁
    obtain ⟨rfl, hm₃⟩ := marked_head hmark (hbracket hx₂) hm₂
    obtain ⟨rfl, hm₄⟩ := marked_head hmark (hbracket hx₃) hm₃
    obtain ⟨rfl, hm₅⟩ := marked_head hmark (hbracket hx₄) hm₄
    exact ⟨T, unit, us', rfl, hunit, rfl, hr', hm₅⟩
  · obtain ⟨unit, -, hunit, -⟩ := readUnits_short (by decide) hr
    exact absurd hunit (by simp [shortValue, shortEscapes])

/-- The escapes of some code units are read as these. -/
theorem readUnits_escapes {codes : List Nat} (hcodes : ∀ u ∈ codes, u < 0x10000) :
    ∀ {a T r : List Char} {us : List Nat},
      Marked P mark (codes.flatMap unitEscape ++ a) T → readUnits T = some (us, r) →
      ∃ b us', T = codes.flatMap unitEscape ++ b ∧ us = codes ++ us' ∧
        readUnits b = some (us', r) ∧ Marked P mark a b := by
  induction codes with
  | nil => exact fun hm hr => ⟨_, _, rfl, rfl, hr, hm⟩
  | cons u codes ih =>
    intro a T r us hm hr
    obtain ⟨b, unit, us', rfl, hunit, rfl, hr', hm'⟩ := readUnits_hex hmark hm hr
    rw [hexUnit_digits (hcodes u List.mem_cons_self), Option.some.injEq] at hunit
    obtain ⟨b', us'', rfl, rfl, hr'', hm''⟩ :=
      ih (fun x hx => hcodes x (List.mem_cons_of_mem u hx)) hm' hr'
    exact ⟨b', us'', rfl, by rw [hunit, List.cons_append], hr'', hm''⟩

/-- A letter that is not plain is read as its code units, from its escape. -/
theorem readUnits_escapeChar {c : Char} (hc : ¬ Plain c) {a T r : List Char} {us : List Nat}
    (hm : Marked P mark (escapeChar c ++ a) T) (hr : readUnits T = some (us, r)) :
    ∃ b us', T = escapeChar c ++ b ∧ us = units c ++ us' ∧ readUnits b = some (us', r) ∧
      Marked P mark a b := by
  unfold escapeChar at hm ⊢
  cases hl : shortEscapes.lookup c with
  | none =>
    rw [hl] at hm
    simp only [if_neg hc] at hm ⊢
    exact readUnits_escapes hmark (fun u => units_lt) hm hr
  | some e =>
    obtain ⟨-, hu, hbracket, hval, hunits⟩ := shortEscapes_spec hl
    rw [hl] at hm
    obtain ⟨T₀, rfl, hm₀⟩ := marked_cons_of_not_plain hmark (by decide) hm
    rcases marked_cons hmark hm₀ with ⟨T₁, rfl, hm₁⟩ | ⟨T₁, rfl⟩
    · obtain ⟨unit, us', hunit, hr', rfl⟩ := readUnits_short hu hr
      rw [hval, Option.some.injEq] at hunit
      exact ⟨T₁, us', rfl, by rw [hunits, ← hunit, List.singleton_append], hr', hm₁⟩
    · obtain ⟨unit, -, hunit, -⟩ := readUnits_short (by decide) hr
      exact absurd hunit (by simp [shortValue, shortEscapes])

omit hmark in
theorem readUnits_append {t : List Char} (ht : AllPlain t) (T : List Char) :
    readUnits (t ++ T) = (readUnits T).map fun p => (t.map Char.toNat ++ p.1, p.2) := by
  induction t with
  | nil => cases hT : readUnits T <;> simp [hT]
  | cons c t ih =>
    rw [List.cons_append, readUnits_plain (ht c List.mem_cons_self),
      ih fun x hx => ht x (List.mem_cons_of_mem c hx)]
    cases readUnits T <;> rfl

omit hmark in
theorem flatMap_units_plain {t : List Char} (ht : AllPlain t) : t.flatMap units = t.map Char.toNat := by
  rw [List.map_eq_flatMap]
  exact List.flatMap_congr fun d hd => units_plain (ht d hd)

/-- A literal that was marked is the literal of the string with marks. -/
theorem readUnits_marked :
    ∀ (s : List Char) {a T r : List Char} {us : List Nat},
      Marked P mark (escape s ++ '\x22' :: a) T → readUnits T = some (us, r) →
      ∃ v, Marked P mark s v ∧ us = v.flatMap units ∧ T = escape v ++ '\x22' :: r ∧
        Marked P mark a r
  | [], a, T, r, us, hm, hr => by
    obtain ⟨b, rfl, hb⟩ := marked_cons_of_not_plain hmark (by decide) hm
    rw [readUnits, Option.some.injEq, Prod.mk.injEq] at hr
    obtain ⟨rfl, rfl⟩ := hr
    exact ⟨[], .nil, rfl, rfl, hb⟩
  | c :: s, a, T, r, us, hm, hr => by
    by_cases hc : Plain c
    · have hm' : Marked P mark (c :: (escape s ++ '\x22' :: a)) T := by
        rw [escape_cons, escapeChar_plain hc] at hm
        exact hm
      rcases hm'.cons_inv with ⟨b, rfl, hb⟩ | ⟨t, a', b, ht, hne, hta, rfl, hb⟩
      · rw [readUnits_plain hc, Option.map_eq_some_iff] at hr
        obtain ⟨⟨us', r'⟩, hr', hpair⟩ := hr
        obtain ⟨rfl, rfl⟩ := Prod.mk.inj hpair
        obtain ⟨v, hv, rfl, rfl, ha⟩ := readUnits_marked s hb hr'
        refine ⟨c :: v, .cons c hv, ?_, ?_, ha⟩
        · rw [List.flatMap_cons, units_plain hc, List.singleton_append]
        · rw [escape_cons, escapeChar_plain hc]
          rfl
      · -- the mark stands for letters of the string, none of them escaped
        have hstart : escape (c :: s) ++ '\x22' :: a = t ++ a' := by
          rw [← hta, escape_cons, escapeChar_plain hc]
          rfl
        obtain ⟨s', hs', rfl⟩ := escape_plain_start (hmark.parts _ ht) hstart
        have hlen : s'.length < (c :: s).length := by
          have := List.length_pos_of_ne_nil hne
          rw [hs', List.length_append]
          omega
        rw [readUnits_append hmark.plain, Option.map_eq_some_iff] at hr
        obtain ⟨⟨us', r'⟩, hr', hpair⟩ := hr
        obtain ⟨rfl, rfl⟩ := Prod.mk.inj hpair
        obtain ⟨v, hv, rfl, rfl, ha⟩ := readUnits_marked s' hb hr'
        refine ⟨mark ++ v, hs' ▸ .mark ht hne hv, ?_, ?_, ha⟩
        · rw [List.flatMap_append, flatMap_units_plain hmark.plain]
        · rw [escape_append, escape_plain hmark.plain, List.append_assoc]
    · rw [escape_cons, List.append_assoc] at hm
      obtain ⟨b, us', rfl, rfl, hr', hb⟩ := readUnits_escapeChar hmark hc hm hr
      obtain ⟨v, hv, rfl, rfl, ha⟩ := readUnits_marked s hb hr'
      refine ⟨c :: v, .cons c hv, by rw [List.flatMap_cons], ?_, ha⟩
      rw [escape_cons, List.append_assoc]
termination_by s => s.length
decreasing_by
  · exact Nat.lt_succ_self _
  · exact hlen
  · exact Nat.lt_succ_self _

/-- **A marked string**, read behind its opening quote. -/
theorem readString_marked {s a T r : List Char} {w : List Nat}
    (hm : Marked P mark (escape s ++ '\x22' :: a) T) (hr : readString T = some (w, r)) :
    ∃ v, Marked P mark s v ∧ w = v.map Char.toNat ∧ T = escape v ++ '\x22' :: r ∧
      Marked P mark a r := by
  obtain ⟨⟨us, r'⟩, hus, hpair⟩ := Option.map_eq_some_iff.1 hr
  obtain ⟨rfl, rfl⟩ := Prod.mk.inj hpair
  obtain ⟨v, hv, rfl, hT, ha⟩ := readUnits_marked hmark s hm hus
  exact ⟨v, hv, joinSurrogates_units v, hT, ha⟩

end Strings

/-! ## Structures -/

/-- A string that was read is one of the given strings with marks, and its escape is in the
text. -/
def ReadFrom (P : List Char → Prop) (mark : List Char) (sources : List (List Char)) (T : List Char) (w : List Nat) : Prop :=
  ∃ v, w = v.map Char.toNat ∧ escape v <:+: T ∧ ∃ s ∈ sources, Marked P mark s v

/-- What reading a marked text leaves: the marked rest, and strings that are all accounted for. -/
structure ReadsAs (P : List Char → Prop) (mark : List Char) (sources : List (List Char)) (a T : List Char)
    (strings : List (List Nat)) (rest : List Char) : Prop where
  marked : Marked P mark a rest
  suffix : rest <:+ T
  strings : ∀ w ∈ strings, ReadFrom P mark sources T w

theorem ReadFrom.mono {sources sources' : List (List Char)} {T T' : List Char} {w : List Nat}
    (h : ReadFrom P mark sources T w) (hs : sources ⊆ sources') (hT : T <:+: T') :
    ReadFrom P mark sources' T' w := by
  obtain ⟨v, hw, hin, s, hmem, hv⟩ := h
  exact ⟨v, hw, hin.trans hT, s, hs hmem, hv⟩

/-- A value begins with a letter that is no blank and ends no list. -/
theorem dumps_head : ∀ x : Nested, ∃ c rest, dumps x = c :: rest ∧ isBlank c = false ∧ c ≠ ']'
  | .null => ⟨_, _, rfl, rfl, by decide⟩
  | .str _ => ⟨_, _, rfl, rfl, by decide⟩
  | .list [] => ⟨_, _, by rw [dumps], rfl, by decide⟩
  | .list (_ :: _) => ⟨_, _, by rw [dumps], rfl, by decide⟩
  | .dict [] => ⟨_, _, by rw [dumps], rfl, by decide⟩
  | .dict ((_, _) :: _) => ⟨_, _, by rw [dumps], rfl, by decide⟩

theorem skipBlanks_cons {c : Char} (h : isBlank c = false) (T : List Char) :
    skipBlanks (c :: T) = c :: T := List.dropWhile_cons_of_neg (by simp [h])

theorem skipBlanks_blank (T : List Char) : skipBlanks (' ' :: T) = skipBlanks T := rfl

theorem skipBlanks_suffix (T : List Char) : skipBlanks T <:+ T := List.dropWhile_suffix _

/-- Blanks are skipped up to the letter that follows them, or to a mark. -/
theorem skipBlanks_marked (hmark : JsonMark P mark) {c : Char} (hc : isBlank c = false)
    {a T : List Char} (h : Marked P mark (c :: a) T) : skipBlanks T = T := by
  rcases marked_cons hmark h with ⟨b, rfl, -⟩ | ⟨b, rfl⟩
  · exact skipBlanks_cons hc b
  · exact skipBlanks_cons rfl _

theorem readValue_mark (depth : Nat) (b : List Char) : readValue depth ('[' :: 'r' :: b) = none := by
  have hword : skipScalar ('r' :: b) = none := by simp [skipScalar, words, skipNumber]
  match depth with
  | 0 => rw [readValue]
  | 1 => rfl
  | 2 => rfl
  | depth + 3 =>
    have hitem : readValue (depth + 1) ('r' :: b) = none := by
      show ((skipScalar ('r' :: b)).map fun rest => ([], rest)) = none
      rw [hword]
      rfl
    show readItems (depth + 2) ('r' :: b) = none
    rw [readItems, hitem]
    rfl

theorem readValue_brackets {depth : Nat} {T r : List Char} (h : skipBlanks T = ']' :: r) :
    readValue (depth + 1) ('[' :: T) = some ([], r) := by
  rw [readValue, h]
  rfl

theorem readValue_items {depth : Nat} {T : List Char} (h : ∀ r, skipBlanks T ≠ ']' :: r) :
    readValue (depth + 1) ('[' :: T) = readItems depth (skipBlanks T) := by
  rw [readValue]
  split
  · exact absurd ‹_› (h _)
  · rfl

theorem readValue_braces {depth : Nat} {T r : List Char} (h : skipBlanks T = '}' :: r) :
    readValue (depth + 1) ('{' :: T) = some ([], r) := by
  rw [readValue, h]
  rfl

theorem readValue_members {depth : Nat} {T : List Char} (h : ∀ r, skipBlanks T ≠ '}' :: r) :
    readValue (depth + 1) ('{' :: T) = readMembers depth (skipBlanks T) := by
  rw [readValue]
  split
  · exact absurd ‹_› (h _)
  · rfl

theorem readItems_mark (depth : Nat) (b : List Char) : readItems depth ('[' :: 'r' :: b) = none := by
  cases depth with
  | zero => rw [readItems]
  | succ depth =>
    rw [readItems, readValue_mark]
    rfl

theorem readMembers_of_ne {c : Char} (hc : c ≠ '\x22') (depth : Nat) (b : List Char) :
    readMembers depth (c :: b) = none := by
  cases depth with
  | zero => rw [readMembers]; simp
  | succ depth =>
    rw [readMembers]
    intro _ _ _ h
    exact hc (List.cons.inj h).1

/-- A list that was read: its first item, and either the end or the items that follow. -/
theorem readItems_inv {depth : Nat} {T r : List Char} {ss : List (List Nat)}
    (h : readItems (depth + 1) T = some (ss, r)) :
    ∃ item rest, readValue depth T = some (item, rest) ∧
      ((skipBlanks rest = ']' :: r ∧ ss = item) ∨
        ∃ T' items, skipBlanks rest = ',' :: T' ∧
          readItems depth (skipBlanks T') = some (items, r) ∧ ss = item ++ items) := by
  rw [readItems] at h
  obtain ⟨⟨item, rest⟩, hitem, h⟩ := Option.bind_eq_some_iff.1 h
  refine ⟨item, rest, hitem, ?_⟩
  dsimp only at h
  split at h
  · rename_i r' hrest
    obtain ⟨rfl, rfl⟩ := Prod.mk.inj (Option.some.inj h)
    exact .inl ⟨hrest, rfl⟩
  · rename_i T' hrest
    obtain ⟨⟨items, r'⟩, hitems, h⟩ := Option.bind_eq_some_iff.1 h
    obtain ⟨rfl, rfl⟩ := Prod.mk.inj (Option.some.inj h)
    exact .inr ⟨T', items, hrest, hitems, rfl⟩
  · exact (nomatch h)

/-- A dictionary that was read: its first member, and either the end or those that follow. -/
theorem readMembers_inv {depth : Nat} {T r : List Char} {ss : List (List Nat)}
    (h : readMembers (depth + 1) T = some (ss, r)) :
    ∃ T₀ key T₁ T₂ value T₃, T = '\x22' :: T₀ ∧ readString T₀ = some (key, T₁) ∧
      skipBlanks T₁ = ':' :: T₂ ∧ readValue depth (skipBlanks T₂) = some (value, T₃) ∧
      ((skipBlanks T₃ = '}' :: r ∧ ss = key :: value) ∨
        ∃ T₄ members, skipBlanks T₃ = ',' :: T₄ ∧
          readMembers depth (skipBlanks T₄) = some (members, r) ∧
          ss = key :: (value ++ members)) := by
  cases T with
  | nil => exact absurd h (by rw [readMembers]; simp; simp)
  | cons c T₀ =>
    by_cases hc : c = '\x22'
    · subst hc
      rw [readMembers] at h
      obtain ⟨⟨key, T₁⟩, hkey, h⟩ := Option.bind_eq_some_iff.1 h
      dsimp only at h
      split at h
      · rename_i T₂ hcolon
        obtain ⟨⟨value, T₃⟩, hvalue, h⟩ := Option.bind_eq_some_iff.1 h
        refine ⟨T₀, key, T₁, T₂, value, T₃, rfl, hkey, hcolon, hvalue, ?_⟩
        dsimp only at h
        split at h
        · rename_i r' hrest
          obtain ⟨rfl, rfl⟩ := Prod.mk.inj (Option.some.inj h)
          exact .inl ⟨hrest, rfl⟩
        · rename_i T₄ hrest
          obtain ⟨⟨members, r'⟩, hmembers, h⟩ := Option.bind_eq_some_iff.1 h
          obtain ⟨rfl, rfl⟩ := Prod.mk.inj (Option.some.inj h)
          exact .inr ⟨T₄, members, hrest, hmembers, rfl⟩
        · exact (nomatch h)
      · exact (nomatch h)
    · rw [readMembers_of_ne hc] at h
      exact (nomatch h)

/-- Behind a separator stands the value, or a mark. -/
theorem skip_separator (hmark : JsonMark P mark) {c : Char} (hc : isBlank c = false)
    {a T : List Char} (h : Marked P mark (' ' :: c :: a) T) :
    skipBlanks T <:+ T ∧
      (Marked P mark (c :: a) (skipBlanks T) ∨ ∃ b, skipBlanks T = '[' :: 'r' :: b) := by
  refine ⟨skipBlanks_suffix T, ?_⟩
  rcases marked_cons hmark h with ⟨b, rfl, hm⟩ | ⟨b, rfl⟩
  · rw [skipBlanks_blank, skipBlanks_marked hmark hc hm]
    exact .inl hm
  · exact .inr ⟨b, skipBlanks_cons rfl _⟩

/-- The reader goes through a marked text as it would go through the text. -/
structure Lockstep (P : List Char → Prop) (mark : List Char) (depth : Nat) : Prop where
  value : ∀ (x : Nested) {a T r : List Char} {ss : List (List Nat)},
    Marked P mark (dumps x ++ a) T → readValue depth T = some (ss, r) →
    ReadsAs P mark x.strings a T ss r
  items : ∀ (x : Nested) (xs : List Nested) {a T r : List Char} {ss : List (List Nat)},
    Marked P mark (dumps x ++ (dumpsItems xs ++ a)) T → readItems depth T = some (ss, r) →
    ReadsAs P mark (itemStrings (x :: xs)) a T ss r
  members : ∀ (key : List Char) (x : Nested) (ms : List (List Char × Nested))
      {a T r : List Char} {ss : List (List Nat)},
    Marked P mark
      (literal key ++ ':' :: ' ' :: (dumps x ++ (dumpsMembers ms ++ a))) T →
    readMembers depth T = some (ss, r) → ReadsAs P mark (memberStrings ((key, x) :: ms)) a T ss r

theorem ReadsAs.mono {sources sources' : List (List Char)} {a T T' r : List Char}
    {ss : List (List Nat)} (h : ReadsAs P mark sources a T ss r) (hs : sources ⊆ sources')
    (hT : T <:+ T') : ReadsAs P mark sources' a T' ss r :=
  ⟨h.marked, h.suffix.trans hT, fun w hw => (h.strings w hw).mono hs hT.isInfix⟩

theorem skipBlanks_dumps (hmark : JsonMark P mark) (x : Nested) {a T : List Char}
    (h : Marked P mark (' ' :: (dumps x ++ a)) T) :
    skipBlanks T <:+ T ∧
      (Marked P mark (dumps x ++ a) (skipBlanks T) ∨
        ∃ b, skipBlanks T = '[' :: 'r' :: b) := by
  obtain ⟨c, rest, hx, hc, -⟩ := dumps_head x
  rw [hx] at h ⊢
  exact skip_separator hmark hc h

namespace Lockstep

variable {depth : Nat} (hmark : JsonMark P mark)
include hmark

/-- The items behind the first. -/
theorem items_succ (ih : Lockstep P mark depth) (x : Nested) (xs : List Nested)
    {a T r : List Char} {ss : List (List Nat)}
    (hm : Marked P mark (dumps x ++ (dumpsItems xs ++ a)) T)
    (hr : readItems (depth + 1) T = some (ss, r)) :
    ReadsAs P mark (itemStrings (x :: xs)) a T ss r := by
  obtain ⟨item, rest, hitem, htail⟩ := readItems_inv hr
  have hfirst := ih.value x hm hitem
  have hleft : x.strings ⊆ itemStrings (x :: xs) := by
    rw [itemStrings]
    exact List.subset_append_left _ _
  cases xs with
  | nil =>
    have hend : Marked P mark (']' :: a) rest := hfirst.marked
    rw [skipBlanks_marked hmark rfl hend] at htail
    rcases htail with ⟨rfl, rfl⟩ | ⟨T', items, rfl, -, -⟩
    · obtain ⟨-, ha⟩ := marked_head hmark (by decide) hend
      exact ⟨ha, (List.suffix_cons _ _).trans hfirst.suffix, (hfirst.mono hleft List.suffix_rfl).strings⟩
    · exact absurd (marked_head hmark (by decide) hend).1 (by decide)
  | cons y ys =>
    have hsep : Marked P mark (',' :: ' ' :: (dumps y ++ (dumpsItems ys ++ a))) rest := by
      have := hfirst.marked
      rw [dumpsItems] at this
      simpa using this
    rw [skipBlanks_marked hmark rfl hsep] at htail
    rcases htail with ⟨rfl, -⟩ | ⟨T', items, rfl, hitems, rfl⟩
    · exact absurd (marked_head hmark (by decide) hsep).1 (by decide)
    · obtain ⟨-, hblank⟩ := marked_head hmark (by decide) hsep
      obtain ⟨hsuffix, hnext | ⟨b, hb⟩⟩ := skipBlanks_dumps hmark y hblank
      · have hrest := ih.items y ys hnext hitems
        have hT : skipBlanks T' <:+ T := (hsuffix.trans (List.suffix_cons _ _)).trans hfirst.suffix
        have hright : itemStrings (y :: ys) ⊆ itemStrings (x :: y :: ys) := by
          rw [itemStrings.eq_2 x]
          exact List.subset_append_right _ _
        refine ⟨hrest.marked, hrest.suffix.trans hT, fun w hw => ?_⟩
        rcases List.mem_append.1 hw with hw | hw
        · exact (hfirst.mono hleft List.suffix_rfl).strings w hw
        · exact (hrest.mono hright hT).strings w hw
      · rw [hb, readItems_mark] at hitems
        exact (nomatch hitems)

/-- The members behind the first. -/
theorem members_succ (ih : Lockstep P mark depth) (key : List Char) (x : Nested)
    (ms : List (List Char × Nested)) {a T r : List Char} {ss : List (List Nat)}
    (hm : Marked P mark
      (literal key ++ ':' :: ' ' :: (dumps x ++ (dumpsMembers ms ++ a))) T)
    (hr : readMembers (depth + 1) T = some (ss, r)) :
    ReadsAs P mark (memberStrings ((key, x) :: ms)) a T ss r := by
  obtain ⟨T₀, w, T₁, T₂, value, T₃, rfl, hkey, hcolon, hvalue, htail⟩ := readMembers_inv hr
  have hliteral : Marked P mark
      (escape key ++ '\x22' :: (':' :: ' ' :: (dumps x ++ (dumpsMembers ms ++ a)))) T₀ := by
    obtain ⟨-, h⟩ := marked_head hmark (by decide) hm
    simpa using h
  obtain ⟨v, hv, rfl, rfl, h₁⟩ := readString_marked hmark hliteral hkey
  rw [skipBlanks_marked hmark rfl h₁] at hcolon
  subst hcolon
  obtain ⟨-, hblank⟩ := marked_head hmark (by decide) h₁
  obtain ⟨hsuffix, hnext | ⟨b, hb⟩⟩ := skipBlanks_dumps hmark x hblank
  swap
  · rw [hb, readValue_mark] at hvalue
    exact (nomatch hvalue)
  have hfirst := ih.value x hnext hvalue
  -- the key's literal, the value and what follows are parts of the text
  have hT₂ : T₂ <:+ '\x22' :: (escape v ++ '\x22' :: ':' :: T₂) :=
    ⟨'\x22' :: (escape v ++ ['\x22', ':']), by simp⟩
  have hkeyRead : ReadFrom P mark (memberStrings ((key, x) :: ms))
      ('\x22' :: (escape v ++ '\x22' :: ':' :: T₂)) (v.map Char.toNat) := by
    refine ⟨v, rfl, ⟨['\x22'], '\x22' :: ':' :: T₂, by simp⟩, key, ?_, hv⟩
    rw [memberStrings]
    exact List.mem_cons_self
  have hleft : x.strings ⊆ memberStrings ((key, x) :: ms) := by
    rw [memberStrings]
    exact fun s hs => List.mem_cons_of_mem _ (List.mem_append_left _ hs)
  have hvalueRead := hfirst.mono hleft (hsuffix.trans hT₂)
  cases ms with
  | nil =>
    have hend : Marked P mark ('}' :: a) T₃ := hfirst.marked
    rw [skipBlanks_marked hmark rfl hend] at htail
    rcases htail with ⟨rfl, rfl⟩ | ⟨T₄, members, rfl, -, -⟩
    · obtain ⟨-, ha⟩ := marked_head hmark (by decide) hend
      refine ⟨ha, (List.suffix_cons _ _).trans hvalueRead.suffix, fun s hs => ?_⟩
      rcases List.mem_cons.1 hs with rfl | hs
      · exact hkeyRead
      · exact hvalueRead.strings s hs
    · exact absurd (marked_head hmark (by decide) hend).1 (by decide)
  | cons m ms =>
    obtain ⟨key', y⟩ := m
    have hsep : Marked P mark
        (',' :: ' ' :: '\x22' ::
          (escape key' ++ '\x22' :: ':' :: ' ' :: (dumps y ++ (dumpsMembers ms ++ a)))) T₃ := by
      have := hfirst.marked
      rw [dumpsMembers] at this
      simpa [literal] using this
    rw [skipBlanks_marked hmark rfl hsep] at htail
    rcases htail with ⟨rfl, -⟩ | ⟨T₄, members, rfl, hmembers, rfl⟩
    · exact absurd (marked_head hmark (by decide) hsep).1 (by decide)
    · obtain ⟨-, hblank'⟩ := marked_head hmark (by decide) hsep
      obtain ⟨hsuffix', hnext' | ⟨b, hb⟩⟩ := skip_separator hmark rfl hblank'
      · have hrest := ih.members key' y ms (by simpa [literal] using hnext') hmembers
        have hright : memberStrings ((key', y) :: ms) ⊆
            memberStrings ((key, x) :: (key', y) :: ms) := by
          rw [memberStrings.eq_2 key x]
          exact fun s hs => List.mem_cons_of_mem _ (List.mem_append_right _ hs)
        have hrestRead := hrest.mono hright
          ((hsuffix'.trans (List.suffix_cons _ _)).trans hvalueRead.suffix)
        refine ⟨hrestRead.marked, hrestRead.suffix, fun s hs => ?_⟩
        rcases List.mem_cons.1 hs with rfl | hs
        · exact hkeyRead
        · rcases List.mem_append.1 hs with hs | hs
          · exact hvalueRead.strings s hs
          · exact hrestRead.strings s hs
      · rw [hb, readMembers_of_ne (by decide)] at hmembers
        exact (nomatch hmembers)

/-- The word of an empty value. -/
theorem null_succ {a T r : List Char} {ss : List (List Nat)}
    (hm : Marked P mark (dumps .null ++ a) T)
    (hr : readValue (depth + 1) T = some (ss, r)) : ReadsAs P mark [] a T ss r := by
  rw [dumps] at hm
  have hstop : ∀ (w b : List Char), w ∈ [['n'], ['n', 'u'], ['n', 'u', 'l']] →
      readValue (depth + 1) (w ++ '[' :: b) = none := by
    intro w b hw
    simp only [List.mem_cons, List.not_mem_nil, or_false] at hw
    rcases hw with rfl | rfl | rfl <;> simp [readValue, skipScalar, words, skipNumber]
  rcases marked_cons hmark hm with ⟨T₁, rfl, h₁⟩ | ⟨b, rfl⟩
  swap
  · rw [readValue_mark] at hr
    exact (nomatch hr)
  rcases marked_cons hmark h₁ with ⟨T₂, rfl, h₂⟩ | ⟨b, rfl⟩
  swap
  · exact absurd (hstop ['n'] b (by simp)) (hr ▸ Option.some_ne_none _)
  rcases marked_cons hmark h₂ with ⟨T₃, rfl, h₃⟩ | ⟨b, rfl⟩
  swap
  · exact absurd (hstop ['n', 'u'] b (by simp)) (hr ▸ Option.some_ne_none _)
  rcases marked_cons hmark h₃ with ⟨T₄, rfl, h₄⟩ | ⟨b, rfl⟩
  swap
  · exact absurd (hstop ['n', 'u', 'l'] b (by simp)) (hr ▸ Option.some_ne_none _)
  have hread : readValue (depth + 1) ('n' :: 'u' :: 'l' :: 'l' :: T₄) = some ([], T₄) := by
    simp [readValue, skipScalar, words]
  rw [hread, Option.some.injEq, Prod.mk.injEq] at hr
  obtain ⟨rfl, rfl⟩ := hr
  exact ⟨h₄, ⟨['n', 'u', 'l', 'l'], rfl⟩, fun w hw => absurd hw List.not_mem_nil⟩

/-- A value, from what it holds. -/
theorem value_succ (ih : Lockstep P mark depth) (x : Nested) {a T r : List Char}
    {ss : List (List Nat)} (hm : Marked P mark (dumps x ++ a) T)
    (hr : readValue (depth + 1) T = some (ss, r)) : ReadsAs P mark x.strings a T ss r := by
  have hopen : ∀ (c : Char) (rest : List Char), dumps x ++ a = c :: rest →
      ∃ T', T = c :: T' ∧ Marked P mark rest T' := by
    intro c rest hx
    rw [hx] at hm
    rcases marked_cons hmark hm with hT | ⟨b, rfl⟩
    · exact hT
    · rw [readValue_mark] at hr
      exact (nomatch hr)
  cases x with
  | null =>
    rw [strings]
    exact null_succ hmark hm hr
  | str text =>
    obtain ⟨T', rfl, h⟩ := hopen '\x22' (escape text ++ '\x22' :: a) (by simp [dumps, literal])
    rw [readValue, Option.map_eq_some_iff] at hr
    obtain ⟨⟨w, r'⟩, hw, hpair⟩ := hr
    obtain ⟨rfl, rfl⟩ := Prod.mk.inj hpair
    obtain ⟨v, hv, rfl, rfl, ha⟩ := readString_marked hmark h hw
    refine ⟨ha, ⟨'\x22' :: (escape v ++ ['\x22']), by simp⟩, fun s hs => ?_⟩
    rw [List.mem_singleton.1 hs, strings]
    exact ⟨v, rfl, ⟨['\x22'], '\x22' :: r', by simp⟩, text, List.mem_singleton_self _, hv⟩
  | list items =>
    cases items with
    | nil =>
      obtain ⟨T', rfl, h⟩ := hopen '[' (']' :: a) (by rw [dumps]; rfl)
      have hskip := skipBlanks_marked hmark rfl h
      rcases marked_cons hmark h with ⟨b, rfl, ha⟩ | ⟨b, rfl⟩
      · rw [readValue_brackets hskip, Option.some.injEq, Prod.mk.injEq] at hr
        obtain ⟨rfl, rfl⟩ := hr
        exact ⟨ha, ⟨['[', ']'], rfl⟩, fun w hw => absurd hw List.not_mem_nil⟩
      · rw [readValue_items (by rw [hskip]; simp), hskip, readItems_mark] at hr
        exact (nomatch hr)
    | cons x xs =>
      obtain ⟨T', rfl, h⟩ := hopen '[' (dumps x ++ (dumpsItems xs ++ a)) (by
        rw [dumps]; simp)
      obtain ⟨c, rest, hx, hc, hne⟩ := dumps_head x
      have hh : Marked P mark (c :: (rest ++ (dumpsItems xs ++ a))) T' := by
        rw [hx] at h
        exact h
      have hskip := skipBlanks_marked hmark hc hh
      have hno : ∀ r, T' ≠ ']' :: r := by
        rintro r rfl
        exact hne (marked_head hmark (by decide) hh).1.symm
      rw [readValue_items (by rw [hskip]; exact hno), hskip] at hr
      rw [strings]
      exact (ih.items x xs h hr).mono (List.Subset.refl _) (List.suffix_cons _ _)
  | dict members =>
    cases members with
    | nil =>
      obtain ⟨T', rfl, h⟩ := hopen '{' ('}' :: a) (by rw [dumps]; rfl)
      have hskip := skipBlanks_marked hmark rfl h
      rcases marked_cons hmark h with ⟨b, rfl, ha⟩ | ⟨b, rfl⟩
      · rw [readValue_braces hskip, Option.some.injEq, Prod.mk.injEq] at hr
        obtain ⟨rfl, rfl⟩ := hr
        exact ⟨ha, ⟨['{', '}'], rfl⟩, fun w hw => absurd hw List.not_mem_nil⟩
      · rw [readValue_members (by rw [hskip]; simp), hskip, readMembers_of_ne (by decide)] at hr
        exact (nomatch hr)
    | cons m ms =>
      obtain ⟨key, x⟩ := m
      obtain ⟨T', rfl, h⟩ := hopen '{'
        (literal key ++ ':' :: ' ' :: (dumps x ++ (dumpsMembers ms ++ a))) (by
          rw [dumps]; simp)
      have hskip := skipBlanks_marked hmark rfl h
      have hno : ∀ r, T' ≠ '}' :: r := by
        rintro r rfl
        exact absurd (marked_head hmark (by decide) h).1 (by decide)
      rw [readValue_members (by rw [hskip]; exact hno), hskip] at hr
      rw [strings]
      exact (ih.members key x ms h hr).mono (List.Subset.refl _) (List.suffix_cons _ _)

/-- **In lockstep**, however deep the reader goes. -/
theorem all : ∀ depth, Lockstep P mark depth
  | 0 => by
    constructor
    · intro x a T r ss _ hr
      rw [readValue] at hr
      exact (nomatch hr)
    · intro x xs a T r ss _ hr
      rw [readItems] at hr
      exact (nomatch hr)
    · intro key x ms a T r ss _ hr
      rw [readMembers] at hr
      · exact (nomatch hr)
      · simp
  | depth + 1 =>
    ⟨value_succ hmark (all depth), items_succ hmark (all depth),
      members_succ hmark (all depth)⟩

end Lockstep

/-- **The strings of a marked text**: each is a string of the structure with marks, and its
escape is in the text. -/
theorem loads_marked (hmark : JsonMark P mark) {depth : Nat} {x : Nested}
    {T : List Char} {ss : List (List Nat)} (hm : Marked P mark (dumps x) T)
    (hr : loads depth T = some ss) : ∀ w ∈ ss, ReadFrom P mark x.strings T w := by
  obtain ⟨c, rest, hx, hc, -⟩ := dumps_head x
  have hskip : skipBlanks T = T := by
    rw [hx] at hm
    exact skipBlanks_marked hmark hc hm
  rw [← List.append_nil (dumps x)] at hm
  unfold loads at hr
  rw [hskip] at hr
  split at hr
  · rename_i strings rest' hread
    split at hr
    · obtain rfl := Option.some.inj hr
      exact ((Lockstep.all hmark depth).value x hm hread).strings
    · exact (nomatch hr)
  · exact (nomatch hr)

end JsonText
