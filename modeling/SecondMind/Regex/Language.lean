import SecondMind.Regex.Pattern

/-!
# What patterns match

The texts of a pattern, without regard to what stands around them, and that every way the engine
finds takes one of them.

* `Pattern.Lang` — the texts of a pattern; `Pattern.GroupLang` — the texts of its groups;
* `Pattern.run_sound` — a way that is found takes a text of the pattern, and so do its groups;
* `fullmatch_sound`, `search_sound` — what a match says about the text;
* `sub_anchored` — what replacing a pattern at the start of a text does;
* `Pattern.Within`, `Pattern.Among` — the letters of a pattern, and all of its texts.
-/

namespace Regex

namespace Pattern

/-! ## Languages -/

/-- The texts that a pattern may take; what it asks of the surroundings is left out. -/
def Lang : Pattern → List Char → Prop
  | empty, w => w = []
  | one accepts, w => ∃ c, accepts c = true ∧ w = [c]
  | seq p q, w => ∃ u v, w = u ++ v ∧ p.Lang u ∧ q.Lang v
  | alt p q, w => p.Lang w ∨ q.Lang w
  | rep least most _ p, w => ∃ us : List (List Char), w = us.flatten ∧ (∀ u ∈ us, p.Lang u) ∧
      least ≤ us.length ∧ ∀ n ∈ most, us.length ≤ max least n
  | group _ p, w => p.Lang w
  | start, w => w = []
  | stop, w => w = []
  | edge _, w => w = []
  | ahead _ _, w => w = []

/-- The texts that a group of a pattern may take. -/
def GroupLang : Pattern → Nat → List Char → Prop
  | seq p q, n, w => p.GroupLang n w ∨ q.GroupLang n w
  | alt p q, n, w => p.GroupLang n w ∨ q.GroupLang n w
  | rep _ _ _ p, n, w => p.GroupLang n w
  | group m p, n, w => (n = m ∧ p.Lang w) ∨ p.GroupLang n w
  | _, _, _ => False

/-! ## Soundness -/

end Pattern

/-- From one place to another, over a text. -/
structure Cursor.Moves (c d : Cursor) (w : List Char) : Prop where
  rest : c.rest = w ++ d.rest
  before : d.before = w.reverse ++ c.before

namespace Cursor

variable {c d e : Cursor} {u v w : List Char}

theorem Moves.refl (c : Cursor) : c.Moves c [] := ⟨rfl, rfl⟩

theorem Moves.trans (h : c.Moves d u) (h' : d.Moves e v) : c.Moves e (u ++ v) where
  rest := by rw [h.rest, h'.rest, List.append_assoc]
  before := by rw [h'.before, h.before, List.reverse_append, List.append_assoc]

theorem Moves.taken (h : c.Moves d w) : c.taken d = w := by
  unfold Cursor.taken
  rw [h.before, List.length_append, Nat.add_sub_cancel, List.take_left, List.reverse_reverse]

end Cursor

/-- The groups that were read on the way are groups of the pattern. -/
def Cursor.Reads (p : Pattern) (c d : Cursor) : Prop :=
  ∀ n w, (n, w) ∈ d.groups → (n, w) ∈ c.groups ∨ p.GroupLang n w

/-- A way that takes a text of the pattern. -/
def Sound (p : Pattern) (c d : Cursor) : Prop :=
  (∃ w, p.Lang w ∧ c.Moves d w) ∧ c.Reads p d

/-- Several times, over texts of the pattern. -/
def SoundTimes (p : Pattern) (c d : Cursor) (us : List (List Char)) : Prop :=
  (∀ u ∈ us, p.Lang u) ∧ c.Moves d us.flatten ∧ c.Reads p d

theorem SoundTimes.nil (p : Pattern) (c : Cursor) : SoundTimes p c c [] :=
  ⟨fun _ hu => absurd hu List.not_mem_nil, .refl c, fun _ _ hw => .inl hw⟩

theorem Cursor.Reads.trans {p : Pattern} {c d e : Cursor} (h : c.Reads p d) (h' : d.Reads p e) :
    c.Reads p e := by
  intro n w hw
  rcases h' n w hw with hw | hw
  · exact h n w hw
  · exact .inr hw

theorem SoundTimes.cons {p : Pattern} {c d e : Cursor} {us : List (List Char)} (h : Sound p c d)
    (h' : SoundTimes p d e us) : ∃ u, SoundTimes p c e (u :: us) := by
  obtain ⟨⟨u, hu, hmoves⟩, hreads⟩ := h
  obtain ⟨hus, hmoves', hreads'⟩ := h'
  refine ⟨u, fun v hv => ?_, by rw [List.flatten_cons]; exact hmoves.trans hmoves',
    hreads.trans hreads'⟩
  rcases List.mem_cons.1 hv with rfl | hv
  · exact hu
  · exact hus v hv

theorem SoundTimes.append {p : Pattern} {c d e : Cursor} {us vs : List (List Char)}
    (h : SoundTimes p c d us) (h' : SoundTimes p d e vs) : SoundTimes p c e (us ++ vs) := by
  obtain ⟨hus, hmoves, hreads⟩ := h
  obtain ⟨hvs, hmoves', hreads'⟩ := h'
  refine ⟨fun u hu => ?_, by rw [List.flatten_append]; exact hmoves.trans hmoves',
    hreads.trans hreads'⟩
  rcases List.mem_append.1 hu with hu | hu
  · exact hus u hu
  · exact hvs u hu

theorem times_sound {p : Pattern} (hp : ∀ c, ∀ d ∈ p.run c, Sound p c d) {n : Nat} {c d : Cursor}
    (h : d ∈ times p.run n c) : ∃ us, SoundTimes p c d us ∧ us.length = n := by
  induction n generalizing c with
  | zero =>
    obtain rfl := List.mem_singleton.1 h
    exact ⟨[], .nil p d, rfl⟩
  | succ n ih =>
    obtain ⟨e, he, h⟩ := List.mem_flatMap.1 h
    obtain ⟨us, hus, hlen⟩ := ih h
    obtain ⟨u, hcons⟩ := SoundTimes.cons (hp c e he) hus
    exact ⟨u :: us, hcons, congrArg (· + 1) hlen⟩

theorem iterate_sound {p : Pattern} (hp : ∀ c, ∀ d ∈ p.run c, Sound p c d) {greedy : Bool}
    {fuel : Nat} {c d : Cursor} (h : d ∈ iterate p.run greedy fuel c) :
    ∃ us, SoundTimes p c d us ∧ us.length ≤ fuel := by
  induction fuel generalizing c with
  | zero =>
    obtain rfl := List.mem_singleton.1 h
    exact ⟨[], .nil p d, Nat.le_refl 0⟩
  | succ fuel ih =>
    have hcases : d = c ∨ ∃ e ∈ p.run c, d ∈ iterate p.run greedy fuel e := by
      have hmore : (d ∈ (p.run c).flatMap fun e =>
          if e.rest.length < c.rest.length then iterate p.run greedy fuel e else []) →
          ∃ e ∈ p.run c, d ∈ iterate p.run greedy fuel e := by
        intro hd
        obtain ⟨e, he, hd⟩ := List.mem_flatMap.1 hd
        split at hd
        · exact ⟨e, he, hd⟩
        · exact absurd hd List.not_mem_nil
      unfold iterate at h
      dsimp only at h
      split at h
      · rcases List.mem_append.1 h with h | h
        · exact .inr (hmore h)
        · exact .inl (List.mem_singleton.1 h)
      · rcases List.mem_cons.1 h with h | h
        · exact .inl h
        · exact .inr (hmore h)
    rcases hcases with rfl | ⟨e, he, hd⟩
    · exact ⟨[], .nil p d, Nat.zero_le _⟩
    · obtain ⟨us, hus, hlen⟩ := ih hd
      obtain ⟨u, hcons⟩ := SoundTimes.cons (hp c e he) hus
      exact ⟨u :: us, hcons, Nat.succ_le_succ hlen⟩

/-- An assertion takes nothing. -/
theorem sound_of_assertion {p : Pattern} {c d : Cursor} {b : Prop} [Decidable b] (hp : p.Lang [])
    (h : d ∈ if b then [c] else []) : Sound p c d := by
  split at h
  · obtain rfl := List.mem_singleton.1 h
    exact ⟨⟨[], hp, .refl d⟩, fun _ _ hw => .inl hw⟩
  · exact absurd h List.not_mem_nil

/-- **Every way** that the engine finds takes a text of the pattern. -/
theorem Pattern.run_sound (p : Pattern) : ∀ c, ∀ d ∈ p.run c, Sound p c d := by
  induction p with
  | empty =>
    intro c d h
    obtain rfl := List.mem_singleton.1 h
    exact ⟨⟨[], rfl, .refl d⟩, fun _ _ hw => .inl hw⟩
  | one accepts =>
    intro c d h
    unfold Pattern.run at h
    split at h
    · exact absurd h List.not_mem_nil
    · rename_i x rest hrest
      split at h
      · rename_i hx
        obtain rfl := List.mem_singleton.1 h
        exact ⟨⟨[x], ⟨x, hx, rfl⟩, hrest, rfl⟩, fun _ _ hw => .inl hw⟩
      · exact absurd h List.not_mem_nil
  | seq p q hp hq =>
    intro c d h
    obtain ⟨e, he, h⟩ := List.mem_flatMap.1 h
    obtain ⟨⟨u, hu, hmoves⟩, hreads⟩ := hp c e he
    obtain ⟨⟨v, hv, hmoves'⟩, hreads'⟩ := hq e d h
    refine ⟨⟨u ++ v, ⟨u, v, rfl, hu, hv⟩, hmoves.trans hmoves'⟩, fun n w hw => ?_⟩
    rcases hreads' n w hw with hw | hw
    · rcases hreads n w hw with hw | hw
      · exact .inl hw
      · exact .inr (.inl hw)
    · exact .inr (.inr hw)
  | alt p q hp hq =>
    intro c d h
    rcases List.mem_append.1 h with h | h
    · obtain ⟨⟨w, hw, hmoves⟩, hreads⟩ := hp c d h
      exact ⟨⟨w, .inl hw, hmoves⟩, fun n u hu => (hreads n u hu).imp_right .inl⟩
    · obtain ⟨⟨w, hw, hmoves⟩, hreads⟩ := hq c d h
      exact ⟨⟨w, .inr hw, hmoves⟩, fun n u hu => (hreads n u hu).imp_right .inr⟩
  | rep least most greedy p hp =>
    intro c d h
    obtain ⟨e, he, h⟩ := List.mem_flatMap.1 h
    obtain ⟨us, hus, hlen⟩ := times_sound hp he
    obtain ⟨vs, hvs, hlen'⟩ := iterate_sound hp h
    obtain ⟨hlang, hmoves, hreads⟩ := hus.append hvs
    refine ⟨⟨_, ⟨us ++ vs, rfl, hlang, ?_, fun n hn => ?_⟩, hmoves⟩, hreads⟩
    · rw [List.length_append, hlen]
      exact Nat.le_add_right _ _
    · obtain rfl : most = some n := hn
      rw [Option.elim_some] at hlen'
      rw [List.length_append]
      omega
  | group m p hp =>
    intro c d h
    obtain ⟨e, he, rfl⟩ := List.mem_map.1 h
    obtain ⟨⟨w, hw, hmoves⟩, hreads⟩ := hp c e he
    refine ⟨⟨w, hw, hmoves.rest, hmoves.before⟩, fun n u hu => ?_⟩
    rcases List.mem_cons.1 hu with hu | hu
    · obtain ⟨rfl, rfl⟩ := Prod.mk.inj hu
      rw [hmoves.taken]
      exact .inr (.inl ⟨rfl, hw⟩)
    · exact (hreads n u hu).imp_right .inr
  | start => exact fun c d h => sound_of_assertion rfl h
  | stop => exact fun c d h => sound_of_assertion rfl h
  | edge word => exact fun c d h => sound_of_assertion rfl h
  | ahead positive p => exact fun c d h => sound_of_assertion rfl h

/-! ## Matches -/

/-- A match of a pattern in a text. -/
structure MatchOf (p : Pattern) (text : List Char) (m : Match) : Prop where
  parts : text = m.before ++ m.taken ++ m.rest
  lang : p.Lang m.taken
  groups : ∀ n w, (n, w) ∈ m.groups → p.GroupLang n w

theorem matchOf_between {p : Pattern} {before rest : List Char} {d : Cursor}
    (h : d ∈ p.run { before := before, rest := rest }) :
    MatchOf p (before.reverse ++ rest)
      (Cursor.between { before := before, rest := rest } d) := by
  obtain ⟨⟨w, hw, hmoves⟩, hreads⟩ := p.run_sound _ d h
  have hrest : rest = w ++ d.rest := hmoves.rest
  refine ⟨?_, ?_, fun n u hu => (hreads n u hu).resolve_left List.not_mem_nil⟩
  · show _ = before.reverse ++ Cursor.taken _ d ++ d.rest
    rw [hmoves.taken, hrest, List.append_assoc]
  · show p.Lang (Cursor.taken _ d)
    rw [hmoves.taken]
    exact hw

theorem matchAt_sound {p : Pattern} {before rest : List Char} {m : Match}
    (h : matchAt p { before := before, rest := rest } = some m) :
    MatchOf p (before.reverse ++ rest) m ∧ m.before = before.reverse := by
  obtain ⟨d, hd, rfl⟩ := Option.map_eq_some_iff.1 h
  exact ⟨matchOf_between (List.mem_of_mem_head? hd), rfl⟩

/-- **A whole text** that matches is a text of the pattern. -/
theorem fullmatch_sound {p : Pattern} {text : List Char} {m : Match}
    (h : fullmatch p text = some m) : MatchOf p text m ∧ p.Lang text := by
  obtain ⟨d, hd, rfl⟩ := Option.map_eq_some_iff.1 h
  have hmatch := matchOf_between (List.mem_of_find?_eq_some hd)
  have hempty : d.rest = [] := List.isEmpty_iff.1 (List.find?_some hd :)
  refine ⟨hmatch, ?_⟩
  have hparts := hmatch.parts
  have hrest : (Cursor.between { before := [], rest := text } d).rest = [] := hempty
  have hbefore : (Cursor.between { before := [], rest := text } d).before = [] := rfl
  rw [hrest, hbefore, List.append_nil, List.nil_append, List.reverse_nil, List.nil_append] at hparts
  rw [hparts]
  exact hmatch.lang

theorem searchFrom_sound {p : Pattern} {before rest : List Char} {m : Match}
    (h : searchFrom p before rest = some m) : MatchOf p (before.reverse ++ rest) m := by
  induction rest generalizing before with
  | nil => exact (matchAt_sound h).1
  | cons x rest ih =>
    unfold searchFrom at h
    cases hat : matchAt p { before := before, rest := x :: rest } with
    | none =>
      rw [hat] at h
      have hnext := ih h
      rwa [List.reverse_cons, List.append_assoc, List.singleton_append] at hnext
    | some m' =>
      rw [hat] at h
      cases h
      exact (matchAt_sound hat).1

/-- **A match that is found** is a text of the pattern. -/
theorem search_sound {p : Pattern} {text : List Char} {m : Match} (h : search p text = some m) :
    MatchOf p text m :=
  searchFrom_sound h

theorem matchStart_sound {p : Pattern} {text : List Char} {m : Match}
    (h : matchStart p text = some m) : MatchOf p text m ∧ m.before = [] :=
  matchAt_sound h

/-! ## Patterns at the start of a text -/

/-- The pattern matches at the start of a text only. -/
def Pattern.Anchored (p : Pattern) : Prop := ∀ c : Cursor, c.before ≠ [] → p.run c = []

theorem Pattern.anchored_seq_start (p : Pattern) : (seq start p).Anchored := by
  intro c hc
  show (if c.before = [] then [c] else []).flatMap p.run = []
  rw [if_neg hc, List.flatMap_nil]

theorem matchAt_eq_none {p : Pattern} {c : Cursor} (h : p.run c = []) : matchAt p c = none := by
  rw [matchAt, h]
  rfl

theorem subFrom_anchored {p : Pattern} (hp : p.Anchored) (by_ : Match → List Char)
    {before : List Char} (hbefore : before ≠ []) (skip : Nat) (rest : List Char) :
    subFrom p by_ before skip rest = rest.drop skip := by
  induction rest generalizing before skip with
  | nil => simp [subFrom]
  | cons x rest ih =>
    have hnext : x :: before ≠ [] := List.cons_ne_nil x before
    cases skip with
    | zero =>
      have hnone : matchAt p { before := before, rest := x :: rest } = none :=
        matchAt_eq_none (hp _ hbefore)
      rw [subFrom, hnone]
      show x :: subFrom p by_ (x :: before) 0 rest = _
      rw [ih hnext]
      rfl
    | succ skip =>
      rw [subFrom, ih hnext]
      rfl

/-- A pattern at the start of a text is replaced at most once. -/
theorem sub_anchored {p : Pattern} (hp : p.Anchored) (by_ : Match → List Char) (text : List Char) :
    sub p by_ text = text ∨
      ∃ m, matchStart p text = some m ∧ sub p by_ text = by_ m ++ m.rest := by
  cases text with
  | nil => exact .inl rfl
  | cons x rest =>
    have hskip : ∀ skip, subFrom p by_ [x] skip rest = rest.drop skip := fun skip =>
      subFrom_anchored hp by_ (List.cons_ne_nil x []) skip rest
    rw [sub, subFrom]
    cases hm : matchAt p { before := [], rest := x :: rest } with
    | none =>
      left
      show x :: subFrom p by_ [x] 0 rest = _
      rw [hskip]
      rfl
    | some m =>
      have hparts : x :: rest = m.taken ++ m.rest := by
        have hsound := matchStart_sound hm
        have hparts := hsound.1.parts
        rwa [hsound.2, List.nil_append] at hparts
      by_cases htaken : m.taken = []
      · left
        show (if m.taken = [] then _ else _) = _
        rw [if_pos htaken, hskip]
        rfl
      · right
        refine ⟨m, hm, ?_⟩
        obtain ⟨y, taken, htaken'⟩ := List.exists_cons_of_ne_nil htaken
        show (if m.taken = [] then _ else _) = _
        rw [if_neg htaken, hskip]
        rw [htaken'] at hparts ⊢
        obtain ⟨-, rfl⟩ := List.cons.inj hparts
        simp

/-! ## What follows -/

theorem Pattern.mem_run_seq {p q : Pattern} {c d : Cursor} :
    d ∈ (seq p q).run c ↔ ∃ e ∈ p.run c, d ∈ q.run e :=
  List.mem_flatMap

/-- What follows begins with a text of the pattern. -/
theorem Pattern.mem_run_ahead {p : Pattern} {c d : Cursor} (h : d ∈ (ahead true p).run c) :
    d = c ∧ ∃ w, p.Lang w ∧ w <+: c.rest := by
  have h : d ∈ if (p.run c).isEmpty = false then [c] else [] := h
  split at h
  · rename_i hsome
    refine ⟨List.mem_singleton.1 h, ?_⟩
    obtain ⟨e, he⟩ := List.exists_mem_of_ne_nil _ (List.isEmpty_eq_false_iff.1 hsome)
    obtain ⟨⟨w, hw, hmoves⟩, -⟩ := p.run_sound c e he
    exact ⟨w, hw, e.rest, hmoves.rest.symm⟩
  · exact absurd h List.not_mem_nil

theorem exists_run_of_matchStart {p : Pattern} {text : List Char} {m : Match}
    (h : matchStart p text = some m) :
    ∃ d ∈ p.run { before := [], rest := text }, m.rest = d.rest := by
  obtain ⟨d, hd, rfl⟩ := Option.map_eq_some_iff.1 h
  exact ⟨d, List.mem_of_mem_head? hd, rfl⟩

theorem mem_groups_of_group {m : Match} {n : Nat} (h : m.has n = true) :
    (n, m.group n) ∈ m.groups := by
  obtain ⟨w, hw⟩ := Option.isSome_iff_exists.1 h
  rw [Match.group, hw, Option.getD_some]
  obtain ⟨before, after, hsplit, -⟩ := List.lookup_eq_some_iff.1 hw
  rw [hsplit]
  exact List.mem_append_right _ List.mem_cons_self

/-! ## Languages of patterns as they are written -/

namespace Pattern

theorem lang_chars {cs w : List Char} : (chars cs).Lang w ↔ w = cs := by
  induction cs generalizing w with
  | nil => exact Iff.rfl
  | cons c cs ih =>
    cases cs with
    | nil =>
      constructor
      · rintro ⟨x, hx, rfl⟩
        rw [of_decide_eq_true hx]
      · rintro rfl
        exact ⟨c, decide_eq_true rfl, rfl⟩
    | cons c' cs =>
      constructor
      · rintro ⟨u, v, rfl, ⟨x, hx, rfl⟩, hv⟩
        rw [of_decide_eq_true hx, ih.1 hv]
        rfl
      · rintro rfl
        exact ⟨[c], c' :: cs, rfl, ⟨c, decide_eq_true rfl, rfl⟩, ih.2 rfl⟩

theorem lang_text {s : String} {w : List Char} : (text s).Lang w ↔ w = s.toList := lang_chars

theorem lang_any {ps : List Pattern} {w : List Char} :
    (any ps).Lang w ↔ ∃ p ∈ ps, p.Lang w := by
  induction ps with
  | nil =>
    refine iff_of_false ?_ fun ⟨p, hp, _⟩ => absurd hp List.not_mem_nil
    rintro ⟨c, hc, -⟩
    exact (nomatch hc)
  | cons p ps ih =>
    cases ps with
    | nil => simp [any]
    | cons q ps =>
      rw [List.exists_mem_cons_iff, ← ih]
      exact Iff.rfl

theorem lang_texts {ss : List String} {w : List Char} :
    (texts ss).Lang w ↔ ∃ s ∈ ss, w = s.toList := by
  rw [texts, lang_any]
  constructor
  · rintro ⟨p, hp, hw⟩
    obtain ⟨s, hs, rfl⟩ := List.mem_map.1 hp
    exact ⟨s, hs, lang_text.1 hw⟩
  · rintro ⟨s, hs, rfl⟩
    exact ⟨text s, List.mem_map_of_mem hs, lang_text.2 rfl⟩

theorem lang_opt {p : Pattern} {w : List Char} (h : (opt p).Lang w) : w = [] ∨ p.Lang w := by
  obtain ⟨us, rfl, hus, -, hlen⟩ := h
  have hlen := hlen 1 rfl
  rcases us with _ | ⟨u, _ | ⟨v, us⟩⟩
  · exact .inl rfl
  · rw [List.flatten_singleton]
    exact .inr (hus u (List.mem_singleton_self u))
  · simp at hlen

/-- Characters of a class, one after the other. -/
theorem lang_rep_one {least : Nat} {most : Option Nat} {greedy : Bool} {accepts : Char → Bool}
    {w : List Char} (h : (rep least most greedy (one accepts)).Lang w) :
    (∀ c ∈ w, accepts c = true) ∧ least ≤ w.length ∧ ∀ n ∈ most, w.length ≤ max least n := by
  obtain ⟨us, rfl, hus, hleast, hmost⟩ := h
  have hsingle : ∀ u ∈ us, u.length = 1 ∧ ∀ c ∈ u, accepts c = true := by
    intro u hu
    obtain ⟨c, hc, rfl⟩ := hus u hu
    exact ⟨rfl, fun c' hc' => List.mem_singleton.1 hc' ▸ hc⟩
  have hlength : us.flatten.length = us.length := by
    rw [List.length_flatten, List.map_congr_left fun u hu => (hsingle u hu).1]
    simp
  rw [hlength]
  refine ⟨fun c hc => ?_, hleast, hmost⟩
  obtain ⟨u, hu, hcu⟩ := List.mem_flatten.1 hc
  exact (hsingle u hu).2 c hcu

/-! ## The letters of a pattern -/

/-- Every character that a pattern may take has a property. -/
def Within (ok : Char → Prop) : Pattern → Prop
  | one accepts => ∀ c, accepts c = true → ok c
  | seq p q => p.Within ok ∧ q.Within ok
  | alt p q => p.Within ok ∧ q.Within ok
  | rep _ _ _ p => p.Within ok
  | group _ p => p.Within ok
  | _ => True

theorem lang_within {ok : Char → Prop} {p : Pattern} {w : List Char} (h : p.Within ok)
    (hw : p.Lang w) : ∀ c ∈ w, ok c := by
  induction p generalizing w with
  | one accepts =>
    obtain ⟨c, hc, rfl⟩ := hw
    intro c' hc'
    rw [List.mem_singleton.1 hc']
    exact h c hc
  | seq p q ihp ihq =>
    obtain ⟨u, v, rfl, hu, hv⟩ := hw
    intro c hc
    rcases List.mem_append.1 hc with hc | hc
    · exact ihp h.1 hu c hc
    · exact ihq h.2 hv c hc
  | alt p q ihp ihq =>
    rcases hw with hw | hw
    · exact ihp h.1 hw
    · exact ihq h.2 hw
  | rep least most greedy p ih =>
    obtain ⟨us, rfl, hus, -⟩ := hw
    intro c hc
    obtain ⟨u, hu, hcu⟩ := List.mem_flatten.1 hc
    exact ih h (hus u hu) c hcu
  | group number p ih => exact ih h hw
  | _ =>
    intro c hc
    rw [hw] at hc
    exact absurd hc List.not_mem_nil

theorem within_all {ok : Char → Prop} {ps : List Pattern} (h : ∀ p ∈ ps, p.Within ok) :
    (all ps).Within ok := by
  induction ps with
  | nil => exact trivial
  | cons p ps ih =>
    have hrest := ih fun q hq => h q (List.mem_cons_of_mem _ hq)
    cases ps with
    | nil => exact h p List.mem_cons_self
    | cons q qs => exact ⟨h p List.mem_cons_self, hrest⟩

theorem within_any {ok : Char → Prop} {ps : List Pattern} (h : ∀ p ∈ ps, p.Within ok) :
    (any ps).Within ok := by
  induction ps with
  | nil => exact fun c hc => nomatch hc
  | cons p ps ih =>
    have hrest := ih fun q hq => h q (List.mem_cons_of_mem _ hq)
    cases ps with
    | nil => exact h p List.mem_cons_self
    | cons q qs => exact ⟨h p List.mem_cons_self, hrest⟩

theorem within_text {ok : Char → Prop} {s : String} (h : ∀ c ∈ s.toList, ok c) :
    (text s).Within ok := by
  refine within_all fun p hp => ?_
  obtain ⟨c, hc, rfl⟩ := List.mem_map.1 hp
  intro c' hc'
  rw [of_decide_eq_true hc']
  exact h c hc

/-! ## Patterns of finitely many texts -/

/-- The texts of the pattern are among these. -/
def Among (p : Pattern) (ws : List (List Char)) : Prop := ∀ w, p.Lang w → w ∈ ws

theorem Among.mono {p : Pattern} {ws vs : List (List Char)} (h : p.Among ws) (hsub : ws ⊆ vs) :
    p.Among vs := fun w hw => hsub (h w hw)

theorem among_text (s : String) : (text s).Among [s.toList] :=
  fun _ hw => List.mem_singleton.2 (lang_text.1 hw)

theorem among_edge (word : Char → Bool) : (edge word).Among [[]] :=
  fun _ hw => List.mem_singleton.2 hw

theorem among_seq {p q : Pattern} {us vs : List (List Char)} (hp : p.Among us) (hq : q.Among vs) :
    (seq p q).Among (us.flatMap fun u => vs.map (u ++ ·)) := by
  rintro _ ⟨u, v, rfl, hu, hv⟩
  exact List.mem_flatMap.2 ⟨u, hp u hu, List.mem_map_of_mem (hq v hv)⟩

theorem among_alt {p q : Pattern} {us vs : List (List Char)} (hp : p.Among us) (hq : q.Among vs) :
    (alt p q).Among (us ++ vs) := by
  rintro w (hw | hw)
  · exact List.mem_append_left _ (hp w hw)
  · exact List.mem_append_right _ (hq w hw)

theorem among_opt {p : Pattern} {ws : List (List Char)} (hp : p.Among ws) :
    (opt p).Among ([] :: ws) := by
  intro w hw
  rcases lang_opt hw with rfl | hw
  · exact List.mem_cons_self
  · exact List.mem_cons_of_mem _ (hp w hw)

theorem among_group {p : Pattern} {number : Nat} {ws : List (List Char)} (hp : p.Among ws) :
    (group number p).Among ws := hp

end Pattern

/-- **Every match** that is found is a text of the pattern. -/
theorem findAll_sound {p : Pattern} {text : List Char} {m : Match} (h : m ∈ findAll p text) :
    p.Lang m.taken := by
  have hfrom : ∀ rest before skip, m ∈ matchesFrom p before skip rest → p.Lang m.taken := by
    intro rest
    induction rest with
    | nil =>
      intro before skip h
      cases skip <;> exact absurd h List.not_mem_nil
    | cons x rest ih =>
      intro before skip h
      cases skip with
      | succ skip => exact ih _ _ h
      | zero =>
        unfold matchesFrom at h
        split at h
        · exact ih _ _ h
        · rename_i found hfound
          split at h
          · exact ih _ _ h
          · rcases List.mem_cons.1 h with rfl | h
            · exact (matchAt_sound hfound).1.lang
            · exact ih _ _ h
  exact hfrom text [] 0 h

end Regex
