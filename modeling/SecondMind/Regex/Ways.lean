import SecondMind.Regex.Language

/-!
# The ways of a pattern

That a text of a pattern is found, and which of the ways to match is the preferred one.

* `Pattern.run_complete` — a pattern that asks nothing of the surroundings takes each of its texts;
* `Pattern.First` — the preferred way, from one place to another;
* `matchesFrom_match`, `subFrom_match` — the matches of a text one after the other;
* `sub_of_findAll` — a text without matches stays as it is.
-/

namespace Regex

open Pattern

/-! ## Completeness -/

/-- The pattern asks nothing of what stands around its text. -/
def Pattern.Free : Pattern → Prop
  | empty => True
  | one _ => True
  | seq p q => p.Free ∧ q.Free
  | alt p q => p.Free ∧ q.Free
  | rep _ _ _ p => p.Free
  | group _ p => p.Free
  | _ => False

/-- Each text of the pattern is taken where it stands. -/
def Pattern.Takes (p : Pattern) : Prop :=
  ∀ (c : Cursor) (w r : List Char), p.Lang w → c.rest = w ++ r →
    ∃ d ∈ p.run c, c.Moves d w ∧ d.rest = r

theorem times_complete {p : Pattern} (hp : p.Takes) {us : List (List Char)}
    (hus : ∀ u ∈ us, p.Lang u) {c : Cursor} {r : List Char} (hrest : c.rest = us.flatten ++ r) :
    ∃ d ∈ times p.run us.length c, c.Moves d us.flatten ∧ d.rest = r := by
  induction us generalizing c with
  | nil => exact ⟨c, List.mem_singleton_self c, .refl c, hrest⟩
  | cons u us ih =>
    rw [List.flatten_cons, List.append_assoc] at hrest
    obtain ⟨e, he, hmoves, hrest'⟩ := hp c u _ (hus u List.mem_cons_self) hrest
    obtain ⟨d, hd, hmoves', hlast⟩ := ih (fun v hv => hus v (List.mem_cons_of_mem u hv)) hrest'
    exact ⟨d, List.mem_flatMap.2 ⟨e, he, hd⟩, hmoves.trans hmoves', hlast⟩

theorem mem_iterate_self (step : Cursor → List Cursor) (greedy : Bool) (fuel : Nat) (c : Cursor) :
    c ∈ iterate step greedy fuel c := by
  cases fuel with
  | zero => exact List.mem_singleton_self c
  | succ fuel => cases greedy <;> simp [iterate]

theorem mem_iterate_succ {step : Cursor → List Cursor} {greedy : Bool} {fuel : Nat} {c d e : Cursor}
    (he : e ∈ step c) (hless : e.rest.length < c.rest.length)
    (hd : d ∈ iterate step greedy fuel e) : d ∈ iterate step greedy (fuel + 1) c := by
  have hmore : d ∈ (step c).flatMap fun e =>
      if e.rest.length < c.rest.length then iterate step greedy fuel e else [] :=
    List.mem_flatMap.2 ⟨e, he, by rwa [if_pos hless]⟩
  unfold iterate
  cases greedy
  · exact List.mem_cons_of_mem c hmore
  · exact List.mem_append_left [c] hmore

theorem iterate_complete {p : Pattern} (hp : p.Takes) {greedy : Bool} {us : List (List Char)}
    (hus : ∀ u ∈ us, p.Lang u ∧ u ≠ []) {fuel : Nat} (hfuel : us.length ≤ fuel) {c : Cursor}
    {r : List Char} (hrest : c.rest = us.flatten ++ r) :
    ∃ d ∈ iterate p.run greedy fuel c, c.Moves d us.flatten ∧ d.rest = r := by
  induction us generalizing c fuel with
  | nil => exact ⟨c, mem_iterate_self _ _ _ _, .refl c, hrest⟩
  | cons u us ih =>
    obtain ⟨fuel, rfl⟩ := Nat.exists_eq_add_of_lt (Nat.lt_of_lt_of_le (Nat.succ_pos _) hfuel)
    rw [Nat.zero_add] at hfuel ⊢
    rw [List.flatten_cons, List.append_assoc] at hrest
    obtain ⟨hu, hne⟩ := hus u List.mem_cons_self
    obtain ⟨e, he, hmoves, hrest'⟩ := hp c u _ hu hrest
    obtain ⟨d, hd, hmoves', hlast⟩ := ih (fun v hv => hus v (List.mem_cons_of_mem u hv))
      (Nat.le_of_succ_le_succ hfuel) hrest'
    have hless : e.rest.length < c.rest.length := by
      have hpos := List.length_pos_of_ne_nil hne
      rw [hmoves.rest, List.length_append]
      omega
    exact ⟨d, mem_iterate_succ he hless hd, hmoves.trans hmoves', hlast⟩

/-- The texts that are not empty are at most as many as their letters. -/
theorem length_filter_le_flatten (us : List (List Char)) :
    (us.filter (· ≠ [])).length ≤ us.flatten.length := by
  induction us with
  | nil => exact Nat.le_refl 0
  | cons u us ih =>
    rw [List.filter_cons, List.flatten_cons, List.length_append]
    split
    · rename_i hne
      have hpos := List.length_pos_of_ne_nil (of_decide_eq_true hne)
      rw [List.length_cons]
      omega
    · omega

theorem flatten_filter_ne_nil (us : List (List Char)) :
    (us.filter (· ≠ [])).flatten = us.flatten := by
  induction us with
  | nil => rfl
  | cons u us ih => cases u <;> simp_all

/-- **Every text of a free pattern** is taken where it stands. -/
theorem Pattern.run_complete (p : Pattern) (hfree : p.Free) : p.Takes := by
  induction p with
  | empty =>
    rintro c w r rfl hrest
    exact ⟨c, List.mem_singleton_self c, .refl c, hrest⟩
  | one accepts =>
    rintro c w r ⟨x, hx, rfl⟩ hrest
    refine ⟨{ c with before := x :: c.before, rest := r }, ?_, ⟨hrest, rfl⟩, rfl⟩
    have hrest : c.rest = x :: r := hrest
    rw [run, hrest]
    dsimp only
    rw [if_pos hx]
    exact List.mem_singleton_self _
  | seq p q ihp ihq =>
    rintro c w r ⟨u, v, rfl, hu, hv⟩ hrest
    rw [List.append_assoc] at hrest
    obtain ⟨e, he, hmoves, hrest'⟩ := ihp hfree.1 c u _ hu hrest
    obtain ⟨d, hd, hmoves', hlast⟩ := ihq hfree.2 e v r hv hrest'
    exact ⟨d, mem_run_seq.2 ⟨e, he, hd⟩, hmoves.trans hmoves', hlast⟩
  | alt p q ihp ihq =>
    rintro c w r (hw | hw) hrest
    · obtain ⟨d, hd, h⟩ := ihp hfree.1 c w r hw hrest
      exact ⟨d, List.mem_append_left _ hd, h⟩
    · obtain ⟨d, hd, h⟩ := ihq hfree.2 c w r hw hrest
      exact ⟨d, List.mem_append_right _ hd, h⟩
  | rep least most greedy p ih =>
    rintro c w r ⟨us, rfl, hus, hleast, hmost⟩ hrest
    have hp := ih hfree
    -- the first times as they come, and then the texts that take something
    have hsplit : us.flatten =
        (us.take least).flatten ++ ((us.drop least).filter (· ≠ [])).flatten := by
      rw [flatten_filter_ne_nil, ← List.flatten_append, List.take_append_drop]
    rw [hsplit] at hrest ⊢
    rw [List.append_assoc] at hrest
    obtain ⟨e, he, hmoves, hrest'⟩ :=
      times_complete hp (fun u hu => hus u (List.mem_of_mem_take hu)) hrest
    rw [List.length_take, Nat.min_eq_left hleast] at he
    have hlang : ∀ u ∈ (us.drop least).filter (· ≠ []), p.Lang u ∧ u ≠ [] := by
      intro u hu
      obtain ⟨hmem, hne⟩ := List.mem_filter.1 hu
      exact ⟨hus u (List.mem_of_mem_drop hmem), of_decide_eq_true hne⟩
    have hfuel : ((us.drop least).filter (· ≠ [])).length ≤
        most.elim e.rest.length (· - least) := by
      cases most with
      | none =>
        have hle := length_filter_le_flatten (us.drop least)
        rw [Option.elim_none, hrest', List.length_append, flatten_filter_ne_nil]
        omega
      | some n =>
        have hle := List.length_filter_le (· ≠ []) (us.drop least)
        have hn := hmost n rfl
        rw [List.length_drop] at hle
        rw [Option.elim_some]
        omega
    obtain ⟨d, hd, hmoves', hlast⟩ := iterate_complete hp hlang hfuel hrest'
    exact ⟨d, List.mem_flatMap.2 ⟨e, he, hd⟩, hmoves.trans hmoves', hlast⟩
  | group number p ih =>
    intro c w r hw hrest
    obtain ⟨d, hd, hmoves, hlast⟩ := ih hfree c w r hw hrest
    exact ⟨c.record number d, List.mem_map_of_mem hd, ⟨hmoves.rest, hmoves.before⟩, hlast⟩
  | start => exact hfree.elim
  | stop => exact hfree.elim
  | edge word => exact hfree.elim
  | ahead positive p => exact hfree.elim

/-- Letters of a class, as many as may come. -/
theorem Pattern.lang_rep_one_of {least : Nat} {most : Option Nat} {greedy : Bool}
    {accepts : Char → Bool} {w : List Char} (hw : ∀ x ∈ w, accepts x = true)
    (hleast : least ≤ w.length) (hmost : ∀ n ∈ most, w.length ≤ max least n) :
    (rep least most greedy (one accepts)).Lang w := by
  have hflat : (w.map fun x => [x]).flatten = w := by
    rw [← List.flatMap_def, List.flatMap_singleton']
  refine ⟨w.map fun x => [x], hflat.symm, fun u hu => ?_, by simpa using hleast,
    by simpa using hmost⟩
  obtain ⟨x, hx, rfl⟩ := List.mem_map.1 hu
  exact ⟨x, hw x hx, rfl⟩

/-! ## The preferred way -/

/-- The preferred way of a pattern from a place on. -/
def Pattern.First (p : Pattern) (c d : Cursor) : Prop := (p.run c).head? = some d

/-- The place behind a text. -/
def Cursor.past (c : Cursor) (w r : List Char) : Cursor :=
  { c with before := w.reverse ++ c.before, rest := r }

namespace Pattern

variable {p q : Pattern} {c d e : Cursor}

theorem First.seq (hp : First p c d) (hq : First q d e) : First (seq p q) c e := by
  obtain ⟨ways, hways⟩ := List.head?_eq_some_iff.1 hp
  show ((p.run c).flatMap q.run).head? = some e
  rw [hways, List.flatMap_cons, List.head?_append, hq]
  rfl

theorem First.alt_left (hp : First p c d) : First (alt p q) c d := by
  show (p.run c ++ q.run c).head? = some d
  rw [List.head?_append, hp]
  rfl

theorem First.alt_right (hp : p.run c = []) (hq : First q c d) : First (alt p q) c d := by
  show (p.run c ++ q.run c).head? = some d
  rw [hp, List.nil_append]
  exact hq

theorem first_edge {word : Char → Bool} (h : c.atEdge word = true) : First (edge word) c c := by
  show (if c.atEdge word then [c] else []).head? = some c
  rw [if_pos h]
  rfl

section

variable {accepts : Char → Bool} {w r : List Char}

theorem run_one {x : Char} (hx : accepts x = true) (hrest : c.rest = x :: r) :
    (one accepts).run c = [c.past [x] r] := by
  rw [run, hrest]
  dsimp only
  rw [if_pos hx]
  rfl

theorem run_one_eq_nil (h : ∀ x r, c.rest = x :: r → accepts x = false) :
    (one accepts).run c = [] := by
  rw [run]
  split
  · rfl
  · rename_i x r hrest
    rw [h x r hrest]
    rfl

theorem times_one (hw : ∀ x ∈ w, accepts x = true) (hrest : c.rest = w ++ r) :
    times (one accepts).run w.length c = [c.past w r] := by
  induction w generalizing c with
  | nil =>
    have hrest : c.rest = r := hrest
    subst hrest
    rfl
  | cons x w ih =>
    have hx := hw x List.mem_cons_self
    rw [List.length_cons, times, run_one hx hrest, List.flatMap_singleton,
      ih (fun y hy => hw y (List.mem_cons_of_mem x hy)) rfl]
    simp [Cursor.past]

/-- A repeated letter is taken as often as it goes. -/
theorem iterate_one {fuel : Nat} (hw : ∀ x ∈ w, accepts x = true) (hrest : c.rest = w ++ r)
    (hfuel : w.length ≤ fuel)
    (hstop : w.length = fuel ∨ ∀ x r', r = x :: r' → accepts x = false) :
    (iterate (one accepts).run true fuel c).head? = some (c.past w r) := by
  induction w generalizing c fuel with
  | nil =>
    have hself : c.past [] r = c := by rw [← (show c.rest = r from hrest)]; rfl
    cases fuel with
    | zero => rw [hself]; rfl
    | succ fuel =>
      have hnone : (one accepts).run c = [] := by
        refine run_one_eq_nil fun x r' hcons => ?_
        exact hstop.resolve_left (Nat.succ_ne_zero fuel).symm x r' (hrest.symm.trans hcons)
      rw [iterate, hnone, hself]
      rfl
  | cons x w ih =>
    cases fuel with
    | zero => exact absurd hfuel (Nat.not_succ_le_zero _)
    | succ fuel =>
      have hx := hw x List.mem_cons_self
      have hless : (c.past [x] (w ++ r)).rest.length < c.rest.length := by
        rw [hrest]
        exact Nat.lt_succ_self _
      have hnext := ih (c := c.past [x] (w ++ r)) (fun y hy => hw y (List.mem_cons_of_mem x hy)) rfl
        (Nat.le_of_succ_le_succ hfuel) (hstop.imp_left Nat.succ.inj)
      have hrest : c.rest = x :: (w ++ r) := hrest
      rw [iterate, run_one hx hrest, List.flatMap_singleton, if_pos hless]
      rw [if_pos rfl, List.head?_append, hnext]
      simp [Cursor.past]

/-- **A repeated letter**, as often as it goes. -/
theorem first_rep_one {least : Nat} {most : Option Nat} (hw : ∀ x ∈ w, accepts x = true)
    (hrest : c.rest = w ++ r) (hleast : least ≤ w.length) (hmost : ∀ n ∈ most, w.length ≤ n)
    (hstop : most = some w.length ∨ ∀ x r', r = x :: r' → accepts x = false) :
    First (rep least most true (one accepts)) c (c.past w r) := by
  -- the letters that have to come, and those that may
  obtain ⟨u, v, rfl, hlength⟩ : ∃ u v, w = u ++ v ∧ u.length = least :=
    ⟨w.take least, w.drop least, (List.take_append_drop _ _).symm,
      List.length_take_of_le hleast⟩
  have hu : ∀ x ∈ u, accepts x = true := fun x hx => hw x (List.mem_append_left v hx)
  have hv : ∀ x ∈ v, accepts x = true := fun x hx => hw x (List.mem_append_right u hx)
  rw [List.append_assoc] at hrest
  show ((times (one accepts).run least c).flatMap fun d =>
    iterate (one accepts).run true (most.elim d.rest.length (· - least)) d).head? = _
  rw [← hlength, times_one hu hrest, List.flatMap_singleton]
  have hpast : c.past (u ++ v) r = (c.past u (v ++ r)).past v r := by simp [Cursor.past]
  rw [hpast]
  refine iterate_one hv rfl ?_ ?_
  · cases most with
    | none => simp [Cursor.past]
    | some n =>
      have hn := hmost n rfl
      rw [List.length_append] at hn
      rw [Option.elim_some]
      omega
  · rcases hstop with rfl | hstop
    · left
      rw [Option.elim_some, List.length_append]
      omega
    · exact .inr hstop

end

/-- What the preferred way of a sequence is put together from. -/
theorem First.of_seq (h : First (.seq p q) c e) : ∃ d ∈ p.run c, First q d e := by
  have hhead : ((p.run c).flatMap q.run).head? = some e := h
  rw [List.head?_flatMap] at hhead
  exact List.exists_of_findSome?_eq_some hhead

/-- A letter that is repeated without a bound is taken as long as it comes. -/
theorem First.stops {least : Nat} {accepts : Char → Bool}
    (h : First (rep least none true (one accepts)) c d) :
    ∀ x r, d.rest = x :: r → accepts x = false := by
  intro x r hrest
  have hsplit : c.rest = c.rest.takeWhile accepts ++ c.rest.dropWhile accepts :=
    List.takeWhile_append_dropWhile.symm
  by_cases hleast : least ≤ (c.rest.takeWhile accepts).length
  · have hfirst : First (rep least none true (one accepts)) c _ :=
      first_rep_one (List.all_eq_true.1 List.all_takeWhile) hsplit hleast (by simp)
        (.inr fun y r' hr' => by
          have hnot := List.head?_dropWhile_not accepts c.rest
          rw [hr'] at hnot
          simpa using hnot)
    obtain rfl := Option.some.inj (hfirst.symm.trans h)
    have hnot := List.head?_dropWhile_not accepts c.rest
    have hrest : c.rest.dropWhile accepts = x :: r := hrest
    rw [hrest] at hnot
    simpa using hnot
  · -- too few letters come for any way
    obtain ⟨⟨v, hv, hmoves⟩, -⟩ := run_sound _ c d (List.mem_of_mem_head? h)
    obtain ⟨hletters, hlength, -⟩ := lang_rep_one hv
    have htake : c.rest.takeWhile accepts = v ++ d.rest.takeWhile accepts := by
      rw [hmoves.rest, List.takeWhile_append_of_pos hletters]
    rw [htake, List.length_append] at hleast
    omega

theorem first_one {accepts : Char → Bool} {x : Char} {r : List Char} (hx : accepts x = true)
    (hrest : c.rest = x :: r) : First (one accepts) c (c.past [x] r) := by
  rw [First, run_one hx hrest]
  rfl

/-- Letters of classes, one after the other. -/
theorem first_all_one {classes : List (Char → Bool)} {w r : List Char}
    (hw : List.Forall₂ (fun accepts x => accepts x = true) classes w) (hrest : c.rest = w ++ r) :
    First (all (classes.map one)) c (c.past w r) := by
  induction hw generalizing c with
  | nil =>
    have hself : c.past [] r = c := by rw [← (show c.rest = r from hrest)]; rfl
    rw [hself]
    rfl
  | @cons accepts x classes w hx hw ih =>
    have hhead := first_one hx hrest
    cases hw with
    | nil => exact hhead
    | cons hy hw =>
      have hnext := ih (c := c.past [x] _) rfl
      have hpast : ∀ v, (c.past [x] (v ++ r)).past v r = c.past (x :: v) r := by
        simp [Cursor.past]
      rw [hpast] at hnext
      exact hhead.seq hnext

/-- What may come and cannot take anything is passed over. -/
theorem first_opt_stay (h : ∀ d ∈ p.run c, ¬ d.rest.length < c.rest.length) :
    First (opt p) c c := by
  have hnone : ((p.run c).flatMap fun d =>
      if d.rest.length < c.rest.length then iterate p.run true 0 d else []) = [] :=
    List.flatMap_eq_nil_iff.2 fun d hd => if_neg (h d hd)
  show ([c].flatMap fun d => iterate p.run true 1 d).head? = some c
  rw [List.flatMap_singleton, iterate, hnone]
  rfl

/-- What may come and begins with no letter that stands there is passed over. -/
theorem first_opt_of_within {ok : Char → Prop} (hp : p.Within ok)
    (h : ∀ x r, c.rest = x :: r → ¬ ok x) : First (opt p) c c := by
  refine first_opt_stay fun d hd hless => ?_
  obtain ⟨⟨w, hw, hmoves⟩, -⟩ := p.run_sound c d hd
  cases w with
  | nil =>
    rw [hmoves.rest, List.nil_append] at hless
    exact Nat.lt_irrefl _ hless
  | cons x w => exact h x _ hmoves.rest (lang_within hp hw x List.mem_cons_self)

/-- What may come is taken where it can. -/
theorem First.opt (h : First p c d) (hless : d.rest.length < c.rest.length) :
    First (opt p) c d := by
  obtain ⟨ways, hways⟩ := List.head?_eq_some_iff.1 h
  show ([c].flatMap fun d => iterate p.run true 1 d).head? = some d
  rw [List.flatMap_singleton, iterate, hways, List.flatMap_cons, if_pos hless]
  rfl

end Pattern

/-- The preferred way is the match. -/
theorem matchAt_of_first {p : Pattern} {before w r : List Char} {d : Cursor}
    (h : p.First { before := before, rest := w ++ r } d) (hd : d.before = w.reverse ++ before)
    (hr : d.rest = r) :
    matchAt p { before := before, rest := w ++ r } =
      some { before := before.reverse, taken := w, rest := r, groups := d.groups } := by
  have hmoves : Cursor.Moves { before := before, rest := w ++ r } d w := ⟨by rw [hr], hd⟩
  rw [matchAt, h, Option.map_some, Cursor.between, hmoves.taken, hr]

/-! ## Part by part -/

section

variable {p : Pattern} {before : List Char}

theorem matchesFrom_length (left rest : List Char) :
    matchesFrom p before left.length (left ++ rest) =
      matchesFrom p (left.reverse ++ before) 0 rest := by
  induction left generalizing before with
  | nil => rfl
  | cons x left ih =>
    rw [List.cons_append, List.length_cons, matchesFrom, ih]
    simp

/-- A stretch in which nothing matches is passed over. -/
theorem matchesFrom_pass {w rest : List Char}
    (h : ∀ before x v, x :: v <:+ w →
      matchAt p { before := before, rest := x :: (v ++ rest) } = none) :
    matchesFrom p before 0 (w ++ rest) = matchesFrom p (w.reverse ++ before) 0 rest := by
  induction w generalizing before with
  | nil => rfl
  | cons x w ih =>
    rw [List.cons_append, matchesFrom, h before x w (List.suffix_refl _)]
    dsimp only
    rw [ih fun before y v hv => h before y v (hv.trans (List.suffix_cons x w))]
    simp

/-- A match, and the matches behind it. -/
theorem matchesFrom_match {w rest : List Char} {m : Match}
    (h : matchAt p { before := before, rest := w ++ rest } = some m) (htaken : m.taken = w)
    (hne : w ≠ []) :
    matchesFrom p before 0 (w ++ rest) = m :: matchesFrom p (w.reverse ++ before) 0 rest := by
  obtain ⟨x, left, rfl⟩ := List.exists_cons_of_ne_nil hne
  have hmatch : matchAt p { before := before, rest := x :: (left ++ rest) } = some m := h
  rw [List.cons_append, matchesFrom, hmatch]
  dsimp only
  rw [if_neg (by rw [htaken]; exact hne), htaken, List.length_cons, Nat.add_sub_cancel,
    matchesFrom_length]
  simp

theorem subFrom_length (by_ : Match → List Char) (left rest : List Char) :
    subFrom p by_ before left.length (left ++ rest) =
      subFrom p by_ (left.reverse ++ before) 0 rest := by
  induction left generalizing before with
  | nil => rfl
  | cons x left ih =>
    rw [List.cons_append, List.length_cons, subFrom, ih]
    simp

/-- A match is replaced, and what is behind it goes on from there. -/
theorem subFrom_match (by_ : Match → List Char) {w rest : List Char} {m : Match}
    (h : matchAt p { before := before, rest := w ++ rest } = some m) (htaken : m.taken = w)
    (hne : w ≠ []) :
    subFrom p by_ before 0 (w ++ rest) = by_ m ++ subFrom p by_ (w.reverse ++ before) 0 rest := by
  obtain ⟨x, left, rfl⟩ := List.exists_cons_of_ne_nil hne
  have hmatch : matchAt p { before := before, rest := x :: (left ++ rest) } = some m := h
  rw [List.cons_append, subFrom, hmatch]
  dsimp only
  rw [if_neg (by rw [htaken]; exact hne), htaken, List.length_cons, Nat.add_sub_cancel,
    subFrom_length]
  simp

theorem subFrom_none (by_ : Match → List Char) {x : Char} {rest : List Char}
    (h : matchAt p { before := before, rest := x :: rest } = none) :
    subFrom p by_ before 0 (x :: rest) = x :: subFrom p by_ (x :: before) 0 rest := by
  rw [subFrom, h]

/-- A text without matches stays as it is. -/
theorem subFrom_of_matchesFrom (by_ : Match → List Char) {rest : List Char}
    (h : matchesFrom p before 0 rest = []) : subFrom p by_ before 0 rest = rest := by
  induction rest generalizing before with
  | nil => rfl
  | cons x rest ih =>
    rw [matchesFrom] at h
    rw [subFrom]
    split at h
    · rw [ih h]
    · split at h
      · rename_i hempty
        rw [if_pos hempty, ih h]
      · exact absurd h (List.cons_ne_nil _ _)

end

/-- The letters of a class are left out. -/
theorem sub_one (accepts : Char → Bool) (text : List Char) :
    sub (one accepts) (fun _ => []) text = text.filter (!accepts ·) := by
  have hfrom : ∀ before, subFrom (one accepts) (fun _ => []) before 0 text =
      text.filter (!accepts ·) := by
    induction text with
    | nil => exact fun _ => rfl
    | cons x text ih =>
      intro before
      by_cases hx : accepts x = true
      · have hm : matchAt (one accepts) { before := before, rest := [x] ++ text } = _ :=
          matchAt_of_first (first_one hx rfl) rfl rfl
        have hsub := subFrom_match (fun _ => []) hm rfl (List.cons_ne_nil x [])
        rw [List.filter_cons_of_neg (by simp [hx]), ← ih ([x].reverse ++ before)]
        exact hsub
      · have hnone : (one accepts).run { before := before, rest := x :: text } = [] :=
          run_one_eq_nil fun y r hy => by
            rw [← (List.cons.inj hy).1]
            exact Bool.not_eq_true _ ▸ hx
        rw [subFrom_none _ (matchAt_eq_none hnone), ih, List.filter_cons_of_pos (by simp [hx])]
  exact hfrom []

/-- **Without a match** nothing is replaced. -/
theorem sub_of_findAll {p : Pattern} (by_ : Match → List Char) {text : List Char}
    (h : findAll p text = []) : sub p by_ text = text :=
  subFrom_of_matchesFrom by_ h

end Regex
