import SecondMind.Retrieval.Citations

/-!
# What the cuts of an answer can do

A text is a row of brackets that close, with something before each, and a tail in which none
does.  Most brackets are read the same way however the text is cut.  A *soft* one is not: it has
another open bracket inside, or is too long to be held back.  Then the innermost marker may be
read or let out as it is, and the cuts decide which.

* `brackets` — the brackets of a text, and its tail;
* `Bracket.Reads` — what can become of one bracket, and `Reads` of a whole text;
* `CitationFilter.runFrom_reads` — every run over deltas is a reading of the text;
* `CitationFilter.exists_runFrom` — and every reading is the run over some deltas.
-/

namespace SecondMind

/-! ## Brackets -/

/-- A bracket that closes, with the text before it. -/
structure Bracket where
  before : List Char
  body : List Char
  notOpen : '[' ∉ before
  notClose : ']' ∉ body

theorem notMem_takeWhile (c : Char) (cs : List Char) : c ∉ cs.takeWhile (· ≠ c) := fun h => by
  simpa using List.mem_takeWhile_imp h

/-- The brackets of a text, and what follows the last one. -/
def brackets (text : List Char) : List Bracket × List Char :=
  match _h : text.dropWhile (· ≠ '[') with
  | [] => ([], text)
  | _ :: more =>
    match _h' : more.dropWhile (· ≠ ']') with
    | [] => ([], text)
    | _ :: after =>
      let bracket : Bracket :=
        { before := text.takeWhile (· ≠ '['), body := more.takeWhile (· ≠ ']')
          notOpen := notMem_takeWhile _ _, notClose := notMem_takeWhile _ _ }
      (bracket :: (brackets after).1, (brackets after).2)
  termination_by text.length
  decreasing_by
    have hle := List.length_dropWhile_le (· ≠ '[') text
    have hle' := List.length_dropWhile_le (· ≠ ']') more
    rw [_h, List.length_cons] at hle
    rw [_h', List.length_cons] at hle'
    omega

/-- No bracket of the text closes. -/
def NeverCloses (text : List Char) : Prop :=
  ∀ before more, '[' ∉ before → text = before ++ '[' :: more → ']' ∉ more

/-- A text has no bracket that closes, or a first one. -/
theorem neverCloses_or (text : List Char) :
    NeverCloses text ∨ ∃ (b : Bracket) (after : List Char),
      text = b.before ++ '[' :: (b.body ++ ']' :: after) := by
  by_cases hopen : '[' ∈ text
  · obtain ⟨before, more, rfl, hbefore⟩ := List.eq_append_cons_of_mem hopen
    by_cases hclose : ']' ∈ more
    · obtain ⟨body, after, rfl, hbody⟩ := List.eq_append_cons_of_mem hclose
      exact .inr ⟨⟨before, body, hbefore, hbody⟩, after, rfl⟩
    · refine .inl fun before' more' hbefore' heq => ?_
      obtain ⟨-, rfl⟩ := cut_inj hbefore hbefore' heq
      exact hclose
  · refine .inl fun before more _ heq => ?_
    exact absurd (heq ▸ List.mem_append_right _ List.mem_cons_self) hopen

theorem brackets_of_neverCloses {text : List Char} (h : NeverCloses text) :
    brackets text = ([], text) := by
  unfold brackets
  split
  · rfl
  · rename_i c more heq
    split
    · rfl
    · rename_i c' after heq'
      have htext := (head_of_cut heq).2
      have hnone := (cut_of_notMem (h _ _ (notMem_takeWhile _ _) htext)).2
      rw [hnone] at heq'
      exact (nomatch heq')

theorem brackets_cons (b : Bracket) (after : List Char) :
    brackets (b.before ++ '[' :: (b.body ++ ']' :: after)) =
      (b :: (brackets after).1, (brackets after).2) := by
  obtain ⟨htake, hdrop⟩ := cut_append (b.body ++ ']' :: after) b.notOpen
  obtain ⟨htake', hdrop'⟩ := cut_append after b.notClose
  rw [brackets]
  split
  · rename_i heq
    rw [hdrop] at heq
    exact (nomatch heq)
  · rename_i heq
    rw [hdrop] at heq
    obtain ⟨-, rfl⟩ := List.cons.inj heq
    split
    · rename_i heq'
      rw [hdrop'] at heq'
      exact (nomatch heq')
    · rename_i heq'
      rw [hdrop'] at heq'
      obtain ⟨-, rfl⟩ := List.cons.inj heq'
      simp only [htake, htake']

namespace Bracket

/-- The bracket as it stands in the text. -/
def raw (b : Bracket) : List Char := b.before ++ '[' :: (b.body ++ [']'])

/-- What follows the last open bracket in the body. -/
def inner (b : Bracket) : List Char := (b.body.reverse.takeWhile (· ≠ '[')).reverse

/-- What stands between the text before and the innermost open bracket. -/
def outer (b : Bracket) : List Char := ('[' :: (b.body.reverse.dropWhile (· ≠ '[')).reverse).dropLast

theorem outer_append_inner (b : Bracket) : b.outer ++ '[' :: b.inner = '[' :: b.body := by
  have hsplit : (b.body.reverse.dropWhile (· ≠ '[')).reverse ++ b.inner = b.body := by
    rw [inner, ← List.reverse_append, List.takeWhile_append_dropWhile, List.reverse_reverse]
  unfold outer
  cases hdrop : b.body.reverse.dropWhile (· ≠ '[') with
  | nil =>
    rw [hdrop] at hsplit
    simpa using hsplit
  | cons c lead =>
    have hc : c = '[' := (head_of_cut hdrop).1
    rw [hdrop, hc] at hsplit
    rw [← hsplit, hc]
    simp [List.dropLast_cons_of_ne_nil]

theorem notMem_inner (b : Bracket) : '[' ∉ b.inner := by
  rw [inner, List.mem_reverse]
  exact notMem_takeWhile _ _

/-- There is one innermost open bracket. -/
theorem inner_unique {b : Bracket} {o i : List Char} (h : o ++ '[' :: i = '[' :: b.body)
    (hi : '[' ∉ i) : b.outer = o ∧ b.inner = i := by
  have heq : b.inner.reverse ++ '[' :: b.outer.reverse = i.reverse ++ '[' :: o.reverse := by
    simpa using congrArg List.reverse (b.outer_append_inner.trans h.symm)
  obtain ⟨hinner, houter⟩ := cut_inj (by simpa using b.notMem_inner) (by simpa using hi) heq
  exact ⟨List.reverse_injective houter, List.reverse_injective hinner⟩

theorem raw_eq (b : Bracket) : b.raw = b.before ++ b.outer ++ '[' :: (b.inner ++ [']']) := by
  have hbody : '[' :: (b.body ++ [']']) = b.outer ++ '[' :: b.inner ++ [']'] := by
    rw [b.outer_append_inner, List.cons_append]
  rw [raw, hbody]
  simp

/-- The numbers of the innermost bracket, if it is a marker. -/
def numbers (b : Bracket) : Option (List Nat) := markerNumbers b.inner

/-- The bracket has another one inside, or is too long to be held back. -/
def Soft (b : Bracket) : Prop := b.outer ≠ [] ∨ 24 < b.body.length + 1

/-- What can be let out for a bracket, and the numbers that are read. -/
inductive Reads (evidence : Finset Nat) (b : Bracket) : List Char → List Nat → Prop
  | raw (h : b.numbers = none ∨ b.Soft) : Reads evidence b b.raw []
  | marker {numbers : List Nat} (h : b.numbers = some numbers) :
      Reads evidence b (b.before ++ b.outer ++ printed (numbers.filter (· ∈ evidence))) numbers

end Bracket

/-- What can be let out for a text, and the numbers that are read. -/
inductive Reads (evidence : Finset Nat) : List Bracket → List Char → List Char → List Nat → Prop
  | tail (tail : List Char) : Reads evidence [] tail tail []
  | cons {b : Bracket} {bs : List Bracket} {tail out out' : List Char} {ns ns' : List Nat}
      (h : b.Reads evidence out ns) (hrest : Reads evidence bs tail out' ns') :
      Reads evidence (b :: bs) tail (out ++ out') (ns ++ ns')

/-- A reading of a text. -/
def Reading (evidence : Finset Nat) (text out : List Char) (numbers : List Nat) : Prop :=
  Reads evidence (brackets text).1 (brackets text).2 out numbers

section

variable {evidence : Finset Nat}

/-! ## The readings of a text from its first bracket on -/

theorem reading_of_neverCloses {text out : List Char} {ns : List Nat} (h : NeverCloses text) :
    Reading evidence text out ns ↔ out = text ∧ ns = [] := by
  rw [Reading, brackets_of_neverCloses h]
  constructor
  · intro hr
    cases hr
    exact ⟨rfl, rfl⟩
  · rintro ⟨rfl, rfl⟩
    exact .tail _

theorem reading_cons {b : Bracket} {after out : List Char} {ns : List Nat} :
    Reading evidence (b.before ++ '[' :: (b.body ++ ']' :: after)) out ns ↔
      ∃ o m o' m', b.Reads evidence o m ∧ Reading evidence after o' m' ∧ out = o ++ o' ∧
        ns = m ++ m' := by
  rw [Reading, brackets_cons]
  constructor
  · intro hr
    cases hr with
    | cons h hrest => exact ⟨_, _, _, _, h, hrest, rfl, rfl⟩
  · rintro ⟨o, m, o', m', h, hrest, rfl, rfl⟩
    exact .cons h hrest

theorem neverCloses_append {x text : List Char} (hx : '[' ∉ x) (h : NeverCloses text) :
    NeverCloses (x ++ text) := by
  intro before more hbefore heq
  have hopen : '[' ∈ text := by
    have hmem : '[' ∈ x ++ text := by
      rw [heq]
      exact List.mem_append_right _ List.mem_cons_self
    exact (List.mem_append.1 hmem).resolve_left hx
  obtain ⟨before', more', rfl, hbefore'⟩ := List.eq_append_cons_of_mem hopen
  rw [← List.append_assoc] at heq
  obtain ⟨-, rfl⟩ := cut_inj (by simp [hx, hbefore']) hbefore heq
  exact h _ _ hbefore' rfl

/-- More text before a bracket. -/
def Bracket.behind (b : Bracket) (x : List Char) (h : '[' ∉ x) : Bracket where
  before := x ++ b.before
  body := b.body
  notOpen := by simp [h, b.notOpen]
  notClose := b.notClose

theorem Bracket.behind_reads {b : Bracket} {x o : List Char} {m : List Nat} (h : '[' ∉ x) :
    (b.behind x h).Reads evidence o m ↔ ∃ o', o = x ++ o' ∧ b.Reads evidence o' m := by
  constructor
  · intro hr
    cases hr with
    | raw hsoft => exact ⟨b.raw, List.append_assoc .., .raw hsoft⟩
    | marker hnumbers => exact ⟨_, by simp [behind, outer], .marker hnumbers⟩
  · rintro ⟨o', rfl, hr⟩
    cases hr with
    | raw hsoft =>
      have hraw : x ++ b.raw = (b.behind x h).raw := (List.append_assoc ..).symm
      rw [hraw]
      exact .raw hsoft
    | marker hnumbers =>
      have hout : x ++ (b.before ++ b.outer ++ printed (m.filter (· ∈ evidence))) =
          (b.behind x h).before ++ (b.behind x h).outer ++ printed (m.filter (· ∈ evidence)) := by
        simp [behind, outer]
      rw [hout]
      exact .marker hnumbers

/-- Text without an open bracket is let out as it is. -/
theorem reading_append {x text out : List Char} {ns : List Nat} (hx : '[' ∉ x) :
    Reading evidence (x ++ text) out ns ↔
      ∃ out', out = x ++ out' ∧ Reading evidence text out' ns := by
  rcases neverCloses_or text with h | ⟨b, after, rfl⟩
  · rw [reading_of_neverCloses (neverCloses_append hx h)]
    simp [reading_of_neverCloses h]
  · have htext : x ++ (b.before ++ '[' :: (b.body ++ ']' :: after)) =
        (b.behind x hx).before ++ '[' :: ((b.behind x hx).body ++ ']' :: after) :=
      (List.append_assoc ..).symm
    rw [htext, reading_cons]
    constructor
    · rintro ⟨o, m, o', m', h, hrest, rfl, rfl⟩
      obtain ⟨o₁, rfl, hb⟩ := (Bracket.behind_reads hx).1 h
      exact ⟨o₁ ++ o', List.append_assoc .., reading_cons.2 ⟨_, _, _, _, hb, hrest, rfl, rfl⟩⟩
    · rintro ⟨out', rfl, hr⟩
      obtain ⟨o, m, o', m', h, hrest, rfl, rfl⟩ := reading_cons.1 hr
      exact ⟨x ++ o, m, o', m', (Bracket.behind_reads hx).2 ⟨o, rfl, h⟩, hrest,
        (List.append_assoc ..).symm, rfl⟩

/-! ## Open brackets that are let out -/

theorem splitComma_chars {part cs : List Char} {c : Char} (h : c ∈ part ∨ c ∈ cs) :
    c = ',' ∨ ∃ piece ∈ splitComma part cs, c ∈ piece := by
  induction cs generalizing part with
  | nil => exact .inr ⟨_, List.mem_singleton_self _, by simpa using h⟩
  | cons d cs ih =>
    unfold splitComma
    split
    · rename_i hd
      rcases h with h | h
      · exact .inr ⟨_, List.mem_cons_self, List.mem_reverse.2 h⟩
      · rcases List.mem_cons.1 h with rfl | h
        · exact .inl hd
        · obtain hc | ⟨piece, hpiece, hmem⟩ := ih (.inr h)
          · exact .inl hc
          · exact .inr ⟨piece, List.mem_cons_of_mem _ hpiece, hmem⟩
    · refine ih ?_
      rcases h with h | h
      · exact .inl (List.mem_cons_of_mem _ h)
      · rcases List.mem_cons.1 h with rfl | h
        · exact .inl List.mem_cons_self
        · exact .inr h

theorem markerNumber_chars {part : List Char} {n : Nat} (h : markerNumber part = some n) {c : Char}
    (hc : c ∈ part) : isDigit c = true ∨ isSpace c = true := by
  unfold markerNumber at h
  dsimp only at h
  split at h
  · rename_i hrest
    rw [← List.takeWhile_append_dropWhile (p := isSpace) (l := part)] at hc
    rcases List.mem_append.1 hc with hc | hc
    · exact .inr (List.mem_takeWhile_imp hc)
    · rw [← List.takeWhile_append_dropWhile (p := isDigit) (l := part.dropWhile isSpace)] at hc
      rcases List.mem_append.1 hc with hc | hc
      · exact .inl (List.mem_takeWhile_imp hc)
      · exact .inr (List.all_eq_true.1 hrest.2 c hc)
  · exact (nomatch h)

/-- A marker is made of the characters that are held back. -/
theorem markerChar_of_markerNumbers {body : List Char} {ns : List Nat}
    (h : markerNumbers body = some ns) {c : Char} (hc : c ∈ body) : markerChar c = true := by
  obtain rfl | ⟨piece, hpiece, hmem⟩ := splitComma_chars (.inr hc)
  · rfl
  · obtain ⟨n, hn⟩ : ∃ n, markerNumber piece = some n := by
      obtain ⟨n, -, hn⟩ := exists_of_mapM_eq_some h hpiece
      exact ⟨n, hn⟩
    rcases markerNumber_chars hn hmem with hd | hs
    · simp [markerChar, hd]
    · simp [markerChar, hs]

theorem not_markerChar_open : markerChar '[' = false := by decide

theorem not_markerChar_close : markerChar ']' = false := by decide

/-- **An open bracket that is let out** hides no reading: what follows it may be read as if it
were not there. -/
theorem reading_break {more rest out : List Char} {ns : List Nat} (hclose : ']' ∉ more)
    (hbreak : ¬ CitationFilter.Holdable more) (h : Reading evidence (more ++ rest) out ns) :
    Reading evidence ('[' :: (more ++ rest)) ('[' :: out) ns := by
  by_cases hc : ']' ∈ rest
  · obtain ⟨r, after, rfl, hr⟩ := List.eq_append_cons_of_mem hc
    have hbody : ']' ∉ more ++ r := by simp [hclose, hr]
    let b : Bracket := ⟨[], more ++ r, List.not_mem_nil, hbody⟩
    have htext : '[' :: (more ++ (r ++ ']' :: after)) =
        b.before ++ '[' :: (b.body ++ ']' :: after) := by simp [b]
    rw [htext, reading_cons]
    by_cases ho : '[' ∈ more ++ r
    · -- the innermost bracket of the shorter text is the innermost one here
      obtain ⟨p, body, heq, hp⟩ := List.eq_append_cons_of_mem ho
      have hbody' : ']' ∉ body := fun hm => hbody (by rw [heq]; simp [hm])
      let b' : Bracket := ⟨p, body, hp, hbody'⟩
      have hmore : more ++ (r ++ ']' :: after) = b'.before ++ '[' :: (b'.body ++ ']' :: after) := by
        rw [← List.append_assoc, heq]
        simp [b']
      rw [hmore, reading_cons] at h
      obtain ⟨o, m, o', m', hb, hrest, rfl, rfl⟩ := h
      have hinner : '[' :: (p ++ b'.outer) ++ '[' :: b'.inner = '[' :: b.body := by
        have houter := b'.outer_append_inner
        simp only [b, heq, List.cons_append, List.append_assoc, houter, b']
      obtain ⟨houter, hinner⟩ := Bracket.inner_unique hinner b'.notMem_inner
      refine ⟨'[' :: o, m, o', m', ?_, hrest, rfl, rfl⟩
      cases hb with
      | raw =>
        have hraw : '[' :: b'.raw = b.raw := by simp [Bracket.raw, b, b', heq]
        rw [hraw]
        exact .raw (.inr (.inl (by simp [houter])))
      | marker hnumbers =>
        have hout : '[' :: (b'.before ++ b'.outer ++ printed (m.filter (· ∈ evidence))) =
            b.before ++ b.outer ++ printed (m.filter (· ∈ evidence)) := by simp [houter, b, b']
        rw [hout]
        exact .marker (by rw [Bracket.numbers, hinner]; exact hnumbers)
    · have hmore : more ++ (r ++ ']' :: after) = (more ++ r ++ [']']) ++ after := by simp
      have hnot : '[' ∉ more ++ r ++ [']'] := by simpa using ho
      rw [hmore, reading_append hnot] at h
      obtain ⟨out', rfl, hrest⟩ := h
      obtain ⟨houter, hinner⟩ : b.outer = [] ∧ b.inner = more ++ r :=
        Bracket.inner_unique (List.nil_append _) ho
      refine ⟨b.raw, [], out', ns, .raw ?_, hrest, by simp [Bracket.raw, b], rfl⟩
      rw [CitationFilter.Holdable, not_and_or, not_le] at hbreak
      rcases hbreak with hlong | hchar
      · refine .inr (.inr ?_)
        rw [List.length_append]
        omega
      · refine .inl (Option.eq_none_iff_forall_ne_some.2 fun ms hms => hchar ?_)
        rw [Bracket.numbers, hinner] at hms
        exact List.all_eq_true.2 fun c hm =>
          markerChar_of_markerNumbers hms (List.mem_append_left _ hm)
  · have hnever : ∀ x : List Char, ']' ∉ x → NeverCloses x := fun x hx before more' _ heq hm =>
      hx (by rw [heq]; simp [hm])
    rw [reading_of_neverCloses (hnever _ (by simp [hclose, hc]))] at h ⊢
    exact ⟨congrArg _ h.1, h.2⟩

end

/-! ## Every run is a reading -/

namespace Bracket

theorem inner_of_notMem {b : Bracket} (h : '[' ∉ b.body) : b.outer = [] ∧ b.inner = b.body :=
  inner_unique (List.nil_append _) h

theorem outer_ne_nil {b : Bracket} (h : '[' ∈ b.body) : b.outer ≠ [] := by
  intro houter
  have heq := b.outer_append_inner
  rw [houter, List.nil_append] at heq
  exact b.notMem_inner ((List.cons.inj heq).2 ▸ h)

theorem notMem_of_markerNumbers {body : List Char} {ns : List Nat}
    (h : markerNumbers body = some ns) : '[' ∉ body := fun hm => by
  have hchar := markerChar_of_markerNumbers h hm
  rw [not_markerChar_open] at hchar
  exact (nomatch hchar)

end Bracket

namespace CitationFilter

variable {f : CitationFilter}

/-- The loop of `feed` by the shapes its buffer can have. -/
theorem drain_induction {P : CitationFilter → List Char → Prop}
    (nothing : ∀ f x, '[' ∉ x → P f x)
    (hold : ∀ f before more, '[' ∉ before → ']' ∉ more → Holdable more →
      P f (before ++ '[' :: more))
    (letOut : ∀ f before more, '[' ∉ before → ']' ∉ more → ¬ Holdable more → P f more →
      P f (before ++ '[' :: more))
    (bracket : ∀ f (b : Bracket) after, P (f.marker b.body).2 after →
      P f (b.before ++ '[' :: (b.body ++ ']' :: after)))
    (f : CitationFilter) (x : List Char) : P f x := by
  induction hn : x.length using Nat.strong_induction_on generalizing f x with
  | _ n ih =>
    rcases neverCloses_or x with hnever | ⟨b, after, rfl⟩
    · by_cases ho : '[' ∈ x
      · obtain ⟨before, more, rfl, hbefore⟩ := List.eq_append_cons_of_mem ho
        have hclose := hnever _ _ hbefore rfl
        have hlt : more.length < n := by
          rw [← hn, List.length_append, List.length_cons]
          omega
        by_cases hold' : Holdable more
        · exact hold f before more hbefore hclose hold'
        · exact letOut f before more hbefore hclose hold' (ih _ hlt f more rfl)
      · exact nothing f x ho
    · have hlt : after.length < n := by
        rw [← hn]
        simp only [List.length_append, List.length_cons]
        omega
      exact bracket f b after (ih _ hlt _ after rfl)

/-- The filter after it has read some numbers. -/
def note (f : CitationFilter) (numbers : List Nat) : CitationFilter := (f.read numbers).2

theorem note_nil (f : CitationFilter) : f.note [] = f := rfl

theorem note_append (f : CitationFilter) (ns ms : List Nat) :
    f.note (ns ++ ms) = (f.note ns).note ms := by
  have hns := List.length_filter_le (· ∈ f.evidence) ns
  have hms := List.length_filter_le (· ∈ f.evidence) ms
  have hstripped : ns.length + ms.length -
      ((ns.filter (· ∈ f.evidence)).length + (ms.filter (· ∈ f.evidence)).length) =
        (ns.length - (ns.filter (· ∈ f.evidence)).length) +
          (ms.length - (ms.filter (· ∈ f.evidence)).length) := by omega
  simp only [note, read, List.filter_append, List.length_append, List.foldl_append, hstripped,
    Nat.add_assoc]
  rfl

/-- What the filter makes of a bracket is one of its readings. -/
theorem marker_reads (f : CitationFilter) (b : Bracket) :
    ∃ ns, (f.marker b.body).2 = f.note ns ∧
      b.Reads f.evidence (b.before ++ (f.marker b.body).1) ns := by
  unfold marker
  split
  · rename_i hnone
    have hraw : b.before ++ '[' :: b.body ++ [']'] = b.raw := by simp [Bracket.raw]
    refine ⟨[], rfl, ?_⟩
    rw [← List.append_assoc, hraw]
    refine .raw ?_
    by_cases ho : '[' ∈ b.body
    · exact .inr (.inl (Bracket.outer_ne_nil ho))
    · rw [Bracket.numbers, (Bracket.inner_of_notMem ho).2]
      exact .inl hnone
  · rename_i ns hsome
    obtain ⟨houter, hinner⟩ := Bracket.inner_of_notMem (Bracket.notMem_of_markerNumbers hsome)
    refine ⟨ns, rfl, ?_⟩
    have hout : b.before ++ (f.read ns).1 =
        b.before ++ b.outer ++ printed (ns.filter (· ∈ f.evidence)) := by simp [houter, read]
    rw [hout]
    exact .marker (by rw [Bracket.numbers, hinner]; exact hsome)

/-- What the loop lets out begins a reading, whatever comes after the buffer. -/
theorem drain_reads (f : CitationFilter) (x more : List Char) {out : List Char} {ms : List Nat}
    (h : Reading f.evidence ((f.drain x).2.buffer ++ more) out ms) :
    ∃ ns, (f.drain x).2 = { f.note ns with buffer := (f.drain x).2.buffer } ∧
      Reading f.evidence (x ++ more) ((f.drain x).1 ++ out) (ns ++ ms) := by
  induction f, x using drain_induction with
  | nothing f x ho =>
    rw [drain_open f ho] at h ⊢
    exact ⟨[], rfl, (reading_append ho).2 ⟨out, rfl, h⟩⟩
  | hold f before held hbefore hclose hold =>
    rw [drain_hold f hbefore hclose hold] at h ⊢
    refine ⟨[], rfl, ?_⟩
    rw [List.append_assoc]
    exact (reading_append hbefore).2 ⟨out, rfl, h⟩
  | letOut f before tail hbefore hclose hbreak ih =>
    rw [drain_break f hbefore hclose hbreak] at h ⊢
    obtain ⟨ns, hns, hr⟩ := ih h
    refine ⟨ns, hns, ?_⟩
    rw [List.append_assoc, List.append_assoc]
    exact (reading_append hbefore).2 ⟨_, rfl, reading_break hclose hbreak hr⟩
  | bracket f b after ih =>
    rw [drain_bracket f b.notOpen b.notClose] at h ⊢
    obtain ⟨ls, hls, hb⟩ := f.marker_reads b
    have hevidence : (f.marker b.body).2.evidence = f.evidence := by rw [hls]; rfl
    rw [← hevidence] at h
    obtain ⟨ns, hns, hr⟩ := ih h
    have htext : b.before ++ '[' :: (b.body ++ ']' :: after) ++ more =
        b.before ++ '[' :: (b.body ++ ']' :: (after ++ more)) := by simp
    refine ⟨ls ++ ns, ?_, ?_⟩
    · rw [note_append, ← hls]
      exact hns
    · rw [hevidence] at hr
      rw [htext]
      exact reading_cons.2 ⟨_, ls, _, _, hb, hr, by simp, by simp⟩

theorem drain_evidence (f : CitationFilter) (x : List Char) :
    (f.drain x).2.evidence = f.evidence := by
  induction f, x using drain_induction with
  | nothing f x ho => rw [drain_open f ho]
  | hold f before held hbefore hclose hold => rw [drain_hold f hbefore hclose hold]
  | letOut f before tail hbefore hclose hbreak ih =>
    rw [drain_break f hbefore hclose hbreak]
    exact ih
  | bracket f b after ih =>
    obtain ⟨ns, hns, -⟩ := f.marker_reads b
    rw [drain_bracket f b.notOpen b.notClose]
    exact ih.trans (by rw [hns]; rfl)

/-- What is held back has no bracket that closes. -/
theorem neverCloses_buffer (f : CitationFilter) (x : List Char) :
    NeverCloses (f.drain x).2.buffer := by
  induction f, x using drain_induction with
  | nothing f x ho =>
    rw [drain_open f ho]
    exact fun before more _ heq => by simp at heq
  | hold f before held hbefore hclose hold =>
    rw [drain_hold f hbefore hclose hold]
    intro before' more _ (heq : '[' :: held = before' ++ '[' :: more) hm
    have hmem : ']' ∈ '[' :: held := by
      rw [heq]
      exact List.mem_append_right _ (List.mem_cons_of_mem _ hm)
    simp [hclose] at hmem
  | letOut f before tail hbefore hclose hbreak ih =>
    rw [drain_break f hbefore hclose hbreak]
    exact ih
  | bracket f b after ih =>
    rw [drain_bracket f b.notOpen b.notClose]
    exact ih

/-- **Every run is a reading** of what is in the buffer and of what comes. -/
theorem runFrom_reads (f : CitationFilter) (deltas : List (List Char))
    (hbuffer : NeverCloses f.buffer) :
    ∃ ns, (f.runFrom deltas).2 = { f.note ns with buffer := [] } ∧
      Reading f.evidence (f.buffer ++ deltas.flatten) (f.runFrom deltas).1 ns := by
  induction deltas generalizing f with
  | nil =>
    refine ⟨[], rfl, ?_⟩
    rw [List.flatten_nil, List.append_nil, reading_of_neverCloses hbuffer]
    exact ⟨rfl, rfl⟩
  | cons delta deltas ih =>
    let g : CitationFilter := { f with buffer := [] }
    obtain ⟨ms, hms, hr⟩ := ih (f.feed delta).2 (neverCloses_buffer _ _)
    have hr : Reading g.evidence ((g.drain (f.buffer ++ delta)).2.buffer ++ deltas.flatten)
        ((f.feed delta).2.runFrom deltas).1 ms := by
      rw [← drain_evidence g (f.buffer ++ delta)]
      exact hr
    obtain ⟨ns, hns, hr⟩ := drain_reads g (f.buffer ++ delta) deltas.flatten hr
    refine ⟨ns ++ ms, ?_, ?_⟩
    · have hfeed : ((f.feed delta).2.note ms) =
          { f.note (ns ++ ms) with buffer := (f.feed delta).2.buffer } := by
        rw [note_append]
        exact congrArg (note · ms) hns
      rw [runFrom, hms, hfeed]
    · rw [List.flatten_cons, ← List.append_assoc]
      exact hr

/-! ## Every reading is a run -/

/-- A text by its brackets. -/
theorem text_induction {P : List Char → Prop} (never : ∀ text, NeverCloses text → P text)
    (bracket : ∀ (b : Bracket) after, P after → P (b.before ++ '[' :: (b.body ++ ']' :: after)))
    (text : List Char) : P text := by
  induction hn : text.length using Nat.strong_induction_on generalizing text with
  | _ n ih =>
    rcases neverCloses_or text with h | ⟨b, after, rfl⟩
    · exact never text h
    · refine bracket b after (ih _ ?_ after rfl)
      rw [← hn]
      simp only [List.length_append, List.length_cons]
      omega

/-- What some deltas do, whatever comes after them. -/
def Feeds (f : CitationFilter) (deltas : List (List Char)) (out : List Char)
    (g : CitationFilter) : Prop :=
  ∀ more, f.runFrom (deltas ++ more) = (out ++ (g.runFrom more).1, (g.runFrom more).2)

theorem feeds_one {delta out : List Char} {g : CitationFilter} (h : f.feed delta = (out, g)) :
    f.Feeds [delta] out g := by
  intro more
  rw [List.singleton_append, runFrom, h]

theorem Feeds.append {ds ds' : List (List Char)} {out out' : List Char} {g g' : CitationFilter}
    (h : f.Feeds ds out g) (h' : g.Feeds ds' out' g') : f.Feeds (ds ++ ds') (out ++ out') g' := by
  intro more
  rw [List.append_assoc, h, h', List.append_assoc]

/-- An open bracket at the end is held back alone. -/
theorem drain_toOpen (f : CitationFilter) {before outer : List Char} (hbefore : '[' ∉ before)
    (hclose : ']' ∉ outer) :
    f.drain (before ++ outer ++ ['[']) = (before ++ outer, { f with buffer := ['['] }) := by
  induction hn : outer.length using Nat.strong_induction_on generalizing before outer with
  | _ n ih =>
    by_cases ho : '[' ∈ outer
    · obtain ⟨p, q, rfl, hp⟩ := List.eq_append_cons_of_mem ho
      have hq : ']' ∉ q := fun h => hclose (by simp [h])
      have htext : before ++ (p ++ '[' :: q) ++ ['['] = (before ++ p) ++ '[' :: ([] ++ q ++ ['[']) := by
        simp
      have hbreak : ¬ Holdable ([] ++ q ++ ['[']) := fun h => by
        have hchar := List.all_eq_true.1 h.2 '[' (by simp)
        rw [not_markerChar_open] at hchar
        exact (nomatch hchar)
      have hlt : q.length < n := by
        rw [← hn]
        simp only [List.length_append, List.length_cons]
        omega
      rw [htext, drain_break f (by simp [hbefore, hp]) (by simp [hq]) hbreak,
        ih q.length hlt List.not_mem_nil hq rfl]
      simp
    · exact drain_hold f (by simp [hbefore, ho]) List.not_mem_nil ⟨by simp, rfl⟩

/-- **Each reading of a bracket** is what some deltas make of it. -/
theorem feeds_bracket (b : Bracket) (hbuffer : f.buffer = []) {out : List Char} {ns : List Nat}
    (h : b.Reads f.evidence out ns) : ∃ ds, ds.flatten = b.raw ∧ f.Feeds ds out (f.note ns) := by
  have hfeed : ∀ (g : CitationFilter) d, g.buffer = [] → g.feed d = g.drain d := fun g d hg => by
    cases g
    cases hg
    rfl
  have hempty : ∀ g : CitationFilter, g.buffer = [] → { g with buffer := [] } = g := fun g hg => by
    cases g
    cases hg
    rfl
  have hnil : ∀ g : CitationFilter, g.buffer = [] → g.drain [] = ([], g) := fun g hg => by
    rw [drain_open g List.not_mem_nil, hempty g hg]
  cases h with
  | raw h =>
    cases hm : markerNumbers b.body with
    | none =>
      refine ⟨[b.raw], List.flatten_singleton, feeds_one ?_⟩
      have hmarker : f.marker b.body = ('[' :: b.body ++ [']'], f) := by rw [marker, hm]
      rw [hfeed f _ hbuffer, Bracket.raw, drain_bracket f b.notOpen b.notClose, hmarker,
        hnil f hbuffer, note_nil]
      simp
    | some ms =>
      have ho := Bracket.notMem_of_markerNumbers hm
      obtain ⟨houter, hinner⟩ := Bracket.inner_of_notMem ho
      have hlong : ¬ Holdable b.body := by
        rcases h with hnone | hsoft | hlong
        · rw [Bracket.numbers, hinner, hm] at hnone
          exact (nomatch hnone)
        · exact absurd houter hsoft
        · exact fun hold => absurd hold.1 (not_le.2 hlong)
      refine ⟨[b.before ++ '[' :: b.body, [']']], by simp [Bracket.raw], ?_⟩
      have hout : b.raw = (b.before ++ '[' :: b.body) ++ [']'] := by simp [Bracket.raw]
      rw [hout, note_nil]
      refine Feeds.append (g := f) (feeds_one ?_) (feeds_one ?_)
      · rw [hfeed f _ hbuffer, drain_break f b.notOpen b.notClose hlong, drain_open f ho,
          hempty f hbuffer]
      · rw [hfeed f _ hbuffer, drain_open f (by simp), hempty f hbuffer]
  | marker hnumbers =>
    refine ⟨[b.before ++ b.outer ++ ['['], b.inner ++ [']']], by simp [b.raw_eq], ?_⟩
    have hclose : ']' ∉ b.outer ∧ ']' ∉ b.inner := by
      have hmem : ']' ∉ b.outer ++ '[' :: b.inner := by
        rw [b.outer_append_inner]
        simp [b.notClose]
      exact ⟨fun h => hmem (by simp [h]), fun h => hmem (by simp [h])⟩
    have hmarker : f.marker b.inner = f.read ns := by
      rw [marker, show markerNumbers b.inner = some ns from hnumbers]
    refine Feeds.append (g := { f with buffer := ['['] }) (feeds_one ?_) (feeds_one ?_)
    · rw [hfeed f _ hbuffer]
      exact drain_toOpen f b.notOpen hclose.1
    · have hg : ({ f with buffer := ['['] } : CitationFilter).feed (b.inner ++ [']']) =
          f.drain ([] ++ '[' :: (b.inner ++ [']'])) := by
        rw [← hempty f hbuffer]
        rfl
      rw [hg, drain_bracket f List.not_mem_nil hclose.2, hmarker,
        hnil (f.read ns).2 hbuffer]
      simp [read, note]

/-- **Every reading is a run**, over some deltas of the text. -/
theorem exists_runFrom (hbuffer : f.buffer = []) {text out : List Char} {ns : List Nat}
    (h : Reading f.evidence text out ns) :
    ∃ deltas, deltas.flatten = text ∧ f.runFrom deltas = (out, f.note ns) := by
  induction text using text_induction generalizing f out ns with
  | never text hnever =>
    obtain ⟨rfl, rfl⟩ := (reading_of_neverCloses hnever).1 h
    refine ⟨[out], List.flatten_singleton, ?_⟩
    obtain ⟨ns, hns, hr⟩ := f.runFrom_reads [out] (by
      rw [hbuffer]
      exact fun before more _ heq => by simp at heq)
    rw [hbuffer, List.nil_append, List.flatten_singleton, reading_of_neverCloses hnever] at hr
    obtain ⟨hout, rfl⟩ := hr
    refine Prod.ext hout (hns.trans ?_)
    cases f
    cases hbuffer
    rfl
  | bracket b after ih =>
    obtain ⟨o, m, o', m', hb, hrest, rfl, rfl⟩ := reading_cons.1 h
    obtain ⟨ds, hds, hfeeds⟩ := feeds_bracket b hbuffer hb
    obtain ⟨ds', hds', hrun⟩ := ih (f := f.note m) hbuffer hrest
    refine ⟨ds ++ ds', ?_, ?_⟩
    · rw [List.flatten_append, hds, hds']
      simp [Bracket.raw]
    · rw [hfeeds, hrun, note_append]

end CitationFilter

end SecondMind
