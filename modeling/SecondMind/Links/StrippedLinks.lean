import SecondMind.Links.SavedLinks
import SecondMind.Regex.Ways
import SecondMind.Texts.Words

/-!
# Stripping the links of a message

`without_links` replaces each URL that `extract_urls` found by `[link]`, one after the other and
wherever it stands. That strips a message of its links if each URL is spelled as it was found, and
stands, once those before it were replaced, nowhere but as a whole link.

* `HasLink` — there is a link in a text;
* `pieces` — a message as its letters and its links;
* `Whole`, `Schemed` — the two conditions;
* `withoutLinks_strips_iff` — what is left of a message.
-/

namespace SecondMind
namespace Links

open Regex

/-! ## Where a link starts -/

/-- The scheme of a link, or its `www.`. -/
def linkHead : Pattern :=
  .any [.all [.one schemeStart, .between 1 15 (.one schemeChar), .text "://"],
    .all [anyCase "www", .text "."]]

/-- A text begins with a link, wherever it stands. -/
def Opens (rest : List Char) : Prop :=
  ∃ w x r, rest = w ++ x :: r ∧ linkHead.Lang w ∧ urlChar x = true

theorem linkHead_within :
    linkHead.Within fun c => c ≠ '[' ∧ c ≠ ']' ∧ isSpace c = false := by
  -- a test that passes neither a bracket nor white space
  have hof : ∀ f : Char → Bool, f '[' = false → f ']' = false →
      spaces.all (fun c => !f c) = true →
      ∀ c, f c = true → c ≠ '[' ∧ c ≠ ']' ∧ isSpace c = false := by
    intro f hopen hclose hspaces c hc
    refine ⟨?_, ?_, not_isSpace_of hspaces hc⟩
    · rintro rfl
      exact Bool.false_ne_true (hopen.symm.trans hc)
    · rintro rfl
      exact Bool.false_ne_true (hclose.symm.trans hc)
  have hmark : ∀ c, decide (c ∈ [':', '/', '.']) = true → _ :=
    hof _ (by decide) (by decide) (by decide +kernel)
  have hslashes : ∀ c ∈ "://".toList, decide (c ∈ [':', '/', '.']) = true :=
    List.all_eq_true.1 (by decide +kernel)
  have hdot : ∀ c ∈ ".".toList, decide (c ∈ [':', '/', '.']) = true :=
    List.all_eq_true.1 (by decide +kernel)
  have hletter := hof (fun c => decide (foldCase c = 'w')) (by decide) (by decide)
    (by decide +kernel)
  exact ⟨⟨hof _ (by decide) (by decide) (by decide +kernel),
      hof _ (by decide) (by decide) (by decide +kernel),
      Pattern.within_text fun c hc => hmark c (hslashes c hc)⟩,
    ⟨hletter, hletter, hletter⟩, Pattern.within_text fun c hc => hmark c (hdot c hc)⟩

/-- A link starts with a letter, and its head ends with a slash or a dot. -/
theorem linkHead_ends {w : List Char} (h : linkHead.Lang w) :
    ∃ c u d, w = c :: (u ++ [d]) ∧ schemeStart c = true ∧ (d = '/' ∨ d = '.') := by
  rcases h with ⟨u, v, rfl, ⟨c, hc, rfl⟩, u', v', rfl, -, hslashes⟩ |
    ⟨u, v, rfl, ⟨u₁, v₁, rfl, ⟨c, hc, rfl⟩, hw⟩, hdot⟩
  · rw [Pattern.lang_text.1 hslashes]
    exact ⟨c, u' ++ [':', '/'], '/', by simp, hc, .inl rfl⟩
  · rw [Pattern.lang_text.1 hdot]
    refine ⟨c, v₁, '.', by simp, ?_, .inr rfl⟩
    have hw' : foldCase c = 'w' := of_decide_eq_true hc
    rw [schemeStart, hw']
    decide

theorem run_urlPattern {c : Cursor} (h : c.atEdge isWord = true) :
    urlPattern.run c = (Pattern.seq linkHead (.plus (.one urlChar))).run c := by
  show (if c.atEdge isWord then [c] else []).flatMap _ = _
  rw [if_pos h]
  exact List.flatMap_singleton _ _

/-- The pattern of links matches where a link opens, at the edge of a word. -/
theorem run_urlPattern_ne_nil {c : Cursor} :
    urlPattern.run c ≠ [] ↔ c.atEdge isWord = true ∧ Opens c.rest := by
  by_cases hedge : c.atEdge isWord = true
  · rw [run_urlPattern hedge]
    refine ⟨fun hne => ⟨hedge, ?_⟩, fun ⟨_, w, x, r, hrest, hw, hx⟩ => ?_⟩
    · obtain ⟨d, hd⟩ := List.exists_mem_of_ne_nil _ hne
      obtain ⟨⟨-, ⟨w, v, rfl, hw, hv⟩, hmoves⟩, -⟩ := Pattern.run_sound _ c d hd
      obtain ⟨hletters, hleast, -⟩ := Pattern.lang_rep_one hv
      obtain ⟨x, v, rfl⟩ := List.exists_cons_of_length_pos hleast
      exact ⟨w, x, v ++ d.rest, by rw [hmoves.rest]; simp, hw, hletters x List.mem_cons_self⟩
    · have hfree : (Pattern.seq linkHead (.plus (.one urlChar))).Free :=
        ⟨⟨⟨trivial, trivial, trivial, trivial, trivial⟩, ⟨trivial, trivial, trivial⟩, trivial⟩,
          trivial⟩
      have hlang : (Pattern.seq linkHead (.plus (.one urlChar))).Lang (w ++ [x]) :=
        ⟨w, [x], rfl, hw, Pattern.lang_rep_one_of (by simpa using hx) (Nat.le_refl 1) (by simp)⟩
      obtain ⟨d, hd, -⟩ := Pattern.run_complete _ hfree c (w ++ [x]) r hlang (by simp [hrest])
      exact List.ne_nil_of_mem hd
  · have hnone : urlPattern.run c = [] := by
      show (if c.atEdge isWord then [c] else []).flatMap _ = _
      rw [if_neg hedge]
      rfl
    exact iff_of_false (fun h => h hnone) fun h => hedge h.1

theorem urlChar_of_schemeStart {c : Char} (h : schemeStart c = true) : urlChar c = true := by
  have hspace : isSpace c = false := not_isSpace_of (by decide +kernel) h
  have hmark : c ∉ ['<', '>', '"', '\'', '`'] := by
    intro hmem
    simp only [List.mem_cons, List.not_mem_nil, or_false] at hmem
    rcases hmem with rfl | rfl | rfl | rfl | rfl <;> exact absurd h (by decide)
  rw [urlChar, hspace]
  exact decide_eq_true ⟨rfl, hmark⟩

theorem Opens.head {rest : List Char} (h : Opens rest) :
    ∃ c r, rest = c :: r ∧ schemeStart c = true := by
  obtain ⟨w, x, r, rfl, hw, -⟩ := h
  obtain ⟨c, u, d, rfl, hc, -⟩ := linkHead_ends hw
  exact ⟨c, u ++ [d] ++ x :: r, by simp, hc⟩

theorem not_opens_cons {c : Char} {rest : List Char} (h : schemeStart c = false) :
    ¬ Opens (c :: rest) := by
  intro hopens
  obtain ⟨d, r, heq, hd⟩ := hopens.head
  rw [← (List.cons.inj heq).1, h] at hd
  exact Bool.false_ne_true hd

/-- There is a link at a place, behind another text. -/
def LinkAt (before rest : List Char) : Prop :=
  Cursor.atEdge isWord { before := before, rest := rest } = true ∧ Opens rest

theorem LinkAt.append {before text : List Char} (h : LinkAt before text) (more : List Char) :
    LinkAt before (text ++ more) := by
  obtain ⟨hedge, w, x, r, rfl, hw, hx⟩ := h
  refine ⟨?_, w, x, r ++ more, by simp, hw, hx⟩
  obtain ⟨c, u, d, rfl, -, -⟩ := linkHead_ends hw
  exact hedge

/-- There is a link from a place on. -/
def HasLink (before : List Char) : List Char → Prop
  | [] => False
  | c :: rest => LinkAt before (c :: rest) ∨ HasLink (c :: before) rest

theorem matchAt_urlPattern {before rest : List Char} {m : Match}
    (h : matchAt urlPattern { before := before, rest := rest } = some m) :
    LinkAt before m.taken ∧ rest = m.taken ++ m.rest ∧
      (∃ c u, m.taken = c :: u ∧ schemeStart c = true) ∧
      ∀ c r, m.rest = c :: r → urlChar c = false := by
  obtain ⟨d, hd, rfl⟩ := Option.map_eq_some_iff.1 h
  have hmem := List.mem_of_mem_head? hd
  obtain ⟨hedge, hopens⟩ := run_urlPattern_ne_nil.1 (List.ne_nil_of_mem hmem)
  rw [run_urlPattern hedge] at hd hmem
  obtain ⟨e, -, hplus⟩ := Pattern.First.of_seq hd
  obtain ⟨⟨-, ⟨w, v, rfl, hw, hv⟩, hmoves⟩, -⟩ := Pattern.run_sound _ _ d hmem
  obtain ⟨c, u, d', rfl, hc, -⟩ := linkHead_ends hw
  have htaken : Cursor.taken _ d = _ := hmoves.taken
  have hrest : rest = _ := hmoves.rest
  obtain ⟨hletters, hleast, -⟩ := Pattern.lang_rep_one hv
  obtain ⟨x, v, rfl⟩ := List.exists_cons_of_length_pos hleast
  rw [Cursor.between, htaken]
  refine ⟨⟨?_, c :: (u ++ [d']), x, v, by simp, hw, hletters x List.mem_cons_self⟩, hrest,
    ⟨c, u ++ [d'] ++ x :: v, by simp, hc⟩, hplus.stops⟩
  rw [hrest] at hedge
  exact hedge

theorem matchAt_urlPattern_none {before rest : List Char}
    (h : matchAt urlPattern { before := before, rest := rest } = none) : ¬ LinkAt before rest := by
  intro hlink
  have hne := run_urlPattern_ne_nil.2 hlink
  rw [matchAt, Option.map_eq_none_iff, List.head?_eq_none_iff] at h
  exact hne h

/-- **A text without links** is one in which none is found. -/
theorem findAll_urlPattern_eq_nil {text : List Char} :
    findAll urlPattern text = [] ↔ ¬ HasLink [] text := by
  have hfrom : ∀ before, matchesFrom urlPattern before 0 text = [] ↔ ¬ HasLink before text := by
    induction text with
    | nil => exact fun before => iff_of_true rfl id
    | cons c text ih =>
      intro before
      rw [matchesFrom, HasLink, not_or]
      cases hmatch : matchAt urlPattern { before := before, rest := c :: text } with
      | none =>
        dsimp only
        rw [ih (c :: before)]
        exact ⟨fun h => ⟨matchAt_urlPattern_none hmatch, h⟩, And.right⟩
      | some m =>
        obtain ⟨hlink, hrest, ⟨d, u, htaken, -⟩, -⟩ := matchAt_urlPattern hmatch
        dsimp only
        rw [if_neg (by rw [htaken]; exact List.cons_ne_nil d u)]
        refine iff_of_false (List.cons_ne_nil _ _) fun h => h.1 ?_
        rw [hrest]
        exact hlink.append m.rest
  exact hfrom []

/-! ## The pieces of a message -/

/-- The punctuation that is trimmed. -/
def marks : List Char := ['.', ',', ';', ':', '!', '?', '\'', '"', '}', '>', ')', ']']

theorem trimBack_spec (url : List Char) :
    ∃ t, url = t ++ trimBack url ∧ ∀ c ∈ t, c ∈ marks := by
  induction url with
  | nil => exact ⟨[], rfl, by simp⟩
  | cons last url ih =>
    rw [trimBack]
    split
    · rename_i htrim
      obtain ⟨t, ht, hmarks⟩ := ih
      refine ⟨last :: t, by rw [List.cons_append, ← ht], fun c hc => ?_⟩
      rcases List.mem_cons.1 hc with rfl | hc
      · rcases of_decide_eq_true htrim with hmem | ⟨rfl, -⟩ | ⟨rfl, -⟩
        · exact List.mem_append_left [')', ']'] hmem
        · decide
        · decide
      · exact hmarks c hc
    · exact ⟨[], rfl, by simp⟩

/-- Only punctuation is trimmed. -/
theorem trim_spec (url : List Char) : ∃ t, url = trim url ++ t ∧ ∀ c ∈ t, c ∈ marks := by
  obtain ⟨t, ht, hmarks⟩ := trimBack_spec url.reverse
  refine ⟨t.reverse, ?_, fun c hc => hmarks c (List.mem_reverse.1 hc)⟩
  rw [trim, ← List.reverse_append, ← ht, List.reverse_reverse]

theorem schemeStart_of_mem_marks {c : Char} (h : c ∈ marks) : schemeStart c = false := by
  have hall : marks.all (fun c => !schemeStart c) = true := by decide
  simpa using List.all_eq_true.1 hall c h

theorem trim_cons {c : Char} {u : List Char} (hc : schemeStart c = true) :
    ∃ u', trim (c :: u) = c :: u' := by
  obtain ⟨t, ht, hmarks⟩ := trim_spec (c :: u)
  cases htrim : trim (c :: u) with
  | nil =>
    rw [htrim, List.nil_append] at ht
    have hmem := hmarks c (ht ▸ List.mem_cons_self)
    exact absurd (hc.symm.trans (schemeStart_of_mem_marks hmem)) (by decide)
  | cons d u' =>
    rw [htrim] at ht
    exact ⟨u', by rw [(List.cons.inj ht).1]⟩

/-- A part of a message: a letter, or a link without the punctuation behind it. -/
inductive Piece
  | letter (c : Char)
  | link (url : List Char)
  deriving DecidableEq

/-- The pieces from a place on; `skip` counts the letters of the last match. -/
def piecesFrom (before : List Char) : Nat → List Char → List Piece
  | _, [] => []
  | skip + 1, x :: rest => piecesFrom (x :: before) skip rest
  | 0, x :: rest =>
    match matchAt urlPattern { before := before, rest := x :: rest } with
    | none => .letter x :: piecesFrom (x :: before) 0 rest
    | some m =>
      .link (trim m.taken) :: ((m.taken.drop (trim m.taken).length).map .letter ++
        piecesFrom (x :: before) (m.taken.length - 1) rest)

/-- The pieces of a message. -/
def pieces (message : List Char) : List Piece := piecesFrom [] 0 message

namespace Piece

/-- A link is put as the mark if it is among these. -/
def put (done : List (List Char)) : Piece → List Char
  | letter c => [c]
  | link url => if url ∈ done then linkMark else url

def letter? : Piece → Option Char
  | letter c => some c
  | link _ => none

def link? : Piece → Option (List Char)
  | letter _ => none
  | link url => some url

end Piece

/-- The text of pieces, some links being marked. -/
def textOf (done : List (List Char)) (ps : List Piece) : List Char := ps.flatMap (·.put done)

/-- What is outside the links. -/
def outside (ps : List Piece) : List Char := ps.filterMap Piece.letter?

def linksOf (ps : List Piece) : List (List Char) := ps.filterMap Piece.link?

@[simp] theorem textOf_nil (done : List (List Char)) : textOf done [] = [] := rfl

@[simp] theorem textOf_cons (done : List (List Char)) (p : Piece) (ps : List Piece) :
    textOf done (p :: ps) = p.put done ++ textOf done ps := rfl

theorem textOf_append (done : List (List Char)) (ps qs : List Piece) :
    textOf done (ps ++ qs) = textOf done ps ++ textOf done qs :=
  List.flatMap_append

theorem textOf_letters (done : List (List Char)) (cs : List Char) :
    textOf done (cs.map .letter) = cs := by
  induction cs with
  | nil => rfl
  | cons c cs ih => rw [List.map_cons, textOf_cons, ih]; rfl

/-- How a text is cut into pieces: no link starts at a letter, a link starts with a letter of a
scheme, and neither the punctuation behind it nor what comes then does. -/
inductive Cut : List Char → List Char → List Piece → Prop
  | nil {before : List Char} : Cut before [] []
  | letter {before rest : List Char} {c : Char} {ps : List Piece}
      (none : ¬ LinkAt before (c :: rest))
      (more : Cut (c :: before) rest ps) : Cut before (c :: rest) (.letter c :: ps)
  | link {before url tail rest : List Char} {ps : List Piece}
      (here : LinkAt before (url ++ tail))
      (first : ∃ c u, url = c :: u ∧ schemeStart c = true)
      (tail_marks : ∀ c ∈ tail, schemeStart c = false)
      (stop : ∀ c r, rest = c :: r → schemeStart c = false)
      (more : Cut ((url ++ tail).reverse ++ before) rest ps) :
      Cut before (url ++ tail ++ rest) (.link url :: (tail.map .letter ++ ps))

theorem piecesFrom_length (before left rest : List Char) :
    piecesFrom before left.length (left ++ rest) = piecesFrom (left.reverse ++ before) 0 rest := by
  induction left generalizing before with
  | nil => rfl
  | cons x left ih =>
    rw [List.cons_append, List.length_cons, piecesFrom, ih]
    simp

theorem cut_piecesFrom (before : List Char) : ∀ rest, Cut before rest (piecesFrom before 0 rest)
  | [] => .nil
  | c :: rest => by
    rw [piecesFrom]
    cases hmatch : matchAt urlPattern { before := before, rest := c :: rest } with
    | none => exact .letter (matchAt_urlPattern_none hmatch) (cut_piecesFrom _ rest)
    | some m =>
      obtain ⟨hlink, hrest, ⟨d, u, htaken, hd⟩, hstop⟩ := matchAt_urlPattern hmatch
      obtain ⟨t, ht, hmarks⟩ := trim_spec m.taken
      have hdrop : m.taken.drop (trim m.taken).length = t :=
        (congrArg (List.drop (trim m.taken).length) ht).trans List.drop_left
      obtain ⟨rfl, hu⟩ : c = d ∧ rest = u ++ m.rest := by
        rw [htaken, List.cons_append] at hrest
        exact List.cons.inj hrest
      have hmore : piecesFrom (c :: before) (m.taken.length - 1) rest =
          piecesFrom (m.taken.reverse ++ before) 0 m.rest := by
        rw [hu, htaken, List.length_cons, Nat.add_sub_cancel, piecesFrom_length]
        simp
      have hless : m.rest.length < (c :: rest).length := by
        rw [hu, List.length_cons, List.length_append]
        omega
      dsimp only
      rw [hmore, hdrop]
      obtain ⟨u', hu'⟩ : ∃ u', trim m.taken = c :: u' := htaken ▸ trim_cons hd
      have hwhole : c :: rest = trim m.taken ++ t ++ m.rest := ht ▸ hrest
      rw [hwhole]
      refine .link (ht ▸ hlink) ⟨c, u', hu', hd⟩
        (fun e he => schemeStart_of_mem_marks (hmarks e he)) (fun e r he => ?_) ?_
      · by_contra hstart
        exact Bool.false_ne_true ((hstop e r he).symm.trans
          (urlChar_of_schemeStart (Bool.not_eq_false _ ▸ hstart)))
      · rw [← ht]
        exact cut_piecesFrom _ m.rest
termination_by rest => rest.length

theorem linksOf_link (url tail : List Char) (ps : List Piece) :
    linksOf (.link url :: (tail.map .letter ++ ps)) = url :: linksOf ps := by
  have hletters : linksOf (tail.map .letter) = [] := by
    induction tail with
    | nil => rfl
    | cons c tail ih => exact ih
  show url :: linksOf (_ ++ _) = _
  rw [linksOf, List.filterMap_append, ← linksOf, hletters]
  rfl

theorem linksOf_pieces (message : List Char) :
    linksOf (pieces message) = (findAll urlPattern message).map fun m => trim m.taken := by
  have hfrom : ∀ before skip, linksOf (piecesFrom before skip message) =
      (matchesFrom urlPattern before skip message).map fun m => trim m.taken := by
    induction message with
    | nil => exact fun before skip => by cases skip <;> rfl
    | cons c rest ih =>
      intro before skip
      cases skip with
      | succ skip => exact ih (c :: before) skip
      | zero =>
        rw [piecesFrom, matchesFrom]
        cases hmatch : matchAt urlPattern { before := before, rest := c :: rest } with
        | none => exact ih (c :: before) 0
        | some m =>
          obtain ⟨-, -, ⟨d, u, htaken, -⟩, -⟩ := matchAt_urlPattern hmatch
          dsimp only
          rw [if_neg (by rw [htaken]; exact List.cons_ne_nil d u), List.map_cons, ← ih,
            linksOf_link]
  exact hfrom [] 0

/-! ## Replacing link by link -/

/-- A text stands among the pieces only as the whole of a link, some links being marked. -/
def StandsWhole (done : List (List Char)) (ps : List Piece) (url : List Char) : Prop :=
  ∀ i < (textOf done ps).length, url <+: (textOf done ps).drop i →
    ∃ k < ps.length, ps[k]? = some (.link url) ∧ (textOf done (ps.take k)).length = i

instance (done : List (List Char)) (ps : List Piece) (url : List Char) :
    Decidable (StandsWhole done ps url) := by
  unfold StandsWhole
  infer_instance

theorem put_ne_nil {done : List (List Char)} {p : Piece} (h : ∀ url, p = .link url → url ≠ []) :
    p.put done ≠ [] := by
  cases p with
  | letter c => exact List.cons_ne_nil c []
  | link url =>
    rw [Piece.put]
    split
    · decide
    · exact h url rfl

namespace StandsWhole

variable {done : List (List Char)} {p : Piece} {ps : List Piece} {url : List Char}

theorem tail (h : StandsWhole done (p :: ps) url) (hp : p.put done ≠ []) :
    StandsWhole done ps url := by
  intro i hi hurl
  have hpos := List.length_pos_of_ne_nil hp
  obtain ⟨k, hk, hlink, hlength⟩ := h ((p.put done).length + i)
    (by rw [textOf_cons, List.length_append]; omega)
    (by rwa [textOf_cons, List.drop_length_add_append])
  cases k with
  | zero =>
    have hzero : 0 = (p.put done).length + i := hlength
    omega
  | succ k =>
    rw [List.take_succ_cons, textOf_cons, List.length_append] at hlength
    exact ⟨k, Nat.lt_of_succ_lt_succ hk, hlink, by omega⟩

/-- Where another piece is, the text does not start. -/
theorem not_prefix (h : StandsWhole done (p :: ps) url) (hp : p ≠ .link url) {u v : List Char}
    (hput : p.put done = u ++ v) (hv : v ≠ []) : ¬ url <+: v ++ textOf done ps := by
  intro hurl
  have hpos := List.length_pos_of_ne_nil hv
  have htext : textOf done (p :: ps) = u ++ (v ++ textOf done ps) := by
    rw [textOf_cons, hput, List.append_assoc]
  obtain ⟨k, -, hlink, hlength⟩ := h u.length
    (by rw [htext, List.length_append, List.length_append]; omega)
    (by rwa [htext, List.drop_left])
  cases k with
  | zero => exact hp (Option.some.inj hlink)
  | succ k =>
    rw [List.take_succ_cons, textOf_cons, hput, List.length_append, List.length_append] at hlength
    omega

end StandsWhole

/-- **One replacement** marks the links that are the text, and nothing else. -/
theorem replace_textOf {done : List (List Char)} {ps : List Piece} {url : List Char}
    (hne : url ≠ []) (hnew : url ∉ done) (hlinks : ∀ url' ∈ linksOf ps, url' ≠ [])
    (h : StandsWhole done ps url) :
    Texts.replace url linkMark (textOf done ps) = textOf (done ++ [url]) ps := by
  induction ps with
  | nil => rfl
  | cons p ps ih =>
    have hput : p.put done ≠ [] := put_ne_nil fun url' hp =>
      hlinks url' (List.mem_filterMap.2 ⟨p, List.mem_cons_self, by rw [hp]; rfl⟩)
    have hmore := ih (fun url' hmem => hlinks url' (by
      obtain ⟨q, hq, hlink⟩ := List.mem_filterMap.1 hmem
      exact List.mem_filterMap.2 ⟨q, List.mem_cons_of_mem p hq, hlink⟩)) (h.tail hput)
    rw [textOf_cons, textOf_cons, ← hmore]
    by_cases hp : p = .link url
    · subst hp
      rw [Piece.put, if_neg hnew, Texts.replace_append hne, Piece.put,
        if_pos (List.mem_append_right done (List.mem_singleton_self url))]
    · have hsame : p.put (done ++ [url]) = p.put done := by
        cases p with
        | letter c => rfl
        | link url' =>
          have hother : url' ≠ url := fun heq => hp (heq ▸ rfl)
          simp [Piece.put, hother]
      rw [hsame, Texts.replace_pass fun u v huv hv => h.not_prefix hp huv hv]

/-- Each URL stands, once those before it were marked, only as the whole of a link. -/
def Whole (ps : List Piece) : List (List Char) → List (List Char) → Prop
  | _, [] => True
  | done, url :: urls => StandsWhole done ps url ∧ Whole ps (done ++ [url]) urls

instance (ps : List Piece) : ∀ done urls, Decidable (Whole ps done urls)
  | _, [] => .isTrue trivial
  | done, url :: urls =>
    haveI := instDecidableWhole ps (done ++ [url]) urls
    inferInstanceAs (Decidable (StandsWhole done ps url ∧ Whole ps (done ++ [url]) urls))

/-- **All replacements** mark the links that are among the texts. -/
theorem foldl_replace_textOf {ps : List Piece} {done urls : List (List Char)}
    (hlinks : ∀ url ∈ linksOf ps, url ≠ []) (hnodup : (done ++ urls).Nodup)
    (hne : ∀ url ∈ urls, url ≠ []) (h : Whole ps done urls) :
    urls.foldl (fun text url => Texts.replace url linkMark text) (textOf done ps) =
      textOf (done ++ urls) ps := by
  induction urls generalizing done with
  | nil => rw [List.append_nil]; rfl
  | cons url urls ih =>
    have hnew : url ∉ done := fun hmem =>
      (List.nodup_append.1 hnodup).2.2 url hmem url List.mem_cons_self rfl
    rw [List.append_cons] at hnodup ⊢
    rw [List.foldl_cons, replace_textOf (hne url List.mem_cons_self) hnew hlinks h.1]
    exact ih hnodup (fun url' hmem => hne url' (List.mem_cons_of_mem url hmem)) h.2

/-! ## What is left -/

/-- What is before a place counts by its last letter. -/
theorem HasLink.congr {before before' text : List Char}
    (h : before.head?.any isWord = before'.head?.any isWord) :
    HasLink before text ↔ HasLink before' text := by
  induction text generalizing before before' with
  | nil => exact Iff.rfl
  | cons c rest ih =>
    have hat : LinkAt before (c :: rest) ↔ LinkAt before' (c :: rest) := by
      unfold LinkAt Cursor.atEdge
      rw [h]
    rw [HasLink, HasLink, hat, @ih (c :: before) (c :: before') rfl]

theorem HasLink.append {before text : List Char} (u : List Char)
    (h : HasLink (u.reverse ++ before) text) : HasLink before (u ++ text) := by
  induction u generalizing before with
  | nil => exact h
  | cons c u ih => exact .inr (ih (by simpa using h))

theorem not_hasLink_append {before u text : List Char}
    (hu : ∀ v, v <:+ u → v ≠ [] → ¬ Opens (v ++ text))
    (htext : ¬ HasLink (u.reverse ++ before) text) : ¬ HasLink before (u ++ text) := by
  induction u generalizing before with
  | nil => exact htext
  | cons c u ih =>
    rintro (hat | hlater)
    · exact hu (c :: u) List.suffix_rfl (List.cons_ne_nil c u) hat.2
    · exact ih (fun v hv => hu v (hv.trans (List.suffix_cons c u))) (by simpa using htext) hlater

/-- No link begins in a mark. -/
theorem not_opens_mark {v text : List Char} (hv : v <:+ linkMark) (hne : v ≠ []) :
    ¬ Opens (v ++ text) := by
  rintro ⟨w, x, r, heq, hw, -⟩
  have hclose : ']' ∈ v := by
    obtain ⟨u, hu⟩ := hv
    have hlast : v.getLast hne = linkMark.getLast (by decide) := by
      simp only [← hu, List.getLast_append_of_ne_nil _ hne]
    have hclose : linkMark.getLast (by decide) = ']' := by decide
    exact hclose ▸ hlast ▸ List.getLast_mem hne
  rcases List.prefix_or_prefix_of_prefix ⟨text, heq⟩ (List.prefix_append w (x :: r)) with
    hstarts | hstarts
  · exact (Pattern.lang_within linkHead_within hw ']' (hstarts.subset hclose)).2.1 rfl
  · obtain ⟨c, u, d, rfl, -, hd⟩ := linkHead_ends hw
    have hmem : d ∈ linkMark := hv.subset (hstarts.subset (by simp))
    rcases hd with rfl | rfl <;> exact absurd hmem (by decide)

/-- What opens as a link among the marks opened as one before. -/
theorem opens_of_textOf {before rest : List Char} {ps : List Piece} {done : List (List Char)}
    (hcut : Cut before rest ps) (hdone : ∀ url ∈ linksOf ps, url ∈ done)
    (h : Opens (textOf done ps)) : Opens rest := by
  have hletters : ∀ (w : List Char) {before rest : List Char} {ps : List Piece} {x : Char}
      {r : List Char}, Cut before rest ps → (∀ url ∈ linksOf ps, url ∈ done) →
      textOf done ps = w ++ x :: r → (∀ c ∈ w, c ≠ '[') → urlChar x = true →
      ∃ x' r', rest = w ++ x' :: r' ∧ urlChar x' = true := by
    intro w
    induction w with
    | nil =>
      intro before rest ps x r hcut hdone htext _ hx
      cases hcut with
      | nil => cases htext
      | letter none more => exact ⟨_, _, rfl, (List.cons.inj htext).1 ▸ hx⟩
      | link here first tail_marks stop more =>
        obtain ⟨c, u, rfl, hc⟩ := first
        exact ⟨c, _, rfl, urlChar_of_schemeStart hc⟩
    | cons d w ih =>
      intro before rest ps x r hcut hdone htext hw hx
      cases hcut with
      | nil => cases htext
      | letter none more =>
        obtain ⟨hd, hrest⟩ := List.cons.inj htext
        obtain ⟨x', r', hrest', hx'⟩ :=
          ih more hdone hrest (fun c hc => hw c (List.mem_cons_of_mem d hc)) hx
        exact ⟨x', r', by rw [hd, hrest']; rfl, hx'⟩
      | link here first tail_marks stop more =>
        rw [textOf_cons, Piece.put, if_pos (hdone _ List.mem_cons_self)] at htext
        exact absurd (List.cons.inj htext).1.symm (hw d List.mem_cons_self)
  obtain ⟨w, x, r, htext, hw, hx⟩ := h
  obtain ⟨x', r', hrest, hx'⟩ := hletters w hcut hdone htext
    (fun c hc => (Pattern.lang_within linkHead_within hw c hc).1) hx
  exact ⟨w, x', r', hrest, hw, hx'⟩

/-- The two places before a piece are alike, or no link starts there. -/
def Alike (before before' rest : List Char) : Prop :=
  before.head?.any isWord = before'.head?.any isWord ∨
    ∀ c r, rest = c :: r → schemeStart c = false

/-- **Nothing is left**: if every link is marked, there is none. -/
theorem not_hasLink_textOf {before before' rest : List Char} {ps : List Piece}
    {done : List (List Char)} (hcut : Cut before rest ps)
    (hdone : ∀ url ∈ linksOf ps, url ∈ done) (halike : Alike before before' rest) :
    ¬ HasLink before' (textOf done ps) := by
  induction hcut generalizing before' with
  | nil => exact id
  | @letter before rest c ps none more ih =>
    rintro (hat | hlater)
    · have hopens := opens_of_textOf (.letter none more) hdone hat.2
      refine none ⟨?_, hopens⟩
      rcases halike with hsame | hstart
      · unfold Cursor.atEdge at *
        rw [hsame]
        exact hat.1
      · exact absurd hopens (not_opens_cons (hstart c rest rfl))
    · exact @ih (c :: before') hdone (.inl rfl) hlater
  | @link before url tail rest ps here first tail_marks stop more ih =>
    rw [linksOf_link] at hdone
    rw [textOf_cons, textOf_append, textOf_letters, Piece.put,
      if_pos (hdone url List.mem_cons_self)]
    refine not_hasLink_append (fun v hv hne => not_opens_mark hv hne) (not_hasLink_append ?_ ?_)
    · intro v hv hne
      obtain ⟨c, v, rfl⟩ := List.exists_cons_of_ne_nil hne
      exact not_opens_cons (tail_marks c (hv.subset List.mem_cons_self))
    · exact ih (fun url' hmem => hdone url' (List.mem_cons_of_mem url hmem)) (.inr stop)

/-- A link that is not marked stays. -/
theorem hasLink_textOf {before before' rest url : List Char} {ps : List Piece}
    {done : List (List Char)} (hcut : Cut before rest ps) (hmem : url ∈ linksOf ps)
    (hnew : url ∉ done) (halike : Alike before before' rest) :
    HasLink before' (textOf done ps) := by
  induction hcut generalizing before' with
  | nil => cases hmem
  | letter none more ih => exact .inr (ih hmem (.inl rfl))
  | @link before url' tail rest ps here first tail_marks stop more ih =>
    rw [linksOf_link] at hmem
    rw [textOf_cons, textOf_append, textOf_letters]
    rcases List.mem_cons.1 hmem with rfl | hmem
    · obtain ⟨c, u, rfl, hc⟩ := first
      have hsame : before.head?.any isWord = before'.head?.any isWord :=
        halike.resolve_right fun hstart =>
          Bool.false_ne_true ((hstart c _ rfl).symm.trans hc)
      rw [Piece.put, if_neg hnew, ← List.append_assoc]
      refine .inl (LinkAt.append ⟨?_, here.2⟩ _)
      have hedge := here.1
      unfold Cursor.atEdge at *
      rw [← hsame]
      exact hedge
    · exact .append _ (.append _ (ih hmem (.inr stop)))

/-! ## White space made single -/

theorem isWord_of_isSpace {c : Char} (h : isSpace c = true) : isWord c = false := by
  by_contra hword
  have hnot : isSpace c = false := not_isSpace_of (by decide +kernel) (Bool.not_eq_false _ ▸ hword)
  exact Bool.false_ne_true (hnot.symm.trans h)

/-- A link ends where white space comes. -/
theorem opens_space_iff {c : Char} (hc : isSpace c = true) (text more : List Char) :
    Opens (text ++ c :: more) ↔ Opens text := by
  constructor
  · rintro ⟨w, x, r, heq, hw, hx⟩
    have hclean : c ∉ w ++ [x] := by
      intro hmem
      rcases List.mem_append.1 hmem with hmem | hmem
      · have hnot := (Pattern.lang_within linkHead_within hw c hmem).2.2
        exact Bool.false_ne_true (hnot.symm.trans hc)
      · have hnot : isSpace x = false := by simpa using (of_decide_eq_true hx).1
        rw [List.mem_singleton.1 hmem, hnot] at hc
        exact Bool.false_ne_true hc
    have hparts : text ++ c :: more = (w ++ [x]) ++ r := by simpa using heq
    rcases List.append_eq_append_iff.1 hparts with ⟨u, hu, -⟩ | ⟨u, hu, -⟩
    · cases u with
      | nil => exact ⟨w, x, [], by simpa using hu.symm, hw, hx⟩
      | cons d u =>
        exfalso
        rw [hu, List.append_assoc] at hparts
        have hd := List.append_cancel_left hparts
        exact hclean (hu ▸ List.mem_append_right text ((List.cons.inj hd).1 ▸ List.mem_cons_self))
    · exact ⟨w, x, u, by simp [hu], hw, hx⟩
  · rintro ⟨w, x, r, rfl, hw, hx⟩
    exact ⟨w, x, r ++ c :: more, by simp, hw, hx⟩

/-- Links are on one side of white space or on the other. -/
theorem hasLink_space_iff {c : Char} (hc : isSpace c = true) (before text more : List Char) :
    HasLink before (text ++ c :: more) ↔
      HasLink before text ∨ HasLink (c :: (text.reverse ++ before)) more := by
  induction text generalizing before with
  | nil =>
    have hnot : ¬ LinkAt before (c :: more) := fun h => by
      obtain ⟨w, x, r, heq, -⟩ := (opens_space_iff hc [] more).1 h.2
      exact List.append_ne_nil_of_right_ne_nil w (List.cons_ne_nil x r) heq.symm
    exact ⟨fun h => .inr (h.resolve_left hnot), fun h => .inr (h.resolve_left id)⟩
  | cons d text ih =>
    have hat : LinkAt before (d :: (text ++ c :: more)) ↔ LinkAt before (d :: text) :=
      and_congr_right fun _ => opens_space_iff hc (d :: text) more
    rw [List.cons_append, HasLink, HasLink, hat, ih, or_assoc]
    simp

/-- **A link is in a word.** -/
theorem hasLink_words (text : List Char) :
    HasLink [] text ↔ ∃ w ∈ Texts.words isSpace text, HasLink [] w := by
  have hfrom : ∀ (before word : List Char), before.head?.any isWord = false →
      (HasLink before (word.reverse ++ text) ↔
        ∃ w ∈ Texts.wordsFrom isSpace word text, HasLink [] w) := by
    induction text with
    | nil =>
      intro before word hbefore
      rw [List.append_nil, Texts.wordsFrom]
      split
      · rename_i hempty
        rw [List.isEmpty_iff.1 hempty]
        exact iff_of_false id (by simp)
      · rw [HasLink.congr (hbefore.trans rfl : before.head?.any isWord = ([].head?).any isWord)]
        simp
    | cons c text ih =>
      intro before word hbefore
      rw [Texts.wordsFrom]
      by_cases hc : isSpace c = true
      · have hafter := ih (c :: (word.reverse.reverse ++ before)) [] (isWord_of_isSpace hc)
        rw [if_pos hc, hasLink_space_iff hc,
          HasLink.congr (hbefore.trans rfl : before.head?.any isWord = ([].head?).any isWord)]
        rw [List.reverse_nil, List.nil_append] at hafter
        rw [hafter]
        split
        · rename_i hempty
          rw [List.isEmpty_iff.1 hempty]
          exact ⟨fun h => h.resolve_left id, .inr⟩
        · simp
      · rw [if_neg hc, ← ih before (c :: word) hbefore]
        simp
  exact hfrom [] [] rfl

theorem splitWords_eq (word text : List Char) :
    splitWords word text = (Texts.wordsFrom isSpace word text).map String.ofList := by
  induction text generalizing word with
  | nil =>
    rw [splitWords, Texts.wordsFrom]
    split <;> rfl
  | cons c text ih =>
    rw [splitWords, Texts.wordsFrom]
    split
    · split
      · exact ih []
      · rw [ih, List.map_cons]
    · exact ih (c :: word)

theorem toList_join (parts : List (List Char)) :
    (join " " (parts.map String.ofList)).toList = [' '].intercalate parts := by
  induction parts with
  | nil => rfl
  | cons part parts ih =>
    cases parts with
    | nil => simp [join]
    | cons next parts =>
      rw [List.map_cons, List.map_cons, join, String.toList_append, String.toList_append,
        ← List.map_cons, ih, List.intercalate_cons_cons, String.toList_ofList]
      rfl

theorem squeeze_eq (text : List Char) :
    squeeze text = [' '].intercalate (Texts.words isSpace text) := by
  have hwords : words (String.ofList text) = (Texts.words isSpace text).map String.ofList := by
    rw [words, String.toList_ofList, splitWords_eq]
    rfl
  rw [squeeze, hwords, toList_join]

/-- A text has its words when its white space is made single. -/
theorem words_squeeze (text : List Char) :
    Texts.words isSpace (squeeze text) = Texts.words isSpace text := by
  rw [squeeze_eq]
  refine Texts.words_intercalate_words (List.cons_ne_nil ' ' []) (fun c hc => ?_) fun w hw =>
    Texts.isWord_of_mem_words hw
  rw [List.mem_singleton.1 hc]
  decide

theorem hasLink_squeeze (text : List Char) : HasLink [] (squeeze text) ↔ HasLink [] text := by
  rw [hasLink_words, words_squeeze, ← hasLink_words]

/-- What is no white space stays. -/
theorem filter_squeeze (text : List Char) :
    (squeeze text).filter (!isSpace ·) = text.filter (!isSpace ·) := by
  rw [← Texts.flatten_words, words_squeeze, Texts.flatten_words]

/-! ## The links of a message -/

theorem mem_extractUrls {lower : List Char → List Char} {text url : List Char} :
    url ∈ extractUrls lower text ↔
      url ≠ [] ∧ ∃ m ∈ findAll urlPattern text, foundUrl lower m.taken = url := by
  have hfold : ∀ (ms : List Match) (urls : List (List Char)),
      url ∈ ms.foldl (fun urls m =>
        let url := foundUrl lower m.taken
        if url ≠ [] ∧ url ∉ urls then urls ++ [url] else urls) urls ↔
      url ∈ urls ∨ url ≠ [] ∧ ∃ m ∈ ms, foundUrl lower m.taken = url := by
    intro ms
    induction ms with
    | nil => simp
    | cons m ms ih =>
      intro urls
      rw [List.foldl_cons, ih, List.exists_mem_cons_iff]
      dsimp only
      split
      · rename_i hnew
        rw [List.mem_append, List.mem_singleton]
        constructor
        · rintro ((hmem | rfl) | ⟨hne, hlater⟩)
          · exact .inl hmem
          · exact .inr ⟨hnew.1, .inl rfl⟩
          · exact .inr ⟨hne, .inr hlater⟩
        · rintro (hmem | ⟨hne, hhere | hlater⟩)
          · exact .inl (.inl hmem)
          · exact .inl (.inr hhere.symm)
          · exact .inr ⟨hne, hlater⟩
      · rename_i hold
        constructor
        · rintro (hmem | ⟨hne, hlater⟩)
          · exact .inl hmem
          · exact .inr ⟨hne, .inr hlater⟩
        · rintro (hmem | ⟨hne, hhere | hlater⟩)
          · exact .inl hmem
          · refine .inl (by_contra fun hnot => hold ?_)
            rw [hhere]
            exact ⟨hne, hnot⟩
          · exact .inr ⟨hne, hlater⟩
  rw [extractUrls, hfold]
  simp

/-- No link of a message is spelled with `www.` in place of a scheme. -/
def Schemed (lower : List Char → List Char) (message : List Char) : Prop :=
  ∀ url ∈ linksOf (pieces message), ¬ "www.".toList <+: lower url

instance (lower : List Char → List Char) (message : List Char) :
    Decidable (Schemed lower message) := by
  unfold Schemed
  infer_instance

section

variable {lower : List Char → List Char} {message : List Char}

theorem link_ne_nil {before rest : List Char} {ps : List Piece} (h : Cut before rest ps) :
    ∀ url ∈ linksOf ps, url ≠ [] := by
  induction h with
  | nil => exact fun url h => absurd h List.not_mem_nil
  | letter none more ih => exact ih
  | link here first tail_marks stop more ih =>
    rw [linksOf_link, List.forall_mem_cons]
    obtain ⟨c, u, rfl, -⟩ := first
    exact ⟨List.cons_ne_nil c u, ih⟩

theorem extractUrls_eq_nil : extractUrls lower message = [] ↔ ¬ HasLink [] message := by
  rw [← findAll_urlPattern_eq_nil]
  constructor
  · intro hnone
    cases hfound : findAll urlPattern message with
    | nil => rfl
    | cons m ms =>
      have hmem : trim m.taken ∈ linksOf (pieces message) := by
        rw [linksOf_pieces, hfound]
        exact List.mem_cons_self
      have hne := link_ne_nil (cut_piecesFrom [] message) _ hmem
      have hurl : foundUrl lower m.taken ∈ extractUrls lower message := by
        refine mem_extractUrls.2 ⟨?_, m, hfound ▸ List.mem_cons_self, rfl⟩
        unfold foundUrl
        dsimp only
        split
        · exact List.append_ne_nil_of_right_ne_nil _ hne
        · exact hne
      rw [hnone] at hurl
      cases hurl
  · intro hnone
    rw [extractUrls, hnone]
    rfl

/-- A link with a scheme is found as it is spelled. -/
theorem link_mem_extractUrls {url : List Char} (hmem : url ∈ linksOf (pieces message))
    (hscheme : ¬ "www.".toList <+: lower url) : url ∈ extractUrls lower message := by
  have hne := link_ne_nil (cut_piecesFrom [] message) url hmem
  rw [linksOf_pieces] at hmem
  obtain ⟨m, hm, rfl⟩ := List.mem_map.1 hmem
  exact mem_extractUrls.2 ⟨hne, m, hm, if_neg hscheme⟩

/-- A link with `www.` is not found as it is spelled. -/
theorem link_notMem_extractUrls
    (hlower : ∀ text, "www.".toList <+: lower text → ¬ "https://".toList <+: text) {url : List Char}
    (hwww : "www.".toList <+: lower url) : url ∉ extractUrls lower message := by
  intro hmem
  obtain ⟨-, m, -, hurl⟩ := mem_extractUrls.1 hmem
  unfold foundUrl at hurl
  dsimp only at hurl
  split at hurl
  · exact hlower url hwww ⟨trim m.taken, hurl⟩
  · rename_i hnot
    exact hnot (hurl ▸ hwww)

theorem outside_sublist (done : List (List Char)) (ps : List Piece) :
    (outside ps).Sublist (textOf done ps) := by
  induction ps with
  | nil => exact List.Sublist.refl []
  | cons p ps ih =>
    cases p with
    | letter c => exact ih.cons_cons c
    | link url => exact ih.trans (List.sublist_append_right _ _)

theorem textOf_nil_pieces {before rest : List Char} {ps : List Piece} (h : Cut before rest ps) :
    textOf [] ps = rest := by
  induction h with
  | nil => rfl
  | letter none more ih => exact congrArg _ ih
  | link here first tail_marks stop more ih =>
    rw [textOf_cons, textOf_append, textOf_letters, ih, List.append_assoc]
    rfl

/-- **Stripping the links** of a message in which each URL stands, once those before it were
replaced, only as the whole of a link: none is left if and only if no link is spelled with `www.`,
and what is outside the links stays. -/
theorem withoutLinks_strips_iff
    (hlower : ∀ text, "www.".toList <+: lower text → ¬ "https://".toList <+: text)
    (hwhole : Whole (pieces message) [] (extractUrls lower message)) :
    (extractUrls lower (withoutLinks message (extractUrls lower message)) = [] ↔
        Schemed lower message) ∧
      ((outside (pieces message)).filter (!isSpace ·)).Sublist
        (withoutLinks message (extractUrls lower message)) := by
  have hcut := cut_piecesFrom [] message
  have hleft : withoutLinks message (extractUrls lower message) =
      squeeze (textOf (extractUrls lower message) (pieces message)) := by
    have hfold := foldl_replace_textOf (link_ne_nil hcut)
      (by simpa using (extractUrls_spec lower message).1)
      (fun url hmem => (mem_extractUrls.1 hmem).1) hwhole
    rw [textOf_nil_pieces hcut, List.nil_append] at hfold
    rw [withoutLinks, hfold]
    rfl
  rw [hleft, extractUrls_eq_nil, hasLink_squeeze]
  refine ⟨⟨fun hnone url hmem hwww => hnone ?_, fun hscheme => ?_⟩, ?_⟩
  · exact hasLink_textOf hcut hmem (link_notMem_extractUrls hlower hwww) (.inl rfl)
  · exact not_hasLink_textOf hcut (fun url hmem => link_mem_extractUrls hmem (hscheme url hmem))
      (.inl rfl)
  · have hkept := (outside_sublist (extractUrls lower message) (pieces message)).filter
      (!isSpace ·)
    rw [← filter_squeeze (textOf _ _)] at hkept
    exact hkept.trans List.filter_sublist

end

/-- Two links, one of them twice, and a third that is spelled with `www.`: that one is left. -/
theorem withoutLinks_strips_example :
    let lower := List.map Char.toLower
    let message := "Read https://a.com, (https://b.com/x) or https://a.com; not www.c.com.".toList
    (extractUrls lower (withoutLinks message (extractUrls lower message)) = [] ↔
        Schemed lower message) ∧
      ((outside (pieces message)).filter (!isSpace ·)).Sublist
        (withoutLinks message (extractUrls lower message)) := by
  refine withoutLinks_strips_iff (fun text hwww hscheme => ?_) (by decide +kernel)
  obtain ⟨rest, rfl⟩ := hscheme
  obtain ⟨more, hmore⟩ := hwww
  exact absurd (List.cons.inj hmore).1 (by decide)

end Links
end SecondMind
