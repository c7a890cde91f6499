import SecondMind.Core.Text
import SecondMind.Texts.Words
import Mathlib.Data.List.Chain

/-!
# Chunks of a page

`links/chunking.py`: a page's text is cut into chunks of whole paragraphs and sentences, each of
which begins with the last sentences of the one before.

* `units`, `Filling.add`, `chunkText` — the chunks of a text;
* `words_units` — the units have the words of the text, none has more than a chunk;
* `Filling.Holds` — what holds of the chunks while they are filled;
* `chunkText_keeps` — no word is lost, and no chunk is too long.
-/

namespace SecondMind

open Texts

namespace Chunking

/-! ## Sentences -/

/-- `[.!?…]`. -/
def endMark (c : Char) : Bool := c ∈ ['.', '!', '?', '…']

/-- `[A-Z0-9\"'“(]`. -/
def beginMark (c : Char) : Bool := c.isUpper ∨ c.isDigit ∨ c ∈ ['"', '\'', '“', '(']

/-- `_SENTENCE.split`, after leaving out a number of letters; `sentence` is the one that is being
read, backwards.  A sentence ends at spaces that stand between an end mark and a first letter: the
first letter is no space, so that all of the spaces are taken. -/
def sentencesFrom (sentence : List Char) : Nat → List Char → List (List Char)
  | _, [] => [sentence.reverse]
  | skip + 1, _ :: text => sentencesFrom sentence skip text
  | 0, c :: text =>
    if isSpace c ∧ sentence.head?.any endMark ∧ (text.dropWhile isSpace).head?.any beginMark then
      sentence.reverse :: sentencesFrom [] (text.takeWhile isSpace).length text
    else sentencesFrom (c :: sentence) 0 text

def sentences (text : List Char) : List (List Char) := sentencesFrom [] 0 text

/-! ## Units -/

/-- `text.split()`. -/
abbrev wordsOf (text : List Char) : List (List Char) := Texts.words isSpace text

/-- `" ".join(words)`. -/
def spaced (parts : List (List Char)) : List Char := [' '].intercalate parts

/-- `"\n\n".join(paragraphs)`. -/
def paragraphed (parts : List (List Char)) : List Char := ['\n', '\n'].intercalate parts

/-- The words, so many at a time. -/
def pieces (limit : Nat) (hlimit : 0 < limit) (ws : List (List Char)) : List (List Char) :=
  if limit < ws.length then spaced (ws.take limit) :: pieces limit hlimit (ws.drop limit)
  else if ws = [] then [] else [spaced ws]
termination_by ws.length
decreasing_by
  rw [List.length_drop]
  omega

/-- `_units`. -/
def units (limit : Nat) (hlimit : 0 < limit) (text : List Char) : List (List Char) :=
  (splitAround ['\n', '\n'] text).flatMap fun part =>
    let paragraph := Texts.strip isSpace part
    if paragraph = [] then []
    else if (wordsOf paragraph).length ≤ limit then [paragraph]
    else (sentences paragraph).flatMap fun sentence => pieces limit hlimit (wordsOf sentence)

/-! ## The tail of a chunk -/

/-- The last sentences, up to so many words, of sentences backwards. -/
def keepLast (limit : Nat) (keep : List (List Char)) (count : Nat) :
    List (List Char) → List (List Char) × Nat
  | [] => (keep, count)
  | sentence :: before =>
    if limit < count + (wordsOf sentence).length then (keep, count)
    else keepLast limit (sentence :: keep) (count + (wordsOf sentence).length) before

/-- `_tail`. -/
def tail (limit : Nat) (paragraphs : List (List Char)) : List Char × Nat :=
  let kept := keepLast limit [] 0 (sentences (paragraphed paragraphs)).reverse
  (spaced kept.1, kept.2)

/-! ## Chunks -/

/-- The chunks so far, and the one that is being filled. -/
structure Filling where
  chunks : List (List (List Char)) := []
  current : List (List Char) := []
  size : Nat := 0
  fresh : Nat := 0

/-- A unit is added to the chunk that is being filled, or to the next one. -/
def Filling.add (target share : Nat) (f : Filling) (unit : List Char) : Filling :=
  let count := (wordsOf unit).length
  let f :=
    if f.current ≠ [] ∧ target < f.size + count then
      let carry := tail share f.current
      { chunks := f.chunks ++ [f.current]
        current := if carry.1 = [] then [] else [carry.1]
        size := carry.2
        fresh := 0 }
    else f
  { f with current := f.current ++ [unit], size := f.size + count, fresh := f.fresh + count }

/-- The chunks when all is added. -/
def Filling.close (f : Filling) : List (List (List Char)) :=
  if f.current ≠ [] ∧ f.fresh ≠ 0 then f.chunks ++ [f.current] else f.chunks

/-- `Chunk`. -/
structure Chunk where
  position : Nat
  text : List Char

/-- `target`, of `int(tokens / TOKENS_PER_WORD)`. -/
def targetOf (perChunk : Nat) : Nat := max perChunk 20

theorem targetOf_pos (perChunk : Nat) : 0 < targetOf perChunk :=
  Nat.lt_of_lt_of_le (by decide) (Nat.le_max_right perChunk 20)

/-- `chunk_text`; `share` is `int(target * overlap)` of a target. -/
def chunkText (perChunk : Nat) (share : Nat → Nat) (maxChunks : Nat) (text : List Char) :
    List Chunk :=
  let target := targetOf perChunk
  let filled :=
    (units target (targetOf_pos perChunk) text).foldl (Filling.add target (share target)) {}
  (filled.close.take maxChunks).zipIdx.map fun e => ⟨e.2, paragraphed e.1⟩

/-! ## The words of the parts -/

theorem isSpace_blank : ∀ c ∈ [' '], isSpace c = true := by simp; decide

theorem isSpace_line : ∀ c ∈ ['\n', '\n'], isSpace c = true := by simp; decide

theorem words_spaced (parts : List (List Char)) : wordsOf (spaced parts) = parts.flatMap wordsOf :=
  words_intercalate (List.cons_ne_nil _ _) isSpace_blank parts

theorem words_paragraphed (parts : List (List Char)) :
    wordsOf (paragraphed parts) = parts.flatMap wordsOf :=
  words_intercalate (List.cons_ne_nil _ _) isSpace_line parts

theorem sentencesFrom_length (sentence left text : List Char) :
    sentencesFrom sentence left.length (left ++ text) = sentencesFrom sentence 0 text := by
  induction left with
  | nil => rfl
  | cons c left ih => exact ih

/-- **The sentences** have the words of the text. -/
theorem words_sentencesFrom (sentence text : List Char) :
    (sentencesFrom sentence 0 text).flatMap wordsOf = wordsOf (sentence.reverse ++ text) := by
  induction hn : text.length using Nat.strong_induction_on generalizing sentence text with
  | _ n ih =>
    cases text with
    | nil => simp [sentencesFrom]
    | cons c text =>
      rw [sentencesFrom]
      split
      · rename_i hbreak
        have hlength : (text.dropWhile isSpace).length < n := by
          have hle := (List.dropWhile_suffix isSpace (l := text)).length_le
          rw [← hn, List.length_cons]
          omega
        have hskip : sentencesFrom [] (text.takeWhile isSpace).length text =
            sentencesFrom [] 0 (text.dropWhile isSpace) := by
          conv_lhs => arg 3; rw [← List.takeWhile_append_dropWhile (p := isSpace) (l := text)]
          exact sentencesFrom_length _ _ _
        have hspaces : wordsOf text = wordsOf (text.dropWhile isSpace) := by
          conv_lhs => rw [← List.takeWhile_append_dropWhile (p := isSpace) (l := text)]
          exact words_spaces_append (fun d hd => List.mem_takeWhile_imp hd) _
        have haround : wordsOf (sentence.reverse ++ c :: text) =
            wordsOf sentence.reverse ++ wordsOf text := words_around _ _ hbreak.1
        rw [List.flatMap_cons, hskip, ih _ hlength [] _ rfl, haround, hspaces]
        rfl
      · rw [ih text.length (hn ▸ Nat.lt_succ_self _) (c :: sentence) text rfl]
        simp

theorem words_sentences (text : List Char) : (sentences text).flatMap wordsOf = wordsOf text :=
  words_sentencesFrom [] text

theorem words_pieces {limit : Nat} (hlimit : 0 < limit) {ws : List (List Char)}
    (hws : ∀ w ∈ ws, IsWord isSpace w) :
    (pieces limit hlimit ws).flatMap wordsOf = ws ∧
      ∀ piece ∈ pieces limit hlimit ws,
        0 < (wordsOf piece).length ∧ (wordsOf piece).length ≤ limit := by
  induction hn : ws.length using Nat.strong_induction_on generalizing ws with
  | _ n ih =>
    have hown : ∀ {vs : List (List Char)}, vs ⊆ ws → wordsOf (spaced vs) = vs := fun hsub =>
      words_intercalate_words (List.cons_ne_nil _ _) isSpace_blank fun w hw => hws w (hsub hw)
    rw [pieces]
    split
    · rename_i hlong
      have hless : (ws.drop limit).length < n := by
        rw [List.length_drop]
        omega
      obtain ⟨hwords, hlengths⟩ := ih _ hless (fun w hw => hws w (List.mem_of_mem_drop hw)) rfl
      have htake := hown (List.take_subset limit ws)
      refine ⟨by rw [List.flatMap_cons, htake, hwords, List.take_append_drop], ?_⟩
      rintro piece (_ | ⟨_, hpiece⟩)
      · rw [htake, List.length_take_of_le (Nat.le_of_lt hlong)]
        exact ⟨hlimit, Nat.le_refl limit⟩
      · exact hlengths piece hpiece
    · rename_i hshort
      split
      · rename_i hnil
        exact ⟨hnil.symm, fun _ h => absurd h List.not_mem_nil⟩
      · rename_i hne
        have hall := hown (List.Subset.refl ws)
        refine ⟨by rw [List.flatMap_singleton, hall], fun piece hpiece => ?_⟩
        rw [List.mem_singleton.1 hpiece, hall]
        exact ⟨List.length_pos_of_ne_nil hne, Nat.le_of_not_lt hshort⟩

/-- **The units** have the words of the text, and none has more than the limit. -/
theorem words_units {limit : Nat} (hlimit : 0 < limit) (text : List Char) :
    (units limit hlimit text).flatMap wordsOf = wordsOf text ∧
      ∀ unit ∈ units limit hlimit text,
        0 < (wordsOf unit).length ∧ (wordsOf unit).length ≤ limit := by
  have hpart : ∀ part : List Char,
      let paragraph := Texts.strip isSpace part
      let cut := if paragraph = [] then []
        else if (wordsOf paragraph).length ≤ limit then [paragraph]
        else (sentences paragraph).flatMap fun sentence => pieces limit hlimit (wordsOf sentence)
      cut.flatMap wordsOf = wordsOf part ∧
        ∀ unit ∈ cut, 0 < (wordsOf unit).length ∧ (wordsOf unit).length ≤ limit := by
    intro part
    dsimp only
    have hstrip : wordsOf (Texts.strip isSpace part) = wordsOf part := words_strip part
    split
    · rename_i hnil
      rw [← hstrip, hnil]
      exact ⟨rfl, fun _ h => absurd h List.not_mem_nil⟩
    · rename_i hne
      split
      · rename_i hshort
        refine ⟨by rw [List.flatMap_singleton, hstrip], fun unit hunit => ?_⟩
        rw [List.mem_singleton.1 hunit]
        rw [hstrip] at hshort ⊢
        exact ⟨List.length_pos_of_ne_nil (words_ne_nil_of_strip hne), hshort⟩
      · have hpieces := fun sentence : List Char =>
          words_pieces hlimit fun w (hw : w ∈ wordsOf sentence) => isWord_of_mem_words hw
        refine ⟨?_, fun unit hunit => ?_⟩
        · rw [List.flatMap_assoc, ← hstrip, ← words_sentences (Texts.strip isSpace part)]
          exact List.flatMap_congr fun sentence _ => (hpieces sentence).1
        · obtain ⟨sentence, -, hunit⟩ := List.mem_flatMap.1 hunit
          exact (hpieces sentence).2 unit hunit
  have hjoined : wordsOf (paragraphed (splitAround ['\n', '\n'] text)) = wordsOf text :=
    congrArg wordsOf (intercalate_splitAround (List.cons_ne_nil _ _) text)
  refine ⟨?_, fun unit hunit => ?_⟩
  · rw [units, List.flatMap_assoc, ← hjoined, words_paragraphed]
    exact List.flatMap_congr fun part _ => (hpart part).1
  · obtain ⟨part, -, hunit⟩ := List.mem_flatMap.1 hunit
    exact (hpart part).2 unit hunit

/-! ## What is carried over -/

theorem keepLast_spec (limit : Nat) {keep : List (List Char)} {count : Nat}
    (hcount : (keep.flatMap wordsOf).length = count) (hle : count ≤ limit)
    (before : List (List Char)) :
    ∃ rest, rest ++ (keepLast limit keep count before).1 = before.reverse ++ keep ∧
      ((keepLast limit keep count before).1.flatMap wordsOf).length =
        (keepLast limit keep count before).2 ∧
      (keepLast limit keep count before).2 ≤ limit := by
  induction before generalizing keep count with
  | nil => exact ⟨[], rfl, hcount, hle⟩
  | cons sentence before ih =>
    rw [keepLast]
    split
    · exact ⟨(sentence :: before).reverse, rfl, hcount, hle⟩
    · rename_i hfits
      have hcount' : ((sentence :: keep).flatMap wordsOf).length =
          count + (wordsOf sentence).length := by
        rw [List.flatMap_cons, List.length_append, hcount, Nat.add_comm]
      obtain ⟨rest, hrest, hlength, hlimit⟩ := ih hcount' (Nat.le_of_not_lt hfits)
      exact ⟨rest, by rw [hrest]; simp, hlength, hlimit⟩

/-- **The tail** is the last words of a chunk, at most so many. -/
theorem tail_spec (limit : Nat) (paragraphs : List (List Char)) :
    wordsOf (tail limit paragraphs).1 <:+ wordsOf (paragraphed paragraphs) ∧
      (wordsOf (tail limit paragraphs).1).length = (tail limit paragraphs).2 ∧
      (tail limit paragraphs).2 ≤ limit := by
  have hzero : (([] : List (List Char)).flatMap wordsOf).length = 0 := rfl
  obtain ⟨rest, hrest, hlength, hlimit⟩ := keepLast_spec limit hzero (Nat.zero_le limit)
    (sentences (paragraphed paragraphs)).reverse
  rw [List.reverse_reverse, List.append_nil] at hrest
  have hwords : wordsOf (tail limit paragraphs).1 =
      (keepLast limit [] 0 (sentences (paragraphed paragraphs)).reverse).1.flatMap wordsOf :=
    words_spaced _
  refine ⟨⟨rest.flatMap wordsOf, ?_⟩, by rw [hwords]; exact hlength, hlimit⟩
  rw [hwords, ← List.flatMap_append, hrest, words_sentences]

/-- How many words of a chunk are carried over to the next. -/
def carried (share : Nat) (chunk : List Char) : Nat := (tail share [chunk]).2

theorem carried_paragraphed (share : Nat) (paragraphs : List (List Char)) :
    carried share (paragraphed paragraphs) = (tail share paragraphs).2 := by
  rw [carried, tail, tail, paragraphed, List.intercalate_singleton]

/-- A chunk begins with the words that are carried over from the one before, its last. -/
def Follows (share : Nat) (before chunk : List Char) : Prop :=
  ∃ ws, ws <:+ wordsOf before ∧ ws <+: wordsOf chunk ∧ ws.length = carried share before

/-- The words of chunks without those that are carried over from the one before. -/
def newWords (share : Nat) (before : Option (List Char)) : List (List Char) → List (List Char)
  | [] => []
  | chunk :: chunks =>
    (wordsOf chunk).drop (before.elim 0 (carried share)) ++ newWords share (some chunk) chunks

theorem newWords_concat (share : Nat) (before : Option (List Char)) (chunks : List (List Char))
    (chunk : List Char) :
    newWords share before (chunks ++ [chunk]) = newWords share before chunks ++
      (wordsOf chunk).drop ((chunks.getLast?.or before).elim 0 (carried share)) := by
  induction chunks generalizing before with
  | nil => simp [newWords]
  | cons first chunks ih =>
    rw [List.cons_append, newWords, ih, newWords, List.append_assoc]
    cases chunks with
    | nil => rfl
    | cons next chunks =>
      obtain ⟨last, hlast⟩ : ∃ last, (next :: chunks).getLast? = some last :=
        ⟨_, List.getLast?_eq_some_getLast (List.cons_ne_nil _ _)⟩
      rw [List.getLast?_cons_cons, hlast]
      rfl

theorem newWords_take (share : Nat) (before : Option (List Char)) (n : Nat)
    (chunks : List (List Char)) :
    newWords share before (chunks.take n) <+: newWords share before chunks := by
  induction chunks generalizing before n with
  | nil => rw [List.take_nil]
  | cons chunk chunks ih =>
    cases n with
    | zero => exact List.nil_prefix
    | succ n => exact List.prefix_append_right_inj _ |>.2 (ih (some chunk) n)

/-! ## Filling the chunks -/

namespace Filling

/-- The texts of the chunks, with the one that is being filled. -/
def texts (f : Filling) : List (List Char) := f.chunks.map paragraphed ++ [paragraphed f.current]

/-- What holds of the chunks when the words so far are in them. -/
structure Holds (target share : Nat) (done : List (List Char)) (f : Filling) : Prop where
  words : newWords share none f.texts = done
  chain : f.texts.IsChain (Follows share)
  bound : ∀ chunk ∈ f.texts, (wordsOf chunk).length ≤ target + share
  size : (wordsOf (paragraphed f.current)).length = f.size

variable {target share : Nat} {done : List (List Char)} {f : Filling}

theorem holds_start (target share : Nat) : Holds target share [] {} where
  words := rfl
  chain := .singleton _
  bound chunk hchunk := by
    rw [List.mem_singleton.1 hchunk]
    exact Nat.zero_le _
  size := rfl

/-- The chunk is full: the next one begins with its tail. -/
def next (share : Nat) (f : Filling) : Filling :=
  let carry := tail share f.current
  { chunks := f.chunks ++ [f.current]
    current := if carry.1 = [] then [] else [carry.1]
    size := carry.2
    fresh := 0 }

/-- A unit more in the chunk that is being filled. -/
def append (f : Filling) (unit : List Char) : Filling :=
  let count := (wordsOf unit).length
  { f with current := f.current ++ [unit], size := f.size + count, fresh := f.fresh + count }

theorem add_eq (unit : List Char) : f.add target share unit =
    (if f.current ≠ [] ∧ target < f.size + (wordsOf unit).length then f.next share
      else f).append unit := rfl

/-- **The next chunk** has no new words yet. -/
theorem Holds.next (h : Holds target share done f) : Holds target share done (f.next share) := by
  obtain ⟨hsuffix, hlength, hlimit⟩ := tail_spec share f.current
  have hcarry : wordsOf (paragraphed (f.next share).current) =
      wordsOf (tail share f.current).1 := by
    unfold Filling.next
    dsimp only
    split
    · rename_i hnil
      rw [hnil]
      rfl
    · rw [words_paragraphed, List.flatMap_singleton]
  have htexts : (f.next share).texts = f.texts ++ [paragraphed (f.next share).current] := by
    unfold texts Filling.next
    rw [List.map_append]
    rfl
  have hlast : f.texts.getLast? = some (paragraphed f.current) := List.getLast?_concat
  refine ⟨?_, ?_, ?_, by rw [hcarry]; exact hlength⟩
  · rw [htexts, newWords_concat, h.words, hlast, hcarry, Option.some_or, Option.elim_some,
      carried_paragraphed, ← hlength, List.drop_length, List.append_nil]
  · rw [htexts]
    refine h.chain.append (.singleton _) fun before hbefore chunk hchunk => ?_
    rw [hlast] at hbefore
    obtain rfl := Option.some.inj hbefore
    obtain rfl := Option.some.inj hchunk
    exact ⟨_, hsuffix, by rw [hcarry], by rw [hlength, carried_paragraphed]⟩
  · rw [htexts]
    intro chunk hchunk
    rcases List.mem_append.1 hchunk with hchunk | hchunk
    · exact h.bound chunk hchunk
    · rw [List.mem_singleton.1 hchunk, hcarry, hlength]
      omega

/-- **A unit more** in a chunk that has room for it. -/
theorem Holds.append (h : Holds target share done f) {unit : List Char}
    (hroom : f.size + (wordsOf unit).length ≤ target + share) :
    Holds target share (done ++ wordsOf unit) (f.append unit) := by
  have hwords : wordsOf (paragraphed (f.append unit).current) =
      wordsOf (paragraphed f.current) ++ wordsOf unit := by
    show wordsOf (paragraphed (f.current ++ [unit])) = _
    rw [words_paragraphed, List.flatMap_append, List.flatMap_singleton, words_paragraphed]
  have hsize : (wordsOf (paragraphed (f.append unit).current)).length = (f.append unit).size := by
    rw [hwords, List.length_append, h.size]
    rfl
  obtain ⟨hchunks, -, hfollows⟩ := List.isChain_append.1 h.chain
  have hgrows : ∀ before ∈ (f.chunks.map paragraphed).getLast?, Follows share before
      (paragraphed (f.append unit).current) := by
    intro before hbefore
    obtain ⟨ws, hsuffix, hprefix, hlength⟩ := hfollows before hbefore _ rfl
    exact ⟨ws, hsuffix, hwords ▸ hprefix.trans (List.prefix_append _ _), hlength⟩
  -- what is carried over was in the chunk before the unit
  have hcarried : ((f.chunks.map paragraphed).getLast?.or none).elim 0 (carried share) ≤
      (wordsOf (paragraphed f.current)).length := by
    cases hlast : (f.chunks.map paragraphed).getLast? with
    | none => exact Nat.zero_le _
    | some before =>
      obtain ⟨ws, -, hprefix, hlength⟩ := hfollows before hlast _ rfl
      have hle := hprefix.length_le
      rwa [hlength] at hle
  refine ⟨?_, ?_, ?_, hsize⟩
  · have hdone := h.words
    rw [texts, newWords_concat] at hdone
    show newWords share none (f.chunks.map paragraphed ++ [paragraphed (f.append unit).current]) = _
    rw [newWords_concat, hwords, List.drop_append_of_le_length hcarried, ← List.append_assoc, hdone]
  · refine hchunks.append (.singleton _) fun before hbefore chunk hchunk => ?_
    obtain rfl := Option.some.inj hchunk
    exact hgrows before hbefore
  · intro chunk hchunk
    rcases List.mem_append.1 hchunk with hchunk | hchunk
    · exact h.bound chunk (List.mem_append_left _ hchunk)
    · rw [List.mem_singleton.1 hchunk, hsize]
      exact hroom

/-- **A unit more**, in the chunk that is being filled or in the next. -/
theorem Holds.add (h : Holds target share done f) {unit : List Char}
    (hle : (wordsOf unit).length ≤ target) :
    Holds target share (done ++ wordsOf unit) (f.add target share unit) := by
  rw [add_eq]
  split
  · refine h.next.append ?_
    have hlimit := (tail_spec share f.current).2.2
    show (tail share f.current).2 + (wordsOf unit).length ≤ target + share
    omega
  · rename_i hfits
    refine h.append ?_
    by_cases hcurrent : f.current = []
    · have hsize := h.size
      rw [hcurrent] at hsize
      have hempty : f.size = 0 := hsize.symm
      omega
    · have hroom : ¬ target < f.size + (wordsOf unit).length := fun hover => hfits ⟨hcurrent, hover⟩
      omega

/-- **All units**, one after the other. -/
theorem Holds.foldl (us : List (List Char)) (hus : ∀ unit ∈ us, (wordsOf unit).length ≤ target)
    (h : Holds target share done f) :
    Holds target share (done ++ us.flatMap wordsOf) (us.foldl (Filling.add target share) f) := by
  induction us generalizing done f with
  | nil => rwa [List.flatMap_nil, List.append_nil]
  | cons unit us ih =>
    have hnext := ih (fun u hu => hus u (List.mem_cons_of_mem unit hu))
      (h.add (hus unit List.mem_cons_self))
    rwa [List.append_assoc, ← List.flatMap_cons] at hnext

theorem close_foldl (us : List (List Char)) (hus : ∀ unit ∈ us, 0 < (wordsOf unit).length) :
    us = [] ∨ let filled := us.foldl (Filling.add target share) f
      filled.close = filled.chunks ++ [filled.current] := by
  rcases List.eq_nil_or_concat us with rfl | ⟨us, unit, rfl⟩
  · exact .inl rfl
  · right
    have hpos := hus unit (by simp)
    rw [List.concat_eq_append, List.foldl_append]
    refine if_pos ⟨?_, ?_⟩
    · show _ ++ [unit] ≠ []
      exact List.concat_ne_nil unit _
    · show _ + (wordsOf unit).length ≠ 0
      omega

end Filling

/-- **The chunks before the cap** have all of the words. -/
theorem all_chunks (target share : Nat) {us : List (List Char)}
    (hus : ∀ unit ∈ us, 0 < (wordsOf unit).length ∧ (wordsOf unit).length ≤ target) :
    let all := ((us.foldl (Filling.add target share) {}).close).map paragraphed
    newWords share none all = us.flatMap wordsOf ∧ all.IsChain (Follows share) ∧
      ∀ chunk ∈ all, (wordsOf chunk).length ≤ target + share := by
  have hholds := (Filling.holds_start target share).foldl us fun unit hunit => (hus unit hunit).2
  rcases Filling.close_foldl us fun unit hunit => (hus unit hunit).1 with rfl | hclose
  · exact ⟨rfl, .nil, fun _ h => absurd h List.not_mem_nil⟩
  · dsimp only at hclose ⊢
    rw [hclose, List.map_append]
    exact ⟨hholds.words, hholds.chain, hholds.bound⟩

/-- **Chunks keep the words of a text**: there are at most so many, none has more words than the
target and what may be carried over, each begins with the last words of the one before, and without
these they have the words of the text in order, all of them if there are fewer chunks than there
may be. -/
theorem chunkText_keeps (perChunk : Nat) (share : Nat → Nat) (maxChunks : Nat) (text : List Char) :
    let target := targetOf perChunk
    let chunks := (chunkText perChunk share maxChunks text).map (·.text)
    chunks.length ≤ maxChunks ∧
      (∀ chunk ∈ chunks, (wordsOf chunk).length ≤ target + share target) ∧
      chunks.IsChain (Follows (share target)) ∧
      newWords (share target) none chunks <+: wordsOf text ∧
      (chunks.length < maxChunks → newWords (share target) none chunks = wordsOf text) := by
  obtain ⟨hwords, hunits⟩ := words_units (targetOf_pos perChunk) text
  obtain ⟨hnew, hchain, hbound⟩ := all_chunks (targetOf perChunk) (share (targetOf perChunk)) hunits
  rw [hwords] at hnew
  have htexts : (chunkText perChunk share maxChunks text).map (·.text) =
      (((units (targetOf perChunk) (targetOf_pos perChunk) text).foldl
        (Filling.add (targetOf perChunk) (share (targetOf perChunk))) {}).close.map
          paragraphed).take maxChunks := by
    rw [chunkText, List.map_map, ← List.map_take]
    conv_rhs => rw [← List.zipIdx_map_fst 0 (List.take _ _), List.map_map]
    rfl
  dsimp only
  rw [htexts]
  generalize List.map paragraphed _ = all at hnew hchain hbound
  refine ⟨List.length_take_le _ _, fun chunk hchunk => hbound chunk (List.mem_of_mem_take hchunk),
    hchain.take _, hnew ▸ newWords_take _ _ _ _, fun hless => ?_⟩
  rw [List.length_take] at hless
  rw [List.take_of_length_le (by omega), hnew]

end Chunking
end SecondMind
