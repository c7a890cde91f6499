import SecondMind.Core.Letters
import SecondMind.Ingestion.Entities
import SecondMind.Ingestion.Pipeline

/-!
# Entities that are found again

`ingestion/entities.py`: a mention is matched through keys that keep the letters `a` to `z` and the
digits of a name, and nothing of other scripts.

* `fullKey` — what a name is in any script;
* `Found` — what makes an entity a candidate of a mention, `mem_candidates`;
* `found_again_iff` — when a new entity is found again, and by its own mentions only.
-/

namespace SecondMind

namespace Entities

open Mentions

variable {lib : TextLib}

/-! ## Names in any script -/

/-- The letters and digits of a text, of any script, in words. -/
def letterWords (text : List Char) : List Char :=
  [' '].intercalate ((text.splitOnP fun c => !(isWord c && c ≠ '_')).filter (· ≠ []))

/-- A name without regard to case, a leading article, a possessive and punctuation. -/
def fullKey (lib : TextLib) (text : String) : List Char :=
  let text := (lib.lower text).toList.dropWhile isSpace
  letterWords (dropPossessive (dropArticle (text.reverse.dropWhile isSpace).reverse))

/-- The names and the labels of an entity, in any script. -/
def fullKeys (lib : TextLib) (e : EntityContent) : List (List Char) :=
  (e.name :: e.aliases).map (fullKey lib)

/-- No entity carries the name or the text of a mention, nor its label. -/
def Unknown (lib : TextLib) (x : ExtractedEntity) (pool : List EntityRecord) : Prop :=
  ∀ e ∈ pool, fullKey lib (x.name.getD "") ∉ fullKeys lib e.toEntityContent ∧
    fullKey lib x.mention ∉ fullKeys lib e.toEntityContent ∧
    ∀ label ∈ given x.label, fullKey lib label ∉ e.labels.map (fullKey lib)

/-- A mention that is of something else: its name, its text and its label are none of the entity. -/
def Differs (lib : TextLib) (y : ExtractedEntity) (e : EntityRecord) : Prop := Unknown lib y [e]

/-! ## Candidates -/

section

variable (lib) (x : ExtractedEntity)

/-- The key of the name is one of the entity. -/
def Named (e : EntityRecord) : Prop := clean lib (x.name.getD "") ∈ keys lib e.toEntityContent

/-- The key of the text is one of the entity. -/
def Called (e : EntityRecord) : Prop := clean lib x.mention ∈ keys lib e.toEntityContent

/-- The key of the label is that of a label of a person. -/
def Labelled (e : EntityRecord) : Prop :=
  clean lib (x.label.getD "") ≠ [] ∧ e.kind = .person ∧
    clean lib (x.label.getD "") ∈ e.labels.map (clean lib)

instance (e : EntityRecord) : Decidable (Named lib x e) := inferInstanceAs (Decidable (_ ∈ _))

instance (e : EntityRecord) : Decidable (Called lib x e) := inferInstanceAs (Decidable (_ ∈ _))

instance (e : EntityRecord) : Decidable (Labelled lib x e) := inferInstanceAs (Decidable (_ ∧ _))

/-- A match of the first kind that there is: by the name, the text or the label. -/
def Level (pool : List EntityRecord) (e : EntityRecord) : Prop :=
  Named lib x e ∨ (∀ c ∈ pool, ¬ Named lib x c) ∧
    (Called lib x e ∨ (∀ c ∈ pool, ¬ Called lib x c) ∧ Labelled lib x e)

/-- A candidate: of the kind of the mention, unless there is none of it. -/
def Found (pool : List EntityRecord) (e : EntityRecord) : Prop :=
  Level lib x pool e ∧ (e.kind = x.kind ∨ ∀ c ∈ pool, Level lib x pool c → c.kind ≠ x.kind)

end

variable {x y : ExtractedEntity} {pool : List EntityRecord} {e : EntityRecord}

theorem ne_nil_of_mem_keys {c : EntityContent} {key : List Char} (h : key ∈ keys lib c) :
    key ≠ [] := of_decide_eq_true (List.mem_filter.1 h).2

theorem mem_keys {c : EntityContent} {key : List Char} :
    key ∈ keys lib c ↔ key ≠ [] ∧ key ∈ (c.name :: c.aliases).map (clean lib) := by
  rw [keys, List.mem_filter, List.mem_dedup, decide_eq_true_eq]
  exact and_comm

theorem mem_foldl_of_distinct {entities out : List EntityRecord}
    (h : (out ++ entities).Pairwise fun a b => a.id ≠ b.id) :
    entities.foldl (fun out e => if e.id ∈ out.map (·.id) then out else out ++ [e]) out =
      out ++ entities := by
  induction entities generalizing out with
  | nil => rw [List.append_nil]; rfl
  | cons c entities ih =>
    have hnew : c.id ∉ out.map (·.id) := by
      intro hc
      obtain ⟨b, hb, hid⟩ := List.mem_map.1 hc
      exact (List.pairwise_append.1 h).2.2 b hb c List.mem_cons_self hid
    rw [List.foldl_cons, if_neg hnew, ih]
    · rw [List.append_assoc]
      rfl
    · rwa [List.append_assoc]

/-- Entities with ids of their own. -/
def Distinct (pool : List EntityRecord) : Prop := pool.Pairwise fun a b => a.id ≠ b.id

theorem Distinct.filter (h : Distinct pool) (p : EntityRecord → Bool) : Distinct (pool.filter p) :=
  List.Pairwise.filter p h

theorem Distinct.eq_of_id (h : Distinct pool) {c : EntityRecord} (hc : c ∈ pool) (he : e ∈ pool)
    (hid : c.id = e.id) : c = e :=
  List.inj_on_of_nodup_map (List.pairwise_map.2 h) hc he hid

/-- They are all kept, the latest first. -/
theorem dedupe_perm (h : Distinct pool) : (dedupe pool).Perm pool := by
  have hperm := List.perm_insertionSort (fun a b : EntityRecord => b.updatedAt ≤ a.updatedAt) pool
  have hsorted := (hperm.pairwise_iff fun hab => Ne.symm hab).2 h
  rwa [dedupe, mem_foldl_of_distinct (by simpa using hsorted), List.nil_append]

theorem filter_eq_nil {p : EntityRecord → Prop} [DecidablePred p] :
    pool.filter (fun e => p e) = [] ↔ ∀ c ∈ pool, ¬ p c := by
  simp

/-- What is matched by the name, by the text or by the label. -/
theorem matches_eq : matches_ lib x pool =
    if pool.filter (fun e => Named lib x e) ≠ [] then pool.filter fun e => Named lib x e
    else if pool.filter (fun e => Called lib x e) ≠ [] then pool.filter fun e => Called lib x e
    else pool.filter fun e => Labelled lib x e := by
  have hkey : ∀ (key : List Char) (c : EntityRecord),
      (key ≠ [] ∧ key ∈ keys lib c.toEntityContent) ↔ key ∈ keys lib c.toEntityContent :=
    fun key c => ⟨fun h => h.2, fun h => ⟨ne_nil_of_mem_keys h, h⟩⟩
  unfold matches_
  simp only [hkey]
  rfl

theorem mem_matches : e ∈ matches_ lib x pool ↔ e ∈ pool ∧ Level lib x pool e := by
  rw [matches_eq]
  split
  · rename_i hsome
    rw [List.mem_filter, decide_eq_true_eq]
    refine and_congr_right fun he => ⟨.inl, ?_⟩
    rintro (hname | ⟨hnone, -⟩)
    · exact hname
    · exact absurd (filter_eq_nil.2 hnone) hsome
  · rename_i hnamed
    rw [not_not, filter_eq_nil] at hnamed
    split
    · rename_i hsome
      rw [List.mem_filter, decide_eq_true_eq]
      refine and_congr_right fun he => ⟨fun hcall => .inr ⟨hnamed, .inl hcall⟩, ?_⟩
      rintro (hname | ⟨-, hcall | ⟨hnone, -⟩⟩)
      · exact absurd hname (hnamed e he)
      · exact hcall
      · exact absurd (filter_eq_nil.2 hnone) hsome
    · rename_i hcalled
      rw [not_not, filter_eq_nil] at hcalled
      rw [List.mem_filter, decide_eq_true_eq]
      refine and_congr_right fun he => ⟨fun hlabel => .inr ⟨hnamed, .inr ⟨hcalled, hlabel⟩⟩, ?_⟩
      rintro (hname | ⟨-, hcall | ⟨-, hlabel⟩⟩)
      · exact absurd hname (hnamed e he)
      · exact absurd hcall (hcalled e he)
      · exact hlabel

theorem distinct_matches (h : Distinct pool) : Distinct (matches_ lib x pool) := by
  rw [matches_eq]
  split
  · exact h.filter _
  · split
    · exact h.filter _
    · exact h.filter _

/-- **The candidates** of a mention. -/
theorem mem_candidates (h : Distinct pool) :
    e ∈ candidates lib x pool ↔ e ∈ pool ∧ Found lib x pool e := by
  have hlevel : ∀ c, c ∈ dedupe (matches_ lib x pool) ↔ c ∈ pool ∧ Level lib x pool c := fun c => by
    rw [(dedupe_perm (distinct_matches h)).mem_iff, mem_matches]
  unfold candidates
  dsimp only
  split
  · rename_i hsome
    rw [List.mem_filter, hlevel, decide_eq_true_eq]
    constructor
    · rintro ⟨⟨he, hl⟩, hkind⟩
      exact ⟨he, hl, .inl hkind⟩
    · rintro ⟨he, hl, hkind | hnone⟩
      · exact ⟨⟨he, hl⟩, hkind⟩
      · refine absurd (filter_eq_nil.2 fun c hc => ?_) hsome
        obtain ⟨hc, hcl⟩ := (hlevel c).1 hc
        exact hnone c hc hcl
  · rename_i hnone
    rw [not_not, filter_eq_nil] at hnone
    rw [hlevel]
    constructor
    · rintro ⟨he, hl⟩
      exact ⟨he, hl, .inr fun c hc hcl => hnone c ((hlevel c).2 ⟨hc, hcl⟩)⟩
    · rintro ⟨he, hl, -⟩
      exact ⟨he, hl⟩

theorem distinct_candidates (h : Distinct pool) : Distinct (candidates lib x pool) := by
  have hdistinct : Distinct (dedupe (matches_ lib x pool)) :=
    ((dedupe_perm (distinct_matches h)).pairwise_iff fun hab => Ne.symm hab).2 (distinct_matches h)
  unfold candidates
  dsimp only
  split
  · exact hdistinct.filter _
  · exact hdistinct

/-! ## What becomes of a mention -/

variable (lib x) in
theorem matched_updates (chosen : EntityRecord) :
    (matched lib x chosen).op.any (·.create) = false := by
  unfold matched updateFor
  dsimp only
  split
  · rfl
  · rfl

variable (lib x pool) in
/-- A mention becomes a new entity or one of its candidates. -/
theorem resolveOne_cases (choose : Option EntityChooser) (id : Uuid) :
    (∃ note, resolveOne lib choose x pool id = newEntity lib x id note) ∨
      ∃ e ∈ candidates lib x pool, resolveOne lib choose x pool id = matched lib x e := by
  unfold resolveOne
  split
  · exact .inl ⟨_, rfl⟩
  · rename_i chosen heq
    exact .inr ⟨chosen, by rw [heq]; exact List.mem_cons_self, rfl⟩
  · rename_i first second others heq
    exact .inr ⟨first, by rw [heq]; exact List.mem_cons_self, rfl⟩
  · rename_i first second others choose heq
    dsimp only
    split
    · exact .inl ⟨_, rfl⟩
    · rename_i i _ _
      exact .inr ⟨_, by rw [heq]; exact List.get_mem _ i, rfl⟩

/-- Whatever the model answers, an entity is created if and only if there is no candidate. -/
theorem creates_iff (id : Uuid) :
    (∀ choose, (resolveOne lib choose x pool id).op.any (·.create) = true) ↔
      candidates lib x pool = [] := by
  constructor
  · intro h
    have hnone := h none
    unfold resolveOne at hnone
    split at hnone
    · assumption
    · rw [matched_updates] at hnone
      cases hnone
    · rw [matched_updates] at hnone
      cases hnone
    · contradiction
  · intro h choose
    rcases resolveOne_cases lib x pool choose id with ⟨note, heq⟩ | ⟨e, he, -⟩
    · rw [heq]
      rfl
    · rw [h] at he
      cases he

/-- Any candidate may be chosen. -/
theorem exists_chooser (he : e ∈ candidates lib x pool) (id : Uuid) :
    ∃ choose, resolveOne lib choose x pool id = matched lib x e := by
  obtain ⟨n, hn⟩ := List.mem_iff_getElem?.1 he
  refine ⟨some fun _ all => if h : n < all.length then (some ⟨n, h⟩, "") else (none, ""), ?_⟩
  unfold resolveOne
  split
  · rename_i heq
    rw [heq] at he
    cases he
  · rename_i chosen heq
    rw [heq] at he
    rw [List.mem_singleton.1 he]
  · contradiction
  · rename_i first second others choose heq hsome
    cases hsome
    rw [heq] at hn
    obtain ⟨hlt, hget⟩ := List.getElem?_eq_some_iff.1 hn
    simp only [dif_pos hlt]
    exact congrArg (matched lib x) hget

/-! ## Keys of a new entity -/

/-- What `str.lower` keeps. -/
structure LowerText (lib : TextLib) : Prop where
  empty : lib.lower "" = ""
  strip : ∀ text, lib.lower (strip text) = strip (lib.lower text)
  twice : ∀ text, lib.lower (lib.lower text) = lib.lower text

theorem strip_toList (text : String) :
    (strip text).toList = ((text.toList.dropWhile isSpace).reverse.dropWhile isSpace).reverse :=
  String.toList_ofList

theorem clean_eq (text : String) :
    clean lib text =
      plainWords (dropPossessive (dropArticle (SecondMind.strip (lib.lower text)).toList)) := by
  rw [strip_toList]
  rfl

/-- White space around a text does not matter. -/
theorem strip_strip (text : String) : strip (strip text) = strip text := by
  have hall : ∀ l : List Char, (((l.dropWhile isSpace).reverse.dropWhile isSpace).reverse).dropWhile
      isSpace = ((l.dropWhile isSpace).reverse.dropWhile isSpace).reverse := by
    intro l
    cases hkept : ((l.dropWhile isSpace).reverse.dropWhile isSpace).reverse with
    | nil => rfl
    | cons c kept =>
      -- what is dropped at the end leaves the head as it is, which is no white space
      have hprefix : c :: kept <+: l.dropWhile isSpace := by
        rw [← hkept, ← List.reverse_reverse (l.dropWhile isSpace), List.reverse_prefix,
          List.reverse_reverse]
        exact List.dropWhile_suffix _
      obtain ⟨rest, hrest⟩ := hprefix
      have hhead : (l.dropWhile isSpace).head? = some c := by rw [← hrest]; rfl
      have hnot := List.head?_dropWhile_not isSpace l
      rw [hhead] at hnot
      rw [List.dropWhile_cons, if_neg (by simpa using hnot)]
  apply String.toList_injective
  rw [strip_toList (strip text), strip_toList, hall, List.reverse_reverse]
  exact hall text.toList

theorem LowerText.clean_strip (hlower : LowerText lib) (text : String) :
    clean lib (SecondMind.strip text) = clean lib text := by
  rw [clean_eq, hlower.strip, strip_strip, ← clean_eq]

theorem clean_empty (hlower : LowerText lib) : clean lib "" = [] := by
  rw [clean_eq, hlower.empty]
  decide +kernel

/-- A text with a key is not blank. -/
theorem strip_ne_empty (hlower : LowerText lib) {text : String} (h : clean lib text ≠ []) :
    SecondMind.strip text ≠ "" := by
  intro hempty
  rw [← hlower.clean_strip, hempty, clean_empty hlower] at h
  exact h rfl

theorem given_of_ne {text : String} (h : text ≠ "") : given (some text) = some text := by
  rw [given, Option.filter_some, if_pos (by simpa using h)]

/-- The key of a label in lower case. -/
theorem clean_label (hlower : LowerText lib) (label : String) :
    clean lib (lib.lower (SecondMind.strip label)) = clean lib label := by
  rw [← hlower.clean_strip label, clean_eq, hlower.twice, ← clean_eq]

/-- The name of a mention, if it has a key, is a key of what it creates. -/
theorem nameKey_mem (hlower : LowerText lib) (h : clean lib (x.name.getD "") ≠ []) :
    clean lib (x.name.getD "") ∈ keys lib (created lib x) := by
  refine mem_keys.2 ⟨h, List.mem_map.2 ⟨ownName lib x, List.mem_cons_self, ?_⟩⟩
  rw [ownName, given_of_ne (strip_ne_empty hlower h), Option.getD_some, hlower.clean_strip]

/-- So is its text. -/
theorem mentionKey_mem (hlower : LowerText lib) (h : clean lib x.mention ≠ []) :
    clean lib x.mention ∈ keys lib (created lib x) := by
  refine mem_keys.2 ⟨h, ?_⟩
  by_cases hname : clean lib x.mention = clean lib (ownName lib x)
  · exact List.mem_map.2 ⟨ownName lib x, List.mem_cons_self, hname.symm⟩
  · have hnew : clean lib x.mention ∉ [clean lib (ownName lib x), []] := by simp [hname, h]
    have haliases : (created lib x).aliases = [strip x.mention] := by
      simp only [created]
      rw [if_pos hnew]
    refine List.mem_map.2 ⟨strip x.mention, List.mem_cons_of_mem _ ?_, hlower.clean_strip _⟩
    rw [haliases]
    exact List.mem_singleton_self _

/-- And its label. -/
theorem labelKey_mem (hlower : LowerText lib) (h : clean lib (x.label.getD "") ≠ []) :
    clean lib (x.label.getD "") ∈ (created lib x).labels.map (clean lib) := by
  have hlabel : lib.lower (SecondMind.strip (x.label.getD "")) ≠ "" := by
    intro hempty
    rw [← clean_label hlower, hempty, clean_empty hlower] at h
    exact h rfl
  have hown : (created lib x).labels = [lib.lower (SecondMind.strip (x.label.getD ""))] := by
    show (ownLabel lib x).toList = _
    rw [ownLabel, given_of_ne hlabel]
    rfl
  rw [hown, List.map_singleton, clean_label hlower]
  exact List.mem_singleton_self _

/-! ## Found again -/

/-- A later pool, in which the new entity is with an id of its own, and what it was created with. -/
structure Later (lib : TextLib) (x : ExtractedEntity) (id : Uuid) (pool : List EntityRecord)
    (e : EntityRecord) : Prop where
  mem : e ∈ pool
  id : e.id = id
  kind : e.kind = x.kind
  keys : ∀ key ∈ keys lib (created lib x), key ∈ Mentions.keys lib e.toEntityContent
  labels : ∀ key ∈ (created lib x).labels.map (clean lib), key ∈ e.labels.map (clean lib)
  distinct : Distinct pool

/-- Whatever the model answers, a mention creates an entity, a later mention of the same is of that
entity, and another one is not. -/
structure FoundAgain (lib : TextLib) (x y : ExtractedEntity) (pool pool' : List EntityRecord)
    (id : Uuid) : Prop where
  creates : ∀ choose, (resolveOne lib choose x pool id).op.any (·.create) = true
  again : ∀ choose id', id' ≠ id → (resolveOne lib choose x pool' id').entityId = id
  apart : ∀ choose id', id' ≠ id → (resolveOne lib choose y pool' id').entityId ≠ id

/-- A mention has a key: something of its name, its text or the label of a person is left of it. -/
def Written (lib : TextLib) (x : ExtractedEntity) : Prop :=
  clean lib (x.name.getD "") ≠ [] ∨ clean lib x.mention ≠ [] ∨
    x.kind = .person ∧ clean lib (x.label.getD "") ≠ []

/-- An entity has the key by which a mention is looked for. -/
def Shares (lib : TextLib) (x : ExtractedEntity) (e : EntityRecord) : Prop :=
  if clean lib (x.name.getD "") ≠ [] then Named lib x e
  else if clean lib x.mention ≠ [] then Called lib x e
  else Labelled lib x e

theorem entityId_resolve_iff {id : Uuid} :
    (∀ choose id', id' ≠ id → (resolveOne lib choose x pool id').entityId ≠ id) ↔
      ∀ e ∈ candidates lib x pool, e.id ≠ id := by
  constructor
  · intro h e he heq
    obtain ⟨choose, hchoose⟩ := exists_chooser he (id + 1)
    have hne := h choose (id + 1) (by simp)
    rw [hchoose] at hne
    exact hne heq
  · intro h choose id' hid'
    rcases resolveOne_cases lib x pool choose id' with ⟨note, heq⟩ | ⟨e, he, heq⟩
    · rw [heq]
      exact hid'
    · rw [heq]
      exact h e he

/-- The mention is of an entity, whatever the model answers, if that is the only candidate. -/
theorem entityId_resolve_eq_iff {id : Uuid} (hdistinct : Distinct pool) (he : e ∈ pool)
    (hid : e.id = id) :
    (∀ choose id', id' ≠ id → (resolveOne lib choose x pool id').entityId = id) ↔
      Found lib x pool e ∧ ∀ c ∈ pool, Found lib x pool c → c.id = id := by
  constructor
  · intro h
    have hall : ∀ c ∈ candidates lib x pool, c.id = id := by
      intro c hc
      obtain ⟨choose, hchoose⟩ := exists_chooser hc (id + 1)
      have heq := h choose (id + 1) (by simp)
      rwa [hchoose] at heq
    refine ⟨?_, fun c hc hfound => hall c ((mem_candidates hdistinct).2 ⟨hc, hfound⟩)⟩
    rcases resolveOne_cases lib x pool none (id + 1) with
      ⟨note, heq⟩ | ⟨c, hc, -⟩
    · have hsame := h none (id + 1) (by simp)
      rw [heq] at hsame
      exact absurd hsame (by simp [newEntity])
    · obtain ⟨hcpool, hfound⟩ := (mem_candidates hdistinct).1 hc
      exact hdistinct.eq_of_id hcpool he ((hall c hc).trans hid.symm) ▸ hfound
  · rintro ⟨hfound, honly⟩ choose id' hid'
    have hall : ∀ c ∈ candidates lib x pool, c.id = id := by
      intro c hc
      obtain ⟨hcpool, hcfound⟩ := (mem_candidates hdistinct).1 hc
      exact honly c hcpool hcfound
    have hmem : e ∈ candidates lib x pool := (mem_candidates hdistinct).2 ⟨he, hfound⟩
    have hfew : ∀ c d others, candidates lib x pool = c :: d :: others → False := by
      intro c d others heq
      have hpair : Distinct (candidates lib x pool) := distinct_candidates hdistinct
      rw [heq] at hpair hall
      refine (List.pairwise_cons.1 hpair).1 d List.mem_cons_self ?_
      rw [hall c List.mem_cons_self, hall d (List.mem_cons_of_mem _ List.mem_cons_self)]
    unfold resolveOne
    split
    · rename_i heq
      rw [heq] at hmem
      cases hmem
    · rename_i chosen heq
      exact hall chosen (by rw [heq]; exact List.mem_cons_self)
    · rename_i heq
      exact (hfew _ _ _ heq).elim
    · rename_i heq
      exact (hfew _ _ _ heq).elim

/-- A mention finds what it created if and only if it has a key. -/
theorem Later.found_iff (hlower : LowerText lib) {id : Uuid} (h : Later lib x id pool e) :
    Found lib x pool e ↔ Written lib x := by
  constructor
  · rintro ⟨hname | ⟨-, hcall | ⟨-, hlabel, hperson, -⟩⟩, -⟩
    · exact .inl (ne_nil_of_mem_keys hname)
    · exact .inr (.inl (ne_nil_of_mem_keys hcall))
    · exact .inr (.inr ⟨h.kind.symm.trans hperson, hlabel⟩)
  · intro hwritten
    refine ⟨?_, .inl h.kind⟩
    by_cases hname : clean lib (x.name.getD "") = []
    · have hnone : ∀ c ∈ pool, ¬ Named lib x c := fun c _ hc => ne_nil_of_mem_keys hc hname
      refine .inr ⟨hnone, ?_⟩
      by_cases hmention : clean lib x.mention = []
      · obtain ⟨hperson, hlabel⟩ := (hwritten.resolve_left (not_not_intro hname)).resolve_left
          (not_not_intro hmention)
        exact .inr ⟨fun c _ hc => ne_nil_of_mem_keys hc hmention, hlabel, h.kind.trans hperson,
          h.labels _ (labelKey_mem hlower hlabel)⟩
      · exact .inl (h.keys _ (mentionKey_mem hlower hmention))
    · exact .inl (h.keys _ (nameKey_mem hlower hname))

/-- Its candidates are those of its kind with the key by which it is looked for. -/
theorem Later.found_iff_shares (hlower : LowerText lib) {id : Uuid} (h : Later lib x id pool e)
    (hwritten : Written lib x) {c : EntityRecord} :
    Found lib x pool c ↔ c.kind = x.kind ∧ Shares lib x c := by
  have hlevel : Level lib x pool e := ((h.found_iff hlower).2 hwritten).1
  have hkind : Found lib x pool c ↔ c.kind = x.kind ∧ Level lib x pool c := by
    constructor
    · rintro ⟨hc, hkind | hnone⟩
      · exact ⟨hkind, hc⟩
      · exact absurd h.kind (hnone e h.mem hlevel)
    · rintro ⟨hkind, hc⟩
      exact ⟨hc, .inl hkind⟩
  rw [hkind, Shares]
  refine and_congr_right fun _ => ?_
  by_cases hname : clean lib (x.name.getD "") = []
  · rw [if_neg (not_not_intro hname)]
    have hnone : ∀ d, ¬ Named lib x d := fun d hd => ne_nil_of_mem_keys hd hname
    by_cases hmention : clean lib x.mention = []
    · rw [if_neg (not_not_intro hmention)]
      have hnone' : ∀ d, ¬ Called lib x d := fun d hd => ne_nil_of_mem_keys hd hmention
      constructor
      · rintro (hc | ⟨-, hc | ⟨-, hc⟩⟩)
        · exact absurd hc (hnone c)
        · exact absurd hc (hnone' c)
        · exact hc
      · exact fun hc => .inr ⟨fun d _ => hnone d, .inr ⟨fun d _ => hnone' d, hc⟩⟩
    · rw [if_pos hmention]
      constructor
      · rintro (hc | ⟨-, hc | ⟨hno, -⟩⟩)
        · exact absurd hc (hnone c)
        · exact hc
        · exact absurd (h.keys _ (mentionKey_mem hlower hmention)) (hno e h.mem)
      · exact fun hc => .inr ⟨fun d _ => hnone d, .inl hc⟩
  · rw [if_pos hname]
    constructor
    · rintro (hc | ⟨hno, -⟩)
      · exact hc
      · exact absurd (h.keys _ (nameKey_mem hlower hname)) (hno e h.mem)
    · exact .inl

theorem candidates_eq_nil_iff (hdistinct : Distinct pool) : candidates lib x pool = [] ↔
    ∀ e ∈ pool, ¬ Named lib x e ∧ ¬ Called lib x e ∧ ¬ Labelled lib x e := by
  rw [List.eq_nil_iff_forall_not_mem]
  simp only [mem_candidates hdistinct, not_and]
  constructor
  · intro h
    -- a match of some kind makes one of the first kind there is, and of the kind of the mention
    have hlevel : ∀ e ∈ pool, ¬ Level lib x pool e := by
      intro e he hl
      by_cases hkind : ∃ c ∈ pool, Level lib x pool c ∧ c.kind = x.kind
      · obtain ⟨c, hc, hcl, hck⟩ := hkind
        exact h c hc ⟨hcl, .inl hck⟩
      · exact h e he ⟨hl, .inr fun c hc hcl hck => hkind ⟨c, hc, hcl, hck⟩⟩
    have hname : ∀ e ∈ pool, ¬ Named lib x e := fun e he hn => hlevel e he (.inl hn)
    have hcall : ∀ e ∈ pool, ¬ Called lib x e := fun e he hc => hlevel e he (.inr ⟨hname, .inl hc⟩)
    exact fun e he => ⟨hname e he, hcall e he, fun hl =>
      hlevel e he (.inr ⟨hname, .inr ⟨hcall, hl⟩⟩)⟩
  · rintro h e he ⟨hname | ⟨-, hcall | ⟨-, hlabel⟩⟩, -⟩
    · exact (h e he).1 hname
    · exact (h e he).2.1 hcall
    · exact (h e he).2.2 hlabel

/-- **Entities are found again**, and by their own mentions only, if and only if this is so of the
keys: none of the pool is that of the mention, something is left of it, no other entity of its kind
has what it is looked for by, and the keys of the other mention do not lead to it. -/
theorem found_again_iff (hlower : LowerText lib) {pool' : List EntityRecord} {id : Uuid}
    (hdistinct : Distinct pool) (h : Later lib x id pool' e) :
    FoundAgain lib x y pool pool' id ↔
      (∀ c ∈ pool, ¬ Named lib x c ∧ ¬ Called lib x c ∧ ¬ Labelled lib x c) ∧
        (Written lib x ∧ ∀ c ∈ pool', c.kind = x.kind → Shares lib x c → c.id = id) ∧
        ¬ Found lib y pool' e := by
  have hagain : (Found lib x pool' e ∧ ∀ c ∈ pool', Found lib x pool' c → c.id = id) ↔
      Written lib x ∧ ∀ c ∈ pool', c.kind = x.kind → Shares lib x c → c.id = id := by
    rw [h.found_iff hlower]
    refine and_congr_right fun hwritten => forall₂_congr fun c _ => ?_
    rw [h.found_iff_shares hlower hwritten, and_imp]
  have hapart : (∀ c ∈ candidates lib y pool', c.id ≠ id) ↔ ¬ Found lib y pool' e := by
    constructor
    · exact fun hnone hfound => hnone e ((mem_candidates h.distinct).2 ⟨h.mem, hfound⟩) h.id
    · intro hnot c hc hid
      obtain ⟨hcpool, hfound⟩ := (mem_candidates h.distinct).1 hc
      exact hnot (h.distinct.eq_of_id hcpool h.mem (hid.trans h.id.symm) ▸ hfound)
  rw [← candidates_eq_nil_iff hdistinct, ← creates_iff id, ← hagain,
    ← entityId_resolve_eq_iff h.distinct h.mem h.id, ← hapart, ← entityId_resolve_iff]
  exact ⟨fun hfound => ⟨hfound.creates, hfound.again, hfound.apart⟩,
    fun ⟨hcreates, hagain, hapart⟩ => ⟨hcreates, hagain, hapart⟩⟩

/-- The record of a new entity. -/
def newRecord (lib : TextLib) (x : ExtractedEntity) (id : Uuid) (now : Instant) : EntityRecord where
  toEntityContent := created lib x
  id := id
  createdAt := now
  updatedAt := now
  createdByTurnId := none
  updatedByTurnId := none

theorem addedBy_newEntity (id : Uuid) (now : Instant) (note : String) :
    addedBy (newEntity lib x id note) now = [newRecord lib x id now] := rfl

/-- Later in the message the new entity is in the pool. -/
theorem later_of_new {id : Uuid} (now : Instant) (hdistinct : Distinct pool)
    (hfresh : ∀ c ∈ pool, c.id ≠ id) :
    Later lib x id (pool ++ [newRecord lib x id now]) (newRecord lib x id now) where
  mem := List.mem_append_right _ (List.mem_singleton_self _)
  id := rfl
  kind := rfl
  keys := fun _ h => h
  labels := fun _ h => h
  distinct := List.pairwise_append.2 ⟨hdistinct, List.pairwise_singleton _ _, fun c hc d hd => by
    rw [List.mem_singleton.1 hd]
    exact hfresh c hc⟩

/-! ## A name in Japanese, and one in Latin letters -/

theorem plainText_lower : LowerText plainText where
  empty := rfl
  strip := fun _ => rfl
  twice := fun _ => rfl

/-- A place. -/
def place (name : String) : ExtractedEntity where
  id := "e1"
  mention := name
  name := some name
  kind := .place
  label := none

/-- Nothing is left of the name: the place is created again. -/
theorem tokyo_not_found : Unknown plainText (place "東京") [] ∧
    Later plainText (place "東京") 7 [newRecord plainText (place "東京") 7 0]
      (newRecord plainText (place "東京") 7 0) ∧
    Differs plainText (place "大阪") (newRecord plainText (place "東京") 7 0) ∧
    ¬ FoundAgain plainText (place "東京") (place "大阪") []
      [newRecord plainText (place "東京") 7 0] 7 := by
  refine ⟨fun e he => absurd he List.not_mem_nil,
    later_of_new 0 List.Pairwise.nil (by simp), ?_, ?_⟩
  · intro e he
    rw [List.mem_singleton.1 he]
    refine ⟨by decide +kernel, by decide +kernel, fun label hlabel => ?_⟩
    cases hlabel
  · intro h
    have hother := h.again none 8 (by decide)
    have hcreated : (resolveOne plainText none (place "東京")
        [newRecord plainText (place "東京") 7 0] 8).entityId = 8 := by decide +kernel
    rw [hcreated] at hother
    cases hother

/-- A name in Latin letters is found again. -/
theorem oslo_found : FoundAgain plainText (place "oslo") (place "bergen") []
    [newRecord plainText (place "oslo") 7 0] 7 := by
  refine (found_again_iff plainText_lower List.Pairwise.nil
    (later_of_new 0 List.Pairwise.nil (by simp))).2 ⟨by simp, ⟨.inl ?_, ?_⟩, ?_⟩
  · decide +kernel
  · intro c hc _ _
    rw [List.mem_singleton.1 hc]
    rfl
  · rintro ⟨hname | ⟨-, hcall | ⟨-, hlabel, -⟩⟩, -⟩
    · exact absurd hname (by decide +kernel)
    · exact absurd hcall (by decide +kernel)
    · exact absurd hlabel (by decide +kernel)

end Entities

end SecondMind
