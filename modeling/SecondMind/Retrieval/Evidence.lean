import SecondMind.Ingestion.Reconcile
import SecondMind.Memory.CoreLayer
import SecondMind.Retrieval.Filters

/-!
# The evidence of an answer

What `_rank` and `_parts` of `retrieval/pipeline.py` make of the parts of a plan: the numbered
evidence of the answer, in which every memory and every turn stands once, and the counts that the
answer reports.

* `RecallRun` — what was found for one part of the plan;
* `CountCheck` — what looks like a counted item and was not counted;
* `addEvidence` and `partsOf` — the evidence, part by part;
* `partsFrom_find` — a memory is marked as the first part that brings it marks it;
* `counted_shown_iff` — when every counted item is shown and marked as counted;
* `listed_run_unmarked` — a run that a list brought before the count did.
-/

namespace SecondMind

open Keyed

/-! ## What was found -/

/-- `AggregateResult`, as far as the answer reads it. -/
structure AggregateResult where
  value : Option Rat
  itemIds : List Uuid

inductive OccurrenceVia
  | occurred | due | valid | mentioned | trigger | routine
  deriving DecidableEq, Repr

/-- `Occurrence`. -/
structure Occurrence where
  itemId : Uuid
  start : Instant
  stop : Option Instant := none
  via : OccurrenceVia
  upcoming : Bool
  triggerId : Option Uuid := none
  deriving DecidableEq

inductive SpeakerRole
  | user | assistant
  deriving DecidableEq, Repr

/-- `ConversationHit`, as far as the answer reads it. -/
structure ConversationHit where
  turnId : Uuid
  role : SpeakerRole
  text : String
  saidAt : Instant

/-- What the reranker says of a candidate, or nothing. -/
abbrev Rerank := Candidate → Option Rat

/-- `_Run`, after the tools have run.  An aggregate hands in its items as a channel, and it runs
only where no entity is missing. -/
structure RecallRun where
  sub : SubQuery
  channels : List (String × List Hit)
  aggregate : Option AggregateResult := none
  occurrences : List Occurrence := []
  said : List ConversationHit := []
  relaxed : String := ""
  anchor : Option (String × Instant) := none
  absorbed : ∀ agg ∈ aggregate, ∀ itemId ∈ agg.itemIds,
    ∃ x ∈ channels, ∃ hit ∈ x.2, hit.itemId = itemId
  known : aggregate ≠ none → sub.missingEntity = false

/-! ## Ranking -/

/-- What the memories and the built-in functions give to an answer. -/
structure RecallLib where
  items : Uuid → Option ItemRecord
  items_id : ∀ itemId item, items itemId = some item → item.id = itemId
  lower : String → String
  -- `f"{x:.2f}"`
  fixed : Nat → Rat → String
  -- `excerpt(passage, question)`
  excerpt : String → String → String
  -- `format_day` in the zone of the workspace
  day : Instant → String
  -- the stored text of a past turn: the message, and the reply
  saidIn : Uuid → Option (String × Option String)

structure RecallSettings extends SelectSettings where
  rrfK : Nat := 60
  historyDemotion : Rat := 1 / 2

variable (lib : RecallLib) (settings : RecallSettings) (score : Nat → Rerank) (reranked : Bool)

/-- The candidates of the part at position `n`, with their scores. -/
def RecallRun.candidates (n : Nat) (run : RecallRun) : List Candidate :=
  (fuse lib.lower run.channels lib.items run.sub.shape settings.rrfK settings.historyDemotion).map
    fun c => { c with rerankScore := score n c }

/-- What the count counted. -/
def RecallRun.counted (run : RecallRun) : List Uuid := (run.aggregate.map (·.itemIds)).getD []

/-- `run.selection`. -/
def RecallRun.selection (n : Nat) (run : RecallRun) : Selection :=
  select lib.fixed run.sub (run.candidates lib settings score n) reranked settings.toSelectSettings
    run.counted lib.items

/-! ### The cross-check of a count -/

/-- `CountCheck`. -/
structure CountCheck where
  label : String
  extraIds : List Uuid
  note : String
  offer : String
  fix : List (String × String)

/-- `count_label`. -/
def countLabel (filters : Filters) : String × String :=
  let word :=
    match filters.attribute with
    | some (_, value) => lib.lower (strip value)
    | none =>
      match filters.subtypes.head?.filter (· ∉ ["measurement", "experience"]),
        filters.kinds.head? with
      | some subtype, _ => subtype.replace "_" " "
      | none, some kind => kindName kind
      | none, none => ""
  let word := if word = "" then "item" else word
  let word := if word.length > 3 ∧ endsWith word "s" then removeSuffix word "s" else word
  (word, word ++ if ["s", "x", "ch", "sh"].any (endsWith word) then "es" else "s")

/-- `_fix`. -/
def countFix (filters : Filters) : List (String × String) :=
  let fix :=
    (filters.kinds.head?.toList.map fun kind => ("kind", kindName kind)) ++
      (filters.subtypes.head?.toList.map ("subtype", ·)) ++
      filters.attribute.toList.map fun x => ("attributes." ++ x.1, x.2)
  if fix = [] then [("kind", "episode")] else fix

/-- A candidate that looks like what was counted but was not. -/
def looksAlike (sub : SubQuery) (counted : List Uuid) (c : Candidate) : Bool :=
  if c.itemId ∈ counted ∨ c.foundBy.all (·.1 ≠ soft) then false
  else
    match lib.items c.itemId with
    | none => false
    | some item =>
      (sub.window.all fun window => window.contains (item.occurredStart.getD item.mentionedAt)) &&
        settings.countCheckMinScore ≤ (c.rerankScore.or c.dense).getD 0

/-- `count_check`. -/
def countCheck (sub : SubQuery) (candidates : List Candidate) (counted : List Uuid) :
    Option CountCheck :=
  let extras := (candidates.filter (looksAlike lib settings sub counted)).map (·.itemId)
  if extras = [] then none
  else
    let (one, many) := countLabel lib sub.filters
    let mentions :=
      if extras.length = 1 then "1 more mention looks" else s!"{extras.length} more mentions look"
    let filed := if extras.length = 1 then "it as a " ++ one else "them as " ++ many
    some
      { label := many
        extraIds := extras
        note := s!"{mentions} like {many} but weren't logged as {many}."
        offer := s!"File {filed}?"
        fix := countFix sub.filters }

/-! ## Evidence -/

inductive EvidenceKind
  | item | turn
  deriving DecidableEq, Repr

/-- `Evidence`. -/
structure Evidence where
  marker : Nat := 0
  kind : EvidenceKind := .item
  title : String
  item : Option ItemRecord := none
  turnId : Option Uuid := none
  role : Option SpeakerRole := none
  said : String := ""
  saidAt : Option Instant := none
  softOnly : Bool := false
  counted : Bool := false
  lookAlike : Bool := false
  occurrences : List Occurrence := []
  snippet : Option String := none
  excerpt : Option String := none

/-- `target`. -/
def Evidence.target (ev : Evidence) : Option Uuid := (ev.item.map (·.id)).or ev.turnId

/-- `Part`. -/
structure AnswerPart where
  sub : SubQuery
  evidence : List Evidence := []
  count : Option Rat := none
  countNote : String := ""
  more : Nat := 0
  relaxed : String := ""
  anchor : Option (String × Instant) := none

/-- The evidence that a selected candidate makes, if its memory is there. -/
def selectedEvidence (run : RecallRun) (c : Candidate) : Option Evidence :=
  (lib.items c.itemId).map fun item =>
    { title := item.title
      item := some item
      softOnly := c.softOnly
      snippet := c.snippet
      excerpt := (c.snippet.filter (· ≠ "")).map (lib.excerpt · run.sub.question)
      counted := run.sub.shape = .count
      occurrences := run.occurrences.filter fun o => o.itemId = item.id ∧ o.via = .routine }

/-- The evidence of what looks like a counted item. -/
def lookAlikeEvidence (itemId : Uuid) : Option Evidence :=
  (lib.items itemId).map fun item => { title := item.title, item := some item, lookAlike := true }

/-- The evidence of a turn: the whole message or reply, where it is stored. -/
def saidEvidence (hit : ConversationHit) : Evidence :=
  let full := (lib.saidIn hit.turnId).bind fun turn =>
    if hit.role = .assistant then turn.2 else some turn.1
  let text := (full.filter (· ≠ "")).getD hit.text
  { title := (if hit.role = .assistant then "I" else "You") ++ " said, " ++ lib.day hit.saidAt
    kind := .turn
    turnId := some hit.turnId
    role := some hit.role
    said := String.ofList ((join " " (words text)).toList.take 900)
    saidAt := some hit.saidAt }

/-- `run.count_check`. -/
def RecallRun.countCheck (n : Nat) (run : RecallRun) : Option CountCheck :=
  if run.sub.shape = .count ∧ run.aggregate.isSome then
    SecondMind.countCheck lib settings run.sub
      (run.candidates lib settings score n) run.counted
  else none

/-- All that the part at position `n` puts forward, in order. -/
def RecallRun.brought (n : Nat) (run : RecallRun) : List Evidence :=
  (run.selection lib settings score reranked n).selected.filterMap (selectedEvidence lib run) ++
    (((run.countCheck lib settings score n).map (·.extraIds)).getD []).filterMap
      (lookAlikeEvidence lib) ++
    (run.said.take 3).map (saidEvidence lib)

/-- `add`: what has the target already stands for it. -/
def addEvidence (evidence : List Evidence) (ev : Evidence) : List Evidence × Evidence :=
  match ev.target.bind fun target => evidence.find? (·.target = some target) with
  | some old => (evidence, old)
  | none =>
    let ev := { ev with marker := evidence.length + 1 }
    (evidence ++ [ev], ev)

/-- The evidence that one part puts forward, added one after the other. -/
def addAll (evidence : List Evidence) : List Evidence → List Evidence × List Evidence
  | [] => (evidence, [])
  | ev :: evs =>
    let added := addEvidence evidence ev
    let rest := addAll added.1 evs
    (rest.1, added.2 :: rest.2)

/-- `_parts`, from the part at position `n` on: the evidence, and the parts. -/
def partsFrom (n : Nat) (evidence : List Evidence) :
    List RecallRun → List Evidence × List AnswerPart
  | [] => (evidence, [])
  | run :: runs =>
    let added := addAll evidence (run.brought lib settings score reranked n)
    let part : AnswerPart :=
      { sub := run.sub
        relaxed := run.relaxed
        anchor := run.anchor
        more := (run.selection lib settings score reranked n).more
        evidence := added.2
        count := if run.sub.shape = .count then run.aggregate.bind (·.value) else none
        countNote := ((run.countCheck lib settings score n).map (·.note)).getD "" }
    let rest := partsFrom (n + 1) added.1 runs
    (rest.1, part :: rest.2)

/-- `_parts`. -/
def partsOf (runs : List RecallRun) : List Evidence × List AnswerPart :=
  partsFrom lib settings score reranked 0 [] runs

/-! ## What the answer reports -/

/-- **What is counted is shown**: every item of a count that the answer reports is in the evidence,
and marked as counted. -/
def CountedShown (runs : List RecallRun) : Prop :=
  ∀ run ∈ runs, run.sub.shape = .count → ∀ agg ∈ run.aggregate, agg.value ≠ none →
    ∀ itemId ∈ agg.itemIds, ∃ ev ∈ (partsOf lib settings score reranked runs).1,
      ev.item.map (·.id) = some itemId ∧ ev.counted = true

/-- The part at position `n` brings the item, or a turn with its id. -/
def RecallRun.Brings (n : Nat) (run : RecallRun) (itemId : Uuid) : Prop :=
  ∃ ev ∈ run.brought lib settings score reranked n, ev.target = some itemId

/-- The part counts the item. -/
def RecallRun.Counts (run : RecallRun) (itemId : Uuid) : Prop :=
  run.sub.shape = .count ∧ itemId ∈ run.counted

/-- The first part that brings the item, from position `n` on, is one that counts it. -/
def FirstCounts (n : Nat) (itemId : Uuid) : List RecallRun → Prop
  | [] => False
  | run :: runs =>
    (run.Brings lib settings score reranked n itemId ∧ run.Counts itemId) ∨
      (¬ run.Brings lib settings score reranked n itemId ∧ FirstCounts (n + 1) itemId runs)

/-- All that the parts put forward, from position `n` on. -/
def broughtFrom (n : Nat) : List RecallRun → List Evidence
  | [] => []
  | run :: runs => run.brought lib settings score reranked n ++ broughtFrom (n + 1) runs

section

variable {lib : RecallLib} {settings : RecallSettings} {score : Nat → Rerank} {reranked : Bool}

/-! ### Adding evidence -/

/-- What the answer sees of a piece of evidence, its number apart. -/
def Evidence.seen (ev : Evidence) : Option ItemRecord × Bool := (ev.item, ev.counted)

/-- No target has two pieces of evidence. -/
def Single (evidence : List Evidence) : Prop :=
  ∀ ev ∈ evidence, ∀ target, ev.target = some target →
    evidence.find? (·.target = some target) = some ev

theorem addEvidence_find (evidence : List Evidence) (ev : Evidence) (target : Uuid) :
    ((addEvidence evidence ev).1.find? (·.target = some target)).map Evidence.seen =
      ((evidence ++ [ev]).find? (·.target = some target)).map Evidence.seen := by
  unfold addEvidence
  rw [List.find?_append]
  split
  · rename_i old hold
    obtain ⟨t, ht, hfind⟩ := Option.bind_eq_some_iff.1 hold
    by_cases hsame : ev.target = some target
    · obtain rfl : t = target := Option.some.inj (ht.symm.trans hsame)
      rw [hfind, Option.some_or]
    · rw [List.find?_singleton, if_neg (by simpa using hsame), Option.or_none]
  · rw [List.find?_append, Option.map_or, Option.map_or, List.find?_singleton, List.find?_singleton]
    congr 1
    have htarget : Evidence.target { ev with marker := evidence.length + 1 } = ev.target := rfl
    rw [htarget]
    split <;> rfl

theorem addEvidence_single {evidence : List Evidence} (h : Single evidence) (ev : Evidence) :
    Single (addEvidence evidence ev).1 := by
  unfold addEvidence
  split
  · exact h
  · rename_i hnone
    intro e he target htarget
    rw [List.find?_append]
    rcases List.mem_append.1 he with he | he
    · rw [h e he target htarget, Option.some_or]
    · obtain rfl := List.mem_singleton.1 he
      have hev : ev.target = some target := htarget
      rw [hev, Option.bind_some] at hnone
      rw [hnone, Option.none_or, List.find?_singleton, if_pos (by simpa using htarget)]

theorem addAll_find (evs : List Evidence) (evidence : List Evidence) (target : Uuid) :
    ((addAll evidence evs).1.find? (·.target = some target)).map Evidence.seen =
      ((evidence ++ evs).find? (·.target = some target)).map Evidence.seen := by
  induction evs generalizing evidence with
  | nil => rw [List.append_nil]; rfl
  | cons ev evs ih =>
    rw [addAll, ih, List.find?_append, Option.map_or, addEvidence_find, ← Option.map_or,
      ← List.find?_append, List.append_assoc]
    rfl

theorem addAll_single {evidence : List Evidence} (h : Single evidence) (evs : List Evidence) :
    Single (addAll evidence evs).1 := by
  induction evs generalizing evidence with
  | nil => exact h
  | cons ev evs ih => exact ih (addEvidence_single h ev)

/-- **The evidence of a target** is the first that any part puts forward. -/
theorem partsFrom_find (runs : List RecallRun) (n : Nat) (evidence : List Evidence)
    (target : Uuid) :
    ((partsFrom lib settings score reranked n evidence runs).1.find?
        (·.target = some target)).map Evidence.seen =
      ((evidence ++ broughtFrom lib settings score reranked n runs).find?
        (·.target = some target)).map Evidence.seen := by
  induction runs generalizing n evidence with
  | nil => rw [broughtFrom, List.append_nil]; rfl
  | cons run runs ih =>
    rw [partsFrom, ih, List.find?_append, Option.map_or, addAll_find, ← Option.map_or,
      ← List.find?_append, broughtFrom, List.append_assoc]

theorem partsFrom_single {evidence : List Evidence} (h : Single evidence) (runs : List RecallRun)
    (n : Nat) : Single (partsFrom lib settings score reranked n evidence runs).1 := by
  induction runs generalizing n evidence with
  | nil => exact h
  | cons run runs ih => exact ih (addAll_single h _) _

variable (lib settings score reranked) in
theorem partsOf_find (runs : List RecallRun) (target : Uuid) :
    ((partsOf lib settings score reranked runs).1.find? (·.target = some target)).map
        Evidence.seen =
      ((broughtFrom lib settings score reranked 0 runs).find? (·.target = some target)).map
        Evidence.seen :=
  partsFrom_find runs 0 [] target

theorem partsOf_single (runs : List RecallRun) :
    Single (partsOf lib settings score reranked runs).1 :=
  partsFrom_single (fun _ hev => absurd hev List.not_mem_nil) runs 0

/-! ### What one part brings -/

/-- The evidence shows the item as a counted one. -/
def Evidence.ShowsCounted (itemId : Uuid) (ev : Evidence) : Prop :=
  ev.item.map (·.id) = some itemId ∧ ev.counted = true

theorem Evidence.target_of_item {ev : Evidence} {itemId : Uuid}
    (h : ev.item.map (·.id) = some itemId) : ev.target = some itemId := by
  rw [Evidence.target, h, Option.some_or]

theorem Evidence.showsCounted_of_seen {ev ev' : Evidence} (h : ev.seen = ev'.seen)
    {itemId : Uuid} (hshows : ev.ShowsCounted itemId) : ev'.ShowsCounted itemId := by
  obtain ⟨hitem, hcounted⟩ := Prod.mk.inj h
  exact ⟨hitem ▸ hshows.1, hcounted ▸ hshows.2⟩

variable {run : RecallRun} {n : Nat} {itemId : Uuid}

theorem selectedEvidence_spec {c : Candidate} {ev : Evidence}
    (h : selectedEvidence lib run c = some ev) :
    ev.item.map (·.id) = some c.itemId ∧ ev.counted = decide (run.sub.shape = .count) ∧
      lib.items c.itemId ≠ none := by
  obtain ⟨item, hitem, rfl⟩ := Option.map_eq_some_iff.1 h
  refine ⟨?_, rfl, by simp [hitem]⟩
  rw [Option.map_some, lib.items_id _ _ hitem]

theorem lookAlikeEvidence_spec {target : Uuid} {ev : Evidence}
    (h : lookAlikeEvidence lib target = some ev) :
    ev.counted = false ∧ ∀ item ∈ ev.item, lib.items item.id ≠ none := by
  obtain ⟨item, hitem, rfl⟩ := Option.map_eq_some_iff.1 h
  refine ⟨rfl, ?_⟩
  intro item' hitem'
  obtain rfl := Option.some.inj hitem'
  rw [lib.items_id _ _ hitem, hitem]
  exact Option.some_ne_none _

theorem mem_brought {ev : Evidence} (h : ev ∈ run.brought lib settings score reranked n) :
    (∃ c ∈ (run.selection lib settings score reranked n).selected,
      selectedEvidence lib run c = some ev) ∨
      ev.counted = false ∧ ∀ item ∈ ev.item, lib.items item.id ≠ none := by
  rcases List.mem_append.1 h with h | h
  · rcases List.mem_append.1 h with h | h
    · exact .inl (List.mem_filterMap.1 h)
    · obtain ⟨target, -, hev⟩ := List.mem_filterMap.1 h
      exact .inr (lookAlikeEvidence_spec hev)
  · obtain ⟨hit, -, rfl⟩ := List.mem_map.1 h
    exact .inr ⟨rfl, fun item hitem => absurd hitem (Option.not_mem_none item)⟩

/-- What a part brings is there. -/
theorem brought_known {ev : Evidence} (h : ev ∈ run.brought lib settings score reranked n)
    (hitem : ev.item.map (·.id) = some itemId) : lib.items itemId ≠ none := by
  rcases mem_brought h with ⟨c, -, hev⟩ | ⟨-, hknown⟩
  · obtain ⟨hid, -, hknown⟩ := selectedEvidence_spec hev
    rwa [Option.some.inj (hid.symm.trans hitem)] at hknown
  · obtain ⟨item, hmem, rfl⟩ := Option.map_eq_some_iff.1 hitem
    exact hknown item hmem

/-- A count selects nothing but what it counted. -/
theorem selection_counts (hshape : run.sub.shape = .count) {c : Candidate}
    (h : c ∈ (run.selection lib settings score reranked n).selected) : run.Counts c.itemId := by
  unfold RecallRun.selection select at h
  split at h
  · exact absurd h List.not_mem_nil
  · have hmem := List.mem_filter.1 ((List.mem_insertionSort _).1 h)
    exact ⟨hshape, by simpa using hmem.2⟩

variable (settings score) in
/-- What a tool found is a candidate, as far as it is there. -/
theorem candidates_of_hit (h : ∃ x ∈ run.channels, ∃ hit ∈ x.2, hit.itemId = itemId)
    (hknown : lib.items itemId ≠ none) :
    ∃ c ∈ run.candidates lib settings score n, c.itemId = itemId := by
  obtain ⟨x, hx, hit, hhit, rfl⟩ := h
  have hmem : (x.1, hit) ∈ hitsOf lib.items run.channels :=
    List.mem_filter.2 ⟨List.mem_flatMap.2 ⟨x, hx, List.mem_map.2 ⟨hit, hhit, rfl⟩⟩,
      Option.isSome_iff_ne_none.2 hknown⟩
  exact ⟨_, List.mem_map.2 ⟨_, mem_fuse.2 ⟨_, hmem, rfl⟩, rfl⟩, candidateOf_itemId⟩

variable (settings score reranked) in
/-- A count selects all that it counted, as far as it is there. -/
theorem counted_selected (hcounts : run.Counts itemId) (hknown : lib.items itemId ≠ none) :
    ∃ c ∈ (run.selection lib settings score reranked n).selected, c.itemId = itemId := by
  obtain ⟨hshape, hcounted⟩ := hcounts
  cases hagg : run.aggregate with
  | none =>
    rw [RecallRun.counted, hagg] at hcounted
    exact absurd hcounted List.not_mem_nil
  | some agg =>
    have hmem : itemId ∈ agg.itemIds := by rwa [RecallRun.counted, hagg] at hcounted
    obtain ⟨c, hc, hid⟩ := candidates_of_hit settings score (n := n)
      (run.absorbed agg hagg itemId hmem) hknown
    refine ⟨c, ?_, hid⟩
    unfold RecallRun.selection select
    rw [if_neg (by simp [run.known (by simp [hagg])]), if_pos hshape]
    exact (List.mem_insertionSort _).2 (List.mem_filter.2 ⟨hc, by simpa [hid] using hcounted⟩)

variable (settings score reranked) in
/-- **A part that counts an item brings it as counted**, before anything else about it. -/
theorem brought_counted (hcounts : run.Counts itemId) (hknown : lib.items itemId ≠ none) :
    ∃ ev, (run.brought lib settings score reranked n).find? (·.target = some itemId) = some ev ∧
      ev.ShowsCounted itemId := by
  obtain ⟨c, hc, hid⟩ := counted_selected settings score reranked (n := n) hcounts hknown
  have hshown : ∃ ev ∈ (run.selection lib settings score reranked n).selected.filterMap
      (selectedEvidence lib run), ev.target = some itemId := by
    cases hev : selectedEvidence lib run c with
    | none =>
      rw [← hid] at hknown
      exact absurd (Option.map_eq_none_iff.1 hev) hknown
    | some ev =>
      refine ⟨ev, List.mem_filterMap.2 ⟨c, hc, hev⟩, Evidence.target_of_item ?_⟩
      rw [(selectedEvidence_spec hev).1, hid]
  obtain ⟨ev₀, hev₀, htarget₀⟩ := hshown
  obtain ⟨ev, hfind⟩ : ∃ ev, ((run.selection lib settings score reranked n).selected.filterMap
      (selectedEvidence lib run)).find? (·.target = some itemId) = some ev :=
    Option.isSome_iff_exists.1 (List.find?_isSome.2 ⟨ev₀, hev₀, decide_eq_true htarget₀⟩)
  refine ⟨ev, ?_, ?_⟩
  · rw [RecallRun.brought, List.append_assoc, List.find?_append, hfind, Option.some_or]
  · obtain ⟨d, -, hev⟩ := List.mem_filterMap.1 (List.mem_of_find?_eq_some hfind)
    obtain ⟨hitem, hmark, -⟩ := selectedEvidence_spec hev
    have htarget := Evidence.target_of_item hitem
    have hsame : ev.target = some itemId := by simpa using List.find?_some hfind
    exact ⟨hitem.trans (htarget.symm.trans hsame), by rw [hmark, decide_eq_true hcounts.1]⟩

/-- A part that does not count an item does not mark it. -/
theorem brought_unmarked (hnot : ¬ run.Counts itemId) {ev : Evidence}
    (h : ev ∈ run.brought lib settings score reranked n) : ¬ ev.ShowsCounted itemId := by
  rintro ⟨hitem, hcounted⟩
  rcases mem_brought h with ⟨c, hc, hev⟩ | ⟨hunmarked, -⟩
  · obtain ⟨hid, hmark, -⟩ := selectedEvidence_spec hev
    obtain rfl := Option.some.inj (hid.symm.trans hitem)
    exact hnot (selection_counts (of_decide_eq_true (hmark.symm.trans hcounted)) hc)
  · exact Bool.false_ne_true (hunmarked.symm.trans hcounted)

/-! ### What all parts bring -/

theorem broughtFrom_known {runs : List RecallRun} {ev : Evidence}
    (h : ev ∈ broughtFrom lib settings score reranked n runs)
    (hitem : ev.item.map (·.id) = some itemId) : lib.items itemId ≠ none := by
  induction runs generalizing n with
  | nil => exact absurd h List.not_mem_nil
  | cons run runs ih =>
    rcases List.mem_append.1 h with h | h
    · exact brought_known h hitem
    · exact ih h

/-- **The first evidence of an item is a counted one** just when the first part that brings it
counts it. -/
theorem broughtFrom_counted (hknown : lib.items itemId ≠ none) (runs : List RecallRun) (n : Nat) :
    (∃ ev, (broughtFrom lib settings score reranked n runs).find? (·.target = some itemId) =
        some ev ∧ ev.ShowsCounted itemId) ↔
      FirstCounts lib settings score reranked n itemId runs := by
  induction runs generalizing n with
  | nil => simp [broughtFrom, FirstCounts]
  | cons run runs ih =>
    rw [broughtFrom, FirstCounts, List.find?_append]
    cases hfind : (run.brought lib settings score reranked n).find? (·.target = some itemId) with
    | none =>
      have hnot : ¬ run.Brings lib settings score reranked n itemId := by
        rintro ⟨ev, hev, htarget⟩
        exact absurd htarget (by simpa using List.find?_eq_none.1 hfind ev hev)
      rw [Option.none_or, ih]
      simp [hnot]
    | some ev =>
      have hmem := List.mem_of_find?_eq_some hfind
      have hbrings : run.Brings lib settings score reranked n itemId :=
        ⟨ev, hmem, by simpa using List.find?_some hfind⟩
      rw [Option.some_or]
      by_cases hcounts : run.Counts itemId
      · obtain ⟨ev', hfind', hshows⟩ := brought_counted settings score reranked (n := n)
          hcounts hknown
        obtain rfl := Option.some.inj (hfind.symm.trans hfind')
        exact iff_of_true ⟨ev, rfl, hshows⟩ (.inl ⟨hbrings, hcounts⟩)
      · refine iff_of_false ?_ (by simp [hbrings, hcounts])
        rintro ⟨ev', hev', hshows⟩
        obtain rfl := Option.some.inj hev'
        exact brought_unmarked hcounts hmem hshows

/-- **An item is shown as counted** just when it is there and the first part that brings it counts
it. -/
theorem shown_counted_iff (runs : List RecallRun) (itemId : Uuid) :
    (∃ ev ∈ (partsOf lib settings score reranked runs).1, ev.ShowsCounted itemId) ↔
      lib.items itemId ≠ none ∧ FirstCounts lib settings score reranked 0 itemId runs := by
  have hfind := partsOf_find lib settings score reranked runs itemId
  constructor
  · rintro ⟨ev, hev, hshows⟩
    rw [partsOf_single runs ev hev itemId (Evidence.target_of_item hshows.1)] at hfind
    obtain ⟨ev', hfind', hseen⟩ := Option.map_eq_some_iff.1 hfind.symm
    have hshows' := Evidence.showsCounted_of_seen hseen.symm hshows
    have hknown := broughtFrom_known (List.mem_of_find?_eq_some hfind') hshows'.1
    exact ⟨hknown, (broughtFrom_counted hknown runs 0).1 ⟨ev', hfind', hshows'⟩⟩
  · rintro ⟨hknown, hfirst⟩
    obtain ⟨ev', hfind', hshows⟩ := (broughtFrom_counted hknown runs 0).2 hfirst
    rw [hfind'] at hfind
    obtain ⟨ev, hev, hseen⟩ := Option.map_eq_some_iff.1 hfind
    exact ⟨ev, List.mem_of_find?_eq_some hev, Evidence.showsCounted_of_seen hseen.symm hshows⟩

end

/-- The counted items of the plan are there, and no part that does not count them brings them
first. -/
def CountedFirst (runs : List RecallRun) : Prop :=
  ∀ run ∈ runs, run.sub.shape = .count → ∀ agg ∈ run.aggregate, agg.value ≠ none →
    ∀ itemId ∈ agg.itemIds,
      lib.items itemId ≠ none ∧ FirstCounts lib settings score reranked 0 itemId runs

/-- **What is counted is shown** just when no other part brings it before a count does. -/
theorem counted_shown_iff (runs : List RecallRun) :
    CountedShown lib settings score reranked runs ↔
      CountedFirst lib settings score reranked runs := by
  constructor
  · intro hshown run hrun hshape agg hagg hvalue itemId hid
    exact (shown_counted_iff runs itemId).1 (hshown run hrun hshape agg hagg hvalue itemId hid)
  · intro hfirst run hrun hshape agg hagg hvalue itemId hid
    exact (shown_counted_iff runs itemId).2 (hfirst run hrun hshape agg hagg hvalue itemId hid)

/-- The one run that is stored. -/
def runsLib : RecallLib where
  items itemId := if itemId = knownItem.id then some knownItem else none
  items_id itemId item h := by
    split at h
    · rename_i hid
      rw [← Option.some.inj h, hid]
    · exact absurd h.symm (Option.some_ne_none item)
  lower text := text
  fixed _ _ := "0.02"
  excerpt text _ := text
  day _ := "Friday"
  saidIn _ := none

/-- "Which runs did I log?": the list finds the run. -/
def listedRuns : RecallRun where
  sub := { shape := .list, question := "which runs did I log?" }
  channels := [("structured", [{ itemId := knownItem.id, rank := Nat.succPNat 0 }])]
  absorbed _ hagg := absurd hagg (Option.not_mem_none _)
  known h := absurd rfl h

/-- "How many were they?": the count counts it. -/
def countedRuns : RecallRun where
  sub := { shape := .count, question := "how many were they?" }
  channels := [("aggregate", [{ itemId := knownItem.id, rank := Nat.succPNat 0 }])]
  aggregate := some ⟨some 1, [knownItem.id]⟩
  absorbed _ hagg := by
    intro itemId hid
    obtain rfl := Option.some.inj hagg
    exact ⟨_, List.mem_singleton_self _, _, List.mem_singleton_self _,
      (List.mem_singleton.1 hid).symm⟩
  known _ := rfl

/-- A run that a list brought is not marked, though the count that follows counts it. -/
theorem listed_run_unmarked :
    ¬ ∀ (lib : RecallLib) (settings : RecallSettings) (score : Nat → Rerank) (reranked : Bool)
        (runs : List RecallRun), CountedShown lib settings score reranked runs := by
  intro h
  obtain ⟨ev, hev, -, hcounted⟩ := h runsLib {} (fun _ _ => none) false
    [listedRuns, countedRuns] countedRuns (List.mem_cons_of_mem _ (List.mem_singleton_self _)) rfl
    _ rfl (Option.some_ne_none _) knownItem.id (List.mem_singleton_self _)
  have hunmarked : (partsOf runsLib {} (fun _ _ => none) false [listedRuns, countedRuns]).1.all
      (!·.counted) = true := by decide +kernel
  have hnot := List.all_eq_true.1 hunmarked ev hev
  rw [hcounted] at hnot
  exact Bool.noConfusion hnot

end SecondMind
