import SecondMind.Ingestion.TimeWindows
import SecondMind.Retrieval.Fusion

/-!
# Selection

`select` of `retrieval/select.py`: what of the fused candidates of a sub-query reaches the answer.

* `SubQuery` — a resolved part of the plan, as far as the retrieval reads it;
* `selectList`, `selectRanked` and `select` — the branches of the selection;
* `SubQuery.admits` — what the bar of the shape lets through;
* `mem_selectList`, `mem_selectRanked` — what is chosen, and what is left out;
* `keeps_current_iff` — when an old row can take the place of a current one;
* `old_crowds_out` — eight old rows and a current one.
-/

namespace SecondMind

/-- `TimeClock`, with the clock that only recall filters on. -/
inductive RecallClock
  | occurred | valid | due | trigger | mentioned
  deriving DecidableEq, Repr

/-- `WindowFilter`. -/
structure WindowFilter where
  clock : RecallClock
  start : Option Instant
  stop : Option Instant
  deriving DecidableEq

/-- `Filters`.  Empty means that it is not filtered on. -/
structure Filters where
  kinds : List Kind := []
  subtypes : List String := []
  states : List String := []
  category : Option String := none
  entityIds : List Uuid := []
  roles : List EntityRole := []
  predicate : Option String := none
  «attribute» : Option (String × String) := none
  window : Option WindowFilter := none
  currentOnly : Bool := false
  deriving DecidableEq

/-- `Expansion`, of which only the source is read. -/
inductive ExpansionSource
  | planner | code
  deriving DecidableEq, Repr

/-- `SubQuery`. -/
structure SubQuery where
  shape : Shape
  question : String := ""
  filters : Filters := {}
  windows : List Time.RecallWindow := []
  expansion : Option ExpansionSource := none
  missingEntity : Bool := false

/-- `window`. -/
def SubQuery.window (sub : SubQuery) : Option Time.RecallWindow := sub.windows.head?

/-- `LIST_LIKE`. -/
def listLike : List Shape := [.list, .set, .timeWindow, .situational]

structure SelectSettings where
  rerankMinScore : Rat := 1 / 2
  answerTopK : Nat := 8
  listMaxItems : Nat := 20
  countCheckMinScore : Rat := 3 / 5

/-- `Selection`, with the reason that is written on each candidate. -/
structure Selection where
  selected : List Candidate
  more : Nat := 0
  reason : Candidate → String

/-- The lexical score is there and is not zero. -/
def Candidate.sharesWord (c : Candidate) : Bool := c.lexical.getD 0 ≠ 0

/-- `_passes`. -/
def passes (c : Candidate) (reranked : Bool) (settings : SelectSettings) : Bool :=
  match c.rerankScore with
  | some score => if reranked then settings.rerankMinScore ≤ score else c.sharesWord
  | none => c.sharesWord

/-- `_in_window`. -/
def inWindow (sub : SubQuery) (item : ItemContent) : Bool :=
  match sub.window with
  | none => true
  | some window =>
    ([item.occurredStart, item.dueAt, some item.mentionedAt].filterMap id).any window.contains

/-- `_current_first`. -/
def currentFirst (chosen : List Candidate) : List Candidate :=
  let current := chosen.filter (!·.demoted)
  if current ≠ [] then current else chosen

/-- `EARLIER`. -/
def earlier : String := "an earlier value: a current one is cited"

section

-- Python's `:.2f` and `:.3f`
variable (fixed : Nat → Rat → String)

/-- `_score_reason`. -/
def scoreReason (c : Candidate) (reranked : Bool) (lead : String) : String :=
  match reranked, c.rerankScore with
  | true, some score => s!"{lead}: rerank {fixed 2 score}"
  | _, _ => s!"{lead}: fused {fixed 3 c.fused}" ++ if c.sharesWord then "" else ", no shared words"

/-- `joins`: a soft-only extra of a list. -/
def joins (sub : SubQuery) (reranked : Bool) (settings : SelectSettings)
    (items : Uuid → Option ItemRecord) (c : Candidate) : Bool :=
  if !(c.softOnly && passes c reranked settings) then false
  else if sub.shape = .set then false
  else
    !(sub.shape = .timeWindow &&
      (items c.itemId).any fun item => !inWindow sub item.toItemContent)

/-- `_select_list`. -/
def selectList (sub : SubQuery) (candidates : List Candidate) (reranked : Bool)
    (settings : SelectSettings) (items : Uuid → Option ItemRecord) : Selection :=
  let base := currentFirst (candidates.filter (·.filtered))
  let extras := candidates.filter (joins sub reranked settings items)
  let kept := base.take settings.listMaxItems
  let chosen := kept ++ extras.take settings.answerTopK
  { selected := chosen
    more := base.length - kept.length
    reason := fun c =>
      if c ∈ kept then "found by " ++ ", ".intercalate ((c.foundBy.map (·.1)).insertionSort (· ≤ ·))
      else if c ∈ chosen then scoreReason fixed c reranked "soft-only extra"
      else if c ∈ base then s!"over the list limit of {settings.listMaxItems}"
      else if c.demoted && c.filtered then earlier
      else scoreReason fixed c reranked "below the bar" }

/-- The candidates a ranked answer may choose from, best first. -/
def pool (candidates : List Candidate) (reranked : Bool) (settings : SelectSettings) :
    List Candidate :=
  if reranked then
    (candidates.insertionSort fun c d => d.rerankScore.getD (-1) ≤ c.rerankScore.getD (-1)).filter
      fun c => c.rerankScore.any (settings.rerankMinScore ≤ ·)
  else candidates.filter fun c => c.filtered || c.sharesWord

/-- `_select_ranked`. -/
def selectRanked (candidates : List Candidate) (reranked : Bool) (settings : SelectSettings) :
    Selection :=
  let chosen := currentFirst ((pool candidates reranked settings).take settings.answerTopK)
  { selected := chosen
    reason := fun c =>
      if c ∉ chosen ∧ c.demoted ∧ reranked ∧ passes c reranked settings then earlier
      else scoreReason fixed c reranked (if c ∈ chosen then "selected" else "not selected") }

/-- The sub-query is answered by a list. -/
def SubQuery.asksList (sub : SubQuery) : Bool :=
  sub.shape ∈ listLike ∨ sub.expansion = some .code

/-- `select`. -/
def select (sub : SubQuery) (candidates : List Candidate) (reranked : Bool)
    (settings : SelectSettings) (counted : List Uuid) (items : Uuid → Option ItemRecord) :
    Selection :=
  if sub.missingEntity then
    { selected := [], reason := fun _ => "the person or thing asked about isn't known" }
  else if sub.shape = .count then
    { selected := (candidates.filter (·.itemId ∈ counted)).insertionSort fun c d =>
        counted.idxOf c.itemId ≤ counted.idxOf d.itemId
      reason := fun c => if c.itemId ∈ counted then "counted, so cited" else "not counted" }
  else if sub.asksList then selectList fixed sub candidates reranked settings items
  else selectRanked fixed candidates reranked settings

end

/-! ## What the bar lets through -/

/-- The bar of the sub-query's shape lets the candidate through: a count its counted items, a list
all that a filtered tool found and the extras that join, and a ranked answer what scores enough. -/
def SubQuery.admits (sub : SubQuery) (reranked : Bool) (settings : SelectSettings)
    (counted : List Uuid) (items : Uuid → Option ItemRecord) (c : Candidate) : Bool :=
  if sub.missingEntity then false
  else if sub.shape = .count then c.itemId ∈ counted
  else if sub.asksList then c.filtered || joins sub reranked settings items c
  else if reranked then c.rerankScore.any (settings.rerankMinScore ≤ ·)
  else c.filtered || c.sharesWord

/-- **The law**: an old row is evidence only if no current candidate that the bar let through is
left out. -/
def KeepsCurrent (candidates : List Candidate) (admits : Candidate → Bool)
    (selected : List Candidate) : Prop :=
  (∃ c ∈ selected, c.demoted = true) →
    ∀ c ∈ candidates, c.demoted = false → admits c = true → c ∈ selected

/-- In a list: an old row is kept, or joins among the first extras. -/
def ListShowsOld (candidates extras : List Candidate) (settings : SelectSettings) : Prop :=
  ((∀ c ∈ candidates.filter (·.filtered), c.demoted = true) ∧
    (candidates.filter (·.filtered)).take settings.listMaxItems ≠ []) ∨
  ∃ c ∈ extras.take settings.answerTopK, c.demoted = true

/-- In a list: there are more current rows than fit, or a current extra comes too late. -/
def ListDropsCurrent (candidates extras : List Candidate) (settings : SelectSettings) : Prop :=
  settings.listMaxItems < (candidates.filter fun c => c.filtered && !c.demoted).length ∨
    ∃ c ∈ extras.drop settings.answerTopK, c.demoted = false

/-- In a ranked answer: the best that fit are all old, and one that does not fit is current. -/
def RankedDropsCurrent (best : List Candidate) (settings : SelectSettings) : Prop :=
  best.take settings.answerTopK ≠ [] ∧ (∀ c ∈ best.take settings.answerTopK, c.demoted = true) ∧
    ∃ c ∈ best.drop settings.answerTopK, c.demoted = false

/-- An old row can crowd out a current one. -/
def SubQuery.CrowdsOut (sub : SubQuery) (candidates : List Candidate) (reranked : Bool)
    (settings : SelectSettings) (items : Uuid → Option ItemRecord) : Prop :=
  sub.missingEntity = false ∧ sub.shape ≠ .count ∧
    if sub.asksList then
      let extras := candidates.filter (joins sub reranked settings items)
      ListShowsOld candidates extras settings ∧ ListDropsCurrent candidates extras settings
    else RankedDropsCurrent (pool candidates reranked settings) settings

/-! ## What is chosen -/

theorem mem_currentFirst {chosen : List Candidate} {c : Candidate} :
    c ∈ currentFirst chosen ↔
      c ∈ chosen ∧ (c.demoted = false ∨ ∀ d ∈ chosen, d.demoted = true) := by
  unfold currentFirst
  dsimp only
  split
  · rename_i hcurrent
    obtain ⟨d, hd⟩ := List.exists_mem_of_ne_nil _ hcurrent
    have hnot : ¬ ∀ d ∈ chosen, d.demoted = true := fun hall => by
      obtain ⟨hd, hcurrent⟩ := List.mem_filter.1 hd
      simp [hall d hd] at hcurrent
    simp [hnot]
  · rename_i hnone
    have hall : ∀ d ∈ chosen, d.demoted = true := by
      simpa using Decidable.not_not.1 hnone
    exact (and_iff_left (.inr hall)).symm

/-- Old rows are first only where there is no current one. -/
theorem exists_old_currentFirst {chosen : List Candidate} :
    (∃ c ∈ currentFirst chosen, c.demoted = true) ↔
      chosen ≠ [] ∧ ∀ c ∈ chosen, c.demoted = true := by
  constructor
  · rintro ⟨c, hc, hold⟩
    obtain ⟨hc, hcurrent | hall⟩ := mem_currentFirst.1 hc
    · rw [hold] at hcurrent
      exact absurd hcurrent Bool.noConfusion
    · exact ⟨List.ne_nil_of_mem hc, hall⟩
  · rintro ⟨hne, hall⟩
    obtain ⟨c, hc⟩ := List.exists_mem_of_ne_nil _ hne
    exact ⟨c, mem_currentFirst.2 ⟨hc, .inr hall⟩, hall c hc⟩

/-- What is not among the first of a list without repetitions comes later. -/
theorem notMem_take_iff {α : Type} {l : List α} (hnodup : l.Nodup) {n : Nat} {x : α} (hx : x ∈ l) :
    x ∉ l.take n ↔ x ∈ l.drop n := by
  have hsplit : x ∈ l.take n ++ l.drop n := by rwa [List.take_append_drop]
  rw [← List.take_append_drop n l] at hnodup
  constructor
  · intro hnot
    exact (List.mem_append.1 hsplit).resolve_left hnot
  · intro hdrop htake
    exact List.disjoint_of_nodup_append hnodup htake hdrop

theorem softOnly_not_filtered {c : Candidate} (h : c.softOnly = true) : c.filtered = false := by
  have hall : c.foundBy.all (·.1 = soft) = true := (of_decide_eq_true h).2
  rw [List.all_eq_true] at hall
  refine List.any_eq_false.2 fun e he => ?_
  simpa using hall e he

theorem joins_not_filtered {sub : SubQuery} {reranked : Bool} {settings : SelectSettings}
    {items : Uuid → Option ItemRecord} {c : Candidate}
    (h : joins sub reranked settings items c = true) : c.filtered = false := by
  unfold joins at h
  split at h
  · exact absurd h Bool.noConfusion
  · rename_i hpasses
    exact softOnly_not_filtered (by simp_all)

/-- The law, said of the two things that can go wrong together. -/
theorem keepsCurrent_iff {candidates selected : List Candidate} {admits : Candidate → Bool} :
    KeepsCurrent candidates admits selected ↔
      ¬ ((∃ c ∈ selected, c.demoted = true) ∧
        ∃ c ∈ candidates, c.demoted = false ∧ admits c = true ∧ c ∉ selected) := by
  unfold KeepsCurrent
  constructor
  · rintro h ⟨hold, c, hc, hcurrent, hadmits, hnot⟩
    exact hnot (h hold c hc hcurrent hadmits)
  · intro h hold c hc hcurrent hadmits
    by_contra hnot
    exact h ⟨hold, c, hc, hcurrent, hadmits, hnot⟩

section

variable {fixed : Nat → Rat → String} {sub : SubQuery} {candidates : List Candidate}
  {reranked : Bool} {settings : SelectSettings} {items : Uuid → Option ItemRecord}

/-! ### Lists -/

/-- **An old row in a list** was kept for want of a current one, or is an extra. -/
theorem exists_old_selectList :
    (∃ c ∈ (selectList fixed sub candidates reranked settings items).selected, c.demoted = true) ↔
      ListShowsOld candidates (candidates.filter (joins sub reranked settings items)) settings := by
  have hkept : (∃ c ∈ (currentFirst (candidates.filter (·.filtered))).take settings.listMaxItems,
        c.demoted = true) ↔
      (∀ c ∈ candidates.filter (·.filtered), c.demoted = true) ∧
        (candidates.filter (·.filtered)).take settings.listMaxItems ≠ [] := by
    by_cases hall : ∀ c ∈ candidates.filter (·.filtered), c.demoted = true
    · have hnone : (candidates.filter (·.filtered)).filter (!·.demoted) = [] := by
        refine List.filter_eq_nil_iff.2 fun c hc => ?_
        simp [hall c hc]
      rw [currentFirst, if_neg (not_not_intro hnone), and_iff_right hall]
      constructor
      · rintro ⟨c, hc, -⟩
        exact List.ne_nil_of_mem hc
      · intro hne
        obtain ⟨c, hc⟩ := List.exists_mem_of_ne_nil _ hne
        exact ⟨c, hc, hall c (List.mem_of_mem_take hc)⟩
    · refine iff_of_false (fun hold => hall ?_) fun h => hall h.1
      obtain ⟨c, hc, hold⟩ := hold
      exact (exists_old_currentFirst.1 ⟨c, List.mem_of_mem_take hc, hold⟩).2
  unfold ListShowsOld
  rw [← hkept]
  simp only [selectList, List.mem_append, or_and_right, exists_or]

/-- **A current row that a list leaves out** is over its limit, or an extra that comes too late. -/
theorem exists_dropped_selectList (hnodup : candidates.Nodup) :
    (∃ c ∈ candidates, c.demoted = false ∧
        (c.filtered || joins sub reranked settings items c) = true ∧
        c ∉ (selectList fixed sub candidates reranked settings items).selected) ↔
      ListDropsCurrent candidates (candidates.filter (joins sub reranked settings items))
        settings := by
  have hcurrent : (candidates.filter (·.filtered)).filter (!·.demoted) =
      candidates.filter fun c => c.filtered && !c.demoted := by
    rw [List.filter_filter]
    exact List.filter_congr fun c _ => Bool.and_comm _ _
  have hnodupCurrent : (candidates.filter fun c => c.filtered && !c.demoted).Nodup :=
    hnodup.filter _
  have hnodupExtras : (candidates.filter (joins sub reranked settings items)).Nodup :=
    hnodup.filter _
  constructor
  · rintro ⟨c, hc, hdemoted, hadmits, hnot⟩
    simp only [selectList, List.mem_append, not_or] at hnot
    obtain ⟨hkept, hextra⟩ := hnot
    rcases Bool.or_eq_true_iff.1 hadmits with hfiltered | hjoins
    · have hmem : c ∈ candidates.filter fun c => c.filtered && !c.demoted :=
        List.mem_filter.2 ⟨hc, by simp [hfiltered, hdemoted]⟩
      rw [currentFirst, hcurrent, if_pos (List.ne_nil_of_mem hmem)] at hkept
      have hdrop := (notMem_take_iff hnodupCurrent hmem).1 hkept
      refine .inl ?_
      have hlength := List.length_pos_of_mem hdrop
      rw [List.length_drop] at hlength
      omega
    · have hmem : c ∈ candidates.filter (joins sub reranked settings items) :=
        List.mem_filter.2 ⟨hc, hjoins⟩
      exact .inr ⟨c, (notMem_take_iff hnodupExtras hmem).1 hextra, hdemoted⟩
  · rintro (hlong | ⟨c, hdrop, hdemoted⟩)
    · have hne : (candidates.filter fun c => c.filtered && !c.demoted).drop
          settings.listMaxItems ≠ [] := by
        rw [Ne, List.drop_eq_nil_iff]
        omega
      obtain ⟨c, hdrop⟩ := List.exists_mem_of_ne_nil _ hne
      have hmem := List.mem_of_mem_drop hdrop
      obtain ⟨hc, hkind⟩ := List.mem_filter.1 hmem
      obtain ⟨hfiltered, hdemoted⟩ := Bool.and_eq_true_iff.1 hkind
      refine ⟨c, hc, by simpa using hdemoted, by simp [hfiltered], ?_⟩
      simp only [selectList, List.mem_append, not_or]
      rw [currentFirst, hcurrent, if_pos (List.ne_nil_of_mem hmem)]
      refine ⟨(notMem_take_iff hnodupCurrent hmem).2 hdrop, fun hextra => ?_⟩
      have hjoins := (List.mem_filter.1 (List.mem_of_mem_take hextra)).2
      rw [joins_not_filtered hjoins] at hfiltered
      exact absurd hfiltered Bool.noConfusion
    · have hmem := List.mem_of_mem_drop hdrop
      obtain ⟨hc, hjoins⟩ := List.mem_filter.1 hmem
      refine ⟨c, hc, hdemoted, by simp [hjoins], ?_⟩
      simp only [selectList, List.mem_append, not_or]
      refine ⟨fun hkept => ?_, (notMem_take_iff hnodupExtras hmem).2 hdrop⟩
      have hbase := (mem_currentFirst.1 (List.mem_of_mem_take hkept)).1
      have hfiltered := (List.mem_filter.1 hbase).2
      rw [joins_not_filtered hjoins] at hfiltered
      exact absurd hfiltered Bool.noConfusion

/-! ### Ranked answers -/

/-- The bar of a ranked answer. -/
theorem mem_pool {c : Candidate} :
    c ∈ pool candidates reranked settings ↔
      c ∈ candidates ∧ (if reranked then c.rerankScore.any (settings.rerankMinScore ≤ ·)
        else c.filtered || c.sharesWord) = true := by
  unfold pool
  split
  · rw [List.mem_filter, List.mem_insertionSort]
  · rw [List.mem_filter]

theorem nodup_pool (hnodup : candidates.Nodup) : (pool candidates reranked settings).Nodup := by
  unfold pool
  split
  · exact ((List.perm_insertionSort _ _).nodup_iff.2 hnodup).filter _
  · exact hnodup.filter _

theorem exists_dropped_selectRanked (hnodup : candidates.Nodup) :
    (∃ c ∈ candidates, c.demoted = false ∧
        (if reranked then c.rerankScore.any (settings.rerankMinScore ≤ ·)
          else c.filtered || c.sharesWord) = true ∧
        c ∉ (selectRanked fixed candidates reranked settings).selected) ↔
      ∃ c ∈ (pool candidates reranked settings).drop settings.answerTopK, c.demoted = false := by
  constructor
  · rintro ⟨c, hc, hdemoted, hadmits, hnot⟩
    have hmem : c ∈ pool candidates reranked settings := mem_pool.2 ⟨hc, hadmits⟩
    refine ⟨c, (notMem_take_iff (nodup_pool hnodup) hmem).1 fun htake => hnot ?_, hdemoted⟩
    exact mem_currentFirst.2 ⟨htake, .inl hdemoted⟩
  · rintro ⟨c, hdrop, hdemoted⟩
    have hmem := List.mem_of_mem_drop hdrop
    obtain ⟨hc, hadmits⟩ := mem_pool.1 hmem
    refine ⟨c, hc, hdemoted, hadmits, fun hchosen => ?_⟩
    exact (notMem_take_iff (nodup_pool hnodup) hmem).2 hdrop (mem_currentFirst.1 hchosen).1

end

/-- The candidates of a fusion: no item has two. -/
abbrev FusedList := { candidates : List Candidate // (candidates.map (·.itemId)).Nodup }

/-- **Old values crowd out current ones** exactly where the limits leave a current one out and an
old one comes in by the way that knows nothing of it. -/
theorem keeps_current_iff (fixed : Nat → Rat → String) (sub : SubQuery) (candidates : FusedList)
    (reranked : Bool) (settings : SelectSettings) (counted : List Uuid)
    (items : Uuid → Option ItemRecord) :
    KeepsCurrent candidates.1 (sub.admits reranked settings counted items)
        (select fixed sub candidates.1 reranked settings counted items).selected ↔
      ¬ sub.CrowdsOut candidates.1 reranked settings items := by
  have hnodup : candidates.1.Nodup := candidates.2.of_map
  unfold select SubQuery.admits SubQuery.CrowdsOut
  by_cases hmissing : sub.missingEntity = true
  · rw [if_pos hmissing]
    refine iff_of_true (fun hold => ?_) fun h => ?_
    · obtain ⟨c, hc, -⟩ := hold
      exact absurd hc List.not_mem_nil
    · rw [hmissing] at h
      exact absurd h.1 Bool.noConfusion
  · rw [if_neg hmissing, and_iff_right (by simpa using hmissing)]
    by_cases hcount : sub.shape = .count
    · rw [if_pos hcount]
      refine iff_of_true (fun _ c hc _ hadmits => ?_) fun h => h.1 hcount
      dsimp only at hadmits
      rw [if_neg hmissing, if_pos hcount] at hadmits
      exact (List.mem_insertionSort _).2 (List.mem_filter.2 ⟨hc, hadmits⟩)
    · rw [if_neg hcount, and_iff_right hcount, keepsCurrent_iff]
      simp only [if_neg hmissing, if_neg hcount]
      by_cases hlist : sub.asksList = true
      · simp only [if_pos hlist]
        rw [exists_old_selectList, exists_dropped_selectList hnodup]
      · simp only [if_neg hlist]
        rw [exists_dropped_selectRanked hnodup, RankedDropsCurrent, ← and_assoc,
          ← exists_old_currentFirst]
        rfl

/-! ### Eight old rows -/

/-- A row that a search found, with the score that the reranker gave it. -/
def scoredRow (itemId : Uuid) (demoted : Bool) (score : Rat) : Candidate :=
  { itemId := itemId, foundBy := [("search", Nat.succPNat 0)], demoted := demoted
    rerankScore := some score }

/-- Eight places where someone has lived, and where they live. -/
def nineHomes : List Candidate :=
  (List.range 8).map (scoredRow · true (9 / 10)) ++ [scoredRow 8 false (4 / 5)]

theorem nineHomes_nodup : (nineHomes.map (·.itemId)).Nodup := by decide

/-- The current one scores enough and is not cited. -/
theorem old_crowds_out :
    ¬ ∀ (fixed : Nat → Rat → String) (sub : SubQuery) (candidates : FusedList) (reranked : Bool)
        (settings : SelectSettings) (counted : List Uuid) (items : Uuid → Option ItemRecord),
      sub.shape ∉ noDemotion →
        KeepsCurrent candidates.1 (sub.admits reranked settings counted items)
          (select fixed sub candidates.1 reranked settings counted items).selected := by
  intro h
  have hkeeps := h (fun _ _ => "") { shape := .exact } ⟨nineHomes, nineHomes_nodup⟩ true {} []
    (fun _ => none) (by decide)
  have hcited := hkeeps (by decide +kernel) (scoredRow 8 false (4 / 5)) (by decide +kernel) rfl
    (by decide +kernel)
  exact absurd hcited (by decide +kernel)

end SecondMind
