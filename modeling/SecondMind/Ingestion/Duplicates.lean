import SecondMind.Ingestion.Pipeline

/-!
# Duplicates

When `Reconciler.decide` answers that a memory is stored already, without asking the model.

* `StatesSame` — two statements give the same value;
* `sameValue_iff` — what `same_value` takes for that;
* `Duplicate` — a stored memory that is the draft's;
* `Misjudged` — the stores in which the rules miss one, or see one where there is none;
* `duplicates_recognised_iff` — everywhere else they answer exactly.
-/

namespace SecondMind

open Keyed

/-! ## The same value -/

/-- `str(value.get(key) or "").strip().lower()`. -/
def valuePart (lib : TextLib) (value : Json) (key : String) : String :=
  lib.lower (strip (if (value.get key).truthy then lib.str (value.get key) else ""))

/-- The structured value, where there is one. -/
def ItemContent.valued (c : ItemContent) : Option Json := c.value.filter (·.truthy)

/-- Two values say the same in each of their parts. -/
structure SameParts (lib : TextLib) (a b : Json) : Prop where
  text : valuePart lib a "text" = valuePart lib b "text"
  number : a.get "number" = b.get "number"
  unit : valuePart lib a "unit" = valuePart lib b "unit"

/-- Two statements give the same value, or neither gives one and they read the same. -/
def StatesSame (lib : TextLib) (old new : ItemContent) : Prop :=
  match old.valued, new.valued with
  | some a, some b => SameParts lib a b
  | none, none => spoken lib old.text = spoken lib new.text
  | _, _ => False

/-- The key of two values is the same although they differ: they have the same text and another
number, or one has its text where the other has its number. -/
structure SameKeyOnly (lib : TextLib) (a b : Json) : Prop where
  key : valueKey lib a = valueKey lib b
  differ : valuePart lib a "text" ≠ valuePart lib b "text" ∨ a.get "number" ≠ b.get "number"

/-- What `same_value` takes for the same value although it is not: values with one key, or a value
and no value behind the same words. -/
def Confused (lib : TextLib) (old new : ItemContent) : Prop :=
  match old.valued, new.valued with
  | some a, some b => SameKeyOnly lib a b
  | none, none => False
  | _, _ => spoken lib old.text = spoken lib new.text

theorem valueKey_eq (lib : TextLib) (value : Json) :
    valueKey lib value =
      (if valuePart lib value "text" = "" then lib.str (value.get "number")
        else valuePart lib value "text", valuePart lib value "unit") := rfl

theorem SameParts.key {lib : TextLib} {a b : Json} (h : SameParts lib a b) :
    valueKey lib a = valueKey lib b := by
  rw [valueKey_eq, valueKey_eq, h.text, h.number, h.unit]

/-- Values with one key are the same in each part, or in the key only. -/
theorem valueKey_eq_iff {lib : TextLib} {a b : Json} :
    valueKey lib a = valueKey lib b ↔ SameParts lib a b ∨ SameKeyOnly lib a b := by
  constructor
  · intro hkey
    have hunit : valuePart lib a "unit" = valuePart lib b "unit" := congrArg Prod.snd hkey
    by_cases htext : valuePart lib a "text" = valuePart lib b "text"
    · by_cases hnumber : a.get "number" = b.get "number"
      · exact .inl ⟨htext, hnumber, hunit⟩
      · exact .inr ⟨hkey, .inr hnumber⟩
    · exact .inr ⟨hkey, .inl htext⟩
  · rintro (h | h)
    · exact h.key
    · exact h.key

theorem sameValue_eq (lib : TextLib) (old new : ItemContent) :
    sameValue lib old new =
      match old.valued, new.valued with
      | some a, some b => decide (valueKey lib a = valueKey lib b)
      | _, _ => decide (spoken lib old.text = spoken lib new.text) := by
  unfold sameValue ItemContent.valued
  cases old.value with
  | none => rfl
  | some a =>
    cases new.value with
    | none => cases Option.filter (·.truthy) (some a) <;> rfl
    | some b => cases ha : a.truthy <;> cases hb : b.truthy <;> simp [Option.filter, ha, hb]

/-- **What counts as the same value.** -/
theorem sameValue_iff {lib : TextLib} {old new : ItemContent} :
    sameValue lib old new = true ↔ StatesSame lib old new ∨ Confused lib old new := by
  rw [sameValue_eq]
  unfold StatesSame Confused
  cases old.valued with
  | none => cases new.valued <;> simp
  | some a =>
    cases new.valued with
    | none => simp
    | some b => simp [valueKey_eq_iff]

/-- A statement is not confused with the one it is. -/
theorem Confused.not_same {lib : TextLib} {old new : ItemContent} (h : Confused lib old new) :
    ¬ StatesSame lib old new := by
  unfold Confused at h
  unfold StatesSame
  cases hold : old.valued with
  | none => cases hnew : new.valued <;> simp_all
  | some a =>
    cases hnew : new.valued with
    | none => simp
    | some b =>
      simp only [hold, hnew] at h
      intro hsame
      rcases h.differ with hdiffer | hdiffer
      · exact hdiffer hsame.text
      · exact hdiffer hsame.number

namespace Reconciler

/-! ## A stored duplicate -/

/-- An open wish of the draft's subtype, about a thing the draft is about. -/
structure SameWish (t : MemoryTables) (draft : Draft) (item : ItemRecord) : Prop where
  stored : Stored t item
  kind : item.kind = .intention
  «open» : item.state ∈ ["wanted", "active"]
  about : ∃ thing ∈ draft.things, t.pointsAt item.id thing = true
  subtype : item.subtype = draft.content.subtype
  other : item.id ≠ draft.itemId

/-- **A stored memory that is the draft's**, told by its kind. -/
inductive Duplicate (lib : TextLib) (t : MemoryTables) (draft : Draft) (item : ItemRecord) : Prop
  /-- A fact or a preference: the key has this value now. -/
  | value {key : SingleKey} (hkey : draft.content.singleKey = some key)
      (current : IsCurrent t key item) (other : item.id ≠ draft.itemId)
      (same : StatesSame lib item.toItemContent draft.content)
  /-- A dated episode: the same time, subtype and entities. -/
  | episode (hkind : draft.content.kind = .episode) (dated : draft.content.occurredStart ≠ none)
      (stored : Stored t item) (kind : item.kind = .episode) (same : sameEpisode t draft item = true)
  /-- A wish to which the draft adds nothing. -/
  | wish (hkind : draft.content.kind = .intention) (same : SameWish t draft item)
      (adds : addsDetail item.toItemContent draft = false)

/-- `decide` answers NO_OP whatever the model would answer. -/
def SettlesNoOp (r : Reconciler) (t : MemoryTables) (draft : Draft) : Prop :=
  ∀ choose, ({ r with choose := choose }.decide t draft).decision = .noOp

/-- The open wish that an episode is taken to fulfil. -/
def wished (t : MemoryTables) (draft : Draft) : Option ItemRecord :=
  draft.things.findSome? fun thing => (t.findItems (wishQuery thing)).head?

/-- The episodes that a draft is compared with: the newest fifty, about its first thing where it
has one. -/
def comparedEpisodes (t : MemoryTables) (draft : Draft) : List ItemRecord :=
  t.findItems { kinds := some [.episode], entityId := draft.things.head?, limit := 50 }

/-- **The drafts that are misjudged**, and the stores. -/
inductive Misjudged (lib : TextLib) (t : MemoryTables) (draft : Draft) : Prop
  /-- The newest current item of the key is taken for the statement, and none is it. -/
  | confused {old : ItemRecord} (first : (current t draft).head? = some old)
      (confused : Confused lib old.toItemContent draft.content)
      (none : ∀ item, ¬ Duplicate lib t draft item)
  /-- The newest current item of the key has another value, an older one has this. -/
  | behind {item : ItemRecord} (hkind : draft.content.kind ∈ [Kind.fact, .preference])
      (first : ∀ old, (current t draft).head? = some old →
        sameValue lib old.toItemContent draft.content = false)
      (stored : Duplicate lib t draft item)
  /-- The episode is stored, and something it is about is on the wish list. -/
  | wished {item wish : ItemRecord} (hkind : draft.content.kind = .episode)
      («open» : wished t draft = some wish) (stored : Duplicate lib t draft item)
  /-- The episode is stored, behind the newest fifty. -/
  | old {item : ItemRecord} (hkind : draft.content.kind = .episode)
      (unseen : ∀ episode ∈ comparedEpisodes t draft, sameEpisode t draft episode = false)
      (stored : Duplicate lib t draft item)
  /-- The wish is stored, and the first one that is compared lacks something the draft says, or
  none is compared. -/
  | lacking {item : ItemRecord} (hkind : draft.content.kind = .intention)
      (first : ∀ wish, sameWish t draft = some wish → addsDetail wish.toItemContent draft = true)
      (stored : Duplicate lib t draft item)

section

variable {r : Reconciler} {t : MemoryTables} {draft : Draft}

/-! ## The answer of the rules -/

theorem current_nil (hkind : draft.content.kind ∉ [Kind.fact, .preference]) :
    current t draft = [] := by
  unfold current
  cases hkey : draft.content.singleKey with
  | none => rfl
  | some key =>
    obtain ⟨⟨hsame, -⟩, hsingle, -⟩ := ItemContent.singleKey_eq_some.1 hkey
    exact absurd (hsame ▸ hsingle) hkind

/-- What the model is asked is not settled: it may answer that the memory is new. -/
theorem ask_new (candidates : Candidates) (why : String) :
    ({ r with choose := none }.ask draft candidates why).decision = .new :=
  (ask_of_rules rfl candidates why).1

theorem similar_new : ({ r with choose := none }.similar t draft).decision = .new :=
  (similar_of_rules rfl).1

/-- A fact or a preference is settled by the newest current item of its key. -/
theorem settlesNoOp_single (hkind : draft.content.kind ∈ [Kind.fact, .preference]) :
    SettlesNoOp r t draft ↔ ∃ old, (current t draft).head? = some old ∧
      sameValue r.lib old.toItemContent draft.content = true := by
  constructor
  · intro h
    have hnone := h none
    unfold decide at hnone
    cases hcurrent : current t draft with
    | nil =>
      rw [hcurrent] at hnone
      unfold decideOther at hnone
      -- neither an episode nor a wish nor a plan
      have hother : ({ r with choose := none }.similar t draft).decision = .noOp := by
        rcases List.mem_cons.1 hkind with hk | hk
        · rwa [hk] at hnone
        · rw [List.mem_singleton.1 hk] at hnone
          exact hnone
      rw [similar_new] at hother
      cases hother
    | cons old rest =>
      rw [hcurrent] at hnone
      dsimp only at hnone
      split at hnone
      · rename_i hsame
        exact ⟨old, rfl, hsame⟩
      · cases hnone
  · rintro ⟨old, hhead, hsame⟩ choose
    unfold decide
    cases hcurrent : current t draft with
    | nil =>
      rw [hcurrent] at hhead
      cases hhead
    | cons first rest =>
      rw [hcurrent] at hhead
      obtain rfl := Option.some.inj hhead
      dsimp only
      rw [if_pos hsame]

/-- An episode is settled by an episode that is its own, where nothing is wished for. -/
theorem settlesNoOp_episode (hkind : draft.content.kind = .episode) :
    SettlesNoOp r t draft ↔ wished t draft = none ∧ draft.content.occurredStart ≠ none ∧
      ∃ episode ∈ comparedEpisodes t draft, sameEpisode t draft episode = true := by
  have hdecide : ∀ choose, { r with choose := choose }.decide t draft = episode t draft := by
    intro choose
    unfold decide
    rw [current_nil (by simp [hkind])]
    unfold decideOther
    rw [hkind]
  have hsettles : SettlesNoOp r t draft ↔ (episode t draft).decision = .noOp := by
    constructor
    · intro h
      rw [← hdecide none]
      exact h none
    · intro h choose
      rw [hdecide]
      exact h
  rw [hsettles]
  unfold episode
  split
  · rename_i wish hwish
    have hwished : wished t draft = some wish := hwish
    simp [hwished]
  · rename_i hwish
    have hwished : wished t draft = none := hwish
    by_cases hdated : draft.content.occurredStart = none
    · simp [hdated]
    · dsimp only
      rw [if_neg hdated]
      split
      · rename_i found hfound
        have hsame := List.find?_some hfound
        have hmem : found ∈ comparedEpisodes t draft := List.mem_of_find?_eq_some hfound
        exact iff_of_true rfl ⟨hwished, hdated, found, hmem, hsame⟩
      · rename_i hfind
        rw [List.find?_eq_none] at hfind
        constructor
        · intro h
          cases h
        · rintro ⟨-, -, found, hmem, hsame⟩
          exact absurd hsame (hfind found hmem)

/-- A wish is settled by the first wish that is compared, if the draft adds nothing to it. -/
theorem settlesNoOp_wish (hkind : draft.content.kind = .intention) :
    SettlesNoOp r t draft ↔ ∃ wish, sameWish t draft = some wish ∧
      addsDetail wish.toItemContent draft = false := by
  have hdecide : ∀ choose, { r with choose := choose }.decide t draft =
      { r with choose := choose }.decideOther t draft := by
    intro choose
    unfold decide
    rw [current_nil (by simp [hkind])]
  constructor
  · intro h
    have hnone := h none
    rw [hdecide] at hnone
    unfold decideOther at hnone
    rw [hkind] at hnone
    dsimp only at hnone
    split at hnone
    · rename_i wish hwish
      split at hnone
      · cases hnone
      · rename_i hadds
        exact ⟨wish, hwish, Bool.not_eq_true _ ▸ hadds⟩
    · rw [similar_new] at hnone
      cases hnone
  · rintro ⟨wish, hwish, hadds⟩ choose
    rw [hdecide]
    unfold decideOther
    rw [hkind, hwish]
    simp [hadds]

/-- Nothing else is settled. -/
theorem settlesNoOp_kind (h : SettlesNoOp r t draft) :
    draft.content.kind ∈ [Kind.fact, .preference] ∨ draft.content.kind = .episode ∨
      draft.content.kind = .intention := by
  by_contra hother
  simp only [not_or] at hother
  obtain ⟨hsingle, hepisode, hwish⟩ := hother
  have hnone := h none
  unfold decide at hnone
  rw [current_nil hsingle] at hnone
  unfold decideOther at hnone
  dsimp only at hnone
  split at hnone
  · rename_i hkind
    exact hepisode hkind
  · rename_i hkind
    exact hwish hkind
  · split at hnone
    · rw [similar_new] at hnone
      cases hnone
    · rw [ask_new] at hnone
      cases hnone
  · rw [similar_new] at hnone
    cases hnone

/-! ## What is found -/

/-- An episode that is compared and is the draft's is a duplicate. -/
theorem duplicate_of_compared {lib : TextLib} (hkind : draft.content.kind = .episode)
    (hdated : draft.content.occurredStart ≠ none) {item : ItemRecord}
    (hmem : item ∈ comparedEpisodes t draft) (hsame : sameEpisode t draft item = true) :
    Duplicate lib t draft item := by
  have hadmits := (MemoryTables.mem_findItems hmem).2
  simp only [MemoryTables.admits, Option.all_some, Option.all_none, decide_eq_true_eq,
    List.contains_cons, List.contains_nil, Bool.or_false, beq_iff_eq] at hadmits
  exact .episode hkind hdated (stored_of_findItems hmem) hadmits.2.1 hsame

/-- The first wish that is compared is a wish of the same kind. -/
theorem sameWish_spec {wish : ItemRecord} (h : sameWish t draft = some wish) :
    SameWish t draft wish := by
  obtain ⟨thing, hthing, hfound⟩ := List.exists_of_findSome?_eq_some h
  have hmem := List.mem_of_find?_eq_some hfound
  have hchosen := List.find?_some hfound
  obtain ⟨-, -, hkind, hopen⟩ := mem_wishes hmem
  have hadmits := (MemoryTables.mem_findItems hmem).2
  have habout : t.pointsAt wish.id thing = true := (of_decide_eq_true hadmits).2.2.2.1
  simp only [decide_eq_true_eq] at hchosen
  exact ⟨stored_of_findItems hmem, hkind, hopen, ⟨thing, hthing, habout⟩, hchosen.1, hchosen.2⟩

/-- What is misjudged is not answered exactly. -/
theorem Misjudged.inexact {r : Reconciler} (h : Misjudged r.lib t draft) :
    ¬ (SettlesNoOp r t draft ↔ ∃ item, Duplicate r.lib t draft item) := by
  intro hexact
  cases h with
  | @confused old first confused none =>
    have hkind : draft.content.kind ∈ [Kind.fact, .preference] := by
      by_contra hkind
      rw [current_nil hkind] at first
      cases first
    have hsettled : SettlesNoOp r t draft :=
      (settlesNoOp_single hkind).2 ⟨old, first, sameValue_iff.2 (.inr confused)⟩
    obtain ⟨item, hitem⟩ := hexact.1 hsettled
    exact none item hitem
  | @behind item hkind first stored =>
    obtain ⟨old, hhead, hsame⟩ := (settlesNoOp_single hkind).1 (hexact.2 ⟨item, stored⟩)
    rw [first old hhead] at hsame
    cases hsame
  | @wished item wish hkind «open» stored =>
    obtain ⟨hnone, -⟩ := (settlesNoOp_episode hkind).1 (hexact.2 ⟨item, stored⟩)
    rw [«open»] at hnone
    cases hnone
  | @old item hkind unseen stored =>
    obtain ⟨-, -, episode, hmem, hsame⟩ := (settlesNoOp_episode hkind).1 (hexact.2 ⟨item, stored⟩)
    rw [unseen episode hmem] at hsame
    cases hsame
  | @lacking item hkind first stored =>
    obtain ⟨wish, hwish, hadds⟩ := (settlesNoOp_wish hkind).1 (hexact.2 ⟨item, stored⟩)
    rw [first wish hwish] at hadds
    cases hadds

/-- What is settled is stored. -/
theorem exists_duplicate (hmis : ¬ Misjudged r.lib t draft) (h : SettlesNoOp r t draft) :
    ∃ item, Duplicate r.lib t draft item := by
  rcases settlesNoOp_kind h with hkind | hkind | hkind
  · obtain ⟨old, hhead, hsame⟩ := (settlesNoOp_single hkind).1 h
    obtain ⟨key, hkey, hcurrent, hother⟩ := mem_current (List.mem_of_head? hhead)
    rcases sameValue_iff.1 hsame with hstates | hconfused
    · exact ⟨old, .value hkey hcurrent hother hstates⟩
    · by_contra hnone
      exact hmis (.confused hhead hconfused (not_exists.1 hnone))
  · obtain ⟨-, hdated, episode, hmem, hsame⟩ := (settlesNoOp_episode hkind).1 h
    exact ⟨episode, duplicate_of_compared hkind hdated hmem hsame⟩
  · obtain ⟨wish, hwish, hadds⟩ := (settlesNoOp_wish hkind).1 h
    exact ⟨wish, .wish hkind (sameWish_spec hwish) hadds⟩

/-- What is stored is settled. -/
theorem Duplicate.settlesNoOp {item : ItemRecord} (h : Duplicate r.lib t draft item)
    (hmis : ¬ Misjudged r.lib t draft) : SettlesNoOp r t draft := by
  cases id h with
  | @value key hkey current other same =>
    obtain ⟨⟨hkeyKind, -⟩, hsingle, -⟩ := ItemContent.singleKey_eq_some.1 hkey
    have hkind : draft.content.kind ∈ [Kind.fact, .preference] := hkeyKind ▸ hsingle
    rw [settlesNoOp_single hkind]
    by_contra hnone
    refine hmis (.behind hkind (fun old hhead => ?_) h)
    by_contra hsame
    exact hnone ⟨old, hhead, Bool.not_eq_false _ ▸ hsame⟩
  | episode hkind dated stored kind same =>
    have hnone : wished t draft = none := by
      cases hwish : wished t draft with
      | none => rfl
      | some wish => exact absurd (.wished hkind hwish h) hmis
    rw [settlesNoOp_episode hkind]
    refine ⟨hnone, dated, ?_⟩
    by_contra hunseen
    refine hmis (.old hkind (fun episode hmem => ?_) h)
    by_contra hsame
    exact hunseen ⟨episode, hmem, Bool.not_eq_false _ ▸ hsame⟩
  | wish hkind same adds =>
    rw [settlesNoOp_wish hkind]
    by_contra hnone
    refine hmis (.lacking hkind (fun wish hwish => ?_) h)
    by_contra hadds
    exact hnone ⟨wish, hwish, Bool.not_eq_true _ ▸ hadds⟩

/-- **Duplicates are recognised exactly** where nothing is misjudged. -/
theorem duplicates_recognised_iff (r : Reconciler) (t : MemoryTables) (draft : Draft) :
    (SettlesNoOp r t draft ↔ ∃ item, Duplicate r.lib t draft item) ↔
      ¬ Misjudged r.lib t draft := by
  constructor
  · intro hexact hmis
    exact hmis.inexact hexact
  · intro hmis
    constructor
    · intro hsettled
      exact exists_duplicate hmis hsettled
    · rintro ⟨item, hitem⟩
      exact hitem.settlesNoOp hmis

end

/-! ## A better time -/

/-- A time over ten kilometres, as a model extracts it. -/
def bestTime (minutes : Rat) (text : String) : ProposedMemory where
  ref := "m1"
  kind := ⟨.fact, fact_isLabel⟩
  title := "best time"
  text := text
  subject := some "self"
  predicate := some "best_time"
  value := some ⟨some "10k", some minutes, some "minutes"⟩

def firstRun : Save := saveOf 1 "my best 10k is 52 minutes." [bestTime 52 "my best 10k is 52 minutes"]

def fasterRun : Save := saveOf 2 "my best 10k is 49 minutes." [bestTime 49 "my best 10k is 49 minutes"]

/-- **The faster time is discarded**: the two values have the same text. -/
theorem faster_run_discarded :
    ∃ x ∈ (firstRun.run (Tables.initial 0)).toOption, ∃ plans ∈ fasterRun.plans.toOption,
      ∃ p ∈ plans, ¬ (SettlesNoOp fasterRun.reconciler x.1.toMemoryTables p.draft ↔
        ∃ item, Duplicate fasterRun.reconciler.lib x.1.toMemoryTables p.draft item) := by
  have hran : ∃ x ∈ (firstRun.run (Tables.initial 0)).toOption,
      ∃ plans ∈ fasterRun.plans.toOption, ∃ p ∈ plans, p.draft.content.kind = .fact ∧
        (∃ old ∈ (current x.1.toMemoryTables p.draft).head?,
          sameValue plainText old.toItemContent p.draft.content = true) ∧
        ∀ item ∈ x.1.items.rows, ∃ a ∈ item.valued, ∃ b ∈ p.draft.content.valued,
          a.get "number" ≠ b.get "number" := by
    decide +kernel
  obtain ⟨x, hx, plans, hplans, p, hp, hkind, ⟨old, hfirst, hsame⟩, hdiffer⟩ := hran
  refine ⟨x, hx, plans, hplans, p, hp, fun hexact => ?_⟩
  have hsettled : SettlesNoOp fasterRun.reconciler x.1.toMemoryTables p.draft :=
    (settlesNoOp_single (by simp [hkind])).2 ⟨old, hfirst, hsame⟩
  obtain ⟨item, hitem⟩ := hexact.1 hsettled
  cases hitem with
  | @value key hkey hcurrent hother hstates =>
    obtain ⟨a, ha, b, hb, hnumber⟩ := hdiffer item (MemoryTables.mem_rows_of_getItem hcurrent.1)
    unfold StatesSame at hstates
    rw [Option.mem_def.1 ha, Option.mem_def.1 hb] at hstates
    exact hnumber hstates.number
  | episode hepisode => rw [hkind] at hepisode; cases hepisode
  | wish hwish => rw [hkind] at hwish; cases hwish

end Reconciler

end SecondMind
