import SecondMind.Ingestion.Schemas
import SecondMind.Memory.CoreLayer
import SecondMind.Memory.Reader

/-!
# Reconciliation

`ingestion/reconcile.py`: how a proposed memory relates to what is stored.  Each draft gets one
decision, by rules where the case is clear and by the `reconcile` step where it is not.

The embedding of a text and the search among the keys are one function here, `embed`; what the
search finds is looked up in the store as it is in the source.

* `ItemContent.singleKey` — the key under which a fact or a preference has one value at a time;
* `Reconciler.decide_rules` — every answer the rules give, where no model is asked;
* `Reconciler.decide_candidate` — a candidate is a stored, active item.
-/

namespace SecondMind

/-- A proposed memory after time and entity resolution, before it is written. -/
structure Draft where
  ref : String
  itemId : Uuid
  content : ItemContent
  entities : List (Uuid × EntityRole × EntityKind) := []

/-- `THING_KINDS`. -/
def thingKinds : List EntityKind := [.work, .thing, .place, .topic, .project]

/-- The roles that say what an item is about. -/
def thingRoles : List EntityRole := [.about, .at, .partOf]

/-- The works, things, places and topics it is about. -/
def Draft.things (draft : Draft) : List Uuid :=
  (draft.entities.filter fun e => e.2.2 ∈ thingKinds ∧ e.2.1 ∈ thingRoles).map (·.1)

structure Decision where
  decision : ReconcileDecision
  candidate : Option ItemRecord := none
  score : Option Rat := none
  rule : String := ""

/-- The candidates of a draft, with their scores. -/
abbrev Candidates := List (ItemRecord × Option Rat)

/-- What the `reconcile` step answers: the decision, the index of the candidate, the reason. -/
abbrev Chooser := Draft → Candidates → ReconcileDecision × Option Int × String

/-! ## What the rules compare -/

/-- `text.strip()`. -/
def strip (text : String) : String :=
  String.ofList ((text.toList.dropWhile isSpace).reverse.dropWhile isSpace).reverse

namespace Json

/-- `bool(value)`. -/
def truthy : Json → Bool
  | .null => false
  | .bool b => b
  | .num q => q ≠ 0
  | .str s => s ≠ ""
  | .arr elems => !elems.isEmpty
  | .obj members => !members.isEmpty

def members : Json → List (String × Json)
  | .obj members => members
  | _ => []

/-- `value.get(key)`, with null for a missing key. -/
def get (value : Json) (key : String) : Json := (value.members.lookup key).getD .null

end Json

/-- `_value_key`. -/
def valueKey (lib : TextLib) (value : Json) : String × String :=
  let part (key : String) : String :=
    lib.lower (strip (if (value.get key).truthy then lib.str (value.get key) else ""))
  let text := part "text"
  (if text = "" then lib.str (value.get "number") else text, part "unit")

/-- `" ".join(text.lower().split())`. -/
def spoken (lib : TextLib) (text : String) : String := join " " (words (lib.lower text))

def sameValue (lib : TextLib) (old new : ItemContent) : Bool :=
  match old.value, new.value with
  | some a, some b =>
    if a.truthy ∧ b.truthy then valueKey lib a = valueKey lib b
    else spoken lib old.text = spoken lib new.text
  | _, _ => spoken lib old.text = spoken lib new.text

/-- Something the person said that the saved wish lacks. -/
def addsDetail (existing : ItemContent) (draft : Draft) : Bool :=
  (draft.content.attributes.members.any fun e =>
    existing.attributes.get e.1 ≠ e.2) ||
  (draft.content.summary.getD "" ≠ "" ∧ existing.summary.getD "" = "")

/-! ## The reconciler -/

structure Reconciler where
  lib : TextLib
  threshold : Rat
  embed : Option (String → Option (List (Uuid × Rat)))
  choose : Option Chooser

/-- A key that has one value at a time: a fact's or a preference's kind, subject and
predicate. -/
structure SingleKey where
  kind : Kind
  subject : Uuid
  predicate : String
  deriving DecidableEq

/-- The key of a content that has one. -/
def ItemContent.singleKey (content : ItemContent) : Option SingleKey :=
  match content.subjectEntityId, content.predicate with
  | some subject, some predicate =>
    if content.kind ∈ [Kind.fact, .preference] ∧ predicate ≠ "" then
      some ⟨content.kind, subject, predicate⟩
    else none
  | _, _ => none

theorem ItemContent.singleKey_eq_some {content : ItemContent} {key : SingleKey} :
    content.singleKey = some key ↔
      (content.kind = key.kind ∧ content.subjectEntityId = some key.subject ∧
        content.predicate = some key.predicate) ∧
      key.kind ∈ [Kind.fact, .preference] ∧ key.predicate ≠ "" := by
  unfold singleKey
  obtain ⟨kind, subject, predicate⟩ := key
  cases hs : content.subjectEntityId with
  | none => simp
  | some s =>
    cases hp : content.predicate with
    | none => simp
    | some p =>
      dsimp only
      split
      · rename_i hc
        simp only [Option.some.injEq, SingleKey.mk.injEq]
        constructor
        · rintro ⟨rfl, rfl, rfl⟩
          exact ⟨⟨rfl, rfl, rfl⟩, hc⟩
        · rintro ⟨⟨rfl, rfl, rfl⟩, -⟩
          exact ⟨rfl, rfl, rfl⟩
      · rename_i hc
        simp only [reduceCtorEq, Option.some.injEq, false_iff]
        rintro ⟨⟨rfl, rfl, rfl⟩, h⟩
        exact hc h

/-- What the reader finds for a key. -/
def SingleKey.query (key : SingleKey) : ItemQuery where
  kinds := some [key.kind]
  subjectEntityId := some key.subject
  predicate := some key.predicate
  currentOnly := true

/-- What the reader finds for a wish. -/
def wishQuery (thing : Uuid) : ItemQuery where
  kinds := some [.intention]
  states := some ["wanted", "active"]
  entityId := some thing

namespace Reconciler

variable (r : Reconciler) (t : MemoryTables)

/-- The entities of an item, with the roles that pass. -/
def entityIds (id : Uuid) (roles : EntityRole → Bool := fun _ => true) : Finset Uuid :=
  ((t.itemEntities.rows.filter fun row => row.itemId = id ∧ roles row.role).map
    (·.entityId)).toFinset

/-- `_ask`. -/
def ask (draft : Draft) (candidates : Candidates) (why : String) : Decision :=
  match r.choose with
  | none => { decision := .new, rule := why ++ "; no model to decide" }
  | some choose =>
    let (decision, index, reason) := choose draft candidates
    let rule := why ++ "; model: " ++ reason
    match index with
    | none => { decision := .new, rule := rule }
    | some index =>
      if decision = .new ∨ ¬ (0 ≤ index ∧ index < candidates.length) then
        { decision := .new, rule := rule }
      else
        match candidates[index.toNat]? with
        | none => { decision := .new, rule := rule }
        | some (item, score) =>
          { decision := decision, candidate := some item, score := score, rule := rule }

/-- The candidates among what the search found close. -/
def closeItems (draft : Draft) (close : List (Uuid × Rat)) : Candidates :=
  let mine := draft.things.toFinset
  close.filterMap fun found =>
    match t.getItem found.1 with
    | none => none
    | some item =>
      let theirs := entityIds t item.id (· ∈ thingRoles)
      if item.status ≠ .active ∨ item.id = draft.itemId then none
      else if item.kind = .episode ∨ draft.content.kind = .episode then none
      else if mine.Nonempty ∧ theirs.Nonempty ∧ ¬ (mine ∩ theirs).Nonempty then none
      else some (item, some found.2)

/-- `_similar`. -/
def similar (draft : Draft) : Decision :=
  match r.embed with
  | none => { decision := .new, rule := "no similar memories" }
  | some embed =>
    match embed draft.content.text with
    | none => { decision := .new, rule := "similarity unavailable" }
    | some found =>
      let close := found.filter (·.2 ≥ r.threshold)
      if close.isEmpty then
        { decision := .new, rule := "nothing similar above the threshold" }
      else
        let candidates := closeItems t draft close
        if candidates.isEmpty then
          { decision := .new, rule := "similar items are about different things" }
        else r.ask draft candidates "similar keys"

/-- The episode is the draft's. -/
def sameEpisode (draft : Draft) (episode : ItemRecord) : Bool :=
  episode.occurredStart = draft.content.occurredStart ∧
    episode.timePrecision = draft.content.timePrecision ∧
    episode.subtype = draft.content.subtype ∧
    entityIds t episode.id = (draft.entities.map (·.1)).toFinset

/-- `_episode`. -/
def episode (draft : Draft) : Decision :=
  match draft.things.findSome? fun thing => (t.findItems (wishQuery thing)).head? with
  | some wish =>
    { decision := .fulfil, candidate := some wish, score := some 1
      rule := "episode about something on the wish list" }
  | none =>
    let never : Decision := { decision := .new, rule := "episodes never merge" }
    if draft.content.occurredStart = none then never
    else
      let episodes := t.findItems
        { kinds := some [.episode], entityId := draft.things.head?, limit := 50 }
      match episodes.find? (sameEpisode t draft) with
      | some episode =>
        { decision := .noOp, candidate := some episode, score := some 1
          rule := "same time, entities and subtype" }
      | none => never

/-- `_same_wish`. -/
def sameWish (draft : Draft) : Option ItemRecord :=
  draft.things.findSome? fun thing => (t.findItems (wishQuery thing)).find? fun wish =>
    wish.subtype = draft.content.subtype ∧ wish.id ≠ draft.itemId

/-- `_related_plans`. -/
def relatedPlans (draft : Draft) : List ItemRecord :=
  let found := (draft.entities.filter (·.2.2 ≠ .self)).flatMap fun e =>
    (t.findItems { kinds := some [.plan], states := some ["scheduled"], entityId := some e.1 }).filter
      fun plan => plan.subtype = draft.content.subtype ∧ plan.id ≠ draft.itemId
  (found.foldl (fun out plan => if out.any (·.id = plan.id) then out else out ++ [plan]) []).take 5

/-- The current items of a draft's key, but for the draft itself. -/
def current (draft : Draft) : List ItemRecord :=
  match draft.content.singleKey with
  | none => []
  | some key => (t.findItems key.query).filter (·.id ≠ draft.itemId)

/-- What `decide` does where no current item is in the way. -/
def decideOther (draft : Draft) : Decision :=
  match draft.content.kind with
  | .episode => episode t draft
  | .intention =>
    match sameWish t draft with
    | some same =>
      if addsDetail same.toItemContent draft then
        { decision := .addDetail, candidate := some same, score := some 1
          rule := "same wish, with more detail" }
      else
        { decision := .noOp, candidate := some same, score := some 1
          rule := "same wish saved again" }
    | none => r.similar t draft
  | .plan =>
    let plans := relatedPlans t draft
    if draft.entities.isEmpty ∨ plans.isEmpty then r.similar t draft
    else r.ask draft (plans.map (·, none)) "plan for the same thing"
  | _ => r.similar t draft

def decide (draft : Draft) : Decision :=
  match current t draft with
  | old :: _ =>
    if sameValue r.lib old.toItemContent draft.content then
      { decision := .noOp, candidate := some old, score := some 1
        rule := "same subject + predicate, same value" }
    else
      { decision := .supersede, candidate := some old, score := some 1
        rule := "same subject + predicate, new value" }
  | [] => r.decideOther t draft

/-! ### What a decision says about the store -/

section

variable {r : Reconciler} {t : MemoryTables} {draft : Draft}

/-- A current item of the key. -/
def IsCurrent (t : MemoryTables) (key : SingleKey) (item : ItemRecord) : Prop :=
  t.getItem item.id = some item ∧ item.status = .active ∧ item.validTo = none ∧
    item.toItemContent.singleKey = some key

theorem admits_query_iff {key : SingleKey} {item : ItemRecord} :
    t.admits key.query item = true ↔ item.status = .active ∧ item.validTo = none ∧
      item.kind = key.kind ∧ item.subjectEntityId = some key.subject ∧
      item.predicate = some key.predicate := by
  simp only [MemoryTables.admits, SingleKey.query, Option.all_some, Option.all_none,
    List.contains_cons, List.contains_nil, Bool.or_false, beq_iff_eq, decide_eq_true_eq, true_and,
    and_true, forall_const]
  constructor
  · rintro ⟨h₁, h₂, h₃, h₄, h₅⟩
    exact ⟨h₁, h₅, h₂, h₃, h₄⟩
  · rintro ⟨h₁, h₅, h₂, h₃, h₄⟩
    exact ⟨h₁, h₂, h₃, h₄, h₅⟩

theorem mem_current {item : ItemRecord} (h : item ∈ current t draft) :
    ∃ key, draft.content.singleKey = some key ∧ IsCurrent t key item ∧ item.id ≠ draft.itemId := by
  unfold current at h
  split at h
  · exact absurd h List.not_mem_nil
  · rename_i key hkey
    obtain ⟨hmem, hne⟩ := List.mem_filter.1 h
    obtain ⟨hstored, hadmits⟩ := MemoryTables.mem_findItems hmem
    obtain ⟨hactive, hopen, hsame⟩ := admits_query_iff.1 hadmits
    refine ⟨key, hkey, ⟨hstored, hactive, hopen, ?_⟩, by simpa using hne⟩
    exact ItemContent.singleKey_eq_some.2 ⟨hsame, (ItemContent.singleKey_eq_some.1 hkey).2⟩

/-- If the rules find no current item of the key, there is none but the draft itself. -/
theorem id_of_current_nil {key : SingleKey} {item : ItemRecord}
    (hkey : draft.content.singleKey = some key) (hnil : current t draft = [])
    (h : IsCurrent t key item)
    (hone : ∀ item', IsCurrent t key item' → item' = item) : item.id = draft.itemId := by
  obtain ⟨hstored, hactive, hopen, hsame⟩ := h
  unfold current at hnil
  rw [hkey] at hnil
  dsimp only at hnil
  have hadmits : t.admits key.query item = true :=
    admits_query_iff.2 ⟨hactive, hopen, (ItemContent.singleKey_eq_some.1 hsame).1⟩
  have hfound : t.findItems key.query ≠ [] := fun e => by
    rw [(MemoryTables.findItems_eq_nil_iff (Nat.zero_lt_succ _)).1 e item
      (MemoryTables.mem_rows_of_getItem hstored)] at hadmits
    exact (nomatch hadmits)
  obtain ⟨first, hfirst⟩ := List.exists_mem_of_ne_nil _ hfound
  obtain ⟨hstored', hadmits'⟩ := MemoryTables.mem_findItems hfirst
  obtain ⟨hactive', hopen', hsame'⟩ := admits_query_iff.1 hadmits'
  obtain rfl := hone first ⟨hstored', hactive', hopen', ItemContent.singleKey_eq_some.2
    ⟨hsame', (ItemContent.singleKey_eq_some.1 hkey).2⟩⟩
  by_contra hne
  have hmem : first ∈ (t.findItems key.query).filter (·.id ≠ draft.itemId) :=
    List.mem_filter.2 ⟨hfirst, by simpa using hne⟩
  rw [hnil] at hmem
  exact List.not_mem_nil hmem

theorem mem_wishes {thing : Uuid} {wish : ItemRecord} (h : wish ∈ t.findItems (wishQuery thing)) :
    t.getItem wish.id = some wish ∧ wish.status = .active ∧ wish.kind = .intention ∧
      wish.state ∈ ["wanted", "active"] := by
  obtain ⟨hstored, hadmits⟩ := MemoryTables.mem_findItems h
  simp only [MemoryTables.admits, wishQuery, Option.all_some, Option.all_none, decide_eq_true_eq,
    List.contains_cons, List.contains_nil, Bool.or_false, beq_iff_eq] at hadmits
  exact ⟨hstored, hadmits.1, hadmits.2.1, by simpa using hadmits.2.2.1⟩

/-- The answers of the rules.  No rule links, and none adds a detail to a fact. -/
inductive Ruled (lib : TextLib) (t : MemoryTables) (draft : Draft) (d : Decision) : Prop
  /-- The key has this value already. -/
  | same {old : ItemRecord} (found : (current t draft).head? = some old)
      (value : sameValue lib old.toItemContent draft.content = true)
      (decision : d.decision = .noOp) (candidate : d.candidate = some old)
  /-- The key has another value. -/
  | changed {old : ItemRecord} (found : (current t draft).head? = some old)
      (value : sameValue lib old.toItemContent draft.content = false)
      (decision : d.decision = .supersede) (candidate : d.candidate = some old)
  /-- An episode about something wished for. -/
  | fulfils {thing : Uuid} {wish : ItemRecord} (kind : draft.content.kind = .episode)
      (found : wish ∈ t.findItems (wishQuery thing)) (decision : d.decision = .fulfil)
      (candidate : d.candidate = some wish)
  /-- An episode or a wish that is stored. -/
  | again {item : ItemRecord} (kind : draft.content.kind ∈ [Kind.episode, .intention])
      (stored : t.getItem item.id = some item) (active : item.status = .active)
      (decision : d.decision ∈ [ReconcileDecision.noOp, .addDetail])
      (candidate : d.candidate = some item)
  | fresh (found : current t draft = []) (decision : d.decision = .new)
      (candidate : d.candidate = none)

theorem ask_of_rules (hrules : r.choose = none) (candidates : Candidates) (why : String) :
    (r.ask draft candidates why).decision = .new ∧
      (r.ask draft candidates why).candidate = none := by
  unfold ask
  rw [hrules]
  exact ⟨rfl, rfl⟩

theorem similar_of_rules (hrules : r.choose = none) :
    (r.similar t draft).decision = .new ∧ (r.similar t draft).candidate = none := by
  unfold similar
  split
  · exact ⟨rfl, rfl⟩
  · split
    · exact ⟨rfl, rfl⟩
    · dsimp only
      split
      · exact ⟨rfl, rfl⟩
      · split
        · exact ⟨rfl, rfl⟩
        · exact ask_of_rules hrules _ _

theorem episode_ruled {lib : TextLib} (hkind : draft.content.kind = .episode)
    (hnone : current t draft = []) : Ruled lib t draft (episode t draft) := by
  unfold episode
  split
  · rename_i wish hwish
    obtain ⟨thing, -, hfound⟩ := List.exists_of_findSome?_eq_some hwish
    exact .fulfils hkind (List.mem_of_head? hfound) rfl rfl
  · dsimp only
    split
    · exact .fresh hnone rfl rfl
    · split
      · rename_i same hsame
        obtain ⟨hstored, hadmits⟩ := MemoryTables.mem_findItems (List.mem_of_find?_eq_some hsame)
        have hactive : same.status = .active := (of_decide_eq_true hadmits).1
        exact .again (by simp [hkind]) hstored hactive (by simp) rfl
      · exact .fresh hnone rfl rfl

/-- **Every answer the rules give.** -/
theorem decide_rules (hrules : r.choose = none) : Ruled r.lib t draft (r.decide t draft) := by
  have hsimilar (hnone : current t draft = []) : Ruled r.lib t draft (r.similar t draft) :=
    .fresh hnone (similar_of_rules hrules).1 (similar_of_rules hrules).2
  unfold decide
  split
  · rename_i old rest hfound
    have hhead : (current t draft).head? = some old := by rw [hfound]; rfl
    split
    · rename_i hsame
      exact .same hhead hsame rfl rfl
    · rename_i hsame
      exact .changed hhead (Bool.not_eq_true _ ▸ hsame) rfl rfl
  · rename_i hnone
    unfold decideOther
    split
    · rename_i hkind
      exact episode_ruled hkind hnone
    · rename_i hkind
      split
      · rename_i same hsame
        obtain ⟨thing, -, hfound⟩ := List.exists_of_findSome?_eq_some hsame
        obtain ⟨hstored, hactive, -⟩ := mem_wishes (List.mem_of_find?_eq_some hfound)
        split
        · exact .again (by simp [hkind]) hstored hactive (by simp) rfl
        · exact .again (by simp [hkind]) hstored hactive (by simp) rfl
      · exact hsimilar hnone
    · dsimp only
      split
      · exact hsimilar hnone
      · exact .fresh hnone (ask_of_rules hrules _ _).1 (ask_of_rules hrules _ _).2
    · exact hsimilar hnone

/-! ### Candidates -/

/-- The item is stored and active. -/
def Stored (t : MemoryTables) (item : ItemRecord) : Prop :=
  t.getItem item.id = some item ∧ item.status = .active

theorem stored_of_findItems {q : ItemQuery} {item : ItemRecord} (h : item ∈ t.findItems q) :
    Stored t item := by
  obtain ⟨hstored, hadmits⟩ := MemoryTables.mem_findItems h
  exact ⟨hstored, (of_decide_eq_true hadmits).1⟩

theorem stored_of_closeItems {close : List (Uuid × Rat)} {e : ItemRecord × Option Rat}
    (h : e ∈ closeItems t draft close) : Stored t e.1 := by
  obtain ⟨found, -, he⟩ := List.mem_filterMap.1 h
  split at he
  · exact (nomatch he)
  · rename_i item hitem
    dsimp only at he
    split at he
    · exact (nomatch he)
    · rename_i hout
      split at he
      · exact (nomatch he)
      · split at he
        · exact (nomatch he)
        · cases he
          have hid : item.id = found.1 := Keyed.KeyTable.key_of_lookup hitem
          rw [not_or, Decidable.not_not] at hout
          exact ⟨hid ▸ hitem, hout.1⟩

theorem stored_of_relatedPlans {item : ItemRecord} (h : item ∈ relatedPlans t draft) :
    Stored t item := by
  -- what is kept so far stays among what was found
  have hkept : ∀ (found out : List ItemRecord), item ∈ found.foldl
      (fun out plan => if out.any (·.id = plan.id) then out else out ++ [plan]) out →
      item ∈ out ∨ item ∈ found := by
    intro found
    induction found with
    | nil => exact fun out hitem => .inl hitem
    | cons plan found ih =>
      intro out hitem
      rw [List.foldl_cons] at hitem
      rcases ih _ hitem with hitem | hitem
      · split at hitem
        · exact .inl hitem
        · rcases List.mem_append.1 hitem with hitem | hitem
          · exact .inl hitem
          · rw [List.mem_singleton.1 hitem]
            exact .inr List.mem_cons_self
      · exact .inr (List.mem_cons_of_mem _ hitem)
  unfold relatedPlans at h
  rcases hkept _ _ (List.mem_of_mem_take h) with hitem | hitem
  · exact absurd hitem List.not_mem_nil
  · obtain ⟨e, -, he⟩ := List.mem_flatMap.1 hitem
    exact stored_of_findItems (List.mem_filter.1 he).1

/-- A choice that is accepted is one of the candidates. -/
theorem ask_candidate {candidates : Candidates} {why : String} {item : ItemRecord}
    (h : (r.ask draft candidates why).candidate = some item) : ∃ e ∈ candidates, e.1 = item := by
  unfold ask at h
  split at h
  · exact (nomatch h)
  · dsimp only at h
    split at h
    · exact (nomatch h)
    · split at h
      · exact (nomatch h)
      · split at h
        · exact (nomatch h)
        · rename_i he
          cases h
          exact ⟨_, List.mem_of_getElem? he, rfl⟩

theorem similar_candidate {item : ItemRecord} (h : (r.similar t draft).candidate = some item) :
    Stored t item := by
  unfold similar at h
  split at h
  · exact (nomatch h)
  · split at h
    · exact (nomatch h)
    · dsimp only at h
      split at h
      · exact (nomatch h)
      · split at h
        · exact (nomatch h)
        · obtain ⟨e, he, rfl⟩ := ask_candidate h
          exact stored_of_closeItems he

theorem episode_candidate {item : ItemRecord} (h : (episode t draft).candidate = some item) :
    Stored t item := by
  unfold episode at h
  split at h
  · rename_i wish hwish
    cases h
    obtain ⟨thing, -, hfound⟩ := List.exists_of_findSome?_eq_some hwish
    exact stored_of_findItems (List.mem_of_head? hfound)
  · dsimp only at h
    split at h
    · exact (nomatch h)
    · split at h
      · rename_i same hsame
        cases h
        exact stored_of_findItems (List.mem_of_find?_eq_some hsame)
      · exact (nomatch h)

/-- **A candidate** is a stored, active item, whatever the model answers. -/
theorem decide_candidate {item : ItemRecord} (h : (r.decide t draft).candidate = some item) :
    Stored t item := by
  unfold decide at h
  split at h
  · rename_i old rest hfound
    have hcurrent : old ∈ current t draft := by
      rw [hfound]
      exact List.mem_cons_self
    obtain ⟨key, -, ⟨hstored, hactive, -⟩, -⟩ := mem_current hcurrent
    split at h
    · cases h
      exact ⟨hstored, hactive⟩
    · cases h
      exact ⟨hstored, hactive⟩
  · unfold decideOther at h
    split at h
    · exact episode_candidate h
    · split at h
      · rename_i same hsame
        obtain ⟨thing, -, hfound⟩ := List.exists_of_findSome?_eq_some hsame
        have hstored := stored_of_findItems (List.mem_of_find?_eq_some hfound)
        split at h
        · cases h
          exact hstored
        · cases h
          exact hstored
      · exact similar_candidate h
    · dsimp only at h
      split at h
      · exact similar_candidate h
      · obtain ⟨e, he, rfl⟩ := ask_candidate h
        obtain ⟨plan, hplan, rfl⟩ := List.mem_map.1 he
        exact stored_of_relatedPlans hplan
    · exact similar_candidate h

end

end Reconciler

end SecondMind
