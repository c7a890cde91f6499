import SecondMind.Core.Result
import SecondMind.Ingestion.Reconcile
import SecondMind.Memory.Quick
import Mathlib.Data.String.Basic

/-!
# Drafts

`IngestionPipeline._plan`: from a proposed memory to the draft that reconciliation decides on and
the ops are made of.  What the other modules answer for the message (a resolved time, a slug, a
filled text, a quick decision) comes through `PlanLib`.

* `Drafted` — a plan is made of a proposed memory;
* `makePlans_drafted` — every plan is made of a memory of the message.
-/

namespace SecondMind

/-! ## What a plan is given -/

/-- Which side of a period an expression bounds. -/
inductive Bound
  | since | «until» | «by»
  deriving DecidableEq, Repr

/-- A resolved time expression. -/
structure Resolved where
  expression : String
  clock : TimeClock
  start : Instant
  end_ : Option Instant := none
  precision : TimePrecision
  rule : String
  rrule : Option String := none
  assumed : Bool := false
  alternative : Option String := none
  partOfDay : Option String := none
  bound : Option Bound := none

/-- An `UpsertEntity` op. -/
structure EntityUpsert where
  entityId : Uuid
  entity : EntityContent
  create : Bool
  title : String
  rationale : String

def EntityUpsert.op (u : EntityUpsert) : Op where
  title := u.title
  rationale := u.rationale
  body := .upsertEntity u.entityId u.entity u.create

/-- What one extracted mention became. -/
structure EntityPlan where
  entityId : Uuid
  kind : EntityKind
  name : String
  op : Option EntityUpsert := none
  isKey : Bool := false

/-- Where a save asks for a new id. -/
inductive IdFor
  | item (memory : Nat)
  | timeTrigger (memory : Nat)
  | momentTrigger (memory : Nat)
  | entityRow (memory i : Nat)
  | decisionLink (memory : Nat)
  | memoryLink (memory i : Nat)
  | relation (i : Nat)
  | secret
  deriving DecidableEq, Repr

inductive Vocab
  | category | subtype | predicate | relation
  deriving DecidableEq, Repr

structure Term where
  slug : String
  aliases : List String := []

/-- What the other modules answer. -/
structure PlanLib where
  lib : TextLib
  newId : IdFor → Uuid
  normalise : Vocab → List Term → String → String
  fillDates : String → ProposedMemory → List (String × Resolved) → String
  validateRrule : String → Instant → Except Failure String
  quickLayer : ItemContent → List TriggerContent → QuickDecision
  /-- The lead in minutes, and the rule; none is an `UnresolvableTimeError`. -/
  resolveLead : String → Option (Int × String)
  reminderTime : Instant → TimePrecision → Int → Instant
  uuidText : Uuid → String
  contentHash : String → String

/-- What the pipeline knows about the turn. -/
structure IngestContext where
  turnId : Uuid
  message : String
  now : Instant
  defaultLeadMinutes : Int := 1440
  secretFound : Bool := false

/-! ## JSON objects -/

/-- A member set, the members in key order. -/
def setMember (key : String) (value : Json) : List (String × Json) → List (String × Json)
  | [] => [(key, value)]
  | (k, v) :: members =>
    if key = k then (k, value) :: members
    else if key < k then (key, value) :: (k, v) :: members
    else (k, v) :: setMember key value members

/-- The object of a dictionary display: a later member wins. -/
def objectOf (members : List (String × Json)) : Json :=
  .obj (members.foldl (fun out e => setMember e.1 e.2 out) [])

def textOrNull : Option String → Json
  | none => .null
  | some text => .str text

/-! ## The parts of a draft -/

/-- The fields that the times of a memory give. -/
structure TimeFields where
  occurredStart : Option Instant := none
  occurredEnd : Option Instant := none
  timePrecision : Option TimePrecision := none
  rrule : Option String := none
  dueAt : Option Instant := none
  validFrom : Option Instant := none
  validTo : Option Instant := none

/-- One resolved time more. -/
def TimeFields.add (lib : PlanLib) (f : TimeFields) (r : Resolved) : Except Failure TimeFields :=
  let orPrecision := some (f.timePrecision.getD r.precision)
  match r.clock with
  | .occurred =>
    if f.occurredStart ≠ none then .ok f
    else do
      let rrule ← match r.rrule with
        | none => .ok none
        | some rule => if rule = "" then .ok none else (lib.validateRrule rule r.start).map some
      return { f with occurredStart := some r.start, occurredEnd := r.end_
                      timePrecision := some r.precision, rrule := rrule }
  | .valid =>
    if r.bound = some .«until» then
      .ok { f with validTo := some r.start, timePrecision := orPrecision }
    else .ok { f with validFrom := some r.start, timePrecision := orPrecision }
  | .due =>
    if f.dueAt ≠ none then .ok f
    else .ok { f with dueAt := some r.start, timePrecision := orPrecision }
  | .trigger => .ok f

def timeFields (lib : PlanLib) (resolved : List (String × Resolved)) : Except Failure TimeFields :=
  resolved.foldlM (fun f e => f.add lib e.2) {}

/-- The text is there and says something. -/
def said (text : Option String) : Option String := text.filter (· ≠ "")

def proposedTags (lib : TextLib) (m : ProposedMemory) : List String :=
  let tags := (m.tags.map fun tag => lib.lower (strip tag)).filter (· ≠ "")
  tags.dedup.insertionSort (· ≤ ·)

def proposedAttributes (m : ProposedMemory) : Json :=
  objectOf ((m.attributes.filter (·.key ≠ "")).map fun a => (a.key, .str a.value))

def clockName : TimeClock → String
  | .occurred => "occurred"
  | .valid => "valid"
  | .due => "due"
  | .trigger => "trigger"

def enrichmentOf (resolved : List (String × Resolved)) : Json :=
  objectOf [("times", .arr (resolved.map fun e => objectOf
    [("expression", .str e.2.expression), ("clock", .str (clockName e.2.clock)),
      ("rule", .str e.2.rule)]))]

/-- The value of a statement: only an asserted one carries it. -/
def proposedValue (m : ProposedMemory) : Option Json :=
  match m.value with
  | none => none
  | some v =>
    if m.modality = .asserted ∧ ((said v.text).isSome ∨ v.number.isSome) then
      some (objectOf [("text", textOrNull v.text),
        ("number", (v.number.map Json.num).getD .null), ("unit", textOrNull v.unit)])
    else none

/-- `" ".join(x for x in (m.rationale, m.layer_rationale) if x) or None`. -/
def proposedRationale (m : ProposedMemory) : Option String :=
  said (some (join " " ([m.rationale, m.layerRationale].filter (· ≠ ""))))

/-- The entities a draft names, but for the user. -/
def draftEntities (entities : List (String × EntityPlan)) (m : ProposedMemory) :
    List (Uuid × EntityRole × EntityKind) :=
  m.entities.filterMap fun ref =>
    match entities.lookup ref.entity with
    | none => none
    | some plan => if plan.kind = .self then none else some (plan.entityId, ref.role, plan.kind)

/-- The entity a memory is about. -/
def subjectOf (entities : List (String × EntityPlan)) (m : ProposedMemory) : Option EntityPlan :=
  (said m.subject).bind fun ref => entities.lookup ref

/-- `_triggers`: the reminder at a time. -/
def timeTriggers (lib : PlanLib) (ctx : IngestContext) (n : Nat) (m : ProposedMemory)
    (f : TimeFields) (resolved : List (String × Resolved)) : List NewTrigger :=
  let new (spec : Json) (firesAt : Instant) : List NewTrigger :=
    [⟨lib.newId (.timeTrigger n), { on := .time, spec := spec, firesAt := some firesAt }⟩]
  match resolved.find? (·.2.clock = .trigger) with
  | some (_, r) =>
    new (objectOf [("rule", .str "explicit"), ("expression", .str r.expression)])
      (if r.precision = .datetime then r.start else lib.reminderTime r.start r.precision 0)
  | none =>
    match m.reminder, f.occurredStart <|> f.dueAt with
    | none, _ | _, none => []
    | some reminder, some anchor =>
      let (minutes, rule) :=
        ((said reminder.lead).bind lib.resolveLead).getD (ctx.defaultLeadMinutes, "workspace default")
      new (objectOf [("lead_minutes", .num minutes), ("rule", .str rule)])
        (lib.reminderTime anchor (f.timePrecision.getD .day) minutes)

/-- `_moment_trigger`. -/
def momentTriggers (lib : PlanLib) (n : Nat) (m : ProposedMemory)
    (entities : List (String × EntityPlan)) : List NewTrigger :=
  let new (on : TriggerOn) (spec : Json) : List NewTrigger :=
    [⟨lib.newId (.momentTrigger n), { on := on, spec := spec }⟩]
  let cued (on : TriggerOn) (t : MomentTrigger) : List NewTrigger :=
    let cue := join " " (words (t.cue.getD ""))
    if cue = "" then []
    else new on (objectOf [("cue", .str cue), ("cue_hash", .str (lib.contentHash cue))])
  match m.trigger with
  | none => []
  | some t =>
    match t.on with
    | .person =>
      match entities.lookup (t.entity.getD "") with
      | none => []
      | some plan =>
        if plan.kind ≠ .person then []
        else new .person (objectOf
          [("entity_id", .str (lib.uuidText plan.entityId)), ("name", .str plan.name)])
    | .topic => cued .topic t
    | .situation => cued .situation t

/-- The content a plan gives a draft, before its quick decision. -/
def draftContent (lib : PlanLib) (ctx : IngestContext) (m : ProposedMemory)
    (entities : List (String × EntityPlan)) (resolved : List (String × Resolved))
    (subtypes predicates : List Term) (f : TimeFields) (sentiment : Option Sentiment)
    (importance : Importance) : ItemContent where
  kind := m.kind
  subtype := (said m.subtype).map (lib.normalise .subtype subtypes)
  format := if m.kind.1 = .resource then m.format else none
  state := (said m.state).getD ((kindStates m.kind).headD "")
  text := lib.fillDates m.text m resolved
  title := lib.fillDates m.title m resolved
  summary := m.summary
  tags := proposedTags lib.lib m
  attributes := proposedAttributes m
  enrichment := enrichmentOf resolved
  rationale := proposedRationale m
  rawContent := some ctx.message
  subjectEntityId := (subjectOf entities m).map (·.entityId)
  predicate :=
    if m.modality = .asserted then (said m.predicate).map (lib.normalise .predicate predicates)
    else none
  value := proposedValue m
  mentionedAt := ctx.now
  modality := m.modality
  sentiment := sentiment
  rating := m.rating.map fun r => [("value", r.value), ("scale", r.scale)]
  sensitivity := m.sensitivity
  importance := importance
  occurredStart := f.occurredStart
  occurredEnd := f.occurredEnd
  timePrecision := f.timePrecision
  rrule := f.rrule
  dueAt := f.dueAt
  validFrom := f.validFrom
  validTo := f.validTo

/-! ## The plan -/

/-- A proposed memory on its way to becoming ops. -/
structure Plan where
  proposed : ProposedMemory
  draft : Draft
  title : String
  categorySlug : Option String
  triggers : List NewTrigger
  core : Bool

/-- A key entity the memory is about. -/
def aboutKey (entities : List (String × EntityPlan)) (m : ProposedMemory) : Bool :=
  (m.entities.any fun ref =>
    ref.role = .about && (entities.lookup ref.entity).any (·.isKey)) ||
  (subjectOf entities m).any (·.isKey)

/-- What `ItemContent` checks of a sentiment. -/
def checkSentiment : Option Int → Except Failure (Option Sentiment)
  | none => .ok none
  | some s =>
    if h : -2 ≤ s ∧ s ≤ 2 then .ok (some ⟨s, h⟩) else .error (.validationError "sentiment")

/-- What `ItemContent` checks of an importance. -/
def checkImportance (n : Int) : Except Failure Importance :=
  if h : 1 ≤ n.toNat ∧ n.toNat ≤ 5 then .ok ⟨n.toNat, h⟩
  else .error (.validationError "importance")

/-- `_plan`, for the memory at position `n`: the plan, and the categories with the one it may
have made. -/
def makePlan (lib : PlanLib) (ctx : IngestContext) (entities : List (String × EntityPlan))
    (resolve : ProposedMemory → List (String × Resolved)) (subtypes predicates : List Term)
    (categories : List Term) (n : Nat) (m : ProposedMemory) :
    Except Failure (Plan × List Term) := do
  let resolved := resolve m
  let f ← timeFields lib resolved
  let sentiment ← checkSentiment m.sentiment
  let importance ← checkImportance m.importance
  let category := (said m.category).map (lib.normalise .category categories)
  let categories := match category with
    | none => categories
    | some slug => if categories.any (·.slug = slug) then categories else categories ++ [{ slug }]
  let content := draftContent lib ctx m entities resolved subtypes predicates f sentiment importance
  let triggers := timeTriggers lib ctx n m f resolved ++ momentTriggers lib n m entities
  let quick := lib.quickLayer content (triggers.map (·.trigger))
  let content := { content with inQuick := quick.inQuick, quickReason := quick.reason
                                quickUntil := quick.until_ }
  let core := m.layer = .core ∨ (m.kind.1 ∈ [Kind.fact, .preference] ∧ aboutKey entities m)
  return ({ proposed := m
            draft := { ref := m.ref, itemId := lib.newId (.item n), content := content
                       entities := draftEntities entities m }
            title := lib.fillDates m.title m resolved
            categorySlug := category
            triggers := triggers
            core := core ∧ content.modality ≠ .hypothetical }, categories)

/-- `_plan_all`, from the memory at position `n` on. -/
def makePlans (lib : PlanLib) (ctx : IngestContext) (entities : List (String × EntityPlan))
    (resolve : ProposedMemory → List (String × Resolved)) (subtypes predicates : List Term) :
    List Term → Nat → List ProposedMemory → Except Failure (List Plan)
  | _, _, [] => .ok []
  | categories, n, m :: ms => do
    let (plan, categories) ←
      makePlan lib ctx entities resolve subtypes predicates categories n m
    let plans ← makePlans lib ctx entities resolve subtypes predicates categories (n + 1) ms
    return plan :: plans

/-! ## What a plan is made of -/

section

variable {lib : PlanLib} {ctx : IngestContext} {entities : List (String × EntityPlan)}
  {resolve : ProposedMemory → List (String × Resolved)} {subtypes predicates : List Term}

/-- The plan `p` is made of the memory `m`. -/
structure Drafted (lib : PlanLib) (ctx : IngestContext) (entities : List (String × EntityPlan))
    (resolve : ProposedMemory → List (String × Resolved)) (subtypes predicates : List Term)
    (m : ProposedMemory) (p : Plan) : Prop where
  proposed : p.proposed = m
  named : p.draft.entities = draftEntities entities m
  content : ∃ f sentiment importance, ∃ quick : QuickDecision,
    timeFields lib (resolve m) = .ok f ∧
    p.draft.content = { draftContent lib ctx m entities (resolve m) subtypes predicates f
      sentiment importance with inQuick := quick.inQuick, quickReason := quick.reason
                                quickUntil := quick.until_ }

theorem makePlan_drafted {categories categories' : List Term} {n : Nat} {m : ProposedMemory}
    {p : Plan} (h : makePlan lib ctx entities resolve subtypes predicates categories n m
      = .ok (p, categories')) :
    Drafted lib ctx entities resolve subtypes predicates m p := by
  obtain ⟨f, hf, h⟩ := bind_eq_ok.1 h
  obtain ⟨sentiment, -, h⟩ := bind_eq_ok.1 h
  obtain ⟨importance, -, h⟩ := bind_eq_ok.1 h
  cases h
  exact ⟨rfl, rfl, f, sentiment, importance, _, hf, rfl⟩

/-- **Every plan** is made of a memory of the message. -/
theorem makePlans_drafted {categories : List Term} {n : Nat} {ms : List ProposedMemory}
    {plans : List Plan}
    (h : makePlans lib ctx entities resolve subtypes predicates categories n ms = .ok plans)
    {p : Plan} (hp : p ∈ plans) :
    ∃ m ∈ ms, Drafted lib ctx entities resolve subtypes predicates m p := by
  induction ms generalizing categories n plans with
  | nil =>
    cases h
    exact absurd hp List.not_mem_nil
  | cons m ms ih =>
    obtain ⟨⟨plan, categories'⟩, hplan, h⟩ := bind_eq_ok.1 h
    obtain ⟨rest, hrest, h⟩ := bind_eq_ok.1 h
    cases h
    rcases List.mem_cons.1 hp with rfl | hp
    · exact ⟨m, List.mem_cons_self, makePlan_drafted hplan⟩
    · obtain ⟨m', hm', hdrafted⟩ := ih hrest hp
      exact ⟨m', List.mem_cons_of_mem _ hm', hdrafted⟩

/-- Each memory gets one plan. -/
theorem length_makePlans {categories : List Term} {n : Nat} {ms : List ProposedMemory}
    {plans : List Plan}
    (h : makePlans lib ctx entities resolve subtypes predicates categories n ms = .ok plans) :
    plans.length = ms.length := by
  induction ms generalizing categories n plans with
  | nil =>
    cases h
    rfl
  | cons m ms ih =>
    obtain ⟨⟨plan, categories'⟩, -, h⟩ := bind_eq_ok.1 h
    obtain ⟨rest, hrest, h⟩ := bind_eq_ok.1 h
    cases h
    exact congrArg (· + 1) (ih hrest)

namespace Drafted

variable {m : ProposedMemory} {p : Plan}

/-- A draft is an active item outside core, as sensitive as the memory it is made of. -/
theorem fresh (h : Drafted lib ctx entities resolve subtypes predicates m p) :
    p.draft.content.status = .active ∧ p.draft.content.inCore = false ∧
      p.draft.content.sensitivity = m.sensitivity ∧ p.draft.content.coreConfirmedAt = none := by
  obtain ⟨f, sentiment, importance, quick, -, hcontent⟩ := h.content
  rw [hcontent]
  exact ⟨rfl, rfl, rfl, rfl⟩

/-- A draft keeps the message. -/
theorem rawContent (h : Drafted lib ctx entities resolve subtypes predicates m p) :
    p.draft.content.rawContent = some ctx.message := by
  obtain ⟨f, sentiment, importance, quick, -, hcontent⟩ := h.content
  rw [hcontent]
  rfl

end Drafted

end

end SecondMind
