import SecondMind.Ingestion.Drafts
import SecondMind.Memory.Batch

/-!
# The save pipeline

`IngestionPipeline.run`, from the extraction on: every memory gets a plan, every plan a decision
against the store as it is, and the decisions become the ops of one writer.

* `Save.writer` — the writer a save commits;
* `Save.ops` — its ops, in the order of the batch: entities, new items, changes of stored items,
  links, relations, promotions to core;
* `saveOf` — the save of a message of plain text, for the runs that other files look at.
-/

namespace SecondMind

open Reconciler

/-! ## The ops of one plan -/

/-- A plan with its decision. -/
structure DecidedPlan extends Plan where
  decision : Decision

namespace DecidedPlan

variable (p : DecidedPlan)

/-- The memory is stored already, as the candidate or as a detail of it. -/
def merged : Option ItemRecord :=
  if p.decision.decision ∈ [ReconcileDecision.noOp, .addDetail] then p.decision.candidate else none

/-- The op that makes the item. -/
def createOp (lib : PlanLib) (n : Nat) : Op where
  title := p.title
  rationale := p.draft.content.rationale.getD ""
  body := .createItem p.draft.itemId p.draft.content
    (p.draft.entities.zipIdx.map fun e => ⟨lib.newId (.entityRow n e.2), e.1.1, e.1.2.1⟩)
    p.triggers p.categorySlug none

/-- `_add_detail`. -/
def detailChanges (candidate : ItemRecord) : ItemChanges :=
  let new := p.draft.content
  let tags := (candidate.tags ++ new.tags).dedup.insertionSort (· ≤ ·)
  let attributes := objectOf (new.attributes.members ++ candidate.attributes.members)
  { tags := if tags ≠ candidate.tags then some tags else none
    attributes := if attributes ≠ candidate.attributes then some attributes else none
    summary :=
      if (said new.summary).isSome ∧ said candidate.summary = none then some new.summary else none }

def detailOps (candidate : ItemRecord) : List Op :=
  let changes := p.detailChanges candidate
  if changes.isEmpty then []
  else
    [{ title := candidate.title, rationale := "add detail to the stored memory"
       body := .updateItem candidate.id changes }]

/-- What the decision changes besides making the item. -/
def changeOps (lib : PlanLib) (ctx : IngestContext) (n : Nat) : List Op :=
  match p.decision.candidate with
  | none => []
  | some candidate =>
    let linkId := lib.newId (.decisionLink n)
    match p.decision.decision with
    | .supersede =>
      [{ title := candidate.title, rationale := p.decision.rule
         body := .supersedeItem candidate.id p.draft.itemId linkId
          (p.draft.content.validFrom.getD ctx.now)
          (if candidate.kind = .plan then "moved" else "superseded") }]
    | .fulfil =>
      [{ title := candidate.title, rationale := p.decision.rule
         body := .fulfilIntention candidate.id p.draft.itemId linkId "fulfilled" }]
    | .link =>
      [{ title := p.title ++ " → " ++ candidate.title, rationale := p.decision.rule
         body := .linkItems linkId p.draft.itemId .follows candidate.id }]
    | .addDetail => p.detailOps candidate
    | .noOp | .new => []

def promotionOps : List Op :=
  if p.core then
    [{ title := p.title, rationale := "a standing fact or preference about you or a key person"
       body := .updateItem p.draft.itemId { inCore := some true } }]
  else []

/-- The note of a memory that is stored already. -/
def notes : List DiffEntry :=
  match p.decision.decision, p.decision.candidate with
  | .noOp, some candidate =>
    [{ op := .notWritten, title := p.title, reason := "already saved as '" ++ candidate.title ++ "'"
       itemId := some candidate.id }]
  | _, _ => []

/-- The item a reference to the memory means. -/
def itemId : Option Uuid :=
  if p.decision.decision ∈ [ReconcileDecision.noOp, .addDetail] then
    p.decision.candidate.map (·.id)
  else some p.draft.itemId

end DecidedPlan

/-- `_ids_by_ref`: a later plan under the same reference wins. -/
def idsByRef (plans : List DecidedPlan) (ref : String) : Option Uuid :=
  (plans.filterMap fun p => p.itemId.map (p.draft.ref, ·)).reverse.lookup ref

def linkName : LinkType → String
  | .supersedes => "supersedes"
  | .fulfils => "fulfils"
  | .partOf => "part_of"
  | .follows => "follows"
  | .because => "because"
  | .evidenceFor => "evidence_for"
  | .duplicateOf => "duplicate_of"
  | .derivedFrom => "derived_from"
  | .giftForEvent => "gift_for_event"
  | .corrects => "corrects"

/-! ## A save -/

/-- Everything a save is given: the message, what the model steps and the other modules answer
for it, and the writer's settings. -/
structure Save where
  backend : Backend
  settings : WriterSettings := {}
  ctx : IngestContext
  lib : PlanLib
  extraction : ExtractOutput
  entities : List (String × EntityPlan) := []
  resolve : ProposedMemory → List (String × Resolved) := fun _ => []
  subtypes : List Term := []
  predicates : List Term := []
  relationTerms : List Term := []
  categories : List Term := []
  reconciler : Reconciler
  newId : Nat → Uuid := id
  vocabId : Nat → Uuid := id

namespace Save

variable (s : Save)

def secrets : List ProposedMemory := s.extraction.memories.filter (·.sensitivity = .secret)

def memories : List ProposedMemory := s.extraction.memories.filter (·.sensitivity ≠ .secret)

/-- The save refuses a secret and writes nothing else. -/
def refuses : Bool := s.ctx.secretFound ∨ (s.secrets ≠ [] ∧ s.memories = [])

/-- `_SECRET_TITLE`. -/
def secretTitle : String := "a secret (not shown)"

/-- `_secret_op`. -/
def secretOp : Op where
  title := secretTitle
  rationale := "secret"
  body := .createItem (s.lib.newId .secret)
    { kind := .fact, state := "current", text := "[redacted secret]", title := secretTitle
      mentionedAt := s.ctx.now, sensitivity := .secret } [] [] none none

/-- The plans. -/
def plans : Except Failure (List Plan) :=
  makePlans s.lib s.ctx s.entities s.resolve s.subtypes s.predicates s.categories 0 s.memories

theorem length_plans {s : Save} {plans : List Plan} (h : s.plans = .ok plans) :
    plans.length = s.memories.length :=
  length_makePlans h

/-- Every plan is decided against the store as it was before the message. -/
def decided (t : MemoryTables) (plans : List Plan) : List DecidedPlan :=
  plans.map fun p => { p with decision := s.reconciler.decide t p.draft }

/-- The relation that the extraction's relation at position `i` becomes. -/
def relationOp (ids : String → Option Uuid) (i : Nat) (rel : Relation) : Option (String × Op) :=
  match s.entities.lookup rel.src, s.entities.lookup rel.dst with
  | some src, some dst =>
    if src.entityId = dst.entityId then none
    else
      let slug := s.lib.normalise .relation s.relationTerms rel.relation
      some (slug, {
        title := src.name ++ " · " ++ slug ++ " · " ++ dst.name
        rationale := "stated relation between entities"
        body := .relateEntities (s.lib.newId (.relation i)) src.entityId slug dst.entityId none
          ((said rel.evidence).bind ids) })
  | _, _ => none

def relations (ids : String → Option Uuid) : List (String × Op) :=
  s.extraction.relations.zipIdx.filterMap fun e => s.relationOp ids e.2 e.1

/-- The links a memory states. -/
def linkOps (ids : String → Option Uuid) (n : Nat) (p : DecidedPlan) : List Op :=
  p.proposed.links.zipIdx.filterMap fun e =>
    match ids p.proposed.ref, ids e.1.«to» with
    | some src, some dst =>
      if src = dst then none
      else some {
        title := p.title ++ " · " ++ linkName e.1.type.1
        body := .linkItems (s.lib.newId (.memoryLink n e.2)) src e.1.type.1 dst }
    | _, _ => none

def entityOps : List Op := s.entities.filterMap fun e => e.2.op.map (·.op)

def createOps (plans : List DecidedPlan) : List Op :=
  plans.zipIdx.filterMap fun e => if e.1.merged.isSome then none else some (e.1.createOp s.lib e.2)

def changeOps (plans : List DecidedPlan) : List Op :=
  plans.zipIdx.flatMap fun e => e.1.changeOps s.lib s.ctx e.2

def promotionOps (plans : List DecidedPlan) : List Op :=
  plans.flatMap fun p => if p.merged.isSome then [] else p.promotionOps

/-- `_ops`. -/
def ops (plans : List DecidedPlan) : List Op :=
  let ids := idsByRef plans
  s.entityOps ++ s.createOps plans ++ s.changeOps plans ++
    (plans.zipIdx.flatMap fun e => s.linkOps ids e.2 e.1) ++ (s.relations ids).map (·.2) ++
    promotionOps plans

/-- The vocabulary terms of the plans and of the relations. -/
def vocab (plans : List DecidedPlan) : List (VocabKind × String × List String) :=
  (plans.flatMap fun p =>
    ((said p.draft.content.subtype).toList.map fun slug => (.subtype, slug, [])) ++
    ((said p.draft.content.predicate).toList.map fun slug => (.predicate, slug, []))) ++
  (s.relations (idsByRef plans)).map fun r => (.relation, r.1, [])

/-- A writer of the turn. -/
def turnWriter (ops : List Op) (notes : List DiffEntry)
    (vocab : List (VocabKind × String × List String)) : Writer where
  backend := s.backend
  turn := { turnId := s.ctx.turnId, kind := .user, now := s.ctx.now }
  settings := s.settings
  ops := ops
  notes := notes
  vocab := vocab
  newId := s.newId
  vocabId := s.vocabId

/-- The writer a save commits on a store. -/
def writer (t : MemoryTables) : Except Failure Writer :=
  if s.refuses then .ok (s.turnWriter [s.secretOp] [] [])
  else do
    let plans := s.decided t (← s.plans)
    let skipped := s.extraction.notWritten.map fun n =>
      { op := .notWritten, title := n.what, reason := n.reason : DiffEntry }
    return s.turnWriter (s.ops plans ++ if s.secrets = [] then [] else [s.secretOp])
      (plans.flatMap (·.notes) ++ skipped) (s.vocab plans)

/-- A save: the writer of the store as it is, committed. -/
def run (t : Tables) : Except Failure (Tables × CommitResult) := do
  let w ← s.writer t.toMemoryTables
  w.commit t

end Save

/-! ## Messages of plain text -/

/-- Lower-case text, and values that are text. -/
def plainText : TextLib where
  lower := id
  repr := fun text => "'" ++ text ++ "'"
  str := fun
    | .str text => text
    | _ => "None"
  str_str := fun _ => rfl

/-- The other modules on plain text: no dates in it, nothing for the quick layer, and the ids of
a turn of their own. -/
def plainLib (turn : Nat) : PlanLib where
  lib := plainText
  newId := fun
    | .item n => 100 * turn + n
    | .decisionLink n => 100 * turn + 10 + n
    | _ => 100 * turn + 20
  normalise := fun _ _ text => text
  fillDates := fun text _ _ => text
  validateRrule := fun rule _ => .ok rule
  quickLayer := fun _ _ => { inQuick := false }
  resolveLead := fun _ => none
  reminderTime := fun at_ _ lead => at_ - lead
  uuidText := fun _ => ""
  contentHash := id

/-- The save of a message, with the memories and the secret spans that a model extracts from it. -/
def saveOf (turn : Nat) (message : String) (memories : List ProposedMemory)
    (spans : List String := []) : Save where
  backend := .sql
  ctx := { turnId := turn, message := message, now := turn }
  lib := plainLib turn
  extraction := { memories := memories, secretSpans := spans }
  entities := [("self", { entityId := 0, kind := .self, name := "me" })]
  reconciler := { lib := plainText, threshold := 3 / 4, embed := none, choose := none }
  newId := fun n => 100 * turn + 30 + n
  vocabId := fun n => 100 * turn + 90 + n

end SecondMind
