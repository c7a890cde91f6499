import SecondMind.Ingestion.Drafts
import SecondMind.Ingestion.Mentions

/-!
# Entities

`ingestion/entities.py`: what each mention of a message becomes.  A mention is looked for by its
name, then by its text, then by the relationship label of a person; where nothing is found an entity
is created, and what is new about a known one is written as an update of it.

* `updateFor` — the update of a known entity, and `newEntity` — a new one;
* `resolveOne` — the plan of one mention, `resolveEntities` — those of a message.
-/

namespace SecondMind

namespace Entities

open Mentions

/-! ## Words -/

/-- `SELF_WORDS`. -/
def selfWords : List String := ["i", "me", "my", "myself", "mine", "self", "user", "the user"]

/-- `CLOSE_LABELS`. -/
def closeLabels : List String :=
  ["wife", "husband", "partner", "spouse", "boyfriend", "girlfriend", "fiance", "fiancee", "mother",
    "mom", "mum", "father", "dad", "sister", "brother", "son", "daughter", "grandmother",
    "grandfather", "grandma", "grandpa", "best friend"]

/-- `EntityKind.value`. -/
def kindValue : EntityKind → String
  | .self => "self"
  | .person => "person"
  | .place => "place"
  | .org => "org"
  | .thing => "thing"
  | .work => "work"
  | .topic => "topic"
  | .project => "project"
  | .list => "list"

/-- A text that is given: `text or ""`. -/
def given (text : Option String) : Option String := text.filter (· ≠ "")

variable (lib : TextLib)

/-- `is_key_label`. -/
def isKeyLabel (label : Option String) : Bool :=
  (given label).any fun label => String.ofList (clean lib label) ∈ closeLabels

/-- `_unique`: each of the values, unless one before it has the same key. -/
def unique (values : List String) : List String :=
  values.foldl (fun out v => if v ≠ "" ∧ clean lib v ∉ out.map (clean lib) then out ++ [v] else out) []

/-- `_dedupe`: the latest first, each once. -/
def dedupe (entities : List EntityRecord) : List EntityRecord :=
  (entities.insertionSort fun a b => b.updatedAt ≤ a.updatedAt).foldl
    (fun out e => if e.id ∈ out.map (·.id) then out else out ++ [e]) []

/-- `_display`. -/
def display (mention : String) : String :=
  let text := (strip mention).toList
  let rest := text.dropWhile fun c => !isSpace c
  let cleaned :=
    if (text.takeWhile fun c => !isSpace c).map Char.toLower ∈ articles ∧ rest ≠ [] then
      rest.dropWhile isSpace
    else text
  if cleaned ≠ [] then String.ofList cleaned else strip mention

/-! ## A known entity -/

/-- Only the label of a person is known, and the name stands for it. -/
def isPlaceholder (e : EntityContent) : Bool := e.attributes.get "name_known" = .bool false

/-- The name that a placeholder is given. -/
def newName (x : ExtractedEntity) (e : EntityContent) : Option String :=
  ((given x.name).filter fun name => isPlaceholder e ∧ clean lib name ≠ clean lib e.name).map strip

/-- The label that a mention adds. -/
def newLabel (x : ExtractedEntity) (e : EntityContent) : Option String :=
  ((given x.label).filter fun label => clean lib label ∉ e.labels.map (clean lib)).map fun label =>
    lib.lower (strip label)

/-- The labels with the new one. -/
def labelsWith (x : ExtractedEntity) (e : EntityContent) : List String :=
  e.labels ++ (newLabel lib x e).toList

/-- The aliases that a mention adds: the name that is replaced, and its own text. -/
def newAliases (x : ExtractedEntity) (e : EntityContent) : List String :=
  (if (newName lib x e).isSome then [e.name] else []) ++
    if strip x.mention ≠ "" ∧ clean lib x.mention ∉ keys lib e ∧
      clean lib x.mention ∉ (labelsWith lib x e).map (clean lib) then [strip x.mention] else []

/-- What is said of an update. -/
def changes (x : ExtractedEntity) (e : EntityContent) : List String :=
  ((newName lib x e).toList.map ("named " ++ ·)) ++ ((newLabel lib x e).toList.map ("label " ++ ·))

/-- The content that an update writes. -/
def updated (x : ExtractedEntity) (e : EntityContent) : EntityContent :=
  let name := (newName lib x e).getD e.name
  let labels := labelsWith lib x e
  { kind := e.kind
    name := name
    aliases := unique lib (e.aliases ++ newAliases lib x e)
    labels := unique lib labels
    isKey := e.isKey || labels.any fun label => isKeyLabel lib (some label)
    attributes :=
      if name ≠ e.name then .obj (setMember "name_known" (.bool true) e.attributes.members)
      else e.attributes
    summary := e.summary
    summaryUpdatedAt := e.summaryUpdatedAt }

/-- `_update_for`. -/
def updateFor (x : ExtractedEntity) (e : EntityRecord) : Option EntityUpsert :=
  if changes lib x e.toEntityContent = [] then none
  else
    let content := updated lib x e.toEntityContent
    some { entityId := e.id, entity := content, create := false, title := content.name
           rationale := ", ".intercalate (changes lib x e.toEntityContent) }

/-! ## A new entity -/

/-- The label of a new entity. -/
def ownLabel (x : ExtractedEntity) : Option String :=
  given (some (lib.lower (strip (x.label.getD ""))))

/-- The name of a new entity: that of the mention, or the label, or the text. -/
def ownName (x : ExtractedEntity) : String :=
  (given (some (strip (x.name.getD "")))).getD ((ownLabel lib x).getD (display x.mention))

/-- The content of a new entity. -/
def created (x : ExtractedEntity) : EntityContent where
  kind := x.kind
  name := ownName lib x
  aliases :=
    if clean lib x.mention ∉ [clean lib (ownName lib x), []] then [strip x.mention] else []
  labels := (ownLabel lib x).toList
  isKey := x.kind = .person ∧ isKeyLabel lib (ownLabel lib x) = true
  attributes :=
    if x.kind = .person then .obj [("name_known", .bool (given x.name).isSome)] else .obj []

/-- `_new`. -/
def newEntity (x : ExtractedEntity) (id : Uuid) (note : String := "no match") : EntityPlan :=
  let content := created lib x
  { entityId := id
    kind := x.kind
    name := content.name
    op := some
      { entityId := id, entity := content, create := true, title := content.name
        rationale := s!"'{x.mention}' → {note} → new {kindValue x.kind} {content.name}" }
    isKey := content.isKey }

/-! ## The plans of a message -/

/-- What the model answers when several entities match: one of them or none, and the reason. -/
abbrev EntityChooser :=
  (x : ExtractedEntity) → (candidates : List EntityRecord) → Option (Fin candidates.length) × String

/-- The entities of the name of a mention, or of its text, or of its label. -/
def matches_ (x : ExtractedEntity) (pool : List EntityRecord) : List EntityRecord :=
  let nameKey := clean lib (x.name.getD "")
  let mentionKey := clean lib x.mention
  let labelKey := clean lib (x.label.getD "")
  let byName := pool.filter fun e => nameKey ≠ [] ∧ nameKey ∈ keys lib e.toEntityContent
  let byMention := pool.filter fun e => mentionKey ≠ [] ∧ mentionKey ∈ keys lib e.toEntityContent
  let byLabel := pool.filter fun e =>
    labelKey ≠ [] ∧ e.kind = .person ∧ labelKey ∈ e.labels.map (clean lib)
  if byName ≠ [] then byName else if byMention ≠ [] then byMention else byLabel

/-- The candidates of a mention: those of its kind, if there are such. -/
def candidates (x : ExtractedEntity) (pool : List EntityRecord) : List EntityRecord :=
  let found := dedupe (matches_ lib x pool)
  let sameKind := found.filter fun e => e.kind = x.kind
  if sameKind ≠ [] then sameKind else found

/-- The plan of a mention of a known entity. -/
def matched (x : ExtractedEntity) (chosen : EntityRecord) : EntityPlan :=
  let update := updateFor lib x chosen
  { entityId := chosen.id
    kind := chosen.kind
    name := (update.map (·.entity.name)).getD chosen.name
    op := update
    isKey := (update.map (·.entity.isKey)).getD chosen.isKey }

variable (choose : Option EntityChooser)

/-- `_resolve_one`. -/
def resolveOne (x : ExtractedEntity) (pool : List EntityRecord) (id : Uuid) : EntityPlan :=
  match candidates lib x pool, choose with
  | [], _ => newEntity lib x id
  | [chosen], _ => matched lib x chosen
  | first :: _ :: _, none => matched lib x first
  | first :: second :: others, some choose =>
    let all := first :: second :: others
    match choose x all with
    | (none, reason) => newEntity lib x id s!"none of {all.length} candidates fitted: {reason}"
    | (some i, _) => matched lib x (all.get i)

/-- The plan of the user. -/
def selfPlan (me : EntityRecord) : EntityPlan where
  entityId := me.id
  kind := .self
  name := "me"

/-- The mention is of the user. -/
def isFirstPerson (x : ExtractedEntity) : Bool :=
  x.kind = .self ∨ String.ofList (clean lib x.mention) ∈ selfWords ∨ lib.lower x.mention ∈ selfWords

/-- `_as_record`. -/
def asRecord (u : EntityUpsert) (now : Instant) : EntityRecord where
  toEntityContent := u.entity
  id := u.entityId
  createdAt := now
  updatedAt := now
  createdByTurnId := none
  updatedByTurnId := none

/-- What a plan adds to the entities that are known. -/
def addedBy (plan : EntityPlan) (now : Instant) : List EntityRecord :=
  (plan.op.filter (·.create)).toList.map (asRecord · now)

variable (me : EntityRecord) (now : Instant)

/-- The mentions one after the other, with the ids that are new for them. -/
def resolveFrom : List EntityRecord → List (ExtractedEntity × Uuid) → List (String × EntityPlan)
  | _, [] => []
  | pool, (x, id) :: rest =>
    if isFirstPerson lib x then (x.id, selfPlan me) :: resolveFrom pool rest
    else
      let plan := resolveOne lib choose x pool id
      (x.id, plan) :: resolveFrom (pool ++ addedBy plan now) rest

/-- `plans[ref] = plan`. -/
def assign (plans : List (String × EntityPlan)) (ref : String) (plan : EntityPlan) :
    List (String × EntityPlan) :=
  if ref ∈ plans.map (·.1) then plans.map fun e => if e.1 = ref then (ref, plan) else e
  else plans ++ [(ref, plan)]

/-- The entities that a mention may be of. -/
def poolOf (known : List EntityRecord) : List EntityRecord :=
  known.filter fun e => e.kind ≠ .self ∧ e.status = .active

/-- `resolve_entities`. -/
def resolveEntities (known : List EntityRecord) (extracted : List (ExtractedEntity × Uuid)) :
    List (String × EntityPlan) :=
  (resolveFrom lib choose me now (poolOf known) extracted).foldl
    (fun plans e => assign plans e.1 e.2) [("self", selfPlan me)]

end Entities

end SecondMind
