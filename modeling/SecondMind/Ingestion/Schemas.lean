import SecondMind.Core.Text
import SecondMind.Memory.Records

/-!
# What an extraction is

The structured output of the `extract` step, as `ingestion/schemas.py` declares it, and the
checks of `validate_extraction` that the schema cannot express.  The word for null that a model
may write where null is allowed is null here already.

* `ValidExtraction` — an extraction without errors;
* `ValidExtraction.state_valid` — a proposed state is one of its kind's.
-/

namespace SecondMind

/-- Which of a memory's times an expression is about. -/
inductive TimeClock
  | occurred | valid | due | trigger
  deriving DecidableEq, Repr

/-- What the built-in `str` does by the Unicode tables and by the printing of floats. -/
structure TextLib where
  lower : String → String
  repr : String → String
  str : Json → String
  str_str : ∀ text, str (.str text) = text

/-- A kind that a model may propose. -/
abbrev KindLabel := { kind : Kind // kind ≠ .pattern }

theorem fact_isLabel : Kind.fact ≠ .pattern := by decide

theorem note_isLabel : Kind.note ≠ .pattern := by decide

/-- A link that a model may propose. -/
abbrev LinkLabel :=
  { type : LinkType // type ∈ [LinkType.partOf, .follows, .because, .evidenceFor, .giftForEvent,
    .derivedFrom] }

inductive DirectionLabel
  | past | future
  deriving DecidableEq, Repr

structure ExtractedEntity where
  id : String
  mention : String
  name : Option String
  kind : EntityKind
  label : Option String

structure TimeExpression where
  id : String
  expression : String
  clock : TimeClock
  direction : Option DirectionLabel
  recurring : Bool

structure EntityRef where
  entity : String
  role : EntityRole

structure Attribute where
  key : String
  value : String

structure StatementValue where
  text : Option String
  number : Option Rat
  unit : Option String

structure Rating where
  value : Rat
  scale : Rat

structure MemoryLinkOut where
  type : LinkLabel
  «to» : String

structure Reminder where
  lead : Option String

/-- What a moment trigger waits for. -/
inductive MomentOn
  | person | topic | situation
  deriving DecidableEq, Repr

/-- A reminder for a moment: a person comes up, or a topic or situation does. -/
structure MomentTrigger where
  on : MomentOn
  entity : Option String
  cue : Option String

structure ProposedMemory where
  ref : String
  kind : KindLabel
  subtype : Option String := none
  format : Option ResourceFormat := none
  state : Option String := none
  title : String
  text : String
  summary : Option String := none
  category : Option String := none
  tags : List String := []
  attributes : List Attribute := []
  subject : Option String := none
  predicate : Option String := none
  value : Option StatementValue := none
  entities : List EntityRef := []
  times : List TimeExpression := []
  reminder : Option Reminder := none
  trigger : Option MomentTrigger := none
  modality : Modality := .asserted
  sentiment : Option Int := none
  rating : Option Rating := none
  sensitivity : Sensitivity := .normal
  importance : Int := 3
  links : List MemoryLinkOut := []
  layer : Layer := .archive
  layerRationale : String := ""
  rationale : String := ""

structure Relation where
  src : String
  relation : String
  dst : String
  evidence : Option String

structure NotWritten where
  what : String
  reason : String

structure ExtractOutput where
  entities : List ExtractedEntity := []
  memories : List ProposedMemory := []
  relations : List Relation := []
  notWritten : List NotWritten := []
  secretSpans : List String := []

/-! ## Its checks -/

/-- The id of a `[[t1]]` at the start of a text. -/
def placeholderAt : List Char → Option String
  | '[' :: '[' :: 't' :: cs =>
    let digits := cs.takeWhile isDigit
    if ¬ digits.isEmpty ∧ [']', ']'] <+: cs.dropWhile isDigit then some (String.ofList ('t' :: digits))
    else none
  | _ => none

/-- `_PLACEHOLDER.findall`.  No placeholder begins inside another one. -/
def placeholders (text : String) : List String := text.toList.tails.filterMap placeholderAt

/-- A character of a slug after the first. -/
def isSlugChar (c : Char) : Bool := c.isLower || c.isDigit || c ∈ ['_', '-', ' ', '/']

/-- `_SLUG.match`: `$` also matches before a line break at the end. -/
def isSlug (text : String) : Bool :=
  match text.toList with
  | [] => false
  | c :: cs =>
    let rest := if cs.getLast? = some '\n' then cs.dropLast else cs
    (c.isLower || c.isDigit) && rest.all isSlugChar

/-- `not text.strip()`. -/
def isBlank (text : String) : Bool := text.toList.all isSpace

def kindName : Kind → String
  | .fact => "fact"
  | .preference => "preference"
  | .episode => "episode"
  | .plan => "plan"
  | .task => "task"
  | .intention => "intention"
  | .resource => "resource"
  | .note => "note"
  | .rule => "rule"
  | .pattern => "pattern"

/-- `str` of a list of strings. -/
def listRepr (lib : TextLib) (values : List String) : String :=
  "[" ++ ", ".intercalate (values.map lib.repr) ++ "]"

/-- The errors of one memory. -/
def memoryErrors (lib : TextLib) (known refs : List String) (m : ProposedMemory) : List String :=
  let head := s!"memory {m.ref}: "
  let slugError (field : String) (value : Option String) : List String :=
    match value with
    | some v => if isSlug (lib.lower v) then [] else [head ++ s!"{field} {lib.repr v} is not a slug"]
    | none => []
  (match m.state with
    | some state =>
      if (kindStates m.kind).contains state then []
      else [head ++ s!"state {lib.repr state} is not one of {listRepr lib (kindStates m.kind)}"]
    | none => []) ++
  (if m.format ≠ none ∧ m.kind.1 ≠ .resource then [head ++ "format is only for kind resource"]
    else []) ++
  (match m.subject with
    | some subject =>
      if subject ∈ known then []
      else [head ++ s!"subject {lib.repr subject} is not an entity id or 'self'"]
    | none => []) ++
  ((m.entities.filter (·.entity ∉ known)).map fun ref =>
    head ++ s!"entity {lib.repr ref.entity} is not an entity id or 'self'") ++
  ([m.text, m.title].flatMap fun text =>
    ((placeholders text).filter (· ∉ m.times.map (·.id))).map fun id =>
      head ++ s!"placeholder [[{id}]] has no time expression with that id") ++
  ((m.links.filter (·.«to» ∉ refs)).map fun link =>
    head ++ "link to unknown memory " ++ lib.repr link.«to») ++
  (if 1 ≤ m.importance ∧ m.importance ≤ 5 then [] else [head ++ "importance must be 1-5"]) ++
  (match m.sentiment with
    | some sentiment =>
      if -2 ≤ sentiment ∧ sentiment ≤ 2 then [] else [head ++ "sentiment must be -2..2"]
    | none => []) ++
  slugError "subtype" m.subtype ++ slugError "predicate" m.predicate ++
  (if isBlank m.text ∨ isBlank m.title then [head ++ "title and text are required"] else [])

/-- The errors of one relation. -/
def relationErrors (lib : TextLib) (known refs : List String) (rel : Relation) : List String :=
  (if rel.src ∈ known ∧ rel.dst ∈ known then []
    else [s!"relation {lib.repr rel.relation}: src and dst must be entity ids or 'self'"]) ++
  match rel.evidence with
  | some evidence =>
    if evidence ∈ refs then []
    else [s!"relation {lib.repr rel.relation}: evidence {lib.repr evidence} is not a memory"]
  | none => []

/-- `validate_extraction`. -/
def validateExtraction (lib : TextLib) (out : ExtractOutput) : List String :=
  let ids := out.entities.map (·.id)
  let refs := out.memories.map (·.ref)
  let known := "self" :: ids
  (if ids.Nodup then [] else ["entity ids must be unique"]) ++
  (if refs.Nodup then [] else ["memory refs must be unique"]) ++
  out.memories.flatMap (memoryErrors lib known refs) ++
  out.relations.flatMap (relationErrors lib known refs)

/-- An extraction that the pipeline goes on with. -/
def ValidExtraction (lib : TextLib) (out : ExtractOutput) : Prop := validateExtraction lib out = []

namespace ValidExtraction

variable {lib : TextLib} {out : ExtractOutput}

theorem memory (h : ValidExtraction lib out) {m : ProposedMemory} (hm : m ∈ out.memories) :
    memoryErrors lib ("self" :: out.entities.map (·.id)) (out.memories.map (·.ref)) m = [] := by
  rw [ValidExtraction, validateExtraction] at h
  simp only [List.append_eq_nil_iff, List.flatMap_eq_nil_iff] at h
  exact h.1.2 m hm

/-- **A proposed state** is one of its kind's. -/
theorem state_valid (h : ValidExtraction lib out) {m : ProposedMemory} (hm : m ∈ out.memories)
    {state : String} (hs : m.state = some state) : validState m.kind state = true := by
  have herr := h.memory hm
  simp only [memoryErrors, List.append_eq_nil_iff, hs] at herr
  have hstate := herr.1.1.1.1.1.1.1.1.1.1
  by_contra hc
  rw [validState] at hc
  rw [if_neg hc] at hstate
  exact (nomatch hstate)

end ValidExtraction

end SecondMind
