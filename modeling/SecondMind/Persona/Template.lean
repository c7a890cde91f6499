import SecondMind.Keyed.Renaming
import SecondMind.Memory.Keys

/-!
# The persona template

`copy_persona_template` (migration 0007): the rows of the template are copied into a new workspace
under new ids, and their times are moved.  A row without a counterpart here (`vocab_terms` apart)
keeps its columns; those that are copied as they are stand in one field, `columns`.  A timestamp is
moved in the session's time zone, which is UTC.

* `Content`, `Content.ids`, `Content.refs` — the rows of a workspace, their ids and what they refer
  to;
* `personaMap` — the new ids;
* `copyContent` — the copied rows;
* `copyPersonaTemplate` — the function.
-/

namespace SecondMind
namespace Persona

open Keyed

/-! ## Rows -/

structure TurnRow where
  id : Uuid
  userId : Uuid
  startedAt : Instant
  finishedAt : Option Instant := none
  eventCount : Nat := 0
  parentTurnId : Option Uuid := none
  columns : Json := .null
  deriving DecidableEq

structure KeyRow extends KeyRecord where
  id : Uuid
  position : Option Nat := none
  createdAt : Instant
  updatedAt : Instant
  deriving DecidableEq

structure SourceRow where
  id : Uuid
  itemId : Uuid
  turnId : Uuid
  publishedAt : Option Instant := none
  fetchedAt : Option Instant := none
  createdAt : Instant
  updatedAt : Instant
  columns : Json := .null
  deriving DecidableEq

structure SaidRow where
  id : Uuid
  turnId : Uuid
  saidAt : Instant
  createdAt : Instant
  columns : Json := .null
  deriving DecidableEq

/-- The rows of a workspace that a copy accounts for. -/
structure Content where
  categories : List CategoryRecord := []
  vocab : List VocabRecord := []
  turns : List TurnRow := []
  entities : List EntityRecord := []
  items : List ItemRecord := []
  itemEntities : List ItemEntityRecord := []
  links : List LinkRecord := []
  relations : List RelationRecord := []
  triggers : List TriggerRecord := []
  keys : List KeyRow := []
  sources : List SourceRow := []
  said : List SaidRow := []
  deriving DecidableEq

/-- The kinds of rows that others refer to. -/
inductive RowKind
  | turn | entity | category | item
  deriving DecidableEq, Repr

/-! The foreign keys of a row. -/

def itemRefs (r : ItemRecord) : List (RowKind × Uuid) :=
  (.turn, r.createdByTurnId) :: (.turn, r.updatedByTurnId) ::
    (r.categoryId.toList.map (fun id => (.category, id)) ++
      r.subjectEntityId.toList.map fun id => (.entity, id))

def itemEntityRefs (r : ItemEntityRecord) : List (RowKind × Uuid) :=
  [(.item, r.itemId), (.entity, r.entityId), (.turn, r.createdByTurnId)]

def linkRefs (r : LinkRecord) : List (RowKind × Uuid) :=
  [(.item, r.srcItemId), (.item, r.dstItemId), (.turn, r.createdByTurnId)]

def relationRefs (r : RelationRecord) : List (RowKind × Uuid) :=
  (.entity, r.srcEntityId) :: (.entity, r.dstEntityId) :: (.turn, r.createdByTurnId) ::
    r.evidenceItemId.toList.map fun id => (.item, id)

def triggerRefs (r : TriggerRecord) : List (RowKind × Uuid) :=
  [(.item, r.itemId), (.turn, r.createdByTurnId), (.turn, r.updatedByTurnId)]

def keyRefs (r : KeyRow) : List (RowKind × Uuid) := [(.item, r.itemId)]

def sourceRefs (r : SourceRow) : List (RowKind × Uuid) := [(.item, r.itemId), (.turn, r.turnId)]

def saidRefs (r : SaidRow) : List (RowKind × Uuid) := [(.turn, r.turnId)]

namespace Content

/-- The ids that can be referred to. -/
def ids (c : Content) : List (RowKind × Uuid) :=
  [c.turns.map (fun r => (RowKind.turn, r.id)), c.entities.map (fun r => (RowKind.entity, r.id)),
    c.categories.map (fun r => (RowKind.category, r.id)),
    c.items.map (fun r => (RowKind.item, r.id))].flatten

/-- What the rows refer to by a foreign key. -/
def refs (c : Content) : List (RowKind × Uuid) :=
  [c.items.flatMap itemRefs, c.itemEntities.flatMap itemEntityRefs, c.links.flatMap linkRefs,
    c.relations.flatMap relationRefs, c.triggers.flatMap triggerRefs, c.keys.flatMap keyRefs,
    c.sources.flatMap sourceRefs, c.said.flatMap saidRefs].flatten

/-- The turns that rows name without a foreign key. -/
def looseRefs (c : Content) : List (RowKind × Uuid) :=
  c.turns.flatMap (fun r => r.parentTurnId.toList.map fun id => (.turn, id)) ++
    c.entities.flatMap fun r =>
      (r.createdByTurnId.toList ++ r.updatedByTurnId.toList).map fun id => (.turn, id)

/-- The entity of the person. -/
def self? (c : Content) : Option EntityRecord := c.entities.find? fun e => e.kind = .self

end Content

/-! ## Ids and times -/

/-- The tables of the copy. -/
inductive CopiedTable
  | vocab | categories | turns | entities | items | itemEntities | links | relations | triggers
  | keys | sources | said
  deriving DecidableEq, Repr

/-- `gen_random_uuid()`, for each row. -/
abbrev Random := CopiedTable → Uuid → Uuid

/-- `uuid_v7_at`: the milliseconds of the moment, and the random bits under the version. -/
def uuidV7At (moment : Instant) (random : Uuid) : Uuid :=
  (moment / 1000 % 2 ^ 48).toNat * 2 ^ 80 +
    ((random / 2 ^ 72 % 2 ^ 8 % 16) + 112) * 2 ^ 72 + random % 2 ^ 72

/-- How a uuid is written, and read again. -/
structure UuidText where
  write : Uuid → String
  read : String → Option Uuid
  read_write : ∀ id, read (write id) = some id

/-- One day, in microseconds. -/
def day : Instant := 86400000000

/-- How far a copy is moved, and when it is made. -/
structure Move where
  days : Int
  now : Instant

def Move.shift (s : Move) : Instant := s.days * day

/-- Whole weeks. -/
def Move.weeks (s : Move) : Instant := s.days / 7 * 7 * day

/-- A routine's clocks are moved by whole weeks, everything else by the days. -/
def Move.of (s : Move) (i : ItemRecord) : Instant := if i.rrule = none then s.shift else s.weeks

/-! ## The columns of a copied row -/

section

variable (s : Move)

def movedTurn (id user : Uuid) (parent : Option Uuid) (t : TurnRow) : TurnRow :=
  { t with
    id := id
    userId := user
    startedAt := t.startedAt + s.shift
    finishedAt := t.finishedAt.map (· + s.shift)
    eventCount := 0
    parentTurnId := parent }

/-- The copy's own entity takes the template's description of the person. -/
def describedSelf (template me : EntityRecord) : EntityRecord :=
  { me with
    aliases := template.aliases
    labels := template.labels
    attributes := template.attributes
    summary := template.summary
    updatedAt := s.now }

def movedEntity (id : Uuid) (created updated : Option Uuid) (e : EntityRecord) : EntityRecord :=
  { e with
    id := id
    summaryUpdatedAt := e.summaryUpdatedAt.map (· + s.shift)
    createdAt := s.now
    updatedAt := s.now
    createdByTurnId := created
    updatedByTurnId := updated }

def movedItem (id created updated : Uuid) (category subject : Option Uuid) (i : ItemRecord) :
    ItemRecord :=
  { i with
    id := id
    createdAt := s.now
    updatedAt := s.now
    createdByTurnId := created
    updatedByTurnId := updated
    categoryId := category
    subjectEntityId := subject
    mentionedAt := i.mentionedAt + s.of i
    occurredStart := i.occurredStart.map (· + s.of i)
    occurredEnd := i.occurredEnd.map (· + s.of i)
    dueAt := i.dueAt.map (· + s.of i)
    validFrom := i.validFrom.map (· + s.of i)
    validTo := i.validTo.map (· + s.of i)
    accessCount := 0
    lastAccessedAt := none
    coreConfirmedAt := i.coreConfirmedAt.map (· + s.shift)
    quickUntil := i.quickUntil.map (· + s.of i) }

def movedRelation (id src dst : Uuid) (evidence : Option Uuid) (turn : Uuid) (r : RelationRecord) :
    RelationRecord :=
  { r with
    id := id
    srcEntityId := src
    dstEntityId := dst
    validFrom := r.validFrom.map (· + s.shift)
    validTo := r.validTo.map (· + s.shift)
    evidenceItemId := evidence
    createdByTurnId := turn }

def movedTrigger (id item created updated : Uuid) (spec : Json) (x : TriggerRecord) :
    TriggerRecord :=
  { x with
    id := id
    itemId := item
    spec := spec
    firesAt := x.firesAt.map (· + s.shift)
    expiresAt := x.expiresAt.map (· + s.shift)
    createdAt := s.now
    updatedAt := s.now
    createdByTurnId := created
    updatedByTurnId := updated }

def movedKey (id item : Uuid) (k : KeyRow) : KeyRow :=
  { k with id := id, itemId := item, createdAt := s.now, updatedAt := s.now }

def movedSource (id item turn : Uuid) (x : SourceRow) : SourceRow :=
  { x with
    id := id
    itemId := item
    turnId := turn
    publishedAt := x.publishedAt.map (· + s.shift)
    fetchedAt := x.fetchedAt.map (· + s.shift)
    createdAt := s.now
    updatedAt := s.now }

def movedSaid (id turn : Uuid) (x : SaidRow) : SaidRow :=
  { x with id := id, turnId := turn, saidAt := x.saidAt + s.shift, createdAt := s.now }

/-- `spec ->> 'entity_id'`, where the spec has it. -/
def personIn : Json → Option Json
  | .obj members => members.lookup "entity_id"
  | _ => none

/-- `jsonb_set`. -/
def withPerson (person : Json) : Json → Json
  | .obj members => .obj (members.map fun m => if m.1 = "entity_id" then (m.1, person) else m)
  | spec => spec

end

/-! ## The copy -/

/-- Why the function raises. -/
inductive CopyError
  | movesBack | notATemplate | notANewCopy | notEmpty | notNull | badUuid
  deriving DecidableEq, Repr

def notNull {α : Type} : Option α → Except CopyError α
  | some a => .ok a
  | none => .error .notNull

/-- `_persona_map`. -/
def personaMap (random : Random) (s : Move) (src : Content) (selfOld selfNew : Uuid) :
    IdMap RowKind Uuid :=
  src.turns.map (fun t => ((.turn, t.id), uuidV7At (t.startedAt + s.shift) (random .turns t.id))) ++
    (src.entities.filter (fun e => e.kind ≠ .self)).map
      (fun e => ((.entity, e.id), random .entities e.id)) ++
    [((.entity, selfOld), selfNew)] ++
    src.categories.map (fun c => ((.category, c.id), random .categories c.id)) ++
    src.items.map fun i => ((.item, i.id), random .items i.id)

section

variable (u : UuidText) (random : Random) (s : Move) (m : IdMap RowKind Uuid)

def selectItem (i : ItemRecord) : Option (Except CopyError ItemRecord) :=
  (m.new? .item i.id).map fun id => do
    let created ← notNull (m.new? .turn i.createdByTurnId)
    let updated ← notNull (m.new? .turn i.updatedByTurnId)
    return movedItem s id created updated (i.categoryId.bind (m.new? .category))
      (i.subjectEntityId.bind (m.new? .entity)) i

def selectItemEntity (x : ItemEntityRecord) : Option (Except CopyError ItemEntityRecord) := do
  let item ← m.new? .item x.itemId
  let entity ← m.new? .entity x.entityId
  return do
    let turn ← notNull (m.new? .turn x.createdByTurnId)
    return { x with
      id := random .itemEntities x.id, itemId := item, entityId := entity, createdByTurnId := turn }

def selectLink (x : LinkRecord) : Option (Except CopyError LinkRecord) := do
  let src ← m.new? .item x.srcItemId
  let dst ← m.new? .item x.dstItemId
  return do
    let turn ← notNull (m.new? .turn x.createdByTurnId)
    return { x with
      id := random .links x.id, srcItemId := src, dstItemId := dst, createdByTurnId := turn }

def selectRelation (x : RelationRecord) : Option (Except CopyError RelationRecord) := do
  let src ← m.new? .entity x.srcEntityId
  let dst ← m.new? .entity x.dstEntityId
  return do
    let turn ← notNull (m.new? .turn x.createdByTurnId)
    return movedRelation s (random .relations x.id) src dst
      (x.evidenceItemId.bind (m.new? .item)) turn x

/-- The spec of a copied trigger: the person it waits for has a new id. -/
def copiedSpec (spec : Json) : Except CopyError Json :=
  match personIn spec with
  | none => .ok spec
  | some (.str text) =>
    match u.read text with
    | some entity => do
      let new ← notNull (m.new? .entity entity)
      return withPerson (.str (u.write new)) spec
    | none => .error .badUuid
  | some .null => .error .notNull
  | some _ => .error .badUuid

def selectTrigger (x : TriggerRecord) : Option (Except CopyError TriggerRecord) :=
  (m.new? .item x.itemId).map fun item => do
    let spec ← copiedSpec u m x.spec
    let created ← notNull (m.new? .turn x.createdByTurnId)
    let updated ← notNull (m.new? .turn x.updatedByTurnId)
    return movedTrigger s (random .triggers x.id) item created updated spec x

def selectKey (k : KeyRow) : Option (Except CopyError KeyRow) :=
  (m.new? .item k.itemId).map fun item => .ok (movedKey s (random .keys k.id) item k)

def selectSource (x : SourceRow) : Option (Except CopyError SourceRow) :=
  (m.new? .item x.itemId).map fun item => do
    let turn ← notNull (m.new? .turn x.turnId)
    return movedSource s (random .sources x.id) item turn x

def selectSaid (x : SaidRow) : Option (Except CopyError SaidRow) :=
  (m.new? .turn x.turnId).map fun turn => .ok (movedSaid s (random .said x.id) turn x)

def selectTurn (user : Uuid) (t : TurnRow) : Option (Except CopyError TurnRow) :=
  (m.new? .turn t.id).map fun id =>
    .ok (movedTurn s id user (t.parentTurnId.bind (m.new? .turn)) t)

def selectEntity (e : EntityRecord) : Option (Except CopyError EntityRecord) :=
  (m.new? .entity e.id).map fun id =>
    .ok (movedEntity s id (e.createdByTurnId.bind (m.new? .turn))
      (e.updatedByTurnId.bind (m.new? .turn)) e)

def selectCategory (c : CategoryRecord) : Option (Except CopyError CategoryRecord) :=
  (m.new? .category c.id).map fun id => .ok { c with id := id }

end

/-- The statements of the function: what the copy holds when they are done. -/
def copyContent (u : UuidText) (random : Random) (s : Move) (user : Uuid) (src dst : Content) :
    Except CopyError Content := do
  let template ← notNull src.self?
  let me ← notNull dst.self?
  let m := personaMap random s src template.id me.id
  let categories ← insertAll src.categories (selectCategory m)
  let turns ← insertAll src.turns (selectTurn s m user)
  let entities ← insertAll (src.entities.filter fun e => e.kind ≠ .self) (selectEntity s m)
  let items ← insertAll src.items (selectItem s m)
  let itemEntities ← insertAll src.itemEntities (selectItemEntity random m)
  let links ← insertAll src.links (selectLink random m)
  let relations ← insertAll src.relations (selectRelation random s m)
  let triggers ← insertAll src.triggers (selectTrigger u random s m)
  let keys ← insertAll src.keys (selectKey random s m)
  let sources ← insertAll src.sources (selectSource random s m)
  let said ← insertAll src.said (selectSaid random s m)
  return {
    categories := dst.categories ++ categories
    vocab := dst.vocab ++ src.vocab.map fun v => { v with id := random .vocab v.id }
    turns := dst.turns ++ turns
    entities :=
      dst.entities.map (fun e => if e.id = me.id then describedSelf s template e else e) ++ entities
    items := dst.items ++ items
    itemEntities := dst.itemEntities ++ itemEntities
    links := dst.links ++ links
    relations := dst.relations ++ relations
    triggers := dst.triggers ++ triggers
    keys := dst.keys ++ keys
    sources := dst.sources ++ sources
    said := dst.said ++ said }

/-! ## Workspaces -/

inductive WorkspaceKind
  | «private» | guest | personaCopy | template | scratch
  deriving DecidableEq, Repr

structure Workspace where
  ownerUserId : Uuid
  kind : WorkspaceKind
  seedId : Option String := none
  seedVersion : Option Nat := none
  movedDays : Option Int := none
  content : Content
  deriving DecidableEq

/-- The workspaces by their ids. -/
abbrev Workspaces := Uuid → Option Workspace

/-- `copy_persona_template(p_template, p_workspace, p_user, p_shift_days)`. -/
def copyPersonaTemplate (u : UuidText) (random : Random) (s : Move) (template workspace user : Uuid)
    (db : Workspaces) : Except CopyError Workspaces :=
  if s.days < 0 then .error .movesBack
  else
    match (db template).filter fun w => w.kind = .template with
    | none => .error .notATemplate
    | some src =>
      match (db workspace).filter fun w => w.ownerUserId = user ∧ w.kind = .personaCopy with
      | none => .error .notANewCopy
      | some dst =>
        if dst.content.items ≠ [] ∨ dst.content.turns ≠ [] then .error .notEmpty
        else do
          let content ← copyContent u random s user src.content dst.content
          return Function.update db workspace (some { dst with
            seedId := src.seedId
            seedVersion := src.seedVersion
            movedDays := some s.days
            content := content })

end Persona
end SecondMind
