import SecondMind.Memory.Render

/-!
# Search keys

`memory/keys.py`.  The keys of an item are derived from the store: its text, the rendered sentence
and, when it superseded another item, what changed; what the enrich step adds comes after them.  A
rebuild is two transactions: one renders, and one, when the embeddings are there, writes.

The order in which the store lists rows, the hash of a text and the embeddings are given.

* `KeyIndexer.inputOf`, `KeyIndexer.derivedOf` — what an item is rendered from, and its derived keys;
* `KeyIndexer.render` — the first transaction of a rebuild;
* `KeyIndexer.write` — the second one;
* `CommitResult.touchedItems` — the items whose keys a commit has rebuilt.
-/

namespace SecondMind

open Keyed Render Regex Regex.Pattern

inductive KeyKind
  | text | verbal | alt | cue | question | change | chunk
  deriving DecidableEq, Repr

/-- `DERIVED_KINDS`. -/
def derivedKinds : List KeyKind := [.text, .verbal, .change]

/-- `ENRICHED_KINDS`. -/
def enrichedKinds : List KeyKind := [.alt, .cue]

/-- The numbers of an embedding. -/
abbrev Embedding := List Rat

structure KeyRecord where
  itemId : Uuid
  keyKind : KeyKind
  text : String
  contentHash : String
  embedding : Option Embedding := none
  embeddingModel : Option String := none
  deriving DecidableEq

/-! ## Relative time words -/

/-- `RELATIVE_WORDS`. -/
def relativeWords : Pattern :=
  let words (ws : List String) : Pattern := any (ws.map anyCase)
  all [edge, alt (words ["yesterday", "tomorrow", "today", "tonight", "ago"])
    (all [words ["last", "next", "this", "coming", "past"], plus (one isSpace),
      words ["week", "month", "year", "weekend", "monday", "tuesday", "wednesday", "thursday",
        "friday", "saturday", "sunday"]]), edge]

/-- `has_relative_time`. -/
def hasRelativeTime (text : String) : Bool := found relativeWords text.toList

/-! ## Listings -/

/-- The order in which the store lists its rows. -/
structure Listing where
  links : MemoryTables → List LinkRecord
  itemEntities : MemoryTables → List ItemEntityRecord
  categories : Tables → List CategoryRecord
  links_rows : ∀ t, (links t : Multiset LinkRecord) = t.links.rows
  itemEntities_rows : ∀ t, (itemEntities t : Multiset ItemEntityRecord) = t.itemEntities.rows
  categories_rows : ∀ t, (categories t : Multiset CategoryRecord) = t.categories.rows

/-- The rows by their ids. -/
def Listing.byId : Listing where
  links t := t.links.inOrder
  itemEntities t := t.itemEntities.inOrder
  categories t := t.categories.inOrder
  links_rows t := t.links.coe_inOrder
  itemEntities_rows t := t.itemEntities.coe_inOrder
  categories_rows t := t.categories.coe_inOrder

/-! ## Rendering -/

/-- `KeyIndexer`, without the store and the embedder. -/
structure KeyIndexer where
  lib : RenderLib
  listing : Listing
  sha256 : String → String
  model : String
  verbalEnabled : Bool := true

/-- What the enrich step adds to items: no key of a derived kind. -/
abbrev ExtraKeys := List (Uuid × List ({ kind : KeyKind // kind ∈ enrichedKinds } × String))

/-- `_type_label`. -/
def typeLabel (attributes : Json) : Option String :=
  match attributes.get "type" with
  | .str value => if value = "" then none else some value
  | _ => none

namespace KeyIndexer

variable (ix : KeyIndexer)

/-- `content_hash`. -/
def contentHash (text : String) : String := ix.sha256 (join " " (words text))

/-- The entities a sentence may name. -/
def activeEntity (t : MemoryTables) (id : Uuid) : Option EntityRecord :=
  (t.getEntity id).filter (·.status = .active)

/-- The entities of an item, its subject the last unless a row says what it is about. -/
def entitiesOf (t : MemoryTables) (item : ItemRecord) : List RenderEntity :=
  let listed := (ix.listing.itemEntities t).filterMap fun row =>
    if row.itemId = item.id then
      (activeEntity t row.entityId).map fun e : EntityRecord =>
        ({ name := e.name, role := row.role, kind := e.kind, label := e.labels.head?
           typeLabel := typeLabel e.attributes } : RenderEntity)
    else none
  match item.subjectEntityId.bind (activeEntity t) with
  | some subject =>
    if listed.any (·.role = .about) then listed
    else listed ++
      [{ name := subject.name, role := .about, kind := subject.kind, label := subject.labels.head? }]
  | none => listed

/-- `_linked`: the item at the other end of the first such link. -/
def linked (t : MemoryTables) (itemId : Uuid) (linkType : LinkType) (incoming : Bool) :
    Option ItemContent :=
  (ix.listing.links t).findSome? fun link =>
    if link.linkType ≠ linkType then none
    else if incoming ∧ link.dstItemId = itemId then
      (t.getItem link.srcItemId).map (·.toItemContent)
    else if !incoming ∧ link.srcItemId = itemId then
      (t.getItem link.dstItemId).map (·.toItemContent)
    else none

/-- The slug of a category; of two under one id the later counts. -/
def categorySlug (t : Tables) (id : Uuid) : Option String :=
  ((ix.listing.categories t).reverse.find? (·.id = id)).map (·.slug)

/-- What an item is rendered from. -/
def inputOf (t : Tables) (item : ItemRecord) : RenderInput where
  item := item.toItemContent
  entities := ix.entitiesOf t.toMemoryTables item
  category := item.categoryId.bind (ix.categorySlug t)
  supersededBy := ix.linked t.toMemoryTables item.id .supersedes true
  replaced := ix.linked t.toMemoryTables item.id .supersedes false
  fulfilledBy := ix.linked t.toMemoryTables item.id .fulfils true
  correctedBy := ix.linked t.toMemoryTables item.id .corrects true

/-- The rendered sentence, if it is asked for. -/
def verbalOf (inp : RenderInput) : Rendered (List (KeyKind × String)) :=
  if ix.verbalEnabled then (renderVerbal ix.lib inp).map fun text => [(.verbal, text)] else .ok []

/-- The keys of `DERIVED_KINDS` of an item. -/
def derivedOf (t : Tables) (item : ItemRecord) : Rendered (List (KeyKind × String)) := do
  let inp := ix.inputOf t item
  let verbal ← ix.verbalOf inp
  let change ← renderChange ix.lib inp
  return (KeyKind.text, join " " (words item.text)) ::
    (verbal ++ ((change.filter (· ≠ "")).map fun text => (KeyKind.change, text)).toList)

/-- The keys of an item that the enrich step gives and that will not go stale. -/
def enrichedOf (extra : ExtraKeys) (id : Uuid) : List (KeyKind × String) :=
  ((extra.lookup id).getD []).filterMap fun e =>
    let clean := join " " (words e.2)
    if clean ≠ "" ∧ !hasRelativeTime clean then some (e.1.1, clean) else none

/-- `list(dict.fromkeys(items))`. -/
def distinct {α : Type} [DecidableEq α] (items : List α) : List α := items.reverse.dedup.reverse

/-- The keys that `_render` gives an item. -/
def keysOf (t : Tables) (extra : ExtraKeys) (item : ItemRecord) :
    Rendered (Uuid × List (KeyKind × String)) := do
  return (item.id, distinct ((← ix.derivedOf t item) ++ enrichedOf extra item.id))

/-- `_render`: the keys of the items that are not deleted. -/
def render (t : Tables) (itemIds : List Uuid) (extra : ExtraKeys) :
    Rendered (List (Uuid × List (KeyKind × String))) :=
  let items := (distinct itemIds).filterMap t.getItem
  (items.filter (·.status ≠ .deleted)).mapM (ix.keysOf t extra)

/-! ## Embeddings -/

/-- `cached_embeddings`. -/
def cachedEmbeddings (keys : List KeyRecord) (hashes : List String) : List (String × Embedding) :=
  hashes.filterMap fun hash =>
    (keys.findSome? fun key =>
      if key.contentHash = hash ∧ key.embeddingModel = some ix.model then key.embedding else none).map
      fun vector => (hash, vector)

/-- The texts to embed, without those whose hash has a vector, in order. -/
def misses (wanted : List (Uuid × List (KeyKind × String))) (cached : List (String × Embedding)) :
    List String :=
  let texts := wanted.flatMap fun e => e.2.map (·.2)
  (texts.dedup.filter fun text => (cached.lookup (ix.contentHash text)).isNone).insertionSort (· ≤ ·)

/-- The vectors by hash: those the embedder gave for the misses, if it did, and the cached ones. -/
def vectors (misses : List String) (cached : List (String × Embedding))
    (answer : Option (List Embedding)) : List (String × Embedding) :=
  ((misses.zip (answer.getD [])).map fun e => (ix.contentHash e.1, e.2)).reverse ++ cached

/-! ## Writing -/

/-- `replace_keys`. -/
def replaceKeys (keys : List KeyRecord) (itemId : Uuid) (kinds : List KeyKind)
    (records : List KeyRecord) : List KeyRecord :=
  keys.filter (fun key => ¬ (key.itemId = itemId ∧ key.keyKind ∈ kinds)) ++ records

def recordOf (vectors : List (String × Embedding)) (itemId : Uuid) (key : KeyKind × String) :
    KeyRecord where
  itemId := itemId
  keyKind := key.1
  text := key.2
  contentHash := ix.contentHash key.2
  embedding := vectors.lookup (ix.contentHash key.2)
  embeddingModel := (vectors.lookup (ix.contentHash key.2)).map fun _ => ix.model

/-- The keys of one item, in the second transaction of a rebuild. -/
def writeItem (t : MemoryTables) (enriched : List Uuid) (vectors : List (String × Embedding))
    (keys : List KeyRecord) (wanted : Uuid × List (KeyKind × String)) : List KeyRecord :=
  if (t.getItem wanted.1).isSome then
    replaceKeys keys wanted.1
      (derivedKinds ++ if wanted.1 ∈ enriched then enrichedKinds else [])
      (wanted.2.map (ix.recordOf vectors wanted.1))
  else keys

/-- The second transaction of a rebuild. -/
def write (t : MemoryTables) (keys : List KeyRecord) (wanted : List (Uuid × List (KeyKind × String)))
    (enriched : List Uuid) (vectors : List (String × Embedding)) : List KeyRecord :=
  wanted.foldl (ix.writeItem t enriched vectors) keys

end KeyIndexer

/-! ## What a commit touches -/

/-- The items a logged row is about: `_track`. -/
def WriteLogRecord.touches (row : WriteLogRecord) : List Uuid :=
  match row with
  | { targetType := .item, targetId, .. } => [targetId]
  | { targetType := .link, after, before, .. } =>
    ((after.or before).map fun link : LinkRecord => [link.srcItemId, link.dstItemId]).getD []
  | { targetType := .itemEntity, after, before, .. } =>
    ((after.or before).map fun r : ItemEntityRecord => [r.itemId]).getD []
  | _ => []

/-- The rows of the ops that were applied. -/
def CommitResult.appliedRows (res : CommitResult) : List WriteLogRecord :=
  (res.outcomes.filter (·.verdict.decision = .allowed)).flatMap (·.rows)

/-- `touched_items`. -/
def CommitResult.touchedItems (res : CommitResult) : List Uuid :=
  (res.appliedRows.flatMap (·.touches)).dedup

end SecondMind
