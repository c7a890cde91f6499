import SecondMind.Persona.Template

/-!
# A copy of the template

What `copy_persona_template` leaves: the rows of the template under new ids, moved in time, that
refer to one another as the template's rows do and to nothing of the template.

* `Content.Closed` — what the foreign keys ask of a workspace, one entity of the person, and
  triggers that wait for people who are there;
* `Content.renamed` — the rows under their new ids;
* `copyContent_eq` — the function's statements write these;
* `copy_carries_over` — the copy.
-/

namespace SecondMind
namespace Persona

open Keyed

variable {u : UuidText} {random : Random} {s : Move} {src : Content} {described me : EntityRecord}
  {user : Uuid}

/-- What the foreign keys ask of a workspace, the one entity of the person, and the people that
triggers wait for. -/
structure Content.Closed (u : UuidText) (c : Content) (me : EntityRecord) : Prop where
  ids_nodup : c.ids.Nodup
  refs_mem : ∀ r ∈ c.refs, r ∈ c.ids
  one_self : c.entities.filter (fun e => e.kind = .self) = [me]
  persons : ∀ x ∈ c.triggers, ∀ value, personIn x.spec = some value →
    ∃ entity, value = .str (u.write entity) ∧ (.entity, entity) ∈ c.ids

/-- The new ids are new: two rows of a kind get two, and the template has none of them. -/
structure Fresh (m : IdMap RowKind Uuid) (src : Content) : Prop where
  distinct : m.Distinct
  unused : ∀ e ∈ m, e.2 ∉ src.ids.map Prod.snd

/-! ## The rows under their new ids -/

/-- The spec of a trigger, with the new id of the person it waits for. -/
def renamedSpec (u : UuidText) (m : IdMap RowKind Uuid) (spec : Json) : Json :=
  match personIn spec with
  | some (.str text) =>
    match u.read text with
    | some entity => withPerson (.str (u.write (m.rename .entity entity))) spec
    | none => spec
  | _ => spec

/-- The rows of the template under their new ids, moved in time. -/
def Content.renamed (u : UuidText) (random : Random) (s : Move) (user : Uuid)
    (m : IdMap RowKind Uuid) (described me : EntityRecord) (src : Content) : Content where
  categories := src.categories.map fun c => { c with id := m.rename .category c.id }
  vocab := src.vocab.map fun v => { v with id := random .vocab v.id }
  turns := src.turns.map fun t =>
    movedTurn s (m.rename .turn t.id) user (t.parentTurnId.bind (m.new? .turn)) t
  entities := describedSelf s described me ::
    (src.entities.filter fun e => e.kind ≠ .self).map fun e =>
      movedEntity s (m.rename .entity e.id) (e.createdByTurnId.bind (m.new? .turn))
        (e.updatedByTurnId.bind (m.new? .turn)) e
  items := src.items.map fun i =>
    movedItem s (m.rename .item i.id) (m.rename .turn i.createdByTurnId)
      (m.rename .turn i.updatedByTurnId) (i.categoryId.map (m.rename .category))
      (i.subjectEntityId.map (m.rename .entity)) i
  itemEntities := src.itemEntities.map fun x =>
    { x with
      id := random .itemEntities x.id
      itemId := m.rename .item x.itemId
      entityId := m.rename .entity x.entityId
      createdByTurnId := m.rename .turn x.createdByTurnId }
  links := src.links.map fun x =>
    { x with
      id := random .links x.id
      srcItemId := m.rename .item x.srcItemId
      dstItemId := m.rename .item x.dstItemId
      createdByTurnId := m.rename .turn x.createdByTurnId }
  relations := src.relations.map fun x =>
    movedRelation s (random .relations x.id) (m.rename .entity x.srcEntityId)
      (m.rename .entity x.dstEntityId) (x.evidenceItemId.map (m.rename .item))
      (m.rename .turn x.createdByTurnId) x
  triggers := src.triggers.map fun x =>
    movedTrigger s (random .triggers x.id) (m.rename .item x.itemId)
      (m.rename .turn x.createdByTurnId) (m.rename .turn x.updatedByTurnId)
      (renamedSpec u m x.spec) x
  keys := src.keys.map fun k => movedKey s (random .keys k.id) (m.rename .item k.itemId) k
  sources := src.sources.map fun x =>
    movedSource s (random .sources x.id) (m.rename .item x.itemId) (m.rename .turn x.turnId) x
  said := src.said.map fun x => movedSaid s (random .said x.id) (m.rename .turn x.turnId) x

/-! ## The map of the ids -/

/-- The entity of the person, once it is the only one. -/
theorem self?_eq {c : Content} (h : c.entities.filter (fun e => e.kind = .self) = [me]) :
    c.self? = some me := by
  rw [Content.self?, ← List.head?_filter, h]
  rfl

/-- The map has the ids of the template. -/
theorem keys_personaMap (h : src.Closed u described) (selfNew : Uuid) :
    ((personaMap random s src described.id selfNew).map Prod.fst).Perm src.ids := by
  have hsplit : (src.entities.filter (fun e => e.kind ≠ .self) ++ [described]).Perm
      src.entities := by
    rw [← h.one_self]
    refine List.perm_append_comm.trans ?_
    have hnot : src.entities.filter (fun e => decide (e.kind ≠ .self)) =
        src.entities.filter (fun e => !decide (e.kind = .self)) := by
      simp only [ne_eq, decide_not]
    rw [hnot]
    exact List.filter_append_perm _ _
  have hentities := hsplit.map fun e : EntityRecord => (RowKind.entity, e.id)
  have hkeys : (personaMap random s src described.id selfNew).map Prod.fst =
      src.turns.map (fun r => (.turn, r.id)) ++
        (src.entities.filter (fun e => e.kind ≠ .self) ++ [described]).map
          (fun e => (.entity, e.id)) ++
        src.categories.map (fun r => (.category, r.id)) ++
        src.items.map fun r => (.item, r.id) := by
    simp [personaMap, Function.comp_def]
  have hids : src.ids = src.turns.map (fun r => (.turn, r.id)) ++
      src.entities.map (fun r => (.entity, r.id)) ++
        src.categories.map (fun r => (.category, r.id)) ++
        src.items.map fun r => (.item, r.id) := by
    simp [Content.ids]
  rw [hkeys, hids]
  exact ((hentities.append_left _).append_right _).append_right _

theorem knows_iff (h : src.Closed u described) {selfNew : Uuid} {k : RowKind} {id : Uuid} :
    (personaMap random s src described.id selfNew).Knows k id ↔ (k, id) ∈ src.ids :=
  (keys_personaMap h selfNew).mem_iff

theorem keys_nodup (h : src.Closed u described) (selfNew : Uuid) :
    ((personaMap random s src described.id selfNew).map Prod.fst).Nodup :=
  (keys_personaMap h selfNew).nodup_iff.2 h.ids_nodup

/-- The person is the person of the copy. -/
theorem rename_self (h : src.Closed u described) (selfNew : Uuid) :
    (personaMap random s src described.id selfNew).rename .entity described.id = selfNew := by
  refine IdMap.rename_of_mem (keys_nodup h selfNew) ?_
  simp [personaMap]

/-- A turn's new id. -/
theorem rename_turn (h : src.Closed u described) (selfNew : Uuid) {t : TurnRow}
    (ht : t ∈ src.turns) :
    (personaMap random s src described.id selfNew).rename .turn t.id =
      uuidV7At (t.startedAt + s.shift) (random .turns t.id) := by
  refine IdMap.rename_of_mem (keys_nodup h selfNew) ?_
  simp only [personaMap, List.mem_append, List.mem_map]
  exact .inl (.inl (.inl (.inl ⟨t, ht, rfl⟩)))

/-! ## The statements -/

section

variable {m : IdMap RowKind Uuid}

/-- Every reference of the rows has a new id. -/
def Resolves (m : IdMap RowKind Uuid) (c : Content) : Prop := ∀ r ∈ c.ids ++ c.refs, m.Knows r.1 r.2

theorem Resolves.id (h : Resolves m src) {r : RowKind × Uuid} (hr : r ∈ src.ids) :
    m.new? r.1 r.2 = some (m.rename r.1 r.2) :=
  IdMap.new?_of_knows (h r (List.mem_append_left _ hr))

theorem Resolves.ref (h : Resolves m src) {r : RowKind × Uuid} (hr : r ∈ src.refs) :
    m.new? r.1 r.2 = some (m.rename r.1 r.2) :=
  IdMap.new?_of_knows (h r (List.mem_append_right _ hr))

/-- A reference that may be `NULL`. -/
theorem Resolves.optional (h : Resolves m src) {k : RowKind} {o : Option Uuid}
    (ho : ∀ id ∈ o, (k, id) ∈ src.refs) : o.bind (m.new? k) = o.map (m.rename k) := by
  cases o with
  | none => rfl
  | some id => exact h.ref (ho id rfl)

/-- The rows of one table among the references. -/
theorem mem_refs {α : Type} {rows : List α} {refsOf : α → List (RowKind × Uuid)}
    (htable : rows.flatMap refsOf ∈ [src.items.flatMap itemRefs,
      src.itemEntities.flatMap itemEntityRefs, src.links.flatMap linkRefs,
      src.relations.flatMap relationRefs, src.triggers.flatMap triggerRefs,
      src.keys.flatMap keyRefs, src.sources.flatMap sourceRefs, src.said.flatMap saidRefs])
    {row : α} (hrow : row ∈ rows) {r : RowKind × Uuid} (hr : r ∈ refsOf row) : r ∈ src.refs :=
  List.mem_flatten.2 ⟨_, htable, List.mem_flatMap.2 ⟨row, hrow, hr⟩⟩

theorem mem_ids {α : Type} {rows : List α} (idOf : α → RowKind × Uuid)
    (htable : rows.map idOf ∈ [src.turns.map (fun r => (RowKind.turn, r.id)),
      src.entities.map (fun r => (RowKind.entity, r.id)),
      src.categories.map (fun r => (RowKind.category, r.id)),
      src.items.map (fun r => (RowKind.item, r.id))])
    {row : α} (hrow : row ∈ rows) : idOf row ∈ src.ids :=
  List.mem_flatten.2 ⟨_, htable, List.mem_map.2 ⟨row, hrow, rfl⟩⟩

theorem selectItem_eq (h : Resolves m src) {i : ItemRecord} (hi : i ∈ src.items) :
    selectItem s m i = some (.ok (movedItem s (m.rename .item i.id)
      (m.rename .turn i.createdByTurnId) (m.rename .turn i.updatedByTurnId)
      (i.categoryId.map (m.rename .category)) (i.subjectEntityId.map (m.rename .entity)) i)) := by
  have hid := h.id (mem_ids (fun r : ItemRecord => (RowKind.item, r.id)) (by simp) hi)
  have hrefs : ∀ r ∈ itemRefs i, r ∈ src.refs := fun r => mem_refs (by simp) hi
  have hcreated := h.ref (hrefs (.turn, i.createdByTurnId) (by simp [itemRefs]))
  have hupdated := h.ref (hrefs (.turn, i.updatedByTurnId) (by simp [itemRefs]))
  have hcategory : i.categoryId.bind (m.new? .category) = i.categoryId.map (m.rename .category) :=
    h.optional fun id hid => hrefs _ (by simp_all [itemRefs])
  have hsubject : i.subjectEntityId.bind (m.new? .entity) =
      i.subjectEntityId.map (m.rename .entity) :=
    h.optional fun id hid => hrefs _ (by simp_all [itemRefs])
  simp only [selectItem, hid, hcreated, hupdated, hcategory, hsubject]
  rfl

theorem selectItemEntity_eq (h : Resolves m src) {x : ItemEntityRecord}
    (hx : x ∈ src.itemEntities) :
    selectItemEntity random m x = some (.ok { x with
      id := random .itemEntities x.id
      itemId := m.rename .item x.itemId
      entityId := m.rename .entity x.entityId
      createdByTurnId := m.rename .turn x.createdByTurnId }) := by
  have hrefs : ∀ r ∈ itemEntityRefs x, r ∈ src.refs := fun r => mem_refs (by simp) hx
  have hitem := h.ref (hrefs (.item, x.itemId) (by simp [itemEntityRefs]))
  have hentity := h.ref (hrefs (.entity, x.entityId) (by simp [itemEntityRefs]))
  have hturn := h.ref (hrefs (.turn, x.createdByTurnId) (by simp [itemEntityRefs]))
  simp only [selectItemEntity, hitem, hentity, hturn]
  rfl

theorem selectLink_eq (h : Resolves m src) {x : LinkRecord} (hx : x ∈ src.links) :
    selectLink random m x = some (.ok { x with
      id := random .links x.id
      srcItemId := m.rename .item x.srcItemId
      dstItemId := m.rename .item x.dstItemId
      createdByTurnId := m.rename .turn x.createdByTurnId }) := by
  have hrefs : ∀ r ∈ linkRefs x, r ∈ src.refs := fun r => mem_refs (by simp) hx
  have hsrc := h.ref (hrefs (.item, x.srcItemId) (by simp [linkRefs]))
  have hdst := h.ref (hrefs (.item, x.dstItemId) (by simp [linkRefs]))
  have hturn := h.ref (hrefs (.turn, x.createdByTurnId) (by simp [linkRefs]))
  simp only [selectLink, hsrc, hdst, hturn]
  rfl

theorem selectRelation_eq (h : Resolves m src) {x : RelationRecord} (hx : x ∈ src.relations) :
    selectRelation random s m x = some (.ok (movedRelation s (random .relations x.id)
      (m.rename .entity x.srcEntityId) (m.rename .entity x.dstEntityId)
      (x.evidenceItemId.map (m.rename .item)) (m.rename .turn x.createdByTurnId) x)) := by
  have hrefs : ∀ r ∈ relationRefs x, r ∈ src.refs := fun r => mem_refs (by simp) hx
  have hsrc := h.ref (hrefs (.entity, x.srcEntityId) (by simp [relationRefs]))
  have hdst := h.ref (hrefs (.entity, x.dstEntityId) (by simp [relationRefs]))
  have hturn := h.ref (hrefs (.turn, x.createdByTurnId) (by simp [relationRefs]))
  have hevidence : x.evidenceItemId.bind (m.new? .item) =
      x.evidenceItemId.map (m.rename .item) :=
    h.optional fun id hid => hrefs _ (by simp_all [relationRefs])
  simp only [selectRelation, hsrc, hdst, hturn, hevidence]
  rfl

/-- The person that a trigger waits for is renamed. -/
theorem copiedSpec_eq (h : Resolves m src) {spec : Json}
    (hperson : ∀ value, personIn spec = some value →
      ∃ entity, value = .str (u.write entity) ∧ (.entity, entity) ∈ src.ids) :
    copiedSpec u m spec = .ok (renamedSpec u m spec) := by
  unfold copiedSpec renamedSpec
  cases hvalue : personIn spec with
  | none => rfl
  | some value =>
    obtain ⟨entity, rfl, hentity⟩ := hperson value hvalue
    simp only [u.read_write, h.id hentity]
    rfl

theorem selectTrigger_eq (h : Resolves m src) {x : TriggerRecord} (hx : x ∈ src.triggers)
    (hperson : ∀ value, personIn x.spec = some value →
      ∃ entity, value = .str (u.write entity) ∧ (.entity, entity) ∈ src.ids) :
    selectTrigger u random s m x = some (.ok (movedTrigger s (random .triggers x.id)
      (m.rename .item x.itemId) (m.rename .turn x.createdByTurnId)
      (m.rename .turn x.updatedByTurnId) (renamedSpec u m x.spec) x)) := by
  have hrefs : ∀ r ∈ triggerRefs x, r ∈ src.refs := fun r => mem_refs (by simp) hx
  have hitem := h.ref (hrefs (.item, x.itemId) (by simp [triggerRefs]))
  have hcreated := h.ref (hrefs (.turn, x.createdByTurnId) (by simp [triggerRefs]))
  have hupdated := h.ref (hrefs (.turn, x.updatedByTurnId) (by simp [triggerRefs]))
  simp only [selectTrigger, hitem, hcreated, hupdated, copiedSpec_eq h hperson]
  rfl

theorem selectKey_eq (h : Resolves m src) {k : KeyRow} (hk : k ∈ src.keys) :
    selectKey random s m k =
      some (.ok (movedKey s (random .keys k.id) (m.rename .item k.itemId) k)) := by
  have hrefs : ∀ r ∈ keyRefs k, r ∈ src.refs := fun r => mem_refs (by simp) hk
  have hitem := h.ref (hrefs (.item, k.itemId) (by simp [keyRefs]))
  simp only [selectKey, hitem]
  rfl

theorem selectSource_eq (h : Resolves m src) {x : SourceRow} (hx : x ∈ src.sources) :
    selectSource random s m x = some (.ok (movedSource s (random .sources x.id)
      (m.rename .item x.itemId) (m.rename .turn x.turnId) x)) := by
  have hrefs : ∀ r ∈ sourceRefs x, r ∈ src.refs := fun r => mem_refs (by simp) hx
  have hitem := h.ref (hrefs (.item, x.itemId) (by simp [sourceRefs]))
  have hturn := h.ref (hrefs (.turn, x.turnId) (by simp [sourceRefs]))
  simp only [selectSource, hitem, hturn]
  rfl

theorem selectSaid_eq (h : Resolves m src) {x : SaidRow} (hx : x ∈ src.said) :
    selectSaid random s m x =
      some (.ok (movedSaid s (random .said x.id) (m.rename .turn x.turnId) x)) := by
  have hrefs : ∀ r ∈ saidRefs x, r ∈ src.refs := fun r => mem_refs (by simp) hx
  have hturn := h.ref (hrefs (.turn, x.turnId) (by simp [saidRefs]))
  simp only [selectSaid, hturn]
  rfl

theorem selectTurn_eq (h : Resolves m src) {t : TurnRow} (ht : t ∈ src.turns) :
    selectTurn s m user t = some (.ok (movedTurn s (m.rename .turn t.id) user
      (t.parentTurnId.bind (m.new? .turn)) t)) := by
  have hid := h.id (mem_ids (fun r : TurnRow => (RowKind.turn, r.id)) (by simp) ht)
  simp only [selectTurn, hid]
  rfl

theorem selectEntity_eq (h : Resolves m src) {e : EntityRecord}
    (he : e ∈ src.entities.filter fun e => e.kind ≠ .self) :
    selectEntity s m e = some (.ok (movedEntity s (m.rename .entity e.id)
      (e.createdByTurnId.bind (m.new? .turn)) (e.updatedByTurnId.bind (m.new? .turn)) e)) := by
  have hid := h.id (mem_ids (fun r : EntityRecord => (RowKind.entity, r.id)) (by simp)
    (List.mem_filter.1 he).1)
  simp only [selectEntity, hid]
  rfl

theorem selectCategory_eq (h : Resolves m src) {c : CategoryRecord} (hc : c ∈ src.categories) :
    selectCategory m c = some (.ok { c with id := m.rename .category c.id }) := by
  have hid := h.id (mem_ids (fun r : CategoryRecord => (RowKind.category, r.id)) (by simp) hc)
  simp only [selectCategory, hid]
  rfl

end

/-- **The statements** write the rows of the template under their new ids. -/
theorem copyContent_eq (h : src.Closed u described) (hme : me.kind = .self) :
    copyContent u random s user src { entities := [me] } =
      .ok (src.renamed u random s user (personaMap random s src described.id me.id) described
        me) := by
  have hresolves : Resolves (personaMap random s src described.id me.id) src := by
    intro r hr
    rcases List.mem_append.1 hr with hr | hr
    · exact (knows_iff h).2 hr
    · exact (knows_iff h).2 (h.refs_mem r hr)
  have hself : Content.self? { entities := [me] } = some me := by
    simp [Content.self?, hme]
  unfold copyContent
  rw [self?_eq h.one_self, hself]
  simp only [notNull, bind, Except.bind]
  generalize personaMap random s src described.id me.id = m at hresolves
  have hcategories : insertAll src.categories (selectCategory m) = _ :=
    insertAll_eq fun c hc => selectCategory_eq hresolves hc
  have hturns : insertAll src.turns (selectTurn s m user) = _ :=
    insertAll_eq fun t ht => selectTurn_eq hresolves ht
  have hentities : insertAll (src.entities.filter fun e => e.kind ≠ .self) (selectEntity s m) = _ :=
    insertAll_eq fun e he => selectEntity_eq hresolves he
  have hitems : insertAll src.items (selectItem s m) = _ :=
    insertAll_eq fun i hi => selectItem_eq hresolves hi
  have hitemEntities : insertAll src.itemEntities (selectItemEntity random m) = _ :=
    insertAll_eq fun x hx => selectItemEntity_eq hresolves hx
  have hlinks : insertAll src.links (selectLink random m) = _ :=
    insertAll_eq fun x hx => selectLink_eq hresolves hx
  have hrelations : insertAll src.relations (selectRelation random s m) = _ :=
    insertAll_eq fun x hx => selectRelation_eq hresolves hx
  have htriggers : insertAll src.triggers (selectTrigger u random s m) = _ :=
    insertAll_eq fun x hx => selectTrigger_eq hresolves hx (h.persons x hx)
  have hkeys : insertAll src.keys (selectKey random s m) = _ :=
    insertAll_eq fun k hk => selectKey_eq hresolves hk
  have hsources : insertAll src.sources (selectSource random s m) = _ :=
    insertAll_eq fun x hx => selectSource_eq hresolves hx
  have hsaid : insertAll src.said (selectSaid random s m) = _ :=
    insertAll_eq fun x hx => selectSaid_eq hresolves hx
  rw [hcategories, hturns, hentities, hitems, hitemEntities, hlinks, hrelations, htriggers, hkeys,
    hsources, hsaid]
  simp [Content.renamed, pure, Except.pure]

/-! ## What the copy is -/

section

variable {m : IdMap RowKind Uuid}

/-- A reference under its new id. -/
def renameRef (m : IdMap RowKind Uuid) (r : RowKind × Uuid) : RowKind × Uuid :=
  (r.1, m.rename r.1 r.2)

/-- The references of the copy are the template's under their new ids. -/
theorem refs_renamed :
    (src.renamed u random s user m described me).refs = src.refs.map (renameRef m) := by
  have hitem : ∀ i : ItemRecord, itemRefs (movedItem s (m.rename .item i.id)
      (m.rename .turn i.createdByTurnId) (m.rename .turn i.updatedByTurnId)
      (i.categoryId.map (m.rename .category)) (i.subjectEntityId.map (m.rename .entity)) i) =
        (itemRefs i).map (renameRef m) := by
    intro i
    cases hcategory : i.categoryId <;> cases hsubject : i.subjectEntityId <;>
      simp [itemRefs, movedItem, renameRef, hcategory, hsubject]
  have hrelation : ∀ x : RelationRecord, relationRefs (movedRelation s (random .relations x.id)
      (m.rename .entity x.srcEntityId) (m.rename .entity x.dstEntityId)
      (x.evidenceItemId.map (m.rename .item)) (m.rename .turn x.createdByTurnId) x) =
        (relationRefs x).map (renameRef m) := by
    intro x
    cases hevidence : x.evidenceItemId <;>
      simp [relationRefs, movedRelation, renameRef, hevidence]
  simp only [Content.refs, Content.renamed, List.map_flatten, List.map_cons, List.map_nil,
    List.flatMap_map, List.map_flatMap, hitem, hrelation]
  rfl

/-- So are its ids, in some order. -/
theorem ids_renamed (h : src.Closed u described) (hself : m.rename .entity described.id = me.id) :
    (src.renamed u random s user m described me).ids.Perm (src.ids.map (renameRef m)) := by
  have hsplit : (described :: src.entities.filter fun e => e.kind ≠ .self).Perm src.entities := by
    have hnot : src.entities.filter (fun e => decide (e.kind ≠ .self)) =
        src.entities.filter (fun e => !decide (e.kind = .self)) := by
      simp only [ne_eq, decide_not]
    have happend := List.filter_append_perm (fun e : EntityRecord => decide (e.kind = .self))
      src.entities
    rw [h.one_self, ← hnot] at happend
    exact happend
  have hentities := hsplit.map fun e : EntityRecord => (RowKind.entity, m.rename .entity e.id)
  rw [List.map_cons, hself] at hentities
  have hleft : (src.renamed u random s user m described me).ids =
      src.turns.map (fun r => (RowKind.turn, m.rename .turn r.id)) ++
        (((RowKind.entity, me.id) :: (src.entities.filter fun e => e.kind ≠ .self).map
          fun e => (RowKind.entity, m.rename .entity e.id)) ++
        (src.categories.map (fun r => (RowKind.category, m.rename .category r.id)) ++
          src.items.map fun r => (RowKind.item, m.rename .item r.id))) := by
    simp [Content.ids, Content.renamed, Function.comp_def, movedTurn, movedEntity, movedItem,
      describedSelf]
  have hright : src.ids.map (renameRef m) =
      src.turns.map (fun r => (RowKind.turn, m.rename .turn r.id)) ++
        (src.entities.map (fun r => (RowKind.entity, m.rename .entity r.id)) ++
        (src.categories.map (fun r => (RowKind.category, m.rename .category r.id)) ++
          src.items.map fun r => (RowKind.item, m.rename .item r.id))) := by
    simp [Content.ids, Function.comp_def, renameRef]
  rw [hleft, hright]
  exact (hentities.append_right _).append_left _

/-- A spec that names a person names the one it was given. -/
theorem personIn_withPerson {spec value : Json} (person : Json)
    (h : personIn spec = some value) : personIn (withPerson person spec) = some person := by
  cases spec with
  | obj members =>
    replace h : members.lookup "entity_id" = some value := h
    show (members.map fun m => if m.1 = "entity_id" then (m.1, person) else m).lookup
      "entity_id" = some person
    induction members with
    | nil => cases h
    | cons member members ih =>
      obtain ⟨name, old⟩ := member
      by_cases hname : name = "entity_id"
      · subst hname
        rw [List.map_cons, if_pos rfl, List.lookup_cons_self]
      · have hne : ("entity_id" == name) = false := beq_eq_false_iff_ne.2 (Ne.symm hname)
        rw [List.lookup_cons, hne] at h
        rw [List.map_cons, if_neg hname, List.lookup_cons, hne]
        exact ih h
  | null => cases h
  | bool b => cases h
  | num q => cases h
  | str text => cases h
  | arr elems => cases h

/-- The people that the copy's triggers wait for are in the copy. -/
theorem persons_renamed (h : src.Closed u described)
    {x : TriggerRecord} (hx : x ∈ (src.renamed u random s user m described me).triggers)
    {value : Json} (hvalue : personIn x.spec = some value) :
    ∃ entity, value = .str (u.write (m.rename .entity entity)) ∧ (.entity, entity) ∈ src.ids := by
  obtain ⟨y, hy, rfl⟩ := List.mem_map.1 hx
  replace hvalue : personIn (renamedSpec u m y.spec) = some value := hvalue
  unfold renamedSpec at hvalue
  cases hnamed : personIn y.spec with
  | none =>
    rw [hnamed] at hvalue
    replace hvalue : personIn y.spec = some value := hvalue
    rw [hnamed] at hvalue
    cases hvalue
  | some named =>
    obtain ⟨entity, rfl, hentity⟩ := h.persons y hy named hnamed
    rw [hnamed] at hvalue
    simp only [u.read_write] at hvalue
    rw [personIn_withPerson _ hnamed] at hvalue
    exact ⟨entity, (Option.some.inj hvalue).symm, hentity⟩

/-- **The copy is closed**: it has an entity of the person, and refers to rows of its own. -/
theorem closed_renamed (h : src.Closed u described) (hme : me.kind = .self)
    (hself : m.rename .entity described.id = me.id) (hknows : ∀ r ∈ src.ids, m.Knows r.1 r.2)
    (hdistinct : m.Distinct) :
    (src.renamed u random s user m described me).Closed u (describedSelf s described me) := by
  have hids : (src.renamed u random s user m described me).ids.Perm (src.ids.map (renameRef m)) :=
    ids_renamed h hself
  constructor
  · refine hids.nodup_iff.2 (List.Nodup.map_on ?_ h.ids_nodup)
    rintro ⟨k, old⟩ hr ⟨k', old'⟩ hr' hsame
    obtain ⟨rfl, hnew⟩ := Prod.mk.inj hsame
    exact Prod.ext rfl (IdMap.rename_injective hdistinct (hknows _ hr) (hknows _ hr') hnew)
  · intro r hr
    rw [refs_renamed] at hr
    obtain ⟨old, hold, rfl⟩ := List.mem_map.1 hr
    exact hids.mem_iff.2 (List.mem_map.2 ⟨old, h.refs_mem old hold, rfl⟩)
  · have hothers : ((src.entities.filter fun e => e.kind ≠ .self).map fun e =>
        movedEntity s (m.rename .entity e.id) (e.createdByTurnId.bind (m.new? .turn))
          (e.updatedByTurnId.bind (m.new? .turn)) e).filter (fun e => e.kind = .self) = [] := by
      refine List.filter_eq_nil_iff.2 ?_
      intro e he
      obtain ⟨old, hold, rfl⟩ := List.mem_map.1 he
      have hnot : ¬ old.kind = .self := by simpa using (List.mem_filter.1 hold).2
      exact fun hmoved => hnot (of_decide_eq_true hmoved)
    have hkind : (describedSelf s described me).kind = .self := hme
    show List.filter _ (_ :: _) = _
    rw [List.filter_cons_of_pos (by simp [hkind]), hothers]
  · intro x hx value hvalue
    obtain ⟨entity, rfl, hentity⟩ := persons_renamed h hx hvalue
    exact ⟨m.rename .entity entity, rfl,
      hids.mem_iff.2 (List.mem_map.2 ⟨(.entity, entity), hentity, rfl⟩)⟩

end

/-! ## Times -/

/-- The bits under the milliseconds do not reach them. -/
theorem low_lt (n : Nat) : (n / 2 ^ 72 % 2 ^ 8 % 16 + 112) * 2 ^ 72 + n % 2 ^ 72 < 2 ^ 80 := by
  omega

theorem moment_lt {a b : Int} (ha : 0 ≤ a) (hb : b < 2 ^ 48 * 1000) (hlt : a / 1000 < b / 1000)
    {x : Nat} (hx : x < 2 ^ 80) (y : Nat) :
    (a / 1000 % 2 ^ 48).toNat * 2 ^ 80 + x < (b / 1000 % 2 ^ 48).toNat * 2 ^ 80 + y := by
  have hmoment : a / 1000 % 2 ^ 48 = a / 1000 := Int.emod_eq_of_lt (by omega) (by omega)
  have hmoment' : b / 1000 % 2 ^ 48 = b / 1000 := Int.emod_eq_of_lt (by omega) (by omega)
  have htop : (a / 1000).toNat + 1 ≤ (b / 1000).toNat := by omega
  have hstep := Nat.mul_le_mul_right (2 ^ 80) htop
  rw [hmoment, hmoment']
  omega

/-- A later millisecond is a greater id. -/
theorem uuidV7At_lt {a b : Instant} (ha : 0 ≤ a) (hb : b < 2 ^ 48 * 1000)
    (hlt : a / 1000 < b / 1000) (r r' : Uuid) : uuidV7At a r < uuidV7At b r' := by
  unfold uuidV7At
  rw [Nat.add_assoc, Nat.add_assoc]
  exact moment_lt ha hb hlt (low_lt r) _

/-- Whole weeks fall short of the days by what is left of a week. -/
theorem shift_sub_of (s : Move) (i : ItemRecord) :
    s.shift - s.of i = if i.rrule = none then 0 else s.days % 7 * day := by
  unfold Move.of
  split
  · exact sub_self s.shift
  · have hweek : s.days - s.days / 7 * 7 = s.days % 7 := by omega
    rw [← hweek, Move.shift, Move.weeks]
    exact (Int.sub_mul _ _ _).symm

/-! ## The copy -/

/-- **A copy carries the template over.**  Copying succeeds and leaves every other workspace as it
was.  The copy holds the template's rows under new ids, two for two, with every time moved; its
references, the turns that no foreign key checks and the people that triggers wait for among them,
are of rows of its own, and nothing in it is an id of the template.  Turns keep their order by id.
A reminder keeps its distance from its item's date, but for a routine's: the routine is moved by
whole weeks and the reminder by days, so it comes later by what is left of a week. -/
theorem copy_carries_over (u : UuidText) (random : Random) (s : Move) {db : Workspaces}
    {template workspace user : Uuid} {src dst : Workspace} {described me : EntityRecord}
    (hsrc : db template = some src) (hkind : src.kind = .template)
    (hclosed : src.content.Closed u described)
    (hdst : db workspace = some dst) (howner : dst.ownerUserId = user)
    (hcopy : dst.kind = .personaCopy) (hempty : dst.content = { entities := [me] })
    (hme : me.kind = .self) (hbare : me.createdByTurnId = none ∧ me.updatedByTurnId = none)
    (hdays : 0 ≤ s.days)
    (hfresh : Fresh (personaMap random s src.content described.id me.id) src.content) :
    let m := personaMap random s src.content described.id me.id
    let copy := src.content.renamed u random s user m described me
    copyPersonaTemplate u random s template workspace user db =
        .ok (Function.update db workspace (some { dst with
          seedId := src.seedId
          seedVersion := src.seedVersion
          movedDays := some s.days
          content := copy })) ∧
      copy.Closed u (describedSelf s described me) ∧
      (∀ r ∈ copy.looseRefs, r ∈ copy.ids) ∧
      (∀ k, ∀ id id', (k, id) ∈ src.content.ids → (k, id') ∈ src.content.ids →
        m.rename k id = m.rename k id' → id = id') ∧
      (∀ r ∈ copy.ids ++ (copy.refs ++ copy.looseRefs), r.2 ∉ src.content.ids.map Prod.snd) ∧
      (∀ t ∈ src.content.turns, ∀ t' ∈ src.content.turns, 0 ≤ t.startedAt →
        t'.startedAt + s.shift < 2 ^ 48 * 1000 →
          (t.startedAt + s.shift) / 1000 < (t'.startedAt + s.shift) / 1000 →
            m.rename .turn t.id < m.rename .turn t'.id) ∧
      ∀ x ∈ src.content.triggers, ∀ i ∈ src.content.items, x.itemId = i.id →
        ∃ x' ∈ copy.triggers, ∃ i' ∈ copy.items, x'.id = random .triggers x.id ∧
          i'.id = m.rename .item i.id ∧ x'.itemId = i'.id ∧
            ∀ fires ∈ x.firesAt, ∀ due ∈ i.dueAt, ∃ fires' ∈ x'.firesAt, ∃ due' ∈ i'.dueAt,
              fires' - due' = fires - due + if i.rrule = none then 0 else s.days % 7 * day := by
  intro m copy
  have hknows : ∀ r ∈ src.content.ids, m.Knows r.1 r.2 := fun r hr => (knows_iff hclosed).2 hr
  have hself : m.rename .entity described.id = me.id := rename_self hclosed me.id
  have hids : copy.ids.Perm (src.content.ids.map (renameRef m)) := ids_renamed hclosed hself
  have hcopyClosed : copy.Closed u (describedSelf s described me) :=
    closed_renamed hclosed hme hself hknows hfresh.distinct
  have hloose : ∀ r ∈ copy.looseRefs, r ∈ copy.ids := by
    have hturn : ∀ o : Option Uuid, ∀ id ∈ o.bind (m.new? .turn),
        (RowKind.turn, id) ∈ copy.ids := by
      intro o id hid
      rw [IdMap.bind_new?] at hid
      obtain ⟨old, hold, rfl⟩ := Option.mem_map.1 hid
      have hknown : m.Knows .turn old := of_decide_eq_true (Option.mem_filter_iff.1 hold).2
      exact hids.mem_iff.2 (List.mem_map.2 ⟨(.turn, old), (knows_iff hclosed).1 hknown, rfl⟩)
    intro r hr
    rcases List.mem_append.1 hr with hr | hr
    · obtain ⟨t, ht, hr⟩ := List.mem_flatMap.1 hr
      obtain ⟨old, -, rfl⟩ := List.mem_map.1 ht
      obtain ⟨id, hid, rfl⟩ := List.mem_map.1 hr
      exact hturn _ id (Option.mem_toList.1 hid)
    · obtain ⟨e, he, hr⟩ := List.mem_flatMap.1 hr
      obtain ⟨id, hid, rfl⟩ := List.mem_map.1 hr
      rcases List.mem_cons.1 he with rfl | he
      · have hnone : me.createdByTurnId.toList ++ me.updatedByTurnId.toList = [] := by
          rw [hbare.1, hbare.2]
          rfl
        replace hid : id ∈ me.createdByTurnId.toList ++ me.updatedByTurnId.toList := hid
        rw [hnone] at hid
        cases hid
      · obtain ⟨old, -, rfl⟩ := List.mem_map.1 he
        rcases List.mem_append.1 hid with hid | hid
        · exact hturn _ id (Option.mem_toList.1 hid)
        · exact hturn _ id (Option.mem_toList.1 hid)
  refine ⟨?_, hcopyClosed, hloose, ?_, ?_, ?_, ?_⟩
  · have hitems : ¬ (dst.content.items ≠ [] ∨ dst.content.turns ≠ []) := by
      rw [hempty]
      exact fun h => h.elim (absurd rfl) (absurd rfl)
    unfold copyPersonaTemplate
    rw [if_neg (not_lt.2 hdays), hsrc, hdst, Option.filter_some, if_pos (decide_eq_true hkind),
      Option.filter_some, if_pos (decide_eq_true ⟨howner, hcopy⟩)]
    simp only [if_neg hitems]
    rw [hempty, copyContent_eq hclosed hme]
    rfl
  · intro k id id' hid hid' hsame
    exact IdMap.rename_injective hfresh.distinct (hknows _ hid) (hknows _ hid') hsame
  · have hown : ∀ r ∈ copy.ids, r.2 ∉ src.content.ids.map Prod.snd := by
      intro r hr
      obtain ⟨old, hold, rfl⟩ := List.mem_map.1 (hids.mem_iff.1 hr)
      exact hfresh.unused _ (IdMap.rename_mem (hknows old hold))
    intro r hr
    rcases List.mem_append.1 hr with hr | hr
    · exact hown r hr
    · rcases List.mem_append.1 hr with hr | hr
      · exact hown r (hcopyClosed.refs_mem r hr)
      · exact hown r (hloose r hr)
  · intro t ht t' ht' hstart hend hlt
    rw [rename_turn hclosed me.id ht, rename_turn hclosed me.id ht']
    have hshift : 0 ≤ s.shift := Int.mul_nonneg hdays (by decide)
    exact uuidV7At_lt (Int.add_nonneg hstart hshift) hend hlt _ _
  · intro x hx i hi hitem
    refine ⟨_, List.mem_map.2 ⟨x, hx, rfl⟩, _, List.mem_map.2 ⟨i, hi, rfl⟩, rfl, rfl,
      congrArg (m.rename .item) hitem, ?_⟩
    intro fires hfires due hdue
    refine ⟨fires + s.shift, Option.mem_map.2 ⟨fires, hfires, rfl⟩, due + s.of i,
      Option.mem_map.2 ⟨due, hdue, rfl⟩, ?_⟩
    rw [← shift_sub_of]
    ring

/-! ## A template of two memories -/

/-- The text of a small id. -/
def smallUuid : UuidText where
  write id := "00000000-0000-0000-0000-00000000000" ++ id.repr
  read text := some (Nat.ofDigitChars 10 (text.toList.drop 35) 0)
  read_write id := by
    rw [String.toList_append, Nat.toList_repr,
      List.drop_left' (show "00000000-0000-0000-0000-00000000000".toList.length = 35 by decide),
      Nat.ofDigitChars_toDigits (by decide) (by decide)]

def smallRandom : Random
  | .items, id => id + 2
  | _, id => id + 5

def aditi : EntityRecord where
  kind := .self
  name := "me"
  summary := some "Aditi Rao, architect"
  id := 2
  createdAt := 0
  updatedAt := 0
  createdByTurnId := none
  updatedByTurnId := none

def rohan : EntityRecord where
  kind := .person
  name := "Rohan"
  id := 3
  createdAt := 0
  updatedAt := 0
  createdByTurnId := some 1
  updatedByTurnId := some 1

/-- A task that waits for Rohan, and a weekly routine with a reminder a day before. -/
def aditisContent : Content where
  categories := [{ id := 4, slug := "home", displayName := "Home" }]
  turns := [{ id := 1, userId := 9, startedAt := 0 }]
  entities := [aditi, rohan]
  items := [
    { kind := .task, state := "open", text := "Give Rohan the keys", title := "Keys", id := 5
      mentionedAt := 0, categoryId := some 4, createdAt := 0, updatedAt := 0
      createdByTurnId := 1, updatedByTurnId := 1 },
    { kind := .plan, state := "scheduled", text := "Yoga every Tuesday", title := "Yoga", id := 6
      mentionedAt := 0, rrule := some "FREQ=WEEKLY", dueAt := some (7 * day), createdAt := 0
      updatedAt := 0, createdByTurnId := 1, updatedByTurnId := 1 }]
  triggers := [
    { on := .person, spec := .obj [("entity_id", .str (smallUuid.write 3))], id := 1, itemId := 5
      createdAt := 0, updatedAt := 0, createdByTurnId := 1, updatedByTurnId := 1 },
    { firesAt := some (6 * day), id := 2, itemId := 6, createdAt := 0, updatedAt := 0
      createdByTurnId := 1, updatedByTurnId := 1 }]

/-- The entity of a visitor's new workspace. -/
def visitor : EntityRecord where
  kind := .self
  name := "me"
  id := 7
  createdAt := 0
  updatedAt := 0
  createdByTurnId := none
  updatedByTurnId := none

def tenDays : Move := ⟨10, 20 * day⟩

theorem aditisContent_closed : aditisContent.Closed smallUuid aditi where
  ids_nodup := by decide
  refs_mem := by decide
  one_self := by decide
  persons x hx value hvalue := by
    rcases List.mem_cons.1 hx with rfl | hx
    · have hnamed : value = .str (smallUuid.write 3) := (Option.some.inj hvalue).symm
      exact ⟨3, hnamed, by decide⟩
    · rw [List.mem_singleton.1 hx] at hvalue
      cases hvalue

theorem aditisIds_fresh :
    Fresh (personaMap smallRandom tenDays aditisContent aditi.id visitor.id) aditisContent where
  distinct := by
    unfold IdMap.Distinct
    decide
  unused := by decide

def visitorsWorkspace : Workspace where
  ownerUserId := 8
  kind := .personaCopy
  content := { entities := [visitor] }

def aditisWorkspace : Workspace where
  ownerUserId := 9
  kind := .template
  seedId := some "aditi-rao"
  content := aditisContent

/-- Two workspaces: the template and a visitor's. -/
def aditisWorkspaces : Workspaces
  | 1 => some aditisWorkspace
  | 2 => some visitorsWorkspace
  | _ => none

/-- A copy ten days later: the reminder of the routine comes two days after it. -/
theorem aditi_carries_over :
    ∃ copy : Content,
      (copyPersonaTemplate smallUuid smallRandom tenDays 1 2 8 aditisWorkspaces).toOption.map
          (fun db => (db 2).map Workspace.content) = some (some copy) ∧
        copy.Closed smallUuid (describedSelf tenDays aditi visitor) ∧
          ∃ x ∈ copy.triggers, ∃ i ∈ copy.items, x.itemId = i.id ∧
            ∃ fires ∈ x.firesAt, ∃ due ∈ i.dueAt, fires - due = 2 * day := by
  have hsrc : aditisWorkspaces 1 = some aditisWorkspace := rfl
  have hdst : aditisWorkspaces 2 = some visitorsWorkspace := rfl
  have howner : visitorsWorkspace.ownerUserId = 8 := rfl
  obtain ⟨hcopied, hclosed, -, -, -, -, hreminders⟩ :=
    copy_carries_over smallUuid smallRandom tenDays hsrc rfl aditisContent_closed hdst howner rfl
      rfl rfl ⟨rfl, rfl⟩ (by decide) aditisIds_fresh
  refine ⟨_, ?_, hclosed, ?_⟩
  · rw [hcopied]
    rfl
  · obtain ⟨x, hx, i, hi, -, -, hitem, hdistance⟩ :=
      hreminders _ (List.mem_cons_of_mem _ List.mem_cons_self) _
        (List.mem_cons_of_mem _ List.mem_cons_self) rfl
    obtain ⟨fires, hfires, due, hdue, hsub⟩ := hdistance (6 * day) rfl (7 * day) rfl
    refine ⟨x, hx, i, hi, hitem, fires, hfires, due, hdue, ?_⟩
    rw [hsub]
    decide

end Persona
end SecondMind
