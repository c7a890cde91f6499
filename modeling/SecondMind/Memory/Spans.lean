import SecondMind.Memory.Secrets

/-!
# What text a commit leaves behind

The fields of an item that are text: its title, its text, its raw content, its tags, and the
strings of its attributes and of its value.  A store holds a span if it is inside one of them, in
an item, in a version or in an image of the write log, or inside the title of a log row.

* `Wrote.holds_iff` — over any row writes, what is held is what was held and what the `after`
  images give;
* `Writer.step_holds_iff` — one op leaves its title, if it is logged, and its own fields, if it is
  applied;
* `Writer.commit_holds_iff` — a commit leaves no span exactly when none was held and every op
  spares it.
-/

namespace SecondMind

open Keyed

/-! ## Fields -/

mutual

/-- The strings of a JSON value, its keys among them. -/
def Json.texts : Json → List String
  | .str s => [s]
  | .arr elems => elemTexts elems
  | .obj members => memberTexts members
  | .null | .bool _ | .num _ => []

def Json.elemTexts : List Json → List String
  | [] => []
  | e :: es => e.texts ++ elemTexts es

def Json.memberTexts : List (String × Json) → List String
  | [] => []
  | (k, v) :: members => k :: v.texts ++ memberTexts members

end

/-- The span is inside one of the fields. -/
def Within (u : String) (fields : List String) : Prop := ∃ f ∈ fields, u.toList <:+: f.toList

@[simp] theorem not_within_nil (u : String) : ¬ Within u [] := fun ⟨_, h, _⟩ => List.not_mem_nil h

@[simp] theorem within_append {u : String} {fs gs : List String} :
    Within u (fs ++ gs) ↔ Within u fs ∨ Within u gs := by
  simp only [Within, List.mem_append, or_and_right, exists_or]

theorem within_cons {u f : String} {fs : List String} :
    Within u (f :: fs) ↔ Within u [f] ∨ Within u fs := by
  rw [← within_append, List.singleton_append]

theorem Within.mono {u : String} {fs gs : List String} (h : Within u fs) (hsub : fs ⊆ gs) :
    Within u gs := by
  obtain ⟨f, hf, hin⟩ := h
  exact ⟨f, hsub hf, hin⟩

/-- The text of an item. -/
def ItemContent.fields (c : ItemContent) : List String :=
  [c.title] ++ [c.text] ++ c.rawContent.toList ++ c.tags ++ c.attributes.texts ++
    c.value.elim [] Json.texts

/-- The text of a dictionary of changes. -/
def ItemChanges.fields (ch : ItemChanges) : List String :=
  ch.title.elim [] (fun title => [title]) ++ ch.text.elim [] (fun text => [text]) ++
    ch.rawContent.elim [] Option.toList ++ ch.tags.elim [] id ++
    ch.attributes.elim [] Json.texts ++ ch.value.elim [] (fun value => value.elim [] Json.texts)

/-- What an op brings: the text of the item it makes, or of the changes it makes to one. -/
def OpBody.fields : OpBody → List String
  | .createItem _ item .. => item.fields
  | body => body.itemChanges.fields

/-- A field that may have a new value. -/
theorem within_getD {α : Type} (f : α → List String) (old : α) (new : Option α) (u : String) :
    (Within u (f (new.getD old)) ∨ Within u (f old)) ↔
      (Within u (f old) ∨ Within u (new.elim [] f)) := by
  cases new with
  | none => simp
  | some x => exact or_comm

theorem or_parts {a a' b b' x y : Prop} (h : (a' ∨ a) ↔ (a ∨ x)) (h' : (b' ∨ b) ↔ (b ∨ y)) :
    ((a' ∨ b') ∨ a ∨ b) ↔ ((a ∨ b) ∨ x ∨ y) := by
  rw [or_or_or_comm, h, h', or_or_or_comm]

/-- A changed item has the text of the changes, and none that neither had. -/
theorem within_apply (ch : ItemChanges) (c : ItemContent) (u : String) :
    (Within u (ch.apply c).fields ∨ Within u c.fields) ↔
      (Within u c.fields ∨ Within u ch.fields) := by
  have htitle := within_getD (fun x => [x]) c.title ch.title u
  have htext := within_getD (fun x => [x]) c.text ch.text u
  have hraw := within_getD Option.toList c.rawContent ch.rawContent u
  have htags := within_getD id c.tags ch.tags u
  have hattributes := within_getD Json.texts c.attributes ch.attributes u
  have hvalue := within_getD (fun x : Option Json => x.elim [] Json.texts) c.value ch.value u
  have hall := or_parts (or_parts (or_parts (or_parts (or_parts htitle htext) hraw) htags)
    hattributes) hvalue
  simp only [ItemContent.fields, ItemChanges.fields, ItemChanges.apply, within_append]
  exact hall

/-! ## Row writes -/

/-- The text of a row's image: only an item has any. -/
def imageFields : (a : TargetType) → a.Record → List String
  | .item, r => r.fields
  | .entity, _ | .trigger, _ | .link, _ | .itemEntity, _ | .relation, _ => []

/-- The span is in the image before or after. -/
def ChangeShows (u : String) (c : RowChange) : Prop :=
  Within u (c.before.elim [] (imageFields c.table)) ∨ Within u (c.after.elim [] (imageFields c.table))

/-- The span is in the image after. -/
def ChangeGives (u : String) (c : RowChange) : Prop :=
  Within u (c.after.elim [] (imageFields c.table))

/-- The span is in a stored item. -/
def ItemsHold (u : String) (t : MemoryTables) : Prop :=
  ∃ id r, t.getItem id = some r ∧ Within u r.fields

theorem fields_keepAccess (t : Tables) (r : ItemRecord) : (t.keepAccess r).fields = r.fields := by
  unfold Tables.keepAccess
  split <;> rfl

/-- An item that is put in replaces the one under its id. -/
theorem itemsHold_put {u : String} {t t' : MemoryTables} {r : ItemRecord}
    (put : t'.items = t.items.put r) :
    (ItemsHold u t' ∨ Within u ((t.getItem r.id).elim [] fun old => old.fields)) ↔
      (ItemsHold u t ∨ Within u r.fields) := by
  have hget : ∀ id, t'.getItem id = if id = r.id then some r else t.getItem id := fun id => by
    rw [MemoryTables.getItem, put, KeyTable.lookup_put]
    rfl
  constructor
  · rintro (⟨id, r', hr', hin⟩ | hin)
    · rw [hget] at hr'
      split at hr'
      · cases hr'
        exact .inr hin
      · exact .inl ⟨id, r', hr', hin⟩
    · cases hold : t.getItem r.id with
      | none =>
        rw [hold] at hin
        exact absurd hin (not_within_nil u)
      | some old =>
        rw [hold] at hin
        exact .inl ⟨r.id, old, hold, hin⟩
  · rintro (⟨id, r', hr', hin⟩ | hin)
    · by_cases he : id = r.id
      · refine .inr ?_
        rw [← he, hr']
        exact hin
      · refine .inl ⟨id, r', ?_, hin⟩
        rw [hget, if_neg he, hr']
    · exact .inl ⟨r.id, r, by rw [hget, if_pos rfl], hin⟩

/-- **One row write**: what the items hold or the images show is what the items held or the
image after gives. -/
theorem RowStep.holds_iff {b : Backend} {turn : Uuid} {t t' : Tables} {c : RowChange}
    (h : RowStep b turn t c t') (u : String) :
    (ItemsHold u t'.toMemoryTables ∨ ChangeShows u c) ↔
      (ItemsHold u t.toMemoryTables ∨ ChangeGives u c) := by
  have hother : ∀ {t' : Tables} {c : RowChange}, t'.items = t.items →
      (∀ r, imageFields c.table r = []) →
      ((ItemsHold u t'.toMemoryTables ∨ ChangeShows u c) ↔
        (ItemsHold u t.toMemoryTables ∨ ChangeGives u c)) := by
    intro t' c hitems hnone
    have hempty : ∀ image : Option c.table.Record, image.elim [] (imageFields c.table) = [] := by
      rintro (_ | r)
      · rfl
      · exact hnone r
    simp [ChangeShows, ChangeGives, hempty, ItemsHold, MemoryTables.getItem, hitems]
  cases h with
  | @newItem r free =>
    have hput : (ItemsHold u { t.toMemoryTables with items := t.items.put r } ∨ _) ↔ _ :=
      itemsHold_put rfl
    rw [free] at hput
    simp only [Option.elim, not_within_nil, or_false] at hput
    simp only [ChangeShows, ChangeGives, Option.elim, not_within_nil, false_or]
    show (_ ∨ Within u r.fields) ↔ (_ ∨ Within u r.fields)
    rw [hput, or_assoc, or_self]
  | @editItem before after stored sameId =>
    have hid : (t.keepAccess after).id = before.id := (id_keepAccess t after).trans sameId
    have hput : (ItemsHold u { t.toMemoryTables with items := t.items.put (t.keepAccess after) } ∨
        _) ↔ _ := itemsHold_put rfl
    rw [hid, stored, fields_keepAccess] at hput
    show (_ ∨ Within u before.fields ∨ Within u after.fields) ↔ (_ ∨ Within u after.fields)
    rw [← or_assoc]
    simp only [Option.elim] at hput
    rw [hput, or_assoc, or_self]
  | editTrigger stored stamp written =>
    refine hother ?_ fun _ => rfl
    unfold Tables.replaceTrigger at written
    split at written
    · cases written
      rfl
    · obtain ⟨-, rfl⟩ := Tables.statement_eq_ok.1 written
      rfl
  | newEntity => exact hother rfl fun _ => rfl
  | editEntity => exact hother rfl fun _ => rfl
  | newItemEntity => exact hother rfl fun _ => rfl
  | dropItemEntity => exact hother rfl fun _ => rfl
  | newLink => exact hother rfl fun _ => rfl
  | dropLink => exact hother rfl fun _ => rfl
  | newRelation => exact hother rfl fun _ => rfl
  | dropRelation => exact hother rfl fun _ => rfl
  | newTrigger => exact hother rfl fun _ => rfl

/-- **Row writes**: what the items hold or the images show in the end is what the items held
or the images after give. -/
theorem Wrote.holds_iff {b : Backend} {turn : Uuid} {t t' : Tables} {cs : List RowChange}
    (h : Wrote b turn t cs t') (u : String) :
    (ItemsHold u t'.toMemoryTables ∨ ∃ c ∈ cs, ChangeShows u c) ↔
      (ItemsHold u t.toMemoryTables ∨ ∃ c ∈ cs, ChangeGives u c) := by
  induction h with
  | refl => simp
  | quiet _ q ih => rw [q.memory, ih]
  | @row t₁ t₂ cs c _ step ih =>
    have hstep := step.holds_iff u
    simp only [List.mem_append, List.mem_singleton, or_and_right, exists_or, exists_eq_left]
    constructor
    · rintro (hitems | hcs | hc)
      · rcases hstep.1 (.inl hitems) with hitems | hc
        · rcases ih.1 (.inl hitems) with hitems | hcs
          · exact .inl hitems
          · exact .inr (.inl hcs)
        · exact .inr (.inr hc)
      · rcases ih.1 (.inr hcs) with hitems | hcs
        · exact .inl hitems
        · exact .inr (.inl hcs)
      · rcases hstep.1 (.inr hc) with hitems | hc
        · rcases ih.1 (.inl hitems) with hitems | hcs
          · exact .inl hitems
          · exact .inr (.inl hcs)
        · exact .inr (.inr hc)
    · rintro (hitems | hcs | hc)
      · rcases ih.2 (.inl hitems) with hitems | hcs
        · rcases hstep.2 (.inl hitems) with hitems | hc
          · exact .inl hitems
          · exact .inr (.inr hc)
        · exact .inr (.inl hcs)
      · rcases ih.2 (.inr hcs) with hitems | hcs
        · rcases hstep.2 (.inl hitems) with hitems | hc
          · exact .inl hitems
          · exact .inr (.inr hc)
        · exact .inr (.inl hcs)
      · rcases hstep.2 (.inr hc) with hitems | hc
        · exact .inl hitems
        · exact .inr (.inr hc)

/-! ## One op -/

/-- The text of a log row: its title, and the images. -/
def WriteLogRecord.fields (row : WriteLogRecord) : List String :=
  [row.title] ++ (row.before.elim [] (imageFields row.targetType) ++
    row.after.elim [] (imageFields row.targetType))

theorem within_row {u : String} {row : WriteLogRecord} :
    Within u row.fields ↔ Within u [row.title] ∨ ChangeShows u row.change := by
  rw [WriteLogRecord.fields, within_append, within_append]
  rfl

namespace Writer

variable {w : Writer}

/-- The rows that `log'` has beyond `log` carry the title of the op, and `gives` says what their
images after give. -/
structure Titled (log log' : RowLog) (rows : List WriteLogRecord) (gives : String → Prop) :
    Prop where
  op : log'.op = log.op
  appended : log'.rows = log.rows ++ rows
  titles : ∀ row ∈ rows, row.title = loggedTitle log.op.title
  gives : ∀ u, (∃ row ∈ rows, ChangeGives u row.change) ↔ gives u

theorem Titled.trans {log log' log'' : RowLog} {rows rows' : List WriteLogRecord}
    {p q : String → Prop} (h : Titled log log' rows p) (h' : Titled log' log'' rows' q) :
    Titled log log'' (rows ++ rows') fun u => p u ∨ q u where
  op := h'.op.trans h.op
  appended := by rw [h'.appended, h.appended, List.append_assoc]
  titles := fun row hrow => by
    rcases List.mem_append.1 hrow with hrow | hrow
    · exact h.titles row hrow
    · rw [← h.op]
      exact h'.titles row hrow
  gives := fun u => by
    simp only [List.mem_append, or_and_right, exists_or, h.gives, h'.gives]

theorem Titled.congr {log log' : RowLog} {rows : List WriteLogRecord} {p q : String → Prop}
    (h : Titled log log' rows p) (hpq : ∀ u, p u ↔ q u) : Titled log log' rows q :=
  ⟨h.op, h.appended, h.titles, fun u => (h.gives u).trans (hpq u)⟩

theorem titled_nil (log : RowLog) : Titled log log [] fun _ => False :=
  ⟨rfl, (List.append_nil _).symm, fun _ h => absurd h List.not_mem_nil, fun u => by simp⟩

theorem titled_add (log : RowLog) (a : TargetType) (id : Uuid) (before after : Option a.Record)
    (layer : Layer) (label : Option WriteOp) :
    Titled log (w.add log a id before after layer label)
      [w.logRow log.seqBase log.op (log.seq + log.rows.length + 1) allowedVerdict a id layer before
        after label] fun u => Within u (after.elim [] (imageFields a)) := by
  refine ⟨rfl, rfl, fun row hrow => ?_, fun u => ?_⟩
  · rw [List.mem_singleton.1 hrow]
    rfl
  · simp only [List.mem_singleton, exists_eq_left]
    rfl

theorem attachNew_titled {record : ItemRecord} {links : List EntityLink} {t t' : Tables}
    {log log' : RowLog} (h : w.attachNew record t log links = .ok (t', log')) :
    ∃ rows, Titled log log' rows fun _ => False := by
  induction links generalizing t log with
  | nil =>
    cases h
    exact ⟨[], titled_nil log'⟩
  | cons link links ih =>
    unfold attachNew at h
    split at h
    · cases h
    · obtain ⟨t₁, -, h⟩ := bind_eq_ok.1 h
      obtain ⟨rows, hrows⟩ := ih h
      exact ⟨_, ((titled_add log _ _ _ _ _ _).trans hrows).congr fun u => by simp [imageFields]⟩

theorem triggerNew_titled {record : ItemRecord} {news : List NewTrigger} {t t' : Tables}
    {log log' : RowLog} (h : w.triggerNew record t log news = .ok (t', log')) :
    ∃ rows, Titled log log' rows fun _ => False := by
  induction news generalizing t log with
  | nil =>
    cases h
    exact ⟨[], titled_nil log'⟩
  | cons new news ih =>
    obtain ⟨t₁, -, h⟩ := bind_eq_ok.1 h
    obtain ⟨rows, hrows⟩ := ih h
    exact ⟨_, ((titled_add log _ _ _ _ _ _).trans hrows).congr fun u => by simp [imageFields]⟩

theorem fields_newItem {itemId : Uuid} {item : ItemContent} {categoryId : Option Uuid}
    {r : ItemRecord} (h : w.newItem itemId item categoryId = .ok r) : r.fields = item.fields := by
  obtain ⟨⟨c, hc⟩, -⟩ := newItem_eq_ok h
  have hsame : (w.newContent item).fields = item.fields := by
    unfold newContent
    split <;> rfl
  rw [hc]
  exact hsame

theorem fields_edited (before : ItemRecord) (changes : ItemChanges) :
    (w.edited before changes).fields = (changes.apply before.toItemContent).fields := by
  unfold edited changedContent
  dsimp only
  split <;> rfl

/-- A stored item that is edited has the text of the changes, and none that neither had. -/
theorem itemsHold_edited {t : MemoryTables} {id : Uuid} {before : ItemRecord}
    (stored : t.getItem id = some before) (changes : ItemChanges) (u : String) :
    (ItemsHold u t ∨ Within u (w.edited before changes).fields) ↔
      (ItemsHold u t ∨ Within u changes.fields) := by
  have hedit := within_apply changes before.toItemContent u
  have hstored : Within u before.fields → ItemsHold u t := fun hin => ⟨id, before, stored, hin⟩
  rw [fields_edited]
  constructor
  · rintro (hitems | hin)
    · exact .inl hitems
    · exact (hedit.1 (.inl hin)).imp_left hstored
  · rintro (hitems | hin)
    · exact .inl hitems
    · exact (hedit.2 (.inr hin)).symm.imp_left hstored

theorem fields_refile (t : Tables) (i : Nat) (changes : ItemChanges) :
    (w.refile t i changes).2.fields = changes.fields := by
  unfold refile
  split <;> rfl

/-- What an op that applies logs: at least one row, under its title, and images that give, besides
what a stored item holds, the op's own fields. -/
def Logs (t : Tables) (log log' : RowLog) (body : OpBody) : Prop :=
  ∃ rows gives, Titled log log' rows gives ∧ rows ≠ [] ∧
    ∀ u, (ItemsHold u t.toMemoryTables ∨ gives u) ↔
      (ItemsHold u t.toMemoryTables ∨ Within u body.fields)

/-- An op without text that logs one row. -/
theorem logs_add {t : Tables} {log : RowLog} {body : OpBody} {a : TargetType} {id : Uuid}
    {before after : Option a.Record} {layer : Layer} {label : Option WriteOp}
    (hafter : after.elim [] (imageFields a) = []) (hfields : body.fields = []) :
    Logs t log (w.add log a id before after layer label) body :=
  ⟨_, _, titled_add log _ _ _ _ _ _, List.cons_ne_nil _ _, fun u => by rw [hafter, hfields]⟩

theorem changeItem_logs {t t' : Tables} {i : Nat} {log log' : RowLog} {itemId : Uuid} {body : OpBody}
    (hfields : body.fields = body.itemChanges.fields)
    (h : w.changeItem t i log itemId body.itemChanges = .ok (t', log')) : Logs t log log' body := by
  obtain ⟨before, after, hget, rfl, -, -, -, hx⟩ := changeItem_eq_ok.1 h
  obtain ⟨-, rfl⟩ := Prod.mk.inj hx
  refine ⟨_, _, titled_add log _ _ _ _ _ _, List.cons_ne_nil _ _, fun u => ?_⟩
  rw [hfields, ← fields_refile t i body.itemChanges]
  exact itemsHold_edited hget _ u

theorem changeAndLink_logs {t t' : Tables} {log log' : RowLog} {oldId : Uuid}
    {old new : ItemRecord} {linkId : Uuid} {linkType : LinkType} {body : OpBody}
    (hfields : body.fields = body.itemChanges.fields) (hold : liveItem t oldId = .ok old)
    (h : w.changeAndLink t log old new body.itemChanges linkId linkType = .ok (t', log')) :
    Logs t log log' body := by
  obtain rfl := id_of_liveItem hold
  have hget := (liveItem_eq_ok.1 hold).1
  obtain ⟨after, rfl, -, -, -, hlink⟩ := (changeAndLink_eq_ok hget).1 h
  obtain ⟨-, hx⟩ := insertLink_eq_ok.1 hlink
  obtain ⟨-, rfl⟩ := Prod.mk.inj hx
  refine ⟨_, _, (titled_add log _ _ _ _ _ _).trans (titled_add _ _ _ _ _ _ _),
    List.cons_ne_nil _ _, fun u => ?_⟩
  have hlinkless : ¬ Within u ((some (w.newLink linkId new.id linkType old.id)).elim []
    (imageFields .link)) := not_within_nil u
  rw [or_iff_left hlinkless, hfields]
  exact itemsHold_edited hget _ u

theorem createItem_logs {t t' : Tables} {i : Nat} {log log' : RowLog} {itemId : Uuid}
    {item : ItemContent} {entities : List EntityLink} {triggers : List NewTrigger}
    {slug name : Option String}
    (h : w.createItem t i log itemId item entities triggers slug name = .ok (t', log')) :
    Logs t log log' (.createItem itemId item entities triggers slug name) := by
  obtain ⟨record, hnew, h⟩ := bind_eq_ok.1 h
  have hrecord := fields_newItem (run_eq_ok.1 hnew)
  split at h
  · exact (nomatch h)
  · obtain ⟨t₁, -, h⟩ := bind_eq_ok.1 h
    obtain ⟨⟨t₂, log₂⟩, hattached, h⟩ := bind_eq_ok.1 h
    obtain ⟨rows, hrows⟩ := attachNew_titled hattached
    obtain ⟨rows', hrows'⟩ := triggerNew_titled h
    refine ⟨_, _, ((titled_add log _ _ _ _ _ _).trans hrows).trans hrows',
      by simp, fun u => ?_⟩
    rw [or_false, or_false, OpBody.fields, ← hrecord]
    rfl

/-- **What an op logs.** -/
theorem apply_logs {t t' : Tables} {i : Nat} {log log' : RowLog} {body : OpBody}
    (h : w.apply t i log body = .ok (t', log')) : Logs t log log' body := by
  cases body with
  | createItem => exact createItem_logs h
  | updateItem => exact changeItem_logs rfl h
  | setItemState => exact changeItem_logs rfl h
  | deleteItem => exact changeItem_logs rfl h
  | restoreItem => exact changeItem_logs rfl h
  | supersedeItem =>
    obtain ⟨old, new, hold, -, -, h⟩ := supersede_eq_ok.1 h
    exact changeAndLink_logs rfl hold h
  | correctItem =>
    obtain ⟨old, new, hold, -, -, h⟩ := correct_eq_ok.1 h
    exact changeAndLink_logs rfl hold h
  | fulfilIntention =>
    obtain ⟨old, new, hold, -, -, h⟩ := fulfil_eq_ok.1 h
    exact changeAndLink_logs rfl hold h
  | linkItems =>
    obtain ⟨-, -, h⟩ := linkItems_eq_ok.1 h
    obtain ⟨-, hx⟩ := insertLink_eq_ok.1 h
    obtain ⟨-, rfl⟩ := Prod.mk.inj hx
    exact logs_add rfl rfl
  | unlinkItems =>
    obtain ⟨old, -, hx⟩ := unlinkItems_eq_ok.1 h
    obtain ⟨-, rfl⟩ := Prod.mk.inj hx
    exact logs_add rfl rfl
  | attachEntity =>
    obtain ⟨-, -, hx⟩ := attach_eq_ok.1 h
    obtain ⟨-, rfl⟩ := Prod.mk.inj hx
    exact logs_add rfl rfl
  | detachEntity =>
    obtain ⟨old, -, hx⟩ := detach_eq_ok.1 h
    obtain ⟨-, rfl⟩ := Prod.mk.inj hx
    exact logs_add rfl rfl
  | upsertEntity =>
    rcases upsertEntity_eq_ok.1 h with ⟨-, -, -, hx⟩ | ⟨-, before, -, -, hx⟩
    · obtain ⟨-, rfl⟩ := Prod.mk.inj hx
      exact logs_add rfl rfl
    · obtain ⟨-, rfl⟩ := Prod.mk.inj hx
      exact logs_add rfl rfl
  | deleteEntity =>
    obtain ⟨before, after, -, -, -, -, hx⟩ := deleteEntity_eq_ok.1 h
    obtain ⟨-, rfl⟩ := Prod.mk.inj hx
    exact logs_add rfl rfl
  | relateEntities =>
    obtain ⟨-, hx⟩ := relate_eq_ok.1 h
    obtain ⟨-, rfl⟩ := Prod.mk.inj hx
    exact logs_add rfl rfl
  | unrelateEntities =>
    obtain ⟨old, -, hx⟩ := unrelate_eq_ok.1 h
    obtain ⟨-, rfl⟩ := Prod.mk.inj hx
    exact logs_add rfl rfl
  | setTriggerState =>
    obtain ⟨before, t₁, -, -, -, hx⟩ := changeTrigger_eq_ok.1 h
    obtain ⟨-, rfl⟩ := Prod.mk.inj hx
    exact logs_add rfl rfl
  | updateTrigger =>
    obtain ⟨before, t₁, -, -, -, hx⟩ := changeTrigger_eq_ok.1 h
    obtain ⟨-, rfl⟩ := Prod.mk.inj hx
    exact logs_add rfl rfl

/-! ## A batch -/

/-- The span is in a stored item or in a row logged so far. -/
def Progress.Holds (u : String) (p : Progress) : Prop :=
  ItemsHold u p.tables.toMemoryTables ∨ ∃ row ∈ p.rows, Within u row.fields

/-- The op leaves a log row: it is refused, or it is applied. -/
def IsLogged (w : Writer) (sb i : Nat) (p : Progress) (op : Op) : Prop :=
  (∃ v, w.verdict p.tables op = .ok v ∧ v.decision ≠ .allowed) ∨ w.Applies sb i p op

/-- A refused op logs its title and nothing else. -/
theorem refuse_row (sb i : Nat) (p : Progress) (op : Op) (v : PolicyVerdict) :
    ∃ row, (w.refuse sb i p op v).rows = p.rows ++ [row] ∧
      row.fields = [loggedTitle op.title] := by
  unfold refuse
  dsimp only
  split
  · exact ⟨_, rows_append _ _ _ _ _, rfl⟩
  · exact ⟨_, rows_append _ _ _ _ _, rfl⟩

/-- The rows of an applied op show its title, and what the images show. -/
theorem within_titled {log log' : RowLog} {rows : List WriteLogRecord} {gives : String → Prop}
    (h : Titled log log' rows gives) (hne : rows ≠ []) (u : String) :
    (∃ row ∈ rows, Within u row.fields) ↔
      Within u [loggedTitle log.op.title] ∨ ∃ c ∈ rows.map (·.change), ChangeShows u c := by
  constructor
  · rintro ⟨row, hrow, hin⟩
    rcases within_row.1 hin with htitle | hshows
    · rw [h.titles row hrow] at htitle
      exact .inl htitle
    · exact .inr ⟨_, List.mem_map_of_mem hrow, hshows⟩
  · rintro (htitle | ⟨c, hc, hshows⟩)
    · obtain ⟨row, hrow⟩ := List.exists_mem_of_ne_nil _ hne
      rw [← h.titles row hrow] at htitle
      exact ⟨row, hrow, within_row.2 (.inl htitle)⟩
    · obtain ⟨row, hrow, rfl⟩ := List.mem_map.1 hc
      exact ⟨row, hrow, within_row.2 (.inr hshows)⟩

/-- What an applied op leaves. -/
theorem apply_holds_iff {t t' : Tables} {sb seq i : Nat} {op : Op} {log : RowLog}
    (h : w.apply t i { seqBase := sb, op := op, seq := seq } op.body = .ok (t', log)) (u : String) :
    (ItemsHold u t'.toMemoryTables ∨ ∃ row ∈ log.rows, Within u row.fields) ↔
      (ItemsHold u t.toMemoryTables ∨ Within u [loggedTitle op.title] ∨ Within u op.body.fields) := by
  obtain ⟨rows, gives, htitled, hne, hgives⟩ := apply_logs h
  obtain ⟨cs, hcs, hwrote⟩ := (apply_does h).wrote
  have hrows : log.rows = rows := htitled.appended
  obtain rfl : log.rows.map (·.change) = cs := hcs
  have hall := (hwrote.holds_iff u).trans
    ((or_congr_right (by simp [hrows, htitled.gives u])).trans (hgives u))
  have htitles := within_titled htitled hne u
  rw [← hrows] at htitles
  rw [htitles, or_left_comm, hall, or_left_comm]

/-- **One op** leaves its title, if it is logged, and its own fields, if it is applied. -/
theorem step_holds_iff {sb i : Nat} {p p' : Progress} {op : Op} (h : w.step sb i p op = .ok p')
    (u : String) :
    p'.Holds u ↔ p.Holds u ∨ (w.IsLogged sb i p op ∧ Within u [loggedTitle op.title]) ∨
      (w.Applies sb i p op ∧ Within u op.body.fields) := by
  rcases step_cases h with ⟨v, hv, hd, rfl⟩ | ⟨v, t, reason, hv, hd, hskip, rfl⟩ |
    ⟨v, t, log, hv, hd, happly, rfl⟩
  · have hnot : ¬ w.Applies sb i p op := by
      rintro ⟨⟨v', hv', hd'⟩, -⟩
      rw [hv] at hv'
      cases hv'
      exact hd hd'
    have hlogged : w.IsLogged sb i p op := .inl ⟨v, hv, hd⟩
    obtain ⟨row, hrows, hfields⟩ := w.refuse_row sb i p op v
    simp only [Progress.Holds, refuse_tables, hrows, List.mem_append, List.mem_singleton, hfields,
      or_and_right, exists_or, exists_eq_left, hnot, hlogged, true_and, false_and, or_false,
      or_assoc]
  · have hnot : ¬ w.Applies sb i p op := by
      rintro ⟨-, x, hx⟩
      rw [hskip] at hx
      exact (nomatch hx)
    have hsilent : ¬ w.IsLogged sb i p op := by
      rintro (⟨v', hv', hd'⟩ | happlies)
      · rw [hv] at hv'
        cases hv'
        exact hd' hd
      · exact hnot happlies
    simp only [Progress.Holds, rows_append, List.append_nil, (apply_skip hskip).memory, hnot,
      hsilent, false_and, or_false]
  · have happlies : w.Applies sb i p op := ⟨⟨v, hv, hd⟩, _, happly⟩
    have hlogged : w.IsLogged sb i p op := .inr happlies
    have hop := apply_holds_iff happly u
    simp only [Progress.Holds, rows_append, List.mem_append, or_and_right, exists_or, happlies,
      hlogged, true_and]
    rw [or_left_comm, hop, or_left_comm, or_assoc]

/-- No op of the batch brings the span: no logged op in its title, no applied op in its own
fields. -/
def SparesFrom (w : Writer) (sb : Nat) (u : String) : Nat → Progress → List Op → Prop
  | _, _, [] => True
  | i, p, op :: ops =>
    (w.IsLogged sb i p op → ¬ Within u [loggedTitle op.title]) ∧
      (w.Applies sb i p op → ¬ Within u op.body.fields) ∧
        ∀ p', w.step sb i p op = .ok p' → SparesFrom w sb u (i + 1) p' ops

theorem steps_holds_iff {sb : Nat} {u : String} {ops : List Op} {i : Nat} {p p' : Progress}
    (h : w.steps sb i p ops = .ok p') :
    ¬ p'.Holds u ↔ ¬ p.Holds u ∧ w.SparesFrom sb u i p ops := by
  induction ops generalizing i p with
  | nil =>
    cases h
    exact (and_iff_left trivial).symm
  | cons op ops ih =>
    obtain ⟨p₁, h₁, h⟩ := bind_eq_ok.1 h
    rw [ih h, step_holds_iff h₁ u, not_or, not_or, not_and, not_and, and_assoc, and_assoc]
    refine and_congr_right fun _ => and_congr_right fun _ => and_congr_right fun _ => ?_
    constructor
    · intro hrest p'' hp''
      rw [h₁] at hp''
      cases hp''
      exact hrest
    · exact fun hrest => hrest p₁ h₁

/-- No op of the writer brings the span.  Of a batch held whole only the titles are logged. -/
def Spares (w : Writer) (t : Tables) (u : String) : Prop :=
  if w.heldWhole then ∀ op ∈ w.ops, ¬ Within u [loggedTitle op.title]
  else w.SparesFrom (w.seqBase t) u 0 { tables := w.writeVocab t } w.ops

theorem holdEverything_holds_iff {sb : Nat} {t : Tables} {u : String} :
    ¬ (w.holdEverything sb t).Holds u ↔
      ¬ ItemsHold u t.toMemoryTables ∧ ∀ op ∈ w.ops, ¬ Within u [loggedTitle op.title] := by
  rw [Progress.Holds, not_or, holdEverything_rows]
  refine and_congr_right fun _ => ?_
  constructor
  · intro hnone op hop hin
    obtain ⟨k, hk⟩ := List.mem_iff_getElem?.1 hop
    have hzip : (op, k) ∈ w.ops.zipIdx := List.mem_zipIdx_iff_getElem?.2 hk
    exact hnone ⟨_, List.mem_map.2 ⟨(op, k), hzip, rfl⟩, hin⟩
  · rintro hnone ⟨row, hrow, hin⟩
    obtain ⟨e, he, rfl⟩ := List.mem_map.1 hrow
    exact hnone e.1 (List.fst_mem_of_mem_zipIdx he) hin

/-! ## A commit -/

/-- The versions of a commit are snapshots that its log rows left. -/
theorem versions_writeVersions {t : Tables} {rows : List WriteLogRecord} {v : VersionRecord} :
    (v ∈ t.versions → v ∈ (w.writeVersions t rows).versions) ∧
      (v ∈ (w.writeVersions t rows).versions → v ∈ t.versions ∨
        ∃ row ∈ rows, ∀ u, Within u v.snapshot.fields → Within u row.fields) := by
  induction rows generalizing t with
  | nil => exact ⟨id, .inl⟩
  | cons row rows ih =>
    rw [writeVersions, List.foldl_cons]
    split
    · rename_i turnId seq label itemId layer title before snapshot rationale trust ruleId reason
      obtain ⟨hkept, hfrom⟩ := ih (t := t.insertVersion
        ⟨itemId, w.turn.turnId, t.nextVersion w.backend itemId, snapshot⟩)
      refine ⟨fun hv => hkept (List.mem_append_left _ hv), fun hv => ?_⟩
      rcases hfrom hv with hv | ⟨row, hrow, hin⟩
      · rcases List.mem_append.1 hv with hv | hv
        · exact .inl hv
        · obtain rfl := List.mem_singleton.1 hv
          exact .inr ⟨_, List.mem_cons_self, fun u hin => within_row.2 (.inr (.inr hin))⟩
      · exact .inr ⟨row, List.mem_cons_of_mem _ hrow, hin⟩
    · obtain ⟨hkept, hfrom⟩ := ih (t := t)
      refine ⟨hkept, fun hv => ?_⟩
      rcases hfrom hv with hv | ⟨row, hrow, hin⟩
      · exact .inl hv
      · exact .inr ⟨row, List.mem_cons_of_mem _ hrow, hin⟩

end Writer

/-- The span is in an item, in a version or in the write log. -/
def Tables.Holds (u : String) (t : Tables) : Prop :=
  ItemsHold u t.toMemoryTables ∨ (∃ v ∈ t.versions, Within u v.snapshot.fields) ∨
    ∃ row ∈ t.writeLog, Within u row.fields

namespace Writer

variable {w : Writer}

theorem commit_versions {t t' : Tables} {res : CommitResult} {p : Progress} {v : VersionRecord}
    (h : w.commit t = .ok (t', res)) (hp : CommitParts w t t' res p) :
    (v ∈ t.versions → v ∈ t'.versions) ∧ (v ∈ t'.versions → v ∈ t.versions ∨
      ∃ row ∈ p.rows, ∀ u, Within u v.snapshot.fields → Within u row.fields) := by
  obtain ⟨p', hp', h⟩ := bind_eq_ok.1 h
  obtain ⟨t₁, ht₁, h⟩ := bind_eq_ok.1 h
  cases h
  obtain rfl : p = p' := Except.ok.inj (hp.batch.symm.trans hp')
  have hsame : t₁.versions = t.versions := by
    rw [foldlM_insertHeldWrite ht₁]
    show p.tables.versions = t.versions
    obtain ⟨vocab, hvocab⟩ := w.writeVocab_eq t
    rw [(applyAll_follows hp').versions, hvocab]
  rw [← hsame]
  exact versions_writeVersions

/-- **A commit** leaves no span exactly when none was held and no op brings it. -/
theorem commit_holds_iff {t t' : Tables} {res : CommitResult} {u : String}
    (h : w.commit t = .ok (t', res)) : ¬ t'.Holds u ↔ ¬ t.Holds u ∧ w.Spares t u := by
  obtain ⟨p, hp⟩ := commit_parts h
  have hfollows := applyAll_follows hp.batch
  have hversions : ∀ v, (v ∈ t.versions → v ∈ t'.versions) ∧ (v ∈ t'.versions → v ∈ t.versions ∨
      ∃ row ∈ p.rows, ∀ u, Within u v.snapshot.fields → Within u row.fields) :=
    fun v => commit_versions h hp
  have hbatch : ¬ p.Holds u ↔ ¬ ItemsHold u t.toMemoryTables ∧ w.Spares t u := by
    have happly := hp.batch
    unfold applyAll at happly
    unfold Spares
    split at happly
    · rename_i hwhole
      cases happly
      rw [holdEverything_holds_iff, writeVocab_memory, if_pos hwhole]
    · rename_i hwhole
      rw [steps_holds_iff happly, if_neg hwhole]
      simp [Progress.Holds, Progress.rows]
  have hlog : t'.writeLog = t.writeLog ++ p.rows := by
    rw [hp.writeLog, hfollows.writeLog, writeVocab_writeLog]
  rw [Tables.Holds, Tables.Holds, hp.memory, hlog]
  constructor
  · intro hnone
    have hp' : ¬ p.Holds u := by
      rintro (hitems | ⟨row, hrow, hin⟩)
      · exact hnone (.inl hitems)
      · exact hnone (.inr (.inr ⟨row, List.mem_append_right _ hrow, hin⟩))
    obtain ⟨hitems, hspares⟩ := hbatch.1 hp'
    refine ⟨?_, hspares⟩
    rintro (hin | ⟨v, hv, hin⟩ | ⟨row, hrow, hin⟩)
    · exact hitems hin
    · exact hnone (.inr (.inl ⟨v, (hversions v).1 hv, hin⟩))
    · exact hnone (.inr (.inr ⟨row, List.mem_append_left _ hrow, hin⟩))
  · rintro ⟨hnone, hspares⟩
    have hp' : ¬ p.Holds u := hbatch.2 ⟨fun hitems => hnone (.inl hitems), hspares⟩
    rintro (hin | ⟨v, hv, hin⟩ | ⟨row, hrow, hin⟩)
    · exact hp' (.inl hin)
    · rcases (hversions v).2 hv with hold | ⟨row, hrow, hshown⟩
      · exact hnone (.inr (.inl ⟨v, hold, hin⟩))
      · exact hp' (.inr ⟨row, hrow, hshown u hin⟩)
    · rcases List.mem_append.1 hrow with hrow | hrow
      · exact hnone (.inr (.inr ⟨row, hrow, hin⟩))
      · exact hp' (.inr ⟨row, hrow, hin⟩)

end Writer

end SecondMind
