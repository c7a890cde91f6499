import SecondMind.Ingestion.Pipeline
import SecondMind.Memory.BulkLaw
import SecondMind.Memory.ItemLaws

/-!
# Core memory in the prompt

`MemoryReader.core` and `render_core`: the text about the person that goes in front of every prompt,
and what sensitive items it may quote.  Each line carries the items whose line or title is in it.

* `MemoryTables.core` — the rendered text;
* `Writer.commit_guards` — an unconfirmed commit and the sensitive items of core;
* `core_shows_confirmed` — what a run's text quotes of sensitive items.
-/

namespace SecondMind

open Keyed Policy

/-! ## The text -/

/-- A line of the text, with the items whose line or title it carries. -/
structure CoreText where
  text : String
  quotes : List ItemRecord := []

structure CoreView where
  lines : List CoreText
  text : String
  tokens : Nat
  itemIds : List Uuid
  truncated : Bool

/-- Entities by their id, and the entities each item is linked to, as the reader gives them. -/
structure CoreEntities where
  entities : List EntityRecord
  linked : Uuid → List Uuid

/-- `EntityRecord.display`. -/
def EntityRecord.display (lib : TextLib) (e : EntityRecord) : String :=
  if e.kind = .self then "me"
  else
    match e.labels.find? fun label => lib.lower label ≠ lib.lower e.name with
    | none => e.name
    | some label => if label = "" then e.name else e.name ++ " (" ++ label ++ ")"

/-- `_key_person`. -/
def keyPerson (known : CoreEntities) (item : ItemRecord) : Option EntityRecord :=
  (item.subjectEntityId.toList ++ known.linked item.id).findSome? fun id =>
    (known.entities.find? (·.id = id)).filter fun e => e.kind = .person ∧ e.isKey

/-- The section an item is listed in. -/
inductive CoreSection
  | aboutMe | person (id : Uuid) | preferences | goals | patterns | rules
  deriving DecidableEq

def sectionOf (known : CoreEntities) (item : ItemRecord) : CoreSection :=
  if item.kind = .rule then .rules
  else if item.kind = .pattern then .patterns
  else if item.kind = .intention then .goals
  else
    match keyPerson known item with
    | some person => .person person.id
    | none => if item.kind = .preference then .preferences else .aboutMe

/-- The order of the items, the oldest first. -/
def byAge (lib : TextLib) (items : List ItemRecord) : List ItemRecord :=
  let key (item : ItemRecord) : Instant ×ₗ String ×ₗ Uuid :=
    toLex (item.createdAt, toLex (lib.lower item.title, item.id))
  items.insertionSort fun a b => key a ≤ key b

/-- `core_line`, with its item. -/
def quoted (item : ItemRecord) : CoreText := ⟨coreLine item.toItemContent, [item]⟩

/-- The block of one person. -/
def personBlock (lib : TextLib) (known : CoreEntities) (items : List ItemRecord) (id : Uuid) :
    CoreText :=
  let name := ((known.entities.find? (·.id = id)).map (·.display lib)).getD ""
  ⟨"- " ++ name ++ ":\n  " ++ join "\n  " (items.map fun item => coreLine item.toItemContent), items⟩

/-- The people of a list of items, in the order they come up. -/
def peopleOf (known : CoreEntities) (items : List ItemRecord) : List Uuid :=
  (items.filterMap fun item =>
    match sectionOf known item with
    | .person id => some id
    | _ => none).eraseDups

/-- The three intentions that were saved last. -/
def recentIntentions (lib : TextLib) (intentions : List ItemRecord) : List ItemRecord :=
  let live := intentions.filter fun item => item.state ∈ ["wanted", "active"]
  let key (item : ItemRecord) : Instant ×ₗ String := toLex (item.createdAt, lib.lower item.title)
  (live.insertionSort fun a b => key b ≤ key a).take 3

/-- How many intentions there are of each subtype. -/
def intentionCounts (intentions : List ItemRecord) : String :=
  let live := intentions.filter fun item => item.state ∈ ["wanted", "active"]
  let subtypes := live.map fun item =>
    if item.subtype.getD "" = "" then "other" else item.subtype.getD ""
  join ", " ((subtypes.dedup.insertionSort (· ≤ ·)).map fun subtype =>
    toString (subtypes.count subtype) ++ " to " ++ subtype)

/-- `_intentions_summary`. -/
def intentionsSummary (lib : TextLib) (intentions : List ItemRecord) : List CoreText :=
  let recent := recentIntentions lib intentions
  if recent = [] then []
  else
    [⟨"- " ++ intentionCounts intentions, []⟩,
      ⟨"- Most recent: " ++ join "; " (recent.map (·.title)), recent⟩]

/-- The sections, with their titles. -/
def coreSections (lib : TextLib) (known : CoreEntities) (visible intentions : List ItemRecord) :
    List (String × List CoreText) :=
  let of (s : CoreSection) := visible.filter fun item => sectionOf known item = s
  let projects := known.entities.filter fun e => e.kind = .project ∧ e.status = .active
  [("About me", (of .aboutMe).map quoted),
    ("Key people", (peopleOf known visible).map fun id => personBlock lib known (of (.person id)) id),
    ("Preferences", (of .preferences).map quoted),
    ("Active goals", (of .goals).map quoted ++ projects.map fun e => ⟨"- Project: " ++ e.name, []⟩),
    ("Open intentions", intentionsSummary lib intentions),
    ("Confirmed patterns", (of .patterns).map quoted),
    ("Rules", (of .rules).map quoted)]

def joinLines (lines : List CoreText) : String := join "\n" (lines.map (·.text))

/-- `- (more in the archive)`. -/
def moreLine : CoreText := ⟨"- (more in the archive)", []⟩

/-- The lines, the last one first, without the ones that are over the budget, for a text that is
made of them. -/
def trim (budget : Nat) : String → List CoreText → List CoreText × Bool
  | text, line :: line' :: lines =>
    if budget < estimateTokens text then
      ((trim budget (joinLines ((line' :: lines).reverse ++ [moreLine])) (line' :: lines)).1, true)
    else (line :: line' :: lines, false)
  | _, lines => (lines, false)

/-- `render_core`. -/
def renderCore (lib : TextLib) (known : CoreEntities) (items intentions : List ItemRecord)
    (budget : Nat) : CoreView :=
  let visible := byAge lib (items.filter fun item => inCoreView item.toItemContent)
  let body := (coreSections lib known visible intentions).flatMap fun part =>
    ⟨"### " ++ part.1, []⟩ ::
      (if part.2.isEmpty then [⟨"- (none yet)", []⟩] else part.2)
  let lines : List CoreText := ⟨coreHeader, []⟩ :: body
  let (kept, truncated) := trim budget (joinLines lines) lines.reverse
  let lines := kept.reverse ++ if truncated then [moreLine] else []
  { lines := lines
    text := joinLines lines
    tokens := estimateTokens (joinLines lines)
    itemIds := visible.map (·.id)
    truncated := truncated }

/-- The intentions that are open. -/
def MemoryTables.openIntentions (t : MemoryTables) : List ItemRecord :=
  t.findItems { kinds := some [.intention], states := some ["wanted", "active"], limit := 500 }

/-- `MemoryReader.core`. -/
def MemoryTables.core (t : MemoryTables) (lib : TextLib) (known : CoreEntities) (budget : Nat) :
    CoreView :=
  renderCore lib known (t.findItems { inCore := some true, currentOnly := true, limit := 500 })
    t.openIntentions budget

/-! ## What the text quotes -/

variable {lib : TextLib} {known : CoreEntities}

theorem mem_byAge {items : List ItemRecord} {r : ItemRecord} : r ∈ byAge lib items ↔ r ∈ items :=
  List.mem_insertionSort _

theorem recentIntentions_subset {intentions : List ItemRecord} {r : ItemRecord}
    (h : r ∈ recentIntentions lib intentions) : r ∈ intentions := by
  have hlive := (List.mem_insertionSort _).1 (List.mem_of_mem_take h)
  exact List.mem_of_mem_filter hlive

/-- A line of a section quotes an item that shows, or one of the open intentions. -/
theorem quotes_coreSections {visible intentions : List ItemRecord} {part : String × List CoreText}
    {line : CoreText} {r : ItemRecord} (hpart : part ∈ coreSections lib known visible intentions)
    (hline : line ∈ part.2) (hr : r ∈ line.quotes) :
    r ∈ visible ∨ r ∈ recentIntentions lib intentions := by
  have hquoted : ∀ {items : List ItemRecord}, (∀ r ∈ items, r ∈ visible) →
      line ∈ items.map quoted → r ∈ visible := by
    intro items hitems hmem
    obtain ⟨item, hitem, rfl⟩ := List.mem_map.1 hmem
    rw [List.mem_singleton.1 hr]
    exact hitems item hitem
  have hof : ∀ (s : CoreSection), ∀ r ∈ visible.filter (fun item => sectionOf known item = s),
      r ∈ visible := fun s r hr => List.mem_of_mem_filter hr
  simp only [coreSections, List.mem_cons, List.not_mem_nil, or_false] at hpart
  rcases hpart with rfl | rfl | rfl | rfl | rfl | rfl | rfl
  · exact .inl (hquoted (hof _) hline)
  · obtain ⟨id, -, rfl⟩ := List.mem_map.1 hline
    exact .inl (hof (.person id) r hr)
  · exact .inl (hquoted (hof _) hline)
  · rcases List.mem_append.1 hline with hline | hline
    · exact .inl (hquoted (hof _) hline)
    · obtain ⟨e, -, rfl⟩ := List.mem_map.1 hline
      exact absurd hr List.not_mem_nil
  · right
    dsimp only at hline
    unfold intentionsSummary at hline
    dsimp only at hline
    split at hline
    · exact absurd hline List.not_mem_nil
    · rcases List.mem_cons.1 hline with rfl | hline
      · exact absurd hr List.not_mem_nil
      · obtain rfl := List.mem_singleton.1 hline
        exact hr
  · exact .inl (hquoted (hof _) hline)
  · exact .inl (hquoted (hof _) hline)

theorem trim_subset {budget : Nat} {text : String} {lines : List CoreText} {line : CoreText}
    (h : line ∈ (trim budget text lines).1) : line ∈ lines := by
  induction lines generalizing text with
  | nil => exact h
  | cons first lines ih =>
    cases lines with
    | nil => exact h
    | cons next lines =>
      rw [trim] at h
      split at h
      · exact List.mem_cons_of_mem _ (ih h)
      · exact h

/-- **What the text quotes**: an item of the core view, or one of the open intentions. -/
theorem quotes_renderCore {items intentions : List ItemRecord} {budget : Nat} {line : CoreText}
    {r : ItemRecord} (hline : line ∈ (renderCore lib known items intentions budget).lines)
    (hr : r ∈ line.quotes) :
    (r ∈ items ∧ inCoreView r.toItemContent = true) ∨ r ∈ recentIntentions lib intentions := by
  have hplain : ∀ text, line = ⟨text, []⟩ → False := by
    rintro text rfl
    exact List.not_mem_nil hr
  rcases List.mem_append.1 hline with hline | hline
  · have hbody := trim_subset (List.mem_reverse.1 hline)
    rcases List.mem_cons.1 (List.mem_reverse.1 hbody) with h | hbody
    · exact (hplain _ h).elim
    · obtain ⟨part, hpart, hline⟩ := List.mem_flatMap.1 hbody
      rcases List.mem_cons.1 hline with h | hline
      · exact (hplain _ h).elim
      · split at hline
        · exact (hplain _ (List.mem_singleton.1 hline)).elim
        · refine (quotes_coreSections hpart hline hr).imp_left fun hvisible => ?_
          exact List.mem_filter.1 (mem_byAge.1 hvisible)
  · split at hline
    · exact (hplain _ (List.mem_singleton.1 hline)).elim
    · exact absurd hline List.not_mem_nil

/-! ## The sensitive items of core -/

/-- A sensitive item that is in core. -/
def ItemContent.CoreSensitive (c : ItemContent) : Prop := c.inCore = true ∧ c.sensitivity = .sensitive

/-- The row without what use changes, and without its status. -/
def ItemRecord.eraseUse (r : ItemRecord) : ItemRecord := { r.eraseQuick with status := .active }

/-- What the second store has of the sensitive items of core is what the first one has, and it has
all of them. -/
structure Guards (t u : MemoryTables) : Prop where
  turned : ∀ id r', u.getItem id = some r' → r'.CoreSensitive →
    ∃ r, t.getItem id = some r ∧ r.CoreSensitive ∧ r'.eraseUse = r.eraseUse
  kept : ∀ id r, t.getItem id = some r → r.CoreSensitive →
    ∃ r', u.getItem id = some r' ∧ r'.CoreSensitive ∧ r'.eraseUse = r.eraseUse

theorem Guards.of_items {t u : MemoryTables} (h : u.items = t.items) : Guards t u := by
  have hget : ∀ id, u.getItem id = t.getItem id := by
    intro id
    rw [MemoryTables.getItem, h]
    rfl
  exact ⟨fun id r hr hcore => ⟨r, hget id ▸ hr, hcore, rfl⟩,
    fun id r hr hcore => ⟨r, (hget id).trans hr, hcore, rfl⟩⟩

theorem Guards.trans {t u v : MemoryTables} (h : Guards t u) (h' : Guards u v) : Guards t v := by
  refine ⟨fun id r hr hcore => ?_, fun id r hr hcore => ?_⟩
  · obtain ⟨r₁, hr₁, hcore₁, hsame₁⟩ := h'.turned id r hr hcore
    obtain ⟨r₂, hr₂, hcore₂, hsame₂⟩ := h.turned id r₁ hr₁ hcore₁
    exact ⟨r₂, hr₂, hcore₂, hsame₁.trans hsame₂⟩
  · obtain ⟨r₁, hr₁, hcore₁, hsame₁⟩ := h.kept id r hr hcore
    obtain ⟨r₂, hr₂, hcore₂, hsame₂⟩ := h'.kept id r₁ hr₁ hcore₁
    exact ⟨r₂, hr₂, hcore₂, hsame₂.trans hsame₁⟩

/-- The op takes no sensitive item out of core, and none of its sensitivity. -/
def Op.LeavesSensitive (t : Tables) (op : Op) : Prop :=
  ∀ itemId changes r, op.body = .updateItem itemId changes → t.getItem itemId = some r →
    r.CoreSensitive → changes.inCore.getD true = true ∧
      changes.sensitivity.getD .sensitive = .sensitive

namespace Writer

variable {w : Writer}

theorem changes_of_delete {op : Op} {id : Uuid} (htarget : op.body.target = (.item, id))
    (hdelete : opLabel op = .delete) : op.body.itemChanges = { status := some .deleted } := by
  obtain ⟨title, rationale, trust, origin, body⟩ := op
  cases body with
  | deleteItem => rfl
  | deleteEntity => exact nomatch htarget
  | _ => exact nomatch hdelete

/-- An op other than an update says nothing of the sensitivity. -/
theorem sensitivity_of_not_update {body : OpBody}
    (h : ∀ itemId changes, body ≠ .updateItem itemId changes) :
    body.itemChanges.sensitivity = none := by
  cases body with
  | updateItem itemId changes => exact absurd rfl (h itemId changes)
  | _ => rfl

/-- **An unconfirmed edit** that leaves a sensitive item in core changed nothing of it but its use
and its status. -/
theorem edit_guarded {t : Tables} {i : Nat} {op : Op} {before : ItemRecord}
    (hconfirmed : w.confirmed = false) (htarget : op.body.target = (.item, before.id))
    (hallowed : (evaluate (itemFacts op (createdItems w.ops) before) w.context).decision = .allowed)
    (hafter : (w.edited before (w.filedChanges t i op.body)).CoreSensitive) :
    before.CoreSensitive ∧
      (w.edited before (w.filedChanges t i op.body)).eraseUse = before.eraseUse := by
  obtain ⟨c, hcontent⟩ := w.edited_filedChanges t i op.body before
  obtain ⟨confirmed, hchanged⟩ := changedContent_eq (w := w) before.toItemContent op.body.itemChanges
  have hcore : op.body.itemChanges.inCore.getD before.inCore = true := by
    have hin := hafter.1
    rw [hcontent, hchanged] at hin
    exact hin
  have hsensitive : op.body.itemChanges.sensitivity.getD before.sensitivity = .sensitive := by
    have hsens := hafter.2
    rw [hcontent, hchanged] at hsens
    exact hsens
  -- the rule would have held a core write
  have hrule := evaluate_allowed_iff.1 hallowed pSens1 (by simp [rules])
  have hwrite : (itemFacts op (createdItems w.ops) before).coreWrite = false := by
    rw [Bool.eq_false_iff]
    intro hwrite
    have hunconfirmed : ¬ w.context.confirmed = true := by
      show ¬ w.confirmed = true
      rw [hconfirmed]
      exact Bool.false_ne_true
    rw [pSens1, if_pos ⟨hwrite, hsensitive, hunconfirmed⟩] at hrule
    cases hrule
  by_cases hdelete : opLabel op = .delete
  · have hchanges := changes_of_delete htarget hdelete
    have hfiled : w.filedChanges t i op.body = { status := some .deleted } := by
      rw [filedChanges, refile_of_none (by rw [hchanges]), hchanges]
    rw [hchanges] at hcore hsensitive
    refine ⟨⟨hcore, hsensitive⟩, ?_⟩
    rw [hfiled, edited, changedContent, if_neg (by simp)]
    rfl
  · have hquick : before.inCore = true ∧ op.body.itemChanges.onlyQuick = true := by
      simpa [itemFacts, hdelete, hcore] using hwrite
    obtain ⟨hin, hquick⟩ := hquick
    have hsame := eraseQuick_edited (w := w) (t := t) (i := i) before hquick
    refine ⟨⟨hin, ?_⟩, ?_⟩
    · rw [changes_eq_quick hquick] at hsensitive
      exact hsensitive
    · rw [ItemRecord.eraseUse, hsame]
      rfl

/-- An edit that takes no sensitive item out of core leaves it there. -/
theorem edit_stays {t : Tables} {i : Nat} {op : Op} {before : ItemRecord}
    (htarget : op.body.target = (.item, before.id)) (stored : t.getItem before.id = some before)
    (hleaves : op.LeavesSensitive t) (hbefore : before.CoreSensitive) :
    (w.edited before (w.filedChanges t i op.body)).CoreSensitive := by
  obtain ⟨c, hcontent⟩ := w.edited_filedChanges t i op.body before
  obtain ⟨confirmed, hchanged⟩ := changedContent_eq (w := w) before.toItemContent op.body.itemChanges
  obtain ⟨hin, hsensitive⟩ := hbefore
  have hgoal : op.body.itemChanges.inCore.getD before.inCore = true ∧
      op.body.itemChanges.sensitivity.getD before.sensitivity = .sensitive := by
    rw [hin, hsensitive]
    by_cases hupdate : ∀ itemId changes, op.body ≠ .updateItem itemId changes
    · obtain ⟨-, -, hcore⟩ := itemChanges_of_not_update hupdate
      rw [hcore, sensitivity_of_not_update hupdate]
      exact ⟨rfl, rfl⟩
    · push Not at hupdate
      obtain ⟨itemId, changes, hbody⟩ := hupdate
      have hid : itemId = before.id := by
        rw [hbody] at htarget
        exact (Prod.mk.inj htarget).2
      subst hid
      rw [hbody]
      exact hleaves _ _ before hbody stored ⟨hin, hsensitive⟩
  unfold ItemContent.CoreSensitive
  rw [hcontent, hchanged]
  exact hgoal

theorem eraseUse_keepAccess (t : Tables) (r : ItemRecord) :
    (t.keepAccess r).eraseUse = r.eraseUse ∧
      ((t.keepAccess r).CoreSensitive ↔ r.CoreSensitive) := by
  unfold Tables.keepAccess
  split <;> exact ⟨rfl, Iff.rfl⟩

/-- **One op** of an unconfirmed batch. -/
theorem apply_guards (hconfirmed : w.confirmed = false) {t t' : Tables} {i : Nat}
    {log log' : RowLog} {op : Op} {v : PolicyVerdict} (hv : w.verdict t op = .ok v)
    (hd : v.decision = .allowed) (hleaves : op.LeavesSensitive t)
    (h : w.apply t i log op.body = .ok (t', log')) :
    Guards t.toMemoryTables t'.toMemoryTables := by
  obtain ⟨hallowed, -⟩ := verdict_allowed hv hd
  cases apply_itemEffect h with
  | none same => exact .of_items same
  | @new itemId item entities triggers slug name record hbody hnew free put =>
    obtain ⟨⟨c, hcontent⟩, -, hid, -⟩ := newItem_eq_ok hnew
    have hget : ∀ id, t'.getItem id = if id = record.id then some record else t.getItem id := by
      intro id
      rw [MemoryTables.getItem, put, KeyTable.lookup_put]
      rfl
    have hrecord : ¬ record.CoreSensitive := by
      rintro ⟨hin, hsens⟩
      obtain ⟨confirmed, hmade⟩ := newContent_eq (w := w) item
      rw [hcontent, hmade] at hin hsens
      have hrule := evaluate_allowed_iff.1 hallowed pSens1 (by simp [rules])
      have hunconfirmed : ¬ w.context.confirmed = true := by
        show ¬ w.confirmed = true
        rw [hconfirmed]
        exact Bool.false_ne_true
      rw [pSens1, if_pos] at hrule
      · cases hrule
      · simp only [facts, hbody]
        exact ⟨hin, hsens, hunconfirmed⟩
    refine ⟨fun id r' hr' hcore => ?_, fun id r hr hcore => ?_⟩
    · rw [hget] at hr'
      split at hr'
      · exact absurd (Option.some.inj hr' ▸ hcore) hrecord
      · exact ⟨r', hr', hcore, rfl⟩
    · have hne : id ≠ record.id := by
        rintro rfl
        rw [hid, free] at hr
        cases hr
      rw [hget, if_neg hne]
      exact ⟨r, hr, hcore, rfl⟩
  | @edit before htarget hcreate stored put =>
    rw [facts_edit hcreate htarget stored] at hallowed
    obtain ⟨huse, hcore_iff⟩ :=
      eraseUse_keepAccess t (w.edited before (w.filedChanges t i op.body))
    have hget : ∀ id, t'.getItem id = if id = before.id then
        some (t.keepAccess (w.edited before (w.filedChanges t i op.body))) else t.getItem id := by
      intro id
      have hid : (t.keepAccess (w.edited before (w.filedChanges t i op.body))).id = before.id :=
        id_keepAccess t _
      rw [MemoryTables.getItem, put, KeyTable.lookup_put, hid]
      rfl
    refine ⟨fun id r' hr' hcore => ?_, fun id r hr hcore => ?_⟩
    · rw [hget] at hr'
      split at hr'
      · rename_i hid
        obtain rfl := Option.some.inj hr'
        obtain ⟨hbefore, hsame⟩ := edit_guarded hconfirmed htarget hallowed (hcore_iff.1 hcore)
        exact ⟨before, hid ▸ stored, hbefore, huse.trans hsame⟩
      · exact ⟨r', hr', hcore, rfl⟩
    · rw [hget]
      split
      · rename_i hid
        subst hid
        obtain rfl := Option.some.inj (stored.symm.trans hr)
        have hafter := edit_stays (w := w) (i := i) htarget stored hleaves hcore
        obtain ⟨-, hsame⟩ := edit_guarded hconfirmed htarget hallowed hafter
        exact ⟨_, rfl, hcore_iff.2 hafter, huse.trans hsame⟩
      · exact ⟨r, hr, hcore, rfl⟩

/-- No op of the batch takes a sensitive item out of core, on the tables it meets. -/
def LeavesSensitive (w : Writer) (t : Tables) : Prop :=
  w.heldWhole = true ∨ w.EveryApplied (w.seqBase t) (fun t op => op.LeavesSensitive t) 0
    { tables := w.writeVocab t } w.ops

/-- **An unconfirmed commit** neither adds to the sensitive items of core nor changes one. -/
theorem commit_guards (hconfirmed : w.confirmed = false) {t t' : Tables} {res : CommitResult}
    (hleaves : w.LeavesSensitive t) (h : w.commit t = .ok (t', res)) :
    Guards t.toMemoryTables t'.toMemoryTables := by
  obtain ⟨p, hp⟩ := commit_parts h
  rw [hp.memory]
  have hstart : Guards t.toMemoryTables (w.writeVocab t).toMemoryTables :=
    .of_items (by rw [writeVocab_memory])
  have hbatch := hp.batch
  unfold applyAll at hbatch
  split at hbatch
  · cases hbatch
    exact hstart
  · rename_i hwhole
    refine steps_keep (Q := fun p => Guards t.toMemoryTables p.tables.toMemoryTables)
      (fun i p op p' hop hguards hs => ?_) (hleaves.resolve_left hwhole) hstart hbatch
    rcases step_cases hs with ⟨v, -, -, rfl⟩ | ⟨v, u, reason, -, -, ha, rfl⟩ |
      ⟨v, u, log, hv, hd, ha, rfl⟩
    · rw [refuse_tables]
      exact hguards
    · show Guards t.toMemoryTables u.toMemoryTables
      rw [(apply_skip ha).memory]
      exact hguards
    · exact hguards.trans (apply_guards hconfirmed hv hd (hop ⟨⟨v, hv, hd⟩, _, ha⟩) ha)

end Writer

/-! ## Runs -/

/-- One commit of a run, with its writer. -/
structure Commit where
  writer : Writer
  before : Tables
  after : Tables

/-- A run as `Reached` has it, which remembers the writers. -/
inductive Ran (admits : Writer → Tables → Prop) (t₀ : Tables) : List Commit → Tables → Prop
  | start : Ran admits t₀ [] t₀
  | commit {cs : List Commit} {w : Writer} {t t' : Tables} {res : CommitResult}
      (h : Ran admits t₀ cs t) (ok : admits w t) (done : w.commit t = .ok (t', res)) :
      Ran admits t₀ (⟨w, t, t'⟩ :: cs) t'
  | access {cs : List Commit} {t : Tables} (h : Ran admits t₀ cs t) (at_ : Instant)
      (ids : List Uuid) : Ran admits t₀ cs (t.recordAccess at_ ids)
  | resolve {cs : List Commit} {t : Tables} (h : Ran admits t₀ cs t) (id : Uuid)
      (status : HeldStatus) (turnId : Option Uuid) (at_ : Instant) :
      Ran admits t₀ cs (t.resolveHeldWrite id status turnId at_)

/-- A sensitive item of core is stored under the id. -/
def MemoryTables.HasCoreSensitive (t : MemoryTables) (id : Uuid) : Prop :=
  ∃ r, t.getItem id = some r ∧ r.CoreSensitive

/-- A confirmed commit of the run put the item in core, as a sensitive one. -/
def PutInCore (cs : List Commit) (id : Uuid) : Prop :=
  ∃ c ∈ cs, c.writer.confirmed = true ∧ c.after.HasCoreSensitive id ∧ ¬ c.before.HasCoreSensitive id

theorem SameMemory.hasCoreSensitive {t t' : Tables} (h : SameMemory t t') {id : Uuid}
    (hcore : t'.HasCoreSensitive id) : t.HasCoreSensitive id := by
  obtain ⟨r', hr', hin, hsens⟩ := hcore
  have herased := h.items id
  rw [hr', Option.map_some] at herased
  obtain ⟨r, hr, hsame⟩ := Option.map_eq_some_iff.1 herased.symm
  have hcontent : r.toItemContent.eraseAccess = r'.toItemContent.eraseAccess :=
    congrArg ItemRecord.toItemContent hsame
  exact ⟨r, hr, (congrArg ItemContent.inCore hcontent).trans hin,
    (congrArg ItemContent.sensitivity hcontent).trans hsens⟩

section

variable {admits : Writer → Tables → Prop} {t₀ t : Tables} {cs : List Commit}

/-- What the unconfirmed commits of a run do is what each of them does. -/
theorem Ran.guards (hadmits : ∀ w t, admits w t → w.confirmed = true ∨ w.LeavesSensitive t)
    (h : Ran admits t₀ cs t) :
    ∀ c ∈ cs, c.writer.confirmed = false →
      Guards c.before.toMemoryTables c.after.toMemoryTables := by
  induction h with
  | start => exact fun c hc => absurd hc List.not_mem_nil
  | commit _ ok done ih =>
    intro c hc hconfirmed
    rcases List.mem_cons.1 hc with rfl | hc
    · have hleaves := (hadmits _ _ ok).resolve_left (by rw [hconfirmed]; exact Bool.false_ne_true)
      exact Writer.commit_guards hconfirmed hleaves done
    · exact ih c hc hconfirmed
  | access _ _ _ ih => exact ih
  | resolve _ _ _ _ _ ih => exact ih

/-- **Every sensitive item of core** was put there by a confirmed commit. -/
theorem Ran.putInCore (hadmits : ∀ w t, admits w t → w.confirmed = true ∨ w.LeavesSensitive t)
    (hstart : ∀ id, ¬ t₀.HasCoreSensitive id) (h : Ran admits t₀ cs t) {id : Uuid}
    (hcore : t.HasCoreSensitive id) : PutInCore cs id := by
  induction h with
  | start => exact absurd hcore (hstart id)
  | @commit cs w t t' res _ ok done ih =>
    by_cases hbefore : t.HasCoreSensitive id
    · obtain ⟨c, hc, hput⟩ := ih hbefore
      exact ⟨c, List.mem_cons_of_mem _ hc, hput⟩
    · -- an unconfirmed commit would have found it in core
      refine ⟨_, List.mem_cons_self, ?_, hcore, hbefore⟩
      by_contra hconfirmed
      rw [Bool.not_eq_true] at hconfirmed
      have hleaves := (hadmits w t ok).resolve_left (by rw [hconfirmed]; exact Bool.false_ne_true)
      obtain ⟨r', hr', hin⟩ := hcore
      obtain ⟨r, hr, hold, -⟩ := (Writer.commit_guards hconfirmed hleaves done).turned id r' hr' hin
      exact hbefore ⟨r, hr, hold⟩
  | access _ at_ ids ih => exact ih ((sameMemory_recordAccess _ at_ ids).hasCoreSensitive hcore)
  | resolve _ heldId status turnId at_ ih =>
    exact ih ((sameMemory_resolveHeldWrite _ heldId status turnId at_).hasCoreSensitive hcore)

end

/-- **The text about the person** quotes a sensitive item only if a confirmed commit put it in core,
when that is so of the open intentions it names, in every run whose unconfirmed commits take no
sensitive item out of core; and none of these commits adds to the sensitive items of core or changes
one. -/
theorem core_shows_confirmed {me : Uuid} {cs : List Commit} {t : Tables}
    (h : Ran (fun w t => w.confirmed = true ∨ w.LeavesSensitive t) (Tables.initial me) cs t) :
    (∀ c ∈ cs, c.writer.confirmed = false →
      Guards c.before.toMemoryTables c.after.toMemoryTables) ∧
    ∀ lib known budget,
      (∀ r ∈ recentIntentions lib t.openIntentions, r.sensitivity = .sensitive →
        PutInCore cs r.id) →
      ∀ line ∈ (t.core lib known budget).lines, ∀ r ∈ line.quotes,
        t.getItem r.id = some r ∧ (r.sensitivity = .sensitive → PutInCore cs r.id) := by
  refine ⟨h.guards fun _ _ hw => hw, fun lib known budget hwishes line hline r hr => ?_⟩
  rcases quotes_renderCore hline hr with ⟨hfound, hview⟩ | hrecent
  · obtain ⟨hstored, -⟩ := MemoryTables.mem_findItems hfound
    refine ⟨hstored, fun hsens => ?_⟩
    have hin := (Writer.inCore_of_inCoreView hview).1
    have hempty : ∀ id, ¬ (Tables.initial me).HasCoreSensitive id := by
      rintro id ⟨r, hr, -⟩
      exact nomatch hr
    exact h.putInCore (fun _ _ hw => hw) hempty ⟨r, hstored, hin, hsens⟩
  · obtain ⟨hstored, -⟩ := MemoryTables.mem_findItems (recentIntentions_subset hrecent)
    exact ⟨hstored, hwishes r hrecent⟩

/-! ### A wish in the prompt -/

/-- Someone says that they want something. -/
def saysWish (title : String) (sensitivity : Sensitivity) : Save :=
  saveOf 1 title
    [{ ref := "m1", kind := ⟨.intention, by decide⟩, title := title, text := title
       sensitivity := sensitivity }]

/-- The text on plain text, with nobody known but the person. -/
def Tables.plainCore (t : Tables) : CoreView :=
  t.core plainText { entities := (t.getEntity 0).toList, linked := fun _ => [] } 1500

/-- **A sensitive wish** is named in the text though nothing was confirmed. -/
theorem sensitive_wish_named :
    ∃ cs t, Ran (fun w t => ∃ s : Save, s.writer t.toMemoryTables = .ok w) (Tables.initial 0) cs t ∧
      (∀ c ∈ cs, c.writer.confirmed = false) ∧
      ∃ line ∈ t.plainCore.lines, line.text = "- Most recent: see a therapist" ∧
        ∃ r ∈ line.quotes, r.status = .active ∧ r.sensitivity = .sensitive ∧ ¬ PutInCore cs r.id := by
  have hran : ∃ w ∈ ((saysWish "see a therapist" .sensitive).writer
        (Tables.initial 0).toMemoryTables).toOption, w.confirmed = false ∧
      ∃ x ∈ (w.commit (Tables.initial 0)).toOption,
        ∃ line ∈ x.1.plainCore.lines, line.text = "- Most recent: see a therapist" ∧
          ∃ r ∈ line.quotes, r.status = .active ∧ r.sensitivity = .sensitive := by
    decide +kernel
  obtain ⟨w, hw, hconfirmed, x, hx, line, hline, htext, r, hr, hactive, hsens⟩ := hran
  have hnone : ∀ c ∈ [(⟨w, Tables.initial 0, x.1⟩ : Commit)], c.writer.confirmed = false := by
    intro c hc
    rw [List.mem_singleton.1 hc]
    exact hconfirmed
  refine ⟨_, x.1, .commit .start ⟨_, of_mem_toOption hw⟩ (of_mem_toOption hx), hnone, line, hline,
    htext, r, hr, hactive, hsens, ?_⟩
  rintro ⟨c, hc, hyes, -⟩
  rw [hnone c hc] at hyes
  exact nomatch hyes

/-- Another wish may be named. -/
theorem wish_named : ∃ cs t, Ran (fun w t => w.confirmed = true ∨ w.LeavesSensitive t)
    (Tables.initial 0) cs t ∧ ∃ line ∈ t.plainCore.lines, ∃ r ∈ line.quotes,
      r.kind = .intention ∧ t.getItem r.id = some r := by
  have hran : ∃ w ∈ ((saysWish "paint" .normal).writer
        (Tables.initial 0).toMemoryTables).toOption, (∀ op ∈ w.ops, op.body.isCreate = true) ∧
      ∃ x ∈ (w.commit (Tables.initial 0)).toOption,
        (∀ r ∈ recentIntentions plainText x.1.openIntentions, r.sensitivity = .normal) ∧
        ∃ line ∈ x.1.plainCore.lines, ∃ r ∈ line.quotes, r.kind = .intention := by
    decide +kernel
  obtain ⟨w, -, hcreates, x, hx, hnormal, line, hline, r, hr, hkind⟩ := hran
  obtain ⟨cs, hreached⟩ : ∃ cs, Ran (fun w t => w.confirmed = true ∨ w.LeavesSensitive t)
      (Tables.initial 0) cs x.1 := by
    refine ⟨_, .commit .start (.inr (.inr ?_)) (of_mem_toOption hx)⟩
    refine Writer.everyApplied_of_mem fun op hop t itemId changes r hbody => ?_
    have hcreate := hcreates op hop
    rw [hbody] at hcreate
    exact nomatch hcreate
  obtain ⟨-, hshown⟩ := core_shows_confirmed hreached
  have hwishes : ∀ r ∈ recentIntentions plainText x.1.openIntentions,
      r.sensitivity = .sensitive → PutInCore cs r.id := by
    intro r hr hsens
    rw [hnormal r hr] at hsens
    exact nomatch hsens
  exact ⟨cs, x.1, hreached, line, hline, r, hr, hkind, (hshown _ _ _ hwishes line hline r hr).1⟩

end SecondMind
