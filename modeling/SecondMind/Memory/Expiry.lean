import SecondMind.Memory.Failures
import SecondMind.Memory.ItemLaws
import SecondMind.Memory.Quick

/-!
# Tidying the quick layer

`Memory.expiry_ops`: the housekeeping that is due at a moment.  A trigger whose time is past
expires, an item whose time in the quick layer is up leaves it or stays under another rule, and an
item that has been cited often enters it.

* `Housekeeping.expiryOps` — the ops of a sweep;
* `Sweeps` — what they are, whatever the store;
* `Writer.step_sweeps` — one of them is allowed and applied, and `Swept` says what it leaves;
* `Housekeeping.expiryOps_settles` — a sweep is carried out whole, and after it none is due.
-/

namespace SecondMind

open Keyed Policy

/-! ## What is due -/

/-- A row of the access table: a turn has retrieved the item, and perhaps cited it. -/
structure AccessRow where
  itemId : Uuid
  turnId : Uuid
  at_ : Int
  cited : Bool

/-- The item's time in the quick layer is up. -/
def ItemContent.quickIsUp (now : Int) (item : ItemContent) : Bool :=
  item.status = .active ∧ item.inQuick ∧ item.quickUntil.any (· < now)

/-- The trigger waits for a time that is past. -/
def TriggerContent.isPast (now : Int) (trigger : TriggerContent) : Bool :=
  trigger.on = .time ∧ trigger.state = .pending ∧ trigger.firesAt.any (· < now)

/-- The settings of the sweep, and the order in which the store lists rows. -/
structure Housekeeping extends QuickRules where
  frequentMin : Int
  order : Multiset Uuid → List Uuid
  order_eq : ∀ s, (order s : Multiset Uuid) = s

namespace Housekeeping

variable (k : Housekeeping) (t : MemoryTables)

/-- `get_items`. -/
def items (ids : Multiset Uuid) : List ItemRecord := (k.order ids).filterMap t.getItem

/-- `expired_quick`. -/
def expiredQuick (now : Int) : List ItemRecord :=
  k.items t ((t.items.rows.filter fun r => r.quickIsUp now).map (·.id))

/-- `passed_triggers`. -/
def passedTriggers (now : Int) : List TriggerRecord :=
  (k.order ((t.triggers.rows.filter fun r => r.isPast now).map (·.id))).filterMap t.getTrigger

/-- `triggers`, of one item. -/
def triggers (itemId : Uuid) : List TriggerRecord :=
  (k.order ((t.triggers.rows.filter fun r => r.itemId = itemId).map (·.id))).filterMap t.getTrigger

/-- `frequent_items`. -/
def frequentItems (access : List AccessRow) (since : Int) : Finset Uuid :=
  let cited := access.filter fun row => row.cited ∧ since ≤ row.at_
  (cited.map (·.itemId)).toFinset.filter fun id =>
    k.frequentMin ≤ ((cited.filter fun row => row.itemId = id).map (·.turnId)).toFinset.card ∧
      t.isActive id

/-! ## The sweep -/

/-- A pending time trigger whose time is past becomes expired. -/
def expireOp (trigger : TriggerRecord) : Op where
  title :=
    match t.getItem trigger.itemId with
    | some owner => "reminder: " ++ owner.title
    | none => "reminder"
  rationale := "its time passed"
  origin := .system
  body := .setTriggerState trigger.id .expired

end Housekeeping

/-- The changes that place an item as decided. -/
def QuickDecision.changes (d : QuickDecision) : ItemChanges where
  inQuick := some d.inQuick
  quickReason := some d.reason
  quickUntil := some d.until_

namespace Housekeeping

/-- A quick entry whose time is up leaves the layer, or stays under the next rule. -/
def placeOp (item : ItemRecord) (d : QuickDecision) : Op where
  title := item.title
  rationale := if d.inQuick then "quick: now " ++ d.reason.getD "None" else "quick time is up"
  origin := .system
  body := .updateItem item.id d.changes

variable (k : Housekeeping) (t : MemoryTables) (access : List AccessRow) (now : Int)

/-- An item that is cited often enters the layer. -/
def enterOp (item : ItemRecord) : Op where
  title := item.title
  rationale := s!"quick: cited in {k.frequentMin}+ recall turns in the last {k.recentDays} days"
  origin := .system
  body := .updateItem item.id
    ({ inQuick := true, reason := frequentReason, until_ := k.stay now } : QuickDecision).changes

/-- The items that are cited often at this moment. -/
def frequent : Finset Uuid := k.frequentItems t access (now - max k.recentDays 1 * day)

/-- `expiry_ops`. -/
def expiryOps : Except Failure (List Op) := do
  let passed := k.passedTriggers t now
  let expired := k.expiredQuick t now
  let frequent := k.frequent t access now
  let placed ← expired.mapM fun item => do
    let decision ← k.quickLayer item.toItemContent now
      ((k.triggers t item.id).map (·.toTriggerContent)) (item.id ∈ frequent)
    return placeOp item decision
  let seen := expired.map (·.id)
  let cited := (k.items t (frequent.filter (· ∉ seen)).val).filter fun item => !item.inQuick
  return passed.map (expireOp t) ++ placed ++ cited.map (k.enterOp now)

/-! ## The listings -/

variable {k t access now}

theorem mem_order {s : Multiset Uuid} {id : Uuid} : id ∈ k.order s ↔ id ∈ s := by
  rw [← Multiset.mem_coe, k.order_eq]

theorem mem_items {ids : Multiset Uuid} {r : ItemRecord} :
    r ∈ k.items t ids ↔ t.getItem r.id = some r ∧ r.id ∈ ids := by
  unfold items
  rw [List.mem_filterMap]
  constructor
  · rintro ⟨id, hid, hget⟩
    obtain rfl : r.id = id := KeyTable.key_of_lookup hget
    exact ⟨hget, mem_order.1 hid⟩
  · rintro ⟨hget, hid⟩
    exact ⟨r.id, mem_order.2 hid, hget⟩

theorem mem_expiredQuick {r : ItemRecord} :
    r ∈ k.expiredQuick t now ↔ t.getItem r.id = some r ∧ r.quickIsUp now = true := by
  unfold expiredQuick
  rw [mem_items]
  refine and_congr_right fun hget => ?_
  rw [Multiset.mem_map]
  constructor
  · rintro ⟨r', hr', hid⟩
    obtain ⟨hrow, hup⟩ := Multiset.mem_filter.1 hr'
    have hstored : t.getItem r'.id = some r' := KeyTable.mem_rows.1 hrow
    obtain rfl : r' = r := Option.some.inj (hstored.symm.trans (hid ▸ hget))
    exact hup
  · intro hup
    exact ⟨r, Multiset.mem_filter.2 ⟨KeyTable.mem_rows.2 hget, hup⟩, rfl⟩

theorem mem_passedTriggers {r : TriggerRecord} :
    r ∈ k.passedTriggers t now ↔ t.getTrigger r.id = some r ∧ r.isPast now = true := by
  unfold passedTriggers
  rw [List.mem_filterMap]
  constructor
  · rintro ⟨id, hid, hget⟩
    obtain ⟨r', hr', rfl⟩ := Multiset.mem_map.1 (mem_order.1 hid)
    obtain ⟨hrow, hpast⟩ := Multiset.mem_filter.1 hr'
    have hstored : t.getTrigger r'.id = some r' := KeyTable.mem_rows.1 hrow
    obtain rfl : r' = r := Option.some.inj (hstored.symm.trans hget)
    exact ⟨hget, hpast⟩
  · rintro ⟨hget, hpast⟩
    refine ⟨r.id, mem_order.2 (Multiset.mem_map_of_mem _ ?_), hget⟩
    exact Multiset.mem_filter.2 ⟨KeyTable.mem_rows.2 hget, hpast⟩

/-- Who is cited often depends on the access rows and on which items are active. -/
theorem frequent_congr {t' : MemoryTables} (h : ∀ id, t'.isActive id = t.isActive id) :
    k.frequent t' access now = k.frequent t access now := by
  simp only [frequent, frequentItems, h]

end Housekeeping

/-! ## The ops of a sweep -/

/-- What an op of a sweep does: it lets a stored trigger expire, or it places a stored item, not
until a time that has passed, and not outside the layer if it is one of those cited often. -/
inductive Sweeps (often : Finset Uuid) (now : Int) (t : MemoryTables) : OpBody → Prop
  | expire {id : Uuid} (stored : (t.getTrigger id).isSome) :
      Sweeps often now t (.setTriggerState id .expired)
  | place {id : Uuid} {d : QuickDecision} (stored : (t.getItem id).isSome)
      (lasts : ∀ u ∈ d.until_, now ≤ u) (stays : id ∈ often → d.inQuick = true) :
      Sweeps often now t (.updateItem id d.changes)

namespace MemoryTables

/-- Nothing is due about the item. -/
def ItemRests (often : Finset Uuid) (now : Int) (t : MemoryTables) (id : Uuid) : Prop :=
  ∀ r, t.getItem id = some r → r.quickIsUp now = false ∧ (id ∈ often → r.inQuick = true)

/-- Nothing is due about the trigger. -/
def TriggerRests (now : Int) (t : MemoryTables) (id : Uuid) : Prop :=
  ∀ r, t.getTrigger id = some r → r.isPast now = false

end MemoryTables

namespace Housekeeping

variable {k : Housekeeping} {t : MemoryTables} {access : List AccessRow} {now : Int}

/-- **What a sweep consists of.** -/
theorem of_mem_expiryOps {ops : List Op} (h : k.expiryOps t access now = .ok ops) {op : Op}
    (hop : op ∈ ops) :
    op.trust = .userStated ∧ Sweeps (k.frequent t access now) now t op.body := by
  obtain ⟨placed, hplaced, h⟩ := bind_eq_ok.1 h
  cases h
  rcases List.mem_append.1 hop with hop | hop
  · rcases List.mem_append.1 hop with hop | hop
    · obtain ⟨r, hr, rfl⟩ := List.mem_map.1 hop
      refine ⟨rfl, .expire ?_⟩
      rw [(mem_passedTriggers.1 hr).1]
      rfl
    · obtain ⟨item, hitem, hop⟩ := exists_of_forall₂ (mapM_eq_ok.1 hplaced).flip hop
      obtain ⟨d, hd, hop⟩ := bind_eq_ok.1 hop
      cases hop
      refine ⟨rfl, .place ?_ (QuickRules.quickLayer_lasts hd) fun hoften => ?_⟩
      · rw [(mem_expiredQuick.1 hitem).1]
        rfl
      · rw [decide_eq_true hoften] at hd
        exact QuickRules.quickLayer_frequent hd
  · obtain ⟨r, hr, rfl⟩ := List.mem_map.1 hop
    refine ⟨rfl, .place ?_ (fun u hu => ?_) fun _ => rfl⟩
    · rw [(mem_items.1 (List.mem_filter.1 hr).1).1]
      rfl
    · exact Option.mem_some_iff.1 hu ▸ QuickRules.le_stay

/-- A placed item is one that the sweep has an op for. -/
theorem place_mem {ops : List Op} (h : k.expiryOps t access now = .ok ops) {r : ItemRecord}
    (hr : r ∈ k.expiredQuick t now) : ∃ op ∈ ops, op.body.target = (.item, r.id) := by
  obtain ⟨placed, hplaced, h⟩ := bind_eq_ok.1 h
  cases h
  obtain ⟨op, hop, hd⟩ := exists_of_forall₂ (mapM_eq_ok.1 hplaced) hr
  obtain ⟨d, -, hd⟩ := bind_eq_ok.1 hd
  cases hd
  exact ⟨_, List.mem_append_left _ (List.mem_append_right _ hop), rfl⟩

/-- **A sweep leaves out no item about which something is due.** -/
theorem itemRests_or_target {ops : List Op} (h : k.expiryOps t access now = .ok ops) (id : Uuid) :
    t.ItemRests (k.frequent t access now) now id ∨ ∃ op ∈ ops, op.body.target = (.item, id) := by
  by_cases hseen : id ∈ (k.expiredQuick t now).map (·.id)
  · obtain ⟨r, hr, rfl⟩ := List.mem_map.1 hseen
    exact .inr (place_mem h hr)
  · by_cases hrests : t.ItemRests (k.frequent t access now) now id
    · exact .inl hrests
    · obtain ⟨r, hr⟩ := not_forall.1 hrests
      obtain ⟨hget, hdue⟩ := Classical.not_imp.1 hr
      have hid : r.id = id := KeyTable.key_of_lookup hget
      subst hid
      have hup : r.quickIsUp now = false := by
        rw [Bool.eq_false_iff]
        intro hup
        exact hseen (List.mem_map_of_mem (mem_expiredQuick.2 ⟨hget, hup⟩))
      obtain ⟨hoften, hout⟩ := Classical.not_imp.1 fun hin => hdue ⟨hup, hin⟩
      obtain ⟨placed, -, h⟩ := bind_eq_ok.1 h
      cases h
      refine .inr ⟨k.enterOp now r, List.mem_append_right _ (List.mem_map_of_mem ?_), rfl⟩
      refine List.mem_filter.2 ⟨mem_items.2 ⟨hget, ?_⟩, by simpa using hout⟩
      exact Finset.mem_filter.2 ⟨hoften, hseen⟩

/-- **A sweep leaves out no trigger about which something is due.** -/
theorem triggerRests_or_target {ops : List Op} (h : k.expiryOps t access now = .ok ops)
    (id : Uuid) : t.TriggerRests now id ∨ ∃ op ∈ ops, op.body.target = (.trigger, id) := by
  by_cases hrests : t.TriggerRests now id
  · exact .inl hrests
  · obtain ⟨r, hr⟩ := not_forall.1 hrests
    obtain ⟨hget, hpast⟩ := Classical.not_imp.1 hr
    have hid : r.id = id := KeyTable.key_of_lookup hget
    subst hid
    obtain ⟨placed, -, h⟩ := bind_eq_ok.1 h
    cases h
    refine .inr ⟨expireOp t r, ?_, rfl⟩
    exact List.mem_append_left _ (List.mem_append_left _ (List.mem_map_of_mem
      (mem_passedTriggers.2 ⟨hget, by simpa using hpast⟩)))

/-- **Where nothing is due, a sweep is empty.** -/
theorem expiryOps_of_rests (hitems : ∀ id, t.ItemRests (k.frequent t access now) now id)
    (htriggers : ∀ id, t.TriggerRests now id) : k.expiryOps t access now = .ok [] := by
  have hpassed : k.passedTriggers t now = [] := by
    refine List.eq_nil_iff_forall_not_mem.2 fun r hr => ?_
    obtain ⟨hget, hpast⟩ := mem_passedTriggers.1 hr
    rw [htriggers r.id r hget] at hpast
    exact (nomatch hpast)
  have hexpired : k.expiredQuick t now = [] := by
    refine List.eq_nil_iff_forall_not_mem.2 fun r hr => ?_
    obtain ⟨hget, hup⟩ := mem_expiredQuick.1 hr
    rw [(hitems r.id r hget).1] at hup
    exact (nomatch hup)
  have hcited : ∀ seen : List Uuid,
      ((k.items t ((k.frequent t access now).filter (· ∉ seen)).val).filter
        fun item => !item.inQuick) = [] := by
    intro seen
    refine List.filter_eq_nil_iff.2 fun r hr => ?_
    obtain ⟨hget, hmem⟩ := mem_items.1 hr
    simp [(hitems r.id r hget).2 (Finset.mem_filter.1 hmem).1]
  unfold expiryOps
  rw [hpassed, hexpired]
  refine bind_eq_ok.2 ⟨[], rfl, ?_⟩
  dsimp only
  rw [hcited]
  rfl

end Housekeeping

/-! ## One op of a sweep -/

/-- What ops of a sweep leave: the same rows, the same items active, at rest what was at rest, and
at rest too what one of them was about. -/
structure Swept (often : Finset Uuid) (now : Int) (t t' : MemoryTables) (ops : List Op) : Prop where
  active : ∀ id, t'.isActive id = t.isActive id
  items : ∀ id, (t.getItem id).isSome → (t'.getItem id).isSome
  triggers : ∀ id, (t.getTrigger id).isSome → (t'.getTrigger id).isSome
  itemRests : ∀ id, t.ItemRests often now id ∨ (∃ op ∈ ops, op.body.target = (.item, id)) →
    t'.ItemRests often now id
  triggerRests : ∀ id, t.TriggerRests now id ∨ (∃ op ∈ ops, op.body.target = (.trigger, id)) →
    t'.TriggerRests now id

variable {often : Finset Uuid} {now : Int} {t t' : MemoryTables}

theorem Swept.refl (t : MemoryTables) : Swept often now t t [] where
  active := fun _ => rfl
  items := fun _ h => h
  triggers := fun _ h => h
  itemRests := fun _ h => h.resolve_right fun ⟨_, hop, _⟩ => List.not_mem_nil hop
  triggerRests := fun _ h => h.resolve_right fun ⟨_, hop, _⟩ => List.not_mem_nil hop

theorem Swept.cons {t'' : MemoryTables} {op : Op} {ops : List Op}
    (h : Swept often now t t' [op]) (h' : Swept often now t' t'' ops) :
    Swept often now t t'' (op :: ops) where
  active := fun id => (h'.active id).trans (h.active id)
  items := fun id hid => h'.items id (h.items id hid)
  triggers := fun id hid => h'.triggers id (h.triggers id hid)
  itemRests := by
    rintro id (hrests | ⟨op', hop', htarget⟩)
    · exact h'.itemRests id (.inl (h.itemRests id (.inl hrests)))
    · rcases List.mem_cons.1 hop' with rfl | hop'
      · exact h'.itemRests id
          (.inl (h.itemRests id (.inr ⟨op', List.mem_singleton_self _, htarget⟩)))
      · exact h'.itemRests id (.inr ⟨op', hop', htarget⟩)
  triggerRests := by
    rintro id (hrests | ⟨op', hop', htarget⟩)
    · exact h'.triggerRests id (.inl (h.triggerRests id (.inl hrests)))
    · rcases List.mem_cons.1 hop' with rfl | hop'
      · exact h'.triggerRests id
          (.inl (h.triggerRests id (.inr ⟨op', List.mem_singleton_self _, htarget⟩)))
      · exact h'.triggerRests id (.inr ⟨op', hop', htarget⟩)

/-- An op of a sweep is still one on what another has left. -/
theorem Sweeps.swept {ops : List Op} {body : OpBody} (h : Sweeps often now t body)
    (hswept : Swept often now t t' ops) : Sweeps often now t' body := by
  cases h with
  | expire stored => exact .expire (hswept.triggers _ stored)
  | place stored lasts stays => exact .place (hswept.items _ stored) lasts stays

/-! ## What the tables keep -/

theorem ignoresUse_sensitivity : IgnoresUse (·.sensitivity ≠ .secret) where
  access := fun _ => Iff.rfl
  category := fun _ _ => Iff.rfl

/-- **No op that is allowed makes a secret of an item.** -/
theorem lawful_sensitivity (w : Writer) (t : Tables) (op : Op) :
    w.Lawful (·.sensitivity ≠ .secret) t op where
  new := by
    intro itemId item entities triggers slug name hbody hallowed
    have hrule := evaluate_allowed_iff.1 hallowed pSecret1 (by simp [rules])
    obtain ⟨confirmed, hcontent⟩ := w.newContent_eq item
    rw [hcontent]
    intro hsecret
    have hfact : (facts t op (createdItems w.ops)).sensitivity = .secret := by
      simp only [facts, hbody]
      exact hsecret
    rw [pSecret1, if_pos hfact] at hrule
    exact absurd hrule (Option.some_ne_none _)
  edit := by
    intro before hcreate htarget stored hallowed hbefore
    have hrule := evaluate_allowed_iff.1 hallowed pSecret1 (by simp [rules])
    obtain ⟨confirmed, hcontent⟩ := w.changedContent_eq before.toItemContent op.body.itemChanges
    rw [hcontent]
    intro hsecret
    have hfact : (itemFacts op (createdItems w.ops) before).sensitivity = .secret := hsecret
    rw [pSecret1, if_pos hfact] at hrule
    exact absurd hrule (Option.some_ne_none _)

/-- Every trigger's item is there. -/
def MemoryTables.TriggersBound (t : MemoryTables) : Prop :=
  ∀ id r, t.getTrigger id = some r → (t.getItem r.itemId).isSome

theorem MemoryTables.TriggersBound.of_items {t t' : MemoryTables} (h : t.TriggersBound)
    (htriggers : t'.triggers = t.triggers)
    (hitems : ∀ id, (t.getItem id).isSome → (t'.getItem id).isSome) : t'.TriggersBound := by
  intro id r hr
  rw [MemoryTables.getTrigger, htriggers] at hr
  exact hitems _ (h id r hr)

theorem MemoryTables.TriggersBound.put {t : MemoryTables} (h : t.TriggersBound)
    {r : TriggerRecord} (hitem : (t.getItem r.itemId).isSome) :
    { t with triggers := t.triggers.put r }.TriggersBound := by
  intro id r' hr'
  rw [MemoryTables.getTrigger, KeyTable.lookup_put] at hr'
  split at hr'
  · cases hr'
    exact hitem
  · exact h id r' hr'

theorem RowStep.bound {turn : Uuid} {t t' : Tables} {c : RowChange}
    (h : RowStep .sql turn t c t') (hbound : t.TriggersBound) : t'.TriggersBound := by
  have hput : ∀ (r : ItemRecord) (id : Uuid), (t.getItem id).isSome →
      ((t.items.put r).lookup id).isSome :=
    fun r id hid => (KeyTable.isSome_lookup_put t.items r id).2 (.inl hid)
  cases h with
  | newItem => exact hbound.of_items rfl fun id hid => hput _ id hid
  | editItem => exact hbound.of_items rfl fun id hid => hput _ id hid
  | newTrigger made stamp stored => exact hbound.put stored
  | editTrigger stored stamp written =>
    unfold Tables.replaceTrigger at written
    split at written
    · cases written
      exact hbound
    · obtain ⟨hfits, rfl⟩ := Tables.statement_eq_ok.1 written
      exact hbound.put (hfits rfl)
  | _ => exact hbound.of_items rfl fun _ hid => hid

theorem Wrote.bound {turn : Uuid} {t t' : Tables} {cs : List RowChange}
    (h : Wrote .sql turn t cs t') (hbound : t.TriggersBound) : t'.TriggersBound := by
  induction h with
  | refl => exact hbound
  | quiet _ q ih =>
    rw [q.memory]
    exact ih
  | row _ step ih => exact step.bound ih

/-- What an op of a sweep relies on: well-kept items, none of which is a secret, and, on `sql`,
triggers whose items are there. -/
structure Tidy (b : Backend) (t : Tables) : Prop where
  wellKept : WellKept b t
  bound : b = .sql → t.TriggersBound
  open_ : t.EveryItem (·.sensitivity ≠ .secret)

/-- **Every store** that commits on one backend come to is as a sweep relies on. -/
theorem Reached.tidy {b : Backend} {me : Uuid} {es : List Event} {t : Tables}
    (h : Reached (fun w _ => w.backend = b) (Tables.initial me) es t) : Tidy b t where
  wellKept := h.wellKept
  open_ := h.everyItem ignoresUse_sensitivity (everyItem_initial _ me) fun w _ _ =>
    .inr (Writer.everyApplied_of_mem fun op _ t => lawful_sensitivity w t op)
  bound := by
    rintro rfl
    have hstart : (Tables.initial me).TriggersBound := fun _ _ hr => nomatch hr
    refine h.keeps (P := fun t => t.TriggersBound) hstart ?_ ?_
    · intro w t t' res hb hdone hbound
      have hwrote := (Writer.commit_spec hdone).wrote
      rw [hb] at hwrote
      exact hwrote.bound hbound
    · intro t t' hsame hbound id r hr
      rw [MemoryTables.getTrigger, hsame.triggers] at hr
      have hitem := congrArg Option.isSome (hsame.items r.itemId)
      rw [Option.isSome_map, Option.isSome_map] at hitem
      rw [hitem]
      exact hbound id r hr

/-! ## One op of a sweep is applied -/

theorem Sweeps.editedItem {body : OpBody} (h : Sweeps often now t body) :
    body.editedItem = none := by
  cases h with
  | expire => rfl
  | place => rfl

theorem Sweeps.createdItem {body : OpBody} (h : Sweeps often now t body) :
    body.createdItem = none := by
  cases h with
  | expire => rfl
  | place => rfl

/-- A sweep edits no item. -/
theorem editedItems_of_sweeps {ops : List Op} (h : ∀ op ∈ ops, Sweeps often now t op.body) :
    editedItems ops = ∅ := by
  have hnone : ops.filterMap (fun op => op.body.editedItem) = [] :=
    List.filterMap_eq_nil_iff.2 fun op hop => (h op hop).editedItem
  unfold editedItems
  rw [hnone, List.toFinset_nil, Finset.empty_sdiff]

namespace Writer

variable {w : Writer}

/-- **An op of a sweep is allowed.** -/
theorem allows_of_sweeps {t : Tables} {op : Op} (htidy : Tidy w.backend t)
    (hnone : editedItems w.ops = ∅) (htrust : op.trust = .userStated)
    (h : Sweeps often now t.toMemoryTables op.body) : w.Allows t op := by
  rw [Allows, verdict_allowed_iff]
  generalize hbody : op.body = body at h
  cases h with
  | expire stored =>
    have hfacts : facts t op (createdItems w.ops) =
        { op := .setState, trust := op.trust, origin := op.origin, target := .trigger
          editsExisting := true } := by
      simp only [facts, hbody, OpBody.target, opLabel]
      rfl
    rw [hfacts]
    have hfew : w.context.editedItems ≤ w.context.bulkThreshold := by
      rw [context, hnone]
      exact Nat.zero_le _
    exact ⟨Policy.evaluate_trigger rfl rfl htrust rfl rfl rfl rfl hfew,
      fun hcore => absurd hcore Bool.false_ne_true⟩
  | @place id d stored =>
    obtain ⟨before, hget⟩ := Option.isSome_iff_exists.1 stored
    have hfacts : facts t op (createdItems w.ops) = itemFacts op (createdItems w.ops) before := by
      simp only [facts, hbody, OpBody.target, hget]
    have hcore : (itemFacts op (createdItems w.ops) before).coreWrite = false := by
      simp [itemFacts, hbody, OpBody.itemChanges, QuickDecision.changes, ItemChanges.onlyQuick]
    rw [hfacts]
    refine ⟨Policy.evaluate_layerOnly ?_ ?_ htrust ?_ hcore, fun hwrites => ?_⟩
    · simp only [itemFacts, opLabel, hbody]
      rfl
    · simp only [itemFacts, hbody]
      rfl
    · have hopen : before.sensitivity ≠ .secret := htidy.open_ id before hget
      have hfact : (itemFacts op (createdItems w.ops) before).sensitivity = before.sensitivity := by
        simp only [itemFacts, hbody]
        rfl
      rw [hfact]
      exact hopen
    · rw [hcore] at hwrites
      exact absurd hwrites Bool.false_ne_true

/-- **An op of a sweep applies.** -/
theorem applicable_of_sweeps {t : Tables} {i : Nat} {body : OpBody} (htidy : Tidy w.backend t)
    (h : Sweeps often now t.toMemoryTables body) : w.Applicable t i body := by
  cases h with
  | expire stored =>
    obtain ⟨before, hget⟩ := Option.isSome_iff_exists.1 stored
    exact ⟨before, hget, rfl, fun hsql _ => htidy.bound hsql _ before hget⟩
  | place stored =>
    obtain ⟨before, hget⟩ := Option.isSome_iff_exists.1 stored
    exact ⟨before, hget, rfl, htidy.wellKept.state _ before hget,
      fun hsql => htidy.wellKept.fits hsql _ before hget⟩

/-- An item that has been placed. -/
theorem storeItem_placed (t : Tables) (before : ItemRecord) (d : QuickDecision) :
    ∃ placed : ItemRecord,
      storeItem t (w.edited before d.changes) = { t with items := t.items.put placed } ∧
      placed.id = before.id ∧ placed.status = before.status ∧ placed.inQuick = d.inQuick ∧
      placed.quickUntil = d.until_ := by
  refine ⟨_, rfl, ?_⟩
  unfold Tables.keepAccess
  split <;> exact ⟨rfl, rfl, rfl, rfl⟩

/-- **What an op of a sweep leaves.** -/
theorem swept_of_apply {t t' : Tables} {i : Nat} {log log' : RowLog} {op : Op}
    (h : Sweeps often now t.toMemoryTables op.body)
    (happly : w.apply t i log op.body = .ok (t', log')) :
    Swept often now t.toMemoryTables t'.toMemoryTables [op] := by
  generalize hbody : op.body = body at h happly
  have htarget : ∀ {x}, (∃ op' ∈ [op], op'.body.target = x) → body.target = x := by
    rintro x ⟨op', hop', hx⟩
    rw [← hbody, ← List.mem_singleton.1 hop']
    exact hx
  cases h with
  | @expire id stored =>
    obtain ⟨before, t₁, hget, -, hrep, hx⟩ := changeTrigger_eq_ok.1 happly
    obtain ⟨rfl, rfl⟩ := Prod.mk.inj hx
    obtain rfl : before.id = id := KeyTable.key_of_lookup hget
    have hstored :
        (t.getTrigger (w.editedTrigger before { state := some .expired }).id).isSome := by
      rw [show (w.editedTrigger before { state := some .expired }).id = before.id from rfl, hget]
      rfl
    obtain ⟨-, rfl⟩ := (Tables.replaceTrigger_eq_ok hstored).1 hrep
    refine ⟨fun _ => rfl, fun _ hid => hid, fun id hid => ?_, fun id hid => ?_,
      fun id hid => ?_⟩
    · exact (KeyTable.isSome_lookup_put t.triggers _ id).2 (.inl hid)
    · exact hid.resolve_right fun hop => by cases htarget hop
    · intro r hr
      rw [MemoryTables.getTrigger, KeyTable.lookup_put] at hr
      split at hr
      · cases hr
        simp [TriggerContent.isPast, editedTrigger, TriggerChanges.apply]
      · rename_i hne
        refine hid.resolve_right (fun hop => hne ?_) r hr
        exact (Prod.mk.inj (htarget hop)).2.symm
  | @place id d stored lasts stays =>
    obtain ⟨before, after, hget, rfl, -, -, -, hx⟩ := changeItem_eq_ok.1 happly
    obtain ⟨rfl, rfl⟩ := Prod.mk.inj hx
    obtain rfl : before.id = id := KeyTable.key_of_lookup hget
    rw [show w.refile t i d.changes = (t, d.changes) from rfl]
    obtain ⟨placed, hput, hid, hstatus, hin, huntil⟩ := storeItem_placed (w := w) t before d
    rw [hput]
    have hread : ∀ id, { t with items := t.items.put placed }.getItem id =
        if before.id = id then some placed else t.getItem id := by
      intro id
      rw [MemoryTables.getItem, KeyTable.lookup_put, hid]
      exact if_congr eq_comm rfl rfl
    refine ⟨fun id => ?_, fun id hsome => ?_, fun _ hid => hid, fun id hrests => ?_,
      fun id hrests => ?_⟩
    · unfold MemoryTables.isActive
      rw [hread]
      split
      · rename_i heq
        rw [← heq, hget, Option.any_some, Option.any_some, hstatus]
      · rfl
    · rw [hread]
      split
      · rfl
      · exact hsome
    · intro r hr
      rw [hread] at hr
      split at hr
      · rename_i heq
        cases hr
        refine ⟨?_, fun hoften => ?_⟩
        · have hlasts : ∀ u ∈ placed.quickUntil, now ≤ u := by rwa [huntil]
          cases hu : placed.quickUntil with
          | none => simp [ItemContent.quickIsUp, hu]
          | some u =>
            have hle := hlasts u hu
            simp [ItemContent.quickIsUp, hu, hle]
        · rw [hin]
          exact stays (heq ▸ hoften)
      · rename_i hne
        refine hrests.resolve_right (fun hop => hne ?_) r hr
        exact (Prod.mk.inj (htarget hop)).2
    · exact hrests.resolve_right fun hop => by cases htarget hop

/-- **One op of a sweep** is allowed and applied. -/
theorem step_sweeps (sb i : Nat) {p : Progress} {op : Op} (htidy : Tidy w.backend p.tables)
    (hnone : editedItems w.ops = ∅) (htrust : op.trust = .userStated)
    (h : Sweeps often now p.tables.toMemoryTables op.body) :
    ∃ p' o, w.step sb i p op = .ok p' ∧ p'.outcomes = p.outcomes ++ [o] ∧ p'.held = p.held ∧
      (o.op = op ∧ o.verdict.decision = .allowed) ∧ Tidy w.backend p'.tables ∧
      Swept often now p.tables.toMemoryTables p'.tables.toMemoryTables [op] := by
  obtain ⟨v, hv, hallowed⟩ := allows_of_sweeps htidy hnone htrust h
  have happlies : ∃ x,
      w.apply p.tables i { seqBase := sb, op := op, seq := p.seq } op.body = .ok x :=
    apply_ok_iff.2 (applicable_of_sweeps htidy h)
  obtain ⟨⟨t', log⟩, happly⟩ := happlies
  have hstep := step_of_apply hv hallowed happly
  refine ⟨_, _, hstep, rfl, rfl, ⟨rfl, hallowed⟩, ⟨?_, ?_, ?_⟩, swept_of_apply h happly⟩
  · exact step_wellKept htidy.wellKept hstep
  · intro hsql
    obtain ⟨cs, -, hwrote⟩ := (apply_does happly).wrote
    rw [hsql] at hwrote
    exact hwrote.bound (htidy.bound hsql)
  · exact step_everyItem ignoresUse_sensitivity (fun _ => lawful_sensitivity w p.tables op)
      htidy.open_ hstep

/-- **A whole sweep** is allowed and applied. -/
theorem steps_sweep (sb i : Nat) {ops : List Op} {p : Progress}
    (htidy : Tidy w.backend p.tables) (hnone : editedItems w.ops = ∅)
    (hops : ∀ op ∈ ops,
      op.trust = .userStated ∧ Sweeps often now p.tables.toMemoryTables op.body) :
    ∃ p' outcomes, w.steps sb i p ops = .ok p' ∧ p'.outcomes = p.outcomes ++ outcomes ∧
      p'.held = p.held ∧
      List.Forall₂ (fun op o => o.op = op ∧ o.verdict.decision = .allowed) ops outcomes ∧
      Swept often now p.tables.toMemoryTables p'.tables.toMemoryTables ops := by
  induction ops generalizing i p with
  | nil =>
    exact ⟨p, [], rfl, (List.append_nil _).symm, rfl, .nil, .refl _⟩
  | cons op ops ih =>
    obtain ⟨htrust, hsweeps⟩ := hops op List.mem_cons_self
    obtain ⟨p₁, o, hstep, houtcomes, hheld, ho, htidy₁, hswept⟩ :=
      step_sweeps sb i htidy hnone htrust hsweeps
    have hrest : ∀ op ∈ ops, op.trust = .userStated ∧
        Sweeps often now p₁.tables.toMemoryTables op.body := by
      intro op' hop'
      obtain ⟨htrust', hsweeps'⟩ := hops op' (List.mem_cons_of_mem _ hop')
      exact ⟨htrust', hsweeps'.swept hswept⟩
    obtain ⟨p', outcomes, hsteps, houtcomes', hheld', hall, hswept'⟩ :=
      ih (i + 1) htidy₁ hrest
    refine ⟨p', o :: outcomes, bind_eq_ok.2 ⟨p₁, hstep, hsteps⟩, ?_, hheld'.trans hheld,
      .cons ho hall, hswept.cons hswept'⟩
    rw [houtcomes', houtcomes, List.append_assoc]
    rfl

end Writer

/-- **A sweep is carried out whole, and after it none is due**: every op is allowed and applied. -/
theorem Housekeeping.expiryOps_settles {k : Housekeeping} {w : Writer} {me : Uuid} {es : List Event}
    {t : Tables} {access : List AccessRow} {now : Int} {ops : List Op}
    (hreached : Reached (fun w' _ => w'.backend = w.backend) (Tables.initial me) es t)
    (hsweep : k.expiryOps t.toMemoryTables access now = .ok ops) (hops : w.ops = ops) :
    ∃ t' res, w.commit t = .ok (t', res) ∧
      List.Forall₂ (fun op o => o.op = op ∧ o.verdict.decision = .allowed) ops res.outcomes ∧
      k.expiryOps t'.toMemoryTables access now = .ok [] := by
  subst hops
  have hall : ∀ op ∈ w.ops, op.trust = .userStated ∧
      Sweeps (k.frequent t.toMemoryTables access now) now t.toMemoryTables op.body :=
    fun op hop => of_mem_expiryOps hsweep hop
  have hnone := editedItems_of_sweeps fun op hop => (hall op hop).2
  have hmemory : (w.writeVocab t).toMemoryTables = t.toMemoryTables := w.writeVocab_memory t
  have htidy := hreached.tidy
  have hstart : Tidy w.backend (w.writeVocab t) := by
    refine ⟨htidy.wellKept.quiet (Writer.writeVocab_quiet t), fun hsql => ?_, ?_⟩
    · rw [hmemory]
      exact htidy.bound hsql
    · rw [hmemory]
      exact htidy.open_
  obtain ⟨p, outcomes, hsteps, houtcomes, hheld, hdone, hswept⟩ :=
    Writer.steps_sweep (w.seqBase t) 0 (p := { tables := w.writeVocab t }) hstart hnone
      (by rw [hmemory]; exact hall)
  have hbatch : w.applyAll (w.seqBase t) (w.writeVocab t) = .ok p := by
    have hwhole : w.heldWhole = false := by simp [Writer.heldWhole, hnone]
    rw [Writer.applyAll, hwhole]
    exact hsteps
  have hcommit : ∃ t' res, w.commit t = .ok (t', res) := by
    have hunheld : p.held.foldlM
        (fun (t : Tables) (held : HeldWriteRecord) => t.insertHeldWrite w.backend held)
        (p.tables.insertWriteLog p.rows) = .ok (p.tables.insertWriteLog p.rows) := by
      rw [hheld]
      rfl
    exact ⟨_, _, bind_eq_ok.2 ⟨p, hbatch, bind_eq_ok.2 ⟨_, hunheld, rfl⟩⟩⟩
  obtain ⟨t', res, hcommit⟩ := hcommit
  obtain ⟨q, hparts⟩ := Writer.commit_parts hcommit
  obtain rfl : q = p := Except.ok.inj (hparts.batch.symm.trans hbatch)
  refine ⟨t', res, hcommit, ?_, ?_⟩
  · rw [hparts.result, houtcomes]
    exact hdone
  · rw [hparts.memory]
    rw [hmemory] at hswept
    refine expiryOps_of_rests (fun id => ?_) fun id => ?_
    · rw [frequent_congr hswept.active]
      exact hswept.itemRests id (itemRests_or_target hsweep id)
    · exact hswept.triggerRests id (triggerRests_or_target hsweep id)

/-! ## A note and its reminder -/

/-- A note that stays at hand until 2, with a reminder at 2. -/
def keepsNote : Writer where
  backend := .sql
  turn := { turnId := 1, now := 1 }
  ops :=
    [{ body := .createItem 10
        { kind := .note, state := "current", text := "The plumber calls.", title := "Plumber"
          mentionedAt := 1, inQuick := true, quickUntil := some 2 } []
        [{ triggerId := 20, trigger := { on := .time, firesAt := some 2 } }] none none }]

/-- Rows are listed by id. -/
def byId (s : Multiset Uuid) : List Uuid :=
  Quot.liftOn s (List.insertionSort (· ≤ ·)) fun a b h =>
    ((List.perm_insertionSort _ a).trans
      (h.trans (List.perm_insertionSort _ b).symm)).eq_of_pairwise
      (fun _ _ _ _ h h' => le_antisymm h h')
      (List.pairwise_insertionSort _ a) (List.pairwise_insertionSort _ b)

theorem coe_byId (s : Multiset Uuid) : (byId s : Multiset Uuid) = s := by
  induction s using Quot.inductionOn with
  | h l => exact Multiset.coe_eq_coe.2 (List.perm_insertionSort _ l)

def nightly : Housekeeping where
  parseRrule := fun _ _ => .error (.valueError "no rule")
  zone := { initial := 0, changes := [], ascending := none_ascending, small := none_small }
  horizonDays := 7
  recentDays := 0
  frequentMin := 3
  order := byId
  order_eq := coe_byId

/-- The turn of a sweep. -/
def sweepTurn (ops : List Op) : Writer where
  backend := .sql
  turn := { turnId := 2, now := 100, kind := .system }
  ops := ops

/-- The note leaves and its reminder expires, in one sweep. -/
theorem Housekeeping.expiryOps_settles_note :
    ∃ t ops, nightly.expiryOps t.toMemoryTables [] 100 = .ok ops ∧ ops.length = 2 ∧
      ∃ t' res, (sweepTurn ops).commit t = .ok (t', res) ∧
        nightly.expiryOps t'.toMemoryTables [] 100 = .ok [] := by
  have hsaved : ∃ x ∈ (keepsNote.commit (Tables.initial 0)).toOption,
      ∃ ops ∈ (nightly.expiryOps x.1.toMemoryTables [] 100).toOption, ops.length = 2 := by
    decide +kernel
  obtain ⟨⟨t, res⟩, hx, ops, hops, hlength⟩ := hsaved
  have hreached : Reached (fun w' _ => w'.backend = (sweepTurn ops).backend) (Tables.initial 0)
      [⟨1, Tables.initial 0, t⟩] t :=
    Reached.start.commit (w := keepsNote) rfl (of_mem_toOption hx)
  have hsweep := of_mem_toOption hops
  obtain ⟨t', res', hcommit, -, hempty⟩ := expiryOps_settles hreached hsweep rfl
  exact ⟨t, ops, hsweep, hlength, t', res', hcommit, hempty⟩

end SecondMind
