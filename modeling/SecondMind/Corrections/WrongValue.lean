import SecondMind.Corrections.Hypotheticals
import SecondMind.Ingestion.SingleValue

/-!
# A value that was never true

`Corrector._wrong_value` copies the item with a new text, and `decide` of `ingestion/reconcile.py`
compares a later statement with the copy by its structured value.

* `copy_content` — what the commit of a correction makes;
* `StaysCorrected` — the copy is not taken for the old statement;
* `wrong_value_stays_iff` — exactly when it is not.
-/

namespace SecondMind

open Keyed

namespace Corrections

/-! ## The copy -/

/-- The ops of a relation that is put right are about relations. -/
theorem target_relation {lib : TextLib} {newId : FixId → Uuid} {fix : RelationFix}
    {found : RelationRows} {evidence : Uuid} {op : Op}
    (h : op ∈ (relation lib newId fix found evidence).1) : op.body.target.1 = .relation := by
  unfold relation at h
  split at h
  · rcases List.mem_append.1 h with h | h
    · obtain ⟨r, -, rfl⟩ := List.mem_map.1 h
      rfl
    · rw [List.mem_singleton.1 h]
      rfl
  · exact absurd h List.not_mem_nil

/-- **The ops of a correction**: the copy, the old item as a mistake, and relations. -/
theorem mem_wrongValue {lib : TextLib} {newId : FixId → Uuid} {old : ItemRecord}
    {rows : List ItemEntityRecord} {newText : Option String}
    {fix : Option (RelationFix × RelationRows)} {op : Op}
    (h : op ∈ (wrongValue lib newId old rows newText fix).1) :
    (∃ entities, op.body = .createItem (newId .item)
      (correctedContent old.toItemContent (correctedText newText)) entities [] none none) ∨
    op.body = .correctItem old.id (newId .item) (newId .link) ∨ op.body.target.1 = .relation := by
  unfold wrongValue at h
  dsimp only at h
  split at h
  · exact absurd h List.not_mem_nil
  · rcases List.mem_append.1 h with h | h
    · rcases List.mem_cons.1 h with rfl | h
      · exact .inl ⟨_, rfl⟩
      · rw [List.mem_singleton.1 h]
        exact .inr (.inl rfl)
    · cases fix with
      | none => exact absurd h List.not_mem_nil
      | some fix => exact .inr (.inr (target_relation h))

/-- The content of the copy, but for its category and the moment a person let it into core. -/
def IsCopy (old : ItemContent) (text : String) (c : ItemContent) : Prop :=
  ∃ confirmed category,
    c = { correctedContent old text with coreConfirmedAt := confirmed, categoryId := category }

section

variable {ctx : CorrectContext} {lib : TextLib} {newId : FixId → Uuid} {old : ItemRecord}
  {rows : List ItemEntityRecord} {newText : Option String}
  {fix : Option (RelationFix × RelationRows)} {t t' : Tables} {res : CommitResult}

/-- Only the op that makes the copy writes an item under the new id. -/
theorem apply_copy {w : Writer} {i : Nat} {log log' : Writer.RowLog} {op : Op}
    (hne : old.id ≠ newId .item) (hop : op ∈ (wrongValue lib newId old rows newText fix).1)
    (hcopy : ∀ new, t.getItem (newId .item) = some new →
      IsCopy old.toItemContent (correctedText newText) new.toItemContent)
    (h : w.apply t i log op.body = .ok (t', log')) {new : ItemRecord}
    (hnew : t'.getItem (newId .item) = some new) :
    IsCopy old.toItemContent (correctedText newText) new.toItemContent := by
  cases Writer.apply_itemEffect h with
  | none same =>
    rw [MemoryTables.getItem, same] at hnew
    exact hcopy new hnew
  | @new itemId item entities triggers slug name record hbody hrecord free put =>
    obtain ⟨⟨category, hcontent⟩, -, hid, -⟩ := Writer.newItem_eq_ok hrecord
    obtain ⟨confirmed, hitem⟩ := Writer.newContent_eq (w := w) item
    rcases mem_wrongValue hop with ⟨rowsOf, hcreate⟩ | hcorrect | hrelation
    · rw [hbody] at hcreate
      injection hcreate with hitemId hcopied
      rw [MemoryTables.getItem, put, ← hitemId, ← hid, KeyTable.lookup_put_self] at hnew
      obtain rfl := Option.some.inj hnew
      exact ⟨confirmed, category, by rw [hcontent, hitem, hcopied]⟩
    · rw [hbody] at hcorrect
      cases hcorrect
    · rw [hbody] at hrelation
      cases hrelation
  | @edit before htarget hcreate stored put =>
    have hother : newId .item ≠ before.id := by
      rcases mem_wrongValue hop with ⟨rowsOf, hbody⟩ | hcorrect | hrelation
      · rw [hbody] at hcreate
        cases hcreate
      · rw [hcorrect] at htarget
        rw [← (Prod.mk.inj htarget).2]
        exact hne.symm
      · rw [htarget] at hrelation
        cases hrelation
    rw [MemoryTables.getItem, put, KeyTable.lookup_put] at hnew
    split at hnew
    · rename_i heq
      rw [id_keepAccess, Writer.id_edited] at heq
      exact absurd heq hother
    · exact hcopy new hnew

/-- **What the commit makes** under the new id is the copy. -/
theorem copy_content (hold : t.getItem old.id = some old) (hfree : t.getItem (newId .item) = none)
    (h : (ctx.writer (wrongValue lib newId old rows newText fix).1).commit t = .ok (t', res))
    {new : ItemRecord} (hnew : t'.getItem (newId .item) = some new) :
    IsCopy old.toItemContent (correctedText newText) new.toItemContent := by
  obtain ⟨p, hp⟩ := Writer.commit_parts h
  have hstart : ((ctx.writer (wrongValue lib newId old rows newText fix).1).writeVocab t).getItem
      (newId .item) = none := by
    rw [Writer.writeVocab_memory]
    exact hfree
  have hne : old.id ≠ newId .item := by
    intro heq
    rw [← heq, hold] at hfree
    cases hfree
  rw [hp.memory] at hnew
  have hbatch := hp.batch
  unfold Writer.applyAll at hbatch
  split at hbatch
  · cases hbatch
    rw [Writer.holdEverything, hstart] at hnew
    cases hnew
  · refine Writer.steps_induct (P := fun p => ∀ new, p.tables.getItem (newId .item) = some new →
      IsCopy old.toItemContent (correctedText newText) new.toItemContent) ?_ ?_ hbatch new hnew
    · intro i p op p' hop hcopy hs new hnew
      obtain ⟨made, hmade, rfl⟩ := List.mem_map.1 hop
      rcases Writer.step_cases hs with ⟨v, -, -, rfl⟩ | ⟨v, u, reason, -, -, ha, rfl⟩ |
        ⟨v, u, log, -, -, ha, rfl⟩
      · rw [Writer.refuse_tables] at hnew
        exact hcopy new hnew
      · rw [show u.toMemoryTables = p.tables.toMemoryTables from (Writer.apply_skip ha).memory]
          at hnew
        exact hcopy new hnew
      · rw [withOrigin_body] at ha
        exact apply_copy hne hmade hcopy ha hnew
    · intro new hnew
      rw [hstart] at hnew
      cases hnew

/-! ## What a later save makes of the copy -/

/-- The item states the value of the content. -/
def States (item : ItemRecord) (c : ItemContent) : Prop := item.text = c.text ∧ item.value = c.value

/-- A correction of `old` that stays: the new content has not the old value, and what a later save
makes of it is what the two texts ask for. -/
structure StaysCorrected (r : Reconciler) (old new : ItemContent) : Prop where
  value : ∀ v, old.value = some v → v.truthy = true → new.value ≠ some v
  restated : ∀ t draft item, (Reconciler.current t draft).head? = some item → States item new →
    sameValue r.lib old draft.content = true → (r.decide t draft).decision ≠ .noOp
  stated : ∀ t draft item, (Reconciler.current t draft).head? = some item → States item new →
    spoken r.lib draft.content.text = spoken r.lib new.text →
    sameValue r.lib old draft.content = false → (r.decide t draft).decision ≠ .supersede

/-- What a statement without a value is compared by. -/
theorem sameValue_of_no_value {lib : TextLib} {a b : ItemContent}
    (h : ∀ v, a.value = some v → v.truthy = false) :
    sameValue lib a b = decide (spoken lib a.text = spoken lib b.text) := by
  unfold sameValue
  cases ha : a.value with
  | none => rfl
  | some v =>
    cases b.value with
    | none => rfl
    | some v' =>
      dsimp only
      rw [if_neg]
      rintro ⟨htruthy, -⟩
      rw [h v ha] at htruthy
      exact nomatch htruthy

/-- The decision about a draft whose key has a current item. -/
theorem decide_of_current {r : Reconciler} {t : MemoryTables} {draft : Draft} {item : ItemRecord}
    (h : (Reconciler.current t draft).head? = some item) :
    (r.decide t draft).decision =
      if sameValue r.lib item.toItemContent draft.content then .noOp else .supersede := by
  unfold Reconciler.decide
  cases hcurrent : Reconciler.current t draft with
  | nil =>
    rw [hcurrent] at h
    exact nomatch h
  | cons first rest =>
    rw [hcurrent] at h
    obtain rfl := Option.some.inj h
    dsimp only
    split
    · rfl
    · rfl

/-- **A copy of a statement without a value** stays, if the texts differ. -/
theorem staysCorrected_of_no_value {r : Reconciler} {c old : ItemContent} {text : String}
    (hcopy : IsCopy old text c) (hdiffer : spoken r.lib old.text ≠ spoken r.lib text)
    (hnone : ∀ v, old.value = some v → v.truthy = false) : StaysCorrected r old c := by
  obtain ⟨confirmed, category, rfl⟩ := hcopy
  have hitem : ∀ item : ItemRecord,
      States item { correctedContent old text with
        coreConfirmedAt := confirmed, categoryId := category } → ∀ b : ItemContent,
      sameValue r.lib item.toItemContent b = decide (spoken r.lib text = spoken r.lib b.text) := by
    rintro item ⟨htext, hvalue⟩ b
    rw [sameValue_of_no_value fun v hv => hnone v (hvalue ▸ hv), htext]
    rfl
  refine ⟨fun v hv htruthy => ?_, fun t draft item hfound hstates hsame => ?_,
    fun t draft item hfound hstates hspoken _ => ?_⟩
  · rw [hnone v hv] at htruthy
    exact nomatch htruthy
  · rw [sameValue_of_no_value hnone, decide_eq_true_iff] at hsame
    rw [decide_of_current hfound, hitem item hstates, ← hsame, if_neg]
    · exact ReconcileDecision.noConfusion
    · exact fun h => hdiffer (of_decide_eq_true h).symm
  · have hsame : spoken r.lib text = spoken r.lib draft.content.text := hspoken.symm
    rw [decide_of_current hfound, hitem item hstates, if_pos (decide_eq_true hsame)]
    exact ReconcileDecision.noConfusion

/-- **A correction stays** exactly when the old item has no structured value. -/
theorem wrong_value_stays_iff (r : Reconciler) (hold : t.getItem old.id = some old)
    (hfree : t.getItem (newId .item) = none)
    (h : (ctx.writer (wrongValue lib newId old rows newText fix).1).commit t = .ok (t', res))
    {new : ItemRecord} (hnew : t'.getItem (newId .item) = some new)
    (hdiffer : spoken r.lib old.text ≠ spoken r.lib (correctedText newText)) :
    StaysCorrected r old.toItemContent new.toItemContent ↔
      ∀ v, old.value = some v → v.truthy = false := by
  have hcopy := copy_content hold hfree h hnew
  refine ⟨fun hstays v hv => ?_, staysCorrected_of_no_value hcopy hdiffer⟩
  obtain ⟨confirmed, category, hcontent⟩ := hcopy
  by_contra htruthy
  refine hstays.value v hv (Bool.not_eq_false _ ▸ htruthy) ?_
  rw [hcontent]
  exact hv

end

/-! ## An age corrected -/

/-- An age with its value. -/
def countedAge (age : String) : ProposedMemory :=
  { statedAge "m1" ("i am " ++ age) with value := some ⟨some age, none, some "years"⟩ }

def countedSave : Save := saveOf 1 "i am 30." [countedAge "30"]

/-- The ids of a correction, of a turn of its own. -/
def fixId (turn : Nat) : FixId → Uuid
  | .item => 100 * turn
  | .row i => 100 * turn + 10 + i
  | .link => 100 * turn + 5
  | .relation => 100 * turn + 6

/-- The ops that correct the item `100`, which has no entities. -/
def ageFix (old : ItemRecord) : List Op :=
  (wrongValue plainText (fixId 2) old [] (some "i am 31") none).1

/-- The content of a statement of an age under the key of another. -/
def ageOf (c : ItemContent) (age : String) : ItemContent :=
  { c with text := "i am " ++ age, value := some (objectOf [("text", .str age), ("unit", .str "years")]) }

/-- **An age with a value is not corrected**: the copy keeps the old number, so the old age is known
already and the new one is a change. -/
theorem corrected_age_keeps_value :
    ∃ x ∈ (countedSave.run (Tables.initial 0)).toOption, ∃ old ∈ x.1.getItem 100,
      x.1.itemEntities.rows.filter (·.itemId = 100) = 0 ∧
      ∃ y ∈ (((correcting 2).writer (ageFix old)).commit x.1).toOption, ∃ new ∈ y.1.getItem 200,
        new.text = "i am 31" ∧ new.status = .active ∧ new.value.isSome ∧ new.value = old.value ∧
          (countedSave.reconciler.decide y.1.toMemoryTables
            ⟨"m1", 300, ageOf old.toItemContent "30", []⟩).decision = .noOp ∧
          (countedSave.reconciler.decide y.1.toMemoryTables
            ⟨"m1", 300, ageOf old.toItemContent "31", []⟩).decision = .supersede := by
  decide +kernel

/-- An age without one is. -/
theorem corrected_age_stays :
    ∃ x ∈ (firstAge.run (Tables.initial 0)).toOption, ∃ old ∈ x.1.getItem 100,
      ∃ y ∈ (((correcting 2).writer (ageFix old)).commit x.1).toOption, ∃ new ∈ y.1.getItem 200,
        StaysCorrected firstAge.reconciler old.toItemContent new.toItemContent := by
  have hran : ∃ x ∈ (firstAge.run (Tables.initial 0)).toOption, ∃ old ∈ x.1.getItem 100,
      old.id = 100 ∧ old.value = none ∧ x.1.getItem 200 = none ∧
        spoken plainText old.text ≠ spoken plainText (correctedText (some "i am 31")) ∧
        ∃ y ∈ (((correcting 2).writer (ageFix old)).commit x.1).toOption,
          (y.1.getItem 200).isSome = true := by
    decide +kernel
  obtain ⟨x, hx, old, hold, hid, hvalue, hfree, hdiffer, y, hy, hnew⟩ := hran
  obtain ⟨new, hnew⟩ := Option.isSome_iff_exists.1 hnew
  refine ⟨x, hx, old, hold, y, hy, new, hnew, ?_⟩
  refine (wrong_value_stays_iff firstAge.reconciler (hid ▸ hold) hfree (of_mem_toOption hy) hnew
    hdiffer).2 fun v hv => ?_
  rw [hvalue] at hv
  exact nomatch hv

end Corrections

end SecondMind
