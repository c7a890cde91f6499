import SecondMind.Corrections.Corrector
import SecondMind.Ingestion.Pipeline
import SecondMind.Memory.ItemLaws

/-!
# Hypotheticals

The rule `P-MOD-1`: what may happen is kept as a note, outside core.  The rule looks at the kind of
an item that is made; an edit that files it under another kind is only asked whether it writes core.

* `NoClaim` — what the rule is for;
* `Op.KeepsNote` — an edit that files no hypothetical under another kind;
* `hypotheticals_stay_notes` — every run of such edits;
* `reclassified_hypothetical` — a correction makes a fact of a hypothetical.
-/

namespace SecondMind

open Keyed Policy

/-- A hypothetical is a note, and is not in core. -/
def NoClaim (c : ItemContent) : Prop :=
  c.modality = .hypothetical → c.kind = .note ∧ c.inCore = false

theorem noClaim_ignoresUse : IgnoresUse NoClaim :=
  ⟨fun _ => Iff.rfl, fun _ _ => Iff.rfl⟩

/-- No op of the program sets a modality. -/
def Op.KeepsModality (op : Op) : Prop :=
  ∀ itemId changes, op.body = .updateItem itemId changes → changes.modality = none

/-- The op does not file a hypothetical under another kind. -/
def Op.KeepsNote (t : Tables) (op : Op) : Prop :=
  ∀ itemId changes r, op.body = .updateItem itemId changes → t.getItem itemId = some r →
    r.modality = .hypothetical → changes.kind.getD .note = .note

namespace Writer

variable {w : Writer}

/-- A new hypothetical is a note outside core. -/
theorem noClaim_new {t : Tables} {op : Op} {itemId : Uuid} {item : ItemContent}
    {entities : List EntityLink} {triggers : List NewTrigger} {slug name : Option String}
    (hbody : op.body = .createItem itemId item entities triggers slug name)
    (hallowed : (evaluate (facts t op (createdItems w.ops)) w.context).decision = .allowed) :
    NoClaim (w.newContent item) := by
  intro hmodality
  obtain ⟨confirmed, hcontent⟩ := newContent_eq (w := w) item
  rw [hcontent] at hmodality ⊢
  replace hmodality : item.modality = .hypothetical := hmodality
  have hrule := evaluate_allowed_iff.1 hallowed pMod1 (by simp [rules])
  have hlabel : opLabel op = .create := by rw [opLabel, hbody]; rfl
  simp only [facts, hbody, pMod1, hmodality, hlabel, hypotheticalKinds] at hrule
  simpa using hrule

/-- **An edit** of a lawful item, if it sets no modality and files no hypothetical under another
kind. -/
theorem noClaim_edit {t : Tables} {op : Op} {before : ItemRecord}
    (htarget : op.body.target = (.item, before.id))
    (stored : t.getItem before.id = some before) (hmodality : op.KeepsModality)
    (hnote : op.KeepsNote t)
    (hallowed : (evaluate (itemFacts op (createdItems w.ops) before) w.context).decision = .allowed)
    (hlaw : NoClaim before.toItemContent) :
    NoClaim (w.changedContent before.toItemContent op.body.itemChanges) := by
  intro hafter
  obtain ⟨confirmed, hcontent⟩ := changedContent_eq (w := w) before.toItemContent op.body.itemChanges
  rw [hcontent] at hafter ⊢
  replace hafter : op.body.itemChanges.modality.getD before.modality = .hypothetical := hafter
  show op.body.itemChanges.kind.getD before.kind = .note ∧
    op.body.itemChanges.inCore.getD before.inCore = false
  by_cases hupdate : ∀ itemId changes, op.body ≠ .updateItem itemId changes
  · obtain ⟨hkind, hmod, hcore⟩ := itemChanges_of_not_update hupdate
    rw [hmod, Option.getD_none] at hafter
    rw [hkind, hcore, Option.getD_none, Option.getD_none]
    exact hlaw hafter
  · push Not at hupdate
    obtain ⟨itemId, changes, hbody⟩ := hupdate
    have hid : itemId = before.id := by
      rw [hbody] at htarget
      exact (Prod.mk.inj htarget).2
    subst hid
    have hsame : op.body.itemChanges = changes := by rw [hbody]; rfl
    rw [hsame] at hafter ⊢
    rw [hmodality _ _ hbody, Option.getD_none] at hafter
    obtain ⟨hkind, hout⟩ := hlaw hafter
    refine ⟨?_, ?_⟩
    · rw [hkind]
      exact hnote _ _ before hbody stored hafter
    · -- an edit that puts it into core is a core write, which the rule blocks
      have hrule := evaluate_allowed_iff.1 hallowed pMod1 (by simp [rules])
      have hlabel : opLabel op = .update := by rw [opLabel, hbody]; rfl
      rw [Bool.eq_false_iff]
      intro hin
      have hwrite : (itemFacts op (createdItems w.ops) before).coreWrite = true := by
        rw [hout] at hin
        simp [itemFacts, hlabel, hsame, hin, hout]
      have hhypothetical :
          (itemFacts op (createdItems w.ops) before).modality = .hypothetical := hafter
      rw [pMod1, if_neg (not_not.2 hhypothetical), if_pos (.inr hwrite)] at hrule
      cases hrule

/-- The ops of a batch file no hypothetical under another kind, on the tables they meet. -/
def KeepsNotes (w : Writer) (t : Tables) : Prop :=
  w.heldWhole = true ∨ w.EveryApplied (w.seqBase t) (fun t op => op.KeepsNote t) 0
    { tables := w.writeVocab t } w.ops

theorem lawfulBatch_noClaim {t : Tables} (hmodality : ∀ op ∈ w.ops, op.KeepsModality)
    (hnotes : w.KeepsNotes t) : w.LawfulBatch NoClaim t := by
  refine hnotes.imp_right fun hevery => ?_
  refine (hevery.and (Q := fun _ op => op.KeepsModality) fun op hop _ => hmodality op hop).mono ?_
  rintro t op ⟨hnote, hmod⟩
  refine ⟨fun itemId item entities triggers slug name hbody hallowed => ?_,
    fun before _ htarget stored hallowed hlaw => ?_⟩
  · exact noClaim_new hbody hallowed
  · exact noClaim_edit htarget stored hmod hnote hallowed hlaw

end Writer

/-- **Hypotheticals stay notes** outside core in every run of ops that file none of them under
another kind. -/
theorem hypotheticals_stay_notes {me : Uuid} {es : List Event} {t : Tables}
    (h : Reached (fun w t => (∀ op ∈ w.ops, op.KeepsModality) ∧ w.KeepsNotes t)
      (Tables.initial me) es t) {id : Uuid} {r : ItemRecord} (stored : t.getItem id = some r)
    (hmodality : r.modality = .hypothetical) : r.kind = .note ∧ r.inCore = false :=
  h.everyItem noClaim_ignoresUse (everyItem_initial NoClaim me)
    (fun _ _ hops => Writer.lawfulBatch_noClaim hops.1 hops.2) id r stored hmodality

/-! ## A hypothetical filed as a fact -/

/-- What saves a message, and what files a memory otherwise, as the program builds them. -/
def ProgramWriter (w : Writer) (t : Tables) : Prop :=
  (∃ s : Save, s.writer t.toMemoryTables = .ok w) ∨
    ∃ ctx item changes ops notes, t.getItem item.id = some item ∧
      Corrections.reclassify ctx item (some changes) = .ok (ops, notes) ∧ w = ctx.writer ops

def mayMove : Save :=
  saveOf 1 "if I get the offer I'll move"
    [{ ref := "m1", kind := ⟨.note, note_isLabel⟩, title := "may move", text := "may move"
       modality := .hypothetical }]

/-- A correction on plain text, in a zone without an offset. -/
def correcting (turnId : Nat) : Corrections.CorrectContext where
  backend := .sql
  turnId := turnId
  now :=
    { instant := 739704 * day + turnId
      zone :=
        { initial := 0, changes := [], ascending := none_ascending, small := none_small }
      timezone := "UTC" }
  lib := { text := plainText, parseRrule := fun _ _ => .error .valueError }

def asFact : Corrections.CorrectionChanges := { kind := some "fact" }

/-- **A correction of the kind** makes a fact of what may happen. -/
theorem reclassified_hypothetical :
    ∃ es t, Reached ProgramWriter (Tables.initial 0) es t ∧
      ∃ id r, t.getItem id = some r ∧ r.status = .active ∧ r.modality = .hypothetical ∧
        r.kind = .fact := by
  have hran : ∃ w ∈ (mayMove.writer (Tables.initial 0).toMemoryTables).toOption,
      ∃ x ∈ (w.commit (Tables.initial 0)).toOption, ∃ item ∈ x.1.getItem 100, item.id = 100 ∧
        ∃ fixed ∈ (Corrections.reclassify (correcting 2) item (some asFact)).toOption,
          ∃ y ∈ (((correcting 2).writer fixed.1).commit x.1).toOption,
            ∃ r ∈ y.1.getItem 100, r.status = .active ∧ r.modality = .hypothetical ∧
              r.kind = .fact := by
    decide +kernel
  obtain ⟨w, hw, x, hx, item, hitem, hid, fixed, hfixed, y, hy, r, hr, hlast⟩ := hran
  have hsaved : Reached ProgramWriter (Tables.initial 0) _ x.1 :=
    .commit .start (.inl ⟨mayMove, of_mem_toOption hw⟩) (of_mem_toOption hx)
  have hcorrected : ProgramWriter ((correcting 2).writer fixed.1) x.1 :=
    .inr ⟨correcting 2, item, asFact, fixed.1, fixed.2, hid ▸ hitem, of_mem_toOption hfixed, rfl⟩
  exact ⟨_, y.1, .commit hsaved hcorrected (of_mem_toOption hy), 100, r, hr, hlast⟩

/-- Until then it is a note. -/
theorem hypothetical_note :
    ∃ es t, Reached (fun w t => (∀ op ∈ w.ops, op.KeepsModality) ∧ w.KeepsNotes t)
      (Tables.initial 0) es t ∧
      ∃ r, t.getItem 100 = some r ∧ r.modality = .hypothetical ∧ r.kind = .note ∧
        r.inCore = false := by
  have hran : ∃ w ∈ (mayMove.writer (Tables.initial 0).toMemoryTables).toOption,
      (∀ op ∈ w.ops, op.body.isCreate = true) ∧ ∃ x ∈ (w.commit (Tables.initial 0)).toOption,
        ∃ r ∈ x.1.getItem 100, r.modality = .hypothetical := by
    decide +kernel
  obtain ⟨w, -, hcreates, x, hx, r, hr, hmodality⟩ := hran
  have hbody : ∀ op ∈ w.ops, ∀ itemId changes, op.body ≠ .updateItem itemId changes := by
    intro op hop itemId changes hbody
    have hcreate := hcreates op hop
    rw [hbody] at hcreate
    exact nomatch hcreate
  obtain ⟨es, hreached⟩ : ∃ es, Reached
      (fun w t => (∀ op ∈ w.ops, op.KeepsModality) ∧ w.KeepsNotes t) (Tables.initial 0) es x.1 := by
    refine ⟨_, .commit .start ⟨fun op hop itemId changes h => absurd h (hbody op hop itemId changes),
      .inr ?_⟩ (of_mem_toOption hx)⟩
    exact Writer.everyApplied_of_mem fun op hop t itemId changes _ h =>
      absurd h (hbody op hop itemId changes)
  exact ⟨es, x.1, hreached, r, hr, hmodality, hypotheticals_stay_notes hreached hr hmodality⟩

end SecondMind
