import SecondMind.Memory.Failures

/-!
# What is left of an op that was not applied

A batch refuses an op or skips it, and then goes on to the next.  Only one branch of the appliers
writes before it looks whether it has to skip: a create looks its category up, and makes it where it
is new, before it finds that the item is there.

* `Handles` — one turn of the loop, somewhere in a batch;
* `Tables.Repeats` — a create of a stored item under a category that is not;
* `leavesNoTrace_iff` — a batch leaves nothing of what it did not apply exactly when it allows no
  such create;
* `repeated_create_leaves_category` — the category of an item that was there already.
-/

namespace SecondMind

open Keyed

/-- The last op that the batch came to was refused or skipped. -/
def Writer.Progress.LeftOut (p : Writer.Progress) : Prop :=
  ∃ o ∈ p.outcomes.getLast?, o.verdict.decision ≠ .allowed

/-- A create of an item that is there, under a category that is not. -/
def Tables.Repeats (t : Tables) : OpBody → Prop
  | .createItem itemId _ _ _ slug _ =>
    (t.getItem itemId).isSome ∧ slug.getD "" ≠ "" ∧ t.categories.lookup (slug.getD "") = none
  | _ => False

/-- Looking up a category makes it where it is new, and else changes nothing. -/
theorem Tables.upsertCategory_eq_self {t : Tables} {r : CategoryRecord} :
    (t.upsertCategory r).1 = t ↔ t.categories.lookup r.slug ≠ none := by
  unfold upsertCategory
  split
  · rename_i stored hstored
    simp [hstored]
  · rename_i hnone
    refine ⟨fun h => ?_, fun h => absurd hnone h⟩
    have hcategories : t.categories.put r = t.categories := congrArg Tables.categories h
    have hput := KeyTable.lookup_put_self t.categories r
    rw [hcategories, hnone] at hput
    exact (nomatch hput)

namespace Writer

variable (w : Writer)

/-- The batch on `t` comes to `op`, its op at position `i`, at `p` and goes on from `p'`. -/
structure Handles (t : Tables) (i : Nat) (p : Progress) (op : Op) (p' : Progress) : Prop where
  single : w.heldWhole = false
  reached : ∃ ops ops', w.ops = ops ++ op :: ops' ∧ ops.length = i ∧
    w.steps (w.seqBase t) 0 { tables := w.writeVocab t } ops = .ok p
  step : w.step (w.seqBase t) i p op = .ok p'

/-- **No trace**: what is refused or skipped has left every table as it was, in a batch that is held
whole and at every op of one that is not. -/
structure LeavesNoTrace (t : Tables) : Prop where
  whole : w.heldWhole = true →
    ∀ p, w.applyAll (w.seqBase t) (w.writeVocab t) = .ok p → p.tables = w.writeVocab t
  single : ∀ i p op p', w.Handles t i p op p' → p'.LeftOut → p'.tables = p.tables

variable {w}

theorem holdEverything_tables {sb : Nat} {t : Tables} {p : Progress} (hwhole : w.heldWhole = true)
    (h : w.applyAll sb t = .ok p) : p.tables = t := by
  rw [applyAll, if_pos hwhole] at h
  cases h
  rfl

theorem category_eq_self {t : Tables} {i : Nat} {item : ItemContent} {slug name : Option String} :
    (w.category t i item slug name).1 = t ↔
      slug.getD "" = "" ∨ t.categories.lookup (slug.getD "") ≠ none := by
  unfold category
  split
  · rename_i hslug
    simp [hslug]
  · rename_i hslug
    rw [or_iff_right hslug]
    exact Tables.upsertCategory_eq_self

/-- **What is skipped** is as it was, unless it is a create that repeats. -/
theorem skip_eq_self {t t' : Tables} {i : Nat} {log : RowLog} {body : OpBody} {reason : String}
    (h : w.apply t i log body = .error (.skip t' reason)) : t' = t ↔ ¬ t.Repeats body := by
  cases hbody : body.isCreate with
  | false =>
    refine iff_of_true (apply_skip_eq hbody h) fun hrepeats => ?_
    cases body <;> first | exact hrepeats | exact absurd hbody Bool.noConfusion
  | true =>
    cases body with
    | createItem itemId item entities triggers slug name =>
      obtain ⟨rfl, hstored⟩ := createItem_skip_eq h
      rw [category_eq_self, Tables.Repeats, and_iff_right hstored, not_and_or, Decidable.not_not]
    | _ => exact absurd hbody Bool.noConfusion

/-- A create that is applied is not of a stored item. -/
theorem not_repeats_of_apply {t t' : Tables} {i : Nat} {log log' : RowLog} {body : OpBody}
    (h : w.apply t i log body = .ok (t', log')) : ¬ t.Repeats body := by
  intro hrepeats
  cases body with
  | createItem itemId item entities triggers slug name =>
    obtain ⟨record, -, hnone, -⟩ := createItem_frame h
    obtain ⟨hstored, -⟩ := hrepeats
    rw [hnone] at hstored
    exact absurd hstored Bool.noConfusion
  | _ => exact hrepeats

theorem leftOut_append {o : OpOutcome} {os : List OpOutcome} {t : Tables} {n : Nat}
    {held : List HeldWriteRecord} :
    Progress.LeftOut ⟨t, n, os ++ [o], held⟩ ↔ o.verdict.decision ≠ .allowed := by
  simp [Progress.LeftOut]

/-- **One turn of the loop** leaves a trace of what it did not apply exactly where it allows a
create that repeats. -/
theorem step_leavesTrace_iff {sb i : Nat} {p p' : Progress} {op : Op}
    (h : w.step sb i p op = .ok p') :
    (p'.LeftOut → p'.tables = p.tables) ↔ (w.Allows p.tables op → ¬ p.tables.Repeats op.body) := by
  rcases step_cases h with ⟨v, hv, hrefused, rfl⟩ | ⟨v, t, reason, hv, hallowed, hskip, rfl⟩ |
    ⟨v, t, log, hv, hallowed, happlied, rfl⟩
  · refine iff_of_true (fun _ => w.refuse_tables sb i p op v) fun hallows => ?_
    obtain ⟨v', hv', hallowed⟩ := hallows
    rw [hv] at hv'
    cases hv'
    exact absurd hallowed hrefused
  · have hallows : w.Allows p.tables op := ⟨v, hv, hallowed⟩
    have hleft : (notApplicable reason).decision ≠ .allowed := by simp [notApplicable]
    rw [leftOut_append, forall_prop_of_true hleft, forall_prop_of_true hallows]
    exact skip_eq_self hskip
  · rw [leftOut_append]
    exact iff_of_true (fun hleft => absurd hallowed hleft) fun _ => not_repeats_of_apply happlied

/-- **A batch leaves nothing** of what it refused or skipped exactly when it allows no create of a
stored item under a new category. -/
theorem leavesNoTrace_iff (w : Writer) (t : Tables) :
    w.LeavesNoTrace t ↔
      ∀ i p op p', w.Handles t i p op p' → w.Allows p.tables op → ¬ p.tables.Repeats op.body := by
  constructor
  · intro h i p op p' hhandles
    exact (step_leavesTrace_iff hhandles.step).1 (h.single i p op p' hhandles)
  · intro h
    refine ⟨fun hwhole p hp => holdEverything_tables hwhole hp, fun i p op p' hhandles => ?_⟩
    exact (step_leavesTrace_iff hhandles.step).2 (h i p op p' hhandles)

end Writer

/-! ### A category without an item -/

/-- A note, filed under a slug or not at all. -/
def noteUnder (slug : Option String) : Op :=
  { body := .createItem 1 { kind := .note, state := "current", text := "milk", title := "milk"
                            mentionedAt := 5 } [] [] slug none }

/-- The same note twice, the second time filed under a new category. -/
def repeatsNote : Writer :=
  { backend := .sql, turn := { turnId := 5, now := 5 }, ops := [noteUnder none, noteUnder "home"] }

/-- The second op is skipped, and its category stays. -/
theorem repeated_create_leaves_category : ¬ repeatsNote.LeavesNoTrace (Tables.initial 0) := by
  intro h
  have hsame := h.single 1 _ _ _ ⟨rfl, ⟨[noteUnder none], [], rfl, rfl, rfl⟩, rfl⟩
    ⟨_, rfl, by decide⟩
  have hcategories := congrArg (fun t => t.categories.lookup "home") hsame
  exact absurd hcategories (by decide)

end SecondMind
