import SecondMind.Memory.TakenBack

/-!
# Undo and redo across a run

A turn commits, other turns follow, and then it is undone in full.

* `UndoneTurn` — such a stretch of a run;
* `UndoneTurn.reverts` — what the turn wrote into the stamped tables is back as it was, and
  nothing else of them has changed;
* `undo_reverts` — the same, read off the contents of the rows;
* `redo_restores` — the undo of the undo gives back what the undo had taken.
-/

namespace SecondMind

open Keyed

/-! ## The log of a turn -/

/-- A log that is numbered in its order is in the order of its numbers. -/
theorem insertionSort_numbered {rows : List WriteLogRecord} {n k : Nat}
    (h : rows.map (·.seq) = List.range' n k) :
    rows.insertionSort (fun r r' => r.seq ≤ r'.seq) = rows := by
  refine List.Pairwise.insertionSort_eq ?_
  have hsorted : (rows.map (·.seq)).Pairwise (· ≤ ·) := by
    rw [h]
    exact List.pairwise_le_range'
  exact List.pairwise_map.1 hsorted

/-- The log of a turn that has just made its first commit. -/
theorem wroteRows_commit {w : Writer} {s s' : Tables} {res : CommitResult}
    (h : w.commit s = .ok (s', res)) (hfirst : ∀ row ∈ s.writeLog, row.turnId ≠ w.turn.turnId) :
    wroteRows s' w.turn.turnId = res.rows.filter (·.decision = .allowed) := by
  have hspec := Writer.commit_spec h
  have hold : s.writeLog.filter (·.turnId = w.turn.turnId) = [] := by
    rw [List.filter_eq_nil_iff]
    intro row hr
    simpa using hfirst row hr
  have hown : res.rows.filter (·.turnId = w.turn.turnId) = res.rows := by
    rw [List.filter_eq_self]
    intro row hr
    simpa using hspec.own row hr
  rw [wroteRows, Tables.writeLogOf, hspec.writeLog, List.filter_append, hold, hown, List.nil_append,
    insertionSort_numbered hspec.numbered]

/-- The commits of other turns leave the log of a turn as it is. -/
theorem Reached.wroteRows {admits : Writer → Tables → Prop} {t₀ t : Tables} {es : List Event}
    {turnId : Uuid} (h : Reached admits t₀ es t) (hother : ∀ e ∈ es, e.turnId ≠ turnId) :
    wroteRows t turnId = wroteRows t₀ turnId := by
  induction h with
  | start => rfl
  | @commit es w t t' res _ _ done ih =>
    have hspec := Writer.commit_spec done
    have hnone : res.rows.filter (·.turnId = turnId) = [] := by
      rw [List.filter_eq_nil_iff]
      intro row hr
      have hturn := hother _ List.mem_cons_self
      simpa [hspec.own row hr] using hturn
    rw [← ih fun e he => hother e (List.mem_cons_of_mem _ he), SecondMind.wroteRows,
      SecondMind.wroteRows, Tables.writeLogOf, Tables.writeLogOf, hspec.writeLog,
      List.filter_append, hnone, List.append_nil]
  | access _ at_ ids ih =>
    rw [← ih hother, SecondMind.wroteRows, SecondMind.wroteRows, Tables.writeLogOf,
      Tables.writeLogOf, (sameMemory_recordAccess _ at_ ids).writeLog]
  | resolve _ id status resolved at_ ih =>
    rw [← ih hother, SecondMind.wroteRows, SecondMind.wroteRows, Tables.writeLogOf,
      Tables.writeLogOf, (sameMemory_resolveHeldWrite _ id status resolved at_).writeLog]

/-- A row that no commit of a run changed is as it was. -/
theorem Reached.unchanged {admits : Writer → Tables → Prop} {t₀ t : Tables} {es : List Event}
    {key : TargetType × Uuid} (h : Reached admits t₀ es t) (hnone : ∀ e ∈ es, ¬ e.Changed key) :
    t.db.at key.1 key.2 = t₀.db.at key.1 key.2 := by
  induction h with
  | start => rfl
  | commit _ _ done ih =>
    rw [← ih fun e he => hnone e (List.mem_cons_of_mem _ he)]
    exact Classical.not_not.1 (hnone _ List.mem_cons_self)
  | access _ at_ ids ih => rw [(sameMemory_recordAccess _ at_ ids).db, ih hnone]
  | resolve _ id status turnId at_ ih =>
    rw [(sameMemory_resolveHeldWrite _ id status turnId at_).db, ih hnone]

/-- **A row that is in no conflict** has not been changed by a later turn. -/
theorem Reached.unconflicted {admits : Writer → Tables → Prop} {t₀ t : Tables} {es : List Event}
    {key : TargetType × Uuid} {turnId : Uuid} (h : Reached admits t₀ es t)
    (hother : ∀ e ∈ es, e.turnId ≠ turnId) (ha : key.1.stamped = true)
    (hfree : conflict t.toMemoryTables turnId key = none) :
    t.db.at key.1 key.2 = t₀.db.at key.1 key.2 := by
  by_cases hnone : ∀ e ∈ es, ¬ e.Changed key
  · exact h.unchanged hnone
  · obtain ⟨newer, e, older, hes, hchanged, hlast⟩ := exists_last_change (by simpa using hnone)
    obtain ⟨r, hat, hstamp⟩ := h.stamp_last hes hlast hchanged ha
    have hturn : e.turnId ≠ turnId := hother e (by simp [hes])
    obtain ⟨reason, hreason⟩ := (conflict_iff hat hstamp).2 (.inl hturn)
    rw [hfree] at hreason
    cases hreason

/-! ## What a commit logs -/

/-- Every row write of a run is a step. -/
theorem Wrote.step_of_mem {b : Backend} {turn : Uuid} {t t' : Tables} {cs : List RowChange}
    (h : Wrote b turn t cs t') {c : RowChange} (hc : c ∈ cs) : ∃ u u', RowStep b turn u c u' := by
  induction h with
  | refl => cases hc
  | quiet _ _ ih => exact ih hc
  | row _ step ih =>
    rcases List.mem_append.1 hc with hc | hc
    · exact ih hc
    · rw [List.mem_singleton.1 hc]
      exact ⟨_, _, step⟩

/-- A row of a stamped table is never taken out. -/
theorem RowStep.isSome_after {b : Backend} {turn : Uuid} {t t' : Tables} {c : RowChange}
    (h : RowStep b turn t c t') (hc : c.table.stamped = true) : c.after.isSome = true := by
  cases h with
  | newItem => rfl
  | editItem => rfl
  | newEntity => rfl
  | editEntity => rfl
  | newTrigger => rfl
  | editTrigger => rfl
  | newItemEntity => cases hc
  | dropItemEntity => cases hc
  | newLink => cases hc
  | dropLink => cases hc
  | newRelation => cases hc
  | dropRelation => cases hc

namespace Writer

variable {w : Writer}

/-- The log of an orderly commit tells what it did. -/
theorem orderly_told {t t' : Tables} {res : CommitResult} (h : w.commit t = .ok (t', res))
    (horderly : w.OrderlyBatch t) :
    Told t.toMemoryTables (allowedChanges res.rows) t'.toMemoryTables := by
  obtain ⟨p, hp⟩ := commit_parts h
  have hbatch := hp.batch
  rw [hp.rows, hp.memory]
  unfold applyAll at hbatch
  split at hbatch
  · cases hbatch
    rw [allowedChanges_holdEverything]
    dsimp only [holdEverything]
    rw [writeVocab_memory]
    exact .refl _
  · rename_i hheld
    have hstart : Progress.Follows w (w.seqBase t) (w.writeVocab t) { tables := w.writeVocab t } :=
      ⟨.refl _, rfl, rfl, by simp [Progress.rows], rfl, rfl, rfl⟩
    have htold := (steps_told_iff hstart hbatch).2 ⟨.refl _, horderly.resolve_left hheld⟩
    rwa [Progress.Told, writeVocab_memory] at htold

end Writer

/-! ## Undo -/

/-- **A turn that is undone in full**: `w` makes the turn's commit on `s`, other turns follow up to
`t`, and `u` takes the turn back, with no row in conflict and every op applied. -/
structure UndoneTurn (planId : Nat → Uuid) (w u : Writer) (s s' t t' : Tables)
    (res res' : CommitResult) (es : List Event) : Prop where
  committed : w.commit s = .ok (s', res)
  first : ∀ row ∈ s.writeLog, row.turnId ≠ w.turn.turnId
  orderly : w.OrderlyBatch s
  alone : ∀ c ∈ allowedChanges res.rows, CrossesAlone c
  later : Reached (fun _ _ => True) s' es t
  others : ∀ e ∈ es, e.turnId ≠ w.turn.turnId
  free : conflicts t w.turn.turnId = []
  undone : undo planId u t w.turn.turnId = .ok (t', res')
  inFull : Writer.InFull res'.outcomes

/-- The turn wrote the row. -/
def Touched (t : Tables) (turnId : Uuid) (key : TargetType × Uuid) : Prop :=
  ∃ row ∈ wroteRows t turnId, row.key = key

section

variable {planId : Nat → Uuid} {w u : Writer} {s s' t t' : Tables} {res res' : CommitResult}
  {es : List Event}

namespace UndoneTurn

/-- The log an undo reads is the log of the turn's commit. -/
theorem wroteRows_eq (h : UndoneTurn planId w u s s' t t' res res' es) :
    wroteRows t w.turn.turnId = res.rows.filter (·.decision = .allowed) := by
  rw [h.later.wroteRows h.others, wroteRows_commit h.committed h.first]

theorem changes_eq (h : UndoneTurn planId w u s s' t t' res res' es) :
    (wroteRows t w.turn.turnId).map (·.change) = allowedChanges res.rows := by
  rw [h.wroteRows_eq]
  rfl

theorem mem_changes (h : UndoneTurn planId w u s s' t t' res res' es) {row : WriteLogRecord}
    (hrow : row ∈ wroteRows t w.turn.turnId) : row.change ∈ allowedChanges res.rows := by
  rw [← h.changes_eq]
  exact List.mem_map_of_mem hrow

/-- Every row of the turn's log can be taken back. -/
theorem undoable (h : UndoneTurn planId w u s s' t t' res res' es) {row : WriteLogRecord}
    (hrow : row ∈ wroteRows t w.turn.turnId) : Undoable row.change := by
  have hmem := h.mem_changes hrow
  refine ⟨fun hc => ?_, h.alone _ hmem⟩
  obtain ⟨_, _, hstep⟩ := (Writer.commit_spec h.committed).wrote.step_of_mem hmem
  exact hstep.isSome_after hc

/-- The log of the turn tells what its commit did. -/
theorem told (h : UndoneTurn planId w u s s' t t' res res' es) :
    Chained s.db ((wroteRows t w.turn.turnId).map fun row => eraseChange row.change) ∧
      replay s.db ((wroteRows t w.turn.turnId).map fun row => eraseChange row.change) = s'.db := by
  have htold := Writer.orderly_told h.committed h.orderly
  have hmap : (wroteRows t w.turn.turnId).map (fun row => eraseChange row.change) =
      (allowedChanges res.rows).map eraseChange := by
    rw [← h.changes_eq, List.map_map]
    rfl
  rw [hmap]
  exact ⟨htold.chained, htold.replayed⟩

/-- What the turn wrote is as it left it when the undo begins. -/
theorem unchanged (h : UndoneTurn planId w u s s' t t' res res' es) {a : TargetType} {i : Uuid}
    (ha : a.stamped = true) (htouched : Touched t w.turn.turnId (a, i)) :
    t.db.at a i = s'.db.at a i := by
  have hkey : (a, i).1.stamped = true := ha
  refine h.later.unconflicted h.others hkey ?_
  by_contra hconflict
  obtain ⟨reason, hreason⟩ := Option.ne_none_iff_exists'.1 hconflict
  have hmem := mem_conflicts.2 ⟨htouched, hreason⟩
  rw [h.free] at hmem
  cases hmem

theorem rewinds (h : UndoneTurn planId w u s s' t t' res res' es) :
    Rewinds ((undoWriter u (planUndo planId t w.turn.turnId) w.turn.turnId).UndoStep planId) 0
      ((wroteRows t w.turn.turnId).map fun row => eraseChange row.change) t.db t'.db :=
  undo_rewinds h.free (fun _ hrow => h.undoable hrow) h.undone h.inFull

theorem names_iff {key : TargetType × Uuid} :
    (∃ c ∈ (wroteRows t w.turn.turnId).map fun row => eraseChange row.change,
      c.Names key.1 key.2) ↔ Touched t w.turn.turnId key := by
  constructor
  · rintro ⟨c, hc, hnames⟩
    obtain ⟨row, hrow, rfl⟩ := List.mem_map.1 hc
    exact ⟨row, hrow, Prod.ext hnames.1 hnames.2⟩
  · rintro ⟨row, hrow, rfl⟩
    exact ⟨_, List.mem_map_of_mem hrow, rfl, rfl⟩

/-- A stamped row that the turn wrote is there when the turn has ended. -/
theorem isSome_after (h : UndoneTurn planId w u s s' t t' res res' es) {a : TargetType} {i : Uuid}
    (ha : a.stamped = true) (htouched : Touched t w.turn.turnId (a, i)) :
    ∃ r, s'.db.at a i = some r := by
  rw [← Option.isSome_iff_exists, ← h.told.2]
  refine isSome_at_replay (fun c hc hnames => ?_) (names_iff.2 htouched) _
  obtain ⟨row, hrow, rfl⟩ := List.mem_map.1 hc
  have hstamped : row.targetType.stamped = true := by
    rw [show row.targetType = a from hnames.1]
    exact ha
  obtain ⟨r, hr⟩ := Option.isSome_iff_exists.1 ((h.undoable hrow).stays hstamped)
  show (row.change.after.map (eraseAccess row.change.table)).isSome = true
  rw [hr]
  rfl

/-- **The undo takes back what the turn wrote into the stamped tables**, and nothing else of
them. -/
theorem reverts (h : UndoneTurn planId w u s s' t t' res res' es) {a : TargetType} {i : Uuid}
    (ha : a.stamped = true) :
    (Touched t w.turn.turnId (a, i) → Reverted a (t'.db.at a i) (s.db.at a i)) ∧
      (¬ Touched t w.turn.turnId (a, i) → t'.db.at a i = t.db.at a i) := by
  have hw : (undoWriter u (planUndo planId t w.turn.turnId) w.turn.turnId).confirmed = false := rfl
  constructor
  · intro htouched
    obtain ⟨hchained, hreplayed⟩ := h.told
    refine h.rewinds.ends_near (fun _ _ _ _ _ hstep => hstep.takesBack hw) hchained ha ?_
    obtain ⟨r, hr⟩ := h.isSome_after ha htouched
    rw [hreplayed, h.unchanged ha htouched, hr]
    exact .of_some
  · intro hnot
    refine h.rewinds.frame (fun _ _ _ _ _ hstep => hstep.takesBack hw) ha fun c hc hnames => ?_
    exact hnot (names_iff.1 ⟨c, hc, hnames⟩)

end UndoneTurn

/-- **An undo in full restores the stamped tables.**  Whatever turns came in between: an item, an
entity or a trigger that the turn wrote has the content it had before the turn; one that the turn
made is kept and marked as gone; and one that the turn did not write is as the other turns left
it. -/
theorem undo_restores (h : UndoneTurn planId w u s s' t t' res res' es) {a : TargetType} {i : Uuid}
    (ha : a.stamped = true) :
    (Touched t w.turn.turnId (a, i) →
      (∀ r, s.db.at a i = some r → ∃ r', t'.db.at a i = some r' ∧ SameContent a r' r) ∧
        (s.db.at a i = none → ∃ r', t'.db.at a i = some r' ∧ Gone a r')) ∧
      (¬ Touched t w.turn.turnId (a, i) → t'.db.at a i = t.db.at a i) := by
  obtain ⟨hback, hframe⟩ := h.reverts (i := i) ha
  refine ⟨fun htouched => ?_, hframe⟩
  have hreverted := hback htouched
  constructor
  · intro r hr
    rwa [hr] at hreverted
  · intro hnone
    rwa [hnone] at hreverted

end

/-! ### Notes that are tidied, and put back -/

def noteNamed (id : Uuid) (title : String) : OpBody :=
  .createItem id { kind := .note, state := "current", text := title, title := title,
                   mentionedAt := 0 } [] [] none none

/-- A turn of a small workspace with several ops. -/
def turnWith (turnId : Uuid) (bodies : List OpBody) : Writer :=
  { backend := .sql, turn := { turnId := turnId, now := turnId }
    ops := bodies.map fun body => { body := body } }

def keepsNotes : Writer :=
  turnWith 60 [noteNamed 1 "trains", noteNamed 2 "boats", .linkItems 10 1 .follows 2]

/-- The order of the notes is turned round, a note is added and one gets another title. -/
def tidiesNotes : Writer :=
  turnWith 61 [.linkItems 11 2 .follows 1, .unlinkItems 10, noteNamed 3 "planes",
    .updateItem 1 { title := some "railways" }]

def addsNote : Writer := turnWith 62 [noteNamed 4 "bikes"]

def notesKept : Tables := committed keepsNotes (Tables.initial 0)

def notesTidied : Tables := committed tidiesNotes notesKept

def notesAdded : Tables := committed addsNote notesTidied

/-- The turn of an undo, with ids that no row has. -/
def undoingTurn (turnId : Uuid) : Writer :=
  { backend := .sql, turn := { turnId := turnId, kind := .undo, now := turnId } }

def unusedId (k : Nat) : Uuid := k + 1000

def untidies : Writer :=
  undoWriter (undoingTurn 63) (planUndo unusedId notesAdded 61) 61

def notesUntidied : Tables := committed untidies notesAdded

/-- What a commit tells. -/
def resultOf (w : Writer) (t : Tables) : CommitResult :=
  ((w.commit t).toOption.map (·.2)).getD {}

theorem tidied_undone :
    UndoneTurn unusedId tidiesNotes (undoingTurn 63) notesKept notesTidied notesAdded notesUntidied
      (resultOf tidiesNotes notesKept) (resultOf untidies notesAdded)
      [⟨62, notesTidied, notesAdded⟩] where
  committed := rfl
  first := by decide +kernel
  orderly := by
    refine .inr ⟨fun _ => rfl, fun p₁ _ => ⟨fun _ => trivial, fun p₂ _ => ⟨fun _ => ?_, fun p₃ _ =>
      ⟨fun _ => trivial, fun _ _ => trivial⟩⟩⟩⟩
    exact ⟨⟨List.nodup_nil, fun _ hid => absurd hid List.not_mem_nil⟩,
      List.nodup_nil, fun _ hid => absurd hid List.not_mem_nil⟩
  alone := by decide +kernel
  later := by
    have hadds : addsNote.commit notesTidied = .ok (notesAdded, _) := rfl
    exact Reached.start.commit trivial hadds
  others := by
    intro e he
    rw [List.mem_singleton.1 he]
    decide
  free := by decide +kernel
  undone := rfl
  inFull := by
    intro o ho
    revert o
    decide +kernel

theorem untidied_restores :
    (Touched notesAdded 61 (.item, 1) →
      (∀ r, notesKept.db.at .item 1 = some r →
        ∃ r', notesUntidied.db.at .item 1 = some r' ∧ SameContent .item r' r) ∧
        (notesKept.db.at .item 1 = none → ∃ r', notesUntidied.db.at .item 1 = some r' ∧
          Gone .item r')) ∧
      (¬ Touched notesAdded 61 (.item, 1) →
        notesUntidied.db.at .item 1 = notesAdded.db.at .item 1) :=
  undo_restores tidied_undone rfl

end SecondMind
