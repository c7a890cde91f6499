import SecondMind.Memory.Runs

/-!
# The history of an item

A commit writes a version for every item row that one of its allowed log rows left.  The history
of an item is what these writes come to over a run.

* `itemImage` — the snapshot of an item that a row write leaves;
* `Wrote.getItem_eq` — an item is, access counters apart, the last snapshot that was left of it;
* `Tables.Complete` — every history is numbered from one on and ends at the item as it is stored;
* `reached_complete` — every store of a run is complete, and its items are in states of their
  kinds.
-/

namespace SecondMind

open Keyed

/-- The snapshot that a row write leaves of an item. -/
def itemImage (id : Uuid) : RowChange → Option ItemRecord
  | ⟨.item, changed, _, after⟩ => if changed = id then after else none
  | _ => none

/-- The snapshots that row writes leave of an item, in their order. -/
def itemImages (id : Uuid) (cs : List RowChange) : List ItemRecord := cs.filterMap (itemImage id)

/-! ## What is stored of an item -/

section

variable {b : Backend} {turn : Uuid} {t t' : Tables}

/-- An item that was put in is found under its id, and no other item changes. -/
theorem getItem_put (t : Tables) (r : ItemRecord) (id : Uuid) :
    { t with items := t.items.put r }.getItem id = if r.id = id then some r else t.getItem id := by
  rw [MemoryTables.getItem, KeyTable.lookup_put]
  by_cases h : r.id = id
  · rw [if_pos h, if_pos h.symm]
  · rw [if_neg h, if_neg fun h' => h h'.symm]
    rfl

/-- One row write leaves the snapshot it logs, or the item as it was. -/
theorem RowStep.getItem_eq {c : RowChange} (h : RowStep b turn t c t') (id : Uuid) :
    (t'.getItem id).map ItemRecord.eraseAccess =
      ((itemImage id c).or (t.getItem id)).map ItemRecord.eraseAccess := by
  cases h with
  | @newItem r =>
    rw [getItem_put, itemImage]
    by_cases hid : r.id = id
    · rw [if_pos hid, if_pos hid, Option.some_or]
    · rw [if_neg hid, if_neg hid, Option.none_or]
  | @editItem before after _ sameId =>
    rw [getItem_put, id_keepAccess, sameId, itemImage]
    by_cases hid : before.id = id
    · rw [if_pos hid, if_pos hid, Option.some_or, Option.map_some, Option.map_some,
        eraseAccess_keepAccess]
    · rw [if_neg hid, if_neg hid, Option.none_or]
  | editTrigger stored stamp written =>
    unfold Tables.replaceTrigger at written
    split at written
    · cases written
      rfl
    · obtain ⟨-, rfl⟩ := Tables.statement_eq_ok.1 written
      rfl
  | _ => rfl

/-- **The item is the last snapshot** that was left of it, if one was. -/
theorem Wrote.getItem_eq {cs : List RowChange} (h : Wrote b turn t cs t') (id : Uuid) :
    (t'.getItem id).map ItemRecord.eraseAccess =
      (((itemImages id cs).getLast?).or (t.getItem id)).map ItemRecord.eraseAccess := by
  induction h with
  | refl => rfl
  | quiet _ q ih =>
    rw [← ih]
    unfold MemoryTables.getItem
    rw [q.memory]
  | @row t₁ t₂ cs c _ step ih =>
    rw [step.getItem_eq, itemImages, List.filterMap_append]
    cases hc : itemImage id c with
    | none =>
      rw [List.filterMap_cons_none hc, List.filterMap_nil, List.append_nil, Option.none_or]
      exact ih
    | some r =>
      rw [List.filterMap_cons_some hc, List.filterMap_nil, List.getLast?_concat, Option.some_or,
        Option.some_or]

/-- The access counters say nothing of the state. -/
theorem validState_of_eraseAccess {x y : ItemRecord} (h : x.eraseAccess = y.eraseAccess) :
    validState x.kind x.state = validState y.kind y.state := by
  have hkind : x.eraseAccess.kind = y.eraseAccess.kind := by rw [h]
  have hstate : x.eraseAccess.state = y.eraseAccess.state := by rw [h]
  exact congrArg₂ validState hkind hstate

/-- A row write stores no item in a state that is none of its kind's. -/
theorem RowStep.state_valid {c : RowChange} (h : RowStep b turn t c t')
    (hstate : ∀ id r, t.getItem id = some r → validState r.kind r.state = true) {id : Uuid}
    {r : ItemRecord} (hr : t'.getItem id = some r) : validState r.kind r.state = true := by
  have hstored := h.getItem_eq id
  rw [hr, Option.map_some] at hstored
  cases himage : itemImage id c with
  | none =>
    rw [himage, Option.none_or] at hstored
    obtain ⟨old, hold, herase⟩ := Option.map_eq_some_iff.1 hstored.symm
    rw [← validState_of_eraseAccess herase]
    exact hstate id old hold
  | some new =>
    rw [himage, Option.some_or, Option.map_some, Option.some.injEq] at hstored
    rw [validState_of_eraseAccess hstored]
    cases h with
    | newItem free made stamp valid =>
      rw [itemImage] at himage
      split at himage
      · cases himage
        exact valid
      · cases himage
    | editItem stored sameId sameTime made stamp valid =>
      rw [itemImage] at himage
      split at himage
      · cases himage
        exact valid
      · cases himage
    | _ => cases himage

theorem Wrote.state_valid {cs : List RowChange} (h : Wrote b turn t cs t')
    (hstate : ∀ id r, t.getItem id = some r → validState r.kind r.state = true) :
    ∀ id r, t'.getItem id = some r → validState r.kind r.state = true := by
  induction h with
  | refl => exact hstate
  | quiet _ q ih =>
    intro id r hr
    unfold MemoryTables.getItem at hr
    rw [q.memory] at hr
    exact ih id r hr
  | row _ step ih => exact fun id r hr => step.state_valid ih hr

end

/-! ## What is written of its history -/

namespace Tables

/-- The versions of an item, the oldest first. -/
def history (t : Tables) (id : Uuid) : List VersionRecord := t.versions.filter (·.itemId = id)

/-- The versions of an item are numbered from one on. -/
def Numbered (t : Tables) (id : Uuid) : Prop :=
  (t.history id).map (·.version) = List.range' 1 (t.history id).length

theorem foldl_max_range' (k n m : Nat) (h : m ≤ k) :
    (List.range' (k + 1) n).foldl max m = if n = 0 then m else k + n := by
  induction n generalizing k m with
  | zero => rfl
  | succ n ih =>
    rw [List.range'_succ, List.foldl_cons, ih (k + 1) (max m (k + 1)) (by omega)]
    by_cases hn : n = 0
    · subst hn
      rw [if_pos rfl, if_neg (Nat.succ_ne_zero 0)]
      omega
    · rw [if_neg hn, if_neg (Nat.succ_ne_zero n)]
      omega

/-- Both stores give the next version the number that follows. -/
theorem nextVersion_eq {t : Tables} {id : Uuid} (h : t.Numbered id) (b : Backend) :
    t.nextVersion b id = (t.history id).length + 1 := by
  unfold nextVersion
  cases b with
  | sql =>
    show ((t.history id).map (·.version)).foldl max 0 + 1 = _
    rw [h, foldl_max_range' 0 _ 0 (Nat.le_refl 0)]
    by_cases hn : (t.history id).length = 0
    · rw [if_pos hn, hn]
    · rw [if_neg hn, Nat.zero_add]
  | inMemory => exact Nat.add_comm 1 _

end Tables

namespace Writer

variable {w : Writer}

/-- A log row writes a version when it left a snapshot of an item and was allowed. -/
theorem writeVersions_cons (t : Tables) (row : WriteLogRecord) (rows : List WriteLogRecord) :
    (∃ itemId snapshot, row.decision = .allowed ∧
      (∀ id, itemImage id row.change = if itemId = id then some snapshot else none) ∧
      w.writeVersions t (row :: rows) = w.writeVersions (t.insertVersion
        ⟨itemId, w.turn.turnId, t.nextVersion w.backend itemId, snapshot⟩) rows) ∨
    ((row.decision = .allowed → ∀ id, itemImage id row.change = none) ∧
      w.writeVersions t (row :: rows) = w.writeVersions t rows) := by
  rw [writeVersions, List.foldl_cons]
  split
  · exact .inl ⟨_, _, rfl, fun _ => rfl, rfl⟩
  · rename_i hnone
    refine .inr ⟨fun hallowed id => ?_, rfl⟩
    obtain ⟨turnId, seq, op, targetType, targetId, layer, title, before, after, rationale, trust,
      decision, ruleId, reason⟩ := row
    cases hallowed
    cases targetType with
    | item =>
      cases after with
      | none => exact ite_self none
      | some snapshot => exact (hnone _ _ _ _ _ _ _ _ _ _ _ _ rfl).elim
    | _ => rfl

/-- **The versions a commit writes**: to the history of each item the snapshots that its allowed
rows left, under the numbers that follow. -/
theorem writeVersions_history {rows : List WriteLogRecord} :
    ∀ {t : Tables}, (∀ id, t.Numbered id) → ∀ id,
      ((w.writeVersions t rows).history id).map (·.snapshot) =
        (t.history id).map (·.snapshot) ++ itemImages id (allowedChanges rows) ∧
      (w.writeVersions t rows).Numbered id := by
  induction rows with
  | nil =>
    intro t hnum id
    exact ⟨(List.append_nil _).symm, hnum id⟩
  | cons row rows ih =>
    intro t hnum id
    have hchanges : itemImages id (allowedChanges (row :: rows)) =
        (if row.decision = .allowed then (itemImage id row.change).toList else []) ++
          itemImages id (allowedChanges rows) := by
      unfold allowedChanges itemImages
      by_cases hallowed : row.decision = .allowed
      · rw [List.filter_cons_of_pos (by simpa using hallowed), List.map_cons, if_pos hallowed]
        cases himage : itemImage id row.change with
        | none => rw [List.filterMap_cons_none himage, Option.toList_none, List.nil_append]
        | some r => rw [List.filterMap_cons_some himage, Option.toList_some, List.singleton_append]
      · rw [List.filter_cons_of_neg (by simpa using hallowed), if_neg hallowed, List.nil_append]
    rcases w.writeVersions_cons t row rows with ⟨itemId, snapshot, hallowed, himage, hrow⟩ |
      ⟨hnone, hrow⟩
    · set v : VersionRecord :=
        ⟨itemId, w.turn.turnId, t.nextVersion w.backend itemId, snapshot⟩ with hv
      have hhistory : ∀ id, (t.insertVersion v).history id =
          t.history id ++ if itemId = id then [v] else [] := by
        intro id
        show (t.versions ++ [v]).filter _ = _
        rw [List.filter_append]
        by_cases hid : itemId = id
        · rw [if_pos hid, List.filter_cons_of_pos (by simpa using hid)]
          rfl
        · rw [if_neg hid, List.filter_cons_of_neg (by simpa using hid)]
          rfl
      have hnum' : ∀ id, (t.insertVersion v).Numbered id := by
        intro id
        unfold Tables.Numbered
        rw [hhistory]
        by_cases hid : itemId = id
        · subst hid
          rw [if_pos rfl, List.map_append, hnum, List.length_append, List.length_singleton,
            List.range'_concat, List.map_singleton, hv, Tables.nextVersion_eq (hnum itemId),
            Nat.one_mul, Nat.add_comm 1]
        · rw [if_neg hid, List.append_nil]
          exact hnum id
      obtain ⟨hsnapshots, hnumbered⟩ := ih hnum' id
      rw [hrow]
      refine ⟨?_, hnumbered⟩
      rw [hsnapshots, hhistory, hchanges, if_pos hallowed, himage, List.map_append,
        List.append_assoc]
      by_cases hid : itemId = id
      · rw [if_pos hid, if_pos hid, hv]
        rfl
      · rw [if_neg hid, if_neg hid]
        rfl
    · obtain ⟨hsnapshots, hnumbered⟩ := ih hnum id
      rw [hrow]
      refine ⟨?_, hnumbered⟩
      rw [hsnapshots, hchanges]
      by_cases hallowed : row.decision = .allowed
      · rw [if_pos hallowed, hnone hallowed, Option.toList_none, List.nil_append]
      · rw [if_neg hallowed, List.nil_append]

end Writer

/-! ## Whole runs -/

/-- Every item is in a state of its kind, every history is numbered from one on, and its last
version is the item as it is stored, access counters apart. -/
structure Tables.Complete (t : Tables) : Prop where
  state : ∀ id r, t.getItem id = some r → validState r.kind r.state = true
  numbered : ∀ id, t.Numbered id
  latest : ∀ id, (t.history id).getLast?.map (·.snapshot.eraseAccess) =
    (t.getItem id).map ItemRecord.eraseAccess

theorem versions_recordAccess (t : Tables) (at_ : Instant) (ids : List Uuid) :
    (t.recordAccess at_ ids).versions = t.versions := by
  unfold Tables.recordAccess
  induction ids generalizing t with
  | nil => rfl
  | cons id ids ih =>
    rw [List.foldl_cons, ih]
    split <;> rfl

namespace Tables.Complete

theorem initial (me : Uuid) : (Tables.initial me).Complete where
  state id r hr := by
    rw [MemoryTables.getItem, Tables.initial, KeyTable.lookup_empty] at hr
    cases hr
  numbered _ := rfl
  latest id := by
    rw [MemoryTables.getItem, Tables.initial, KeyTable.lookup_empty]
    rfl

/-- What keeps the versions, and the items but for their access counters, keeps it all. -/
theorem of_sameMemory {t t' : Tables} (h : t.Complete) (hsame : SameMemory t t')
    (hversions : t'.versions = t.versions) : t'.Complete := by
  have hhistory : ∀ id, t'.history id = t.history id := fun id => by
    rw [Tables.history, hversions, Tables.history]
  refine ⟨fun id r hr => ?_, fun id => ?_, fun id => ?_⟩
  · have hitem := hsame.items id
    rw [hr, Option.map_some] at hitem
    obtain ⟨old, hold, herase⟩ := Option.map_eq_some_iff.1 hitem.symm
    rw [← validState_of_eraseAccess herase]
    exact h.state id old hold
  · unfold Tables.Numbered
    rw [hhistory]
    exact h.numbered id
  · rw [hhistory, hsame.items]
    exact h.latest id

/-- **A commit** leaves the history of every item complete. -/
theorem commit {w : Writer} {t t' : Tables} {res : CommitResult} (h : t.Complete)
    (done : w.commit t = .ok (t', res)) : t'.Complete := by
  have hspec := Writer.commit_spec done
  obtain ⟨p, hp⟩ := Writer.commit_parts done
  have hwrote := hspec.wrote
  rw [hp.rows] at hwrote
  obtain ⟨p', hp', done⟩ := bind_eq_ok.1 done
  obtain ⟨t₁, ht₁, done⟩ := bind_eq_ok.1 done
  cases done
  obtain rfl : p = p' := Except.ok.inj (hp.batch.symm.trans hp')
  have hsame : ∀ id, t₁.history id = t.history id := by
    intro id
    unfold Tables.history
    rw [Writer.foldlM_insertHeldWrite ht₁]
    show p.tables.versions.filter _ = _
    obtain ⟨vocab, hvocab⟩ := w.writeVocab_eq t
    rw [(Writer.applyAll_follows hp').versions, hvocab]
  have hnum : ∀ id, t₁.Numbered id := fun id => by
    unfold Tables.Numbered
    rw [hsame]
    exact h.numbered id
  refine ⟨hwrote.state_valid h.state, fun id => (Writer.writeVersions_history hnum id).2,
    fun id => ?_⟩
  have hsnapshots : ((w.writeVersions t₁ p.rows).history id).map (·.snapshot) = _ :=
    (Writer.writeVersions_history hnum id).1
  have hlast : ∀ l : List VersionRecord, l.getLast?.map (·.snapshot.eraseAccess) =
      (l.map (·.snapshot)).getLast?.map ItemRecord.eraseAccess := fun l => by
    rw [List.getLast?_map, Option.map_map]
    rfl
  have hbefore := h.latest id
  rw [hlast] at hbefore ⊢
  -- the last snapshot is the last of this commit, or else the last there was
  calc _ = ((itemImages id (allowedChanges p.rows)).getLast?.or
        ((t.history id).map (·.snapshot)).getLast?).map ItemRecord.eraseAccess := by
        rw [← hsame, ← List.getLast?_append, ← hsnapshots]
        rfl
    _ = ((itemImages id (allowedChanges p.rows)).getLast?.or (t.getItem id)).map
        ItemRecord.eraseAccess := by rw [Option.map_or, hbefore, ← Option.map_or]
    _ = _ := (hwrote.getItem_eq id).symm

end Tables.Complete

/-- **The history of every stored item** is complete, in every store that commits, refused or
applied, of whatever ops come to. -/
theorem reached_complete {me : Uuid} {es : List Event} {t : Tables}
    (h : Reached (fun _ _ => True) (Tables.initial me) es t) {id : Uuid} {r : ItemRecord}
    (stored : t.getItem id = some r) :
    validState r.kind r.state = true ∧
      (t.history id).map (·.version) = List.range' 1 (t.history id).length ∧
      ∃ v, (t.history id).getLast? = some v ∧ v.snapshot.eraseAccess = r.eraseAccess := by
  have hcomplete : t.Complete := by
    clear stored
    induction h with
    | start => exact .initial me
    | commit _ _ done ih => exact ih.commit done
    | access _ at_ ids ih =>
      exact ih.of_sameMemory (sameMemory_recordAccess _ at_ ids) (versions_recordAccess _ at_ ids)
    | resolve _ id status turnId at_ ih =>
      refine ih.of_sameMemory (sameMemory_resolveHeldWrite _ id status turnId at_) ?_
      unfold Tables.resolveHeldWrite
      split <;> rfl
  have hlatest := hcomplete.latest id
  rw [stored, Option.map_some] at hlatest
  obtain ⟨v, hv, herase⟩ := Option.map_eq_some_iff.1 hlatest
  exact ⟨hcomplete.state id r stored, hcomplete.numbered id, v, hv, herase⟩

/-- A turn with one op. -/
def oneOp (turnId : Uuid) (op : Op) : Writer :=
  { backend := .sql, turn := { turnId := turnId, now := turnId }, ops := [op] }

/-- A note, and later its title. -/
def takesNote : Writer :=
  oneOp 5 { body := .createItem 1 { kind := .note, state := "current", text := "milk", title := "milk"
                                    mentionedAt := 5 } [] [] none none }

def namesNote : Writer := oneOp 6 { body := .updateItem 1 { title := some "shopping" } }

/-- The tables a commit comes to; those it began on, if it fails. -/
def Writer.leaves (w : Writer) (t : Tables) : Tables := ((w.commit t).toOption.map (·.1)).getD t

theorem named_note_history :
    let t := namesNote.leaves (takesNote.leaves (Tables.initial 0))
    ∃ r, t.getItem 1 = some r ∧ (t.history 1).length = 2 ∧ validState r.kind r.state = true ∧
      (t.history 1).map (·.version) = List.range' 1 (t.history 1).length ∧
      ∃ v, (t.history 1).getLast? = some v ∧ v.snapshot.eraseAccess = r.eraseAccess := by
  have h₁ : takesNote.commit (Tables.initial 0) = .ok (takesNote.leaves (Tables.initial 0), _) := rfl
  have h₂ : namesNote.commit (takesNote.leaves (Tables.initial 0)) =
      .ok (namesNote.leaves (takesNote.leaves (Tables.initial 0)), _) := rfl
  exact ⟨_, rfl, rfl, reached_complete ((Reached.start.commit trivial h₁).commit trivial h₂) rfl⟩

end SecondMind
