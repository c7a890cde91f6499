import SecondMind.Memory.UndoRuns

/-!
# Links, entity rows and relations across an undo

A row of these tables is only put in and taken out.  An undo takes out what the turn put in, and
puts what the turn took out in again, under an id of its own.  So the rows come back as what they
say, not as the rows they were.

* `unlabelled` — what a row says, its id and its turn aside;
* `Writer.inverse_unstamped` — what an inverse op does to such a row;
* `Writer.UndoStep.gives` — what one step of an undo gives and takes;
* `undo_balances` — over a turn and its undo, the rows of these tables balance.
-/

namespace SecondMind

open Keyed

/-- What a link, an entity row or a relation says: its id, the turn that made it and the end of
its validity, which an undo does not put back, are set aside. -/
def unlabelled : (a : TargetType) → a.Record → a.Record
  | .link, r => { r with id := 0, createdByTurnId := 0 }
  | .itemEntity, r => { r with id := 0, createdByTurnId := 0 }
  | .relation, r => { r with id := 0, createdByTurnId := 0, validTo := none }
  | _, r => r

/-- A row that is taken out of these tables was there, and a row that is put in was not. -/
theorem RowStep.none_after {b : Backend} {turn : Uuid} {t t' : Tables} {c : RowChange}
    (h : RowStep b turn t c t') (hc : c.table.stamped = false) (hb : c.before.isSome = true) :
    c.after = none := by
  cases h with
  | dropItemEntity => rfl
  | dropLink => rfl
  | dropRelation => rfl
  | newItemEntity => cases hb
  | newLink => cases hb
  | newRelation => cases hb
  | newItem => cases hc
  | editItem => cases hc
  | newEntity => cases hc
  | editEntity => cases hc
  | newTrigger => cases hc
  | editTrigger => cases hc

/-- A row of these tables can always be taken back. -/
theorem inverseBody_ne_none {newId : Uuid} {a : TargetType} {id : Uuid}
    {before after : Option a.Record} (ha : a.stamped = false) :
    inverseBody newId a id before after ≠ none := by
  cases a with
  | item => cases ha
  | entity => cases ha
  | trigger => cases ha
  | _ => exact Option.some_ne_none _

namespace Writer

variable {w : Writer}

/-- **What an inverse op does to a row that is not stamped**: it takes out the row that the turn
put in, or it puts in a row that says what the row said that the turn took out. -/
theorem inverse_unstamped {newId : Uuid} {a : TargetType} {id : Uuid}
    {before after : Option a.Record} {body : OpBody} (ha : a.stamped = false)
    (hplan : inverseBody newId a id before after = some body) {t t' : Tables} {i : Nat}
    {log log' : RowLog} (h : w.apply t i log body = .ok (t', log')) :
    (before = none ∧ (t.db.at a id).isSome = true ∧ t'.db = t.db.write a id none) ∨
      ∃ old new, before = some old ∧ unlabelled a new = unlabelled a old ∧
        (w.backend = .sql → t.db.at a newId = none) ∧ t'.db = t.db.write a newId (some new) := by
  cases a with
  | link =>
    cases before with
    | none =>
      cases hplan
      obtain ⟨old, hget, hx⟩ := unlinkItems_eq_ok.1 h
      obtain ⟨rfl, rfl⟩ := Prod.mk.inj hx
      refine .inl ⟨rfl, ?_, t.toMemoryTables.db_dropLink _⟩
      rw [MemoryTables.db_at, show (t.table .link).lookup id = some old from hget]
      rfl
    | some link =>
      cases hplan
      obtain ⟨-, -, h⟩ := linkItems_eq_ok.1 h
      obtain ⟨hfits, hx⟩ := insertLink_eq_ok.1 h
      obtain ⟨rfl, rfl⟩ := Prod.mk.inj hx
      refine .inr ⟨link, _, rfl, ?_, fun e => ?_, t.toMemoryTables.db_putLink _⟩
      · rfl
      · rw [MemoryTables.db_at, show (t.table .link).lookup newId = none from (hfits e).1]
        rfl
  | itemEntity =>
    cases before with
    | none =>
      cases hplan
      obtain ⟨old, hget, hx⟩ := detach_eq_ok.1 h
      obtain ⟨rfl, rfl⟩ := Prod.mk.inj hx
      refine .inl ⟨rfl, ?_, t.toMemoryTables.db_dropItemEntity _⟩
      rw [MemoryTables.db_at, show (t.table .itemEntity).lookup id = some old from hget]
      rfl
    | some row =>
      cases hplan
      obtain ⟨-, hfits, hx⟩ := attach_eq_ok.1 h
      obtain ⟨rfl, rfl⟩ := Prod.mk.inj hx
      refine .inr ⟨row, _, rfl, ?_, fun e => ?_, t.toMemoryTables.db_putItemEntity _⟩
      · rfl
      · rw [MemoryTables.db_at, show (t.table .itemEntity).lookup newId = none from (hfits e).1]
        rfl
  | relation =>
    cases before with
    | none =>
      cases hplan
      obtain ⟨old, hget, hx⟩ := unrelate_eq_ok.1 h
      obtain ⟨rfl, rfl⟩ := Prod.mk.inj hx
      refine .inl ⟨rfl, ?_, t.toMemoryTables.db_dropRelation _⟩
      rw [MemoryTables.db_at, show (t.table .relation).lookup id = some old from hget]
      rfl
    | some row =>
      cases hplan
      obtain ⟨hfits, hx⟩ := relate_eq_ok.1 h
      obtain ⟨rfl, rfl⟩ := Prod.mk.inj hx
      refine .inr ⟨row, _, rfl, ?_, fun e => ?_, t.toMemoryTables.db_putRelation _⟩
      · rfl
      · rw [MemoryTables.db_at, show (t.table .relation).lookup newId = none from (hfits e).1]
        rfl
  | _ => cases ha

end Writer

/-! ## New ids -/

/-- The ids that a plan makes up from the `k`-th on are free in these tables. -/
def FreshFrom (planId : Nat → Uuid) (k : Nat) (d : Db TargetType Uuid TargetType.Record) : Prop :=
  ∀ j, k ≤ j → ∀ a, a.stamped = false → d.at a (planId j) = none

theorem FreshFrom.next {planId : Nat → Uuid} {k : Nat} {d : Db TargetType Uuid TargetType.Record}
    (h : FreshFrom planId k d) : FreshFrom planId (k + 1) d := fun j hj => h j (by omega)

/-- A row of these tables is as the log says, or it is not there any more. -/
def AsLogged (a : TargetType) (now logged : Option a.Record) : Prop := now = none ∨ now = logged

/-- The keys of these tables that no plan makes up. -/
def Unstamped (planId : Nat → Uuid) (touched : TargetType × Uuid → Prop) (a : TargetType)
    (i : Uuid) : Prop :=
  a.stamped = false ∧ (∀ k, planId k ≠ i) ∧ touched (a, i)

theorem map_eraseAccess_of_unstamped {a : TargetType} (ha : a.stamped = false)
    (r : Option a.Record) : r.map (eraseAccess a) = r := by
  cases r with
  | none => rfl
  | some r =>
    cases a with
    | item => cases ha
    | entity => cases ha
    | trigger => cases ha
    | _ => rfl

namespace Writer

variable {w : Writer} {planId : Nat → Uuid} {k : Nat} {c : RowChange}
  {d d' : Db TargetType Uuid TargetType.Record}

/-- A step of an undo uses the next of the made up ids, if it needs one. -/
theorem UndoStep.fresh (hinj : planId.Injective) (h : w.UndoStep planId k c d d')
    (hfresh : FreshFrom planId k d) : FreshFrom planId (k + 1) d' := by
  intro j hj b hb
  obtain ⟨row, -, -, hstep⟩ := h
  rcases hstep with ⟨-, rfl⟩ | ⟨body, hplan, t, t', i, log, log', rfl, rfl, happly⟩
  · exact hfresh j (by omega) b hb
  · have hold := hfresh j (by omega) b hb
    by_cases ha : row.table.stamped = true
    · obtain ⟨l, r, hdb, -⟩ := inverse_db hplan happly
      rw [hdb, Db.at_write_of_ne, hold]
      rintro ⟨rfl, -⟩
      rw [hb] at ha
      cases ha
    · rcases inverse_unstamped (by simpa using ha) hplan happly with ⟨-, -, hdb⟩ |
        ⟨old, new, -, -, -, hdb⟩
      · rw [hdb]
        by_cases hn : b = row.table ∧ planId j = row.id
        · obtain ⟨rfl, hid⟩ := hn
          rw [hid, Db.at_write_self]
        · rw [Db.at_write_of_ne _ _ hn, hold]
      · rw [hdb, Db.at_write_of_ne, hold]
        rintro ⟨-, hid⟩
        have hjk := hinj hid
        omega

/-- A step of an undo leaves the other tables alone. -/
theorem UndoStep.elsewhere (h : w.UndoStep planId k c d d') {b : TargetType} (hb : b ≠ c.table) :
    d' b = d b := by
  obtain ⟨row, -, rfl, hstep⟩ := h
  rcases hstep with ⟨-, rfl⟩ | ⟨body, hplan, t, t', i, log, log', rfl, rfl, happly⟩
  · rfl
  · obtain ⟨l, r, hdb, -⟩ := inverse_db hplan happly
    rw [hdb, Db.write]
    exact Function.update_of_ne hb _ _

variable {touched : TargetType × Uuid → Prop}

/-- A step leaves the other rows of these tables alone, and takes its own back. -/
theorem UndoStep.takesOut
    (hdrops : c.table.stamped = false → c.before.isSome = true → c.after = none)
    (h : w.UndoStep planId k c d d') :
    TakesBack AsLogged (Unstamped planId touched) c d d' := by
  have hother := fun {b} => h.elsewhere (b := b)
  obtain ⟨⟨a, id, before, after⟩, -, rfl, hstep⟩ := h
  have hrows : a.stamped = false → ∃ body, inverseBody (planId k) a id before after = some body ∧
      ∃ (t t' : Tables) (i : Nat) (log log' : RowLog), t.db = d ∧ t'.db = d' ∧
        w.apply t i log body = .ok (t', log') := by
    intro ha
    rcases hstep with ⟨hplan, -⟩ | hstep
    · exact absurd hplan (inverseBody_ne_none ha)
    · exact hstep
  constructor
  · rintro ⟨ha, hnew, -⟩ hnear
    replace ha : a.stamped = false := ha
    replace hnew : ∀ k, planId k ≠ id := hnew
    replace hnear : AsLogged a (d.at a id) (after.map (eraseAccess a)) := hnear
    replace hdrops : a.stamped = false → (before.map (eraseAccess a)).isSome = true →
      after.map (eraseAccess a) = none := hdrops
    obtain ⟨body, hplan, t, t', i, log, log', rfl, rfl, happly⟩ := hrows ha
    show AsLogged a (t'.db.at a id) (before.map (eraseAccess a))
    rcases inverse_unstamped ha hplan happly with ⟨-, -, hdb⟩ | ⟨old, new, hbefore, -, -, hdb⟩
    · rw [hdb, Db.at_write_self]
      exact .inl rfl
    · rw [hdrops ha (by rw [hbefore]; rfl)] at hnear
      rw [hdb, Db.at_write_of_ne]
      · exact .inl (hnear.elim (fun e => e) fun e => e)
      · rintro ⟨-, hid⟩
        exact hnew k hid.symm
  · rintro b j ⟨hb, hnew, -⟩ hnames
    by_cases hba : b = a
    · subst hba
      obtain ⟨body, hplan, t, t', i, log, log', rfl, rfl, happly⟩ := hrows hb
      rcases inverse_unstamped hb hplan happly with ⟨-, -, hdb⟩ | ⟨old, new, -, -, -, hdb⟩
      · rw [hdb, Db.at_write_of_ne]
        rintro ⟨-, rfl⟩
        exact hnames ⟨rfl, rfl⟩
      · rw [hdb, Db.at_write_of_ne]
        rintro ⟨-, hid⟩
        exact hnew k hid.symm
    · exact congrArg (fun table => table.lookup j) (hother hba)

/-- **What a step gives and takes**: it takes out what its log row put in, and gives back what its
log row took out. -/
theorem UndoStep.gives (hdrops : c.table.stamped = false → c.before.isSome = true → c.after = none)
    (hmine : c.table.stamped = false → Unstamped planId touched c.table c.id)
    (h : w.UndoStep planId k c d d') (hfresh : FreshFrom planId k d)
    (hnear : Unstamped planId touched c.table c.id → AsLogged c.table (d.at c.table c.id) c.after)
    {b : TargetType} (hb : b.stamped = false) :
    d'.tally unlabelled b + imageTally unlabelled c.table c.after b =
      d.tally unlabelled b + imageTally unlabelled c.table c.before b := by
  by_cases hba : b = c.table
  · subst hba
    obtain ⟨⟨a, id, before, after⟩, -, rfl, hstep⟩ := h
    replace hb : a.stamped = false := hb
    replace hnear : AsLogged a (d.at a id) (after.map (eraseAccess a)) := hnear (hmine hb)
    replace hdrops : (before.map (eraseAccess a)).isSome = true →
      after.map (eraseAccess a) = none := hdrops hb
    show d'.tally unlabelled a + imageTally unlabelled a (after.map (eraseAccess a)) a =
      d.tally unlabelled a + imageTally unlabelled a (before.map (eraseAccess a)) a
    rw [map_eraseAccess_of_unstamped hb] at hnear hdrops ⊢
    rw [map_eraseAccess_of_unstamped hb] at hdrops ⊢
    rcases hstep with ⟨hplan, -⟩ | ⟨body, hplan, t, t', i, log, log', rfl, rfl, happly⟩
    · exact absurd hplan (inverseBody_ne_none hb)
    · rcases inverse_unstamped hb hplan happly with ⟨rfl, hthere, hdb⟩ |
        ⟨old, new, rfl, hsays, -, hdb⟩
      · have hwrite := congrFun (Db.tally_write unlabelled t.db a id none) a
        rw [← hdb] at hwrite
        rcases hnear with hnear | hnear
        · rw [hnear] at hthere
          cases hthere
        · rw [hnear] at hwrite
          exact hwrite
      · have hwrite := congrFun (Db.tally_write unlabelled t.db a (planId k) (some new)) a
        rw [← hdb, hfresh k le_rfl a hb] at hwrite
        rw [hdrops rfl]
        have hone : imageTally unlabelled a (some new) = imageTally unlabelled a (some old) := by
          simp only [imageTally, one, Multiset.map_singleton, hsays]
        rw [Pi.add_apply, Pi.add_apply, hone] at hwrite
        exact hwrite
  · rw [imageTally, imageTally, Pi.single_eq_of_ne hba, Pi.single_eq_of_ne hba, Db.tally, Db.tally,
      h.elsewhere hba]

end Writer

/-! ## Over a turn and its undo -/

/-- The ids that a plan makes up are new: no two are the same, no row of these tables has one, and
none was the turn's. -/
structure NewIds (planId : Nat → Uuid) (t : Tables) (turnId : Uuid) : Prop where
  injective : planId.Injective
  free : ∀ k a, a.stamped = false → t.db.at a (planId k) = none
  unused : ∀ k, ∀ row ∈ wroteRows t turnId, planId k ≠ row.targetId

/-- What the links, the entity rows or the relations of a workspace say. -/
def MemoryTables.said (t : MemoryTables) (a : TargetType) : Multiset a.Record :=
  t.db.tally unlabelled a

section

variable {planId : Nat → Uuid} {w u : Writer} {s s' t t' : Tables} {res res' : CommitResult}
  {es : List Event}

/-- What the turn put in and took out, its commit added and took away. -/
theorem UndoneTurn.turn_said (h : UndoneTurn planId w u s s' t t' res res' es) (a : TargetType) :
    s'.said a + weighs (fun c => imageTally unlabelled c.table c.before a)
        ((wroteRows t w.turn.turnId).map fun row => eraseChange row.change) =
      s.said a + weighs (fun c => imageTally unlabelled c.table c.after a)
        ((wroteRows t w.turn.turnId).map fun row => eraseChange row.change) := by
  obtain ⟨hchained, hreplayed⟩ := h.told
  rw [MemoryTables.said, MemoryTables.said, ← hreplayed]
  refine hchained.weighed (fun d => d.tally unlabelled a) fun d c _ hbefore => ?_
  have hwrite := congrFun (Db.tally_write unlabelled d c.table c.id c.after) a
  rwa [hbefore] at hwrite

/-- The undo takes out what the turn put in and puts in what the turn took out. -/
theorem UndoneTurn.undo_said (h : UndoneTurn planId w u s s' t t' res res' es)
    (hnew : NewIds planId t w.turn.turnId)
    (hquiet : ∀ key : TargetType × Uuid, key.1.stamped = false → Touched t w.turn.turnId key →
      ∀ e ∈ es, ¬ e.Changed key) {a : TargetType} (ha : a.stamped = false) :
    t'.said a + weighs (fun c => imageTally unlabelled c.table c.after a)
        ((wroteRows t w.turn.turnId).map fun row => eraseChange row.change) =
      t.said a + weighs (fun c => imageTally unlabelled c.table c.before a)
        ((wroteRows t w.turn.turnId).map fun row => eraseChange row.change) := by
  obtain ⟨hchained, hreplayed⟩ := h.told
  refine h.rewinds.weighed (fun d => d.tally unlabelled a) AsLogged
    (Unstamped planId (Touched t w.turn.turnId)) (FreshFrom planId)
    (fun k c e e₁ hmem hstep hfresh => ?_) (fun j _ b hb => hnew.free j b hb) hchained ?_
  · obtain ⟨row, hrow, rfl⟩ := List.mem_map.1 hmem
    have hdrops : (eraseChange row.change).table.stamped = false →
        (eraseChange row.change).before.isSome = true → (eraseChange row.change).after = none := by
      intro hb hbefore
      have hwrote := (Writer.commit_spec h.committed).wrote
      obtain ⟨_, _, hmade⟩ := hwrote.step_of_mem (h.mem_changes hrow)
      have hsome : row.change.before.isSome = true := by
        obtain ⟨r, hr⟩ := Option.isSome_iff_exists.1 hbefore
        obtain ⟨r', hr', -⟩ := Option.map_eq_some_iff.1 hr
        rw [hr']
        rfl
      show row.change.after.map _ = none
      rw [hmade.none_after hb hsome]
      rfl
    refine ⟨hstep.fresh hnew.injective hfresh, hstep.takesOut hdrops, fun hnear => ?_⟩
    have hmine : (eraseChange row.change).table.stamped = false →
        Unstamped planId (Touched t w.turn.turnId) row.targetType row.targetId := fun hb =>
      ⟨hb, fun k => hnew.unused k row hrow, row, hrow, rfl⟩
    exact hstep.gives hdrops hmine hfresh hnear ha
  · rintro b j ⟨hb, -, htouched⟩
    have hsame := h.later.unchanged (hquiet (b, j) hb htouched)
    rw [hreplayed, hsame]
    exact .inr rfl

/-- **Over a turn and its undo the links, entity rows and relations balance**: what the turn put in
is out again, what it took out is in again, and what the other turns did in between stays. -/
theorem undo_balances (h : UndoneTurn planId w u s s' t t' res res' es)
    (hnew : NewIds planId t w.turn.turnId)
    (hquiet : ∀ key : TargetType × Uuid, key.1.stamped = false → Touched t w.turn.turnId key →
      ∀ e ∈ es, ¬ e.Changed key) {a : TargetType} (ha : a.stamped = false) :
    t'.said a + s'.said a = s.said a + t.said a := by
  have hturn := h.turn_said a
  have hundo := h.undo_said hnew hquiet ha
  generalize weighs (fun c => imageTally unlabelled c.table c.before a) _ = removed at hturn hundo
  generalize weighs (fun c => imageTally unlabelled c.table c.after a) _ = made at hturn hundo
  refine add_right_cancel (b := made + removed) ?_
  calc t'.said a + s'.said a + (made + removed)
      = (t'.said a + made) + (s'.said a + removed) := add_add_add_comm _ _ _ _
    _ = (t.said a + removed) + (s.said a + made) := by rw [hundo, hturn]
    _ = s.said a + t.said a + (made + removed) := by
        rw [add_add_add_comm, add_comm (t.said a), add_comm removed]

end

/-! ### The order of the notes -/

theorem unusedId_new : NewIds unusedId notesAdded 61 where
  injective := fun j k h => Nat.add_right_cancel h
  free := by
    intro k a ha
    have hlinks : ∀ r ∈ notesAdded.links.rows, r.id < 1000 := by decide +kernel
    have hentities : ∀ r ∈ notesAdded.itemEntities.rows, r.id < 1000 := by decide +kernel
    have hrelations : ∀ r ∈ notesAdded.relations.rows, r.id < 1000 := by decide +kernel
    rw [MemoryTables.db_at, Option.map_eq_none_iff]
    by_contra hsome
    obtain ⟨r, hr⟩ := Option.ne_none_iff_exists'.1 hsome
    have hid := notesAdded.toMemoryTables.rowId_of_lookup hr
    have hlt : rowId a r < 1000 := by
      cases a with
      | link =>
        refine hlinks r (KeyTable.mem_rows.2 ?_)
        rw [show r.id = unusedId k from hid]
        exact hr
      | itemEntity =>
        refine hentities r (KeyTable.mem_rows.2 ?_)
        rw [show r.id = unusedId k from hid]
        exact hr
      | relation =>
        refine hrelations r (KeyTable.mem_rows.2 ?_)
        rw [show r.id = unusedId k from hid]
        exact hr
      | _ => cases ha
    rw [hid] at hlt
    exact Nat.not_lt.2 (Nat.le_add_left 1000 k) hlt
  unused := by
    intro k row hrow he
    have hlt : ∀ row ∈ wroteRows notesAdded 61, row.targetId < 1000 := by decide +kernel
    have hrow := hlt row hrow
    rw [← he] at hrow
    exact Nat.not_lt.2 (Nat.le_add_left 1000 k) hrow

/-- The link that was turned round is back, and the other one is gone. -/
theorem untidied_balances :
    notesUntidied.said .link + notesTidied.said .link =
      notesKept.said .link + notesAdded.said .link := by
  refine undo_balances tidied_undone unusedId_new (fun key hkey _ e he => ?_) rfl
  rw [List.mem_singleton.1 he]
  intro hchanged
  obtain ⟨a, i⟩ := key
  refine hchanged ?_
  cases a with
  | link => rfl
  | itemEntity => rfl
  | relation => rfl
  | _ => cases hkey

end SecondMind
