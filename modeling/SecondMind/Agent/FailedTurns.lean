import SecondMind.Agent.Turn
import SecondMind.Links.SavedLinks
import SecondMind.Memory.Runs

/-!
# Failed turns

A turn is several commits: the links of its message, then the batch of a save or of a correction,
the access counters of a recall, and the reminders that fire.  Each is a transaction of its own,
and a failure behind it leaves it where it is.

* `Written` — what a failed turn should leave as it was, ordered by what can be added to it;
* `Act.Writes` — the steps that write something;
* `exec_observed` — a step that writes adds to it for good, and the others leave it;
* `Turn.WritesLast` — no failure stops the turn once it wrote;
* `failed_writes_nothing_iff` — exactly then a failed turn wrote nothing.
-/

namespace SecondMind

open Keyed

/-- Log rows without a change are no change of the memory. -/
theorem Wrote.memory_of_nil {b : Backend} {turn : Uuid} {t t' : Tables} {cs : List RowChange}
    (h : Wrote b turn t cs t') (hcs : cs = []) : t'.toMemoryTables = t.toMemoryTables := by
  induction h with
  | refl => rfl
  | quiet _ q ih => exact q.memory.trans (ih hcs)
  | row => exact absurd hcs (List.append_ne_nil_of_right_ne_nil _ (List.cons_ne_nil _ _))

/-- A batch that logs nothing leaves the memory and the log. -/
theorem Writer.commit_silent {w : Writer} {t t' : Tables} {res : CommitResult}
    (h : w.commit t = .ok (t', res)) (hrows : res.rows = []) :
    t'.toMemoryTables = t.toMemoryTables ∧ t'.writeLog = t.writeLog := by
  have hspec := commit_spec h
  refine ⟨hspec.wrote.memory_of_nil ?_, ?_⟩
  · rw [hrows, allowedChanges_nil]
  · rw [hspec.writeLog, hrows, List.append_nil]

/-! ## Access counters -/

/-- How often the item under an id was retrieved. -/
def uses (t : MemoryTables) (id : Uuid) : Int := ((t.getItem id).map (·.accessCount)).getD 0

theorem uses_recordOne (t : Tables) (at_ : Instant) (id id' : Uuid) :
    uses (t.recordAccess at_ [id']).toMemoryTables id =
      uses t.toMemoryTables id + if id = id' ∧ (t.getItem id).isSome then 1 else 0 := by
  unfold Tables.recordAccess
  rw [List.foldl_cons, List.foldl_nil]
  cases hget : t.items.lookup id' with
  | none =>
    rw [if_neg, Int.add_zero]
    · rintro ⟨rfl, hsome⟩
      rw [MemoryTables.getItem, hget] at hsome
      cases hsome
  | some item =>
    obtain rfl : item.id = id' := KeyTable.key_of_lookup hget
    simp only [uses, MemoryTables.getItem, KeyTable.lookup_put]
    by_cases hid : id = item.id
    · subst hid
      simp [hget]
    · simp [hid]

theorem uses_le_recordAccess (t : Tables) (at_ : Instant) (ids : List Uuid) (id : Uuid) :
    uses t.toMemoryTables id ≤ uses (t.recordAccess at_ ids).toMemoryTables id := by
  induction ids generalizing t with
  | nil => exact le_rfl
  | cons id' ids ih =>
    refine le_trans ?_ (ih (t.recordAccess at_ [id']))
    rw [uses_recordOne]
    omega

theorem uses_lt_recordAccess {t : Tables} {at_ : Instant} {ids : List Uuid} {id : Uuid}
    (hid : id ∈ ids) (hsome : (t.getItem id).isSome) :
    uses t.toMemoryTables id < uses (t.recordAccess at_ ids).toMemoryTables id := by
  induction ids generalizing t with
  | nil => exact absurd hid List.not_mem_nil
  | cons id' ids ih =>
    have hle := uses_le_recordAccess (t.recordAccess at_ [id']) at_ ids id
    have hone := uses_recordOne t at_ id id'
    show _ < uses ((t.recordAccess at_ [id']).recordAccess at_ ids).toMemoryTables id
    rcases List.mem_cons.1 hid with rfl | hid
    · rw [if_pos ⟨rfl, hsome⟩] at hone
      omega
    · have hstill : ((t.recordAccess at_ [id']).getItem id).isSome := by
        have hsame := congrArg Option.isSome ((sameMemory_recordAccess t at_ [id']).items id)
        rw [Option.isSome_map, Option.isSome_map] at hsame
        rw [hsame]
        exact hsome
      have hlt := ih hid hstill
      have hle' := uses_le_recordAccess t at_ [id'] id
      omega

/-- Items that are not stored have no counters. -/
theorem recordAccess_unknown {t : Tables} {at_ : Instant} {ids : List Uuid}
    (h : ¬ ∃ id ∈ ids, (t.getItem id).isSome) : t.recordAccess at_ ids = t := by
  unfold Tables.recordAccess
  induction ids with
  | nil => rfl
  | cons id ids ih =>
    have hnone : t.items.lookup id = none := by
      rw [← Option.not_isSome_iff_eq_none]
      exact fun hsome => h ⟨id, List.mem_cons_self, hsome⟩
    rw [List.foldl_cons, hnone]
    exact ih fun ⟨id', hid', hsome⟩ => h ⟨id', List.mem_cons_of_mem _ hid', hsome⟩

namespace Agent

open Links Steps

/-! ## What is written -/

/-- The memory, the write log and the saved link sources. -/
structure Written where
  memory : MemoryTables
  writeLog : List WriteLogRecord
  sources : List LinkSource

def written (t : LinkTables) : Written where
  memory := t.tables.toMemoryTables
  writeLog := t.tables.writeLog
  sources := t.sources

/-- Rows are added to the log and to the sources, and between two log rows items are retrieved. -/
instance : Preorder Written where
  le v v' := v.writeLog <+: v'.writeLog ∧ v.sources <+: v'.sources ∧
    (v.writeLog = v'.writeLog → ∀ id, uses v.memory id ≤ uses v'.memory id)
  le_refl v := ⟨List.prefix_rfl, List.prefix_rfl, fun _ _ => le_rfl⟩
  le_trans u v x huv hvx := by
    refine ⟨huv.1.trans hvx.1, huv.2.1.trans hvx.2.1, fun hlog id => ?_⟩
    have hsame : u.writeLog = v.writeLog :=
      huv.1.eq_of_length_le (hlog ▸ hvx.1.length_le)
    exact (huv.2.2 hsame id).trans (hvx.2.2 (hsame.symm.trans hlog) id)

/-- The steps that write: a batch that logs a row, the row of a link, and the access of an item
that is stored. -/
def Act.Writes : Act → World → Prop
  | .commit writer, w =>
    ∃ t' res, writer.commit w.kept.tables = .ok (t', res) ∧ res.rows ≠ []
  | .addSource _ _, _ => True
  | .recordAccess _ ids, w => ∃ id ∈ ids, (w.kept.tables.getItem id).isSome
  | _, _ => False

section

variable {order : ∀ values, RedactionOrder values} {input : List Char}

theorem commit_grows {t t' : Tables} {sources : List LinkSource} {writer : Writer}
    {res : CommitResult} (h : writer.commit t = .ok (t', res)) (hrows : res.rows ≠ []) :
    written ⟨t, sources⟩ < written ⟨t', sources⟩ := by
  have hlog := (Writer.commit_spec h).writeLog
  have hlength : t.writeLog.length < t'.writeLog.length := by
    have hpos := List.length_pos_iff.2 hrows
    rw [hlog, List.length_append]
    omega
  refine lt_of_le_not_ge ⟨⟨res.rows, hlog.symm⟩, List.prefix_rfl, fun hsame => ?_⟩ fun hge => ?_
  · exact absurd (congrArg List.length hsame) hlength.ne
  · exact absurd hge.1.length_le (not_le.2 hlength)

theorem addSource_grows (t : Tables) (sources : List LinkSource) (source : LinkSource) :
    written ⟨t, sources⟩ < written ⟨t, sources ++ [source]⟩ := by
  refine lt_of_le_not_ge ⟨List.prefix_rfl, List.prefix_append _ _, fun _ _ => le_rfl⟩ fun hge => ?_
  have hlength := hge.2.1.length_le
  simp [written] at hlength

theorem recordAccess_grows {t : Tables} {sources : List LinkSource} {at_ : Instant}
    {ids : List Uuid} (h : ∃ id ∈ ids, (t.getItem id).isSome) :
    written ⟨t, sources⟩ < written ⟨t.recordAccess at_ ids, sources⟩ := by
  have hlog := (sameMemory_recordAccess t at_ ids).writeLog
  obtain ⟨id, hid, hsome⟩ := h
  refine lt_of_le_not_ge ⟨?_, List.prefix_rfl, fun _ id => uses_le_recordAccess t at_ ids id⟩
    fun hge => ?_
  · show t.writeLog <+: (t.recordAccess at_ ids).writeLog
    rw [hlog]
  · exact absurd (hge.2.2 hlog id) (not_le.2 (uses_lt_recordAccess hid hsome))

/-- A commit that did not fail. -/
theorem exec_commit {writer : Writer} {w w' : World}
    (h : exec order input (.commit writer) w = .ok w') :
    ∃ t' res, writer.commit w.kept.tables = .ok (t', res) ∧
      w' = { w with kept := { w.kept with tables := t' } } := by
  dsimp only [exec] at h
  cases hcommit : writer.commit w.kept.tables with
  | error e =>
    rw [hcommit] at h
    cases h
  | ok r =>
    obtain ⟨t', res⟩ := r
    rw [hcommit] at h
    cases h
    exact ⟨t', res, rfl, rfl⟩

/-- The row of a link that was stored. -/
theorem exec_addSource {backend : Backend} {source : LinkSource} {w w' : World}
    (h : exec order input (.addSource backend source) w = .ok w') :
    w' = { w with kept := { w.kept with sources := w.kept.sources ++ [source] } } := by
  dsimp only [exec] at h
  unfold LinkTables.add at h
  split at h
  · cases h
  · rename_i kept hadd
    split at hadd
    · cases hadd
    · cases hadd
      cases h
      rfl

/-- **A step that writes** adds something for good, and every other step leaves all as it was. -/
theorem exec_observed :
    Program.Observed (exec order input) Act.Writes fun w => written w.kept where
  still := by
    intro a w w' h hquiet
    cases a with
    | commit writer =>
      obtain ⟨t', res, hcommit, rfl⟩ := exec_commit h
      have hrows : res.rows = [] := by
        by_contra hrows
        exact hquiet ⟨t', res, hcommit, hrows⟩
      obtain ⟨hmemory, hlog⟩ := Writer.commit_silent hcommit hrows
      simp only [written, hmemory, hlog]
    | addSource backend source => exact absurd trivial hquiet
    | recordAccess at_ ids =>
      cases h
      simp only [written, recordAccess_unknown hquiet]
    | wait | answer | record | close | redactInput =>
      cases h
      rfl
  grows := by
    intro a w w' h hwrites
    cases a with
    | commit writer =>
      obtain ⟨t', res, hcommit, hrows⟩ := hwrites
      obtain ⟨u, res', hcommit', rfl⟩ := exec_commit h
      rw [hcommit] at hcommit'
      cases hcommit'
      exact commit_grows hcommit hrows
    | addSource backend source =>
      rw [exec_addSource h]
      exact addSource_grows _ _ _
    | recordAccess at_ ids =>
      cases h
      exact recordAccess_grows hwrites
    | wait | answer | record | close | redactInput => exact hwrites.elim

end

/-! ## Turns that fail -/

/-- A turn fails when it is stopped, or when its end cannot be stored. -/
def Turn.Fails (t : Turn) (value : Except Stop String) : Prop :=
  t.finishFails = true ∨ value.isOk = false

/-- Once a step of the turn wrote, no failure stops the turn, and its end is stored. -/
def Turn.WritesLast (t : Turn) (faults : Nat → Option Stop) (start : LinkTables) : Prop :=
  Program.Settled (exec t.order t.input) faults Act.Writes t.Fails t.body.run 0 (t.opening start)

theorem Turn.failed_iff (t : Turn) (faults : Nat → Option Stop) (start : LinkTables) :
    (t.finished faults start).status = .failed ↔ t.Fails (t.ran faults start).value := by
  unfold Turn.finished Turn.Fails
  cases hvalue : (t.ran faults start).value with
  | error e => simp [hvalue, Except.isOk, Except.toBool]
  | ok answer => cases hfinish : t.finishFails <;> simp [hvalue, Except.isOk, Except.toBool]

/-- A link, with something to remember beside it. -/
def pageNote : String := "see http://example.com/page, the wifi code is on the fridge"

def pageTurn : Turn :=
  { plainTurn pageNote {} with linkSaver := some (pageSaver "example.com" (some none)) }

/-- No provider answers the `extract` step of the turn. -/
def extractUnanswered (n : Nat) : Option Stop := if n = 10 then some .providerUnavailable else none

end Agent
end SecondMind
