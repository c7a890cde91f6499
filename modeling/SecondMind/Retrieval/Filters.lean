import SecondMind.Memory.Store
import SecondMind.Retrieval.Select

/-!
# The filters of a search

`_Where` of `retrieval/adapters/sql.py`: what an item must be to be found, and which filters find
more than others.

* `Tables.admits` — the item passes the filters;
* `Wider` — filters that admit all that others admit;
* `within_mono` — a window that holds more admits more;
* `loses_of_begins`, `loses_of_ends` — a later beginning or an earlier end loses something;
* `wider_window_iff` — when one window for another admits more.
-/

namespace SecondMind

open Gregorian Keyed

/-! ## Filters -/

/-- What Postgres and the built-in functions give to the filters. -/
structure FilterLib where
  -- `str.lower`
  lower : String → String
  -- `lower(trim(x))` of Postgres
  folded : String → String
  -- `attributes ->> key`
  textAt : Json → String → Option String
  -- `format_day(_, tz, weekday=False)`, of a day of the zone
  day : Date → String

/-- `Access`. -/
structure Access where
  sensitive : Bool := false

def endsWith (text tail : String) : Bool :=
  text.toList.reverse.take tail.length = tail.toList.reverse

/-- The text without its last `n` characters. -/
def withoutLast (text : String) (n : Nat) : String :=
  String.ofList (text.toList.take (text.length - n))

/-- `removesuffix`. -/
def removeSuffix (text tail : String) : String :=
  if endsWith text tail then withoutLast text tail.length else text

/-- `LIKE`, of a pattern and a text. -/
def like : List Char → List Char → Bool
  | [], text => text = []
  | '%' :: pattern, text => text.tails.any (like pattern)
  | '\\' :: c :: pattern, text =>
    match text with
    | [] => false
    | d :: text => c = d && like pattern text
  | c :: pattern, text =>
    match text with
    | [] => false
    | d :: text => (c = '_' || c = d) && like pattern text

variable (lib : FilterLib)

/-- `_variants`. -/
def variants (value : String) : List String :=
  let v := lib.lower (strip value)
  [v, v ++ "s", removeSuffix v "s"] ++
    (if endsWith v "ning" ∧ 5 < v.length then [withoutLast v 4] else []) ++
    if endsWith v "ing" ∧ 4 < v.length then [withoutLast v 3] else []

/-- `_Where.mandatory`. -/
def mandatory (access : Access) (item : ItemContent) : Bool :=
  item.status = .active ∧ item.sensitivity ≠ .secret ∧
    (access.sensitive = true ∨ item.sensitivity ≠ .sensitive)

/-- `_Where.point`. -/
def point (column start stop : Option Instant) : Bool :=
  column.any fun x => start.all (· ≤ x) && stop.all (x < ·)

namespace Tables

variable (t : Tables)

/-- `_Where.window`. -/
def within (w : WindowFilter) (item : ItemRecord) : Bool :=
  match w.clock with
  | .occurred =>
    item.occurredStart.any fun s =>
      w.stop.all (s < ·) && w.start.all (· < item.occurredEnd.getD (s + second))
  | .due => point item.dueAt w.start w.stop
  | .mentioned => point (some item.mentionedAt) w.start w.stop
  | .valid =>
    w.stop.all (fun stop => item.validFrom.all (· < stop)) &&
      w.start.all (fun start => item.validTo.all (start < ·))
  | .trigger =>
    ∃ trigger ∈ t.triggers.rows, trigger.itemId = item.id ∧ trigger.state = .pending ∧
      point trigger.firesAt w.start w.stop = true

/-- The category of the item is the one asked for, or below it. -/
def inCategory (slug : String) (item : ItemContent) : Bool :=
  ∃ c ∈ t.categories.rows, item.categoryId = some c.id ∧
    (c.slug = slug ∨ like (slug ++ "/%").toList c.slug.toList = true)

/-- The item names one of the entities, in one of the roles if any are asked for. -/
def names (f : Filters) (item : ItemRecord) : Bool :=
  (∃ r ∈ t.itemEntities.rows, r.itemId = item.id ∧ r.entityId ∈ f.entityIds ∧
      (f.roles = [] ∨ r.role ∈ f.roles)) ||
    ((f.roles = [] ∨ .about ∈ f.roles) && item.subjectEntityId.any (· ∈ f.entityIds))

/-- `_Where.filters`. -/
def admits (f : Filters) (access : Access) (item : ItemRecord) : Bool :=
  mandatory access item.toItemContent &&
    (f.kinds = [] || item.kind ∈ f.kinds) &&
    (f.subtypes = [] || item.subtype.any (· ∈ f.subtypes)) &&
    (f.states = [] || item.state ∈ f.states) &&
    (f.category.getD "" = "" || t.inCategory (f.category.getD "") item.toItemContent) &&
    (f.entityIds = [] || t.names f item) &&
    (f.predicate.getD "" = "" || item.predicate = f.predicate) &&
    f.attribute.all (fun x =>
      (lib.textAt item.attributes x.1).any (lib.folded · ∈ variants lib x.2)) &&
    (!f.currentOnly || item.validTo = none) &&
    f.window.all (t.within · item)

end Tables

/-! ## What it means to widen -/

/-- The filters `g` admit all that `f` admits. -/
def Wider (f g : Filters) : Prop :=
  ∀ (t : Tables) (access : Access), ∀ item ∈ t.items.rows,
    t.admits lib f access item = true → t.admits lib g access item = true

/-- Some attributes match what is asked for. -/
def AttributeMet (f : Filters) : Prop :=
  ∀ x ∈ f.attribute, ∃ attributes,
    (lib.textAt attributes x.1).any (lib.folded · ∈ variants lib x.2) = true

/-- The window holds no moment. -/
def WindowFilter.Empty (w : WindowFilter) : Prop :=
  ∃ start ∈ w.start, ∃ stop ∈ w.stop, stop ≤ start

/-- The window `w'` begins no later. -/
def BeginsBefore (w w' : WindowFilter) : Prop :=
  ∀ begins' ∈ w'.start, ∃ begins ∈ w.start, begins' ≤ begins

/-- The window `w'` ends no earlier. -/
def EndsAfter (w w' : WindowFilter) : Prop := ∀ ends' ∈ w'.stop, ∃ ends ∈ w.stop, ends ≤ ends'

/-- The window `w'` holds all that `w` holds. -/
structure Covers (w w' : WindowFilter) : Prop where
  clock : w'.clock = w.clock
  start : BeginsBefore w w'
  stop : EndsAfter w w'

/-! ## What windows admit -/

section

variable {lib} {f : Filters} {w w' : WindowFilter}

theorem BeginsBefore.all (h : BeginsBefore w w') {p : Instant → Bool}
    (hp : ∀ x x', x' ≤ x → p x = true → p x' = true) (hall : w.start.all p = true) :
    w'.start.all p = true := by
  refine (Option.all_eq_true _ _).2 ?_
  intro x' hx'
  obtain ⟨x, hx, hle⟩ := h x' hx'
  exact hp x x' hle ((Option.all_eq_true _ _).1 hall x hx)

theorem EndsAfter.all (h : EndsAfter w w') {p : Instant → Bool}
    (hp : ∀ x x', x ≤ x' → p x = true → p x' = true) (hall : w.stop.all p = true) :
    w'.stop.all p = true := by
  refine (Option.all_eq_true _ _).2 ?_
  intro x' hx'
  obtain ⟨x, hx, hle⟩ := h x' hx'
  exact hp x x' hle ((Option.all_eq_true _ _).1 hall x hx)

theorem point_mono {column : Option Instant} (h : Covers w w')
    (hpoint : point column w.start w.stop = true) : point column w'.start w'.stop = true := by
  obtain ⟨x, hx, hin⟩ := (Option.any_eq_true _ _).1 hpoint
  obtain ⟨hstart, hstop⟩ := Bool.and_eq_true_iff.1 hin
  refine (Option.any_eq_true _ _).2 ⟨x, hx, Bool.and_eq_true_iff.2 ⟨?_, ?_⟩⟩
  · exact h.start.all (fun _ _ hle hx => decide_eq_true (hle.trans (of_decide_eq_true hx))) hstart
  · exact h.stop.all (fun _ _ hle hx => decide_eq_true (lt_of_lt_of_le (of_decide_eq_true hx) hle))
      hstop

/-- What begins before an instant begins before a later one. -/
theorem valid_before {validFrom : Option Instant} (x x' : Instant) (hle : x ≤ x')
    (hx : validFrom.all (· < x) = true) : validFrom.all (· < x') = true := by
  refine (Option.all_eq_true _ _).2 ?_
  intro y hy
  have hlt := of_decide_eq_true ((Option.all_eq_true _ _).1 hx y hy)
  exact decide_eq_true (lt_of_lt_of_le hlt hle)

/-- **A window that holds more** admits more. -/
theorem within_mono (h : Covers w w') {t : Tables} {item : ItemRecord}
    (hin : t.within w item = true) : t.within w' item = true := by
  unfold Tables.within at hin ⊢
  rw [h.clock]
  cases hclock : w.clock with
  | occurred =>
    rw [hclock] at hin
    obtain ⟨x, hx, hin⟩ := (Option.any_eq_true _ _).1 hin
    obtain ⟨hstop, hstart⟩ := Bool.and_eq_true_iff.1 hin
    refine (Option.any_eq_true _ _).2 ⟨x, hx, Bool.and_eq_true_iff.2 ⟨?_, ?_⟩⟩
    · exact h.stop.all
        (fun _ _ hle hx => decide_eq_true (lt_of_lt_of_le (of_decide_eq_true hx) hle)) hstop
    · exact h.start.all
        (fun _ _ hle hx => decide_eq_true (lt_of_le_of_lt hle (of_decide_eq_true hx))) hstart
  | due =>
    rw [hclock] at hin
    exact point_mono h hin
  | mentioned =>
    rw [hclock] at hin
    exact point_mono h hin
  | valid =>
    rw [hclock] at hin
    obtain ⟨hstop, hstart⟩ := Bool.and_eq_true_iff.1 hin
    refine Bool.and_eq_true_iff.2 ⟨h.stop.all valid_before hstop, h.start.all ?_ hstart⟩
    · intro x x' hle hx
      refine (Option.all_eq_true _ _).2 ?_
      intro y hy
      have hlt := of_decide_eq_true ((Option.all_eq_true _ _).1 hx y hy)
      exact decide_eq_true (lt_of_le_of_lt hle hlt)
  | trigger =>
    rw [hclock] at hin
    obtain ⟨trigger, hmem, hitem, hstate, hpoint⟩ := of_decide_eq_true hin
    exact decide_eq_true ⟨trigger, hmem, hitem, hstate, point_mono h hpoint⟩

/-! ### Items of any moments -/

/-- The moments of an item, and of its trigger. -/
structure Moments where
  occurredStart : Option Instant := none
  occurredEnd : Option Instant := none
  dueAt : Option Instant := none
  mentionedAt : Instant := 0
  validFrom : Option Instant := none
  validTo : Option Instant := none
  firesAt : Option Instant := none

/-- An item of these moments, with what else the filters ask for. -/
def Moments.item (m : Moments) (f : Filters) (attributes : Json) : ItemRecord :=
  { kind := f.kinds.head?.getD .note, state := "current", text := "", title := ""
    attributes := attributes, predicate := f.predicate, mentionedAt := m.mentionedAt
    occurredStart := m.occurredStart, occurredEnd := m.occurredEnd, dueAt := m.dueAt
    validFrom := m.validFrom, validTo := m.validTo, id := 1, createdAt := 0, updatedAt := 0
    createdByTurnId := 1, updatedByTurnId := 1 }

/-- Nothing but the item, its trigger and the entity that it names. -/
def Moments.tables (m : Moments) (f : Filters) (attributes : Json) : Tables :=
  { Tables.initial 1 with
    items := KeyTable.empty.put (m.item f attributes)
    itemEntities := KeyTable.empty.put
      { id := 1, itemId := 1, entityId := f.entityIds.head?.getD 1
        role := f.roles.head?.getD .about, createdByTurnId := 1 }
    triggers := KeyTable.empty.put
      { firesAt := m.firesAt, id := 1, itemId := 1, createdAt := 0, updatedAt := 0
        createdByTurnId := 1, updatedByTurnId := 1 } }

theorem mem_rows_single {ι ρ : Type} [DecidableEq ι] {key : ρ → ι} {r r' : ρ} :
    r' ∈ ((KeyTable.empty : KeyTable key).put r).rows ↔ r' = r := by
  rw [KeyTable.mem_rows, KeyTable.lookup_put]
  split
  · rw [Option.some_inj, eq_comm]
  · rename_i hne
    simp only [KeyTable.lookup_empty, reduceCtorEq, false_iff]
    rintro rfl
    exact hne rfl

variable {m : Moments} {attributes : Json}

/-- The entity of the filters is named. -/
theorem names_tables (hentity : f.entityIds ≠ []) :
    (m.tables f attributes).names f (m.item f attributes) = true := by
  unfold Tables.names
  refine Bool.or_eq_true_iff.2 (.inl (decide_eq_true ⟨_, mem_rows_single.2 rfl, rfl, ?_, ?_⟩))
  · obtain ⟨entityId, rest, hids⟩ := List.exists_cons_of_ne_nil hentity
    simp [hids]
  · cases hroles : f.roles with
    | nil => exact .inl rfl
    | cons role roles => exact .inr (by simp)

theorem admits_tables (hcategory : f.category.getD "" = "") (hsubtypes : f.subtypes = [])
    (hstates : f.states = []) (hcurrent : f.currentOnly = true → m.validTo = none)
    (hattribute : ∀ x ∈ f.attribute,
      (lib.textAt attributes x.1).any (lib.folded · ∈ variants lib x.2) = true) :
    (m.tables f attributes).admits lib { f with window := some w } {} (m.item f attributes) =
      (m.tables f attributes).within w (m.item f attributes) := by
  have hkinds : (f.kinds = [] || (m.item f attributes).kind ∈ f.kinds) = true := by
    cases hkinds : f.kinds with
    | nil => rfl
    | cons kind kinds => simp [Moments.item, hkinds]
  have hnames : (f.entityIds = [] ||
      (m.tables f attributes).names { f with window := some w } (m.item f attributes)) = true := by
    by_cases hids : f.entityIds = []
    · simp [hids]
    · exact Bool.or_eq_true_iff.2 (.inr (names_tables hids))
  have hvalid : (!f.currentOnly || (m.item f attributes).validTo = none) = true := by
    cases hcur : f.currentOnly with
    | false => rfl
    | true => exact decide_eq_true (hcurrent hcur)
  have hmatch : f.attribute.all (fun x => (lib.textAt (m.item f attributes).attributes x.1).any
      (lib.folded · ∈ variants lib x.2)) = true := (Option.all_eq_true _ _).2 hattribute
  have hpredicate : (f.predicate.getD "" = "" ||
      (m.item f attributes).predicate = f.predicate) = true :=
    Bool.or_eq_true_iff.2 (.inr (decide_eq_true rfl))
  have hmandatory : mandatory {} (m.item f attributes).toItemContent = true := rfl
  unfold Tables.admits
  simp only [hmandatory, hkinds, hnames, hpredicate, hvalid, hmatch]
  simp [hsubtypes, hstates, hcategory]

theorem within_tables_trigger (hclock : w.clock = .trigger) :
    (m.tables f attributes).within w (m.item f attributes) = point m.firesAt w.start w.stop := by
  unfold Tables.within
  rw [hclock]
  refine Bool.eq_iff_iff.2 (decide_eq_true_iff.trans ?_)
  constructor
  · rintro ⟨trigger, hmem, -, -, hpoint⟩
    obtain rfl := mem_rows_single.1 hmem
    exact hpoint
  · intro hpoint
    exact ⟨_, mem_rows_single.2 rfl, rfl, rfl, hpoint⟩

/-! ### What a later beginning and an earlier end lose -/

/-- The clocks that read a moment. -/
def RecallClock.readsPoint : RecallClock → Bool
  | .due | .mentioned | .trigger => true
  | .occurred | .valid => false

/-- An item of these moments is lost. -/
def Loses (f : Filters) (w w' : WindowFilter) : Prop :=
  ∃ m : Moments, (f.currentOnly = true → m.validTo = none) ∧ ∀ attributes,
    (m.tables f attributes).within w (m.item f attributes) = true ∧
      (m.tables f attributes).within w' (m.item f attributes) = false

/-- A moment that one window holds and the other does not is lost to the clocks that read one. -/
theorem loses_of_point {x : Instant} (hclock : w'.clock = w.clock) (hpoint : w.clock.readsPoint)
    (hin : point (some x) w.start w.stop = true) (hout : point (some x) w'.start w'.stop = false) :
    Loses f w w' := by
  refine ⟨{ dueAt := some x, mentionedAt := x, firesAt := some x }, fun _ => rfl, ?_⟩
  intro attributes
  cases hw : w.clock with
  | occurred =>
    rw [hw] at hpoint
    exact absurd hpoint Bool.false_ne_true
  | valid =>
    rw [hw] at hpoint
    exact absurd hpoint Bool.false_ne_true
  | due =>
    unfold Tables.within
    rw [hclock, hw]
    exact ⟨hin, hout⟩
  | mentioned =>
    unfold Tables.within
    rw [hclock, hw]
    exact ⟨hin, hout⟩
  | trigger =>
    rw [within_tables_trigger hw, within_tables_trigger (hclock.trans hw)]
    exact ⟨hin, hout⟩

/-- **A later beginning** loses what was over by then. -/
theorem loses_of_begins {b b' : Int} (hlater : b < b') (hstart : w.start = some b)
    (hstart' : w'.start = some b') (hclock : w'.clock = w.clock)
    (hvalid : w.clock = .valid → f.currentOnly = false)
    (hpoint : w.clock.readsPoint → ¬ w.Empty) : Loses f w w' := by
  cases hw : w.clock with
  | occurred =>
    -- something that goes on until right after the beginning
    refine ⟨{ occurredStart := some ((w.stop.map (· - 1)).elim b (min b)),
              occurredEnd := some (b + 1) }, fun _ => rfl, ?_⟩
    intro attributes
    unfold Tables.within
    rw [hclock, hw]
    cases hstop : w.stop <;> simp [Moments.item, hstart, hstart', hlater]
  | valid =>
    refine ⟨{ validTo := some (b + 1) }, ?_, ?_⟩
    · intro hcurrent
      exact absurd (hcurrent.symm.trans (hvalid hw)) Bool.noConfusion
    · intro attributes
      unfold Tables.within
      rw [hclock, hw]
      simp [Moments.item, hstart, hstart', hlater]
  | _ =>
    have hreads : w.clock.readsPoint = true := by rw [hw]; rfl
    have hnonempty := hpoint hreads
    refine loses_of_point (x := b) hclock hreads ?_ ?_
    · refine Bool.and_eq_true_iff.2 ⟨by simp [hstart], (Option.all_eq_true _ _).2 ?_⟩
      intro e he
      by_contra hnot
      exact hnonempty ⟨b, hstart, e, he, by simpa using hnot⟩
    · simp [point, hstart', hlater]

/-- **An earlier end** loses what began after it. -/
theorem loses_of_ends {e e' : Int} (hearlier : e' < e) (hstop : w.stop = some e)
    (hstop' : w'.stop = some e') (hclock : w'.clock = w.clock)
    (hpoint : w.clock.readsPoint → ¬ w.Empty) : Loses f w w' := by
  cases hw : w.clock with
  | occurred =>
    -- something that begins at the last moment
    refine ⟨{ occurredStart := some (e - 1),
              occurredEnd := some ((w.start.map (· + 1)).elim e (max e)) }, fun _ => rfl, ?_⟩
    intro attributes
    unfold Tables.within
    rw [hclock, hw]
    cases hstart : w.start <;> simp [Moments.item, hstop, hstop', hearlier]
  | valid =>
    refine ⟨{ validFrom := some (e - 1) }, fun _ => rfl, ?_⟩
    intro attributes
    unfold Tables.within
    rw [hclock, hw]
    simp [Moments.item, hstop, hstop', hearlier]
  | _ =>
    have hreads : w.clock.readsPoint = true := by rw [hw]; rfl
    have hnonempty := hpoint hreads
    refine loses_of_point (x := e - 1) hclock hreads ?_ ?_
    · refine Bool.and_eq_true_iff.2 ⟨(Option.all_eq_true _ _).2 ?_, by simp [hstop]⟩
      intro b hb
      by_contra hnot
      refine hnonempty ⟨b, hb, e, hstop, ?_⟩
      exact Int.le_of_sub_one_lt (not_le.1 (by simpa using hnot))
    · simp [point, hstop', hearlier]

/-! ### One window for another -/

/-- The window `w'` keeps all that `w` holds, as far as its clock reads them. -/
def Keeps (w w' : WindowFilter) (currentOnly : Bool) : Prop :=
  match w.clock with
  | .occurred => BeginsBefore w w' ∧ EndsAfter w w'
  | .valid => (currentOnly = true ∨ BeginsBefore w w') ∧ EndsAfter w w'
  | .due | .mentioned | .trigger => w.Empty ∨ BeginsBefore w w' ∧ EndsAfter w w'

/-- An empty window holds no moment. -/
theorem point_empty (h : w.Empty) (column : Option Instant) :
    point column w.start w.stop = false := by
  obtain ⟨b, hb, e, he, hle⟩ := h
  refine Bool.eq_false_iff.2 fun hpoint => ?_
  obtain ⟨x, -, hin⟩ := (Option.any_eq_true _ _).1 hpoint
  obtain ⟨hstart, hstop⟩ := Bool.and_eq_true_iff.1 hin
  have hafter : b ≤ x := of_decide_eq_true ((Option.all_eq_true _ _).1 hstart b hb)
  have hbefore : x < e := of_decide_eq_true ((Option.all_eq_true _ _).1 hstop e he)
  exact absurd (hafter.trans_lt hbefore) (not_lt.2 hle)

theorem within_empty (h : w.Empty) (hreads : w.clock.readsPoint = true) (t : Tables)
    (item : ItemRecord) : t.within w item = false := by
  unfold Tables.within
  cases hclock : w.clock with
  | occurred =>
    rw [hclock] at hreads
    exact absurd hreads Bool.false_ne_true
  | valid =>
    rw [hclock] at hreads
    exact absurd hreads Bool.false_ne_true
  | due => exact point_empty h _
  | mentioned => exact point_empty h _
  | trigger =>
    refine decide_eq_false ?_
    rintro ⟨trigger, -, -, -, hpoint⟩
    rw [point_empty h] at hpoint
    exact absurd hpoint Bool.false_ne_true

/-- **A window that keeps all** admits all. -/
theorem within_of_keeps (hclock : w'.clock = w.clock) {currentOnly : Bool}
    (hkeeps : Keeps w w' currentOnly) {t : Tables} {item : ItemRecord}
    (hcurrent : currentOnly = true → item.validTo = none) (hin : t.within w item = true) :
    t.within w' item = true := by
  unfold Keeps at hkeeps
  cases hw : w.clock with
  | occurred =>
    rw [hw] at hkeeps
    exact within_mono ⟨hclock, hkeeps.1, hkeeps.2⟩ hin
  | valid =>
    rw [hw] at hkeeps
    obtain ⟨hcurrentOnly | hstart, hstop⟩ := hkeeps
    · -- nothing is over, so the beginning is not read
      have hopen := hcurrent hcurrentOnly
      unfold Tables.within at hin ⊢
      rw [hclock, hw]
      rw [hw] at hin
      refine Bool.and_eq_true_iff.2 ⟨?_, (Option.all_eq_true _ _).2 fun x _ => by simp [hopen]⟩
      exact hstop.all valid_before (Bool.and_eq_true_iff.1 hin).1
    · exact within_mono ⟨hclock, hstart, hstop⟩ hin
  | _ =>
    have hreads : w.clock.readsPoint = true := by rw [hw]; rfl
    rw [hw] at hkeeps
    rcases hkeeps with hempty | ⟨hstart, hstop⟩
    · rw [within_empty hempty hreads] at hin
      exact absurd hin Bool.false_ne_true
    · exact within_mono ⟨hclock, hstart, hstop⟩ hin

/-- **A window that does not** loses something. -/
theorem loses_of_not_keeps (hclock : w'.clock = w.clock) (hstart : w'.start.isSome → w.start.isSome)
    (hstop : w'.stop.isSome → w.stop.isSome) (hnot : ¬ Keeps w w' f.currentOnly) :
    Loses f w w' := by
  have hbegins (hlate : ¬ BeginsBefore w w') (hvalid : w.clock = .valid → f.currentOnly = false)
      (hpoint : w.clock.readsPoint → ¬ w.Empty) : Loses f w w' := by
    unfold BeginsBefore at hlate
    push Not at hlate
    obtain ⟨b', hb', hlater⟩ := hlate
    obtain ⟨b, hb⟩ := Option.isSome_iff_exists.1 (hstart (by simp [Option.mem_def.1 hb']))
    exact loses_of_begins (hlater b hb) hb hb' hclock hvalid hpoint
  have hends (hearly : ¬ EndsAfter w w') (hpoint : w.clock.readsPoint → ¬ w.Empty) :
      Loses f w w' := by
    unfold EndsAfter at hearly
    push Not at hearly
    obtain ⟨e', he', hearlier⟩ := hearly
    obtain ⟨e, he⟩ := Option.isSome_iff_exists.1 (hstop (by simp [Option.mem_def.1 he']))
    exact loses_of_ends (hearlier e he) he he' hclock hpoint
  unfold Keeps at hnot
  cases hw : w.clock with
  | occurred =>
    rw [hw] at hnot
    have hpoint : w.clock.readsPoint → ¬ w.Empty := fun hreads => by
      rw [hw] at hreads
      exact absurd hreads Bool.false_ne_true
    rcases not_and_or.1 hnot with hlate | hearly
    · exact hbegins hlate (fun hvalid => by rw [hw] at hvalid; cases hvalid) hpoint
    · exact hends hearly hpoint
  | valid =>
    rw [hw] at hnot
    have hpoint : w.clock.readsPoint → ¬ w.Empty := fun hreads => by
      rw [hw] at hreads
      exact absurd hreads Bool.false_ne_true
    rcases not_and_or.1 hnot with hlate | hearly
    · obtain ⟨hcurrent, hlate⟩ := not_or.1 hlate
      exact hbegins hlate (fun _ => Bool.eq_false_iff.2 hcurrent) hpoint
    · exact hends hearly hpoint
  | _ =>
    rw [hw] at hnot
    obtain ⟨hempty, hnot⟩ := not_or.1 hnot
    rcases not_and_or.1 hnot with hlate | hearly
    · exact hbegins hlate (fun hvalid => by rw [hw] at hvalid; cases hvalid) fun _ => hempty
    · exact hends hearly fun _ => hempty

/-- What it means that an item passes the filters. -/
structure Admitted (lib : FilterLib) (t : Tables) (f : Filters) (access : Access)
    (item : ItemRecord) : Prop where
  mandatory : mandatory access item.toItemContent = true
  kind : f.kinds = [] ∨ item.kind ∈ f.kinds
  subtype : f.subtypes = [] ∨ item.subtype.any (· ∈ f.subtypes) = true
  state : f.states = [] ∨ item.state ∈ f.states
  category : f.category.getD "" = "" ∨
    t.inCategory (f.category.getD "") item.toItemContent = true
  entity : f.entityIds = [] ∨ t.names f item = true
  predicate : f.predicate.getD "" = "" ∨ item.predicate = f.predicate
  «attribute» : ∀ x ∈ f.attribute,
    (lib.textAt item.attributes x.1).any (lib.folded · ∈ variants lib x.2) = true
  current : f.currentOnly = true → item.validTo = none
  window : ∀ w ∈ f.window, t.within w item = true

theorem admits_iff {t : Tables} {access : Access} {item : ItemRecord} :
    t.admits lib f access item = true ↔ Admitted lib t f access item := by
  unfold Tables.admits
  simp only [Bool.and_eq_true_iff, Bool.or_eq_true_iff, decide_eq_true_iff, Option.all_eq_true]
  constructor
  · rintro ⟨⟨⟨⟨⟨⟨⟨⟨⟨h₁, h₂⟩, h₃⟩, h₄⟩, h₅⟩, h₆⟩, h₇⟩, h₈⟩, h₉⟩, h₁₀⟩
    exact ⟨h₁, h₂, h₃, h₄, h₅, h₆, h₇, h₈, fun hcurrent => by simpa [hcurrent] using h₉, h₁₀⟩
  · rintro ⟨h₁, h₂, h₃, h₄, h₅, h₆, h₇, h₈, h₉, h₁₀⟩
    refine ⟨⟨⟨⟨⟨⟨⟨⟨⟨h₁, h₂⟩, h₃⟩, h₄⟩, h₅⟩, h₆⟩, h₇⟩, h₈⟩, ?_⟩, h₁₀⟩
    cases hcurrent : f.currentOnly with
    | false => exact .inl rfl
    | true => exact .inr (h₉ hcurrent)

variable (lib) in
/-- **One window for another** admits more just when it keeps all. -/
theorem wider_window_iff (hcategory : f.category.getD "" = "") (hsubtypes : f.subtypes = [])
    (hstates : f.states = []) (hclock : w'.clock = w.clock)
    (hstart : w'.start.isSome → w.start.isSome) (hstop : w'.stop.isSome → w.stop.isSome) :
    Wider lib { f with window := some w } { f with window := some w' } ↔
      (AttributeMet lib f → Keeps w w' f.currentOnly) := by
  constructor
  · intro hwider hmet
    by_contra hnot
    obtain ⟨m, hcurrent, hloses⟩ := loses_of_not_keeps hclock hstart hstop hnot
    obtain ⟨attributes, hattribute⟩ : ∃ attributes, ∀ x ∈ f.attribute,
        (lib.textAt attributes x.1).any (lib.folded · ∈ variants lib x.2) = true := by
      cases hx : f.attribute with
      | none => exact ⟨.null, fun x hx => absurd hx (Option.not_mem_none x)⟩
      | some x =>
        obtain ⟨attributes, hmatch⟩ := hmet x hx
        refine ⟨attributes, fun x' hx' => ?_⟩
        obtain rfl := Option.some.inj hx'
        exact hmatch
    obtain ⟨hin, hout⟩ := hloses attributes
    have hadmits := hwider (m.tables f attributes) {} (m.item f attributes)
      (mem_rows_single.2 rfl)
      (by rw [admits_tables hcategory hsubtypes hstates hcurrent hattribute, hin])
    rw [admits_tables hcategory hsubtypes hstates hcurrent hattribute, hout] at hadmits
    exact absurd hadmits Bool.false_ne_true
  · intro hkeeps t access item _ hadmits
    have hadmitted := admits_iff.1 hadmits
    have hmet : AttributeMet lib f := fun x hx => ⟨item.attributes, hadmitted.attribute x hx⟩
    refine admits_iff.2 { hadmitted with window := ?_ }
    intro w₁ hw₁
    obtain rfl := Option.some.inj hw₁
    exact within_of_keeps hclock (hkeeps hmet) hadmitted.current (hadmitted.window w rfl)

theorem Wider.trans {f g h : Filters} (hfg : Wider lib f g) (hgh : Wider lib g h) :
    Wider lib f h := by
  intro t access item hitem hadmits
  exact hgh t access item hitem (hfg t access item hitem hadmits)

instance : Trans (Wider lib) (Wider lib) (Wider lib) := ⟨Wider.trans⟩

end

end SecondMind
