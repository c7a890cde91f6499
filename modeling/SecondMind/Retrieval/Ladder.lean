import SecondMind.Calendar.Months
import SecondMind.Ingestion.TimeDates
import SecondMind.Retrieval.Filters

/-!
# The relaxation ladder

`_ladder` and `_month_window` of `retrieval/pipeline.py`: what a part asks for, loosened one filter
at a time.

* `ladder` — the filters of each step;
* `OnlyWidens` — no step loses what an earlier one finds;
* `WindowFilter.InOrder` — the wall clock at the ends of a window agrees with the months;
* `ladder_widens_iff` — when a ladder only widens;
* `repeated_hour_lost` — an item of an hour that the clock showed twice, at the end of a month.
-/

namespace SecondMind

open Gregorian Keyed

variable (lib : FilterLib)

/-! ## The ladder -/

inductive RelaxStep
  | category | subtype | state | windowMonth | windowWide | entity
  deriving DecidableEq, Repr

/-- A step of the ladder: the filters that it tries, and what it says of them. -/
structure LadderStep where
  step : RelaxStep
  filters : Filters
  change : String

/-- The first of a month of the wall clock, and the first after another. -/
structure MonthSpan where
  clock : RecallClock
  start : Option Date
  stop : Option Date

section

open Time

/-- The day that the wall clock shows. -/
def localDay (zone : Zone) (u : Instant) : Attempt Date := do
  dateOf ((← checked (zone.toLocal u)) / SecondMind.day)

/-- `first_of`. -/
def firstOf (date : Date) (shift : Int) : Attempt Date :=
  -- the two loops carry the months over into years
  newDate (date.year + (date.month + shift - 1) / 12) ((date.month + shift - 1) % 12 + 1) 1

/-- `_month_window`, around the days on which a window begins and ends. -/
def MonthSpan.around (clock : RecallClock) (days : Option Date × Option Date) (pad : Int) :
    Attempt MonthSpan := do
  let start ← days.1.mapM (firstOf · (-pad))
  let stop ← days.2.mapM (firstOf · (1 + pad))
  return { clock := clock, start := start, stop := stop }

/-- The days of the zone on which a window of the plan begins and ends: its ends are in UTC. -/
def daysOf (zone : Zone) (w : Window) : Attempt (Option Date × Option Date) := do
  let start ← w.start.mapM (localDay zone)
  let last ← w.stop.mapM fun stop => localDay zone (stop - 1)
  return (start, last)

/-- The days on which months begin and end: their ends are midnights of the zone already, and a
microsecond less is the day before on the wall clock. -/
def MonthSpan.days (month : MonthSpan) : Attempt (Option Date × Option Date) := do
  let last ← month.stop.mapM (addDays · (-1))
  return (month.start, last)

/-- The instant of a midnight of the zone. -/
def midnight (zone : Zone) (date : Date) : Instant := zone.ofLocal (date.ordinal * SecondMind.day)

/-- The months as a filter. -/
def MonthSpan.filter (zone : Zone) (month : MonthSpan) : WindowFilter :=
  ⟨month.clock, month.start.map (midnight zone), month.stop.map (midnight zone)⟩

/-- `_label`. -/
def spanText (days : Option Date × Option Date) : String :=
  (days.1.map lib.day).getD "the start" ++ " to " ++ (days.2.map lib.day).getD "now"

/-- A filter that is dropped, where it is given. -/
def dropIf (given : Bool) (step : RelaxStep) (loosened : Filters) (change : String) :
    Attempt (List LadderStep) :=
  .ok (if given then [⟨step, loosened, change⟩] else [])

def dropCategory (f : Filters) : Attempt (List LadderStep) :=
  let category := f.category.getD ""
  dropIf (category ≠ "") .category { f with category := none } s!"dropped the category {category}"

def dropSubtypes (f : Filters) : Attempt (List LadderStep) :=
  dropIf (f.subtypes ≠ []) .subtype { f with subtypes := [] }
    ("dropped the subtype " ++ ", ".intercalate f.subtypes)

def dropStates (f : Filters) : Attempt (List LadderStep) :=
  dropIf (f.states ≠ []) .state { f with states := [] }
    ("dropped the state " ++ ", ".intercalate f.states)

/-- The window is widened to its months, and then by a month on each side. -/
def widenWindow (zone : Zone) (sub : SubQuery) (f : Filters) : Attempt (List LadderStep) :=
  match f.window, sub.window with
  | some w, some asked => do
    let days ← daysOf zone ⟨w.start, w.stop⟩
    let month ← MonthSpan.around w.clock days 0
    let monthDays ← month.days
    let wide ← MonthSpan.around w.clock monthDays 1
    let wideDays ← wide.days
    let askedDays ← daysOf zone asked.toWindow
    let first := { f with window := some (month.filter zone) }
    let second := { f with window := some (wide.filter zone) }
    return [⟨.windowMonth, first,
        s!"nothing '{asked.expression}' ({spanText lib askedDays}); widened to " ++
          spanText lib monthDays⟩,
      ⟨.windowWide, second, s!"widened again to {spanText lib wideDays}"⟩]
  | _, _ => .ok []

def dropEntities (sub : SubQuery) (f : Filters) : Attempt (List LadderStep) :=
  dropIf (f.entityIds ≠ [] ∧ !sub.missingEntity) .entity { f with entityIds := [], roles := [] }
    "dropped the person or thing"

/-- The filters that the steps leave. -/
def loosenedBy (f : Filters) : List LadderStep → Filters
  | [] => f
  | step :: steps => loosenedBy step.filters steps

/-- One loosening after the other, each of what the one before left. -/
def climb (f : Filters) : List (Filters → Attempt (List LadderStep)) → Attempt (List LadderStep)
  | [] => .ok []
  | stage :: stages => do
    let steps ← stage f
    let rest ← climb (loosenedBy f steps) stages
    return steps ++ rest

/-- `_ladder`. -/
def ladder (zone : Zone) (sub : SubQuery) (filters : Filters) : Attempt (List LadderStep) :=
  climb filters
    [dropCategory, dropSubtypes, dropStates, widenWindow lib zone sub, dropEntities sub]

end

/-! ## What it means to widen -/

/-- **The law**: what the plan's filters or a step of the ladder admit, every later step admits. -/
def OnlyWidens (filters : Filters) (steps : List LadderStep) : Prop :=
  (filters :: steps.map (·.filters)).Pairwise (Wider lib)

/-- Where the window begins, every month that the clock shows to have begun has begun. -/
def BeginsInOrder (zone : Zone) (w : WindowFilter) : Prop :=
  ∀ start ∈ w.start, ∀ first : Date, first.day = 1 →
    first.ordinal * day ≤ zone.toLocal start → midnight zone first ≤ start

/-- At the last moment of the window, no month that the clock shows to be ahead has begun. -/
def EndsInOrder (zone : Zone) (w : WindowFilter) : Prop :=
  ∀ stop ∈ w.stop, ∀ first : Date, first.day = 1 →
    zone.toLocal (stop - 1) < first.ordinal * day → stop - 1 < midnight zone first

/-- The wall clock is in order at the ends of the window, as far as its own clock reads them. -/
def WindowFilter.InOrder (w : WindowFilter) (zone : Zone) (currentOnly : Bool) : Prop :=
  match w.clock with
  | .occurred => BeginsInOrder zone w ∧ EndsInOrder zone w
  | .valid => (currentOnly = true ∨ BeginsInOrder zone w) ∧ EndsInOrder zone w
  | .due | .mentioned | .trigger => w.Empty ∨ BeginsInOrder zone w ∧ EndsInOrder zone w

section

open Time

/-! ## Months on the wall clock -/

variable {zone : Zone} {date first month : Date}

theorem firstOf_spec {shift : Int} (h : firstOf date shift = .ok first) :
    first.day = 1 ∧ first.monthNumber = date.monthNumber + shift := by
  obtain ⟨hyear, hmonth, hday⟩ := newDate_eq_ok.1 h
  refine ⟨hday, ?_⟩
  unfold Date.monthNumber
  rw [hyear, hmonth]
  omega

/-- A midnight that the clock shows two days ago is past. -/
theorem midnight_past {u : Int} (h : first.ordinal * day + 2 * day ≤ zone.toLocal u) :
    midnight zone first < u := by
  have hmidnight := zone.ofLocal_lt (first.ordinal * day)
  have hlocal := (zone.toLocal_near u).2
  calc midnight zone first < first.ordinal * day + day := hmidnight
    _ < u := by omega

/-- A midnight that the clock shows in two days is to come. -/
theorem midnight_ahead {u : Int} (h : zone.toLocal u + 2 * day ≤ first.ordinal * day) :
    u < midnight zone first := by
  have hmidnight := zone.lt_ofLocal (first.ordinal * day)
  have hlocal := (zone.toLocal_near u).1
  calc u < first.ordinal * day - day := by omega
    _ < midnight zone first := hmidnight

theorem ordinal_le_iff {u : Int} (hdate : date.ordinal = zone.toLocal u / day) :
    first.ordinal ≤ date.ordinal ↔ first.ordinal * day ≤ zone.toLocal u := by
  rw [hdate]
  exact Int.le_ediv_iff_mul_le (by decide)

/-- Of the months that the clock shows to have begun, only the last may begin late. -/
theorem begun_iff {u : Int} (hdate : date.ordinal = zone.toLocal u / day)
    (hmonth : month.day = 1) (hnumber : month.monthNumber = date.monthNumber) :
    midnight zone month ≤ u ↔ ∀ first : Date, first.day = 1 →
      first.ordinal * day ≤ zone.toLocal u → midnight zone first ≤ u := by
  have hbegun := (ordinal_le_iff hdate).1 ((Date.first_le_iff hmonth).2 hnumber.le)
  constructor
  · intro hpast first hfirst hshown
    have hle := (Date.first_le_iff hfirst).1 ((ordinal_le_iff hdate).2 hshown)
    rcases eq_or_lt_of_le hle with heq | hlt
    · have hsame : first.ordinal = month.ordinal := by
        rw [Date.ordinal_of_first hfirst, Date.ordinal_of_first hmonth, heq, hnumber]
      rwa [midnight, hsame]
    · have hapart := Date.first_add_le hfirst hmonth (hnumber ▸ hlt)
      refine (midnight_past (le_trans ?_ hbegun)).le
      rw [← add_mul]
      exact mul_le_mul_of_nonneg_right (by omega) (by decide)
  · intro hall
    exact hall month hmonth hbegun

/-- Of the months that the clock shows to be ahead, only the next may begin early. -/
theorem ahead_iff {u : Int} (hdate : date.ordinal = zone.toLocal u / day)
    (hmonth : month.day = 1) (hnumber : month.monthNumber = date.monthNumber + 1) :
    u < midnight zone month ↔ ∀ first : Date, first.day = 1 →
      zone.toLocal u < first.ordinal * day → u < midnight zone first := by
  have hshown {first : Date} (hfirst : first.day = 1) :
      zone.toLocal u < first.ordinal * day ↔ date.monthNumber < first.monthNumber := by
    rw [← not_le, ← ordinal_le_iff hdate, Date.first_le_iff hfirst, not_le]
  constructor
  · intro hahead first hfirst hlater
    have hle : month.monthNumber ≤ first.monthNumber := by
      have hlt := (hshown hfirst).1 hlater
      omega
    rcases eq_or_lt_of_le hle with heq | hlt
    · have hsame : first.ordinal = month.ordinal := by
        rw [Date.ordinal_of_first hfirst, Date.ordinal_of_first hmonth, heq]
      rwa [midnight, hsame]
    · have hapart := Date.first_add_le hmonth hfirst hlt
      have hlocal := (hshown hmonth).2 (by omega)
      refine midnight_ahead ?_
      calc zone.toLocal u + 2 * day ≤ month.ordinal * day + 28 * day := by
            have hday : 0 < day := by decide
            omega
        _ = (month.ordinal + 28) * day := (add_mul _ _ _).symm
        _ ≤ first.ordinal * day := mul_le_mul_of_nonneg_right hapart (by decide)
  · intro hall
    exact hall month hmonth ((hshown hmonth).2 (by omega))

/-! ## The months of a window -/

theorem rel_of_mapM {α β : Type} {f : α → Attempt β} {o : Option α} {o' : Option β}
    (h : o.mapM f = .ok o') : o.Rel (fun a b => f a = .ok b) o' := by
  cases o with
  | none =>
    cases h
    exact .none
  | some a =>
    obtain ⟨b, hb, h⟩ := bind_eq_ok.1 h
    cases h
    exact .some hb

theorem localDay_spec {u : Int} (h : localDay zone u = .ok date) :
    date.ordinal = zone.toLocal u / day := by
  obtain ⟨shown, hshown, h⟩ := bind_eq_ok.1 h
  rw [← eq_of_checked hshown, ordinal_of_dateOf h]

/-- The first is that of the month which is `shift` months from the one that the clock shows. -/
def IsFirst (zone : Zone) (u : Int) (shift : Int) (first : Date) : Prop :=
  first.day = 1 ∧ ∃ date : Date, date.ordinal = zone.toLocal u / day ∧
    first.monthNumber = date.monthNumber + shift

theorem isSome_of_rel {α β : Type} {R : α → β → Prop} {o : Option α} {o' : Option β}
    (h : o.Rel R o') : o.isSome = o'.isSome := by
  cases h <;> rfl

theorem isFirst_of_rel {o : Option Int} {o' : Option Date} {u : Int → Int} {shift : Int}
    (h : o.Rel (fun x => IsFirst zone (u x) shift) o') : ∀ first ∈ o', first.day = 1 := by
  intro first hfirst
  cases h with
  | none => exact absurd hfirst (Option.not_mem_none first)
  | some hspec =>
    obtain rfl := Option.some.inj hfirst
    exact hspec.1

variable {w : WindowFilter} {days : Option Date × Option Date} {span : MonthSpan}

theorem around_spec {clock : RecallClock} {pad : Int}
    (h : MonthSpan.around clock days pad = .ok span) :
    span.clock = clock ∧
      days.1.Rel (fun date first =>
        first.day = 1 ∧ first.monthNumber = date.monthNumber - pad) span.start ∧
      days.2.Rel (fun date first =>
        first.day = 1 ∧ first.monthNumber = date.monthNumber + (1 + pad)) span.stop := by
  obtain ⟨first, last⟩ := days
  obtain ⟨start, hstart, h⟩ := bind_eq_ok.1 h
  obtain ⟨stop, hstop, h⟩ := bind_eq_ok.1 h
  cases h
  refine ⟨rfl, ?_, ?_⟩
  · cases rel_of_mapM hstart with
    | none => exact .none
    | some hfirst => exact .some (firstOf_spec hfirst)
  · cases rel_of_mapM hstop with
    | none => exact .none
    | some hfirst => exact .some (firstOf_spec hfirst)

/-- **The months of a window** are the one in which it begins and the one after it ends. -/
theorem month_spec (hdays : daysOf zone ⟨w.start, w.stop⟩ = .ok days)
    (hspan : MonthSpan.around w.clock days 0 = .ok span) :
    span.clock = w.clock ∧ w.start.Rel (fun u => IsFirst zone u 0) span.start ∧
      w.stop.Rel (fun u => IsFirst zone (u - 1) 1) span.stop := by
  obtain ⟨clock, begins, ends⟩ := w
  obtain ⟨clock', begins', ends'⟩ := span
  obtain ⟨hclock, hfirst, hnext⟩ := around_spec hspan
  obtain ⟨start, hstart, hdays⟩ := bind_eq_ok.1 hdays
  obtain ⟨last, hlast, hdays⟩ := bind_eq_ok.1 hdays
  cases hdays
  refine ⟨hclock, ?_, ?_⟩
  · cases rel_of_mapM hstart with
    | none =>
      cases hfirst
      exact .none
    | some hday =>
      cases hfirst with
      | some hfirst => exact .some ⟨hfirst.1, _, localDay_spec hday, by simpa using hfirst.2⟩
  · cases rel_of_mapM hlast with
    | none =>
      cases hnext
      exact .none
    | some hday =>
      cases hnext with
      | some hnext => exact .some ⟨hnext.1, _, localDay_spec hday, by simpa using hnext.2⟩

/-- A month makes more than the offsets of the zone. -/
theorem midnight_lt {first' : Date} (h : first.ordinal + 28 ≤ first'.ordinal) :
    midnight zone first < midnight zone first' := by
  calc midnight zone first < first.ordinal * day + day := zone.ofLocal_lt _
    _ ≤ (first.ordinal + 28) * day - day := by
        have hday : 0 < day := by decide
        rw [add_mul]
        omega
    _ ≤ first'.ordinal * day - day :=
        sub_le_sub_right (mul_le_mul_of_nonneg_right h (by decide)) day
    _ < midnight zone first' := zone.lt_ofLocal _

/-- **A month more on each side** is more. -/
theorem covers_wide {wide : MonthSpan} (hspan : ∀ first ∈ span.start, first.day = 1)
    (hspan' : ∀ next ∈ span.stop, next.day = 1) (hdays : span.days = .ok days)
    (hwide : MonthSpan.around span.clock days 1 = .ok wide) :
    Covers (span.filter zone) (wide.filter zone) := by
  obtain ⟨clock, start, stop⟩ := span
  obtain ⟨hclock, hfirst, hnext⟩ := around_spec hwide
  obtain ⟨last, hlast, hdays⟩ := bind_eq_ok.1 hdays
  cases hdays
  refine ⟨hclock, ?_, ?_⟩
  · intro begins' hbegins'
    obtain ⟨earlier, hearlier, rfl⟩ := Option.map_eq_some_iff.1 hbegins'
    rw [hearlier] at hfirst
    cases hfirst with
    | some hfirst =>
      rename_i first
      have hday := hspan first rfl
      have hnumber : earlier.monthNumber < first.monthNumber := by omega
      exact ⟨_, rfl, (midnight_lt (Date.first_add_le hfirst.1 hday hnumber)).le⟩
  · intro ends' hends'
    obtain ⟨later, hlater, rfl⟩ := Option.map_eq_some_iff.1 hends'
    rw [hlater] at hnext
    cases rel_of_mapM hlast with
    | none => cases hnext
    | some hbefore =>
      cases hnext with
      | some hnext =>
        rename_i next before
        have hday := hspan' next rfl
        have hordinal := ordinal_of_dateOf hbefore
        have hnumber : next.monthNumber < later.monthNumber := by
          have hmonth : next.monthNumber ≤ before.monthNumber + 1 :=
            Date.monthNumber_le_of_before hday (by omega)
          have hlater := hnext.2
          omega
        exact ⟨_, rfl, (midnight_lt (Date.first_add_le hday hnext.1 hnumber)).le⟩

theorem beginsInOrder_iff (hdays : daysOf zone ⟨w.start, w.stop⟩ = .ok days)
    (hspan : MonthSpan.around w.clock days 0 = .ok span) : BeginsInOrder zone w ↔
      BeginsBefore w (span.filter zone) := by
  obtain ⟨-, hfirst, -⟩ := month_spec hdays hspan
  obtain ⟨clock, start, stop⟩ := w
  obtain ⟨clock', start', stop'⟩ := span
  cases hfirst with
  | none => simp [BeginsInOrder, BeginsBefore, MonthSpan.filter]
  | some hfirst =>
    obtain ⟨hday, date, hdate, hnumber⟩ := hfirst
    have hbegun := begun_iff hdate hday (hnumber.trans (add_zero _))
    simpa [BeginsInOrder, BeginsBefore, MonthSpan.filter] using hbegun.symm

theorem endsInOrder_iff (hdays : daysOf zone ⟨w.start, w.stop⟩ = .ok days)
    (hspan : MonthSpan.around w.clock days 0 = .ok span) : EndsInOrder zone w ↔
      EndsAfter w (span.filter zone) := by
  obtain ⟨-, -, hnext⟩ := month_spec hdays hspan
  obtain ⟨clock, start, stop⟩ := w
  obtain ⟨clock', start', stop'⟩ := span
  cases hnext with
  | none => simp [EndsInOrder, EndsAfter, MonthSpan.filter]
  | some hnext =>
    obtain ⟨hday, date, hdate, hnumber⟩ := hnext
    have hahead := ahead_iff hdate hday hnumber
    simpa [EndsInOrder, EndsAfter, MonthSpan.filter, Int.sub_one_lt_iff] using hahead.symm

end

/-! ## The whole ladder -/

section

variable {lib} {f : Filters} {w : WindowFilter}

theorem onlyWidens_nil : OnlyWidens lib f [] := List.pairwise_singleton _ _

theorem onlyWidens_cons {step : LadderStep} {steps : List LadderStep} :
    OnlyWidens lib f (step :: steps) ↔
      Wider lib f step.filters ∧ OnlyWidens lib step.filters steps := by
  unfold OnlyWidens
  rw [← List.isChain_iff_pairwise, ← List.isChain_iff_pairwise]
  exact List.isChain_cons_cons

theorem onlyWidens_append {steps steps' : List LadderStep} :
    OnlyWidens lib f (steps ++ steps') ↔
      OnlyWidens lib f steps ∧ OnlyWidens lib (loosenedBy f steps) steps' := by
  induction steps generalizing f with
  | nil => exact (and_iff_right onlyWidens_nil).symm
  | cons step steps ih =>
    rw [List.cons_append, onlyWidens_cons, onlyWidens_cons, ih, and_assoc]
    rfl

section

open Time

variable {steps : List LadderStep}

/-- A filter that is dropped: the step, and what it leaves. -/
theorem dropIf_spec {given : Bool} {step : RelaxStep} {loosened : Filters} {change : String}
    (h : dropIf given step loosened change = .ok steps) (hwider : Wider lib f loosened) :
    OnlyWidens lib f steps ∧ loosenedBy f steps = if given then loosened else f := by
  cases h
  cases given with
  | false => exact ⟨onlyWidens_nil, rfl⟩
  | true => exact ⟨onlyWidens_cons.2 ⟨hwider, onlyWidens_nil⟩, rfl⟩

variable (lib) in
theorem dropCategory_spec (h : dropCategory f = .ok steps) :
    OnlyWidens lib f steps ∧ ∃ category : Option String,
      category.getD "" = "" ∧ loosenedBy f steps = { f with category := category } := by
  have hwider : Wider lib f { f with category := none } := by
    intro t access item _ hadmits
    exact admits_iff.2 { admits_iff.1 hadmits with category := .inl rfl }
  obtain ⟨hwidens, hleft⟩ := dropIf_spec h hwider
  refine ⟨hwidens, ?_⟩
  by_cases hcategory : f.category.getD "" = ""
  · exact ⟨f.category, hcategory, by simpa [hcategory] using hleft⟩
  · exact ⟨none, rfl, by simpa [hcategory] using hleft⟩

variable (lib) in
theorem dropSubtypes_spec (h : dropSubtypes f = .ok steps) :
    OnlyWidens lib f steps ∧ loosenedBy f steps = { f with subtypes := [] } := by
  have hwider : Wider lib f { f with subtypes := [] } := by
    intro t access item _ hadmits
    exact admits_iff.2 { admits_iff.1 hadmits with subtype := .inl rfl }
  obtain ⟨hwidens, hleft⟩ := dropIf_spec h hwider
  refine ⟨hwidens, ?_⟩
  by_cases hsubtypes : f.subtypes = []
  · rw [hleft, if_neg (by simpa using hsubtypes), ← hsubtypes]
  · rw [hleft, if_pos (by simpa using hsubtypes)]

variable (lib) in
theorem dropStates_spec (h : dropStates f = .ok steps) :
    OnlyWidens lib f steps ∧ loosenedBy f steps = { f with states := [] } := by
  have hwider : Wider lib f { f with states := [] } := by
    intro t access item _ hadmits
    exact admits_iff.2 { admits_iff.1 hadmits with state := .inl rfl }
  obtain ⟨hwidens, hleft⟩ := dropIf_spec h hwider
  refine ⟨hwidens, ?_⟩
  by_cases hstates : f.states = []
  · rw [hleft, if_neg (by simpa using hstates), ← hstates]
  · rw [hleft, if_pos (by simpa using hstates)]

variable (lib) in
theorem dropEntities_widens {sub : SubQuery} (h : dropEntities sub f = .ok steps) :
    OnlyWidens lib f steps := by
  have hwider : Wider lib f { f with entityIds := [], roles := [] } := by
    intro t access item _ hadmits
    exact admits_iff.2 { admits_iff.1 hadmits with entity := .inl rfl }
  exact (dropIf_spec h hwider).1

variable {zone : Zone} {sub : SubQuery}

theorem inOrder_iff_keeps {days : Option Date × Option Date} {span : MonthSpan} {currentOnly : Bool}
    (hdays : daysOf zone ⟨w.start, w.stop⟩ = .ok days)
    (hspan : MonthSpan.around w.clock days 0 = .ok span) :
    w.InOrder zone currentOnly ↔ Keeps w (span.filter zone) currentOnly := by
  have hbegins := beginsInOrder_iff hdays hspan
  have hends := endsInOrder_iff hdays hspan
  unfold WindowFilter.InOrder Keeps
  cases hclock : w.clock with
  | occurred => exact and_congr hbegins hends
  | valid => exact and_congr (or_congr_right hbegins) hends
  | due => exact or_congr_right (and_congr hbegins hends)
  | mentioned => exact or_congr_right (and_congr hbegins hends)
  | trigger => exact or_congr_right (and_congr hbegins hends)

/-- **The two steps of a window**: the second never loses anything, and the first does not just when
the clock is in order. -/
theorem widenWindow_spec (hcategory : f.category.getD "" = "") (hsubtypes : f.subtypes = [])
    (hstates : f.states = []) (h : widenWindow lib zone sub f = .ok steps) :
    OnlyWidens lib f steps ↔ (AttributeMet lib f → sub.window ≠ none →
      ∀ w ∈ f.window, w.InOrder zone f.currentOnly) := by
  unfold widenWindow at h
  cases hwindow : f.window with
  | none =>
    rw [hwindow] at h
    cases h
    exact iff_of_true onlyWidens_nil fun _ _ w hw => absurd hw (Option.not_mem_none w)
  | some w =>
    cases hasked : sub.window with
    | none =>
      rw [hwindow, hasked] at h
      cases h
      exact iff_of_true onlyWidens_nil fun _ hnone => absurd rfl hnone
    | some asked =>
      rw [hwindow, hasked] at h
      obtain ⟨days, hdays, h⟩ := bind_eq_ok.1 h
      obtain ⟨month, hmonth, h⟩ := bind_eq_ok.1 h
      obtain ⟨monthDays, hmonthDays, h⟩ := bind_eq_ok.1 h
      obtain ⟨wide, hwide, h⟩ := bind_eq_ok.1 h
      obtain ⟨wideDays, -, h⟩ := bind_eq_ok.1 h
      obtain ⟨askedDays, -, h⟩ := bind_eq_ok.1 h
      cases h
      obtain ⟨hclock, hfirst, hnext⟩ := month_spec hdays hmonth
      have hsame : f = { f with window := some w } := by rw [← hwindow]
      have hsecond : Wider lib { f with window := some (month.filter zone) }
          { f with window := some (wide.filter zone) } := by
        rw [← hclock] at hwide
        have hcovers : Covers (month.filter zone) (wide.filter zone) :=
          covers_wide (isFirst_of_rel hfirst) (isFirst_of_rel hnext) hmonthDays hwide
        intro t access item _ hadmits
        have hadmitted := admits_iff.1 hadmits
        refine admits_iff.2 { hadmitted with window := ?_ }
        intro w₁ hw₁
        obtain rfl := Option.some.inj hw₁
        exact within_mono hcovers (hadmitted.window _ rfl)
      rw [onlyWidens_cons, onlyWidens_cons, and_iff_left ⟨hsecond, onlyWidens_nil⟩]
      have hiff : Wider lib { f with window := some w } { f with window := some (month.filter zone) } ↔
          (AttributeMet lib f → Keeps w (month.filter zone) f.currentOnly) :=
        wider_window_iff lib hcategory hsubtypes hstates hclock
        (fun h => by simpa [MonthSpan.filter, isSome_of_rel hfirst] using h)
        (fun h => by simpa [MonthSpan.filter, isSome_of_rel hnext] using h)
      rw [← hsame] at hiff
      rw [hiff, ← inOrder_iff_keeps hdays hmonth]
      simp

theorem climb_cons_eq_ok {stage : Filters → Attempt (List LadderStep)}
    {stages : List (Filters → Attempt (List LadderStep))} :
    climb f (stage :: stages) = .ok steps ↔ ∃ s r, stage f = .ok s ∧
      climb (loosenedBy f s) stages = .ok r ∧ steps = s ++ r := by
  constructor
  · intro h
    obtain ⟨s, hs, h⟩ := bind_eq_ok.1 h
    obtain ⟨r, hr, h⟩ := bind_eq_ok.1 h
    cases h
    exact ⟨s, r, hs, hr, rfl⟩
  · rintro ⟨s, r, hs, hr, rfl⟩
    exact bind_eq_ok.2 ⟨s, hs, bind_eq_ok.2 ⟨r, hr, rfl⟩⟩

/-- **The ladder only widens** just when the wall clock is in order at the ends of its window. -/
theorem ladder_widens_iff {filters : Filters} (h : ladder lib zone sub filters = .ok steps) :
    OnlyWidens lib filters steps ↔ (AttributeMet lib filters → sub.window ≠ none →
      ∀ w ∈ filters.window, w.InOrder zone filters.currentOnly) := by
  obtain ⟨s₁, r₁, h₁, hrest₁, rfl⟩ := climb_cons_eq_ok.1 h
  obtain ⟨s₂, r₂, h₂, hrest₂, rfl⟩ := climb_cons_eq_ok.1 hrest₁
  obtain ⟨s₃, r₃, h₃, hrest₃, rfl⟩ := climb_cons_eq_ok.1 hrest₂
  obtain ⟨s₄, r₄, h₄, hrest₄, rfl⟩ := climb_cons_eq_ok.1 hrest₃
  obtain ⟨s₅, r₅, h₅, hrest₅, rfl⟩ := climb_cons_eq_ok.1 hrest₄
  cases hrest₅
  obtain ⟨hw₁, category, hcategory, hl₁⟩ := dropCategory_spec lib h₁
  rw [hl₁] at h₂ h₃ h₄ h₅
  obtain ⟨hw₂, hl₂⟩ := dropSubtypes_spec lib h₂
  rw [hl₂] at h₃ h₄ h₅
  obtain ⟨hw₃, hl₃⟩ := dropStates_spec lib h₃
  rw [hl₃] at h₄ h₅
  have hw₄ := widenWindow_spec hcategory rfl rfl h₄
  have hw₅ := dropEntities_widens lib h₅
  rw [onlyWidens_append, onlyWidens_append, onlyWidens_append, onlyWidens_append, List.append_nil,
    hl₁, hl₂, hl₃, and_iff_right hw₁, and_iff_right hw₂, and_iff_right hw₃, and_iff_left hw₅]
  exact hw₄

end

end

/-! ### The end of October 2009 in Newfoundland -/

/-- A library for filters that name no attribute. -/
def plainFilterLib : FilterLib := ⟨id, id, fun _ _ => none, fun _ => ""⟩

/-- At one minute past midnight on 1 November the clock was put back by an hour. -/
def newfoundland : Zone where
  initial := -(9000 * second)
  changes := [(733712 * day + 9060 * second, -(12600 * second))]
  ascending := List.pairwise_singleton _ _
  small := by decide

/-- The last four hours, at half past eleven on 31 October, for the second time. -/
def lastHours : WindowFilter :=
  ⟨.occurred, some (733711 * day + 23 * hour), some (733712 * day + 3 * hour)⟩

/-- "What did I do in the last four hours?" -/
def lastHoursAsked : SubQuery where
  shape := .timeWindow
  windows := [{ start := lastHours.start, stop := lastHours.stop
                expression := "the last four hours", clock := .occurred, precision := .datetime
                rule := "last_n_hours" }]

/-- Where the clock is never changed, the ladder only widens. -/
theorem lastHours_widens : ∃ steps, ladder plainFilterLib ⟨0, [], none_ascending, none_small⟩
      lastHoursAsked { window := some lastHours } = .ok steps ∧
    OnlyWidens plainFilterLib { window := some lastHours } steps := by
  obtain ⟨steps, hsteps⟩ : ∃ steps, ladder plainFilterLib ⟨0, [], none_ascending, none_small⟩
      lastHoursAsked { window := some lastHours } = .ok steps := ⟨_, rfl⟩
  refine ⟨steps, hsteps, (ladder_widens_iff hsteps).2 ?_⟩
  intro _ _ w hw
  obtain rfl := Option.some.inj hw
  refine ⟨?_, ?_⟩
  · intro start _ first _ hshown
    simpa [midnight, Zone.ofLocal, Zone.wallOffset, Zone.wallOffsetFrom, Zone.toLocal,
      Zone.offset, Zone.offsetFrom] using hshown
  · intro stop _ first _ hahead
    simpa [midnight, Zone.ofLocal, Zone.wallOffset, Zone.wallOffsetFrom, Zone.toLocal,
      Zone.offset, Zone.offsetFrom] using hahead

/-- The month of October ends at the first midnight, so that what was done after it is lost. -/
theorem repeated_hour_lost :
    ¬ ∀ (lib : FilterLib) (zone : Zone) (sub : SubQuery) (filters : Filters)
        (steps : List LadderStep), ladder lib zone sub filters = .ok steps →
      OnlyWidens lib filters steps := by
  intro h
  obtain ⟨steps, hsteps, hnobody⟩ : ∃ steps, widenWindow plainFilterLib newfoundland lastHoursAsked
      { window := some lastHours } = .ok steps ∧
      (loosenedBy { window := some lastHours } steps).entityIds = [] := ⟨_, rfl, rfl⟩
  have hladder : ladder plainFilterLib newfoundland lastHoursAsked
      { window := some lastHours } = .ok steps := by
    simp [ladder, climb, dropCategory, dropSubtypes, dropStates, dropEntities, dropIf, loosenedBy,
      hsteps, hnobody, Except.pure, pure, bind, Except.bind]
  have hwidens := (widenWindow_spec rfl rfl rfl hsteps).1 (h _ _ _ _ _ hladder)
    (fun x hx => absurd hx (Option.not_mem_none x)) (Option.some_ne_none _) lastHours rfl
  have hahead := hwidens.2 _ rfl ⟨733712, by decide, by decide⟩ (by decide +kernel) (by decide)
  exact absurd hahead (by decide)

end SecondMind
