import SecondMind.Calendar.Names
import SecondMind.Ingestion.TimeResolve

/-!
# Time expressions: the dates of what is stored

`ingestion/time.py`: a span of the calendar comes to the moment of a time of its first day, and the
helpers that look for a day of a month name what they find.

* `newDate_eq_ok`, `safeDate_eq_ok` — the date of a name, and the last day of a short month;
* `Day.Comes` — a moment of a day, and what is kept of its span;
* `applyTime_comes`, `resolveText_eq_ok` — where the moment of a resolved text comes from.
-/

namespace SecondMind

namespace Time

open Gregorian Regex Regex.Pattern

/-! ## Dates by name -/

theorem newDate_eq_ok {y m d : Int} {date : Date} :
    newDate y m d = .ok date ↔ date.year = y ∧ date.month = m ∧ date.day = d := by
  rw [← Date.ofYmd_eq_some_iff, newDate]
  cases Date.ofYmd y m d with
  | none => simp
  | some date' => simp

/-- The day that is named, or the last one of the month. -/
theorem safeDate_eq_ok {y m d : Int} {date : Date} : safeDate y m d = .ok date ↔
    date.year = y ∧ date.month = m ∧ date.day = min d (daysInMonth y m) := newDate_eq_ok

theorem dateOf_ordinal (date : Date) : dateOf date.ordinal = .ok date := by
  rw [dateOf, Date.ofOrdinal, dif_pos ⟨date.first, date.last⟩]

/-! ## Times of a day -/

theorem TimeOfDay.offset_bounds (t : TimeOfDay) : 0 ≤ t.offset ∧ t.offset < day := by
  have hhour := t.hourValid
  have hminute := t.minuteValid
  unfold TimeOfDay.offset day SecondMind.hour second
  omega

theorem TimeOfDay.second_dvd_offset (t : TimeOfDay) : second ∣ t.offset := by
  have hoffset : t.offset = second * (t.hour * 3600 + t.minute * 60) := by
    unfold TimeOfDay.offset SecondMind.hour
    ring
  exact Dvd.intro _ hoffset.symm

/-- The instant is that of a time of the date, in whole seconds. -/
def TurnNow.IsOn (now : TurnNow) (date : Date) (instant : Int) : Prop :=
  ∃ t, 0 ≤ t ∧ t < day ∧ second ∣ t ∧ now.at_ date t = .ok instant

theorem TurnNow.isOn_offset {now : TurnNow} {date : Date} {t : TimeOfDay} {instant : Int}
    (h : now.at_ date t.offset = .ok instant) : now.IsOn date instant :=
  ⟨t.offset, t.offset_bounds.1, t.offset_bounds.2, t.second_dvd_offset, h⟩

theorem TurnNow.isOn_midnight {now : TurnNow} {date : Date} {instant : Int}
    (h : now.at_ date 0 = .ok instant) : now.IsOn date instant :=
  ⟨0, le_rfl, by decide, Int.dvd_zero _, h⟩

/-- What a span comes to, with the time of day or without. -/
structure Day.Comes (d : Day) (ct : Option ClockTime) (now : TurnNow) (r : Resolved) : Prop where
  isOn : now.IsOn d.start r.start
  rrule : r.rrule = none
  precision : r.precision = d.precision ∨ d.precision = .day ∧ r.precision = .datetime
  assumed : r.assumed = true ↔ d.assumed = true ∨
    (d.precision = .day ∧ d.days = 1) ∧ ct.any (·.assumed) = true
  alternative : d.alternative.isSome = true ∨
    (d.precision = .day ∧ d.days = 1) ∧ (ct.bind insteadOf).isSome = true ↔
      r.alternative.isSome = true

/-- Without a time of day. -/
theorem comes_of_plain {d : Day} {ct : Option ClockTime} {now : TurnNow} {r : Resolved}
    (hbegins : now.at_ d.start 0 = .ok r.start) (hct : (d.precision = .day ∧ d.days = 1) → ct = none)
    (hrrule : r.rrule = none) (hprecision : r.precision = d.precision)
    (hassumed : r.assumed = d.assumed) (halternative : r.alternative = d.alternative) :
    d.Comes ct now r where
  isOn := TurnNow.isOn_midnight hbegins
  rrule := hrrule
  precision := .inl hprecision
  assumed := by
    rw [hassumed]
    refine ⟨.inl, fun h => h.resolve_right fun hct' => ?_⟩
    rw [hct hct'.1] at hct'
    exact absurd hct'.2 Bool.false_ne_true
  alternative := by
    rw [halternative]
    refine ⟨fun h => h.resolve_right fun hct' => ?_, .inl⟩
    rw [hct hct'.1] at hct'
    exact absurd hct'.2 Bool.false_ne_true

theorem at_of_dayWindow {now : TurnNow} {date : Date} {days : Int} {window : Int × Int}
    (h : now.dayWindow date days = .ok window) : now.at_ date 0 = .ok window.1 := by
  obtain ⟨begins, hbegins, h⟩ := bind_eq_ok.1 h
  obtain ⟨next, -, h⟩ := bind_eq_ok.1 h
  obtain ⟨stop, -, h⟩ := bind_eq_ok.1 h
  cases h
  exact hbegins

/-- **The moment of a span** is one of its first day. -/
theorem applyTime_comes {d : Day} {ct : Option ClockTime} {part : Option Part} {now : TurnNow}
    {r : Resolved} (h : applyTime d ct part now = .ok r) : d.Comes ct now r := by
  unfold applyTime at h
  by_cases hsingle : d.precision = .day ∧ d.days = 1
  · have hnone : (d.precision = .day ∧ d.days = 1) → (none : Option ClockTime) = none := fun _ => rfl
    simp only [hsingle, and_self, decide_true, if_true] at h
    cases ct with
    | some ct =>
      obtain ⟨begins, hbegins, h⟩ := bind_eq_ok.1 h
      cases h
      exact ⟨TurnNow.isOn_offset hbegins, rfl, .inr ⟨hsingle.1, rfl⟩, by simp [hsingle],
        by cases hi : insteadOf ct <;> simp [hsingle, hi]⟩
    | none =>
      cases part with
      | some part =>
        obtain ⟨begins, hbegins, h⟩ := bind_eq_ok.1 h
        obtain ⟨midnight, -, h⟩ := bind_eq_ok.1 h
        obtain ⟨ends, -, h⟩ := bind_eq_ok.1 h
        cases h
        exact ⟨TurnNow.isOn_offset hbegins, rfl, .inr ⟨hsingle.1, rfl⟩, by simp, by simp⟩
      | none =>
        obtain ⟨window, hwindow, h⟩ := bind_eq_ok.1 h
        obtain ⟨ends, -, h⟩ := bind_eq_ok.1 h
        cases h
        exact comes_of_plain (at_of_dayWindow hwindow) hnone rfl hsingle.1.symm rfl rfl
  · have hnot : decide (d.precision = .day ∧ d.days = 1) = false := decide_eq_false hsingle
    have hct : (d.precision = .day ∧ d.days = 1) → ct = none := fun h => absurd h hsingle
    rw [hnot] at h
    have hplain : ∃ window, now.dayWindow d.start d.days = .ok window ∧ r.start = window.1 ∧
        r.rrule = none ∧ r.precision = d.precision ∧ r.assumed = d.assumed ∧
        r.alternative = d.alternative := by
      -- whatever the time of day is, the span is taken as it is
      rcases ct with _ | ct <;> rcases part with _ | part <;>
        simp only [Bool.false_eq_true, if_false] at h
      all_goals
        obtain ⟨window, hwindow, h⟩ := bind_eq_ok.1 h
        refine ⟨window, hwindow, ?_⟩
        split at h
        · obtain ⟨next, -, h⟩ := bind_eq_ok.1 h
          obtain ⟨ends, -, h⟩ := bind_eq_ok.1 h
          cases h
          exact ⟨rfl, rfl, rfl, rfl, rfl⟩
        · obtain ⟨next, -, h⟩ := bind_eq_ok.1 h
          obtain ⟨ends, -, h⟩ := bind_eq_ok.1 h
          cases h
          exact ⟨rfl, rfl, rfl, rfl, rfl⟩
        · obtain ⟨ends, -, h⟩ := bind_eq_ok.1 h
          cases h
          exact ⟨rfl, rfl, rfl, rfl, rfl⟩
    obtain ⟨window, hwindow, hstart, hrrule, hprecision, hassumed, halternative⟩ := hplain
    exact comes_of_plain (hstart ▸ at_of_dayWindow hwindow) hct hrrule hprecision hassumed halternative

/-! ## What a text comes to -/

/-- What `resolve` makes of a text: a routine, an exact instant, or a day with a time. -/
inductive Reading (lib : TimeLib) (text : Text) (now : TurnNow) (direction : Direction)
    (recurring : Bool) (r : Resolved) : Prop
  | routine (eq : routine lib text now = .ok (some r))
  | exact (routine : routine lib text now = .ok none) (rest : Text) (ct : Option ClockTime)
      (part : Option Part) (clock : clockTime text = .ok (rest, ct, part))
      (eq : exactInstant rest now = .ok (some r))
  | day (routine : routine lib text now = .ok none) (rest : Text) (ct : Option ClockTime)
      (part : Option Part) (clock : clockTime text = .ok (rest, ct, part))
      (exact : exactInstant rest now = .ok none) (d : Day)
      (named : namedDay rest now direction = .ok (some d) ∨
        namedDay rest now direction = .ok none ∧ (nothingLeft rest = true ∧ (ct.isSome ∨ part.isSome)) ∧
          impliedDay ct now direction = .ok d)
      (once : Resolved) (timed : applyTime d ct part now = .ok once)
      (eq : (if recurring then yearly once now else .ok once) = .ok r)

theorem resolveText_eq_ok {lib : TimeLib} {expression : String} {text : Text} {now : TurnNow}
    {direction : Direction} {recurring : Bool} {r : Resolved} :
    resolveText lib expression text now direction recurring = .ok r ↔
      Reading lib text now direction recurring r := by
  constructor
  swap
  · intro h
    cases h with
    | routine heq => exact bind_eq_ok.2 ⟨_, heq, rfl⟩
    | exact hroutine rest ct part hclock heq =>
      exact bind_eq_ok.2 ⟨_, hroutine, bind_eq_ok.2 ⟨_, hclock, bind_eq_ok.2 ⟨_, heq, rfl⟩⟩⟩
    | day hroutine rest ct part hclock hexact d hnamed once htimed heq =>
      refine bind_eq_ok.2 ⟨_, hroutine, bind_eq_ok.2 ⟨_, hclock, bind_eq_ok.2 ⟨_, hexact, ?_⟩⟩⟩
      rcases hnamed with hnamed | ⟨hnamed, hleft, himplied⟩
      · exact bind_eq_ok.2 ⟨_, hnamed, bind_eq_ok.2 ⟨_, rfl, bind_eq_ok.2 ⟨_, htimed, heq⟩⟩⟩
      · refine bind_eq_ok.2 ⟨_, hnamed, ?_⟩
        simp only [hleft, and_self, if_true]
        exact bind_eq_ok.2 ⟨_, himplied, bind_eq_ok.2 ⟨_, htimed, heq⟩⟩
  intro h
  obtain ⟨found, hroutine, h⟩ := bind_eq_ok.1 h
  cases found with
  | some r' =>
    cases h
    exact .routine hroutine
  | none =>
    obtain ⟨⟨rest, ct, part⟩, hclock, h⟩ := bind_eq_ok.1 h
    obtain ⟨found, hexact, h⟩ := bind_eq_ok.1 h
    cases found with
    | some r' =>
      cases h
      exact .exact hroutine rest ct part hclock hexact
    | none =>
      obtain ⟨found, hnamed, h⟩ := bind_eq_ok.1 h
      cases found with
      | some d =>
        obtain ⟨d', hd, h⟩ := bind_eq_ok.1 h
        cases hd
        obtain ⟨once, htimed, h⟩ := bind_eq_ok.1 h
        exact .day hroutine rest ct part hclock hexact d (.inl hnamed) once htimed h
      | none =>
        by_cases hleft : nothingLeft rest ∧ (ct.isSome ∨ part.isSome)
        · simp only [hleft, and_self, if_true] at h
          obtain ⟨d, himplied, h⟩ := bind_eq_ok.1 h
          obtain ⟨once, htimed, h⟩ := bind_eq_ok.1 h
          exact .day hroutine rest ct part hclock hexact d (.inr ⟨hnamed, hleft, himplied⟩)
            once htimed h
        · simp only [hleft, if_false] at h
          obtain ⟨d, hd, -⟩ := bind_eq_ok.1 h
          cases hd

theorem resolve_eq_ok {lib : TimeLib} {expression : String} {clock : TimeClock} {now : TurnNow}
    {direction : Direction} {recurring : Bool} {r : Resolved} :
    resolve lib expression clock now direction recurring = .ok r ↔
      ∃ result, resolveText lib expression (takeBound (norm lib.text expression)).2 now
        (if direction = .auto then defaultDirection clock (takeBound (norm lib.text expression)).1
          else direction) recurring = .ok result ∧
        r = { result with
          expression := expression, clock := clock
          bound := (takeBound (norm lib.text expression)).1 } := by
  unfold resolve
  rw [bind_eq_ok]
  constructor
  · rintro ⟨result, hresult, h⟩
    cases h
    exact ⟨result, hresult, rfl⟩
  · rintro ⟨result, hresult, rfl⟩
    exact ⟨result, hresult, rfl⟩

/-- An exact instant is not a routine. -/
theorem exactInstant_rrule {text : Text} {now : TurnNow} {r : Resolved}
    (h : exactInstant text now = .ok (some r)) : r.rrule = none := by
  unfold exactInstant at h
  split at h
  · obtain ⟨y, -, h⟩ := bind_eq_ok.1 h
    obtain ⟨m, -, h⟩ := bind_eq_ok.1 h
    obtain ⟨d, -, h⟩ := bind_eq_ok.1 h
    obtain ⟨date, -, h⟩ := bind_eq_ok.1 h
    obtain ⟨hh, -, h⟩ := bind_eq_ok.1 h
    obtain ⟨mm, -, h⟩ := bind_eq_ok.1 h
    obtain ⟨t, -, h⟩ := bind_eq_ok.1 h
    obtain ⟨begins, -, h⟩ := bind_eq_ok.1 h
    cases h
    rfl
  · split at h
    · obtain ⟨delta, -, h⟩ := bind_eq_ok.1 h
      obtain ⟨begins, -, h⟩ := bind_eq_ok.1 h
      cases h
      rfl
    · split at h
      · obtain ⟨delta, -, h⟩ := bind_eq_ok.1 h
        obtain ⟨begins, -, h⟩ := bind_eq_ok.1 h
        cases h
        rfl
      · cases h

/-- Whatever a text is read as, it is known what today is. -/
theorem today_of_span {text : Text} {now : TurnNow} {direction : Direction} {d : Option Day}
    (h : span text now direction = .ok d) : ∃ today, now.today = .ok today := by
  obtain ⟨found, hfound, -⟩ := bind_eq_ok.1 h
  obtain ⟨today, htoday, -⟩ := bind_eq_ok.1 hfound
  exact ⟨today, htoday⟩

theorem today_of_namedDay {text : Text} {now : TurnNow} {direction : Direction} {d : Option Day}
    (h : namedDay text now direction = .ok d) : ∃ today, now.today = .ok today := by
  obtain ⟨found, hfound, -⟩ := bind_eq_ok.1 h
  exact today_of_span hfound

end Time

end SecondMind
