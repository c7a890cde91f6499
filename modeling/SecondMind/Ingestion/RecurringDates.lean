import SecondMind.Ingestion.Pipeline
import SecondMind.Ingestion.TimeDates

/-!
# Recurring dates

`ingestion/time.py`: a routine begins at the first occurrence of its rule, and a date that comes
back every year begins where it was named, or a year later if that is past.

* `StartsOnItself` — the start is an occurrence of the rule, today or later;
* `routine_starts` — that of a routine is;
* `yearly_starts_iff` — that of a date is if the date, or the same a year later, is not past;
* `recurring_start_iff` — the same for all that `resolve` accepts.
-/

namespace SecondMind

namespace Time

open Gregorian

/-! ## What is taken for granted -/

/-- What the zones of `zoneinfo` are like: their offsets are whole seconds, and the wall time that
the clock skips is shown as a later one. -/
structure IsZoneInfo (zone : Zone) : Prop where
  seconds : ∀ offset ∈ zone.initial :: zone.changes.map (·.2), second ∣ offset
  forward : ∀ n, n ≤ zone.toLocal (zone.ofLocal n)

/-- The rule of a day of the year. -/
def dayRule (date : Date) : String := s!"FREQ=YEARLY;BYMONTH={date.month};BYMONTHDAY={date.day}"

/-- The rule of a month of the year. -/
def monthRule (date : Date) : String := s!"FREQ=YEARLY;BYMONTH={date.month}"

/-- What `dateutil` makes of these rules: the occurrences of the first are on that day of that
month, and a whole second on such a day, or in such a month, is the first one from itself on. -/
structure YearlyRules (lib : TimeLib) : Prop where
  filters : ∀ (date : Date) (anchor : Int) (parsed : RRule) (o : Int),
    lib.parseRrule (dayRule date) anchor = .ok parsed → parsed.Occurs o →
    ∃ on : Date, on.ordinal = o / day ∧ on.month = date.month ∧ on.day = date.day
  starts : ∀ (date on : Date) (o : Int), on.ordinal = o / day → second ∣ o →
    on.month = date.month → on.day = date.day →
    ∃ parsed, lib.parseRrule (dayRule date) o = .ok parsed ∧ parsed.Occurs o
  startsMonth : ∀ (date : Date) (o : Int), date.ordinal = o / day → second ∣ o →
    ∃ parsed, lib.parseRrule (monthRule date) o = .ok parsed ∧ parsed.Occurs o

/-! ## Starts and rules -/

/-- The start is today or later, and an occurrence of the rule: on the wall clock it shows one, or
it is what one is taken for. -/
def StartsOnItself (lib : TimeLib) (now : TurnNow) (begins : Int) (rule : String) : Prop :=
  ∃ today o, now.today = .ok today ∧
    (now.zone.toLocal begins = o ∨ now.zone.ofLocal o = begins) ∧ today.ordinal * day ≤ o ∧
    ∃ anchor ≤ o, ∃ parsed, lib.parseRrule rule anchor = .ok parsed ∧ parsed.Occurs o

variable {lib : TimeLib} {now : TurnNow}

/-- **The first occurrence** of a rule. -/
theorem firstOccurrence_starts {rule : String} {begins : Int}
    (h : firstOccurrence lib rule now = .ok begins) : StartsOnItself lib now begins rule := by
  obtain ⟨today, htoday, h⟩ := bind_eq_ok.1 h
  have hlocal : ∀ shown, now.localTime = .ok shown → today.ordinal * day ≤ shown := by
    intro shown hshown
    obtain ⟨shown', hshown', hdate⟩ := bind_eq_ok.1 htoday
    rw [hshown] at hshown'
    cases hshown'
    rw [ordinal_of_dateOf hdate]
    exact Int.ediv_mul_le _ (by decide)
  have hafter : ∃ after, today.ordinal * day ≤ after ∧
      ∃ parsed, lib.parseRrule rule (today.ordinal * day) = .ok parsed ∧
        ∃ first, parsed.after after true = some first ∧ now.zone.ofLocal first = begins := by
    dsimp only at h
    split at h
    · obtain ⟨after, hafter, h⟩ := bind_eq_ok.1 h
      obtain ⟨parsed, hparsed, h⟩ := bind_eq_ok.1 h
      split at h
      · cases h
      · rename_i first hfirst
        exact ⟨after, hlocal after hafter, parsed, hparsed, first, hfirst, (eq_of_checked h).symm⟩
    · obtain ⟨after, hafter, h⟩ := bind_eq_ok.1 h
      cases hafter
      obtain ⟨parsed, hparsed, h⟩ := bind_eq_ok.1 h
      split at h
      · cases h
      · rename_i first hfirst
        exact ⟨_, le_rfl, parsed, hparsed, first, hfirst, (eq_of_checked h).symm⟩
  obtain ⟨after, hle, parsed, hparsed, first, hfirst, hbegins⟩ := hafter
  obtain ⟨⟨hoccurs, hlater⟩, -⟩ := parsed.after_some hfirst
  have hfrom : after ≤ first := hlater.elim le_of_lt fun heq => heq.2.ge
  exact ⟨today, first, htoday, .inr hbegins, hle.trans hfrom, today.ordinal * day,
    hle.trans hfrom, parsed, hparsed, hoccurs⟩

/-- A routine has a rule, and starts at its first occurrence. -/
theorem routine_starts {text : Text} {r : Resolved} {rule : String}
    (h : routine lib text now = .ok (some r)) (hrule : r.rrule = some rule) :
    StartsOnItself lib now r.start rule := by
  unfold routine at h
  split at h
  · obtain ⟨⟨body, ct, part⟩, -, h⟩ := bind_eq_ok.1 h
    obtain ⟨interval, -, h⟩ := bind_eq_ok.1 h
    obtain ⟨found, -, h⟩ := bind_eq_ok.1 h
    cases found with
    | none => cases h
    | some found =>
      obtain ⟨first, hfirst, h⟩ := bind_eq_ok.1 h
      cases h
      cases hrule
      exact firstOccurrence_starts hfirst
  · cases h

/-! ## Wall times and dates -/

theorem offsetFrom_mem (before : Int) (changes : List (Int × Int)) (u : Int) :
    Zone.offsetFrom before changes u ∈ before :: changes.map (·.2) := by
  induction changes generalizing before with
  | nil => exact List.mem_cons_self
  | cons change changes ih =>
    obtain ⟨instant, after⟩ := change
    rw [Zone.offsetFrom]
    split
    · exact List.mem_cons_of_mem _ (ih after)
    · exact List.mem_cons_self

/-- What the clock shows at the instant of a wall time, and what else is taken for that instant, is
near it. -/
theorem near_of_shown (zone : Zone) {n o : Int}
    (h : zone.toLocal (zone.ofLocal n) = o ∨ zone.ofLocal o = zone.ofLocal n) :
    n - 2 * day < o ∧ o < n + 2 * day := by
  have hwall := fun n => zone.small _ (Zone.wallOffsetFrom_mem zone.initial zone.changes n)
  have hshown := fun u => zone.small _ (offsetFrom_mem zone.initial zone.changes u)
  rcases h with h | h
  · have hn := hwall n
    have hu := hshown (zone.ofLocal n)
    unfold Zone.toLocal Zone.ofLocal Zone.offset Zone.wallOffset at h
    unfold Zone.ofLocal Zone.wallOffset at hu
    omega
  · have hn := hwall n
    have ho := hwall o
    unfold Zone.ofLocal Zone.wallOffset at h
    omega

/-- In such a zone, whole seconds are shown at whole seconds. -/
theorem IsZoneInfo.second_dvd {zone : Zone} (hzone : IsZoneInfo zone) {n : Int} (h : second ∣ n) :
    second ∣ zone.ofLocal n ∧ second ∣ zone.toLocal (zone.ofLocal n) := by
  have hbegins : second ∣ zone.ofLocal n :=
    Int.dvd_sub h (hzone.seconds _ (Zone.wallOffsetFrom_mem _ _ _))
  exact ⟨hbegins, Int.dvd_add hbegins (hzone.seconds _ (offsetFrom_mem _ _ _))⟩

theorem second_dvd_midnight (n : Int) : second ∣ n * day :=
  Int.dvd_mul_of_dvd_right (by decide)

/-- The moments of a date are whole seconds on the clock. -/
theorem IsZoneInfo.second_dvd_of_isOn (hzone : IsZoneInfo now.zone) {date : Date} {begins : Int}
    (h : now.IsOn date begins) : second ∣ now.zone.toLocal begins := by
  obtain ⟨t, -, -, ht, hat⟩ := h
  rw [eq_of_checked hat]
  exact (hzone.second_dvd (Int.dvd_add (second_dvd_midnight _) ht)).2

/-! ## Dates that come back -/

/-- What is said once is a routine, or its date is today or later, or, unless only its month is
known, there is the same date a year later and it is today or later. -/
def ComesBack (now : TurnNow) (once : Resolved) : Prop :=
  once.rrule.isSome ∨ ∃ today shown : Date, now.today = .ok today ∧
    shown.ordinal = now.zone.toLocal once.start / day ∧
    (today.ordinal ≤ shown.ordinal ∨ once.precision ≠ .month ∧ ∃ next : Date,
      next.year = shown.year + 1 ∧ next.month = shown.month ∧ next.day = shown.day ∧
        today.ordinal ≤ next.ordinal)

/-- What `yearly` does with a date: it begins as it is, or a year later. -/
theorem yearly_eq_ok {once r : Resolved} {rule : String} {today : Date}
    (htoday : now.today = .ok today) (hnone : once.rrule = none)
    (h : yearly once now = .ok r) (hrule : r.rrule = some rule) :
    ∃ shown : Date, shown.ordinal = now.zone.toLocal once.start / day ∧
      (once.precision = .month ∧ rule = monthRule shown ∧ r.start = once.start ∨
        once.precision ≠ .month ∧ rule = dayRule shown ∧
          (today.ordinal ≤ shown.ordinal ∧ r.start = once.start ∨
            shown.ordinal < today.ordinal ∧ ∃ next : Date, next.year = shown.year + 1 ∧
              next.month = shown.month ∧
              next.day = min shown.day (daysInMonth (shown.year + 1) shown.month) ∧
              r.start = now.zone.ofLocal
                (next.ordinal * day + now.zone.toLocal once.start % day))) := by
  unfold yearly at h
  rw [hnone, if_neg (by decide)] at h
  obtain ⟨localTime, hlocal, h⟩ := bind_eq_ok.1 h
  obtain rfl := eq_of_checked hlocal
  obtain ⟨shown, hshown, h⟩ := bind_eq_ok.1 h
  refine ⟨shown, ordinal_of_dateOf hshown, ?_⟩
  split at h
  · rename_i hmonth
    cases h
    cases hrule
    exact .inl ⟨hmonth, rfl, rfl⟩
  · cases h
    rw [hnone] at hrule
    cases hrule
  · rename_i hmonth hyear
    right
    refine ⟨hmonth, ?_⟩
    rw [htoday] at h
    obtain ⟨today', htoday', h⟩ := bind_eq_ok.1 h
    cases htoday'
    split at h
    · rename_i hpast
      obtain ⟨next, hnext, h⟩ := bind_eq_ok.1 h
      obtain ⟨begins, hbegins, h⟩ := bind_eq_ok.1 h
      cases h
      cases hrule
      obtain ⟨hy, hm, hd⟩ := safeDate_eq_ok.1 hnext
      exact ⟨rfl, .inr ⟨hpast, next, hy, hm, hd, eq_of_checked hbegins⟩⟩
    · rename_i hpast
      obtain ⟨begins, hbegins, h⟩ := bind_eq_ok.1 h
      cases hbegins
      cases h
      cases hrule
      exact ⟨rfl, .inl ⟨not_lt.1 hpast, rfl⟩⟩

theorem yearly_starts_iff (hzone : IsZoneInfo now.zone) (hlib : YearlyRules lib) {once r : Resolved}
    {date today : Date} {rule : String} (hon : now.IsOn date once.start)
    (htoday : now.today = .ok today) (hnone : once.rrule = none)
    (h : yearly once now = .ok r) (hrule : r.rrule = some rule) :
    StartsOnItself lib now r.start rule ↔ ComesBack now once := by
  obtain ⟨shown, hshown, hcases⟩ := yearly_eq_ok htoday hnone h hrule
  have hwhole := hzone.second_dvd_of_isOn hon
  have hmidnight : ∀ n : Int, today.ordinal ≤ n / day ↔ today.ordinal * day ≤ n := fun n =>
    Int.le_ediv_iff_mul_le (by decide)
  have hback : ComesBack now once ↔ today.ordinal ≤ shown.ordinal ∨ once.precision ≠ .month ∧
      ∃ next : Date, next.year = shown.year + 1 ∧ next.month = shown.month ∧
        next.day = shown.day ∧ today.ordinal ≤ next.ordinal := by
    refine ⟨?_, fun hleft => .inr ⟨today, shown, htoday, hshown, hleft⟩⟩
    rintro (hroutine | ⟨today', shown', htoday', hshown', hleft⟩)
    · rw [hnone] at hroutine
      cases hroutine
    · rw [htoday] at htoday'
      cases htoday'
      rwa [Date.eq_of_ordinal (hshown'.trans hshown.symm)] at hleft
  rw [hback, hshown]
  rcases hcases with ⟨hmonth, rfl, hstart⟩ | ⟨hmonth, rfl, ⟨hlater, hstart⟩ | hrolled⟩
  · -- the month begins as it is, also where it has begun before today
    rw [hstart]
    constructor
    · rintro ⟨today', o, htoday', hwall, hle, -⟩
      rw [htoday] at htoday'
      cases htoday'
      left
      rw [hmidnight]
      rcases hwall with rfl | hwall
      · exact hle
      · have hforward := hzone.forward o
        rw [hwall] at hforward
        exact hle.trans hforward
    · rintro (hle | ⟨hnot, -⟩)
      · exact ⟨today, _, htoday, .inl rfl, (hmidnight _).1 hle, _, le_rfl,
          hlib.startsMonth shown _ hshown hwhole⟩
      · exact absurd hmonth hnot
  · rw [hstart, ← hshown]
    refine iff_of_true ?_ (.inl hlater)
    rw [hshown, hmidnight] at hlater
    exact ⟨today, _, htoday, .inl rfl, hlater, _, le_rfl,
      hlib.starts shown shown _ hshown hwhole rfl rfl⟩
  · obtain ⟨hpast, next, hy, hm, hd, hstart⟩ := hrolled
    have hdate : next.ordinal = (next.ordinal * day + now.zone.toLocal once.start % day) / day := by
      unfold day hour second
      omega
    have hsecond : second ∣ next.ordinal * day + now.zone.toLocal once.start % day :=
      Int.dvd_add (second_dvd_midnight _)
        ((EuclideanDomain.dvd_mod_iff (by decide)).2 hwhole)
    generalize next.ordinal * day + now.zone.toLocal once.start % day = x at hdate hsecond hstart
    rw [hstart]
    constructor
    · rintro ⟨today', o, htoday', hwall, hle, anchor, -, parsed, hparsed, hoccurs⟩
      rw [htoday] at htoday'
      cases htoday'
      obtain ⟨on, hon', hmonth', hday'⟩ := hlib.filters shown anchor parsed o hparsed hoccurs
      have hnear := near_of_shown _ hwall
      have hyear := Date.year_eq_of_near (hmonth'.trans hm.symm)
        (by unfold day hour second at *; omega) (by unfold day hour second at *; omega)
      refine .inr ⟨hmonth, on, hyear.trans hy, hmonth', hday', ?_⟩
      rw [hon', hmidnight]
      exact hle
    · rintro (hle | ⟨-, next', hy', hm', hd', hle⟩)
      · omega
      · have hlength := next'.month_day_spec.2.1.2
        rw [hy', hm', hd'] at hlength
        rw [min_eq_left hlength] at hd
        obtain rfl := Date.eq_of_name (hy.trans hy'.symm) (hm.trans hm'.symm) (hd.trans hd'.symm)
        rw [hdate, hmidnight] at hle
        exact ⟨today, x, htoday, .inr rfl, hle, x, le_rfl,
          hlib.starts shown next x hdate hsecond hm hd⟩

/-! ## All that is accepted -/

/-- **Recurring expressions** begin at an occurrence of their rule, today or later, if and only if
what they name once comes back so. -/
theorem recurring_start_iff (hzone : IsZoneInfo now.zone) (hlib : YearlyRules lib)
    {expression : String} {clock : TimeClock} {direction : Direction} {recurring : Bool}
    {r : Resolved} {rule : String}
    (h : resolve lib expression clock now direction recurring = .ok r)
    (hrule : r.rrule = some rule) :
    StartsOnItself lib now r.start rule ↔
      ∃ once, resolve lib expression clock now direction = .ok once ∧ ComesBack now once := by
  obtain ⟨result, hresult, rfl⟩ := resolve_eq_ok.1 h
  have hrule : result.rrule = some rule := hrule
  show StartsOnItself lib now result.start rule ↔ _
  have honce : ∀ once : Resolved, resolveText lib expression (takeBound (norm lib.text expression)).2
      now (if direction = .auto then
        defaultDirection clock (takeBound (norm lib.text expression)).1 else direction) false =
          .ok once →
      ((∃ once, resolve lib expression clock now direction = .ok once ∧ ComesBack now once) ↔
        ComesBack now once) := by
    intro once honce
    have hresolved := resolve_eq_ok.2 ⟨once, honce, rfl⟩
    constructor
    · rintro ⟨once', honce', hback⟩
      rw [hresolved] at honce'
      cases honce'
      exact hback
    · exact fun hback => ⟨_, hresolved, hback⟩
  cases resolveText_eq_ok.1 hresult with
  | routine heq =>
    rw [honce result (resolveText_eq_ok.2 (.routine heq))]
    refine iff_of_true (routine_starts heq hrule) (.inl ?_)
    rw [hrule]
    rfl
  | exact hroutine rest ct part hclock heq =>
    rw [exactInstant_rrule heq] at hrule
    cases hrule
  | day hroutine rest ct part hclock hexact d hnamed once htimed heq =>
    have hcomes := applyTime_comes htimed
    cases recurring with
    | false =>
      cases heq
      rw [hcomes.rrule] at hrule
      cases hrule
    | true =>
      rw [honce once (resolveText_eq_ok.2
        (.day hroutine rest ct part hclock hexact d hnamed once htimed rfl))]
      obtain ⟨today, htoday⟩ : ∃ today, now.today = .ok today := by
        rcases hnamed with hnamed | ⟨hnamed, -⟩
        · exact today_of_namedDay hnamed
        · exact today_of_namedDay hnamed
      exact yearly_starts_iff hzone hlib hcomes.isOn htoday hcomes.rrule heq hrule

/-! ## An old birthday, and one that comes back -/

theorem exists_isLeast_of_lower {P : Int → Prop} {t : Int} (hlow : ∀ x, P x → t ≤ x)
    (hsome : ∃ x, P x) : ∃ o, IsLeast {x | P x} o := by
  obtain ⟨o, ho, hleast⟩ := Int.exists_least_of_bdd ⟨t, hlow⟩ hsome
  exact ⟨o, ho, hleast⟩

open Classical in
/-- A rule with these occurrences. -/
noncomputable def RRule.among (Occurs : Int → Prop) : RRule where
  Occurs := Occurs
  after := fun t inc =>
    if h : ∃ o, IsLeast {x | Occurs x ∧ (t < x ∨ inc = true ∧ x = t)} o then some h.choose else none
  after_some := by
    intro t inc o h
    split at h
    · rename_i hleast
      cases h
      exact hleast.choose_spec
    · cases h
  after_none := by
    intro t inc h x hx hlater
    split at h
    · cases h
    · rename_i hnone
      refine hnone (exists_isLeast_of_lower (t := t) ?_ ⟨x, hx, hlater⟩)
      rintro y ⟨-, hy | ⟨-, hy⟩⟩
      · exact hy.le
      · exact hy.ge

/-- The days of a rule of the year, at the time at which it is anchored. -/
def YearlyOccurs (rule : String) (anchor o : Int) : Prop :=
  anchor ≤ o ∧ o % day = anchor % day ∧ ∃ date on : Date, on.ordinal = o / day ∧
    on.month = date.month ∧
    (rule = dayRule date ∧ on.day = date.day ∨
      rule = monthRule date ∧ ∃ first : Date, first.ordinal = anchor / day ∧ on.day = first.day)

noncomputable def yearlyTimes : TimeLib where
  text := plainText
  parseRrule := fun rule anchor => .ok (RRule.among (YearlyOccurs rule anchor))

theorem numeral_inj {m m' : Int} (hm : 1 ≤ m ∧ m ≤ 31) (hm' : 1 ≤ m' ∧ m' ≤ 31)
    (h : (toString m).toList = (toString m').toList) : m = m' := by
  have hall : ∀ i j : Fin 32, (toString (i.val : Int)).toList = (toString (j.val : Int)).toList →
      i = j := by decide +kernel
  have hsame := hall ⟨m.toNat, by omega⟩ ⟨m'.toNat, by omega⟩
  simp only [Int.toNat_of_nonneg (by omega : 0 ≤ m), Int.toNat_of_nonneg (by omega : 0 ≤ m'),
    Fin.mk.injEq] at hsame
  have hnat := hsame h
  omega

theorem numeral_plain {m : Int} (hm : 1 ≤ m ∧ m ≤ 31) : ';' ∉ (toString m).toList := by
  have hall : ∀ i : Fin 32, ';' ∉ (toString (i.val : Int)).toList := by decide +kernel
  have hplain := hall ⟨m.toNat, by omega⟩
  rwa [Int.toNat_of_nonneg (by omega : 0 ≤ m)] at hplain

theorem dayRule_toList (date : Date) : (dayRule date).toList = "FREQ=YEARLY;BYMONTH=".toList ++
    ((toString date.month).toList ++ ';' :: ("BYMONTHDAY=".toList ++ (toString date.day).toList)) := by
  have hrule : dayRule date = "FREQ=YEARLY;BYMONTH=" ++ toString date.month ++ ";BYMONTHDAY=" ++
      toString date.day := rfl
  have hparts : ";BYMONTHDAY=".toList = ';' :: "BYMONTHDAY=".toList := by decide
  rw [hrule, String.toList_append, String.toList_append, String.toList_append, hparts]
  simp

theorem monthRule_toList (date : Date) :
    (monthRule date).toList = "FREQ=YEARLY;BYMONTH=".toList ++ (toString date.month).toList := by
  have hrule : monthRule date = "FREQ=YEARLY;BYMONTH=" ++ toString date.month := rfl
  rw [hrule, String.toList_append]

theorem month_fits (date : Date) : 1 ≤ date.month ∧ date.month ≤ 31 := by
  have hmonth := date.month_day_spec.1
  omega

theorem day_fits (date : Date) : 1 ≤ date.day ∧ date.day ≤ 31 := by
  have hmonth := date.month_day_spec.1
  have hday := date.month_day_spec.2.1
  have hlong := (daysInMonth_bounds date.year hmonth).2
  omega

/-- A rule names one day of one month. -/
theorem dayRule_inj {date date' : Date} (h : dayRule date = dayRule date') :
    date.month = date'.month ∧ date.day = date'.day := by
  have hlists := congrArg String.toList h
  rw [dayRule_toList, dayRule_toList] at hlists
  obtain ⟨hmonth, hday⟩ := cut_inj (numeral_plain (month_fits date))
    (numeral_plain (month_fits date')) (List.append_cancel_left hlists)
  exact ⟨numeral_inj (month_fits date) (month_fits date') hmonth,
    numeral_inj (day_fits date) (day_fits date') (List.append_cancel_left hday)⟩

theorem dayRule_ne_monthRule (date date' : Date) : dayRule date ≠ monthRule date' := by
  intro h
  have hlists := congrArg String.toList h
  rw [dayRule_toList, monthRule_toList] at hlists
  have hmem : ';' ∈ (toString date'.month).toList := by
    rw [← List.append_cancel_left hlists]
    simp
  exact numeral_plain (month_fits date') hmem

theorem yearlyTimes_rules : YearlyRules yearlyTimes where
  filters := by
    intro date anchor parsed o hparsed hoccurs
    cases hparsed
    obtain ⟨-, -, date', on, hon, hmonth, ⟨hrule, hday⟩ | ⟨hrule, -⟩⟩ := hoccurs
    · obtain ⟨hmonth', hday'⟩ := dayRule_inj hrule
      exact ⟨on, hon, hmonth.trans hmonth'.symm, hday.trans hday'.symm⟩
    · exact absurd hrule (dayRule_ne_monthRule date date')
  starts := fun date on o hon _ hmonth hday =>
    ⟨_, rfl, le_rfl, rfl, date, on, hon, hmonth, .inl ⟨rfl, hday⟩⟩
  startsMonth := fun date o hdate _ =>
    ⟨_, rfl, le_rfl, rfl, date, date, hdate, rfl, .inr ⟨rfl, date, hdate, rfl⟩⟩

/-- Noon of 1 June 2026. -/
def summerNoon : TurnNow where
  instant := 739768 * day + 12 * hour
  zone := ⟨0, [], none_ascending, none_small⟩
  timezone := "UTC"

theorem summerNoon_shows (n : Int) :
    summerNoon.zone.toLocal n = n ∧ summerNoon.zone.ofLocal n = n := by
  simp [summerNoon, Zone.toLocal, Zone.ofLocal, Zone.offset, Zone.wallOffset, Zone.offsetFrom,
    Zone.wallOffsetFrom]

theorem summerNoon_zone : IsZoneInfo summerNoon.zone where
  seconds := fun offset h => by
    rw [List.mem_singleton.1 h]
    exact Int.dvd_zero _
  forward := fun n => by
    rw [(summerNoon_shows _).1, (summerNoon_shows n).2]

theorem summerNoon_today : ∃ today, summerNoon.today = .ok today ∧ today.ordinal = 739768 := by
  have hdate : ∃ d ∈ summerNoon.today.toOption, d.ordinal = 739768 := by decide +kernel
  obtain ⟨today, htoday, hordinal⟩ := hdate
  exact ⟨today, of_mem_toOption htoday, hordinal⟩

/-- A birthday with the year of birth begins in the year after it. -/
theorem old_birthday_starts_late : YearlyRules yearlyTimes ∧ IsZoneInfo summerNoon.zone ∧
    ∃ r rule, resolve yearlyTimes "12 march 1990" .occurred summerNoon .auto true = .ok r ∧
      r.rrule = some rule ∧ ¬ StartsOnItself yearlyTimes summerNoon r.start rule := by
  refine ⟨yearlyTimes_rules, summerNoon_zone, ?_⟩
  have hread : ∃ r ∈ (resolve yearlyTimes "12 march 1990" .occurred summerNoon .auto true).toOption,
      r.rrule = some "FREQ=YEARLY;BYMONTH=3;BYMONTHDAY=12" ∧ r.start = 726903 * day := by
    decide +kernel
  obtain ⟨r, hr, hrule, hstart⟩ := hread
  refine ⟨r, _, of_mem_toOption hr, hrule, ?_⟩
  rintro ⟨today, o, htoday, hwall, hle, -⟩
  obtain ⟨today', htoday', hordinal⟩ := summerNoon_today
  rw [htoday'] at htoday
  cases htoday
  rw [(summerNoon_shows _).1, (summerNoon_shows o).2, hstart] at hwall
  rw [hordinal] at hle
  unfold day hour second at *
  omega

/-- A date of this year that is past begins in the next year. -/
theorem march_comes_back : ∃ r rule,
    resolve yearlyTimes "12 march 2026" .occurred summerNoon .auto true = .ok r ∧
      r.rrule = some rule ∧ StartsOnItself yearlyTimes summerNoon r.start rule := by
  have hread : ∃ r ∈ (resolve yearlyTimes "12 march 2026" .occurred summerNoon .auto true).toOption,
      r.rrule = some "FREQ=YEARLY;BYMONTH=3;BYMONTHDAY=12" := by decide +kernel
  have honce : ∃ once ∈ (resolve yearlyTimes "12 march 2026" .occurred summerNoon).toOption,
      once.start = 739687 * day ∧ once.precision ≠ .month := by decide +kernel
  have hdates : ∃ shown ∈ Date.ofYmd 2026 3 12, ∃ next ∈ Date.ofYmd 2027 3 12,
      shown.ordinal = 739687 ∧ next.ordinal = 740052 := by decide +kernel
  obtain ⟨r, hr, hrule⟩ := hread
  obtain ⟨once, honce, hstart, hprecision⟩ := honce
  obtain ⟨today, htoday, hordinal⟩ := summerNoon_today
  obtain ⟨shown, hshown, next, hnext, hshown', hnext'⟩ := hdates
  obtain ⟨hyear, hmonth, hday⟩ := Date.ofYmd_eq_some_iff.1 hshown
  obtain ⟨hyear', hmonth', hday'⟩ := Date.ofYmd_eq_some_iff.1 hnext
  refine ⟨r, _, of_mem_toOption hr, hrule, (recurring_start_iff summerNoon_zone yearlyTimes_rules
    (of_mem_toOption hr) hrule).2 ⟨once, of_mem_toOption honce, .inr ⟨today, shown, htoday, ?_,
      .inr ⟨hprecision, next, by omega, by omega, by omega, by omega⟩⟩⟩⟩
  rw [(summerNoon_shows _).1, hstart, hshown']
  unfold day hour second
  omega

end Time

end SecondMind
