import SecondMind.Core.Zone
import Mathlib.Data.List.Pairwise
import Mathlib.Data.List.Perm.Subperm
import Mathlib.Algebra.Order.Ring.Int
import Mathlib.Tactic.Ring

/-!
# Recurring times

`memory/recurrence.py`: the occurrences of a rule that meet a window, as pairs of instants.  A rule
is expanded on the wall clock; a window is a pair of instants.

* `RRule` — a parsed rule, and what its `after` promises;
* `expandRrule` — the loop over the occurrences;
* `expandFrom_listed` — what the loop lists, from any occurrence on;
* `expandRrule_exact_iff` — when it lists exactly the occurrences that meet the window.
-/

namespace SecondMind

/-- A parsed rule: its occurrences on the wall clock, and the least one after a time. -/
structure RRule where
  Occurs : Int → Prop
  after : Int → Bool → Option Int
  after_some : ∀ {t : Int} {inc : Bool} {o : Int}, after t inc = some o →
    IsLeast {x | Occurs x ∧ (t < x ∨ inc = true ∧ x = t)} o
  after_none : ∀ {t : Int} {inc : Bool}, after t inc = none →
    ∀ x, Occurs x → ¬ (t < x ∨ inc = true ∧ x = t)

theorem RRule.lt_of_after {rule : RRule} {t next : Int} (h : rule.after t false = some next) :
    t < next := by
  obtain ⟨-, hlt | ⟨hinc, -⟩⟩ := (rule.after_some h).1
  · exact hlt
  · exact (nomatch hinc)

/-- `[start, end)`, where none is unbounded. -/
structure Window where
  start : Option Int
  stop : Option Int

/-- `limit`, if it is not given. -/
def defaultLimit : Nat := 100

section

variable (zone : Zone) (rule : RRule) (length : Int) (window : Window) (limit : Nat)

/-- The instants at which an occurrence begins and ends. -/
def span (o : Int) : Int × Int := (zone.ofLocal o, zone.ofLocal o + length)

/-- From here on, every occurrence ends after the start of the window. -/
def reach : Int := window.start.elim 0 fun s => s - length + day

/-- An occurrence that ends too early to be listed is before `reach`. -/
theorem lt_reach {o : Int} (h : window.start.all (· < zone.ofLocal o + length) = false) :
    o < reach length window := by
  cases hstart : window.start with
  | none =>
    rw [hstart] at h
    exact (nomatch h)
  | some s =>
    rw [hstart, Option.all_some, decide_eq_false_iff_not] at h
    have hbegins := zone.lt_ofLocal o
    rw [reach, hstart, Option.elim_some]
    omega

/-- The loop of `expand_rrule`. -/
def expandFrom (cursor : Int) (out : List (Int × Int)) : List (Int × Int) :=
  if out.length < limit then
    let begins := zone.ofLocal cursor
    if window.stop.any (· ≤ begins) then out
    else
      let more :=
        if window.start.all (· < begins + length) then out ++ [span zone length cursor] else out
      match _h : rule.after cursor false with
      | none => more
      | some next => expandFrom next more
  else out
  termination_by limit - out.length + (reach length window - cursor).toNat
  decreasing_by
    have hlt := rule.lt_of_after _h
    split
    · rw [List.length_append, List.length_singleton]
      omega
    · rename_i hearly
      have hreach := lt_reach zone length window (Bool.eq_false_iff.2 hearly)
      omega

/-- `expand_rrule`, of a rule that is parsed from its first occurrence on. -/
def expandRrule (parse : Int → RRule) (first : Int) : List (Int × Int) :=
  let rule := parse (zone.toLocal first)
  let lo := window.start.elim first (· - length)
  match rule.after (zone.toLocal lo) true with
  | none => []
  | some cursor => expandFrom zone rule length window limit cursor []

/-! ## What the loop lists -/

/-- The occurrence begins before the window ends, and ends after it starts. -/
def Overlaps (o : Int) : Prop :=
  (∀ e ∈ window.stop, zone.ofLocal o < e) ∧ ∀ s ∈ window.start, s < zone.ofLocal o + length

/-- The loop comes to this occurrence, and it is to be listed. -/
structure Met (cursor o : Int) : Prop where
  occurs : rule.Occurs o
  le : cursor ≤ o
  overlaps : Overlaps zone length window o
  unbroken : ∀ o', rule.Occurs o' → cursor ≤ o' → o' < o → ∀ e ∈ window.stop, zone.ofLocal o' < e

/-- The occurrences that are listed from one on, in the room that is left. -/
structure Listed (cursor : Int) (room : Nat) (os : List Int) : Prop where
  ascending : os.Pairwise (· < ·)
  met : ∀ o ∈ os, Met zone rule length window cursor o
  short : os.length ≤ room
  full : ∀ o, Met zone rule length window cursor o → o ∈ os ∨ os.length = room ∧ ∀ x ∈ os, x < o

variable {zone rule length window limit}

/-- Looking for an occurrence at or after a time is to start from the first one. -/
theorem met_iff_of_after {t cursor o : Int} (h : rule.after t true = some cursor) :
    Met zone rule length window t o ↔ Met zone rule length window cursor o := by
  obtain ⟨⟨-, hge⟩, hleast⟩ := rule.after_some h
  have hle : t ≤ cursor := hge.elim le_of_lt fun heq => heq.2.ge
  have hfirst : ∀ x, rule.Occurs x → t ≤ x → cursor ≤ x := fun x hx hx' =>
    hleast ⟨hx, hx'.lt_or_eq.imp id fun heq => ⟨rfl, heq.symm⟩⟩
  constructor
  · intro ho
    exact ⟨ho.occurs, hfirst o ho.occurs ho.le, ho.overlaps,
      fun o' ho' hle' => ho.unbroken o' ho' (hle.trans hle')⟩
  · intro ho
    exact ⟨ho.occurs, hle.trans ho.le, ho.overlaps,
      fun o' ho' hle' => ho.unbroken o' ho' (hfirst o' ho' hle')⟩

/-- Nothing is listed where nothing is to be listed. -/
theorem listed_nil {cursor : Int} {room : Nat}
    (h : ∀ o, ¬ Met zone rule length window cursor o) :
    Listed zone rule length window cursor room [] where
  ascending := .nil
  met := fun _ ho => absurd ho List.not_mem_nil
  short := Nat.zero_le _
  full := fun o ho => absurd ho (h o)

/-- The first occurrence from the cursor on is the cursor, or after it. -/
theorem Met.eq_or_next {cursor next o : Int} (hnext : rule.after cursor false = some next)
    (h : Met zone rule length window cursor o) :
    o = cursor ∨ Met zone rule length window next o := by
  have hlt := rule.lt_of_after hnext
  rcases h.le.eq_or_lt with heq | hgt
  · exact .inl heq.symm
  · have hle := (rule.after_some hnext).2 ⟨h.occurs, .inl hgt⟩
    exact .inr ⟨h.occurs, hle, h.overlaps, fun o' ho' hle' => h.unbroken o' ho' (by omega)⟩

theorem Met.of_next {cursor next o : Int} (hnext : rule.after cursor false = some next)
    (hcursor : ∀ e ∈ window.stop, zone.ofLocal cursor < e)
    (h : Met zone rule length window next o) : Met zone rule length window cursor o := by
  have hlt := rule.lt_of_after hnext
  have hle := h.le
  refine ⟨h.occurs, by omega, h.overlaps, fun o' ho' hle' hlt' => ?_⟩
  rcases hle'.eq_or_lt with rfl | hgt
  · exact hcursor
  · exact h.unbroken o' ho' ((rule.after_some hnext).2 ⟨ho', .inl hgt⟩) hlt'

/-- After an occurrence that ends the loop, nothing is to be listed. -/
theorem not_met_of_break {cursor : Int} (hcursor : rule.Occurs cursor)
    (h : window.stop.any (· ≤ zone.ofLocal cursor) = true) (o : Int) :
    ¬ Met zone rule length window cursor o := by
  intro ho
  obtain ⟨e, he, hle⟩ := (Option.any_eq_true _ _).1 h
  have hle : e ≤ zone.ofLocal cursor := of_decide_eq_true hle
  rcases ho.le.eq_or_lt with rfl | hlt
  · have hbefore := ho.overlaps.1 e he
    omega
  · have hbefore := ho.unbroken cursor hcursor le_rfl hlt e he
    omega

/-- An occurrence that does not end the loop begins before the window ends. -/
theorem lt_stop {o : Int} (h : ¬ window.stop.any (· ≤ zone.ofLocal o) = true) :
    ∀ e ∈ window.stop, zone.ofLocal o < e := by
  intro e he
  by_contra hle
  exact h ((Option.any_eq_true _ _).2 ⟨e, he, decide_eq_true (not_lt.1 hle)⟩)

theorem all_start_iff {o : Int} :
    window.start.all (· < zone.ofLocal o + length) = true ↔
      ∀ s ∈ window.start, s < zone.ofLocal o + length := by
  rw [Option.all_eq_true]
  simp only [decide_eq_true_eq, Option.mem_def]

/-- One more occurrence before those that are listed from the next one on. -/
theorem Listed.cons {cursor next : Int} {room : Nat} {os : List Int}
    (hnext : rule.after cursor false = some next) (hcursor : Met zone rule length window cursor cursor)
    (h : Listed zone rule length window next room os) :
    Listed zone rule length window cursor (room + 1) (cursor :: os) where
  ascending := by
    refine List.pairwise_cons.2 ⟨fun o ho => ?_, h.ascending⟩
    have hlt := rule.lt_of_after hnext
    have hle := (h.met o ho).le
    omega
  met := fun o ho => by
    rcases List.mem_cons.1 ho with rfl | ho
    · exact hcursor
    · exact (h.met o ho).of_next hnext hcursor.overlaps.1
  short := Nat.succ_le_succ h.short
  full := fun o ho => by
    rcases ho.eq_or_next hnext with rfl | ho'
    · exact .inl List.mem_cons_self
    · rcases h.full o ho' with hmem | ⟨hlen, hlast⟩
      · exact .inl (List.mem_cons_of_mem _ hmem)
      · refine .inr ⟨congrArg (· + 1) hlen, fun x hx => ?_⟩
        rcases List.mem_cons.1 hx with rfl | hx
        · have hlt := rule.lt_of_after hnext
          have hle := ho'.le
          omega
        · exact hlast x hx

/-- An occurrence that is not to be listed changes nothing. -/
theorem Listed.skip {cursor next : Int} {room : Nat} {os : List Int}
    (hnext : rule.after cursor false = some next)
    (hstop : ∀ e ∈ window.stop, zone.ofLocal cursor < e)
    (hskip : ¬ Overlaps zone length window cursor)
    (h : Listed zone rule length window next room os) :
    Listed zone rule length window cursor room os where
  ascending := h.ascending
  met := fun o ho => (h.met o ho).of_next hnext hstop
  short := h.short
  full := fun o ho => by
    rcases ho.eq_or_next hnext with rfl | ho'
    · exact absurd ho.overlaps hskip
    · exact h.full o ho'

/-- **What the loop lists** from an occurrence on. -/
theorem expandFrom_listed (out : List (Int × Int)) {cursor : Int} (hcursor : rule.Occurs cursor) :
    ∃ os, expandFrom zone rule length window limit cursor out =
        out ++ os.map (span zone length) ∧
      Listed zone rule length window cursor (limit - out.length) os := by
  fun_induction expandFrom zone rule length window limit cursor out with
  | case1 cursor out hlt begins hbreak =>
    exact ⟨[], by simp, listed_nil (not_met_of_break hcursor hbreak)⟩
  | case2 cursor out hlt begins hbreak more hnone =>
    have hstop := lt_stop hbreak
    have hlast : ∀ o, Met zone rule length window cursor o → o = cursor := fun o ho => by
      rcases ho.le.eq_or_lt with heq | hgt
      · exact heq.symm
      · exact absurd (.inl hgt) (rule.after_none hnone o ho.occurs)
    by_cases hstart : window.start.all (· < zone.ofLocal cursor + length) = true
    · have hmore : more = out ++ [span zone length cursor] := if_pos hstart
      have hmet : Met zone rule length window cursor cursor :=
        ⟨hcursor, le_rfl, ⟨hstop, all_start_iff.1 hstart⟩, fun o' _ hle hlt' => by omega⟩
      refine ⟨[cursor], hmore, List.pairwise_singleton _ _, ?_, ?_, fun o ho => .inl ?_⟩
      · intro o ho
        rw [List.mem_singleton] at ho
        exact ho ▸ hmet
      · rw [List.length_singleton]
        omega
      · exact List.mem_singleton.2 (hlast o ho)
    · have hmore : more = out := if_neg hstart
      refine ⟨[], by rw [hmore, List.map_nil, List.append_nil], listed_nil fun o ho => hstart ?_⟩
      rw [← hlast o ho]
      exact all_start_iff.2 ho.overlaps.2
  | case3 cursor out hlt begins hbreak more next hnext ih =>
    have hstop := lt_stop hbreak
    obtain ⟨os, hos, hlisted⟩ := ih (rule.after_some hnext).1.1
    by_cases hstart : window.start.all (· < zone.ofLocal cursor + length) = true
    · have hmore : more = out ++ [span zone length cursor] := if_pos hstart
      have hmet : Met zone rule length window cursor cursor :=
        ⟨hcursor, le_rfl, ⟨hstop, all_start_iff.1 hstart⟩, fun o' _ hle hlt' => by omega⟩
      have hroom : limit - out.length = limit - more.length + 1 := by
        rw [hmore, List.length_append, List.length_singleton]
        omega
      refine ⟨cursor :: os, ?_, ?_⟩
      · rw [hos, hmore, List.map_cons, List.append_assoc, List.singleton_append]
      · rw [hroom]
        exact hlisted.cons hnext hmet
    · have hmore : more = out := if_neg hstart
      rw [hmore] at hos hlisted
      exact ⟨os, hmore ▸ hos, hlisted.skip hnext hstop fun ho => hstart (all_start_iff.2 ho.2)⟩
  | case4 cursor out hfull =>
    have hroom : limit - out.length = 0 := by omega
    refine ⟨[], by simp, ?_⟩
    rw [hroom]
    exact ⟨.nil, fun o ho => absurd ho List.not_mem_nil, le_rfl,
      fun o ho => .inr ⟨rfl, fun x hx => absurd hx List.not_mem_nil⟩⟩

/-! ## When the list is exact -/

/-- The occurrences that meet the window, each once, in ascending order. -/
def ExactlyMeets (zone : Zone) (rule : RRule) (length : Int) (window : Window)
    (out : List (Int × Int)) : Prop :=
  out.Pairwise (·.1 ≤ ·.1) ∧
    ∃ os : List Int, os.Nodup ∧ (∀ o, o ∈ os ↔ rule.Occurs o ∧ Overlaps zone length window o) ∧
      out.Perm (os.map (span zone length))

/-- What `expand_rrule` relies on: the occurrences that meet the window are few enough, the loop
enters before the first of them and is not ended before the last, and they begin in the order in
which the wall clock shows them. -/
structure Expandable (zone : Zone) (rule : RRule) (length : Int) (window : Window) (limit : Nat)
    (entry : Int) : Prop where
  few : ∀ os : List Int, os.Nodup →
    (∀ o ∈ os, rule.Occurs o ∧ Overlaps zone length window o) → os.length ≤ limit
  entered : ∀ o, rule.Occurs o → Overlaps zone length window o → entry ≤ o
  unbroken : ∀ o, rule.Occurs o → Overlaps zone length window o →
    ∀ o', rule.Occurs o' → entry ≤ o' → o' < o → ∀ e ∈ window.stop, zone.ofLocal o' < e
  ordered : ∀ o o', rule.Occurs o → rule.Occurs o' → Overlaps zone length window o →
    Overlaps zone length window o' → o < o' → zone.ofLocal o ≤ zone.ofLocal o'

/-- The wall time from which on `expand_rrule` looks for occurrences. -/
def entry (zone : Zone) (length : Int) (window : Window) (first : Int) : Int :=
  zone.toLocal (window.start.elim first (· - length))

/-- What `expand_rrule` lists: what the loop lists from its entry on. -/
theorem expandRrule_listed (zone : Zone) (length : Int) (window : Window) (limit : Nat)
    (parse : Int → RRule) (first : Int) :
    ∃ os, expandRrule zone length window limit parse first = os.map (span zone length) ∧
      Listed zone (parse (zone.toLocal first)) length window (entry zone length window first)
        limit os := by
  cases hcursor : (parse (zone.toLocal first)).after (entry zone length window first) true with
  | none =>
    refine ⟨[], ?_, listed_nil fun o ho => ?_⟩
    · unfold expandRrule
      rw [entry] at hcursor
      simp only [hcursor, List.map_nil]
    · refine RRule.after_none _ hcursor o ho.occurs ?_
      exact ho.le.lt_or_eq.imp id fun heq => ⟨rfl, heq.symm⟩
  | some cursor =>
    obtain ⟨os, hos, h⟩ : ∃ os, expandFrom zone _ length window limit cursor [] =
        [] ++ os.map (span zone length) ∧ Listed zone _ length window cursor limit os :=
      expandFrom_listed [] (RRule.after_some _ hcursor).1.1
    refine ⟨os, ?_, h.ascending, fun o ho => (met_iff_of_after hcursor).2 (h.met o ho), h.short,
      fun o ho => h.full o ((met_iff_of_after hcursor).1 ho)⟩
    unfold expandRrule
    rw [entry] at hcursor
    simp only [hcursor]
    exact hos

/-- The occurrences that are listed are all those that meet the window, or there are too many. -/
theorem Listed.all {cursor : Int} {os : List Int}
    (h : Listed zone rule length window cursor limit os)
    (hready : Expandable zone rule length window limit cursor) {o : Int} (ho : rule.Occurs o)
    (hoverlaps : Overlaps zone length window o) : o ∈ os := by
  have hmet : Met zone rule length window cursor o :=
    ⟨ho, hready.entered o ho hoverlaps, hoverlaps, hready.unbroken o ho hoverlaps⟩
  rcases h.full o hmet with hmem | ⟨hlen, hlast⟩
  · exact hmem
  · have hnot : o ∉ os := fun hmem => (hlast o hmem).false
    have hnodup : os.Nodup := h.ascending.imp fun hlt => hlt.ne
    have hfew := hready.few (o :: os) (List.nodup_cons.2 ⟨hnot, hnodup⟩) fun x hx => by
      rcases List.mem_cons.1 hx with rfl | hx
      · exact ⟨ho, hoverlaps⟩
      · exact ⟨(h.met x hx).occurs, (h.met x hx).overlaps⟩
    rw [List.length_cons] at hfew
    omega

variable {parse : Int → RRule} {first : Int}

/-- An exact list shows that the rule, the zone and the window are as the loop relies on. -/
theorem ExactlyMeets.expandable
    (h : ExactlyMeets zone (parse (zone.toLocal first)) length window
      (expandRrule zone length window limit parse first)) :
    Expandable zone (parse (zone.toLocal first)) length window limit
      (entry zone length window first) := by
  obtain ⟨os, hos, hl⟩ := expandRrule_listed zone length window limit parse first
  rw [hos] at h
  obtain ⟨hsorted, all, hall, hmem, hperm⟩ := h
  have hnodup : os.Nodup := hl.ascending.imp fun hlt => hlt.ne
  have hsub : os ⊆ all := fun o ho => (hmem o).2 ⟨(hl.met o ho).occurs, (hl.met o ho).overlaps⟩
  have hlen : os.length = all.length := by simpa using hperm.length_eq
  have hsame : os.Perm all := (hnodup.subperm hsub).perm_of_length_le hlen.ge
  have hlisted : ∀ o, (parse (zone.toLocal first)).Occurs o → Overlaps zone length window o →
      o ∈ os := fun o ho ho' => hsame.mem_iff.2 ((hmem o).2 ⟨ho, ho'⟩)
  refine ⟨fun ns hns hmeets => ?_, fun o ho ho' => (hl.met o (hlisted o ho ho')).le,
    fun o ho ho' => (hl.met o (hlisted o ho ho')).unbroken, ?_⟩
  · have hle := (hns.subperm fun o ho => (hmem o).2 (hmeets o ho)).length_le
    have hshort := hl.short
    omega
  · intro o o' ho ho' hov hov' hlt
    let InOrder : Int → Int → Prop := fun x y =>
      (x < y → zone.ofLocal x ≤ zone.ofLocal y) ∧ (y < x → zone.ofLocal y ≤ zone.ofLocal x)
    have hsymm : Std.Symm InOrder := ⟨fun x y hxy => ⟨hxy.2, hxy.1⟩⟩
    have hboth : os.Pairwise InOrder :=
      (hl.ascending.and (List.pairwise_map.1 hsorted)).imp fun hxy =>
        ⟨fun _ => hxy.2, fun hyx => absurd hyx hxy.1.not_gt⟩
    exact (hboth.forall (hlisted o ho hov) (hlisted o' ho' hov') hlt.ne).1 hlt

/-- And if they are, the list is exact. -/
theorem Expandable.exactlyMeets
    (h : Expandable zone (parse (zone.toLocal first)) length window limit
      (entry zone length window first)) :
    ExactlyMeets zone (parse (zone.toLocal first)) length window
      (expandRrule zone length window limit parse first) := by
  obtain ⟨os, hos, hl⟩ := expandRrule_listed zone length window limit parse first
  rw [hos]
  refine ⟨?_, os, hl.ascending.imp fun hlt => hlt.ne, fun o => ⟨fun ho => ?_, fun ho => ?_⟩,
    .refl _⟩
  · refine List.pairwise_map.2 (hl.ascending.imp_of_mem fun hx hy hlt => ?_)
    exact h.ordered _ _ (hl.met _ hx).occurs (hl.met _ hy).occurs (hl.met _ hx).overlaps
      (hl.met _ hy).overlaps hlt
  · exact ⟨(hl.met o ho).occurs, (hl.met o ho).overlaps⟩
  · exact hl.all h ho.1 ho.2

end

/-- **The list is exact** iff the rule, the zone and the window are as the loop relies on. -/
theorem expandRrule_exact_iff (zone : Zone) (parse : Int → RRule) (first length : Int)
    (window : Window) (limit : Nat) :
    ExactlyMeets zone (parse (zone.toLocal first)) length window
        (expandRrule zone length window limit parse first) ↔
      Expandable zone (parse (zone.toLocal first)) length window limit
        (entry zone length window first) :=
  ⟨ExactlyMeets.expandable, Expandable.exactlyMeets⟩

/-! ## A rule of equal steps -/

/-- The first step of a rule that is not before a time. -/
def stepFrom (anchor period t : Int) : Int :=
  if t ≤ anchor then anchor else anchor + (t - anchor + period - 1) / period * period

theorem stepFrom_isLeast (anchor t : Int) {period : Int} (h : 0 < period) :
    IsLeast {x | anchor ≤ x ∧ period ∣ x - anchor ∧ t ≤ x} (stepFrom anchor period t) := by
  unfold stepFrom
  split
  · rename_i hle
    exact ⟨⟨le_rfl, by simp, hle⟩, fun x hx => hx.1⟩
  · rename_i hlt
    have hdiv := Int.mul_ediv_add_emod (t - anchor + period - 1) period
    have hmod := Int.emod_lt_of_pos (t - anchor + period - 1) h
    have hmod' := Int.emod_nonneg (t - anchor + period - 1) h.ne'
    refine ⟨⟨?_, by simp, ?_⟩, ?_⟩
    · rw [mul_comm] at hdiv
      omega
    · rw [mul_comm] at hdiv
      omega
    · rintro x ⟨hx, ⟨k, hk⟩, ht⟩
      have hq : (t - anchor + period - 1) / period ≤ k := by
        have hlt' : (t - anchor + period - 1) / period < k + 1 := by
          refine Int.ediv_lt_of_lt_mul h ?_
          have hexp : (k + 1) * period = period * k + period := by ring
          omega
        omega
      have hle := mul_le_mul_of_nonneg_right hq h.le
      rw [mul_comm k] at hle
      omega

/-- A rule whose occurrences follow each other in equal steps, such as `FREQ=DAILY`. -/
def RRule.every (period : Int) (h : 0 < period) (anchor : Int) : RRule where
  Occurs x := anchor ≤ x ∧ period ∣ x - anchor
  after t inc := some (stepFrom anchor period (if inc then t else t + 1))
  after_some := by
    intro t inc o ho
    obtain rfl := Option.some.inj ho
    obtain ⟨⟨hanchor, hstep, hfrom⟩, hleast⟩ :=
      stepFrom_isLeast anchor (if inc then t else t + 1) h
    refine ⟨⟨⟨hanchor, hstep⟩, ?_⟩, fun x hx => hleast ⟨hx.1.1, hx.1.2, ?_⟩⟩
    · cases inc
      · exact .inl hfrom
      · exact hfrom.lt_or_eq.imp id fun heq => ⟨rfl, heq.symm⟩
    · rcases hx.2 with hlt | ⟨rfl, rfl⟩
      · cases inc
        · exact hlt
        · exact hlt.le
      · exact le_rfl
  after_none := fun h => (nomatch h)

/-- `FREQ=DAILY`. -/
def RRule.daily : Int → RRule := RRule.every day (by decide)

/-! ## An hour that the clock skips -/

/-- Berlin around the change of March 2026: the clock goes from two to three. -/
def berlin : Zone where
  initial := hour
  changes := [(1774746000 * second, 2 * hour)]
  ascending := List.pairwise_singleton _ _
  small := by decide

/-- **A skipped hour**: half past two each night is not listed on the night of the change. -/
theorem expandRrule_skips_gap :
    ¬ ExactlyMeets berlin (RRule.daily (berlin.toLocal (1774575000 * second))) (1800 * second)
      ⟨some (1774748700 * second), some (1774749600 * second)⟩
      (expandRrule berlin (1800 * second)
        ⟨some (1774748700 * second), some (1774749600 * second)⟩ defaultLimit RRule.daily
        (1774575000 * second)) := by
  intro h
  have hoccurs : (RRule.daily (berlin.toLocal (1774575000 * second))).Occurs
      (1774751400 * second) := by
    constructor <;> decide
  have hoverlaps : Overlaps berlin (1800 * second)
      ⟨some (1774748700 * second), some (1774749600 * second)⟩ (1774751400 * second) := by
    constructor <;> intro t ht <;> cases ht <;> decide
  exact absurd (h.expandable.entered _ hoccurs hoverlaps) (by decide)

end SecondMind
