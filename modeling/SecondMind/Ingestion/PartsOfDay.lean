import SecondMind.Ingestion.Pipeline
import SecondMind.Ingestion.TimeWindows
import SecondMind.Regex.Language

/-!
# Parts of a day, at save and at recall

A save puts a part of a day at an hour of the wall clock; a recall opens its window so many hours
after the midnight before.  Both read the day off the same few texts.

* `Squeezed` — a text in the normal form, which has single blanks only;
* `namedPart` — the day and the part that a recall reads in an expression;
* `norm_mem_partTexts` — the few texts in which it reads one, and what a save reads in them;
* `parts_agree_iff` — the moment is in the window as long as the clock is hardly moved in between.
-/

namespace SecondMind

namespace Time

open Gregorian Regex Regex.Pattern

/-! ## Single blanks -/

/-- Every white space is one blank. -/
structure Squeezed (text : Text) : Prop where
  blank : ∀ c ∈ text, isSpace c = true → c = ' '
  single : text.IsChain fun a b => ¬ (isSpace a = true ∧ isSpace b = true)

namespace Squeezed

variable {text part : Text}

theorem infix_ (h : Squeezed text) (hpart : part <:+: text) : Squeezed part where
  blank := fun c hc => h.blank c (hpart.subset hc)
  single := h.single.infix hpart

theorem spaces_eq (h : Squeezed part) (hne : part ≠ []) (hspace : ∀ c ∈ part, isSpace c = true) :
    part = [' '] := by
  match part with
  | [] => exact absurd rfl hne
  | [c] => rw [h.blank c (List.mem_singleton_self c) (hspace c (List.mem_singleton_self c))]
  | a :: b :: rest =>
    have hpair := (List.isChain_cons_cons.1 h.single).1
    exact absurd ⟨hspace a (by simp), hspace b (by simp)⟩ hpair

end Squeezed

theorem not_isSpace_of_mem_splitOnP {text word : Text} (h : word ∈ text.splitOnP isSpace) :
    ∀ c ∈ word, isSpace c = false := by
  induction text generalizing word with
  | nil =>
    rw [List.splitOnP_nil, List.mem_singleton] at h
    subst h
    simp
  | cons x text ih =>
    rw [List.splitOnP_cons_eq_if_modifyHead] at h
    split at h
    · rcases List.mem_cons.1 h with rfl | h
      · simp
      · exact ih h
    · rename_i hx
      obtain ⟨head, tail, htext⟩ := List.exists_cons_of_ne_nil (List.splitOnP_ne_nil isSpace text)
      rw [htext] at h
      rcases List.mem_cons.1 h with rfl | h
      · intro c hc
        rcases List.mem_cons.1 hc with rfl | hc
        · simpa using hx
        · exact ih (htext ▸ List.mem_cons_self) c hc
      · exact ih (htext ▸ List.mem_cons_of_mem _ h)

/-- Words with a blank in between. -/
theorem squeezed_intercalate {words : List Text} (hne : ∀ w ∈ words, w ≠ [])
    (hword : ∀ w ∈ words, ∀ c ∈ w, isSpace c = false) :
    Squeezed ([' '].intercalate words) ∧
      ∀ c ∈ ([' '].intercalate words).head?, isSpace c = false := by
  induction words with
  | nil => exact ⟨⟨by simp, by simp⟩, by simp⟩
  | cons w words ih =>
    have hw := hword w List.mem_cons_self
    have hchain : w.IsChain fun a b => ¬ (isSpace a = true ∧ isSpace b = true) := by
      apply List.Pairwise.isChain
      apply List.pairwise_iff_forall_sublist.2
      intro a b hab hspace
      have ha := hw a (hab.subset List.mem_cons_self)
      rw [hspace.1] at ha
      exact absurd ha Bool.noConfusion
    obtain ⟨x, rest, rfl⟩ := List.exists_cons_of_ne_nil (hne w List.mem_cons_self)
    cases words with
    | nil =>
      rw [List.intercalate_singleton]
      refine ⟨⟨fun c hc hspace => ?_, hchain⟩, ?_⟩
      · rw [hw c hc] at hspace
        exact absurd hspace Bool.noConfusion
      · rintro c ⟨⟩
        exact hw x List.mem_cons_self
    | cons w' words =>
      obtain ⟨hsqueezed, hhead⟩ := ih (fun v hv => hne v (List.mem_cons_of_mem _ hv))
        (fun v hv => hword v (List.mem_cons_of_mem _ hv))
      rw [List.intercalate_cons_cons]
      refine ⟨⟨fun c hc hspace => ?_, ?_⟩, ?_⟩
      · rcases List.mem_append.1 hc with hc | hc
        · rcases List.mem_append.1 hc with hc | hc
          · rw [hw c hc] at hspace
            exact absurd hspace Bool.noConfusion
          · exact List.mem_singleton.1 hc
        · exact hsqueezed.blank c hc hspace
      · rw [List.append_assoc]
        refine List.isChain_append.2 ⟨hchain, ?_, ?_⟩
        · refine List.isChain_append.2 ⟨by simp, hsqueezed.single, fun a _ b hb hspace => ?_⟩
          rw [hhead b hb] at hspace
          exact absurd hspace.2 Bool.noConfusion
        · intro a ha b _ hspace
          rw [hw a (List.mem_of_mem_getLast? ha)] at hspace
          exact absurd hspace.1 Bool.noConfusion
      · rintro c ⟨⟩
        exact hw x List.mem_cons_self

theorem squeezed_squeeze (text : Text) : Squeezed (squeeze text) := by
  refine (squeezed_intercalate (fun w hw => ?_) (fun w hw => ?_)).1
  · exact of_decide_eq_true (List.mem_filter.1 hw).2
  · exact not_isSpace_of_mem_splitOnP (List.mem_filter.1 hw).1

theorem squeezed_norm (lib : TextLib) (expression : String) : Squeezed (norm lib expression) :=
  squeezed_squeeze _

/-! ## The texts of a part of a day -/

/-- The day, counted from today, and the part of it that a recall reads in a text. -/
def readPart (text : Text) : Option (Int × Part) :=
  (fullmatch windowPartRe text).bind fun m => (partNamed m).2.map ((partNamed m).1, ·)

/-- The day and the part that a recall reads in an expression. -/
def namedPart (lib : TimeLib) (expression : String) : Option (Int × Part) :=
  readPart (windowText (norm lib.text expression))

/-- The texts that a recall reads as a part of a day. -/
def windowTexts : List String :=
  (["", "this ", "yesterday ", "today ", "tomorrow "].flatMap fun word =>
    Part.names.map (word ++ ·)) ++ ["tonight", "last night"]

/-- Those before which a preposition is dropped. -/
def ledTexts : List String := "last night" :: Part.names.map ("this " ++ ·)

/-- The texts that name a part of a day, with and without a preposition that is dropped. -/
def partTexts : List String :=
  windowTexts ++
    ["in", "during", "over", "within", "for", "from", "on", "at"].flatMap fun word =>
      ledTexts.map (word ++ " " ++ ·)

section

variable {text u : Text}

theorem lang_spaces (h : spaces.Lang u) : u ≠ [] ∧ ∀ c ∈ u, isSpace c = true := by
  obtain ⟨hspace, hlen, -⟩ := lang_rep_one h
  refine ⟨?_, hspace⟩
  rintro rfl
  exact absurd hlen (by decide)

theorem lang_optBeforeSpaces {p : Pattern} (h : (optBeforeSpaces p).Lang u) :
    u = [] ∨ ∃ v w, u = v ++ w ∧ p.Lang v ∧ w ≠ [] ∧ ∀ c ∈ w, isSpace c = true := by
  rcases lang_opt h with rfl | ⟨v, w, rfl, hv, hw⟩
  · exact .inl rfl
  · exact .inr ⟨v, w, rfl, hv, lang_spaces hw⟩

theorem mem_windowTexts (hs : Squeezed text) (h : windowPartRe.Lang text) :
    ∃ s ∈ windowTexts, text = s.toList := by
  rcases h with ⟨v, w, rfl, hv, hw⟩ | h
  · obtain ⟨part, hpart, rfl⟩ := lang_texts.1 hw
    have hname : ∀ word ∈ ["", "this ", "yesterday ", "today ", "tomorrow "],
        word ++ part ∈ windowTexts := fun word hword =>
      List.mem_append_left _ (List.mem_flatMap.2 ⟨word, hword, List.mem_map_of_mem hpart⟩)
    rcases lang_optBeforeSpaces hv with rfl | ⟨word, blank, rfl, hword, hne, hspace⟩
    · exact ⟨"" ++ part, hname "" (by simp), by simp⟩
    · have hblank : blank = [' '] :=
        (hs.infix_ ⟨word, part.toList, rfl⟩).spaces_eq hne hspace
      subst hblank
      obtain ⟨word, hmem, rfl⟩ := lang_texts.1 hword
      refine ⟨(word ++ " ") ++ part, hname (word ++ " ") ?_, by simp⟩
      simp only [List.mem_cons, List.not_mem_nil, or_false] at hmem
      rcases hmem with rfl | rfl | rfl | rfl <;> decide
  · obtain ⟨s, hnight, rfl⟩ := lang_texts.1 h
    exact ⟨s, List.mem_append_right _ hnight, rfl⟩

end

/-- A preposition is dropped before a few words only. -/
theorem windowText_cases (text : Text) :
    windowText text = text ∨ ∃ word ∈ ["in", "during", "over", "within", "for", "from", "on", "at"],
      ∃ blank, text = word.toList ++ blank ++ windowText text ∧
        (blank ≠ [] ∧ ∀ c ∈ blank, isSpace c = true) ∧
        ∃ next ∈ ["the", "last", "past", "next", "this"], next.toList <+: windowText text := by
  rcases sub_anchored (anchored_seq_start _) (fun _ => []) text with h | ⟨m, hm, h⟩
  · exact .inl h
  · right
    obtain ⟨d, hd, hrest⟩ := exists_run_of_matchStart hm
    obtain ⟨c₁, hc₁, hd⟩ := mem_run_seq.1 hd
    obtain ⟨c₂, hc₂, hd⟩ := mem_run_seq.1 hd
    obtain ⟨c₃, hc₃, hd⟩ := mem_run_seq.1 hd
    obtain ⟨⟨_, rfl, hmoves₁⟩, -⟩ := Pattern.run_sound _ _ _ hc₁
    obtain ⟨⟨word, hword, hmoves₂⟩, -⟩ := Pattern.run_sound _ _ _ hc₂
    obtain ⟨⟨blank, hblank, hmoves₃⟩, -⟩ := Pattern.run_sound _ _ _ hc₃
    obtain ⟨rfl, next, hnext, hprefix⟩ := mem_run_ahead hd
    obtain ⟨word, hmem, rfl⟩ := lang_texts.1 hword
    have hwindow : windowText text = d.rest := by
      rw [← hrest]
      exact h
    have hmoves := (hmoves₁.trans (hmoves₂.trans hmoves₃)).rest
    refine ⟨word, hmem, blank, ?_, lang_spaces hblank, ?_⟩
    · rw [hwindow, List.append_assoc]
      simpa using hmoves
    · rw [hwindow]
      obtain ⟨p, hp, hnext⟩ := lang_any.1 hnext
      simp only [List.mem_cons, List.not_mem_nil, or_false] at hp
      rcases hp with rfl | rfl | rfl | rfl | rfl
      · obtain ⟨the, c, rfl, hthe, -⟩ := hnext
        rw [lang_text.1 hthe] at hprefix
        exact ⟨"the", by simp, (List.prefix_append _ _).trans hprefix⟩
      · exact ⟨"last", by simp, lang_text.1 hnext ▸ hprefix⟩
      · exact ⟨"past", by simp, lang_text.1 hnext ▸ hprefix⟩
      · exact ⟨"next", by simp, lang_text.1 hnext ▸ hprefix⟩
      · exact ⟨"this", by simp, lang_text.1 hnext ▸ hprefix⟩

theorem mem_ledTexts : ∀ s ∈ windowTexts, ∀ next ∈ ["the", "last", "past", "next", "this"],
    next.toList <+: s.toList → s ∈ ledTexts := by
  decide +kernel

/-- **The few texts** in which a recall reads a part of a day. -/
theorem norm_mem_partTexts {lib : TimeLib} {expression : String} {named : Int × Part}
    (h : namedPart lib expression = some named) :
    (∃ s ∈ windowTexts, windowText (norm lib.text expression) = s.toList) ∧
      ∃ s ∈ partTexts, norm lib.text expression = s.toList := by
  rw [namedPart, readPart] at h
  obtain ⟨m, hm, -⟩ := Option.bind_eq_some_iff.1 h
  have hlang := (fullmatch_sound hm).2
  have hnorm := squeezed_norm lib.text expression
  generalize norm lib.text expression = text at hlang hnorm ⊢
  rcases windowText_cases text with hsame | ⟨word, hword, blank, htext, hblank, next, hnext, hled⟩
  · rw [hsame] at hlang ⊢
    obtain ⟨s, hs, htext⟩ := mem_windowTexts hnorm hlang
    exact ⟨⟨s, hs, htext⟩, s, List.mem_append_left _ hs, htext⟩
  · generalize windowText text = window at hlang htext hled ⊢
    have hwindow : Squeezed window :=
      hnorm.infix_ ⟨word.toList ++ blank, [], (List.append_nil _).trans htext.symm⟩
    obtain ⟨s, hs, heq⟩ := mem_windowTexts hwindow hlang
    have hone : blank = [' '] :=
      (hnorm.infix_ ⟨word.toList, window, htext.symm⟩).spaces_eq hblank.1 hblank.2
    refine ⟨⟨s, hs, heq⟩, word ++ " " ++ s, List.mem_append_right _ ?_, ?_⟩
    · exact List.mem_flatMap.2 ⟨word, hword,
        List.mem_map_of_mem (mem_ledTexts s hs next hnext (heq ▸ hled))⟩
    · rw [htext, hone, heq]
      simp

/-! ## What a save reads in a text -/

/-- The day that a word names, counted from today. -/
def dayOffset (text : Text) : Option Int :=
  (relativeDays.find? (·.1.toList = text)).map (·.2.1)

/-- The patterns of the rules for a day that is named otherwise. -/
def spanPatterns : List Pattern :=
  [isoDateRe, numericRe, inUnitsRe, unitsLaterRe, unitsAgoRe, qualifiedWeekdayRe, periodRe, edgeRe,
    dayOfMonthRe, dayMonthRe, monthDayRe, bareDayRe, qualifiedMonthRe, yearRe]

/-- No rule for a day reads the text. -/
def unread (text : Text) : Bool :=
  dayOffset text = none && spanPatterns.all fun p => (fullmatch p text).isNone

/-- If a text without its part of a day is read, then as a day counted from today. -/
def readsDay (text : Text) (offset : Int) : Bool :=
  dayOffset text = some offset ||
    unread text &&
      (dayOffset (bareText text) = some offset ||
        unread (bareText text) && (matchStart weekdayRestRe (bareText text)).isNone &&
          (offset = 0 || !nothingLeft text))

/-- If a text is read, then as a part of a day counted from today. -/
def readsPart (text : Text) (named : Int × Part) : Bool :=
  !isRoutine text &&
    match clockTime text with
    | .ok (rest, none, some part) =>
      part = named.2 && [isoInstantRe, inClockUnitsRe, clockUnitsAgoRe].all (fun p =>
        (fullmatch p rest).isNone) && readsDay rest named.1
    | _ => false

/-- A single day, counted from today. -/
structure Day.IsFromToday (d : Day) (now : TurnNow) (offset : Int) : Prop where
  precision : d.precision = .day
  days : d.days = 1
  start : ∃ today, now.today = .ok today ∧ addDays today offset = .ok d.start

section

variable {text : Text} {now : TurnNow} {direction : Direction}

theorem firstSpan_eq_none {rules : List SpanRule}
    (h : ∀ rule ∈ rules, ∀ d, rule text now direction = .ok d → d = none) {d : Option Day}
    (hd : firstSpan text now direction rules = .ok d) : d = none := by
  induction rules with
  | nil =>
    cases hd
    rfl
  | cons rule rules ih =>
    obtain ⟨d', hrule, hd⟩ := bind_eq_ok.1 hd
    obtain rfl := h rule List.mem_cons_self d' hrule
    exact ih (fun rule' hmem => h rule' (List.mem_cons_of_mem _ hmem)) hd

theorem span_of_unread (h : unread text = true) {d : Option Day}
    (hd : span text now direction = .ok d) : d = none := by
  obtain ⟨hday, hpatterns⟩ := Bool.and_eq_true_iff.1 h
  have hfind : relativeDays.find? (·.1.toList = text) = none :=
    Option.map_eq_none_iff.1 (of_decide_eq_true hday)
  have hfull : ∀ p ∈ spanPatterns, fullmatch p text = none := fun p hp =>
    Option.isNone_iff_eq_none.1 (List.all_eq_true.1 hpatterns p hp)
  simp only [spanPatterns, List.forall_mem_cons] at hfull
  obtain ⟨hiso, hnumeric, hin, hlater, hago, hweekday, hperiod, hedge, hdayOf, hdayMonth, hmonthDay,
    hbare, hmonth, hyear, -⟩ := hfull
  refine firstSpan_eq_none (fun rule hrule d hd => ?_) hd
  simp only [spanRules, List.mem_cons, List.not_mem_nil, or_false] at hrule
  rcases hrule with rfl | rfl | rfl | rfl | rfl | rfl | rfl | rfl | rfl
  · obtain ⟨today, -, hd⟩ := bind_eq_ok.1 hd
    rw [hfind] at hd
    cases hd
    rfl
  · rw [isoOrNumeric, hiso, hnumeric] at hd
    cases hd
    rfl
  · rw [inN, hin, hlater, hago] at hd
    cases hd
    rfl
  · rw [weekday, hweekday] at hd
    cases hd
    rfl
  · obtain ⟨today, -, hd⟩ := bind_eq_ok.1 hd
    rw [hperiod] at hd
    cases hd
    rfl
  · obtain ⟨today, -, hd⟩ := bind_eq_ok.1 hd
    rw [hedge] at hd
    cases hd
    rfl
  · obtain ⟨today, -, hd⟩ := bind_eq_ok.1 hd
    rw [hdayOf, hdayMonth, hmonthDay, hbare] at hd
    cases hd
    rfl
  · obtain ⟨today, -, hd⟩ := bind_eq_ok.1 hd
    rw [hmonth] at hd
    cases hd
    rfl
  · rw [year, hyear] at hd
    cases hd
    rfl

theorem span_of_dayOffset {offset : Int} (h : dayOffset text = some offset) {d : Option Day}
    (hd : span text now direction = .ok d) : ∃ d', d = some d' ∧ d'.IsFromToday now offset := by
  obtain ⟨⟨word, n, rule⟩, hfind, rfl⟩ := Option.map_eq_some_iff.1 h
  obtain ⟨d', hrule, hd⟩ := bind_eq_ok.1 hd
  obtain ⟨today, htoday, hrule⟩ := bind_eq_ok.1 hrule
  rw [hfind] at hrule
  obtain ⟨start, hstart, hrule⟩ := bind_eq_ok.1 hrule
  cases hrule
  cases hd
  exact ⟨_, rfl, rfl, rfl, today, htoday, hstart⟩

theorem namedDay_of_readsDay {offset : Int} (h : readsDay text offset = true) {d : Option Day}
    (hd : namedDay text now direction = .ok d) :
    (∃ d', d = some d' ∧ d'.IsFromToday now offset) ∨
      d = none ∧ (offset = 0 ∨ nothingLeft text = false) := by
  obtain ⟨first, hfirst, hd⟩ := bind_eq_ok.1 hd
  rcases Bool.or_eq_true_iff.1 h with h | h
  · obtain ⟨d', rfl, hd'⟩ := span_of_dayOffset (of_decide_eq_true h) hfirst
    cases hd
    exact .inl ⟨d', rfl, hd'⟩
  · obtain ⟨hunread, h⟩ := Bool.and_eq_true_iff.1 h
    obtain rfl := span_of_unread hunread hfirst
    obtain ⟨second, hsecond, hd⟩ := bind_eq_ok.1 hd
    rcases Bool.or_eq_true_iff.1 h with h | h
    · obtain ⟨d', rfl, hd'⟩ := span_of_dayOffset (of_decide_eq_true h) hsecond
      cases hd
      exact .inl ⟨d', rfl, hd'⟩
    · obtain ⟨h, hleft⟩ := Bool.and_eq_true_iff.1 h
      obtain ⟨hunread, hrest⟩ := Bool.and_eq_true_iff.1 h
      obtain rfl := span_of_unread hunread hsecond
      have hd : weekdayAndDate (bareText text) now direction = .ok d := hd
      rw [weekdayAndDate, Option.isNone_iff_eq_none.1 hrest] at hd
      cases hd
      refine .inr ⟨rfl, ?_⟩
      simpa using hleft

theorem exactInstant_eq_none (h : [isoInstantRe, inClockUnitsRe, clockUnitsAgoRe].all (fun p =>
    (fullmatch p text).isNone) = true) : exactInstant text now = .ok none := by
  have hfull : ∀ p ∈ [isoInstantRe, inClockUnitsRe, clockUnitsAgoRe], fullmatch p text = none :=
    fun p hp => Option.isNone_iff_eq_none.1 (List.all_eq_true.1 h p hp)
  rw [exactInstant, hfull isoInstantRe (by simp), hfull inClockUnitsRe (by simp),
    hfull clockUnitsAgoRe (by simp)]

theorem impliedDay_isFromToday {d : Day} (hd : impliedDay none now direction = .ok d) :
    d.IsFromToday now 0 := by
  obtain ⟨today, htoday, hd⟩ := bind_eq_ok.1 hd
  cases hd
  refine ⟨rfl, rfl, today, htoday, ?_⟩
  show dateOf (today.ordinal + 0) = _
  rw [Int.add_zero, dateOf, Date.ofOrdinal, dif_pos ⟨today.first, today.last⟩]

theorem applyTime_part {d : Day} {offset : Int} {part : Part} {r : Resolved}
    (hd : d.IsFromToday now offset) (hr : applyTime d none (some part) now = .ok r) :
    now.at_ d.start part.starts.offset = .ok r.start := by
  simp only [applyTime, hd.precision, hd.days, and_self, decide_true, if_true] at hr
  obtain ⟨begins, hbegins, hr⟩ := bind_eq_ok.1 hr
  obtain ⟨midnight, -, hr⟩ := bind_eq_ok.1 hr
  obtain ⟨ends, -, hr⟩ := bind_eq_ok.1 hr
  cases hr
  exact hbegins

/-- A day that is counted from today, and a time of it. -/
def TurnNow.IsAt (now : TurnNow) (offset t instant : Int) : Prop :=
  ∃ today d, now.today = .ok today ∧ addDays today offset = .ok d ∧ now.at_ d t = .ok instant

/-- **At save** a part of a day is at the hour of the wall clock at which it starts. -/
theorem resolveText_isAt {lib : TimeLib} {expression : String} {named : Int × Part} {r : Resolved}
    (h : readsPart text named = true)
    (hr : resolveText lib expression text now direction false = .ok r) :
    now.IsAt named.1 (named.2.hours.1 * hour) r.start := by
  obtain ⟨hroutine, h⟩ := Bool.and_eq_true_iff.1 h
  have hnone : routine lib text now = .ok none := by
    rw [routine, if_neg]
    simpa using hroutine
  obtain ⟨found, hfound, hr⟩ := bind_eq_ok.1 hr
  rw [hnone] at hfound
  cases hfound
  obtain ⟨⟨rest, ct, part⟩, hclock, hr⟩ := bind_eq_ok.1 hr
  rw [hclock] at h
  match ct, part with
  | some ct, _ => exact absurd h Bool.false_ne_true
  | none, none => exact absurd h Bool.false_ne_true
  | none, some part =>
    obtain ⟨h, hday⟩ := Bool.and_eq_true_iff.1 h
    obtain ⟨hpart, hexact⟩ := Bool.and_eq_true_iff.1 h
    obtain rfl : part = named.2 := of_decide_eq_true hpart
    have hd : ∃ d : Day, d.IsFromToday now named.1 ∧
        applyTime d none (some named.2) now = .ok r := by
      obtain ⟨exact, hexact', hr⟩ := bind_eq_ok.1 hr
      rw [exactInstant_eq_none hexact] at hexact'
      cases hexact'
      obtain ⟨found, hfound, hr⟩ := bind_eq_ok.1 hr
      have happly : ∀ d : Day, (applyTime d none (some named.2) now >>= fun result =>
          if false = true then yearly result now else pure result) = .ok r →
          applyTime d none (some named.2) now = .ok r := by
        intro d h
        obtain ⟨result, hresult, h⟩ := bind_eq_ok.1 h
        cases h
        exact hresult
      rcases namedDay_of_readsDay hday hfound with ⟨d, rfl, hd⟩ | ⟨rfl, hleft⟩
      · exact ⟨d, hd, happly d hr⟩
      · by_cases hnothing : nothingLeft rest = true
        · rcases hleft with hzero | hleft
          · rw [hzero]
            simp only [hnothing, Option.isSome_some, or_true, and_self, if_true] at hr
            obtain ⟨d, hd, hr⟩ := bind_eq_ok.1 hr
            exact ⟨d, impliedDay_isFromToday hd, happly d hr⟩
          · rw [hleft] at hnothing
            exact absurd hnothing Bool.false_ne_true
        · simp only [hnothing] at hr
          obtain ⟨d, hd, -⟩ := bind_eq_ok.1 hr
          exact nomatch hd
    obtain ⟨d, hd, hr⟩ := hd
    obtain ⟨today, htoday, hstart⟩ := hd.start
    have hoffset : named.2.starts.offset = named.2.hours.1 * hour := by
      simp [TimeOfDay.offset, Part.starts]
    rw [← hoffset]
    exact ⟨today, d.start, htoday, hstart, applyTime_part hd hr⟩

end

/-! ## What a recall reads in a text -/

/-- The text is no range, no counted span and no open one. -/
def readsWindow (text : Text) : Bool :=
  ([betweenRe, boundRe, relativeSpanRe].all fun p => (fullmatch p text).isNone) &&
    [openEndedRe, upcomingRe, recentRe].all fun p => (matchStart p text).isNone

section

variable {text : Text} {now : TurnNow} {named : Int × Part}

theorem partOfDay_eq_ok {m : Match} {s : Option Span} (hm : partNamed m = (named.1, some named.2))
    (hs : partOfDay m now = .ok s) : ∃ midnight, now.IsAt named.1 0 midnight ∧
      s = some (spanOf (midnight + named.2.windowHours.1 * hour)
        (midnight + named.2.windowHours.2 * hour) .datetime ("part_of_day_" ++ named.2.name)) := by
  obtain ⟨today, htoday, hs⟩ := bind_eq_ok.1 hs
  rw [hm] at hs
  obtain ⟨d, hd, hs⟩ := bind_eq_ok.1 hs
  obtain ⟨midnight, hmidnight, hs⟩ := bind_eq_ok.1 hs
  obtain ⟨begins, hbegins, hs⟩ := bind_eq_ok.1 hs
  obtain ⟨midnight', hmidnight', hs⟩ := bind_eq_ok.1 hs
  rw [hmidnight] at hmidnight'
  cases hmidnight'
  obtain ⟨ends, hends, hs⟩ := bind_eq_ok.1 hs
  cases hs
  rw [eq_of_checked hbegins, eq_of_checked hends]
  exact ⟨midnight, ⟨today, d, htoday, hd, hmidnight⟩, rfl⟩

/-- **At recall** a part of a day lies between so many hours after midnight. -/
theorem freeSpan_eq_ok {s : Option Span} (h : readsWindow text = true)
    (hnamed : readPart text = some named) (hs : freeSpan text now .any = .ok s) :
    ∃ midnight, now.IsAt named.1 0 midnight ∧
      s = some (spanOf (midnight + named.2.windowHours.1 * hour)
        (midnight + named.2.windowHours.2 * hour) .datetime ("part_of_day_" ++ named.2.name)) := by
  obtain ⟨hfull, hstart⟩ := Bool.and_eq_true_iff.1 h
  have hfull : ∀ p ∈ [betweenRe, boundRe, relativeSpanRe], fullmatch p text = none := fun p hp =>
    Option.isNone_iff_eq_none.1 (List.all_eq_true.1 hfull p hp)
  have hstart : ∀ p ∈ [openEndedRe, upcomingRe, recentRe], matchStart p text = none := fun p hp =>
    Option.isNone_iff_eq_none.1 (List.all_eq_true.1 hstart p hp)
  obtain ⟨m, hm, hmap⟩ := Option.bind_eq_some_iff.1 hnamed
  obtain ⟨part, hpart, rfl⟩ := Option.map_eq_some_iff.1 hmap
  obtain ⟨ranged, hranged, hs⟩ := bind_eq_ok.1 hs
  rw [range, hfull betweenRe (by simp), hfull boundRe (by simp)] at hranged
  cases hranged
  obtain ⟨relative, hrelative, hs⟩ := bind_eq_ok.1 hs
  unfold relativeSpan at hrelative
  rw [hfull relativeSpanRe (by simp)] at hrelative
  cases hrelative
  have hs : calendar text now .any = .ok s := hs
  rw [calendar, hstart openEndedRe (by simp), hstart upcomingRe (by simp),
    hstart recentRe (by simp), hm] at hs
  exact partOfDay_eq_ok (Prod.ext rfl hpart) hs

end

/-! ## The moment and the window -/

/-- A save reads the text as the day and the part that a recall reads. -/
def agrees (s : String) : Bool :=
  (readPart (windowText s.toList)).all fun named => readsPart (takeBound s.toList).2 named

theorem windowTexts_agree : windowTexts.all agrees = true := by decide +kernel

theorem ledTexts_agree :
    (["in", "during", "over", "within"].all fun word =>
      ledTexts.all fun s => agrees (word ++ " " ++ s)) = true := by
  decide +kernel

theorem boundTexts_agree :
    (["for", "from", "on", "at"].all fun word =>
      ledTexts.all fun s => agrees (word ++ " " ++ s)) = true := by
  decide +kernel

theorem agrees_of_mem {s : String} (hs : s ∈ partTexts) : agrees s = true := by
  rcases List.mem_append.1 hs with hs | hs
  · exact List.all_eq_true.1 windowTexts_agree s hs
  · obtain ⟨word, hword, hs⟩ := List.mem_flatMap.1 hs
    obtain ⟨led, hled, rfl⟩ := List.mem_map.1 hs
    have hsplit : word ∈ ["in", "during", "over", "within"] ++ ["for", "from", "on", "at"] := hword
    rcases List.mem_append.1 hsplit with hword | hword
    · exact List.all_eq_true.1 (List.all_eq_true.1 ledTexts_agree word hword) led hled
    · exact List.all_eq_true.1 (List.all_eq_true.1 boundTexts_agree word hword) led hled

/-- A save reads each of the texts as the day and the part that a recall reads. -/
theorem readsPart_of_mem {s : String} (hs : s ∈ partTexts) {named : Int × Part}
    (hnamed : readPart (windowText s.toList) = some named) :
    readsPart (takeBound s.toList).2 named = true := by
  have hagrees := agrees_of_mem hs
  rwa [agrees, hnamed] at hagrees

theorem readsWindow_of_mem : ∀ s ∈ windowTexts, readsWindow s.toList = true := by
  decide +kernel

section

variable {lib : TimeLib} {expression : String} {clock clock' : TimeClock} {now : TurnNow}
  {direction : Direction} {named : Int × Part}

theorem resolve_isAt {r : Resolved} (hnamed : namedPart lib expression = some named)
    (hr : resolve lib expression clock now direction = .ok r) :
    now.IsAt named.1 (named.2.hours.1 * hour) r.start := by
  obtain ⟨-, s, hs, htext⟩ := norm_mem_partTexts hnamed
  obtain ⟨result, hresult, hr⟩ := bind_eq_ok.1 hr
  cases hr
  rw [namedPart] at hnamed
  rw [htext] at hnamed hresult
  have hstart := resolveText_isAt (readsPart_of_mem hs hnamed) hresult
  exact hstart

theorem resolveWindow_eq_ok {w : RecallWindow} (hnamed : namedPart lib expression = some named)
    (hw : resolveWindow lib expression clock now = .ok w) :
    ∃ midnight, now.IsAt named.1 0 midnight ∧
      w.start = some (midnight + named.2.windowHours.1 * hour) ∧
      w.stop = some (midnight + named.2.windowHours.2 * hour) := by
  obtain ⟨⟨s, hs, htext⟩, -⟩ := norm_mem_partTexts hnamed
  have hread : readsWindow (windowText (norm lib.text expression)) = true := by
    rw [htext]
    exact readsWindow_of_mem s hs
  obtain ⟨found, hfound, hw⟩ := bind_eq_ok.1 hw
  obtain ⟨midnight, hmidnight, rfl⟩ := freeSpan_eq_ok hread hnamed hfound
  cases hw
  refine ⟨midnight, hmidnight, ?_⟩
  show (clip _ _ _).start = _ ∧ (clip _ _ _).stop = _
  unfold clip
  split <;> exact ⟨rfl, rfl⟩

end

/-- How far the clock is moved from the midnight of a date until a part of it starts. -/
def movedUntil (zone : Zone) (date : Int) (part : Part) : Int :=
  zone.wallOffset (date * day + part.hours.1 * hour) - zone.wallOffset (date * day)

/-- The clock is moved by no more than the part begins early, and by less than it ends late. -/
def Steady (zone : Zone) (date : Int) (part : Part) : Prop :=
  (part.hours.1 - part.windowHours.2) * hour < movedUntil zone date part ∧
    movedUntil zone date part ≤ (part.hours.1 - part.windowHours.1) * hour

instance (zone : Zone) (date : Int) (part : Part) : Decidable (Steady zone date part) :=
  inferInstanceAs (Decidable (_ ∧ _))

theorem TurnNow.IsAt.eq {now : TurnNow} {offset t instant : Int} (h : now.IsAt offset t instant) :
    instant = now.zone.ofLocal ((now.zone.toLocal now.instant / day + offset) * day + t) := by
  obtain ⟨today, d, htoday, hd, hinstant⟩ := h
  obtain ⟨localTime, hlocal, htoday⟩ := bind_eq_ok.1 htoday
  rw [eq_of_checked hinstant, ordinal_of_dateOf hd, ordinal_of_dateOf htoday, eq_of_checked hlocal]

/-- **Save and recall** agree on a part of a day as long as the clock is hardly moved between the
midnight before and its start. -/
theorem parts_agree_iff {lib : TimeLib} {expression : String} {clock clock' : TimeClock}
    {now : TurnNow} {direction : Direction} {named : Int × Part} {r : Resolved} {w : RecallWindow}
    (hnamed : namedPart lib expression = some named)
    (hr : resolve lib expression clock now direction = .ok r)
    (hw : resolveWindow lib expression clock' now = .ok w) :
    w.contains r.start = true ↔
      Steady now.zone (now.zone.toLocal now.instant / day + named.1) named.2 := by
  have hstart := (resolve_isAt hnamed hr).eq
  obtain ⟨midnight, hmidnight, hopen, hclose⟩ := resolveWindow_eq_ok hnamed hw
  have hmidnight := hmidnight.eq
  rw [Int.add_zero] at hmidnight
  rw [RecallWindow.contains, hopen, hclose, decide_eq_true_iff, Option.all_some, Option.all_some,
    decide_eq_true_iff, decide_eq_true_iff, Steady, movedUntil]
  generalize now.zone.toLocal now.instant / day + named.1 = date at hstart hmidnight ⊢
  rw [Zone.ofLocal] at hstart hmidnight
  rw [hstart, hmidnight, Int.sub_mul, Int.sub_mul]
  omega

/-! ## A night of a short day -/

/-- Berlin around the change of March 2026, in the days of the calendar. -/
def berlinSpring : Zone where
  initial := hour
  changes := [(739704 * day + hour, 2 * hour)]
  ascending := List.pairwise_singleton _ _
  small := by decide

/-- Noon in Berlin, so many days after the change. -/
def noonInBerlin (days : Int) : TurnNow where
  instant := (739704 + days) * day + 10 * hour
  zone := berlinSpring
  timezone := "Europe/Berlin"

/-- Plain texts, and rules that recur daily. -/
def plainTimes : TimeLib where
  text := plainText
  parseRrule := fun _ start => .ok (RRule.daily start)

/-- What a save and a recall of the same expression at the same moment come to. -/
def bothRead (expression : String) (now : TurnNow) (p : Resolved → RecallWindow → Bool) : Bool :=
  match resolve plainTimes expression .occurred now,
      resolveWindow plainTimes expression .occurred now with
  | .ok r, .ok w => p r w
  | _, _ => false

theorem exists_of_bothRead {expression : String} {now : TurnNow} {p : Resolved → RecallWindow → Bool}
    (h : bothRead expression now p = true) :
    ∃ r w, resolve plainTimes expression .occurred now = .ok r ∧
      resolveWindow plainTimes expression .occurred now = .ok w ∧ p r w = true := by
  unfold bothRead at h
  split at h
  · rename_i r w hr hw
    exact ⟨r, w, hr, hw, h⟩
  · exact absurd h Bool.false_ne_true

/-- **A short day**: nine in the evening is before the night of the day of the change. -/
theorem tonight_outside :
    namedPart plainTimes "tonight" = some (0, .night) ∧
      ∃ r w, resolve plainTimes "tonight" .occurred (noonInBerlin 0) = .ok r ∧
        resolveWindow plainTimes "tonight" .occurred (noonInBerlin 0) = .ok w ∧
        w.contains r.start = false := by
  refine ⟨by decide +kernel, ?_⟩
  have hread : bothRead "tonight" (noonInBerlin 0) (fun r w => !w.contains r.start) = true := by
    decide +kernel
  obtain ⟨r, w, hr, hw, h⟩ := exists_of_bothRead hread
  exact ⟨r, w, hr, hw, by simpa using h⟩

/-- The night after is as both have it. -/
theorem tonight_inside :
    ∃ r w, resolve plainTimes "tonight" .occurred (noonInBerlin 1) = .ok r ∧
      resolveWindow plainTimes "tonight" .occurred (noonInBerlin 1) = .ok w ∧
      w.contains r.start = true := by
  have hread : bothRead "tonight" (noonInBerlin 1) (fun _ _ => true) = true := by decide +kernel
  obtain ⟨r, w, hr, hw, -⟩ := exists_of_bothRead hread
  have hnamed : namedPart plainTimes "tonight" = some (0, .night) := by decide +kernel
  exact ⟨r, w, hr, hw, (parts_agree_iff hnamed hr hw).2 (by decide +kernel)⟩

end Time

end SecondMind
