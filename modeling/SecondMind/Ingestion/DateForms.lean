import SecondMind.Ingestion.TimeDates
import SecondMind.Regex.Language

/-!
# Time expressions: the forms of dates

`ingestion/time.py`: the rules for a day are tried one after the other.  What a text goes on with
after its number tells which of them can read it.

* `Starts` — what a text goes on with; `starts_apart` — two ways that exclude each other;
* `starts_iso` and the like — what the texts of each pattern go on with;
* `span_figures`, `span_dayOfMonth` — the rule that reads a text of a form.
-/

namespace SecondMind

namespace Time

open Gregorian Regex Regex.Pattern

/-! ## After the number -/

/-- The codes of white space. -/
def spaceCodes : List Nat :=
  [0x09, 0x0a, 0x0b, 0x0c, 0x0d, 0x1c, 0x1d, 0x1e, 0x1f, 0x20, 0x85, 0xa0, 0x1680, 0x2000, 0x2001,
    0x2002, 0x2003, 0x2004, 0x2005, 0x2006, 0x2007, 0x2008, 0x2009, 0x200a, 0x2028, 0x2029, 0x202f,
    0x205f, 0x3000]

theorem mem_spaceCodes {c : Char} (h : isSpace c = true) : c.toNat ∈ spaceCodes := by
  have hspace := of_decide_eq_true h
  simp only [List.mem_cons, List.not_mem_nil, or_false, ← UInt32.toNat_inj,
    UInt32.reduceToNat] at hspace
  simp only [spaceCodes, List.mem_cons, List.not_mem_nil, or_false]
  exact hspace

/-- White space is no digit. -/
theorem isDigit_of_isSpace {c : Char} (h : isSpace c = true) : isDigit c = false := by
  have hnone : ∀ v ∈ spaceCodes, ∀ z ∈ digitZeros, ¬ (z ≤ v ∧ v < z + 10) := by decide +kernel
  have hfind : digitZeros.find? (fun z => z ≤ c.toNat ∧ c.toNat < z + 10) = none := by
    refine List.find?_eq_none.2 fun z hz hrun => ?_
    exact hnone c.toNat (mem_spaceCodes h) z hz (of_decide_eq_true hrun)
  rw [isDigit, digitValue, hfind]
  rfl

/-- What comes after a number and white space. -/
def afterNumber (text : Text) : Text := (text.dropWhile isDigit).dropWhile isSpace

/-- The text goes on with one of these. -/
def Starts (heads : List String) (text : Text) : Prop := ∃ s ∈ heads, s.toList <+: afterNumber text

/-- It begins with something that is neither a digit nor white space. -/
def plainHead (s : String) : Bool := s.toList.head?.any fun c => !isDigit c && !isSpace c

/-- None of these is the beginning of one of the others. -/
def apart (heads heads' : List String) : Bool :=
  heads.all fun s => heads'.all fun s' =>
    !s.toList.isPrefixOf s'.toList && !s'.toList.isPrefixOf s.toList

variable {heads heads' : List String} {text : Text}

theorem starts_apart (hapart : apart heads heads' = true) (h : Starts heads text) :
    ¬ Starts heads' text := by
  obtain ⟨s, hs, hprefix⟩ := h
  rintro ⟨s', hs', hprefix'⟩
  have hboth := List.all_eq_true.1 (List.all_eq_true.1 hapart s hs) s' hs'
  simp only [Bool.and_eq_true, Bool.not_eq_true', List.isPrefixOf_iff_prefix, ← Bool.not_eq_true]
    at hboth
  rcases List.prefix_or_prefix_of_prefix hprefix hprefix' with h | h
  · exact hboth.1 h
  · exact hboth.2 h

/-- A list that stops at its head. -/
theorem dropWhile_plain {p : Char → Bool} {c : Char} {rest : Text} (hc : p c = false) :
    (c :: rest).dropWhile p = c :: rest := by
  rw [List.dropWhile_cons, if_neg (by rw [hc]; exact Bool.false_ne_true)]

theorem afterNumber_eq {number blank rest : Text} {s : String}
    (hnumber : ∀ c ∈ number, isDigit c = true) (hblank : ∀ c ∈ blank, isSpace c = true)
    (hplain : plainHead s = true) ( hprefix : s.toList <+: rest) :
    afterNumber (number ++ (blank ++ rest)) = rest := by
  obtain ⟨more, rfl⟩ := hprefix
  unfold plainHead at hplain
  cases hs : s.toList with
  | nil =>
    rw [hs] at hplain
    cases hplain
  | cons c cs =>
    rw [hs, List.head?_cons, Option.any_some, Bool.and_eq_true, Bool.not_eq_true',
      Bool.not_eq_true'] at hplain
    have hdigits : (blank ++ (c :: cs ++ more)).dropWhile isDigit = blank ++ (c :: cs ++ more) := by
      cases blank with
      | nil => exact dropWhile_plain hplain.1
      | cons b blank => exact dropWhile_plain (isDigit_of_isSpace (hblank b List.mem_cons_self))
    unfold afterNumber
    rw [List.dropWhile_append_of_pos hnumber, hdigits, List.dropWhile_append_of_pos hblank]
    exact dropWhile_plain hplain.2

/-- A text goes on with what comes after its number and its white space. -/
theorem starts_of_parts {s : String} (number blank : Text) {rest : Text} (hs : s ∈ heads)
    (hplain : heads.all plainHead = true) (hnumber : ∀ c ∈ number, isDigit c = true)
    (hblank : ∀ c ∈ blank, isSpace c = true) ( hprefix : s.toList <+: rest) :
    Starts heads (number ++ (blank ++ rest)) :=
  ⟨s, hs, by rwa [afterNumber_eq hnumber hblank (List.all_eq_true.1 hplain s hs) hprefix]⟩

/-- A text without a number goes on with what it begins with. -/
theorem starts_of_prefix {s : String} (hs : s ∈ heads) (hplain : heads.all plainHead = true)
    ( hprefix : s.toList <+: text) : Starts heads text :=
  starts_of_parts [] [] hs hplain (by simp) (by simp) hprefix

/-- A number alone goes on with nothing. -/
theorem not_starts_of_digits (h : ∀ c ∈ text, isDigit c = true)
    (hplain : heads.all plainHead = true) : ¬ Starts heads text := by
  rintro ⟨s, hs, hprefix⟩
  have hempty : text.dropWhile isDigit = [] := List.dropWhile_eq_nil_iff.2 h
  rw [afterNumber, hempty, List.dropWhile_nil, List.prefix_nil] at hprefix
  have hhead := List.all_eq_true.1 hplain s hs
  rw [plainHead, hprefix] at hhead
  cases hhead

/-! ## What the patterns go on with -/

theorem lang_digits {least most : Nat} (h : (digits least most).Lang text) :
    (∀ c ∈ text, isDigit c = true) ∧ least ≤ text.length :=
  ⟨(lang_rep_one h).1, (lang_rep_one h).2.1⟩

theorem lang_plusDigit (h : (plus digit).Lang text) :
    (∀ c ∈ text, isDigit c = true) ∧ 1 ≤ text.length :=
  ⟨(lang_rep_one h).1, (lang_rep_one h).2.1⟩

theorem lang_gap (h : gap.Lang text) : ∀ c ∈ text, isSpace c = true := (lang_rep_one h).1

theorem lang_blank (h : spaces.Lang text) : ∀ c ∈ text, isSpace c = true := (lang_rep_one h).1

theorem starts_iso (h : isoDateRe.Lang text) : Starts ["-"] text := by
  obtain ⟨number, rest, rfl, hnumber, dash, more, rfl, hdash, -⟩ := h
  rw [lang_text.1 hdash]
  exact starts_of_parts number [] List.mem_cons_self (by decide) (lang_digits hnumber).1
    (by simp) (List.prefix_append _ _)

theorem starts_numeric (h : numericRe.Lang text) : Starts ["/", "."] text := by
  obtain ⟨number, rest, rfl, hnumber, slash, more, rfl, ⟨c, hc, rfl⟩, -⟩ := h
  have hc := of_decide_eq_true hc
  simp only [List.mem_cons, List.not_mem_nil, or_false] at hc
  rcases hc with rfl | rfl
  · exact starts_of_parts (s := "/") number [] (by simp) (by decide) (lang_digits hnumber).1
      (by simp) (List.prefix_append ['/'] more)
  · exact starts_of_parts (s := ".") number [] (by simp) (by decide) (lang_digits hnumber).1
      (by simp) (List.prefix_append ['.'] more)

/-- The words for a number of days. -/
def unitWords : List String := ["day", "week", "fortnight", "month", "year"]

theorem starts_units {rest : Text} (h : unitsRe.Lang text) : Starts unitWords (text ++ rest) := by
  obtain ⟨number, tail, rfl, hnumber, blank, tail, rfl, hblank, unit, plural, rfl, hunit, -⟩ := h
  obtain ⟨s, hs, rfl⟩ := lang_texts.1 hunit
  rw [List.append_assoc, List.append_assoc, List.append_assoc]
  exact starts_of_parts number blank hs (by decide) (lang_plusDigit hnumber).1 (lang_gap hblank)
    (List.prefix_append _ _)

theorem starts_inUnits (h : inUnitsRe.Lang text) : Starts ["in", "after"] text := by
  obtain ⟨word, rest, rfl, hword, -⟩ := h
  obtain ⟨s, hs, rfl⟩ := lang_texts.1 hword
  exact starts_of_prefix hs (by decide) (List.prefix_append _ _)

theorem starts_unitsLater (h : unitsLaterRe.Lang text) : Starts unitWords text := by
  obtain ⟨units, rest, rfl, hunits, -⟩ := h
  exact starts_units hunits

theorem starts_unitsAgo (h : unitsAgoRe.Lang text) : Starts unitWords text := by
  obtain ⟨units, rest, rfl, hunits, -⟩ := h
  exact starts_units hunits

theorem prefix_texts {words : List String} (h : (texts words).Lang text) :
    ∃ s ∈ words, s.toList <+: text := by
  obtain ⟨s, hs, rfl⟩ := lang_texts.1 h
  exact ⟨s, hs, List.prefix_rfl⟩

theorem starts_dayOfMonth (h : dayOfMonthRe.Lang text) : Starts ["this", "next", "last"] text := by
  obtain ⟨number, tail, rfl, hnumber, blank, tail, rfl, hblank, word, rest, rfl, hword, -⟩ := h
  obtain ⟨s, hs, hprefix⟩ := prefix_texts hword
  exact starts_of_parts number blank hs (by decide) (lang_digits hnumber).1 (lang_blank hblank)
    ( hprefix.trans (List.prefix_append _ _))

/-- The beginnings of the months. -/
def monthHeads : List String :=
  ["jan", "feb", "mar", "apr", "may", "jun", "jul", "aug", "sep", "oct", "nov", "dec"]

theorem prefix_of_stem {s : String} {p : Pattern} (h : (all [Pattern.text s, p]).Lang text) :
    s.toList <+: text := by
  obtain ⟨stem, rest, rfl, hstem, -⟩ := h
  rw [lang_text.1 hstem]
  exact List.prefix_append _ _

theorem prefix_month {n : Nat} (h : (monthRe n).Lang text) :
    ∃ s ∈ monthHeads, s.toList <+: text := by
  obtain ⟨p, hp, hname⟩ := lang_any.1 h
  simp only [List.mem_cons, List.not_mem_nil, or_false] at hp
  rcases hp with rfl | rfl | rfl | rfl | rfl | rfl | rfl | rfl | rfl | rfl | rfl | rfl
  · exact ⟨"jan", by decide, prefix_of_stem hname⟩
  · exact ⟨"feb", by decide, prefix_of_stem hname⟩
  · exact ⟨"mar", by decide, prefix_of_stem hname⟩
  · exact ⟨"apr", by decide, prefix_of_stem hname⟩
  · exact ⟨"may", by decide, (lang_text.1 hname).symm ▸ List.prefix_rfl⟩
  · exact ⟨"jun", by decide, prefix_of_stem hname⟩
  · exact ⟨"jul", by decide, prefix_of_stem hname⟩
  · exact ⟨"aug", by decide, prefix_of_stem hname⟩
  · exact ⟨"sep", by decide, prefix_of_stem hname⟩
  · exact ⟨"oct", by decide, prefix_of_stem hname⟩
  · exact ⟨"nov", by decide, prefix_of_stem hname⟩
  · exact ⟨"dec", by decide, prefix_of_stem hname⟩

theorem starts_dayMonth (h : dayMonthRe.Lang text) : Starts monthHeads text := by
  obtain ⟨number, tail, rfl, hnumber, blank, tail, rfl, hblank, month, rest, rfl, hmonth, -⟩ := h
  obtain ⟨s, hs, hprefix⟩ := prefix_month hmonth
  exact starts_of_parts number blank hs (by decide) (lang_digits hnumber).1 (lang_blank hblank)
    ( hprefix.trans (List.prefix_append _ _))

theorem starts_monthDay (h : monthDayRe.Lang text) : Starts monthHeads text := by
  obtain ⟨month, rest, rfl, hmonth, -⟩ := h
  obtain ⟨s, hs, hprefix⟩ := prefix_month hmonth
  exact starts_of_prefix hs (by decide) ( hprefix.trans (List.prefix_append _ _))

/-! ## Texts with a digit -/

def Numbered (text : Text) : Prop := ∃ c ∈ text, isDigit c = true

theorem numbered_of_digits {least most : Nat} (h : (digits least most).Lang text)
    (hleast : 0 < least) : Numbered text := by
  obtain ⟨hall, hlen⟩ := lang_digits h
  obtain ⟨c, hc⟩ := List.exists_mem_of_length_pos (hleast.trans_le hlen)
  exact ⟨c, hc, hall c hc⟩

theorem Numbered.append_left {u v : Text} (h : Numbered u) : Numbered (u ++ v) := by
  obtain ⟨c, hc, hdigit⟩ := h
  exact ⟨c, List.mem_append_left _ hc, hdigit⟩

theorem Numbered.append_right {u v : Text} (h : Numbered v) : Numbered (u ++ v) := by
  obtain ⟨c, hc, hdigit⟩ := h
  exact ⟨c, List.mem_append_right _ hc, hdigit⟩

theorem not_numbered {p : Pattern} (hp : p.Within fun c => isDigit c = false) (h : p.Lang text) :
    ¬ Numbered text := by
  rintro ⟨c, hc, hdigit⟩
  rw [lang_within hp h c hc] at hdigit
  cases hdigit

theorem within_word {s : String} (h : (s.toList.all fun c => !isDigit c) = true) :
    (Pattern.text s).Within fun c => isDigit c = false :=
  within_text fun c hc => by simpa using List.all_eq_true.1 h c hc

theorem within_texts {words : List String}
    (h : words.all (fun s => s.toList.all fun c => !isDigit c) = true) :
    (texts words).Within fun c => isDigit c = false := by
  refine within_any fun p hp => ?_
  obtain ⟨s, hs, rfl⟩ := List.mem_map.1 hp
  exact within_word (List.all_eq_true.1 h s hs)

theorem within_spaces : spaces.Within fun c => isDigit c = false := fun _ => isDigit_of_isSpace

theorem within_period : periodRe.Within fun c => isDigit c = false :=
  within_all fun p hp => by
    simp only [List.mem_cons, List.not_mem_nil, or_false] at hp
    rcases hp with rfl | rfl | rfl
    · exact within_texts (by decide +kernel)
    · exact within_spaces
    · exact within_texts (by decide +kernel)

theorem within_edge : edgeRe.Within fun c => isDigit c = false := by
  have hopt : ∀ p : Pattern, (p.Within fun c => isDigit c = false) →
      (optBeforeSpaces p).Within fun c => isDigit c = false := fun p hp => ⟨hp, within_spaces⟩
  refine within_all fun p hp => ?_
  simp only [List.mem_cons, List.not_mem_nil, or_false] at hp
  rcases hp with rfl | rfl | rfl | rfl | rfl | rfl
  · exact within_texts (by decide +kernel)
  · exact within_spaces
  · exact hopt _ (within_word (by decide +kernel))
  · exact hopt _ (within_word (by decide +kernel))
  · exact hopt _ (within_texts (by decide +kernel))
  · exact within_texts (by decide +kernel)

theorem within_weekday : qualifiedWeekdayRe.Within fun c => isDigit c = false := by
  refine ⟨⟨within_texts (by decide +kernel), within_spaces⟩, trivial, ?_, within_word (by decide +kernel),
    trivial⟩
  refine within_any fun p hp => ?_
  simp only [List.mem_cons, List.not_mem_nil, or_false] at hp
  rcases hp with rfl | rfl | rfl | rfl | rfl | rfl | rfl
  · exact ⟨within_word (by decide +kernel), within_word (by decide +kernel)⟩
  · exact ⟨within_word (by decide +kernel), within_word (by decide +kernel),
      within_word (by decide +kernel)⟩
  · exact ⟨within_word (by decide +kernel), within_word (by decide +kernel)⟩
  · exact ⟨within_word (by decide +kernel), within_word (by decide +kernel),
      within_word (by decide +kernel), within_word (by decide +kernel)⟩
  · exact ⟨within_word (by decide +kernel), within_word (by decide +kernel)⟩
  · exact ⟨within_word (by decide +kernel), within_word (by decide +kernel)⟩
  · exact ⟨within_word (by decide +kernel), within_word (by decide +kernel)⟩

theorem fullmatch_eq_none {p : Pattern} (h : ¬ p.Lang text) : fullmatch p text = none := by
  cases hm : fullmatch p text with
  | none => rfl
  | some m => exact absurd (fullmatch_sound hm).2 h

/-! ## The rule that reads a text -/

variable {now : TurnNow} {direction : Direction}

/-- The rules for words do not read a text with a digit. -/
theorem relativeDays_numbered (h : Numbered text) :
    relativeDays.find? (·.1.toList = text) = none := by
  refine List.find?_eq_none.2 fun e he heq => ?_
  have hall : relativeDays.all (fun e => e.1.toList.all fun c => !isDigit c) = true := by
    decide +kernel
  obtain ⟨c, hc, hdigit⟩ := h
  rw [← of_decide_eq_true heq] at hc
  have hplain := List.all_eq_true.1 (List.all_eq_true.1 hall e he) c hc
  rw [hdigit] at hplain
  cases hplain

theorem relativeDay_numbered (h : Numbered text) {today : Date} (htoday : now.today = .ok today) :
    relativeDay text now direction = .ok none := by
  unfold relativeDay
  rw [htoday, relativeDays_numbered h]
  rfl

theorem weekday_numbered (h : Numbered text) : weekday text now direction = .ok none := by
  unfold weekday
  rw [fullmatch_eq_none fun hlang => not_numbered within_weekday hlang h]

theorem periods_numbered (h : Numbered text) {today : Date} (htoday : now.today = .ok today) :
    periods text now direction = .ok none := by
  unfold periods
  rw [htoday, fullmatch_eq_none fun hlang => not_numbered within_period hlang h]
  rfl

theorem edges_numbered (h : Numbered text) {today : Date} (htoday : now.today = .ok today) :
    edges text now direction = .ok none := by
  unfold edges
  rw [htoday, fullmatch_eq_none fun hlang => not_numbered within_edge hlang h]
  rfl

theorem isoOrNumeric_eq_none (hiso : ¬ Starts ["-"] text) (hnumeric : ¬ Starts ["/", "."] text) :
    isoOrNumeric text now direction = .ok none := by
  unfold isoOrNumeric
  rw [fullmatch_eq_none (p := isoDateRe) fun h => hiso (starts_iso h),
    fullmatch_eq_none (p := numericRe) fun h => hnumeric (starts_numeric h)]

theorem inN_eq_none (hin : ¬ Starts ["in", "after"] text) (hunits : ¬ Starts unitWords text) :
    inN text now direction = .ok none := by
  unfold inN
  rw [fullmatch_eq_none (p := inUnitsRe) fun h => hin (starts_inUnits h),
    fullmatch_eq_none (p := unitsLaterRe) fun h => hunits (starts_unitsLater h),
    fullmatch_eq_none (p := unitsAgoRe) fun h => hunits (starts_unitsAgo h)]
  rfl

/-! ### Months and years -/

/-- A month, as it is written, is a word. -/
theorem within_month (n : Nat) : (monthRe n).Within fun c => isDigit c = false ∧ isSpace c = false := by
  have hword : ∀ s : String, (s.toList.all fun c => !isDigit c && !isSpace c) = true →
      (Pattern.text s).Within fun c => isDigit c = false ∧ isSpace c = false := fun s h =>
    within_text fun c hc => by simpa using List.all_eq_true.1 h c hc
  refine within_any fun p hp => ?_
  simp only [List.mem_cons, List.not_mem_nil, or_false] at hp
  rcases hp with rfl | rfl | rfl | rfl | rfl | rfl | rfl | rfl | rfl | rfl | rfl | rfl
  · exact ⟨hword _ (by decide +kernel), hword _ (by decide +kernel)⟩
  · exact ⟨hword _ (by decide +kernel), hword _ (by decide +kernel)⟩
  · exact ⟨hword _ (by decide +kernel), hword _ (by decide +kernel)⟩
  · exact ⟨hword _ (by decide +kernel), hword _ (by decide +kernel)⟩
  · exact hword _ (by decide +kernel)
  · exact ⟨hword _ (by decide +kernel), hword _ (by decide +kernel)⟩
  · exact ⟨hword _ (by decide +kernel), hword _ (by decide +kernel)⟩
  · exact ⟨hword _ (by decide +kernel), hword _ (by decide +kernel)⟩
  · exact ⟨hword _ (by decide +kernel), hword _ (by decide +kernel), hword _ (by decide +kernel)⟩
  · exact ⟨hword _ (by decide +kernel), hword _ (by decide +kernel)⟩
  · exact ⟨hword _ (by decide +kernel), hword _ (by decide +kernel)⟩
  · exact ⟨hword _ (by decide +kernel), hword _ (by decide +kernel)⟩

theorem lang_optYear (h : optYear.Lang text) :
    text = [] ∨ ∃ blank number, text = blank ++ number ∧ blank ≠ [] ∧
      (∀ c ∈ blank, isSpace c = true) ∧ (∀ c ∈ number, isDigit c = true) ∧ number.length = 4 := by
  rcases lang_opt h with rfl | ⟨blank, number, rfl, hblank, hnumber⟩
  · exact .inl rfl
  · obtain ⟨hspace, hlen, -⟩ := lang_rep_one hblank
    have hfour : (digits 4 4).Lang number := hnumber
    obtain ⟨hdigit, hleast, hmost⟩ := lang_rep_one hfour
    have hmost := hmost 4 rfl
    refine .inr ⟨blank, number, rfl, List.ne_nil_of_length_pos hlen, hspace, hdigit, ?_⟩
    omega

/-- The words that may stand before a month. -/
def monthQualifiers : List String := ["this", "next", "last", "coming", "early", "mid", "late"]

/-- A month is read with a word before it, or as it is with a year or without. -/
theorem lang_qualifiedMonth (h : qualifiedMonthRe.Lang text) : Starts monthQualifiers text ∨
    ∃ month year, text = month ++ year ∧ (monthRe 2).Lang month ∧ optYear.Lang year := by
  obtain ⟨qualifier, rest, rfl, hqualifier, month, year, rfl, hmonth, hyear⟩ := h
  rcases lang_opt hqualifier with rfl | ⟨word, blank, rfl, hword, -⟩
  · exact .inr ⟨month, year, rfl, hmonth, hyear⟩
  · obtain ⟨s, hs, hprefix⟩ := prefix_texts hword
    rw [List.append_assoc]
    exact .inl ( starts_of_prefix hs (by decide) ( hprefix.trans (List.prefix_append _ _)))

/-- What comes after a word. -/
theorem dropWhile_word {word rest : Text} (hword : ∀ c ∈ word, isSpace c = false)
    (hrest : ∀ c ∈ rest.head?, isSpace c = true) :
    (word ++ rest).dropWhile (fun c => !isSpace c) = rest := by
  rw [List.dropWhile_append_of_pos fun c hc => by rw [hword c hc]; rfl]
  cases rest with
  | nil => rfl
  | cons c rest => exact dropWhile_plain (by rw [hrest c rfl]; rfl)

theorem head_blank {blank rest : Text} (hne : blank ≠ []) (hblank : ∀ c ∈ blank, isSpace c = true) :
    ∀ c ∈ (blank ++ rest).head?, isSpace c = true := by
  obtain ⟨b, blank, rfl⟩ := List.exists_cons_of_ne_nil hne
  intro c hc
  obtain rfl : b = c := Option.some.inj hc
  exact hblank b List.mem_cons_self

theorem dropWhile_blank {blank number rest : Text} (hblank : ∀ c ∈ blank, isSpace c = true)
    (hne : number ≠ []) (hnumber : ∀ c ∈ number, isDigit c = true) :
    (blank ++ (number ++ rest)).dropWhile isSpace = number ++ rest := by
  obtain ⟨d, number, rfl⟩ := List.exists_cons_of_ne_nil hne
  rw [List.dropWhile_append_of_pos hblank]
  refine dropWhile_plain (Bool.eq_false_iff.2 fun hspace => ?_)
  have hdigit := isDigit_of_isSpace hspace
  rw [hnumber d List.mem_cons_self] at hdigit
  cases hdigit

/-- A day after a month is no year. -/
theorem not_month_of_monthDay (h : monthDayRe.Lang text) : ¬ qualifiedMonthRe.Lang text := by
  intro hqualified
  rcases lang_qualifiedMonth hqualified with hstarts | ⟨month, year, heq, hmonth, hyear⟩
  · exact starts_apart (by decide) (starts_monthDay h) hstarts
  · obtain ⟨month', rest, rfl, hmonth', blank', rest, rfl, hblank', number', year', rfl, hnumber',
      hyear'⟩ := h
    obtain ⟨hspace', hlen', -⟩ := lang_rep_one hblank'
    have hne' := List.ne_nil_of_length_pos hlen'
    have hshort : (digits 1 2).Lang number' := hnumber'
    obtain ⟨hdigit', hleast', hmost'⟩ := lang_rep_one hshort
    have hmost' := hmost' 2 rfl
    have hword : ∀ {n : Nat} {w : Text}, (monthRe n).Lang w → ∀ c ∈ w, isSpace c = false :=
      fun hw c hc => (lang_within (within_month _) hw c hc).2
    have hafter := congrArg (List.dropWhile fun c => !isSpace c) heq
    rw [dropWhile_word (hword hmonth') (head_blank hne' hspace')] at hafter
    rcases lang_optYear hyear with rfl | ⟨blank, number, rfl, hne, hspace, hdigit, hfour⟩
    · rw [dropWhile_word (hword hmonth) (by simp)] at hafter
      simp [hne'] at hafter
    · rw [dropWhile_word (hword hmonth) (head_blank hne hspace)] at hafter
      -- the day is shorter than a year, and what follows it is no digit
      have hdigits := congrArg (List.dropWhile isSpace) hafter
      rw [dropWhile_blank hspace' (List.ne_nil_of_length_pos hleast') hdigit',
        ← List.append_nil number,
        dropWhile_blank hspace (List.ne_nil_of_length_pos (by omega)) hdigit, List.append_nil]
        at hdigits
      have hlength := congrArg List.length hdigits
      rw [List.length_append] at hlength
      rcases lang_optYear hyear' with rfl | ⟨blank'', number'', rfl, hne'', hspace'', -⟩
      · simp at hlength
        omega
      · obtain ⟨b, blank'', rfl⟩ := List.exists_cons_of_ne_nil hne''
        have hb : isDigit b = true := hdigit b (by rw [← hdigits]; simp)
        rw [isDigit_of_isSpace (hspace'' b List.mem_cons_self)] at hb
        cases hb

theorem not_month_of_dayMonth (h : dayMonthRe.Lang text) : ¬ qualifiedMonthRe.Lang text := by
  intro hqualified
  rcases lang_qualifiedMonth hqualified with hstarts | ⟨month, year, heq, hmonth, hyear⟩
  · exact starts_apart (by decide) (starts_dayMonth h) hstarts
  · obtain ⟨number, rest, rfl, hnumber, -⟩ := h
    obtain ⟨hdigit, hlen⟩ := lang_digits hnumber
    obtain ⟨d, number, rfl⟩ := List.exists_cons_of_length_pos (by omega : 0 < number.length)
    have hne : month ≠ [] := by
      rintro rfl
      obtain ⟨s, hs, hprefix⟩ := prefix_month hmonth
      have hlong : ∀ s ∈ monthHeads, s.toList ≠ [] := by decide
      exact hlong s hs (List.prefix_nil.1 hprefix)
    obtain ⟨c, month, rfl⟩ := List.exists_cons_of_ne_nil hne
    obtain ⟨rfl, -⟩ := List.cons.inj heq
    have hd := (lang_within (within_month _) hmonth d List.mem_cons_self).1
    rw [hdigit d List.mem_cons_self] at hd
    cases hd

/-- What is read as a date with a month has no other reading as a month or a year. -/
theorem month_eq_none {today : Date} (htoday : now.today = .ok today)
    (h : ¬ qualifiedMonthRe.Lang text) : month text now direction = .ok none := by
  unfold month
  rw [htoday, fullmatch_eq_none h]
  rfl

theorem year_eq_none (h : ¬ yearRe.Lang text) : year text now direction = .ok none := by
  unfold year
  rw [fullmatch_eq_none h]

/-- A day alone is neither. -/
theorem not_month_of_digits (hdigit : ∀ c ∈ text, isDigit c = true) :
    ¬ qualifiedMonthRe.Lang text := by
  intro hqualified
  rcases lang_qualifiedMonth hqualified with hstarts | ⟨month, year, rfl, hmonth, -⟩
  · exact not_starts_of_digits hdigit (by decide) hstarts
  · obtain ⟨s, hs, hprefix⟩ := prefix_month hmonth
    exact not_starts_of_digits hdigit (by decide)
      ( starts_of_prefix hs (by decide) ( hprefix.trans (List.prefix_append _ _)))

theorem not_year_of_starts (h : Starts monthHeads text) : ¬ yearRe.Lang text := fun hyear =>
  not_starts_of_digits (lang_digits hyear).1 (by decide) h

theorem not_year_of_day (h : bareDayRe.Lang text) : ¬ yearRe.Lang text := by
  intro hyear
  have hday : (digits 1 2).Lang text := h
  have hfour := (lang_digits hyear).2
  have htwo := (lang_rep_one hday).2.2 2 rfl
  omega

/-! ### One rule after the other -/

theorem firstSpan_skip {rule : SpanRule} {rules : List SpanRule}
    (h : rule text now direction = .ok none) :
    firstSpan text now direction (rule :: rules) = firstSpan text now direction rules := by
  rw [firstSpan, h]
  rfl

theorem firstSpan_cases {rule : SpanRule} {rules : List SpanRule} {d : Option Day}
    (h : firstSpan text now direction (rule :: rules) = .ok d) :
    (∃ d', d = some d' ∧ rule text now direction = .ok (some d')) ∨
      rule text now direction = .ok none ∧ firstSpan text now direction rules = .ok d := by
  obtain ⟨found, hfound, h⟩ := bind_eq_ok.1 h
  cases found with
  | none => exact .inr ⟨hfound, h⟩
  | some d' =>
    cases h
    exact .inl ⟨d', rfl, hfound⟩

/-- **Dates in figures** are read by their rule. -/
theorem span_figures (hnumbered : Numbered text) {d : Day}
    (hreads : isoOrNumeric text now direction ≠ .ok none)
    (h : span text now direction = .ok (some d)) :
    isoOrNumeric text now direction = .ok (some d) := by
  obtain ⟨today, htoday⟩ := today_of_span h
  rw [span, spanRules, firstSpan_skip (relativeDay_numbered hnumbered htoday)] at h
  rcases firstSpan_cases h with ⟨d', hd, hrule⟩ | ⟨hnone, -⟩
  · cases hd
    exact hrule
  · exact absurd hnone hreads

/-- **Days of a month** are read by theirs, or not at all. -/
theorem span_dayOfMonth (hnumbered : Numbered text) (hiso : ¬ Starts ["-"] text)
    (hnumeric : ¬ Starts ["/", "."] text) (hin : ¬ Starts ["in", "after"] text)
    (hunits : ¬ Starts unitWords text)
    (hreads : dayOfMonth text now direction ≠ .ok none ∨
      ¬ yearRe.Lang text ∧ ¬ qualifiedMonthRe.Lang text) {d : Day}
    (h : span text now direction = .ok (some d)) : dayOfMonth text now direction = .ok (some d) := by
  obtain ⟨today, htoday⟩ := today_of_span h
  rw [span, spanRules, firstSpan_skip (relativeDay_numbered hnumbered htoday),
    firstSpan_skip (isoOrNumeric_eq_none hiso hnumeric), firstSpan_skip (inN_eq_none hin hunits),
    firstSpan_skip (weekday_numbered hnumbered), firstSpan_skip (periods_numbered hnumbered htoday),
    firstSpan_skip (edges_numbered hnumbered htoday)] at h
  rcases firstSpan_cases h with ⟨d', hd, hrule⟩ | ⟨hnone, h⟩
  · cases hd
    exact hrule
  · obtain ⟨hyear, hmonth⟩ := hreads.resolve_left (not_not_intro hnone)
    rw [firstSpan_skip (month_eq_none htoday hmonth), firstSpan_skip (year_eq_none hyear)] at h
    cases h

end Time

end SecondMind
