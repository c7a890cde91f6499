import SecondMind.Core.Result
import SecondMind.Links.Reader

/-!
# How a read ends

A read ends in a status, in what a model step raised, or in an exception that nothing catches.

* `Ends` — the first two;
* `LinkReader.Readable` — what the fetcher, the codecs and the lengths of videos must be like;
* `LinkReader.read_ends_iff` — a read ends so exactly when they are;
* `safeFetch_declared` — the safe fetcher over a network that raises what is caught.
-/

set_option mvcgen.warning false

namespace SecondMind
namespace Links

open Regex Std.Do

/-! ## Numbers of digits -/

/-- The only digits of ASCII are those of numbers. -/
theorem isDigitChar_ascii {c : Char} (hascii : c.toNat < 128) (h : isDigitChar c = true) :
    48 ≤ c.toNat ∧ c.toNat ≤ 57 := by
  have hall : ∀ n < 128, isDigitChar (Char.ofNat n) = true → 48 ≤ n ∧ n ≤ 57 := by decide
  refine hall c.toNat hascii ?_
  rwa [Char.ofNat_toNat]

theorem not_isSpace_of_isDigitChar {c : Char} (h : isDigitChar c = true) : isSpace c = false := by
  have hall : ∀ v ∈ [0x09, 0x0a, 0x0b, 0x0c, 0x0d, 0x1c, 0x1d, 0x1e, 0x1f, 0x20, 0x85, 0xa0,
      0x1680, 0x2000, 0x2001, 0x2002, 0x2003, 0x2004, 0x2005, 0x2006, 0x2007, 0x2008, 0x2009,
      0x200a, 0x2028, 0x2029, 0x202f, 0x205f, 0x3000], isDigitChar (Char.ofNat v) = false := by
    decide
  refine decide_eq_false fun hspace => ?_
  have hmem := List.mem_map_of_mem (f := UInt32.toNat) hspace
  have hchar := hall c.toNat hmem
  rw [Char.ofNat_toNat, h] at hchar
  exact (nomatch hchar)

/-- A digit is the digit of a number if it is decimal. -/
theorem digitIn_isSome_iff {c : Char} (h : isDigitChar c = true) :
    (digitIn 10 c).isSome ↔ isDigit c = true := by
  have hlower : ¬ ('a' ≤ c ∧ c ≤ 'z') := by
    rintro ⟨ha, hz⟩
    have ha' : 97 ≤ c.toNat := ha
    have hz' : c.toNat ≤ 122 := hz
    have := isDigitChar_ascii (by omega) h
    omega
  have hupper : ¬ ('A' ≤ c ∧ c ≤ 'Z') := by
    rintro ⟨ha, hz⟩
    have ha' : 65 ≤ c.toNat := ha
    have hz' : c.toNat ≤ 90 := hz
    have := isDigitChar_ascii (by omega) h
    omega
  unfold digitIn isDigit
  rw [if_neg hlower, if_neg hupper]
  cases hvalue : digitValue c with
  | none => rfl
  | some d =>
    have hlt : d < 10 := by
      unfold digitValue at hvalue
      obtain ⟨z, hz, rfl⟩ := Option.map_eq_some_iff.1 hvalue
      have hfound := List.find?_some hz
      simp only [decide_eq_true_eq] at hfound
      omega
    simp [hlt]

/-- Digits are read as a number if all of them are decimal. -/
theorem digitsIn_isSome_iff {text : List Char} (h : ∀ c ∈ text, isDigitChar c = true) (n : Nat) :
    (digitsIn 10 n text).isSome ↔ ∀ c ∈ text, isDigit c = true := by
  induction text generalizing n with
  | nil => simp [digitsIn]
  | cons c cs ih =>
    have hc := h c List.mem_cons_self
    have hbar : c ≠ '_' := by
      rintro rfl
      exact absurd hc (by decide)
    have hstep : digitsIn 10 n (c :: cs) =
        (digitIn 10 c).bind fun d => digitsIn 10 (10 * n + d) cs := by
      cases cs with
      | nil => rw [digitsIn]; simp
      | cons d cs => rw [digitsIn]; simpa using hbar
    rw [hstep, List.forall_mem_cons, ← digitIn_isSome_iff hc]
    cases digitIn 10 c with
    | none => simp
    | some d => simpa using ih (fun c hc => h c (List.mem_cons_of_mem _ hc)) _

/-- `int` reads a text of digits if all of them are decimal. -/
theorem intIn_eq_none_iff {text : List Char} (hne : text ≠ [])
    (h : ∀ c ∈ text, isDigitChar c = true) :
    intIn 10 text = none ↔ ¬ ∀ c ∈ text, isDigit c = true := by
  have hspace : ∀ {t : List Char}, (∀ c ∈ t, isDigitChar c = true) → t.dropWhile isSpace = t := by
    intro t ht
    cases t with
    | nil => rfl
    | cons c cs =>
      rw [List.dropWhile_cons_of_neg]
      rw [not_isSpace_of_isDigitChar (ht c List.mem_cons_self)]
      exact Bool.false_ne_true
  have hstrip : ((text.dropWhile isSpace).reverse.dropWhile isSpace).reverse = text := by
    rw [hspace h, hspace fun c hc => h c (List.mem_reverse.1 hc), List.reverse_reverse]
  cases text with
  | nil => exact absurd rfl hne
  | cons c cs =>
    have hc := h c List.mem_cons_self
    have hcs : ∀ c ∈ cs, isDigitChar c = true := fun c hc => h c (List.mem_cons_of_mem _ hc)
    have hminus : c ≠ '-' := by
      rintro rfl
      exact absurd hc (by decide)
    have hplus : c ≠ '+' := by
      rintro rfl
      exact absurd hc (by decide)
    have hread : intIn 10 (c :: cs) =
        (digitIn 10 c).bind fun d => (digitsIn 10 d cs).map fun n => (1 : Int) * n := by
      unfold intIn
      simp only [hstrip]
      simp [hminus, hplus]
      split
      · rename_i heq
        split at heq <;> exact absurd heq (List.cons_ne_nil _ _)
      · rename_i c' cs' heq
        have hsame : c :: cs = c' :: cs' := by split at heq <;> exact heq
        obtain ⟨rfl, rfl⟩ := List.cons.inj hsame
        rfl
    rw [hread, List.forall_mem_cons, ← digitIn_isSome_iff hc]
    cases digitIn 10 c with
    | none => simp
    | some d =>
      rw [← digitsIn_isSome_iff hcs d]
      cases hdigits : digitsIn 10 d cs <;> simp [hdigits]

/-! ## Decoding -/

/-- No charset that is tried raises what `decode_body` does not catch: the first one that neither
is unknown nor fails to decode. -/
def Decodes (codecs : Codecs) (body : List UInt8) (names : List (List Char)) : Prop :=
  ∀ before name after, names = before ++ name :: after →
    (∀ n ∈ before, ∃ e, codecs.decode n body = .error e) → codecs.decode name body ≠ .error .other

theorem decodeWith_ok_iff {codecs : Codecs} {body : List UInt8} {names : List (List Char)} :
    (∃ text, decodeWith codecs body names = .ok text) ↔ Decodes codecs body names := by
  induction names with
  | nil =>
    refine iff_of_true ⟨_, rfl⟩ fun before name after h => ?_
    exact absurd h.symm (List.append_ne_nil_of_right_ne_nil _ (List.cons_ne_nil _ _))
  | cons first names ih =>
    have hfirst : Decodes codecs body (first :: names) ↔
        codecs.decode first body ≠ .error .other ∧
          ((∃ e, codecs.decode first body = .error e) → Decodes codecs body names) := by
      constructor
      · intro h
        refine ⟨h [] first names rfl fun n hn => absurd hn List.not_mem_nil, fun hfail => ?_⟩
        rintro before name after rfl hbefore
        exact h (first :: before) name after rfl (List.forall_mem_cons.2 ⟨hfail, hbefore⟩)
      · rintro ⟨hother, hrest⟩ before name after hnames hbefore
        cases before with
        | nil =>
          obtain ⟨rfl, rfl⟩ := List.cons.inj hnames
          exact hother
        | cons n before =>
          obtain ⟨rfl, rfl⟩ := List.cons.inj hnames
          obtain ⟨hfail, hbefore⟩ := List.forall_mem_cons.1 hbefore
          exact hrest hfail before name after rfl hbefore
    rw [hfirst, decodeWith]
    cases hdecode : codecs.decode first body with
    | ok text => simp
    | error e => cases e <;> simp [ih]

/-! ## The lengths of videos -/

/-- A text that is all digits is all decimal digits. -/
def DigitsRead (value : List Char) : Prop :=
  (strip value).all isDigitChar = true → (strip value).all isDigit = true

theorem parseDurationText_ok_iff {value : List Char} :
    (∃ d, parseDurationText value = .ok d) ↔ DigitsRead value := by
  unfold parseDurationText DigitsRead
  dsimp only
  split
  · rename_i hdigits
    obtain ⟨hne, hall⟩ := hdigits
    have hread := intIn_eq_none_iff hne (List.all_eq_true.1 hall)
    rw [← List.all_eq_true] at hread
    cases hint : intIn 10 (strip value) with
    | none => exact iff_of_false (fun ⟨_, h⟩ => nomatch h) fun h => hread.1 hint (h hall)
    | some n =>
      refine iff_of_true ⟨_, rfl⟩ fun _ => Decidable.not_not.1 fun hnot => ?_
      rw [hread.2 hnot] at hint
      exact (nomatch hint)
  · rename_i hdigits
    refine iff_of_true ?_ fun hall => ?_
    · split
      · exact ⟨_, rfl⟩
      · split <;> exact ⟨_, rfl⟩
    · have hnil : strip value = [] := Decidable.not_not.1 fun hne => hdigits ⟨hne, hall⟩
      rw [hnil]
      rfl

namespace ReadLib

variable (lib : ReadLib)

/-- A length that `parse_duration` reads, or takes for none. -/
def LengthRead : Loaded → Prop
  | .infinity negative => negative = true
  | .str text => DigitsRead text
  | .list (item :: items) => DigitsRead (lib.strValue (.list (item :: items)))
  | .dict (m :: members) => DigitsRead (lib.strValue (.dict (m :: members)))
  | _ => True

theorem digitsRead_nil : DigitsRead [] := fun h => h

theorem parseDuration_ok_iff {value : Loaded} :
    (∃ d, lib.parseDuration value = .ok d) ↔ lib.LengthRead value := by
  have hnone : ∃ d, parseDurationText [] = .ok d := parseDurationText_ok_iff.2 digitsRead_nil
  cases value with
  | infinity negative => cases negative <;> simp [parseDuration, LengthRead]
  | str text => exact parseDurationText_ok_iff
  | list items =>
    cases items with
    | nil => exact iff_of_true hnone trivial
    | cons => exact parseDurationText_ok_iff
  | dict members =>
    cases members with
    | nil => exact iff_of_true hnone trivial
    | cons => exact parseDurationText_ok_iff
  | null => exact iff_of_true hnone trivial
  | _ => exact iff_of_true ⟨_, rfl⟩ trivial

/-- The length in an answer of `oembed`, if there is one, is read. -/
def OembedRead (body : List UInt8) : Prop :=
  ∀ text members, lib.codecs.decodeReplace utf8 body = .ok text →
    lib.loads text = some (.dict members) →
    lib.LengthRead ((members.lookup "duration".toList).getD .null)

theorem parseOembed_ok_iff {body : List UInt8} :
    (∃ info, lib.parseOembed body = .ok info) ↔ lib.OembedRead body := by
  obtain ⟨text, htext⟩ := lib.codecs.decodeReplace_utf8 body
  unfold parseOembed OembedRead
  rw [htext]
  dsimp only
  split
  · rename_i members hloads
    rw [show (∀ text' members', (Except.ok text : Except CodecError _) = .ok text' →
      lib.loads text' = some (.dict members') → lib.LengthRead
        ((members'.lookup "duration".toList).getD .null)) ↔
      lib.LengthRead ((members.lookup "duration".toList).getD .null) from ?_]
    · rw [← parseDuration_ok_iff]
      cases lib.parseDuration ((members.lookup "duration".toList).getD .null) with
      | error e => exact iff_of_false (fun ⟨_, h⟩ => nomatch h) fun ⟨_, h⟩ => nomatch h
      | ok d => exact iff_of_true ⟨_, rfl⟩ ⟨d, rfl⟩
    · constructor
      · exact fun h => h text members rfl hloads
      · rintro h text' members' ⟨⟩ hloads'
        obtain rfl : members = members' := by simpa [hloads] using hloads'
        exact h
  · rename_i hnone
    refine iff_of_true ⟨_, rfl⟩ fun text' members htext' hloads => ?_
    cases htext'
    exact absurd hloads (hnone members)

theorem extractHtml_ok_iff {body : List UInt8} {declared : Option (List Char)} :
    (∃ page, lib.extractHtml body declared = .ok page) ↔
      Decodes lib.codecs body (candidates declared body) := by
  rw [← decodeWith_ok_iff]
  unfold extractHtml decodeBody
  cases decodeWith lib.codecs body (candidates declared body) <;> simp

/-- A page that a video's metadata are read from. -/
structure WatchRead (page : FetchedPage) : Prop where
  decodes : Decodes lib.codecs page.body (candidates page.charset page.body)
  length : ∀ text, decodeBody lib.codecs page.body page.charset = .ok text →
    DigitsRead (lib.extractText text).duration

theorem parseWatchPage_ok_iff {page : FetchedPage} :
    (∃ info, lib.parseWatchPage page = .ok info) ↔ lib.WatchRead page := by
  constructor
  · rintro ⟨info, h⟩
    obtain ⟨found, hfound, h⟩ := bind_eq_ok.1 h
    obtain ⟨d, hd, -⟩ := bind_eq_ok.1 h
    refine ⟨lib.extractHtml_ok_iff.1 ⟨found, hfound⟩, fun text htext => ?_⟩
    unfold extractHtml at hfound
    rw [htext] at hfound
    cases hfound
    exact parseDurationText_ok_iff.1 ⟨d, hd⟩
  · rintro ⟨hdecodes, hlength⟩
    obtain ⟨text, htext⟩ := decodeWith_ok_iff.2 hdecodes
    obtain ⟨d, hd⟩ := parseDurationText_ok_iff.2 (hlength text htext)
    have hfound : lib.extractHtml page.body page.charset = .ok (lib.extractText text) := by
      unfold extractHtml decodeBody
      rw [htext]
    exact ⟨_, bind_eq_ok.2 ⟨_, hfound, bind_eq_ok.2 ⟨d, hd, rfl⟩⟩⟩

end ReadLib

/-! ## Ways to end -/

variable {σ α β : Type}

/-- A run ends with a value, or with what a model step raised. -/
def Ends (x : Except Escape α × σ) : Prop := (∃ a, x.1 = .ok a) ∨ ∃ s, x.1 = .error (.stop s)

theorem ends_iff {x : Except Escape α × σ} : Ends x ↔ x.1 ≠ .error .uncaught := by
  rcases x with ⟨_ | _, s⟩
  · rename_i e
    cases e <;> simp [Ends]
  · simp [Ends]

/-- The action, run on a state. -/
def Reading.on (m : Reading σ α) (s : σ) : Except Escape α × σ := m.run.run s

/-- An action that ends so whatever the state. -/
def Calm (m : Reading σ α) : Prop := ∀ s, Ends (m.on s)

theorem calm_pure (a : α) : Calm (pure a : Reading σ α) := fun _ => .inl ⟨a, rfl⟩

theorem on_bind (m : Reading σ α) (f : α → Reading σ β) (s : σ) :
    (m >>= f).on s =
      match m.on s with
      | (.ok a, s') => (f a).on s'
      | (.error e, s') => (.error e, s') := by
  simp only [Reading.on, ExceptT.run_bind, StateT.run_bind]
  rcases m.run.run s with ⟨_ | _, _⟩ <;> rfl

/-- **What follows calmly** makes no difference. -/
theorem ends_bind_iff {m : Reading σ α} {f : α → Reading σ β} {s : σ} (hf : ∀ a, Calm (f a)) :
    Ends ((m >>= f).on s) ↔ Ends (m.on s) := by
  rw [on_bind]
  rcases m.on s with ⟨_ | a, s'⟩
  · simp [Ends]
  · exact iff_of_true (hf a s') (.inl ⟨a, rfl⟩)

theorem Calm.bind {m : Reading σ α} {f : α → Reading σ β} (hm : Calm m) (hf : ∀ a, Calm (f a)) :
    Calm (m >>= f) :=
  fun s => (ends_bind_iff hf).2 (hm s)

/-- A model step raises what it may. -/
theorem calm_stepOf (step : StateM σ (Except Stop α)) : Calm (stepOf step) := by
  intro s
  simp only [Reading.on, stepOf, ExceptT.run_mk, StateT.run_bind]
  rcases step.run s with ⟨stop | a, s'⟩
  · exact .inr ⟨stop, rfl⟩
  · exact .inl ⟨a, rfl⟩

theorem ends_raising_iff {x : Except Unit α} {s : σ} :
    Ends ((raising x : Reading σ α).on s) ↔ ∃ a, x = .ok a := by
  cases x with
  | ok a => exact iff_of_true (.inl ⟨a, rfl⟩) ⟨a, rfl⟩
  | error u =>
    refine iff_of_false ?_ fun ⟨_, h⟩ => nomatch h
    rintro (⟨_, h⟩ | ⟨_, h⟩) <;> exact nomatch h

namespace LinkReader

variable (r : LinkReader σ)

/-! ## What is calm -/

theorem calm_chunks (title text : List Char) : Calm (r.chunks title text) := by
  unfold chunks
  dsimp only
  split
  · exact calm_pure []
  · refine (calm_stepOf _).bind fun vectors => ?_
    cases vectors with
    | none => exact calm_pure _
    | some vectors => exact calm_pure _

theorem calm_digestPage (page : ExtractedPage) (personSaid : List Char) (what : String) :
    Calm (r.digestPage page personSaid what) := by
  unfold digestPage
  split
  · exact calm_stepOf _
  · exact calm_pure none

theorem calm_finish (result : ReadResult) (source : LinkSource) (page : ExtractedPage)
    (personSaid : List Char) (what : String) :
    Calm (r.finish result source page personSaid what) := by
  refine (r.calm_digestPage page personSaid what).bind fun digest => ?_
  dsimp only
  split
  · exact (r.calm_chunks _ _).bind fun chunks => calm_pure _
  · exact calm_pure _

/-! ## A page -/

theorem unread_eq_none_iff {fetched : FetchedPage} :
    unread fetched = none ↔ fetched.statusCode < 400 := by
  unfold unread
  simp only [Option.map_eq_none_iff]
  repeat' split
  all_goals simp; try omega

/-- The charset that a page declares is read: that of a plain text is known, and that of another
page, with those that are tried before it, raises what is caught. -/
def PageRead (fetched : FetchedPage) : Prop :=
  fetched.statusCode < 400 →
    if fetched.contentType = "text/plain".toList then
      ∃ text, r.codecs.decodeReplace (fetched.charset.getD utf8) fetched.body = .ok text
    else Decodes r.codecs fetched.body (candidates fetched.charset fetched.body)

theorem pageOf_ok_iff {fetched : FetchedPage} (h : fetched.statusCode < 400) :
    (∃ page, r.pageOf fetched = .ok page) ↔ r.PageRead fetched := by
  unfold pageOf PageRead
  rw [imp_iff_right h]
  split
  · cases r.codecs.decodeReplace (fetched.charset.getD utf8) fetched.body <;> simp
  · exact r.toReadLib.extractHtml_ok_iff

theorem ends_fromPage_iff {source : LinkSource} {fetched : FetchedPage} {personSaid : List Char}
    {s : σ} : Ends ((r.fromPage source fetched personSaid).on s) ↔ r.PageRead fetched := by
  unfold fromPage
  split
  · rename_i result hresult
    refine iff_of_true (calm_pure result s) fun hcode => ?_
    rw [unread_eq_none_iff.2 hcode] at hresult
    exact (nomatch hresult)
  · rename_i hnone
    rw [ends_bind_iff fun page => r.calm_finish _ _ _ _ _, ends_raising_iff,
      r.pageOf_ok_iff (unread_eq_none_iff.1 hnone)]

theorem on_fetch (url : List Char) (f : Except FetchError FetchedPage → Reading σ α) (s : σ) :
    ((r.fetch url : StateM σ _) >>= f : Reading σ α).on s =
      (f (r.fetch url s).1).on (r.fetch url s).2 := by
  rw [on_bind]
  rfl

/-- The answer of a fetch is one that is read. -/
structure AnswerRead (read : FetchedPage → Prop) (answer : Except FetchError FetchedPage) :
    Prop where
  declared : answer ≠ .error .uncaught
  page : ∀ fetched, answer = .ok fetched → read fetched

theorem ends_readPage_iff {source : LinkSource} {personSaid : List Char} {s : σ} :
    Ends ((r.readPage source personSaid).on s) ↔
      AnswerRead r.PageRead (r.fetch source.url s).1 := by
  unfold readPage
  rw [on_fetch]
  cases (r.fetch source.url s).1 with
  | ok fetched =>
    refine (r.ends_fromPage_iff).trans ⟨fun h => ⟨nofun, fun _ hok => ?_⟩, fun h => h.page _ rfl⟩
    cases hok
    exact h
  | error e =>
    refine ends_raising_iff.trans ?_
    cases e with
    | uncaught => exact iff_of_false (fun ⟨_, h⟩ => nomatch h) fun h => h.declared rfl
    | _ => exact iff_of_true ⟨_, rfl⟩ ⟨nofun, nofun⟩

/-! ## A video -/

theorem answerInfo_ok_iff {parse : FetchedPage → Except Unit VideoInfo} {read : FetchedPage → Prop}
    (hparse : ∀ page, (∃ info, parse page = .ok info) ↔ read page)
    {answer : Except FetchError FetchedPage} :
    (∃ info, answerInfo parse answer = .ok info) ↔
      AnswerRead (fun page => page.statusCode = 200 → read page) answer := by
  cases answer with
  | ok page =>
    have hread : AnswerRead (fun page => page.statusCode = 200 → read page) (.ok page) ↔
        (page.statusCode = 200 → read page) := by
      refine ⟨fun h => h.page page rfl, fun h => ⟨nofun, fun _ hok => ?_⟩⟩
      cases hok
      exact h
    rw [hread, answerInfo]
    split
    · rename_i hcode
      rw [hparse, imp_iff_right hcode]
    · rename_i hcode
      exact iff_of_true ⟨_, rfl⟩ fun h => absurd h hcode
  | error e =>
    cases e with
    | uncaught => exact iff_of_false (fun ⟨_, h⟩ => nomatch h) fun h => h.declared rfl
    | _ => exact iff_of_true ⟨_, rfl⟩ ⟨nofun, nofun⟩

/-- The answers about a video are read: that of `oembed`, and, where it leaves something out, the
watch page. -/
structure VideoRead (url : List Char) (site : VideoSite) (s : σ) : Prop where
  oembed : AnswerRead (fun page => page.statusCode = 200 → r.OembedRead page.body)
    (r.fetch (site.endpoint (r.quoteAll url)) s).1
  watch : ∀ info, answerInfo (fun page => r.parseOembed page.body)
      (r.fetch (site.endpoint (r.quoteAll url)) s).1 = .ok info → complete info = false →
    AnswerRead (fun page => page.statusCode = 200 → r.WatchRead page)
      (r.fetch url (r.fetch (site.endpoint (r.quoteAll url)) s).2).1

theorem ends_readVideoInfo_iff {url : List Char} {site : VideoSite} {s : σ} :
    Ends ((r.readVideoInfo url site).on s) ↔ r.VideoRead url site s := by
  have hoembed : (∃ info, answerInfo (fun page => r.parseOembed page.body)
      (r.fetch (site.endpoint (r.quoteAll url)) s).1 = .ok info) ↔ _ :=
    answerInfo_ok_iff fun page => r.toReadLib.parseOembed_ok_iff
  unfold readVideoInfo
  rw [on_fetch, on_bind]
  cases hinfo : answerInfo (fun page => r.parseOembed page.body)
      (r.fetch (site.endpoint (r.quoteAll url)) s).1 with
  | error u =>
    refine iff_of_false (fun h => ends_iff.1 h rfl) fun h => ?_
    obtain ⟨info, hok⟩ := hoembed.2 h.oembed
    rw [hinfo] at hok
    exact (nomatch hok)
  | ok info =>
    have hread := hoembed.1 ⟨info, hinfo⟩
    have hwatch : r.VideoRead url site s ↔ (complete info = false →
        AnswerRead (fun page => page.statusCode = 200 → r.WatchRead page)
          (r.fetch url (r.fetch (site.endpoint (r.quoteAll url)) s).2).1) := by
      refine ⟨fun h => h.watch info hinfo, fun h => ⟨hread, fun info' hinfo' => ?_⟩⟩
      obtain rfl : info = info' := Except.ok.inj (hinfo.symm.trans hinfo')
      exact h
    rw [hwatch]
    show Ends ((if complete info = true then _ else _ : Reading σ VideoInfo).on _) ↔ _
    split
    · rename_i hcomplete
      exact iff_of_true (calm_pure info _) fun h => absurd hcomplete (by rw [h]; exact nofun)
    · rename_i hpartial
      rw [imp_iff_right (Bool.eq_false_iff.2 hpartial), on_fetch,
        ends_bind_iff fun fallback => calm_pure _, ends_raising_iff]
      exact answerInfo_ok_iff fun page => r.toReadLib.parseWatchPage_ok_iff

theorem ends_readVideo_iff {source : LinkSource} {site : VideoSite} {personSaid : List Char}
    {s : σ} : Ends ((r.readVideo source site personSaid).on s) ↔ r.VideoRead source.url site s := by
  rw [← ends_readVideoInfo_iff]
  refine ends_bind_iff fun info => ?_
  split
  · exact calm_pure _
  · exact (calm_stepOf _).bind fun digest => calm_pure _

/-! ## A read -/

/-- What a read needs of the link, of the fetcher's answers, of the charsets and of the lengths. -/
def Readable (source : LinkSource) (s : σ) : Prop :=
  match r.siteOf source with
  | .error () => False
  | .ok none => AnswerRead r.PageRead (r.fetch source.url s).1
  | .ok (some site) => r.VideoRead source.url site s

/-- **A read ends in a status**, or in what a model step raised, exactly when it is readable. -/
theorem ends_read_iff {source : LinkSource} {personSaid : List Char} {s : σ} :
    Ends ((r.read source personSaid).on s) ↔ r.Readable source s := by
  unfold read Readable
  rw [on_bind]
  rcases r.siteOf source with ⟨⟩ | (_ | site)
  · exact iff_false_intro fun h => ends_iff.1 h rfl
  · exact r.ends_readPage_iff
  · exact r.ends_readVideo_iff

end LinkReader

/-! ## The safe fetcher -/

/-- `SafeFetcher.fetch`, over a network with a state. -/
def safeFetch (lib : UrlLib) (network : Network σ) (policy : FetchPolicy)
    (join : List Char → List Char → Option (List Char)) (url : List Char) :
    StateM σ (Except FetchError FetchedPage) := fun s =>
  let x := fetch lib network policy join url s
  (x.1, x.2.state)

/-- A network on which nothing is raised but what is caught: the resolver and the servers raise
errors of the network only, an announced length of digits is a number, and a redirect leads to a
URL that is joined, and read or refused. -/
structure Tame (lib : UrlLib) (network : Network σ) (policy : FetchPolicy)
    (join : List Char → List Char → Option (List Char)) : Prop where
  resolve : ∀ s host port, (network.resolve s host port).1 ≠ .raised
  send : ∀ s request, (network.send s request).1 ≠ .raised
  finish : ∀ s request response, (network.send s request).1 = .value response →
    response.finish ≠ .raised
  announced : ∀ s request response, (network.send s request).1 = .value response →
    response.contentLength.all isDigitChar = true → response.contentLength.all isDigit = true
  redirects : ∀ s request response current, (network.send s request).1 = .value response →
    response.location ≠ [] → ∃ next, join current response.location = some next ∧
      parseUrl lib policy.allowHosts next ≠ .error .uncaught

section

variable {lib : UrlLib} {network : Network σ} {policy : FetchPolicy}
  {join : List Char → List Char → Option (List Char)}

/-- The response came from the network. -/
def Sent (network : Network σ) (response : Response) : Prop :=
  ∃ s request, (network.send s request).1 = .value response

/-- An exception that leaves a hop and that the fetch declares. -/
def Final (e : Raised) : Prop := (∃ e', e = .error e' ∧ e' ≠ .uncaught) ∨ e = .timedOut

theorem Final.ne {e : Raised} (h : Final e) : e ≠ .error .uncaught := by
  rintro rfl
  rcases h with ⟨e', he, hne⟩ | h
  · cases he
    exact hne rfl
  · exact nomatch h

theorem final_failed (reason message : String) : Final (.error (.failed reason message)) :=
  .inl ⟨_, rfl, nofun⟩

/-- What a hop does not try again. -/
theorem final_of_ne {e : Raised} (hserver : e = .serverError → False)
    (htransport : e = .transport → False) (hcaught : e ≠ .error .uncaught) : Final e := by
  cases e with
  | error e' => exact .inl ⟨e', rfl, fun he => hcaught (he ▸ rfl)⟩
  | transport => exact (htransport rfl).elim
  | serverError => exact (hserver rfl).elim
  | timedOut => exact .inr rfl

theorem send_tame (h : Tame lib network policy join) (request : Request) :
    ⦃fun _ => ⌜True⌝⦄
    send network request
    ⦃post⟨fun response _ => ⌜Sent network response⌝, fun e _ => ⌜e ≠ .error .uncaught⌝⟩⦄ := by
  mvcgen [send]
  case vc1.h_1 w response hsent => exact ⟨w.state, request, hsent⟩
  case vc3.h_3 w hraised => exact absurd hraised (h.send w.state request)

theorem resolve_tame (h : Tame lib network policy join) (host : List Char) (port : Nat) :
    ⦃fun _ => ⌜True⌝⦄
    resolve network host port
    ⦃post⟨fun _ _ => ⌜True⌝, fun e _ => ⌜Final e⌝⟩⦄ := by
  mvcgen [resolve]
  case vc1.h_2 => exact final_failed _ _
  case vc2.h_3 w hraised => exact absurd hraised (h.resolve w.state host port)
  case vc3.h_4 => exact .inr rfl

theorem sleep_final :
    ⦃fun _ => ⌜True⌝⦄ sleep network ⦃post⟨fun _ _ => ⌜True⌝, fun e _ => ⌜Final e⌝⟩⦄ := by
  mvcgen [sleep]
  exact .inr rfl

/-- A body that ends is read, or cut off, or is dropped. -/
theorem readBody_tame {maxBytes : Nat} {finish : Answer Unit} {body : List UInt8}
    {chunks : List (List UInt8)} {e : Raised} (hfinish : finish ≠ .raised)
    (h : readBody maxBytes finish body chunks = .error e) : e ≠ .error .uncaught := by
  induction chunks generalizing body with
  | nil =>
    cases finish with
    | raised => exact absurd rfl hfinish
    | value u => cases h
    | _ =>
      cases h
      simp
  | cons chunk chunks ih =>
    rw [readBody] at h
    split at h
    · cases h
      simp
    · exact ih h

theorem read_tame (h : Tame lib network policy join) (request : Request) :
    ⦃fun _ => ⌜True⌝⦄
    read lib network policy request
    ⦃post⟨fun x _ => ⌜Sent network x.1⌝, fun e _ => ⌜e ≠ .error .uncaught⌝⟩⦄ := by
  have hsend := send_tame h request
  mvcgen [read, hsend]
  case vc3.success.isFalse.isFalse.isTrue => simp
  case vc4.success.isFalse.isFalse.isFalse.isTrue.h_1 =>
    rename_i hdigits hnone _ hsent
    obtain ⟨s, request, hsent⟩ := hsent
    have hnumber := h.announced s request _ hsent hdigits.2
    exact absurd (List.all_eq_true.1 hnumber)
      ((intIn_eq_none_iff hdigits.1 (List.all_eq_true.1 hdigits.2)).1 hnone)
  case vc6.success.isFalse.isFalse.isFalse.isTrue.h_2.isFalse.h_1 =>
    rename_i e hbody _ hsent
    obtain ⟨s, request, hsent⟩ := hsent
    exact readBody_tame (h.finish s request _ hsent) hbody
  case vc8.success.isFalse.isFalse.isFalse.isFalse.h_1 =>
    rename_i e hbody _ hsent
    obtain ⟨s, request, hsent⟩ := hsent
    exact readBody_tame (h.finish s request _ hsent) hbody

/-- What a name resolves to is refused, at most. -/
theorem checkResolved_declared {addresses : List (List Char)} {e : FetchError}
    (h : checkResolved lib addresses = .error e) : e ≠ .uncaught := by
  have haddress : ∀ raw e, checkAddress lib raw = .error e → e ≠ .uncaught := by
    intro raw e h
    unfold checkAddress at h
    split at h
    · cases h
      exact nofun
    · split at h
      · cases h
        exact nofun
      · exact nomatch h
  unfold checkResolved at h
  split at h
  · cases h
    exact nofun
  · induction addresses with
    | nil => exact nomatch h
    | cons raw addresses ih =>
      rw [List.forM_cons] at h
      cases hraw : checkAddress lib raw with
      | error e' =>
        rw [hraw] at h
        cases h
        exact haddress raw e hraw
      | ok u =>
        rw [hraw] at h
        by_cases hnil : addresses = []
        · subst hnil
          exact nomatch h
        · exact ih hnil h

theorem addressOf_tame (h : Tame lib network policy join) (parsed : ParsedUrl) :
    ⦃fun _ => ⌜True⌝⦄
    addressOf lib network policy parsed
    ⦃post⟨fun _ _ => ⌜True⌝, fun e _ => ⌜Final e⌝⟩⦄ := by
  have hresolve := resolve_tame h
  mvcgen [addressOf, hresolve]
  case vc1.isFalse.success.isTrue.h_1 =>
    rename_i hrefused _
    exact .inl ⟨_, rfl, checkResolved_declared hrefused⟩
  all_goals exact final_failed _ _

theorem retry_tame (h : Tame lib network policy join) (request : Request) :
    ⦃fun _ => ⌜True⌝⦄
    retry lib network policy request
    ⦃post⟨fun x _ => ⌜Sent network x.1⌝, fun e _ => ⌜Final e⌝⟩⦄ := by
  have hread := read_tame h request
  mvcgen [retry, hread]
  case vc1.success => exact id
  case vc4.except.handle.h_3 =>
    rename_i e hserver htransport _ _ hcaught
    exact final_of_ne hserver htransport hcaught
  all_goals exact final_failed _ _

theorem hop_tame (h : Tame lib network policy join) (parsed : ParsedUrl) :
    ⦃fun _ => ⌜True⌝⦄
    hop lib network policy parsed
    ⦃post⟨fun x _ => ⌜Sent network x.1⌝, fun e _ => ⌜Final e⌝⟩⦄ := by
  have haddress := addressOf_tame h parsed
  have hread := read_tame h
  have hsleep := @sleep_final σ network
  have hretry := retry_tame h
  mvcgen [hop, haddress, hread, hsleep, hretry]
  case vc1.success.success => exact id
  case vc2.success.except.handle.h_3 =>
    rename_i e hserver htransport _ _ hcaught
    exact final_of_ne hserver htransport hcaught

theorem follow_tame (h : Tame lib network policy join) (url : List Char) (left redirects : Nat)
    (current : List Char) (hosts : List (List Char))
    (hcurrent : parseUrl lib policy.allowHosts current ≠ .error .uncaught) :
    ⦃fun _ => ⌜True⌝⦄
    follow lib network policy join url redirects current hosts left
    ⦃post⟨fun _ _ => ⌜True⌝, fun e _ => ⌜Final e⌝⟩⦄ := by
  induction left generalizing redirects current hosts with
  | zero =>
    mvcgen [follow]
    exact .inl ⟨_, rfl, by simp⟩
  | succ left ih =>
    have hhop := hop_tame h
    mvcgen [follow, hhop, ih]
    case vc1.succ.h_1 =>
      rename_i e hparse _
      exact .inl ⟨e, rfl, fun he => hcurrent (hparse.trans (congrArg _ he))⟩
    case vc2.succ.h_2.success.isTrue.h_1 =>
      rename_i hredirect hjoin _ hsent
      obtain ⟨s, request, hsent⟩ := hsent
      obtain ⟨next, hnext, -⟩ := h.redirects s request _ current hsent hredirect.2
      exact absurd (hnext.symm.trans hjoin) (Option.some_ne_none _)
    case vc3 =>
      rename_i hredirect next hjoin
      rintro _ ⟨s, request, hsent⟩
      obtain ⟨next', hnext, hparse⟩ := h.redirects s request _ current hsent hredirect.2
      obtain rfl : next = next' := Option.some.inj (hjoin.symm.trans hnext)
      exact hparse

/-- **Over a tame network** the fetcher raises what it declares. -/
theorem safeFetch_declared (h : Tame lib network policy join) {url : List Char}
    (hurl : parseUrl lib policy.allowHosts url ≠ .error .uncaught) (s : σ) :
    (safeFetch lib network policy join url s).1 ≠ .error .uncaught := by
  have hrun := run_of_triple (follow_tame h url (policy.maxRedirects + 1) 0 url [] hurl)
    (w := { state := s }) trivial
  unfold safeFetch fetch
  split
  all_goals
    rename_i heq
    rw [heq] at hrun
  · exact nofun
  · rename_i e _
    rintro ⟨⟩
    exact Final.ne hrun rfl
  · exact nofun
  · rename_i hother hlate
    rcases hrun with ⟨e', he, -⟩ | he
    · exact absurd he (hother e')
    · exact absurd he hlate

end

/-- The reader with the safe fetcher. -/
def LinkReader.over (r : LinkReader σ) (network : Network σ) (policy : FetchPolicy)
    (join : List Char → List Char → Option (List Char)) : LinkReader σ :=
  { r with fetch := safeFetch r.toUrlLib network policy join }

/-- Texts of ASCII, and no other charset. -/
def asciiCodecs : Codecs where
  decode name body :=
    if name ≠ utf8 then .error .unknown
    else if body.all (· < 128) then .ok (latin1 body) else .error .undecodable
  decodeReplace name body :=
    if name = utf8 then .ok (latin1 (body.map fun b => if b < 128 then b else 63))
    else .error .unknown
  decode_utf8 body := by
    rw [if_neg (not_not.2 rfl)]
    split <;> exact nofun
  decodeReplace_utf8 body := ⟨_, if_pos rfl⟩

/-- A page with this much text. -/
def textPage (text : List Char) : ExtractedPage where
  title := text.take 120
  description := []
  site := []
  author := []
  published := []
  text := text
  wordCount := (Chunking.wordsOf text).length
  method := "plain"
  paywall := false
  scriptOnly := false

/-- A reader of one page, without a digest. -/
def plainReader : LinkReader Unit where
  toUrlLib := onePage
  split url :=
    if url = "http://example.com/".toList then
      some ⟨"http".toList, "example.com".toList, "/".toList, [], none, none,
        some "example.com".toList, some none⟩
    else none
  urlsplit_eq text := by
    show (if text = _ then _ else _) = _
    split <;> rfl
  unquote := id
  quote := id
  parseQsl := fun _ => []
  urlencode := fun _ => []
  unsplit := fun _ _ path _ => path
  codecs := asciiCodecs
  sha256 := ⟨fun _ => [], nofun⟩
  loads := fun _ => none
  strValue := fun _ => []
  quoteAll := id
  extractPlain := textPage
  extractText := textPage
  fetch := fun _ s => (.error .uncaught, s)
  digest := fun _ _ _ s => (.ok none, s)
  embed := fun _ s => (.ok none, s)
  settings := { perChunk := 225, share := fun target => target / 10 }

/-- A server of one plain text. -/
def plainServer (contentType : String) : Network Unit where
  resolve _ _ _ := (.value ["93.184.216.34".toList], ())
  send _ _ :=
    (.value { status := 200, contentType := contentType.toList, chunks := [[104, 105]] }, ())
  sleep _ := (.value (), ())

def savedPage : LinkSource where
  id := 1
  itemId := 2
  turnId := 3
  url := "http://example.com/".toList
  canonicalUrl := "https://example.com/".toList
  kind := .article
  fetchStatus := .pending
  fetchReason := none
  rule := none

end Links
end SecondMind
