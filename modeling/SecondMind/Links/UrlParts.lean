import SecondMind.Links.Saver
import SecondMind.Texts.Percent

/-!
# URLs and their parts

`urlsplit` and `urlunsplit` of `urllib.parse`, as `canonical_url` uses them, and what a split does
to a URL that was put together from its parts.

* `urlsplit`, `unsplit` — the two functions;
* `urllib` — the library of the links with these functions in it;
* `urlsplit_unsplit` — the parts of a URL that was put together.
-/

namespace SecondMind
namespace Links

/-! ## Splitting -/

/-- What the host of a URL is checked for: the address in its brackets, and letters outside ASCII
that NFKC turns into one of `/?#@:`. -/
structure UrlChecks where
  bracketed : List Char → Bool
  expands : Char → Bool
  expands_ascii : ∀ c : Char, c.toNat < 128 → expands c = false

/-- `scheme_chars`. -/
def schemeLetter (c : Char) : Bool := c.isAlphanum ∨ c ∈ ['+', '-', '.']

/-- The scheme before the first colon, and what follows it. -/
def schemeOf (url : List Char) : List Char × List Char :=
  let name := url.takeWhile (· ≠ ':')
  match url.dropWhile (· ≠ ':') with
  | [] => ([], url)
  | _ :: rest =>
    if name.head?.any Char.isAlpha ∧ name.all schemeLetter then (name.map Char.toLower, rest)
    else ([], url)

/-- Not the end of a host: `/`, `?` or `#`. -/
def hostLetter (c : Char) : Bool := c ∉ ['/', '?', '#']

/-- `_splitnetloc`, after `//`. -/
def netlocOf : List Char → List Char × List Char
  | '/' :: '/' :: rest => (rest.takeWhile hostLetter, rest.dropWhile hostLetter)
  | rest => ([], rest)

/-- The checks of a host; a failed one is a `ValueError`. -/
def netlocOk (checks : UrlChecks) (netloc : List Char) : Bool :=
  ('[' ∈ netloc ↔ ']' ∈ netloc) ∧ ('[' ∈ netloc → checks.bracketed netloc) ∧
    !netloc.any checks.expands

/-- The user and the password before the last `@`. -/
def userInfo (netloc : List Char) : Option (List Char) :=
  if '@' ∈ netloc then some (netloc.reverse.dropWhile (· ≠ '@')).tail.reverse else none

/-- The host and the port after the last `@`. -/
def hostInfo (netloc : List Char) : List Char := (netloc.reverse.takeWhile (· ≠ '@')).reverse

/-- `_hostinfo`. -/
def hostPort (info : List Char) : List Char × List Char :=
  if '[' ∈ info then
    let bracketed := (info.dropWhile (· ≠ '[')).tail
    (bracketed.takeWhile (· ≠ ']'),
      ((bracketed.dropWhile (· ≠ ']')).tail.dropWhile (· ≠ ':')).tail)
  else (info.takeWhile (· ≠ ':'), (info.dropWhile (· ≠ ':')).tail)

/-- `hostname`: what follows a `%` keeps its case. -/
def hostname (lower : List Char → List Char) (name : List Char) : Option (List Char) :=
  if name = [] then none
  else some (lower (name.takeWhile (· ≠ '%')) ++ name.dropWhile (· ≠ '%'))

/-- The digits that `int` reads, at most. -/
def maxDigits : Nat := 4300

/-- `port`: no port is a `ValueError`. -/
def portOf (digits : List Char) : Option (Option Nat) :=
  if digits = [] then some none
  else if digits.all Char.isDigit ∧ digits.length ≤ maxDigits ∧ intOf digits ≤ 65535 then
    some (some (intOf digits))
  else none

def partsOf (lower : List Char → List Char) (scheme netloc path query : List Char) :
    SplitParts where
  scheme := scheme
  netloc := netloc
  path := path
  query := query
  username := (userInfo netloc).map (·.takeWhile (· ≠ ':'))
  password := (userInfo netloc).bind fun info =>
    if ':' ∈ info then some (info.dropWhile (· ≠ ':')).tail else none
  hostname := hostname lower (hostPort (hostInfo netloc)).1
  port := portOf (hostPort (hostInfo netloc)).2

/-- `urlsplit(url)`; none is a `ValueError`. -/
def urlsplit (lower : List Char → List Char) (checks : UrlChecks) (url : List Char) :
    Option SplitParts :=
  let url := (url.dropWhile fun c => c.toNat ≤ 0x20).filter (· ∉ ['\t', '\r', '\n'])
  let (scheme, rest) := schemeOf url
  let (netloc, rest) := netlocOf rest
  if netlocOk checks netloc then
    let rest := rest.takeWhile (· ≠ '#')
    some (partsOf lower scheme netloc (rest.takeWhile (· ≠ '?')) (rest.dropWhile (· ≠ '?')).tail)
  else none

/-- `uses_netloc`. -/
def usesNetloc : List String :=
  ["ftp", "http", "gopher", "nntp", "telnet", "imap", "wais", "file", "mms", "https", "shttp",
    "snews", "prospero", "rtsp", "rtsps", "rtspu", "rsync", "svn", "svn+ssh", "sftp", "nfs", "git",
    "git+ssh", "ws", "wss"]

/-- The host and the path. -/
def unsplitPath (scheme netloc path : List Char) : List Char :=
  if netloc ≠ [] then
    '/' :: '/' :: netloc ++ if path = [] ∨ path.head? = some '/' then path else '/' :: path
  else if ['/', '/'] <+: path ∨
      (String.ofList scheme ∈ usesNetloc ∧ (path = [] ∨ path.head? = some '/')) then
    '/' :: '/' :: path
  else path

/-- `urlunsplit((scheme, netloc, path, query, ""))`. -/
def unsplit (scheme netloc path query : List Char) : List Char :=
  (if scheme = [] then [] else scheme ++ [':']) ++ unsplitPath scheme netloc path ++
    if query = [] then [] else '?' :: query

/-- The letters of a path that `canonical_url` does not quote. -/
def pathSafe : List Char :=
  ['/', ':', '@', '!', '$', '&', '\'', '(', ')', '*', '+', ',', ';', '=', '-', '.', '_', '~']

/-- The library of the links, with the functions of `urllib.parse`. -/
def urllib (base : UrlLib) (checks : UrlChecks) : LinkLib where
  toUrlLib := { base with urlsplit := fun url =>
    (Links.urlsplit base.lower checks url).bind SplitParts.read }
  split := Links.urlsplit base.lower checks
  urlsplit_eq _ := rfl
  unquote := Texts.unquote
  quote := Texts.quote pathSafe
  parseQsl := Texts.parseQsl
  urlencode := Texts.urlencode
  unsplit := unsplit

/-! ## Splitting what was put together -/

/-- No letter that a split removes. -/
def Clean (text : List Char) : Prop := ∀ c ∈ text, c ∉ ['\t', '\r', '\n']

structure ProperScheme (scheme : List Char) : Prop where
  starts : scheme.head?.any Char.isAlpha = true
  letters : scheme.all schemeLetter = true
  lower : scheme.map Char.toLower = scheme

/-- Parts that can be put together and found again. -/
structure ProperParts (checks : UrlChecks) (scheme netloc path query : List Char) : Prop where
  proper_scheme : ProperScheme scheme
  clean_netloc : Clean netloc
  clean_path : Clean path
  clean_query : Clean query
  host_letters : netloc.all hostLetter = true
  checked : netlocOk checks netloc = true
  path_ne_nil : path ≠ []
  rooted : netloc ≠ [] → path.head? = some '/'
  no_mark : '?' ∉ path
  no_hash : '#' ∉ path ++ query

theorem ProperScheme.no_colon {scheme : List Char} (h : ProperScheme scheme) : ':' ∉ scheme :=
  fun hmem => absurd (List.all_eq_true.1 h.letters _ hmem) (by decide)

theorem schemeOf_append {scheme : List Char} (h : ProperScheme scheme) (rest : List Char) :
    schemeOf (scheme ++ ':' :: rest) = (scheme, rest) := by
  have hcut := cut_append rest h.no_colon
  unfold schemeOf
  simp only [hcut.1, hcut.2]
  rw [if_pos ⟨h.starts, h.letters⟩, h.lower]

/-- A rooted text after `//` starts with the end of a host. -/
theorem netlocOf_append {netloc rest : List Char} (hnetloc : netloc.all hostLetter = true)
    (hrest : rest.head? = some '/') : netlocOf ('/' :: '/' :: netloc ++ rest) = (netloc, rest) := by
  obtain ⟨rest, rfl⟩ : ∃ rest', rest = '/' :: rest' := by
    cases rest with
    | nil => cases hrest
    | cons c rest => exact ⟨rest, by rw [Option.some.inj hrest]⟩
  have hall := List.all_eq_true.1 hnetloc
  simp only [List.cons_append]
  rw [netlocOf, List.takeWhile_append_of_pos hall, List.dropWhile_append_of_pos hall]
  simp [hostLetter]

theorem netlocOf_of_not_prefix {rest : List Char} (h : ¬ ['/', '/'] <+: rest) :
    netlocOf rest = ([], rest) := by
  unfold netlocOf
  split
  · rename_i rest
    exact absurd ⟨rest, rfl⟩ h
  · rfl

variable {checks : UrlChecks} {scheme netloc path query : List Char}

/-- The host and the path are found again, whatever follows them. -/
theorem netlocOf_unsplitPath (h : ProperParts checks scheme netloc path query)
    {rest : List Char} (hrest : rest.head? ≠ some '/') :
    netlocOf (unsplitPath scheme netloc path ++ rest) = (netloc, path ++ rest) := by
  have hhead : path.head? = some '/' → (path ++ rest).head? = some '/' := by
    intro hpath
    rw [List.head?_append, hpath]
    rfl
  unfold unsplitPath
  by_cases hnetloc : netloc = []
  · rw [if_neg (not_not_intro hnetloc), hnetloc]
    split
    · rename_i hslashes
      refine netlocOf_append (rfl : ([] : List Char).all hostLetter = true) (hhead ?_)
      rcases hslashes with ⟨more, hmore⟩ | ⟨-, hnil | hroot⟩
      · rw [← hmore]
        rfl
      · exact absurd hnil h.path_ne_nil
      · exact hroot
    · rename_i hslashes
      refine netlocOf_of_not_prefix fun hstart => ?_
      obtain ⟨c, path, rfl⟩ := List.exists_cons_of_ne_nil h.path_ne_nil
      cases path with
      | nil =>
        have hsecond : ['/'] <+: rest := (List.cons_prefix_cons.1 hstart).2
        obtain ⟨more, rfl⟩ := hsecond
        exact hrest rfl
      | cons d path =>
        simp only [List.cons_append, List.cons_prefix_cons] at hstart hslashes
        exact hslashes (.inl ⟨hstart.1, hstart.2.1, List.nil_prefix⟩)
  · have hroot := h.rooted hnetloc
    rw [if_pos hnetloc, if_pos (.inr hroot), List.append_assoc]
    exact netlocOf_append h.host_letters (hhead hroot)

theorem Clean.append {text text' : List Char} (h : Clean text) (h' : Clean text') :
    Clean (text ++ text') :=
  fun c hc => (List.mem_append.1 hc).elim (h c) (h' c)

theorem Clean.cons {c : Char} {text : List Char} (hc : c ∉ ['\t', '\r', '\n'])
    (h : Clean text) : Clean (c :: text) :=
  List.forall_mem_cons.2 ⟨hc, h⟩

theorem clean_nil : Clean [] := fun _ hc => absurd hc List.not_mem_nil

/-- Letters of a kind without white space. -/
theorem clean_of_all {f : Char → Bool} (hf : ∀ c, c ∈ ['\t', '\r', '\n'] → f c = false)
    {text : List Char} (h : text.all f = true) : Clean text := by
  intro c hc hmem
  exact Bool.false_ne_true ((hf c hmem).symm.trans (List.all_eq_true.1 h c hc))

theorem clean_unsplitPath (hnetloc : Clean netloc) (hpath : Clean path) :
    Clean (unsplitPath scheme netloc path) := by
  have hslash : ∀ {text}, Clean text → Clean ('/' :: text) := Clean.cons (by decide)
  unfold unsplitPath
  split
  · refine (hslash (hslash hnetloc)).append ?_
    split
    · exact hpath
    · exact hslash hpath
  · split
    · exact hslash (hslash hpath)
    · exact hpath

theorem unsplit_eq (h : ProperParts checks scheme netloc path query) :
    unsplit scheme netloc path query =
      scheme ++ ':' ::
        (unsplitPath scheme netloc path ++ if query = [] then [] else '?' :: query) := by
  have hne : scheme ≠ [] := by
    rintro rfl
    cases h.proper_scheme.starts
  rw [unsplit, if_neg hne]
  simp

theorem clean_unsplit (h : ProperParts checks scheme netloc path query) :
    Clean (unsplit scheme netloc path query) := by
  have hscheme : Clean scheme := clean_of_all (by simp [schemeLetter]) h.proper_scheme.letters
  have hquery : Clean (if query = [] then [] else '?' :: query) := by
    split
    · exact clean_nil
    · exact Clean.cons (by decide) h.clean_query
  rw [unsplit_eq h]
  exact hscheme.append (Clean.cons (by decide)
    ((clean_unsplitPath h.clean_netloc h.clean_path).append hquery))

/-- **The parts of a URL** that was put together from parts. -/
theorem urlsplit_unsplit (lower : List Char → List Char)
    (h : ProperParts checks scheme netloc path query) :
    urlsplit lower checks (unsplit scheme netloc path query) =
      some (partsOf lower scheme netloc path query) := by
  have hclean : ((unsplit scheme netloc path query).dropWhile fun c => c.toNat ≤ 0x20).filter
      (· ∉ ['\t', '\r', '\n']) = unsplit scheme netloc path query := by
    have hdrop : ((unsplit scheme netloc path query).dropWhile fun c => c.toNat ≤ 0x20) =
        unsplit scheme netloc path query := by
      rw [unsplit_eq h]
      have hstarts := h.proper_scheme.starts
      cases scheme with
      | nil => cases hstarts
      | cons c scheme =>
        refine List.dropWhile_cons_of_neg fun hle => ?_
        have halpha : c.isAlpha = true := hstarts
        have hletter : 65 ≤ c.toNat := by
          simp only [Char.isAlpha, Char.isUpper, Char.isLower, Bool.or_eq_true, Bool.and_eq_true,
            decide_eq_true_eq, UInt32.le_iff_toNat_le] at halpha
          rcases halpha with ⟨hle, -⟩ | ⟨hle, -⟩
          · exact hle
          · exact Nat.le_trans (by decide) hle
        have hsmall := of_decide_eq_true hle
        omega
    rw [hdrop, List.filter_eq_self]
    exact fun c hc => decide_eq_true (clean_unsplit h c hc)
  have hrest : (if query = [] then [] else '?' :: query).head? ≠ some '/' := by
    split
    · simp
    · simp
  have hhash : (path ++ if query = [] then [] else '?' :: query).takeWhile (· ≠ '#') =
      path ++ if query = [] then [] else '?' :: query := by
    refine (cut_of_notMem ?_).1
    have := h.no_hash
    split <;> simp_all
  unfold urlsplit
  simp only [hclean]
  rw [unsplit_eq h, schemeOf_append h.proper_scheme]
  simp only [netlocOf_unsplitPath h hrest, hhash]
  rw [if_pos h.checked]
  by_cases hquery : query = []
  · rw [if_pos hquery, List.append_nil, (cut_of_notMem h.no_mark).1, (cut_of_notMem h.no_mark).2,
      hquery]
    rfl
  · rw [if_neg hquery, (cut_append query h.no_mark).1, (cut_append query h.no_mark).2]
    rfl

/-! ## What was split -/

/-- The parts of a URL that was split. -/
structure FoundParts (checks : UrlChecks) (scheme netloc path : List Char) : Prop where
  scheme : scheme = [] ∨ ProperScheme scheme
  clean_netloc : Clean netloc
  host_letters : netloc.all hostLetter = true
  checked : netlocOk checks netloc = true
  rooted : netloc ≠ [] → path = [] ∨ path.head? = some '/'

theorem toNat_of_schemeLetter {c : Char} (h : schemeLetter c = true) : c.toNat < 128 := by
  simp only [schemeLetter, Char.isAlphanum, Char.isAlpha, Char.isUpper, Char.isLower, Char.isDigit,
    Bool.or_eq_true, Bool.and_eq_true, decide_eq_true_eq, UInt32.le_iff_toNat_le, List.mem_cons,
    List.not_mem_nil, or_false] at h
  rcases h with (((⟨-, hle⟩ | ⟨-, hle⟩) | ⟨-, hle⟩) | rfl | rfl | rfl)
  · exact Nat.lt_of_le_of_lt hle (by decide)
  · exact Nat.lt_of_le_of_lt hle (by decide)
  · exact Nat.lt_of_le_of_lt hle (by decide)
  · decide
  · decide
  · decide

/-- A letter of a scheme in lower case. -/
theorem toLower_schemeLetter {c : Char} (h : schemeLetter c = true) :
    schemeLetter c.toLower = true ∧ c.toLower.toLower = c.toLower ∧
      c.toLower.isAlpha = c.isAlpha := by
  have hall : ∀ n < 128, schemeLetter (Char.ofNat n) = true →
      schemeLetter (Char.ofNat n).toLower = true ∧
        (Char.ofNat n).toLower.toLower = (Char.ofNat n).toLower ∧
        (Char.ofNat n).toLower.isAlpha = (Char.ofNat n).isAlpha := by decide
  have hc := hall c.toNat (toNat_of_schemeLetter h)
  rw [Char.ofNat_toNat] at hc
  exact hc h

theorem properScheme_toLower {name : List Char} (hstarts : name.head?.any Char.isAlpha = true)
    (hletters : name.all schemeLetter = true) : ProperScheme (name.map Char.toLower) := by
  have hall := List.all_eq_true.1 hletters
  refine ⟨?_, ?_, ?_⟩
  · cases name with
    | nil => cases hstarts
    | cons c name => exact (toLower_schemeLetter (hall c List.mem_cons_self)).2.2.trans hstarts
  · rw [List.all_map, List.all_eq_true]
    exact fun c hc => (toLower_schemeLetter (hall c hc)).1
  · rw [List.map_map]
    exact List.map_congr_left fun c hc => (toLower_schemeLetter (hall c hc)).2.1

theorem schemeOf_proper (url : List Char) :
    (schemeOf url).1 = [] ∨ ProperScheme (schemeOf url).1 := by
  unfold schemeOf
  dsimp only
  split
  · exact .inl rfl
  · split
    · rename_i h
      exact .inr (properScheme_toLower h.1 h.2)
    · exact .inl rfl

theorem mem_schemeOf {url : List Char} {c : Char} (h : c ∈ (schemeOf url).2) : c ∈ url := by
  unfold schemeOf at h
  dsimp only at h
  split at h
  · exact h
  · rename_i heq
    split at h
    · refine (List.dropWhile_sublist _).subset (heq ▸ List.mem_cons_of_mem _ h)
    · exact h

theorem netlocOf_spec (rest : List Char) :
    (∀ c ∈ (netlocOf rest).1, c ∈ rest) ∧ (netlocOf rest).1.all hostLetter = true ∧
      ((netlocOf rest).1 ≠ [] → ∀ c ∈ (netlocOf rest).2.head?, hostLetter c = false) := by
  unfold netlocOf
  split
  · rename_i rest
    refine ⟨fun c hc => ?_, List.all_takeWhile, fun _ c hc => ?_⟩
    · exact List.mem_cons_of_mem _ (List.mem_cons_of_mem _ ((List.takeWhile_sublist _).subset hc))
    · have hhead := List.head?_dropWhile_not hostLetter rest
      rw [hc] at hhead
      simpa using hhead
  · exact ⟨fun c hc => absurd hc List.not_mem_nil, rfl, fun h => absurd rfl h⟩

theorem urlsplit_eq_some {lower : List Char → List Char} {url : List Char} {parts : SplitParts}
    (h : urlsplit lower checks url = some parts) :
    ∃ scheme netloc path query, parts = partsOf lower scheme netloc path query ∧
      FoundParts checks scheme netloc path := by
  unfold urlsplit at h
  dsimp only at h
  generalize hurl : (url.dropWhile fun c => c.toNat ≤ 0x20).filter (· ∉ ['\t', '\r', '\n']) = url'
    at h
  have hclean : Clean url' := by
    intro c hc
    rw [← hurl] at hc
    exact of_decide_eq_true (List.mem_filter.1 hc).2
  obtain ⟨hmem, hletters, hend⟩ := netlocOf_spec (schemeOf url').2
  split at h
  · rename_i hok
    refine ⟨_, _, _, _, (Option.some.inj h).symm, schemeOf_proper url',
      fun c hc => hclean c (mem_schemeOf (hmem c hc)), hletters, hok, fun hne => ?_⟩
    have hhead := hend hne
    cases hrest : (netlocOf (schemeOf url').2).2 with
    | nil => exact .inl rfl
    | cons c rest =>
      rw [hrest] at hhead
      have hc := hhead c rfl
      simp only [hostLetter, List.mem_cons, List.not_mem_nil, or_false, not_or,
        decide_eq_false_iff_not, not_and, not_not] at hc
      by_cases hslash : c = '/'
      · subst hslash
        exact .inr rfl
      · by_cases hmark : c = '?'
        · subst hmark
          exact .inl rfl
        · have hhash := hc hslash hmark
          subst hhash
          exact .inl rfl
  · cases h

end Links
end SecondMind
