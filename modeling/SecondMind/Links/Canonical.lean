import SecondMind.Links.SavedLinks
import SecondMind.Links.UrlParts

/-!
# The canonical form of a URL

What a URL names is a page: a scheme, a host, a port, a path and the pairs of a query. The
canonical form of a URL is its page, written in one way.

* `Page`, `LinkLib.page` — what a URL names;
* `canonicalUrl_eq` — the canonical form is the page, written;
* `page_write` — a page that was written reads back;
* `canonicalUrl_normal` — the canonical form is one, for a host without brackets and with one
  `www.` at most.
-/

namespace SecondMind
namespace Links

open Regex

/-! ## Pages -/

/-- What a URL names. -/
structure Page where
  scheme : List Char
  host : List Char
  port : Option Nat
  path : List Char
  query : List (List Char × List Char)
  deriving DecidableEq

namespace Page

/-- The host with the port. -/
def netloc (p : Page) : List Char :=
  match p.port with
  | none => p.host
  | some port => p.host ++ ':' :: strOf port

def write (p : Page) : List Char :=
  unsplit p.scheme p.netloc (Texts.quote pathSafe p.path) (Texts.urlencode p.query)

end Page

/-- A pair of a query that tracks nobody. -/
def untracked (e : List Char × List Char) : Bool := (matchStart trackingPattern e.1).isNone

section

variable (base : UrlLib) (checks : UrlChecks)

/-- What the parts of a URL name: without `www.`, a default port, slashes at the end of the path
and tracking parameters. -/
def pageOf (parts : SplitParts) (port : Option Nat) : Page where
  scheme :=
    let scheme := base.lower parts.scheme
    if scheme = [] ∨ scheme = "http".toList then "https".toList else scheme
  host := withoutWww (stripDots (base.lower (parts.hostname.getD [])))
  port := port.filter (· ∉ [80, 443])
  path := stripPath (Texts.unquote (if parts.path = [] then ['/'] else parts.path))
  query := ((Texts.parseQsl parts.query).filter untracked).mergeSort pairLe

/-- What a URL names; none is a `ValueError`. -/
def page (url : List Char) : Option Page :=
  (urlsplit base.lower checks (strip url)).bind fun parts => parts.port.map (pageOf base parts)

end

/-! ### Slashes at the end -/

theorem percent_notMem_pathSafe : '%' ∉ pathSafe := by decide

theorem stripPath_eq (path : List Char) :
    stripPath path = if path = ['/'] ∨ path.rdropWhile (· = '/') = [] then ['/']
      else path.rdropWhile (· = '/') := by
  unfold stripPath
  by_cases hpath : path = ['/']
  · rw [if_pos hpath, if_pos (.inl hpath), hpath]
  · rw [if_neg hpath]
    simp only [hpath, false_or]
    rfl

theorem quote_eq_iff (text text' : List Char) :
    Texts.quote pathSafe text = Texts.quote pathSafe text' ↔ text = text' := by
  constructor
  · intro h
    rw [← Texts.unquote_quote percent_notMem_pathSafe text, h,
      Texts.unquote_quote percent_notMem_pathSafe]
  · exact congrArg _

theorem quote_slash : Texts.quote pathSafe ['/'] = ['/'] :=
  Texts.quote_of_safe (by decide) (.inr (by decide))

/-- Slashes are stripped before quoting as after it. -/
theorem stripPath_quote (path : List Char) :
    stripPath (Texts.quote pathSafe path) = Texts.quote pathSafe (stripPath path) := by
  have hdrop : (Texts.quote pathSafe path).rdropWhile (· = '/') =
      Texts.quote pathSafe (path.rdropWhile (· = '/')) :=
    Texts.rdropWhile_quote (by decide) (by decide) (by decide) (by decide) path
  have hone : Texts.quote pathSafe path = ['/'] ↔ path = ['/'] := by
    rw [← quote_slash, quote_eq_iff, quote_slash]
  have hnil : ∀ text, Texts.quote pathSafe text = [] ↔ text = [] := fun text =>
    quote_eq_iff text []
  rw [stripPath_eq, stripPath_eq, hdrop]
  simp only [hone, hnil]
  split
  · rw [quote_slash]
  · rfl

theorem stripPath_ne_nil (path : List Char) : stripPath path ≠ [] := by
  rw [stripPath_eq]
  split
  · simp
  · rename_i h
    exact fun hnil => h (.inr hnil)

@[simp] theorem stripPath_stripPath (path : List Char) :
    stripPath (stripPath path) = stripPath path := by
  rw [stripPath_eq path]
  split
  · rfl
  · rename_i h
    rw [stripPath_eq, List.rdropWhile_idempotent]
    refine if_neg ?_
    rintro (hone | hnil)
    · have hlast := List.rdropWhile_idempotent (· = '/') path
      rw [hone] at hlast
      cases hlast
    · exact h (.inr hnil)

/-- A path keeps its root. -/
theorem head?_stripPath {path : List Char} (h : path.head? = some '/') :
    (stripPath path).head? = some '/' := by
  rw [stripPath_eq]
  split
  · rfl
  · rename_i hne
    obtain ⟨rest, hrest⟩ := List.rdropWhile_prefix (· = '/') (l := path)
    obtain ⟨c, bare, hbare⟩ := List.exists_cons_of_ne_nil fun hnil => hne (.inr hnil)
    rw [hbare] at hrest ⊢
    rw [← hrest] at h
    exact h

theorem pageOf_scheme (base : UrlLib) (parts : SplitParts) (port : Option Nat) :
    (let scheme := if base.lower parts.scheme = [] then "https".toList else base.lower parts.scheme
      if scheme = "http".toList then "https".toList else scheme) =
      (pageOf base parts port).scheme := by
  simp only [pageOf]
  by_cases hnil : base.lower parts.scheme = []
  · rw [if_pos hnil, if_pos (Or.inl hnil), if_neg (by decide)]
  · simp only [hnil, false_or, if_false]

theorem pageOf_netloc (base : UrlLib) (parts : SplitParts) (port : Option Nat) :
    (match port with
      | none | some 80 | some 443 => (pageOf base parts port).host
      | some port => (pageOf base parts port).host ++ ':' :: strOf port) =
      (pageOf base parts port).netloc := by
  unfold Page.netloc
  split
  · rfl
  · rfl
  · rfl
  · rename_i n h80 h443
    have hkept : (pageOf base parts (some n)).port = some n := by
      have h : n ≠ 80 ∧ n ≠ 443 := ⟨fun h => h80 (h ▸ rfl), fun h => h443 (h ▸ rfl)⟩
      simp [pageOf, h.1, h.2]
    rw [hkept]

/-- **The canonical form** is the page of the URL, written. -/
theorem canonicalUrl_eq (base : UrlLib) (checks : UrlChecks) (url : List Char) :
    (urllib base checks).canonicalUrl url = (page base checks url).map Page.write := by
  unfold LinkLib.canonicalUrl page
  simp only [urllib]
  cases urlsplit base.lower checks (strip url) with
  | none => rfl
  | some parts =>
    simp only [Option.bind_eq_bind, Option.bind_some]
    cases parts.port with
    | none => rfl
    | some port =>
      simp only [Option.bind_some, Option.map_some]
      rw [Page.write, stripPath_quote, ← pageOf_scheme, ← pageOf_netloc]
      rfl

/-! ## Pages that read back -/

/-- A letter that may stand in a host, once the URL was split. -/
def nameLetter (checks : UrlChecks) (c : Char) : Bool :=
  c ∉ ['\t', '\r', '\n', '/', '?', '#', '@', ':', '[', ']'] ∧ checks.expands c = false

/-- `str.lower`: ASCII as ever, and otherwise letters that are in lower case for good. -/
structure Lowers (lower : List Char → List Char) (checks : UrlChecks) : Prop where
  ascii : ∀ text, (∀ c ∈ text, c.toNat < 128) → lower text = text.map Char.toLower
  fixed : ∀ text, ∀ c ∈ lower text, lower [c] = [c]
  stays : ∀ text, (∀ c ∈ text, lower [c] = [c]) → lower text = text
  letters : ∀ text, ∀ c ∈ lower text, c ∈ text ∨ nameLetter checks c = true

/-- A page that has one way to be written. -/
structure Page.Proper (lower : List Char → List Char) (checks : UrlChecks) (p : Page) : Prop where
  scheme : ProperScheme p.scheme
  https : p.scheme ≠ "http".toList
  host_fixed : ∀ c ∈ p.host, lower [c] = [c]
  host_letters : ∀ c ∈ p.host, nameLetter checks c = true
  host_dots : stripDots p.host = p.host
  host_www : ¬ "www.".toList <+: p.host
  port : ∀ n ∈ p.port, n ∉ [80, 443] ∧ n ≤ 65535
  path : stripPath p.path = p.path
  rooted : p.netloc ≠ [] → p.path.head? = some '/'
  query_sorted : p.query.Pairwise fun e e' => pairLe e e' = true
  query_untracked : ∀ e ∈ p.query, untracked e = true

namespace Page.Proper

variable {lower : List Char → List Char} {checks : UrlChecks} {p : Page}

theorem path_ne_nil (h : p.Proper lower checks) : p.path ≠ [] := by
  rw [← h.path]
  exact stripPath_ne_nil _

/-- The letters of the host and the port. -/
theorem mem_netloc (h : p.Proper lower checks) {c : Char} (hc : c ∈ p.netloc) :
    nameLetter checks c = true ∨ c = ':' ∨ c.isDigit = true := by
  unfold Page.netloc at hc
  split at hc
  · exact .inl (h.host_letters c hc)
  · rcases List.mem_append.1 hc with hc | hc
    · exact .inl (h.host_letters c hc)
    · rcases List.mem_cons.1 hc with hc | hc
      · exact .inr (.inl hc)
      · exact .inr (.inr (Nat.isDigit_of_mem_toDigits (by decide) (by decide) hc))

/-- What is in neither is not in the two of them. -/
theorem notMem_netloc (h : p.Proper lower checks) {c : Char} (hname : nameLetter checks c = false)
    (hcolon : c ≠ ':') (hdigit : c.isDigit = false) : c ∉ p.netloc := by
  intro hc
  rcases h.mem_netloc hc with hletter | rfl | hletter
  · exact Bool.false_ne_true (hname.symm.trans hletter)
  · exact hcolon rfl
  · exact Bool.false_ne_true (hdigit.symm.trans hletter)

theorem netlocOk (h : p.Proper lower checks) : netlocOk checks p.netloc = true := by
  have hdigit : ∀ c : Char, c.isDigit = true → c.toNat < 128 := by
    intro c hc
    simp only [Char.isDigit, Bool.and_eq_true, decide_eq_true_eq, UInt32.le_iff_toNat_le] at hc
    exact Nat.lt_of_le_of_lt hc.2 (by decide)
  have hopen : '[' ∉ p.netloc :=
    h.notMem_netloc (by simp [nameLetter]) (by decide) (by decide)
  have hclose : ']' ∉ p.netloc :=
    h.notMem_netloc (by simp [nameLetter]) (by decide) (by decide)
  have hexpands : p.netloc.any checks.expands = false := by
    refine List.any_eq_false.2 fun c hmem => ?_
    rcases h.mem_netloc hmem with hc | rfl | hc
    · exact ne_true_of_eq_false (of_decide_eq_true hc).2
    · exact ne_true_of_eq_false (checks.expands_ascii _ (by decide))
    · exact ne_true_of_eq_false (checks.expands_ascii _ (hdigit c hc))
  simp [Links.netlocOk, hopen, hclose, hexpands]

theorem hostLetters (h : p.Proper lower checks) : p.netloc.all hostLetter = true := by
  refine List.all_eq_true.2 fun c hmem => ?_
  rcases h.mem_netloc hmem with hc | rfl | hc
  · simp only [nameLetter, decide_eq_true_eq, List.mem_cons, not_or] at hc
    simp [hostLetter, hc.1]
  · decide
  · refine decide_eq_true fun hmark => ?_
    simp only [List.mem_cons, List.not_mem_nil, or_false] at hmark
    rcases hmark with rfl | rfl | rfl <;> exact absurd hc (by decide)

theorem clean_netloc (h : p.Proper lower checks) : Clean p.netloc := by
  intro c hmem hspace
  rcases h.mem_netloc hmem with hc | rfl | hc
  · simp only [nameLetter, decide_eq_true_eq] at hc
    exact hc.1 (List.mem_append_left _ hspace)
  · exact absurd hspace (by decide)
  · simp only [List.mem_cons, List.not_mem_nil, or_false] at hspace
    rcases hspace with rfl | rfl | rfl <;> exact absurd hc (by decide)

end Page.Proper

/-- A quoted path has no letter that a split looks for. -/
theorem notMem_quote {c : Char} (hpercent : c ≠ '%') (hsafe : Texts.alwaysSafe c = false)
    (hpath : c ∉ pathSafe) (path : List Char) : c ∉ Texts.quote pathSafe path := by
  intro hmem
  rcases (Texts.mem_quote hmem).2 with h | h | h
  · exact hpercent h
  · exact Bool.false_ne_true (hsafe.symm.trans h)
  · exact hpath h

theorem notMem_urlencode {c : Char} (hmarks : c ∉ ['&', '=', '%', '+'])
    (hsafe : Texts.alwaysSafe c = false) (pairs : List (List Char × List Char)) :
    c ∉ Texts.urlencode pairs := by
  intro hmem
  rcases Texts.mem_urlencode hmem with h | h
  · exact hmarks h
  · exact Bool.false_ne_true (hsafe.symm.trans h)

theorem clean_of_notMem {text : List Char} (htab : '\t' ∉ text) (hreturn : '\r' ∉ text)
    (hline : '\n' ∉ text) : Clean text := by
  intro c hc hmem
  simp only [List.mem_cons, List.not_mem_nil, or_false] at hmem
  rcases hmem with rfl | rfl | rfl
  · exact htab hc
  · exact hreturn hc
  · exact hline hc

theorem head?_quote {path : List Char} (h : path.head? = some '/') :
    (Texts.quote pathSafe path).head? = some '/' := by
  cases path with
  | nil => cases h
  | cons c path =>
    obtain rfl : c = '/' := Option.some.inj h
    rw [← List.singleton_append, Texts.quote_append, quote_slash]
    rfl

/-- The parts of a page are put together so that they are found again. -/
theorem Page.Proper.parts {lower : List Char → List Char} {checks : UrlChecks} {p : Page}
    (h : p.Proper lower checks) :
    ProperParts checks p.scheme p.netloc (Texts.quote pathSafe p.path)
      (Texts.urlencode p.query) where
  proper_scheme := h.scheme
  clean_netloc := h.clean_netloc
  clean_path := clean_of_notMem (notMem_quote (by decide) (by decide) (by decide) _)
    (notMem_quote (by decide) (by decide) (by decide) _)
    (notMem_quote (by decide) (by decide) (by decide) _)
  clean_query := clean_of_notMem (notMem_urlencode (by decide) (by decide) _)
    (notMem_urlencode (by decide) (by decide) _) (notMem_urlencode (by decide) (by decide) _)
  host_letters := h.hostLetters
  checked := h.netlocOk
  path_ne_nil hnil := h.path_ne_nil ((quote_eq_iff p.path []).1 hnil)
  rooted hne := head?_quote (h.rooted hne)
  no_mark := notMem_quote (by decide) (by decide) (by decide) _
  no_hash hmem := (List.mem_append.1 hmem).elim
    (notMem_quote (by decide) (by decide) (by decide) _)
    (notMem_urlencode (by decide) (by decide) _)

theorem suffix_unsplitPath (scheme netloc path : List Char) :
    path <:+ unsplitPath scheme netloc path := by
  unfold unsplitPath
  split
  · split
    · exact List.suffix_append _ _
    · exact (List.suffix_cons _ _).trans (List.suffix_append _ _)
  · split
    · exact (List.suffix_cons _ _).trans (List.suffix_cons _ _)
    · exact List.suffix_rfl

/-- A text that starts and ends in no white space. -/
theorem strip_of_edges {c : Char} {text more : List Char} (hc : isSpace c = false)
    (hhead : text.head? = some c) (hne : more ≠ []) (hmore : ∀ d ∈ more, isSpace d = false)
    (hsuffix : more <:+ text) : strip text = text := by
  have hleft : text.dropWhile isSpace = text := by
    cases text with
    | nil => cases hhead
    | cons d text =>
      obtain rfl : d = c := Option.some.inj hhead
      exact List.dropWhile_cons_of_neg (ne_true_of_eq_false hc)
  have hright : text.rdropWhile isSpace = text := by
    refine List.rdropWhile_eq_self_iff.2 fun htext => ?_
    obtain ⟨before, rfl⟩ := hsuffix
    rw [List.getLast_append_of_ne_nil _ hne]
    exact ne_true_of_eq_false (hmore _ (List.getLast_mem hne))
  unfold strip
  rw [hleft]
  exact hright

theorem isSpace_of_schemeLetter {c : Char} (h : schemeLetter c = true) : isSpace c = false :=
  not_isSpace_of (by decide +kernel) h

theorem isSpace_of_quoted {c : Char} (h : c ∈ ['&', '=', '%', '+', '?'] ∨
    Texts.alwaysSafe c = true ∨ c ∈ pathSafe) : isSpace c = false := by
  rcases h with h | h | h
  · exact not_isSpace_of_all (by decide +kernel) c h
  · exact not_isSpace_of (by decide +kernel) h
  · exact not_isSpace_of_all (by decide +kernel) c h

/-- What was written has no white space around it. -/
theorem strip_write {lower : List Char → List Char} {checks : UrlChecks} {p : Page}
    (h : p.Proper lower checks) : strip p.write = p.write := by
  have hstarts := h.scheme.starts
  have hwrite := unsplit_eq h.parts
  obtain ⟨c, scheme, hscheme⟩ : ∃ c scheme, p.scheme = c :: scheme := by
    cases hp : p.scheme with
    | nil =>
      rw [hp] at hstarts
      cases hstarts
    | cons c scheme => exact ⟨c, scheme, rfl⟩
  have hc : schemeLetter c = true :=
    List.all_eq_true.1 h.scheme.letters c (hscheme ▸ List.mem_cons_self)
  refine strip_of_edges (isSpace_of_schemeLetter hc) ?_
    (List.append_ne_nil_of_left_ne_nil h.parts.path_ne_nil
      (if Texts.urlencode p.query = [] then [] else '?' :: Texts.urlencode p.query)) ?_ ?_
  · rw [Page.write, hwrite, hscheme]
    rfl
  · intro d hd
    refine isSpace_of_quoted ?_
    rcases List.mem_append.1 hd with hd | hd
    · rcases (Texts.mem_quote hd).2 with rfl | hsafe | hpath
      · exact .inl (by decide)
      · exact .inr (.inl hsafe)
      · exact .inr (.inr hpath)
    · split at hd
      · cases hd
      · rcases List.mem_cons.1 hd with rfl | hd
        · exact .inl (by decide)
        · rcases Texts.mem_urlencode hd with hmark | hsafe
          · exact .inl (List.mem_append_left ['?'] hmark)
          · exact .inr (.inl hsafe)
  · rw [Page.write, hwrite]
    obtain ⟨before, hbefore⟩ := suffix_unsplitPath p.scheme p.netloc (Texts.quote pathSafe p.path)
    refine ⟨p.scheme ++ ':' :: before, ?_⟩
    rw [← hbefore]
    simp

section

variable {base : UrlLib} {checks : UrlChecks} {p : Page}

theorem colon_notMem_host (h : p.Proper base.lower checks) : ':' ∉ p.host := fun hmem => by
  simpa [nameLetter] using h.host_letters _ hmem

theorem hostPort_netloc (h : p.Proper base.lower checks) :
    hostPort (hostInfo p.netloc) = (p.host, (p.port.map strOf).getD []) := by
  have hat : '@' ∉ p.netloc :=
    h.notMem_netloc (by simp [nameLetter]) (by decide) (by decide)
  have hopen : '[' ∉ p.netloc :=
    h.notMem_netloc (by simp [nameLetter]) (by decide) (by decide)
  have hinfo : hostInfo p.netloc = p.netloc := by
    rw [hostInfo, (cut_of_notMem (List.mem_reverse.not.2 hat)).1, List.reverse_reverse]
  rw [hinfo, hostPort, if_neg hopen, Page.netloc]
  cases p.port with
  | none =>
    rw [(cut_of_notMem (colon_notMem_host h)).1, (cut_of_notMem (colon_notMem_host h)).2]
    rfl
  | some n =>
    simp only
    rw [(cut_append _ (colon_notMem_host h)).1, (cut_append _ (colon_notMem_host h)).2]
    rfl

theorem portOf_strOf {n : Nat} (h : n ≤ 65535) : portOf (strOf n) = some (some n) := by
  have hdigits : (strOf n).all Char.isDigit = true :=
    List.all_eq_true.2 fun c hc => Nat.isDigit_of_mem_toDigits (by decide) (by decide) hc
  have hlength : (strOf n).length ≤ 5 :=
    (Nat.length_toDigits_le_iff (by decide) (by decide)).2 (by omega)
  rw [portOf, if_neg (strOf_ne_nil n), if_pos, intOf_strOf]
  rw [intOf_strOf]
  exact ⟨hdigits, hlength.trans (by decide), h⟩

theorem portOf_port (h : p.Proper base.lower checks) :
    portOf ((p.port.map strOf).getD []) = some p.port := by
  cases hport : p.port with
  | none => rfl
  | some n => exact portOf_strOf (h.port n (hport ▸ rfl)).2

/-- A host in lower case stays as it is. -/
theorem lower_hostname (hlower : Lowers base.lower checks) (h : p.Proper base.lower checks) :
    base.lower ((hostname base.lower p.host).getD []) = p.host := by
  have hhost : (hostname base.lower p.host).getD [] = p.host := by
    unfold hostname
    split
    · rename_i hnil
      exact hnil.symm
    · rw [Option.getD_some, hlower.stays _ fun c hc =>
        h.host_fixed c ((List.takeWhile_sublist _).subset hc), List.takeWhile_append_dropWhile]
  rw [hhost, hlower.stays _ h.host_fixed]

/-- **Reading back** a page. -/
theorem page_write (hlower : Lowers base.lower checks) (h : p.Proper base.lower checks) :
    page base checks p.write = some p := by
  have hscheme : base.lower p.scheme = p.scheme := by
    rw [hlower.ascii _ fun c hc => toNat_of_schemeLetter (List.all_eq_true.1 h.scheme.letters c hc)]
    exact h.scheme.lower
  have hne : p.scheme ≠ [] := by
    intro hnil
    have hstarts := h.scheme.starts
    rw [hnil] at hstarts
    cases hstarts
  have hport : p.port.filter (· ∉ [80, 443]) = p.port := by
    cases hp : p.port with
    | none => rfl
    | some n => exact Option.filter_some_pos (decide_eq_true (h.port n (hp ▸ rfl)).1)
  rw [page, strip_write h, Page.write, urlsplit_unsplit _ h.parts, Option.bind_some]
  simp only [partsOf, hostPort_netloc h, portOf_port h, Option.map_some, pageOf]
  rw [hscheme, lower_hostname hlower h, h.host_dots, withoutWww, if_neg h.host_www, hport,
    if_neg h.parts.path_ne_nil, Texts.unquote_quote percent_notMem_pathSafe, h.path,
    Texts.parseQsl_urlencode, List.filter_eq_self.2 h.query_untracked,
    List.mergeSort_of_pairwise h.query_sorted, if_neg (not_or.2 ⟨hne, h.https⟩)]

end

/-! ## The page of a URL -/

section

variable {base : UrlLib} {checks : UrlChecks} {url : List Char}

theorem stripDots_eq (host : List Char) : stripDots host = host.rdropWhile (· = '.') := rfl

theorem withoutWww_suffix (host : List Char) : withoutWww host <:+ host := by
  unfold withoutWww
  split
  · exact List.drop_suffix 4 host
  · exact List.suffix_rfl

/-- What is left of a host without dots at its end has none. -/
theorem stripDots_withoutWww (host : List Char) :
    stripDots (withoutWww (stripDots host)) = withoutWww (stripDots host) := by
  have hstripped : (stripDots host).rdropWhile (· = '.') = stripDots host :=
    List.rdropWhile_idempotent _ _
  obtain ⟨before, hbefore⟩ := withoutWww_suffix (stripDots host)
  rw [stripDots_eq, List.rdropWhile_eq_self_iff]
  intro hne
  rw [← hbefore, List.rdropWhile_eq_self_iff] at hstripped
  have hlast := hstripped (List.append_ne_nil_of_right_ne_nil before hne)
  rwa [List.getLast_append_of_ne_nil _ hne] at hlast

/-- A URL whose host has no brackets, and not `www.` twice. -/
def Plain (base : UrlLib) (checks : UrlChecks) (url : List Char) : Prop :=
  ∀ parts ∈ urlsplit base.lower checks (strip url), '[' ∉ parts.netloc ∧
    ¬ "www.".toList <+: withoutWww (stripDots (base.lower (parts.hostname.getD [])))

instance : Decidable (Plain base checks url) :=
  inferInstanceAs (Decidable (∀ parts ∈ urlsplit base.lower checks (strip url), _))

theorem pairLe_iff (a b : List Char × List Char) : pairLe a b = true ↔ toLex a ≤ toLex b := by
  rw [Prod.Lex.toLex_le_toLex]
  simp [pairLe]

theorem pairwise_mergeSort_pairLe (pairs : List (List Char × List Char)) :
    (pairs.mergeSort pairLe).Pairwise fun e e' => pairLe e e' = true := by
  refine List.pairwise_mergeSort (fun a b c => ?_) (fun a b => ?_) pairs
  · simp only [pairLe_iff]
    exact le_trans
  · rw [Bool.or_eq_true, pairLe_iff, pairLe_iff]
    exact le_total _ _

/-- The letters of the host that is split off, as they are in lower case. -/
theorem nameLetter_of_hostname (hlower : Lowers base.lower checks) {netloc : List Char}
    (hclean : Clean netloc) (hletters : netloc.all hostLetter = true)
    (hok : netlocOk checks netloc = true) (hopen : '[' ∉ netloc) :
    ∀ c ∈ base.lower ((hostname base.lower (hostPort (hostInfo netloc)).1).getD []),
      nameLetter checks c = true := by
  have hinfo : ∀ c ∈ hostInfo netloc, c ∈ netloc ∧ c ≠ '@' := by
    intro c hc
    rw [hostInfo, List.mem_reverse] at hc
    exact ⟨List.mem_reverse.1 ((List.takeWhile_sublist _).subset hc),
      by simpa using List.mem_takeWhile_imp hc⟩
  have hname : ∀ c ∈ (hostPort (hostInfo netloc)).1, nameLetter checks c = true := by
    intro c hc
    rw [hostPort, if_neg fun hmem => hopen (hinfo _ hmem).1] at hc
    obtain ⟨hmem, hat⟩ := hinfo c ((List.takeWhile_sublist _).subset hc)
    have hcolon : c ≠ ':' := by simpa using List.mem_takeWhile_imp hc
    have hhost := List.all_eq_true.1 hletters c hmem
    have hspace := hclean c hmem
    simp only [netlocOk, Bool.decide_and, Bool.and_eq_true, decide_eq_true_eq] at hok
    have hclose : c ≠ ']' := by
      rintro rfl
      exact hopen (hok.1.2 hmem)
    have hopen' : c ≠ '[' := by
      rintro rfl
      exact hopen hmem
    have hexpands : checks.expands c = false := by
      have hany := hok.2.2
      rw [Bool.not_eq_true', List.any_eq_false] at hany
      simpa using hany c hmem
    simp only [hostLetter, decide_eq_true_eq, List.mem_cons, List.not_mem_nil, or_false,
      not_or] at hhost hspace
    simp [nameLetter, hat, hcolon, hhost, hspace, hclose, hopen', hexpands]
  have hkeeps : ∀ text, (∀ c ∈ text, nameLetter checks c = true) →
      ∀ c ∈ base.lower text, nameLetter checks c = true :=
    fun text htext c hc => (hlower.letters text c hc).elim (htext c) id
  refine hkeeps _ fun c hc => ?_
  unfold hostname at hc
  split at hc
  · cases hc
  · rcases List.mem_append.1 hc with hc | hc
    · exact hkeeps _ (fun d hd => hname d ((List.takeWhile_sublist _).subset hd)) c hc
    · exact hname c ((List.dropWhile_sublist _).subset hc)

theorem head?_decodeUtf8 (bytes : List UInt8) :
    (Texts.decodeUtf8 (0x2f :: bytes)).head? = some '/' := by
  have hdecode : (0x2f :: bytes).toByteArray.utf8DecodeChar? 0 = some '/' := by
    have happend : (0x2f :: bytes : List UInt8) = String.utf8EncodeChar '/' ++ bytes := rfl
    rw [happend, List.toByteArray_append]
    exact ByteArray.utf8DecodeChar?_utf8EncodeChar_append
  rw [Texts.decodeUtf8, List.length_cons, Texts.decodeFrom]
  · rw [hdecode]
    rfl
  · exact List.cons_ne_nil _ _

/-- A path that starts at the root still does when its letters are read. -/
theorem head?_unquote {path : List Char} (h : path.head? = some '/') :
    (Texts.unquote path).head? = some '/' := by
  have hrun : ∀ run, (Texts.decodeUtf8 (Texts.unquoteBytes ('/' :: run))).head? = some '/' := by
    intro run
    rw [Texts.unquoteBytes_cons (by decide)]
    exact head?_decodeUtf8 _
  have hfrom : ∀ (text run : List Char),
      (Texts.unquoteFrom ('/' :: run) text).head? = some '/' := by
    intro text
    induction text with
    | nil => exact hrun
    | cons c text ih =>
      intro run
      rw [Texts.unquoteFrom]
      split
      · exact ih (run ++ [c])
      · rw [List.head?_append, hrun run]
        rfl
  cases path with
  | nil => cases h
  | cons c path =>
    obtain rfl : c = '/' := Option.some.inj h
    rw [Texts.unquote, Texts.unquoteFrom, if_pos (by decide)]
    exact hfrom path []

theorem le_of_portOf {digits : List Char} {n : Nat} (h : portOf digits = some (some n)) :
    n ≤ 65535 := by
  unfold portOf at h
  split at h
  · cases h
  · split at h
    · rename_i hport
      cases h
      exact hport.2.2
    · cases h

theorem lower_scheme (hlower : Lowers base.lower checks) {scheme : List Char}
    (h : scheme = [] ∨ ProperScheme scheme) : base.lower scheme = scheme := by
  rcases h with rfl | h
  · exact hlower.ascii [] fun c hc => absurd hc List.not_mem_nil
  · rw [hlower.ascii _ fun c hc => toNat_of_schemeLetter (List.all_eq_true.1 h.letters c hc)]
    exact h.lower

theorem properScheme_https : ProperScheme "https".toList := ⟨by decide, by decide, by decide⟩

/-- A URL without a host names none. -/
theorem netloc_pageOf_nil (hlower : Lowers base.lower checks) (scheme path query : List Char)
    {port : Option Nat} (hport : (partsOf base.lower scheme [] path query).port = some port) :
    (pageOf base (partsOf base.lower scheme [] path query) port).netloc = [] := by
  obtain rfl : none = port := Option.some.inj hport
  have hnil : base.lower [] = [] := lower_scheme hlower (.inl rfl)
  change withoutWww (stripDots (base.lower [])) = []
  rw [hnil]
  rfl

/-- **The page of a URL** is one that reads back. -/
theorem proper_of_page (hlower : Lowers base.lower checks) (hplain : Plain base checks url)
    {p : Page} (h : page base checks url = some p) : p.Proper base.lower checks := by
  obtain ⟨parts, hparts, hp⟩ := Option.bind_eq_some_iff.1 h
  obtain ⟨port, hport, rfl⟩ := Option.map_eq_some_iff.1 hp
  obtain ⟨hopen, hwww⟩ := hplain parts hparts
  obtain ⟨scheme, netloc, path, query, rfl, hfound⟩ := urlsplit_eq_some hparts
  have hname := nameLetter_of_hostname hlower hfound.clean_netloc hfound.host_letters
    hfound.checked hopen
  have hfixed := hlower.fixed
    ((hostname base.lower (hostPort (hostInfo netloc)).1).getD [])
  have hsub : ∀ c ∈ withoutWww (stripDots (base.lower
      ((hostname base.lower (hostPort (hostInfo netloc)).1).getD []))),
      c ∈ base.lower ((hostname base.lower (hostPort (hostInfo netloc)).1).getD []) :=
    fun c hc =>
      (List.rdropWhile_prefix _ _).sublist.subset ((withoutWww_suffix _).sublist.subset hc)
  constructor
  · simp only [pageOf, partsOf, lower_scheme hlower hfound.scheme]
    split
    · exact properScheme_https
    · rename_i hscheme
      exact hfound.scheme.resolve_left fun hnil => hscheme (.inl hnil)
  · simp only [pageOf]
    split
    · decide
    · rename_i hscheme
      exact fun hhttp => hscheme (.inr hhttp)
  · exact fun c hc => hfixed c (hsub c hc)
  · exact fun c hc => hname c (hsub c hc)
  · exact stripDots_withoutWww _
  · exact hwww
  · intro n hn
    obtain ⟨rfl, hother⟩ := Option.filter_eq_some_iff.1 hn
    exact ⟨of_decide_eq_true hother, le_of_portOf hport⟩
  · exact stripPath_stripPath _
  · intro hne
    have hnetloc : netloc ≠ [] := by
      rintro rfl
      exact hne (netloc_pageOf_nil hlower scheme path query hport)
    refine head?_stripPath (head?_unquote ?_)
    by_cases hpath : path = []
    · simp [partsOf, hpath]
    · simpa [partsOf, hpath] using (hfound.rooted hnetloc).resolve_left hpath
  · exact pairwise_mergeSort_pairLe _
  · intro e he
    exact (List.mem_filter.1 ((List.mergeSort_perm _ _).subset he)).2

end

/-- The lower case of ASCII. -/
def asciiUrls : UrlLib where
  classification :=
    { isLoopback := fun _ => false, isUnspecified := fun _ => false, isLinkLocal := fun _ => false
      isMulticast := fun _ => false, isGlobal := fun _ => true }
  lower text := text.map Char.toLower
  idna := some
  ipv6Address _ := none
  ipAddress _ := none
  str _ := []
  urlsplit _ := none
  urlunsplit path _ := path

/-- A host of ASCII letters has nothing to be checked for. -/
def asciiChecks : UrlChecks where
  bracketed _ := false
  expands _ := false
  expands_ascii _ _ := rfl

theorem nameLetter_toLower {c : Char} (hc : c.toLower ≠ c) :
    nameLetter asciiChecks c.toLower = true := by
  have hupper : c.isUpper = true := by
    by_contra hlower
    exact hc (Char.toLower_eq_of_not_isUpper hlower)
  have halpha : c.toLower.isAlpha = true := by
    rw [Char.isAlpha_toLower_eq_isAlpha, Char.isAlpha, hupper, Bool.true_or]
  refine decide_eq_true ⟨fun hmem => ?_, rfl⟩
  simp only [List.mem_cons, List.not_mem_nil, or_false] at hmem
  rcases hmem with h | h | h | h | h | h | h | h | h | h <;>
    exact absurd (h ▸ halpha) (by decide)

theorem lowers_asciiUrls : Lowers asciiUrls.lower asciiChecks where
  ascii _ _ := rfl
  fixed text c hc := by
    obtain ⟨d, -, rfl⟩ := List.mem_map.1 hc
    simp [asciiUrls]
  stays text htext := by
    refine (List.map_congr_left fun c hc => ?_).trans (List.map_id text)
    exact (List.cons.inj (htext c hc)).1
  letters text c hc := by
    obtain ⟨d, hd, rfl⟩ := List.mem_map.1 hc
    by_cases h : d.toLower = d
    · exact .inl (h.symm ▸ hd)
    · exact .inr (nameLetter_toLower h)

theorem plain_example : Plain asciiUrls asciiChecks "http://www.example.com/".toList := by
  decide +kernel

end Links
end SecondMind
