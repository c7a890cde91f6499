import SecondMind.Links.Urls

/-!
# What escapes from the checks of a URL

`parse_url` turns what the standard library raises into refusals, except where it builds the
address of a spelling: `IPv4Address` does not take a number below 0, and a part of a spelling may
have a sign.

* `spelledValue` — the number that a spelling comes to;
* `spelledValue_lt` — it is never too large, so only its sign can be wrong;
* `parseUrl_declared_iff` — a URL is parsed or refused, unless its host comes to a number below 0.
-/

namespace SecondMind
namespace Links

/-! ## Numbers with dots -/

/-- The parts, all but the last of which are one byte each. -/
def spelledSum (last : Int) (bytes : List Int) : Int :=
  bytes.zipIdx.foldl (fun address n => address + n.1 * 256 ^ (3 - n.2)) last

/-- The number that a host of dotted numbers comes to, if it is the spelling of an address. -/
def spelledValue (host : List Char) : Option Int :=
  let parts := splitOn '.' (stripDots host)
  if 4 < parts.length then none
  else
    (parts.mapM parseIpv4Part).bind fun values =>
      let last := values.getLastD 0
      if values.dropLast.any (255 < ·) ∨ 256 ^ (5 - values.length) ≤ last then none
      else some (spelledSum last values.dropLast)

/-- Bytes from a place on do not reach the next higher place. -/
theorem spelledSum_lt {last : Int} {bytes : List Int} (hbytes : ∀ n ∈ bytes, n ≤ 255)
    (hlen : bytes.length ≤ 3) (hlast : last < 256 ^ (4 - bytes.length)) :
    spelledSum last bytes < 2 ^ 32 := by
  match bytes, hbytes, hlen, hlast with
  | [], _, _, hlast =>
    simp only [spelledSum, List.zipIdx_nil, List.foldl_nil]
    simpa using hlast
  | [a], hbytes, _, hlast =>
    have ha := hbytes a (by simp)
    simp only [spelledSum, List.zipIdx_cons, List.zipIdx_nil, List.foldl_cons, List.foldl_nil]
    simp only [List.length_cons, List.length_nil] at hlast
    omega
  | [a, b], hbytes, _, hlast =>
    have ha := hbytes a (by simp)
    have hb := hbytes b (by simp)
    simp only [spelledSum, List.zipIdx_cons, List.zipIdx_nil, List.foldl_cons, List.foldl_nil]
    simp only [List.length_cons, List.length_nil] at hlast
    omega
  | [a, b, c], hbytes, _, hlast =>
    have ha := hbytes a (by simp)
    have hb := hbytes b (by simp)
    have hc := hbytes c (by simp)
    simp only [spelledSum, List.zipIdx_cons, List.zipIdx_nil, List.foldl_cons, List.foldl_nil]
    simp only [List.length_cons, List.length_nil] at hlast
    omega

theorem length_of_mapM {α β : Type} {f : α → Option β} {as : List α} {bs : List β}
    (h : as.mapM f = some bs) : bs.length = as.length := by
  induction as generalizing bs with
  | nil =>
    cases h
    rfl
  | cons a as ih =>
    rw [List.mapM_cons] at h
    obtain ⟨b, -, h⟩ := Option.bind_eq_some_iff.1 h
    obtain ⟨bs', hbs', h⟩ := Option.bind_eq_some_iff.1 h
    cases h
    rw [List.length_cons, List.length_cons, ih hbs']

theorem splitOn_ne_nil (c : Char) (text : List Char) : splitOn c text ≠ [] :=
  List.splitOnP_ne_nil _ text

theorem spelledValue_lt {host : List Char} {value : Int} (h : spelledValue host = some value) :
    value < 2 ^ 32 := by
  unfold spelledValue at h
  dsimp only at h
  split at h
  · exact nomatch h
  rename_i hparts
  obtain ⟨values, hvalues, h⟩ := Option.bind_eq_some_iff.1 h
  split at h
  · exact nomatch h
  rename_i hfits
  cases h
  obtain ⟨hbytes, hlast⟩ := not_or.1 hfits
  have hlen := length_of_mapM hvalues
  have hpos : 0 < values.length := by
    rw [hlen]
    exact List.length_pos_iff.2 (splitOn_ne_nil _ _)
  have hfive : 5 - values.length = 4 - values.dropLast.length := by
    rw [List.length_dropLast]
    omega
  refine spelledSum_lt (fun n hn => ?_) ?_ ?_
  · by_contra hlarge
    refine hbytes (List.any_eq_true.2 ⟨n, hn, decide_eq_true ?_⟩)
    omega
  · rw [List.length_dropLast]
    omega
  · rw [← hfive]
    omega

/-- **The address of a spelling**: there is one, or the number is below 0. -/
theorem parseIpv4Spelling_eq (host : List Char) :
    parseIpv4Spelling host =
      match spelledValue host with
      | none => .ok none
      | some value => if 0 ≤ value then .ok (some (.v4 (BitVec.ofInt 32 value))) else .error () := by
  have hlt : ∀ value, spelledValue host = some value → value < 2 ^ 32 := fun value =>
    spelledValue_lt
  unfold parseIpv4Spelling
  unfold spelledValue at hlt ⊢
  dsimp only at hlt ⊢
  by_cases hparts : 4 < (splitOn '.' (stripDots host)).length
  · rw [if_pos hparts, if_pos hparts]
  · rw [if_neg hparts] at hlt ⊢
    rw [if_neg hparts]
    cases hvalues : (splitOn '.' (stripDots host)).mapM parseIpv4Part with
    | none => rfl
    | some values =>
      rw [hvalues, Option.bind_some] at hlt
      rw [Option.bind_some]
      by_cases hfits : values.dropLast.any (255 < ·) ∨ 256 ^ (5 - values.length) ≤ values.getLastD 0
      · rw [if_pos hfits]
        dsimp only
        rw [if_pos hfits]
      · rw [if_neg hfits] at hlt ⊢
        dsimp only
        rw [if_neg hfits]
        have hvalue := hlt _ rfl
        show (if 0 ≤ spelledSum _ _ ∧ spelledSum _ _ < 2 ^ 32 then _ else _) = _
        by_cases hsign : 0 ≤ spelledSum (values.getLastD 0) values.dropLast
        · rw [if_pos ⟨hsign, hvalue⟩]
          exact (if_pos hsign).symm
        · rw [if_neg fun h => hsign h.1]
          exact (if_neg hsign).symm

/-- The spelling of a number below 0. -/
def SpelledNegative (host : List Char) : Prop := ∃ value ∈ spelledValue host, value < 0

theorem parseIpv4Spelling_eq_error_iff {host : List Char} :
    parseIpv4Spelling host = .error () ↔ SpelledNegative host := by
  rw [parseIpv4Spelling_eq, SpelledNegative]
  cases spelledValue host with
  | none => simp
  | some value =>
    by_cases h : 0 ≤ value
    · simp [h]
    · simp [h, Int.not_le.1 h]

/-! ## What is checked before -/

section

variable {lib : UrlLib} {allowHosts : List (List Char)} {url hostname : List Char}

/-- The checks before the host come to a host. -/
structure ReadsHost (lib : UrlLib) (allowHosts : List (List Char)) (url hostname : List Char) :
    Prop where
  short : url.length ≤ maxUrlChars
  printable : (url.any fun c => c.toNat < 0x20 ∨ c.toNat = 0x7f) = false
  parts : ∃ parts, lib.urlsplit (strip url) = some parts ∧
    (lib.lower parts.scheme = "http".toList ∨ lib.lower parts.scheme = "https".toList) ∧
    (parts.username = none ∧ parts.password = none ∧ '@' ∉ parts.netloc) ∧
    parts.hostname = some hostname ∧
    (lib.lower hostname ∈ allowHosts ∨ ∀ port ∈ parts.port, port = 80 ∨ port = 443)
  nonempty : hostname ≠ []

/-- The host is read as the spelling of an address. -/
def ReadsSpelling (lib : UrlLib) (allowHosts : List (List Char)) (hostname : List Char) : Prop :=
  lib.lower hostname ∈ allowHosts ∨ '%' ∉ lib.lower hostname ∧ ':' ∉ lib.lower hostname

/-- What is declared: a result or a refusal. -/
def Declared {α : Type} (r : Except FetchError α) : Prop :=
  (∃ a, r = .ok a) ∨ ∃ rule message detail, r = .error (.refused rule message detail)

theorem declared_refuse {α : Type} (rule message : String) :
    Declared (refuse rule message : Except FetchError α) :=
  .inr ⟨rule, message, [], rfl⟩

theorem hostOfLiteral_declared (literal : Address) : Declared (hostOfLiteral lib literal) := by
  unfold hostOfLiteral
  split
  · exact declared_refuse _ _
  · exact .inl ⟨_, rfl⟩

theorem asciiName_declared (host : List Char) : Declared (asciiName lib host) := by
  unfold asciiName
  split
  · exact declared_refuse _ _
  · dsimp only
    split
    · exact declared_refuse _ _
    · split
      · exact declared_refuse _ _
      · exact .inl ⟨_, rfl⟩

theorem Declared.map_iff {α β : Type} {f : α → β} {r : Except FetchError α} :
    Declared (r.map f) ↔ Declared r := by
  cases r with
  | ok a => exact iff_of_true (.inl ⟨f a, rfl⟩) (.inl ⟨a, rfl⟩)
  | error e =>
    constructor
    · rintro (⟨b, h⟩ | ⟨rule, message, detail, h⟩)
      · exact nomatch h
      · cases h
        exact .inr ⟨rule, message, detail, rfl⟩
    · rintro (⟨a, h⟩ | ⟨rule, message, detail, h⟩)
      · exact nomatch h
      · cases h
        exact .inr ⟨rule, message, detail, rfl⟩

theorem not_declared_uncaught {α : Type} : ¬ Declared (.error .uncaught : Except FetchError α) := by
  rintro (⟨a, h⟩ | ⟨rule, message, detail, h⟩)
  · exact nomatch h
  · exact nomatch h

theorem hostOf_declared_iff : Declared (hostOf lib hostname) ↔
    ¬ (('%' ∉ lib.lower hostname ∧ ':' ∉ lib.lower hostname) ∧
      SpelledNegative (lib.lower hostname)) := by
  rw [← parseIpv4Spelling_eq_error_iff, hostOf]
  by_cases hpercent : '%' ∈ lib.lower hostname
  · rw [if_pos hpercent]
    exact iff_of_true (declared_refuse _ _) fun h => h.1.1 hpercent
  rw [if_neg hpercent]
  by_cases hcolon : ':' ∈ lib.lower hostname
  · rw [if_pos hcolon]
    refine iff_of_true ?_ fun h => h.1.2 hcolon
    split
    · exact declared_refuse _ _
    · exact hostOfLiteral_declared _
  rw [if_neg hcolon]
  cases hspelling : parseIpv4Spelling (lib.lower hostname) with
  | error u => exact iff_of_false not_declared_uncaught fun h => h ⟨⟨hpercent, hcolon⟩, rfl⟩
  | ok literal =>
    refine iff_of_true ?_ fun h => (nomatch h.2)
    cases literal with
    | some literal => exact hostOfLiteral_declared _
    | none =>
      show Declared (if looksNumeric _ = true then _ else _)
      split
      · exact declared_refuse _ _
      · exact Declared.map_iff.2 (asciiName_declared _)

/-- What the host of a URL is read as. -/
def readHost (lib : UrlLib) (allowHosts : List (List Char)) (hostname : List Char) :
    Except FetchError (List Char × Bool) :=
  if lib.lower hostname ∈ allowHosts then
    match parseIpv4Spelling (lib.lower hostname) with
    | .error () => .error .uncaught
    | .ok literal => .ok (lib.lower hostname, literal.isSome)
  else hostOf lib hostname

/-- What follows the reading of the host is put behind each of its branches. -/
theorem readHost_bind (f : List Char × Bool → ParsedUrl) :
    (if lib.lower hostname ∈ allowHosts then
      match parseIpv4Spelling (lib.lower hostname) with
      | .error () => Except.error FetchError.uncaught >>= fun host => .ok (f host)
      | .ok literal => .ok (lib.lower hostname, literal.isSome) >>= fun host => .ok (f host)
    else hostOf lib hostname >>= fun host => .ok (f host)) =
      (readHost lib allowHosts hostname).map f := by
  unfold readHost
  by_cases hallowed : lib.lower hostname ∈ allowHosts
  · rw [if_pos hallowed, if_pos hallowed]
    cases parseIpv4Spelling (lib.lower hostname) with
    | error u => rfl
    | ok literal => rfl
  · rw [if_neg hallowed, if_neg hallowed]
    cases hostOf lib hostname with
    | error e => rfl
    | ok host => rfl

theorem readHost_declared_iff : Declared (readHost lib allowHosts hostname) ↔
    ¬ (ReadsSpelling lib allowHosts hostname ∧ SpelledNegative (lib.lower hostname)) := by
  unfold readHost ReadsSpelling
  by_cases hallowed : lib.lower hostname ∈ allowHosts
  · rw [if_pos hallowed, ← parseIpv4Spelling_eq_error_iff]
    cases parseIpv4Spelling (lib.lower hostname) with
    | error u => exact iff_of_false not_declared_uncaught fun h => h ⟨.inl hallowed, rfl⟩
    | ok literal => exact iff_of_true (.inl ⟨_, rfl⟩) fun h => (nomatch h.2)
  · rw [if_neg hallowed, hostOf_declared_iff, or_iff_right hallowed]

/-- Before its host is looked at, a URL is refused, or it is not. -/
theorem parseUrl_readsHost (lib : UrlLib) (allowHosts : List (List Char)) (url : List Char) :
    ((∃ rule message, parseUrl lib allowHosts url = refuse rule message) ∧
        ∀ hostname, ¬ ReadsHost lib allowHosts url hostname) ∨
      ∃ hostname, ReadsHost lib allowHosts url hostname ∧
        (∀ other, ReadsHost lib allowHosts url other → other = hostname) ∧
        ∃ f : List Char × Bool → ParsedUrl,
          (∀ host, (f host).host = host.1 ∧ (f host).isIpLiteral = host.2) ∧
            parseUrl lib allowHosts url = (readHost lib allowHosts hostname).map f := by
  by_cases hshort : maxUrlChars < url.length
  · left
    refine ⟨?_, fun hostname h => absurd h.short (Nat.not_le.2 hshort)⟩
    rw [parseUrl, if_pos hshort]
    exact ⟨_, _, rfl⟩
  by_cases hprint : (url.any fun c => c.toNat < 0x20 ∨ c.toNat = 0x7f) = true
  · left
    refine ⟨?_, fun hostname h => absurd (h.printable.symm.trans hprint) Bool.false_ne_true⟩
    rw [parseUrl, if_neg hshort, if_pos hprint]
    exact ⟨_, _, rfl⟩
  cases hsplit : lib.urlsplit (strip url) with
  | none =>
    left
    constructor
    · rw [parseUrl, if_neg hshort, if_neg hprint, hsplit]
      exact ⟨_, _, rfl⟩
    · rintro hostname ⟨-, -, ⟨parts, hparts, -⟩, -⟩
      rw [hsplit] at hparts
      exact nomatch hparts
  | some parts =>
    have hof : ∀ hostname, ReadsHost lib allowHosts url hostname →
        (lib.lower parts.scheme = "http".toList ∨ lib.lower parts.scheme = "https".toList) ∧
        (parts.username = none ∧ parts.password = none ∧ '@' ∉ parts.netloc) ∧
        parts.hostname = some hostname ∧
        (lib.lower hostname ∈ allowHosts ∨ ∀ port ∈ parts.port, port = 80 ∨ port = 443) := by
      rintro hostname ⟨-, -, ⟨parts', hparts', h⟩, -⟩
      rw [hsplit] at hparts'
      cases hparts'
      exact h
    rw [parseUrl, if_neg hshort, if_neg hprint, hsplit]
    dsimp only
    by_cases hscheme : lib.lower parts.scheme ≠ "http".toList ∧
        lib.lower parts.scheme ≠ "https".toList
    · left
      rw [if_pos hscheme]
      exact ⟨⟨_, _, rfl⟩, fun hostname h =>
        (hof hostname h).1.elim hscheme.1 hscheme.2⟩
    rw [if_neg hscheme]
    by_cases hcredentials : parts.username ≠ none ∨ parts.password ≠ none ∨ '@' ∈ parts.netloc
    · left
      rw [if_pos hcredentials]
      refine ⟨⟨_, _, rfl⟩, fun hostname h => ?_⟩
      obtain ⟨huser, hpassword, hat⟩ := (hof hostname h).2.1
      rcases hcredentials with h | h | h
      · exact h huser
      · exact h hpassword
      · exact hat h
    rw [if_neg hcredentials]
    cases hname : parts.hostname with
    | none =>
      left
      refine ⟨⟨_, _, rfl⟩, fun hostname h => ?_⟩
      have hsome := (hof hostname h).2.2.1
      rw [hname] at hsome
      exact nomatch hsome
    | some hostname =>
      cases hostname with
      | nil =>
        left
        refine ⟨⟨_, _, rfl⟩, fun hostname h => ?_⟩
        have hsome := (hof hostname h).2.2.1
        rw [hname] at hsome
        cases hsome
        exact h.nonempty rfl
      | cons c cs =>
        dsimp only
        have hsame : ∀ other, ReadsHost lib allowHosts url other → other = c :: cs := by
          intro other h
          have hsome := (hof other h).2.2.1
          rw [hname] at hsome
          exact (Option.some.inj hsome).symm
        by_cases hport : (parts.port.any fun port => port ≠ 80 ∧ port ≠ 443) = true ∧
            ¬ lib.lower (c :: cs) ∈ allowHosts
        · left
          rw [if_pos hport]
          refine ⟨⟨_, _, rfl⟩, fun other h => ?_⟩
          obtain rfl := hsame other h
          rcases (hof _ h).2.2.2 with hallowed | hports
          · exact hport.2 hallowed
          · cases hp : parts.port with
            | none =>
              rw [hp] at hport
              exact Bool.false_ne_true hport.1
            | some port =>
              rw [hp] at hport hports
              have hodd : port ≠ 80 ∧ port ≠ 443 := of_decide_eq_true hport.1
              exact (hports port rfl).elim hodd.1 hodd.2
        · right
          rw [if_neg hport]
          refine ⟨c :: cs, ⟨Nat.not_lt.1 hshort, by simpa using hprint, ⟨parts, hsplit, ?_, ?_,
            hname, ?_⟩, List.cons_ne_nil c cs⟩, hsame, ?_⟩
          · by_contra h
            exact hscheme (not_or.1 h)
          · simpa using hcredentials
          · rw [or_iff_not_imp_left]
            intro hallowed port hmem
            by_contra hodd
            refine hport ⟨?_, hallowed⟩
            rw [hmem]
            exact decide_eq_true (not_or.1 hodd)
          · exact ⟨_, fun host => ⟨rfl, rfl⟩, readHost_bind _⟩

/-- **A URL is parsed or refused**, and nothing else is raised, unless it passes the checks before
its host is read and the host is the spelling of a number below 0. -/
theorem parseUrl_declared_iff (lib : UrlLib) (allowHosts : List (List Char)) (url : List Char) :
    Declared (parseUrl lib allowHosts url) ↔
      ¬ ∃ hostname, ReadsHost lib allowHosts url hostname ∧
        ReadsSpelling lib allowHosts hostname ∧ SpelledNegative (lib.lower hostname) := by
  rcases parseUrl_readsHost lib allowHosts url with ⟨hrefused, hnone⟩ | ⟨hostname, hreads, hsame, h⟩
  · obtain ⟨rule, message, hrefused⟩ := hrefused
    rw [hrefused]
    exact iff_of_true (declared_refuse _ _) fun ⟨hostname, hreads, _⟩ => hnone hostname hreads
  · obtain ⟨f, -, h⟩ := h
    rw [h, Declared.map_iff, readHost_declared_iff, not_iff_not]
    constructor
    · exact fun hnegative => ⟨hostname, hreads, hnegative⟩
    · rintro ⟨other, hother, hnegative⟩
      rw [hsame other hother] at hnegative
      exact hnegative

end

/-! ## A host with a sign -/

/-- The standard library, as far as it is asked about a URL with the host `0.-1`. -/
def signedHost : UrlLib where
  classification :=
    { isLoopback := fun _ => false, isUnspecified := fun _ => false, isLinkLocal := fun _ => false
      isMulticast := fun _ => false, isGlobal := fun _ => true }
  lower := id
  idna := some
  ipv6Address := fun _ => none
  ipAddress := fun _ => none
  str := fun _ => []
  urlsplit := fun url =>
    if url = "http://0.-1/".toList then
      some ⟨"http".toList, "0.-1".toList, "/".toList, [], none, none, some "0.-1".toList, none⟩
    else none
  urlunsplit := fun path _ => path

/-- **A number below 0**: `IPv4Address(-1)` raises what no caller catches. -/
theorem signed_host_escapes : ¬ Declared (parseUrl signedHost [] "http://0.-1/".toList) := by
  have huncaught : parseUrl signedHost [] "http://0.-1/".toList = .error .uncaught := by
    decide +kernel
  rw [huncaught]
  exact not_declared_uncaught

end Links
end SecondMind
