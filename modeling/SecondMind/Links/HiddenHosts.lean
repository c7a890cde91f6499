import SecondMind.Links.UrlErrors

/-!
# Addresses that hide as names

`_host_of` looks for the spelling of an address first, and IDNA maps the host afterwards.  The map
can make the spelling of an address of a text that was none.

* `HidesAddress` — such a host;
* `not_hidesAddress_of_ascii` — a host in ASCII hides nothing;
* `parseUrl_names_iff` — the names that `parse_url` gives are names, unless the host hides an
  address, or is an IPv6 address that is allowed as it is.
-/

namespace SecondMind
namespace Links

section

variable (lib : UrlLib)

/-- A text that the resolver does not take for an address. -/
def IsName (host : List Char) : Prop :=
  parseIpv4Spelling host = .ok none ∧ lib.ipv6Address host = none

/-- What `_ascii_name` asks of the name that IDNA gives. -/
def PlainName (name : List Char) : Prop :=
  name.length ≤ maxHostChars ∧ stripDots name ≠ [] ∧ (stripDots name).all nameChar ∧
    ¬ (stripDots name = "localhost".toList ∨ ".localhost".toList <:+ stripDots name)

/-- No check before IDNA sees an address in the host, and IDNA makes one of it. -/
def HidesAddress (host : List Char) : Prop :=
  ('%' ∉ host ∧ ':' ∉ host) ∧ parseIpv4Spelling host = .ok none ∧ looksNumeric host = false ∧
    ∃ name, lib.idna host = some name ∧ PlainName name ∧ parseIpv4Spelling name ≠ .ok none

variable {lib}

/-- **ASCII hides nothing**: IDNA leaves it as it is. -/
theorem not_hidesAddress_of_ascii {host : List Char}
    (h : ∀ name, lib.idna host = some name → name = host) : ¬ HidesAddress lib host := by
  rintro ⟨-, hspelling, -, name, hname, -, hspelled⟩
  rw [h name hname] at hspelled
  exact hspelled hspelling

/-! ## Names -/

theorem hostOfLiteral_true {literal : Address} {host : List Char} {isLiteral : Bool}
    (h : hostOfLiteral lib literal = .ok (host, isLiteral)) : isLiteral = true := by
  unfold hostOfLiteral at h
  split at h
  · exact nomatch h
  · cases h
    rfl

/-- `_ascii_name` gives the plain names of IDNA. -/
theorem asciiName_eq_ok {host name : List Char} :
    asciiName lib host = .ok name ↔ lib.idna host = some name ∧ PlainName name := by
  unfold asciiName
  cases lib.idna host with
  | none => exact iff_of_false (fun h => nomatch h) fun h => nomatch h.1
  | some made =>
    dsimp only
    by_cases hbad : maxHostChars < made.length ∨ stripDots made = [] ∨
        ¬ ((stripDots made).all nameChar = true)
    · rw [if_pos hbad]
      refine iff_of_false (fun h => nomatch h) ?_
      rintro ⟨h, hshort, hne, hall, -⟩
      cases h
      rcases hbad with h | h | h
      · omega
      · exact hne h
      · exact h hall
    · rw [if_neg hbad]
      simp only [not_or, Decidable.not_not] at hbad
      by_cases hlocal : stripDots made = "localhost".toList ∨
          ".localhost".toList <:+ stripDots made
      · rw [if_pos hlocal]
        refine iff_of_false (fun h => nomatch h) ?_
        rintro ⟨h, -, -, -, hnot⟩
        cases h
        exact hnot hlocal
      · rw [if_neg hlocal]
        constructor
        · intro h
          cases h
          exact ⟨rfl, by omega, hbad.2.1, hbad.2.2, hlocal⟩
        · rintro ⟨h, -⟩
          cases h
          rfl

/-- A plain name has no colon in it, also behind its last dot. -/
theorem PlainName.colon_not_mem {name : List Char} (h : PlainName name) : ':' ∉ name := by
  obtain ⟨-, -, hall, -⟩ := h
  intro hmem
  rw [← List.reverse_reverse name, List.mem_reverse,
    ← List.takeWhile_append_dropWhile (p := (· = '.')) (l := name.reverse), List.mem_append] at hmem
  rcases hmem with hmem | hmem
  · exact absurd (List.mem_takeWhile_imp hmem) (by decide)
  · have hchar := List.all_eq_true.1 hall ':' (List.mem_reverse.2 hmem)
    exact absurd hchar (by decide)

/-- **A host that is not allowed as it is** comes to a name, unless it hides an address. -/
theorem hostOf_name_iff (hipv6 : ∀ text address, lib.ipv6Address text = some address → ':' ∈ text)
    {hostname : List Char} :
    (∀ host, hostOf lib hostname = .ok (host, false) → IsName lib host) ↔
      ¬ HidesAddress lib (lib.lower hostname) := by
  unfold hostOf
  dsimp only
  by_cases hpercent : '%' ∈ lib.lower hostname
  · rw [if_pos hpercent]
    exact iff_of_true (fun host h => nomatch h) fun h => h.1.1 hpercent
  rw [if_neg hpercent]
  by_cases hcolon : ':' ∈ lib.lower hostname
  · rw [if_pos hcolon]
    refine iff_of_true (fun host h => ?_) fun h => h.1.2 hcolon
    split at h
    · exact nomatch h
    · exact nomatch (hostOfLiteral_true h)
  rw [if_neg hcolon]
  cases hspelling : parseIpv4Spelling (lib.lower hostname) with
  | error u =>
    exact iff_of_true (fun host h => nomatch h) fun h => nomatch hspelling.symm.trans h.2.1
  | ok literal =>
    cases literal with
    | some literal =>
      exact iff_of_true (fun host h => nomatch hostOfLiteral_true h)
        fun h => nomatch hspelling.symm.trans h.2.1
    | none =>
      dsimp only
      by_cases hnumeric : looksNumeric (lib.lower hostname) = true
      · rw [if_pos hnumeric]
        exact iff_of_true (fun host h => nomatch h) fun h => nomatch hnumeric.symm.trans h.2.2.1
      · rw [if_neg hnumeric]
        constructor
        · rintro h ⟨-, -, -, name, hidna, hplain, hspelled⟩
          refine hspelled (h name ?_).1
          rw [asciiName_eq_ok.2 ⟨hidna, hplain⟩]
          rfl
        · intro h host hhost
          cases hname : asciiName lib (lib.lower hostname) with
          | error e =>
            rw [hname] at hhost
            exact nomatch hhost
          | ok name =>
            rw [hname] at hhost
            cases hhost
            obtain ⟨hidna, hplain⟩ := asciiName_eq_ok.1 hname
            constructor
            · by_contra hspelled
              exact h ⟨⟨hpercent, hcolon⟩, hspelling, by simpa using hnumeric, host, hidna, hplain,
                hspelled⟩
            · cases hsix : lib.ipv6Address host with
              | none => rfl
              | some address => exact absurd (hipv6 host address hsix) hplain.colon_not_mem

/-- What the host of a URL must be like for its name to be one: a host that is allowed as it is is no
IPv6 address, and another host hides no address. -/
def NamedPlainly (lib : UrlLib) (allowHosts : List (List Char)) (hostname : List Char) : Prop :=
  if lib.lower hostname ∈ allowHosts then
    parseIpv4Spelling (lib.lower hostname) = .ok none → lib.ipv6Address (lib.lower hostname) = none
  else ¬ HidesAddress lib (lib.lower hostname)

theorem readHost_name_iff (hipv6 : ∀ text address, lib.ipv6Address text = some address → ':' ∈ text)
    {allowHosts : List (List Char)} {hostname : List Char} :
    (∀ host, readHost lib allowHosts hostname = .ok (host, false) → IsName lib host) ↔
      NamedPlainly lib allowHosts hostname := by
  unfold readHost NamedPlainly
  by_cases hallowed : lib.lower hostname ∈ allowHosts
  · rw [if_pos hallowed, if_pos hallowed]
    cases hspelling : parseIpv4Spelling (lib.lower hostname) with
    | error u => exact iff_of_true (fun host h => nomatch h) fun h => nomatch h
    | ok literal =>
      cases literal with
      | some literal => exact iff_of_true (fun host h => nomatch h) fun h => nomatch h
      | none =>
        constructor
        · exact fun h _ => (h (lib.lower hostname) rfl).2
        · rintro h host hhost
          cases hhost
          exact ⟨hspelling, h rfl⟩
  · rw [if_neg hallowed, if_neg hallowed]
    exact hostOf_name_iff hipv6

/-- **A name that `parse_url` gives** is no spelling of an IPv4 address and no IPv6 address, exactly
when the host of the URL, if the checks before come to one, is named plainly. -/
theorem parseUrl_names_iff (lib : UrlLib) (allowHosts : List (List Char)) (url : List Char)
    (hipv6 : ∀ text address, lib.ipv6Address text = some address → ':' ∈ text) :
    (∀ parsed, parseUrl lib allowHosts url = .ok parsed → parsed.isIpLiteral = false →
        IsName lib parsed.host) ↔
      ∀ hostname, ReadsHost lib allowHosts url hostname → NamedPlainly lib allowHosts hostname := by
  rcases parseUrl_readsHost lib allowHosts url with
    ⟨⟨rule, message, hrefused⟩, hnone⟩ | ⟨hostname, hreads, hsame, f, hf, hparse⟩
  · refine iff_of_true (fun parsed h => ?_) fun hostname hreads => absurd hreads (hnone hostname)
    rw [hrefused] at h
    exact nomatch h
  · rw [hparse]
    constructor
    · intro h other hother
      rw [hsame other hother, ← readHost_name_iff hipv6]
      intro host hhost
      have hname := h (f (host, false)) (by rw [hhost]; rfl) (hf _).2
      rwa [(hf _).1] at hname
    · intro h parsed hparsed hname
      cases hhost : readHost lib allowHosts hostname with
      | error e =>
        rw [hhost] at hparsed
        exact nomatch hparsed
      | ok host =>
        rw [hhost] at hparsed
        cases hparsed
        rw [(hf host).2] at hname
        rw [(hf host).1]
        refine (readHost_name_iff hipv6).2 (h hostname hreads) host.1 ?_
        rw [hhost, ← hname]

end

/-! ## An address with ideographic full stops -/

/-- The standard library, as far as it is asked about the host `127。0。0。1`. -/
def ideographicHost : UrlLib :=
  { signedHost with
    idna := fun host => some (host.map fun c => if c = '。' then '.' else c)
    urlsplit := fun url =>
      if url = "http://127。0。0。1/".toList then
        some ⟨"http".toList, "127。0。0。1".toList, "/".toList, [], none, none,
          some "127。0。0。1".toList, none⟩
      else if url = "http://example.com/".toList then
        some ⟨"http".toList, "example.com".toList, "/".toList, [], none, none,
          some "example.com".toList, none⟩
      else none }

/-- **The local host under another name**: what goes to the resolver is `127.0.0.1`. -/
theorem ideographic_host_hides : ∃ parsed,
    parseUrl ideographicHost [] "http://127。0。0。1/".toList = .ok parsed ∧
      parsed.isIpLiteral = false ∧ parsed.host = "127.0.0.1".toList ∧
      parseIpv4Spelling parsed.host = .ok (some (.v4 0x7f000001)) ∧
      ¬ IsName ideographicHost parsed.host := by
  refine ⟨⟨"http".toList, "127.0.0.1".toList, 80, "/".toList, false⟩, by decide +kernel, rfl, rfl,
    by decide +kernel, fun h => ?_⟩
  have hspelled : parseIpv4Spelling "127.0.0.1".toList = .ok (some (.v4 0x7f000001)) := by
    decide +kernel
  exact nomatch hspelled.symm.trans h.1

/-- An ordinary name is named plainly, and is a name. -/
theorem plain_host_is_name : ∃ parsed,
    parseUrl ideographicHost [] "http://example.com/".toList = .ok parsed ∧
      parsed.isIpLiteral = false ∧ IsName ideographicHost parsed.host := by
  refine ⟨⟨"http".toList, "example.com".toList, 80, "/".toList, false⟩, by decide +kernel, rfl, ?_⟩
  refine (parseUrl_names_iff ideographicHost [] "http://example.com/".toList
    fun text address h => nomatch h).2 ?_ _ (by decide +kernel) rfl
  rintro hostname ⟨-, -, ⟨parts, hparts, -, -, hhost, -⟩, -⟩
  have hname : (ideographicHost.urlsplit (strip "http://example.com/".toList)).bind (·.hostname) =
      some "example.com".toList := by
    decide +kernel
  rw [hparts, Option.bind_some, hhost] at hname
  cases hname
  rw [NamedPlainly, if_neg List.not_mem_nil]
  refine not_hidesAddress_of_ascii fun name h => ?_
  have hsame : ideographicHost.idna "example.com".toList = some "example.com".toList := by
    decide +kernel
  exact Option.some.inj (h.symm.trans hsame)

end Links
end SecondMind
