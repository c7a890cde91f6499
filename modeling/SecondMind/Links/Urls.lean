import Mathlib
import SecondMind.Core.Text

/-!
# What a link may point at

The checks of `links/urls.py` that decide, before any request, whether a URL may be fetched.

* `refusalFor` — why an address must not be connected to;
* `parseIpv4Spelling` — the many ways to write an IPv4 address;
* `parseUrl` and `checkResolved` — the checks of a URL, and of what its host resolved to;
* `parseUrl_literal` — a host that is an address was checked as one.
-/

namespace SecondMind
namespace Links

/-! ## Addresses -/

/-- `IPv4Address` and `IPv6Address`. -/
inductive Address
  | v4 (value : BitVec 32)
  | v6 (value : BitVec 128)
  deriving DecidableEq

namespace Address

/-- `ipv4_mapped`. -/
def ipv4Mapped : Address → Option Address
  | v4 _ => none
  | v6 value => if value >>> 32 = 0xffff then some (v4 (value.truncate 32)) else none

/-- `unwrap`: a mapped address is the one that it wraps. -/
def unwrap (address : Address) : Address := address.ipv4Mapped.getD address

/-- `address in IPv4Network(base/length)`. -/
def inV4 (base : BitVec 32) (length : Nat) : Address → Bool
  | v4 value => value >>> (32 - length) = base >>> (32 - length)
  | v6 _ => false

/-- `address in IPv6Network(base/length)`. -/
def inV6 (base : BitVec 128) (length : Nat) : Address → Bool
  | v4 _ => false
  | v6 value => value >>> (128 - length) = base >>> (128 - length)

/-- `_V6_TUNNELS`. -/
def tunnels : List (Address → Bool) :=
  [inV6 0x0064ff9b000000000000000000000000 96, inV6 0x0064ff9b000100000000000000000000 48,
    inV6 0x20020000000000000000000000000000 16, inV6 0x20010000000000000000000000000000 32,
    inV6 0 96]

/-- `_CGNAT`: 100.64.0.0/10. -/
def cgnat : Address → Bool := inV4 0x64400000 10

/-- `_PRIVATE`: 10.0.0.0/8, 172.16.0.0/12, 192.168.0.0/16 and fc00::/7. -/
def privates : List (Address → Bool) :=
  [inV4 0x0a000000 8, inV4 0xac100000 12, inV4 0xc0a80000 16,
    inV6 0xfc000000000000000000000000000000 7]

end Address

/-- How `ipaddress` classifies an address. -/
structure Classification where
  isLoopback : Address → Bool
  isUnspecified : Address → Bool
  isLinkLocal : Address → Bool
  isMulticast : Address → Bool
  isGlobal : Address → Bool

/-- The first check that an address fails, as rule and message. -/
def refusalFor (c : Classification) (address : Address) : Option (String × String) :=
  let address := address.unwrap
  let checks : List (Bool × String × String) :=
    [(c.isLoopback address, "loopback", "That's this server's own address."),
      (c.isUnspecified address, "reserved_address", "That address is reserved."),
      (c.isLinkLocal address, "link_local",
        "That's a link-local address (it includes cloud metadata services)."),
      (c.isMulticast address, "multicast", "That's a multicast address."),
      (address.cgnat, "carrier_grade_nat", "That's a carrier-grade NAT address."),
      (Address.privates.any (· address), "private_address", "That's a private address."),
      (Address.tunnels.any (· address), "reserved_address", "That address is reserved."),
      (!c.isGlobal address, "reserved_address", "That address is reserved.")]
  (checks.find? (·.1)).map (·.2)

theorem Address.unwrap_v4 (value : BitVec 32) : (Address.v4 value).unwrap = .v4 value := rfl

/-- What is unwrapped wraps nothing. -/
theorem Address.unwrap_unwrap (address : Address) : address.unwrap.unwrap = address.unwrap := by
  cases address with
  | v4 value => rfl
  | v6 value =>
    by_cases h : value >>> 32 = 0xffff
    · have hunwrap : (Address.v6 value).unwrap = .v4 (value.truncate 32) := by
        rw [Address.unwrap, Address.ipv4Mapped, if_pos h, Option.getD_some]
      rw [hunwrap]
      rfl
    · have hunwrap : (Address.v6 value).unwrap = .v6 value := by
        rw [Address.unwrap, Address.ipv4Mapped, if_neg h, Option.getD_none]
      rw [hunwrap, hunwrap]

/-- An address is refused as the one that it wraps. -/
theorem refusalFor_unwrap (c : Classification) (address : Address) :
    refusalFor c address.unwrap = refusalFor c address := by
  simp only [refusalFor, Address.unwrap_unwrap]

/-! ## The spellings of an address -/

/-- `str.rstrip(".")`. -/
def stripDots (host : List Char) : List Char := (host.reverse.dropWhile (· = '.')).reverse

/-- `str.split(c)`. -/
def splitOn (c : Char) (text : List Char) : List (List Char) :=
  text.splitOnP (· = c)

/-- `_parse_ipv4_part`: hexadecimal, octal or decimal. -/
def parseIpv4Part (part : List Char) : Option Int :=
  match part with
  | [] => none
  | '0' :: x :: digits =>
    if x = 'x' ∨ x = 'X' then intIn 16 (if digits = [] then ['0'] else digits)
    else intIn 8 part
  | _ => intIn 10 part

/-- The address of four bytes' worth of numbers, the last one filling what is left; an error for
`IPv4Address` of a number below 0. -/
def parseIpv4Spelling (host : List Char) : Except Unit (Option Address) :=
  let parts := splitOn '.' (stripDots host)
  if 4 < parts.length then .ok none
  else
    match parts.mapM parseIpv4Part with
    | none => .ok none
    | some values =>
      let last := values.getLastD 0
      if values.dropLast.any (255 < ·) ∨ 256 ^ (5 - values.length) ≤ last then .ok none
      else
        let address := values.dropLast.zipIdx.foldl
          (fun address n => address + n.1 * 256 ^ (3 - n.2)) last
        if 0 ≤ address ∧ address < 2 ^ 32 then .ok (some (.v4 (BitVec.ofInt 32 address)))
        else .error ()

/-- `_looks_numeric`: the last label is a number. -/
def looksNumeric (host : List Char) : Bool :=
  match (splitOn '.' (stripDots host)).getLastD [] with
  | '0' :: x :: digits =>
    (x = 'x' ∨ x = 'X') ∧ digits.all (fun c => (digitIn 16 c).isSome ∧ c.toNat < 128) ∨
      (x :: digits).all Char.isDigit
  | label => label ≠ [] ∧ label.all Char.isDigit

/-! ## Parsing a URL -/

/-- `SplitResult`, with the properties that are read of it. -/
structure SplitUrl where
  scheme : List Char
  netloc : List Char
  path : List Char
  query : List Char
  username : Option (List Char)
  password : Option (List Char)
  hostname : Option (List Char)
  port : Option Nat

/-- What `urls.py` takes from the standard library; none is a `ValueError`. -/
structure UrlLib where
  classification : Classification
  lower : List Char → List Char
  idna : List Char → Option (List Char)
  ipv6Address : List Char → Option Address
  ipAddress : List Char → Option Address
  str : Address → List Char
  urlsplit : List Char → Option SplitUrl
  urlunsplit : List Char → List Char → List Char

/-- The exceptions of a fetch: a refusal, a failure, or one that nothing here catches. -/
inductive FetchError
  | refused (rule message : String) (detail : List Char)
  | failed (reason message : String)
  | uncaught
  deriving DecidableEq

/-- `FetchRefusedError(rule, message)`. -/
def refuse {α : Type} (rule message : String) : Except FetchError α :=
  .error (.refused rule message [])

def badUrl {α : Type} : Except FetchError α := refuse "bad_url" "That isn't a valid web address."

structure ParsedUrl where
  scheme : List Char
  host : List Char
  port : Nat
  pathQuery : List Char
  isIpLiteral : Bool
  deriving DecidableEq

/-- `MAX_URL_CHARS`. -/
def maxUrlChars : Nat := 2048

/-- `MAX_HOST_CHARS`. -/
def maxHostChars : Nat := 253

/-- `[a-z0-9._-]`. -/
def nameChar (c : Char) : Bool :=
  'a' ≤ c ∧ c ≤ 'z' ∨ c.isDigit ∨ c = '.' ∨ c = '_' ∨ c = '-'

/-- `str.strip()`. -/
def strip (text : List Char) : List Char :=
  ((text.dropWhile isSpace).reverse.dropWhile isSpace).reverse

section

variable (lib : UrlLib)

/-- `_ascii_name`. -/
def asciiName (host : List Char) : Except FetchError (List Char) :=
  match lib.idna host with
  | none => badUrl
  | some name =>
    let bare := stripDots name
    if maxHostChars < name.length ∨ bare = [] ∨ ¬ bare.all nameChar then badUrl
    else if bare = "localhost".toList ∨ ".localhost".toList <:+ bare then
      refuse "loopback" "That's this server's own address."
    else .ok name

/-- The end of `_host_of`, for a host that is an address. -/
def hostOfLiteral (literal : Address) : Except FetchError (List Char × Bool) :=
  match refusalFor lib.classification literal with
  | some (rule, message) => refuse rule message
  | none => .ok (lib.str literal.unwrap, true)

/-- `_host_of`: the host as it will be resolved, and whether it is an address. -/
def hostOf (hostname : List Char) : Except FetchError (List Char × Bool) :=
  let host := lib.lower hostname
  if '%' ∈ host then badUrl
  else if ':' ∈ host then
    match lib.ipv6Address host with
    | none => badUrl
    | some literal => hostOfLiteral lib literal
  else
    match parseIpv4Spelling host with
    | .error () => .error .uncaught
    | .ok (some literal) => hostOfLiteral lib literal
    | .ok none =>
      if looksNumeric host then badUrl else (asciiName lib host).map (·, false)

/-- `parse_url`. -/
def parseUrl (allowHosts : List (List Char)) (url : List Char) : Except FetchError ParsedUrl :=
  if maxUrlChars < url.length then refuse "url_too_long" "That link is too long."
  else if url.any fun c => c.toNat < 0x20 ∨ c.toNat = 0x7f then badUrl
  else
    match lib.urlsplit (strip url) with
    | none => badUrl
    | some parts =>
      let scheme := lib.lower parts.scheme
      if scheme ≠ "http".toList ∧ scheme ≠ "https".toList then
        refuse "scheme" "Only web links (http and https) are opened."
      else if parts.username ≠ none ∨ parts.password ≠ none ∨ '@' ∈ parts.netloc then
        refuse "credentials" "Links with a user name or password aren't opened."
      else
        match parts.hostname with
        | none | some [] => badUrl
        | some hostname =>
          let allowed := lib.lower hostname ∈ allowHosts
          if (parts.port.any fun port => port ≠ 80 ∧ port ≠ 443) ∧ ¬ allowed then
            refuse "port" "Only the standard web ports (80 and 443) are used."
          else do
            let (host, isLiteral) ←
              if allowed then
                match parseIpv4Spelling (lib.lower hostname) with
                | .error () => .error .uncaught
                | .ok literal => .ok (lib.lower hostname, literal.isSome)
              else hostOf lib hostname
            let pathQuery :=
              lib.urlunsplit (if parts.path = [] then ['/'] else parts.path) parts.query
            -- a port of 0 is falsy
            let default := if scheme = "https".toList then 443 else 80
            let port := match parts.port with
              | none | some 0 => default
              | some port => port
            return ⟨scheme, host, port, pathQuery, isLiteral⟩

/-- The loop body of `check_resolved`. -/
def checkAddress (raw : List Char) : Except FetchError Unit :=
  match lib.ipAddress (raw.takeWhile (· ≠ '%')) with
  | none => refuse "dns" "That address didn't resolve to an address."
  | some address =>
    match refusalFor lib.classification address with
    | some (rule, message) => refuse rule message
    | none => .ok ()

/-- `check_resolved`: one bad address refuses the whole name. -/
def checkResolved (addresses : List (List Char)) : Except FetchError Unit :=
  if addresses = [] then refuse "dns" "That address didn't resolve."
  else forM addresses (checkAddress lib)

/-! ## What was checked -/

/-- The text of an address that may be connected to. -/
def Public (address : List Char) : Prop :=
  ∃ a, refusalFor lib.classification a = none ∧
    (address = lib.str a ∨ lib.ipAddress (address.takeWhile (· ≠ '%')) = some a)

variable {lib}

theorem hostOfLiteral_public {literal : Address} {host : List Char} {isLiteral : Bool}
    (h : hostOfLiteral lib literal = .ok (host, isLiteral)) : Public lib host := by
  unfold hostOfLiteral at h
  split at h
  · exact (nomatch h)
  · rename_i hnone
    cases h
    exact ⟨literal.unwrap, by rw [refusalFor_unwrap, hnone], .inl rfl⟩

/-- A host that is an address was checked as one. -/
theorem hostOf_literal {hostname host : List Char} (h : hostOf lib hostname = .ok (host, true)) :
    Public lib host := by
  unfold hostOf at h
  dsimp only at h
  split at h
  · exact (nomatch h)
  · split at h
    · split at h
      · exact (nomatch h)
      · exact hostOfLiteral_public h
    · split at h
      · exact (nomatch h)
      · exact hostOfLiteral_public h
      · split at h
        · exact (nomatch h)
        · cases hname : asciiName lib (lib.lower hostname) with
          | error e =>
            rw [hname] at h
            exact (nomatch h)
          | ok name =>
            rw [hname] at h
            exact (nomatch h)

/-- Without allowed hosts, the host of a URL that is accepted went through `hostOf`. -/
theorem parseUrl_host {url : List Char} {parsed : ParsedUrl}
    (h : parseUrl lib [] url = .ok parsed) :
    ∃ hostname, hostOf lib hostname = .ok (parsed.host, parsed.isIpLiteral) := by
  unfold parseUrl at h
  split at h
  · exact (nomatch h)
  split at h
  · exact (nomatch h)
  split at h
  · exact (nomatch h)
  dsimp only at h
  split at h
  · exact (nomatch h)
  split at h
  · exact (nomatch h)
  split at h
  · exact (nomatch h)
  · exact (nomatch h)
  split at h
  · exact (nomatch h)
  rename_i hostname _ _ _
  rw [if_neg List.not_mem_nil] at h
  refine ⟨hostname, ?_⟩
  cases hhost : hostOf lib hostname with
  | error e =>
    rw [hhost] at h
    exact (nomatch h)
  | ok host =>
    rw [hhost] at h
    cases h
    rfl

/-- **A URL that is accepted** and whose host is an address: the address was checked. -/
theorem parseUrl_literal {url : List Char} {parsed : ParsedUrl}
    (h : parseUrl lib [] url = .ok parsed) (hliteral : parsed.isIpLiteral = true) :
    Public lib parsed.host := by
  obtain ⟨hostname, hhost⟩ := parseUrl_host h
  rw [hliteral] at hhost
  exact hostOf_literal hhost

theorem checkAddress_public {raw : List Char} (h : checkAddress lib raw = .ok ()) :
    Public lib raw := by
  unfold checkAddress at h
  split at h
  · exact (nomatch h)
  · rename_i a ha
    split at h
    · exact (nomatch h)
    · rename_i hnone
      exact ⟨a, hnone, .inr ha⟩

/-- What a name resolved to was checked, all of it. -/
theorem checkResolved_public {addresses : List (List Char)}
    (h : checkResolved lib addresses = .ok ()) :
    addresses ≠ [] ∧ ∀ address ∈ addresses, Public lib address := by
  unfold checkResolved at h
  split at h
  · exact (nomatch h)
  · rename_i hne
    refine ⟨hne, ?_⟩
    clear hne
    induction addresses with
    | nil => exact fun address hm => absurd hm List.not_mem_nil
    | cons raw addresses ih =>
      rw [List.forM_cons] at h
      cases hraw : checkAddress lib raw with
      | error e =>
        rw [hraw] at h
        exact (nomatch h)
      | ok u =>
        rw [hraw] at h
        intro address hm
        rcases List.mem_cons.1 hm with rfl | hm
        · exact checkAddress_public hraw
        · exact ih h address hm

end

end Links
end SecondMind
