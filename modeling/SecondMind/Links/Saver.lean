import SecondMind.Core.Letters
import SecondMind.Links.Urls
import SecondMind.Memory.Writer
import SecondMind.Regex.Pattern
import SecondMind.Texts.Replace

/-!
# The links of a message

`links/saver.py`, with what it uses of `links/urls.py`: each URL of a message becomes a resource
that waits to be read, or one that is refused, or it is a link that was saved before.

* `extractUrls` — the URLs of a message;
* `canonicalUrl` and `videoSite` — what a URL is compared by, and whether it is a video;
* `LinkSaver.judge` — what becomes of one URL;
* `LinkSaver.plan` and `LinkSaver.save` — the resources of a message, and their commit.
-/

namespace SecondMind
namespace Links

open Regex

/-! ## The URLs of a message -/

/-- A letter as `(?i)` compares it. -/
def foldCase (c : Char) : Char :=
  if c = 'İ' ∨ c = 'ı' then 'i'
  else if c = 'ſ' then 's'
  else if c.toNat = 0x212a then 'k'
  else c.toLower

/-- A text in any case. -/
def anyCase (s : String) : Pattern := .all (s.toList.map fun c => .one fun d => foldCase d = c)

/-- `[a-z]`, in any case. -/
def schemeStart (c : Char) : Bool := 'a' ≤ foldCase c ∧ foldCase c ≤ 'z'

/-- `[a-z0-9+.-]`, in any case. -/
def schemeChar (c : Char) : Bool := schemeStart c ∨ c.isDigit ∨ c = '+' ∨ c = '.' ∨ c = '-'

/-- ``[^\s<>\"'`]``. -/
def urlChar (c : Char) : Bool := !isSpace c ∧ c ∉ ['<', '>', '"', '\'', '`']

/-- `_URL_RE`. -/
def urlPattern : Pattern :=
  .all [.edge isWord,
    .any [.all [.one schemeStart, .between 1 15 (.one schemeChar), .text "://"],
      .all [anyCase "www", .text "."]],
    .plus (.one urlChar)]

/-- The last letter is punctuation, or closes a bracket that is not open. -/
def trimmed (url : List Char) (last : Char) : Bool :=
  last ∈ ['.', ',', ';', ':', '!', '?', '\'', '"', '}', '>'] ∨
    (last = ')' ∧ url.count '(' < url.count ')') ∨ (last = ']' ∧ url.count '[' < url.count ']')

/-- `_trim`, of a URL backwards. -/
def trimBack : List Char → List Char
  | [] => []
  | last :: url => if trimmed (last :: url) last then trimBack url else last :: url

/-- `_trim`. -/
def trim (url : List Char) : List Char := (trimBack url.reverse).reverse

/-- A URL as it is found: without the punctuation behind it, and with a scheme. -/
def foundUrl (lower : List Char → List Char) (found : List Char) : List Char :=
  let url := trim found
  if "www.".toList <+: lower url then "https://".toList ++ url else url

/-- `extract_urls`. -/
def extractUrls (lower : List Char → List Char) (text : List Char) : List (List Char) :=
  (findAll urlPattern text).foldl (fun urls m =>
    let url := foundUrl lower m.taken
    if url ≠ [] ∧ url ∉ urls then urls ++ [url] else urls) []

/-! ## Canonical form, site, video -/

/-- `SplitResult`; no port is a `ValueError` of `port`. -/
structure SplitParts where
  scheme : List Char
  netloc : List Char
  path : List Char
  query : List Char
  username : Option (List Char)
  password : Option (List Char)
  hostname : Option (List Char)
  port : Option (Option Nat)

/-- The parts with their port. -/
def SplitParts.read (parts : SplitParts) : Option SplitUrl :=
  parts.port.map fun port =>
    { scheme := parts.scheme, netloc := parts.netloc, path := parts.path, query := parts.query
      username := parts.username, password := parts.password, hostname := parts.hostname
      port := port }

/-- What `urls.py` takes from the standard library, with `urlsplit` apart from its `port`. -/
structure LinkLib extends UrlLib where
  split : List Char → Option SplitParts
  urlsplit_eq : ∀ text, urlsplit text = (split text).bind SplitParts.read
  unquote : List Char → List Char
  quote : List Char → List Char
  parseQsl : List Char → List (List Char × List Char)
  urlencode : List (List Char × List Char) → List Char
  unsplit : List Char → List Char → List Char → List Char → List Char

/-- `_TRACKING`. -/
def trackingPattern : Pattern :=
  .all [.start,
    .any (.all [anyCase "utm_", .star (.one (· ≠ '\n'))] ::
      ["fbclid", "gclid", "dclid", "msclkid", "mc_cid", "mc_eid", "igshid", "ref_src", "spm",
        "_hsenc", "_hsmi"].map anyCase),
    .stop]

/-- The order of pairs of texts. -/
def pairLe (a b : List Char × List Char) : Bool := a.1 < b.1 ∨ a.1 = b.1 ∧ ¬ b.2 < a.2

/-- A name without `www.` before it. -/
def withoutWww (host : List Char) : List Char :=
  if "www.".toList <+: host then host.drop 4 else host

/-- `path.rstrip("/") or "/"`, for a path that is not `/`. -/
def stripPath (path : List Char) : List Char :=
  if path = ['/'] then path
  else
    let bare := (path.reverse.dropWhile (· = '/')).reverse
    if bare = [] then ['/'] else bare

def youtube : List String :=
  ["youtube.com", "m.youtube.com", "music.youtube.com", "youtu.be", "youtube-nocookie.com"]

def vimeo : List String := ["vimeo.com", "player.vimeo.com"]

/-- The path of a video on vimeo. -/
def vimeoPattern : Pattern :=
  let part : Pattern := .plus (.one (· ≠ '/'))
  .all [.start, .text "/",
    .opt (.any [.text "video/", .all [.text "channels/", part, .text "/"],
      .all [.text "groups/", part, .text "/videos/"]]),
    .plus (.one isDigit)]

namespace LinkLib

variable (lib : LinkLib)

/-- `host_for_log`. -/
def hostForLog (url : List Char) : List Char :=
  match lib.split url with
  | none => []
  | some parts => (lib.lower (parts.hostname.getD [])).take maxHostChars

/-- `canonical_url`; none is a `ValueError`. -/
def canonicalUrl (url : List Char) : Option (List Char) := do
  let parts ← lib.split (strip url)
  let host := withoutWww (stripDots (lib.lower (parts.hostname.getD [])))
  let scheme := lib.lower parts.scheme
  let scheme := if scheme = [] then "https".toList else scheme
  let port ← parts.port
  let netloc := match port with
    | none | some 80 | some 443 => host
    | some port => host ++ ':' :: strOf port
  let path := stripPath (lib.quote (lib.unquote (if parts.path = [] then ['/'] else parts.path)))
  let kept := (lib.parseQsl parts.query).filter fun e => (matchStart trackingPattern e.1).isNone
  let query := lib.urlencode (kept.mergeSort pairLe)
  let scheme := if scheme = "http".toList then "https".toList else scheme
  return lib.unsplit scheme netloc path query

/-- `site_name`. -/
def siteName (host : List Char) : List Char := withoutWww (stripDots (lib.lower host))

/-- `video_site(url) is not None`; none is a `ValueError`. -/
def videoSite (url : List Char) : Option Bool := do
  let host := String.ofList (lib.siteName (lib.hostForLog url))
  let path := (← lib.split url).path
  return if host ∈ youtube then
      (host = "youtu.be" ∧ path.any (· ≠ '/')) ∨
        (host ≠ "youtu.be" ∧
          ["/watch", "/shorts/", "/live/", "/embed/", "/v/"].any (·.toList.isPrefixOf path))
    else host ∈ vimeo ∧ (matchStart vimeoPattern path).isSome

end LinkLib

/-! ## Saved links -/

inductive FetchStatus
  | pending | full | partly | failed | refused
  deriving DecidableEq, Repr

inductive LinkKind
  | article | video | link
  deriving DecidableEq, Repr

/-- A row of `link_sources`, as far as it is filled when the link is saved. -/
structure LinkSource where
  id : Uuid
  itemId : Uuid
  turnId : Uuid
  url : List Char
  canonicalUrl : List Char
  kind : LinkKind
  fetchStatus : FetchStatus
  fetchReason : Option String
  rule : Option String
  deriving DecidableEq

/-- The store, with the saved links in the order in which they were saved. -/
structure LinkTables where
  tables : Tables
  sources : List LinkSource := []

/-- `by_canonical`: the first link under this address whose item is still there. -/
def LinkTables.byCanonical (t : LinkTables) (canonical : List Char) : Option LinkSource :=
  t.sources.find? fun source => source.canonicalUrl = canonical ∧
    ∃ item ∈ t.tables.getItem source.itemId, item.status = .active

/-- `add`: on `sql` the row has a new id, and its item is there and has no other row. -/
def LinkTables.add (b : Backend) (t : LinkTables) (source : LinkSource) :
    Except Failure LinkTables :=
  if b = .sql ∧ ¬ ((∀ row ∈ t.sources, row.id ≠ source.id ∧ row.itemId ≠ source.itemId) ∧
      (t.tables.getItem source.itemId).isSome) then
    .error (.integrityError "link_sources")
  else .ok { t with sources := t.sources ++ [source] }

structure SavedLink where
  itemId : Uuid
  url : List Char
  status : FetchStatus
  host : List Char
  reason : Option String := none
  rule : Option String := none
  duplicateOf : Option Uuid := none
  deriving DecidableEq

/-- `RULE_LABELS`. -/
def ruleLabels : List (String × String) :=
  [("scheme", "not a web link"), ("port", "unusual port"),
    ("credentials", "it has a password in it"), ("url_too_long", "too long"),
    ("bad_url", "not a valid address"), ("loopback", "this server's own address"),
    ("private_address", "private address"), ("link_local", "link-local address"),
    ("carrier_grade_nat", "private address"), ("multicast", "multicast address"),
    ("reserved_address", "reserved address"), ("too_many_redirects", "too many redirects"),
    ("content_type", "not a web page"), ("too_many_links", "too many links in one message"),
    ("rate_limited", "too many links just now"), ("dns", "address didn't resolve")]

/-- `_refused`. -/
def refusedLink (url host : List Char) (rule : String) : SavedLink where
  itemId := 0
  url := url
  status := .refused
  host := host
  reason := some ((ruleLabels.lookup rule).getD rule)
  rule := some rule

structure LinkSaveResult where
  /-- The message with each link put as `[link]`. -/
  remaining : List Char
  links : List SavedLink
  deriving DecidableEq

/-- `[link]`. -/
def linkMark : List Char := "[link]".toList

/-- White space made single, and none at the ends. -/
def squeeze (text : List Char) : List Char := (join " " (words (String.ofList text))).toList

/-- `without_links`. -/
def withoutLinks (message : List Char) (urls : List (List Char)) : List Char :=
  squeeze (urls.foldl (fun text url => Texts.replace url linkMark text) message)

/-- `[\w']+`. -/
def wordPattern : Pattern := .plus (.one fun c => isWord c ∨ c = '\'')

namespace LinkSaveResult

/-- `pending`. -/
def pending (r : LinkSaveResult) : List SavedLink := r.links.filter (·.status = .pending)

/-- `only_links`: a word or two are left at most. -/
def onlyLinks (r : LinkSaveResult) : Bool :=
  (findAll wordPattern (Texts.replace linkMark [' '] r.remaining)).length ≤ 4

/-- `_reply`. -/
def reply (r : LinkSaveResult) : String :=
  let fresh := r.pending.filter (·.duplicateOf = none)
  let lines := if fresh.length = 1 then ["Saved the link. Reading it now."]
    else if fresh ≠ [] then ["Saved " ++ toString fresh.length ++ " links. Reading them now."]
    else []
  let more := r.links.filterMap fun link =>
    if link.status = .refused then
      some ("Saved the link, but didn't open it: " ++ link.reason.getD "None" ++ ".")
    else if link.duplicateOf ≠ none then some "You already saved that link."
    else none
  join " " (lines ++ more).reverse.dedup.reverse

end LinkSaveResult

/-! ## The saver -/

/-- Where a save of links asks for a new id: for the item, or the row, of the URL at a place. -/
inductive LinkId
  | item (index : Nat) | source (index : Nat)
  deriving DecidableEq, Repr

/-- What a save of links raises. -/
inductive LinkError
  /-- A `ValueError`, of `urlsplit`, of a port, or of an address. -/
  | valueError
  | failure (failure : Failure)
  deriving DecidableEq

structure LinkSaver where
  lib : LinkLib
  backend : Backend
  settings : WriterSettings := {}
  allowHosts : List (List Char) := []
  /-- How many links a message may hold. -/
  limit : Nat := 3
  /-- The rate check, asked at the URL at this place, does not let it be fetched now. -/
  limited : Nat → Bool := fun _ => false
  turnId : Uuid
  now : Instant
  newId : LinkId → Uuid
  heldId : Nat → Uuid := id

/-- What is to be saved of the links of a message. -/
structure LinkPlan where
  result : LinkSaveResult
  ops : List Op
  sources : List LinkSource

namespace LinkSaver

variable (s : LinkSaver)

/-- `_judge`: the link, and the addresses that are seen. -/
def judge (t : LinkTables) (url : List Char) (index : Nat) (seen : List (List Char)) :
    Except LinkError (SavedLink × List (List Char)) :=
  let host := s.lib.hostForLog url
  match s.lib.canonicalUrl url with
  | none => .error .valueError
  | some canonical =>
    if s.limit ≤ index then .ok (refusedLink url host "too_many_links", seen)
    else
      match parseUrl s.lib.toUrlLib s.allowHosts url with
      | .error (.refused rule _ _) => .ok (refusedLink url host rule, seen)
      | .error _ => .error .valueError
      | .ok _ =>
        if s.limited index then .ok (refusedLink url host "rate_limited", seen)
        else if canonical ∈ seen then
          .ok ({ itemId := 0, url := url, status := .pending, host := host
                 duplicateOf := some 0 }, seen)
        else
          match t.byCanonical canonical with
          | some existing =>
            .ok ({ itemId := existing.itemId, url := url, status := .pending, host := host
                   duplicateOf := some existing.itemId }, canonical :: seen)
          | none =>
            .ok ({ itemId := 0, url := url, status := .pending, host := host }, canonical :: seen)

/-- The content of a link's resource. -/
def content (url said : List Char) (site : String) (video : Bool) : ItemContent where
  kind := .resource
  state := (kindStates .resource).headD ""
  source := .link
  trust := .userStated
  format := some (if video then .video else .link)
  contentRef := some (String.ofList url)
  text := if squeeze (Texts.replace linkMark [] said) ≠ [] then String.ofList said
    else "A link to " ++ site
  title := "Link: " ++ site
  mentionedAt := s.now

/-- `_item`: the op that makes the resource, and the row of the link. -/
def item (url said : List Char) (index : Nat) (link : SavedLink) : Option (Op × LinkSource) := do
  let video ← s.lib.videoSite url
  let site := s.lib.siteName link.host
  let site := if site = [] then "a link" else String.ofList site
  let content := s.content url said site video
  let canonical ← s.lib.canonicalUrl url
  let refused := link.status = .refused
  return (
    { title := content.title
      rationale := "a link the person pasted; the page is read afterwards"
      body := .createItem (s.newId (.item index)) content [] [] none none },
    { id := s.newId (.source index), itemId := s.newId (.item index), turnId := s.turnId
      url := url, canonicalUrl := canonical, kind := if video then .video else .link
      fetchStatus := link.status, fetchReason := if refused then link.reason else none
      rule := if refused then link.rule else none })

/-- A link, with what is saved of it unless it is a duplicate. -/
abbrev Judged := SavedLink × Option (Op × LinkSource)

/-- One URL of a message. -/
def entry (t : LinkTables) (said url : List Char) (index : Nat) (seen : List (List Char)) :
    Except LinkError (Judged × List (List Char)) := do
  let (link, seen) ← s.judge t url index seen
  if link.duplicateOf ≠ none then return ((link, none), seen)
  else
    match s.item url said index link with
    | none => throw .valueError
    | some (op, source) =>
      return (({ link with itemId := source.itemId }, some (op, source)), seen)

/-- The URLs from a place on. -/
def entries (t : LinkTables) (said : List Char) :
    Nat → List (List Char) → List (List Char) → Except LinkError (List Judged)
  | _, _, [] => .ok []
  | index, seen, url :: urls => do
    let (first, seen) ← s.entry t said url index seen
    let rest ← entries t said (index + 1) seen urls
    return first :: rest

/-- What is to be saved of a message; nothing if there is no link in it. -/
def plan (message : List Char) (t : LinkTables) : Except LinkError (Option LinkPlan) :=
  let urls := extractUrls s.lib.lower message
  if urls = [] then .ok none
  else do
    let said := withoutLinks message urls
    let found ← s.entries t said 0 [] urls
    return some
      { result := { remaining := said, links := found.map (·.1) }
        ops := found.filterMap fun e => e.2.map (·.1)
        sources := found.filterMap fun e => e.2.map (·.2) }

def writer (ops : List Op) : Writer where
  backend := s.backend
  turn := { turnId := s.turnId, kind := .user, now := s.now }
  settings := s.settings
  ops := ops
  newId := s.heldId

/-- The commit of a plan, and then the rows of its links, one at a time. -/
def commit (plan : LinkPlan) (t : LinkTables) : Except Failure LinkTables :=
  if plan.ops = [] then .ok t
  else do
    let (tables, _) ← (s.writer plan.ops).commit t.tables
    plan.sources.foldlM (LinkTables.add s.backend) { t with tables := tables }

/-- `save`. -/
def save (message : List Char) (t : LinkTables) :
    Except LinkError (LinkTables × Option LinkSaveResult) := do
  match ← s.plan message t with
  | none => return (t, none)
  | some plan =>
    let t ← (s.commit plan t).mapError .failure
    return (t, some plan.result)

end LinkSaver

end Links
end SecondMind
