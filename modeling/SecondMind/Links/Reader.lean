import SecondMind.Links.Chunking
import SecondMind.Links.DataBlock
import SecondMind.Links.Fetcher
import SecondMind.Links.Saver
import SecondMind.Memory.Keys
import SecondMind.Policy.Secrets

/-!
# Reading a saved link

`links/reader.py`, with `links/adapters/video.py` and the decoding of `links/adapters/extract.py`:
a page is fetched, decoded, digested by a model step, cut into chunks and embedded, and whatever
happens is a status.

* `LinkReader.read` — a page or a video, read;
* `Calm` — an action that raises nothing but what the spend gate or a cancellation raises;
* `LinkReader.Readable` — the answers of the fetcher that are read without an exception;
* `LinkReader.read_ends_iff` — when a read ends in a status.
-/

namespace SecondMind
namespace Links

open Regex

/-! ## Exceptions -/

/-- What a model step may raise: the spend gate's refusal, or a cancellation. -/
inductive Stop
  | spendRefused
  | cancelled
  deriving DecidableEq

/-- What leaves a read: what a model step raised, or an exception that nothing catches. -/
inductive Escape
  | stop (s : Stop)
  | uncaught
  deriving DecidableEq

/-! ## Decoding -/

/-- Why bytes are not decoded: `LookupError`, `UnicodeDecodeError`, or another `ValueError`. -/
inductive CodecError
  | unknown
  | undecodable
  | other
  deriving DecidableEq

def utf8 : List Char := "utf-8".toList

/-- `bytes.decode`, strictly and with `"replace"`. -/
structure Codecs where
  decode : List Char → List UInt8 → Except CodecError (List Char)
  decodeReplace : List Char → List UInt8 → Except CodecError (List Char)
  decode_utf8 : ∀ body, decode utf8 body ≠ .error .other
  decodeReplace_utf8 : ∀ body, ∃ text, decodeReplace utf8 body = .ok text

/-- `body.decode("latin-1")`. -/
def latin1 (body : List UInt8) : List Char := body.map fun b => Char.ofNat b.toNat

/-- A charset that is named in the head of a page; the name is group 1. -/
def charsetPattern : Pattern :=
  let blank : Pattern := .star (.one fun c => c ∈ [' ', '\t', '\n', '\r', '\x0b', '\x0c'])
  .all [anyAscii "<meta", .plus (.one (· ≠ '>')), anyAscii "charset", blank, .text "=", blank,
    .opt (.one (· ∈ ['"', '\''])), blank,
    .group 1 (.plus (.one fun c => c.isAlphanum ∨ c = '_' ∨ c = '-'))]
where
  /-- A text of bytes in any case. -/
  anyAscii (s : String) : Pattern := .all (s.toList.map fun c => .one fun d => d.toLower = c)

/-- The charsets that are tried, in this order. -/
def candidates (declared : Option (List Char)) (body : List UInt8) : List (List Char) :=
  declared.toList ++ ((search charsetPattern (latin1 (body.take 4096))).map (·.group 1)).toList ++
    [utf8]

/-- The loop of `decode_body`. -/
def decodeWith (codecs : Codecs) (body : List UInt8) :
    List (List Char) → Except CodecError (List Char)
  | [] => .ok (latin1 body)
  | name :: names =>
    match codecs.decode name body with
    | .ok text => .ok text
    | .error .other => .error .other
    | .error _ => decodeWith codecs body names

/-- `decode_body`. -/
def decodeBody (codecs : Codecs) (body : List UInt8) (declared : Option (List Char)) :
    Except CodecError (List Char) :=
  decodeWith codecs body (candidates declared body)

/-! ## Pages and videos -/

/-- `MIN_WORDS_TO_KEEP` of the reader, and `MIN_WORDS` of the extractor. -/
def minWordsToKeep : Nat := 10

def minWords : Nat := 40

structure ExtractedPage where
  title : List Char
  description : List Char
  site : List Char
  author : List Char
  published : List Char
  text : List Char
  wordCount : Nat
  method : String
  paywall : Bool
  scriptOnly : Bool
  imageUrl : List Char := []
  duration : List Char := []

/-- `too_short`. -/
def ExtractedPage.tooShort (page : ExtractedPage) : Bool := page.wordCount < minWords

/-- What `json.loads` gives; it reads `Infinity` and `NaN` too. -/
inductive Loaded
  | null
  | bool (b : Bool)
  | int (n : Int)
  | float (q : Rat)
  | nan
  | infinity (negative : Bool)
  | str (text : List Char)
  | list (items : List Loaded)
  | dict (members : List (List Char × Loaded))

/-- What the reader takes from the standard library and from the extractor. -/
structure ReadLib extends LinkLib where
  codecs : Codecs
  sha256 : DataBlock.Sha256
  /-- `json.loads`; none is a `ValueError`. -/
  loads : List Char → Option Loaded
  /-- `str(value)`. -/
  strValue : Loaded → List Char
  /-- `quote(url, safe="")`. -/
  quoteAll : List Char → List Char
  extractPlain : List Char → ExtractedPage
  /-- `extract_html`, of a body that has been decoded. -/
  extractText : List Char → ExtractedPage

structure VideoInfo where
  title : List Char := []
  channel : List Char := []
  description : List Char := []
  durationS : Option Nat := none
  thumbnailUrl : List Char := []
  published : List Char := []
  authorUrl : List Char := []

/-- `found`. -/
def VideoInfo.found (info : VideoInfo) : Bool := info.title ≠ []

inductive VideoSite
  | youtube
  | vimeo
  deriving DecidableEq

/-- `site.capitalize()`. -/
def VideoSite.capitalized : VideoSite → List Char
  | .youtube => "Youtube".toList
  | .vimeo => "Vimeo".toList

/-- `OEMBED[site].format(url=url)`. -/
def VideoSite.endpoint (url : List Char) : VideoSite → List Char
  | .youtube => "https://www.youtube.com/oembed?format=json&url=".toList ++ url
  | .vimeo => "https://vimeo.com/api/oembed.json?url=".toList ++ url

/-- `_ISO_DURATION`. -/
def isoDuration : Pattern :=
  let part (number : Nat) (unit : String) : Pattern :=
    .opt (.all [.group number (.plus (.one isDigit)), .text unit])
  .all [.start, .text "P", part 1 "D", .opt (.text "T"), part 2 "H", part 3 "M", part 4 "S", .stop]

/-- `\d{1,2}(?::\d{2}){1,2}`. -/
def clockDuration : Pattern :=
  .all [.between 1 2 (.one isDigit),
    .between 1 2 (.all [.text ":", .between 2 2 (.one isDigit)])]

/-- `parse_duration` of a text. -/
def parseDurationText (value : List Char) : Except Unit (Option Nat) :=
  let text := strip value
  if text ≠ [] ∧ text.all isDigitChar then
    match intIn 10 text with
    | none => .error ()
    | some n => .ok (some n.toNat)
  else
    let clock : Option Nat :=
      if (fullmatch clockDuration text).isSome then
        some ((splitOn ':' text).foldl (fun seconds part => seconds * 60 + intOf part) 0)
      else none
    match matchStart isoDuration text with
    | none => .ok clock
    | some m =>
      if [1, 2, 3, 4].any (m.group · ≠ []) then
        .ok (some (intOf (m.group 1) * 86400 + intOf (m.group 2) * 3600 +
          intOf (m.group 3) * 60 + intOf (m.group 4)))
      else .ok clock

namespace ReadLib

variable (lib : ReadLib)

/-- `parse_duration`; an error is an exception. -/
def parseDuration : Loaded → Except Unit (Option Nat)
  | .bool b => .ok (some b.toNat)
  | .int n => .ok (if 0 ≤ n then some n.toNat else none)
  | .float q => .ok (if 0 ≤ q then some q.floor.toNat else none)
  | .nan => .ok none
  | .infinity negative => if negative then .ok none else .error ()
  | .null => parseDurationText []
  | .str text => parseDurationText text
  | .list [] => parseDurationText []
  | .dict [] => parseDurationText []
  | value => parseDurationText (lib.strValue value)

/-- `str(data.get(key, "")).strip()[:most]`. -/
def member (members : List (List Char × Loaded)) (key : String) (most : Nat) : List Char :=
  (strip (match members.lookup key.toList with
    | none => []
    | some value => lib.strValue value)).take most

/-- `parse_oembed`. -/
def parseOembed (body : List UInt8) : Except Unit VideoInfo :=
  match lib.codecs.decodeReplace utf8 body with
  | .error _ => .error ()
  | .ok text =>
    match lib.loads text with
    | some (.dict members) => do
      let duration ← lib.parseDuration ((members.lookup "duration".toList).getD .null)
      return {
        title := lib.member members "title" 300
        channel := lib.member members "author_name" 200
        description := lib.member members "description" 1000
        durationS := duration
        thumbnailUrl := lib.member members "thumbnail_url" 2048
        authorUrl := lib.member members "author_url" 2048 }
    | _ => .ok {}

/-- `extract_html`. -/
def extractHtml (body : List UInt8) (declared : Option (List Char)) : Except Unit ExtractedPage :=
  match decodeBody lib.codecs body declared with
  | .error _ => .error ()
  | .ok text => .ok (lib.extractText text)

/-- `parse_watch_page`. -/
def parseWatchPage (page : FetchedPage) : Except Unit VideoInfo := do
  let found ← lib.extractHtml page.body page.charset
  let duration ← parseDurationText found.duration
  return {
    title := found.title
    channel := found.author
    description := found.description.take 1000
    durationS := duration
    thumbnailUrl := found.imageUrl
    published := found.published }

end ReadLib

/-- `merge`. -/
def VideoInfo.merge (primary fallback : VideoInfo) : VideoInfo where
  title := if primary.title ≠ [] then primary.title else fallback.title
  channel := if primary.channel ≠ [] then primary.channel else fallback.channel
  description := if primary.description ≠ [] then primary.description else fallback.description
  durationS := primary.durationS.orElse fun _ => fallback.durationS
  thumbnailUrl := if primary.thumbnailUrl ≠ [] then primary.thumbnailUrl else fallback.thumbnailUrl
  published := if primary.published ≠ [] then primary.published else fallback.published
  authorUrl := if primary.authorUrl ≠ [] then primary.authorUrl else fallback.authorUrl

/-! ## What a read gives -/

/-- `DigestOutput`. -/
structure DigestOutput where
  title : List Char
  summary : List Char
  tags : List (List Char)
  cues : List (List Char)

/-- A passage of a page, as stored. -/
structure ChunkRow where
  position : Nat
  text : List Char
  contentHash : List Char
  embedding : Option Embedding
  embeddingModel : Option String

structure ReadResult where
  status : FetchStatus
  message : List Char
  reason : Option String := none
  rule : Option String := none
  title : List Char := []
  summary : List Char := []
  tags : List (List Char) := []
  cues : List (List Char) := []
  site : Option (List Char) := none
  author : Option (List Char) := none
  published : Option (List Char) := none
  description : Option (List Char) := none
  wordCount : Option Nat := none
  finalHost : Option (List Char) := none
  statusCode : Option Nat := none
  contentType : Option (List Char) := none
  bytesRead : Option Nat := none
  redirects : Option Nat := none
  extractionMethod : Option String := none
  channel : Option (List Char) := none
  durationS : Option Nat := none
  thumbnailUrl : Option (List Char) := none
  chunks : List ChunkRow := []
  digested : Bool := false
  video : Bool := false

/-- `text or None`. -/
def orNone (text : List Char) : Option (List Char) := if text = [] then none else some text

/-- `text or other`. -/
def orElse (text other : List Char) : List Char := if text = [] then other else text

/-- `sep.join(p for p in parts if p)`. -/
def joined (sep : String) (parts : List (List Char)) : List Char :=
  sep.toList.intercalate (parts.filter (· ≠ []))

/-- `refused_result`. -/
def refusedResult (rule message : String) : ReadResult :=
  let label := (ruleLabels.lookup rule).getD (if message = "" then "not allowed" else message)
  { status := .refused, rule := some rule, reason := some label
    message := ("Didn't open it: " ++ label ++ ".").toList }

def failedResult (reason : String) : ReadResult where
  status := .failed
  reason := some reason
  message := "Couldn't open it. Saved what you said.".toList

/-- The message for a page that is read in part. -/
def partlyMessage (reason : Option String) : List Char :=
  ("Could only read part of it (" ++ reason.getD "None" ++ "). Add the text?").toList

/-- `_partial`. -/
def partlyResult (reason : String) (host : Option (List Char)) : ReadResult where
  status := .partly
  reason := some reason
  message := partlyMessage (some reason)
  finalHost := host

/-- `_stamp`. -/
def ReadResult.stamp (result : ReadResult) (fetched : FetchedPage) : ReadResult :=
  { result with
    finalHost := some fetched.finalHost
    statusCode := some fetched.statusCode
    contentType := some fetched.contentType
    redirects := some fetched.redirects }

/-- `_why_partial`. -/
def ExtractedPage.whyPartial (page : ExtractedPage) : Option String :=
  if page.paywall then some "paywall"
  else if page.scriptOnly then some "needs JavaScript"
  else if page.tooShort then some "too short"
  else none

/-- Two digits. -/
def padded (n : Nat) : List Char := if n < 10 then '0' :: strOf n else strOf n

/-- `format_duration`. -/
def formatDuration : Option Nat → List Char
  | none => []
  | some seconds =>
    let hours := seconds / 3600
    let minutes := seconds % 3600 / 60
    let secs := seconds % 3600 % 60
    if hours ≠ 0 then strOf hours ++ ':' :: padded minutes ++ ':' :: padded secs
    else strOf minutes ++ ':' :: padded secs

/-- The digits of a number from the last one on, with a comma after every three. -/
def grouped : List Char → List Char
  | a :: b :: c :: d :: rest => a :: b :: c :: ',' :: grouped (d :: rest)
  | digits => digits

/-- `f"{n:,}"`. -/
def thousands (n : Nat) : List Char := (grouped (strOf n).reverse).reverse

structure ReadSettings where
  /-- `int(chunk_tokens / TOKENS_PER_WORD)`. -/
  perChunk : Nat
  /-- `int(target * overlap)`. -/
  share : Nat → Nat
  maxChunks : Nat := 40
  digestChars : Nat := 12000
  embeddingModel : Option String := none

/-! ## The reader -/

/-- The reader, with what it is given: the fetcher, the digest step and the embedding step, each of
which may go by all that was done before. -/
structure LinkReader (σ : Type) extends ReadLib where
  fetch : List Char → StateM σ (Except FetchError FetchedPage)
  digest : (source personSaid material : List Char) → StateM σ (Except Stop (Option DigestOutput))
  /-- A vector for each of the texts, or none. -/
  embed : (texts : List (List Char)) →
    StateM σ (Except Stop (Option { vectors : List Embedding // vectors.length = texts.length }))
  settings : ReadSettings

/-- An action of a read. -/
abbrev Reading (σ : Type) := ExceptT Escape (StateM σ)

/-- A model step in a read. -/
def stepOf {σ α : Type} (step : StateM σ (Except Stop α)) : Reading σ α :=
  ExceptT.mk do
    match ← step with
    | .ok a => return .ok a
    | .error s => return .error (.stop s)

/-- Pure work that may raise. -/
def raising {σ α : Type} (x : Except Unit α) : Reading σ α :=
  match x with
  | .ok a => return a
  | .error () => throw .uncaught

namespace LinkReader

variable {σ : Type} (r : LinkReader σ)

/-- `_scrubbed`. -/
def scrubbed (text : List Char) : List Char :=
  if text = [] then text else (Secrets.scanSecrets r.lower text).redacted

/-- `_has_secret`. -/
def hasSecret (texts : List (List Char)) : Bool :=
  (texts.filter (· ≠ [])).any fun text => (Secrets.scanSecrets r.lower text).hits ≠ []

/-- `_apply_digest`. -/
def applyDigest (result : ReadResult) (digest : Option DigestOutput)
    (fallbackTitle fallbackSummary : List Char) : ReadResult :=
  let digest := digest.filter fun d => !r.hasSecret (d.title :: d.summary :: d.tags ++ d.cues)
  match digest with
  | some d =>
    { result with
      title := orElse (strip d.title) (r.scrubbed fallbackTitle)
      summary := orElse (strip d.summary) (r.scrubbed fallbackSummary)
      tags := ((d.tags.filter (strip · ≠ [])).map fun t => r.lower (strip t)).take 6
      cues := ((d.cues.filter (strip · ≠ [])).map strip).take 3
      digested := true }
  | none =>
    { result with
      title := r.scrubbed fallbackTitle
      summary := r.scrubbed fallbackSummary }

/-- `_material`. -/
def material (page : ExtractedPage) : List Char :=
  let head := joined "\n"
    [line "Title: " page.title, line "Site: " page.site, line "Author: " page.author,
      line "Published: " page.published, line "Description: " page.description]
  DataBlock.dataBlock r.sha256 r.lower "page text".toList
    (strip (head ++ '\n' :: '\n' :: page.text.take r.settings.digestChars))
where
  /-- A line of the head, if there is something to say. -/
  line (name : String) (value : List Char) : List Char :=
    if value = [] then [] else name.toList ++ value

/-- A row of `_chunks`. -/
def chunkRow (model : Option String) (c : Chunking.Chunk) (vector : Option Embedding) :
    ChunkRow where
  position := c.position
  text := r.scrubbed c.text
  contentHash := r.sha256.hexdigest (r.scrubbed c.text)
  embedding := vector
  embeddingModel := model

/-- `_chunks`. -/
def chunks (title text : List Char) : Reading σ (List ChunkRow) := do
  let pieces := Chunking.chunkText r.settings.perChunk r.settings.share r.settings.maxChunks text
  if pieces = [] then return []
  match ← stepOf (r.embed (pieces.map fun c => title ++ '\n' :: '\n' :: c.text)) with
  | none => return pieces.map fun c => r.chunkRow none c none
  | some vectors =>
    return (pieces.zip vectors.1).map fun e => r.chunkRow r.settings.embeddingModel e.1 (some e.2)

/-- The digest of a page that has something to digest. -/
def digestPage (page : ExtractedPage) (personSaid : List Char) (what : String) :
    Reading σ (Option DigestOutput) :=
  if minWordsToKeep ≤ page.wordCount ∨ page.title ≠ [] ∨ page.description ≠ [] then
    stepOf (r.digest what.toList personSaid (r.material page))
  else pure none

/-- The end of `_finish`: what is said of the read. -/
def withMessage (page : ExtractedPage) (result : ReadResult) : ReadResult :=
  if result.status = .full then
    { result with
      message := joined " · " ["Read ".toList ++ result.title, result.site.getD [],
        thousands page.wordCount ++ " words".toList] }
  else if result.message = [] then { result with message := partlyMessage result.reason }
  else result

/-- `_finish`. -/
def finish (result : ReadResult) (source : LinkSource) (page : ExtractedPage)
    (personSaid : List Char) (what : String) : Reading σ ReadResult := do
  let digest ← r.digestPage page personSaid what
  let result := r.applyDigest result digest
    (orElse page.title (orElse (result.finalHost.getD []) source.url))
    (orElse page.description
      (if minWordsToKeep ≤ page.wordCount then page.text.take 280 else []))
  if minWordsToKeep ≤ page.wordCount then
    let chunks ← r.chunks result.title page.text
    return withMessage page { result with chunks := chunks }
  else return withMessage page result

/-- What a page is, once it is decoded: the text of `_text`, or that of `decode_body`. -/
def pageOf (fetched : FetchedPage) : Except Unit ExtractedPage :=
  if fetched.contentType = "text/plain".toList then
    match r.codecs.decodeReplace (fetched.charset.getD utf8) fetched.body with
    | .error _ => .error ()
    | .ok text => .ok (r.extractPlain text)
  else r.extractHtml fetched.body fetched.charset

/-- The result of an answer that is no page. -/
def unread (fetched : FetchedPage) : Option ReadResult :=
  let code := fetched.statusCode
  let partly (reason : String) : ReadResult := partlyResult reason (some fetched.finalHost)
  let result :=
    if code = 401 then some (partly "login required (HTTP 401)")
    else if code = 403 then some (partly "blocked (HTTP 403)")
    else if code = 429 then some (partly "too many requests (HTTP 429)")
    else if code = 404 ∨ code = 410 then some (failedResult "not found")
    else if 400 ≤ code then some (failedResult s!"HTTP {code}")
    else none
  result.map (·.stamp fetched)

/-- The result of a page, before the model steps. -/
def pageResult (fetched : FetchedPage) (page : ExtractedPage) : ReadResult :=
  let result : ReadResult :=
    { status := .full, message := [], bytesRead := some fetched.body.length
      extractionMethod := some page.method, wordCount := some page.wordCount
      site := some (orElse page.site (r.siteName fetched.finalHost))
      author := orNone page.author, published := orNone page.published
      description := orNone page.description, thumbnailUrl := orNone page.imageUrl }
  let result := result.stamp fetched
  match page.whyPartial with
  | none => result
  | some reason => { result with status := .partly, reason := some reason }

/-- `_from_page`. -/
def fromPage (source : LinkSource) (fetched : FetchedPage) (personSaid : List Char) :
    Reading σ ReadResult :=
  match unread fetched with
  | some result => pure result
  | none => do
    let page ← raising (r.pageOf fetched)
    r.finish (r.pageResult fetched page) source page personSaid "a web page"

/-- What an answer of a video site gives; a refusal, a failure or another status gives nothing. -/
def answerInfo (parse : FetchedPage → Except Unit VideoInfo) :
    Except FetchError FetchedPage → Except Unit VideoInfo
  | .ok page => if page.statusCode = 200 then parse page else .ok {}
  | .error .uncaught => .error ()
  | .error _ => .ok {}

/-- Nothing is left for the watch page to fill in. -/
def complete (info : VideoInfo) : Bool :=
  info.found ∧ info.description ≠ [] ∧ info.durationS.isSome

/-- `read_video`; an answer that gives nothing fills nothing in. -/
def readVideoInfo (url : List Char) (site : VideoSite) : Reading σ VideoInfo := do
  let oembed ← (r.fetch (site.endpoint (r.quoteAll url)) : StateM σ _)
  let info ← raising (answerInfo (fun page => r.parseOembed page.body) oembed)
  if complete info then return info
  let page ← (r.fetch url : StateM σ _)
  let fallback ← raising (answerInfo r.parseWatchPage page)
  return info.merge fallback

/-- The result of a video, before the digest. -/
def videoResult (info : VideoInfo) (site : VideoSite) : ReadResult where
  status := .full
  message := []
  site := some site.capitalized
  channel := orNone info.channel
  durationS := info.durationS
  thumbnailUrl := orNone info.thumbnailUrl
  description := orNone info.description
  published := orNone info.published
  extractionMethod := some "oembed"
  video := true
  title := info.title

/-- What the digest of a video is made from. -/
def videoMaterial (info : VideoInfo) : List Char :=
  let duration := if info.durationS.getD 0 = 0 then [] else formatDuration info.durationS
  DataBlock.dataBlock r.sha256 r.lower "video page metadata".toList (joined "\n"
    ["Title: ".toList ++ info.title, material.line "Channel: " info.channel,
      material.line "Duration: " duration, material.line "Description: " info.description])

/-- The end of `_read_video`: a video is found by who made it. -/
def videoDigested (info : VideoInfo) (result : ReadResult) : ReadResult :=
  let channel := r.lower (strip info.channel)
  { result with
    tags :=
      if channel ≠ [] ∧ channel ∉ result.tags then result.tags.take 5 ++ [channel]
      else result.tags
    message := joined " · "
      ["Read ".toList ++ result.title, info.channel, formatDuration info.durationS] }

/-- `_read_video`. -/
def readVideo (source : LinkSource) (site : VideoSite) (personSaid : List Char) :
    Reading σ ReadResult := do
  let info ← r.readVideoInfo source.url site
  if !info.found then return partlyResult "couldn't read the video's page" none
  let digest ← stepOf (r.digest
    ("a video on ".toList ++ site.capitalized ++ " (no transcript)".toList) personSaid
    (r.videoMaterial info))
  return r.videoDigested info
    (r.applyDigest (videoResult info site) digest info.title info.description)

/-- The site of a video, or none; an error is the `ValueError` of a URL that can't be split. -/
def siteOf (source : LinkSource) : Except Unit (Option VideoSite) :=
  if source.kind = .video then
    match r.videoSite source.url with
    | none => .error ()
    | some false => .ok none
    | some true =>
      let host := String.ofList (r.siteName (r.hostForLog source.url))
      .ok (some (if host ∈ Links.youtube then .youtube else .vimeo))
  else .ok none

/-- The result of a page that is not fetched. -/
def unfetched : FetchError → Except Unit ReadResult
  | .uncaught => .error ()
  | .failed reason _ => .ok (failedResult reason)
  | .refused rule message detail =>
    .ok (if rule = "too_large" then partlyResult "too large" none
      else if rule = "content_type" ∧ detail = "application/pdf".toList then
        partlyResult "PDF" none
      else refusedResult rule message)

/-- A page, fetched and read. -/
def readPage (source : LinkSource) (personSaid : List Char) : Reading σ ReadResult := do
  match ← (r.fetch source.url : StateM σ _) with
  | .ok fetched => r.fromPage source fetched personSaid
  | .error e => raising (unfetched e)

/-- `read`. -/
def read (source : LinkSource) (personSaid : List Char) : Reading σ ReadResult := do
  match ← raising (r.siteOf source) with
  | some site => r.readVideo source site personSaid
  | none => r.readPage source personSaid

end LinkReader

end Links
end SecondMind
