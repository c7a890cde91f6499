import SecondMind.Core.Triples
import SecondMind.Links.Urls

/-!
# The safe fetcher

`SafeFetcher` of `links/adapters/fetcher.py`, against a network that may answer anything: each
answer of the resolver and of a server may depend on all that was asked before.

* `World` — the network, and what was resolved and requested so far;
* `follow` — the loop over the redirects, `hop` one of its hops, with one retry;
* `fetch_safe` — every request goes to an address that was checked, and that a host of an accepted
  URL resolved to.
-/

set_option mvcgen.warning false

namespace SecondMind
namespace Links

open Std.Do

/-! ## The network -/

/-- How a wait ends: with an answer, an error of the network, an error of another kind (a body that
can't be decoded is no transport error), or the deadline. -/
inductive Answer (α : Type)
  | value (a : α)
  | broken
  | raised
  | timedOut

structure Response where
  status : Nat
  location : List Char := []
  contentType : List Char := []
  contentLength : List Char := []
  chunks : List (List UInt8) := []
  finish : Answer Unit := .value ()

/-- A request: where the connection goes, and what is sent. -/
structure Request where
  scheme : List Char
  address : List Char
  port : Nat
  pathQuery : List Char
  host : List Char
  sniHostname : Option (List Char)
  deriving DecidableEq

/-- A resolver and the servers, with a state of their own. -/
structure Network (σ : Type) where
  resolve : σ → List Char → Nat → Answer (List (List Char)) × σ
  send : σ → Request → Answer Response × σ
  sleep : σ → Answer Unit × σ

structure World (σ : Type) where
  state : σ
  resolved : List (List Char × List (List Char)) := []
  sent : List Request := []

/-- An exception on its way: one that leaves a hop, or one that a hop retries. -/
inductive Raised
  | error (e : FetchError)
  | transport
  | serverError
  | timedOut
  deriving DecidableEq

abbrev Fetch (σ : Type) := ExceptT Raised (StateM (World σ))

structure FetchPolicy where
  maxBytes : Nat := 2000000
  maxRedirects : Nat := 5
  allowHosts : List (List Char) := []

structure FetchedPage where
  url : List Char
  finalUrl : List Char
  finalHost : List Char
  statusCode : Nat
  contentType : List Char
  charset : Option (List Char)
  body : List UInt8
  redirects : Nat
  hosts : List (List Char)
  deriving DecidableEq

/-- `REDIRECTS`. -/
def redirectCodes : List Nat := [301, 302, 303, 307, 308]

/-- `ACCEPTED_TYPES`. -/
def acceptedTypes : List (List Char) :=
  ["text/html".toList, "application/xhtml+xml".toList, "text/plain".toList]

/-! ## One response -/

/-- `str.strip(chars)`. -/
def stripChars (chars text : List Char) : List Char :=
  ((text.dropWhile (· ∈ chars)).reverse.dropWhile (· ∈ chars)).reverse

section

variable {σ : Type} (lib : UrlLib) (network : Network σ) (policy : FetchPolicy)
  (join : List Char → List Char → Option (List Char))

/-- `_content_type`: the type, and the last charset that is given. -/
def contentTypeOf (raw : List Char) : List Char × Option (List Char) :=
  let charset := (splitOn ';' raw).tail.foldl (fun charset part =>
    let part := strip part
    if lib.lower (part.takeWhile (· ≠ '=')) = "charset".toList then
      let value := (part.dropWhile (· ≠ '=')).tail
      let value := lib.lower (stripChars ['"', '\'', ' '] value)
      if value = [] then none else some value
    else charset) none
  (lib.lower (strip (raw.takeWhile (· ≠ ';'))), charset)

/-- `self._resolve(host, port)`. -/
def resolve (host : List Char) (port : Nat) : Fetch σ (List (List Char)) := do
  let w ← get
  let (answer, state) := network.resolve w.state host port
  match answer with
  | .value addresses =>
    set { w with state := state, resolved := w.resolved ++ [(host, addresses)] }
    return addresses
  | .broken =>
    set { w with state := state }
    throw (.error (.failed "dns" "That address didn't resolve."))
  | .raised =>
    set { w with state := state }
    throw (.error .uncaught)
  | .timedOut =>
    set { w with state := state }
    throw .timedOut

/-- `client.send(request, stream=True)`. -/
def send (request : Request) : Fetch σ Response := do
  let w ← get
  let (answer, state) := network.send w.state request
  set { w with state := state, sent := w.sent ++ [request] }
  match answer with
  | .value response => return response
  | .broken => throw .transport
  | .raised => throw (.error .uncaught)
  | .timedOut => throw .timedOut

/-- `asyncio.sleep(0.2)`. -/
def sleep : Fetch σ Unit := do
  let w ← get
  let (answer, state) := network.sleep w.state
  set { w with state := state }
  match answer with
  | .timedOut => throw .timedOut
  | _ => return ()

/-- The body as it comes, cut off past `max_bytes`. -/
def readBody (maxBytes : Nat) (finish : Answer Unit) :
    List UInt8 → List (List UInt8) → Except Raised (List UInt8)
  | body, [] =>
    match finish with
    | .value () => .ok body
    | .broken => .error .transport
    | .raised => .error (.error .uncaught)
    | .timedOut => .error .timedOut
  | body, chunk :: chunks =>
    if maxBytes < body.length + chunk.length then
      .error (.error (.refused "too_large" "That page is too large." []))
    else readBody maxBytes finish (body ++ chunk) chunks

theorem readBody_length {maxBytes : Nat} {finish : Answer Unit} {body out : List UInt8}
    {chunks : List (List UInt8)} (hbody : body.length ≤ maxBytes)
    (h : readBody maxBytes finish body chunks = .ok out) : out.length ≤ maxBytes := by
  induction chunks generalizing body with
  | nil =>
    cases finish with
    | value u =>
      cases h
      exact hbody
    | broken => exact (nomatch h)
    | raised => exact (nomatch h)
    | timedOut => exact (nomatch h)
  | cons chunk chunks ih =>
    rw [readBody] at h
    split at h
    · exact (nomatch h)
    · rename_i hle
      refine ih ?_ h
      rw [List.length_append]
      omega

/-- `_read`. -/
def read (request : Request) : Fetch σ (Response × List UInt8) := do
  let response ← send network request
  if 500 ≤ response.status then throw .serverError
  if response.status ∈ redirectCodes ∨ 400 ≤ response.status then return (response, [])
  let contentType := (contentTypeOf lib response.contentType).1
  if contentType ≠ [] ∧ contentType ∉ acceptedTypes then
    throw (.error (.refused "content_type" "That isn't a web page or plain text." contentType))
  if response.contentLength ≠ [] ∧ response.contentLength.all isDigitChar then
    match intIn 10 response.contentLength with
    | none => throw (.error .uncaught)
    | some announced =>
      if policy.maxBytes * 50 < announced then
        throw (.error (.refused "too_large" "That page is too large." []))
  match readBody policy.maxBytes response.finish [] response.chunks with
  | .error e => throw e
  | .ok body => return (response, body)

/-! ## One hop -/

/-- `_address`: resolve once and check every address. -/
def addressOf (parsed : ParsedUrl) : Fetch σ (List Char) := do
  if parsed.isIpLiteral then return parsed.host
  let addresses ← resolve network parsed.host parsed.port
  if parsed.host ∉ policy.allowHosts then
    match checkResolved lib addresses with
    | .error e => throw (.error e)
    | .ok () => pure ()
  match addresses with
  | [] => throw (.error (.failed "dns" "That address didn't resolve."))
  | address :: _ => return address

/-- The request of a hop, to the address that was checked. -/
def requestTo (parsed : ParsedUrl) (address : List Char) : Request where
  scheme := parsed.scheme
  address := address
  port := parsed.port
  pathQuery := parsed.pathQuery
  host :=
    let default := parsed.port = if parsed.scheme = "https".toList then 443 else 80
    let name := if ':' ∈ parsed.host then '[' :: parsed.host ++ [']'] else parsed.host
    if default then name else name ++ ':' :: strOf parsed.port
  sniHostname :=
    if parsed.scheme = "https".toList ∧ ¬ parsed.isIpLiteral then some parsed.host else none

/-- The second attempt of a hop. -/
def retry (request : Request) : Fetch σ (Response × List UInt8) :=
  tryCatch (read lib network policy request) fun
    | .serverError => throw (.error (.failed "server_error" "The page couldn't be opened."))
    | .transport => throw (.error (.failed "connection" "The page couldn't be opened."))
    | e => throw e

/-- `_hop`: one request, and one more for a dropped connection or a server error. -/
def hop (parsed : ParsedUrl) : Fetch σ (Response × List UInt8) := do
  let address ← addressOf lib network policy parsed
  let request := requestTo parsed address
  tryCatch (read lib network policy request) fun
    | .serverError => do
      sleep network
      retry lib network policy request
    | .transport => do
      sleep network
      retry lib network policy request
    | e => throw e

/-! ## The redirects -/

/-- `_follow`, with the number of hops that are left. -/
def follow (url : List Char) (redirects : Nat) (current : List Char) (hosts : List (List Char)) :
    Nat → Fetch σ FetchedPage
  | 0 => throw (.error (.refused "too_many_redirects" "That link redirects too many times." []))
  | left + 1 => do
    match parseUrl lib policy.allowHosts current with
    | .error e => throw (.error e)
    | .ok parsed =>
      let hosts := hosts ++ [parsed.host]
      let (response, body) ← hop lib network policy parsed
      if response.status ∈ redirectCodes ∧ response.location ≠ [] then
        match join current response.location with
        | none => throw (.error .uncaught)
        | some next => follow url (redirects + 1) next hosts left
      else
        let (contentType, charset) := contentTypeOf lib response.contentType
        return {
          url := url
          finalUrl := current
          finalHost := parsed.host
          statusCode := response.status
          contentType := contentType
          charset := charset
          body := body
          redirects := redirects
          hosts := hosts }

/-- `fetch`: what comes back, and what was asked of the network on the way. -/
def fetch (url : List Char) (state : σ) : Except FetchError FetchedPage × World σ :=
  match (follow lib network policy join url 0 url [] (policy.maxRedirects + 1)).run.run
    { state := state } with
  | (.ok page, w) => (.ok page, w)
  | (.error (.error e), w) => (.error e, w)
  | (.error .timedOut, w) =>
    (.error (.failed "timeout" "The page took too long to answer."), w)
  | (.error _, w) => (.error .uncaught, w)

end

/-! ## Every request is safe -/

section

variable {σ : Type} {lib : UrlLib} {network : Network σ} {policy : FetchPolicy}
  {join : List Char → List Char → Option (List Char)}

/-- The address of a request may be connected to, and belongs to the host of an accepted URL. -/
def Safe (lib : UrlLib) (resolved : List (List Char × List (List Char))) (request : Request) :
    Prop :=
  Public lib request.address ∧ ∃ url parsed, parseUrl lib [] url = .ok parsed ∧
    if parsed.isIpLiteral then request.address = parsed.host
    else ∃ addresses, (parsed.host, addresses) ∈ resolved ∧ request.address ∈ addresses

theorem Safe.mono {resolved more : List (List Char × List (List Char))} {request : Request}
    (h : Safe lib resolved request) : Safe lib (resolved ++ more) request := by
  obtain ⟨hpublic, url, parsed, hparsed, haddress⟩ := h
  refine ⟨hpublic, url, parsed, hparsed, ?_⟩
  split
  · rwa [if_pos (by assumption)] at haddress
  · rw [if_neg (by assumption)] at haddress
    obtain ⟨addresses, hmem, hin⟩ := haddress
    exact ⟨addresses, List.mem_append_left _ hmem, hin⟩

/-- All requests so far are safe, and there are at most so many. -/
def Sound (lib : UrlLib) (n : Nat) (w : World σ) : Prop :=
  (∀ request ∈ w.sent, Safe lib w.resolved request) ∧ w.sent.length ≤ n

theorem Sound.mono {n m : Nat} {w : World σ} (h : Sound lib n w) (hle : n ≤ m) : Sound lib m w :=
  ⟨h.1, h.2.trans hle⟩

theorem Sound.resolve {n : Nat} {w : World σ} (h : Sound lib n w) (state : σ) (host : List Char)
    (addresses : List (List Char)) :
    Sound lib n { w with state := state, resolved := w.resolved ++ [(host, addresses)] } :=
  ⟨fun request hm => (h.1 request hm).mono, h.2⟩

theorem Sound.send {n : Nat} {w : World σ} {request : Request} (h : Sound lib n w)
    (hsafe : Safe lib w.resolved request) (state : σ) :
    Sound lib (n + 1) { w with state := state, sent := w.sent ++ [request] } := by
  refine ⟨fun request' hm => ?_, ?_⟩
  · rcases List.mem_append.1 hm with hm | hm
    · exact h.1 request' hm
    · rw [List.mem_singleton] at hm
      exact hm ▸ hsafe
  · rw [List.length_append, List.length_singleton]
    exact Nat.succ_le_succ h.2

theorem resolve_spec (host : List Char) (port n : Nat) :
    ⦃fun w => ⌜Sound lib n w⌝⦄
    resolve network host port
    ⦃post⟨fun addresses w => ⌜Sound lib n w ∧ (host, addresses) ∈ w.resolved⌝,
      fun _ w => ⌜Sound lib n w⌝⟩⦄ := by
  mvcgen [resolve]
  rename_i h addresses _
  exact ⟨h.resolve _ host addresses, by simp⟩

theorem send_spec (request : Request) (n : Nat) :
    ⦃fun w => ⌜Sound lib n w ∧ Safe lib w.resolved request⌝⦄
    send network request
    ⦃post⟨fun _ w => ⌜Sound lib (n + 1) w ∧ Safe lib w.resolved request⌝,
      fun _ w => ⌜Sound lib (n + 1) w ∧ Safe lib w.resolved request⌝⟩⦄ := by
  mvcgen [send]
  case vc1.h_1 h _ _ => exact ⟨h.1.send h.2 _, h.2⟩
  all_goals
    rename_i h _
    exact ⟨h.1.send h.2 _, h.2⟩

theorem sleep_spec (request : Request) (n : Nat) :
    ⦃fun w => ⌜Sound lib n w ∧ Safe lib w.resolved request⌝⦄
    sleep network
    ⦃post⟨fun _ w => ⌜Sound lib n w ∧ Safe lib w.resolved request⌝,
      fun _ w => ⌜Sound lib n w⌝⟩⦄ := by
  mvcgen [sleep]
  rename_i h _
  exact h.1

theorem read_spec (request : Request) (n : Nat) :
    ⦃fun w => ⌜Sound lib n w ∧ Safe lib w.resolved request⌝⦄
    read lib network policy request
    ⦃post⟨fun x w => ⌜Sound lib (n + 1) w ∧ x.2.length ≤ policy.maxBytes⌝,
      fun _ w => ⌜Sound lib (n + 1) w ∧ Safe lib w.resolved request⌝⟩⦄ := by
  mvcgen [read, send_spec]
  case vc3.post.success.isFalse.isTrue h => exact ⟨h.1, Nat.zero_le _⟩
  all_goals
    rename_i hbody _ h
    exact ⟨h.1, readBody_length (Nat.zero_le _) hbody⟩

theorem addressOf_spec {url : List Char} {parsed : ParsedUrl} (hallow : policy.allowHosts = [])
    (hparsed : parseUrl lib [] url = .ok parsed) (n : Nat) :
    ⦃fun w => ⌜Sound lib n w⌝⦄
    addressOf lib network policy parsed
    ⦃post⟨fun address w => ⌜Sound lib n w ∧ Safe lib w.resolved (requestTo parsed address)⌝,
      fun _ w => ⌜Sound lib n w⌝⟩⦄ := by
  mvcgen [addressOf, resolve_spec]
  case vc1.isTrue hliteral _ h =>
    exact ⟨h, parseUrl_literal hparsed hliteral, url, parsed, hparsed, by rw [if_pos hliteral]; rfl⟩
  case vc5.isFalse.post.success.isTrue.h_2.h_2 hliteral _ _ _ _ _ hresolved _ _ heq _ h =>
    have hpublic := (checkResolved_public hresolved).2
    rw [heq] at hpublic
    refine ⟨h.1, hpublic _ List.mem_cons_self, url, parsed, hparsed, ?_⟩
    rw [if_neg hliteral]
    exact ⟨_, h.2, List.mem_cons_self⟩
  case vc7.isFalse.post.success.isFalse.h_2 =>
    exact absurd (by rw [hallow]; exact List.not_mem_nil) ‹¬parsed.host ∉ policy.allowHosts›
  all_goals
    rename_i h
    exact h.1

theorem retry_spec (request : Request) (n : Nat) :
    ⦃fun w => ⌜Sound lib n w ∧ Safe lib w.resolved request⌝⦄
    retry lib network policy request
    ⦃post⟨fun x w => ⌜Sound lib (n + 1) w ∧ x.2.length ≤ policy.maxBytes⌝,
      fun _ w => ⌜Sound lib (n + 1) w⌝⟩⦄ := by
  have hread := @read_spec σ lib network policy request n
  mvcgen [retry, hread]
  case vc2.post.success => exact fun h hbody => ⟨h, hbody⟩
  all_goals
    rename_i h
    exact h.1

theorem hop_spec {url : List Char} {parsed : ParsedUrl} (hallow : policy.allowHosts = [])
    (hparsed : parseUrl lib [] url = .ok parsed) (n : Nat) :
    ⦃fun w => ⌜Sound lib n w⌝⦄
    hop lib network policy parsed
    ⦃post⟨fun x w => ⌜Sound lib (n + 2) w ∧ x.2.length ≤ policy.maxBytes⌝,
      fun _ w => ⌜Sound lib (n + 2) w⌝⟩⦄ := by
  have haddress := @addressOf_spec σ lib network policy url parsed hallow hparsed n
  have hread := fun request => @read_spec σ lib network policy request n
  have hsleep := fun request => @sleep_spec σ lib network request (n + 1)
  have hretry := fun request => @retry_spec σ lib network policy request (n + 1)
  mvcgen [hop, haddress, hread, hsleep, hretry]
  case vc3.post.success.post.success => exact fun h hbody => ⟨h.mono (by omega), hbody⟩
  case vc12.post.success.post.except.handle.h_3 h => exact h.1.mono (by omega)
  all_goals exact fun h => h.mono (by omega)

theorem follow_spec (hallow : policy.allowHosts = []) (url : List Char) (left n redirects : Nat)
    (current : List Char) (hosts : List (List Char)) :
    ⦃fun w => ⌜Sound lib n w⌝⦄
    follow lib network policy join url redirects current hosts left
    ⦃post⟨fun page w => ⌜Sound lib (n + 2 * left) w ∧ page.body.length ≤ policy.maxBytes⌝,
      fun _ w => ⌜Sound lib (n + 2 * left) w⌝⟩⦄ := by
  induction left generalizing n redirects current hosts with
  | zero => mvcgen [follow]
  | succ left ih =>
    have hhop := fun parsed h => @hop_spec σ lib network policy current parsed hallow h n
    have hih := ih (n + 2)
    mvcgen [follow, hhop, hih]
    case vc2.h hparsed _ _ _ =>
      rw [hallow] at hparsed
      exact hparsed
    case vc1.succ.h_1 h => exact h.mono (by omega)
    case vc4.succ.h_2.post.success.isTrue.h_1 h => exact h.1.mono (by omega)
    case vc5.succ.h_2.post.success.isTrue.h_2.pre h => exact h.1
    case vc6.succ.h_2.post.success.isTrue.h_2.post.success =>
      exact fun h hbody => ⟨h.mono (by omega), hbody⟩
    case vc8.succ.h_2.post.success.isFalse h => exact ⟨h.1.mono (by omega), h.2⟩
    all_goals exact fun h => h.mono (by omega)

/-- **Fetching is safe**: whatever the resolver and the servers answer, every request goes to an
address that may be connected to and that belongs to the host of an accepted URL; there are at most
two for the URL and for each redirect; and the body that is kept is no longer than allowed. -/
theorem fetch_safe (lib : UrlLib) (network : Network σ)
    (join : List Char → List Char → Option (List Char)) (maxBytes maxRedirects : Nat)
    (url : List Char) (state : σ) :
    let policy : FetchPolicy := { maxBytes := maxBytes, maxRedirects := maxRedirects }
    let x := fetch lib network policy join url state
    (∀ request ∈ x.2.sent, Safe lib x.2.resolved request) ∧
      x.2.sent.length ≤ 2 * (maxRedirects + 1) ∧
      ∀ page, x.1 = .ok page → page.body.length ≤ maxBytes := by
  intro policy x
  have hstart : Sound lib 0 ({ state := state } : World σ) :=
    ⟨fun request hm => absurd hm List.not_mem_nil, le_rfl⟩
  have hfollow := @follow_spec σ lib network policy join rfl url (maxRedirects + 1) 0 0 url []
  have hrun := run_of_triple hfollow hstart
  have hx : x = fetch lib network policy join url state := rfl
  unfold fetch at hx
  split at hx
  all_goals
    rename_i heq
    rw [heq] at hrun
    rw [hx]
  · refine ⟨hrun.1.1, by simpa using hrun.1.2, fun page' hpage => ?_⟩
    cases hpage
    exact hrun.2
  all_goals exact ⟨hrun.1, by simpa using hrun.2, fun page hpage => (nomatch hpage)⟩

end

/-! ## A server that fails once -/

/-- A library that knows one URL. -/
def onePage : UrlLib where
  classification :=
    { isLoopback := fun _ => false, isUnspecified := fun _ => false, isLinkLocal := fun _ => false
      isMulticast := fun _ => false, isGlobal := fun _ => true }
  lower := id
  idna := some
  ipv6Address := fun _ => none
  ipAddress := fun text => if text = "93.184.216.34".toList then some (.v4 0x5db8d822) else none
  str := fun _ => []
  urlsplit := fun url =>
    if url = "http://example.com/".toList then
      some ⟨"http".toList, "example.com".toList, "/".toList, [], none, none,
        some "example.com".toList, none⟩
    else none
  urlunsplit := fun path _ => path

/-- A server whose first answer is an error. -/
def flaky : Network Bool where
  resolve failed _ _ := (.value ["93.184.216.34".toList], failed)
  send failed _ := (.value { status := if failed then 200 else 500 }, true)
  sleep failed := (.value (), failed)

/-- A hop that is tried again makes two requests, although no redirect is allowed. -/
theorem fetch_retries :
    ¬ (fetch onePage flaky { maxRedirects := 0 } (fun _ _ => none) "http://example.com/".toList
      false).2.sent.length ≤ 0 + 1 := by
  decide +kernel

end Links
end SecondMind
