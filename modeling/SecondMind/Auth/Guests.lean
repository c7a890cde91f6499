import SecondMind.Auth.Sessions
import SecondMind.Metering.Spend
import SecondMind.Persona.Template
import SecondMind.Steps.Pool
import SecondMind.Texts.Words

/-!
# Guests and their samples

`api/routes/guest.py`, `api/routes/persona.py`, `PersonaService`, the identity store and the daily
counters of the spend store: the requests that make guests and their copies of the sample persona,
as programs of transactions.

* `clientAddress` — the address that counts;
* `Site`, `exec` — the tables, the daily counters, and what a transaction does to them;
* `Services.startGuest`, `Services.openScratch`, `Services.openPersona`, `Services.resetPersona`,
  `Services.expireGuests` — the requests, and the daily job;
* `Services.run` — the site, when they come in any order and run side by side.

The new ids, the answers of the rate limiter and how addresses are normalised are given.
-/

namespace SecondMind
namespace Guests

open Steps Sessions Gregorian
open Persona (Content WorkspaceKind Workspace Workspaces CopyError CopiedTable Random UuidText
  copyPersonaTemplate)

/-! ## Addresses -/

/-- The entries of `X-Forwarded-For`. -/
def forwardedEntries (forwardedFor : Option (List Char)) : List (List Char) :=
  (((forwardedFor.getD []).splitOn ',').map (Texts.strip isSpace)).filter (· ≠ [])

/-- `client_address`. -/
def clientAddress (normalise : List Char → List Char) (forwardedFor peer : Option (List Char))
    (hops : Nat) : List Char :=
  let entries := forwardedEntries forwardedFor
  let connection := (peer.filter (· ≠ [])).getD "unknown".toList
  normalise <|
    if 1 ≤ hops ∧ hops ≤ entries.length then (entries[entries.length - hops]?).getD connection
    else connection

/-! ## The site -/

inductive Tier
  | guest | standard | premium
  deriving DecidableEq, Repr

/-- A row of `users`. -/
structure User where
  id : Uuid
  email : Option String := none
  tier : Tier := .standard
  createdAt : Instant
  deriving DecidableEq

/-- A row of `workspaces`, with the rows of the workspace. -/
structure WorkspaceRow extends Workspace where
  id : Uuid
  timezone : String
  createdAt : Instant
  expiredAt : Option Instant := none
  deriving DecidableEq

/-- The identity tables, and the daily counters with the moments they are dropped at. -/
structure Site where
  now : Moment
  users : List User := []
  workspaces : List WorkspaceRow := []
  daily : List Char × Date → Option (Nat × Instant) := fun _ => none

namespace Site

variable (site : Site)

def getUser (id : Uuid) : Option User := site.users.find? fun u => u.id = id

def getWorkspace (id : Uuid) : Option WorkspaceRow := site.workspaces.find? fun w => w.id = id

/-- `workspaces_for`. -/
def workspacesFor (user : Uuid) : List WorkspaceRow :=
  (site.workspaces.filter fun w =>
    w.ownerUserId = user ∧ w.kind ≠ .template ∧ w.expiredAt = none).mergeSort
      fun v w => v.createdAt ≤ w.createdAt

/-- `template_for`. -/
def templateFor (seedId : String) : Option WorkspaceRow :=
  site.workspaces.find? fun w => w.kind = .template ∧ w.seedId = some seedId

/-- The workspaces by their ids, as the copying function sees them. -/
def table : Workspaces := fun id => (site.getWorkspace id).map (·.toWorkspace)

/-- An owner has at most one workspace of these kinds: the unique indexes. -/
def taken (owner : Uuid) (kind : WorkspaceKind) : Bool :=
  (kind = .private ∨ kind = .personaCopy ∨ kind = .scratch) ∧
    site.workspaces.any fun w => w.ownerUserId = owner ∧ w.kind = kind

/-- The count of a key today, unless it was dropped. -/
def countToday (key : List Char) : Nat :=
  match site.daily (key, site.now.utcDay) with
  | some (count, dropped) => if site.now.time < dropped then count else 0
  | none => 0

/-- `DAY_TTL_S`. -/
def dayTtl : Instant := 3 * day

/-- `incr_daily`. -/
def incrDaily (key : List Char) : Site :=
  { site with
    daily := Function.update site.daily (key, site.now.utcDay)
      (some (site.countToday key + 1, site.now.time + dayTtl)) }

/-- `time.time()`. -/
def unixTime : Rat := ((site.now.time - 719163 * day : Int) : Rat) / second

/-- `_seconds_to_midnight`. -/
def toMidnight : Instant := site.now.dayStart + day - site.now.time

end Site

/-! ## Transactions -/

/-- What a request is refused with, or what stops it. -/
inductive SiteError
  | notFound (message : String)
  | rateLimited (message : String) (wait : Instant)
  | unauthenticated (message : String)
  | forbidden (message : String)
  | lookup
  | cancelled
  | integrity
  | copy (e : CopyError)
  | token (e : SessionError)
  | store
  deriving DecidableEq

/-- One transaction, or a look at the clock. -/
inductive Act
  /-- A read: nothing is changed. -/
  | wait
  | tick (later : Moment)
  | incrDaily (key : List Char)
  | createUser (id : Uuid) (tier : Tier)
  | deleteUser (id : Uuid)
  | createWorkspace (id selfId owner : Uuid) (kind : WorkspaceKind) (timezone : String)
  | deleteWorkspace (id : Uuid)
  | copyTemplate (random : Random) (template workspace user : Uuid) (movedDays : Int)
  | rebaseKeys (workspace : Uuid) (timezone : String)
  | expireGuests (before : Instant)

/-- The rows a new workspace has: its own `self` entity. -/
def bornContent (selfId : Uuid) (now : Instant) : Content where
  entities := [{
    kind := .self
    name := "me"
    id := selfId
    createdAt := now
    updatedAt := now
    createdByTurnId := none
    updatedByTurnId := none }]

/-- What is left of the rows of an expired workspace. -/
def emptied (c : Content) : Content where
  entities := (c.entities.filter fun e => e.kind = .self).map fun e =>
    { e with aliases := [], labels := [], attributes := .obj [], summary := none }

/-- `expire_guest_workspaces`. -/
def Site.expireGuests (site : Site) (before : Instant) : Site :=
  { site with
    workspaces := site.workspaces.map fun w =>
      if (site.users.any fun u => u.id = w.ownerUserId ∧ u.tier = .guest ∧ u.createdAt < before) ∧
          w.expiredAt = none ∧ (w.kind = .personaCopy ∨ w.kind = .scratch ∨ w.kind = .guest) then
        { w with expiredAt := some site.now.time, content := emptied w.content }
      else w }

/-- `copy_template`. -/
def Site.copyTemplate (u : UuidText) (random : Random) (template workspace user : Uuid)
    (movedDays : Int) (site : Site) : Except SiteError Site :=
  match copyPersonaTemplate u random ⟨movedDays, site.now.time⟩ template workspace user site.table with
  | .error e => .error (.copy e)
  | .ok table => .ok { site with
      workspaces := site.workspaces.map fun w =>
        if w.id = workspace then { w with toWorkspace := (table workspace).getD w.toWorkspace }
        else w }

/-- `create_workspace`. -/
def Site.createWorkspace (site : Site) (id selfId owner : Uuid) (kind : WorkspaceKind)
    (timezone : String) : Except SiteError Site :=
  if (site.getWorkspace id).isSome ∨ (site.getUser owner).isNone ∨ site.taken owner kind then
    .error .integrity
  else .ok { site with
    workspaces := site.workspaces ++ [{
      id := id
      ownerUserId := owner
      kind := kind
      timezone := timezone
      createdAt := site.now.time
      content := bornContent selfId site.now.time }] }

/-- What a transaction does; `rerender` is what the keys of a workspace become. -/
def exec (u : UuidText) (rerender : String → Content → Content) : Act → Site → Except SiteError Site
  | .wait, site => .ok site
  | .tick later, site =>
    .ok { site with now := if site.now.time ≤ later.time then later else site.now }
  | .incrDaily key, site => .ok (site.incrDaily key)
  | .createUser id tier, site =>
    if (site.getUser id).isSome then .error .integrity
    else .ok { site with users := site.users ++ [{ id, tier, createdAt := site.now.time }] }
  | .deleteUser id, site =>
    .ok { site with
      users := site.users.filter fun u => u.id ≠ id
      workspaces := site.workspaces.filter fun w => w.ownerUserId ≠ id }
  | .createWorkspace id selfId owner kind timezone, site =>
    site.createWorkspace id selfId owner kind timezone
  | .deleteWorkspace id, site =>
    .ok { site with workspaces := site.workspaces.filter fun w => w.id ≠ id }
  | .copyTemplate random template workspace user movedDays, site =>
    site.copyTemplate u random template workspace user movedDays
  | .rebaseKeys workspace timezone, site =>
    .ok { site with
      workspaces := site.workspaces.map fun w =>
        if w.id = workspace then { w with content := rerender timezone w.content } else w }
  | .expireGuests before, site => .ok (site.expireGuests before)

/-- A part of a request. -/
abbrev Run := Raising Act Site SiteError

def wait : Run Site := Raising.perform .wait

/-! ## The persona service -/

structure PersonaService where
  seedId : String
  zone : Zone
  anchor : Instant

/-- `moved_days`. -/
def PersonaService.movedDays (p : PersonaService) (now : Instant) : Int :=
  max 0 (p.zone.toLocal now / day - p.zone.toLocal p.anchor / day)

/-- The ids that the making of a copy draws. -/
structure Drawn where
  workspace : Uuid
  self : Uuid
  random : Random

/-- The `try` block of `make_copy`, and its handler: a cancellation is no `Exception`. -/
def fillCopy (ids : Drawn) (user template : Uuid) (movedDays : Int) (timezone : String) :
    Run Unit :=
  tryCatch
    (do
      let _ ← Raising.perform
        (.copyTemplate ids.random template ids.workspace user movedDays)
      let _ ← Raising.perform (.rebaseKeys ids.workspace timezone)
      return ())
    fun e => do
      if e = .cancelled then throw e
      else
        let _ ← Raising.perform (.deleteWorkspace ids.workspace)
        throw e

namespace PersonaService

variable (p : PersonaService)

/-- `make_copy`. -/
def makeCopy (ids : Drawn) (user : Uuid) : Run (Option WorkspaceRow) := do
  let site ← wait
  match site.templateFor p.seedId with
  | none => throw .lookup
  | some template =>
    let created ← Raising.perform
      (.createWorkspace ids.workspace ids.self user .personaCopy template.timezone)
    fillCopy ids user template.id (p.movedDays created.now.time) template.timezone
    let site ← wait
    return site.getWorkspace ids.workspace <|> created.getWorkspace ids.workspace

/-- `copy_for`. -/
def copyFor (ids : Drawn) (user : Uuid) : Run (Option WorkspaceRow) := do
  let site ← wait
  match (site.workspacesFor user).find? fun w => w.kind = .personaCopy with
  | some w => return some w
  | none => p.makeCopy ids user

/-- The loop of `reset_for`. -/
def deleteCopies : List WorkspaceRow → Run Unit
  | [] => return ()
  | w :: rest => do
    if w.kind = .personaCopy then
      let _ ← Raising.perform (.deleteWorkspace w.id)
      deleteCopies rest
    else deleteCopies rest

/-- `reset_for`. -/
def resetFor (ids : Drawn) (user : Uuid) : Run (Option WorkspaceRow) := do
  let site ← wait
  deleteCopies (site.workspacesFor user)
  p.makeCopy ids user

end PersonaService

/-! ## Requests -/

/-- What a request answers. -/
inductive Answer
  | me (user : User) (workspaces : List WorkspaceRow)
  | workspace (w : Option WorkspaceRow)
  | done

/-- A request for `start_guest`, with what is given for it. -/
structure GuestRequest where
  forwardedFor : Option (List Char) := none
  peer : Option (List Char) := none
  accessCode : Option (List Char) := none
  device : Option PyStr := none
  /-- The answer of the limiter of attempts. -/
  limited : Option Instant := none
  user : Uuid
  ids : Drawn

/-- A request of a person who is signed in. -/
structure SignedRequest where
  user : Uuid
  limited : Option Instant := none
  ids : Drawn

inductive Request
  | guest (r : GuestRequest)
  | scratch (r : SignedRequest)
  | openPersona (r : SignedRequest)
  | resetPersona (r : SignedRequest)
  | expire
  | tick (later : Moment)

/-- The settings, and what the services are built with. -/
structure Services where
  guestsOpen : Bool
  accessCodeRequired : Bool
  accessCode : Option (List Char)
  trustedProxyHops : Nat
  guestNewPerIpPerDay : Nat
  guestTtlDays : Nat
  defaultTimezone : String
  persona : Option PersonaService
  device : SessionSigner
  hmac : List UInt8 → List UInt8 → List UInt8
  normalise : List Char → List Char
  uuidText : UuidText
  rerender : String → Content → Content

namespace Services

variable (s : Services)

/-- `_address`. -/
def address (r : GuestRequest) : List Char :=
  clientAddress s.normalise r.forwardedFor r.peer s.trustedProxyHops

def guestKey (address : List Char) : List Char := "guests:".toList ++ address

/-- `_check_code`. -/
def checkCode (r : GuestRequest) : Run Unit := do
  if s.guestsOpen ∨ ¬ s.accessCodeRequired then return ()
  else
    let _ ← wait
    match r.limited with
    | some seconds =>
      throw (.rateLimited "Too many attempts. Wait a moment and try again." seconds)
    | none =>
      if s.accessCode = some (r.accessCode.getD []) then return ()
      else throw (.unauthenticated "That access code isn't right.")

/-- The user that a device cookie names. -/
def deviceUser (r : GuestRequest) : Run (Option Uuid) := do
  match r.device.filter (· ≠ []) with
  | none => return none
  | some token =>
    let site ← wait
    match s.device.verify s.hmac site.unixTime token with
    | .error e => throw (.token e)
    | .ok user => return user.map (·.val)

/-- `_returning`. -/
def returning (r : GuestRequest) : Run (Option User) := do
  match ← s.deviceUser r with
  | none => return none
  | some id =>
    let site ← wait
    match (site.getUser id).filter fun user => user.tier = .guest with
    | none => return none
    | some user =>
      let site ← wait
      return if (site.workspacesFor user.id).any fun w => w.kind = .personaCopy then some user
        else none

/-- The sample of a new guest: a guest whose sample is not loaded is deleted. -/
def sample (p : PersonaService) (r : GuestRequest) : Run Unit :=
  tryCatch
    (do
      let _ ← p.makeCopy r.ids r.user
      return ())
    fun e => do
      if e = .lookup then
        let _ ← Raising.perform (.deleteUser r.user)
        throw (.notFound "The sample persona isn't loaded yet. Try again in a minute.")
      else throw e

/-- The new guest of `start_guest`. -/
def newGuest (p : PersonaService) (r : GuestRequest) : Run Answer := do
  let key := guestKey (s.address r)
  let counted ← Raising.perform (.incrDaily key)
  if s.guestNewPerIpPerDay < counted.countToday key then
    throw (.rateLimited ("There are a lot of new guests from your network today. " ++
      "Try again tomorrow, or sign in.") counted.toMidnight)
  else
    let created ← Raising.perform (.createUser r.user .guest)
    sample p r
    let site ← wait
    return .me { id := r.user, tier := .guest, createdAt := created.now.time }
      (site.workspacesFor r.user)

/-- `start_guest`. -/
def startGuest (r : GuestRequest) : Run Answer := do
  match s.persona with
  | none => throw (.notFound "The sample persona isn't available.")
  | some p =>
    s.checkCode r
    match ← s.returning r with
    | some user =>
      let site ← wait
      return .me user (site.workspacesFor user.id)
    | none => s.newGuest p r

/-- `open_scratch`. -/
def openScratch (r : SignedRequest) : Run Answer := do
  let site ← wait
  match site.getUser r.user with
  | none => throw (.unauthenticated "Sign in first.")
  | some user =>
    if user.tier ≠ .guest then
      throw (.forbidden "A scratch memory is for guests. Your own memory is already empty.")
    else
      let site ← wait
      match (site.workspacesFor r.user).find? fun w => w.kind = .scratch with
      | some w => return .workspace (some w)
      | none =>
        let created ← Raising.perform
          (.createWorkspace r.ids.workspace r.ids.self r.user .scratch s.defaultTimezone)
        return .workspace (created.getWorkspace r.ids.workspace)

/-- `_persona` and `_limited`, and the answer of a `LookupError`. -/
def personaRoute (r : SignedRequest) (copy : PersonaService → Run (Option WorkspaceRow)) :
    Run Answer := do
  match s.persona with
  | none => throw (.notFound "The sample persona isn't available.")
  | some p =>
    let _ ← wait
    match r.limited with
    | some seconds => throw (.rateLimited "That was a lot of copies. Wait a moment." seconds)
    | none =>
      tryCatch
        (do
          let w ← copy p
          return .workspace w)
        fun e =>
          if e = .lookup then
            throw (.notFound "The sample persona isn't loaded yet. Try again in a minute.")
          else throw e

/-- `open_persona`. -/
def openPersona (r : SignedRequest) : Run Answer :=
  s.personaRoute r fun p => p.copyFor r.ids r.user

/-- `reset_persona`. -/
def resetPersona (r : SignedRequest) : Run Answer :=
  s.personaRoute r fun p => p.resetFor r.ids r.user

/-- The daily job. -/
def expireGuests : Run Answer := do
  let site ← wait
  let _ ← Raising.perform (.expireGuests (site.now.time - s.guestTtlDays * day))
  return .done

/-- What a request does. -/
def program : Request → Program Act Site SiteError (Except SiteError Answer)
  | .guest r => (s.startGuest r).run
  | .scratch r => (s.openScratch r).run
  | .openPersona r => (s.openPersona r).run
  | .resetPersona r => (s.resetPersona r).run
  | .expire => s.expireGuests.run
  | .tick later => .act (.tick later) fun _ => .done (.ok .done)

/-- The site, and the requests to it. -/
abbrev Traffic := Pool Request Act Site SiteError (Except SiteError Answer)

/-- The run of requests that come and go on as scheduled. -/
def run (start : Site) (moves : List (Steps.Move Request SiteError)) : Traffic :=
  Pool.run (exec s.uuidText s.rerender) s.program { world := start } moves

end Services

end Guests
end SecondMind
