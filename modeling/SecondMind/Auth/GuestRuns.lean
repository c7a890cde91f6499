import SecondMind.Auth.Guests

/-!
# Runs of guests' requests

What holds of the site whatever requests come, in whatever order their transactions are done, and
wherever they fail.

* `Services.Rule`, `keeps_program` — what the requests do one after the other;
* `run_kept` — what every action that is allowed keeps holds in every run;
* `guests_capped` — the new guests of an address and a day.
-/

namespace SecondMind
namespace Guests

open Steps Gregorian
open Persona (WorkspaceKind)

/-! ## What a request does -/

/-- The copy that is being made, and whether the rows of the template are in it. -/
def makes : Act → Option (Uuid × Bool) → Option (Uuid × Bool)
  | .createWorkspace id _ _ .personaCopy _, _ => some (id, false)
  | .copyTemplate _ _ id _ _, m => m.map fun made => if made.1 = id then (id, true) else made
  | .rebaseKeys id _, m => m.filter (·.1 ≠ id)
  | .deleteWorkspace id, m => m.filter (·.1 ≠ id)
  | _, m => m

abbrev Done := Past Act Site SiteError

def making : Done → Option (Uuid × Bool)
  | [] => none
  | (a, .ok _) :: past => makes a (making past)
  | (_, .error _) :: past => making past

/-- A counter was raised. -/
def Act.isCount : Act → Bool
  | .incrDaily _ => true
  | _ => false

/-- What a request may do, after what it did. -/
def Services.Rule (s : Services) (l : Request) (past : Done) : Act → Prop
  | .incrDaily key => (∃ r, l = .guest r ∧ key = Services.guestKey (s.address r)) ∧
      ∀ e ∈ past, e.1.isCount = false
  | .createUser _ _ => ∃ key site, (Act.incrDaily key, .ok site) ∈ past ∧
      site.countToday key ≤ s.guestNewPerIpPerDay
  | .createWorkspace _ _ _ _ _ => making past = none
  | .copyTemplate _ _ id _ _ => making past = some (id, false)
  | .rebaseKeys id _ => making past = some (id, true)
  | _ => True

/-- No copy is being made, unless what was begun of it could not be deleted. -/
def Clear (past : Done) : Prop :=
  ∀ m, making past = some m → ∃ e, (Act.deleteWorkspace m.1, .error e) ∈ past

/-- How a request ends. -/
def Settled {α : Type} (r : Except SiteError α) (past : Done) : Prop :=
  r = .error .cancelled ∨ Clear past

theorem clear_of_none {past : Done} (h : making past = none) : Clear past := fun m hm => by
  rw [h] at hm
  cases hm

/-- What makes and ends no copy. -/
theorem Clear.cons {past : Done} (h : Clear past) {a : Act} (ha : ∀ m, makes a m = m)
    (r : Except SiteError Site) : Clear ((a, r) :: past) := by
  intro m hm
  have hsame : making ((a, r) :: past) = making past := by
    cases r with
    | error e => rfl
    | ok site => exact ha _
  rw [hsame] at hm
  obtain ⟨e, he⟩ := h m hm
  exact ⟨e, List.mem_cons_of_mem _ he⟩

/-- What is raised goes on. -/
theorem Settled.raise {α β : Type} {e : SiteError} {past : Done}
    (h : Settled (.error e : Except SiteError α) past) :
    Settled (.error e : Except SiteError β) past := by
  rcases h with h | h
  · rw [Except.error.inj h]
    exact .inl rfl
  · exact .inr h

theorem clear_of_settled_ok {α : Type} {a : α} {past : Done}
    (h : Settled (.ok a : Except SiteError α) past) : Clear past := by
  rcases h with h | h
  · cases h
  · exact h

/-- Nothing but reads was done. -/
def OnlyReads (past : Done) : Prop := ∀ e ∈ past, e.1 = .wait

theorem onlyReads_nil : OnlyReads [] := fun _ he => absurd he List.not_mem_nil

theorem OnlyReads.cons {past : Done} (h : OnlyReads past) (r : Except SiteError Site) :
    OnlyReads ((.wait, r) :: past) := by
  intro e he
  rcases List.mem_cons.1 he with rfl | he
  · rfl
  · exact h e he

theorem OnlyReads.making {past : Done} (h : OnlyReads past) : making past = none := by
  induction past with
  | nil => rfl
  | cons e past ih =>
    obtain ⟨a, r⟩ := e
    obtain rfl : a = .wait := h _ List.mem_cons_self
    have hrest := ih fun e he => h e (List.mem_cons_of_mem _ he)
    cases r with
    | error e => exact hrest
    | ok site => exact hrest

theorem OnlyReads.clear {past : Done} (h : OnlyReads past) : Clear past := clear_of_none h.making

theorem OnlyReads.uncounted {past : Done} (h : OnlyReads past) :
    ∀ e ∈ past, e.1.isCount = false := fun e he => by
  rw [h e he]
  rfl

section

variable {s : Services} {l : Request} {past : Done} {ids : Drawn} {user : Uuid}

/-- The programs keep to the rule. -/
def Services.Keeps (s : Services) (l : Request) {α : Type}
    (ends : Except SiteError α → Done → Prop) (x : Run α) (past : Done) : Prop :=
  Raising.Keeps (exec s.uuidText s.rerender) (s.Rule l) ends x past

open Raising

variable {α β : Type}

/-- A read, where nothing but reads was done. -/
theorem keeps_read (h : OnlyReads past) {f : Site → Run β}
    {ends : Except SiteError β → Done → Prop}
    (hends : ∀ past, OnlyReads past → ∀ e, ends (.error e) past)
    (hf : ∀ site past, OnlyReads past → s.Keeps l ends (f site) past) :
    s.Keeps l ends (wait >>= f) past :=
  keeps_perform_bind trivial (fun site _ => hf site _ (h.cons _)) fun e => hends _ (h.cons _) e

/-- An action that has nothing to do with copies, where none is being made. -/
theorem keeps_clear (h : Clear past) {a : Act} (hrule : s.Rule l past a) (ha : ∀ m, makes a m = m)
    {f : Site → Run β} (hf : ∀ site past, Clear past → s.Keeps l Settled (f site) past) :
    s.Keeps l Settled (perform a >>= f) past :=
  keeps_perform_bind hrule (fun site _ => hf site _ (h.cons ha _)) fun _ => .inr (h.cons ha _)

/-! ### The making of a copy -/

/-- The handler deletes what was begun, or the cancellation goes on. -/
theorem keeps_handler {copied : Bool} (h : making past = some (ids.workspace, copied))
    (e : SiteError) :
    s.Keeps l (α := Unit) Settled (do
      if e = .cancelled then throw e
      else
        let _ ← perform (.deleteWorkspace ids.workspace)
        throw e) past := by
  by_cases he : e = .cancelled
  · rw [if_pos he, he]
    exact keeps_throw (.inl rfl)
  · rw [if_neg he]
    refine keeps_perform_bind trivial (fun site _ => ?_) fun e' => ?_
    · refine keeps_throw (.inr (clear_of_none ?_))
      show (making past).filter (·.1 ≠ ids.workspace) = none
      rw [h]
      simp
    · refine .inr fun m hm => ⟨e', ?_⟩
      obtain rfl : (ids.workspace, copied) = m := Option.some.inj (h.symm.trans hm)
      exact List.mem_cons_self

theorem keeps_fillCopy (h : making past = some (ids.workspace, false)) (template : Uuid)
    (movedDays : Int) (timezone : String) :
    s.Keeps l Settled (fillCopy ids user template movedDays timezone) past := by
  refine keeps_tryCatch (keeps_perform_bind h (fun site _ => ?_) fun e => ?_)
  · have hcopied : making ((.copyTemplate ids.random template ids.workspace user movedDays,
        .ok site) :: past) = some (ids.workspace, true) := by
      show (making past).map _ = _
      rw [h]
      simp
    refine keeps_perform_bind hcopied (fun site' _ => ?_) fun e => ?_
    · refine keeps_pure (.inr (clear_of_none ?_))
      show (making _).filter (·.1 ≠ ids.workspace) = none
      rw [hcopied]
      simp
    · have hfailed : making ((.rebaseKeys ids.workspace timezone, .error e) ::
          (.copyTemplate ids.random template ids.workspace user movedDays, .ok site) :: past) =
          some (ids.workspace, true) := hcopied
      exact keeps_handler hfailed e
  · have hfailed : making ((.copyTemplate ids.random template ids.workspace user movedDays,
        .error e) :: past) = some (ids.workspace, false) := h
    exact keeps_handler hfailed e

theorem keeps_makeCopy (h : making past = none) (p : PersonaService) :
    s.Keeps l Settled (p.makeCopy ids user) past := by
  refine keeps_perform_bind trivial (fun site _ => ?_) fun e => .inr (clear_of_none h)
  cases htemplate : site.templateFor p.seedId with
  | none =>
    exact keeps_throw (.inr (clear_of_none h))
  | some template =>
    refine keeps_perform_bind h (fun created _ => ?_) fun e => .inr (clear_of_none h)
    refine keeps_bind ((keeps_fillCopy rfl _ _ _).mono fun r past' hr => ?_)
    cases r with
    | error e => exact hr.raise
    | ok _ =>
      exact keeps_clear (clear_of_settled_ok hr) (by trivial) (fun _ => rfl)
        fun site past h => keeps_pure (.inr h)

theorem keeps_copyFor (h : OnlyReads past) (p : PersonaService) :
    s.Keeps l Settled (p.copyFor ids user) past := by
  refine keeps_read h (fun _ h _ => .inr h.clear) fun site past h => ?_
  cases hfound : (site.workspacesFor user).find? fun w => w.kind = .personaCopy with
  | none =>
    exact keeps_makeCopy h.making p
  | some w =>
    exact keeps_pure (.inr h.clear)

/-- While copies are deleted, none is being made. -/
theorem keeps_deleteCopies (rows : List WorkspaceRow) (h : making past = none) :
    s.Keeps l (fun _ past => making past = none) (PersonaService.deleteCopies rows) past := by
  induction rows generalizing past with
  | nil => exact keeps_pure h
  | cons w rows ih =>
    unfold PersonaService.deleteCopies
    by_cases hkind : w.kind = .personaCopy
    · rw [if_pos hkind]
      refine keeps_perform_bind trivial (fun site _ => ih ?_) fun e => h
      show (making past).filter (·.1 ≠ w.id) = none
      rw [h]
      rfl
    · rw [if_neg hkind]
      exact ih h

theorem keeps_resetFor (h : OnlyReads past) (p : PersonaService) :
    s.Keeps l Settled (p.resetFor ids user) past := by
  refine keeps_read h (fun _ h _ => .inr h.clear) fun site past h => ?_
  refine keeps_bind ((keeps_deleteCopies _ h.making).mono fun r past' hnone => ?_)
  cases r with
  | error e => exact .inr (clear_of_none hnone)
  | ok _ => exact keeps_makeCopy hnone p

/-! ### The routes -/

theorem keeps_personaRoute (r : SignedRequest) {copy : PersonaService → Run (Option WorkspaceRow)}
    (hcopy : ∀ p past, OnlyReads past → s.Keeps l Settled (copy p) past) :
    s.Keeps l Settled (s.personaRoute r copy) [] := by
  unfold Services.personaRoute
  cases s.persona with
  | none => exact keeps_throw (.inr onlyReads_nil.clear)
  | some p =>
    refine keeps_read onlyReads_nil (fun _ h _ => .inr h.clear) fun site past h => ?_
    cases r.limited with
    | some seconds => exact keeps_throw (.inr h.clear)
    | none =>
      refine keeps_tryCatch (keeps_bind ((hcopy p _ h).mono fun r past hr => ?_))
      cases r with
      | ok w => exact keeps_pure (.inr (clear_of_settled_ok hr))
      | error e =>
        show s.Keeps l Settled (if e = .lookup then _ else _) past
        by_cases he : e = .lookup
        · rw [if_pos he]
          subst he
          exact keeps_throw (.inr (hr.resolve_left fun h => by cases h))
        · rw [if_neg he]
          exact keeps_throw hr.raise

theorem keeps_openScratch (r : SignedRequest) : s.Keeps l Settled (s.openScratch r) [] := by
  refine keeps_read onlyReads_nil (fun _ h _ => .inr h.clear) fun site past h => ?_
  cases site.getUser r.user with
  | none => exact keeps_throw (.inr h.clear)
  | some user =>
    show s.Keeps l Settled (if user.tier ≠ .guest then _ else _) _
    by_cases htier : user.tier ≠ .guest
    · rw [if_pos htier]
      exact keeps_throw (.inr h.clear)
    · rw [if_neg htier]
      refine keeps_read h (fun _ h _ => .inr h.clear) fun site' past h => ?_
      cases (site'.workspacesFor r.user).find? fun w => w.kind = .scratch with
      | some w => exact keeps_pure (.inr h.clear)
      | none =>
        refine keeps_clear h.clear ?_ (fun _ => rfl) fun created past h => keeps_pure (.inr h)
        exact h.making

theorem keeps_checkCode (r : GuestRequest) (h : OnlyReads past) :
    s.Keeps l (fun _ past => OnlyReads past) (s.checkCode r) past := by
  unfold Services.checkCode
  split
  case isTrue => exact keeps_pure h
  case isFalse =>
    refine keeps_read h (fun _ h _ => h) fun site past h => ?_
    cases r.limited with
    | some seconds => exact keeps_throw h
    | none =>
      show s.Keeps l _ (if s.accessCode = some (r.accessCode.getD []) then _ else _) _
      split
      · exact keeps_pure h
      · exact keeps_throw h

theorem keeps_deviceUser (r : GuestRequest) (h : OnlyReads past) :
    s.Keeps l (fun _ past => OnlyReads past) (s.deviceUser r) past := by
  unfold Services.deviceUser
  cases r.device.filter (· ≠ []) with
  | none => exact keeps_pure h
  | some token =>
    refine keeps_read h (fun _ h _ => h) fun site past h => ?_
    cases s.device.verify s.hmac site.unixTime token with
    | error e => exact keeps_throw h
    | ok user => exact keeps_pure h

theorem keeps_returning (r : GuestRequest) (h : OnlyReads past) :
    s.Keeps l (fun _ past => OnlyReads past) (s.returning r) past := by
  refine keeps_bind ((keeps_deviceUser r h).mono fun found past' hreads => ?_)
  cases found with
  | error e => exact hreads
  | ok id =>
    cases id with
    | none => exact keeps_pure hreads
    | some id =>
      refine keeps_read hreads (fun _ h _ => h) fun site past h => ?_
      cases (site.getUser id).filter fun user => user.tier = .guest with
      | none => exact keeps_pure h
      | some user =>
        exact keeps_read h (fun _ h _ => h) fun site' past h => keeps_pure h

theorem keeps_sample (r : GuestRequest) (p : PersonaService) (h : making past = none) :
    s.Keeps l Settled (Services.sample p r) past := by
  refine keeps_tryCatch (keeps_bind ((keeps_makeCopy h p).mono fun found past' hr => ?_))
  cases found with
  | ok w => exact keeps_pure (.inr (clear_of_settled_ok hr))
  | error e =>
    show s.Keeps l Settled (if e = .lookup then _ else _) past'
    by_cases he : e = .lookup
    · rw [if_pos he]
      subst he
      have hclear : Clear past' := hr.resolve_left fun h => by cases h
      exact keeps_clear hclear (by trivial) (fun _ => rfl) fun site past h => keeps_throw (.inr h)
    · rw [if_neg he]
      exact keeps_throw hr.raise

theorem keeps_newGuest (r : GuestRequest) (p : PersonaService) (h : OnlyReads past) :
    s.Keeps (.guest r) Settled (s.newGuest p r) past := by
  refine keeps_perform_bind ⟨⟨r, rfl, rfl⟩, h.uncounted⟩ (fun counted _ => ?_)
    fun e => .inr (h.clear.cons (fun _ => rfl) _)
  have hnone : making ((.incrDaily (Services.guestKey (s.address r)), .ok counted) :: past) =
      none := h.making
  show s.Keeps _ Settled (if s.guestNewPerIpPerDay < counted.countToday _ then _ else _) _
  split
  case isTrue => exact keeps_throw (.inr (clear_of_none hnone))
  case isFalse hroom =>
    refine keeps_perform_bind ⟨_, counted, List.mem_cons_self, Nat.le_of_not_lt hroom⟩
      (fun created _ => ?_) fun e => .inr (clear_of_none hnone)
    have hcreated : making ((.createUser r.user .guest, .ok created) ::
        (.incrDaily (Services.guestKey (s.address r)), .ok counted) :: past) = none := hnone
    refine keeps_bind ((keeps_sample r p hcreated).mono fun made past' hr => ?_)
    cases made with
    | error e => exact hr.raise
    | ok _ =>
      exact keeps_clear (clear_of_settled_ok hr) (by trivial) (fun _ => rfl)
        fun site past h => keeps_pure (.inr h)

theorem keeps_startGuest (r : GuestRequest) : s.Keeps (.guest r) Settled (s.startGuest r) [] := by
  unfold Services.startGuest
  cases s.persona with
  | none => exact keeps_throw (.inr onlyReads_nil.clear)
  | some p =>
    refine keeps_bind ((keeps_checkCode r onlyReads_nil).mono fun checked past hreads => ?_)
    cases checked with
    | error e => exact .inr hreads.clear
    | ok _ =>
      refine keeps_bind ((keeps_returning r hreads).mono fun found past' hreads' => ?_)
      cases found with
      | error e => exact .inr hreads'.clear
      | ok user =>
        cases user with
        | none => exact keeps_newGuest r p hreads'
        | some user =>
          exact keeps_read hreads' (fun _ h _ => .inr h.clear)
            fun site past h => keeps_pure (.inr h.clear)

end

/-- **Every request** keeps to the rule, and ends with no copy half made. -/
theorem keeps_program (s : Services) (l : Request) :
    (s.program l).Keeps (exec s.uuidText s.rerender) (s.Rule l) Settled [] := by
  cases l with
  | guest r => exact keeps_startGuest r
  | scratch r => exact keeps_openScratch r
  | openPersona r => exact keeps_personaRoute r fun p past h => keeps_copyFor h p
  | resetPersona r => exact keeps_personaRoute r fun p past h => keeps_resetFor h p
  | expire =>
    exact keeps_read onlyReads_nil (fun _ h _ => .inr h.clear) fun site past h =>
      keeps_clear h.clear (by trivial) (fun _ => rfl) fun site' past h => Raising.keeps_pure (.inr h)
  | tick later =>
    exact ⟨trivial, fun r _ => .inr (onlyReads_nil.clear.cons (fun _ => rfl) r)⟩

/-! ## New guests of an address -/

/-- A counted guest of the day. -/
def counts (d : Date) : Act × Except SiteError Site → Bool
  | (.incrDaily _, .ok site) => site.now.utcDay = d
  | _ => false

/-- A guest was made. -/
def creates : Act × Except SiteError Site → Bool
  | (.createUser _ _, .ok _) => true
  | _ => false

/-- What a request is under way with. -/
abbrev Visit := Thread Request Act Site SiteError (Except SiteError Answer)

/-- The request came from the address, was counted on the day, and made a guest. -/
def Services.madeGuest (s : Services) (address : List Char) (d : Date) (t : Visit) : Bool :=
  (match t.label with
    | .guest r => s.address r = address
    | _ => false) && t.past.any (counts d) && t.past.any creates

/-- The number that the counter gave, of a key and a day. -/
def numbered (key : List Char) (d : Date) : Act × Except SiteError Site → Option Nat
  | (.incrDaily k, .ok site) =>
    if k = key ∧ site.now.utcDay = d then some (site.countToday key) else none
  | _ => none

def ticket (key : List Char) (d : Date) (past : Done) : Option Nat :=
  past.findSome? (numbered key d)

/-- Two tickets of a day are not the same. -/
def Apart (a b : Option Nat) : Prop := ∀ n, a = some n → b ≠ some n

/-- The tickets that were given differ, and the counter is past them until the day is over. -/
structure Ticketed (site : Site) (traces : List (Request × Done)) : Prop where
  apart : ∀ key d, (traces.map fun x => ticket key d x.2).Pairwise Apart
  below : ∀ key d, ∀ x ∈ traces, ∀ n, ticket key d x.2 = some n →
    1 ≤ n ∧ ∃ count dropped, site.daily (key, d) = some (count, dropped) ∧ n ≤ count ∧
      (d.ordinal + 1) * day ≤ dropped

section

variable {α : Type} {R : α → α → Prop}

/-- A member that stands in the same relation to every other. -/
theorem pairwise_set {l : List α} (h : l.Pairwise R) {b : α} (hb : ∀ a ∈ l, R a b ∧ R b a)
    (i : Nat) : (l.set i b).Pairwise R := by
  induction l generalizing i with
  | nil => exact h
  | cons a l ih =>
    have htail : ∀ a ∈ l, R a b ∧ R b a := fun a' ha' => hb a' (List.mem_cons_of_mem a ha')
    cases i with
    | zero =>
      exact List.pairwise_cons.2 ⟨fun a' ha' => (htail a' ha').2, (List.pairwise_cons.1 h).2⟩
    | succ i =>
      refine List.pairwise_cons.2 ⟨fun a' ha' => ?_, ih (List.pairwise_cons.1 h).2 htail i⟩
      rcases List.mem_or_eq_of_mem_set ha' with ha' | rfl
      · exact (List.pairwise_cons.1 h).1 a' ha'
      · exact (hb a List.mem_cons_self).1

/-- Numbers between one and a bound that are apart are no more than the bound. -/
theorem length_le_of_apart {l : List Nat} {n : Nat} (h : l.Nodup) (hl : ∀ k ∈ l, 1 ≤ k ∧ k ≤ n) :
    l.length ≤ n := by
  have hsub : l.toFinset ⊆ Finset.Icc 1 n := fun k hk =>
    Finset.mem_Icc.2 (hl k (List.mem_toFinset.1 hk))
  have hcard := Finset.card_le_card hsub
  rwa [List.toFinset_card_of_nodup h, Nat.card_Icc, Nat.add_sub_cancel] at hcard

end

theorem Ticketed.comes {site : Site} {traces : List (Request × Done)} (h : Ticketed site traces)
    (l : Request) : Ticketed site (traces ++ [(l, [])]) where
  apart key d := by
    rw [List.map_append, List.pairwise_append]
    refine ⟨h.apart key d, List.pairwise_singleton _ _, fun a ha b hb n hn => ?_⟩
    rw [List.mem_singleton.1 hb]
    exact (Option.some_ne_none n).symm
  below key d x hx n hn := by
    rcases List.mem_append.1 hx with hx | hx
    · exact h.below key d x hx n hn
    · rw [List.mem_singleton.1 hx] at hn
      cases hn

/-- What is no count leaves the tickets and the counters. -/
theorem Ticketed.of_uncounted {site site' : Site} {traces : List (Request × Done)}
    (h : Ticketed site traces) {i : Nat} {l : Request} {past : Done}
    (hi : traces[i]? = some (l, past)) (hdaily : site'.daily = site.daily)
    {e : Act × Except SiteError Site} (he : ∀ key d, numbered key d e = none) :
    Ticketed site' (traces.set i (l, e :: past)) := by
  have hsame : ∀ key d, ticket key d (e :: past) = ticket key d past := fun key d => by
    rw [ticket, List.findSome?_cons, he]
    rfl
  have hmember := List.mem_of_getElem? hi
  refine ⟨fun key d => ?_, fun key d x hx n hn => ?_⟩
  · rw [List.map_set]
    have hself : (traces.map fun x => ticket key d x.2)[i]? = some (ticket key d past) := by
      rw [List.getElem?_map, hi]
      rfl
    obtain ⟨hlt, hget⟩ := List.getElem?_eq_some_iff.1 hself
    have hset : (traces.map fun x => ticket key d x.2).set i (ticket key d (e :: past)) =
        traces.map fun x => ticket key d x.2 := by
      rw [hsame, ← hget, List.set_getElem_self]
    rw [hset]
    exact h.apart key d
  · rw [hdaily]
    rcases List.mem_or_eq_of_mem_set hx with hx | rfl
    · exact h.below key d x hx n hn
    · rw [hsame] at hn
      exact h.below key d (l, past) hmember n hn

theorem ticket_of_uncounted {past : Done} (h : ∀ e ∈ past, e.1.isCount = false)
    (key : List Char) (d : Date) : ticket key d past = none := by
  refine List.findSome?_eq_none_iff.2 fun e he => ?_
  obtain ⟨a, r⟩ := e
  have hcount := h _ he
  cases a with
  | incrDaily => cases hcount
  | _ => rfl

/-- The counter of a day that has tickets is not dropped on that day. -/
theorem Ticketed.le_countToday {site : Site} {traces : List (Request × Done)}
    (h : Ticketed site traces) {key : List Char} {x : Request × Done} (hx : x ∈ traces) {n : Nat}
    (hn : ticket key site.now.utcDay x.2 = some n) : n ≤ site.countToday key := by
  obtain ⟨-, count, dropped, hslot, hle, hday⟩ := h.below key _ x hx n hn
  have hlive : site.now.time < dropped := by
    have hlast : site.now.time < (site.now.utcDay.ordinal + 1) * day := by
      show site.now.time < (site.now.time / day + 1) * day
      unfold day hour second
      omega
    exact Int.lt_of_lt_of_le hlast hday
  rw [Site.countToday, hslot]
  show n ≤ if site.now.time < dropped then count else 0
  rw [if_pos hlive]
  exact hle

theorem countToday_incrDaily (site : Site) (key : List Char) :
    (site.incrDaily key).countToday key = site.countToday key + 1 := by
  have hslot : (site.incrDaily key).daily (key, (site.incrDaily key).now.utcDay) =
      some (site.countToday key + 1, site.now.time + Site.dayTtl) := Function.update_self _ _ _
  have hlive : (site.incrDaily key).now.time < site.now.time + Site.dayTtl := by
    show site.now.time < site.now.time + Site.dayTtl
    unfold Site.dayTtl day hour second
    omega
  rw [Site.countToday, hslot]
  exact if_pos hlive

theorem ticket_count {past : Done} (huncounted : ∀ e ∈ past, e.1.isCount = false) (site : Site)
    (key key' : List Char) (d : Date) :
    ticket key' d ((.incrDaily key, .ok (site.incrDaily key)) :: past) =
      if key = key' ∧ site.now.utcDay = d then some (site.countToday key + 1) else none := by
  have hrest := ticket_of_uncounted huncounted key' d
  rw [ticket] at hrest
  rw [ticket, List.findSome?_cons, hrest]
  have hnumbered : numbered key' d (.incrDaily key, .ok (site.incrDaily key)) =
      if key = key' ∧ site.now.utcDay = d then some ((site.incrDaily key).countToday key')
      else none := rfl
  rw [hnumbered]
  by_cases hkey : key = key' ∧ site.now.utcDay = d
  · rw [if_pos hkey, if_pos hkey, ← hkey.1, countToday_incrDaily]
  · rw [if_neg hkey, if_neg hkey]

/-- A count gives a ticket that was not given before. -/
theorem Ticketed.count {site : Site} {traces : List (Request × Done)} (h : Ticketed site traces)
    {past : Done} (huncounted : ∀ e ∈ past, e.1.isCount = false) (key : List Char) (l : Request)
    (i : Nat) :
    Ticketed (site.incrDaily key)
      (traces.set i (l, (.incrDaily key, .ok (site.incrDaily key)) :: past)) := by
  refine ⟨fun key' d => ?_, fun key' d x hx n hn => ?_⟩
  · rw [List.map_set]
    refine pairwise_set (h.apart key' d) (fun a ha => ?_) i
    obtain ⟨x, hx, rfl⟩ := List.mem_map.1 ha
    show Apart (ticket key' d x.2) (ticket key' d (_ :: past)) ∧
      Apart (ticket key' d (_ :: past)) (ticket key' d x.2)
    rw [ticket_count huncounted]
    split
    case isTrue hkey =>
      obtain ⟨rfl, rfl⟩ := hkey
      constructor
      · intro n hn hnext
        have hle := h.le_countToday hx hn
        have hsame := Option.some.inj hnext
        omega
      · intro n hnext hn
        have hle := h.le_countToday hx hn
        have hsame := Option.some.inj hnext
        omega
    case isFalse =>
      exact ⟨fun n _ => (Option.some_ne_none n).symm, fun n hn => absurd hn.symm (Option.some_ne_none n)⟩
  · show 1 ≤ n ∧ ∃ count dropped, Function.update site.daily (key, site.now.utcDay) _ (key', d) =
      some (count, dropped) ∧ _
    by_cases hkey : key = key' ∧ site.now.utcDay = d
    · obtain ⟨rfl, rfl⟩ := hkey
      rw [Function.update_self]
      have hdropped : (site.now.utcDay.ordinal + 1) * day ≤ site.now.time + Site.dayTtl := by
        show (site.now.time / day + 1) * day ≤ site.now.time + 3 * day
        unfold day hour second
        omega
      rcases List.mem_or_eq_of_mem_set hx with hx | rfl
      · have hle := h.le_countToday hx hn
        exact ⟨(h.below _ _ x hx n hn).1, _, _, rfl, Nat.le_succ_of_le hle, hdropped⟩
      · rw [ticket_count huncounted, if_pos ⟨rfl, rfl⟩] at hn
        obtain rfl := Option.some.inj hn
        exact ⟨Nat.succ_pos _, _, _, rfl, Nat.le_refl _, hdropped⟩
    · have hother : (key', d) ≠ (key, site.now.utcDay) := fun hsame =>
        hkey ⟨(Prod.mk.inj hsame).1.symm, (Prod.mk.inj hsame).2.symm⟩
      rw [Function.update_of_ne hother]
      rcases List.mem_or_eq_of_mem_set hx with hx | rfl
      · exact h.below key' d x hx n hn
      · rw [ticket_count huncounted, if_neg hkey] at hn
        cases hn

/-- Only a count changes the counters. -/
theorem exec_daily {s : Services} {a : Act} {site site' : Site}
    (h : exec s.uuidText s.rerender a site = .ok site') (ha : a.isCount = false) :
    site'.daily = site.daily := by
  cases a with
  | incrDaily => cases ha
  | createUser id tier =>
    rw [exec] at h
    split at h
    · cases h
    · cases h
      rfl
  | createWorkspace id selfId owner kind timezone =>
    rw [exec, Site.createWorkspace] at h
    split at h
    · cases h
    · cases h
      rfl
  | copyTemplate random template workspace user movedDays =>
    rw [exec, Site.copyTemplate] at h
    split at h
    · cases h
    · cases h
      rfl
  | _ =>
    cases h
    rfl

theorem numbered_of_isCount {a : Act} (ha : a.isCount = false) (r : Except SiteError Site)
    (key : List Char) (d : Date) : numbered key d (a, r) = none := by
  cases a with
  | incrDaily => cases ha
  | _ => rfl

/-- **Tickets** stay apart, whatever is done next. -/
theorem ticketed_kept (s : Services) :
    Pool.Kept (exec s.uuidText s.rerender) s.Rule Ticketed where
  comes h l := h.comes l
  goes := by
    intro site traces h i l past hi hlawful a hrule r hr
    cases r with
    | error e => exact h.of_uncounted hi rfl fun key d => by cases a <;> rfl
    | ok site' =>
      have hexec := hr site' rfl
      cases hcount : a.isCount with
      | false =>
        exact h.of_uncounted hi (exec_daily hexec hcount) fun key d =>
          numbered_of_isCount hcount _ key d
      | true =>
        cases a with
        | incrDaily key =>
          cases hexec
          exact h.count hrule.2 key l i
        | _ => cases hcount

theorem lawful_ticket {s : Services} {l : Request} {past : Done} (h : Lawful (s.Rule l) past)
    {key : List Char} {site : Site} (hmem : (Act.incrDaily key, .ok site) ∈ past) :
    ticket key site.now.utcDay past = some (site.countToday key) := by
  induction past with
  | nil => exact absurd hmem List.not_mem_nil
  | cons e past ih =>
    obtain ⟨a, r⟩ := e
    rw [ticket, List.findSome?_cons]
    rcases List.mem_cons.1 hmem with hsame | hlater
    · have hnumbered : numbered key site.now.utcDay (.incrDaily key, .ok site) =
          some (site.countToday key) := if_pos ⟨rfl, rfl⟩
      rw [← hsame, hnumbered]
    · have hcount : a.isCount = false := by
        by_contra hcount
        cases a with
        | incrDaily => exact Bool.noConfusion (h.1.2 _ hlater)
        | _ => exact hcount rfl
      rw [numbered_of_isCount hcount]
      exact ih h.2 hlater

/-- A guest was counted before, with a number that is allowed. -/
theorem lawful_creates {s : Services} {l : Request} {past : Done} (h : Lawful (s.Rule l) past)
    (hmem : past.any creates = true) :
    ∃ key site, (Act.incrDaily key, .ok site) ∈ past ∧
      site.countToday key ≤ s.guestNewPerIpPerDay := by
  induction past with
  | nil => cases hmem
  | cons e past ih =>
    obtain ⟨a, r⟩ := e
    rw [List.any_cons, Bool.or_eq_true] at hmem
    have hearlier : ∃ key site, (Act.incrDaily key, .ok site) ∈ past ∧
        site.countToday key ≤ s.guestNewPerIpPerDay := by
      rcases hmem with hmem | hmem
      · cases a with
        | createUser => exact h.1
        | _ => cases hmem
      · exact ih h.2 hmem
    obtain ⟨key, site, hcount, hle⟩ := hearlier
    exact ⟨key, site, List.mem_cons_of_mem _ hcount, hle⟩

/-- One count is all. -/
theorem lawful_count_unique {s : Services} {l : Request} {past : Done}
    (h : Lawful (s.Rule l) past) {key key' : List Char} {r r' : Except SiteError Site}
    (hmem : (Act.incrDaily key, r) ∈ past) (hmem' : (Act.incrDaily key', r') ∈ past) :
    key = key' ∧ r = r' := by
  induction past with
  | nil => exact absurd hmem List.not_mem_nil
  | cons e past ih =>
    have hfirst : ∀ {k q}, (Act.incrDaily k, q) = e → ∀ {k' q'}, (Act.incrDaily k', q') ∉ past := by
      rintro k q rfl k' q' hlater
      exact Bool.noConfusion (h.1.2 _ hlater)
    rcases List.mem_cons.1 hmem with hsame | hmem
    · rcases List.mem_cons.1 hmem' with hsame' | hmem'
      · cases hsame.trans hsame'.symm
        exact ⟨rfl, rfl⟩
      · exact absurd hmem' (hfirst hsame)
    · rcases List.mem_cons.1 hmem' with hsame' | hmem'
      · exact absurd hmem (hfirst hsame')
      · exact ih h.2 hmem hmem'

theorem lawful_key {s : Services} {l : Request} {past : Done} (h : Lawful (s.Rule l) past)
    {key : List Char} {r : Except SiteError Site} (hmem : (Act.incrDaily key, r) ∈ past) :
    ∃ q, l = .guest q ∧ key = Services.guestKey (s.address q) := by
  induction past with
  | nil => exact absurd hmem List.not_mem_nil
  | cons e past ih =>
    rcases List.mem_cons.1 hmem with rfl | hmem
    · exact h.1.1
    · exact ih h.2 hmem

/-- The ticket of a request that made a guest. -/
theorem ticket_of_madeGuest {s : Services} {address : List Char} {d : Date} {t : Visit}
    (h : Lawful (s.Rule t.label) t.past) (hmade : s.madeGuest address d t = true) :
    ∃ n, ticket (Services.guestKey address) d t.past = some n ∧ n ≤ s.guestNewPerIpPerDay := by
  rw [Services.madeGuest, Bool.and_eq_true, Bool.and_eq_true] at hmade
  obtain ⟨⟨haddress, hcounted⟩, hcreated⟩ := hmade
  obtain ⟨key, site, hcount, hle⟩ := lawful_creates h hcreated
  obtain ⟨⟨a, r⟩, hmem, hday⟩ := List.any_eq_true.1 hcounted
  obtain ⟨q, hlabel, hkey⟩ := lawful_key h hcount
  rw [hlabel] at haddress
  have hsame : (a, r) = (Act.incrDaily key, .ok site) := by
    cases a with
    | incrDaily k =>
      obtain ⟨rfl, rfl⟩ := lawful_count_unique h hmem hcount
      rfl
    | _ => cases hday
  rw [hsame] at hday
  have hdate : site.now.utcDay = d := of_decide_eq_true hday
  have haddress' : s.address q = address := of_decide_eq_true haddress
  have hticket := lawful_ticket h hcount
  rw [hkey, haddress', hdate] at hticket
  rw [hkey, haddress'] at hle
  exact ⟨_, hticket, hle⟩

/-- What every allowed action keeps, in every run. -/
theorem run_kept {s : Services} {inv : Site → List (Request × Done) → Prop}
    (hkept : Pool.Kept (exec s.uuidText s.rerender) s.Rule inv) {start : Site}
    (hstart : inv start []) (moves : List (Steps.Move Request SiteError)) :
    inv (s.run start moves).world (s.run start moves).traces ∧
      ∀ t ∈ (s.run start moves).threads,
        Pool.Orderly (exec s.uuidText s.rerender) s.Rule (fun _ => Settled) t :=
  Pool.run_keeps hkept (keeps_program s) ⟨hstart, fun _ ht => absurd ht List.not_mem_nil⟩ moves

/-- **New guests are capped**: however the requests are interleaved and wherever they fail, those
from one address make no more guests in a day than the setting has it. -/
theorem guests_capped (s : Services) (start : Site) (moves : List (Steps.Move Request SiteError))
    (address : List Char) (d : Date) :
    ((s.run start moves).threads.filter (s.madeGuest address d)).length ≤ s.guestNewPerIpPerDay := by
  have hstart : Ticketed start [] :=
    ⟨fun key d => List.Pairwise.nil, fun key d x hx => absurd hx List.not_mem_nil⟩
  obtain ⟨hticketed, horderly⟩ := run_kept (ticketed_kept s) hstart moves
  let key := Services.guestKey address
  let made := (s.run start moves).threads.filter (s.madeGuest address d)
  have hticket : ∀ t ∈ made, ∃ n, ticket key d t.past = some n ∧ 1 ≤ n ∧
      n ≤ s.guestNewPerIpPerDay := by
    intro t ht
    obtain ⟨ht, hmade⟩ := List.mem_filter.1 ht
    obtain ⟨n, hn, hle⟩ := ticket_of_madeGuest (horderly t ht).lawful hmade
    have hbelow := hticketed.below key d _ (List.mem_map_of_mem ht) n hn
    exact ⟨n, hn, hbelow.1, hle⟩
  have hapart : made.Pairwise fun t t' => Apart (ticket key d t.past) (ticket key d t'.past) := by
    have hall := hticketed.apart key d
    rw [Pool.traces, List.map_map] at hall
    exact (List.pairwise_map.1 hall).filter _
  have hnodup : (made.map fun t => (ticket key d t.past).getD 0).Nodup := by
    refine List.pairwise_map.2 (hapart.imp_of_mem fun ht ht' hdiffer hsame => ?_)
    obtain ⟨n, hn, -⟩ := hticket _ ht
    obtain ⟨n', hn', -⟩ := hticket _ ht'
    rw [hn, hn'] at hsame
    obtain rfl : n = n' := hsame
    exact hdiffer n hn hn'
  have hlength := length_le_of_apart hnodup fun k hk => by
    obtain ⟨t, ht, rfl⟩ := List.mem_map.1 hk
    obtain ⟨n, hn, hbounds⟩ := hticket t ht
    rw [hn]
    exact hbounds
  rwa [List.length_map] at hlength

end Guests
end SecondMind
