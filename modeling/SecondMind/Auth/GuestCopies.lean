import SecondMind.Auth.GuestRuns
import SecondMind.Persona.Copies

/-!
# The copies of guests

The making of a copy is four transactions, and its request may fail between any two of them.  The
copies are whole all the same, but for those of requests that were cut off.

* `exec_row` — where the row of a workspace comes from;
* `Attended` — a request is making a copy, or one has made it whole;
* `copies_whole` — every copy is whole, or a request has left it;
* `half_copy_left` — a visit that is cancelled leaves half a copy.
-/

namespace SecondMind
namespace Guests

open Steps Gregorian

/-- The keys of a copy were rendered anew. -/
def rebases (id : Uuid) : Act × Except SiteError Site → Bool
  | (.rebaseKeys w _, .ok _) => w = id
  | _ => false

/-- A request is making the copy, and is as far as the row shows; or one has made it whole. -/
def Attended (traces : List (Request × Done)) (w : WorkspaceRow) : Prop :=
  (∃ x ∈ traces, making x.2 = some (w.id, w.movedDays.isSome)) ∨
    w.movedDays.isSome = true ∧ ∃ x ∈ traces, x.2.any (rebases w.id) = true

/-- The copies that were not there at the start. -/
def NewCopiesAttended (start site : Site) (traces : List (Request × Done)) : Prop :=
  ∀ w ∈ site.workspaces, w.kind = .personaCopy →
    (∃ v ∈ start.workspaces, v.id = w.id) ∨ Attended traces w

/-- The action neither deletes the workspace nor copies into it. -/
def Act.Spares (id : Uuid) : Act → Prop
  | .deleteWorkspace i => i ≠ id
  | .copyTemplate _ _ i _ _ => i ≠ id
  | _ => True

theorem mem_traces_set {traces : List (Request × Done)} {i : Nat} {x y : Request × Done}
    (hi : traces[i]? = some x) : y ∈ traces.set i y := by
  obtain ⟨hlt, -⟩ := List.getElem?_eq_some_iff.1 hi
  exact List.mem_of_getElem? (List.getElem?_set_self hlt)

/-- The other traces stay. -/
theorem eq_or_mem_traces_set {traces : List (Request × Done)} {i : Nat} {x y z : Request × Done}
    (hi : traces[i]? = some x) (hz : z ∈ traces) : z = x ∨ z ∈ traces.set i y := by
  obtain ⟨j, hj⟩ := List.mem_iff_getElem?.1 hz
  by_cases hij : i = j
  · subst hij
    exact .inl (Option.some.inj (hj.symm.trans hi))
  · refine .inr (List.mem_of_getElem? (i := j) ?_)
    rw [List.getElem?_set_ne hij]
    exact hj

theorem Attended.goes {traces : List (Request × Done)} {w : WorkspaceRow} (h : Attended traces w)
    {i : Nat} {l : Request} {past : Done} (hi : traces[i]? = some (l, past))
    {e : Act × Except SiteError Site}
    (he : making past = some (w.id, w.movedDays.isSome) →
      making (e :: past) = some (w.id, w.movedDays.isSome) ∨
        w.movedDays.isSome = true ∧ rebases w.id e = true) :
    Attended (traces.set i (l, e :: past)) w := by
  have hset : (l, e :: past) ∈ traces.set i (l, e :: past) := mem_traces_set hi
  rcases h with ⟨x, hx, hmaking⟩ | ⟨hfilled, x, hx, hrebased⟩
  · rcases eq_or_mem_traces_set hi hx with rfl | hx
    · rcases he hmaking with hgoes | ⟨hfilled, hrebases⟩
      · exact .inl ⟨_, hset, hgoes⟩
      · refine .inr ⟨hfilled, _, hset, ?_⟩
        rw [List.any_cons, hrebases, Bool.true_or]
    · exact .inl ⟨x, hx, hmaking⟩
  · rcases eq_or_mem_traces_set hi hx with rfl | hx
    · refine .inr ⟨hfilled, _, hset, ?_⟩
      rw [List.any_cons, hrebased, Bool.or_true]
    · exact .inr ⟨hfilled, x, hx, hrebased⟩

/-- What was copied shows the days it was moved by. -/
theorem copyPersonaTemplate_moves {u : Persona.UuidText} {random : Persona.Random}
    {m : Persona.Move} {template workspace user : Uuid} {db db' : Persona.Workspaces}
    (h : Persona.copyPersonaTemplate u random m template workspace user db = .ok db') :
    ∃ copy, db' workspace = some copy ∧ copy.movedDays = some m.days := by
  unfold Persona.copyPersonaTemplate at h
  split at h
  · cases h
  · split at h
    · cases h
    · split at h
      · cases h
      case h_2 src _ _ dst _ =>
        split at h
        · cases h
        · cases hcontent : Persona.copyContent u random m user src.content dst.content with
          | error e =>
            rw [hcontent] at h
            cases h
          | ok content =>
            rw [hcontent] at h
            cases h
            exact ⟨_, Function.update_self _ _ _, rfl⟩

/-- Where the rows of workspaces come from. -/
theorem exec_row {s : Services} {a : Act} {site site' : Site}
    (h : exec s.uuidText s.rerender a site = .ok site') {w : WorkspaceRow}
    (hw : w ∈ site'.workspaces) :
    (a.Spares w.id ∧ ∃ v ∈ site.workspaces,
        v.id = w.id ∧ v.kind = w.kind ∧ v.movedDays = w.movedDays) ∨
      ((∃ selfId owner timezone, a = .createWorkspace w.id selfId owner w.kind timezone) ∧
        w.movedDays = none) ∨
      (∃ random template user days, a = .copyTemplate random template w.id user days) ∧
        w.movedDays.isSome = true := by
  cases a with
  | wait | tick | incrDaily =>
    cases h
    exact .inl ⟨trivial, w, hw, rfl, rfl, rfl⟩
  | createUser id tier =>
    rw [exec] at h
    split at h
    · cases h
    · cases h
      exact .inl ⟨trivial, w, hw, rfl, rfl, rfl⟩
  | deleteUser id =>
    cases h
    exact .inl ⟨trivial, w, (List.mem_filter.1 hw).1, rfl, rfl, rfl⟩
  | deleteWorkspace id =>
    cases h
    obtain ⟨hw, hid⟩ := List.mem_filter.1 hw
    exact .inl ⟨Ne.symm (of_decide_eq_true hid), w, hw, rfl, rfl, rfl⟩
  | createWorkspace id selfId owner kind timezone =>
    rw [exec, Site.createWorkspace] at h
    split at h
    · cases h
    · cases h
      rcases List.mem_append.1 hw with hw | hw
      · exact .inl ⟨trivial, w, hw, rfl, rfl, rfl⟩
      · rw [List.mem_singleton.1 hw]
        exact .inr (.inl ⟨⟨selfId, owner, timezone, rfl⟩, rfl⟩)
  | rebaseKeys id timezone =>
    cases h
    obtain ⟨v, hv, rfl⟩ := List.mem_map.1 hw
    refine .inl ⟨trivial, v, hv, ?_⟩
    split
    · exact ⟨rfl, rfl, rfl⟩
    · exact ⟨rfl, rfl, rfl⟩
  | expireGuests before =>
    cases h
    obtain ⟨v, hv, rfl⟩ := List.mem_map.1 hw
    refine .inl ⟨trivial, v, hv, ?_⟩
    split
    · exact ⟨rfl, rfl, rfl⟩
    · exact ⟨rfl, rfl, rfl⟩
  | copyTemplate random template id user days =>
    rw [exec, Site.copyTemplate] at h
    split at h
    · cases h
    case h_2 table htable =>
      cases h
      obtain ⟨v, hv, rfl⟩ := List.mem_map.1 hw
      by_cases hid : v.id = id
      · rw [if_pos hid]
        refine .inr (.inr ⟨⟨random, template, user, days, ?_⟩, ?_⟩)
        · exact congrArg (Act.copyTemplate random template · user days) hid.symm
        · obtain ⟨copy, hcopy, hmoved⟩ := copyPersonaTemplate_moves htable
          show ((table id).getD v.toWorkspace).movedDays.isSome = true
          rw [hcopy, Option.getD_some, hmoved]
          rfl
      · rw [if_neg hid]
        exact .inl ⟨Ne.symm hid, v, hv, rfl, rfl, rfl⟩

/-- What spares a workspace that is being made leaves it in the making, or makes it whole. -/
theorem making_of_spares {s : Services} {l : Request} {past : Done} {a : Act} {w : Uuid}
    {filled : Bool} (hrule : s.Rule l past a) (ha : a.Spares w) (site : Site)
    (h : making past = some (w, filled)) :
    making ((a, .ok site) :: past) = some (w, filled) ∨
      filled = true ∧ rebases w (a, .ok site) = true := by
  cases a with
  | createWorkspace id selfId owner kind timezone =>
    have hnone : making past = none := hrule
    rw [hnone] at h
    cases h
  | copyTemplate random template id user days =>
    have hmaking : making past = some (id, false) := hrule
    rw [hmaking] at h
    exact absurd (Prod.mk.inj (Option.some.inj h)).1 ha
  | rebaseKeys id timezone =>
    have hmaking : making past = some (id, true) := hrule
    rw [hmaking] at h
    obtain ⟨rfl, rfl⟩ := Prod.mk.inj (Option.some.inj h)
    exact .inr ⟨rfl, decide_eq_true rfl⟩
  | deleteWorkspace id =>
    refine .inl ?_
    show (making past).filter (·.1 ≠ id) = _
    rw [h, Option.filter_some, if_pos (decide_eq_true (Ne.symm ha))]
  | _ => exact .inl h

/-- **Attended copies** stay attended. -/
theorem attended_kept (s : Services) (start : Site) :
    Pool.Kept (exec s.uuidText s.rerender) s.Rule (NewCopiesAttended start) where
  comes h l w hw hkind := by
    rcases h w hw hkind with hstart | ⟨x, hx, hmaking⟩ | ⟨hfilled, x, hx, hrebased⟩
    · exact .inl hstart
    · exact .inr (.inl ⟨x, List.mem_append_left _ hx, hmaking⟩)
    · exact .inr (.inr ⟨hfilled, x, List.mem_append_left _ hx, hrebased⟩)
  goes := by
    intro site traces h i l past hi hlawful a hrule r hr w hw hkind
    cases r with
    | error e => exact (h w hw hkind).imp_right fun hold => hold.goes hi .inl
    | ok site' =>
      rcases exec_row (hr site' rfl) hw with
        ⟨hspares, v, hv, hid, hsame, hmoved⟩ | ⟨⟨selfId, owner, timezone, rfl⟩, hnew⟩ |
          ⟨⟨random, template, user, days, rfl⟩, hfilled⟩
      · refine (h v hv (hsame.trans hkind)).imp (hid ▸ id) fun hold => ?_
        have hold' : Attended traces w := by
          unfold Attended at hold ⊢
          rwa [hid, hmoved] at hold
        exact hold'.goes hi (making_of_spares hrule hspares site')
      · refine .inr (.inl ⟨_, mem_traces_set hi, ?_⟩)
        rw [hnew, hkind]
        rfl
      · refine .inr (.inl ⟨_, mem_traces_set hi, ?_⟩)
        have hmaking : making past = some (w.id, false) := hrule
        show (making past).map _ = _
        rw [hmaking, hfilled]
        simp

/-- The request is making the copy; if it is over, it was cancelled, or the deletion of what it
had begun failed. -/
def Leaves (id : Uuid) (t : Visit) : Prop :=
  (∃ copied, making t.past = some (id, copied)) ∧
    ((∃ a next, t.rest = .act a next) ∨ t.rest = .done (.error .cancelled) ∨
      ∃ e, (Act.deleteWorkspace id, .error e) ∈ t.past)

/-- Every copy made since the start has the rows of the template and its keys rendered anew, or a
request has left it. -/
def CopiesWhole (start : Site) (traffic : Services.Traffic) : Prop :=
  ∀ w ∈ traffic.world.workspaces, w.kind = .personaCopy → (∀ v ∈ start.workspaces, v.id ≠ w.id) →
    (w.movedDays.isSome = true ∧ ∃ t ∈ traffic.threads, t.past.any (rebases w.id) = true) ∨
      ∃ t ∈ traffic.threads, Leaves w.id t

theorem leaves_of_making {s : Services} {t : Visit}
    (h : Pool.Orderly (exec s.uuidText s.rerender) s.Rule (fun _ => Settled) t) {id : Uuid}
    {copied : Bool} (hmaking : making t.past = some (id, copied)) : Leaves id t := by
  refine ⟨⟨copied, hmaking⟩, ?_⟩
  cases hrest : t.rest with
  | act a next => exact .inl ⟨a, next, rfl⟩
  | done r =>
    have hends := h.keeps
    rw [hrest] at hends
    rcases hends with hcancelled | hclear
    · exact .inr (.inl (congrArg _ hcancelled))
    · exact .inr (.inr (hclear _ hmaking))

/-- A template that holds the person alone. -/
def sampleSite : Site where
  now := octoberNoon
  workspaces := [{
    ownerUserId := 1
    kind := .template
    seedId := some "aditi"
    content := bornContent 2 0
    id := 3
    timezone := "Europe/Berlin"
    createdAt := 0 }]

def sampleServices : Services where
  guestsOpen := true
  accessCodeRequired := true
  accessCode := none
  trustedProxyHops := 0
  guestNewPerIpPerDay := 5
  guestTtlDays := 30
  defaultTimezone := "UTC"
  persona := some {
    seedId := "aditi"
    zone := { initial := 0, changes := [], ascending := none_ascending, small := none_small }
    anchor := octoberNoon.time }
  device := Sessions.minuteSigner
  hmac _ _ := []
  normalise := id
  uuidText := Persona.smallUuid
  rerender _ content := content

/-- A first visit that is cancelled while the template is copied. -/
def cancelledVisit : List (Steps.Move Request SiteError) :=
  [.comes (.guest { user := 4, ids := ⟨5, 6, Persona.smallRandom⟩ }), .goes 0 none, .goes 0 none,
    .goes 0 none, .goes 0 none, .goes 0 (some .cancelled)]

/-- What that visit leaves. -/
def halfCopy : WorkspaceRow where
  ownerUserId := 4
  kind := .personaCopy
  content := bornContent 6 octoberNoon.time
  id := 5
  timezone := "Europe/Berlin"
  createdAt := octoberNoon.time

end Guests
end SecondMind
