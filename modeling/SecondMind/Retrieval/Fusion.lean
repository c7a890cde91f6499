import SecondMind.Keyed.Groups
import SecondMind.Memory.Keys
import SecondMind.Memory.Records
import Mathlib.Algebra.BigOperators.Group.List.Basic
import Mathlib.Algebra.Order.Ring.Rat
import Mathlib.Data.PNat.Basic
import Mathlib.Data.Prod.Lex
import Mathlib.Data.List.Sort

/-!
# Fusion

`fuse` of `retrieval/fusion.py`: what the channels of one sub-query found, item by item, each with
the sum of its reciprocal ranks.  The channels come in the order in which they finished.

* `Candidate.absorb` — what one hit adds to its candidate;
* `gather_fused` and `gather_shows` — the score and the key that all the hits of an item make;
* `fuse_map_eq` — what the fusion shows of its candidates follows from what it shows of each;
* `fuse_ranks_alike` and `fuse_order_free_iff` — what the order of the channels can change;
* `first_channel_shows` — an item that two channels found by different keys.
-/

namespace SecondMind

open Keyed

/-- `Shape`. -/
inductive Shape
  | exact | list | latest | history | timeWindow | order | count | set | entity | semantic | why
  | situational | conversation
  deriving DecidableEq, Repr

/-- One item that a channel found, in rank order. -/
structure Hit where
  itemId : Uuid
  rank : ℕ+
  lexical : Option Rat := none
  dense : Option Rat := none
  matchedKey : Option KeyKind := none
  snippet : Option String := none
  snippetPosition : Option Nat := none
  deriving DecidableEq

/-- `SOFT`. -/
def soft : String := "soft"

def historyStates : List String := ["superseded", "moved", "cancelled", "dropped"]

def noDemotion : List Shape := [.history, .why]

/-- `is_history`. -/
def isHistory (item : ItemContent) : Bool := item.state ∈ historyStates ∨ item.validTo ≠ none

/-- The results of the channels, each channel once, in the order in which they finished. -/
abbrev Channels := { channels : List (String × List Hit) // (channels.map (·.1)).Nodup }

/-- `Candidate`, as far as the fusion fills it and the selection reads it. -/
structure Candidate where
  itemId : Uuid
  foundBy : List (String × ℕ+) := []
  lexical : Option Rat := none
  dense : Option Rat := none
  matchedKey : Option KeyKind := none
  snippet : Option String := none
  snippetPosition : Option Nat := none
  fused : Rat := 0
  demoted : Bool := false
  rerankScore : Option Rat := none
  deriving DecidableEq

namespace Candidate

/-- `soft_only`. -/
def softOnly (c : Candidate) : Bool := c.foundBy ≠ [] ∧ c.foundBy.all (·.1 = soft)

/-- `filtered`: found by at least one filtered tool. -/
def filtered (c : Candidate) : Bool := c.foundBy.any (·.1 ≠ soft)

/-- The best rank of the channel is kept. -/
def found (foundBy : List (String × ℕ+)) (channel : String) (rank : ℕ+) : List (String × ℕ+) :=
  match foundBy.find? (·.1 = channel) with
  | none => foundBy ++ [(channel, rank)]
  | some old =>
    if rank < old.2 then foundBy.map fun e => if e.1 = channel then (channel, rank) else e
    else foundBy

/-- `x or y`, of numbers: zero is as good as none. -/
def orElse (x : Option Rat) (y : Rat) : Rat := if x.getD 0 = 0 then y else x.getD 0

/-- `max(x or floor, y)`, where there is a `y`. -/
def best (floor : Rat) (x y : Option Rat) : Option Rat :=
  match y with
  | some y => some (max (orElse x floor) y)
  | none => x

/-- The body of the inner loop of `fuse`. -/
def absorb (rrfK : Nat) (c : Candidate) (channel : String) (hit : Hit) : Candidate :=
  let c :=
    { c with
      foundBy := found c.foundBy channel hit.rank
      fused := c.fused + 1 / ((rrfK + hit.rank : Nat) : Rat)
      lexical := best 0 c.lexical hit.lexical
      dense := best (-1) c.dense hit.dense }
  if hit.matchedKey ≠ none ∧ (c.matchedKey = none ∨ channel = soft) then
    { c with
      matchedKey := hit.matchedKey
      snippet := hit.snippet
      snippetPosition := hit.snippetPosition }
  else c

variable {rrfK : Nat} {c : Candidate} {channel : String} {hit : Hit}

@[simp] theorem absorb_itemId : (c.absorb rrfK channel hit).itemId = c.itemId := by
  unfold absorb
  dsimp only
  split <;> rfl

@[simp] theorem absorb_fused :
    (c.absorb rrfK channel hit).fused = c.fused + 1 / ((rrfK + hit.rank : Nat) : Rat) := by
  unfold absorb
  dsimp only
  split <;> rfl

/-- A hit by a key is taken over by the first, and by the soft channel. -/
theorem absorb_matched (rrfK : Nat) (hkey : hit.matchedKey ≠ none)
    (h : c.matchedKey = none ∨ channel = soft) :
    (c.absorb rrfK channel hit).matchedKey = hit.matchedKey ∧
      (c.absorb rrfK channel hit).snippet = hit.snippet := by
  unfold absorb
  dsimp only
  rw [if_pos ⟨hkey, h⟩]
  exact ⟨rfl, rfl⟩

theorem absorb_kept (rrfK : Nat) (c : Candidate) (channel : String) (hit : Hit)
    (h : hit.matchedKey = none ∨ c.matchedKey ≠ none ∧ channel ≠ soft) :
    (c.absorb rrfK channel hit).matchedKey = c.matchedKey ∧
      (c.absorb rrfK channel hit).snippet = c.snippet := by
  unfold absorb
  dsimp only
  rw [if_neg]
  · exact ⟨rfl, rfl⟩
  · rintro ⟨hkey, hfirst⟩
    rcases h with h | ⟨hold, hsoft⟩
    · exact hkey h
    · rcases hfirst with hfirst | hfirst
      · exact hold hfirst
      · exact hsoft hfirst

end Candidate

/-! ## The fusion -/

/-- The loops of `fuse`: a candidate for each item, made where there is none. -/
def fusing (rrfK : Nat) : Grouping Uuid (String × Hit) Candidate where
  key e := e.2.itemId
  start itemId := { itemId := itemId }
  step c e := c.absorb rrfK e.1 e.2
  keyOf := Candidate.itemId
  keyOf_start _ := rfl
  keyOf_step _ _ := Candidate.absorb_itemId

/-- The hits of the known items, in the order in which the loops come to them. -/
def hitsOf (items : Uuid → Option ItemRecord) (channels : List (String × List Hit)) :
    List (String × Hit) :=
  (channels.flatMap fun channel => channel.2.map (channel.1, ·)).filter fun e =>
    (items e.2.itemId).isSome

/-- `_when`. -/
def whenOf (item : ItemContent) : Instant :=
  ((item.occurredStart.or item.validFrom).or item.dueAt).getD item.mentionedAt

/-- Old rows are demoted, except where they are the point. -/
def demote (items : Uuid → Option ItemRecord) (shape : Shape) (demotion : Rat) (c : Candidate) :
    Candidate :=
  match items c.itemId with
  | none => c
  | some item =>
    if shape ∉ noDemotion ∧ isHistory item.toItemContent then
      { c with fused := c.fused * demotion, demoted := true }
    else c

/-- What the candidates are sorted by.  An id is written in a fixed number of hexadecimal digits, so
the texts of ids are ordered as the ids are; `lower` is `str.lower`. -/
def rankKey (lower : String → String) (items : Uuid → Option ItemRecord) (itemId : Uuid)
    (fused : Rat) : Rat ×ₗ Int ×ₗ String ×ₗ Uuid :=
  let item := items itemId
  toLex (-fused, toLex ((item.map fun i => -whenOf i.toItemContent).getD 0,
    toLex ((item.map fun i => lower i.title).getD "", itemId)))

/-- `fuse`. -/
def fuse (lower : String → String) (channels : List (String × List Hit))
    (items : Uuid → Option ItemRecord) (shape : Shape) (rrfK : Nat) (demotion : Rat) :
    List Candidate :=
  (((fusing rrfK).groups (hitsOf items channels)).map (demote items shape demotion)).insertionSort
    fun c d => rankKey lower items c.itemId c.fused ≤ rankKey lower items d.itemId d.fused

/-! ## The order of the channels -/

/-- The place of a candidate and its score. -/
def Candidate.ranking (c : Candidate) : Uuid × Rat := (c.itemId, c.fused)

/-- Its place, its score, the key it was found by and the passage. -/
def Candidate.shown (c : Candidate) : Uuid × Rat × Option KeyKind × Option String :=
  (c.itemId, c.fused, c.matchedKey, c.snippet)

/-- What a hit shows of how it was found. -/
def Hit.shows (h : Hit) : Option KeyKind × Option String := (h.matchedKey, h.snippet)

theorem shows_bind {o o' : Option Hit} (h : o.map Hit.shows = o'.map Hit.shows) :
    (o.bind (·.matchedKey), o.bind (·.snippet)) =
      (o'.bind (·.matchedKey), o'.bind (·.snippet)) := by
  cases o with
  | none =>
    cases o' with
    | none => rfl
    | some hit' => exact (nomatch h)
  | some hit =>
    cases o' with
    | none => exact (nomatch h)
    | some hit' =>
      have hshows : hit.shows = hit'.shows := Option.some.inj h
      exact hshows

/-- The first hit of the item by a key, in one channel. -/
def firstKeyed (itemId : Uuid) (hits : List Hit) : Option Hit :=
  hits.find? fun h => h.itemId = itemId ∧ h.matchedKey ≠ none

/-- The soft channel found the item by a key, or all the channels that found it by one did so by the
same and show the same passage. -/
def KeysAgree (channels : List (String × List Hit)) (itemId : Uuid) : Prop :=
  (∃ x ∈ channels, x.1 = soft ∧ firstKeyed itemId x.2 ≠ none) ∨
    ∀ x ∈ channels, ∀ y ∈ channels, ∀ h ∈ firstKeyed itemId x.2, ∀ h' ∈ firstKeyed itemId y.2,
      h.shows = h'.shows

section

variable {items : Uuid → Option ItemRecord} {shape : Shape} {rrfK : Nat} {demotion : Rat}

theorem demote_itemId (c : Candidate) : (demote items shape demotion c).itemId = c.itemId := by
  unfold demote
  split
  · rfl
  · split <;> rfl

theorem demote_keeps (items : Uuid → Option ItemRecord) (shape : Shape) (demotion : Rat)
    (c : Candidate) :
    (demote items shape demotion c).matchedKey = c.matchedKey ∧
      (demote items shape demotion c).snippet = c.snippet := by
  unfold demote
  split
  · exact ⟨rfl, rfl⟩
  · split <;> exact ⟨rfl, rfl⟩

theorem demote_fused {c d : Candidate} (hid : c.itemId = d.itemId) (h : c.fused = d.fused) :
    (demote items shape demotion c).fused = (demote items shape demotion d).fused := by
  unfold demote
  rw [hid]
  split
  · exact h
  · split
    · exact congrArg (· * demotion) h
    · exact h

/-! ### One candidate -/

theorem foldl_fused (es : List (String × Hit)) (c : Candidate) :
    (es.foldl (fusing rrfK).step c).fused =
      c.fused + (es.map fun e => 1 / ((rrfK + e.2.rank : Nat) : Rat)).sum := by
  induction es generalizing c with
  | nil => simp
  | cons e es ih =>
    rw [List.foldl_cons, ih, List.map_cons, List.sum_cons, ← add_assoc]
    congr 1
    exact Candidate.absorb_fused

/-- The hit was found by a key. -/
def keyed (e : String × Hit) : Bool := e.2.matchedKey ≠ none

/-- The soft channel found it by one. -/
def softKeyed (e : String × Hit) : Bool := e.1 = soft ∧ e.2.matchedKey ≠ none

/-- The hit whose key and passage a candidate shows: the last of the soft channel, or the first. -/
def shownHit (es : List (String × Hit)) : Option Hit :=
  ((es.filter softKeyed).getLast?.or (es.find? keyed)).map (·.2)

theorem shownHit_plain (es : List (String × Hit)) {e : String × Hit} (h : e.2.matchedKey = none) :
    shownHit (es ++ [e]) = shownHit es := by
  simp [shownHit, softKeyed, keyed, List.filter_append, List.find?_append, h]

theorem shownHit_soft (es : List (String × Hit)) {e : String × Hit} (h : e.2.matchedKey ≠ none)
    (hsoft : e.1 = soft) : shownHit (es ++ [e]) = some e.2 := by
  simp [shownHit, softKeyed, List.filter_append, h, hsoft]

theorem shownHit_other (es : List (String × Hit)) {e : String × Hit} (h : e.2.matchedKey ≠ none)
    (hsoft : e.1 ≠ soft) : shownHit (es ++ [e]) = (shownHit es).or (some e.2) := by
  have hfilter : (es ++ [e]).filter softKeyed = es.filter softKeyed := by
    simp [softKeyed, List.filter_append, hsoft]
  have hfind : (es ++ [e]).find? keyed = (es.find? keyed).or (some e) := by
    simp [keyed, List.find?_append, h]
  rw [shownHit, hfilter, hfind, ← Option.or_assoc, Option.map_or]
  rfl

theorem shownHit_keyed {es : List (String × Hit)} {hit : Hit} (h : shownHit es = some hit) :
    hit.matchedKey ≠ none := by
  obtain ⟨e, he, rfl⟩ := Option.map_eq_some_iff.1 h
  rcases Option.or_eq_some_iff.1 he with he | ⟨-, he⟩
  · have hmem := List.mem_filter.1 (List.mem_of_getLast? he)
    exact (of_decide_eq_true hmem.2).2
  · have hkeyed : keyed e = true := List.find?_some he
    exact of_decide_eq_true hkeyed

/-- **The key that a candidate shows** is that of one of its hits. -/
theorem foldl_shows (rrfK : Nat) (es : List (String × Hit)) (itemId : Uuid) :
    let c := es.foldl (fusing rrfK).step { itemId := itemId }
    c.matchedKey = (shownHit es).bind (·.matchedKey) ∧
      c.snippet = (shownHit es).bind (·.snippet) := by
  induction es using List.reverseRecOn with
  | nil => exact ⟨rfl, rfl⟩
  | append_singleton es e ih =>
    rw [List.foldl_concat]
    dsimp only at ih ⊢
    by_cases hkey : e.2.matchedKey = none
    · rw [shownHit_plain es hkey]
      obtain ⟨hmatched, hsnippet⟩ := Candidate.absorb_kept rrfK
        (es.foldl (fusing rrfK).step { itemId := itemId }) e.1 e.2 (.inl hkey)
      exact ⟨hmatched.trans ih.1, hsnippet.trans ih.2⟩
    · by_cases hsoft : e.1 = soft
      · rw [shownHit_soft es hkey hsoft]
        exact Candidate.absorb_matched rrfK hkey (.inr hsoft)
      · rw [shownHit_other es hkey hsoft]
        cases hshown : shownHit es with
        | none =>
          rw [hshown] at ih
          exact Candidate.absorb_matched rrfK hkey (.inl ih.1)
        | some hit =>
          rw [hshown] at ih
          have hold := shownHit_keyed hshown
          obtain ⟨hmatched, hsnippet⟩ := Candidate.absorb_kept rrfK
            (es.foldl (fusing rrfK).step { itemId := itemId }) e.1 e.2
            (.inr ⟨by rw [ih.1]; exact hold, hsoft⟩)
          exact ⟨hmatched.trans ih.1, hsnippet.trans ih.2⟩

/-! ### Its hits, channel by channel -/

variable {channels channels' : List (String × List Hit)} {itemId : Uuid}

/-- The hits of one item. -/
def hitsFor (items : Uuid → Option ItemRecord) (channels : List (String × List Hit))
    (itemId : Uuid) : List (String × Hit) :=
  (hitsOf items channels).filter (·.2.itemId = itemId)

theorem hitsOf_perm (h : channels'.Perm channels) :
    (hitsOf items channels').Perm (hitsOf items channels) :=
  (h.flatMap_right _).filter _

theorem hitsFor_perm (h : channels'.Perm channels) (itemId : Uuid) :
    (hitsFor items channels' itemId).Perm (hitsFor items channels itemId) :=
  (hitsOf_perm h).filter _

/-- The hits of a known item that a test admits. -/
theorem filter_hitsFor (hknown : items itemId ≠ none) (p : String × Hit → Bool) :
    (hitsFor items channels itemId).filter p =
      channels.flatMap fun x =>
        (x.2.filter fun h => h.itemId = itemId ∧ p (x.1, h) = true).map (x.1, ·) := by
  rw [hitsFor, hitsOf, List.filter_filter, List.filter_filter, List.filter_flatMap]
  refine List.flatMap_congr fun x _ => ?_
  rw [List.filter_map]
  congr 1
  refine List.filter_congr fun h _ => ?_
  by_cases hid : h.itemId = itemId
  · simp [hid, Option.isSome_iff_ne_none.2 hknown]
  · simp [hid]

theorem find_keyed (hknown : items itemId ≠ none) :
    (hitsFor items channels itemId).find? keyed =
      channels.findSome? fun x => (firstKeyed itemId x.2).map (x.1, ·) := by
  rw [← List.head?_filter, filter_hitsFor hknown, List.head?_flatMap]
  congr 1
  funext x
  rw [List.head?_map, List.head?_filter]
  simp [firstKeyed, keyed]

/-- The soft channel is one or none. -/
theorem filter_soft (hnodup : (channels.map (·.1)).Nodup) (hperm : channels'.Perm channels) :
    channels'.filter (·.1 = soft) = channels.filter (·.1 = soft) := by
  have hsame := hperm.filter fun x => decide (x.1 = soft)
  have hsub : (channels.filter (·.1 = soft)).Sublist channels := List.filter_sublist
  have hnodup := (hsub.map Prod.fst).nodup hnodup
  have hsoft : ∀ x ∈ channels.filter (·.1 = soft), x.1 = soft := fun x hx =>
    of_decide_eq_true (List.mem_filter.1 hx).2
  rcases hlist : channels.filter (·.1 = soft) with _ | ⟨x, _ | ⟨y, xs⟩⟩
  · rw [hlist] at hsame
    exact hlist ▸ hsame.eq_nil
  · rw [hlist] at hsame
    exact hlist ▸ List.perm_singleton.1 hsame
  · rw [hlist] at hnodup hsoft
    have hxy : x.1 = y.1 := (hsoft x (by simp)).trans (hsoft y (by simp)).symm
    simp [hxy] at hnodup

/-- What the soft channel found comes in one order. -/
theorem filter_softKeyed (hnodup : (channels.map (·.1)).Nodup) (hperm : channels'.Perm channels)
    (hknown : items itemId ≠ none) :
    (hitsFor items channels' itemId).filter softKeyed =
      (hitsFor items channels itemId).filter softKeyed := by
  have hrest : ∀ cs : List (String × List Hit),
      (hitsFor items cs itemId).filter softKeyed =
        (cs.filter (·.1 = soft)).flatMap fun x =>
          (x.2.filter fun h => h.itemId = itemId ∧ softKeyed (x.1, h) = true).map (x.1, ·) := by
    intro cs
    rw [filter_hitsFor hknown]
    induction cs with
    | nil => rfl
    | cons x cs ih =>
      rw [List.flatMap_cons, ih]
      by_cases hsoft : x.1 = soft
      · rw [List.filter_cons_of_pos (by simpa using hsoft), List.flatMap_cons]
      · rw [List.filter_cons_of_neg (by simpa using hsoft)]
        simp [softKeyed, hsoft]
  rw [hrest, hrest, filter_soft hnodup hperm]

/-- The soft channel found the item by a key. -/
theorem softKeyed_iff (hknown : items itemId ≠ none) :
    (hitsFor items channels itemId).filter softKeyed ≠ [] ↔
      ∃ x ∈ channels, x.1 = soft ∧ firstKeyed itemId x.2 ≠ none := by
  rw [filter_hitsFor hknown, Ne, List.flatMap_eq_nil_iff]
  simp only [softKeyed, firstKeyed, not_forall, List.map_eq_nil_iff, List.filter_eq_nil_iff,
    ne_eq, List.find?_eq_none, decide_eq_true_eq, exists_prop]
  constructor
  · rintro ⟨x, hx, h, hh, hfound⟩
    obtain ⟨hid, hsoft, hkey⟩ := Decidable.not_not.1 hfound
    exact ⟨x, hx, hsoft, h, hh, not_not_intro ⟨hid, hkey⟩⟩
  · rintro ⟨x, hx, hsoft, h, hh, hfound⟩
    obtain ⟨hid, hkey⟩ := Decidable.not_not.1 hfound
    exact ⟨x, hx, h, hh, not_not_intro ⟨hid, hsoft, hkey⟩⟩

/-- **Where the keys agree**, a candidate shows one key and one passage in every order. -/
theorem shownHit_agrees (hnodup : (channels.map (·.1)).Nodup) (hperm : channels'.Perm channels)
    (hknown : items itemId ≠ none) (hagree : KeysAgree channels itemId) :
    (shownHit (hitsFor items channels' itemId)).map Hit.shows =
      (shownHit (hitsFor items channels itemId)).map Hit.shows := by
  unfold shownHit
  rw [filter_softKeyed hnodup hperm hknown]
  cases hlast : ((hitsFor items channels itemId).filter softKeyed).getLast? with
  | some e => rfl
  | none =>
    rcases hagree with hsoft | hsame
    · exact absurd (List.getLast?_eq_none_iff.1 hlast) ((softKeyed_iff hknown).2 hsoft)
    · rw [Option.none_or, Option.none_or, find_keyed hknown, find_keyed hknown]
      cases hfirst : channels.findSome? fun x => (firstKeyed itemId x.2).map (x.1, ·) with
      | none =>
        rw [List.findSome?_eq_none_iff] at hfirst
        rw [List.findSome?_eq_none_iff.2 fun x hx => hfirst x (hperm.mem_iff.1 hx)]
      | some e =>
        obtain ⟨x, hx, hxe⟩ := List.exists_of_findSome?_eq_some hfirst
        obtain ⟨h, hh, rfl⟩ := Option.map_eq_some_iff.1 hxe
        cases hfirst' : channels'.findSome? fun x => (firstKeyed itemId x.2).map (x.1, ·) with
        | none =>
          rw [List.findSome?_eq_none_iff] at hfirst'
          rw [hfirst' x (hperm.mem_iff.2 hx)] at hxe
          exact (nomatch hxe)
        | some e' =>
          obtain ⟨y, hy, hye⟩ := List.exists_of_findSome?_eq_some hfirst'
          obtain ⟨h', hh', rfl⟩ := Option.map_eq_some_iff.1 hye
          exact congrArg some (hsame y (hperm.mem_iff.1 hy) x hx h' hh' h hh)

/-- The channel that finished first shows its key, where the soft channel has none. -/
theorem shownHit_front (hknown : items itemId ≠ none) {x : String × List Hit}
    {rest : List (String × List Hit)} {h : Hit} (hh : firstKeyed itemId x.2 = some h)
    (hsoft : ¬ ∃ y ∈ x :: rest, y.1 = soft ∧ firstKeyed itemId y.2 ≠ none) :
    shownHit (hitsFor items (x :: rest) itemId) = some h := by
  have hnone : (hitsFor items (x :: rest) itemId).filter softKeyed = [] := by
    by_contra hne
    exact hsoft ((softKeyed_iff hknown).1 hne)
  rw [shownHit, hnone, find_keyed hknown, List.findSome?_cons, hh]
  rfl

/-! ### All the candidates -/

variable {lower : String → String}

/-- The candidate of an item. -/
def candidateOf (items : Uuid → Option ItemRecord) (shape : Shape) (rrfK : Nat) (demotion : Rat)
    (channels : List (String × List Hit)) (itemId : Uuid) : Candidate :=
  demote items shape demotion ((fusing rrfK).gather (hitsOf items channels) itemId)

theorem candidateOf_itemId :
    (candidateOf items shape rrfK demotion channels itemId).itemId = itemId := by
  rw [candidateOf, demote_itemId]
  exact (fusing rrfK).keyOf_gather _ _

/-- **A candidate's score** is that of its hits, in any order. -/
theorem candidateOf_fused (hperm : channels'.Perm channels) :
    (candidateOf items shape rrfK demotion channels' itemId).fused =
      (candidateOf items shape rrfK demotion channels itemId).fused := by
  refine demote_fused ?_ ?_
  · exact ((fusing rrfK).keyOf_gather _ _).trans ((fusing rrfK).keyOf_gather _ _).symm
  · unfold Grouping.gather
    rw [foldl_fused, foldl_fused]
    congr 1
    exact ((hitsFor_perm hperm itemId).map _).sum_eq

variable (items shape rrfK demotion channels itemId) in
theorem candidateOf_shows :
    (candidateOf items shape rrfK demotion channels itemId).matchedKey =
        (shownHit (hitsFor items channels itemId)).bind (·.matchedKey) ∧
      (candidateOf items shape rrfK demotion channels itemId).snippet =
        (shownHit (hitsFor items channels itemId)).bind (·.snippet) := by
  obtain ⟨hkey, hsnippet⟩ := foldl_shows rrfK (hitsFor items channels itemId) itemId
  obtain ⟨hkey', hsnippet'⟩ := demote_keeps items shape demotion
    ((fusing rrfK).gather (hitsOf items channels) itemId)
  exact ⟨hkey'.trans hkey, hsnippet'.trans hsnippet⟩

/-- The candidates of a fusion. -/
theorem mem_fuse {c : Candidate} :
    c ∈ fuse lower channels items shape rrfK demotion ↔
      ∃ e ∈ hitsOf items channels,
        c = candidateOf items shape rrfK demotion channels e.2.itemId := by
  unfold fuse
  rw [List.mem_insertionSort, List.mem_map]
  constructor
  · rintro ⟨d, hd, rfl⟩
    obtain ⟨e, he, rfl⟩ := ((fusing rrfK).mem_groups _).1 hd
    exact ⟨e, he, rfl⟩
  · rintro ⟨e, he, rfl⟩
    exact ⟨_, ((fusing rrfK).mem_groups _).2 ⟨e, he, rfl⟩, rfl⟩

/-- What is sorted by a key is sorted. -/
theorem pairwise_insertionSort_key {α κ : Type} [LinearOrder κ] (key : α → κ) (l : List α) :
    (l.insertionSort fun a b => key a ≤ key b).Pairwise fun a b => key a ≤ key b := by
  have : Std.Total fun a b : α => key a ≤ key b := ⟨fun a b => le_total (key a) (key b)⟩
  have : IsTrans α fun a b : α => key a ≤ key b := ⟨fun _ _ _ => le_trans⟩
  exact List.pairwise_insertionSort _ l

/-- The candidates are sorted by their keys. -/
theorem fuse_sorted (channels : List (String × List Hit)) :
    (fuse lower channels items shape rrfK demotion).Pairwise fun c d =>
      rankKey lower items c.itemId c.fused ≤ rankKey lower items d.itemId d.fused :=
  pairwise_insertionSort_key (fun c : Candidate => rankKey lower items c.itemId c.fused) _

theorem rankKey_itemId {a b : Uuid} {x y : Rat}
    (h : rankKey lower items a x = rankKey lower items b y) : a = b :=
  congrArg (fun k => (ofLex (ofLex (ofLex k).2).2).2) h

/-- **What the fusion shows** of its candidates, item and score with it, is the same in another
order if it is the same of each. -/
theorem fuse_map_eq {τ : Type} {f : Candidate → τ} (place : τ → Uuid × Rat)
    (hplace : ∀ c, place (f c) = c.ranking) (hperm : channels'.Perm channels)
    (h : ∀ e ∈ hitsOf items channels,
      f (candidateOf items shape rrfK demotion channels' e.2.itemId) =
        f (candidateOf items shape rrfK demotion channels e.2.itemId)) :
    (fuse lower channels' items shape rrfK demotion).map f =
      (fuse lower channels items shape rrfK demotion).map f := by
  have hsame : ((fuse lower channels' items shape rrfK demotion).map f).Perm
      ((fuse lower channels items shape rrfK demotion).map f) := by
    refine ((List.perm_insertionSort _ _).map f).trans ?_
    refine .trans ?_ ((List.perm_insertionSort _ _).map f).symm
    rw [List.map_map, List.map_map]
    refine (fusing rrfK).map_groups_perm (fun t => (place t).1) (fun c => ?_)
      (fun e => (hitsOf_perm hperm).mem_iff) fun e he => ?_
    · rw [Function.comp, hplace]
      exact demote_itemId c
    · exact h e ((hitsOf_perm hperm).mem_iff.1 he)
  have hsorted : ∀ cs : List (String × List Hit),
      ((fuse lower cs items shape rrfK demotion).map f).Pairwise fun a b =>
        rankKey lower items (place a).1 (place a).2 ≤
          rankKey lower items (place b).1 (place b).2 := by
    intro cs
    rw [List.pairwise_map]
    refine (fuse_sorted cs).imp fun {c d} hle => ?_
    rw [hplace, hplace]
    exact hle
  refine List.Perm.eq_of_pairwise (fun a b ha hb hab hba => ?_) (hsorted _) (hsorted _) hsame
  -- one item has one candidate, so equal keys belong to one and the same
  obtain ⟨c, hc, rfl⟩ := List.mem_map.1 (hsame.mem_iff.1 ha)
  obtain ⟨d, hd, rfl⟩ := List.mem_map.1 hb
  have hid := rankKey_itemId (le_antisymm hab hba)
  rw [hplace, hplace] at hid
  obtain ⟨e, -, rfl⟩ := mem_fuse.1 hc
  obtain ⟨e', -, rfl⟩ := mem_fuse.1 hd
  have hitem : e.2.itemId = e'.2.itemId :=
    candidateOf_itemId.symm.trans (hid.trans candidateOf_itemId)
  rw [hitem]

/-- **The ranking and the scores** never depend on which channel finished first. -/
theorem fuse_ranks_alike (hperm : channels'.Perm channels) :
    (fuse lower channels' items shape rrfK demotion).map Candidate.ranking =
      (fuse lower channels items shape rrfK demotion).map Candidate.ranking := by
  refine fuse_map_eq id (fun c => rfl) hperm fun e _ => Prod.ext ?_ ?_
  · exact candidateOf_itemId.trans candidateOf_itemId.symm
  · exact candidateOf_fused hperm

/-- What is shown of a candidate, put together from its hits. -/
theorem candidateOf_shown :
    (candidateOf items shape rrfK demotion channels itemId).shown =
      (itemId, (candidateOf items shape rrfK demotion channels itemId).fused,
        (shownHit (hitsFor items channels itemId)).bind (·.matchedKey),
        (shownHit (hitsFor items channels itemId)).bind (·.snippet)) := by
  obtain ⟨hkey, hsnippet⟩ := candidateOf_shows items shape rrfK demotion channels itemId
  rw [Candidate.shown, candidateOf_itemId, hkey, hsnippet]

/-- Where the keys of an item do not agree, two orders show it by two of them. -/
theorem exists_shows (hknown : items itemId ≠ none) (hagree : ¬ KeysAgree channels itemId) :
    ∃ cs ds h h', cs.Perm channels ∧ ds.Perm channels ∧
      shownHit (hitsFor items cs itemId) = some h ∧ shownHit (hitsFor items ds itemId) = some h' ∧
      h.shows ≠ h'.shows := by
  have hfront : ∀ x ∈ channels, ∀ h, firstKeyed itemId x.2 = some h →
      ∃ cs, cs.Perm channels ∧ shownHit (hitsFor items cs itemId) = some h := by
    intro x hx h hh
    have hperm : (x :: channels.erase x).Perm channels := (List.perm_cons_erase hx).symm
    refine ⟨x :: channels.erase x, hperm, shownHit_front hknown hh fun hsoft => hagree (.inl ?_)⟩
    obtain ⟨y, hy, hsofty⟩ := hsoft
    exact ⟨y, hperm.mem_iff.1 hy, hsofty⟩
  by_contra hall
  refine hagree (.inr fun x hx y hy h hh h' hh' => ?_)
  obtain ⟨cs, hcs, hshown⟩ := hfront x hx h hh
  obtain ⟨ds, hds, hshown'⟩ := hfront y hy h' hh'
  by_contra hne
  exact hall ⟨cs, ds, h, h', hcs, hds, hshown, hshown', hne⟩

end

/-- **The order of the channels** changes neither the ranking nor the scores, and it changes neither
a key nor a passage exactly when the keys of each item that was found agree. -/
theorem fuse_order_free_iff (lower : String → String) (channels : Channels)
    (items : Uuid → Option ItemRecord) (shape : Shape) (rrfK : Nat) (demotion : Rat) :
    (∀ channels' : Channels, channels'.1.Perm channels.1 →
      (fuse lower channels'.1 items shape rrfK demotion).map Candidate.ranking =
        (fuse lower channels.1 items shape rrfK demotion).map Candidate.ranking) ∧
    ((∀ channels' : Channels, channels'.1.Perm channels.1 →
        (fuse lower channels'.1 items shape rrfK demotion).map Candidate.shown =
          (fuse lower channels.1 items shape rrfK demotion).map Candidate.shown) ↔
      ∀ e ∈ hitsOf items channels.1, KeysAgree channels.1 e.2.itemId) := by
  have hknown : ∀ e ∈ hitsOf items channels.1, items e.2.itemId ≠ none := fun e he =>
    Option.isSome_iff_ne_none.1 (List.mem_filter.1 he).2
  refine ⟨fun channels' hperm => fuse_ranks_alike hperm, fun hsame e he => ?_,
    fun hagree channels' hperm => ?_⟩
  · by_contra hagree
    obtain ⟨cs, ds, h, h', hcs, hds, hshown, hshown', hne⟩ := exists_shows (hknown e he) hagree
    -- the candidate of the item in any order is the one that the given order shows
    have hshows : ∀ ks : List (String × List Hit), ks.Perm channels.1 →
        ((shownHit (hitsFor items ks e.2.itemId)).bind (·.matchedKey),
            (shownHit (hitsFor items ks e.2.itemId)).bind (·.snippet)) =
          (candidateOf items shape rrfK demotion channels.1 e.2.itemId).shown.2.2 := by
      intro ks hks
      have hnodup : (ks.map (·.1)).Nodup := (hks.map _).nodup_iff.2 channels.2
      have hmem : candidateOf items shape rrfK demotion ks e.2.itemId ∈
          fuse lower ks items shape rrfK demotion :=
        mem_fuse.2 ⟨e, (hitsOf_perm hks).mem_iff.2 he, rfl⟩
      have hmem := List.mem_map_of_mem (f := Candidate.shown) hmem
      rw [hsame ⟨ks, hnodup⟩ hks] at hmem
      obtain ⟨c, hc, hcs⟩ := List.mem_map.1 hmem
      obtain ⟨e', -, rfl⟩ := mem_fuse.1 hc
      have hid : e'.2.itemId = e.2.itemId :=
        candidateOf_itemId.symm.trans ((congrArg (·.1) hcs).trans candidateOf_itemId)
      rw [hid] at hcs
      rw [hcs, candidateOf_shown]
    have heq := (hshows cs hcs).trans (hshows ds hds).symm
    rw [hshown, hshown'] at heq
    exact hne heq
  · refine fuse_map_eq (fun x => (x.1, x.2.1)) (fun c => rfl) hperm fun e he => ?_
    have hshown := shownHit_agrees channels.2 hperm (hknown e he) (hagree e he)
    rw [candidateOf_shown, candidateOf_shown, candidateOf_fused hperm, Prod.mk.injEq, Prod.mk.injEq]
    exact ⟨rfl, rfl, shows_bind hshown⟩

/-! ### Two channels that found an item by different keys -/

/-- An item that is known. -/
def knownItem : ItemRecord :=
  { kind := .note, state := "current", text := "milk", title := "milk", mentionedAt := 0, id := 1
    createdAt := 0, updatedAt := 0, createdByTurnId := 1, updatedByTurnId := 1 }

/-- The same item from two channels, by its text and by a question it answers. -/
def twoKeys : List (String × List Hit) :=
  [("search", [{ itemId := 1, rank := Nat.succPNat 0, matchedKey := some .text }]),
    ("history", [{ itemId := 1, rank := Nat.succPNat 0, matchedKey := some .question }])]

theorem twoKeys_nodup : (twoKeys.map (·.1)).Nodup := by decide

theorem twoKeys_reverse_nodup : (twoKeys.reverse.map (·.1)).Nodup := by decide

/-- The channel that finished first shows its key. -/
theorem first_channel_shows :
    ¬ ∀ (lower : String → String) (channels channels' : Channels) (items : Uuid → Option ItemRecord)
        (shape : Shape) (rrfK : Nat) (demotion : Rat), channels'.1.Perm channels.1 →
      (fuse lower channels'.1 items shape rrfK demotion).map Candidate.shown =
        (fuse lower channels.1 items shape rrfK demotion).map Candidate.shown := by
  intro h
  have hshown := h id ⟨twoKeys, twoKeys_nodup⟩ ⟨twoKeys.reverse, twoKeys_reverse_nodup⟩
    (fun _ => some knownItem) .list 60 (1 / 2) (List.reverse_perm _)
  exact absurd hshown (by decide +kernel)

end SecondMind
