import SecondMind.Core.Result
import SecondMind.Memory.Keys
import SecondMind.Memory.UndoConflicts

/-!
# Key rebuilds side by side

Commits and rebuilds of one workspace, in any order of their transactions.  A rebuild waits for its
embeddings between the transaction that renders and the one that writes; what the store holds may
have changed by then.

* `Rebuild.Writes` — a rebuild will still write what an item shows now;
* `KeyIndexer.Kept` — the keys of every live item are right, or a rebuild will write them;
* `KeyIndexer.kept_act` — a timely action keeps this;
* `KeyIndexer.keys_follow` — where all actions were timely and no rebuild is left, all keys are right;
* `late_write` — an older rebuild that writes last.
-/

namespace SecondMind

open Keyed Render

/-- A rebuild that has not finished. -/
inductive Rebuild
  | started (items : List Uuid) (extra : ExtraKeys)
  | rendered (wanted : List (Uuid × List (KeyKind × String))) (enriched : List Uuid)
    (cached : List (String × Embedding))
  deriving DecidableEq

/-- What the embedder answers. -/
inductive Embedded
  | raised
  | unavailable
  | given (vectors : List Embedding)

/-- The store, the keys, and the rebuilds that have not finished. -/
structure Indexing where
  tables : Tables
  keys : List KeyRecord := []
  rebuilds : List Rebuild := []

/-- One transaction: a commit, whose rebuild is started, or one of a rebuild. -/
inductive IndexAction
  | commit (w : Writer) (extra : ExtraKeys)
  | rebuild (items : List Uuid) (extra : ExtraKeys)
  | render (i : Nat)
  | write (i : Nat) (answer : Embedded)

def Indexing.start (me : Uuid) : Indexing where
  tables := .initial me

def Indexing.without (s : Indexing) (i : Nat) : Indexing :=
  { s with rebuilds := s.rebuilds.eraseIdx i }

namespace KeyIndexer

variable (ix : KeyIndexer)

/-- The answer to a rebuild, if its embedder did not raise and gave each text its vector. -/
def answerOf (misses : List String) : Embedded → Option (Option (List Embedding))
  | .raised => none
  | .unavailable => some none
  | .given vectors => if vectors.length = misses.length then some (some vectors) else none

/-- The first transaction of a rebuild. -/
def renderRebuild (s : Indexing) (i : Nat) (items : List Uuid) (extra : ExtraKeys) : Indexing :=
  match ix.render s.tables items extra with
  | .error _ => s.without i
  | .ok wanted =>
    let hashes := (wanted.flatMap fun e => e.2.map fun key => ix.contentHash key.2).dedup
    { s with
      rebuilds := s.rebuilds.set i
        (.rendered wanted (extra.map (·.1)) (ix.cachedEmbeddings s.keys hashes)) }

/-- The second transaction of a rebuild. -/
def writeRebuild (s : Indexing) (i : Nat) (wanted : List (Uuid × List (KeyKind × String)))
    (enriched : List Uuid) (cached : List (String × Embedding)) (answer : Embedded) : Indexing :=
  match answerOf (ix.misses wanted cached) answer with
  | none => s.without i
  | some given =>
    { s.without i with
      keys := ix.write s.tables.toMemoryTables s.keys wanted enriched
        (ix.vectors (ix.misses wanted cached) cached given) }

/-- What an action does; one that is not possible does nothing. -/
def act (s : Indexing) : IndexAction → Indexing
  | .commit w extra =>
    match w.commit s.tables with
    | .error _ => s
    | .ok (t, res) =>
      { s with
        tables := t
        rebuilds := s.rebuilds ++
          if res.touchedItems = [] then [] else [.started res.touchedItems extra] }
  | .rebuild items extra => { s with rebuilds := s.rebuilds ++ [.started items extra] }
  | .render i =>
    match s.rebuilds[i]? with
    | some (.started items extra) => ix.renderRebuild s i items extra
    | _ => s
  | .write i answer =>
    match s.rebuilds[i]? with
    | some (.rendered wanted enriched cached) => ix.writeRebuild s i wanted enriched cached answer
    | _ => s

def runs (s : Indexing) (actions : List IndexAction) : Indexing := actions.foldl ix.act s

/-! ## Right keys -/

/-- The derived keys an item has. -/
def shownKeys (keys : List KeyRecord) (id : Uuid) : List (KeyKind × String) :=
  (keys.filter fun key => key.itemId = id ∧ key.keyKind ∈ derivedKinds).map fun key =>
    (key.keyKind, key.text)

/-- The derived keys an item should have, if it is live. -/
def dueKeys (t : Tables) (id : Uuid) : Option (Rendered (List (KeyKind × String))) :=
  ((t.getItem id).filter (·.status ≠ .deleted)).map (ix.derivedOf t)

/-- Every live item has the keys that rendering the store gives it. -/
def KeysRight (s : Indexing) : Prop :=
  ∀ id keys, ix.dueKeys s.tables id = some keys → keys = .ok (shownKeys s.keys id)

/-- What was rendered for an item is what rendering gives it now. -/
def Fresh (t : Tables) (id : Uuid) (keys : List (KeyKind × String)) : Prop :=
  ix.dueKeys t id = some (.ok (keys.filter (·.1 ∈ derivedKinds)))

/-- The rebuild will write what the item should have now: it has not rendered yet, or what it
rendered is still right. -/
def Writes (t : Tables) (id : Uuid) : Rebuild → Prop
  | .started items _ => id ∈ items
  | .rendered wanted _ _ => ∃ keys, (id, keys) ∈ wanted ∧ ix.Fresh t id keys

/-- The item has the keys it should have. -/
def RightAt (s : Indexing) (id : Uuid) : Prop :=
  ix.dueKeys s.tables id = some (.ok (shownKeys s.keys id))

/-- Another rebuild than the one at `i` will. -/
def WrittenBesides (s : Indexing) (i : Nat) (id : Uuid) : Prop :=
  ∃ j ≠ i, ∃ b, s.rebuilds[j]? = some b ∧ ix.Writes s.tables id b

/-! ## Timely actions -/

/-- The commit touches every item whose keys it changes, or a rebuild is about to render it. -/
def CommitTimely (s : Indexing) (w : Writer) : Prop :=
  ∀ t res, w.commit s.tables = .ok (t, res) → ∀ id ∉ res.touchedItems, ix.dueKeys t id ≠ none →
    ix.dueKeys t id = ix.dueKeys s.tables id ∨ ∃ b ∈ s.rebuilds, ix.Writes t id b

/-- Each item of a rebuild that stops with an error has its keys, or another rebuild comes after. -/
def StopTimely (s : Indexing) (i : Nat) (b : Rebuild) : Prop :=
  ∀ id, ix.dueKeys s.tables id ≠ none → ix.Writes s.tables id b →
    ix.RightAt s id ∨ ix.WrittenBesides s i id

/-- Where the keys of a live item changed since they were rendered, another rebuild comes after. -/
def WriteTimely (s : Indexing) (i : Nat) (wanted : List (Uuid × List (KeyKind × String))) : Prop :=
  ∀ e ∈ wanted, ix.dueKeys s.tables e.1 ≠ none →
    ix.Fresh s.tables e.1 e.2 ∨ ix.WrittenBesides s i e.1

def Timely (s : Indexing) : IndexAction → Prop
  | .commit w _ => ix.CommitTimely s w
  | .rebuild _ _ => True
  | .render i => ∀ items extra e, s.rebuilds[i]? = some (.started items extra) →
    ix.render s.tables items extra = .error e → ix.StopTimely s i (.started items extra)
  | .write i answer => ∀ wanted enriched cached,
    s.rebuilds[i]? = some (.rendered wanted enriched cached) →
      if answerOf (ix.misses wanted cached) answer = none then
        ix.StopTimely s i (.rendered wanted enriched cached)
      else ix.WriteTimely s i wanted

/-- Every action of a run is timely. -/
def RunTimely : Indexing → List IndexAction → Prop
  | _, [] => True
  | s, action :: actions => ix.Timely s action ∧ RunTimely (ix.act s action) actions

/-! ## What rendering gives -/

theorem filter_dedup {α : Type} [DecidableEq α] (p : α → Bool) (xs : List α) :
    xs.dedup.filter p = (xs.filter p).dedup := by
  induction xs with
  | nil => rfl
  | cons x xs ih =>
    by_cases hx : x ∈ xs
    · rw [List.dedup_cons_of_mem hx, ih, List.filter_cons]
      split
      · rename_i hp
        rw [List.dedup_cons_of_mem (List.mem_filter.2 ⟨hx, hp⟩)]
      · rfl
    · rw [List.dedup_cons_of_notMem hx, List.filter_cons, List.filter_cons, ih]
      split
      · rw [List.dedup_cons_of_notMem fun h => hx (List.mem_filter.1 h).1]
      · rfl

theorem filter_distinct {α : Type} [DecidableEq α] (p : α → Bool) (xs : List α) :
    (distinct xs).filter p = distinct (xs.filter p) := by
  rw [distinct, distinct, List.filter_reverse, filter_dedup, List.filter_reverse]

theorem distinct_of_nodup {α : Type} [DecidableEq α] {xs : List α} (h : xs.Nodup) :
    distinct xs = xs := by
  rw [distinct, List.dedup_eq_self.2 (List.nodup_reverse.2 h), List.reverse_reverse]

theorem mem_distinct {α : Type} [DecidableEq α] {x : α} {xs : List α} :
    x ∈ distinct xs ↔ x ∈ xs := by
  rw [distinct, List.mem_reverse, List.mem_dedup, List.mem_reverse]

theorem nodup_distinct {α : Type} [DecidableEq α] (xs : List α) : (distinct xs).Nodup :=
  List.nodup_reverse.2 (List.nodup_dedup _)

/-- The derived keys are of different derived kinds. -/
theorem derivedOf_kinds {t : Tables} {item : ItemRecord} {keys : List (KeyKind × String)}
    (h : ix.derivedOf t item = .ok keys) :
    (keys.map (·.1)).Nodup ∧ ∀ key ∈ keys, key.1 ∈ derivedKinds := by
  obtain ⟨verbal, hverbal, h⟩ := bind_eq_ok.1 h
  obtain ⟨change, -, h⟩ := bind_eq_ok.1 h
  cases h
  have hv : verbal = [] ∨ ∃ text, verbal = [(.verbal, text)] := by
    unfold verbalOf at hverbal
    split at hverbal
    · cases htext : renderVerbal ix.lib (ix.inputOf t item) with
      | error e =>
        rw [htext] at hverbal
        cases hverbal
      | ok text =>
        rw [htext] at hverbal
        cases hverbal
        exact .inr ⟨text, rfl⟩
    · cases hverbal
      exact .inl rfl
  rcases hv with rfl | ⟨text, rfl⟩ <;> cases change.filter (· ≠ "") <;> simp [derivedKinds]

theorem enrichedOf_kinds (extra : ExtraKeys) (id : Uuid) :
    ∀ key ∈ enrichedOf extra id, key.1 ∉ derivedKinds := by
  intro key hkey
  obtain ⟨⟨⟨kind, hkind⟩, text⟩, -, he⟩ := List.mem_filterMap.1 hkey
  dsimp only at he
  split at he
  · cases he
    simp only [enrichedKinds, List.mem_cons, List.not_mem_nil, or_false] at hkind
    rcases hkind with rfl | rfl <;> simp [derivedKinds]
  · cases he

/-- What rendering gives an item are its derived keys, but for what the enrich step adds. -/
theorem keysOf_derived {t : Tables} {extra : ExtraKeys} {item : ItemRecord}
    {e : Uuid × List (KeyKind × String)} (h : ix.keysOf t extra item = .ok e) :
    e.1 = item.id ∧ ix.derivedOf t item = .ok (e.2.filter (·.1 ∈ derivedKinds)) := by
  obtain ⟨derived, hderived, h⟩ := bind_eq_ok.1 h
  cases h
  refine ⟨rfl, ?_⟩
  obtain ⟨hnodup, hkinds⟩ := ix.derivedOf_kinds hderived
  have hkept : derived.filter (·.1 ∈ derivedKinds) = derived :=
    List.filter_eq_self.2 fun key hkey => decide_eq_true (hkinds key hkey)
  have hrest : (enrichedOf extra item.id).filter (·.1 ∈ derivedKinds) = [] :=
    List.filter_eq_nil_iff.2 fun key hkey => by simpa using enrichedOf_kinds extra item.id key hkey
  rw [filter_distinct, List.filter_append, hkept, hrest, List.append_nil,
    distinct_of_nodup hnodup.of_map]
  exact hderived

theorem dueKeys_of_live {t : Tables} {id : Uuid} {item : ItemRecord} (h : t.getItem id = some item)
    (hlive : item.status ≠ .deleted) : ix.dueKeys t id = some (ix.derivedOf t item) := by
  rw [dueKeys, h, Option.filter_some, if_pos (decide_eq_true hlive), Option.map_some]

theorem live_of_dueKeys {t : Tables} {id : Uuid} (h : ix.dueKeys t id ≠ none) :
    ∃ item, t.getItem id = some item ∧ item.status ≠ .deleted := by
  cases hitem : t.getItem id with
  | none => exact absurd (by rw [dueKeys, hitem]; rfl) h
  | some item =>
    refine ⟨item, rfl, fun hdeleted => h ?_⟩
    rw [dueKeys, hitem, Option.filter_some, if_neg (by simp [hdeleted]), Option.map_none]

theorem id_of_getItem {t : Tables} {id : Uuid} {item : ItemRecord} (h : t.getItem id = some item) :
    item.id = id := KeyTable.key_of_lookup h

/-- **Rendering** gives each of its live items what it should have now. -/
theorem fresh_of_render {t : Tables} {items : List Uuid} {extra : ExtraKeys}
    {wanted : List (Uuid × List (KeyKind × String))} (h : ix.render t items extra = .ok wanted)
    {id : Uuid} (hid : id ∈ items) (hdue : ix.dueKeys t id ≠ none) :
    ∃ keys, (id, keys) ∈ wanted ∧ ix.Fresh t id keys := by
  obtain ⟨item, hitem, hlive⟩ := ix.live_of_dueKeys hdue
  have hmem : item ∈ ((distinct items).filterMap t.getItem).filter (·.status ≠ .deleted) :=
    List.mem_filter.2 ⟨List.mem_filterMap.2 ⟨id, mem_distinct.2 hid, hitem⟩, decide_eq_true hlive⟩
  obtain ⟨⟨id', keys⟩, hkeys, he⟩ := exists_of_forall₂ (mapM_eq_ok.1 h) hmem
  obtain ⟨hid', hderived⟩ := ix.keysOf_derived he
  obtain rfl : id' = id := hid'.trans (id_of_getItem hitem)
  refine ⟨keys, hkeys, ?_⟩
  rw [Fresh, ix.dueKeys_of_live hitem hlive, hderived]

theorem map_id_filterMap (t : Tables) (ids : List Uuid) :
    (ids.filterMap t.getItem).map (·.id) = ids.filter fun id => (t.getItem id).isSome := by
  induction ids with
  | nil => rfl
  | cons id ids ih =>
    cases hitem : t.getItem id with
    | none => rw [List.filterMap_cons_none hitem, List.filter_cons_of_neg (by simp [hitem]), ih]
    | some item =>
      rw [List.filterMap_cons_some hitem, List.map_cons, List.filter_cons_of_pos (by simp [hitem]),
        ih, id_of_getItem hitem]

/-- No item is rendered twice. -/
theorem nodup_of_render {t : Tables} {items : List Uuid} {extra : ExtraKeys}
    {wanted : List (Uuid × List (KeyKind × String))} (h : ix.render t items extra = .ok wanted) :
    (wanted.map (·.1)).Nodup := by
  have hids := (mapM_eq_ok.1 h).imp fun _ _ he => (ix.keysOf_derived he).1.symm
  rw [← List.forall₂_map_right_iff (f := fun e : Uuid × List (KeyKind × String) => e.1),
    ← List.forall₂_map_left_iff (f := ItemRecord.id), List.forall₂_eq_eq_eq] at hids
  rw [← hids]
  have hall : (((distinct items).filterMap t.getItem).map (·.id)).Nodup := by
    rw [map_id_filterMap]
    exact (nodup_distinct items).filter _
  exact hall.sublist (List.filter_sublist.map _)

/-! ## What writing leaves -/

theorem shownKeys_replace_of_ne {keys records : List KeyRecord} {id id' : Uuid} (hne : id ≠ id')
    (kinds : List KeyKind) (hrecords : ∀ key ∈ records, key.itemId = id') :
    shownKeys (replaceKeys keys id' kinds records) id = shownKeys keys id := by
  have hnew : records.filter (fun key => key.itemId = id ∧ key.keyKind ∈ derivedKinds) = [] :=
    List.filter_eq_nil_iff.2 fun key hkey => by simp [hrecords key hkey, Ne.symm hne]
  rw [shownKeys, replaceKeys, List.filter_append, hnew, List.append_nil, List.filter_filter, shownKeys]
  congr 1
  refine List.filter_congr fun key _ => ?_
  by_cases hkey : key.itemId = id
  · simp [hkey, hne]
  · simp [hkey]

theorem shownKeys_replace_self {keys records : List KeyRecord} {id : Uuid} {kinds : List KeyKind}
    (hkinds : ∀ kind ∈ derivedKinds, kind ∈ kinds) (hrecords : ∀ key ∈ records, key.itemId = id) :
    shownKeys (replaceKeys keys id kinds records) id =
      (records.map fun key => (key.keyKind, key.text)).filter (·.1 ∈ derivedKinds) := by
  have hold : (keys.filter fun key => ¬ (key.itemId = id ∧ key.keyKind ∈ kinds)).filter
      (fun key => key.itemId = id ∧ key.keyKind ∈ derivedKinds) = [] := by
    refine List.filter_eq_nil_iff.2 fun key hkey => ?_
    have hkept := (List.mem_filter.1 hkey).2
    simp only [decide_eq_true_eq, not_and] at hkept ⊢
    exact fun hid hkind => hkept hid (hkinds key.keyKind hkind)
  rw [shownKeys, replaceKeys, List.filter_append, hold, List.nil_append, List.filter_map]
  congr 1
  refine List.filter_congr fun key hkey => ?_
  simp [hrecords key hkey]

section Writing

variable {t : MemoryTables} {wanted : List (Uuid × List (KeyKind × String))} {id : Uuid}

theorem shownKeys_writeItem_of_ne (enriched : List Uuid) (vectors : List (String × Embedding))
    (keys : List KeyRecord) {e : Uuid × List (KeyKind × String)} (hne : id ≠ e.1) :
    shownKeys (ix.writeItem t enriched vectors keys e) id = shownKeys keys id := by
  unfold writeItem
  split
  · refine shownKeys_replace_of_ne hne _ fun key hkey => ?_
    obtain ⟨k, -, rfl⟩ := List.mem_map.1 hkey
    rfl
  · rfl

theorem shownKeys_writeItem_self (enriched : List Uuid) (vectors : List (String × Embedding))
    (keys : List KeyRecord) {e : Uuid × List (KeyKind × String)} (h : (t.getItem e.1).isSome) :
    shownKeys (ix.writeItem t enriched vectors keys e) e.1 = e.2.filter (·.1 ∈ derivedKinds) := by
  rw [writeItem, if_pos h, shownKeys_replace_self]
  · rw [List.map_map]
    congr 1
    exact List.map_id'' (fun _ => rfl) e.2
  · exact fun kind hkind => List.mem_append_left _ hkind
  · intro key hkey
    obtain ⟨k, -, rfl⟩ := List.mem_map.1 hkey
    rfl

/-- An item that a rebuild did not render keeps its keys. -/
theorem shownKeys_write_of_notMem (enriched : List Uuid) (vectors : List (String × Embedding))
    (keys : List KeyRecord) (h : id ∉ wanted.map (·.1)) :
    shownKeys (ix.write t keys wanted enriched vectors) id = shownKeys keys id := by
  induction wanted generalizing keys with
  | nil => rfl
  | cons e wanted ih =>
    rw [List.map_cons, List.mem_cons, not_or] at h
    rw [write, List.foldl_cons, ← write, ih _ h.2, shownKeys_writeItem_of_ne ix _ _ _ h.1]

/-- An item that it rendered has the keys that were rendered. -/
theorem shownKeys_write (enriched : List Uuid) (vectors : List (String × Embedding))
    (keys : List KeyRecord) (hnodup : (wanted.map (·.1)).Nodup) {e : Uuid × List (KeyKind × String)}
    (he : e ∈ wanted) (hitem : (t.getItem e.1).isSome) :
    shownKeys (ix.write t keys wanted enriched vectors) e.1 = e.2.filter (·.1 ∈ derivedKinds) := by
  induction wanted generalizing keys with
  | nil => exact absurd he List.not_mem_nil
  | cons e' wanted ih =>
    rw [List.map_cons, List.nodup_cons] at hnodup
    rw [write, List.foldl_cons, ← write]
    rcases List.mem_cons.1 he with rfl | he
    · rw [shownKeys_write_of_notMem ix _ _ _ hnodup.1, shownKeys_writeItem_self ix _ _ _ hitem]
    · exact ih _ hnodup.2 he

end Writing

/-! ## What is kept -/

/-- No item is twice in what a rebuild rendered. -/
def NoneTwice : Rebuild → Prop
  | .started _ _ => True
  | .rendered wanted _ _ => (wanted.map (·.1)).Nodup

/-- **The invariant**: every live item has the keys it should have, or a rebuild will write them. -/
structure Kept (s : Indexing) : Prop where
  noneTwice : ∀ b ∈ s.rebuilds, NoneTwice b
  right : ∀ id, ix.dueKeys s.tables id ≠ none →
    ix.RightAt s id ∨ ∃ b ∈ s.rebuilds, ix.Writes s.tables id b

variable {ix}

theorem writes_congr {t t' : Tables} {id : Uuid} (h : ix.dueKeys t' id = ix.dueKeys t id) {b : Rebuild} :
    ix.Writes t' id b ↔ ix.Writes t id b := by
  cases b with
  | started => rfl
  | rendered => simp only [Writes, Fresh, h]

/-- Where a rebuild will write the keys, it is the one at `i` or another. -/
theorem writes_cases {s : Indexing} {i : Nat} {b : Rebuild} (hi : s.rebuilds[i]? = some b) {id : Uuid}
    (h : ∃ b ∈ s.rebuilds, ix.Writes s.tables id b) :
    ix.Writes s.tables id b ∨ ix.WrittenBesides s i id := by
  obtain ⟨b', hb', hw⟩ := h
  obtain ⟨j, hj⟩ := List.mem_iff_getElem?.1 hb'
  by_cases hji : j = i
  · subst hji
    cases hi.symm.trans hj
    exact .inl hw
  · exact .inr ⟨j, hji, b', hj, hw⟩

/-- Another rebuild stays when the one at `i` is gone. -/
theorem WrittenBesides.without {s : Indexing} {i : Nat} {id : Uuid} (h : ix.WrittenBesides s i id) :
    ∃ b ∈ s.rebuilds.eraseIdx i, ix.Writes s.tables id b := by
  obtain ⟨j, hji, b, hj, hw⟩ := h
  exact ⟨b, List.mem_eraseIdx_iff_getElem?.2 ⟨j, hji, hj⟩, hw⟩

/-- Another rebuild stays when the one at `i` goes on. -/
theorem WrittenBesides.set {s : Indexing} {i : Nat} {id : Uuid} (h : ix.WrittenBesides s i id)
    (b' : Rebuild) : ∃ b ∈ s.rebuilds.set i b', ix.Writes s.tables id b := by
  obtain ⟨j, hji, b, hj, hw⟩ := h
  refine ⟨b, List.mem_iff_getElem?.2 ⟨j, ?_⟩, hw⟩
  rw [List.getElem?_set_ne (Ne.symm hji)]
  exact hj

namespace Kept

variable {s : Indexing}

theorem commit (h : ix.Kept s) {w : Writer} (htimely : ix.CommitTimely s w) (extra : ExtraKeys) :
    ix.Kept (ix.act s (.commit w extra)) := by
  cases hcommit : w.commit s.tables with
  | error e =>
    rw [act, hcommit]
    exact h
  | ok result =>
    obtain ⟨t, res⟩ := result
    rw [act, hcommit]
    refine ⟨fun b hb => ?_, fun id hdue => ?_⟩
    · rcases List.mem_append.1 hb with hb | hb
      · exact h.noneTwice b hb
      · split at hb
        · cases hb
        · cases List.mem_singleton.1 hb
          exact trivial
    · by_cases htouched : id ∈ res.touchedItems
      · -- the rebuild of this commit is still to render it
        have hne : res.touchedItems ≠ [] := List.ne_nil_of_mem htouched
        refine .inr ⟨.started res.touchedItems extra, List.mem_append_right _ ?_, htouched⟩
        rw [if_neg hne]
        exact List.mem_singleton_self _
      · rcases htimely t res hcommit id htouched hdue with hsame | ⟨b, hb, hw⟩
        · rcases h.right id (hsame ▸ hdue) with hright | ⟨b, hb, hw⟩
          · exact .inl (hsame.trans hright)
          · exact .inr ⟨b, List.mem_append_left _ hb, (writes_congr hsame).2 hw⟩
        · exact .inr ⟨b, List.mem_append_left _ hb, hw⟩

theorem rebuild (h : ix.Kept s) (items : List Uuid) (extra : ExtraKeys) :
    ix.Kept (ix.act s (.rebuild items extra)) := by
  refine ⟨fun b hb => ?_, fun id hdue => ?_⟩
  · rcases List.mem_append.1 hb with hb | hb
    · exact h.noneTwice b hb
    · cases List.mem_singleton.1 hb
      exact trivial
  · rcases h.right id hdue with hright | ⟨b, hb, hw⟩
    · exact .inl hright
    · exact .inr ⟨b, List.mem_append_left _ hb, hw⟩

/-- A rebuild that stops with an error. -/
theorem stop (h : ix.Kept s) {i : Nat} {b : Rebuild} (hi : s.rebuilds[i]? = some b)
    (htimely : ix.StopTimely s i b) : ix.Kept (s.without i) := by
  refine ⟨fun b hb => h.noneTwice b (List.mem_of_mem_eraseIdx hb), fun id hdue => ?_⟩
  rcases h.right id hdue with hright | hwrites
  · exact .inl hright
  · rcases writes_cases hi hwrites with hw | hbesides
    · rcases htimely id hdue hw with hright | hbesides
      · exact .inl hright
      · exact .inr hbesides.without
    · exact .inr hbesides.without

theorem render (h : ix.Kept s) {i : Nat} (htimely : ix.Timely s (.render i)) :
    ix.Kept (ix.act s (.render i)) := by
  rw [act]
  split
  · rename_i items extra hi
    unfold renderRebuild
    split
    · rename_i e he
      exact h.stop hi (htimely items extra e hi he)
    · rename_i wanted hwanted
      refine ⟨fun b hb => ?_, fun id hdue => ?_⟩
      · rcases List.mem_or_eq_of_mem_set hb with hb | rfl
        · exact h.noneTwice b hb
        · exact ix.nodup_of_render hwanted
      · rcases h.right id hdue with hright | hwrites
        · exact .inl hright
        · rcases writes_cases hi hwrites with hw | hbesides
          · -- what it has rendered is right at this moment
            have hnow : ∃ keys, (id, keys) ∈ wanted ∧ ix.Fresh s.tables id keys :=
              ix.fresh_of_render hwanted hw hdue
            have hlt : i < s.rebuilds.length := (List.getElem?_eq_some_iff.1 hi).1
            exact .inr ⟨_, List.mem_set hlt _, hnow⟩
          · exact .inr (hbesides.set _)
  · exact h

theorem write (h : ix.Kept s) {i : Nat} {answer : Embedded} (htimely : ix.Timely s (.write i answer)) :
    ix.Kept (ix.act s (.write i answer)) := by
  rw [act]
  split
  · rename_i wanted enriched cached hi
    have htimely := htimely wanted enriched cached hi
    unfold writeRebuild
    split
    · rename_i hanswer
      rw [if_pos hanswer] at htimely
      exact h.stop hi htimely
    · rename_i given hanswer
      rw [if_neg (by simp [hanswer])] at htimely
      refine ⟨fun b hb => h.noneTwice b (List.mem_of_mem_eraseIdx hb), fun id hdue => ?_⟩
      replace hdue : ix.dueKeys s.tables id ≠ none := hdue
      by_cases hid : id ∈ wanted.map (·.1)
      · obtain ⟨e, he, rfl⟩ := List.mem_map.1 hid
        rcases htimely e he hdue with hfresh | hbesides
        · obtain ⟨item, hitem, -⟩ := ix.live_of_dueKeys hdue
          have hnodup := h.noneTwice _ (List.mem_of_getElem? hi)
          refine .inl (hfresh.trans ?_)
          rw [ix.shownKeys_write enriched _ _ hnodup he (by rw [hitem]; rfl)]
        · exact .inr hbesides.without
      · rcases h.right id hdue with hright | hwrites
        · refine .inl (hright.trans ?_)
          rw [ix.shownKeys_write_of_notMem enriched _ _ hid]
        · rcases writes_cases hi hwrites with ⟨keys, hkeys, -⟩ | hbesides
          · exact absurd (List.mem_map.2 ⟨_, hkeys, rfl⟩) hid
          · exact .inr hbesides.without
  · exact h

end Kept

/-- **One step**: a timely action keeps the invariant. -/
theorem kept_act {s : Indexing} (h : ix.Kept s) {action : IndexAction} (htimely : ix.Timely s action) :
    ix.Kept (ix.act s action) := by
  cases action with
  | commit w extra => exact h.commit htimely extra
  | rebuild items extra => exact h.rebuild items extra
  | render i => exact h.render htimely
  | write i answer => exact h.write htimely

theorem kept_runs {s : Indexing} (h : ix.Kept s) {actions : List IndexAction}
    (htimely : ix.RunTimely s actions) : ix.Kept (ix.runs s actions) := by
  induction actions generalizing s with
  | nil => exact h
  | cons action actions ih => exact ih (kept_act h htimely.1) htimely.2

theorem kept_start (me : Uuid) : ix.Kept (.start me) := by
  refine ⟨fun b hb => absurd hb List.not_mem_nil, fun id hdue => ?_⟩
  obtain ⟨item, hitem, -⟩ := ix.live_of_dueKeys hdue
  exact absurd hitem (by simp [Indexing.start, Tables.initial, MemoryTables.getItem])

/-- **No update is lost** in a run of timely actions that leaves no rebuild unfinished. -/
theorem keys_follow (ix : KeyIndexer) (me : Uuid) (actions : List IndexAction)
    (htimely : ix.RunTimely (.start me) actions)
    (hfinished : (ix.runs (.start me) actions).rebuilds = []) :
    ix.KeysRight (ix.runs (.start me) actions) := by
  intro id keys hdue
  rcases (kept_runs (kept_start me) htimely).right id (by simp [hdue]) with hright | ⟨b, hb, -⟩
  · exact Option.some.inj (hdue.symm.trans hright)
  · rw [hfinished] at hb
    cases hb

/-! ### A note that is reworded -/

/-- An indexer of the UTC zone. -/
def plainIndexer : KeyIndexer where
  lib := { lower := id, upper := id, zone := ⟨0, [], none_ascending, none_small⟩ }
  listing := .byId
  sha256 := id
  model := ""

/-- A note of 1 January 2000. -/
def savesNote : Writer :=
  linkTurn 60 { body := .createItem 1 { kind := .note, state := "current", text := "a", title := "a"
                                        mentionedAt := 730120 * day } [] [] none none }

def rewordsNote : Writer := linkTurn 61 { body := .updateItem 1 { text := some "b" } }

/-- The rebuild of the first commit renders before the second commit, and writes last. -/
def lateWrite : List IndexAction :=
  [.commit savesNote [], .render 0, .commit rewordsNote [], .render 1, .write 1 .unavailable,
    .write 0 .unavailable]

/-- **A late write**: all rebuilds have finished, and the note is found by what it said before. -/
theorem late_write : ¬ ∀ (ix : KeyIndexer) (me : Uuid) (actions : List IndexAction),
    (ix.runs (.start me) actions).rebuilds = [] → ix.KeysRight (ix.runs (.start me) actions) := by
  intro h
  have hdue : plainIndexer.dueKeys (plainIndexer.runs (.start 0) lateWrite).tables 1 =
      some (.ok [(.text, "b"), (.verbal, "Note: b. Noted Saturday 1 January 2000.")]) := by
    decide +kernel
  have hshown : shownKeys (plainIndexer.runs (.start 0) lateWrite).keys 1 =
      [(.text, "a"), (.verbal, "Note: a. Noted Saturday 1 January 2000.")] := by
    decide +kernel
  have hright := h plainIndexer 0 lateWrite rfl 1 _ hdue
  rw [hshown] at hright
  exact absurd hright (by decide)

/-- The note is saved, and its keys are rebuilt. -/
def timelyWrite : List IndexAction :=
  [.commit savesNote [], .render 0, .write 0 .unavailable]

/-- The first commit of the workspace makes the note and nothing else. -/
theorem savesNote_timely : plainIndexer.CommitTimely (.start 0) savesNote := by
  intro t res hcommit id hid hdue
  obtain ⟨item, hitem, -⟩ := live_of_dueKeys plainIndexer hdue
  have hitems : ∃ r, t.items = (KeyTable.empty : KeyTable ItemRecord.id).put r ∧ r.id = 1 ∧
      res.touchedItems = [1] := by
    cases hcommit
    exact ⟨_, rfl, rfl, rfl⟩
  obtain ⟨r, hput, hr, htouched⟩ := hitems
  rw [htouched, List.mem_singleton] at hid
  rw [MemoryTables.getItem, hput, KeyTable.lookup_put_of_ne _ (hr ▸ hid)] at hitem
  cases hitem

theorem note_keys_follow : plainIndexer.KeysRight (plainIndexer.runs (.start 0) timelyWrite) := by
  refine keys_follow plainIndexer 0 timelyWrite ⟨savesNote_timely, ?_, ?_, trivial⟩ rfl
  · intro items extra e hi he
    have hstarted : (plainIndexer.act (.start 0) (.commit savesNote [])).rebuilds[0]? =
        some (.started [1] []) := by decide +kernel
    have hok : (plainIndexer.render (plainIndexer.act (.start 0) (.commit savesNote [])).tables
        [1] []).toOption.isSome := by decide +kernel
    cases hstarted.symm.trans hi
    rw [he] at hok
    cases hok
  · intro wanted enriched cached hi
    have hrendered : (plainIndexer.act (plainIndexer.act (.start 0) (.commit savesNote []))
        (.render 0)).rebuilds[0]? =
          some (.rendered [(1, [(.text, "a"), (.verbal, "Note: a. Noted Saturday 1 January 2000.")])]
            [] []) := by decide +kernel
    cases hrendered.symm.trans hi
    rw [if_neg (by decide)]
    intro e he _
    cases List.mem_singleton.1 he
    exact .inl (by unfold Fresh; decide +kernel)

end KeyIndexer
end SecondMind
