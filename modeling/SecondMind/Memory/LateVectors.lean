import SecondMind.Memory.Keys
import Mathlib.Data.List.Count

/-!
# Late vectors

`KeyIndexer.pending` and `KeyIndexer.embed_keys` of `memory/keys.py`, with `unembedded_keys` and
`set_key_embeddings` of the store, and `TurnRunner.embed_pending_keys` of `agent/runner.py`: keys that
were stored without a vector are given one later.  They are read in the order of the store up to a
limit, whatever has become of their items, and those of items that are not active are passed over.

* `embedPendingKeys` — one run;
* `embedPendingKeys_gives` — what a run gives;
* `progress_iff` — when a run makes progress;
* `hasVector_iterate` — when repeated runs come to a key;
* `late_vectors_iff` — both, for every store.
-/

namespace SecondMind

open Keyed

/-- A stored key. -/
structure StoredKey extends KeyRecord where
  id : Uuid
  deriving DecidableEq

/-- The stored keys, the oldest first. -/
structure KeyStore where
  keys : List StoredKey
  distinct : (keys.map (·.id)).Nodup

/-- What the provider gives for texts: vectors, or none when it is down. -/
abbrev EmbedAnswer := List String → Option (List Embedding)

namespace LateVectors

/-! ## One run -/

/-- The key has no vector, and is no passage of a page. -/
def isPending (key : StoredKey) : Bool := key.embedding = none ∧ key.keyKind ≠ .chunk

/-- `unembedded_keys`, with passages left out. -/
def unembeddedKeys (keys : List StoredKey) (limit : Nat) : List StoredKey :=
  (keys.filter isPending).take limit

/-- The limit of `pending`. -/
def pendingLimit : Nat := 200

/-- A key with its vector, if it is the one and has none. -/
def withVector (model : String) (vector : Uuid × Embedding) (key : StoredKey) : StoredKey :=
  if key.id = vector.1 ∧ key.embedding = none then
    { key with embedding := some vector.2, embeddingModel := some model }
  else key

/-- `set_key_embeddings`. -/
def setKeyEmbeddings (model : String) (vectors : List (Uuid × Embedding)) (keys : List StoredKey) :
    List StoredKey :=
  vectors.foldl (fun keys vector => keys.map (withVector model vector)) keys

/-- `embed_keys`: the store after it, and how many keys got a vector. -/
def embedKeys (embed : EmbedAnswer) (model : String) (some_ keys : List StoredKey) :
    List StoredKey × Nat :=
  let texts := (some_.map (·.text)).dedup.insertionSort (· ≤ ·)
  match embed texts with
  | none => (keys, 0)
  | some vectors =>
    if vectors.length ≠ texts.length then (keys, 0)
    else
      let byText := texts.zip vectors
      (setKeyEmbeddings model
        (some_.filterMap fun key => (byText.lookup key.text).map fun v => (key.id, v)) keys,
        some_.length)

/-- The keys of one item, in the loop of `embed_pending_keys`. -/
def embedItem (embed : EmbedAnswer) (model : String) (t : MemoryTables) (waiting : List StoredKey)
    (done : List StoredKey × Nat) (itemId : Uuid) : List StoredKey × Nat :=
  if t.isActive itemId then
    let (keys, n) := embedKeys embed model (waiting.filter (·.itemId = itemId)) done.1
    (keys, done.2 + n)
  else done

/-- `embed_pending_keys`: the store after it, and how many keys got a vector. -/
def embedPendingKeys (embed : EmbedAnswer) (model : String) (t : MemoryTables)
    (keys : List StoredKey) : List StoredKey × Nat :=
  let waiting := unembeddedKeys keys pendingLimit
  (KeyIndexer.distinct (waiting.map (·.itemId))).foldl (embedItem embed model t waiting) (keys, 0)

/-! ## Keys that are waiting -/

/-- A key of a live item that has no vector. -/
def Waits (t : MemoryTables) (key : StoredKey) : Prop := isPending key ∧ t.isActive key.itemId

/-- A key that no run embeds. -/
def Stuck (t : MemoryTables) (key : StoredKey) : Prop := isPending key ∧ ¬ t.isActive key.itemId

instance (t : MemoryTables) (key : StoredKey) : Decidable (Waits t key) :=
  inferInstanceAs (Decidable (_ ∧ _))

instance (t : MemoryTables) (key : StoredKey) : Decidable (Stuck t key) :=
  inferInstanceAs (Decidable (_ ∧ _))

/-- The provider answers with a vector for each text. -/
def Answers (embed : EmbedAnswer) : Prop :=
  ∀ texts, ∃ vectors, embed texts = some vectors ∧ vectors.length = texts.length

/-- What a run may do to a key: nothing, or give it a vector if it is one of these. -/
structure Keeps (ids : Uuid → Prop) (key key' : StoredKey) : Prop where
  id : key'.id = key.id
  itemId : key'.itemId = key.itemId
  keyKind : key'.keyKind = key.keyKind
  embedding : key'.embedding = none ↔ key.embedding = none ∧ ¬ ids key.id

/-- Each key of the store is kept, or given a vector if it is one of these. -/
def Gives (ids : Uuid → Prop) (keys keys' : List StoredKey) : Prop :=
  ∃ f, keys' = keys.map f ∧ ∀ key, Keeps ids key (f key)

theorem Gives.refl (keys : List StoredKey) : Gives (fun _ => False) keys keys :=
  ⟨fun key => key, (List.map_id _).symm, fun _ => ⟨rfl, rfl, rfl, by simp⟩⟩

theorem Gives.trans {ids ids' : Uuid → Prop} {keys keys' keys'' : List StoredKey}
    (h : Gives ids keys keys') (h' : Gives ids' keys' keys'') :
    Gives (fun id => ids id ∨ ids' id) keys keys'' := by
  obtain ⟨f, rfl, hf⟩ := h
  obtain ⟨g, rfl, hg⟩ := h'
  refine ⟨g ∘ f, List.map_map, fun key => ?_⟩
  obtain ⟨hid, hitem, hkind, hnone⟩ := hf key
  obtain ⟨hid', hitem', hkind', hnone'⟩ := hg (f key)
  refine ⟨hid'.trans hid, hitem'.trans hitem, hkind'.trans hkind, ?_⟩
  simp only [Function.comp_apply]
  rw [hnone', hnone, hid, not_or, and_assoc]

theorem Gives.congr {ids ids' : Uuid → Prop} {keys keys' : List StoredKey}
    (h : Gives ids keys keys') (hids : ∀ id, ids id ↔ ids' id) : Gives ids' keys keys' := by
  obtain ⟨f, hmap, hf⟩ := h
  refine ⟨f, hmap, fun key => ?_⟩
  obtain ⟨hid, hitem, hkind, hnone⟩ := hf key
  exact ⟨hid, hitem, hkind, by rw [hnone, hids]⟩

theorem withVector_keeps (model : String) (vector : Uuid × Embedding) (key : StoredKey) :
    Keeps (· = vector.1) key (withVector model vector key) := by
  unfold withVector
  split
  · rename_i hthis
    exact ⟨rfl, rfl, rfl, by simp [hthis.1]⟩
  · rename_i hother
    refine ⟨rfl, rfl, rfl, ?_⟩
    simp only [not_and] at hother
    constructor
    · exact fun hnone => ⟨hnone, fun hid => hother hid hnone⟩
    · exact fun h => h.1

theorem setKeyEmbeddings_gives (model : String) (vectors : List (Uuid × Embedding))
    (keys : List StoredKey) :
    Gives (· ∈ vectors.map (·.1)) keys (setKeyEmbeddings model vectors keys) := by
  unfold setKeyEmbeddings
  induction vectors generalizing keys with
  | nil => exact (Gives.refl keys).congr fun id => by simp
  | cons vector vectors ih =>
    have hfirst : Gives (· = vector.1) keys (keys.map (withVector model vector)) :=
      ⟨_, rfl, withVector_keeps model vector⟩
    exact (hfirst.trans (ih _)).congr fun id => by simp

/-! ## What a run gives -/

section

variable {embed : EmbedAnswer} {model : String} {t : MemoryTables} {keys : List StoredKey}

/-- Each text that is asked for is found among the vectors. -/
theorem isSome_lookup_zip {texts : List String} {vectors : List Embedding} {text : String}
    (hlength : vectors.length = texts.length) (h : text ∈ texts) :
    ((texts.zip vectors).lookup text).isSome := by
  induction texts generalizing vectors with
  | nil => exact absurd h List.not_mem_nil
  | cons first texts ih =>
    cases vectors with
    | nil => simp at hlength
    | cons vector vectors =>
      rw [List.zip_cons_cons, List.lookup_cons]
      by_cases hfirst : text = first
      · simp [hfirst]
      · simp only [beq_false_of_ne hfirst]
        exact ih (by simpa using hlength) ((List.mem_cons.1 h).resolve_left hfirst)

theorem embedKeys_gives (hanswers : Answers embed) (some_ : List StoredKey) :
    Gives (· ∈ some_.map (·.id)) keys (embedKeys embed model some_ keys).1 := by
  unfold embedKeys
  obtain ⟨vectors, hvectors, hlength⟩ :=
    hanswers ((some_.map (·.text)).dedup.insertionSort (· ≤ ·))
  simp only [hvectors, hlength, ne_eq, not_true_eq_false, if_false]
  refine (setKeyEmbeddings_gives model _ keys).congr fun id => ?_
  simp only [List.mem_map, List.mem_filterMap]
  constructor
  · rintro ⟨_, ⟨key, hkey, hvector⟩, rfl⟩
    obtain ⟨v, -, rfl⟩ := Option.map_eq_some_iff.1 hvector
    exact ⟨key, hkey, rfl⟩
  · rintro ⟨key, hkey, rfl⟩
    have htext : key.text ∈ (some_.map (·.text)).dedup.insertionSort (· ≤ ·) := by
      rw [List.mem_insertionSort, List.mem_dedup]
      exact List.mem_map_of_mem hkey
    obtain ⟨v, hv⟩ := Option.isSome_iff_exists.1 (isSome_lookup_zip hlength htext)
    exact ⟨(key.id, v), ⟨key, hkey, by rw [hv]; rfl⟩, rfl⟩

theorem embedItems_gives (hanswers : Answers embed) (waiting : List StoredKey) (ids : List Uuid)
    (n : Nat) :
    Gives (fun id => ∃ key ∈ waiting, key.id = id ∧ key.itemId ∈ ids ∧ t.isActive key.itemId) keys
      (ids.foldl (embedItem embed model t waiting) (keys, n)).1 := by
  induction ids generalizing keys n with
  | nil => exact (Gives.refl keys).congr fun id => by simp
  | cons itemId ids ih =>
    rw [List.foldl_cons]
    by_cases hactive : t.isActive itemId
    · have hitem : embedItem embed model t waiting (keys, n) itemId =
          ((embedKeys embed model (waiting.filter (·.itemId = itemId)) keys).1,
            n + (embedKeys embed model (waiting.filter (·.itemId = itemId)) keys).2) :=
        if_pos hactive
      rw [hitem]
      refine ((embedKeys_gives hanswers _).trans (ih _)).congr fun id => ?_
      constructor
      · rintro (hmem | ⟨key, hkey, hid, hlater, hlive⟩)
        · obtain ⟨key, hkey, rfl⟩ := List.mem_map.1 hmem
          obtain ⟨hread, hthis⟩ := List.mem_filter.1 hkey
          obtain rfl := of_decide_eq_true hthis
          exact ⟨key, hread, rfl, List.mem_cons_self, hactive⟩
        · exact ⟨key, hkey, hid, List.mem_cons_of_mem _ hlater, hlive⟩
      · rintro ⟨key, hkey, rfl, hmem, hlive⟩
        rcases List.mem_cons.1 hmem with hthis | hlater
        · exact .inl (List.mem_map_of_mem (List.mem_filter.2 ⟨hkey, decide_eq_true hthis⟩))
        · exact .inr ⟨key, hkey, rfl, hlater, hlive⟩
    · have hitem : embedItem embed model t waiting (keys, n) itemId = (keys, n) := if_neg hactive
      rw [hitem]
      refine (ih n).congr fun id => ?_
      constructor
      · rintro ⟨key, hkey, hid, hlater, hlive⟩
        exact ⟨key, hkey, hid, List.mem_cons_of_mem _ hlater, hlive⟩
      · rintro ⟨key, hkey, hid, hmem, hlive⟩
        rcases List.mem_cons.1 hmem with rfl | hlater
        · exact absurd hlive hactive
        · exact ⟨key, hkey, hid, hlater, hlive⟩

variable (model t keys) in
/-- **What a run gives**: a vector to each key of a live item that is read. -/
theorem embedPendingKeys_gives (hanswers : Answers embed) :
    Gives (fun id => ∃ key ∈ unembeddedKeys keys pendingLimit, key.id = id ∧
      t.isActive key.itemId) keys (embedPendingKeys embed model t keys).1 := by
  refine (embedItems_gives hanswers _ _ 0).congr fun id => ?_
  constructor
  · rintro ⟨key, hkey, hid, -, hlive⟩
    exact ⟨key, hkey, hid, hlive⟩
  · rintro ⟨key, hkey, hid, hlive⟩
    refine ⟨key, hkey, hid, ?_, hlive⟩
    simp only [KeyIndexer.distinct, List.mem_reverse, List.mem_dedup]
    exact List.mem_map_of_mem hkey

end

/-! ## Progress -/

/-- The key with this id has a vector. -/
def HasVector (keys : List StoredKey) (id : Uuid) : Prop :=
  ∃ key ∈ keys, key.id = id ∧ key.embedding ≠ none

section

variable {t : MemoryTables} {keys pre post : List StoredKey} {key : StoredKey} {limit : Nat}

theorem eq_of_id {x y : StoredKey} (hdistinct : (keys.map (·.id)).Nodup) (hx : x ∈ keys)
    (hy : y ∈ keys) (hid : x.id = y.id) : x = y :=
  List.inj_on_of_nodup_map hdistinct hx hy hid

/-- A key is read when few enough that are pending are older. -/
theorem mem_unembedded (hkey : isPending key) (h : pre.countP isPending < limit) :
    key ∈ unembeddedKeys (pre ++ key :: post) limit := by
  unfold unembeddedKeys
  rw [List.filter_append, List.filter_cons_of_pos hkey, List.take_append]
  rw [List.countP_eq_length_filter] at h
  refine List.mem_append_right _ ?_
  obtain ⟨n, hn⟩ : ∃ n, limit - (pre.filter isPending).length = n + 1 :=
    ⟨limit - (pre.filter isPending).length - 1, by omega⟩
  rw [hn, List.take_succ_cons]
  exact List.mem_cons_self

/-- Fewer satisfy the one than the other, if one is lost and none is won. -/
theorem countP_lt_countP {α : Type} {l : List α} {p q : α → Bool} {x : α}
    (h : ∀ y ∈ l, q y = true → p y = true) (hx : x ∈ l) (hp : p x = true) (hq : q x = false) :
    l.countP q < l.countP p := by
  induction l with
  | nil => exact absurd hx List.not_mem_nil
  | cons y l ih =>
    obtain ⟨hy, hlater⟩ := List.forall_mem_cons.1 h
    rw [List.countP_cons, List.countP_cons]
    rcases List.mem_cons.1 hx with rfl | hx
    · have hle := List.countP_mono_left hlater
      simp [hp, hq]
      omega
    · have hlt := ih hlater hx
      by_cases hboth : q y = true
      · simp [hboth, hy hboth]
        exact hlt
      · simp only [hboth, Bool.false_eq_true, if_false]
        omega

/-- Otherwise only older keys are read. -/
theorem unembedded_of_le (h : limit ≤ pre.countP isPending) :
    unembeddedKeys (pre ++ key :: post) limit = unembeddedKeys pre limit := by
  unfold unembeddedKeys
  rw [List.countP_eq_length_filter] at h
  rw [List.filter_append, List.take_append_of_le_length h]

theorem notMem_unembedded (hdistinct : ((pre ++ key :: post).map (·.id)).Nodup)
    (h : limit ≤ pre.countP isPending) : key ∉ unembeddedKeys (pre ++ key :: post) limit := by
  rw [unembedded_of_le h]
  intro hmem
  have hpre : key ∈ pre := (List.mem_filter.1 (List.mem_of_mem_take hmem)).1
  exact (List.nodup_append.1 (List.Nodup.of_map _ hdistinct)).2.2 key hpre key
    List.mem_cons_self rfl

/-- Of the keys that are pending, each waits or is stuck. -/
theorem countP_pending :
    keys.countP isPending = keys.countP (Waits t ·) + keys.countP (Stuck t ·) := by
  induction keys with
  | nil => rfl
  | cons key keys ih =>
    simp only [List.countP_cons, ih, Waits, Stuck]
    by_cases hpending : isPending key
    · by_cases hactive : t.isActive key.itemId
      · simp [hpending, hactive]
        omega
      · simp [hpending, hactive]
        omega
    · simp [hpending]

/-- Among as many pending keys as are read, some wait if too few are stuck. -/
theorem exists_waits_of_full (hfull : limit ≤ pre.countP isPending)
    (hfew : pre.countP (Stuck t ·) < limit) : ∃ x ∈ unembeddedKeys pre limit, Waits t x := by
  by_contra hnone
  have hlength : (unembeddedKeys pre limit).length = limit := by
    rw [List.countP_eq_length_filter] at hfull
    exact List.length_take_of_le hfull
  have hall : ∀ x ∈ unembeddedKeys pre limit, decide (Stuck t x) = true := by
    intro x hx
    have hpending : isPending x := (List.mem_filter.1 (List.mem_of_mem_take hx)).2
    exact decide_eq_true ⟨hpending, fun hactive => hnone ⟨x, hx, hpending, hactive⟩⟩
  have hcount : (unembeddedKeys pre limit).countP (Stuck t ·) = limit := by
    rw [List.countP_eq_length.2 hall, hlength]
  have hle : (unembeddedKeys pre limit).countP (Stuck t ·) ≤ pre.countP (Stuck t ·) :=
    ((List.take_sublist _ _).trans List.filter_sublist).countP_le
  omega

end

/-- A provider that answers. -/
structure Provider where
  embed : EmbedAnswer
  answers : Answers embed

section

variable (p : Provider) (model : String) (t : MemoryTables)

/-- The store after a run. -/
def afterRun (keys : List StoredKey) : List StoredKey := (embedPendingKeys p.embed model t keys).1

variable {p model t} {keys pre post : List StoredKey} {key : StoredKey}

variable (p model t) in
/-- A run: a key that waits and is read has a vector, and all else is as before. -/
theorem afterRun_spec (hdistinct : (keys.map (·.id)).Nodup) :
    ∃ f, afterRun p model t keys = keys.map f ∧ ∀ key ∈ keys, (f key).id = key.id ∧
      (Stuck t (f key) ↔ Stuck t key) ∧
      (Waits t (f key) ↔ Waits t key ∧ key ∉ unembeddedKeys keys pendingLimit) ∧
      ((f key).embedding = none ↔ key.embedding = none ∧
        ¬ (Waits t key ∧ key ∈ unembeddedKeys keys pendingLimit)) := by
  obtain ⟨f, hmap, hf⟩ := embedPendingKeys_gives model t keys p.answers
  refine ⟨f, hmap, fun key hkey => ?_⟩
  obtain ⟨hid, hitem, hkind, hnone⟩ := hf key
  have hread : (∃ x ∈ unembeddedKeys keys pendingLimit, x.id = key.id ∧ t.isActive x.itemId) ↔
      Waits t key ∧ key ∈ unembeddedKeys keys pendingLimit := by
    constructor
    · rintro ⟨x, hx, hid, hactive⟩
      obtain ⟨hstored, hpending⟩ := List.mem_filter.1 (List.mem_of_mem_take hx)
      obtain rfl := eq_of_id hdistinct hstored hkey hid
      exact ⟨⟨hpending, hactive⟩, hx⟩
    · rintro ⟨hwaits, hx⟩
      exact ⟨key, hx, rfl, hwaits.2⟩
  rw [hread] at hnone
  have hpending : isPending (f key) ↔ isPending key ∧
      ¬ (Waits t key ∧ key ∈ unembeddedKeys keys pendingLimit) := by
    simp only [isPending, decide_eq_true_eq, hnone, hkind]
    exact and_right_comm
  refine ⟨hid, ?_, ?_, hnone⟩
  · simp only [Stuck, hpending, hitem]
    constructor
    · exact fun h => ⟨h.1.1, h.2⟩
    · exact fun h => ⟨⟨h.1, fun hgot => h.2 hgot.1.2⟩, h.2⟩
  · simp only [Waits, hpending, hitem]
    constructor
    · exact fun h => ⟨⟨h.1.1, h.2⟩, fun hmem => h.1.2 ⟨⟨h.1.1, h.2⟩, hmem⟩⟩
    · exact fun h => ⟨⟨h.1.1, fun hgot => h.2 hgot.2⟩, h.1.2⟩

variable (p model t) in
theorem afterRun_distinct (hdistinct : (keys.map (·.id)).Nodup) :
    ((afterRun p model t keys).map (·.id)).Nodup := by
  obtain ⟨f, hmap, hf⟩ := afterRun_spec p model t hdistinct
  have hids : (keys.map f).map (·.id) = keys.map (·.id) := by
    rw [List.map_map]
    exact List.map_congr_left fun key hkey => (hf key hkey).1
  rw [hmap, hids]
  exact hdistinct

/-- Who has a vector after a run. -/
theorem hasVector_afterRun_iff (hdistinct : (keys.map (·.id)).Nodup) (hkey : key ∈ keys) :
    HasVector (afterRun p model t keys) key.id ↔ key.embedding ≠ none ∨
      Waits t key ∧ key ∈ unembeddedKeys keys pendingLimit := by
  obtain ⟨f, hmap, hf⟩ := afterRun_spec p model t hdistinct
  have hafter : HasVector (afterRun p model t keys) key.id ↔ (f key).embedding ≠ none := by
    rw [hmap]
    constructor
    · rintro ⟨_, hmem, hid, hvector⟩
      obtain ⟨x, hx, rfl⟩ := List.mem_map.1 hmem
      obtain rfl := eq_of_id hdistinct hx hkey ((hf x hx).1.symm.trans hid)
      exact hvector
    · exact fun hvector => ⟨f key, List.mem_map_of_mem hkey, (hf key hkey).1, hvector⟩
  rw [hafter, ne_eq, (hf key hkey).2.2.2, not_and_or, not_not]

theorem HasVector.afterRun {id : Uuid} (hdistinct : (keys.map (·.id)).Nodup)
    (h : HasVector keys id) : HasVector (afterRun p model t keys) id := by
  obtain ⟨key, hkey, rfl, hvector⟩ := h
  exact (hasVector_afterRun_iff hdistinct hkey).2 (.inl hvector)

theorem HasVector.iterate {id : Uuid} (hdistinct : (keys.map (·.id)).Nodup)
    (h : HasVector keys id) (n : Nat) :
    HasVector ((LateVectors.afterRun p model t)^[n] keys) id := by
  induction n generalizing keys with
  | zero => exact h
  | succ n ih => exact ih (afterRun_distinct p model t hdistinct) (h.afterRun hdistinct)

/-- **Progress**: a run gives the first key that waits its vector unless too many are stuck. -/
theorem progress_iff (hdistinct : (keys.map (·.id)).Nodup) :
    ((∃ key ∈ keys, Waits t key) →
        ∃ key ∈ keys, Waits t key ∧ HasVector (afterRun p model t keys) key.id) ↔
      ∀ pre key post, keys = pre ++ key :: post → Waits t key → (∀ x ∈ pre, ¬ Waits t x) →
        pre.countP (Stuck t ·) < pendingLimit := by
  constructor
  · rintro h pre key post rfl hkey hfirst
    by_contra hmany
    have hfull : pendingLimit ≤ pre.countP isPending := by
      rw [countP_pending (t := t)]
      omega
    obtain ⟨x, hx, hwaits, hvector⟩ := h ⟨key, by simp, hkey⟩
    rcases (hasVector_afterRun_iff hdistinct hx).1 hvector with hhad | ⟨-, hread⟩
    · exact hhad (of_decide_eq_true hwaits.1).1
    · rw [unembedded_of_le hfull] at hread
      exact hfirst x (List.mem_filter.1 (List.mem_of_mem_take hread)).1 hwaits
  · rintro h ⟨key, hkey, hwaits⟩
    obtain ⟨first, hfirst⟩ : ∃ first, keys.find? (Waits t ·) = some first := by
      rw [← Option.isSome_iff_exists, List.find?_isSome]
      exact ⟨key, hkey, decide_eq_true hwaits⟩
    obtain ⟨hthis, pre, post, rfl, hbefore⟩ := List.find?_eq_some_iff_append.1 hfirst
    have hnone : ∀ x ∈ pre, ¬ Waits t x := fun x hx => by simpa using hbefore x hx
    have hthis : Waits t first := of_decide_eq_true hthis
    have hfew := h pre first post rfl hthis hnone
    have hmem : first ∈ pre ++ first :: post := by simp
    refine ⟨first, hmem, hthis, (hasVector_afterRun_iff hdistinct hmem).2 (.inr ⟨hthis, ?_⟩)⟩
    refine mem_unembedded hthis.1 ?_
    have hzero : pre.countP (Waits t ·) = 0 := by
      rw [List.countP_eq_zero]
      exact fun x hx hw => hnone x hx (of_decide_eq_true hw)
    rw [countP_pending (t := t), hzero]
    omega

/-- **Repeated runs** come to a key if few enough that are stuck are older. -/
theorem hasVector_iterate {n : Nat} (hdistinct : ((pre ++ key :: post).map (·.id)).Nodup)
    (hkey : Waits t key) (hfew : pre.countP (Stuck t ·) < pendingLimit)
    (hn : pre.countP (Waits t ·) < n) :
    HasVector ((afterRun p model t)^[n] (pre ++ key :: post)) key.id := by
  induction n generalizing pre key post with
  | zero => omega
  | succ n ih =>
    rw [Function.iterate_succ_apply]
    have hmem : key ∈ pre ++ key :: post := by simp
    by_cases hread : pre.countP isPending < pendingLimit
    · have hnow : HasVector (afterRun p model t (pre ++ key :: post)) key.id :=
        (hasVector_afterRun_iff hdistinct hmem).2 (.inr ⟨hkey, mem_unembedded hkey.1 hread⟩)
      exact hnow.iterate (afterRun_distinct p model t hdistinct) n
    · have hfull : pendingLimit ≤ pre.countP isPending := not_lt.1 hread
      have hafter := afterRun_distinct p model t hdistinct
      obtain ⟨f, hmap, hf⟩ := afterRun_spec p model t hdistinct
      rw [hmap, List.map_append, List.map_cons] at hafter ⊢
      have hpre : ∀ x ∈ pre, x ∈ pre ++ key :: post := fun x hx => List.mem_append_left _ hx
      rw [← (hf key hmem).1]
      refine ih hafter ((hf key hmem).2.2.1.2 ⟨hkey, notMem_unembedded hdistinct hfull⟩) ?_ ?_
      · have hsame : (pre.map f).countP (Stuck t ·) = pre.countP (Stuck t ·) := by
          rw [List.countP_map]
          exact List.countP_congr fun x hx => by simpa using (hf x (hpre x hx)).2.1
        rw [hsame]
        exact hfew
      · -- one of the keys that were read waited, and waits no more
        obtain ⟨x, hx, hwaits⟩ := exists_waits_of_full hfull hfew
        have hxpre : x ∈ pre := (List.mem_filter.1 (List.mem_of_mem_take hx)).1
        have hless : (pre.map f).countP (Waits t ·) < pre.countP (Waits t ·) := by
          rw [List.countP_map]
          refine countP_lt_countP (fun y hy hlater => ?_) hxpre (decide_eq_true hwaits) ?_
          · exact decide_eq_true ((hf y (hpre y hy)).2.2.1.1 (of_decide_eq_true hlater)).1
          · refine decide_eq_false fun hlater => ?_
            refine ((hf x (hpre x hxpre)).2.2.1.1 hlater).2 ?_
            rwa [unembedded_of_le hfull]
        omega

/-- A key after too many that are stuck never gets its vector. -/
theorem not_hasVector_iterate (n : Nat) (hdistinct : ((pre ++ key :: post).map (·.id)).Nodup)
    (hkey : Waits t key) (hmany : pendingLimit ≤ pre.countP (Stuck t ·)) :
    ¬ HasVector ((afterRun p model t)^[n] (pre ++ key :: post)) key.id := by
  have hmem : key ∈ pre ++ key :: post := by simp
  induction n generalizing pre key post with
  | zero =>
    rintro ⟨x, hx, hid, hvector⟩
    obtain rfl := eq_of_id hdistinct hx hmem hid
    exact hvector (of_decide_eq_true hkey.1).1
  | succ n ih =>
    rw [Function.iterate_succ_apply]
    have hfull : pendingLimit ≤ pre.countP isPending := by
      rw [countP_pending (t := t)]
      omega
    have hafter := afterRun_distinct p model t hdistinct
    obtain ⟨f, hmap, hf⟩ := afterRun_spec p model t hdistinct
    rw [hmap, List.map_append, List.map_cons] at hafter ⊢
    rw [← (hf key hmem).1]
    refine ih hafter ((hf key hmem).2.2.1.2 ⟨hkey, notMem_unembedded hdistinct hfull⟩) ?_ (by simp)
    have hsame : (pre.map f).countP (Stuck t ·) = pre.countP (Stuck t ·) := by
      rw [List.countP_map]
      exact List.countP_congr fun x hx => by
        simpa using (hf x (List.mem_append_left _ hx)).2.1
    rw [hsame]
    exact hmany

end

/-- **Late vectors**: a run makes progress exactly when few enough keys of items that are not live
are before the first that waits, and repeated runs come to every key exactly when few enough are
before each. -/
theorem late_vectors_iff (p : Provider) (model : String) (t : MemoryTables) (s : KeyStore) :
    (((∃ key ∈ s.keys, Waits t key) →
        ∃ key ∈ s.keys, Waits t key ∧ HasVector (afterRun p model t s.keys) key.id) ↔
      ∀ pre key post, s.keys = pre ++ key :: post → Waits t key → (∀ x ∈ pre, ¬ Waits t x) →
        pre.countP (Stuck t ·) < pendingLimit) ∧
    ((∃ n, ∀ key ∈ s.keys, Waits t key → HasVector ((afterRun p model t)^[n] s.keys) key.id) ↔
      ∀ pre key post, s.keys = pre ++ key :: post → Waits t key →
        pre.countP (Stuck t ·) < pendingLimit) := by
  refine ⟨progress_iff s.distinct, ?_⟩
  constructor
  · rintro ⟨n, h⟩ pre key post hkeys hkey
    by_contra hmany
    have hdistinct := s.distinct
    have hreached := h key (by simp [hkeys]) hkey
    rw [hkeys] at hdistinct hreached
    exact not_hasVector_iterate n hdistinct hkey (not_lt.1 hmany) hreached
  · intro h
    refine ⟨s.keys.length + 1, fun key hkey hwaits => ?_⟩
    obtain ⟨pre, post, hkeys⟩ := List.append_of_mem hkey
    have hdistinct := s.distinct
    have hfew := h pre key post hkeys hwaits
    have hn : pre.countP (Waits t ·) < s.keys.length + 1 := by
      have hcount := List.countP_le_length (p := (Waits t ·)) (l := pre)
      have hlength : pre.length ≤ s.keys.length := by simp [hkeys]
      omega
    generalize s.keys.length + 1 = n at hn
    rw [hkeys] at hdistinct ⊢
    exact hasVector_iterate hdistinct hwaits hfew hn

/-! ### Two hundred keys of an archived note -/

def keptNote (id : Uuid) (status : ItemStatus) : ItemRecord :=
  { kind := .note, state := "current", text := "a note", title := "a note", mentionedAt := 0
    status := status, id := id, createdAt := 0, updatedAt := 0, createdByTurnId := 1
    updatedByTurnId := 1 }

/-- An active note and an archived one. -/
def twoNotes : MemoryTables :=
  { (Tables.initial 0).toMemoryTables with
    items := (KeyTable.empty.put (keptNote 1 .active)).put (keptNote 2 .archived) }

/-- A key without a vector. -/
def lateKey (itemId id : Uuid) : StoredKey where
  itemId := itemId
  keyKind := .text
  text := "a note"
  contentHash := "a note"
  id := id

def oldKeys : List StoredKey := (List.range 200).map (lateKey 2)

theorem oldKeys_distinct : ((oldKeys ++ [lateKey 1 200]).map (·.id)).Nodup := by
  have hids : (oldKeys ++ [lateKey 1 200]).map (·.id) = List.range 201 := by
    rw [List.range_succ, List.map_append, oldKeys, List.map_map]
    exact congrArg (· ++ [200]) (List.map_id _)
  rw [hids]
  exact List.nodup_range

def crowdedKeys : KeyStore := ⟨oldKeys ++ [lateKey 1 200], oldKeys_distinct⟩

theorem some_answers : Answers fun texts => some (texts.map fun _ => [1]) :=
  fun _ => ⟨_, rfl, List.length_map _⟩

/-- **No progress**: two hundred keys of the archived note come first, in each run. -/
theorem late_key_waits : ¬ ∀ (p : Provider) (model : String) (t : MemoryTables) (s : KeyStore),
    (∃ key ∈ s.keys, Waits t key) →
      ∃ key ∈ s.keys, Waits t key ∧ HasVector (afterRun p model t s.keys) key.id := by
  intro h
  have hgone : ¬ twoNotes.isActive 2 := by decide
  have hstuck : ∀ id, Stuck twoNotes (lateKey 2 id) := fun _ => ⟨rfl, hgone⟩
  have hfew := (progress_iff oldKeys_distinct).1 (h ⟨_, some_answers⟩ "" twoNotes crowdedKeys)
    oldKeys (lateKey 1 200) [] rfl ⟨rfl, by decide⟩ fun x hx hwaits => by
      obtain ⟨id, -, rfl⟩ := List.mem_map.1 hx
      exact (hstuck id).2 hwaits.2
  have hmany : oldKeys.countP (Stuck twoNotes ·) = 200 := by
    have hall : ∀ x ∈ oldKeys, decide (Stuck twoNotes x) = true := by
      intro x hx
      obtain ⟨id, -, rfl⟩ := List.mem_map.1 hx
      exact decide_eq_true (hstuck id)
    rw [List.countP_eq_length.2 hall, oldKeys, List.length_map, List.length_range]
  rw [hmany] at hfew
  exact absurd hfew (by decide)

end LateVectors

end SecondMind
