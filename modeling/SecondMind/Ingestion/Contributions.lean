import SecondMind.Ingestion.FoundAgain

/-!
# What the mentions of a message add

`ingestion/entities.py` and the writer's `UpsertEntity`: every mention that says something new of an
entity writes all of it, as it was before the message with what that mention adds, and the ops are
applied one after the other.

* `unique_keeps` — what `_unique` keeps of its values;
* `Writer.upserts_content` — the content of an entity is that of its last op;
* `matched_of_known`, `matched_of_new` — the mentions of one entity;
* `contributions_iff` — when each of them finds its name and its aliases there.
-/

namespace SecondMind

open Keyed

/-! ## Ops in order -/

/-- The upserts of a message, one after the other. -/
def Writer.upserts (w : Writer) : Tables × RowLog → List EntityUpsert →
    Except Halt (Tables × RowLog)
  | s, [] => .ok s
  | s, u :: us => do w.upserts (← w.upsertEntity s.1 s.2 u.entityId u.entity u.create) us

theorem Writer.upsert_content {w : Writer} {s s' : Tables × RowLog} {u : EntityUpsert}
    (h : w.upsertEntity s.1 s.2 u.entityId u.entity u.create = .ok s') (i : Uuid) :
    (s'.1.getEntity i).map (·.toEntityContent) =
      if i = u.entityId then some u.entity else (s.1.getEntity i).map (·.toEntityContent) := by
  rcases upsertEntity_eq_ok.1 h with ⟨-, -, -, rfl⟩ | ⟨-, before, hget, -, rfl⟩
  · show (KeyTable.lookup (s.1.entities.put (w.newEntity u.entityId u.entity)) i).map _ = _
    have hkey : (w.newEntity u.entityId u.entity).id = u.entityId := rfl
    rw [KeyTable.lookup_put, hkey]
    split
    · rfl
    · rfl
  · have hid : before.id = u.entityId := KeyTable.key_of_lookup hget
    show (KeyTable.lookup (s.1.entities.put (w.editedEntity before u.entity)) i).map _ = _
    rw [KeyTable.lookup_put]
    split
    · rename_i hsame
      rw [if_pos ((hsame : i = before.id).trans hid)]
      rfl
    · rename_i hother
      rw [if_neg fun heq => hother (heq.trans hid.symm)]
      rfl

/-- **The last op** of an entity is its content. -/
theorem Writer.upserts_content {w : Writer} {us : List EntityUpsert} {s s' : Tables × RowLog}
    (h : w.upserts s us = .ok s') (i : Uuid) :
    (s'.1.getEntity i).map (·.toEntityContent) =
      match (us.filter (·.entityId = i)).getLast? with
      | some u => some u.entity
      | none => (s.1.getEntity i).map (·.toEntityContent) := by
  induction us generalizing s with
  | nil =>
    cases h
    rfl
  | cons u us ih =>
    obtain ⟨s₁, hstep, h⟩ := bind_eq_ok.1 h
    rw [ih h, Writer.upsert_content hstep]
    by_cases hid : u.entityId = i
    · rw [List.filter_cons_of_pos (by simpa using hid), if_pos hid.symm, List.getLast?_cons]
      cases hlast : (us.filter (·.entityId = i)).getLast? with
      | none => rfl
      | some u' => rfl
    · rw [List.filter_cons_of_neg (by simpa using hid), if_neg (Ne.symm hid)]

/-- Nothing is known of an entity before the op that creates it. -/
theorem Writer.upserts_first {w : Writer} {us : List EntityUpsert} {s s' : Tables × RowLog}
    (h : w.upserts s us = .ok s') {i : Uuid} (hi : s.1.getEntity i = none) {u : EntityUpsert}
    (hu : (us.filter (·.entityId = i)).head? = some u) : u.create = true := by
  induction us generalizing s with
  | nil => cases hu
  | cons v us ih =>
    obtain ⟨s₁, hstep, h⟩ := bind_eq_ok.1 h
    by_cases hid : v.entityId = i
    · rw [List.filter_cons_of_pos (by simpa using hid)] at hu
      cases hu
      rcases upsertEntity_eq_ok.1 hstep with ⟨hcreate, -⟩ | ⟨-, before, hget, -⟩
      · exact hcreate
      · rw [hid, hi] at hget
        cases hget
    · rw [List.filter_cons_of_neg (by simpa using hid)] at hu
      have hsame := Writer.upsert_content hstep i
      rw [if_neg (Ne.symm hid), hi] at hsame
      exact ih h (Option.map_eq_none_iff.1 hsame) hu

namespace Entities

open Mentions

variable {lib : TextLib}

/-! ## What is kept of a list of names -/

/-- Two names are one: they are the same, or have the same key. -/
def Same (lib : TextLib) (u v : String) : Prop :=
  u = v ∨ clean lib u = clean lib v ∧ clean lib v ≠ []

/-- The first name of which nothing is left. -/
def firstUnwritten (lib : TextLib) (values : List String) : Option String :=
  values.find? fun v => v ≠ "" ∧ clean lib v = []

instance (u v : String) : Decidable (Same lib u v) := inferInstanceAs (Decidable (_ ∨ _))

/-- A name is one of the values, and of those without a key it is the first. -/
def Survives (lib : TextLib) (values : List String) (v : String) : Prop :=
  if clean lib v = [] then firstUnwritten lib values = some v
  else ∃ u ∈ values, clean lib u = clean lib v

instance (values : List String) (v : String) : Decidable (Survives lib values v) :=
  inferInstanceAs (Decidable (if clean lib v = [] then firstUnwritten lib values = some v
    else ∃ u ∈ values, clean lib u = clean lib v))

/-- What is kept after some values. -/
def uniqueFrom (lib : TextLib) (out values : List String) : List String :=
  values.foldl
    (fun out v => if v ≠ "" ∧ clean lib v ∉ out.map (clean lib) then out ++ [v] else out) out

theorem uniqueFrom_cons (out values : List String) (v : String) :
    uniqueFrom lib out (v :: values) =
      uniqueFrom lib (if v ≠ "" ∧ clean lib v ∉ out.map (clean lib) then out ++ [v] else out)
        values := rfl

theorem mem_key_uniqueFrom {out values : List String} {key : List Char} :
    key ∈ (uniqueFrom lib out values).map (clean lib) ↔
      key ∈ out.map (clean lib) ∨ ∃ v ∈ values, v ≠ "" ∧ clean lib v = key := by
  induction values generalizing out with
  | nil => simp [uniqueFrom]
  | cons v values ih =>
    rw [uniqueFrom_cons, ih]
    constructor
    · rintro (h | ⟨u, hu, hkey⟩)
      · split at h
        · rename_i hnew
          rw [List.map_append, List.mem_append] at h
          rcases h with h | h
          · exact .inl h
          · exact .inr ⟨v, List.mem_cons_self, hnew.1, (List.mem_singleton.1 h).symm⟩
        · exact .inl h
      · exact .inr ⟨u, List.mem_cons_of_mem _ hu, hkey⟩
    · rintro (h | ⟨u, hu, hne, hkey⟩)
      · left
        split
        · rw [List.map_append]
          exact List.mem_append_left _ h
        · exact h
      · rcases List.mem_cons.1 hu with rfl | hu
        · left
          split
          · rw [List.map_append, ← hkey]
            exact List.mem_append_right _ (List.mem_singleton_self _)
          · rename_i hold
            rw [← hkey]
            by_contra hnot
            exact hold ⟨hne, hnot⟩
        · exact .inr ⟨u, hu, hne, hkey⟩

/-- Of the names without a key only the first is kept. -/
theorem mem_uniqueFrom_unwritten {out values : List String} {v : String} (hv : clean lib v = []) :
    v ∈ uniqueFrom lib out values ↔
      v ∈ out ∨ [] ∉ out.map (clean lib) ∧ firstUnwritten lib values = some v := by
  induction values generalizing out with
  | nil => simp [uniqueFrom, firstUnwritten]
  | cons u values ih =>
    have hfirst : firstUnwritten lib (u :: values) =
        if u ≠ "" ∧ clean lib u = [] then some u else firstUnwritten lib values := by
      rw [firstUnwritten, List.find?_cons]
      by_cases h : u ≠ "" ∧ clean lib u = []
      · rw [if_pos h, decide_eq_true h]
      · rw [if_neg h, decide_eq_false h]
        rfl
    rw [uniqueFrom_cons, ih, hfirst]
    by_cases hu : u ≠ "" ∧ clean lib u = []
    · rw [if_pos hu]
      by_cases hold : [] ∈ out.map (clean lib)
      · rw [if_neg (fun hnew => hnew.2 (hu.2 ▸ hold))]
        simp [hold]
      · rw [if_pos ⟨hu.1, hu.2.symm ▸ hold⟩]
        simp [hold, hu.2, eq_comm]
    · rw [if_neg hu]
      by_cases hnew : u ≠ "" ∧ clean lib u ∉ out.map (clean lib)
      · have hkey : clean lib u ≠ [] := fun hempty => hu ⟨hnew.1, hempty⟩
        have hne : v ≠ u := fun heq => hkey (heq ▸ hv)
        rw [if_pos hnew]
        simp [hne, hkey]
      · rw [if_neg hnew]

/-- **What `_unique` keeps**: every name, up to its key. -/
theorem unique_keeps (hlower : LowerText lib) {values : List String} {v : String} :
    (∃ u ∈ unique lib values, Same lib u v) ↔ Survives lib values v := by
  have hkept : unique lib values = uniqueFrom lib [] values := rfl
  rw [hkept, Survives]
  split
  · rename_i hkey
    have hmem : v ∈ uniqueFrom lib [] values ↔ firstUnwritten lib values = some v := by
      rw [mem_uniqueFrom_unwritten hkey]
      simp
    rw [← hmem]
    constructor
    · rintro ⟨u, hu, rfl | ⟨-, hne⟩⟩
      · exact hu
      · exact absurd hkey hne
    · exact fun hu => ⟨v, hu, .inl rfl⟩
  · rename_i hkey
    have hmem : clean lib v ∈ (uniqueFrom lib [] values).map (clean lib) ↔ _ := mem_key_uniqueFrom
    have hnonempty : ∀ u, clean lib u = clean lib v → u ≠ "" := by
      rintro u hu rfl
      rw [clean_empty hlower] at hu
      exact hkey hu.symm
    constructor
    · rintro ⟨u, hu, hsame⟩
      have hclean : clean lib u = clean lib v := hsame.elim (fun h => h ▸ rfl) (·.1)
      obtain h | ⟨c, hc, -, hckey⟩ := hmem.1 (List.mem_map.2 ⟨u, hu, hclean⟩)
      · cases h
      · exact ⟨c, hc, hckey⟩
    · rintro ⟨u, hu, hclean⟩
      obtain ⟨c, hc, hckey⟩ := List.mem_map.1 (hmem.2 (.inr ⟨u, hu, hnonempty u hclean, hclean⟩))
      exact ⟨c, hc, .inr ⟨hckey, hkey⟩⟩

/-! ## The mentions of a message -/

section

variable (lib) (choose : Option EntityChooser) (now : Instant)

/-- The mentions that are not of the user, with their plans. -/
def mentionPlans : List EntityRecord → List (ExtractedEntity × Uuid) →
    List (ExtractedEntity × EntityPlan)
  | _, [] => []
  | pool, (x, id) :: rest =>
    if isFirstPerson lib x then mentionPlans pool rest
    else
      let plan := resolveOne lib choose x pool id
      (x, plan) :: mentionPlans (pool ++ addedBy plan now) rest

end

variable {choose : Option EntityChooser} {me : EntityRecord} {now : Instant}
  {pool : List EntityRecord} {extracted : List (ExtractedEntity × Uuid)}

theorem ops_resolveFrom (me : EntityRecord) (p : String → Bool) :
    ((resolveFrom lib choose me now pool extracted).filter (p ·.1)).filterMap (·.2.op) =
      ((mentionPlans lib choose now pool extracted).filter (p ·.1.id)).filterMap (·.2.op) := by
  induction extracted generalizing pool with
  | nil => rfl
  | cons m rest ih =>
    obtain ⟨x, id⟩ := m
    rw [resolveFrom, mentionPlans]
    split
    · rw [List.filter_cons]
      split
      · rw [List.filterMap_cons_none rfl, ih]
      · exact ih
    · dsimp only
      rw [List.filter_cons, List.filter_cons]
      split
      · rw [List.filterMap_cons, List.filterMap_cons, ih]
      · exact ih

/-- The plans go by the ids of the mentions. -/
theorem refs_resolveFrom :
    (resolveFrom lib choose me now pool extracted).map (·.1) = extracted.map (·.1.id) := by
  induction extracted generalizing pool with
  | nil => rfl
  | cons m rest ih =>
    obtain ⟨x, id⟩ := m
    rw [resolveFrom]
    split
    · rw [List.map_cons, List.map_cons, ih]
    · rw [List.map_cons, List.map_cons, ih]

/-- A mention that is named as the user comes first, the others in their order. -/
def inOrder {α : Type} (ref : α → String) (mentions : List α) : List α :=
  mentions.filter (ref · = "self") ++ mentions.filter (ref · ≠ "self")

/-- The plans by their ids: that of the user is replaced in its place. -/
theorem foldl_assign {plans others : List (String × EntityPlan)} {me : EntityPlan}
    (hplans : (plans.map (·.1)).Nodup) (hothers : ∀ e ∈ plans, e.1 ∉ others.map (·.1)) :
    plans.foldl (fun acc e => assign acc e.1 e.2) (("self", me) :: others) =
      ("self", ((plans.find? (·.1 = "self")).map (·.2)).getD me) ::
        (others ++ plans.filter (·.1 ≠ "self")) := by
  induction plans generalizing others me with
  | nil => simp
  | cons e plans ih =>
    obtain ⟨hnew, hplans⟩ := List.nodup_cons.1 hplans
    have hkeep : e.1 ∉ others.map (·.1) := hothers e List.mem_cons_self
    rw [List.foldl_cons]
    by_cases href : e.1 = "self"
    · have hsame : assign (("self", me) :: others) e.1 e.2 = ("self", e.2) :: others := by
        rw [assign, if_pos (by rw [href]; exact List.mem_cons_self), List.map_cons,
          if_pos href.symm, href]
        congr 1
        refine (List.map_congr_left fun e' he' => if_neg fun heq => ?_).trans (List.map_id others)
        rw [href] at hkeep
        exact hkeep (List.mem_map.2 ⟨e', he', heq⟩)
      have hnone : plans.find? (·.1 = "self") = none := by
        refine List.find?_eq_none.2 fun e' he' heq => ?_
        rw [decide_eq_true_eq, ← href] at heq
        exact hnew (List.mem_map.2 ⟨e', he', heq⟩)
      rw [hsame, ih hplans fun e' he' => hothers e' (List.mem_cons_of_mem _ he'), hnone,
        List.find?_cons_of_pos (by simpa using href), List.filter_cons_of_neg (by simpa using href)]
      rfl
    · have hadded : assign (("self", me) :: others) e.1 e.2 = ("self", me) :: (others ++ [e]) := by
        refine if_neg fun hmem => ?_
        rcases List.mem_cons.1 hmem with heq | hmem
        · exact href heq
        · exact hkeep hmem
      rw [hadded, ih hplans, List.find?_cons_of_neg (by simpa using href),
        List.filter_cons_of_pos (by simpa using href), List.append_assoc]
      · rfl
      · intro e' he' hmem
        rw [List.map_append, List.mem_append] at hmem
        rcases hmem with hmem | hmem
        · exact hothers e' (List.mem_cons_of_mem _ he') hmem
        · exact hnew (List.mem_map.2 ⟨e', he', List.mem_singleton.1 hmem⟩)

theorem op_of_self {plans : List (String × EntityPlan)} {me : EntityPlan} (hme : me.op = none)
    (hplans : (plans.map (·.1)).Nodup) :
    (((plans.find? (·.1 = "self")).map (·.2)).getD me).op.toList =
      (plans.filter (·.1 = "self")).filterMap (·.2.op) := by
  induction plans with
  | nil =>
    show me.op.toList = []
    rw [hme]
    rfl
  | cons e plans ih =>
    obtain ⟨hnew, hplans⟩ := List.nodup_cons.1 hplans
    by_cases href : e.1 = "self"
    · have hnone : plans.filter (·.1 = "self") = [] := by
        refine List.filter_eq_nil_iff.2 fun e' he' heq => ?_
        rw [decide_eq_true_eq, ← href] at heq
        exact hnew (List.mem_map.2 ⟨e', he', heq⟩)
      rw [List.find?_cons_of_pos (by simpa using href),
        List.filter_cons_of_pos (by simpa using href), hnone, List.filterMap_cons]
      show e.2.op.toList = _
      cases e.2.op with
      | none => rfl
      | some u => rfl
    · rw [List.find?_cons_of_neg (by simpa using href),
        List.filter_cons_of_neg (by simpa using href), ih hplans]

/-- **The ops** of a message are those of its mentions. -/
theorem ops_resolveEntities {known : List EntityRecord} (hids : (extracted.map (·.1.id)).Nodup) :
    (resolveEntities lib choose me now known extracted).filterMap (·.2.op) =
      (inOrder (·.1.id) (mentionPlans lib choose now (poolOf known) extracted)).filterMap
        (·.2.op) := by
  have hplans : ((resolveFrom lib choose me now (poolOf known) extracted).map (·.1)).Nodup := by
    rwa [refs_resolveFrom]
  rw [resolveEntities, foldl_assign hplans (by simp), inOrder, List.filterMap_append,
    ← ops_resolveFrom me (· = "self"), ← ops_resolveFrom me (· ≠ "self"), List.nil_append,
    ← op_of_self (rfl : (selfPlan me).op = none) hplans, List.filterMap_cons]
  dsimp only
  cases (((resolveFrom lib choose me now (poolOf known) extracted).find? (·.1 = "self")).map
    (·.2)).getD (selfPlan me) with
  | mk entityId kind name op isKey =>
    cases op with
    | none => rfl
    | some u => rfl

/-! ## The mentions of one entity -/

/-- The ids that are new for the mentions. -/
structure NewIds (pool : List EntityRecord) (extracted : List (ExtractedEntity × Uuid)) : Prop where
  nodup : (extracted.map (·.2)).Nodup
  fresh : ∀ m ∈ extracted, ∀ e ∈ pool, e.id ≠ m.2

theorem newRecord_of_create {x : ExtractedEntity} {id : Uuid} {note : String} :
    addedBy (newEntity lib x id note) now = [newRecord lib x id now] := rfl

theorem addedBy_matched {x : ExtractedEntity} {e : EntityRecord} :
    addedBy (matched lib x e) now = [] := by
  unfold addedBy
  rw [Option.filter_eq_none_iff.2]
  · rfl
  · intro u hu
    have hnot := matched_updates lib x e
    rw [hu] at hnot
    simpa using hnot

theorem mem_of_mem_candidates {x : ExtractedEntity} {e : EntityRecord}
    (hdistinct : Distinct pool) (h : e ∈ candidates lib x pool) : e ∈ pool :=
  ((mem_candidates hdistinct).1 h).1

variable (lib choose now) in
/-- What the pool grows by keeps it distinct, and leaves the other ids new. -/
theorem NewIds.step {x : ExtractedEntity} {id : Uuid} {rest : List (ExtractedEntity × Uuid)}
    (hdistinct : Distinct pool) (h : NewIds pool ((x, id) :: rest)) :
    Distinct (pool ++ addedBy (resolveOne lib choose x pool id) now) ∧
      NewIds (pool ++ addedBy (resolveOne lib choose x pool id) now) rest := by
  obtain ⟨hnew, hnodup⟩ := List.nodup_cons.1 h.nodup
  have hrest : NewIds pool rest := ⟨hnodup, fun m hm => h.fresh m (List.mem_cons_of_mem _ hm)⟩
  rcases resolveOne_cases lib x pool choose id with ⟨note, heq⟩ | ⟨e, -, heq⟩
  · have hlater : Later lib x id _ (newRecord lib x id now) :=
      later_of_new now hdistinct (h.fresh _ List.mem_cons_self)
    rw [heq, newRecord_of_create]
    refine ⟨hlater.distinct, hnodup, fun m hm e he => ?_⟩
    rcases List.mem_append.1 he with he | he
    · exact hrest.fresh m hm e he
    · rw [List.mem_singleton.1 he]
      rintro rfl
      exact hnew (List.mem_map.2 ⟨m, hm, rfl⟩)
  · rw [heq, addedBy_matched, List.append_nil]
    exact ⟨hdistinct, hrest⟩

/-- **A known entity** is only matched. -/
theorem matched_of_known {e : EntityRecord} (hdistinct : Distinct pool)
    (hnew : NewIds pool extracted) (he : e ∈ pool) {m : ExtractedEntity × EntityPlan}
    (hm : m ∈ mentionPlans lib choose now pool extracted) (hid : m.2.entityId = e.id) :
    m.2 = matched lib m.1 e := by
  induction extracted generalizing pool with
  | nil => cases hm
  | cons first rest ih =>
    obtain ⟨x, id⟩ := first
    rw [mentionPlans] at hm
    split at hm
    · exact ih hdistinct ⟨(List.nodup_cons.1 hnew.nodup).2,
        fun m hm => hnew.fresh m (List.mem_cons_of_mem _ hm)⟩ he hm
    · obtain ⟨hdistinct', hnew'⟩ := hnew.step lib choose now hdistinct
      rcases List.mem_cons.1 hm with rfl | hm
      · rcases resolveOne_cases lib x pool choose id with ⟨note, heq⟩ | ⟨c, hc, heq⟩
        · rw [heq] at hid
          exact absurd hid.symm (hnew.fresh _ List.mem_cons_self e he)
        · have hsame : c = e := by
            rw [heq] at hid
            exact hdistinct.eq_of_id (mem_of_mem_candidates hdistinct hc) he hid
          rw [heq, hsame]
      · exact ih hdistinct' hnew' (List.mem_append_left _ he) hm

/-- **A new entity** is created by the first of its mentions, and matched by the others. -/
theorem matched_of_new {i : Uuid} (hdistinct : Distinct pool) (hnew : NewIds pool extracted)
    (hi : ∀ e ∈ pool, e.id ≠ i)
    (hsome : ∃ m ∈ mentionPlans lib choose now pool extracted, m.2.entityId = i) :
    ∃ x note before after, mentionPlans lib choose now pool extracted =
        before ++ (x, newEntity lib x i note) :: after ∧
      (∀ m ∈ before, m.2.entityId ≠ i) ∧
      ∀ m ∈ after, m.2.entityId = i → m.2 = matched lib m.1 (newRecord lib x i now) := by
  induction extracted generalizing pool with
  | nil =>
    obtain ⟨m, hm, -⟩ := hsome
    cases hm
  | cons first rest ih =>
    obtain ⟨x, id⟩ := first
    rw [mentionPlans] at hsome ⊢
    split
    · rename_i hfirst
      rw [if_pos hfirst] at hsome
      exact ih hdistinct ⟨(List.nodup_cons.1 hnew.nodup).2,
        fun m hm => hnew.fresh m (List.mem_cons_of_mem _ hm)⟩ hi hsome
    · rename_i hfirst
      rw [if_neg hfirst] at hsome
      obtain ⟨hdistinct', hnew'⟩ := hnew.step lib choose now hdistinct
      dsimp only at hsome ⊢
      rcases resolveOne_cases lib x pool choose id with ⟨note, heq⟩ | ⟨c, hc, heq⟩
      · by_cases hid : id = i
        · subst hid
          refine ⟨x, note, [], mentionPlans lib choose now
            (pool ++ addedBy (resolveOne lib choose x pool id) now) rest,
            congrArg (fun plan => (x, plan) :: _) heq, by simp, fun m hm hmid => ?_⟩
          refine matched_of_known hdistinct' hnew' (List.mem_append_right _ ?_) hm hmid
          rw [heq]
          exact List.mem_singleton_self _
        · have hi' : ∀ e ∈ pool ++ addedBy (resolveOne lib choose x pool id) now, e.id ≠ i := by
            intro e he
            rcases List.mem_append.1 he with he | he
            · exact hi e he
            · rw [heq, newRecord_of_create, List.mem_singleton] at he
              rw [he]
              exact hid
          have hsome' : ∃ m ∈ mentionPlans lib choose now
              (pool ++ addedBy (resolveOne lib choose x pool id) now) rest, m.2.entityId = i := by
            obtain ⟨m, hm, hmid⟩ := hsome
            rcases List.mem_cons.1 hm with rfl | hm
            · rw [heq] at hmid
              exact absurd hmid hid
            · exact ⟨m, hm, hmid⟩
          obtain ⟨x', note', before, after, hplans, hbefore, hafter⟩ :=
            ih hdistinct' hnew' hi' hsome'
          refine ⟨x', note', (x, resolveOne lib choose x pool id) :: before, after, ?_, ?_, hafter⟩
          · rw [hplans]
            rfl
          · intro m hm
            rcases List.mem_cons.1 hm with rfl | hm
            · rw [heq]
              exact hid
            · exact hbefore m hm
      · have hi' : ∀ e ∈ pool ++ addedBy (resolveOne lib choose x pool id) now, e.id ≠ i := by
          rw [heq, addedBy_matched, List.append_nil]
          exact hi
        have hcid : c.id ≠ i := hi c (mem_of_mem_candidates hdistinct hc)
        have hsome' : ∃ m ∈ mentionPlans lib choose now
            (pool ++ addedBy (resolveOne lib choose x pool id) now) rest, m.2.entityId = i := by
          obtain ⟨m, hm, hmid⟩ := hsome
          rcases List.mem_cons.1 hm with rfl | hm
          · rw [heq] at hmid
            exact absurd hmid hcid
          · exact ⟨m, hm, hmid⟩
        obtain ⟨x', note', before, after, hplans, hbefore, hafter⟩ := ih hdistinct' hnew' hi' hsome'
        refine ⟨x', note', (x, resolveOne lib choose x pool id) :: before, after, ?_, ?_, hafter⟩
        · rw [hplans]
          rfl
        · intro m hm
          rcases List.mem_cons.1 hm with rfl | hm
          · rw [heq]
            exact hcid
          · exact hbefore m hm

/-! ## What an entity ends up with -/

section

variable (lib : TextLib)

/-- What an entity is before its mentions add to it, and those that do: it is known, or the first of
its mentions creates it. -/
def additions (pool : List EntityRecord) (plans : List (ExtractedEntity × EntityPlan)) (i : Uuid) :
    Option (EntityContent × List ExtractedEntity) :=
  match pool.find? (·.id = i), (plans.filter (·.2.entityId = i)).map (·.1) with
  | some e, mentions => some (e.toEntityContent, mentions)
  | none, x :: mentions => some (created lib x, mentions)
  | none, [] => none

/-- The last of the mentions that give a name or a label. -/
def lastChange (content : EntityContent) (mentions : List ExtractedEntity) :
    Option ExtractedEntity :=
  ((inOrder (·.id) mentions).filter (changes lib · content ≠ [])).getLast?

/-- What the last of them writes. -/
def lastWritten (content : EntityContent) (mentions : List ExtractedEntity) : EntityContent :=
  ((lastChange lib content mentions).map (updated lib · content)).getD content

end

theorem op_matched {x : ExtractedEntity} {e : EntityRecord} : (matched lib x e).op =
    if changes lib x e.toEntityContent = [] then none
    else some
      { entityId := e.id, entity := updated lib x e.toEntityContent, create := false
        title := (updated lib x e.toEntityContent).name
        rationale := ", ".intercalate (changes lib x e.toEntityContent) } := rfl

/-- The last op of the mentions of one entity. -/
theorem getLast_ops_matched {e : EntityRecord} {plans : List (ExtractedEntity × EntityPlan)}
    (h : ∀ m ∈ plans, m.2 = matched lib m.1 e) :
    ((plans.filterMap (·.2.op)).getLast?).map (·.entity) =
      (((plans.map (·.1)).filter (changes lib · e.toEntityContent ≠ [])).getLast?).map
        (updated lib · e.toEntityContent) := by
  have hops : (plans.filterMap (·.2.op)).map (·.entity) =
      ((plans.map (·.1)).filter (changes lib · e.toEntityContent ≠ [])).map
        (updated lib · e.toEntityContent) := by
    induction plans with
    | nil => rfl
    | cons m plans ih =>
      have hm : m.2.op = _ := (congrArg EntityPlan.op (h m List.mem_cons_self)).trans op_matched
      have hrest := ih fun m hm => h m (List.mem_cons_of_mem _ hm)
      rw [List.filterMap_cons, hm, List.map_cons]
      by_cases hnone : changes lib m.1 e.toEntityContent = []
      · rw [if_pos hnone, List.filter_cons_of_neg (by simpa using hnone), ← hrest]
      · rw [if_neg hnone, List.filter_cons_of_pos (by simpa using hnone), List.map_cons,
          List.map_cons, ← hrest]
  rw [← List.getLast?_map, hops, List.getLast?_map]

/-- The ops of an entity are those of its mentions. -/
theorem filter_ops {plans : List (ExtractedEntity × EntityPlan)} {i : Uuid}
    (h : ∀ m ∈ plans, ∀ u ∈ m.2.op, u.entityId = m.2.entityId) :
    (plans.filterMap (·.2.op)).filter (·.entityId = i) =
      (plans.filter (·.2.entityId = i)).filterMap (·.2.op) := by
  induction plans with
  | nil => rfl
  | cons m plans ih =>
    have hrest := ih fun m hm => h m (List.mem_cons_of_mem _ hm)
    rw [List.filter_cons]
    cases hop : m.2.op with
    | none =>
      rw [List.filterMap_cons_none (f := fun m : ExtractedEntity × EntityPlan => m.2.op) hop, hrest]
      split
      · rw [List.filterMap_cons_none (f := fun m : ExtractedEntity × EntityPlan => m.2.op) hop]
      · rfl
    | some u =>
      have hid : u.entityId = m.2.entityId := h m List.mem_cons_self u hop
      rw [List.filterMap_cons_some (f := fun m : ExtractedEntity × EntityPlan => m.2.op) hop,
        List.filter_cons, hid, hrest]
      split
      · rw [List.filterMap_cons_some (f := fun m : ExtractedEntity × EntityPlan => m.2.op) hop]
      · rfl

/-- An op of a mention is of the entity of the mention. -/
theorem entityId_op {m : ExtractedEntity × EntityPlan}
    (hm : m ∈ mentionPlans lib choose now pool extracted) {u : EntityUpsert} (hu : u ∈ m.2.op) :
    u.entityId = m.2.entityId := by
  induction extracted generalizing pool with
  | nil => cases hm
  | cons first rest ih =>
    obtain ⟨x, id⟩ := first
    rw [mentionPlans] at hm
    split at hm
    · exact ih hm
    · rcases List.mem_cons.1 hm with rfl | hm
      · rcases resolveOne_cases lib x pool choose id with ⟨note, heq⟩ | ⟨e, -, heq⟩
        · rw [heq] at hu ⊢
          cases hu
          rfl
        · rw [heq] at hu ⊢
          rw [op_matched] at hu
          split at hu
          · cases hu
          · cases hu
            rfl
      · exact ih hm

/-- A mention is of an entity that is known or has one of the new ids. -/
theorem entityId_of_plan (hdistinct : Distinct pool) (hnew : NewIds pool extracted)
    {m : ExtractedEntity × EntityPlan} (hm : m ∈ mentionPlans lib choose now pool extracted) :
    (∃ e ∈ pool, e.id = m.2.entityId) ∨ ∃ x ∈ extracted, x.2 = m.2.entityId := by
  induction extracted generalizing pool with
  | nil => cases hm
  | cons first rest ih =>
    obtain ⟨x, id⟩ := first
    rw [mentionPlans] at hm
    split at hm
    · refine (ih hdistinct ⟨(List.nodup_cons.1 hnew.nodup).2,
        fun m hm => hnew.fresh m (List.mem_cons_of_mem _ hm)⟩ hm).imp_right ?_
      exact fun ⟨y, hy, heq⟩ => ⟨y, List.mem_cons_of_mem _ hy, heq⟩
    · obtain ⟨hdistinct', hnew'⟩ := hnew.step lib choose now hdistinct
      rcases resolveOne_cases lib x pool choose id with ⟨note, heq⟩ | ⟨c, hc, heq⟩
      · rcases List.mem_cons.1 hm with rfl | hm
        · refine .inr ⟨(x, id), List.mem_cons_self, ?_⟩
          rw [heq]
          rfl
        · rcases ih hdistinct' hnew' hm with ⟨e, he, hid⟩ | ⟨y, hy, hid⟩
          · rw [heq, newRecord_of_create, List.mem_append, List.mem_singleton] at he
            rcases he with he | rfl
            · exact .inl ⟨e, he, hid⟩
            · exact .inr ⟨(x, id), List.mem_cons_self, hid⟩
          · exact .inr ⟨y, List.mem_cons_of_mem _ hy, hid⟩
      · rcases List.mem_cons.1 hm with rfl | hm
        · refine .inl ⟨c, mem_of_mem_candidates hdistinct hc, ?_⟩
          rw [heq]
          rfl
        · rcases ih hdistinct' hnew' hm with ⟨e, he, hid⟩ | ⟨y, hy, hid⟩
          · rw [heq, addedBy_matched, List.append_nil] at he
            exact .inl ⟨e, he, hid⟩
          · exact .inr ⟨y, List.mem_cons_of_mem _ hy, hid⟩

theorem filter_inOrder {p : ExtractedEntity × EntityPlan → Bool}
    (plans : List (ExtractedEntity × EntityPlan)) :
    (inOrder (·.1.id) plans).filter p = inOrder (·.1.id) (plans.filter p) := by
  rw [inOrder, inOrder, List.filter_append, List.filter_filter, List.filter_filter,
    List.filter_filter, List.filter_filter]
  simp only [Bool.and_comm]

theorem map_inOrder (plans : List (ExtractedEntity × EntityPlan)) :
    (inOrder (·.1.id) plans).map (·.1) = inOrder (·.id) (plans.map (·.1)) := by
  rw [inOrder, inOrder, List.map_append, List.filter_map, List.filter_map]
  rfl

theorem mem_inOrder {α : Type} {ref : α → String} {mentions : List α} {m : α} :
    m ∈ inOrder ref mentions ↔ m ∈ mentions := by
  rw [inOrder, List.mem_append, List.mem_filter, List.mem_filter]
  by_cases h : ref m = "self"
  · simp [h]
  · simp [h]

section

variable {w : Writer} {known : List EntityRecord} {s s' : Tables × Writer.RowLog} {i : Uuid}
  {content : EntityContent} {mentions : List ExtractedEntity}

/-- The ops of one entity among those of the message. -/
theorem ops_of_entity (hids : (extracted.map (·.1.id)).Nodup) :
    (((resolveEntities lib choose me now known extracted).filterMap (·.2.op)).filter
        (·.entityId = i)) =
      (inOrder (·.1.id) ((mentionPlans lib choose now (poolOf known) extracted).filter
        (·.2.entityId = i))).filterMap (·.2.op) := by
  rw [ops_resolveEntities hids, filter_ops, filter_inOrder]
  exact fun m hm u hu => entityId_op (mem_inOrder.1 hm) hu

/-- A known entity ends up with what the last of its mentions writes. -/
theorem content_of_known {e : EntityRecord} (hids : (extracted.map (·.1.id)).Nodup)
    (hdistinct : Distinct (poolOf known)) (hnew : NewIds (poolOf known) extracted)
    (hstore : s.1.getEntity e.id = some e) (he : e ∈ poolOf known)
    (happlied : w.upserts s
      ((resolveEntities lib choose me now known extracted).filterMap (·.2.op)) = .ok s') :
    (s'.1.getEntity e.id).map (·.toEntityContent) = some (lastWritten lib e.toEntityContent
      (((mentionPlans lib choose now (poolOf known) extracted).filter
        (·.2.entityId = e.id)).map (·.1))) := by
  generalize hplans : mentionPlans lib choose now (poolOf known) extracted = plans
  have hmatched : ∀ m ∈ inOrder (·.1.id) (plans.filter (·.2.entityId = e.id)),
      m.2 = matched lib m.1 e := by
    intro m hm
    obtain ⟨hm, hid⟩ := List.mem_filter.1 (mem_inOrder.1 hm)
    rw [← hplans] at hm
    exact matched_of_known hdistinct hnew he hm (of_decide_eq_true hid)
  have hlast := getLast_ops_matched hmatched
  rw [map_inOrder] at hlast
  rw [Writer.upserts_content happlied, ops_of_entity hids, hplans, hstore, lastWritten, lastChange]
  cases hops : (List.filterMap (fun m : ExtractedEntity × EntityPlan => m.2.op)
      (inOrder (fun m => m.1.id) (plans.filter (·.2.entityId = e.id)))).getLast? with
  | none =>
    rw [hops] at hlast
    rw [← hlast]
    rfl
  | some u =>
    rw [hops] at hlast
    rw [← hlast]
    rfl

/-- The ops of a new entity: the one that creates it, and those of its other mentions. -/
theorem ops_of_new {x : ExtractedEntity} {note : String} {e : EntityRecord}
    {rest : List (ExtractedEntity × EntityPlan)} (hrest : ∀ m ∈ rest, m.2 = matched lib m.1 e)
    (hfirst : ∀ u, ((inOrder (·.1.id) ((x, newEntity lib x i note) :: rest)).filterMap
      (·.2.op)).head? = some u → u.create = true) :
    ((inOrder (·.1.id) ((x, newEntity lib x i note) :: rest)).filterMap (·.2.op)).map (·.entity) =
      created lib x :: ((inOrder (·.1.id) rest).filterMap (·.2.op)).map (·.entity) := by
  rw [inOrder] at hfirst ⊢
  by_cases hself : x.id = "self"
  · rw [List.filter_cons_of_pos (by simpa using hself),
      List.filter_cons_of_neg (by simpa using hself)]
    rfl
  · rw [List.filter_cons_of_neg (by simpa using hself),
      List.filter_cons_of_pos (by simpa using hself), List.filterMap_append] at hfirst ⊢
    have hnone : (rest.filter (·.1.id = "self")).filterMap (·.2.op) = [] := by
      cases hops : (rest.filter (·.1.id = "self")).filterMap (·.2.op) with
      | nil => rfl
      | cons u us =>
        have hcreate : u.create = true := hfirst u (by rw [hops]; rfl)
        have hu : u ∈ (rest.filter (·.1.id = "self")).filterMap (·.2.op) := by
          rw [hops]
          exact List.mem_cons_self
        obtain ⟨m, hm, hop⟩ := List.mem_filterMap.1 hu
        have hnot := matched_updates lib m.1 e
        rw [← hrest m (List.mem_filter.1 hm).1, hop, Option.any_some, hcreate] at hnot
        cases hnot
    rw [hnone, inOrder, List.filterMap_append, hnone]
    rfl

/-- A new entity too. -/
theorem content_of_new {x : ExtractedEntity} {others : List ExtractedEntity}
    (hids : (extracted.map (·.1.id)).Nodup) (hdistinct : Distinct (poolOf known))
    (hnew : NewIds (poolOf known) extracted) (hi : ∀ e ∈ poolOf known, e.id ≠ i)
    (hstore : s.1.getEntity i = none)
    (happlied : w.upserts s
      ((resolveEntities lib choose me now known extracted).filterMap (·.2.op)) = .ok s')
    (hmentions : ((mentionPlans lib choose now (poolOf known) extracted).filter
      (·.2.entityId = i)).map (·.1) = x :: others) :
    (s'.1.getEntity i).map (·.toEntityContent) =
      some (lastWritten lib (created lib x) others) := by
  have hsome : ∃ m ∈ mentionPlans lib choose now (poolOf known) extracted, m.2.entityId = i := by
    have hx : x ∈ ((mentionPlans lib choose now (poolOf known) extracted).filter
        (·.2.entityId = i)).map (·.1) := by
      rw [hmentions]
      exact List.mem_cons_self
    obtain ⟨m, hm, -⟩ := List.mem_map.1 hx
    obtain ⟨hm, hid⟩ := List.mem_filter.1 hm
    exact ⟨m, hm, of_decide_eq_true hid⟩
  obtain ⟨x', note, before, after, hplans, hbefore, hafter⟩ :=
    matched_of_new hdistinct hnew hi hsome
  have hnone : before.filter (·.2.entityId = i) = [] :=
    List.filter_eq_nil_iff.2 fun m hm hid => hbefore m hm (of_decide_eq_true hid)
  have hof : (mentionPlans lib choose now (poolOf known) extracted).filter (·.2.entityId = i) =
      (x', newEntity lib x' i note) :: after.filter (·.2.entityId = i) := by
    rw [hplans, List.filter_append, hnone, List.filter_cons_of_pos (by simp [newEntity])]
    rfl
  rw [hof, List.map_cons] at hmentions
  obtain ⟨rfl, hothers⟩ := List.cons.inj hmentions
  have hrest : ∀ m ∈ after.filter (·.2.entityId = i),
      m.2 = matched lib m.1 (newRecord lib x' i now) := by
    intro m hm
    obtain ⟨hm, hid⟩ := List.mem_filter.1 hm
    exact hafter m hm (of_decide_eq_true hid)
  have hops := ops_of_new (i := i) hrest fun u hu =>
    Writer.upserts_first happlied hstore (by rwa [ops_of_entity hids, hof])
  have hordered : ∀ m ∈ inOrder (·.1.id) (after.filter (·.2.entityId = i)),
      m.2 = matched lib m.1 (newRecord lib x' i now) := fun m hm => hrest m (mem_inOrder.1 hm)
  have hlast := getLast_ops_matched hordered
  rw [map_inOrder, hothers, ← List.getLast?_map] at hlast
  have hcontent := congrArg List.getLast? hops
  rw [List.getLast?_cons, hlast, List.getLast?_map] at hcontent
  rw [Writer.upserts_content happlied, ops_of_entity hids, hof, hstore, lastWritten, lastChange]
  cases hu : ((inOrder (fun m => m.1.id) ((x', newEntity lib x' i note) ::
      after.filter (·.2.entityId = i))).filterMap (·.2.op)).getLast? with
  | none =>
    rw [hu] at hcontent
    cases hcontent
  | some u =>
    rw [hu] at hcontent
    exact hcontent

/-- **What an entity ends up with** is what the last of its mentions writes. -/
theorem content_after (hids : (extracted.map (·.1.id)).Nodup) (hdistinct : Distinct (poolOf known))
    (hnew : NewIds (poolOf known) extracted)
    (hknown : ∀ e ∈ poolOf known, s.1.getEntity e.id = some e)
    (hfresh : ∀ m ∈ extracted, s.1.getEntity m.2 = none)
    (happlied : w.upserts s
      ((resolveEntities lib choose me now known extracted).filterMap (·.2.op)) = .ok s')
    (hadded : additions lib (poolOf known)
      (mentionPlans lib choose now (poolOf known) extracted) i = some (content, mentions)) :
    (s'.1.getEntity i).map (·.toEntityContent) = some (lastWritten lib content mentions) := by
  unfold additions at hadded
  split at hadded
  · rename_i e he
    cases hadded
    obtain rfl : e.id = i := by simpa using List.find?_some he
    have hmem : e ∈ poolOf known := List.mem_of_find?_eq_some he
    exact content_of_known hids hdistinct hnew (hknown e hmem) hmem happlied
  · rename_i x others hnone hmentions
    cases hadded
    have hi : ∀ e ∈ poolOf known, e.id ≠ i := fun e he heq =>
      List.find?_eq_none.1 hnone e he (decide_eq_true heq)
    have hx : x ∈ ((mentionPlans lib choose now (poolOf known) extracted).filter
        (·.2.entityId = i)).map (·.1) := by
      rw [hmentions]
      exact List.mem_cons_self
    obtain ⟨m, hm, -⟩ := List.mem_map.1 hx
    obtain ⟨hm, hid⟩ := List.mem_filter.1 hm
    rw [decide_eq_true_eq] at hid
    have hstore : s.1.getEntity i = none := by
      rcases entityId_of_plan hdistinct hnew hm with ⟨e, he, heq⟩ | ⟨first, hfirst, heq⟩
      · exact absurd (heq.trans hid) (hi e he)
      · rw [← hid, ← heq]
        exact hfresh first hfirst
    exact content_of_new hids hdistinct hnew hi hstore happlied hmentions
  · cases hadded

end

/-! ## Names that are kept -/

section

variable (lib : TextLib)

/-- A name is the name of an entity or one of its aliases. -/
def IsName (c : EntityContent) (v : String) : Prop := ∃ u ∈ c.name :: c.aliases, Same lib u v

/-- A name is a label of an entity. -/
def IsLabel (c : EntityContent) (v : String) : Prop := ∃ u ∈ c.labels, Same lib u v

/-- The name that a mention says. -/
def saidName (x : ExtractedEntity) : Option String := given ((given x.name).map strip)

/-- **Every contribution is kept**: the names and the aliases of the mentions, and what the entity
was before them. -/
structure Keeps (content : EntityContent) (mentions : List ExtractedEntity) (c : EntityContent) :
    Prop where
  names : ∀ x ∈ mentions, ∀ name ∈ saidName x, IsName lib c name ∨ IsLabel lib c name
  aliases : ∀ x ∈ mentions, ∀ v ∈ newAliases lib x content, IsName lib c v
  before : ∀ v ∈ content.name :: content.aliases, IsName lib c v
  labels : ∀ label ∈ content.labels, IsLabel lib c label

/-- A name is one that the entity had, or the last change gives it. -/
def NamedBy (content : EntityContent) : Option ExtractedEntity → String → Prop
  | none, v => IsName lib content v
  | some l, v => Same lib ((newName lib l content).getD content.name) v ∨
      Survives lib (content.aliases ++ newAliases lib l content) v

/-- So is a label. -/
def LabelledBy (content : EntityContent) : Option ExtractedEntity → String → Prop
  | none, v => IsLabel lib content v
  | some l, v => Survives lib (labelsWith lib l content) v

instance (c : EntityContent) (v : String) : Decidable (IsName lib c v) :=
  inferInstanceAs (Decidable (∃ u ∈ c.name :: c.aliases, Same lib u v))

instance (c : EntityContent) (v : String) : Decidable (IsLabel lib c v) :=
  inferInstanceAs (Decidable (∃ u ∈ c.labels, Same lib u v))

instance (content : EntityContent) : (last : Option ExtractedEntity) → (v : String) →
    Decidable (NamedBy lib content last v)
  | none, v => inferInstanceAs (Decidable (IsName lib content v))
  | some l, v => inferInstanceAs (Decidable (
      Same lib ((newName lib l content).getD content.name) v ∨
        Survives lib (content.aliases ++ newAliases lib l content) v))

instance (content : EntityContent) : (last : Option ExtractedEntity) → (v : String) →
    Decidable (LabelledBy lib content last v)
  | none, v => inferInstanceAs (Decidable (IsLabel lib content v))
  | some l, v => inferInstanceAs (Decidable (Survives lib (labelsWith lib l content) v))

/-- The last change says what all the mentions say, and of the names that no key is left of the
entity had at most one. -/
structure LastSaysAll (content : EntityContent) (mentions : List ExtractedEntity) : Prop where
  names : ∀ x ∈ mentions, ∀ name ∈ saidName x,
    NamedBy lib content (lastChange lib content mentions) name ∨
      LabelledBy lib content (lastChange lib content mentions) name
  aliases : ∀ x ∈ mentions, ∀ v ∈ newAliases lib x content,
    NamedBy lib content (lastChange lib content mentions) v
  unwritten : ∀ v ∈ content.name :: content.aliases, clean lib v = [] →
    NamedBy lib content (lastChange lib content mentions) v
  unwrittenLabels : ∀ label ∈ content.labels, clean lib label = [] →
    LabelledBy lib content (lastChange lib content mentions) label

end

section

variable {content : EntityContent} {mentions : List ExtractedEntity}

theorem isName_lastWritten (hlower : LowerText lib) {v : String} :
    IsName lib (lastWritten lib content mentions) v ↔
      NamedBy lib content (lastChange lib content mentions) v := by
  rw [lastWritten]
  cases lastChange lib content mentions with
  | none => exact Iff.rfl
  | some l =>
    rw [NamedBy, ← unique_keeps hlower]
    exact List.exists_mem_cons_iff _ _ _

theorem isLabel_lastWritten (hlower : LowerText lib) {v : String} :
    IsLabel lib (lastWritten lib content mentions) v ↔
      LabelledBy lib content (lastChange lib content mentions) v := by
  rw [lastWritten]
  cases lastChange lib content mentions with
  | none => exact Iff.rfl
  | some l =>
    rw [LabelledBy, ← unique_keeps hlower]
    exact Iff.rfl

/-- A name with a key stays: where it is replaced it becomes an alias. -/
theorem namedBy_of_key {v : String} (hv : v ∈ content.name :: content.aliases)
    (hkey : clean lib v ≠ []) (last : Option ExtractedEntity) : NamedBy lib content last v := by
  cases last with
  | none => exact ⟨v, hv, .inl rfl⟩
  | some l =>
    have hkept : v ∈ content.aliases ++ newAliases lib l content →
        NamedBy lib content (some l) v := by
      intro hv
      refine .inr ?_
      rw [Survives, if_neg hkey]
      exact ⟨v, hv, rfl⟩
    rcases List.mem_cons.1 hv with rfl | hv
    · cases hname : newName lib l content with
      | none =>
        refine .inl (.inl ?_)
        rw [hname]
        rfl
      | some name =>
        refine hkept (List.mem_append_right _ (List.mem_append_left _ ?_))
        rw [hname]
        exact List.mem_singleton_self _
    · exact hkept (List.mem_append_left _ hv)

/-- So does a label. -/
theorem labelledBy_of_key {v : String} (hv : v ∈ content.labels) (hkey : clean lib v ≠ [])
    (last : Option ExtractedEntity) : LabelledBy lib content last v := by
  cases last with
  | none => exact ⟨v, hv, .inl rfl⟩
  | some l =>
    rw [LabelledBy, Survives, if_neg hkey]
    exact ⟨v, List.mem_append_left _ hv, rfl⟩

/-- What is written last keeps everything if and only if the last change says it. -/
theorem keeps_lastWritten (hlower : LowerText lib) :
    Keeps lib content mentions (lastWritten lib content mentions) ↔
      LastSaysAll lib content mentions := by
  constructor
  · intro h
    refine ⟨fun x hx name hname => ?_, fun x hx v hv => ?_, fun v hv _ => ?_,
      fun label hlabel _ => ?_⟩
    · rw [← isName_lastWritten hlower, ← isLabel_lastWritten hlower]
      exact h.names x hx name hname
    · rw [← isName_lastWritten hlower]
      exact h.aliases x hx v hv
    · rw [← isName_lastWritten hlower]
      exact h.before v hv
    · rw [← isLabel_lastWritten hlower]
      exact h.labels label hlabel
  · intro h
    refine ⟨fun x hx name hname => ?_, fun x hx v hv => ?_, fun v hv => ?_,
      fun label hlabel => ?_⟩
    · rw [isName_lastWritten hlower, isLabel_lastWritten hlower]
      exact h.names x hx name hname
    · rw [isName_lastWritten hlower]
      exact h.aliases x hx v hv
    · rw [isName_lastWritten hlower]
      by_cases hkey : clean lib v = []
      · exact h.unwritten v hv hkey
      · exact namedBy_of_key hv hkey _
    · rw [isLabel_lastWritten hlower]
      by_cases hkey : clean lib label = []
      · exact h.unwrittenLabels label hlabel hkey
      · exact labelledBy_of_key hlabel hkey _

/-- The mention that creates an entity names it. -/
theorem created_name {x : ExtractedEntity} {name : String} (h : name ∈ saidName x) :
    (created lib x).name = name := by
  cases hname : x.name with
  | none =>
    rw [saidName, hname] at h
    cases h
  | some said =>
    have hsaid : given (some (strip said)) = some name := by
      rw [saidName, hname] at h
      by_cases hempty : said = ""
      · subst hempty
        cases h
      · rwa [given_of_ne hempty] at h
    show ownName lib x = name
    rw [ownName, hname, Option.getD_some, hsaid]
    rfl

end

/-- **Contributions are kept** if and only if the last change of each entity says all that its
mentions say. -/
theorem contributions_iff (hlower : LowerText lib) {w : Writer} {known : List EntityRecord}
    {s s' : Tables × Writer.RowLog} (hids : (extracted.map (·.1.id)).Nodup)
    (hdistinct : Distinct (poolOf known)) (hnew : NewIds (poolOf known) extracted)
    (hknown : ∀ e ∈ poolOf known, s.1.getEntity e.id = some e)
    (hfresh : ∀ m ∈ extracted, s.1.getEntity m.2 = none)
    (happlied : w.upserts s
      ((resolveEntities lib choose me now known extracted).filterMap (·.2.op)) = .ok s') :
    (∀ i content mentions, additions lib (poolOf known)
        (mentionPlans lib choose now (poolOf known) extracted) i = some (content, mentions) →
        ∃ e, s'.1.getEntity i = some e ∧ Keeps lib content mentions e.toEntityContent) ↔
      ∀ i content mentions, additions lib (poolOf known)
        (mentionPlans lib choose now (poolOf known) extracted) i = some (content, mentions) →
        LastSaysAll lib content mentions := by
  refine forall₃_congr fun i content mentions => forall_congr' fun hadded => ?_
  have hcontent := content_after hids hdistinct hnew hknown hfresh happlied hadded
  rw [← keeps_lastWritten hlower]
  constructor
  · rintro ⟨e, he, hkeeps⟩
    rw [he] at hcontent
    have hsame : e.toEntityContent = _ := Option.some.inj hcontent
    rwa [hsame] at hkeeps
  · intro hkeeps
    obtain ⟨e, he, heq⟩ := Option.map_eq_some_iff.1 hcontent
    refine ⟨e, he, ?_⟩
    rw [heq]
    exact hkeeps

/-! ## A sister in two mentions, and in three -/

/-- A mention of a sister. -/
def sister (id mention : String) (name label : Option String) : ExtractedEntity where
  id := id
  mention := mention
  name := name
  kind := .person
  label := label

/-- "My sister is coming.  My sister Nisha likes tea." -/
def nisha : List (ExtractedEntity × Uuid) :=
  [(sister "e1" "my sister" none (some "sister"), 11),
    (sister "e2" "my sister Nisha" (some "Nisha") (some "sister"), 12)]

/-- "…  My sister is my roommate." -/
def roommate : List (ExtractedEntity × Uuid) :=
  nisha ++ [(sister "e3" "my sister" none (some "roommate"), 13)]

/-- The user. -/
def theUser : EntityRecord where
  kind := .self
  name := "me"
  id := 0
  createdAt := 0
  updatedAt := 0
  createdByTurnId := none
  updatedByTurnId := none

/-- The turn that saves a message. -/
def saves : Writer where
  backend := .sql
  turn := { turnId := 1, now := 1 }

/-- The rows that it logs. -/
def savesLog : Writer.RowLog where
  seqBase := 0
  op := { body := .upsertEntity 11 { kind := .person, name := "sister" } true }
  seq := 0

theorem distinct_nil : Distinct (poolOf []) := List.Pairwise.nil

/-- What the ops of a message make of the entities of a new store. -/
theorem applied_of_new {mentions : List (ExtractedEntity × Uuid)}
    {s' : Tables × Writer.RowLog} {i : Uuid} {content : EntityContent}
    {others : List ExtractedEntity} (hids : (mentions.map (·.1.id)).Nodup)
    (hnew : (mentions.map (·.2)).Nodup)
    (hfresh : ∀ m ∈ mentions, (Tables.initial 0).getEntity m.2 = none)
    (happlied : saves.upserts (Tables.initial 0, savesLog)
      ((resolveEntities plainText none theUser 0 [] mentions).filterMap (·.2.op)) = .ok s')
    (hadded : additions plainText [] (mentionPlans plainText none 0 [] mentions) i =
      some (content, others)) :
    (s'.1.getEntity i).map (·.toEntityContent) = some (lastWritten plainText content others) :=
  content_after hids distinct_nil ⟨hnew, fun _ _ _ he => absurd he List.not_mem_nil⟩
    (fun _ he => absurd he List.not_mem_nil) hfresh happlied hadded

/-- **Her name is written over** by the mention after it. -/
theorem name_is_overwritten : ∃ s',
    saves.upserts (Tables.initial 0, savesLog)
      ((resolveEntities plainText none theUser 0 [] roommate).filterMap (·.2.op)) = .ok s' ∧
    ¬ ∀ i content mentions, additions plainText (poolOf [])
        (mentionPlans plainText none 0 (poolOf []) roommate) i = some (content, mentions) →
        ∃ e, s'.1.getEntity i = some e ∧ Keeps plainText content mentions e.toEntityContent := by
  have hadded : additions plainText [] (mentionPlans plainText none 0 [] roommate) 11 =
      some (created plainText (sister "e1" "my sister" none (some "sister")),
        [sister "e2" "my sister Nisha" (some "Nisha") (some "sister"),
          sister "e3" "my sister" none (some "roommate")]) := rfl
  obtain ⟨s', happlied⟩ : ∃ s', saves.upserts (Tables.initial 0, savesLog)
      ((resolveEntities plainText none theUser 0 [] roommate).filterMap (·.2.op)) = .ok s' :=
    ⟨_, rfl⟩
  refine ⟨s', happlied, fun hkept => ?_⟩
  obtain ⟨e, he, hkeeps⟩ := hkept 11 _ _ hadded
  have hcontent := applied_of_new (by decide) (by decide) (by decide +kernel) happlied hadded
  rw [he] at hcontent
  have hsame : e.toEntityContent = _ := Option.some.inj hcontent
  have hname := hkeeps.names (sister "e2" "my sister Nisha" (some "Nisha") (some "sister"))
    List.mem_cons_self "Nisha" rfl
  rw [hsame] at hname
  revert hname
  decide +kernel

/-- Where the last mention names her, her name, her label and what she is called are kept. -/
theorem nisha_is_kept : ∃ s',
    saves.upserts (Tables.initial 0, savesLog)
      ((resolveEntities plainText none theUser 0 [] nisha).filterMap (·.2.op)) = .ok s' ∧
    ∃ e, s'.1.getEntity 11 = some e ∧
      Keeps plainText (created plainText (sister "e1" "my sister" none (some "sister")))
        [sister "e2" "my sister Nisha" (some "Nisha") (some "sister")] e.toEntityContent := by
  have hadded : additions plainText [] (mentionPlans plainText none 0 [] nisha) 11 =
      some (created plainText (sister "e1" "my sister" none (some "sister")),
        [sister "e2" "my sister Nisha" (some "Nisha") (some "sister")]) := rfl
  have hone : ∀ m ∈ mentionPlans plainText none 0 [] nisha, m.2.entityId = 11 := by decide +kernel
  obtain ⟨s', happlied⟩ : ∃ s', saves.upserts (Tables.initial 0, savesLog)
      ((resolveEntities plainText none theUser 0 [] nisha).filterMap (·.2.op)) = .ok s' :=
    ⟨_, rfl⟩
  refine ⟨s', happlied, (contributions_iff plainText_lower (by decide) distinct_nil
    ⟨by decide, fun _ _ _ he => absurd he List.not_mem_nil⟩ (fun _ he => absurd he List.not_mem_nil)
    (by decide +kernel) happlied).2 ?_ 11 _ _ hadded⟩
  intro i content mentions hi
  by_cases hid : i = 11
  · subst hid
    cases hi.symm.trans hadded
    refine ⟨?_, ?_, ?_, ?_⟩
    · decide +kernel
    · decide +kernel
    · decide +kernel
    · decide +kernel
  · have hnone : (mentionPlans plainText none 0 [] nisha).filter (·.2.entityId = i) = [] := by
      refine List.filter_eq_nil_iff.2 fun m hm heq => hid ?_
      rw [← hone m hm]
      exact (of_decide_eq_true heq).symm
    have hempty : additions plainText [] (mentionPlans plainText none 0 [] nisha) i = none := by
      unfold additions
      rw [hnone]
      rfl
    cases hi.symm.trans hempty

end Entities

end SecondMind
