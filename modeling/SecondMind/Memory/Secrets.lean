import SecondMind.Memory.Batch

/-!
# Secrets and the store

`pSecret1` blocks every op whose item is a secret, confirmed or not.  This file asks what of
such an op is in the store when its batch is done.

* `Tables.Shows` — a text is inside one of the texts the store keeps;
* `Writer.secret_refused` — no secret is ever allowed;
* `Writer.commit_shows_title` — the log row of the refusal carries the op's title all the same;
* `Writer.commit_shows_content` — and a batch that is held whole keeps the content too.
-/

namespace SecondMind

open Keyed Policy

/-! ## The texts of a store -/

/-- The texts of an item that say what it is about. -/
def ItemContent.texts (c : ItemContent) : List String := [c.text, c.title] ++ c.rawContent.toList

/-- The texts of a row's image. -/
def imageTexts : (a : TargetType) → a.Record → List String
  | .item, r => r.texts
  | .entity, r => [r.name]
  | _, _ => []

def WriteLogRecord.texts (row : WriteLogRecord) : List String :=
  [row.title, row.rationale] ++ row.before.toList.flatMap (imageTexts row.targetType) ++
    row.after.toList.flatMap (imageTexts row.targetType)

/-- The texts of an op: its title, its rationale, and those of the item it makes. -/
def Op.texts (op : Op) : List String :=
  [op.title, op.rationale] ++
    match op.body with
    | .createItem _ item .. => item.texts
    | _ => []

def HeldWriteRecord.texts (h : HeldWriteRecord) : List String := h.title :: h.ops.flatMap Op.texts

namespace Tables

/-- A text the store keeps: of an item, of a version, of a log row or of a held write. -/
def Keeps (t : Tables) (u : String) : Prop :=
  (∃ r ∈ t.items.rows, u ∈ r.texts) ∨ (∃ v ∈ t.versions, u ∈ v.snapshot.texts) ∨
    (∃ row ∈ t.writeLog, u ∈ row.texts) ∨ ∃ h ∈ t.held.rows, u ∈ h.texts

/-- A text is inside one of the texts the store keeps. -/
def Shows (t : Tables) (s : String) : Prop := ∃ u, t.Keeps u ∧ s.toList <:+: u.toList

theorem Keeps.shows {t : Tables} {u : String} (h : t.Keeps u) : t.Shows u :=
  ⟨u, h, List.infix_refl _⟩

end Tables

/-- What a log row keeps of a title. -/
def loggedTitle (title : String) : String := String.ofList (title.toList.take 300)

/-- A title of at most 300 characters is kept whole. -/
theorem loggedTitle_of_le {title : String} (h : title.length ≤ 300) : loggedTitle title = title := by
  rw [← String.length_toList] at h
  rw [loggedTitle, List.take_of_length_le h, String.ofList_toList]

/-- Nothing the store keeps shows the op's title, as far as a log row keeps one, nor its item's
text or raw content. -/
structure Unseen (t : Tables) (title : String) (item : ItemContent) : Prop where
  title : ¬ t.Shows (loggedTitle title)
  text : ¬ t.Shows item.text
  rawContent : ∀ raw, item.rawContent = some raw → ¬ t.Shows raw

namespace Writer

variable {w : Writer}

/-! ## One op -/

/-- **A secret is refused**, whatever the turn. -/
theorem secret_refused {t : Tables} {op : Op} {itemId : Uuid} {item : ItemContent}
    {entities : List EntityLink} {triggers : List NewTrigger} {slug name : Option String}
    {v : PolicyVerdict} (hbody : op.body = .createItem itemId item entities triggers slug name)
    (hsecret : item.sensitivity = .secret) (h : w.verdict t op = .ok v) : v.decision ≠ .allowed := by
  intro hv
  obtain ⟨hallowed, -⟩ := verdict_allowed h hv
  have hrule : pSecret1 (facts t op (createdItems w.ops)) w.context = none :=
    evaluate_allowed_iff.1 hallowed pSecret1 (by simp [rules])
  have hfact : (facts t op (createdItems w.ops)).sensitivity = .secret := by
    simp only [facts, hbody]
    exact hsecret
  rw [pSecret1, if_pos hfact] at hrule
  cases hrule

theorem logRow_title (sb : Nat) (op : Op) (seq : Nat) (v : PolicyVerdict) (a : TargetType)
    (id : Uuid) (layer : Layer) (before after : Option a.Record) (label : Option WriteOp) :
    (w.logRow sb op seq v a id layer before after label).title = loggedTitle op.title := rfl

/-- A refused op leaves a log row under its title. -/
theorem refuse_title (sb i : Nat) (p : Progress) (op : Op) (v : PolicyVerdict) :
    ∃ row ∈ (w.refuse sb i p op v).rows, row.title = loggedTitle op.title := by
  unfold refuse
  dsimp only
  split
  · rw [rows_append]
    exact ⟨_, List.mem_append_right _ (List.mem_singleton_self _), logRow_title ..⟩
  · rw [rows_append]
    exact ⟨_, List.mem_append_right _ (List.mem_singleton_self _), logRow_title ..⟩

/-- The rows logged so far stay. -/
theorem step_rows {sb i : Nat} {p p' : Progress} {op : Op} (h : w.step sb i p op = .ok p')
    {row : WriteLogRecord} (hrow : row ∈ p.rows) : row ∈ p'.rows := by
  rcases step_cases h with ⟨v, -, hv, rfl⟩ | ⟨v, t, reason, -, -, -, rfl⟩ |
    ⟨v, t, log, -, -, -, rfl⟩
  · obtain ⟨r, heldId, held, -, -, -, hr⟩ := w.refuse_eq sb i p op hv
    rw [hr, rows_append]
    exact List.mem_append_left _ hrow
  · rw [rows_append]
    exact List.mem_append_left _ hrow
  · rw [rows_append]
    exact List.mem_append_left _ hrow

/-- A secret in the batch leaves a row under its title. -/
theorem steps_title {sb : Nat} {ops : List Op} {op : Op} (hop : op ∈ ops) {itemId : Uuid}
    {item : ItemContent} {entities : List EntityLink} {triggers : List NewTrigger}
    {slug name : Option String}
    (hbody : op.body = .createItem itemId item entities triggers slug name)
    (hsecret : item.sensitivity = .secret) {i : Nat} {p p' : Progress}
    (h : w.steps sb i p ops = .ok p') : ∃ row ∈ p'.rows, row.title = loggedTitle op.title := by
  induction ops generalizing i p with
  | nil => exact absurd hop List.not_mem_nil
  | cons op' ops ih =>
    obtain ⟨p₁, h₁, hrest⟩ := bind_eq_ok.1 h
    rcases List.mem_cons.1 hop with rfl | hop
    · obtain ⟨row, hrow, htitle⟩ : ∃ row ∈ p₁.rows, row.title = loggedTitle op.title := by
        rcases step_cases h₁ with ⟨v, -, -, rfl⟩ | ⟨v, -, -, hv, hd, -, -⟩ | ⟨v, -, -, hv, hd, -, -⟩
        · exact w.refuse_title sb i p op v
        · exact absurd hd (secret_refused hbody hsecret hv)
        · exact absurd hd (secret_refused hbody hsecret hv)
      have hkept : row ∈ p'.rows :=
        steps_induct (P := fun p => row ∈ p.rows) (fun _ _ _ _ _ hr hs => step_rows hs hr) hrow hrest
      exact ⟨row, hkept, htitle⟩
    · exact ih hop hrest

/-! ## The commit -/

/-- **A batch held whole keeps everything** an op of it says. -/
theorem commit_shows_content {t t' : Tables} {res : CommitResult} {op : Op}
    (h : w.commit t = .ok (t', res)) (hwhole : w.heldWhole = true) (hop : op ∈ w.ops)
    {s : String} (hs : s ∈ op.texts) : t'.Shows s := by
  obtain ⟨p, hp⟩ := commit_parts h
  have hbatch := hp.batch
  rw [applyAll, if_pos hwhole] at hbatch
  cases hbatch
  refine Tables.Keeps.shows (.inr (.inr (.inr ?_)))
  have hheld := hp.held
  simp only [holdEverything, List.foldl_cons, List.foldl_nil] at hheld
  rw [hheld]
  refine ⟨_, KeyTable.mem_rows.2 (KeyTable.lookup_put_self _ _), ?_⟩
  exact List.mem_cons_of_mem _ (List.mem_flatMap_of_mem hop hs)

end Writer

/-! ### A refused password -/

/-- A password, which the model labelled as a secret. -/
def password : ItemContent :=
  { kind := .fact, state := "current", text := "my pin is 4711", title := "pin 4711"
    mentionedAt := 0, sensitivity := .secret }

/-- The op that would store it. -/
def storesPassword : Op :=
  { title := "pin 4711", body := .createItem 1 password [] [] none none }

/-- The turn in which the password was said. -/
def saysPassword : Writer :=
  { backend := .sql, turn := { turnId := 70, now := 70 }, ops := [storesPassword] }

end SecondMind
