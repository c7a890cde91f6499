import SecondMind.Memory.Ops

/-!
# The write policy as a rule table

`policy/rules.py`: `evaluate` runs every rule, each a function that returns a verdict or
none, and the most severe verdict wins (blocked over held over allowed), the rule listed
first winning a tie.
-/

namespace SecondMind
namespace Policy

/-- Op origins that are the user's own action. -/
def userOrigins : List Origin := [.userMessage, .undo, .confirm, .uiEdit]

/-- What content-derived material may still do: store itself and what it mentions. -/
def contentAllowedOps : List WriteOp := [.create, .link, .upsertEntity]

/-- What the policy needs to know about one proposed op. -/
structure OpFacts where
  op : WriteOp
  target : TargetType := .item
  kind : Option Kind := none
  trust : Trust := .userStated
  origin : Origin := .userMessage
  sensitivity : Sensitivity := .normal
  modality : Modality := .asserted
  confidence : Confidence := 1
  coreWrite : Bool := false
  createsTrigger : Bool := false
  editsExisting : Bool := false
  layerOnly : Bool := false
  fillsOwnItem : Bool := false

/-- The turn around the op. -/
structure PolicyContext where
  turnKind : TurnKind := .user
  confirmed : Bool := false
  editedItems : Nat := 0
  bulkThreshold : Nat := 5

def held (ruleId reason : String) : PolicyVerdict := ⟨.held, ruleId, reason⟩

def blocked (ruleId reason : String) : PolicyVerdict := ⟨.blocked, ruleId, reason⟩

abbrev Rule := OpFacts → PolicyContext → Option PolicyVerdict

/-- Secrets (passwords, PINs, one-time codes, API keys) are never stored. -/
def pSecret1 : Rule := fun op _ =>
  if op.sensitivity = .secret then
    some (blocked "P-SECRET-1" "looks like a secret (password, PIN, code or key)")
  else none

/-- Content-derived material is data, never instructions. -/
def pTrust1 : Rule := fun op _ =>
  if op.trust ≠ .contentDerived then none
  else if op.coreWrite then
    some (held "P-TRUST-1" "a core write proposed from content, not from you")
  else if op.op = .update ∧ op.fillsOwnItem ∧ ¬ op.createsTrigger then none
  else if op.kind = some .rule ∨ op.createsTrigger ∨ op.op ∉ contentAllowedOps then
    some (blocked "P-TRUST-1" "content can't change rules, set triggers or edit memory")
  else none

/-- A core write is allowed only when it comes from the user's own message. -/
def pCore1 : Rule := fun op ctx =>
  if op.coreWrite ∧ ¬ ctx.confirmed ∧ op.origin ∉ userOrigins then
    some (held "P-CORE-1" "core writes need your own message or confirmation")
  else none

/-- Sensitive content never reaches core without confirmation, even when user-stated. -/
def pSens1 : Rule := fun op ctx =>
  if op.coreWrite ∧ op.sensitivity = .sensitive ∧ ¬ ctx.confirmed then
    some (held "P-SENS-1" "sensitive, so it goes to core only if you confirm")
  else none

/-- The only kind a hypothetical may be kept as. -/
def hypotheticalKinds : List (Option Kind) := [some .note]

/-- A hypothetical is never stored as if it were true or going to happen, nor in core. -/
def pMod1 : Rule := fun op _ =>
  if op.modality ≠ .hypothetical then none
  else if (op.op = .create ∧ op.kind ∉ hypotheticalKinds) ∨ op.coreWrite then
    some (blocked "P-MOD-1" "hypothetical, so not stored as if it were true")
  else none

/-- Inferred memories (patterns, or low confidence from a system turn) wait for the user. -/
def pInfer1 : Rule := fun op ctx =>
  if ctx.confirmed ∨ op.layerOnly ∨ op.op ∈ [WriteOp.delete, .unlink, .unrelate] then none
  else if (op.kind = some .pattern ∨ (op.confidence.1 < 1 ∧ ctx.turnKind = .system))
      ∧ op.target = .item then
    some (held "P-INFER-1" "inferred, so it waits for your confirmation")
  else none

def bulkReason (ctx : PolicyContext) : String :=
  s!"changes {ctx.editedItems} items (more than {ctx.bulkThreshold}) in one turn"

/-- Deletes, and edits to more than the threshold of items in one turn, need
confirmation. -/
def pBulk1 : Rule := fun op ctx =>
  if ctx.confirmed ∨ op.layerOnly ∨ ¬ op.editsExisting then none
  else if op.op = .delete ∧ op.origin ∉ [Origin.undo, .system] then
    some (held "P-BULK-1" "deleting needs your confirmation")
  else if ctx.editedItems > ctx.bulkThreshold then some (held "P-BULK-1" (bulkReason ctx))
  else none

def pDefault : PolicyVerdict := ⟨.allowed, "P-DEFAULT", "allowed"⟩

/-- `RULES`, in order. -/
def rules : List Rule := [pSecret1, pTrust1, pMod1, pInfer1, pSens1, pCore1, pBulk1]

def severity : PolicyDecision → Nat
  | .allowed => 0
  | .held => 1
  | .blocked => 2

/-- One rule's verdict against the worst one so far. -/
def worse (worst : Option PolicyVerdict) (verdict : Option PolicyVerdict) :
    Option PolicyVerdict :=
  match verdict, worst with
  | none, _ => worst
  | some v, none => some v
  | some v, some w => if severity v.decision > severity w.decision then some v else some w

/-- The verdict for one proposed op: the most severe rule that applies, else the default. -/
def evaluate (op : OpFacts) (ctx : PolicyContext) : PolicyVerdict :=
  ((rules.map fun rule => rule op ctx).foldl worse none).getD pDefault

/-! ## What a verdict says about the rules -/

/-- A rule never speaks up to allow. -/
def Refuses (r : Option PolicyVerdict) : Prop := ∀ v, r = some v → v.decision ≠ .allowed

theorem refuses_none : Refuses none := fun _ hv => nomatch hv

theorem refuses_held (ruleId reason : String) : Refuses (some (held ruleId reason)) := by
  rintro v ⟨⟩
  exact PolicyDecision.noConfusion

theorem refuses_blocked (ruleId reason : String) : Refuses (some (blocked ruleId reason)) := by
  rintro v ⟨⟩
  exact PolicyDecision.noConfusion

theorem refuses_of_mem_rules {rule : Rule} (h : rule ∈ rules) (op : OpFacts)
    (ctx : PolicyContext) : Refuses (rule op ctx) := by
  simp only [rules, List.mem_cons, List.not_mem_nil, or_false] at h
  rcases h with rfl | rfl | rfl | rfl | rfl | rfl | rfl
  · unfold pSecret1
    split <;> first | exact refuses_none | exact refuses_blocked _ _
  · unfold pTrust1
    repeat' split
    all_goals first | exact refuses_none | exact refuses_held _ _ | exact refuses_blocked _ _
  · unfold pMod1
    repeat' split
    all_goals first | exact refuses_none | exact refuses_blocked _ _
  · unfold pInfer1
    repeat' split
    all_goals first | exact refuses_none | exact refuses_held _ _
  · unfold pSens1
    split <;> first | exact refuses_none | exact refuses_held _ _
  · unfold pCore1
    split <;> first | exact refuses_none | exact refuses_held _ _
  · unfold pBulk1
    repeat' split
    all_goals first | exact refuses_none | exact refuses_held _ _

theorem worse_eq_none {w v : Option PolicyVerdict} : worse w v = none ↔ w = none ∧ v = none := by
  cases v <;> cases w <;> simp [worse]
  split <;> simp

theorem foldl_worse_eq_none {w : Option PolicyVerdict} {vs : List (Option PolicyVerdict)} :
    vs.foldl worse w = none ↔ w = none ∧ ∀ v ∈ vs, v = none := by
  induction vs generalizing w with
  | nil => simp
  | cons v vs ih => simp [ih, worse_eq_none, and_assoc]

theorem refuses_worse {w v : Option PolicyVerdict} (hw : Refuses w) (hv : Refuses v) :
    Refuses (worse w v) := by
  intro x hx
  cases v with
  | none => exact hw x hx
  | some v =>
    cases w with
    | none => exact hv x hx
    | some w =>
      simp only [worse] at hx
      split at hx
      · exact hv x hx
      · exact hw x hx

theorem refuses_foldl_worse {w : Option PolicyVerdict} {vs : List (Option PolicyVerdict)}
    (hw : Refuses w) (h : ∀ v ∈ vs, Refuses v) : Refuses (vs.foldl worse w) := by
  induction vs generalizing w with
  | nil => exact hw
  | cons v vs ih =>
    exact ih (refuses_worse hw (h v List.mem_cons_self))
      fun x hx => h x (List.mem_cons_of_mem _ hx)

/-- **An op is allowed exactly when no rule speaks up.** -/
theorem evaluate_allowed_iff {op : OpFacts} {ctx : PolicyContext} :
    (evaluate op ctx).decision = .allowed ↔ ∀ rule ∈ rules, rule op ctx = none := by
  have hmem : (∀ v ∈ rules.map fun rule => rule op ctx, v = none) ↔
      ∀ rule ∈ rules, rule op ctx = none := by simp
  have hrefuses : Refuses ((rules.map fun rule => rule op ctx).foldl worse none) := by
    refine refuses_foldl_worse (fun v hv => by cases hv) ?_
    intro v hv
    obtain ⟨rule, hr, rfl⟩ := List.mem_map.1 hv
    exact refuses_of_mem_rules hr op ctx
  rw [← hmem, evaluate]
  constructor
  · intro h
    cases hfold : (rules.map fun rule => rule op ctx).foldl worse none with
    | none => exact (foldl_worse_eq_none.1 hfold).2
    | some v =>
      rw [hfold, Option.getD_some] at h
      exact absurd h (hrefuses v hfold)
  · intro h
    rw [foldl_worse_eq_none.2 ⟨rfl, h⟩]
    rfl

/-- **A confirmed op** is refused by three rules only, the ones that do not ask whether it was
confirmed. -/
theorem evaluate_confirmed_iff {op : OpFacts} {ctx : PolicyContext} (h : ctx.confirmed = true) :
    (evaluate op ctx).decision = .allowed ↔
      pSecret1 op ctx = none ∧ pTrust1 op ctx = none ∧ pMod1 op ctx = none := by
  have hinfer : pInfer1 op ctx = none := if_pos (.inl h)
  have hsens : pSens1 op ctx = none := if_neg fun hc => hc.2.2 h
  have hcore : pCore1 op ctx = none := if_neg fun hc => hc.2.1 h
  have hbulk : pBulk1 op ctx = none := if_pos (.inl h)
  rw [evaluate_allowed_iff]
  simp [rules, hinfer, hsens, hcore, hbulk]

/-- No rule speaks up about a trigger's state, in a turn that edits few items. -/
theorem evaluate_trigger {op : OpFacts} {ctx : PolicyContext} (hop : op.op = .setState)
    (htarget : op.target = .trigger) (htrust : op.trust = .userStated)
    (hsens : op.sensitivity = .normal) (hmod : op.modality = .asserted) (hkind : op.kind = none)
    (hcore : op.coreWrite = false) (hfew : ctx.editedItems ≤ ctx.bulkThreshold) :
    (evaluate op ctx).decision = .allowed := by
  rw [evaluate_allowed_iff]
  simp [rules, pSecret1, pTrust1, pMod1, pInfer1, pSens1, pCore1, pBulk1, hop, htarget, htrust,
    hsens, hmod, hkind, hcore, hfew]

/-- No rule speaks up about an op that only places an item which is no secret. -/
theorem evaluate_layerOnly {op : OpFacts} {ctx : PolicyContext} (hop : op.op = .update)
    (hlayer : op.layerOnly = true) (htrust : op.trust = .userStated)
    (hsens : op.sensitivity ≠ .secret) (hcore : op.coreWrite = false) :
    (evaluate op ctx).decision = .allowed := by
  rw [evaluate_allowed_iff]
  simp [rules, pSecret1, pTrust1, pMod1, pInfer1, pSens1, pCore1, pBulk1, hop, hlayer, htrust,
    hsens, hcore]

end Policy
end SecondMind
