import SecondMind.Agent.Turn

/-!
# Secrets that are labelled late

The extraction labels secret spans in the middle of a turn, when calls of the turn have been
recorded already.  `_run` takes the spans over at the end of the graph, and redacts the stored
input, the generations and the input of the trace with them.

* `Finished.Forgets` — no labelled span outlives the turn;
* `only_opened` — the graph neither redacts nor hands spans over, whatever it does;
* `Turn.Scrubbed` — the graph comes to its end, the redacted input is stored, and the redaction
  takes the spans out; or the turn stops before, and none of them is to be seen;
* `late_secrets_forgotten_iff` — exactly then no span outlives the turn.
-/

namespace SecondMind
namespace Agent

open Links Texts JsonText Steps

/-! ## What shows a span -/

/-- The span stands in the text, or in a string of the JSON that it is. -/
def InText (u text : List Char) : Prop :=
  u <:+: text ∨ ∃ depth strings, loads depth text = some strings ∧
    ∃ w ∈ strings, u.map Char.toNat <:+: w

def Generation.Shows (g : Generation) (u : List Char) : Prop :=
  (match g.prompt with
    | .object input => Said input u
    | .text dumped => InText u dumped) ∨ InText u g.output

/-- No labelled span is in the stored input, or in what the trace was sent. -/
def Finished.Forgets (f : Finished) : Prop :=
  ∀ u ∈ f.labelled, ¬ u <:+: f.storedInput ∧ ¬ u <:+: f.tracedInput ∧
    (∀ reply ∈ f.output, ¬ u <:+: reply.toList) ∧ ∀ g ∈ f.sent, ¬ g.Shows u

theorem Generation.sent_nil (order : ∀ values, RedactionOrder values) (g : Generation) :
    g.sent order [] = g := rfl

/-! ## Inside the graph -/

/-- The steps of the graph. -/
def Act.Inside : Act → Prop
  | .close _ | .redactInput => False
  | _ => True

abbrev Inside {α : Type} (x : Run α) : Prop := Raising.Only Act.Inside x

theorem inside_perform {a : Act} (h : a.Inside) : Inside (Raising.perform a) :=
  Raising.only_perform h

theorem inside_ask (call : ModelCall) : Inside call.ask :=
  Raising.only_bind (inside_perform trivial) fun _ =>
    Raising.only_bind (inside_perform trivial) fun _ => Raising.only_pure _

theorem inside_askAll (asked : List Asked) : Inside (askAll asked) := by
  induction asked with
  | nil => exact Raising.only_pure _
  | cons a asked ih =>
    refine Raising.only_bind ?_ fun _ => ih
    unfold Asked.ask
    split
    · refine Raising.only_tryCatch (inside_ask _) fun e => ?_
      cases e
      · exact Raising.only_pure _
      all_goals exact Raising.only_throw _
    · exact inside_ask _

theorem inside_addSources (backend : Backend) (sources : List LinkSource) :
    Inside (addSources backend sources) := by
  induction sources with
  | nil => exact Raising.only_pure _
  | cons source sources ih => exact Raising.only_bind (inside_perform trivial) fun _ => ih

theorem inside_saveLinks (saver : LinkSaver) (message : List Char) :
    Inside (saveLinks saver message) := by
  unfold saveLinks
  split
  · exact Raising.only_pure _
  · refine Raising.only_bind (inside_perform trivial) fun w => ?_
    split
    · exact Raising.only_throw _
    · exact Raising.only_pure _
    · split
      · refine Raising.only_bind (inside_perform trivial) fun _ => ?_
        refine Raising.only_bind (inside_perform trivial) fun _ => ?_
        refine Raising.only_bind (inside_addSources _ _) fun _ => ?_
        exact Raising.only_bind (inside_perform trivial) fun _ => Raising.only_pure _
      · exact Raising.only_bind (inside_perform trivial) fun _ => Raising.only_pure _

theorem inside_extract (i : Ingest) : Inside i.extract := by
  refine Raising.only_bind (inside_ask _) fun _ => ?_
  split
  · exact Raising.only_pure _
  · refine Raising.only_bind (inside_ask _) fun _ => ?_
    split
    · exact Raising.only_pure _
    · exact Raising.only_throw _

theorem inside_finish (i : Ingest) (s : Save) (values : List (List Char)) :
    Inside (i.finish s values) := by
  refine Raising.only_bind (inside_perform trivial) fun w => ?_
  split
  · exact Raising.only_throw _
  · refine Raising.only_bind (inside_perform trivial) fun _ => ?_
    refine Raising.only_bind (inside_perform trivial) fun _ => ?_
    split
    · exact Raising.only_pure _
    · refine Raising.only_bind (inside_askAll _) fun _ => ?_
      exact Raising.only_bind (inside_perform trivial) fun _ => Raising.only_pure _

theorem inside_ingestion (i : Ingest) (secretFound : Bool) : Inside (i.run secretFound) := by
  unfold Ingest.run
  split
  · exact inside_finish _ _ _
  · refine Raising.only_bind (inside_extract i) fun out => ?_
    split
    · exact inside_finish _ _ _
    · exact Raising.only_bind (inside_askAll _) fun _ => inside_finish _ _ _

theorem inside_recall (r : Recall) (now : Instant) : Inside (r.run now) := by
  refine Raising.only_bind (inside_askAll _) fun _ => ?_
  refine Raising.only_bind (inside_perform trivial) fun _ => ?_
  dsimp only
  split
  · exact Raising.only_bind (inside_perform trivial) fun _ => Raising.only_pure _
  · exact Raising.only_pure _

theorem inside_commit (c : Correction) : Inside c.commit := by
  unfold Correction.commit
  split
  · refine Raising.only_bind (inside_perform trivial) fun _ => ?_
    refine Raising.only_bind (inside_perform trivial) fun _ => ?_
    refine Raising.only_bind (inside_askAll _) fun _ => ?_
    exact Raising.only_bind (inside_perform trivial) fun _ => Raising.only_pure _
  · exact Raising.only_pure _

section

variable (t : Turn)

theorem inside_understand : Inside t.understand := by
  unfold Turn.understand
  split
  · exact Raising.only_bind (inside_perform trivial) fun _ => Raising.only_pure _
  · exact Raising.only_bind (inside_perform trivial) fun _ => Raising.only_pure _
  · exact Raising.only_bind (inside_perform trivial) fun _ => Raising.only_pure _
  · refine Raising.only_bind (inside_ask _) fun _ => ?_
    exact Raising.only_bind (inside_perform trivial) fun _ => Raising.only_pure _

theorem inside_save (message : List Char) : Inside (t.save message) :=
  Raising.only_bind (inside_perform trivial) fun _ => inside_ingestion _ _

theorem inside_saveRest (saved : Option LinkSaveResult) : Inside (t.saveRest saved) := by
  cases saved with
  | none => exact inside_save t _
  | some links =>
    rw [Turn.saveRest]
    split
    · exact Raising.only_pure _
    · exact Raising.only_bind (inside_save t _) fun _ => Raising.only_pure _

theorem inside_ingest : Inside t.ingest := by
  refine Raising.only_bind ?_ fun saved => ?_
  · unfold Turn.saveItsLinks
    split
    · exact inside_saveLinks _ _
    · exact Raising.only_pure _
  · refine Raising.only_bind (inside_saveRest t saved) fun _ => ?_
    exact Raising.only_bind (inside_perform trivial) fun _ => Raising.only_pure _

theorem inside_recallNode (before : String) : Inside (t.recallNode before) := by
  refine Raising.only_bind (inside_perform trivial) fun w => ?_
  exact Raising.only_bind (inside_recall _ _) fun _ => Raising.only_pure _

theorem inside_correct : Inside t.correct := by
  refine Raising.only_bind (inside_perform trivial) fun w => ?_
  split
  · exact Raising.only_bind (inside_commit _) fun _ => Raising.only_pure _
  · refine Raising.only_bind (inside_askAll _) fun _ => ?_
    split
    · exact Raising.only_pure _
    · exact Raising.only_bind (inside_commit _) fun _ => Raising.only_pure _

theorem inside_triggers : Inside t.triggers := by
  refine Raising.only_bind (inside_perform trivial) fun w => ?_
  have hrest : ∀ found : Matches, Inside (t.fire w found) := by
    intro found
    unfold Turn.fire
    split
    · exact Raising.only_pure _
    · refine Raising.only_bind (inside_perform trivial) fun _ => ?_
      exact Raising.only_bind (inside_perform trivial) fun _ => Raising.only_pure _
  split
  · exact hrest _
  · exact Raising.only_bind (inside_askAll _) fun _ => hrest _

theorem inside_route (intent : Intent) : Inside (t.route intent) := by
  cases intent with
  | save => exact inside_ingest t
  | saveAndRecall =>
    refine Raising.only_bind (inside_ingest t) fun saved => ?_
    exact Raising.only_bind (inside_recallNode t _) fun _ => Raising.only_pure _
  | «recall» => exact Raising.only_bind (inside_recallNode t _) fun _ => Raising.only_pure _
  | correct =>
    refine Raising.only_bind (inside_correct t) fun reply => ?_
    cases reply with
    | some reply => exact Raising.only_pure _
    | none => exact inside_ingest t
  | chitChat =>
    refine Raising.only_bind ?_ fun _ => Raising.only_pure _
    exact Raising.only_bind (inside_ask _) fun _ => Raising.only_pure _

/-- **The graph keeps to itself**: it hands no span over, and it redacts nothing. -/
theorem inside_opened : Inside t.opened := by
  refine Raising.only_bind (inside_perform trivial) fun _ => ?_
  refine Raising.only_bind (inside_understand t) fun intent => ?_
  refine Raising.only_bind (inside_route t intent) fun outcome => ?_
  exact Raising.only_bind (inside_triggers t) fun note => Raising.only_pure _

end

/-! ## The end of a turn -/

section

variable {order : ∀ values, RedactionOrder values} {input : List Char}
  {faults : Nat → Option Stop}

/-- Inside the graph no span was handed over, and the stored input is the message. -/
structure Untold (input : List Char) (w : World) : Prop where
  storedInput : w.storedInput = input
  secretValues : w.secretValues = []
  redactedInput : w.redactedInput = none

theorem untold_exec {a : Act} {w w' : World} (ha : a.Inside)
    (h : exec order input a w = .ok w') (hw : Untold input w) : Untold input w' := by
  cases a with
  | close | redactInput => exact ha.elim
  | commit writer =>
    dsimp only [exec] at h
    split at h
    · cases h
    · cases h
      exact ⟨hw.storedInput, hw.secretValues, hw.redactedInput⟩
  | addSource backend source =>
    dsimp only [exec] at h
    split at h
    · cases h
    · cases h
      exact ⟨hw.storedInput, hw.secretValues, hw.redactedInput⟩
  | wait | answer | record | recordAccess =>
    cases h
    exact ⟨hw.storedInput, hw.secretValues, hw.redactedInput⟩

variable {n : Nat} {w : World} {outcome : IngestOutcome}

/-- What the hook for renamed entities raises. -/
def afterHook (faults : Nat → Option Stop) (n : Nat) (reply : String) : Except Stop String :=
  if faults n = some .cancelled then .error .cancelled else .ok reply

theorem run_renamed (reply : String) (n : Nat) (w : World) :
    Program.run (exec order input) faults
        (ExceptT.run (do Turn.renamed; return reply : Run String)) n w =
      ⟨afterHook faults n reply, n + 1, w⟩ := by
  refine (Program.run_act (exec order input) faults Act.wait _ n w).trans ?_
  unfold afterHook
  cases hfault : faults n with
  | none =>
    rw [Program.attempt_of_none hfault, if_neg (by simp)]
    rfl
  | some e =>
    rw [Program.attempt_of_fault hfault]
    cases e <;> rfl

/-- The world once the spans are handed over. -/
def World.told (w : World) (order : ∀ values, RedactionOrder values) (input : List Char)
    (values : List (List Char)) : World :=
  { w with
    secretValues := values
    redactedInput := if values = [] then none else some (redactValues input (order values)) }

/-- The world once the input is redacted. -/
def World.redacted (w : World) (order : ∀ values, RedactionOrder values) (input : List Char)
    (values : List (List Char)) : World :=
  { w.told order input values with storedInput := redactValues input (order values) }

theorem run_close_stopped {e : Stop} (h : faults n = some e) :
    Program.run (exec order input) faults (Turn.close outcome).run n w =
      ⟨.error e, n + 1, w⟩ := by
  have hrun := Raising.run_perform (exec order input) faults
    (.close outcome.secretValues) n w
  rw [Program.attempt_of_fault h] at hrun
  refine (Raising.run_bind_error _ (congrArg Ending.value hrun)).trans ?_
  rw [hrun]
  rfl

theorem run_close (h : faults n = none) :
    Program.run (exec order input) faults (Turn.close outcome).run n w =
      Program.run (exec order input) faults
        (ExceptT.run (do
          Turn.redactStored (w.told order input (outcome.secretValues ++ w.secrets))
          Turn.renamed
          return outcome.reply : Run String))
        (n + 1) (w.told order input (outcome.secretValues ++ w.secrets)) := by
  have hrun := Raising.run_perform (exec order input) faults
    (.close outcome.secretValues) n w
  rw [Program.attempt_of_none h] at hrun
  refine (Raising.run_bind_ok _ (congrArg Ending.value hrun)).trans ?_
  rw [hrun]
  rfl

/-- No span is known: nothing is redacted. -/
theorem run_unredacted {w' : World} (h : w'.secretValues = []) (reply : String) :
    Program.run (exec order input) faults
        (ExceptT.run (do Turn.redactStored w'; Turn.renamed; return reply : Run String)) n w =
      ⟨afterHook faults n reply, n + 1, w⟩ := by
  rw [Turn.redactStored, if_pos h]
  exact run_renamed reply n w

theorem run_redactStored {w' : World} (h : w'.secretValues ≠ []) :
    Program.run (exec order input) faults (Turn.redactStored w').run n w =
      ⟨(Program.attempt (exec order input) faults n .redactInput w).map fun _ => (), n + 1,
        Program.after w (Program.attempt (exec order input) faults n .redactInput w)⟩ := by
  rw [Turn.redactStored, if_neg h]
  cases hfault : faults n with
  | some e =>
    have hrun := Raising.run_perform (exec order input) faults .redactInput n w
    rw [Program.attempt_of_fault hfault] at hrun ⊢
    refine (Raising.run_bind_error _ (congrArg Ending.value hrun)).trans ?_
    rw [hrun]
    rfl
  | none =>
    have hrun := Raising.run_perform (exec order input) faults .redactInput n w
    rw [Program.attempt_of_none hfault] at hrun ⊢
    refine (Raising.run_bind_ok _ (congrArg Ending.value hrun)).trans ?_
    rw [hrun]
    rfl

/-- The redacted input is not stored. -/
theorem run_unstored {w' : World} (h : w'.secretValues ≠ []) {e : Stop} (hfault : faults n = some e)
    (reply : String) :
    Program.run (exec order input) faults
        (ExceptT.run (do Turn.redactStored w'; Turn.renamed; return reply : Run String)) n w =
      ⟨.error e, n + 1, w⟩ := by
  have hrun : Program.run (exec order input) faults (Turn.redactStored w').run n w = _ :=
    run_redactStored h
  rw [Program.attempt_of_fault hfault] at hrun
  refine (Raising.run_bind_error _ (congrArg Ending.value hrun)).trans ?_
  rw [hrun]
  rfl

/-- The redacted input is stored. -/
theorem run_stored {values : List (List Char)} (h : values ≠ []) (hfault : faults n = none)
    (reply : String) :
    Program.run (exec order input) faults
        (ExceptT.run (do
          Turn.redactStored (w.told order input values)
          Turn.renamed
          return reply : Run String))
        n (w.told order input values) =
      ⟨afterHook faults (n + 1) reply, n + 2, w.redacted order input values⟩ := by
  have hrun : Program.run (exec order input) faults
      (Turn.redactStored (w.told order input values)).run n (w.told order input values) = _ :=
    run_redactStored h
  have hredacted : Program.attempt (exec order input) faults n .redactInput
      (w.told order input values) = .ok (w.redacted order input values) := by
    rw [Program.attempt_of_none hfault]
    simp only [exec, World.told, World.redacted, if_neg h, Option.getD_some]
  rw [hredacted] at hrun
  refine (Raising.run_bind_ok _ (congrArg Ending.value hrun)).trans ?_
  rw [hrun]
  exact run_renamed reply (n + 1) _

end

/-! ## When the spans are forgotten -/

namespace Turn

variable (t : Turn) (faults : Nat → Option Stop) (start : LinkTables)

/-- The end of the graph. -/
def graphEnd : Ending World (Except Stop IngestOutcome) :=
  t.opened.run.run (exec t.order t.input) faults 0 (t.opening start)

/-- No labelled span is in the message or in what was recorded. -/
def Bare (w : World) : Prop :=
  ∀ u ∈ w.secrets, ¬ u <:+: t.input ∧ ∀ g ∈ w.generations, ¬ g.Shows u

/-- The redaction of these values leaves no labelled span in the message or in what was
recorded. -/
def Cleans (values : List (List Char)) (w : World) : Prop :=
  ∀ u ∈ w.secrets, ¬ u <:+: redactValues t.input (t.order values) ∧
    ∀ g ∈ w.generations, ¬ (g.sent t.order values).Shows u

/-- The turn is cancelled or its end cannot be stored, with its input redacted already. -/
def StopsLate (n : Nat) : Prop := faults n = some .cancelled ∨ t.finishFails = true

/-- The spans come too late for what is stopped before the end of the graph; behind it they are
taken out, if the redacted input is stored, the redaction finds them, and the reply is without
them. -/
def Scrubbed : Prop :=
  let e := t.graphEnd faults start
  match e.value with
  | .error _ => t.Bare e.world
  | .ok outcome =>
    if faults e.steps = none then
      t.Cleans (outcome.secretValues ++ e.world.secrets) e.world ∧
        ∀ u ∈ e.world.secrets, (u <:+: t.input → faults (e.steps + 1) = none) ∧
          (faults (e.steps + 1) = none → u <:+: outcome.reply.toList →
            t.StopsLate faults (e.steps + 2))
    else t.Bare e.world

variable {t faults start}

theorem untold (t : Turn) (faults : Nat → Option Stop) (start : LinkTables) :
    Untold t.input (t.graphEnd faults start).world :=
  Program.run_keeps (fun _ _ _ => untold_exec) (inside_opened t) ⟨rfl, rfl, rfl⟩

/-- A turn that the spend gate stopped asks no model. -/
theorem labelled_of_blocked {reply : String} (h : t.blocked = some reply) :
    (t.finished faults start).labelled = [] := by
  have honly : Raising.Only (fun a : Act => ∀ call, a ≠ .answer call) t.body := by
    unfold body
    rw [h]
    exact Raising.only_bind (Raising.only_perform (by simp)) fun _ => Raising.only_pure _
  refine @Program.run_keeps Act World Stop _ _ _ _ (fun w => w.secrets = []) ?_ _ honly _ _ rfl
  intro a w w' ha hexec hw
  cases a with
  | answer call => exact absurd rfl (ha call)
  | commit | addSource =>
    dsimp only [exec] at hexec
    split at hexec
    · cases hexec
    · cases hexec
      exact hw
  | wait | record | recordAccess | close | redactInput =>
    cases hexec
    exact hw

/-- What is left of a turn that stops before the spans are handed over. -/
theorem forgets_of_stopped {e : Stop} {n : Nat} {w : World}
    (h : t.ran faults start = ⟨.error e, n, w⟩) (hw : Untold t.input w) :
    (t.finished faults start).Forgets ↔ t.Bare w := by
  unfold Finished.Forgets finished Bare
  rw [h]
  simp only [hw.storedInput, hw.redactedInput, hw.secretValues, Option.getD_none,
    Generation.sent_nil, List.map_id']
  refine forall₂_congr fun u _ => ⟨fun hu => ⟨hu.1, hu.2.2.2⟩, fun hu => ⟨hu.1, hu.1, ?_, hu.2⟩⟩
  exact fun reply hreply => absurd hreply (by simp)

/-- What is left of a turn behind its graph, with spans that were handed over. -/
theorem forgets_of_told {value : Except Stop String} {n : Nat} {w w' : World}
    {values : List (List Char)} (h : t.ran faults start = ⟨value, n, w'⟩)
    (hsecrets : w'.secrets = w.secrets) (hgenerations : w'.generations = w.generations)
    (hvalues : w'.secretValues = values)
    (htraced : w'.redactedInput = some (redactValues t.input (t.order values))) :
    (t.finished faults start).Forgets ↔ t.Cleans values w ∧
      ∀ u ∈ w.secrets, ¬ u <:+: w'.storedInput ∧
        ∀ reply, value = .ok reply → t.finishFails = false → ¬ u <:+: reply.toList := by
  have houtput : ∀ reply, reply ∈ (t.finished faults start).output ↔
      value = .ok reply ∧ t.finishFails = false := by
    intro reply
    unfold finished
    rw [h]
    cases value with
    | error e => simp
    | ok answer => cases hfinish : t.finishFails <;> simp
  unfold Finished.Forgets
  simp only [houtput]
  unfold finished
  rw [h]
  simp only [hsecrets, hgenerations, hvalues, htraced, Option.getD_some, List.forall_mem_map]
  constructor
  · intro hall
    refine ⟨fun u hu => ⟨(hall u hu).2.1, (hall u hu).2.2.2⟩, fun u hu => ?_⟩
    exact ⟨(hall u hu).1, fun reply hvalue hfinish => (hall u hu).2.2.1 reply ⟨hvalue, hfinish⟩⟩
  · rintro ⟨hcleans, hall⟩ u hu
    obtain ⟨htraced, hsent⟩ := hcleans u hu
    obtain ⟨hstored, hreply⟩ := hall u hu
    exact ⟨hstored, htraced, fun reply hreply' => hreply reply hreply'.1 hreply'.2, hsent⟩

/-- A turn that labelled nothing has nothing to forget. -/
theorem forgets_of_none (h : (t.finished faults start).labelled = []) :
    (t.finished faults start).Forgets := by
  intro u hu
  rw [h] at hu
  exact absurd hu List.not_mem_nil

/-- What is left of a turn whose graph came to its end. -/
theorem forgets_of_ended {outcome : IngestOutcome} {n : Nat} {w : World}
    (h : t.ran faults start =
      Program.run (exec t.order t.input) faults
        (ExceptT.run (do
          redactStored (w.told t.order t.input (outcome.secretValues ++ w.secrets))
          renamed
          return outcome.reply : Run String))
        (n + 1) (w.told t.order t.input (outcome.secretValues ++ w.secrets)))
    (hw : Untold t.input w) :
    (t.finished faults start).Forgets ↔ t.Cleans (outcome.secretValues ++ w.secrets) w ∧
      ∀ u ∈ w.secrets, (u <:+: t.input → faults (n + 1) = none) ∧
        (faults (n + 1) = none → u <:+: outcome.reply.toList → t.StopsLate faults (n + 2)) := by
  by_cases hnil : outcome.secretValues ++ w.secrets = []
  · -- nothing was labelled, and nothing is redacted
    have hsecrets : w.secrets = [] := (List.append_eq_nil_iff.1 hnil).2
    have hlabelled : (t.finished faults start).labelled = [] := by
      unfold finished
      rw [h, run_unredacted hnil]
      exact hsecrets
    refine iff_of_true (forgets_of_none hlabelled) ⟨fun u hu => ?_, fun u hu => ?_⟩
    all_goals
      rw [hsecrets] at hu
      exact absurd hu List.not_mem_nil
  have hredacted : (w.told t.order t.input (outcome.secretValues ++ w.secrets)).redactedInput =
      some (redactValues t.input (t.order (outcome.secretValues ++ w.secrets))) := if_neg hnil
  have hstored : (w.told t.order t.input (outcome.secretValues ++ w.secrets)).storedInput =
      t.input := hw.storedInput
  cases hstore : faults (n + 1) with
  | some e =>
    rw [run_unstored hnil hstore] at h
    rw [forgets_of_told (w := w) h rfl rfl rfl hredacted, hstored]
    refine and_congr_right fun _ => forall₂_congr fun u _ => ?_
    constructor
    · intro hu
      exact ⟨fun hin => absurd hin hu.1, fun hnone => absurd hnone (Option.some_ne_none e)⟩
    · intro hu
      exact ⟨fun hin => absurd (hu.1 hin) (Option.some_ne_none e),
        fun reply hvalue => absurd hvalue (by simp)⟩
  | none =>
    rw [run_stored hnil hstore] at h
    rw [forgets_of_told (w := w) h rfl rfl rfl hredacted]
    refine and_congr_right fun hcleans => forall₂_congr fun u hu => ?_
    have hgone : ¬ u <:+: (w.redacted t.order t.input
        (outcome.secretValues ++ w.secrets)).storedInput := (hcleans u hu).1
    rw [and_iff_right hgone,
      and_iff_right (fun _ => rfl : u <:+: t.input → (none : Option Stop) = none),
      forall_prop_of_true rfl]
    unfold StopsLate afterHook
    by_cases hcancelled : faults (n + 2) = some .cancelled
    · simp [hcancelled]
    · cases hfinish : t.finishFails <;> simp [hcancelled]

end Turn

/-- A secret that the pre-check does not know for one. -/
def gateNote : String := "the back gate opens with bluefox77"

def gateTurn : Turn := plainTurn gateNote { secretSpans := ["bluefox77"] }

/-- The commit of the turn fails. -/
def commitFails (n : Nat) : Option Stop := if n = 8 then some .crashed else none

end Agent
end SecondMind
