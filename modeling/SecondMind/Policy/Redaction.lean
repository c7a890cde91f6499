import SecondMind.Core.Text
import SecondMind.Texts.MarkedJson
import Mathlib.Data.List.Dedup

/-!
# The trace and the secrets of a turn

A model may label a secret late, so the prompt input of every call of the turn waits for the
end of the turn and goes to the trace scrubbed.  What is scrubbed is its JSON text, and the spans
are as the message has them: a letter that JSON escapes is not found there.

* `Redactable` — the values `redact_values` looks for at all;
* `marked_redactValues` — the redacted text is the text with marks;
* `trace_carries_none` — when no string read from the trace has a span in it;
* `quoted_password_traced` — a password with a quote in it is in the trace.
-/

namespace SecondMind

open Texts JsonText

/-- `REDACTED`. -/
def redacted : List Char := ['[', 'r', 'e', 'd', 'a', 'c', 't', 'e', 'd', ']']

/-! ## Redacting values -/

/-- `len(v.strip()) >= 2`. -/
def Redactable (value : List Char) : Prop :=
  2 ≤ ((value.dropWhile isSpace).reverse.dropWhile isSpace).reverse.length

instance (value : List Char) : Decidable (Redactable value) := by
  unfold Redactable
  infer_instance

/-- The values in the order they are redacted: each once, longest first, in any order among
those of one length. -/
structure RedactionOrder (values : List (List Char)) where
  order : List (List Char)
  nodup : order.Nodup
  mem : ∀ v, v ∈ order ↔ v ∈ values ∧ Redactable v
  longest : order.Pairwise fun a b => b.length ≤ a.length

/-- The order that goes by the first place of each value. -/
def sortedValues (values : List (List Char)) : RedactionOrder values where
  order := (values.dedup.filter Redactable).mergeSort fun a b => b.length ≤ a.length
  nodup := (List.mergeSort_perm _ _).nodup_iff.2 (values.nodup_dedup.filter _)
  mem v := by simp
  longest := by
    refine (List.pairwise_mergeSort ?_ ?_ _).imp of_decide_eq_true
    · intro a b c hab hbc
      simp only [decide_eq_true_eq] at hab hbc ⊢
      omega
    · intro a b
      simp only [Bool.or_eq_true, decide_eq_true_eq]
      omega

/-- `redact_values`. -/
def redactValues {values : List (List Char)} (text : List Char) (o : RedactionOrder values) :
    List Char :=
  o.order.foldl (fun text value => replace value redacted text) text

/-! ## The prompt input -/

/-- What is recorded as a call's prompt input: the messages, or their text once it is
scrubbed. -/
inductive PromptInput
  | object (input : Nested)
  | text (dumped : List Char)

/-- `prompt_input if isinstance(prompt_input, str) else json.dumps(prompt_input)`. -/
def PromptInput.dumped : PromptInput → List Char
  | .object input => input.dumps
  | .text dumped => dumped

/-- The spans a turn found: those its outcome names, those its calls had labelled when this call
was recorded, and those labelled later. -/
structure FoundSpans where
  outcome : List (List Char) := []
  earlier : List (List Char) := []
  later : List (List Char) := []

/-- `run.secret_values`. -/
def FoundSpans.all (s : FoundSpans) : List (List Char) := s.outcome ++ (s.earlier ++ s.later)

/-- What `ModelSteps.structured` records. -/
def recordedInput {labelled : List (List Char)} (o : RedactionOrder labelled) (input : Nested) :
    PromptInput :=
  if labelled = [] then .object input else .text (redactValues input.dumps o)

/-- What `_send_generations` sends to the trace. -/
def sentInput {secrets : List (List Char)} (o : RedactionOrder secrets) (recorded : PromptInput) :
    PromptInput :=
  if secrets = [] then recorded else .text (redactValues recorded.dumped o)

/-- The prompt input in the trace. -/
def tracedInput (s : FoundSpans) (o : RedactionOrder s.earlier) (o' : RedactionOrder s.all)
    (input : Nested) : PromptInput :=
  sentInput o' (recordedInput o input)

/-- No string that is read out of the text, however deep, has one of the spans in it. -/
def CarriesNone (spans : List (List Char)) (text : List Char) : Prop :=
  ∀ depth strings, loads depth text = some strings →
    ∀ w ∈ strings, ∀ u ∈ spans, ¬ u.map Char.toNat <:+: w

/-! ## What redaction does to the text -/

theorem redacted_plain : AllPlain redacted := by decide

/-- The mark breaks a JSON text wherever it falls outside the letters of a literal. -/
theorem redacted_jsonMark {P : List Char → Prop} (h : ∀ t, P t → AllPlain t) :
    JsonMark P redacted :=
  ⟨h, redacted_plain, _, rfl⟩

/-- Whether a span that is looked for is found only in plain letters. -/
def FoundPlain (text value : List Char) : Prop :=
  Apart value redacted ∧ (Redactable value → AllPlain value ∨ ¬ value <:+: text)

section

variable {values : List (List Char)} {text T : List Char}

theorem marked_foldl {order : List (List Char)}
    (h : ∀ v ∈ order, Apart v redacted ∧ (AllPlain v ∨ ¬ v <:+: text))
    (hm : Marked AllPlain redacted text T) :
    Marked AllPlain redacted text (order.foldl (fun T v => replace v redacted T) T) := by
  induction order generalizing T with
  | nil => exact hm
  | cons v order ih =>
    obtain ⟨hapart, hv⟩ := h v List.mem_cons_self
    refine ih (fun v' hv' => h v' (List.mem_cons_of_mem v hv')) ?_
    rcases hv with hplain | hno
    · exact hm.replace hapart hplain
    · show Marked AllPlain redacted text (replace v redacted T)
      rw [replace_of_absent fun hin => hno (hm.of_within hapart hin)]
      exact hm

/-- **The redacted text** is the text with marks, where only plain values are found. -/
theorem marked_redactValues (o : RedactionOrder values) (h : ∀ v ∈ values, FoundPlain text v)
    (hm : Marked AllPlain redacted text T) :
    Marked AllPlain redacted text (redactValues T o) := by
  refine marked_foldl (fun v hv => ?_) hm
  obtain ⟨hmem, hred⟩ := (o.mem v).1 hv
  exact ⟨(h v hmem).1, (h v hmem).2 hred⟩

theorem foldl_stays_gone {order : List (List Char)} {u : List Char}
    (h : ∀ v ∈ order, Apart v redacted) (hu : Apart u redacted) (hgone : ¬ u <:+: T) :
    ¬ u <:+: order.foldl (fun T v => replace v redacted T) T := by
  induction order generalizing T with
  | nil => exact hgone
  | cons v order ih =>
    refine ih (fun v' hv' => h v' (List.mem_cons_of_mem v hv')) fun hin => hgone ?_
    exact (marked_replace (h v List.mem_cons_self).ne_nil redacted T).of_within hu hin

theorem foldl_redacts {order : List (List Char)} {u : List Char}
    (h : ∀ v ∈ order, Apart v redacted) (hu : u ∈ order) :
    ¬ u <:+: order.foldl (fun T v => replace v redacted T) T := by
  induction order generalizing T with
  | nil => exact absurd hu List.not_mem_nil
  | cons v order ih =>
    have hrest : ∀ v' ∈ order, Apart v' redacted := fun v' hv' => h v' (List.mem_cons_of_mem v hv')
    rcases List.mem_cons.1 hu with rfl | hu
    · have hapart := h u List.mem_cons_self
      rw [List.foldl_cons]
      exact foldl_stays_gone hrest hapart (replace_gone hapart T)
    · exact ih hrest hu

/-- **A value that is redacted is gone**, and no other redaction brings it back. -/
theorem redactValues_gone (o : RedactionOrder values)
    (h : ∀ v ∈ values, Apart v redacted) {u : List Char} (hu : u ∈ values) (hred : Redactable u) :
    ¬ u <:+: redactValues T o :=
  foldl_redacts (fun v hv => h v ((o.mem v).1 hv).1) ((o.mem u).2 ⟨hu, hred⟩)

/-- A text that is not there is not there after the redaction. -/
theorem redactValues_stay_gone (o : RedactionOrder values)
    (h : ∀ v ∈ values, Apart v redacted) {u : List Char} (hu : Apart u redacted)
    (hgone : ¬ u <:+: T) : ¬ u <:+: redactValues T o :=
  foldl_stays_gone (fun v hv => h v ((o.mem v).1 hv).1) hu hgone

/-- Where no value is found nothing is redacted. -/
theorem redactValues_eq_self (o : RedactionOrder values)
    (h : ∀ v ∈ values, Redactable v → ¬ v <:+: text) : redactValues text o = text := by
  have hfold : ∀ order : List (List Char), (∀ v ∈ order, ¬ v <:+: text) →
      order.foldl (fun T v => replace v redacted T) text = text := by
    intro order
    induction order with
    | nil => exact fun _ => rfl
    | cons v order ih =>
      intro hall
      rw [List.foldl_cons, replace_of_absent (hall v List.mem_cons_self)]
      exact ih fun v' hv' => hall v' (List.mem_cons_of_mem v hv')
  exact hfold o.order fun v hv => h v ((o.mem v).1 hv).1 ((o.mem v).1 hv).2

end

/-! ## What is read from the trace -/

/-- A span is in one of the strings of the prompt input. -/
def Said (input : Nested) (u : List Char) : Prop := ∃ s ∈ input.strings, u <:+: s

/-- The conditions under which the trace is free of the spans: none is in the prompt and none
is looked for in vain, or none touches the mark, those that are found are plain, and each that is
said holds one that is plain and looked for. -/
def SpansCaught (input : Nested) (spans : List (List Char)) : Prop :=
  (∀ u ∈ spans, ¬ Said input u ∧ (Redactable u → ¬ u <:+: input.dumps)) ∨
    ∀ u ∈ spans, FoundPlain input.dumps u ∧
      (¬ Said input u ∨ ∃ v ∈ spans, v <:+: u ∧ AllPlain v ∧ Redactable v)

theorem infix_of_map_toNat {u v : List Char} (h : u.map Char.toNat <:+: v.map Char.toNat) :
    u <:+: v := by
  obtain ⟨a, b, hab⟩ := h
  obtain ⟨v₁, vb, rfl, h₁, -⟩ := List.append_eq_map_iff.1 hab
  obtain ⟨va, vu, rfl, -, hu⟩ := List.append_eq_map_iff.1 h₁.symm
  have huv : vu = u := List.map_injective_iff.2 (fun _ _ => Char.toNat_inj.1) hu
  exact ⟨va, vb, by rw [huv]⟩

theorem escape_within {u v : List Char} (h : u <:+: v) : escape u <:+: escape v := by
  obtain ⟨a, b, rfl⟩ := h
  exact ⟨escape a, escape b, by rw [escape_append, escape_append]⟩

/-- A plain text is in a string's escape wherever it is in the string. -/
theorem infix_escape_of_plain {u v : List Char} (hu : AllPlain u) (h : u <:+: v) :
    u <:+: escape v := by
  have := escape_within h
  rwa [escape_plain hu] at this

section

variable {input : Nested} {s : FoundSpans}

theorem tracedInput_text (o : RedactionOrder s.earlier) (o' : RedactionOrder s.all)
    (hne : s.all ≠ []) :
    (tracedInput s o o' input).dumped =
      redactValues (if s.earlier = [] then input.dumps else redactValues input.dumps o) o' := by
  unfold tracedInput sentInput recordedInput
  rw [if_neg hne]
  split <;> rfl

/-- **The trace carries no span** when the spans are caught. -/
theorem trace_carries_none (o : RedactionOrder s.earlier) (o' : RedactionOrder s.all)
    (h : SpansCaught input s.all) : CarriesNone s.all (tracedInput s o o' input).dumped := by
  intro depth strings hread w hw u hu hin
  have hearlier : ∀ {v}, v ∈ s.earlier → v ∈ s.all := fun hv =>
    List.mem_append_right _ (List.mem_append_left _ hv)
  rw [tracedInput_text o o' (List.ne_nil_of_mem hu)] at hread
  rcases h with hnone | hcaught
  · -- nothing is redacted, and what is read is what was written
    have hfirst : (if s.earlier = [] then input.dumps else redactValues input.dumps o) =
        input.dumps := by
      split
      · rfl
      · exact redactValues_eq_self o fun v hv => (hnone v (hearlier hv)).2
    rw [hfirst, redactValues_eq_self o' fun v hv => (hnone v hv).2] at hread
    have hmark : JsonMark (fun _ => False) redacted := redacted_jsonMark fun _ h => h.elim
    obtain ⟨v, rfl, -, t, ht, hm⟩ := loads_marked hmark (Marked.refl _ _ _) hread w hw
    have hsame : t = v := by
      clear hin hread ht hw
      induction hm with
      | nil => rfl
      | cons c _ ih => rw [ih]
      | mark h _ _ => exact h.elim
    exact (hnone u hu).1 ⟨t, ht, hsame ▸ infix_of_map_toNat hin⟩
  · have hplain : ∀ v ∈ s.all, FoundPlain input.dumps v := fun v hv => (hcaught v hv).1
    have hfirst : Marked AllPlain redacted input.dumps
        (if s.earlier = [] then input.dumps else redactValues input.dumps o) := by
      split
      · exact Marked.refl _ _ _
      · exact marked_redactValues o (fun v hv => hplain v (hearlier hv)) (Marked.refl _ _ _)
    have hmarked := marked_redactValues o' hplain hfirst
    obtain ⟨v, rfl, hliteral, t, ht, hm⟩ :=
      loads_marked (redacted_jsonMark fun _ h => h) hmarked hread w hw
    have huv := infix_of_map_toNat hin
    obtain ⟨⟨hapart, -⟩, hunsaid | ⟨v', hv', hv'u, hv'plain, hv'red⟩⟩ := hcaught u hu
    · exact hunsaid ⟨t, ht, hm.of_within hapart huv⟩
    · exact redactValues_gone o' (fun v hv => (hplain v hv).1) hv' hv'red
        ((infix_escape_of_plain hv'plain (hv'u.trans huv)).trans hliteral)

end

/-- One message of a user. -/
def oneMessage (content : String) : Nested :=
  .list [.dict [("role".toList, .str "user".toList), ("content".toList, .str content.toList)]]

/-- A span that a call labelled before it was recorded. -/
def labelledSpan (span : String) : FoundSpans := { earlier := [span.toList] }

/-- A plain password does not reach the trace. -/
theorem plain_password_scrubbed :
    CarriesNone (labelledSpan "hunter22").all
      (tracedInput (labelledSpan "hunter22") (sortedValues _) (sortedValues _)
        (oneMessage "wifi: hunter22 \\o/")).dumped := by
  refine trace_carries_none _ _ (.inr fun u hu => ?_)
  obtain rfl := List.mem_singleton.1 (show u ∈ ["hunter22".toList] from hu)
  exact ⟨⟨by decide, fun _ => .inl (by decide)⟩,
    .inr ⟨_, hu, List.infix_refl _, by decide, by decide⟩⟩

/-- The order of one value that is looked for. -/
def onlyValue {value : List Char} (h : Redactable value) : RedactionOrder [value] where
  order := [value]
  nodup := List.nodup_singleton value
  mem v := by
    rw [List.mem_singleton]
    exact ⟨fun hv => ⟨hv, hv ▸ h⟩, fun hv => hv.1⟩
  longest := List.pairwise_singleton _ value

/-- **A password with a quote in it is in the trace**: its JSON text has a backslash before the
quote. -/
theorem quoted_password_traced :
    ¬ ∀ (input : Nested) (s : FoundSpans) (o : RedactionOrder s.earlier)
      (o' : RedactionOrder s.all), CarriesNone s.all (tracedInput s o o' input).dumped := by
  intro h
  have hall := h (oneMessage "wifi: pa\"ss") (labelledSpan "pa\"ss")
    (onlyValue (show Redactable "pa\"ss".toList by decide))
    (onlyValue (show Redactable "pa\"ss".toList by decide)) 9
    (["role", "user", "content", "wifi: pa\"ss"].map fun s => s.toList.map Char.toNat)
    (by decide +kernel)
  exact hall ("wifi: pa\"ss".toList.map Char.toNat) (by decide) "pa\"ss".toList
    (List.mem_singleton_self _) (by decide)

end SecondMind
