import SecondMind.Links.Saver
import SecondMind.Policy.Redaction
import SecondMind.Texts.Spans

/-!
# Secrets in a message

`policy/secrets.py`: what looks like a secret in a text is found by patterns, and each place where
one is found is put as a mark.  What a model labels later is replaced wherever it stands.

* `foundSpans` — the places where a secret is found;
* `scanSecrets` — the merged places, and the redacted text;
* `merge_redact_exact` — merging and redacting lose nothing and leave nothing;
* `redacted_free` — when no secret that is found or labelled is left.
-/

namespace SecondMind

open Texts Regex Regex.Pattern

/-- `SecretHit`. -/
abbrev SecretHit := Span String

namespace Secrets

/-! ## Patterns -/

def edge : Pattern := .edge isWord

/-- `\s+` and `\s*`. -/
def spaces : Pattern := plus (one isSpace)

def blank : Pattern := star (one isSpace)

/-- Words in any case, one of them. -/
def anyOf (words : List String) : Pattern := any (words.map Links.anyCase)

/-- Words in any case, one after the other. -/
def phrase : List String → Pattern
  | [] => .empty
  | [word] => Links.anyCase word
  | word :: words => seq (Links.anyCase word) (seq spaces (phrase words))

/-- `[^\s"'”,;]`. -/
def valueChar (c : Char) : Bool := !isSpace c ∧ c ∉ ['"', '\'', '”', ',', ';']

/-- `_VALUE`; the value is group 1. -/
def valuePattern : Pattern :=
  seq (opt (one (· ∈ ['"', '\'', '“']))) (group 1 (rep 2 none true (one valueChar)))

/-- `(?:\s+(?:for|to|of|on)\s+[…]{1,most}?)?`. -/
def purpose (most : Nat) (accepts : Char → Bool) : Pattern :=
  opt (all [spaces, anyOf ["for", "to", "of", "on"], spaces, rep 1 (some most) false (one accepts)])

/-- `(?:is|was|=|:)`. -/
def isWas : Pattern := any [Links.anyCase "is", Links.anyCase "was", text "=", text ":"]

/-- `\s*(?:is|was|=|:)?\s*`. -/
def maybeIs : Pattern := all [blank, opt isWas, blank]

/-- `(?P<value>\d{least,most})\b`. -/
def digits (least most : Nat) : Pattern := seq (group 1 (between least most (one isDigit))) edge

/-- `[_ -]?`, and two words around it. -/
def joined (first second : String) : Pattern :=
  all [Links.anyCase first, opt (one (· ∈ ['_', ' ', '-'])), Links.anyCase second]

/-- `_PHRASE_PATTERNS`. -/
def phrasePatterns : List (String × Pattern) :=
  [("password", all [edge,
      opt (all [Links.anyCase "wi", opt (text "-"), Links.anyCase "fi", spaces]),
      anyOf ["password", "passcode", "passphrase", "passwd", "pwd"],
      purpose 40 fun c => isWord c ∨ c ∈ [' ', '.', '@', '\'', '-'], blank,
      any [Links.anyCase "is", Links.anyCase "was", text "=", text ":", text "->"], blank,
      valuePattern]),
    ("pin", all [edge, Links.anyCase "pin", opt (seq spaces (anyOf ["number", "code"])),
      purpose 30 fun c => isWord c ∨ c ∈ [' ', '.', '\'', '-'], maybeIs, digits 4 8]),
    ("one_time_code", all [edge,
      any [Links.anyCase "otp", seq (Links.anyCase "2fa") (opt (seq spaces (Links.anyCase "code"))),
        all [Links.anyCase "one", one (· ∈ ['-', ' ']), Links.anyCase "time", spaces,
          alt (seq (Links.anyCase "pass") (opt (anyOf ["word", "code"]))) (Links.anyCase "code")],
        phrase ["verification", "code"], phrase ["security", "code"], phrase ["login", "code"],
        all [Links.anyCase "auth", opt (Links.anyCase "entication"), spaces, Links.anyCase "code"],
        Links.anyCase "cvv"],
      maybeIs, digits 3 10]),
    ("combination", all [edge,
      any [Links.anyCase "combination", Links.anyCase "combo",
        all [anyOf ["door", "gate", "alarm", "lock", "safe", "entry", "access", "locker"], spaces,
          Links.anyCase "code"]],
      maybeIs,
      group 1 (all [one isDigit, rep 2 none true (one fun c => isDigit c ∨ c = ' ' ∨ c = '-'),
        one isDigit]), edge]),
    ("api_key", all [edge,
      any [joined "api" "key", joined "secret" "key", joined "access" "token",
        joined "auth" "token",
        phrase ["bearer", "token"], joined "private" "key", joined "client" "secret"],
      blank, isWas, blank, valuePattern])]

/-- `[A-Za-z0-9]`, or one of a few more. -/
def keyChar (more : List Char) (c : Char) : Bool := c.isAlphanum ∨ c ∈ more

/-- At least so many characters of a key. -/
def keyOf (least : Nat) (more : List Char) : Pattern := rep least none true (one (keyChar more))

/-- A part of a token: `[A-Za-z0-9_-]{8,}`. -/
def tokenPart : Pattern := keyOf 8 ['_', '-']

/-- `-----BEGIN [A-Z ]*PRIVATE KEY-----`, or the end of one. -/
def keyLine (word : String) : Pattern :=
  all [text ("-----" ++ word ++ " "), star (one fun c => c.isUpper ∨ c = ' '),
    text "PRIVATE KEY-----"]

/-- `_SHAPE_PATTERNS`. -/
def shapePatterns : List (String × Pattern) :=
  [("api_key", all [edge, text "sk-", opt (texts ["ant-", "proj-"]), keyOf 20 ['_', '-'], edge]),
    ("api_key", all [edge, text "AKIA", rep 16 (some 16) true (one fun c => c.isDigit ∨ c.isUpper),
      edge]),
    ("api_key", all [edge, texts ["ghp", "gho", "ghu", "ghs", "ghr"], text "_", keyOf 30 [], edge]),
    ("api_key", all [edge, text "github_pat_", keyOf 30 ['_'], edge]),
    ("api_key", all [edge, text "xox", one (· ∈ "abposr".toList), text "-", keyOf 10 ['-'], edge]),
    ("api_key", all [edge, text "AIza", rep 35 (some 35) true (one (keyChar ['_', '-'])), edge]),
    ("api_key", all [edge, texts ["pk", "rk"], text "_", texts ["live", "test"], text "_",
      keyOf 16 [],
      edge]),
    ("token", all [edge, text "eyJ", tokenPart, text ".", tokenPart, text ".", tokenPart, edge]),
    ("private_key", all [keyLine "BEGIN", rep 0 none false (one fun _ => true),
      alt (keyLine "END") .stop])]

/-- `_NOT_A_VALUE`. -/
def notAValue : List String :=
  ["the", "a", "an", "my", "your", "our", "same", "still", "not", "changed", "new", "old",
    "expired", "wrong", "correct", "saved", "stored", "somewhere", "written", "in", "on",
    "at", "set", "reset", "too", "very", "really", "hard", "easy", "strong", "weak", "long",
    "short", "that", "this", "it", "what", "different", "unchanged", "needed", "required"]

/-- `.strip(".!?")`. -/
def bare (value : List Char) : List Char :=
  let mark (c : Char) : Bool := c ∈ ['.', '!', '?']
  ((value.dropWhile mark).reverse.dropWhile mark).reverse

/-! ## The scan -/

/-- The last `length` letters of a match. -/
def spanOf (kind : String) (m : Match) (length : Nat) : SecretHit where
  kind := kind
  start := m.before.length + m.taken.length - length
  stop := m.before.length + m.taken.length
  le := Nat.sub_le _ _

variable (lower : List Char → List Char)

/-- The value of a phrase, which ends with the match, unless it is a common word. -/
def phraseSpan (kind : String) (m : Match) : Option SecretHit :=
  if String.ofList (bare (lower (m.group 1))) ∈ notAValue then none
  else some (spanOf kind m (m.group 1).length)

/-- The places where a secret is found. -/
def foundSpans (text : List Char) : List SecretHit :=
  (phrasePatterns.flatMap fun p => (findAll p.2 text).filterMap (phraseSpan lower p.1)) ++
    shapePatterns.flatMap fun p => (findAll p.2 text).map fun m => spanOf p.1 m m.taken.length

/-- `_redact`. -/
def redact (text : List Char) (spans : List SecretHit) : List Char := cut redacted text spans

/-- `SecretScan`. -/
structure SecretScan where
  hits : List SecretHit
  redacted : List Char

/-- `scan_secrets`. -/
def scanSecrets (text : List Char) : SecretScan :=
  let merged := merge (foundSpans lower text)
  { hits := merged, redacted := redact text merged }

/-- **Merging and redacting are exact.** -/
theorem merge_redact_exact (text : List Char) (spans : List SecretHit) :
    (merge spans).Pairwise (fun a b => a.start ≤ b.start ∧ a.stop ≤ b.start) ∧
      (∀ i, (∃ s ∈ merge spans, s.start ≤ i ∧ i < s.stop) ↔
        ∃ s ∈ spans, s.start ≤ i ∧ i < s.stop) ∧
      ∃ pieces, redact text (merge spans) = redacted.intercalate pieces ∧
        pieces.length = (merge spans).length + 1 ∧
        pieces.flatten = (text.zipIdx.filter fun e =>
          ¬ ∃ s ∈ spans, s.start ≤ e.2 ∧ e.2 < s.stop).map (·.1) := by
  refine ⟨merge_separate spans, covered_merge spans, kept text (merge spans), cut_eq _ _ _,
    length_keptFrom _ _ _, ?_⟩
  rw [flatten_kept text (merge_separate spans), uncovered_congr text (covered_merge spans)]
  exact congrArg (List.map _) (List.filter_congr fun e _ => decide_eq_decide.2 Iff.rfl)

/-! ## What is left -/

/-- The secrets that are found. -/
def foundValues (text : List Char) : List (List Char) :=
  (foundSpans lower text).map fun s => (text.drop s.start).take (s.stop - s.start)

/-- Wherever the value stands in the text, a secret is found over some place of it. -/
def FoundEverywhere (text value : List Char) : Prop :=
  ∀ i < text.length, value <+: text.drop i →
    ∃ j < i + value.length, i ≤ j ∧ Covered (foundSpans lower text) j

instance (text value : List Char) : Decidable (FoundEverywhere lower text value) := by
  unfold FoundEverywhere
  infer_instance

/-- The conditions under which a text is free of its secrets: nothing is found and nothing labelled
stands in it, or no secret touches the mark, and each is found wherever it stands or holds a
labelled one that is looked for. -/
def SecretsReached (text : List Char) (labelled : List (List Char)) : Prop :=
  (foundSpans lower text = [] ∧ ∀ u ∈ labelled, ¬ u <:+: text) ∨
    ∀ w ∈ foundValues lower text ++ labelled, Apart w redacted ∧
      (FoundEverywhere lower text w ∨ ∃ u ∈ labelled, Redactable u ∧ u <:+: w)

instance (text : List Char) (labelled : List (List Char)) :
    Decidable (SecretsReached lower text labelled) := by
  unfold SecretsReached
  infer_instance

/-- What is redacted stays as it is where nothing is found. -/
theorem redacted_of_none {text : List Char} (h : foundSpans lower text = []) :
    (scanSecrets lower text).redacted = text := by
  simp [scanSecrets, h, redact, merge, cut, cutFrom]

/-- A secret that is found wherever it stands is not in what the scan leaves. -/
theorem not_infix_scan {text w : List Char} (hapart : Apart w redacted)
    (h : FoundEverywhere lower text w) : ¬ w <:+: (scanSecrets lower text).redacted := by
  intro hin
  have hcut : (scanSecrets lower text).redacted =
      redacted.intercalate (kept text (merge (foundSpans lower text))) := cut_eq _ _ _
  rw [hcut] at hin
  obtain ⟨piece, hpiece, hw⟩ := hapart.infix_piece hin
  obtain ⟨i, hprefix, hfree⟩ := exists_of_infix_kept (merge_separate _) hpiece hw
  have hlt : i < text.length := by
    have hlength := hprefix.length_le
    have hpos := List.length_pos_of_ne_nil hapart.ne_nil
    rw [List.length_drop] at hlength
    omega
  obtain ⟨j, hlast, hfirst, hcovered⟩ := h i hlt hprefix
  exact hfree j hfirst hlast ((covered_merge _ j).2 hcovered)

/-- **No secret is left** when the secrets are reached. -/
theorem redacted_free (text : List Char) {labelled : List (List Char)}
    (o : RedactionOrder labelled) (h : SecretsReached lower text labelled) :
    ∀ w ∈ foundValues lower text ++ labelled,
      ¬ w <:+: redactValues (scanSecrets lower text).redacted o := by
  intro w hw
  rcases h with ⟨hnone, hlabelled⟩ | hreached
  · rw [redacted_of_none lower hnone, redactValues_eq_self o fun u hu _ => hlabelled u hu]
    rw [foundValues, hnone] at hw
    exact hlabelled w hw
  · have hapart : ∀ u ∈ labelled, Apart u redacted := fun u hu =>
      (hreached u (List.mem_append_right _ hu)).1
    obtain ⟨hw', hfound | ⟨u, hu, hred, hinside⟩⟩ := hreached w hw
    · exact redactValues_stay_gone o hapart hw' (not_infix_scan lower hw' hfound)
    · exact fun hin => redactValues_gone o hapart hu hred (hinside.trans hin)

/-- The lower case of the letters of the alphabet. -/
def lowerAscii (text : List Char) : List Char := text.map Char.toLower

/-- A pin that is labelled too. -/
theorem redacted_free_pin :
    ¬ "4821".toList <:+: redactValues (scanSecrets lowerAscii "my pin is 4821".toList).redacted
      (sortedValues ["4821".toList]) :=
  redacted_free lowerAscii _ _ (by decide +kernel) _
    (List.mem_append_right _ (List.mem_singleton_self _))

/-- **A pin that is said twice** is left where no word stands before it. -/
theorem repeated_pin_left : ¬ ∀ w ∈ foundValues lowerAscii "pin 4821 4821".toList,
    ¬ w <:+: (scanSecrets lowerAscii "pin 4821 4821".toList).redacted := by
  decide +kernel

end Secrets
end SecondMind
