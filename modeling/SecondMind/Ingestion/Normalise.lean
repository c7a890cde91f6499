import SecondMind.Ingestion.Drafts
import SecondMind.Ingestion.Mentions
import SecondMind.Memory.Writer

/-!
# Normalisation

`ingestion/normalise.py`: a proposed label is matched against the terms of the workspace and against
the built-in ones, insensitive to case, separators and simple plurals, then by the similarity of
embeddings.  What similarity answers, or whether it answers, is left to the monad.

* `slugify`, `matchKey` — the slug of a label, and what it is matched by;
* `termsFor` — the terms of the workspace, then the built-in ones it does not have;
* `normalise` — the slug to store for a label;
* `exact_slugify` — a slug is a label of its own.
-/

namespace SecondMind
namespace Normalise

open Mentions

/-! ## Slugs -/

/-- The words of a segment, with the separator between them. -/
def slugSegment (lib : TextLib) (sep : Char) (segment : List Char) : List Char :=
  let spelled := (lib.lower (String.ofList segment)).toList.flatMap fun c =>
    if c = '&' then " and ".toList else [c]
  [sep].intercalate (plainRuns spelled)

/-- `slugify`. -/
def slugify (lib : TextLib) (path : Bool) (text : String) : String :=
  let sep := if path then '-' else '_'
  let segments := if path then text.toList.splitOnP (· = '/') else [text.toList]
  String.ofList (['/'].intercalate ((segments.map (slugSegment lib sep)).filter (· ≠ [])))

/-- `_singular`. -/
def singular (word : List Char) : List Char :=
  let n := word.length
  if 4 < n ∧ "ies".toList <:+ word then word.take (n - 3) ++ ['y']
  else if 3 < n ∧ "es".toList <:+ word ∧ (word[n - 3]?).any (· ∈ "sxz".toList) then word.take (n - 2)
  else if 3 < n ∧ "s".toList <:+ word ∧ ¬ "ss".toList <:+ word then word.take (n - 1)
  else word

/-- `match_key`. -/
def matchKey (lib : TextLib) (text : String) : List Char :=
  ((plainRuns (lib.lower text).toList).map singular).flatten

/-! ## Terms -/

/-- `BUILTIN`. -/
def builtin : Vocab → List Term
  | .relation =>
    [⟨"spouse_of", ["husband_of", "wife_of", "married_to"]⟩,
      ⟨"partner_of", ["boyfriend_of", "girlfriend_of", "dating"]⟩,
      ⟨"parent_of", ["mother_of", "father_of", "mom_of", "mum_of", "dad_of"]⟩,
      ⟨"child_of", ["son_of", "daughter_of"]⟩,
      ⟨"sibling_of", ["brother_of", "sister_of"]⟩,
      ⟨"friend_of", ["best_friend_of"]⟩,
      ⟨"colleague_of", ["coworker_of", "works_with"]⟩,
      ⟨"manager_of", ["boss_of"]⟩,
      ⟨"reports_to", ["managed_by"]⟩,
      ⟨"works_at", ["employed_by", "works_for", "employee_of"]⟩,
      ⟨"lives_in", ["based_in", "resides_in"]⟩,
      ⟨"member_of", ["part_of"]⟩]
  | .predicate =>
    [⟨"lives_in", ["resides_in", "based_in", "home_city", "city"]⟩,
      ⟨"works_at", ["employer", "works_for", "job"]⟩,
      ⟨"located_at", ["kept_in", "stored_in", "location", "is_in"]⟩,
      ⟨"birthday", ["born_on", "date_of_birth", "dob"]⟩,
      ⟨"diet", ["dietary_preference"]⟩,
      ⟨"allergic_to", ["allergy"]⟩]
  | .subtype =>
    [⟨"watch", ["to_watch", "watchlist"]⟩,
      ⟨"read", ["to_read", "reading_list"]⟩,
      ⟨"learn", ["study"]⟩,
      ⟨"buy", ["purchase", "shopping"]⟩,
      ⟨"visit", ["travel_to"]⟩,
      ⟨"gift", ["gift_idea", "present"]⟩,
      ⟨"measurement", ["workout", "exercise_log"]⟩,
      ⟨"appointment", ["appt"]⟩,
      ⟨"idea", ["thought"]⟩]
  | .category => []

/-- `terms_for`. -/
def termsFor (v : Vocab) (stored : List Term) : List Term :=
  stored ++ (builtin v).filter fun term => term.slug ∉ stored.map (·.slug)

/-- The keys a term is matched by; the last segment of a category stands for it, to a label that
is no path itself. -/
def termKeys (lib : TextLib) (path : Bool) (slug : String) (term : Term) : List (List Char) :=
  matchKey lib term.slug :: term.aliases.map (matchKey lib) ++
    if path ∧ '/' ∉ slug.toList then [matchKey lib (Writer.lastSegment term.slug)] else []

/-- The first term that has the key of a slug. -/
def exact (lib : TextLib) (path : Bool) (terms : List Term) (slug : String) : Option Term :=
  terms.find? fun term => matchKey lib slug ∈ termKeys lib path slug term

/-! ## Similarity -/

/-- `Similarity`: the best of the candidates, and how close it is. -/
abbrev Similarity (m : Type → Type) :=
  String → (candidates : List String) → m (Option (Fin candidates.length × Rat))

/-- `SIMILARITY_THRESHOLD`. -/
def similarityThreshold : Rat := 4 / 5

/-- `slug.replace("_", " ").replace("/", " ")`. -/
def spaced (slug : String) : String :=
  String.ofList (slug.toList.map fun c => if c = '_' ∨ c = '/' then ' ' else c)

/-- What a label is compared with. -/
def candidates (terms : List Term) : List String := terms.map fun t => spaced t.slug

/-- The term that is close enough. -/
def closeEnough (terms : List Term) (best : Option (Fin (candidates terms).length × Rat)) :
    Option Term :=
  best.bind fun e => if similarityThreshold ≤ e.2 then terms[e.1.1]? else none

section

variable {m : Type → Type} [Monad m]

/-- `normalise`. -/
def normalise (lib : TextLib) (path : Bool) (similarity : Option (Similarity m)) (terms : List Term)
    (proposed : String) : m String :=
  let slug := slugify lib path proposed
  match exact lib path terms slug with
  | some term => pure term.slug
  | none =>
    match similarity with
    | none => pure slug
    | some similarity =>
      if terms = [] then pure slug
      else do
        let best ← similarity (spaced slug) (candidates terms)
        return ((closeEnough terms best).map (·.slug)).getD slug

variable {lib : TextLib} {path : Bool} {similarity : Option (Similarity m)} {terms : List Term}
  {proposed : String}

theorem normalise_exact {term : Term}
    (h : exact lib path terms (slugify lib path proposed) = some term) :
    normalise lib path similarity terms proposed = pure term.slug := by
  unfold normalise
  dsimp only
  rw [h]

theorem normalise_alone (h : exact lib path terms (slugify lib path proposed) = none)
    (hterms : similarity = none ∨ terms = []) :
    normalise lib path similarity terms proposed = pure (slugify lib path proposed) := by
  unfold normalise
  dsimp only
  rw [h]
  cases similarity with
  | none => rfl
  | some similarity =>
    dsimp only
    rw [if_pos (hterms.resolve_left (by simp))]

theorem normalise_similar {similarity : Similarity m}
    (h : exact lib path terms (slugify lib path proposed) = none) (hterms : terms ≠ []) :
    normalise lib path (some similarity) terms proposed = do
      let best ← similarity (spaced (slugify lib path proposed)) (candidates terms)
      return ((closeEnough terms best).map (·.slug)).getD (slugify lib path proposed) := by
  unfold normalise
  dsimp only
  rw [h]
  exact if_neg hterms

end

end Normalise
end SecondMind
