import SecondMind.Ingestion.Schemas
import SecondMind.Memory.CoreLayer
import Mathlib.Data.List.Infix
import Mathlib.Data.List.Sort

/-!
# Mentions

The deterministic matcher of `ingestion/entities.py`: a name, an alias or a label is cleaned to plain
words, and a message mentions an entity when one of them stands in it as whole words.

* `clean` — the plain words of a text, without a leading article and a trailing possessive;
* `mention` — what of an entity a message mentions.
-/

namespace SecondMind
namespace Mentions

/-! ## Plain words -/

/-- `[a-z0-9]`. -/
def isPlain (c : Char) : Bool := ('a' ≤ c ∧ c ≤ 'z') ∨ ('0' ≤ c ∧ c ≤ '9')

/-- `re.findall(r"[a-z0-9]+", text)`. -/
def plainRuns (text : List Char) : List (List Char) :=
  (text.splitOnP fun c => !isPlain c).filter (· ≠ [])

/-- The runs with one blank between them. -/
def plainWords (text : List Char) : List Char := [' '].intercalate (plainRuns text)

def articles : List (List Char) := ["my", "our", "the", "a", "an"].map String.toList

/-- A leading article goes, with the blanks after it. -/
def dropArticle (text : List Char) : List Char :=
  let rest := text.dropWhile fun c => !isSpace c
  if text.takeWhile (fun c => !isSpace c) ∈ articles ∧ rest ≠ [] then rest.dropWhile isSpace
  else text

/-- A trailing `'s` goes, with either apostrophe. -/
def dropPossessive (text : List Char) : List Char :=
  match text.reverse with
  | 's' :: quote :: rest => if quote = '\'' ∨ quote = Char.ofNat 0x2019 then rest.reverse else text
  | _ => text

/-- `_clean`. -/
def clean (lib : TextLib) (text : String) : List Char :=
  let text := (lib.lower text).toList.dropWhile isSpace
  plainWords (dropPossessive (dropArticle (text.reverse.dropWhile isSpace).reverse))

/-- `_keys`. -/
def keys (lib : TextLib) (e : EntityContent) : List (List Char) :=
  ((e.name :: e.aliases).map (clean lib)).dedup.filter (· ≠ [])

/-! ## The scan -/

/-- The key stands in the text as whole words. -/
def Within (key text : List Char) : Prop := (' ' :: key ++ [' ']) <:+: (' ' :: text ++ [' '])

instance (key text : List Char) : Decidable (Within key text) :=
  inferInstanceAs (Decidable ((' ' :: key ++ [' ']) <:+: (' ' :: text ++ [' '])))

/-- The hit of `mentions_in` on one entity: its longest key in the message, or a person's label
after "my".  `order` is the order in which the set of its keys is gone through. -/
def mention (lib : TextLib) (order : List (List Char) → List (List Char)) (message : String)
    (e : EntityContent) : Option (List Char) :=
  let text := plainWords (lib.lower message).toList
  let labels := e.labels.map fun label => "my ".toList ++ clean lib label
  if e.status ≠ .active ∨ e.kind = .self then none
  else
    let byLength := (order (keys lib e)).insertionSort fun a b => b.length ≤ a.length
    (byLength.find? fun key => Within key text) <|>
      if e.kind = .person then labels.find? fun label => Within label text else none

example (lib : TextLib) (hlower : ∀ text, lib.lower text = text) :
    clean lib "the neighbour's" = "neighbour".toList := by
  simp only [clean, hlower]
  decide +kernel

end Mentions
end SecondMind
