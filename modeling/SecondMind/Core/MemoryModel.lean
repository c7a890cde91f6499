import Mathlib.Data.List.Basic

/-!
# The memory vocabulary

The closed vocabulary of `core/memory_model.py`: kinds and their lifecycle states,
entities, roles, links, triggers, layers and the epistemic scales.  A state is a string,
as it is in the source, and `validState` is the table that says which ones a kind may be
in.
-/

namespace SecondMind

/-- What a memory is, defined by how it behaves over time. -/
inductive Kind
  | fact | preference | episode | plan | task | intention | resource | note | rule | pattern
  deriving DecidableEq, Repr

/-- `KIND_STATES`: lifecycle states per kind, the initial state first. -/
def kindStates : Kind → List String
  | .fact => ["current", "superseded"]
  | .preference => ["current", "superseded"]
  | .episode => ["happened"]
  | .plan => ["scheduled", "happened", "moved", "cancelled"]
  | .task => ["open", "done", "dropped"]
  | .intention => ["wanted", "active", "fulfilled", "dropped"]
  | .resource => ["saved", "consumed"]
  | .note => ["current"]
  | .rule => ["proposed", "active", "retired"]
  | .pattern => ["proposed", "confirmed", "retired"]

def validState (kind : Kind) (state : String) : Bool := (kindStates kind).contains state

inductive ResourceFormat
  | article | video | pdf | image | link | other
  deriving DecidableEq, Repr

inductive Source
  | userMessage | link | file | derived
  deriving DecidableEq, Repr

inductive Trust
  | userStated | contentDerived
  deriving DecidableEq, Repr

/-- About the record, not the world (that is the state). -/
inductive ItemStatus
  | active | archived | deleted
  deriving DecidableEq, Repr

inductive Modality
  | asserted | planned | hypothetical | reported
  deriving DecidableEq, Repr

inductive Sensitivity
  | normal | personal | sensitive | secret
  deriving DecidableEq, Repr

inductive TimePrecision
  | datetime | day | month | year
  deriving DecidableEq, Repr

inductive EntityKind
  | self | person | place | org | thing | work | topic | project | list
  deriving DecidableEq, Repr

inductive EntityStatus
  | active | deleted
  deriving DecidableEq, Repr

inductive EntityRole
  | about | «with» | «for» | «by» | «at» | owner | partOf
  deriving DecidableEq, Repr

inductive LinkType
  | supersedes | fulfils | partOf | follows | because | evidenceFor | duplicateOf
  | derivedFrom | giftForEvent | corrects
  deriving DecidableEq, Repr

inductive TriggerOn
  | time | person | place | topic | situation
  deriving DecidableEq, Repr

inductive TriggerState
  | pending | fired | done | cancelled | expired
  deriving DecidableEq, Repr

inductive VocabKind
  | subtype | predicate | relation
  deriving DecidableEq, Repr

inductive Layer
  | core | quick | archive
  deriving DecidableEq, Repr

/-- Every change the memory writer can make; each one is a write-log row. -/
inductive WriteOp
  | create | update | link | unlink | delete | restore | supersede | fulfil | setState
  | upsertEntity | relate | unrelate | correct
  deriving DecidableEq, Repr

inductive TargetType
  | item | entity | trigger | link | itemEntity | relation
  deriving DecidableEq, Repr

inductive PolicyDecision
  | allowed | held | blocked
  deriving DecidableEq, Repr

structure PolicyVerdict where
  decision : PolicyDecision
  ruleId : String
  reason : String
  deriving DecidableEq, Repr

/-- How a proposed memory relates to what is stored. -/
inductive ReconcileDecision
  | new | addDetail | supersede | fulfil | link | noOp
  deriving DecidableEq, Repr

/-- What started a turn: a message, an undo, a confirmation of a held write, an edit from
the glass box, or the system. -/
inductive TurnKind
  | user | undo | confirm | edit | system
  deriving DecidableEq, Repr

end SecondMind
