import SecondMind.Memory.Undo
import SecondMind.Memory.Writer

/-!
# The memory service

The parts of `memory/service.py` that write: undoing a turn, and confirming or rejecting a
write that waits.  A confirmation is three transactions, which other requests may come
between: the check that the write is pending (`pending`), the commit of its ops
(`confirmingWriter`, after `targetsGone` has looked at their items), and
`Tables.resolveHeldWrite`.
-/

namespace SecondMind

/-- Rows of a note. -/
def conflictNote (c : String × String × Option Uuid) : DiffEntry :=
  { op := .conflict, title := c.1, reason := c.2.1, itemId := c.2.2 }

def nothingNote : DiffEntry :=
  { op := .notWritten, title := "nothing to undo", reason := "that turn made no memory changes" }

/-- The writer of an undo: `w` with the planned ops and the plan's notes. -/
def undoWriter (w : Writer) (plan : UndoPlan) (undoneTurnId : Uuid) : Writer :=
  { w with
    confirmed := false
    undoOf := some undoneTurnId
    ops := plan.ops
    notes := plan.conflicts.map conflictNote ++ if plan.nothingToUndo then [nothingNote] else []
    vocab := [] }

/-- `Memory.undo`: revert everything a turn wrote, as the turn of `w`.  `planId` gives the
ids of the plan, `w.newId` those of the commit. -/
def undo (planId : Nat → Uuid) (w : Writer) (t : Tables) (undoneTurnId : Uuid) :
    Except Failure (Tables × CommitResult) :=
  (undoWriter w (planUndo planId t undoneTurnId) undoneTurnId).commit t

/-! ## Held writes -/

def HeldStatus.value : HeldStatus → String
  | .pending => "pending"
  | .confirmed => "confirmed"
  | .rejected => "rejected"

/-- `_pending`. -/
def pending (t : Tables) (heldId : Uuid) : Except Failure HeldWriteRecord :=
  match t.held.lookup heldId with
  | none => .error (.notFound "held write not found")
  | some held =>
    if held.status ≠ .pending then
      .error (.validationFailed s!"this held write was already {held.status.value}")
    else .ok held

/-- The item an op names in its `item_id`, for the ops that have one, item creation
aside. -/
def OpBody.itemId : OpBody → Option Uuid
  | .updateItem itemId _ => some itemId
  | .setItemState itemId _ => some itemId
  | .deleteItem itemId => some itemId
  | .restoreItem itemId => some itemId
  | .attachEntity _ itemId .. => some itemId
  | _ => none

/-- The check `confirm_held` makes before it commits: an op's item is gone. -/
def targetsGone (t : MemoryTables) (ops : List Op) : Bool :=
  ops.any fun op => op.body.itemId.any fun id => !t.isLive id

/-- The ops of a held write as the confirmation applies them. -/
def confirmedOps (held : HeldWriteRecord) : List Op :=
  held.ops.map fun op => { op with origin := .confirm }

/-- The writer of a confirmation. -/
def confirmingWriter (w : Writer) (held : HeldWriteRecord) : Writer :=
  { w with confirmed := true, undoOf := none, ops := confirmedOps held, notes := [], vocab := [] }

/-- The commit of a confirmation, after the check of the items. -/
def commitHeld (w : Writer) (held : HeldWriteRecord) (t : Tables) :
    Except Failure (Tables × CommitResult) :=
  if targetsGone t.toMemoryTables held.ops then
    .error (.validationFailed "the memory this change was for is gone")
  else (confirmingWriter w held).commit t

/-- `Memory.confirm_held`, with nothing between its transactions. -/
def confirmHeld (w : Writer) (t : Tables) (heldId : Uuid) :
    Except Failure (Tables × CommitResult) := do
  let held ← pending t heldId
  let (t, result) ← commitHeld w held t
  return (t.resolveHeldWrite heldId .confirmed (some w.turn.turnId) w.turn.now, result)

/-- `Memory.reject_held`, with nothing between its transactions. -/
def rejectHeld (t : Tables) (heldId : Uuid) (at_ : Instant) :
    Except Failure (Tables × HeldWriteRecord) := do
  let _ ← pending t heldId
  let t := t.resolveHeldWrite heldId .rejected none at_
  match t.held.lookup heldId with
  | none => .error (.notFound "held write not found")
  | some held => return (t, held)

end SecondMind
