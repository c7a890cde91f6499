import Mathlib.Data.List.Basic
import Mathlib.Order.Bounds.Basic

/-!
# Wall clocks

A time zone as `zoneinfo` has it: an offset from UTC, and the instants from which on it is another
one.  Instants and wall times are counted in microseconds.

* `Zone.toLocal` — what the wall clock shows at an instant (`astimezone`);
* `Zone.ofLocal` — the instant of a wall time that names no `fold`: in the hour that the clock skips
  and in the hour that it shows twice, the offset is the one from before the change.
-/

namespace SecondMind

/-- `timedelta(seconds=1)`. -/
def second : Int := 1000000

/-- `timedelta(hours=1)`. -/
def hour : Int := 3600 * second

/-- `timedelta(days=1)`. -/
def day : Int := 24 * hour

/-- A time zone: its first offset, and the changes, each with the offset from then on. -/
structure Zone where
  initial : Int
  changes : List (Int × Int)
  ascending : changes.Pairwise (·.1 < ·.1)
  small : ∀ offset ∈ initial :: changes.map (·.2), -day < offset ∧ offset < day

/-- A zone without changes. -/
theorem none_ascending : ([] : List (Int × Int)).Pairwise (·.1 < ·.1) := List.Pairwise.nil

theorem none_small : ∀ offset ∈ (0 : Int) :: ([] : List (Int × Int)).map (·.2),
    -day < offset ∧ offset < day := by
  decide

namespace Zone

/-- The offset at an instant. -/
def offsetFrom (before : Int) : List (Int × Int) → Int → Int
  | [], _ => before
  | (instant, after) :: changes, u => if instant ≤ u then offsetFrom after changes u else before

/-- The offset at a wall time: a change counts once the wall clock is past it by both offsets. -/
def wallOffsetFrom (before : Int) : List (Int × Int) → Int → Int
  | [], _ => before
  | (instant, after) :: changes, n =>
    if instant + max before after ≤ n then wallOffsetFrom after changes n else before

def offset (z : Zone) (u : Int) : Int := offsetFrom z.initial z.changes u

def wallOffset (z : Zone) (n : Int) : Int := wallOffsetFrom z.initial z.changes n

/-- `u.astimezone(tz).replace(tzinfo=None)`. -/
def toLocal (z : Zone) (u : Int) : Int := u + z.offset u

/-- `n.replace(tzinfo=tz).astimezone(UTC)`. -/
def ofLocal (z : Zone) (n : Int) : Int := n - z.wallOffset n

theorem wallOffsetFrom_mem (before : Int) (changes : List (Int × Int)) (n : Int) :
    wallOffsetFrom before changes n ∈ before :: changes.map (·.2) := by
  induction changes generalizing before with
  | nil => exact List.mem_cons_self
  | cons change changes ih =>
    obtain ⟨instant, after⟩ := change
    rw [wallOffsetFrom]
    split
    · exact List.mem_cons_of_mem _ (ih after)
    · exact List.mem_cons_self

/-- An offset is less than a day. -/
theorem wallOffset_lt (z : Zone) (n : Int) : z.wallOffset n < day :=
  (z.small _ (wallOffsetFrom_mem z.initial z.changes n)).2

theorem lt_ofLocal (z : Zone) (n : Int) : n - day < z.ofLocal n := by
  have hlt := z.wallOffset_lt n
  rw [ofLocal]
  omega

theorem ofLocal_lt (z : Zone) (n : Int) : z.ofLocal n < n + day := by
  have hlt := (z.small _ (wallOffsetFrom_mem z.initial z.changes n)).1
  rw [ofLocal, wallOffset]
  omega

theorem offsetFrom_mem (before : Int) (changes : List (Int × Int)) (u : Int) :
    offsetFrom before changes u ∈ before :: changes.map (·.2) := by
  induction changes generalizing before with
  | nil => exact List.mem_cons_self
  | cons change changes ih =>
    obtain ⟨instant, after⟩ := change
    rw [offsetFrom]
    split
    · exact List.mem_cons_of_mem _ (ih after)
    · exact List.mem_cons_self

/-- The wall clock is less than a day off. -/
theorem toLocal_near (z : Zone) (u : Int) : u - day < z.toLocal u ∧ z.toLocal u < u + day := by
  have hsmall := z.small _ (offsetFrom_mem z.initial z.changes u)
  rw [toLocal, offset]
  omega

end Zone

end SecondMind
