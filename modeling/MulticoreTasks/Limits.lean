import MulticoreTasks.App.Core

/-!
# What the target allows

* `Limits.maxPriority`    : the highest priority that the target can program; the lowest is `1`;
* `Limits.timerSlotBound` : how many pending instances a timer queue holds of a task that others
  schedule.
-/

namespace MulticoreTasks

/-- The limits that an analysis works under. -/
structure Limits where
  maxPriority : Priority := 255
  timerSlotBound : UInt8 := 1
  deriving DecidableEq, Repr

namespace Limits

/-- The limits of a target with all priorities. -/
def default : Limits := {}

instance : Inhabited Limits := ⟨default⟩

/-- The levels that `bits` bits tell apart, as far as a word of 32 bits counts them. -/
def levels (bits : Nat) : Nat := if bits < 32 then 1 <<< bits else 4294967295

/-- The limits of a target with `bits` priority bits: its lowest level stands for no task at all,
and of the others a priority reaches the first 255. -/
def ofPriorityBits (bits : Nat) : Limits :=
  { maxPriority := UInt8.ofNat (min (levels bits - 1) 255) }

/-- Whether the target can program a priority. -/
def inRange (limits : Limits) (priority : Priority) : Bool :=
  1 ≤ priority && priority ≤ limits.maxPriority

theorem inRange_iff {limits : Limits} {p : Priority} :
    limits.inRange p = true ↔ 1 ≤ p ∧ p ≤ limits.maxPriority := by
  simp [inRange]

end Limits

end MulticoreTasks
