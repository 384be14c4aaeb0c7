import MulticoreTasks.Limits
import MulticoreTasks.Resource.Sharing

/-!
# Ceilings

Whoever holds a shared resource runs at its ceiling, the highest priority among its accessors, so
that no other accessor of that core gets in between.  Between cores priorities decide nothing, and
two accessors at one priority on different cores can only share a value that may pass from core to
core.

* `App.lookUp`        : the tasks filed under given names;
* `App.ceilings`      : the ceiling of every shared resource;
* `Rank`              : the order in which competing accessors are compared;
* `clash?`            : the first two of them that meet at one priority on different cores;
* `Ceilings.findings` : priorities that the target cannot program, then the clashes.
-/

namespace MulticoreTasks

/-- Ceilings of shared resources. -/
abbrev Ceilings := Table ResourceName Priority

namespace App

/-- The tasks filed under given names, by name; a name that is no key is passed over. -/
def lookUp (app : App) (names : SortedSet TaskName) : List Task := names.toList.filterMap app.task?

/-- The priorities of the tasks filed under given names. -/
def prioritiesOf (app : App) (names : SortedSet TaskName) : List Priority :=
  (app.lookUp names).map (·.priority)

/-- The highest priority among the tasks filed under given names. -/
def ceiling? (app : App) (names : SortedSet TaskName) : Option Priority :=
  match app.prioritiesOf names with
  | [] => none
  | priorities => some (highest priorities)

/-- The ceilings of shared resources. -/
def ceilings (app : App) (sharing : Sharing) : Ceilings :=
  sharing.shared.filterMap fun _ names => app.ceiling? names

end App

theorem App.getElem?_ceilings {app : App} {sharing : Sharing} {r : ResourceName} :
    (app.ceilings sharing)[r]? = sharing.shared[r]?.bind app.ceiling? := by
  simp [ceilings]

/-! ## Clashes between cores -/

/-- Where a task stands among the accessors of a resource. -/
structure Rank where
  priority : Priority
  core : Core
  name : TaskName
  deriving DecidableEq, Repr

namespace Rank

/-- Priority first, then core, then name. -/
instance : Ord Rank :=
  ⟨compareLex (compareOn Rank.priority) (compareLex (compareOn Rank.core) (compareOn Rank.name))⟩

instance : Std.TransOrd Rank :=
  inferInstanceAs (Std.TransCmp
    (compareLex (compareOn Rank.priority) (compareLex (compareOn Rank.core) (compareOn Rank.name))))

instance : Std.LawfulEqOrd Rank where
  eq_of_compare {a b} h := by
    obtain ⟨hp, h⟩ := Ordering.then_eq_eq.1 h
    obtain ⟨hc, hn⟩ := Ordering.then_eq_eq.1 h
    have hp : a.priority = b.priority := Std.LawfulEqOrd.eq_of_compare hp
    have hc : a.core = b.core := Std.LawfulEqOrd.eq_of_compare hc
    have hn : a.name = b.name := Std.LawfulEqOrd.eq_of_compare hn
    cases a; cases b; simp_all

end Rank

/-- The rank of a task. -/
def Task.rank (t : Task) : Rank := ⟨t.priority, t.core, t.name⟩

/-- The first rank that meets a later one at its own priority on another core, with the first it
meets. -/
def clash? : List Rank → Option (Rank × Rank)
  | [] => none
  | first :: rest =>
    match (rest.takeWhile (·.priority = first.priority)).find? (·.core ≠ first.core) with
    | some second => some (first, second)
    | none => clash? rest

namespace App

/-- The ranks of the tasks filed under given names, in increasing order. -/
def ranks (app : App) (names : SortedSet TaskName) : List Rank :=
  (SortedSet.ofList ((app.lookUp names).map Task.rank)).toList

/-- Whether a resource is declared, and declared transferable. -/
def isTransferable (app : App) (resource : ResourceName) : Bool :=
  (app.resource? resource).any (·.transferable)

/-- The clash over a resource with given accessors, if it has one. -/
def conflict? (app : App) (resource : ResourceName) (names : SortedSet TaskName) :
    Option Diagnostic :=
  if app.isTransferable resource then none
  else (clash? (app.ranks names)).map fun (a, b) =>
    .crossCoreConflict resource a.priority a.name a.core b.name b.core

end App

/-! ## The stage -/

namespace Ceilings

/-- The tasks whose priority the target cannot program, by key, then the clashes, by resource. -/
def findings (limits : Limits) (app : App) (sharing : Sharing) : List Diagnostic :=
  (app.taskList.filter fun t => !limits.inRange t.priority).map
      (fun t => .priorityOutOfRange t.name t.priority limits.maxPriority) ++
    sharing.shared.toList.filterMap fun (r, names) => app.conflict? r names

/-- Every ceiling belongs to a shared resource, is attained by one of its accessors and exceeded by
none. -/
def IsTight (ceilings : Ceilings) (app : App) (sharing : Sharing) : Prop :=
  ∀ e ∈ ceilings.entries, ∃ names ∈ sharing.shared[e.1]?,
    (app.prioritiesOf names).all (· ≤ e.2) ∧ (app.prioritiesOf names).contains e.2

instance (ceilings : Ceilings) (app : App) (sharing : Sharing) :
    Decidable (ceilings.IsTight app sharing) := by unfold IsTight; infer_instance

/-- The ceilings of an application with their findings. -/
def checked (limits : Limits) (app : App) (sharing : Sharing) :
    Audited (Ceilings × List Diagnostic) := do
  let ceilings := app.ceilings sharing
  Audited.ensure .ceilingTight (ceilings.IsTight app sharing)
  return (ceilings, findings limits app sharing)

end Ceilings

end MulticoreTasks
