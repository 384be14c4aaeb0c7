import MulticoreTasks.Resource.Ceiling

/-!
# Ownership

* `Ownership`          : how a used resource is owned: by one task, or by several under a ceiling;
* `Ownership.needsLock` : who has to lock before an access: whoever runs below the ceiling;
* `Sharing.ownerships` : the ownership of every used resource.
-/

namespace MulticoreTasks

/-- How a used resource is owned. -/
inductive Ownership where
  | exclusive (owner : TaskName)
  | shared (ceiling : Priority)
  deriving DecidableEq, Repr

namespace Ownership

/-- The ceiling of a shared resource. -/
def ceiling? : Ownership → Option Priority
  | exclusive _ => none
  | shared ceiling => some ceiling

/-- Whether a task at a priority has to lock before it accesses the resource. -/
def needsLock : Ownership → Priority → Bool
  | exclusive _, _ => false
  | shared ceiling, priority => priority < ceiling

end Ownership

/-- Ownerships of used resources. -/
abbrev Ownerships := Table ResourceName Ownership

/-- The ownership of every exclusive resource, and of every shared one that has a ceiling. -/
def Sharing.ownerships (s : Sharing) (ceilings : Ceilings) : Ownerships :=
  s.exclusive.map (fun _ owner => Ownership.exclusive owner) ∪
    s.shared.filterMap fun r _ => ceilings[r]?.map Ownership.shared

theorem Sharing.getElem?_ownerships {s : Sharing} {ceilings : Ceilings} {r : ResourceName} :
    (s.ownerships ceilings)[r]? =
      (s.shared[r]?.bind fun _ => ceilings[r]?.map Ownership.shared).or
        (s.exclusive[r]?.map Ownership.exclusive) := by
  simp [ownerships, Std.ExtTreeMap.getElem?_union]

end MulticoreTasks
