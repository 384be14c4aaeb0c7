import MulticoreTasks.App.Basic
import MulticoreTasks.Audit.Check
import MulticoreTasks.Fault

/-!
# Who shares what

The accessors of a resource decide how it is kept: by one task alone, by several under a ceiling, or
by nobody, which is a finding.

* `App.usesOf`, `App.accessors` : the accesses to a resource, and the names of the tasks behind
  them;
* `Usage`                       : what the accessors make of a resource;
* `Sharing`                     : the used resources, those of one task apart from those of several;
* `Sharing.checked`             : the sharing of an application with its findings.

Only declared resources take part.  An access to another one is an inconsistency, not a finding.
-/

namespace MulticoreTasks

namespace App

/-- The accesses to a resource. -/
def usesOf (app : App) (resource : ResourceName) : List Use :=
  app.uses.filter (·.resource = resource)

/-- The names of the tasks that access a resource. -/
def accessors (app : App) (resource : ResourceName) : SortedSet TaskName :=
  SortedSet.ofList ((app.usesOf resource).map (·.task.name))

theorem mem_usesOf {app : App} {r : ResourceName} {u : Use} :
    u ∈ app.usesOf r ↔ u ∈ app.uses ∧ u.resource = r := by
  simp [usesOf]

theorem mem_accessors {app : App} {r : ResourceName} {name : TaskName} :
    name ∈ app.accessors r ↔ ∃ u ∈ app.usesOf r, u.task.name = name := by
  simp [accessors]

end App

/-- What its accessors make of a resource. -/
inductive Usage where
  | unused
  | exclusive (owner : TaskName)
  | shared (accessors : SortedSet TaskName)
  deriving DecidableEq

namespace Usage

/-- The usage of a resource with given accessors. -/
def ofAccessors (accessors : SortedSet TaskName) : Usage :=
  match accessors.toList with
  | [] => unused
  | [owner] => exclusive owner
  | _ :: _ :: _ => shared accessors

/-- The only accessor. -/
def owner? : Usage → Option TaskName
  | exclusive owner => some owner
  | _ => none

/-- The accessors, when there are several. -/
def sharers? : Usage → Option (SortedSet TaskName)
  | shared accessors => some accessors
  | _ => none

end Usage

/-- How the tasks of an application use a resource. -/
def App.usage (app : App) (resource : ResourceName) : Usage := .ofAccessors (app.accessors resource)

/-- The used resources of an application. -/
structure Sharing where
  /-- The resources of one task, with that task. -/
  exclusive : Table ResourceName TaskName := ∅
  /-- The resources of several tasks, with those tasks. -/
  shared : Table ResourceName (SortedSet TaskName) := ∅
  deriving DecidableEq

namespace Sharing

/-- Whether a resource is used at all. -/
def isUsed (s : Sharing) (resource : ResourceName) : Bool :=
  s.exclusive.contains resource || s.shared.contains resource

/-- The sharing of an application's resources. -/
def ofApp (app : App) : Sharing where
  exclusive := app.resources.filterMap fun r _ => (app.usage r).owner?
  shared := app.resources.filterMap fun r _ => (app.usage r).sharers?

theorem getElem?_exclusive {app : App} {r : ResourceName} :
    (ofApp app).exclusive[r]? = (app.resource? r).bind fun _ => (app.usage r).owner? := by
  simp [ofApp, App.resource?]

theorem getElem?_shared {app : App} {r : ResourceName} :
    (ofApp app).shared[r]? = (app.resource? r).bind fun _ => (app.usage r).sharers? := by
  simp [ofApp, App.resource?]

/-- The resources that no task accesses, by name. -/
def findings (app : App) : List Diagnostic :=
  (app.resources.keys.filter fun r => app.usage r = .unused).map .unusedResource

/-- No resource is both exclusive and shared, a shared one has several accessors, and together with
the unused ones these are all. -/
def IsPartition (s : Sharing) (app : App) (unused : List Diagnostic) : Prop :=
  (∀ r ∈ s.exclusive.keys, r ∉ s.shared) ∧ (∀ names ∈ s.shared.values, 2 ≤ names.size) ∧
    s.exclusive.size + s.shared.size + unused.length = app.resources.size

instance (s : Sharing) (app : App) (unused : List Diagnostic) :
    Decidable (s.IsPartition app unused) := by unfold IsPartition; infer_instance

/-- The sharing of an application and its unused resources. -/
def checked (app : App) : Audited (Sharing × List Diagnostic) := do
  let sharing := ofApp app
  let unused := findings app
  Audited.ensure .sharingPartition (sharing.IsPartition app unused)
  return (sharing, unused)

end Sharing

end MulticoreTasks
