import MulticoreTasks.App.Declaration

/-!
# Stored applications

A record holds what an application stores, and nothing vouches for it.  It is loaded by declaring
its entries one after the other, resources before tasks and each kind by key, so that a loaded
application is as sound as a declared one.  An entry under a key other than its name is refused
before anything else is asked of it.

* `App.toRecord` : what is stored of an application;
* `Record.load`  : the application of a record, or the refusal of its first bad entry.
-/

namespace MulticoreTasks

/-- What is stored of an application. -/
structure Record where
  cores : SortedSet Core
  resources : Table ResourceName Resource := ∅
  tasks : Table TaskName Task := ∅
  deriving DecidableEq

namespace App

/-- The record of an application. -/
def toRecord (app : App) : Record := ⟨app.cores, app.resources, app.tasks⟩

/-- Declare an entry that was found under a key. -/
def file (app : App) (key : String) (entry : Entry) : Audited (Except DeclarationError App) :=
  if key = entry.name then app.declare entry else pure (.error (.keyMismatch key entry.name))

/-- Declare entries with their keys, up to the first that is refused. -/
def fileAll : App → List (String × Entry) → Audited (Except DeclarationError App)
  | app, [] => pure (.ok app)
  | app, (key, entry) :: rest => do
    match ← app.file key entry with
    | .ok app => app.fileAll rest
    | .error refusal => pure (.error refusal)

end App

namespace Record

/-- The entries of a record with their keys: the resources by key, then the tasks by key. -/
def entries (record : Record) : List (String × Entry) :=
  record.resources.toList.map (fun (key, r) => (key, .resource r)) ++
    record.tasks.toList.map (fun (key, t) => (key, .task t))

/-- The application of a record. -/
def load (record : Record) : Audited (Except DeclarationError App) :=
  App.fileAll { cores := record.cores } record.entries

end Record

end MulticoreTasks
