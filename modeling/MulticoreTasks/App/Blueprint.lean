import MulticoreTasks.App.Declaration

/-!
# Applications declared by name

A blueprint is an application in the making.  Its tasks name those they spawn, and may do so before
these are declared; where a target runs and at what priority is filled in at the end, when all of
them are known.

* `Clause`, `TaskDraft` : a task as it is declared, clause by clause;
* `PendingSpawn`        : a spawn whose target has not been looked up yet;
* `Blueprint.Step`      : what can be done with a blueprint before it is built;
* `Blueprint.build`     : the application, or the first target that was never declared.

A task that is refused leaves no pending spawns behind, so the spawns attached to a task are those
of its own draft.
-/

namespace MulticoreTasks

/-- One clause of a task's declaration. -/
inductive Clause where
  | message (type : TypeName)
  | reads (resource : ResourceName)
  | writes (resource : ResourceName)
  | spawns (target : TaskName) (capacity : UInt8)
  | schedules (target : TaskName) (capacity : UInt8)
  deriving DecidableEq, Repr

/-- A task as it is declared: clauses count in their order, the last word on a resource or on the
message holds. -/
structure TaskDraft where
  name : TaskName
  core : Core
  priority : Priority
  clauses : List Clause := []
  deriving DecidableEq, Repr

/-- A spawn whose target is known by name only. -/
structure PendingSpawn where
  sender : TaskName
  target : TaskName
  capacity : UInt8
  dispatch : Dispatch
  deriving DecidableEq, Repr

/-- A task with one more clause; spawns are not attached yet. -/
def Task.withClause (t : Task) : Clause → Task
  | .message type => { t with message := type }
  | .reads r => { t with resources := t.resources.insert r .read }
  | .writes r => { t with resources := t.resources.insert r .write }
  | .spawns _ _ => t
  | .schedules _ _ => t

/-- The spawn that a clause of the task `sender` asks for. -/
def Clause.pending? (sender : TaskName) : Clause → Option PendingSpawn
  | .spawns target capacity => some ⟨sender, target, capacity, .immediate⟩
  | .schedules target capacity => some ⟨sender, target, capacity, .delayed⟩
  | _ => none

namespace TaskDraft

/-- The declared task, without its spawns. -/
def task (d : TaskDraft) : Task :=
  d.clauses.foldl Task.withClause { name := d.name, core := d.core, priority := d.priority }

/-- The spawns that a draft asks for, in the order of its clauses. -/
def pending (d : TaskDraft) : List PendingSpawn := d.clauses.filterMap (Clause.pending? d.name)

end TaskDraft

/-- The spawn, once its target is found. -/
def PendingSpawn.resolve? (p : PendingSpawn) (app : App) : Option Spawn :=
  (app.task? p.target).map fun target =>
    ⟨p.target, target.core, target.priority, p.capacity, p.dispatch⟩

/-- A spawn names a task that was never declared. -/
structure MissingTarget where
  target : TaskName
  deriving DecidableEq, Repr

/-- The wording of a missing target. -/
def MissingTarget.message (m : MissingTarget) : String :=
  s!"spawn target `{m.target}` is not a declared task"

/-- An application in the making. -/
structure Blueprint where
  app : App
  pending : List PendingSpawn := []
  deriving DecidableEq

namespace Blueprint

/-- The empty blueprint on the cores below `count`. -/
def ofCoreCount (count : UInt8) : Blueprint :=
  { app := App.ofCores ((List.range count.toNat).map fun i => ⟨UInt8.ofNat i⟩) }

/-- Try to declare a resource. -/
def tryResource (b : Blueprint) (r : Resource) : Audited (Option DeclarationError × Blueprint) := do
  let (refusal, app) ← b.app.tryResource r
  return (refusal, { b with app })

/-- Try to declare a task; its spawns are only remembered once it is filed. -/
def tryTask (b : Blueprint) (d : TaskDraft) : Audited (Option DeclarationError × Blueprint) := do
  let (refusal, app) ← b.app.tryTask d.task
  match refusal with
  | some refusal => return (some refusal, { b with app })
  | none => return (none, { app, pending := b.pending ++ d.pending })

/-- What can be done with a blueprint before it is built. -/
inductive Step where
  | resource (resource : Resource)
  | task (draft : TaskDraft)
  /-- Think better of a task. -/
  | discard (draft : TaskDraft)
  deriving DecidableEq, Repr

/-- Try one step: the refusal, if there is one, and the blueprint after it; a draft that is
discarded changes nothing. -/
def attempt (b : Blueprint) : Step → Audited (Option DeclarationError × Blueprint)
  | .resource r => b.tryResource r
  | .task d => b.tryTask d
  | .discard _ => pure (none, b)

/-- Try steps one after the other: what became of each, and the blueprint at the end. -/
def attemptAll : Blueprint → List Step → Audited (List (Option DeclarationError) × Blueprint)
  | b, [] => return ([], b)
  | b, s :: rest => do
    let (outcome, after) ← b.attempt s
    let (outcomes, last) ← after.attemptAll rest
    return (outcome :: outcomes, last)

/-- The spawns of one task, with their targets looked up. -/
def spawnsOf (b : Blueprint) (sender : TaskName) : List Spawn :=
  (b.pending.filter (·.sender = sender)).filterMap (·.resolve? b.app)

/-- Attach the pending spawns to their senders; the first target that is not declared is reported.
-/
def build (b : Blueprint) : Except MissingTarget App :=
  match b.pending.find? (·.target ∉ b.app.tasks) with
  | some p => .error ⟨p.target⟩
  | none =>
    .ok { b.app with
      tasks := b.app.tasks.map fun key t => { t with spawns := t.spawns ++ b.spawnsOf key } }

end Blueprint

end MulticoreTasks
