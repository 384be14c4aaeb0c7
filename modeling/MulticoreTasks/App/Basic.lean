import MulticoreTasks.App.Core

/-!
# Applications

An application runs tasks on the cores of one target.

* `Resource` : a shared value, and the core that initialises it if that happens at run time;
* `Spawn`    : the right of a task to start another one, through a queue of fixed size;
* `Task`     : a task with its core, its priority, the resources it accesses and its spawns;
* `App`      : the cores, and the resources and tasks by the key they are filed under;
* `Use`, `Edge` : one access of a task to a resource, one spawn of a task, as the stages walk them.

Nothing here asks that an application makes sense: a key may differ from the name of its entry, a
spawn may go nowhere.  `App/Declaration.lean` has the guarded ways in.
-/

namespace MulticoreTasks

/-- How a task accesses a resource. -/
inductive Access where
  | read
  | write
  deriving DecidableEq, Repr

/-- When a resource gets its first value: before the start, or from the start-up code of a core. -/
inductive Init where
  | eager
  | late (core : Core)
  deriving DecidableEq, Repr

/-- A declared resource. -/
structure Resource where
  name : ResourceName
  valueType : TypeName
  init : Init := .eager
  /-- The value may pass between cores that access it at one priority. -/
  transferable : Bool := false
  deriving DecidableEq, Repr

/-- The core that initialises a resource at run time. -/
def Resource.lateCore? (r : Resource) : Option Core :=
  match r.init with
  | .eager => none
  | .late core => some core

/-- How a spawned instance gets started. -/
inductive Dispatch where
  /-- As soon as its priority allows. -/
  | immediate
  /-- After a delay, through the timer queue of the sender's core. -/
  | delayed
  deriving DecidableEq, Repr

/-- A spawn out of a task: whom it starts, where it believes that one runs, and how many instances
may be pending. -/
structure Spawn where
  target : TaskName
  core : Core
  priority : Priority
  capacity : UInt8
  dispatch : Dispatch
  deriving DecidableEq, Repr

/-- A task. -/
structure Task where
  name : TaskName
  core : Core
  priority : Priority
  /-- The type of what an instance is started with. -/
  message : TypeName := "()"
  resources : Table ResourceName Access := ∅
  spawns : List Spawn := []
  deriving DecidableEq

/-- An application. -/
structure App where
  cores : SortedSet Core := ∅
  resources : Table ResourceName Resource := ∅
  tasks : Table TaskName Task := ∅
  deriving DecidableEq

/-- One access of a task to a resource. -/
structure Use where
  task : Task
  resource : ResourceName
  access : Access
  deriving DecidableEq

/-- One spawn of a task. -/
structure Edge where
  sender : Task
  spawn : Spawn
  deriving DecidableEq

namespace Task

/-- The accesses of a task, by resource. -/
def uses (t : Task) : List Use := t.resources.toList.map fun (r, access) => ⟨t, r, access⟩

/-- The spawns of a task, in the order they were declared. -/
def edges (t : Task) : List Edge := t.spawns.map fun spawn => ⟨t, spawn⟩

theorem mem_uses {t : Task} {u : Use} :
    u ∈ t.uses ↔ u.task = t ∧ t.resources[u.resource]? = some u.access := by
  obtain ⟨s, r, a⟩ := u
  simp only [uses, List.mem_map, Std.ExtTreeMap.mem_toList_iff_getElem?_eq_some, Prod.exists,
    Use.mk.injEq]
  constructor
  · rintro ⟨_, _, h, rfl, rfl, rfl⟩
    exact ⟨rfl, h⟩
  · rintro ⟨rfl, h⟩
    exact ⟨_, _, h, rfl, rfl, rfl⟩

theorem mem_edges {t : Task} {e : Edge} : e ∈ t.edges ↔ e.sender = t ∧ e.spawn ∈ t.spawns := by
  obtain ⟨s, d⟩ := e
  simp only [edges, List.mem_map, Edge.mk.injEq]
  constructor
  · rintro ⟨_, h, rfl, rfl⟩
    exact ⟨rfl, h⟩
  · rintro ⟨rfl, h⟩
    exact ⟨_, h, rfl, rfl⟩

end Task

namespace App

/-- The application without resources and tasks on given cores. -/
def ofCores (cores : List Core) : App := { cores := SortedSet.ofList cores }

/-- The task filed under a key. -/
def task? (app : App) (key : TaskName) : Option Task := app.tasks[key]?

/-- The resource filed under a key. -/
def resource? (app : App) (key : ResourceName) : Option Resource := app.resources[key]?

/-- The stored tasks, by key. -/
def taskList (app : App) : List Task := Table.values app.tasks

/-- Every access to a resource, by task and then by resource. -/
def uses (app : App) : List Use := app.taskList.flatMap Task.uses

/-- Every spawn, by sender and then in the order of declaration. -/
def edges (app : App) : List Edge := app.taskList.flatMap Task.edges

/-- Change the task filed under a key, which stays where it is. -/
def amendTask (app : App) (key : TaskName) (amend : Task → Task) : App :=
  { app with tasks := app.tasks.modify key amend }

theorem mem_taskList {app : App} {t : Task} : t ∈ app.taskList ↔ ∃ key, app.task? key = some t :=
  Table.mem_values

theorem mem_uses {app : App} {u : Use} :
    u ∈ app.uses ↔ u.task ∈ app.taskList ∧ u.task.resources[u.resource]? = some u.access := by
  simp only [uses, List.mem_flatMap, Task.mem_uses]
  exact ⟨fun ⟨_, ht, e, h⟩ => e ▸ ⟨ht, h⟩, fun ⟨ht, h⟩ => ⟨_, ht, rfl, h⟩⟩

theorem mem_edges {app : App} {e : Edge} :
    e ∈ app.edges ↔ e.sender ∈ app.taskList ∧ e.spawn ∈ e.sender.spawns := by
  simp only [edges, List.mem_flatMap, Task.mem_edges]
  exact ⟨fun ⟨_, ht, e, h⟩ => e ▸ ⟨ht, h⟩, fun ⟨ht, h⟩ => ⟨_, ht, rfl, h⟩⟩

end App

end MulticoreTasks
