import MulticoreTasks.App.Blueprint
import MulticoreTasks.App.Record

/-!
# The applications that can be declared

* `App.Reachable`   : an application that was had through the guarded operations: declared entry by
  entry, loaded from a record, or built from a blueprint;
* `App.WellFiled`   : every entry stands under its own name, and the cores that tasks run on and
  that late resources are initialised by are declared;
* `Reachable.filed` : the first is the second.  What the guards do not ask for (that accesses and
  spawns go somewhere) does not follow.
* `App.Amended`     : an application whose tasks were overwritten in place besides, without any
  guard; what is left of the invariant is what it says of resources (`Amended.lateDeclared`).

The invariant is carried by one step of each kind: `insertResource`, `insertTask`, and the
attachment of spawns to stored tasks.  `Relay.app` is a small application that was declared entry by
entry.
-/

namespace MulticoreTasks

namespace App

/-- Every entry stands under its own name and names declared cores only. -/
structure WellFiled (app : App) : Prop where
  resource_name : ∀ {key r}, app.resource? key = some r → r.name = key
  task_name : ∀ {key t}, app.task? key = some t → t.name = key
  late_core : ∀ {key r core}, app.resource? key = some r → r.lateCore? = some core →
    core ∈ app.cores
  task_core : ∀ {key t}, app.task? key = some t → t.core ∈ app.cores

/-- The cores that initialise late resources are declared. -/
def LateDeclared (app : App) : Prop :=
  ∀ key r core, app.resource? key = some r → r.lateCore? = some core → core ∈ app.cores

/-- The applications that the guarded operations give. -/
inductive Reachable : App → Prop
  | ofCores (cores : List Core) : Reachable (ofCores cores)
  | addResource {app extended : App} {r : Resource} :
      Reachable app → (app.addResource r).value = .ok extended → Reachable extended
  | addTask {app extended : App} {t : Task} :
      Reachable app → (app.addTask t).value = .ok extended → Reachable extended
  | load {record : Record} {app : App} : record.load.value = .ok app → Reachable app
  | build {count : UInt8} {steps : List Blueprint.Step} {app : App} :
      ((Blueprint.ofCoreCount count).attemptAll steps).value.2.build = .ok app → Reachable app

/-- The applications that the guarded operations give when stored tasks may be overwritten in
between, where they stand and in whatever way. -/
inductive Amended : App → Prop
  | reachable {app : App} : Reachable app → Amended app
  | addResource {app extended : App} {r : Resource} :
      Amended app → (app.addResource r).value = .ok extended → Amended extended
  | addTask {app extended : App} {t : Task} :
      Amended app → (app.addTask t).value = .ok extended → Amended extended
  | amendTask {app : App} (key : TaskName) (amend : Task → Task) :
      Amended app → Amended (app.amendTask key amend)

/-! ## What a declaration comes to -/

/-- All that an attempt to declare a resource can come to. -/
theorem tryResource_cases (app : App) (r : Resource) :
    (r.name ∈ app.resources ∧
      (app.tryResource r).value = (some (.duplicateResource r.name), app)) ∨
    (r.name ∉ app.resources ∧ ∃ core, r.lateCore? = some core ∧ core ∉ app.cores ∧
      (app.tryResource r).value = (some (.undeclaredCore core), app)) ∨
    (r.name ∉ app.resources ∧ (∀ core, r.lateCore? = some core → core ∈ app.cores) ∧
      (app.tryResource r).value = (none, app.insertResource r)) := by
  unfold tryResource
  by_cases hname : r.name ∈ app.resources
  · exact Or.inl ⟨hname, by simp [hname]⟩
  · rw [if_neg hname]
    cases hlate : r.lateCore? with
    | none => exact Or.inr (Or.inr ⟨hname, by simp, rfl⟩)
    | some core =>
      by_cases hcore : core ∈ app.cores
      · exact Or.inr (Or.inr ⟨hname, by simp [hcore], by simp [Option.filter, hcore]⟩)
      · exact Or.inr (Or.inl ⟨hname, core, rfl, hcore, by simp [Option.filter, hcore]⟩)

/-- All that an attempt to declare a task can come to. -/
theorem tryTask_cases (app : App) (t : Task) :
    (t.name ∈ app.tasks ∧ (app.tryTask t).value = (some (.duplicateTask t.name), app)) ∨
    (t.name ∉ app.tasks ∧ t.core ∉ app.cores ∧
      (app.tryTask t).value = (some (.undeclaredCore t.core), app)) ∨
    (t.name ∉ app.tasks ∧ t.core ∈ app.cores ∧
      (app.tryTask t).value = (none, app.insertTask t)) := by
  unfold tryTask
  by_cases hname : t.name ∈ app.tasks
  · exact Or.inl ⟨hname, by simp [hname]⟩
  · by_cases hcore : t.core ∈ app.cores
    · exact Or.inr (Or.inr ⟨hname, hcore, by simp [hname, hcore]⟩)
    · exact Or.inr (Or.inl ⟨hname, hcore, by simp [hname, hcore]⟩)

/-- What is refused leaves the application as it was. -/
theorem kept_of_refused {app : App} {entry : Entry} (h : (app.attempt entry).value.1 ≠ none) :
    (app.attempt entry).value.2 = app := by
  cases entry with
  | resource r =>
    show (app.tryResource r).value.2 = app
    replace h : (app.tryResource r).value.1 ≠ none := h
    rcases tryResource_cases app r with ⟨-, hvalue⟩ | ⟨-, core, -, -, hvalue⟩ | ⟨-, -, hvalue⟩
    · rw [hvalue]
    · rw [hvalue]
    · rw [hvalue] at h
      exact absurd rfl h
  | task t =>
    show (app.tryTask t).value.2 = app
    replace h : (app.tryTask t).value.1 ≠ none := h
    rcases tryTask_cases app t with ⟨-, hvalue⟩ | ⟨-, -, hvalue⟩ | ⟨-, -, hvalue⟩
    · rw [hvalue]
    · rw [hvalue]
    · rw [hvalue] at h
      exact absurd rfl h

theorem value_declare_eq (app : App) (entry : Entry) :
    (app.declare entry).value = unlessRefused (app.attempt entry).value := by
  cases entry <;> rfl

/-- Declaring an entry tells all that becomes of an attempt. -/
theorem value_attempt (app : App) (entry : Entry) : (app.attempt entry).value =
    match (app.declare entry).value with
    | .ok next => (none, next)
    | .error refusal => (some refusal, app) := by
  rw [value_declare_eq]
  cases hvalue : (app.attempt entry).value with
  | mk outcome next =>
    cases outcome with
    | none => rfl
    | some refusal =>
      have hkept : (app.attempt entry).value.2 = app := kept_of_refused (by simp [hvalue])
      rw [hvalue] at hkept
      replace hkept : next = app := hkept
      rw [hkept]
      rfl

theorem addResource_eq_ok_iff {app extended : App} {r : Resource} :
    (app.addResource r).value = .ok extended ↔
      r.name ∉ app.resources ∧ (∀ core, r.lateCore? = some core → core ∈ app.cores) ∧
        extended = app.insertResource r := by
  rw [addResource, Audited.value_map]
  rcases tryResource_cases app r with
    ⟨hname, hvalue⟩ | ⟨-, core, hlate, hcore, hvalue⟩ | ⟨hname, hlate, hvalue⟩
  · rw [hvalue]
    exact iff_of_false nofun fun h => h.1 hname
  · rw [hvalue]
    exact iff_of_false nofun fun h => hcore (h.2.1 core hlate)
  · rw [hvalue, unlessRefused, Except.ok.injEq, eq_comm, and_iff_right hname, and_iff_right hlate]

theorem addTask_eq_ok_iff {app extended : App} {t : Task} :
    (app.addTask t).value = .ok extended ↔
      t.name ∉ app.tasks ∧ t.core ∈ app.cores ∧ extended = app.insertTask t := by
  rw [addTask, Audited.value_map]
  rcases tryTask_cases app t with
    ⟨hname, hvalue⟩ | ⟨-, hcore, hvalue⟩ | ⟨hname, hcore, hvalue⟩
  · rw [hvalue]
    exact iff_of_false nofun fun h => h.1 hname
  · rw [hvalue]
    exact iff_of_false nofun fun h => hcore h.2.1
  · rw [hvalue, unlessRefused, Except.ok.injEq, eq_comm, and_iff_right hname, and_iff_right hcore]

theorem resource?_insertResource {app : App} {r : Resource} {key : ResourceName} :
    (app.insertResource r).resource? key = if r.name = key then some r else app.resource? key := by
  simp [resource?, insertResource, Std.ExtTreeMap.getElem?_insert]

theorem task?_insertTask {app : App} {t : Task} {key : TaskName} :
    (app.insertTask t).task? key = if t.name = key then some t else app.task? key := by
  simp [task?, insertTask, Std.ExtTreeMap.getElem?_insert]

/-! ## The invariant -/

theorem wellFiled_of_empty {app : App} (hr : app.resources = ∅) (ht : app.tasks = ∅) :
    app.WellFiled := by
  constructor <;> intros <;> simp_all [resource?, task?]

theorem WellFiled.lateDeclared {app : App} (h : app.WellFiled) : app.LateDeclared :=
  fun _ _ _ => h.late_core

theorem LateDeclared.insertResource {app : App} (h : app.LateDeclared) {r : Resource}
    (hr : ∀ core, r.lateCore? = some core → core ∈ app.cores) :
    (app.insertResource r).LateDeclared := by
  intro key s core hs hcore
  rw [resource?_insertResource] at hs
  split at hs
  · cases hs; exact hr core hcore
  · exact h key s core hs hcore

theorem WellFiled.insertResource {app : App} (h : app.WellFiled) {r : Resource}
    (hr : ∀ core, r.lateCore? = some core → core ∈ app.cores) :
    (app.insertResource r).WellFiled := by
  refine ⟨?_, h.task_name, h.lateDeclared.insertResource hr _ _ _, h.task_core⟩
  intro key s hs
  rw [resource?_insertResource] at hs
  split at hs
  · next hname => cases hs; exact hname
  · exact h.resource_name hs

theorem WellFiled.insertTask {app : App} (h : app.WellFiled) {t : Task}
    (ht : t.core ∈ app.cores) : (app.insertTask t).WellFiled := by
  refine ⟨h.resource_name, ?_, h.late_core, ?_⟩
  · intro key u hu
    rw [task?_insertTask] at hu
    split at hu
    · next hname => cases hu; exact hname
    · exact h.task_name hu
  · intro key u hu
    rw [task?_insertTask] at hu
    split at hu
    · cases hu; exact ht
    · exact h.task_core hu

theorem WellFiled.addResource {app extended : App} (h : app.WellFiled) {r : Resource}
    (hadd : (app.addResource r).value = .ok extended) : extended.WellFiled := by
  obtain ⟨-, hlate, rfl⟩ := addResource_eq_ok_iff.1 hadd
  exact h.insertResource hlate

theorem WellFiled.addTask {app extended : App} (h : app.WellFiled) {t : Task}
    (hadd : (app.addTask t).value = .ok extended) : extended.WellFiled := by
  obtain ⟨-, hcore, rfl⟩ := addTask_eq_ok_iff.1 hadd
  exact h.insertTask hcore

theorem WellFiled.declare {app extended : App} (h : app.WellFiled) {entry : Entry}
    (hdecl : (app.declare entry).value = .ok extended) : extended.WellFiled := by
  cases entry with
  | resource r => exact h.addResource hdecl
  | task t => exact h.addTask hdecl

theorem WellFiled.fileAll {app extended : App} (h : app.WellFiled)
    {entries : List (String × Entry)} (hfile : (app.fileAll entries).value = .ok extended) :
    extended.WellFiled := by
  induction entries generalizing app with
  | nil => cases hfile; exact h
  | cons e entries ih =>
    obtain ⟨key, entry⟩ := e
    simp only [App.fileAll, Audited.value_bind] at hfile
    split at hfile
    · next next hnext =>
      unfold file at hnext
      split at hnext
      · exact ih (h.declare hnext) hfile
      · cases hnext
    · cases hfile

/-! ## Blueprints -/

theorem WellFiled.mapTasks {app : App} (h : app.WellFiled) {f : TaskName → Task → Task}
    (hname : ∀ key t, (f key t).name = t.name) (hcore : ∀ key t, (f key t).core = t.core) :
    { app with tasks := app.tasks.map f }.WellFiled := by
  have key : ∀ {key t}, ({ app with tasks := app.tasks.map f } : App).task? key = some t →
      ∃ u, app.task? key = some u ∧ f key u = t := by
    intro key t ht
    simpa [task?] using ht
  refine ⟨h.resource_name, ?_, h.late_core, ?_⟩
  · intro k t ht
    obtain ⟨u, hu, rfl⟩ := key ht
    rw [hname]
    exact h.task_name hu
  · intro k t ht
    obtain ⟨u, hu, rfl⟩ := key ht
    rw [hcore]
    exact h.task_core hu

end App

/-- An attempt leaves an application as sound as it was. -/
theorem App.WellFiled.attempt {app : App} (h : app.WellFiled) (entry : Entry) :
    (app.attempt entry).value.2.WellFiled := by
  rw [value_attempt]
  split
  · next next hnext => exact h.declare hnext
  · exact h

theorem Blueprint.filed_attempt {b : Blueprint} (h : b.app.WellFiled) (s : Step) :
    (b.attempt s).value.2.app.WellFiled := by
  cases s with
  | resource r => exact h.attempt (.resource r)
  | task d =>
    have happ : (b.attempt (.task d)).value.2.app = (b.app.attempt (.task d.task)).value.2 := by
      show (b.tryTask d).value.2.app = (b.app.tryTask d.task).value.2
      rw [Blueprint.tryTask, Audited.value_bind]
      rcases (b.app.tryTask d.task).value with ⟨_ | refusal, app⟩ <;> rfl
    rw [happ]
    exact h.attempt (.task d.task)
  | discard d => exact h

theorem Blueprint.filed_attemptAll {b : Blueprint} (h : b.app.WellFiled) (steps : List Step) :
    (b.attemptAll steps).value.2.app.WellFiled := by
  induction steps generalizing b with
  | nil => exact h
  | cons s steps ih => exact ih (filed_attempt h s)

theorem Blueprint.filed_build {b : Blueprint} {app : App} (h : b.app.WellFiled)
    (hbuild : b.build = .ok app) : app.WellFiled := by
  unfold build at hbuild
  split at hbuild
  · cases hbuild
  · cases hbuild
    exact h.mapTasks (fun _ _ => rfl) (fun _ _ => rfl)

/-- Whatever the guarded operations give is filed under its names, on declared cores. -/
theorem App.Reachable.filed {app : App} (h : app.Reachable) : app.WellFiled := by
  induction h with
  | ofCores cores => exact wellFiled_of_empty rfl rfl
  | addResource _ hadd ih => exact ih.addResource hadd
  | addTask _ hadd ih => exact ih.addTask hadd
  | load hload => exact (wellFiled_of_empty rfl rfl).fileAll hload
  | build hbuild =>
    exact Blueprint.filed_build (Blueprint.filed_attemptAll (wellFiled_of_empty rfl rfl) _) hbuild

/-- Whatever becomes of tasks, a late resource was declared by its guard. -/
theorem App.Amended.lateDeclared {app : App} (h : app.Amended) : app.LateDeclared := by
  induction h with
  | reachable h => exact h.filed.lateDeclared
  | addResource _ hadd ih =>
    obtain ⟨-, hlate, rfl⟩ := addResource_eq_ok_iff.1 hadd
    exact ih.insertResource hlate
  | addTask _ hadd ih =>
    obtain ⟨-, -, rfl⟩ := addTask_eq_ok_iff.1 hadd
    exact ih
  | amendTask _ _ _ ih => exact ih

/-! ## A small application -/

namespace Relay

def bus : Resource := { name := "bus", valueType := "Bus" }

def log : Task where
  name := "log"
  core := ⟨1⟩
  priority := 2
  resources := (∅ : Table ResourceName Access).insert "bus" .write

def poll : Task where
  name := "poll"
  core := ⟨0⟩
  priority := 1
  resources := (∅ : Table ResourceName Access).insert "bus" .read
  spawns := [⟨"log", ⟨1⟩, 2, 4, .immediate⟩, ⟨"log", ⟨1⟩, 2, 4, .delayed⟩]

/-- A task polls a bus on one core, and starts one that logs on another, at once and later. -/
def app : App :=
  (((App.ofCores [⟨0⟩, ⟨1⟩]).insertResource bus).insertTask log).insertTask poll

theorem reachable : app.Reachable := by
  have hbus : ((App.ofCores [⟨0⟩, ⟨1⟩]).insertResource bus).Reachable :=
    .addResource (r := bus) (.ofCores [⟨0⟩, ⟨1⟩]) rfl
  have hlog : (((App.ofCores [⟨0⟩, ⟨1⟩]).insertResource bus).insertTask log).Reachable :=
    .addTask (t := log) hbus rfl
  exact .addTask (t := poll) hlog rfl

end Relay

end MulticoreTasks
