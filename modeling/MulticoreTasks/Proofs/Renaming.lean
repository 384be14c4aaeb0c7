import MulticoreTasks.Proofs.Obligations
import MulticoreTasks.Proofs.Rekeying
import MulticoreTasks.Proofs.StartupWaits

/-!
# Tasks under other names

An application can be written down again with other names for its tasks.  They are then listed in
another order, and every stage walks them in that order.

* `App.rename`     : the application with its tasks, and the targets of their spawns, renamed;
* `App.KeepsApart` : no two tasks get one name;
* `App.task?_rename`, `App.isAccessor_rename`, `App.mem_edges_rename` : tasks, accessors and spawns
  are the former ones, renamed;
* `App.WellFiled.rename`, `App.WellFormed.rename` : and so the application is as good as before;
* `App.needsSync_rename`, `App.needsInit_rename`, … : what it asks for at the start and of its types
  is said without names, and stays the same.
-/

namespace MulticoreTasks

variable {f : TaskName → TaskName}

/-- The spawn of a task under another name. -/
def Spawn.rename (f : TaskName → TaskName) (s : Spawn) : Spawn := { s with target := f s.target }

/-- The task under another name, as are those that it spawns. -/
def Task.rename (f : TaskName → TaskName) (t : Task) : Task :=
  { t with name := f t.name, spawns := t.spawns.map (Spawn.rename f) }

/-- The spawn between tasks under other names. -/
def Edge.rename (f : TaskName → TaskName) (e : Edge) : Edge :=
  ⟨e.sender.rename f, e.spawn.rename f⟩

@[simp] theorem Task.name_rename (t : Task) : (t.rename f).name = f t.name := rfl

@[simp] theorem Task.core_rename (t : Task) : (t.rename f).core = t.core := rfl

@[simp] theorem Task.priority_rename (t : Task) : (t.rename f).priority = t.priority := rfl

@[simp] theorem Edge.sender_rename (e : Edge) : (e.rename f).sender = e.sender.rename f := rfl

@[simp] theorem Edge.target_rename (e : Edge) : (e.rename f).target = f e.target := rfl

@[simp] theorem Edge.route_rename (e : Edge) : (e.rename f).route = e.route := rfl

namespace App

/-- The application with its tasks under other names. -/
def rename (f : TaskName → TaskName) (app : App) : App :=
  { app with tasks := Table.rekey f (app.tasks.map fun _ t => t.rename f) }

/-- No two tasks get one name. -/
def KeepsApart (f : TaskName → TaskName) (app : App) : Prop :=
  ∀ a ∈ app.tasks, ∀ b ∈ app.tasks, f a = f b → a = b

variable {app : App} {limits : Limits} {r : ResourceName}

/-! ## Names of tasks -/

theorem KeepsApart.eq_iff (h : app.KeepsApart f) {a b : TaskName} (ha : a ∈ app.tasks)
    (hb : b ∈ app.tasks) : f a = f b ↔ a = b :=
  ⟨h a ha b hb, congrArg f⟩

theorem WellFiled.name_mem (h : app.WellFiled) {t : Task} (ht : t ∈ app.taskList) :
    t.name ∈ app.tasks :=
  mem_tasks_iff.2 ⟨t, h.task?_name ht⟩

theorem WellFormed.target_mem (hw : app.WellFormed limits) {e : Edge} (he : e ∈ app.edges) :
    e.target ∈ app.tasks := by
  obtain ⟨t, ht, -⟩ := hw.arrives e he
  exact mem_tasks_iff.2 ⟨t, ht⟩

/-! ## Tasks, accessors and spawns -/

section Renamed

variable (hf : app.KeepsApart f)
include hf

theorem task?_rename {key : TaskName} {t : Task} : (app.rename f).task? key = some t ↔
    ∃ name u, app.task? name = some u ∧ f name = key ∧ u.rename f = t := by
  have hkeys : ∀ a ∈ app.tasks.map fun _ t => t.rename f,
      ∀ b ∈ app.tasks.map fun _ t => t.rename f, f a = f b → a = b := by
    intro a ha b hb
    exact hf a (Std.ExtTreeMap.mem_map.1 ha) b (Std.ExtTreeMap.mem_map.1 hb)
  show (Table.rekey f (app.tasks.map fun _ t => t.rename f))[key]? = some t ↔ _
  simp only [Table.getElem?_rekey_eq_some hkeys, Std.ExtTreeMap.getElem?_map,
    Option.map_eq_some_iff]
  constructor
  · rintro ⟨name, ⟨u, hu, rfl⟩, hname⟩
    exact ⟨name, u, hu, hname, rfl⟩
  · rintro ⟨name, u, hu, hname, rfl⟩
    exact ⟨name, ⟨u, hu, rfl⟩, hname⟩

/-- Under the new name of a task stands that task, renamed. -/
theorem task?_rename_of_mem {name : TaskName} (hname : name ∈ app.tasks) :
    (app.rename f).task? (f name) = (app.task? name).map (Task.rename f) := by
  obtain ⟨t, ht⟩ := mem_tasks_iff.1 hname
  rw [ht, Option.map_some]
  exact (task?_rename hf).2 ⟨name, t, ht, rfl, rfl⟩

theorem mem_taskList_rename {t : Task} :
    t ∈ (app.rename f).taskList ↔ ∃ u ∈ app.taskList, u.rename f = t := by
  simp only [mem_taskList, task?_rename hf]
  constructor
  · rintro ⟨key, name, u, hu, -, rfl⟩
    exact ⟨u, ⟨name, hu⟩, rfl⟩
  · rintro ⟨u, ⟨name, hu⟩, rfl⟩
    exact ⟨f name, name, u, hu, rfl, rfl⟩

/-- A task accesses the same resources under its new name. -/
theorem mem_taskList_rename_and (p : Table ResourceName Access → Prop) {t : Task} :
    t ∈ (app.rename f).taskList ∧ p t.resources ↔
      ∃ u, (u ∈ app.taskList ∧ p u.resources) ∧ u.rename f = t := by
  rw [mem_taskList_rename hf]
  constructor
  · rintro ⟨⟨u, hu, rfl⟩, hp⟩
    exact ⟨u, ⟨hu, hp⟩, rfl⟩
  · rintro ⟨u, ⟨hu, hp⟩, rfl⟩
    exact ⟨⟨u, hu, rfl⟩, hp⟩

theorem isAccessor_rename {t : Task} :
    (app.rename f).IsAccessor r t ↔ ∃ u, app.IsAccessor r u ∧ u.rename f = t :=
  mem_taskList_rename_and hf (r ∈ ·)

theorem accesses_rename {access : Access} {t : Task} :
    (app.rename f).Accesses access r t ↔ ∃ u, app.Accesses access r u ∧ u.rename f = t :=
  mem_taskList_rename_and hf (·[r]? = some access)

theorem mem_edges_rename {e : Edge} :
    e ∈ (app.rename f).edges ↔ ∃ d ∈ app.edges, d.rename f = e := by
  simp only [mem_edges, mem_taskList_rename hf]
  constructor
  · rintro ⟨⟨u, hu, hsender⟩, hspawn⟩
    rw [← hsender] at hspawn
    obtain ⟨s, hs, hrenamed⟩ := List.mem_map.1 hspawn
    refine ⟨⟨u, s⟩, ⟨hu, hs⟩, ?_⟩
    rw [Edge.rename, hsender, hrenamed]
  · rintro ⟨d, ⟨hsender, hspawn⟩, rfl⟩
    exact ⟨⟨_, hsender, rfl⟩, List.mem_map_of_mem hspawn⟩

/-- Spawns arrive, so that a renamed one sends what it sent before. -/
theorem messageType?_rename (hw : app.WellFormed limits) {e : Edge} (he : e ∈ app.edges) :
    (app.rename f).messageType? (e.rename f) = app.messageType? e := by
  rw [messageType?, Edge.target_rename, task?_rename_of_mem hf (hw.target_mem he), Option.map_map]
  rfl

/-! ## What is asked of an application -/

theorem WellFiled.rename (h : app.WellFiled) : (app.rename f).WellFiled := by
  refine ⟨h.resource_name, ?_, h.late_core, ?_⟩
  · intro key t ht
    obtain ⟨name, u, hu, rfl, rfl⟩ := (task?_rename hf).1 ht
    rw [Task.name_rename, h.task_name hu]
  · intro key t ht
    obtain ⟨name, u, hu, -, rfl⟩ := (task?_rename hf).1 ht
    rw [Task.core_rename]
    exact h.task_core hu

theorem WellFormed.rename (hw : app.WellFormed limits) : (app.rename f).WellFormed limits := by
  constructor
  case accessed =>
    intro r hr
    obtain ⟨t, ht⟩ := hw.accessed r hr
    exact ⟨_, (isAccessor_rename hf).2 ⟨t, ht, rfl⟩⟩
  case declared =>
    intro r t ht
    obtain ⟨u, hu, -⟩ := (isAccessor_rename hf).1 ht
    exact hw.declared r u hu
  case programmable =>
    intro t ht
    obtain ⟨u, hu, rfl⟩ := (mem_taskList_rename hf).1 ht
    exact hw.programmable u hu
  case apart =>
    intro r resource hr htrans t u ht hu
    obtain ⟨v, hv, rfl⟩ := (isAccessor_rename hf).1 ht
    obtain ⟨w, hw', rfl⟩ := (isAccessor_rename hf).1 hu
    exact hw.apart r resource hr htrans v w hv hw'
  case arrives =>
    intro e he
    obtain ⟨d, hd, rfl⟩ := (mem_edges_rename hf).1 he
    obtain ⟨t, ht, hroute⟩ := hw.arrives d hd
    exact ⟨t.rename f, (task?_rename hf).2 ⟨_, t, ht, rfl, rfl⟩, hroute⟩
  case sized =>
    intro e he
    obtain ⟨d, hd, rfl⟩ := (mem_edges_rename hf).1 he
    exact hw.sized d hd
  case agreed =>
    intro e he e' he' htarget
    obtain ⟨d, hd, rfl⟩ := (mem_edges_rename hf).1 he
    obtain ⟨d', hd', rfl⟩ := (mem_edges_rename hf).1 he'
    exact hw.agreed d hd d' hd' ((hf.eq_iff (hw.target_mem hd) (hw.target_mem hd')).1 htarget)
  case slotted =>
    intro hbound e he hdelayed
    obtain ⟨d, hd, rfl⟩ := (mem_edges_rename hf).1 he
    exact congrArg f (hw.slotted hbound d hd hdelayed)

/-! ## What an application asks for -/

theorem crossesCores_rename : (app.rename f).CrossesCores r ↔ app.CrossesCores r := by
  simp only [CrossesCores, isAccessor_rename hf, exists_and_left, exists_exists_and_eq_and,
    Task.core_rename]

theorem staysOn_rename {core : Core} : (app.rename f).StaysOn r core ↔ app.StaysOn r core := by
  simp only [StaysOn, isAccessor_rename hf, forall_exists_index, and_imp,
    forall_apply_eq_imp_iff₂, Task.core_rename]

theorem interleaves_rename : (app.rename f).Interleaves r ↔ app.Interleaves r := by
  simp only [Interleaves, isAccessor_rename hf, exists_and_left, exists_exists_and_eq_and,
    Task.core_rename, Task.priority_rename]

theorem needsSync_rename {type : TypeName} :
    (app.rename f).NeedsSync type ↔ app.NeedsSync type := by
  constructor
  · rintro ⟨hr, ht, hinterleaves⟩
    obtain ⟨u, hu, -⟩ := (accesses_rename hf).1 ht
    exact .read hr hu ((interleaves_rename hf).1 hinterleaves)
  · rintro ⟨hr, ht, hinterleaves⟩
    exact .read hr ((accesses_rename hf).2 ⟨_, ht, rfl⟩) ((interleaves_rename hf).2 hinterleaves)

/-- Spawns arrive, so that the target of a renamed one is the former target. -/
theorem needsSend_rename (hw : app.WellFormed limits) {type : TypeName} :
    (app.rename f).NeedsSend type ↔ app.NeedsSend type := by
  constructor
  · intro hneeds
    cases hneeds with
    | write hr ht hcross =>
      obtain ⟨u, hu, -⟩ := (accesses_rename hf).1 ht
      exact .write hr hu ((crossesCores_rename hf).1 hcross)
    | handover hr hstays hinit hne =>
      exact .handover hr ((staysOn_rename hf).1 hstays) hinit hne
    | message he ht hleaves =>
      obtain ⟨d, hd, rfl⟩ := (mem_edges_rename hf).1 he
      rw [Edge.target_rename, task?_rename_of_mem hf (hw.target_mem hd),
        Option.map_eq_some_iff] at ht
      obtain ⟨u, hu, rfl⟩ := ht
      have hmessage : app.NeedsSend u.message := .message hd hu hleaves
      exact hmessage
  · intro hneeds
    cases hneeds with
    | write hr ht hcross =>
      exact .write hr ((accesses_rename hf).2 ⟨_, ht, rfl⟩) ((crossesCores_rename hf).2 hcross)
    | handover hr hstays hinit hne =>
      exact .handover hr ((staysOn_rename hf).2 hstays) hinit hne
    | @message e t he ht hleaves =>
      have hedge : e.rename f ∈ (app.rename f).edges := (mem_edges_rename hf).2 ⟨e, he, rfl⟩
      have htarget : (app.rename f).task? (e.rename f).target = some (t.rename f) :=
        (task?_rename hf).2 ⟨_, t, ht, rfl, rfl⟩
      have hmessage : (app.rename f).NeedsSend (t.rename f).message :=
        .message hedge htarget hleaves
      exact hmessage

theorem needsInit_rename {core init : Core} :
    (app.rename f).NeedsInit core init ↔ app.NeedsInit core init := by
  constructor
  · rintro ⟨t, r, resource, ht, hcore, hr, hlate⟩
    obtain ⟨u, hu, rfl⟩ := (isAccessor_rename hf).1 ht
    exact ⟨u, r, resource, hu, hcore, hr, hlate⟩
  · rintro ⟨t, r, resource, ht, hcore, hr, hlate⟩
    exact ⟨t.rename f, r, resource, (isAccessor_rename hf).2 ⟨t, ht, rfl⟩, hcore, hr, hlate⟩

theorem spawnsTo_rename {core on : Core} :
    (app.rename f).SpawnsTo core on ↔ app.SpawnsTo core on := by
  constructor
  · rintro ⟨e, he, hcores⟩
    obtain ⟨d, hd, rfl⟩ := (mem_edges_rename hf).1 he
    exact ⟨d, hd, hcores⟩
  · rintro ⟨e, he, hcores⟩
    exact ⟨e.rename f, (mem_edges_rename hf).2 ⟨e, he, rfl⟩, hcores⟩

end Renamed

end App

end MulticoreTasks
