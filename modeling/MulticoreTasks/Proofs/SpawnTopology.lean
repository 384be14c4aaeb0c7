import MulticoreTasks.Proofs.Conservation
import MulticoreTasks.Proofs.Gathering

/-!
# The topology of any application

What channels, free queues and message types come to when nothing is asked of the spawns: targets
may be undeclared, capacities zero or at odds, and a spawn may go elsewhere than its target runs.

* `App.SizesAt`, `App.FirstSizes` : the spawns that size a queue, and the first of them by the name
  of its sender and then by its place among the spawns of that one;
* `Topology.IsOfSpawns` : channels, queues and types, read off the spawns;
* `topology_of_spawns`  : this is what every application is given, and what one walk over its spawns
  gathers.
-/

namespace MulticoreTasks

/-! ## The first spawn that sizes a queue -/

namespace App

/-- The `i`-th spawn of the stored task `t` starts the task from the core, with a capacity. -/
structure SizesAt (app : App) (task : TaskName) (core : Core) (t : Task) (i : Nat) (spawn : Spawn) :
    Prop where
  stored : t ∈ app.taskList
  core_eq : t.core = core
  place : t.spawns[i]? = some spawn
  target_eq : spawn.target = task
  sized : spawn.capacity ≠ 0

/-- Of the spawns with a capacity that start the task from the core, the first: by the name of the
sender, and then in the order in which this one declares its spawns. -/
def FirstSizes (app : App) (task : TaskName) (core : Core) (spawn : Spawn) : Prop :=
  ∃ t i, app.SizesAt task core t i spawn ∧ ∀ u j other, app.SizesAt task core u j other →
    compare t.name u.name = .lt ∨ t = u ∧ i ≤ j

variable {app : App} {task : TaskName} {core : Core} {spawn spawn' : Spawn}

theorem FirstSizes.unique (h : app.FirstSizes task core spawn)
    (h' : app.FirstSizes task core spawn') : spawn = spawn' := by
  obtain ⟨t, i, hsizes, hfirst⟩ := h
  obtain ⟨u, j, hsizes', hfirst'⟩ := h'
  rcases hfirst u j spawn' hsizes' with hlt | ⟨rfl, hij⟩
  · rcases hfirst' t i spawn hsizes with hgt | ⟨rfl, -⟩
    · exact absurd (hgt.symm.trans (Std.OrientedCmp.gt_of_lt hlt)) (by simp)
    · exact absurd (hlt.symm.trans Std.ReflOrd.compare_self) (by simp)
  · rcases hfirst' t i spawn hsizes with hgt | ⟨-, hji⟩
    · exact absurd (hgt.symm.trans Std.ReflOrd.compare_self) (by simp)
    · have hplace := hsizes'.place
      rw [Nat.le_antisymm hji hij, hsizes.place] at hplace
      exact Option.some.inj hplace

/-- A search through the spawns of one task stops at the first place that it can stop at. -/
theorem place_of_find? {t : Task} {p : Edge → Bool} {e : Edge} (h : t.edges.find? p = some e) :
    e.sender = t ∧ p e = true ∧ ∃ i : Nat, t.spawns[i]? = some e.spawn ∧
      ∀ (j : Nat) (other : Spawn), t.spawns[j]? = some other → p ⟨t, other⟩ = true → i ≤ j := by
  rw [Task.edges, List.find?_map, Option.map_eq_some_iff] at h
  obtain ⟨spawn, hfind, rfl⟩ := h
  obtain ⟨hpass, i, hi, rfl, hbefore⟩ := List.find?_eq_some_iff_getElem.1 hfind
  refine ⟨rfl, hpass, i, List.getElem?_eq_getElem hi, fun j other hj hother => ?_⟩
  by_contra hlt
  obtain ⟨hj', rfl⟩ := List.getElem?_eq_some_iff.1 hj
  have hfails := hbefore j (Nat.lt_of_not_le hlt)
  rw [Function.comp_apply, hother] at hfails
  cases hfails

theorem exists_capacity?_freeQueues_iff : (∃ n, app.freeQueues.capacity? task core = some n) ↔
    task ∈ app.tasks ∧ ∃ e ∈ app.edges, e.target = task ∧ e.sender.core = core ∧
      e.spawn.capacity ≠ 0 := by
  rw [← Option.isSome_iff_exists, capacity?_freeQueues_eq_find?, Option.isSome_map,
    List.find?_isSome]
  simp only [decide_eq_true_eq]
  constructor
  · rintro ⟨e, he, hdeclared, hcap, hcore, rfl⟩
    exact ⟨hdeclared, e, he, rfl, hcore, hcap⟩
  · rintro ⟨hdeclared, e, he, rfl, hcore, hcap⟩
    exact ⟨e, he, hdeclared, hcap, hcore, rfl⟩

theorem SizesAt.mem_edges {t : Task} {i : Nat} (h : app.SizesAt task core t i spawn) :
    (⟨t, spawn⟩ : Edge) ∈ app.edges :=
  App.mem_edges.2 ⟨h.stored, List.mem_of_getElem? h.place⟩

theorem exists_firstSizes_of_capacity? (h : app.WellFiled) {n : UInt8}
    (hn : app.freeQueues.capacity? task core = some n) :
    ∃ spawn, app.FirstSizes task core spawn ∧ spawn.capacity = n := by
  rw [capacity?_freeQueues_eq_find?, edges, List.find?_flatMap, Option.map_eq_some_iff] at hn
  obtain ⟨e, hfind, rfl⟩ := hn
  obtain ⟨t, ht, hte, hfirst⟩ := exists_first_of_findSome? (taskList_pairwise h) hfind
  obtain ⟨rfl, hpass, i, hi, hplaces⟩ := place_of_find? hte
  obtain ⟨hdeclared, hcap, hcore, rfl⟩ := of_decide_eq_true hpass
  refine ⟨e.spawn, ⟨e.sender, i, ⟨ht, hcore, hi, rfl, hcap⟩, ?_⟩, rfl⟩
  intro u j other hother
  -- whoever else sizes the queue passes the test of the search
  have hknown : other.target ∈ app.tasks := by
    rw [hother.target_eq]
    exact hdeclared
  have hpasses := decide_eq_true (And.intro hknown
    (And.intro hother.sized (And.intro hother.core_eq hother.target_eq)))
  have hmem : (⟨u, other⟩ : Edge) ∈ u.edges :=
    Task.mem_edges.2 ⟨rfl, List.mem_of_getElem? hother.place⟩
  rcases hfirst u hother.stored (fun hnone => List.find?_eq_none.1 hnone _ hmem hpasses) with
    rfl | hlt
  · exact Or.inr ⟨rfl, hplaces j other hother.place hpasses⟩
  · exact Or.inl hlt

/-- A queue has the size that the first spawn with a capacity declares. -/
theorem capacity?_freeQueues_eq_some_iff (h : app.WellFiled) {n : UInt8} :
    app.freeQueues.capacity? task core = some n ↔
      task ∈ app.tasks ∧ ∃ spawn, app.FirstSizes task core spawn ∧ spawn.capacity = n := by
  constructor
  · intro hn
    exact ⟨(exists_capacity?_freeQueues_iff.1 ⟨n, hn⟩).1, exists_firstSizes_of_capacity? h hn⟩
  · rintro ⟨hdeclared, spawn, hfirst, rfl⟩
    obtain ⟨t, i, hsizes, -⟩ := id hfirst
    obtain ⟨m, hm⟩ := exists_capacity?_freeQueues_iff.2 ⟨hdeclared, ⟨t, spawn⟩, hsizes.mem_edges,
      hsizes.target_eq, hsizes.core_eq, hsizes.sized⟩
    obtain ⟨other, hother, rfl⟩ := exists_firstSizes_of_capacity? h hm
    rw [hm, hother.unique hfirst]

/-- A task that stands among the queues has one. -/
theorem sizes_ne_empty {sizes : Table Core UInt8} (h : app.freeQueues[task]? = some sizes) :
    sizes ≠ ∅ := by
  obtain ⟨⟨e, he, htarget⟩, -⟩ := Table.getElem?_map_groupBy_eq_some.1 h
  obtain ⟨he, hdeclared, hcap⟩ := mem_sizedEdges.1 he
  rw [htarget] at hdeclared
  obtain ⟨n, hn⟩ := exists_capacity?_freeQueues_iff.2 ⟨hdeclared, e, he, htarget, rfl, hcap⟩
  rw [FreeQueues.capacity?, h, Option.bind_some] at hn
  rintro rfl
  rw [Std.ExtTreeMap.getElem?_empty] at hn
  cases hn

end App

/-! ## The topology, read off the spawns -/

/-- Channels, queues and types are those of the spawns, whether these are in order or not. -/
structure Topology.IsOfSpawns (app : App) (t : Topology) : Prop where
  channel_iff : ∀ route, route ∈ t.channels ↔ ∃ e ∈ app.edges, e.route = route
  tasks_iff : ∀ (route : Route) (channel : Channel) name, t.channels[route]? = some channel →
    (name ∈ channel.tasks ↔ ∃ e ∈ app.edges, e.route = route ∧ e.target = name)
  senders_iff : ∀ (route : Route) (channel : Channel) name, t.channels[route]? = some channel →
    (name ∈ channel.senders ↔ ∃ e ∈ app.edges, e.route = route ∧ e.sender.name = name)
  /-- An undeclared target adds no type to its channel. -/
  types_iff : ∀ (route : Route) (channel : Channel) type, t.channels[route]? = some channel →
    (type ∈ channel.messageTypes ↔ ∃ e ∈ app.edges, e.route = route ∧
      ∃ r, app.task? e.target = some r ∧ r.message = type)
  /-- A task that has no queue on the sending core adds nothing. -/
  capacity_eq : ∀ (route : Route) (channel : Channel), t.channels[route]? = some channel →
    channel.capacity = (channel.tasks.toList.map fun task =>
      ((t.freeQueues.capacity? task route.sender).getD 0).toNat).sum
  queued_iff : ∀ task core, (∃ n, t.freeQueues.capacity? task core = some n) ↔
    task ∈ app.tasks ∧
      ∃ e ∈ app.edges, e.target = task ∧ e.sender.core = core ∧ e.spawn.capacity ≠ 0
  /-- Only the first spawn counts, wherever and at whatever priority it starts the task. -/
  size_iff : ∀ task core n, t.freeQueues.capacity? task core = some n ↔
    task ∈ app.tasks ∧ ∃ spawn, app.FirstSizes task core spawn ∧ spawn.capacity = n
  filled : ∀ (task : TaskName) (sizes : Table Core UInt8),
    t.freeQueues[task]? = some sizes → sizes ≠ ∅
  sendTypes_iff : ∀ type, type ∈ t.sendTypes ↔ ∃ e ∈ app.edges, e.spawn.core ≠ e.sender.core ∧
    ∃ r, app.task? e.target = some r ∧ r.message = type

variable {app : App}

theorem FreeQueues.slots_eq_getD (queues : FreeQueues) (task : TaskName) (core : Core) :
    queues.slots (task, core) = ((queues.capacity? task core).getD 0).toNat := by
  rw [slots]
  cases queues.capacity? task core <;> rfl

theorem isOfSpawns_ofApp (h : app.WellFiled) : (Topology.ofApp app).IsOfSpawns app := by
  constructor
  case channel_iff =>
    intro route
    exact App.mem_channels
  case tasks_iff =>
    intro route channel name hchannel
    exact App.mem_tasks_channel hchannel
  case senders_iff =>
    intro route channel name hchannel
    exact App.mem_senders_channel hchannel
  case types_iff =>
    intro route channel type hchannel
    simp only [App.mem_messageTypes_channel hchannel, App.messageType?, Option.map_eq_some_iff]
  case capacity_eq =>
    intro route channel hchannel
    rw [App.capacity_channel hchannel, pendingFrom_eq_sum]
    simp only [FreeQueues.slots_eq_getD]
    rfl
  case queued_iff =>
    intro task core
    exact App.exists_capacity?_freeQueues_iff
  case size_iff =>
    intro task core n
    exact App.capacity?_freeQueues_eq_some_iff h
  case filled =>
    intro task sizes hsizes
    exact App.sizes_ne_empty hsizes
  case sendTypes_iff =>
    intro type
    simp only [Topology.ofApp, SortedSet.mem_ofList, List.mem_filterMap, List.mem_filter,
      decide_eq_true_eq, App.messageType?, Option.map_eq_some_iff, and_assoc]

/-- Every application, in order or not, is given the topology that one walk over its spawns gathers,
and this is the one of its spawns. -/
theorem topology_of_spawns (h : app.Reachable) (limits : Limits) (ledger : Ledger) :
    (ledger.settle (Topology.checked limits app)).1 =
        .ok (app.edges.foldl (Topology.Walk.visit limits app) {}).close ∧
      (app.edges.foldl (Topology.Walk.visit limits app) {}).close.1.IsOfSpawns app := by
  rw [Topology.Walk.close_foldl_visit]
  constructor
  · rw [Ledger.settle_of_checks_eq (Topology.checks_checked limits app)]
    rfl
  · exact isOfSpawns_ofApp h.filed

namespace Relay

def echo : Task where
  name := "echo"
  core := ⟨0⟩
  priority := 1
  spawns := [⟨"log", ⟨0⟩, 7, 6, .immediate⟩, ⟨"lost", ⟨1⟩, 2, 3, .immediate⟩,
    ⟨"log", ⟨1⟩, 2, 0, .immediate⟩]

/-- Beside polling, a task starts logging where it does not run, then a task that is not declared,
then logging without a capacity. -/
def echoed : App := Relay.app.insertTask echo

theorem reachable_echoed : echoed.Reachable := .addTask (t := echo) reachable rfl

end Relay

/-- The spawn that goes astray sizes the queue, and so the channel that it does not run through. -/
theorem topology_of_spawns_relay :
    ∃ t findings, ((∅ : Ledger).settle (Topology.checked .default Relay.echoed)).1 =
        .ok (t, findings) ∧
      t.IsOfSpawns Relay.echoed ∧
      t.freeQueues.capacity? "log" ⟨0⟩ = some 6 ∧
      t.freeQueues.capacity? "lost" ⟨0⟩ = none ∧
      (t.channels[(⟨⟨1⟩, 2, ⟨0⟩⟩ : Route)]?.map fun channel =>
        (channel.tasks.toList, channel.capacity)) = some (["log", "lost"], 6) := by
  obtain ⟨hsettle, hspawns⟩ := topology_of_spawns Relay.reachable_echoed .default ∅
  exact ⟨_, _, hsettle, hspawns, by decide +kernel, by decide +kernel, by decide +kernel⟩

end MulticoreTasks
