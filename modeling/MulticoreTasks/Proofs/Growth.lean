import MulticoreTasks.Proofs.Obligations
import MulticoreTasks.Proofs.StartupWaits
import MulticoreTasks.Proofs.TimerQueues

/-!
# Adding to an application

An application that has all entries of another one has its accessors, its spawns and its reasons to
wait as well.  When both are accepted, so has its result what the other one asks for:

* `App.Extends`    : every entry of the first application is one of the second;
* `Analysis.Grows` : the second result asks for all that the first one does, part by part;
* `grows_ofApp`    : the second follows from the first, for well-formed applications;
* `analyze_grows`  : which is what a task comes to that is added to an application.

Types that have to be safe to send are left out: a resource may be handed over by another core at
the start, and need not be any more when a reader on that core joins.
-/

namespace MulticoreTasks

/-- The larger application has all entries of the first one. -/
structure App.Extends (app larger : App) : Prop where
  resource? : ∀ {r resource}, app.resource? r = some resource → larger.resource? r = some resource
  task? : ∀ {key t}, app.task? key = some t → larger.task? key = some t

/-- The larger result asks for all that the first one does. -/
structure Analysis.Grows (a larger : Analysis) : Prop where
  shared : ∀ (r : ResourceName) (c : Priority), a.ownerships[r]? = some (.shared c) →
    ∃ d, larger.ownerships[r]? = some (.shared d) ∧ c ≤ d
  exclusive : ∀ (r : ResourceName) (owner : TaskName), a.ownerships[r]? = some (.exclusive owner) →
    larger.ownerships[r]? = some (.exclusive owner) ∨
      ∃ d, larger.ownerships[r]? = some (.shared d)
  spread : ∀ (r : ResourceName) (core : Core) (cores : SortedSet Core),
    a.locations[r]? = some (.spread core cores) →
      ∃ other on, larger.locations[r]? = some (.spread other on) ∧ ∀ c ∈ cores, c ∈ on
  queue : ∀ task sender n, a.freeQueues.capacity? task sender = some n →
    larger.freeQueues.capacity? task sender = some n
  channel : ∀ (route : Route) (channel : Channel), a.channels[route]? = some channel →
    ∃ l, larger.channels[route]? = some l ∧ (∀ name ∈ channel.tasks, name ∈ l.tasks) ∧
      (∀ name ∈ channel.senders, name ∈ l.senders) ∧
      (∀ type ∈ channel.messageTypes, type ∈ l.messageTypes) ∧ channel.capacity ≤ l.capacity
  timers : ∀ (core : Core) (q : TimerQueue), a.timerQueues[core]? = some q →
    ∃ l, larger.timerQueues[core]? = some l ∧ q.Grows l
  initialization : ∀ core on, a.waitsForInitialization core on = true →
    larger.waitsForInitialization core on = true
  dispatcher : ∀ core on, a.waitsForDispatcher core on = true →
    larger.waitsForDispatcher core on = true
  syncTypes : ∀ type ∈ a.syncTypes, type ∈ larger.syncTypes

variable {app larger : App} {limits : Limits}

/-! ## What is kept of the application -/

namespace App.Extends

variable {r : ResourceName}

theorem insertTask {t : Task} (h : t.name ∉ app.tasks) : app.Extends (app.insertTask t) := by
  refine ⟨id, ?_⟩
  intro key u hu
  have hne : t.name ≠ key := by
    rintro rfl
    exact h (mem_tasks_iff.2 ⟨u, hu⟩)
  rw [task?_insertTask, if_neg hne]
  exact hu

variable (h : app.Extends larger)
include h

theorem mem_resources (hr : r ∈ app.resources) : r ∈ larger.resources := by
  obtain ⟨resource, hr⟩ := mem_resources_iff.1 hr
  exact mem_resources_iff.2 ⟨resource, h.resource? hr⟩

theorem mem_taskList {t : Task} (ht : t ∈ app.taskList) : t ∈ larger.taskList := by
  obtain ⟨key, hkey⟩ := App.mem_taskList.1 ht
  exact App.mem_taskList.2 ⟨key, h.task? hkey⟩

theorem mem_edges {e : Edge} (he : e ∈ app.edges) : e ∈ larger.edges := by
  obtain ⟨hsender, hspawn⟩ := App.mem_edges.1 he
  exact App.mem_edges.2 ⟨h.mem_taskList hsender, hspawn⟩

theorem isAccessor {t : Task} (ht : app.IsAccessor r t) : larger.IsAccessor r t :=
  ⟨h.mem_taskList ht.1, ht.2⟩

theorem crossesCores (hcross : app.CrossesCores r) : larger.CrossesCores r := by
  obtain ⟨t, u, ht, hu, hne⟩ := hcross
  exact ⟨t, u, h.isAccessor ht, h.isAccessor hu, hne⟩

theorem needsSync {type : TypeName} (hneeds : app.NeedsSync type) : larger.NeedsSync type := by
  obtain ⟨hr, ⟨hread, hway⟩, t, u, ht, hu, hdiffer⟩ := hneeds
  exact .read (h.resource? hr) ⟨h.mem_taskList hread, hway⟩
    ⟨t, u, h.isAccessor ht, h.isAccessor hu, hdiffer⟩

theorem needsInit {core init : Core} (hneeds : app.NeedsInit core init) :
    larger.NeedsInit core init := by
  obtain ⟨t, r, resource, ht, hcore, hr, hlate⟩ := hneeds
  exact ⟨t, r, resource, h.isAccessor ht, hcore, h.resource? hr, hlate⟩

theorem spawnsTo {core on : Core} (hspawns : app.SpawnsTo core on) : larger.SpawnsTo core on := by
  obtain ⟨e, he, hcores⟩ := hspawns
  exact ⟨e, h.mem_edges he, hcores⟩

theorem messageType? {e : Edge} {type : TypeName} (htype : app.messageType? e = some type) :
    larger.messageType? e = some type := by
  obtain ⟨t, ht, rfl⟩ := Option.map_eq_some_iff.1 htype
  exact Option.map_eq_some_iff.2 ⟨t, h.task? ht, rfl⟩

end App.Extends

/-! ## Sizes -/

/-- Queues that are kept, and tasks that join them, let no fewer messages be pending. -/
theorem pendingFrom_mono {queues more : FreeQueues} {tasks others : SortedSet TaskName}
    {sender : Core} (htasks : ∀ task ∈ tasks, task ∈ others)
    (hqueues : ∀ task n, queues.capacity? task sender = some n →
      more.capacity? task sender = some n) :
    App.pendingFrom queues tasks sender ≤ App.pendingFrom more others sender := by
  rw [pendingFrom_eq_sum, pendingFrom_eq_sum]
  refine sum_map_le_of_subset (SortedSet.nodup_toList tasks) ?_ ?_
  · intro task htask
    rw [Std.ExtTreeSet.mem_toList] at htask ⊢
    exact htasks task htask
  · intro task _
    rw [FreeQueues.slots, FreeQueues.slots]
    cases hsize : queues.capacity? task sender with
    | none => exact Nat.zero_le _
    | some n => rw [hqueues task n hsize]

/-! ## What is kept of the result -/

theorem spread_of_extends (h : app.Extends larger) (hw : larger.WellFormed limits)
    {r : ResourceName} {core : Core} {cores : SortedSet Core}
    (hspread : (Analysis.ofApp limits app).locations[r]? = some (.spread core cores)) :
    ∃ other on, (Analysis.ofApp limits larger).locations[r]? = some (.spread other on) ∧
      ∀ c ∈ cores, c ∈ on := by
  obtain ⟨resource, hr, hlocate⟩ := exists_resource_of_location hspread
  have hcross : app.CrossesCores r := (isCrossCore_iff hlocate).1 rfl
  obtain ⟨t, u, ht, -⟩ := h.crossesCores hcross
  have hlocations := hw.getElem?_locations (h.resource? hr)
  rcases locate_accessCores ht resource.lateCore? with ⟨c, hstays, -⟩ | ⟨-, lowest, -, -, hon⟩
  · exact absurd (h.crossesCores hcross) hstays.not_crossesCores
  · refine ⟨_, _, hlocations.trans hon, ?_⟩
    intro c hc
    rcases locate_cases hlocate with ⟨_, hsingle, -⟩ | ⟨_, -, heq⟩
    · cases hsingle
    · cases heq
      obtain ⟨v, hv, rfl⟩ := mem_accessCores_iff.1 hc
      exact mem_accessCores_iff.2 ⟨v, h.isAccessor hv, rfl⟩

section Accepted

variable (h : app.Extends larger) (hw : app.WellFormed limits) (hw' : larger.WellFormed limits)
include h hw hw'

/-- A free queue keeps its size, whichever spawn comes first now: all that fill it agree. -/
theorem capacity?_of_extends {task : TaskName} {sender : Core} {n : UInt8}
    (hn : app.freeQueues.capacity? task sender = some n) :
    larger.freeQueues.capacity? task sender = some n := by
  obtain ⟨⟨e, he, htarget, hsender⟩, hall⟩ := (capacity?_eq_some_iff hw).1 hn
  have hfeeds : e.Feeds larger task sender := ⟨h.mem_edges he, htarget, hsender⟩
  refine (capacity?_eq_some_iff hw').2 ⟨⟨e, hfeeds⟩, fun f hf => ?_⟩
  exact (hf.capacity_eq hw' hfeeds).trans (hall e ⟨he, htarget, hsender⟩)

theorem channel_of_extends {route : Route} {channel : Channel}
    (hchannel : (app.channels app.freeQueues)[route]? = some channel) :
    ∃ l, (larger.channels larger.freeQueues)[route]? = some l ∧
      (∀ name ∈ channel.tasks, name ∈ l.tasks) ∧ (∀ name ∈ channel.senders, name ∈ l.senders) ∧
      (∀ type ∈ channel.messageTypes, type ∈ l.messageTypes) ∧ channel.capacity ≤ l.capacity := by
  obtain ⟨⟨e, he, hroute⟩, -⟩ := App.channels_eq_some_iff.1 hchannel
  have hmem : route ∈ larger.channels larger.freeQueues :=
    App.mem_channels.2 ⟨e, h.mem_edges he, hroute⟩
  obtain ⟨l, hl⟩ := Table.mem_iff_exists.1 hmem
  have htasks : ∀ name ∈ channel.tasks, name ∈ l.tasks := by
    intro name hname
    obtain ⟨f, hf, hkeys⟩ := (App.mem_tasks_channel hchannel).1 hname
    exact (App.mem_tasks_channel hl).2 ⟨f, h.mem_edges hf, hkeys⟩
  refine ⟨l, hl, htasks, ?_, ?_, ?_⟩
  · intro name hname
    obtain ⟨f, hf, hkeys⟩ := (App.mem_senders_channel hchannel).1 hname
    exact (App.mem_senders_channel hl).2 ⟨f, h.mem_edges hf, hkeys⟩
  · intro type htype
    obtain ⟨f, hf, hkey, hmessage⟩ := (App.mem_messageTypes_channel hchannel).1 htype
    exact (App.mem_messageTypes_channel hl).2 ⟨f, h.mem_edges hf, hkey, h.messageType? hmessage⟩
  · rw [App.capacity_channel hchannel, App.capacity_channel hl]
    exact pendingFrom_mono htasks fun task n => capacity?_of_extends h hw hw'

/-- All delayed spawns of a task have the priority of that task, so that others do not change it. -/
theorem timerQueue_of_extends {core : Core} {q : TimerQueue}
    (hq : (Analysis.ofApp limits app).timerQueues[core]? = some q) :
    ∃ l, (Analysis.ofApp limits larger).timerQueues[core]? = some l ∧ q.Grows l := by
  have hsub : ∀ e ∈ app.delayedFrom core, e ∈ larger.delayedFrom core := by
    intro e he
    obtain ⟨he, hkeys⟩ := App.mem_delayedFrom.1 he
    exact App.mem_delayedFrom.2 ⟨h.mem_edges he, hkeys⟩
  obtain ⟨⟨e, he⟩, rfl⟩ := (timerQueues_eq_some_iff hw).1 hq
  refine ⟨_, (timerQueues_eq_some_iff hw').2 ⟨⟨e, hsub e he⟩, rfl⟩, ?_⟩
  refine TimerQueue.grows_ofEdges hsub (fun f _ => UInt8.le_refl _) ?_
  intro f hf g hg htarget
  obtain ⟨t, ht, -, hpriority⟩ := hw'.arrives f (App.mem_delayedFrom.1 hf).1
  obtain ⟨u, hu, -, hother⟩ := hw'.arrives g (App.mem_delayedFrom.1 hg).1
  rw [htarget, hu] at ht
  cases ht
  rw [← hpriority, ← hother]

/-- When an application has all entries of another one and both are well formed, its result asks
for all that the other one does. -/
theorem grows_ofApp (hf : app.WellFiled) (hf' : larger.WellFiled) :
    (Analysis.ofApp limits app).Grows (.ofApp limits larger) := by
  constructor
  case shared =>
    intro r c hc
    obtain ⟨hr, ⟨t, u, ht, hu, hne⟩, ⟨v, hv, rfl⟩, -⟩ :=
      (ownerships_shared_iff limits hf.resolved).1 hc
    rcases ownerships_cases limits hf'.resolved (h.mem_resources hr) (h.isAccessor ht) with
      ⟨-, hone⟩ | ⟨d, hd, -, hbound⟩
    · exact absurd (congrArg Task.name (hone u (h.isAccessor hu))).symm hne
    · exact ⟨d, hd, hbound v (h.isAccessor hv)⟩
  case exclusive =>
    intro r owner howner
    obtain ⟨hr, ⟨t, ht⟩, hone⟩ := (ownerships_exclusive_iff limits).1 howner
    rw [← hone t ht]
    refine (ownerships_cases limits hf'.resolved (h.mem_resources hr) (h.isAccessor ht)).imp ?_ ?_
    · exact And.left
    · rintro ⟨d, hd, -⟩
      exact ⟨d, hd⟩
  case spread =>
    intro r core cores
    exact spread_of_extends h hw'
  case queue =>
    intro task sender n
    exact capacity?_of_extends h hw hw'
  case channel =>
    intro route channel
    exact channel_of_extends h hw hw'
  case timers =>
    intro core q
    exact timerQueue_of_extends h hw hw'
  case initialization =>
    intro core on hwait
    obtain ⟨hne, hneeds⟩ := waits_initialization_ofApp.1 hwait
    exact waits_initialization_ofApp.2 ⟨hne, h.needsInit hneeds⟩
  case dispatcher =>
    intro core on hwait
    obtain ⟨hne, hspawns⟩ := waits_spawn_ofApp.1 hwait
    exact waits_spawn_ofApp.2 ⟨hne, h.spawnsTo hspawns⟩
  case syncTypes =>
    intro type htype
    exact (mem_syncTypes_iff hw' hf').2 (h.needsSync ((mem_syncTypes_iff hw hf).1 htype))

end Accepted

/-- When a task is added to an application and both are accepted, the result asks for all that it
did before. -/
theorem analyze_grows (h : app.Reachable) {t : Task} (hadd : (app.addTask t).value = .ok larger)
    {ledger later : Ledger} {a b : Analysis}
    (ha : (ledger.settle (analyze limits app)).1 = .ok (.ok a))
    (hb : (later.settle (analyze limits larger)).1 = .ok (.ok b)) : a.Grows b := by
  have hfiled : larger.WellFiled := h.filed.addTask hadd
  obtain ⟨hw, rfl⟩ := h.filed.settle_analyze_iff.1 ha
  obtain ⟨hw', rfl⟩ := hfiled.settle_analyze_iff.1 hb
  obtain ⟨hname, -, rfl⟩ := App.addTask_eq_ok_iff.1 hadd
  exact grows_ofApp (App.Extends.insertTask hname) hw hw' h.filed hfiled

namespace Relay

/-- A task that reads the bus above all others and logs as well. -/
def alarm : Task where
  name := "alarm"
  core := ⟨0⟩
  priority := 3
  resources := (∅ : Table ResourceName Access).insert "bus" .read
  spawns := [⟨"log", ⟨1⟩, 2, 4, .immediate⟩]

/-- The relay with an alarm. -/
def alarmed : App := Relay.app.insertTask alarm

theorem accepted_alarmed (ledger : Ledger) :
    (ledger.settle (analyze .default alarmed)).1 = .ok (.ok (.ofApp .default alarmed)) := by
  rw [Ledger.settle_analyze, Except.ok.injEq]
  exact analyze_eq_ok_iff.2 ⟨by decide +kernel, by decide +kernel, rfl⟩

end Relay

/-- With the alarm the ceiling of the bus rises, and logging keeps its queue. -/
theorem analyze_grows_relay :
    (Analysis.ofApp .default Relay.app).Grows (.ofApp .default Relay.alarmed) ∧
      (Analysis.ofApp .default Relay.app).ownerships["bus"]? = some (.shared 2) ∧
      (Analysis.ofApp .default Relay.alarmed).ownerships["bus"]? = some (.shared 3) ∧
      (Analysis.ofApp .default Relay.alarmed).freeQueues.capacity? "log" ⟨0⟩ = some 4 := by
  have hadd : (Relay.app.addTask Relay.alarm).value = .ok Relay.alarmed :=
    App.addTask_eq_ok_iff.2 ⟨by decide +kernel, by decide +kernel, rfl⟩
  exact ⟨analyze_grows Relay.reachable hadd (Relay.accepted ∅) (Relay.accepted_alarmed ∅),
    by decide +kernel, by decide +kernel, by decide +kernel⟩

end MulticoreTasks
