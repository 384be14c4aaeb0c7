import Mathlib.Algebra.BigOperators.Group.List.Basic
import Mathlib.Algebra.GroupWithZero.Nat
import MulticoreTasks.Proofs.Acceptance
import MulticoreTasks.Proofs.Flattening

/-!
# Channels and free queues of an accepted application

Channels are gathered by where spawns believe that their targets run, free queues by the names of
the targets.  In an accepted application the two agree:

* `Edge.RunsOver`, `Edge.Feeds` : the route that a spawn takes by its target, and the queue that it
  takes messages from;
* `Channels.pairs`, `FreeQueues.pairs` : the tasks that channels list, and those that have queues,
  each with the core that they are started from;
* `pairs_perm`          : these are the same, and none comes twice;
* `Analysis.Conserves`  : what this comes to, and `analyze_conserves` that an accepted application
  has it.

What makes the first two agree is that every spawn arrives (`App.WellFormed.arrives`): the route
that it believes in is then the one of its target, so that a target cannot sit on two routes from
one core.
-/

namespace MulticoreTasks

/-- The spawn goes from the sender of the route to a task on its receiver, at its priority. -/
def Edge.RunsOver (app : App) (route : Route) (e : Edge) : Prop :=
  e ∈ app.edges ∧ ∃ t, app.task? e.target = some t ∧ route = ⟨t.core, t.priority, e.sender.core⟩

/-- The spawn is one of the task from the core. -/
def Edge.Feeds (app : App) (task : TaskName) (sender : Core) (e : Edge) : Prop :=
  e ∈ app.edges ∧ e.target = task ∧ e.sender.core = sender

/-- Channels and free queues stand for the spawns, one by one, and hold as much. -/
structure Analysis.Conserves (app : App) (a : Analysis) : Prop where
  channel_iff : ∀ route, route ∈ a.channels ↔ ∃ e : Edge, e.RunsOver app route
  tasks_iff : ∀ (route : Route) (channel : Channel) name, a.channels[route]? = some channel →
    (name ∈ channel.tasks ↔ ∃ e : Edge, e.RunsOver app route ∧ e.target = name)
  senders_iff : ∀ (route : Route) (channel : Channel) name, a.channels[route]? = some channel →
    (name ∈ channel.senders ↔ ∃ e : Edge, e.RunsOver app route ∧ e.sender.name = name)
  types_iff : ∀ (route : Route) (channel : Channel) type, a.channels[route]? = some channel →
    (type ∈ channel.messageTypes ↔
      ∃ (e : Edge) (t : Task), e.RunsOver app route ∧ app.task? e.target = some t ∧
        t.message = type)
  filled : ∀ (route : Route) (channel : Channel), a.channels[route]? = some channel →
    channel.tasks ≠ ∅ ∧ channel.senders ≠ ∅ ∧ channel.messageTypes ≠ ∅
  queue_exists_iff : ∀ task sender, (∃ n, a.freeQueues.capacity? task sender = some n) ↔
    ∃ e : Edge, e.Feeds app task sender
  queue_iff : ∀ task sender n, a.freeQueues.capacity? task sender = some n ↔
    (∃ e : Edge, e.Feeds app task sender) ∧
      ∀ e : Edge, e.Feeds app task sender → e.spawn.capacity = n
  /-- One channel from the core lists a task with a queue there: that to where the task runs. -/
  carried : ∀ task sender n, a.freeQueues.capacity? task sender = some n →
    ∃ t, app.task? task = some t ∧ ∀ route : Route,
      (route.sender = sender ∧
        ∃ channel : Channel, a.channels[route]? = some channel ∧ task ∈ channel.tasks) ↔
      route = ⟨t.core, t.priority, sender⟩
  /-- No channel lists a task without a queue. -/
  queued : ∀ (route : Route) (channel : Channel) task, a.channels[route]? = some channel →
    task ∈ channel.tasks → ∃ n, a.freeQueues.capacity? task route.sender = some n
  capacity_eq : ∀ (route : Route) (channel : Channel), a.channels[route]? = some channel →
    channel.capacity =
      total (channel.tasks.toList.filterMap fun task => a.freeQueues.capacity? task route.sender)
  total_eq : (a.channels.values.map Channel.capacity).sum =
    total (a.freeQueues.values.flatMap Table.values)
  /-- The walk through nested channels lists each of them, from route to later route. -/
  listed : ∀ (route : Route) (channel : Channel),
    (route, channel) ∈ Channels.flatten a.channels.nested ↔ a.channels[route]? = some channel
  increasing : (Channels.flatten a.channels.nested).Pairwise fun x y => x.1.Before y.1

variable {app : App} {limits : Limits} {task : TaskName} {sender : Core} {route : Route}
  {channel : Channel}

/-! ## Routes -/

/-- Where all spawns arrive, each goes over the route that it believes in. -/
theorem Edge.runsOver_iff (hw : app.WellFormed limits) {e : Edge} :
    e.RunsOver app route ↔ e ∈ app.edges ∧ e.route = route := by
  refine and_congr_right fun he => ?_
  obtain ⟨t, ht, hcore, hpriority⟩ := hw.arrives e he
  have hroute : e.route = ⟨t.core, t.priority, e.sender.core⟩ := by
    rw [Edge.route, hcore, hpriority]
  constructor
  · rintro ⟨u, hu, rfl⟩
    rw [ht] at hu
    cases hu
    exact hroute
  · rintro rfl
    exact ⟨t, ht, hroute⟩

theorem mem_tasks_iff_runsOver (hw : app.WellFormed limits) {name : TaskName}
    (h : (app.channels app.freeQueues)[route]? = some channel) :
    name ∈ channel.tasks ↔ ∃ e : Edge, e.RunsOver app route ∧ e.target = name := by
  simp only [App.mem_tasks_channel h, Edge.runsOver_iff hw, and_assoc]

theorem mem_senders_iff_runsOver (hw : app.WellFormed limits) {name : TaskName}
    (h : (app.channels app.freeQueues)[route]? = some channel) :
    name ∈ channel.senders ↔ ∃ e : Edge, e.RunsOver app route ∧ e.sender.name = name := by
  simp only [App.mem_senders_channel h, Edge.runsOver_iff hw, and_assoc]

theorem mem_messageTypes_iff_runsOver (hw : app.WellFormed limits) {type : TypeName}
    (h : (app.channels app.freeQueues)[route]? = some channel) : type ∈ channel.messageTypes ↔
      ∃ (e : Edge) (t : Task), e.RunsOver app route ∧ app.task? e.target = some t ∧
        t.message = type := by
  simp only [App.mem_messageTypes_channel h, Edge.runsOver_iff hw, App.messageType?,
    Option.map_eq_some_iff, and_assoc, exists_and_left]

/-- A channel is there for a spawn, whose target, sender and type it lists. -/
theorem channel_filled (hw : app.WellFormed limits)
    (h : (app.channels app.freeQueues)[route]? = some channel) :
    channel.tasks ≠ ∅ ∧ channel.senders ≠ ∅ ∧ channel.messageTypes ≠ ∅ := by
  obtain ⟨⟨e, he, hroute⟩, -⟩ := App.channels_eq_some_iff.1 h
  have hruns : e.RunsOver app route := (Edge.runsOver_iff hw).2 ⟨he, hroute⟩
  obtain ⟨-, t, ht, -⟩ := id hruns
  refine ⟨?_, ?_, ?_⟩
  · exact SortedSet.ne_empty_of_mem ((mem_tasks_iff_runsOver hw h).2 ⟨e, hruns, rfl⟩)
  · exact SortedSet.ne_empty_of_mem ((mem_senders_iff_runsOver hw h).2 ⟨e, hruns, rfl⟩)
  · exact SortedSet.ne_empty_of_mem ((mem_messageTypes_iff_runsOver hw h).2 ⟨e, t, hruns, ht, rfl⟩)

/-! ## Queues -/

theorem Edge.Feeds.exists_task (hw : app.WellFormed limits) {e : Edge}
    (h : e.Feeds app task sender) : ∃ t, app.task? task = some t := by
  obtain ⟨he, rfl, -⟩ := h
  obtain ⟨t, ht, -⟩ := hw.arrives e he
  exact ⟨t, ht⟩

theorem Edge.Feeds.capacity_eq (hw : app.WellFormed limits) {e f : Edge}
    (he : e.Feeds app task sender) (hf : f.Feeds app task sender) :
    e.spawn.capacity = f.spawn.capacity := by
  obtain ⟨he, htarget, hcore⟩ := he
  obtain ⟨hf, rfl, rfl⟩ := hf
  exact hw.agreed e he f hf htarget hcore

theorem capacity?_eq_some_iff (hw : app.WellFormed limits) {n : UInt8} :
    app.freeQueues.capacity? task sender = some n ↔
      (∃ e : Edge, e.Feeds app task sender) ∧
        ∀ e : Edge, e.Feeds app task sender → e.spawn.capacity = n := by
  constructor
  · intro h
    obtain ⟨e, he, htarget, hcore, rfl⟩ := App.exists_edge_of_capacity? h
    have hfeeds : e.Feeds app task sender := ⟨he, htarget, hcore⟩
    exact ⟨⟨e, hfeeds⟩, fun f hf => hf.capacity_eq hw hfeeds⟩
  · rintro ⟨⟨e, hfeeds⟩, hall⟩
    obtain ⟨t, ht⟩ := hfeeds.exists_task hw
    obtain ⟨he, rfl, rfl⟩ := hfeeds
    obtain ⟨f, hf, hfirst, htarget, hcore⟩ := App.exists_firstSized? he (hw.sized e he)
    rw [App.capacity?_eq_firstSized? (App.mem_tasks_iff.2 ⟨t, ht⟩), hfirst, Option.map_some,
      hall f ⟨hf, htarget, hcore⟩]

theorem exists_capacity?_iff (hw : app.WellFormed limits) :
    (∃ n, app.freeQueues.capacity? task sender = some n) ↔ ∃ e : Edge, e.Feeds app task sender := by
  constructor
  · rintro ⟨n, hn⟩
    exact ((capacity?_eq_some_iff hw).1 hn).1
  · rintro ⟨e, he⟩
    exact ⟨_, (capacity?_eq_some_iff hw).2 ⟨⟨e, he⟩, fun f hf => hf.capacity_eq hw he⟩⟩

/-- The channels that list a task from a core: only the one of the route to where that task runs. -/
theorem lists_iff (hw : app.WellFormed limits) {t : Task} (ht : app.task? task = some t)
    (hfed : ∃ e : Edge, e.Feeds app task sender) :
    (route.sender = sender ∧ ∃ channel, (app.channels app.freeQueues)[route]? = some channel ∧
      task ∈ channel.tasks) ↔ route = ⟨t.core, t.priority, sender⟩ := by
  constructor
  · rintro ⟨rfl, channel, hchannel, hmem⟩
    obtain ⟨e, ⟨-, u, hu, hroute⟩, rfl⟩ := (mem_tasks_iff_runsOver hw hchannel).1 hmem
    rw [ht] at hu
    cases hu
    rw [hroute]
  · rintro rfl
    obtain ⟨e, he, rfl, rfl⟩ := hfed
    have hruns : e.RunsOver app ⟨t.core, t.priority, e.sender.core⟩ := ⟨he, t, ht, rfl⟩
    obtain ⟨-, hroute⟩ := (Edge.runsOver_iff hw).1 hruns
    have hchannel := App.getElem?_channels_route he app.freeQueues
    rw [hroute] at hchannel
    exact ⟨rfl, _, hchannel, (mem_tasks_iff_runsOver hw hchannel).2 ⟨e, hruns, rfl⟩⟩

theorem exists_feeds (hw : app.WellFormed limits)
    (h : (app.channels app.freeQueues)[route]? = some channel) (hmem : task ∈ channel.tasks) :
    ∃ e : Edge, e.Feeds app task route.sender := by
  obtain ⟨e, hruns, rfl⟩ := (mem_tasks_iff_runsOver hw h).1 hmem
  obtain ⟨he, rfl⟩ := (Edge.runsOver_iff hw).1 hruns
  exact ⟨e, he, rfl, rfl⟩

/-! ## Pairs -/

/-- The tasks that channels list, each with the core that it is started from. -/
def Channels.pairs (channels : Channels) : List (TaskName × Core) :=
  channels.entries.flatMap fun e => e.2.tasks.toList.map fun task => (task, e.1.sender)

/-- The tasks that have queues, each with the core that it is started from. -/
def FreeQueues.pairs (queues : FreeQueues) : List (TaskName × Core) :=
  queues.entries.flatMap fun e => (Table.entries e.2).map fun q => (e.1, q.1)

theorem Channels.mem_pairs {channels : Channels} : (task, sender) ∈ channels.pairs ↔
    ∃ (route : Route) (channel : Channel), channels[route]? = some channel ∧
      task ∈ channel.tasks ∧ route.sender = sender := by
  simp only [pairs, List.mem_flatMap, List.mem_map, Table.mem_entries, Std.ExtTreeSet.mem_toList,
    Prod.exists, Prod.mk.injEq]
  constructor
  · rintro ⟨route, channel, h, _, hmem, rfl, hsender⟩
    exact ⟨route, channel, h, hmem, hsender⟩
  · rintro ⟨route, channel, h, hmem, hsender⟩
    exact ⟨route, channel, h, _, hmem, rfl, hsender⟩

theorem FreeQueues.mem_pairs {queues : FreeQueues} :
    (task, sender) ∈ queues.pairs ↔ ∃ n, queues.capacity? task sender = some n := by
  simp only [pairs, List.mem_flatMap, List.mem_map, Table.mem_entries, Prod.exists, Prod.mk.injEq,
    capacity?, Option.bind_eq_some_iff]
  constructor
  · rintro ⟨_, bySender, h, _, n, hn, rfl, rfl⟩
    exact ⟨n, bySender, h, hn⟩
  · rintro ⟨n, bySender, h, hn⟩
    exact ⟨_, bySender, h, _, n, hn, rfl, rfl⟩

theorem FreeQueues.nodup_pairs (queues : FreeQueues) : queues.pairs.Nodup := by
  refine List.pairwise_flatMap.2 ⟨?_, ?_⟩
  · intro e _
    refine List.pairwise_map.2 ((Table.entries_pairwise e.2).imp ?_)
    intro a b hlt heq
    rw [(Prod.mk.inj heq).2, Std.ReflOrd.compare_self] at hlt
    cases hlt
  · refine (Table.entries_pairwise queues).imp ?_
    intro a b hlt p hp q hq hpq
    obtain ⟨x, -, rfl⟩ := List.mem_map.1 hp
    obtain ⟨y, -, rfl⟩ := List.mem_map.1 hq
    rw [(Prod.mk.inj hpq).1, Std.ReflOrd.compare_self] at hlt
    cases hlt

/-- Two channels that list a task from one core are one channel, so that no pair comes twice. -/
theorem nodup_pairs_channels (hw : app.WellFormed limits) :
    (app.channels app.freeQueues).pairs.Nodup := by
  refine List.pairwise_flatMap.2 ⟨?_, ?_⟩
  · intro e _
    refine List.pairwise_map.2 ((SortedSet.nodup_toList e.2.tasks).imp ?_)
    intro a b hne heq
    exact hne (Prod.mk.inj heq).1
  · refine (Table.entries_pairwise (app.channels app.freeQueues)).imp_of_mem ?_
    intro a b ha hb hlt p hp q hq hpq
    obtain ⟨task, htask, rfl⟩ := List.mem_map.1 hp
    obtain ⟨other, hother, rfl⟩ := List.mem_map.1 hq
    obtain ⟨rfl, hsender⟩ := Prod.mk.inj hpq
    rw [Std.ExtTreeSet.mem_toList] at htask hother
    have hcha := Table.mem_entries.1 ha
    have hchb := Table.mem_entries.1 hb
    obtain ⟨e, he⟩ := exists_feeds hw hcha htask
    obtain ⟨t, ht⟩ := he.exists_task hw
    have hroute_a := (lists_iff hw ht ⟨e, he⟩).1 ⟨rfl, _, hcha, htask⟩
    have hroute_b := (lists_iff hw ht ⟨e, he⟩).1 ⟨hsender.symm, _, hchb, hother⟩
    rw [hroute_a, hroute_b, Std.ReflOrd.compare_self] at hlt
    cases hlt

/-- Channels list the tasks that have queues, once for every core that starts them. -/
theorem pairs_perm (hw : app.WellFormed limits) :
    (app.channels app.freeQueues).pairs.Perm app.freeQueues.pairs := by
  rw [List.perm_ext_iff_of_nodup (nodup_pairs_channels hw) app.freeQueues.nodup_pairs]
  rintro ⟨task, sender⟩
  rw [Channels.mem_pairs, FreeQueues.mem_pairs, exists_capacity?_iff hw]
  constructor
  · rintro ⟨route, channel, h, hmem, rfl⟩
    exact exists_feeds hw h hmem
  · rintro ⟨e, he⟩
    obtain ⟨t, ht⟩ := he.exists_task hw
    obtain ⟨hsender, channel, hchannel, hmem⟩ := (lists_iff hw ht ⟨e, he⟩).2 rfl
    exact ⟨_, channel, hchannel, hmem, hsender⟩

/-! ## Totals -/

theorem total_append (l m : List UInt8) : total (l ++ m) = total l + total m := by
  induction l with
  | nil => simp
  | cons n l ih =>
    rw [List.cons_append, total_cons, total_cons, ih]
    omega

theorem total_flatMap {α : Type} (l : List α) (f : α → List UInt8) :
    total (l.flatMap f) = (l.map fun a => total (f a)).sum := by
  induction l with
  | nil => rfl
  | cons a l ih => rw [List.flatMap_cons, total_append, ih, List.map_cons, List.sum_cons]

theorem sum_map_flatMap {α β : Type} (l : List α) (f : α → List β) (g : β → Nat) :
    ((l.flatMap f).map g).sum = (l.map fun a => ((f a).map g).sum).sum := by
  rw [List.map_flatMap, List.flatMap, List.sum_flatten, List.map_map]
  rfl

/-- The slots of a pair: as many as its queue has. -/
def FreeQueues.slots (queues : FreeQueues) (p : TaskName × Core) : Nat :=
  total (queues.capacity? p.1 p.2).toList

/-- The messages that may be pending for given tasks, queue by queue. -/
theorem pendingFrom_eq_sum (queues : FreeQueues) (tasks : SortedSet TaskName) (sender : Core) :
    App.pendingFrom queues tasks sender =
      (tasks.toList.map fun task => queues.slots (task, sender)).sum := by
  rw [App.pendingFrom, List.filterMap_eq_flatMap_toList, total_flatMap]
  rfl

theorem sum_capacity_channels :
    ((app.channels app.freeQueues).values.map Channel.capacity).sum =
      ((app.channels app.freeQueues).pairs.map app.freeQueues.slots).sum := by
  rw [Channels.pairs, sum_map_flatMap, Table.values, List.map_map]
  congr 1
  refine List.map_congr_left fun e he => ?_
  have hcapacity := App.capacity_channel (Table.mem_entries.1 he)
  rw [Function.comp_apply, hcapacity, pendingFrom_eq_sum, List.map_map]
  rfl

theorem FreeQueues.total_sizes (queues : FreeQueues) :
    total (queues.values.flatMap Table.values) = (queues.pairs.map queues.slots).sum := by
  rw [pairs, sum_map_flatMap, total_flatMap, Table.values, List.map_map]
  congr 1
  refine List.map_congr_left fun e he => ?_
  have hslots : ∀ q ∈ Table.entries e.2, (queues.slots ∘ fun q => (e.1, q.1)) q = total [q.2] := by
    intro q hq
    have hcapacity : queues.capacity? e.1 q.1 = some q.2 := by
      rw [capacity?, Table.mem_entries.1 he]
      exact Table.mem_entries.1 hq
    rw [Function.comp_apply, slots, hcapacity]
    rfl
  rw [Function.comp_apply, Table.values, List.map_map, List.map_congr_left hslots, ← total_flatMap,
    List.map_eq_flatMap]

/-! ## Conservation -/

/-- In an accepted application, channels and free queues stand for its spawns and hold as much. -/
theorem analyze_conserves (h : app.Reachable) {ledger : Ledger} {a : Analysis}
    (hok : (ledger.settle (analyze limits app)).1 = .ok (.ok a)) : a.Conserves app := by
  rw [Ledger.settle_analyze, Except.ok.injEq] at hok
  have hw : app.WellFormed limits := h.filed.wellFormed_of_ok hok
  obtain ⟨-, -, rfl⟩ := analyze_eq_ok_iff.1 hok
  constructor
  case channel_iff =>
    intro route
    simp only [Edge.runsOver_iff hw]
    exact App.mem_channels
  case tasks_iff =>
    intro route channel name hchannel
    exact mem_tasks_iff_runsOver hw hchannel
  case senders_iff =>
    intro route channel name hchannel
    exact mem_senders_iff_runsOver hw hchannel
  case types_iff =>
    intro route channel type hchannel
    exact mem_messageTypes_iff_runsOver hw hchannel
  case filled =>
    intro route channel hchannel
    exact channel_filled hw hchannel
  case queue_exists_iff =>
    intro task sender
    exact exists_capacity?_iff hw
  case queue_iff =>
    intro task sender n
    exact capacity?_eq_some_iff hw
  case carried =>
    intro task sender n hn
    obtain ⟨⟨e, he⟩, -⟩ := (capacity?_eq_some_iff hw).1 hn
    obtain ⟨t, ht⟩ := he.exists_task hw
    exact ⟨t, ht, fun route => lists_iff hw ht ⟨e, he⟩⟩
  case queued =>
    intro route channel task hchannel hmem
    exact (exists_capacity?_iff hw).2 (exists_feeds hw hchannel hmem)
  case capacity_eq =>
    intro route channel hchannel
    exact App.capacity_channel hchannel
  case total_eq =>
    have hsum : ((app.channels app.freeQueues).values.map Channel.capacity).sum =
        total (app.freeQueues.values.flatMap Table.values) := by
      rw [sum_capacity_channels, FreeQueues.total_sizes]
      exact ((pairs_perm hw).map _).sum_eq
    exact hsum
  case listed =>
    intro route channel
    exact Channels.mem_flatten_nested
  case increasing => exact Channels.flatten_pairwise _

/-- The two ways in which logging is started share one channel and one queue. -/
theorem analyze_conserves_relay :
    (Analysis.ofApp .default Relay.app).Conserves Relay.app ∧
      (Analysis.ofApp .default Relay.app).freeQueues.capacity? "log" ⟨0⟩ = some 4 ∧
      ((Analysis.ofApp .default Relay.app).channels.values.map Channel.capacity).sum = 4 := by
  have hconserves := analyze_conserves Relay.reachable (Relay.accepted ∅)
  refine ⟨hconserves, by decide +kernel, ?_⟩
  rw [hconserves.total_eq]
  decide +kernel

end MulticoreTasks
