import MulticoreTasks.Proofs.Renaming
import MulticoreTasks.Proofs.TimerQueues

/-!
# Results do not depend on names

An accepted application under other names is accepted with the same result, under these names:

* `Analysis.rename` : the result with owners, and the tasks of channels and queues, renamed;
* `capacity?_rename`, `TimerQueue.ofEdges_rename`, … : each part of the result is the former one,
  renamed;
* `ofApp_rename`    : so is the whole;
* `analyze_rename`  : an accepted application stays so.

New names list the tasks in another order, which the stages can see: the first spawn of a task sizes
its queue, and lists of spawns become maxima and sums.  In a well-formed application spawns of one
task agree, and whatever is gathered is known by its members: each part has been described by these
before, and the descriptions are the same.
-/

namespace MulticoreTasks

variable {f : TaskName → TaskName}

/-! ## Results under other names -/

/-- The ownership when tasks go by other names. -/
def Ownership.rename (f : TaskName → TaskName) : Ownership → Ownership
  | exclusive owner => exclusive (f owner)
  | shared ceiling => shared ceiling

/-- The channel when tasks go by other names. -/
def Channel.rename (f : TaskName → TaskName) (c : Channel) : Channel :=
  { c with tasks := c.tasks.image f, senders := c.senders.image f }

/-- The timer queue when tasks go by other names. -/
def TimerQueue.rename (f : TaskName → TaskName) (q : TimerQueue) : TimerQueue :=
  { q with tasks := q.tasks.rekey f, schedulers := q.schedulers.image f }

/-- The result when tasks go by other names. -/
def Analysis.rename (f : TaskName → TaskName) (a : Analysis) : Analysis :=
  { a with
    ownerships := a.ownerships.map fun _ o => o.rename f
    channels := a.channels.map fun _ c => c.rename f
    freeQueues := Table.rekey f a.freeQueues
    timerQueues := a.timerQueues.map fun _ q => q.rename f }

attribute [ext] Channel TimerQueue Analysis

/-! ## Queues of renamed spawns -/

/-- The highest of some levels does not depend on where they are read off. -/
theorem highest_map_of_image {α β : Type} {l : List α} {m : List β} {g : α → β} {p : β → UInt8}
    {q : α → UInt8} (hm : ∀ b, b ∈ m ↔ ∃ a ∈ l, g a = b) (hp : ∀ a ∈ l, p (g a) = q a) :
    highest (m.map p) = highest (l.map q) := by
  refine highest_congr fun n => ?_
  simp only [List.mem_map]
  constructor
  · rintro ⟨b, hb, rfl⟩
    obtain ⟨a, ha, rfl⟩ := (hm b).1 hb
    exact ⟨a, ha, (hp a ha).symm⟩
  · rintro ⟨a, ha, rfl⟩
    exact ⟨g a, (hm _).2 ⟨a, ha, rfl⟩, hp a ha⟩

namespace TimerQueue

section Edges

variable {edges renamed : List Edge} {bound bound' : Edge → UInt8}
  (hmem : ∀ e, e ∈ renamed ↔ ∃ d ∈ edges, d.rename f = e)
  (htarget : ∀ d ∈ edges, ∀ e ∈ edges, f d.target = f e.target → d.target = e.target)
  (hbound : ∀ e ∈ edges, bound' (e.rename f) = bound e)
include htarget

theorem keysApart_ofEdges : ∀ a ∈ (ofEdges bound edges).tasks, ∀ b ∈ (ofEdges bound edges).tasks,
    f a = f b → a = b := by
  intro a ha b hb
  obtain ⟨d, hd, rfl⟩ := mem_tasks_ofEdges.1 ha
  obtain ⟨e, he, rfl⟩ := mem_tasks_ofEdges.1 hb
  exact htarget d hd e he

include hmem

/-- The spawns of a task are renamed together. -/
theorem mem_filter_target_rename {d : Edge} (hd : d ∈ edges) (e : Edge) :
    e ∈ renamed.filter (·.target = f d.target) ↔
      ∃ c ∈ edges.filter (·.target = d.target), c.rename f = e := by
  simp only [List.mem_filter, hmem, decide_eq_true_eq]
  constructor
  · rintro ⟨⟨c, hc, rfl⟩, hsame⟩
    exact ⟨c, ⟨hc, htarget c hc d hd hsame⟩, rfl⟩
  · rintro ⟨c, ⟨hc, hsame⟩, rfl⟩
    exact ⟨⟨c, hc, rfl⟩, congrArg f hsame⟩

include hbound

theorem tasks_ofEdges_rename :
    (ofEdges bound' renamed).tasks = (ofEdges bound edges).tasks.rekey f := by
  refine Table.eq_rekey_of_forall (keysApart_ofEdges htarget) ?_ ?_
  · intro name
    simp only [mem_tasks_ofEdges, hmem, exists_exists_and_eq_and, Edge.target_rename]
  · intro task entry other hentry hother
    obtain ⟨⟨d, hd, rfl⟩, rfl⟩ := tasks_ofEdges_eq_some_iff.1 hentry
    obtain ⟨-, rfl⟩ := tasks_ofEdges_eq_some_iff.1 hother
    have hgroup := mem_filter_target_rename hmem htarget hd
    rw [TimerEntry.mk.injEq]
    constructor
    · exact highest_map_of_image hgroup fun e _ => rfl
    · exact highest_map_of_image hgroup fun e he => hbound e (List.mem_filter.1 he).1

/-- The queue of renamed spawns is the queue of these, renamed. -/
theorem ofEdges_rename : ofEdges bound' renamed = (ofEdges bound edges).rename f := by
  have htasks := tasks_ofEdges_rename hmem htarget hbound
  have hvalues : (ofEdges bound' renamed).tasks.values.Perm (ofEdges bound edges).tasks.values := by
    rw [htasks]
    exact Table.values_rekey_perm (keysApart_ofEdges htarget)
  have hpriority : (ofEdges bound' renamed).priority = (ofEdges bound edges).priority :=
    highest_congr fun p => (hvalues.map TimerEntry.priority).mem_iff
  apply TimerQueue.ext
  case tasks => exact htasks
  case schedulers =>
    refine SortedSet.eq_image_of_forall fun name => ?_
    simp only [mem_schedulers_ofEdges, hmem, exists_exists_and_eq_and, Edge.sender_rename,
      Task.name_rename]
  case capacity =>
    show total _ = total _
    rw [total_eq_sum, total_eq_sum]
    exact ((hvalues.map TimerEntry.capacity).map UInt8.toNat).sum_eq
  case priority => exact hpriority
  case ceiling =>
    have hsenders : highest (renamed.map (·.sender.priority)) =
        highest (edges.map (·.sender.priority)) := highest_map_of_image hmem fun e _ => rfl
    show max _ (ofEdges bound' renamed).priority = max _ (ofEdges bound edges).priority
    rw [hsenders, hpriority]

end Edges

end TimerQueue

section Accepted

variable {app : App} {limits : Limits} {r : ResourceName} {core : Core} (hf : app.KeepsApart f)
include hf

/-! ## Resources -/

section Filed

variable (h : app.WellFiled)
include h

theorem ownerships_rename_exclusive_iff {name : TaskName} :
    (Analysis.ofApp limits (app.rename f)).ownerships[r]? = some (.exclusive name) ↔
      ∃ owner, (Analysis.ofApp limits app).ownerships[r]? = some (.exclusive owner) ∧
        f owner = name := by
  simp only [ownerships_exclusive_iff, App.isAccessor_rename hf]
  constructor
  · rintro ⟨hr, ⟨_, t, ht, -⟩, hone⟩
    have hname : ∀ u, app.IsAccessor r u → f u.name = name := fun u hu => hone _ ⟨u, hu, rfl⟩
    refine ⟨t.name, ⟨hr, ⟨t, ht⟩, fun u hu => ?_⟩, hname t ht⟩
    exact (hf.eq_iff (h.name_mem hu.1) (h.name_mem ht.1)).1 ((hname u hu).trans (hname t ht).symm)
  · rintro ⟨owner, ⟨hr, ⟨t, ht⟩, hone⟩, rfl⟩
    refine ⟨hr, ⟨_, t, ht, rfl⟩, ?_⟩
    rintro _ ⟨u, hu, rfl⟩
    exact congrArg f (hone u hu)

theorem ownerships_rename_shared_iff {c : Priority} :
    (Analysis.ofApp limits (app.rename f)).ownerships[r]? = some (.shared c) ↔
      (Analysis.ofApp limits app).ownerships[r]? = some (.shared c) := by
  have hseveral : (∃ t u, (app.rename f).IsAccessor r t ∧ (app.rename f).IsAccessor r u ∧
      t.name ≠ u.name) ↔ ∃ t u, app.IsAccessor r t ∧ app.IsAccessor r u ∧ t.name ≠ u.name := by
    simp only [App.isAccessor_rename hf]
    constructor
    · rintro ⟨_, _, ⟨t, ht, rfl⟩, ⟨u, hu, rfl⟩, hne⟩
      exact ⟨t, u, ht, hu, fun hname => hne (congrArg f hname)⟩
    · rintro ⟨t, u, ht, hu, hne⟩
      refine ⟨_, _, ⟨t, ht, rfl⟩, ⟨u, hu, rfl⟩, fun hname => ?_⟩
      exact hne ((hf.eq_iff (h.name_mem ht.1) (h.name_mem hu.1)).1 hname)
  rw [ownerships_shared_iff limits (App.WellFiled.rename hf h).resolved,
    ownerships_shared_iff limits h.resolved, hseveral]
  simp only [App.isAccessor_rename hf, exists_exists_and_eq_and, forall_exists_index, and_imp,
    forall_apply_eq_imp_iff₂, Task.priority_rename]
  exact Iff.rfl

theorem ownerships_rename : (Analysis.ofApp limits (app.rename f)).ownerships =
    (Analysis.ofApp limits app).ownerships.map fun _ o => o.rename f := by
  refine Std.ExtTreeMap.ext_getElem? fun r => Option.ext fun o => ?_
  rw [Std.ExtTreeMap.getElem?_map, Option.map_eq_some_iff]
  cases o with
  | exclusive name =>
    rw [ownerships_rename_exclusive_iff hf h]
    constructor
    · rintro ⟨owner, howner, rfl⟩
      exact ⟨_, howner, rfl⟩
    · rintro ⟨_ | _, ho, heq⟩
      · cases heq
        exact ⟨_, ho, rfl⟩
      · cases heq
  | shared c =>
    rw [ownerships_rename_shared_iff hf h]
    constructor
    · intro hc
      exact ⟨_, hc, rfl⟩
    · rintro ⟨_ | _, ho, heq⟩
      · cases heq
      · cases heq
        exact ho

/-- Ceilings are those of shared resources. -/
theorem ceilings_rename :
    (Analysis.ofApp limits (app.rename f)).ceilings = (Analysis.ofApp limits app).ceilings := by
  refine Std.ExtTreeMap.ext_getElem? fun r => Option.ext fun c => ?_
  exact (ownerships_eq_some_shared_iff limits).symm.trans
    ((ownerships_rename_shared_iff hf h).trans (ownerships_eq_some_shared_iff limits))

end Filed

theorem accessCores_rename : (app.rename f).accessCores r = app.accessCores r := by
  refine Std.ExtTreeSet.ext_mem fun c => ?_
  simp only [mem_accessCores_iff, App.isAccessor_rename hf, exists_exists_and_eq_and,
    Task.core_rename]

/-! ## Waits -/

theorem waits_rename : Waits.ofApp (app.rename f) = .ofApp app := by
  have hneeded := Waits.areNeeded_ofApp (app.rename f)
  refine Waits.AreNeeded.unique ⟨?_, ?_, hneeded.initialization_proper, hneeded.spawn_proper⟩
    (Waits.areNeeded_ofApp app)
  · intro core on
    rw [hneeded.initialization_iff, App.needsInit_rename hf]
  · intro core on
    rw [hneeded.spawn_iff, App.spawnsTo_rename hf]

/-! ## Well-formed applications -/

variable (hw : app.WellFormed limits)
include hw

theorem locations_rename :
    (Analysis.ofApp limits (app.rename f)).locations = (Analysis.ofApp limits app).locations := by
  refine Std.ExtTreeMap.ext_getElem? fun r => ?_
  cases hr : app.resource? r with
  | none =>
    have hr' : (app.rename f).resource? r = none := hr
    rw [getElem?_locations_ofApp, getElem?_locations_ofApp, hr, hr', Option.bind_none,
      Option.bind_none]
  | some resource =>
    have hr' : (app.rename f).resource? r = some resource := hr
    rw [hw.getElem?_locations hr, (App.WellFormed.rename hf hw).getElem?_locations hr',
      accessCores_rename hf]

theorem lateResources_rename : (Analysis.ofApp limits (app.rename f)).lateResources =
    (Analysis.ofApp limits app).lateResources := by
  have hne : ∀ (app : App) (core : Core) (names : SortedSet ResourceName),
      (Analysis.ofApp limits app).lateResources[core]? = some names → names ≠ ∅ :=
    fun _ _ _ hnames => lateOf_ne_empty hnames
  refine Table.eq_of_mem_iff (hne _) (hne _) fun core r => ?_
  exact (mem_lateResources_iff (App.WellFormed.rename hf hw)).trans (mem_lateResources_iff hw).symm

/-! ## Free queues and channels -/

omit hw in
theorem feeds_rename {task : TaskName} (htask : task ∈ app.tasks) (htargets : ∀ e ∈ app.edges,
      e.target ∈ app.tasks) {sender : Core} {e : Edge} :
    e.Feeds (app.rename f) (f task) sender ↔
      ∃ d : Edge, d.Feeds app task sender ∧ d.rename f = e := by
  simp only [Edge.Feeds, App.mem_edges_rename hf]
  constructor
  · rintro ⟨⟨d, hd, rfl⟩, hsame, hsender⟩
    exact ⟨d, ⟨hd, (hf.eq_iff (htargets d hd) htask).1 hsame, hsender⟩, rfl⟩
  · rintro ⟨d, ⟨hd, hsame, hsender⟩, rfl⟩
    exact ⟨⟨d, hd, rfl⟩, congrArg f hsame, hsender⟩

theorem capacity?_rename {task : TaskName} (htask : task ∈ app.tasks) (sender : Core) :
    (app.rename f).freeQueues.capacity? (f task) sender = app.freeQueues.capacity? task sender := by
  refine Option.ext fun n => ?_
  rw [capacity?_eq_some_iff hw, capacity?_eq_some_iff (App.WellFormed.rename hf hw)]
  simp only [feeds_rename hf htask fun e => hw.target_mem]
  constructor
  · rintro ⟨⟨_, d, hd, -⟩, hall⟩
    exact ⟨⟨d, hd⟩, fun e he => hall (e.rename f) ⟨e, he, rfl⟩⟩
  · rintro ⟨⟨d, hd⟩, hall⟩
    refine ⟨⟨_, d, hd, rfl⟩, ?_⟩
    rintro _ ⟨e, he, rfl⟩
    exact hall e he

omit hf in
theorem mem_freeQueues_iff {task : TaskName} :
    task ∈ app.freeQueues ↔ ∃ e ∈ app.edges, e.target = task := by
  simp only [App.freeQueues, Std.ExtTreeMap.mem_map, Table.mem_groupBy, App.mem_sizedEdges]
  constructor
  · rintro ⟨e, ⟨he, -⟩, htarget⟩
    exact ⟨e, he, htarget⟩
  · rintro ⟨e, he, htarget⟩
    exact ⟨e, ⟨he, hw.target_mem he, hw.sized e he⟩, htarget⟩

theorem freeQueues_rename : (app.rename f).freeQueues = Table.rekey f app.freeQueues := by
  have htask : ∀ {task}, task ∈ app.freeQueues → task ∈ app.tasks := by
    intro task hmem
    obtain ⟨e, he, rfl⟩ := (mem_freeQueues_iff hw).1 hmem
    exact hw.target_mem he
  refine Table.eq_rekey_of_forall (fun a ha b hb => hf a (htask ha) b (htask hb)) ?_ ?_
  · intro name
    simp only [mem_freeQueues_iff hw, mem_freeQueues_iff (App.WellFormed.rename hf hw),
      App.mem_edges_rename hf, exists_exists_and_eq_and, Edge.target_rename]
  · intro task sizes sizes' hsizes hsizes'
    refine Std.ExtTreeMap.ext_getElem? fun sender => ?_
    have hsame := capacity?_rename hf hw (htask (Table.mem_iff_exists.2 ⟨sizes, hsizes⟩)) sender
    rw [FreeQueues.capacity?, FreeQueues.capacity?, hsizes, hsizes'] at hsame
    exact hsame

/-- Renamed tasks may have as many messages pending. -/
theorem pendingFrom_rename {tasks : SortedSet TaskName} (htasks : ∀ task ∈ tasks, task ∈ app.tasks)
    (sender : Core) : App.pendingFrom (app.rename f).freeQueues (tasks.image f) sender =
      App.pendingFrom app.freeQueues tasks sender := by
  have hperm := SortedSet.toList_image_perm fun a ha b hb => hf a (htasks a ha) b (htasks b hb)
  rw [pendingFrom_eq_sum, pendingFrom_eq_sum, (hperm.map _).sum_eq, List.map_map]
  refine congrArg List.sum (List.map_congr_left fun task htask => ?_)
  have hsame := capacity?_rename hf hw (htasks task (Std.ExtTreeSet.mem_toList.1 htask)) sender
  rw [Function.comp_apply, FreeQueues.slots, FreeQueues.slots, hsame]

section Channel

variable {route : Route} {c d : Channel} (hc : (app.channels app.freeQueues)[route]? = some c)
  (hd : ((app.rename f).channels (app.rename f).freeQueues)[route]? = some d)
include hc hd

omit hw in
theorem tasks_channel_rename : d.tasks = c.tasks.image f := by
  refine SortedSet.eq_image_of_forall fun name => ?_
  simp only [App.mem_tasks_channel hd, App.mem_tasks_channel hc, App.mem_edges_rename hf]
  constructor
  · rintro ⟨_, ⟨e, he, rfl⟩, hroute, rfl⟩
    exact ⟨e.target, ⟨e, he, hroute, rfl⟩, rfl⟩
  · rintro ⟨_, ⟨e, he, hroute, rfl⟩, rfl⟩
    exact ⟨_, ⟨e, he, rfl⟩, hroute, rfl⟩

omit hw in
theorem senders_channel_rename : d.senders = c.senders.image f := by
  refine SortedSet.eq_image_of_forall fun name => ?_
  simp only [App.mem_senders_channel hd, App.mem_senders_channel hc, App.mem_edges_rename hf]
  constructor
  · rintro ⟨_, ⟨e, he, rfl⟩, hroute, rfl⟩
    exact ⟨e.sender.name, ⟨e, he, hroute, rfl⟩, rfl⟩
  · rintro ⟨_, ⟨e, he, hroute, rfl⟩, rfl⟩
    exact ⟨_, ⟨e, he, rfl⟩, hroute, rfl⟩

theorem messageTypes_channel_rename : d.messageTypes = c.messageTypes := by
  refine Std.ExtTreeSet.ext_mem fun type => ?_
  refine (App.mem_messageTypes_channel hd).trans (Iff.trans ?_
    (App.mem_messageTypes_channel hc).symm)
  simp only [App.mem_edges_rename hf]
  constructor
  · rintro ⟨_, ⟨e, he, rfl⟩, hroute, htype⟩
    rw [App.messageType?_rename hf hw he] at htype
    exact ⟨e, he, hroute, htype⟩
  · rintro ⟨e, he, hroute, htype⟩
    rw [← App.messageType?_rename hf hw he] at htype
    exact ⟨_, ⟨e, he, rfl⟩, hroute, htype⟩

theorem channel_rename : d = c.rename f := by
  have htasks : d.tasks = c.tasks.image f := tasks_channel_rename hf hc hd
  have htypes : d.messageTypes = c.messageTypes := messageTypes_channel_rename hf hw hc hd
  apply Channel.ext
  case tasks => exact htasks
  case senders => exact senders_channel_rename hf hc hd
  case messageTypes => exact htypes
  case capacity =>
    have hdeclared : ∀ task ∈ c.tasks, task ∈ app.tasks := by
      intro task htask
      obtain ⟨e, he, -, rfl⟩ := (App.mem_tasks_channel hc).1 htask
      exact hw.target_mem he
    rw [App.capacity_channel hd, htasks, pendingFrom_rename hf hw hdeclared]
    exact (App.capacity_channel hc).symm

end Channel

theorem channels_rename : (app.rename f).channels (app.rename f).freeQueues =
    (app.channels app.freeQueues).map fun _ c => c.rename f := by
  refine Table.eq_map_of_forall ?_ fun route c d hc hd => channel_rename hf hw hc hd
  intro route
  simp only [App.mem_channels, App.mem_edges_rename hf, exists_exists_and_eq_and, Edge.route_rename]

/-! ## Timer queues -/

omit hw in
theorem mem_delayedFrom_rename {e : Edge} :
    e ∈ (app.rename f).delayedFrom core ↔ ∃ d ∈ app.delayedFrom core, d.rename f = e := by
  simp only [App.mem_delayedFrom, App.mem_edges_rename hf]
  constructor
  · rintro ⟨⟨d, hd, rfl⟩, hkeys⟩
    exact ⟨d, ⟨hd, hkeys⟩, rfl⟩
  · rintro ⟨d, ⟨hd, hkeys⟩, rfl⟩
    exact ⟨⟨d, hd, rfl⟩, hkeys⟩

theorem slots_rename (h : app.WellFiled) {e : Edge} (he : e ∈ app.edges) :
    (e.rename f).slots limits = e.slots limits := by
  have hname : e.sender.name ∈ app.tasks := h.name_mem (App.mem_edges.1 he).1
  have hown : (e.rename f).isOwn = e.isOwn :=
    decide_eq_decide.2 (hf.eq_iff hname (hw.target_mem he))
  rw [Edge.slots, hown]
  rfl

theorem timerQueues_rename (h : app.WellFiled) :
    (Analysis.ofApp limits (app.rename f)).timerQueues =
      (Analysis.ofApp limits app).timerQueues.map fun _ q => q.rename f := by
  have hw' : (app.rename f).WellFormed limits := App.WellFormed.rename hf hw
  refine Table.eq_map_of_forall ?_ ?_
  · intro core
    simp only [mem_timerQueues_iff hw, mem_timerQueues_iff hw', mem_delayedFrom_rename hf]
    exact ⟨fun ⟨_, d, hd, _⟩ => ⟨d, hd⟩, fun ⟨d, hd⟩ => ⟨_, d, hd, rfl⟩⟩
  · intro core q q' hq hq'
    obtain ⟨-, rfl⟩ := (timerQueues_eq_some_iff hw).1 hq
    obtain ⟨-, rfl⟩ := (timerQueues_eq_some_iff hw').1 hq'
    refine TimerQueue.ofEdges_rename (fun e => mem_delayedFrom_rename hf) ?_ ?_
    · intro d hd e he
      exact hf _ (hw.target_mem (App.mem_delayedFrom.1 hd).1) _
        (hw.target_mem (App.mem_delayedFrom.1 he).1)
    · intro e he
      exact slots_rename hf hw h (App.mem_delayedFrom.1 he).1

/-! ## The whole -/

/-- The result of a well-formed application under other names is its result, under these names. -/
theorem ofApp_rename (h : app.WellFiled) :
    Analysis.ofApp limits (app.rename f) = (Analysis.ofApp limits app).rename f := by
  have h' : (app.rename f).WellFiled := App.WellFiled.rename hf h
  have hw' : (app.rename f).WellFormed limits := App.WellFormed.rename hf hw
  apply Analysis.ext
  case cores => rfl
  case ownerships => exact ownerships_rename hf h
  case ceilings => exact ceilings_rename hf h
  case locations => exact locations_rename hf hw
  case lateResources => exact lateResources_rename hf hw
  case channels => exact channels_rename hf hw
  case freeQueues => exact freeQueues_rename hf hw
  case timerQueues => exact timerQueues_rename hf hw h
  case initializationWaits => exact congrArg Waits.initialization (waits_rename hf)
  case spawnWaits => exact congrArg Waits.spawn (waits_rename hf)
  case sendTypes =>
    refine Std.ExtTreeSet.ext_mem fun type => ?_
    exact (mem_sendTypes_iff hw').trans
      ((App.needsSend_rename hf hw).trans (mem_sendTypes_iff hw).symm)
  case syncTypes =>
    refine Std.ExtTreeSet.ext_mem fun type => ?_
    exact (mem_syncTypes_iff hw' h').trans
      ((App.needsSync_rename hf).trans (mem_syncTypes_iff hw h).symm)

end Accepted

/-- An accepted application whose tasks get other names, no two of them one, is accepted with the
same result under these names. -/
theorem analyze_rename {app : App} (h : app.Reachable) (hf : app.KeepsApart f) {limits : Limits}
    {ledger : Ledger} {a : Analysis} (hok : (ledger.settle (analyze limits app)).1 = .ok (.ok a))
    (later : Ledger) :
    (later.settle (analyze limits (app.rename f))).1 = .ok (.ok (a.rename f)) := by
  obtain ⟨hw, rfl⟩ := h.filed.settle_analyze_iff.1 hok
  have hfiled : (app.rename f).WellFiled := App.WellFiled.rename hf h.filed
  exact hfiled.settle_analyze_iff.2
    ⟨App.WellFormed.rename hf hw, (ofApp_rename hf hw h.filed).symm⟩

namespace Relay

/-- Exchange the names of the two tasks. -/
def swap (name : TaskName) : TaskName := if name = "log" then "poll" else "log"

theorem keepsApart_swap : Relay.app.KeepsApart swap := by
  have hkeys : ∀ a ∈ Relay.app.tasks.keys, ∀ b ∈ Relay.app.tasks.keys,
      swap a = swap b → a = b := by
    decide +kernel
  intro a ha b hb
  exact hkeys a (Std.ExtTreeMap.mem_keys.2 ha) b (Std.ExtTreeMap.mem_keys.2 hb)

end Relay

/-- With names exchanged, what polls comes first in the order of names, and it is the task by the
name of `poll` that logs and has a queue. -/
theorem analyze_rename_relay :
    ((∅ : Ledger).settle (analyze .default (Relay.app.rename Relay.swap))).1 =
      .ok (.ok ((Analysis.ofApp .default Relay.app).rename Relay.swap)) ∧
      ((Analysis.ofApp .default Relay.app).rename Relay.swap).freeQueues.capacity? "poll" ⟨0⟩ =
        some 4 :=
  ⟨analyze_rename Relay.reachable Relay.keepsApart_swap (Relay.accepted ∅) ∅,
    by decide +kernel⟩

end MulticoreTasks
