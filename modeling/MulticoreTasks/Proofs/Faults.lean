import MulticoreTasks.Proofs.Verdict

/-!
# Where the faults come from

When each part of the consistency check has nothing to report:

* `useFaults_eq_nil_iff`, `channelFaults_eq_nil_iff`, `accessorFaults_eq_nil_iff` : these three look
  at the application, and hold back one that goes astray;
* `ceilingFaults_eq_nil` : ceilings and ownerships come from one sharing and never differ;
* `ownerFaults_eq_nil`, `coreFaults_eq_nil_iff` : owners are accessors, and cores are those of the
  application (`origin_of_initializationWaits`, `origin_of_spawnWaits`).

The first four are about every application, however its tasks are filed.  `faults_eq_nil_iff` puts
them together for one that is filed under its names: what is left is that accesses and spawns go
where they say.  For any other, `routed_of_faults` and its like say what no fault comes to.
-/

namespace MulticoreTasks

variable {limits : Limits} {app : App}

theorem coreFault_eq_nil_iff {cores : SortedSet Core} {entity : String} {core : Core} :
    coreFault cores entity core = [] ↔ core ∈ cores := by
  rw [coreFault]
  split <;> simp_all

theorem mem_coreFault {cores : SortedSet Core} {entity : String} {core : Core}
    {fault : Inconsistency} :
    fault ∈ coreFault cores entity core ↔ core ∉ cores ∧ fault = .unknownCore core entity := by
  rw [coreFault]
  split <;> simp_all

/-! ## Accesses -/

theorem useFaults_eq_nil_iff :
    useFaults app = [] ↔ ∀ r t, app.IsAccessor r t → r ∈ app.resources := by
  simp only [useFaults, List.map_eq_nil_iff, List.filter_eq_nil_iff, decide_eq_true_eq,
    Decidable.not_not]
  constructor
  · intro h r t ht
    obtain ⟨u, hu, -⟩ := ht.exists_use
    obtain ⟨huse, rfl⟩ := App.mem_usesOf.1 hu
    exact h u huse
  · intro h u hu
    exact h u.resource u.task (App.isAccessor_of_mem_usesOf (App.mem_usesOf.2 ⟨hu, rfl⟩))

/-! ## Channels -/

/-- A spawn names declared cores, a declared task where it says, and comes from the task of its
sender's name. -/
structure Edge.IsRouted (app : App) (e : Edge) : Prop where
  receiver : e.spawn.core ∈ app.cores
  sender : e.sender.core ∈ app.cores
  target : ∃ t, app.task? e.target = some t ∧ t.core = e.spawn.core ∧ t.priority = e.spawn.priority
  source : ∃ t, app.task? e.sender.name = some t ∧ t.core = e.sender.core

theorem targetFault_eq_nil_iff {route : Route} {name : TaskName} :
    targetFault app route name = [] ↔
      ∃ t, app.task? name = some t ∧ t.core = route.receiver ∧ t.priority = route.priority := by
  rw [targetFault]
  split <;> simp_all

theorem senderFault_eq_nil_iff {route : Route} {name : TaskName} :
    senderFault app route name = [] ↔ ∃ t, app.task? name = some t ∧ t.core = route.sender := by
  rw [senderFault]
  split <;> simp_all

theorem channelFault_eq_nil_iff {cores : SortedSet Core} {route : Route} {channel : Channel} :
    channelFault app cores route channel = [] ↔ route.receiver ∈ cores ∧ route.sender ∈ cores ∧
      (∀ name ∈ channel.tasks, targetFault app route name = []) ∧
        ∀ name ∈ channel.senders, senderFault app route name = [] := by
  simp only [channelFault, List.append_eq_nil_iff, coreFault_eq_nil_iff, List.flatMap_eq_nil_iff,
    Std.ExtTreeSet.mem_toList, and_assoc]

theorem channelFaults_eq_nil_iff :
    (Analysis.ofApp limits app).channelFaults app = [] ↔ ∀ e ∈ app.edges, e.IsRouted app := by
  have hchannels : (Analysis.ofApp limits app).channels = app.channels app.freeQueues := rfl
  have hcores : (Analysis.ofApp limits app).cores = app.cores := rfl
  rw [Analysis.channelFaults, List.flatMap_eq_nil_iff, hchannels, hcores]
  constructor
  · intro h e he
    have hchannel := App.getElem?_channels_route he app.freeQueues
    obtain ⟨hreceiver, hsender, htargets, hsenders⟩ :=
      channelFault_eq_nil_iff.1 (h (e.route, _) (Table.mem_entries.2 hchannel))
    have htarget := htargets e.target ((App.mem_tasks_channel hchannel).2 ⟨e, he, rfl, rfl⟩)
    have hsource := hsenders e.sender.name
      ((App.mem_senders_channel hchannel).2 ⟨e, he, rfl, rfl⟩)
    exact ⟨hreceiver, hsender, targetFault_eq_nil_iff.1 htarget, senderFault_eq_nil_iff.1 hsource⟩
  · rintro h ⟨route, channel⟩ hentry
    have hchannel := Table.mem_entries.1 hentry
    obtain ⟨⟨e, he, rfl⟩, -⟩ := App.channels_eq_some_iff.1 hchannel
    refine channelFault_eq_nil_iff.2 ⟨(h e he).receiver, (h e he).sender, ?_, ?_⟩
    · intro name hname
      obtain ⟨f, hf, hroute, rfl⟩ := (App.mem_tasks_channel hchannel).1 hname
      obtain ⟨t, ht, hcore, hpriority⟩ := (h f hf).target
      refine targetFault_eq_nil_iff.2 ⟨t, ht, ?_, ?_⟩
      · rw [← hroute]
        exact hcore
      · rw [← hroute]
        exact hpriority
    · intro name hname
      obtain ⟨f, hf, hroute, rfl⟩ := (App.mem_senders_channel hchannel).1 hname
      obtain ⟨t, ht, hcore⟩ := (h f hf).source
      refine senderFault_eq_nil_iff.2 ⟨t, ht, ?_⟩
      rw [← hroute]
      exact hcore

/-! ## Ceilings and owners -/

theorem ownerships_eq_some_shared_iff (limits : Limits) {r : ResourceName} {c : Priority} :
    (Analysis.ofApp limits app).ownerships[r]? = some (.shared c) ↔
      (app.ceilings (.ofApp app))[r]? = some c := by
  change ((Sharing.ofApp app).ownerships (app.ceilings (.ofApp app)))[r]? = _ ↔ _
  rw [Sharing.getElem?_ownerships, App.getElem?_ceilings]
  cases hshared : (Sharing.ofApp app).shared[r]? with
  | none => cases (Sharing.ofApp app).exclusive[r]? <;> simp
  | some names =>
    cases hceiling : app.ceiling? names with
    | none => cases (Sharing.ofApp app).exclusive[r]? <;> simp [hceiling]
    | some ceiling => simp [hceiling]

theorem ownerships_eq_some_exclusive {r : ResourceName} {owner : TaskName}
    (h : (Analysis.ofApp limits app).ownerships[r]? = some (.exclusive owner)) :
    (Sharing.ofApp app).exclusive[r]? = some owner := by
  change ((Sharing.ofApp app).ownerships (app.ceilings (.ofApp app)))[r]? = _ at h
  rw [Sharing.getElem?_ownerships, Option.or_eq_some_iff] at h
  rcases h with h | ⟨-, h⟩
  · obtain ⟨-, -, hsome⟩ := Option.bind_eq_some_iff.1 h
    obtain ⟨c, -, hne⟩ := Option.map_eq_some_iff.1 hsome
    cases hne
  · obtain ⟨name, hexclusive, heq⟩ := Option.map_eq_some_iff.1 h
    cases heq
    exact hexclusive

theorem ceiling?_ownerships (limits : Limits) (app : App) (r : ResourceName) :
    (Analysis.ofApp limits app).ownerships[r]?.bind Ownership.ceiling? =
      (app.ceilings (.ofApp app))[r]? := by
  refine Option.ext fun c => ?_
  rw [← ownerships_eq_some_shared_iff limits]
  cases (Analysis.ofApp limits app).ownerships[r]? with
  | none => simp
  | some ownership => cases ownership <;> simp [Ownership.ceiling?]

/-- Ceilings and ownerships never differ. -/
theorem ceilingFaults_eq_nil : (Analysis.ofApp limits app).ceilingFaults = [] := by
  have hceilings : (Analysis.ofApp limits app).ceilings = app.ceilings (.ofApp app) := rfl
  rw [Analysis.ceilingFaults, List.append_eq_nil_iff, List.map_eq_nil_iff, List.map_eq_nil_iff,
    List.filter_eq_nil_iff, List.filter_eq_nil_iff, hceilings]
  constructor
  · intro e he
    have hshared := (ownerships_eq_some_shared_iff limits).2 (Table.mem_entries.1 he)
    simp [hshared]
  · intro e he
    have hownership := ceiling?_ownerships limits app e.1
    rw [Table.mem_entries.1 he, Option.bind_some] at hownership
    simp [hownership]

/-- An accessor that is the task of its name is among those that the ceiling was taken over: no
access is found to stand above it. -/
theorem accessorFault_eq {u : Use} (hu : u ∈ app.uses) :
    (Analysis.ofApp limits app).accessorFault app u =
      if app.task? u.task.name ≠ some u.task then [.unknownAccessor u.resource u.task.name]
      else [] := by
  by_cases htask : app.task? u.task.name = some u.task
  · rw [Analysis.accessorFault, if_neg (not_not_intro htask), if_neg (not_not_intro htask),
      ceiling?_ownerships]
    split
    · rfl
    · next ceiling hceiling =>
      rw [App.getElem?_ceilings, Option.bind_eq_some_iff] at hceiling
      obtain ⟨names, hnames, hceiling⟩ := hceiling
      obtain ⟨-, rfl, -⟩ := Sharing.shared_eq_some_iff.1 hnames
      have haccess : app.IsAccessor u.resource u.task :=
        App.isAccessor_of_mem_usesOf (App.mem_usesOf.2 ⟨hu, rfl⟩)
      have hmem : u.task ∈ app.lookUp (app.accessors u.resource) :=
        App.mem_lookUp.2 ⟨_, App.mem_accessors_iff.2 ⟨_, haccess, rfl⟩, htask⟩
      rw [if_neg (UInt8.not_lt.2 ((App.ceiling?_eq_some_iff.1 hceiling).2 _ hmem))]
  · rw [Analysis.accessorFault, if_pos htask, if_pos htask]

theorem accessorFaults_eq_nil_iff :
    (Analysis.ofApp limits app).accessorFaults app = [] ↔ app.Resolved := by
  rw [Analysis.accessorFaults, List.flatMap_eq_nil_iff]
  constructor
  · intro h r t ht
    obtain ⟨u, hu, rfl⟩ := ht.exists_use
    obtain ⟨huse, -⟩ := App.mem_usesOf.1 hu
    have hfault := h u huse
    refine Decidable.byContradiction fun hne => ?_
    rw [accessorFault_eq huse, if_pos hne] at hfault
    cases hfault
  · intro h u hu
    have haccess : app.IsAccessor u.resource u.task :=
      App.isAccessor_of_mem_usesOf (App.mem_usesOf.2 ⟨hu, rfl⟩)
    rw [accessorFault_eq hu, if_neg (not_not_intro (h _ _ haccess))]

theorem ownerFaults_eq_nil (h : app.Resolved) :
    (Analysis.ofApp limits app).ownerFaults app = [] := by
  rw [Analysis.ownerFaults, List.filterMap_eq_nil_iff]
  rintro ⟨r, ownership⟩ hentry
  cases ownership with
  | shared ceiling => rfl
  | exclusive owner =>
    have hexclusive := ownerships_eq_some_exclusive (Table.mem_entries.1 hentry)
    obtain ⟨-, ⟨t, ht⟩, hone⟩ := Sharing.exclusive_eq_some_iff.1 hexclusive
    have howner : owner ∈ app.tasks := App.mem_tasks_iff.2 ⟨t, hone t ht ▸ h r t ht⟩
    simp [howner]

/-! ## Cores -/

theorem waitFaults_eq_nil_iff {cores : SortedSet Core} {table : WaitTable} :
    Analysis.waitFaults cores table = [] ↔
      ∀ (core : Core) (on : SortedSet Core), table[core]? = some on →
        core ∈ cores ∧ ∀ c ∈ on, c ∈ cores := by
  simp only [Analysis.waitFaults, List.flatMap_eq_nil_iff, List.append_eq_nil_iff,
    coreFault_eq_nil_iff, Std.ExtTreeSet.mem_toList, Prod.forall, Table.mem_entries]

theorem coreFaults_eq_nil_iff {a : Analysis} : a.coreFaults = [] ↔
    (∀ (r : ResourceName) (location : Location), a.locations[r]? = some location →
        location.core ∈ a.cores) ∧
      (∀ core ∈ a.timerQueues, core ∈ a.cores) ∧
      (∀ (core : Core) (on : SortedSet Core), a.initializationWaits[core]? = some on →
        core ∈ a.cores ∧ ∀ c ∈ on, c ∈ a.cores) ∧
      ∀ (core : Core) (on : SortedSet Core), a.spawnWaits[core]? = some on →
        core ∈ a.cores ∧ ∀ c ∈ on, c ∈ a.cores := by
  simp only [Analysis.coreFaults, List.append_eq_nil_iff, List.flatMap_eq_nil_iff,
    coreFault_eq_nil_iff, waitFaults_eq_nil_iff, Prod.forall, Table.mem_entries,
    Std.ExtTreeMap.mem_keys, and_assoc]

/-! ## Where cores come from -/

section Origin

variable {core : Core} {on : SortedSet Core}

theorem getElem?_locations_ofApp (limits : Limits) (app : App) (r : ResourceName) :
    (Analysis.ofApp limits app).locations[r]? =
      (app.resource? r).bind (Placement.location? app (.ofApp app) r) :=
  Placement.getElem?_locations

/-- A location is that of the accessors of a declared resource. -/
theorem exists_resource_of_location {r : ResourceName} {location : Location}
    (h : (Analysis.ofApp limits app).locations[r]? = some location) :
    ∃ resource, app.resource? r = some resource ∧
      locate (app.accessCores r) resource.lateCore? = some location := by
  rw [getElem?_locations_ofApp, Option.bind_eq_some_iff] at h
  obtain ⟨resource, hr, hlocation⟩ := h
  exact ⟨resource, hr, Placement.locate_of_location? hlocation⟩

theorem exists_edge_of_timerQueue (h : core ∈ (Analysis.ofApp limits app).timerQueues) :
    ∃ e ∈ app.edges, e.sender.core = core := by
  obtain ⟨q, hq⟩ := Table.mem_iff_exists.1 h
  obtain ⟨⟨e, he, rfl⟩, -⟩ := Table.getElem?_map_groupBy_eq_some.1 hq
  exact ⟨e, (App.mem_liveEdges.1 he).1, rfl⟩

theorem exists_resource_of_late (h : core ∈ (Analysis.ofApp limits app).lateResources) :
    ∃ r resource, app.resource? r = some resource ∧ resource.lateCore? = some core := by
  obtain ⟨p, hp, hlate⟩ := Placement.mem_lateOf_iff.1 h
  exact ⟨p.name, p.resource, (Placement.mem_placed.1 hp).1, hlate⟩

/-- Accessors wait for the cores that initialise resources. -/
theorem origin_of_initializationWaits
    (h : (Analysis.ofApp limits app).initializationWaits[core]? = some on) :
    (∃ r t, app.IsAccessor r t ∧ t.core = core) ∧
      ∀ c ∈ on, ∃ r resource, app.resource? r = some resource ∧ resource.lateCore? = some c := by
  obtain ⟨⟨p, hp, rfl⟩, hpairs⟩ := waitsOf_pairs h
  constructor
  · obtain ⟨t, r, -, ht, hcore, -⟩ := Waits.mem_initializationPairs_placed_iff.1 hp
    exact ⟨r, t, ht, hcore⟩
  · intro c hc
    obtain ⟨-, r, resource, -, -, hr, hlate⟩ :=
      Waits.mem_initializationPairs_placed_iff.1 (hpairs c hc)
    exact ⟨r, resource, hr, hlate⟩

/-- Senders wait for the receivers of their spawns. -/
theorem origin_of_spawnWaits (h : (Analysis.ofApp limits app).spawnWaits[core]? = some on) :
    (∃ e ∈ app.edges, e.sender.core = core) ∧ ∀ c ∈ on, ∃ e ∈ app.edges, e.spawn.core = c := by
  obtain ⟨⟨p, hp, rfl⟩, hpairs⟩ := waitsOf_pairs h
  constructor
  · obtain ⟨e, he, hsender, -⟩ := Waits.mem_spawnPairs_iff.1 hp
    exact ⟨e, he, hsender⟩
  · intro c hc
    obtain ⟨e, he, -, hreceiver⟩ := Waits.mem_spawnPairs_iff.1 (hpairs c hc)
    exact ⟨e, he, hreceiver⟩

end Origin

/-! ## Declared cores -/

section Declared

variable {core waiting : Core} {on : SortedSet Core}

/-- What is waited for at the start was declared together with a late resource. -/
theorem mem_cores_of_initializationWaits (hlate : app.LateDeclared)
    (h : (Analysis.ofApp limits app).initializationWaits[waiting]? = some on) :
    ∀ c ∈ on, c ∈ app.cores := by
  intro c hc
  obtain ⟨r, resource, hr, hinit⟩ := (origin_of_initializationWaits h).2 c hc
  exact hlate r resource c hr hinit

theorem mem_cores_of_timerQueue (hrouted : ∀ e ∈ app.edges, e.IsRouted app)
    (h : core ∈ (Analysis.ofApp limits app).timerQueues) : core ∈ app.cores := by
  obtain ⟨e, he, rfl⟩ := exists_edge_of_timerQueue h
  exact (hrouted e he).sender

theorem mem_cores_of_spawnWaits (hrouted : ∀ e ∈ app.edges, e.IsRouted app)
    (h : (Analysis.ofApp limits app).spawnWaits[waiting]? = some on) :
    waiting ∈ app.cores ∧ ∀ c ∈ on, c ∈ app.cores := by
  obtain ⟨⟨e, he, rfl⟩, hreceivers⟩ := origin_of_spawnWaits h
  refine ⟨(hrouted e he).sender, fun c hc => ?_⟩
  obtain ⟨f, hf, rfl⟩ := hreceivers c hc
  exact (hrouted f hf).receiver

end Declared

/-- In an application that is filed under its names, spawns that arrive are all that the cores of a
result ask for: every other core is that of a task or initialises a resource. -/
theorem coreFaults_eq_nil (h : app.WellFiled) (hrouted : ∀ e ∈ app.edges, e.IsRouted app) :
    (Analysis.ofApp limits app).coreFaults = [] := by
  refine coreFaults_eq_nil_iff.2 ⟨?_, ?_, ?_, ?_⟩
  · intro r location hlocation
    obtain ⟨resource, hr, hlocate⟩ := exists_resource_of_location hlocation
    rcases locate_core hlocate with hcore | hcore
    · obtain ⟨t, ht, hcore⟩ := mem_accessCores_iff.1 hcore
      exact hcore ▸ h.core_mem ht.1
    · exact h.late_core hr hcore
  · intro core hcore
    exact mem_cores_of_timerQueue hrouted hcore
  · intro core on hon
    obtain ⟨⟨r, t, ht, rfl⟩, -⟩ := origin_of_initializationWaits hon
    exact ⟨h.core_mem ht.1, mem_cores_of_initializationWaits h.lateDeclared hon⟩
  · intro core on hon
    exact mem_cores_of_spawnWaits hrouted hon

/-! ## No fault -/

theorem isRouted_iff (h : app.WellFiled) {e : Edge} (he : e ∈ app.edges) : e.IsRouted app ↔
    ∃ t, app.task? e.target = some t ∧ t.core = e.spawn.core ∧ t.priority = e.spawn.priority := by
  constructor
  · exact Edge.IsRouted.target
  · rintro ⟨t, ht, hcore, hpriority⟩
    have hsender := (App.mem_edges.1 he).1
    exact ⟨hcore ▸ h.task_core ht, h.core_mem hsender, ⟨t, ht, hcore, hpriority⟩,
      ⟨e.sender, h.task?_name hsender, rfl⟩⟩

/-- An application that is filed under its names has no fault when its accesses and its spawns go
where they say. -/
theorem faults_eq_nil_iff (h : app.WellFiled) : (Analysis.ofApp limits app).faults app = [] ↔
    (∀ r t, app.IsAccessor r t → r ∈ app.resources) ∧
      ∀ e ∈ app.edges, ∃ t, app.task? e.target = some t ∧ t.core = e.spawn.core ∧
        t.priority = e.spawn.priority := by
  have hrouted : (∀ e ∈ app.edges, e.IsRouted app) ↔ ∀ e ∈ app.edges,
      ∃ t, app.task? e.target = some t ∧ t.core = e.spawn.core ∧ t.priority = e.spawn.priority :=
    forall₂_congr fun e he => isRouted_iff h he
  simp only [Analysis.faults, List.append_eq_nil_iff, useFaults_eq_nil_iff,
    channelFaults_eq_nil_iff, ceilingFaults_eq_nil, accessorFaults_eq_nil_iff, and_assoc, true_and]
  rw [hrouted]
  constructor
  · rintro ⟨huse, hedges, -⟩
    exact ⟨huse, hedges⟩
  · rintro ⟨huse, hedges⟩
    exact ⟨huse, hedges, h.resolved, ownerFaults_eq_nil h.resolved,
      coreFaults_eq_nil h (hrouted.2 hedges)⟩

/-! ## What follows from no fault, however tasks are filed -/

theorem declared_of_faults (h : (Analysis.ofApp limits app).faults app = []) :
    ∀ r t, app.IsAccessor r t → r ∈ app.resources := by
  simp only [Analysis.faults, List.append_eq_nil_iff, useFaults_eq_nil_iff] at h
  exact h.1.1.1.1.1

theorem routed_of_faults (h : (Analysis.ofApp limits app).faults app = []) :
    ∀ e ∈ app.edges, e.IsRouted app := by
  simp only [Analysis.faults, List.append_eq_nil_iff, channelFaults_eq_nil_iff] at h
  exact h.1.1.1.1.2

theorem resolved_of_faults (h : (Analysis.ofApp limits app).faults app = []) : app.Resolved := by
  simp only [Analysis.faults, List.append_eq_nil_iff, accessorFaults_eq_nil_iff] at h
  exact h.1.1.2

theorem coreFaults_of_faults (h : (Analysis.ofApp limits app).faults app = []) :
    (Analysis.ofApp limits app).coreFaults = [] :=
  (List.append_eq_nil_iff.1 h).2

end MulticoreTasks
