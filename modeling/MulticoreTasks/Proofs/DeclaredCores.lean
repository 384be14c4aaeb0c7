import MulticoreTasks.Proofs.Faults

/-!
# The cores that an accepted analysis names

An accepted analysis names cores in many places, and a task that was overwritten in place may run on
any core at all:

* `Analysis.Mentions`      : the places in which an analysis names a core;
* `analyze_cores_declared` : in an accepted analysis these cores are declared exactly when all
  accessors of resources run on declared cores, and one that is not declared can only be a core from
  which an eager resource is accessed that lives elsewhere.

All other cores are held back by a check of their own, or by that of a core or a route that they
come with (`Analysis.coreFaults`, `Analysis.channelFaults`).  Of a location the storage core is
checked and the cores of the accessors are not: `stowaway_undeclared` is an accepted application
that names an undeclared core there.
-/

namespace MulticoreTasks

/-- The analysis names a core. -/
inductive Analysis.Mentions (a : Analysis) : Core → Prop
  | storage {r : ResourceName} {location : Location} :
      a.locations[r]? = some location → Mentions a location.core
  /-- A core from which a resource is accessed across cores. -/
  | access {r : ResourceName} {storage core : Core} {cores : SortedSet Core} :
      a.locations[r]? = some (.spread storage cores) → core ∈ cores → Mentions a core
  | late {core : Core} : core ∈ a.lateResources → Mentions a core
  | receiver {route : Route} : route ∈ a.channels → Mentions a route.receiver
  | sender {route : Route} : route ∈ a.channels → Mentions a route.sender
  | queue {task : TaskName} {sender : Core} {n : UInt8} :
      a.freeQueues.capacity? task sender = some n → Mentions a sender
  | timer {core : Core} : core ∈ a.timerQueues → Mentions a core
  | waitsInitially {core : Core} : core ∈ a.initializationWaits → Mentions a core
  | awaitedInitially {core on : Core} {cores : SortedSet Core} :
      a.initializationWaits[core]? = some cores → on ∈ cores → Mentions a on
  | waitsToSpawn {core : Core} : core ∈ a.spawnWaits → Mentions a core
  | awaitedToSpawn {core on : Core} {cores : SortedSet Core} :
      a.spawnWaits[core]? = some cores → on ∈ cores → Mentions a on

namespace Stowaway

def bus : Resource := { name := "bus", valueType := "Bus" }

def log : Task where
  name := "log"
  core := ⟨0⟩
  priority := 2
  resources := (∅ : Table ResourceName Access).insert "bus" .write

def poll : Task where
  name := "poll"
  core := ⟨0⟩
  priority := 1
  resources := (∅ : Table ResourceName Access).insert "bus" .read

/-- Two tasks of one core share a bus, and then one of them is moved to a core that the application
does not have. -/
def app : App :=
  ((((App.ofCores [⟨0⟩]).insertResource bus).insertTask log).insertTask poll).amendTask "log"
    fun t => { t with core := ⟨9⟩ }

theorem amended : app.Amended := by
  have hbus : ((App.ofCores [⟨0⟩]).insertResource bus).Reachable :=
    .addResource (r := bus) (.ofCores [⟨0⟩]) rfl
  have hlog : (((App.ofCores [⟨0⟩]).insertResource bus).insertTask log).Reachable :=
    .addTask (t := log) hbus rfl
  exact .amendTask "log" _ (.reachable (.addTask (t := poll) hlog rfl))

end Stowaway

variable {app : App} {limits : Limits} {r : ResourceName} {resource : Resource} {t : Task}

/-! ## Accessors -/

/-- The core of an accessor is named with the location: as the storage core of a resource that is
accessed from one core only, or among the cores from which it is accessed. -/
theorem mentions_of_isAccessor (limits : Limits) (hr : app.resource? r = some resource)
    (ht : app.IsAccessor r t) : (Analysis.ofApp limits app).Mentions t.core := by
  obtain ⟨location, hlocation⟩ := exists_location hr ht
  have hsome : (Analysis.ofApp limits app).locations[r]? = some location := by
    rw [getElem?_locations_ofApp, hr, Option.bind_some, hlocation]
  have hcore : t.core ∈ app.accessCores r := mem_accessCores_iff.2 ⟨t, ht, rfl⟩
  rcases locate_cases (Placement.locate_of_location? hlocation) with
    ⟨core, rfl, hone⟩ | ⟨lowest, -, rfl⟩
  · rw [(hone t.core).1 hcore]
    exact .storage hsome
  · exact .access hsome hcore

/-- The cores of a spread resource are those of its accessors. -/
theorem exists_accessor_of_spread {storage core : Core} {cores : SortedSet Core}
    (hlocation : (Analysis.ofApp limits app).locations[r]? = some (.spread storage cores))
    (hmem : core ∈ cores) : ∃ t, app.IsAccessor r t ∧ t.core = core := by
  obtain ⟨resource, -, hlocate⟩ := exists_resource_of_location hlocation
  rcases locate_cases hlocate with ⟨_, hsingle, -⟩ | ⟨_, -, hspread⟩
  · cases hsingle
  · cases hspread
    exact mem_accessCores_iff.1 hmem

/-- An accessor of a late resource waits for the core that initialises it, unless that is its own.
-/
theorem mem_initializationWaits {init : Core} (limits : Limits)
    (hr : app.resource? r = some resource) (hinit : resource.lateCore? = some init)
    (ht : app.IsAccessor r t) (hother : t.core ≠ init) :
    t.core ∈ (Analysis.ofApp limits app).initializationWaits := by
  have hpair : (t.core, init) ∈ Waits.initializationPairs app
      (Placement.ofSharing app (.ofApp app)).lateResources :=
    Waits.mem_initializationPairs_placed_iff.2 ⟨t, r, resource, ht, rfl, hr, hinit⟩
  have hwaits := waits_waitsOf.2 ⟨hother, hpair⟩
  obtain ⟨on, hon, -⟩ := (Option.any_eq_true ..).1 hwaits
  exact Table.mem_iff_exists.2 ⟨on, hon⟩

/-! ## Declared cores -/

/-- Without faults, an accessor of a late resource runs on a declared core. -/
theorem core_mem_of_late {init : Core} (hlate : app.LateDeclared)
    (hfaults : (Analysis.ofApp limits app).faults app = []) (hr : app.resource? r = some resource)
    (hinit : resource.lateCore? = some init) (ht : app.IsAccessor r t) : t.core ∈ app.cores := by
  by_cases hother : t.core = init
  · rw [hother]
    exact hlate r resource init hr hinit
  · obtain ⟨-, -, hwaits, -⟩ := coreFaults_eq_nil_iff.1 (coreFaults_of_faults hfaults)
    obtain ⟨on, hon⟩ := Table.mem_iff_exists.1 (mem_initializationWaits limits hr hinit ht hother)
    exact (hwaits t.core on hon).1

/-- Without faults, a core that is named and not declared is one from which an eager resource is
accessed that lives elsewhere. -/
theorem exists_spread_of_mentions {core : Core} (hlate : app.LateDeclared)
    (hfaults : (Analysis.ofApp limits app).faults app = [])
    (hmentions : (Analysis.ofApp limits app).Mentions core) (hcore : core ∉ app.cores) :
    ∃ r resource storage cores, app.resource? r = some resource ∧ resource.init = .eager ∧
      (Analysis.ofApp limits app).locations[r]? = some (.spread storage cores) ∧ core ∈ cores ∧
        storage ≠ core := by
  have hrouted := routed_of_faults hfaults
  obtain ⟨hstorage, htimers, hwaits, hspawns⟩ :=
    coreFaults_eq_nil_iff.1 (coreFaults_of_faults hfaults)
  cases hmentions with
  | storage hlocation => exact absurd (hstorage _ _ hlocation) hcore
  | @access r storage _ cores hlocation hmem =>
    obtain ⟨resource, hr, -⟩ := exists_resource_of_location hlocation
    obtain ⟨t, ht, rfl⟩ := exists_accessor_of_spread hlocation hmem
    refine ⟨r, resource, storage, cores, hr, ?_, hlocation, hmem, ?_⟩
    · cases hinit : resource.init with
      | eager => rfl
      | late init =>
        have hsome : resource.lateCore? = some init := by rw [Resource.lateCore?, hinit]
        exact absurd (core_mem_of_late hlate hfaults hr hsome ht) hcore
    · rintro rfl
      exact hcore (hstorage _ _ hlocation)
  | late hkey =>
    obtain ⟨r, resource, hr, hinit⟩ := exists_resource_of_late hkey
    exact absurd (hlate r resource core hr hinit) hcore
  | receiver hroute =>
    obtain ⟨e, he, rfl⟩ := App.mem_channels.1 hroute
    exact absurd (hrouted e he).receiver hcore
  | sender hroute =>
    obtain ⟨e, he, rfl⟩ := App.mem_channels.1 hroute
    exact absurd (hrouted e he).sender hcore
  | queue hsize =>
    obtain ⟨e, he, -, rfl, -⟩ := App.exists_edge_of_capacity? hsize
    exact absurd (hrouted e he).sender hcore
  | timer hkey => exact absurd (htimers core hkey) hcore
  | waitsInitially hkey =>
    obtain ⟨on, hon⟩ := Table.mem_iff_exists.1 hkey
    exact absurd (hwaits core on hon).1 hcore
  | awaitedInitially hon hmem => exact absurd ((hwaits _ _ hon).2 core hmem) hcore
  | waitsToSpawn hkey =>
    obtain ⟨on, hon⟩ := Table.mem_iff_exists.1 hkey
    exact absurd (hspawns core on hon).1 hcore
  | awaitedToSpawn hon hmem => exact absurd ((hspawns _ _ hon).2 core hmem) hcore

/-- In an accepted application, the cores that the analysis names are declared exactly when every
accessor runs on a declared core; and one that is not declared is only named among the cores from
which some eager resource is accessed that lives elsewhere. -/
theorem analyze_cores_declared (h : app.Amended) {ledger : Ledger} {a : Analysis}
    (hok : (ledger.settle (analyze limits app)).1 = .ok (.ok a)) :
    ((∀ core, a.Mentions core → core ∈ a.cores) ↔
      ∀ r t, app.IsAccessor r t → t.core ∈ app.cores) ∧
    ∀ core, a.Mentions core → core ∉ a.cores →
      ∃ r resource storage cores, app.resource? r = some resource ∧ resource.init = .eager ∧
        a.locations[r]? = some (.spread storage cores) ∧ core ∈ cores ∧ storage ≠ core := by
  rw [Ledger.settle_analyze, Except.ok.injEq] at hok
  obtain ⟨-, hfaults, rfl⟩ := analyze_eq_ok_iff.1 hok
  refine ⟨⟨?_, ?_⟩, fun core => exists_spread_of_mentions h.lateDeclared hfaults⟩
  · intro hdeclared r t ht
    obtain ⟨resource, hr⟩ := App.mem_resources_iff.1 (declared_of_faults hfaults r t ht)
    exact hdeclared t.core (mentions_of_isAccessor limits hr ht)
  · intro haccessors core hmentions
    by_cases hcore : core ∈ app.cores
    · exact hcore
    · obtain ⟨r, resource, storage, cores, -, -, hlocation, hmem, -⟩ :=
        exists_spread_of_mentions h.lateDeclared hfaults hmentions hcore
      obtain ⟨t, ht, rfl⟩ := exists_accessor_of_spread hlocation hmem
      exact haccessors r t ht

/-- The relay once polling has moved to the core of logging. -/
def Relay.gathered : App := Relay.app.amendTask "poll" fun t => { t with core := ⟨1⟩ }

/-- All accessors still run on declared cores, and so the application is accepted with no other core
in its result. -/
theorem analyze_cores_declared_relay :
    ((∅ : Ledger).settle (analyze .default Relay.gathered)).1 =
        .ok (.ok (.ofApp .default Relay.gathered)) ∧
      ∀ core, (Analysis.ofApp .default Relay.gathered).Mentions core →
        core ∈ Relay.gathered.cores := by
  have hok : ((∅ : Ledger).settle (analyze .default Relay.gathered)).1 =
      .ok (.ok (.ofApp .default Relay.gathered)) := by
    rw [Ledger.settle_analyze, Except.ok.injEq]
    exact analyze_eq_ok_iff.2 ⟨by decide +kernel, by decide +kernel, rfl⟩
  have hlegal : Relay.gathered.IsLegal := by decide +kernel
  have hcores := analyze_cores_declared (.amendTask "poll" _ (.reachable Relay.reachable)) hok
  exact ⟨hok, hcores.1.2 fun _ t ht => hlegal t ht.1⟩

/-- The core that a task was moved to is not declared; but the storage core is, no spawn leaves or
reaches the other, and nobody waits for it: so the analysis is accepted and names it. -/
theorem stowaway_undeclared : Stowaway.app.Amended ∧
    ∃ a, ((∅ : Ledger).settle (analyze .default Stowaway.app)).1 = .ok (.ok a) ∧
      a.Mentions ⟨9⟩ ∧ ⟨9⟩ ∉ a.cores := by
  refine ⟨Stowaway.amended, .ofApp .default Stowaway.app, ?_, ?_, ?_⟩
  · rw [Ledger.settle_analyze, Except.ok.injEq]
    exact analyze_eq_ok_iff.2 ⟨by decide +kernel, by decide +kernel, rfl⟩
  · have hlog : Stowaway.app.IsAccessor "bus" { Stowaway.log with core := ⟨9⟩ } :=
      ⟨by decide +kernel, by decide +kernel⟩
    have hbus : Stowaway.app.resource? "bus" = some Stowaway.bus := by decide +kernel
    exact mentions_of_isAccessor .default hbus hlog
  · decide +kernel

end MulticoreTasks
