import MulticoreTasks.Resource.Sharing

/-!
# Where resources live

A resource whose accessors run on one core lives there.  One with accessors on several cores lives
with the core that initialises it, else with the lowest of them, and needs a lock that works across
cores.

* `Location`          : the storage core of a resource, and who reaches it from elsewhere;
* `locate`            : the location that accessor cores and an initialising core ask for;
* `Placement`         : the locations, the late resources of each core, and the types that the
  consumer has to prove safe to send to another core or to share between contexts;
* `Placement.checked` : the placement of an application.
-/

namespace MulticoreTasks

/-- Where a resource lives. -/
inductive Location where
  /-- On the core of all its accessors; another core may have to hand it its first value. -/
  | single (core : Core) (crossInitialized : Bool)
  /-- On `core`, with accessors on `cores`. -/
  | spread (core : Core) (cores : SortedSet Core)
  deriving DecidableEq

namespace Location

/-- The storage core. -/
def core : Location → Core
  | single core _ => core
  | spread core _ => core

/-- Whether several cores access the resource. -/
def isCrossCore : Location → Bool
  | single _ _ => false
  | spread _ _ => true

/-- Whether the first value comes from another core than the one that stores it. -/
def isCrossInitialized : Location → Bool
  | single _ crossInitialized => crossInitialized
  | spread _ _ => false

end Location

/-- The location of a resource with accessors on `cores`, initialised at run time by `late?`;
without accessors it has none. -/
def locate (cores : SortedSet Core) (late? : Option Core) : Option Location :=
  match cores.toList with
  | [] => none
  | [core] => some (.single core (late?.any (· ≠ core)))
  | lowest :: _ :: _ => some (.spread (late?.getD lowest) cores)

/-- The cores with an accessor of a resource. -/
def App.accessCores (app : App) (resource : ResourceName) : SortedSet Core :=
  SortedSet.ofList ((app.usesOf resource).map (·.task.core))

/-- The priorities of the accessors of a resource. -/
def App.accessPriorities (app : App) (resource : ResourceName) : SortedSet Priority :=
  SortedSet.ofList ((app.usesOf resource).map (·.task.priority))

/-- A declared resource that got a location. -/
structure Placed where
  name : ResourceName
  resource : Resource
  location : Location
  deriving DecidableEq

/-- Where resources live, and what follows from it. -/
structure Placement where
  locations : Table ResourceName Location := ∅
  /-- The placed resources that each core initialises at run time. -/
  lateResources : Table Core (SortedSet ResourceName) := ∅
  /-- Types written across cores, or handed to another core at the start. -/
  sendTypes : SortedSet TypeName := ∅
  /-- Types read from several cores, or by readers that preempt one another. -/
  syncTypes : SortedSet TypeName := ∅
  deriving DecidableEq

namespace Placement

/-- The location of a declared resource, if it is used. -/
def location? (app : App) (sharing : Sharing) (name : ResourceName) (r : Resource) :
    Option Location :=
  if sharing.isUsed name then locate (app.accessCores name) r.lateCore? else none

/-- The placed resources, by name. -/
def placed (app : App) (sharing : Sharing) : List Placed :=
  app.resources.toList.filterMap fun (name, r) =>
    (location? app sharing name r).map fun location => ⟨name, r, location⟩

/-- Whether some task accesses the resource in the given way. -/
def isAccessed (app : App) (name : ResourceName) (access : Access) : Bool :=
  (app.usesOf name).any (·.access = access)

/-- Whether the type of a resource has to be safe to share: someone reads it, and either several
cores access it or several tasks at different priorities do. -/
def needsSync (app : App) (sharing : Sharing) (p : Placed) : Bool :=
  isAccessed app p.name .read &&
    (p.location.isCrossCore ||
      sharing.shared.contains p.name && 1 < (app.accessPriorities p.name).size)

/-- Whether the type of a resource has to be safe to send: it is written across cores, or its first
value comes from another core. -/
def needsSend (app : App) (p : Placed) : Bool :=
  p.location.isCrossCore && isAccessed app p.name .write || p.location.isCrossInitialized

/-- The placed resources that each core initialises. -/
def lateOf (placed : List Placed) : Table Core (SortedSet ResourceName) :=
  (Table.groupBy Prod.fst (placed.filterMap fun p => p.resource.lateCore?.map (·, p.name))).map
    fun _ group => SortedSet.ofList (group.map Prod.snd)

/-- The placement of the used resources of an application. -/
def ofSharing (app : App) (sharing : Sharing) : Placement :=
  let placed := placed app sharing
  { locations := app.resources.filterMap fun name r => location? app sharing name r
    lateResources := lateOf placed
    sendTypes := SortedSet.ofList ((placed.filter (needsSend app)).map (·.resource.valueType))
    syncTypes :=
      SortedSet.ofList ((placed.filter (needsSync app sharing)).map (·.resource.valueType)) }

theorem getElem?_locations {app : App} {sharing : Sharing} {name : ResourceName} :
    (ofSharing app sharing).locations[name]? =
      (app.resource? name).bind (location? app sharing name) := by
  simp [ofSharing, App.resource?]

/-- The located resources are the used ones, each counted once. -/
def IsUnique (p : Placement) (sharing : Sharing) : Prop :=
  p.locations.size = sharing.exclusive.size + sharing.shared.size ∧
    ∀ name ∈ sharing.exclusive.keys ++ sharing.shared.keys, name ∈ p.locations

instance (p : Placement) (sharing : Sharing) : Decidable (p.IsUnique sharing) := by
  unfold IsUnique; infer_instance

/-- The type of a resource with accessors on several cores is to be proved safe to share or to send.
-/
def IsObliged (p : Placement) (app : App) : Prop :=
  ∀ e ∈ p.locations.entries, e.2.isCrossCore →
    ∃ r ∈ app.resource? e.1, r.valueType ∈ p.syncTypes ∨ r.valueType ∈ p.sendTypes

instance (p : Placement) (app : App) : Decidable (p.IsObliged app) := by
  unfold IsObliged; infer_instance

/-- The placement of an application whose resources are shared as told. -/
def checked (app : App) (sharing : Sharing) : Audited Placement := do
  let placement := ofSharing app sharing
  Audited.ensure .locationUnique (placement.IsUnique sharing)
  Audited.ensure .crossCoreObligation (placement.IsObliged app)
  return placement

end Placement

end MulticoreTasks
