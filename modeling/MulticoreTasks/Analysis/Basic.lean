import MulticoreTasks.Analysis.Stages
import MulticoreTasks.Resource.Ownership

/-!
# The result of an analysis

All that the stages have found out about an application, and what is asked of it afterwards.

* `Analysis`          : the result;
* `Analysis.ofStages` : the result that the outputs of the stages are put together to;
* `Analysis.waitsForInitialization`, `Analysis.waitsForDispatcher` : whether a core has to wait.
-/

namespace MulticoreTasks

/-- The result of analysing an application. -/
structure Analysis where
  cores : SortedSet Core
  ownerships : Ownerships
  ceilings : Ceilings
  locations : Table ResourceName Location
  lateResources : Table Core (SortedSet ResourceName)
  channels : Channels
  freeQueues : FreeQueues
  timerQueues : TimerQueues
  initializationWaits : WaitTable
  spawnWaits : WaitTable
  sendTypes : SortedSet TypeName
  syncTypes : SortedSet TypeName

namespace Analysis

/-- The result that stages and waits are put together to. -/
def ofStages (app : App) (s : Stages) (waits : Waits) : Analysis where
  cores := app.cores
  ownerships := s.sharing.ownerships s.ceilings
  ceilings := s.ceilings
  locations := s.placement.locations
  lateResources := s.placement.lateResources
  channels := s.topology.channels
  freeQueues := s.topology.freeQueues
  timerQueues := s.timerQueues
  initializationWaits := waits.initialization
  spawnWaits := waits.spawn
  sendTypes := s.placement.sendTypes ∪ s.topology.sendTypes
  syncTypes := s.placement.syncTypes

/-- The ownership of a resource. -/
def ownership? (a : Analysis) (resource : ResourceName) : Option Ownership :=
  a.ownerships[resource]?

/-- The location of a resource. -/
def location? (a : Analysis) (resource : ResourceName) : Option Location := a.locations[resource]?

/-- Whether `core` waits for `on` before it runs tasks that access late resources. -/
def waitsForInitialization (a : Analysis) (core on : Core) : Bool :=
  a.initializationWaits.waits core on

/-- Whether `core` waits for `on` before its first spawn. -/
def waitsForDispatcher (a : Analysis) (core on : Core) : Bool := a.spawnWaits.waits core on

end Analysis

end MulticoreTasks
