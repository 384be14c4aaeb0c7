import MulticoreTasks.Message.TimerQueue
import MulticoreTasks.Message.Topology
import MulticoreTasks.Resource.Ceiling
import MulticoreTasks.Resource.Placement
import MulticoreTasks.Startup.Waits

/-!
# The stages of an analysis

The stages run one after the other, each on what the former ones hand on, and every one of them
runs, whatever the others find.

* `Stages`          : the outputs of the stages, with the findings of each;
* `Stages.findings` : all findings, in the order in which they are reported;
* `Stages.run`      : the stages of an application;
* `Stages.waits`    : the waits that follow, once it is known that nothing was found.
-/

namespace MulticoreTasks

/-- The outputs of the stages. -/
structure Stages where
  sharing : Sharing
  ceilings : Ceilings
  placement : Placement
  topology : Topology
  timerQueues : TimerQueues
  /-- Resources that nobody uses. -/
  unused : List Diagnostic
  /-- Priorities that the target cannot program, and resources that cores clash over. -/
  clashes : List Diagnostic
  /-- Spawns with a wrong priority or capacity. -/
  misspawns : List Diagnostic
  /-- Delayed spawns without a slot. -/
  unslotted : List Diagnostic

namespace Stages

/-- What the stages found, stage by stage. -/
def findings (s : Stages) : List Diagnostic := s.unused ++ s.clashes ++ s.misspawns ++ s.unslotted

/-- Run the stages. -/
def run (limits : Limits) (app : App) : Audited Stages := do
  let (sharing, unused) ← Sharing.checked app
  let (ceilings, clashes) ← Ceilings.checked limits app sharing
  let placement ← Placement.checked app sharing
  let (topology, misspawns) ← Topology.checked limits app
  let (timerQueues, unslotted) ← TimerQueues.checked limits app topology.freeQueues
  return ⟨sharing, ceilings, placement, topology, timerQueues,
    unused, clashes, misspawns, unslotted⟩

/-- The waits that placement and topology come to. -/
def waits (s : Stages) (app : App) : Audited Waits :=
  Waits.checked app s.placement.lateResources s.topology.channels.keys

end Stages

end MulticoreTasks
