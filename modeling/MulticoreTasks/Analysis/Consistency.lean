import MulticoreTasks.Analysis.Basic

/-!
# Consistency of a result with its application

The stages look tasks up in different ways: accessors go by the names that tasks give themselves,
channels by what spawns believe of their targets.  `Analysis.faults` lists every contradiction that
this can lead to, in a fixed order, part by part:

* `useFaults`      : accesses to undeclared resources;
* `channelFaults`  : channels, whose cores, targets and senders must be declared and where the route
  says;
* `ceilingFaults`  : ceilings and ownerships that differ;
* `accessorFaults` : accessors that are not the task of their name, or stand above a ceiling;
* `ownerFaults`    : owners that are not declared;
* `coreFaults`     : undeclared cores of locations, timer queues and waits.
-/

namespace MulticoreTasks

/-- The fault of naming a core that is not declared. -/
def coreFault (cores : SortedSet Core) (entity : String) (core : Core) : List Inconsistency :=
  if core ∈ cores then [] else [.unknownCore core entity]

/-- Accesses to undeclared resources, in the order of the accesses. -/
def useFaults (app : App) : List Inconsistency :=
  (app.uses.filter (·.resource ∉ app.resources)).map fun u =>
    .unknownResource u.task.name u.resource

/-! ## Channels -/

/-- The fault of a name that a channel lists as a target. -/
def targetFault (app : App) (route : Route) (name : TaskName) : List Inconsistency :=
  match app.task? name with
  | none => [.unknownTask name route.receiver route.sender]
  | some t =>
    if t.core = route.receiver ∧ t.priority = route.priority then []
    else [.misroutedTask name route.receiver route.priority t.core t.priority]

/-- The fault of a name that a channel lists as a sender. -/
def senderFault (app : App) (route : Route) (name : TaskName) : List Inconsistency :=
  match app.task? name with
  | none => [.unknownTask name route.receiver route.sender]
  | some t =>
    if t.core = route.sender then []
    else [.misroutedTask name route.sender t.priority t.core t.priority]

/-- The faults of one channel: its receiver, its sender, its targets by name, then its senders by
name. -/
def channelFault (app : App) (cores : SortedSet Core) (route : Route) (channel : Channel) :
    List Inconsistency :=
  coreFault cores s!"channel to {route.receiver.label}" route.receiver ++
    coreFault cores s!"channel from {route.sender.label}" route.sender ++
    channel.tasks.toList.flatMap (targetFault app route) ++
    channel.senders.toList.flatMap (senderFault app route)

namespace Analysis

/-- The faults of the channels, by route. -/
def channelFaults (a : Analysis) (app : App) : List Inconsistency :=
  a.channels.entries.flatMap fun e => channelFault app a.cores e.1 e.2

/-! ## Resources -/

/-- Ceilings whose resource is not shared under them, then ownerships whose ceiling is not the one
computed. -/
def ceilingFaults (a : Analysis) : List Inconsistency :=
  (a.ceilings.entries.filter fun e => a.ownerships[e.1]? ≠ some (.shared e.2)).map
      (fun e => .ceilingMismatch e.1) ++
    (a.ownerships.entries.filter fun e => e.2.ceiling? ≠ a.ceilings[e.1]?).map
      (fun e => .ceilingMismatch e.1)

/-- The fault of one access: another task goes by the name of the accessor, or the accessor stands
above the ceiling. -/
def accessorFault (a : Analysis) (app : App) (u : Use) : List Inconsistency :=
  if app.task? u.task.name ≠ some u.task then [.unknownAccessor u.resource u.task.name]
  else
    match a.ownerships[u.resource]?.bind Ownership.ceiling? with
    | none => []
    | some ceiling =>
      if ceiling < u.task.priority then
        [.ceilingBelowAccessor u.resource ceiling u.task.name u.task.priority]
      else []

/-- The faults of the accesses, in their order. -/
def accessorFaults (a : Analysis) (app : App) : List Inconsistency :=
  app.uses.flatMap (a.accessorFault app)

/-- The owners that are no declared task, by resource. -/
def ownerFaults (a : Analysis) (app : App) : List Inconsistency :=
  a.ownerships.entries.filterMap fun (r, ownership) =>
    match ownership with
    | .exclusive owner => if owner ∈ app.tasks then none else some (.unknownAccessor r owner)
    | .shared _ => none

/-! ## Cores -/

/-- The faults of the waits of one kind, by waiting core. -/
def waitFaults (cores : SortedSet Core) (table : WaitTable) : List Inconsistency :=
  table.entries.flatMap fun (waiting, on) =>
    coreFault cores "barrier" waiting ++
      on.toList.flatMap (coreFault cores s!"barrier of {waiting.label}")

/-- Undeclared cores of locations, timer queues and waits. -/
def coreFaults (a : Analysis) : List Inconsistency :=
  (a.locations.entries.flatMap fun e => coreFault a.cores s!"location of `{e.1}`" e.2.core) ++
    a.timerQueues.keys.flatMap (coreFault a.cores "timer queue") ++
    waitFaults a.cores a.initializationWaits ++ waitFaults a.cores a.spawnWaits

/-- Every contradiction between a result and its application, the one to report first. -/
def faults (a : Analysis) (app : App) : List Inconsistency :=
  useFaults app ++ a.channelFaults app ++ a.ceilingFaults ++ a.accessorFaults app ++
    a.ownerFaults app ++ a.coreFaults

end Analysis

end MulticoreTasks
