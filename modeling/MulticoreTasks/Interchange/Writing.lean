import MulticoreTasks.Analysis.Verdict
import MulticoreTasks.App.Record
import MulticoreTasks.Interchange.Datum

/-!
# Writing applications, results and faults

Each writer gives the datum of a value.  What `Reading.lean` reads is written here in the same
shape, with structures always by field names.  Channels are kept flat in the library and written
nested: by receiver, then by priority, then by sender.
-/

namespace MulticoreTasks

/-! ## Applications -/

def Access.toDatum : Access → Datum
  | .read => .text "Read"
  | .write => .text "Write"

def Init.toDatum : Init → Datum
  | .eager => .text "Eager"
  | .late c => .variant "Late" (.record [("core", .core c)])

def Dispatch.toDatum : Dispatch → Datum
  | .immediate => .text "Immediate"
  | .delayed => .text "Delayed"

def Resource.toDatum (r : Resource) : Datum :=
  .record [("name", .text r.name), ("ty", .text r.valueType), ("init", r.init.toDatum),
    ("transferable", .flag r.transferable)]

def Spawn.toDatum (s : Spawn) : Datum :=
  .record [("target", .text s.target), ("core", .core s.core), ("priority", .byte s.priority),
    ("capacity", .byte s.capacity), ("kind", s.dispatch.toDatum)]

def Task.toDatum (t : Task) : Datum :=
  .record [("name", .text t.name), ("core", .core t.core), ("priority", .byte t.priority),
    ("message", .text t.message), ("resources", .byName Access.toDatum t.resources),
    ("spawns", .list (t.spawns.map Spawn.toDatum))]

def Record.toDatum (r : Record) : Datum :=
  .record [("cores", .cores r.cores), ("resources", .byName Resource.toDatum r.resources),
    ("tasks", .byName Task.toDatum r.tasks)]

def App.toDatum (app : App) : Datum := app.toRecord.toDatum

def Limits.toDatum (l : Limits) : Datum :=
  .record [("max_priority", .byte l.maxPriority), ("timer_slot_bound", .byte l.timerSlotBound)]

/-! ## Resources -/

def Sharing.toDatum (s : Sharing) : Datum :=
  .record [("exclusive", .byName Datum.text s.exclusive), ("shared", .byName Datum.names s.shared)]

def Ceilings.toDatum (ceilings : Ceilings) : Datum := .byName Datum.byte ceilings

def Ownership.toDatum : Ownership → Datum
  | .exclusive owner => .variant "Exclusive" (.text owner)
  | .shared ceiling => .variant "Shared" (.byte ceiling)

def Location.toDatum : Location → Datum
  | .single c crossInitialized =>
    .variant "Local" (.record [("core", .core c), ("cross_initialized", .flag crossInitialized)])
  | .spread c on => .variant "CrossCore" (.record [("core", .core c), ("cores", .cores on)])

/-- A location with what is asked of it. -/
def Location.toView (l : Location) : Datum :=
  .record [("location", l.toDatum), ("core", .core l.core), ("cross_core", .flag l.isCrossCore),
    ("cross_initialized", .flag l.isCrossInitialized)]

def Placement.toDatum (p : Placement) : Datum :=
  .record
    [("locations", .list (p.locations.toList.map fun (name, l) => .list [.text name, l.toView])),
      ("late_resources", .byCore Datum.names p.lateResources), ("send_types", .names p.sendTypes),
      ("sync_types", .names p.syncTypes)]

/-! ## Messages -/

def Channel.toDatum (c : Channel) : Datum :=
  .record [("tasks", .names c.tasks), ("senders", .names c.senders),
    ("message_types", .names c.messageTypes), ("capacity", .int c.capacity)]

/-- Channels by receiver, then by priority, then by sender. -/
def Channels.nested (channels : Channels) : Table Core (Table Priority (Table Core Channel)) :=
  (Table.groupBy (fun e : Route × Channel => e.1.receiver) channels.toList).map fun _ group =>
    (Table.groupBy (fun e : Route × Channel => e.1.priority) group).map fun _ group =>
      Std.ExtTreeMap.ofList (group.map fun e => (e.1.sender, e.2)) compare

def Channels.toDatum (channels : Channels) : Datum :=
  .byCore (Datum.ofTable Datum.decimal (Datum.byCore Channel.toDatum)) channels.nested

/-- Channels as a list, by route. -/
def Channels.toRows (channels : Channels) : Datum :=
  .list (channels.toList.map fun (route, channel) =>
    .list [.core route.receiver, .byte route.priority, .core route.sender, channel.toDatum])

def FreeQueues.toDatum (queues : FreeQueues) : Datum := .byName (Datum.byCore Datum.byte) queues

def Topology.toDatum (t : Topology) : Datum :=
  .record [("channels", t.channels.toRows), ("free_queues", t.freeQueues.toDatum),
    ("send_types", .names t.sendTypes)]

def TimerEntry.toDatum (e : TimerEntry) : Datum :=
  .record [("priority", .byte e.priority), ("capacity", .byte e.capacity)]

def TimerQueue.toDatum (q : TimerQueue) : Datum :=
  .record [("tasks", .byName TimerEntry.toDatum q.tasks), ("schedulers", .names q.schedulers),
    ("capacity", .int q.capacity), ("priority", .byte q.priority), ("ceiling", .byte q.ceiling)]

def TimerQueues.toDatum (queues : TimerQueues) : Datum := .byCore TimerQueue.toDatum queues

/-! ## Waits and results -/

def WaitTable.toDatum (table : WaitTable) : Datum := .byCore Datum.cores table

def Waits.toDatum (w : Waits) : Datum :=
  .record [("initialization", w.initialization.toDatum), ("spawn", w.spawn.toDatum)]

def Analysis.toDatum (a : Analysis) : Datum :=
  .record
    [("cores", .cores a.cores), ("ownerships", .byName Ownership.toDatum a.ownerships),
      ("ceilings", a.ceilings.toDatum), ("locations", .byName Location.toDatum a.locations),
      ("late_resources", .byCore Datum.names a.lateResources), ("channels", a.channels.toDatum),
      ("free_queues", a.freeQueues.toDatum), ("timer_queues", a.timerQueues.toDatum),
      ("initialization_barriers", a.initializationWaits.toDatum),
      ("spawn_barriers", a.spawnWaits.toDatum), ("send_types", .names a.sendTypes),
      ("sync_types", .names a.syncTypes)]

/-! ## Faults -/

/-- The fields of a finding under its name. -/
def Diagnostic.toDatum : Diagnostic → Datum
  | .unusedResource resource => .variant "UnusedResource" (.record [("resource", .text resource)])
  | .crossCoreConflict resource priority first firstCore second secondCore =>
    .variant "CrossCoreCeilingConflict" (.record
      [("resource", .text resource), ("priority", .byte priority), ("first", .text first),
        ("first_core", .core firstCore), ("second", .text second),
        ("second_core", .core secondCore)])
  | .capacityZero task sender =>
    .variant "CapacityZero" (.record [("task", .text task), ("sender", .text sender)])
  | .conflictingCapacity task c first second =>
    .variant "ConflictingCapacity" (.record
      [("task", .text task), ("core", .core c), ("first", .byte first), ("second", .byte second)])
  | .priorityOutOfRange task priority max =>
    .variant "PriorityOutOfRange" (.record
      [("task", .text task), ("priority", .byte priority), ("max", .byte max)])

/-- The fields of a contradiction under its name. -/
def Inconsistency.toDatum : Inconsistency → Datum
  | .unknownTask task receiver sender =>
    .variant "UnknownTask" (.record
      [("task", .text task), ("receiver", .core receiver), ("sender", .core sender)])
  | .misroutedTask task c priority actualCore actualPriority =>
    .variant "MisroutedTask" (.record
      [("task", .text task), ("core", .core c), ("priority", .byte priority),
        ("actual_core", .core actualCore), ("actual_priority", .byte actualPriority)])
  | .ceilingMismatch resource => .variant "CeilingMismatch" (.record [("resource", .text resource)])
  | .unknownCore c entity =>
    .variant "UnknownCore" (.record [("core", .core c), ("entity", .text entity)])
  | .unknownAccessor resource task =>
    .variant "UnknownAccessor" (.record [("resource", .text resource), ("task", .text task)])
  | .ceilingBelowAccessor resource ceiling task priority =>
    .variant "CeilingBelowAccessor" (.record
      [("resource", .text resource), ("ceiling", .byte ceiling), ("task", .text task),
        ("priority", .byte priority)])
  | .unknownResource task resource =>
    .variant "UnknownResource" (.record [("task", .text task), ("resource", .text resource)])

end MulticoreTasks
