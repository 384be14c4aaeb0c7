import MulticoreTasks.Audit.Check
import MulticoreTasks.Fault
import MulticoreTasks.Limits
import MulticoreTasks.Message.Channel

/-!
# The message topology

The channels and free queues of an application, and what is wrong with the spawns behind them.  A
spawn to a task that is not declared runs through its channel like any other, but it has no message
type, sizes no queue and gives no finding.

* `Topology`          : channels, free queues, and the types of the messages that leave their core;
* `edgeFindings`      : the findings about one spawn;
* `Topology.checked`  : the topology of an application with its findings.
-/

namespace MulticoreTasks

/-- The message paths of an application. -/
structure Topology where
  channels : Channels := ∅
  freeQueues : FreeQueues := ∅
  /-- The types of messages that leave their core. -/
  sendTypes : SortedSet TypeName := ∅
  deriving DecidableEq

/-- The findings about one spawn: a dispatch priority of its own that the target cannot program,
then a capacity of zero, or else one that differs from the size of its queue. -/
def edgeFindings (limits : Limits) (app : App) (queues : FreeQueues) (e : Edge) : List Diagnostic :=
  match app.task? e.target with
  | none => []
  | some receiver =>
    (if e.spawn.priority ≠ receiver.priority ∧ limits.inRange e.spawn.priority = false then
      [.priorityOutOfRange e.target e.spawn.priority limits.maxPriority]
    else []) ++
    if e.spawn.capacity = 0 then [.capacityZero e.target e.sender.name]
    else
      match queues.capacity? e.target e.sender.core with
      | none => []
      | some first =>
        if first = e.spawn.capacity then []
        else [.conflictingCapacity e.target e.sender.core first e.spawn.capacity]

namespace Topology

/-- The topology of an application. -/
def ofApp (app : App) : Topology :=
  { channels := app.channels app.freeQueues
    freeQueues := app.freeQueues
    sendTypes := SortedSet.ofList
      ((app.edges.filter fun e => e.spawn.core ≠ e.sender.core).filterMap app.messageType?) }

/-- The findings about the spawns of an application, edge by edge. -/
def findings (limits : Limits) (app : App) (queues : FreeQueues) : List Diagnostic :=
  app.edges.flatMap (edgeFindings limits app queues)

/-- The channels that a spawn runs through. -/
def carriers (channels : Channels) (e : Edge) : List (Route × Channel) :=
  channels.toList.filter fun (route, channel) =>
    route = e.route && e.target ∈ channel.tasks && e.sender.name ∈ channel.senders

/-- Every spawn runs through exactly one channel. -/
def IsPartition (t : Topology) (app : App) : Prop :=
  ∀ e ∈ app.edges, (carriers t.channels e).length = 1

instance (t : Topology) (app : App) : Decidable (t.IsPartition app) := by
  unfold IsPartition; infer_instance

/-- Every free queue has a size that some spawn of its task from its core declares. -/
def IsDeclared (t : Topology) (app : App) : Prop :=
  ∀ q ∈ t.freeQueues.entries, ∀ size ∈ Table.entries q.2,
    ∃ e ∈ app.edges, e.target = q.1 ∧ e.sender.core = size.1 ∧ e.spawn.capacity = size.2

instance (t : Topology) (app : App) : Decidable (t.IsDeclared app) := by
  unfold IsDeclared; infer_instance

/-- The topology of an application with its findings. -/
def checked (limits : Limits) (app : App) : Audited (Topology × List Diagnostic) := do
  let topology := ofApp app
  Audited.ensure .channelPartition (topology.IsPartition app)
  Audited.ensure .freeQueueDeclared (topology.IsDeclared app)
  return (topology, findings limits app topology.freeQueues)

end Topology

end MulticoreTasks
