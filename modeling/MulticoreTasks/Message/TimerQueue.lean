import MulticoreTasks.Audit.Check
import MulticoreTasks.Fault
import MulticoreTasks.Limits
import MulticoreTasks.Message.FreeQueue

/-!
# Timer queues

A delayed spawn waits in the timer queue of its sender's core.  A task that schedules itself may
have as many instances waiting as its free queue holds; of a task that others schedule, the limits
fix the number. A delayed spawn without a slot is dead: it stands in no queue.

* `slotBound`           : the slots that a delayed spawn asks for;
* `TimerQueue.ofEdges`  : the queue that holds given live spawns;
* `App.timerQueues`     : the queues of an application, by core;
* `TimerQueues.checked` : these with the findings about dead spawns.
-/

namespace MulticoreTasks

/-- What a timer queue holds of one task. -/
structure TimerEntry where
  /-- The priority it is started at. -/
  priority : Priority
  /-- How many of its instances may wait. -/
  capacity : UInt8
  deriving DecidableEq, Repr

/-- The timer queue of one core. -/
structure TimerQueue where
  tasks : Table TaskName TimerEntry := ∅
  /-- The tasks that schedule through it. -/
  schedulers : SortedSet TaskName := ∅
  /-- The number of its slots. -/
  capacity : Nat := 0
  /-- The highest priority it starts a task at. -/
  priority : Priority := 0
  /-- The priority at which it has to be accessed. -/
  ceiling : Priority := 0
  deriving DecidableEq

/-- Timer queues by core. -/
abbrev TimerQueues := Table Core TimerQueue

/-- Whether a task spawns itself. -/
def Edge.isOwn (e : Edge) : Bool := e.sender.name = e.target

/-- The slots that a delayed spawn asks for. -/
def slotBound (limits : Limits) (queues : FreeQueues) (e : Edge) : UInt8 :=
  if e.isOwn then (queues.capacity? e.target e.sender.core).getD e.spawn.capacity
  else limits.timerSlotBound

namespace TimerQueue

/-- The slots that the entries of a queue need. -/
def slots (tasks : Table TaskName TimerEntry) : Nat := total (tasks.values.map (·.capacity))

/-- The queue that holds given spawns, each with its number of slots: a task gets the most slots and
the highest priority that any of them asks for. -/
def ofEdges (bound : Edge → UInt8) (edges : List Edge) : TimerQueue :=
  let tasks : Table TaskName TimerEntry := (Table.groupBy Edge.target edges).map fun _ group =>
    ⟨highest (group.map (·.spawn.priority)), highest (group.map bound)⟩
  let priority := highest (tasks.values.map (·.priority))
  { tasks
    schedulers := SortedSet.ofList (edges.map (·.sender.name))
    capacity := slots tasks
    priority
    ceiling := max (highest (edges.map (·.sender.priority))) priority }

/-- A queue holds something, has a slot for every entry and as many as they ask for together, and is
accessed at its own priority or above. -/
def IsBounded (q : TimerQueue) : Prop :=
  q.tasks ≠ ∅ ∧ (∀ entry ∈ q.tasks.values, 0 < entry.capacity) ∧
    q.capacity = slots q.tasks ∧ q.priority ≤ q.ceiling

instance (q : TimerQueue) : Decidable q.IsBounded := by unfold IsBounded; infer_instance

end TimerQueue

namespace App

/-- The delayed spawns of an application. -/
def delayedEdges (app : App) : List Edge := app.edges.filter (·.spawn.dispatch = .delayed)

/-- The delayed spawns that get a slot. -/
def liveEdges (app : App) (bound : Edge → UInt8) : List Edge :=
  app.delayedEdges.filter fun e => bound e ≠ 0

/-- The timer queue of every core that a live delayed spawn comes from. -/
def timerQueues (app : App) (bound : Edge → UInt8) : TimerQueues :=
  (Table.groupBy Edge.senderCore (app.liveEdges bound)).map fun _ edges => .ofEdges bound edges

theorem mem_liveEdges {app : App} {bound : Edge → UInt8} {e : Edge} :
    e ∈ app.liveEdges bound ↔ e ∈ app.edges ∧ e.spawn.dispatch = .delayed ∧ bound e ≠ 0 := by
  simp only [liveEdges, delayedEdges, List.mem_filter, decide_eq_true_eq, and_assoc]

end App

namespace TimerQueues

/-- The delayed spawns of another task that get no slot.  A task that schedules itself with no
capacity is found by its spawn already. -/
def findings (app : App) (bound : Edge → UInt8) : List Diagnostic :=
  (app.delayedEdges.filter fun e => bound e = 0 && !e.isOwn).map fun e =>
    .capacityZero e.target e.sender.name

/-- The timer queues of an application whose free queues are given, with their findings. -/
def checked (limits : Limits) (app : App) (queues : FreeQueues) :
    Audited (TimerQueues × List Diagnostic) := do
  let bound := slotBound limits queues
  let timerQueues := app.timerQueues bound
  Audited.ensure .timerQueueBounded (∀ q ∈ timerQueues.values, q.IsBounded)
  return (timerQueues, findings app bound)

end TimerQueues

end MulticoreTasks
