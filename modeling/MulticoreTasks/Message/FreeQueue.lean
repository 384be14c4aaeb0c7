import MulticoreTasks.App.Basic

/-!
# Free queues

Every core that spawns a task keeps a queue of free message slots for it, of the size that the
spawns declare.  When they disagree, the first one in the order of the edges counts.

* `FreeQueues`     : the size of each queue, by task and then by sending core;
* `App.sizedEdges` : the spawns that give a queue its size: to a declared task, with a capacity;
* `App.freeQueues` : the queues of an application.
-/

namespace MulticoreTasks

/-- The name of the task that a spawn starts. -/
def Edge.target (e : Edge) : TaskName := e.spawn.target

/-- The core that a spawn comes from. -/
def Edge.senderCore (e : Edge) : Core := e.sender.core

/-- Sizes of free queues, by task and then by sending core. -/
abbrev FreeQueues := Table TaskName (Table Core UInt8)

/-- The size of the queue for a task on a sending core. -/
def FreeQueues.capacity? (queues : FreeQueues) (task : TaskName) (sender : Core) : Option UInt8 :=
  queues[task]?.bind fun bySender => bySender[sender]?

namespace App

/-- The spawns to declared tasks that declare a capacity. -/
def sizedEdges (app : App) : List Edge :=
  app.edges.filter fun e => e.target ∈ app.tasks && e.spawn.capacity ≠ 0

/-- The free queues of an application: the first sized spawn of a task from a core counts. -/
def freeQueues (app : App) : FreeQueues :=
  (Table.groupBy Edge.target app.sizedEdges).map fun _ edges =>
    (Table.groupBy Edge.senderCore edges).filterMap fun _ edges =>
      edges.head?.map (·.spawn.capacity)

theorem mem_sizedEdges {app : App} {e : Edge} :
    e ∈ app.sizedEdges ↔ e ∈ app.edges ∧ e.target ∈ app.tasks ∧ e.spawn.capacity ≠ 0 := by
  simp [sizedEdges]

/-- The size of a queue is the capacity of the first sized spawn of its task from its core. -/
theorem capacity?_freeQueues {app : App} {task : TaskName} {sender : Core} :
    app.freeQueues.capacity? task sender =
      (app.sizedEdges.find? fun e => e.senderCore = sender && e.target = task).map
        (·.spawn.capacity) := by
  rw [← List.head?_filter, ← List.filter_filter, FreeQueues.capacity?, freeQueues,
    Table.getElem?_map_groupBy]
  generalize app.sizedEdges.filter (·.target = task) = edges
  by_cases h : edges = []
  · simp [h]
  · rw [if_neg h, Option.bind_some, Std.ExtTreeMap.getElem?_filterMap', Table.getElem?_groupBy]
    split
    · next none => simp [none]
    · rfl

end App

end MulticoreTasks
