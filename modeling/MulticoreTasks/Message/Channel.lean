import MulticoreTasks.Message.FreeQueue

/-!
# Channels

A channel carries the messages of all spawns that go from one core to one priority level of another.
Each spawn runs through exactly one channel, that of its route.

* `Route`        : receiving core, dispatch priority and sending core, in this order;
* `Channel`      : what runs over a route;
* `App.channels` : the channels of an application, by route.
-/

namespace MulticoreTasks

/-- The way of a message. -/
structure Route where
  receiver : Core
  priority : Priority
  sender : Core
  deriving DecidableEq, Repr

namespace Route

/-- Receiver first, then priority, then sender. -/
instance : Ord Route :=
  ⟨compareLex (compareOn Route.receiver)
    (compareLex (compareOn Route.priority) (compareOn Route.sender))⟩

instance : Std.TransOrd Route :=
  inferInstanceAs (Std.TransCmp (compareLex (compareOn Route.receiver)
    (compareLex (compareOn Route.priority) (compareOn Route.sender))))

instance : Std.LawfulEqOrd Route where
  eq_of_compare {a b} h := by
    obtain ⟨hr, h⟩ := Ordering.then_eq_eq.1 h
    obtain ⟨hp, hs⟩ := Ordering.then_eq_eq.1 h
    have hr : a.receiver = b.receiver := Std.LawfulEqOrd.eq_of_compare hr
    have hp : a.priority = b.priority := Std.LawfulEqOrd.eq_of_compare hp
    have hs : a.sender = b.sender := Std.LawfulEqOrd.eq_of_compare hs
    cases a; cases b; simp_all

end Route

/-- The route of a spawn, as the spawn itself has it. -/
def Edge.route (e : Edge) : Route := ⟨e.spawn.core, e.spawn.priority, e.sender.core⟩

/-- What runs over a route. -/
structure Channel where
  /-- The tasks that are started through it. -/
  tasks : SortedSet TaskName := ∅
  /-- The tasks that start others through it. -/
  senders : SortedSet TaskName := ∅
  /-- The types of its messages. -/
  messageTypes : SortedSet TypeName := ∅
  /-- How many messages may be pending in it. -/
  capacity : Nat := 0
  deriving DecidableEq

/-- Channels by route. -/
abbrev Channels := Table Route Channel

namespace App

/-- The type of the messages that a spawn sends, if its target is declared. -/
def messageType? (app : App) (e : Edge) : Option TypeName := (app.task? e.target).map (·.message)

/-- How many messages for the given tasks may be pending from a core. -/
def pendingFrom (queues : FreeQueues) (tasks : SortedSet TaskName) (sender : Core) : Nat :=
  total (tasks.toList.filterMap fun task => queues.capacity? task sender)

/-- The channel of the spawns on one route. -/
def channelOf (app : App) (queues : FreeQueues) (route : Route) (edges : List Edge) : Channel :=
  let tasks := SortedSet.ofList (edges.map Edge.target)
  { tasks
    senders := SortedSet.ofList (edges.map (·.sender.name))
    messageTypes := SortedSet.ofList (edges.filterMap app.messageType?)
    capacity := pendingFrom queues tasks route.sender }

/-- The channels of an application, sized by its free queues. -/
def channels (app : App) (queues : FreeQueues) : Channels :=
  (Table.groupBy Edge.route app.edges).map fun route edges => app.channelOf queues route edges

theorem mem_channels {app : App} {queues : FreeQueues} {route : Route} :
    route ∈ app.channels queues ↔ ∃ e ∈ app.edges, e.route = route := by
  simp [channels, Table.mem_groupBy]

end App

end MulticoreTasks
