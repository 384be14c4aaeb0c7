import MulticoreTasks.Message.Channel
import MulticoreTasks.Proofs.Listing

/-!
# Channels and free queues, by spawn

* `App.channels_eq_some_iff` : the channel of a route is made of the spawns on it;
* `App.mem_tasks_channel`, `App.mem_senders_channel`, `App.mem_messageTypes_channel` : what it
  lists;
* `App.capacity?_freeQueues_eq_find?`, `App.exists_edge_of_capacity?` : the size of a free queue is
  declared by a spawn, the first one with a capacity.
-/

namespace MulticoreTasks

namespace App

variable {app : App} {queues : FreeQueues} {route : Route} {channel : Channel}

theorem channels_eq_some_iff :
    (app.channels queues)[route]? = some channel ↔ (∃ e ∈ app.edges, e.route = route) ∧
      channel = app.channelOf queues route (app.edges.filter (·.route = route)) :=
  Table.getElem?_map_groupBy_eq_some

/-- The channel of a spawn. -/
theorem getElem?_channels_route {e : Edge} (he : e ∈ app.edges) (queues : FreeQueues) :
    (app.channels queues)[e.route]? =
      some (app.channelOf queues e.route (app.edges.filter (·.route = e.route))) :=
  channels_eq_some_iff.2 ⟨⟨e, he, rfl⟩, rfl⟩

theorem mem_edges_route {e : Edge} :
    e ∈ app.edges.filter (·.route = route) ↔ e ∈ app.edges ∧ e.route = route := by
  rw [List.mem_filter, decide_eq_true_iff]

theorem mem_tasks_channel (h : (app.channels queues)[route]? = some channel) {name : TaskName} :
    name ∈ channel.tasks ↔ ∃ e ∈ app.edges, e.route = route ∧ e.target = name := by
  obtain ⟨-, rfl⟩ := channels_eq_some_iff.1 h
  simp only [channelOf, SortedSet.mem_ofList, List.mem_map, mem_edges_route, and_assoc]

theorem mem_senders_channel (h : (app.channels queues)[route]? = some channel) {name : TaskName} :
    name ∈ channel.senders ↔ ∃ e ∈ app.edges, e.route = route ∧ e.sender.name = name := by
  obtain ⟨-, rfl⟩ := channels_eq_some_iff.1 h
  simp only [channelOf, SortedSet.mem_ofList, List.mem_map, mem_edges_route, and_assoc]

theorem mem_messageTypes_channel (h : (app.channels queues)[route]? = some channel)
    {type : TypeName} : type ∈ channel.messageTypes ↔
      ∃ e ∈ app.edges, e.route = route ∧ app.messageType? e = some type := by
  obtain ⟨-, rfl⟩ := channels_eq_some_iff.1 h
  simp only [channelOf, SortedSet.mem_ofList, List.mem_filterMap, mem_edges_route, and_assoc]

theorem capacity_channel (h : (app.channels queues)[route]? = some channel) :
    channel.capacity = pendingFrom queues channel.tasks route.sender := by
  obtain ⟨-, rfl⟩ := channels_eq_some_iff.1 h
  rfl

/-- The size of a queue is declared by the first spawn with a capacity. -/
theorem capacity?_freeQueues_eq_find? {task : TaskName} {core : Core} :
    app.freeQueues.capacity? task core =
      (app.edges.find? fun e => e.target ∈ app.tasks ∧ e.spawn.capacity ≠ 0 ∧
        e.sender.core = core ∧ e.target = task).map (·.spawn.capacity) := by
  rw [capacity?_freeQueues, sizedEdges, List.find?_filter]
  congr 2
  funext e
  rw [Bool.eq_iff_iff]
  simp only [Bool.and_eq_true, decide_eq_true_eq, and_assoc]
  exact Iff.rfl

theorem exists_edge_of_capacity? {task : TaskName} {sender : Core} {n : UInt8}
    (h : app.freeQueues.capacity? task sender = some n) :
    ∃ e ∈ app.edges, e.target = task ∧ e.sender.core = sender ∧ e.spawn.capacity = n := by
  rw [capacity?_freeQueues_eq_find?, Option.map_eq_some_iff] at h
  obtain ⟨e, hfind, rfl⟩ := h
  have hpass := List.find?_some hfind
  obtain ⟨-, -, hcore, htarget⟩ := of_decide_eq_true hpass
  exact ⟨e, List.mem_of_find?_eq_some hfind, htarget, hcore, rfl⟩

end App

end MulticoreTasks
