import MulticoreTasks.Interchange.Writing
import MulticoreTasks.Proofs.Listing

/-!
# Walking nested channels

Channels stand by receiver, then by priority, then by sender when they are handed out.  Walking all
three levels lists them by route:

* `Route.Before`       : the order of routes, spelt out;
* `Channels.flatten`   : the walk;
* `flatten_pairwise`   : it goes upwards, through any nested table;
* `mem_flatten_nested` : nesting and walking loses no channel and makes up none.
-/

namespace MulticoreTasks

/-- By receiver, then by priority, then by sender. -/
def Route.Before (a b : Route) : Prop :=
  a.receiver.index < b.receiver.index ∨ a.receiver = b.receiver ∧
    (a.priority < b.priority ∨ a.priority = b.priority ∧ a.sender.index < b.sender.index)

theorem Route.eq_of_parts {a b : Route} (hreceiver : a.receiver = b.receiver)
    (hpriority : a.priority = b.priority) (hsender : a.sender = b.sender) : a = b := by
  cases a
  cases b
  simp_all

/-- The order in which routes are listed is the one spelt out. -/
theorem Route.compare_eq_lt {a b : Route} : compare a b = .lt ↔ a.Before b := by
  change (compare a.receiver b.receiver).then
    ((compare a.priority b.priority).then (compare a.sender b.sender)) = .lt ↔ _
  rw [Ordering.then_eq_lt, Ordering.then_eq_lt, Core.compare_eq_lt, Core.compare_eq_lt,
    Std.compare_eq_lt, Std.compare_eq_iff_eq, Std.compare_eq_iff_eq, Before]

namespace Channels

/-- All channels of a nested table, level by level. -/
def flatten (nested : Table Core (Table Priority (Table Core Channel))) : List (Route × Channel) :=
  nested.entries.flatMap fun (receiver, byPriority) =>
    byPriority.entries.flatMap fun (priority, bySender) =>
      bySender.entries.map fun (sender, channel) => (⟨receiver, priority, sender⟩, channel)

theorem mem_flatten {nested : Table Core (Table Priority (Table Core Channel))} {route : Route}
    {channel : Channel} : (route, channel) ∈ flatten nested ↔
      ∃ byPriority, nested[route.receiver]? = some byPriority ∧
        ∃ bySender, byPriority[route.priority]? = some bySender ∧
          bySender[route.sender]? = some channel := by
  simp only [flatten, List.mem_flatMap, List.mem_map, Table.mem_entries, Prod.exists]
  constructor
  · rintro ⟨receiver, byPriority, hr, priority, bySender, hp, sender, other, hs, heq⟩
    cases heq
    exact ⟨byPriority, hr, bySender, hp, hs⟩
  · rintro ⟨byPriority, hr, bySender, hp, hs⟩
    exact ⟨_, byPriority, hr, _, bySender, hp, _, channel, hs, rfl⟩

/-- The walk goes from route to later route. -/
theorem flatten_pairwise (nested : Table Core (Table Priority (Table Core Channel))) :
    (flatten nested).Pairwise fun x y => x.1.Before y.1 := by
  refine List.pairwise_flatMap.2 ⟨?_, ?_⟩
  · rintro ⟨receiver, byPriority⟩ -
    refine List.pairwise_flatMap.2 ⟨?_, ?_⟩
    · rintro ⟨priority, bySender⟩ -
      refine List.pairwise_map.2 (bySender.entries_pairwise.imp ?_)
      intro a b hlt
      exact Or.inr ⟨rfl, Or.inr ⟨rfl, Core.compare_eq_lt.1 hlt⟩⟩
    · refine byPriority.entries_pairwise.imp ?_
      intro a b hlt x hx y hy
      obtain ⟨_, -, rfl⟩ := List.mem_map.1 hx
      obtain ⟨_, -, rfl⟩ := List.mem_map.1 hy
      exact Or.inr ⟨rfl, Or.inl (Std.compare_eq_lt.1 hlt)⟩
  · refine nested.entries_pairwise.imp ?_
    intro a b hlt x hx y hy
    obtain ⟨_, -, hx⟩ := List.mem_flatMap.1 hx
    obtain ⟨_, -, hy⟩ := List.mem_flatMap.1 hy
    obtain ⟨_, -, rfl⟩ := List.mem_map.1 hx
    obtain ⟨_, -, rfl⟩ := List.mem_map.1 hy
    exact Or.inl (Core.compare_eq_lt.1 hlt)

/-! ## Nested channels -/

variable {channels : Channels}

/-- At one receiver and one priority, channels differ in their senders. -/
theorem pairwise_senders {receiver : Core} {priority : Priority} :
    (((channels.toList.filter (·.1.receiver = receiver)).filter (·.1.priority = priority)).map
      fun e => (e.1.sender, e.2)).Pairwise fun a b => ¬ compare a.1 b.1 = .eq := by
  rw [List.pairwise_map, List.pairwise_filter, List.pairwise_filter]
  refine channels.entries_pairwise.imp ?_
  rintro ⟨a, _⟩ ⟨b, _⟩ hlt har hbr hap hbp heq
  have hsender : a.sender = b.sender := Std.LawfulEqOrd.eq_of_compare heq
  have hreceiver : a.receiver = b.receiver :=
    (of_decide_eq_true har).trans (of_decide_eq_true hbr).symm
  have hpriority : a.priority = b.priority :=
    (of_decide_eq_true hap).trans (of_decide_eq_true hbp).symm
  rw [Route.eq_of_parts hreceiver hpriority hsender] at hlt
  have hself : compare b b = .eq := Std.ReflOrd.compare_self
  rw [hself] at hlt
  cases hlt

theorem mem_flatten_nested {route : Route} {channel : Channel} :
    (route, channel) ∈ flatten channels.nested ↔ channels[route]? = some channel := by
  rw [mem_flatten, ← Table.mem_entries (e := (route, channel))]
  simp only [nested, Table.getElem?_map_groupBy_eq_some]
  constructor
  · rintro ⟨_, ⟨-, rfl⟩, _, hpriority, hsender⟩
    rw [Table.getElem?_map_groupBy_eq_some] at hpriority
    obtain ⟨-, rfl⟩ := hpriority
    rw [Table.getElem?_ofList_eq_some pairwise_senders, List.mem_map] at hsender
    obtain ⟨⟨other, same⟩, he, heq⟩ := hsender
    simp only [List.mem_filter, decide_eq_true_eq] at he
    obtain ⟨⟨he, hr⟩, hp⟩ := he
    obtain ⟨hs, rfl⟩ := Prod.mk.inj heq
    rw [← Route.eq_of_parts hr hp hs]
    exact he
  · intro he
    have hr : (route, channel) ∈ channels.toList.filter (·.1.receiver = route.receiver) :=
      List.mem_filter.2 ⟨he, decide_eq_true rfl⟩
    have hp : (route, channel) ∈ (channels.toList.filter (·.1.receiver = route.receiver)).filter
        (·.1.priority = route.priority) :=
      List.mem_filter.2 ⟨hr, decide_eq_true rfl⟩
    refine ⟨_, ⟨⟨_, he, rfl⟩, rfl⟩, _,
      Table.getElem?_map_groupBy_eq_some.2 ⟨⟨_, hr, rfl⟩, rfl⟩, ?_⟩
    rw [Table.getElem?_ofList_eq_some pairwise_senders]
    exact List.mem_map.2 ⟨_, hp, rfl⟩

end Channels

end MulticoreTasks
