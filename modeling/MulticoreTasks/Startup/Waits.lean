import MulticoreTasks.Audit.Check
import MulticoreTasks.Message.Channel

/-!
# Waits at the start

Before its first task runs, a core waits for the cores that initialise the late resources its tasks
access, and before its first spawn it waits for the cores that it spawns to.  However many reasons
one core has to wait for another, it waits once, and never for itself.

* `waitsOf`       : the waits that pairs of a waiting core and a core it waits for come to;
* `Waits`         : both kinds of waits;
* `Waits.checked` : the waits of an application whose late resources and routes are given.
-/

namespace MulticoreTasks

/-- Whom each core waits for. -/
abbrev WaitTable := Table Core (SortedSet Core)

/-- The waits of given pairs: who waits, and for whom. -/
def waitsOf (pairs : List (Core × Core)) : WaitTable :=
  (Table.groupBy Prod.fst (pairs.filter fun p => p.1 ≠ p.2)).map fun _ group =>
    SortedSet.ofList (group.map Prod.snd)

/-- Whether one core waits for another. -/
def WaitTable.waits (table : WaitTable) (core on : Core) : Bool :=
  table[core]?.any fun cores => cores.contains on

theorem waits_waitsOf {pairs : List (Core × Core)} {core on : Core} :
    (waitsOf pairs).waits core on = true ↔ core ≠ on ∧ (core, on) ∈ pairs := by
  simp only [WaitTable.waits, waitsOf, Table.getElem?_map_groupBy]
  split
  · next none =>
    simp only [List.filter_eq_nil_iff, List.mem_filter, decide_eq_true_eq, and_imp] at none
    simpa using fun h hp => none (core, on) hp h rfl
  · simp only [Option.any_some, Std.ExtTreeSet.contains_iff_mem, SortedSet.mem_ofList, List.mem_map,
      List.mem_filter, decide_eq_true_eq]
    exact ⟨fun ⟨_, ⟨⟨hp, h⟩, h₁⟩, h₂⟩ => h₁ ▸ h₂ ▸ ⟨h, hp⟩, fun ⟨h, hp⟩ => ⟨_, ⟨⟨hp, h⟩, rfl⟩, rfl⟩⟩

/-- The waits of an application. -/
structure Waits where
  /-- Waits for late resources. -/
  initialization : WaitTable := ∅
  /-- Waits for the receivers of spawns. -/
  spawn : WaitTable := ∅
  deriving DecidableEq

namespace Waits

/-- Every access to a late resource: the core of the task, and the initialising core. -/
def initializationPairs (app : App) (late : Table Core (SortedSet ResourceName)) :
    List (Core × Core) :=
  late.toList.flatMap fun (init, names) =>
    (app.uses.filter (·.resource ∈ names)).map fun u => (u.task.core, init)

/-- The waits that late resources and routes ask for. -/
def ofStart (app : App) (late : Table Core (SortedSet ResourceName)) (routes : List Route) :
    Waits where
  initialization := waitsOf (initializationPairs app late)
  spawn := waitsOf (routes.map fun route => (route.sender, route.receiver))

/-- Every wait is for some core, and never for the waiting one. -/
def AreCoalesced (w : Waits) : Prop :=
  ∀ e ∈ w.initialization.entries ++ w.spawn.entries, e.2 ≠ ∅ ∧ e.1 ∉ e.2

instance (w : Waits) : Decidable w.AreCoalesced := by unfold AreCoalesced; infer_instance

/-- The waits of an application. -/
def checked (app : App) (late : Table Core (SortedSet ResourceName)) (routes : List Route) :
    Audited Waits := do
  let waits := ofStart app late routes
  Audited.ensure .waitsCoalesced waits.AreCoalesced
  return waits

end Waits

end MulticoreTasks
