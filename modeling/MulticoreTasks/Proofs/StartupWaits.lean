import MulticoreTasks.Proofs.Verdict

/-!
# Whom a core waits for at the start

The waits are worked out from what two other stages hand on: the late resources of each core that
got a location, and the routes of the channels.  Here they are traced back to the application:

* `App.NeedsInit`    : a task of one core accesses a resource that another core initialises;
* `App.SpawnsTo`     : a task of one core starts one on another;
* `App.startup`      : the stages that the waits come out of, with their checks;
* `Waits.AreNeeded`  : a core waits for another exactly when one of the two is the case, and
  `Waits.areNeeded_ofApp` that this holds of the waits of every application, and of no others.

Nothing is asked of the application.  A core that is waited for may be undeclared, and a late
resource may be accessed from its own core only: the first is a fault, the second no reason to wait.
-/

namespace MulticoreTasks

namespace App

/-- A stored task of `core` accesses a declared resource that `init` initialises. -/
def NeedsInit (app : App) (core init : Core) : Prop :=
  ∃ t r resource, app.IsAccessor r t ∧ t.core = core ∧ app.resource? r = some resource ∧
    resource.lateCore? = some init

/-- A stored task of `sender` has a spawn to `receiver`. -/
def SpawnsTo (app : App) (sender receiver : Core) : Prop :=
  ∃ e ∈ app.edges, e.sender.core = sender ∧ e.spawn.core = receiver

/-- The stages up to the waits. -/
def startup (limits : Limits) (app : App) : Audited Waits := do
  let (sharing, _) ← Sharing.checked app
  let placement ← Placement.checked app sharing
  let (topology, _) ← Topology.checked limits app
  Waits.checked app placement.lateResources topology.channels.keys

end App

/-- Every core waits for whom it needs, and for nobody else. -/
structure Waits.AreNeeded (app : App) (w : Waits) : Prop where
  initialization_iff : ∀ core on,
    (∃ cores, w.initialization[core]? = some cores ∧ on ∈ cores) ↔
      core ≠ on ∧ app.NeedsInit core on
  spawn_iff : ∀ core on,
    (∃ cores, w.spawn[core]? = some cores ∧ on ∈ cores) ↔ core ≠ on ∧ app.SpawnsTo core on
  initialization_proper : ∀ (core : Core) (cores : SortedSet Core),
    w.initialization[core]? = some cores → cores ≠ ∅ ∧ core ∉ cores
  spawn_proper : ∀ (core : Core) (cores : SortedSet Core),
    w.spawn[core]? = some cores → cores ≠ ∅ ∧ core ∉ cores

variable {app : App} {limits : Limits} {core on : Core}

/-! ## The two tables -/

theorem WaitTable.waits_iff {table : WaitTable} :
    table.waits core on = true ↔ ∃ cores, table[core]? = some cores ∧ on ∈ cores := by
  simp only [waits, Option.any_eq_true, Std.ExtTreeSet.contains_iff_mem]

/-- The waits of an application, as the stages of an analysis lead to them. -/
def Waits.ofApp (app : App) : Waits :=
  .ofStart app (Placement.ofSharing app (.ofApp app)).lateResources
    (Topology.ofApp app).channels.keys

theorem waits_initialization_ofApp :
    (Waits.ofApp app).initialization.waits core on = true ↔ core ≠ on ∧ app.NeedsInit core on := by
  show (waitsOf (Waits.initializationPairs app _)).waits core on = true ↔ _
  rw [waits_waitsOf, Waits.mem_initializationPairs_placed_iff, App.NeedsInit]

theorem waits_spawn_ofApp :
    (Waits.ofApp app).spawn.waits core on = true ↔ core ≠ on ∧ app.SpawnsTo core on := by
  show (waitsOf ((app.channels app.freeQueues).keys.map _)).waits core on = true ↔ _
  rw [waits_waitsOf, Waits.mem_spawnPairs_iff, App.SpawnsTo]

theorem Waits.areNeeded_ofApp (app : App) : (ofApp app).AreNeeded app := by
  constructor
  case initialization_iff =>
    intro core on
    rw [← WaitTable.waits_iff, waits_initialization_ofApp]
  case spawn_iff =>
    intro core on
    rw [← WaitTable.waits_iff, waits_spawn_ofApp]
  case initialization_proper =>
    intro core cores hcores
    exact waitsOf_coalesced hcores
  case spawn_proper =>
    intro core cores hcores
    exact waitsOf_coalesced hcores

attribute [ext] Waits

/-- Waits are known by what is needed. -/
theorem Waits.AreNeeded.unique {w w' : Waits} (hw : w.AreNeeded app) (hw' : w'.AreNeeded app) :
    w = w' := by
  apply Waits.ext
  case initialization =>
    exact Table.eq_of_mem_iff (fun k s hs => (hw.initialization_proper k s hs).1)
      (fun k s hs => (hw'.initialization_proper k s hs).1)
      fun k a => (hw.initialization_iff k a).trans (hw'.initialization_iff k a).symm
  case spawn =>
    exact Table.eq_of_mem_iff (fun k s hs => (hw.spawn_proper k s hs).1)
      (fun k s hs => (hw'.spawn_proper k s hs).1)
      fun k a => (hw.spawn_iff k a).trans (hw'.spawn_iff k a).symm

/-! ## On a ledger -/

theorem App.checks_startup : (app.startup limits).checks =
    [Invariant.sharingPartition, .locationUnique, .crossCoreObligation, .channelPartition,
      .freeQueueDeclared, .waitsCoalesced].map (·.check true) := by
  simp only [startup, Sharing.checked, Placement.checked, Topology.checked, Waits.checked,
    Audited.checks_bind, Audited.value_bind, Audited.checks_ensure, Audited.checks_pure,
    Audited.value_pure, Sharing.isPartition, Placement.isUnique, Placement.isObliged,
    Topology.isPartition, Topology.isDeclared, Waits.areCoalesced, decide_true]
  rfl

/-- The stages come to the waits, and no check stops them. -/
theorem Ledger.settle_startup (ledger : Ledger) :
    (ledger.settle (app.startup limits)).1 = .ok (.ofApp app) := by
  rw [settle_of_checks_eq App.checks_startup]
  rfl

/-- The waits of every application are those that it needs, and an accepted analysis answers by
them. -/
theorem startup_waits_needed (app : App) (limits : Limits) (ledger : Ledger) :
    (∃ waits, (ledger.settle (app.startup limits)).1 = .ok waits ∧ waits.AreNeeded app) ∧
      ∀ a, (ledger.settle (analyze limits app)).1 = .ok (.ok a) → ∀ core on,
        (a.waitsForInitialization core on = true ↔ core ≠ on ∧ app.NeedsInit core on) ∧
          (a.waitsForDispatcher core on = true ↔ core ≠ on ∧ app.SpawnsTo core on) := by
  refine ⟨⟨_, Ledger.settle_startup ledger, Waits.areNeeded_ofApp app⟩, ?_⟩
  intro a hok core on
  rw [Ledger.settle_analyze, Except.ok.injEq] at hok
  obtain ⟨-, -, rfl⟩ := analyze_eq_ok_iff.1 hok
  exact ⟨waits_initialization_ofApp, waits_spawn_ofApp⟩

namespace Relay

/-- The relay with a bus that the logging core brings up. -/
def primed : App :=
  let bare := (App.ofCores [⟨0⟩, ⟨1⟩]).insertResource { bus with init := .late ⟨1⟩ }
  (bare.insertTask log).insertTask poll

theorem accepted_primed (ledger : Ledger) :
    (ledger.settle (analyze .default primed)).1 = .ok (.ok (.ofApp .default primed)) := by
  rw [Ledger.settle_analyze, Except.ok.injEq]
  exact analyze_eq_ok_iff.2 ⟨by decide +kernel, by decide +kernel, rfl⟩

end Relay

/-- The polling core waits for the other one, for the bus and for its first spawn; the logging core
waits for nobody, although it accesses the bus as well. -/
theorem startup_waits_needed_relay :
    (Analysis.ofApp .default Relay.primed).waitsForInitialization ⟨0⟩ ⟨1⟩ = true ∧
      (Analysis.ofApp .default Relay.primed).waitsForDispatcher ⟨0⟩ ⟨1⟩ = true ∧
      (∀ on, ¬ (Analysis.ofApp .default Relay.primed).waitsForInitialization ⟨1⟩ on = true) ∧
      ∀ on, ¬ (Analysis.ofApp .default Relay.primed).waitsForDispatcher ⟨1⟩ on = true := by
  obtain ⟨-, hanswers⟩ := startup_waits_needed Relay.primed .default ∅
  have hwaits := hanswers _ (Relay.accepted_primed ∅)
  have hlate : ∀ e ∈ Relay.primed.resources.entries, e.2.lateCore? = some ⟨1⟩ := by
    decide +kernel
  have hspawns : ∀ e ∈ Relay.primed.edges, e.sender.core = ⟨0⟩ ∧ e.spawn.core = ⟨1⟩ := by
    decide +kernel
  have hpoll : Relay.primed.IsAccessor "bus" Relay.poll := ⟨by decide +kernel, by decide +kernel⟩
  refine ⟨(hwaits ⟨0⟩ ⟨1⟩).1.2 ⟨by decide, ?_⟩, (hwaits ⟨0⟩ ⟨1⟩).2.2 ⟨by decide, ?_⟩, ?_, ?_⟩
  · have hbus : Relay.primed.resource? "bus" = some { Relay.bus with init := .late ⟨1⟩ } := by
      decide +kernel
    exact ⟨_, _, _, hpoll, rfl, hbus, rfl⟩
  · have hedge : (⟨Relay.poll, ⟨"log", ⟨1⟩, 2, 4, .immediate⟩⟩ : Edge) ∈ Relay.primed.edges := by
      decide +kernel
    exact ⟨_, hedge, rfl, rfl⟩
  · intro on hinit
    obtain ⟨hne, t, r, resource, -, -, hr, hon⟩ := (hwaits ⟨1⟩ on).1.1 hinit
    have hone := hlate (r, resource) (Table.mem_entries.2 hr)
    exact hne (Option.some.inj (hone.symm.trans hon))
  · intro on hspawn
    obtain ⟨-, e, he, hsender, -⟩ := (hwaits ⟨1⟩ on).2.1 hspawn
    have hzero := (hspawns e he).1
    rw [hsender] at hzero
    exact absurd hzero (by decide)

end MulticoreTasks
