import Mathlib.Data.List.Nodup
import Mathlib.Logic.ExistsUnique
import Mathlib.Order.Bounds.Defs
import MulticoreTasks.Proofs.Survey
import MulticoreTasks.Proofs.Verdict

/-!
# Every resource in one class

Three stages classify the resources of an application: sharing by the accessors of each, ceilings by
the tasks that stand under the names of these, and ownerships by merging the two.

* `App.classify`            : the three one after the other, and `Classification.ofWalks` the same
  in walks over accesses and resources;
* `Classification.Files`    : what a class asks of the accessors of a resource, and what is entered
  for it and nowhere else;
* `resources_classified`    : a declared resource is in exactly one class, and nothing is entered
  under any other name.

Each stage may drop a resource without a word: sharing one that is not declared, ceilings one whose
accessors are not found, the merge one without a ceiling.  That none is dropped comes from looking
up the names of accessors, each of which is the name that its task stands under.
-/

namespace MulticoreTasks

/-- What becomes of the resources of an application. -/
structure Classification where
  sharing : Sharing
  /-- Resources that nobody uses. -/
  unused : List Diagnostic
  ceilings : Ceilings
  /-- Priorities that the target cannot program, and resources that cores clash over. -/
  clashes : List Diagnostic
  ownerships : Ownerships

/-- Sharing, then ceilings, then ownerships. -/
def App.classify (limits : Limits) (app : App) : Audited Classification := do
  let (sharing, unused) ← Sharing.checked app
  let (ceilings, clashes) ← Ceilings.checked limits app sharing
  return ⟨sharing, unused, ceilings, clashes, sharing.ownerships ceilings⟩

theorem Usage.owner?_eq_some_iff {u : Usage} {owner : TaskName} :
    u.owner? = some owner ↔ u = .exclusive owner := by
  cases u <;> simp [owner?]

theorem Usage.sharers?_eq_some_iff {u : Usage} {names : SortedSet TaskName} :
    u.sharers? = some names ↔ u = .shared names := by
  cases u <;> simp [sharers?]

namespace Classification

/-- The classification that the walks come to: over the accesses, over the resources with their
accessors, and over the shared ones. -/
def ofWalks (limits : Limits) (app : App) : Classification :=
  let accessors := app.uses.foldl Sharing.note (app.resources.map fun _ _ => ∅)
  let ⟨sharing, unused⟩ := accessors.toList.foldl Sharing.Walk.visit {}
  let ⟨ceilings, clashes⟩ := sharing.shared.toList.foldl (Ceilings.Walk.visit app)
    { findings := (app.taskList.filter fun t => !limits.inRange t.priority).map
        fun t => .priorityOutOfRange t.name t.priority limits.maxPriority }
  ⟨sharing, unused, ceilings, clashes, sharing.ownerships ceilings⟩

/-- Nothing is entered under the name, in none of the tables. -/
structure PassesOver (c : Classification) (r : ResourceName) : Prop where
  exclusive : c.sharing.exclusive[r]? = none
  shared : c.sharing.shared[r]? = none
  ceiling : c.ceilings[r]? = none
  ownership : c.ownerships[r]? = none

/-- The resource is filed under a usage: its accessors are as the usage has it, the usage is
entered, and nothing else is. -/
inductive Files (c : Classification) (app : App) (r : ResourceName) : Usage → Prop
  | unused (unaccessed : ∀ t, ¬ app.IsAccessor r t)
      (reported : c.unused.count (.unusedResource r) = 1) (passed : c.PassesOver r) :
      Files c app r .unused
  | exclusive {t : Task} (one : ∀ u, app.IsAccessor r u ↔ u = t)
      (unreported : .unusedResource r ∉ c.unused)
      (entry : c.sharing.exclusive[r]? = some t.name) (unshared : c.sharing.shared[r]? = none)
      (unbounded : c.ceilings[r]? = none)
      (ownership : c.ownerships[r]? = some (.exclusive t.name)) :
      Files c app r (.exclusive t.name)
  | shared {names : SortedSet TaskName} {ceiling : Priority}
      (several : ∃ t u, app.IsAccessor r t ∧ app.IsAccessor r u ∧ t ≠ u)
      (accessors : ∀ name, name ∈ names ↔ ∃ t, app.IsAccessor r t ∧ t.name = name)
      (greatest : IsGreatest {p | ∃ t, app.IsAccessor r t ∧ t.priority = p} ceiling)
      (unreported : .unusedResource r ∉ c.unused) (unowned : c.sharing.exclusive[r]? = none)
      (entry : c.sharing.shared[r]? = some names) (bound : c.ceilings[r]? = some ceiling)
      (ownership : c.ownerships[r]? = some (.shared ceiling)) :
      Files c app r (.shared names)

/-- Every declared resource is in one class, and no other name is entered anywhere. -/
structure IsOf (c : Classification) (app : App) : Prop where
  declared : ∀ r ∈ app.resources, ∃! usage, c.Files app r usage
  undeclared : ∀ r, r ∉ app.resources → c.PassesOver r ∧ .unusedResource r ∉ c.unused
  ceiling_iff : ∀ r, r ∈ c.ceilings ↔ r ∈ c.sharing.shared

/-- The classification of an application. -/
def ofApp (limits : Limits) (app : App) : Classification where
  sharing := .ofApp app
  unused := Sharing.findings app
  ceilings := app.ceilings (.ofApp app)
  clashes := Ceilings.findings limits app (.ofApp app)
  ownerships := (Sharing.ofApp app).ownerships (app.ceilings (.ofApp app))

variable {limits : Limits} {app : App} {r : ResourceName} {resource : Resource}

theorem ofWalks_eq (limits : Limits) (app : App) : ofWalks limits app = ofApp limits app := by
  have hsharing := Sharing.Walk.foldl_visit app
  have hceilings := Ceilings.Walk.foldl_visit limits app (.ofApp app)
  unfold Table.entries at hsharing hceilings
  simp only [ofWalks, hsharing, hceilings]
  rfl

/-! ## Looking a resource up -/

theorem exclusive_ofApp (hr : app.resource? r = some resource) :
    (ofApp limits app).sharing.exclusive[r]? = (app.usage r).owner? := by
  show (Sharing.ofApp app).exclusive[r]? = _
  rw [Sharing.getElem?_exclusive, hr, Option.bind_some]

theorem shared_ofApp (hr : app.resource? r = some resource) :
    (ofApp limits app).sharing.shared[r]? = (app.usage r).sharers? := by
  show (Sharing.ofApp app).shared[r]? = _
  rw [Sharing.getElem?_shared, hr, Option.bind_some]

theorem ceilings_ofApp : (ofApp limits app).ceilings[r]? =
    (ofApp limits app).sharing.shared[r]?.bind app.ceiling? :=
  App.getElem?_ceilings

theorem ownerships_ofApp : (ofApp limits app).ownerships[r]? =
    ((ofApp limits app).sharing.shared[r]?.bind fun _ =>
      (ofApp limits app).ceilings[r]?.map Ownership.shared).or
      ((ofApp limits app).sharing.exclusive[r]?.map Ownership.exclusive) :=
  Sharing.getElem?_ownerships

theorem mem_unused_ofApp : .unusedResource r ∈ (ofApp limits app).unused ↔
    r ∈ app.resources ∧ app.usage r = .unused := by
  show .unusedResource r ∈ Sharing.findings app ↔ _
  simp [Sharing.findings]

theorem nodup_unused_ofApp : (ofApp limits app).unused.Nodup := by
  refine List.Nodup.map ?_ (Std.ExtTreeMap.nodup_keys.sublist List.filter_sublist)
  intro r s h
  exact Diagnostic.unusedResource.inj h

/-! ## Classes -/

/-- The usage that a resource is filed under is the one of its accessors. -/
theorem Files.eq_usage (h : app.WellFiled) {c : Classification} {usage : Usage}
    (hfiles : c.Files app r usage) : usage = app.usage r := by
  cases hfiles with
  | unused unaccessed => exact (App.unused_iff.2 unaccessed).symm
  | @exclusive t one =>
    have howner : (app.usage r).owner? = some t.name :=
      App.owner?_usage_iff.2 ⟨⟨t, (one t).2 rfl⟩, fun u hu => by rw [(one u).1 hu]⟩
    exact (Usage.owner?_eq_some_iff.1 howner).symm
  | @shared names ceiling several accessors =>
    obtain ⟨t, u, ht, hu, hne⟩ := several
    have hnames : names = app.accessors r := by
      refine Std.ExtTreeSet.ext_mem fun name => ?_
      rw [accessors, App.mem_accessors_iff]
    have hname : t.name ≠ u.name := fun hname => hne (h.eq_of_name_eq ht.1 hu.1 hname)
    have hsharers : (app.usage r).sharers? = some names :=
      App.sharers?_usage_iff.2 ⟨hnames, t, u, ht, hu, hname⟩
    exact (Usage.sharers?_eq_some_iff.1 hsharers).symm

theorem files_usage (h : app.WellFiled) (hr : app.resource? r = some resource) :
    (ofApp limits app).Files app r (app.usage r) := by
  have hexclusive : (ofApp limits app).sharing.exclusive[r]? = (app.usage r).owner? :=
    exclusive_ofApp hr
  have hshared : (ofApp limits app).sharing.shared[r]? = (app.usage r).sharers? := shared_ofApp hr
  have hceiling : (ofApp limits app).ceilings[r]? = _ := ceilings_ofApp
  have hownership : (ofApp limits app).ownerships[r]? = _ := ownerships_ofApp
  have hmem : r ∈ app.resources := App.mem_resources_iff.2 ⟨resource, hr⟩
  have hunused : .unusedResource r ∈ (ofApp limits app).unused ↔
      r ∈ app.resources ∧ app.usage r = .unused := mem_unused_ofApp
  cases husage : app.usage r with
  | unused =>
    rw [husage] at hexclusive hshared
    rw [hshared] at hceiling
    rw [hshared, hexclusive] at hownership
    refine .unused (App.unused_iff.1 husage) ?_ ⟨hexclusive, hshared, hceiling, hownership⟩
    exact List.count_eq_one_of_mem nodup_unused_ofApp (hunused.2 ⟨hmem, husage⟩)
  | exclusive owner =>
    obtain ⟨⟨t, ht⟩, hone⟩ := App.owner?_usage_iff.1 (Usage.owner?_eq_some_iff.2 husage)
    obtain rfl := hone t ht
    rw [husage] at hexclusive hshared
    rw [hshared] at hceiling
    rw [hshared, hexclusive] at hownership
    refine .exclusive (fun u => ?_) ?_ hexclusive hshared hceiling hownership
    · constructor
      · intro hu
        exact h.eq_of_name_eq hu.1 ht.1 (hone u hu)
      · rintro rfl
        exact ht
    · rw [hunused, husage]
      simp
  | shared names =>
    obtain ⟨rfl, t, u, ht, hu, hne⟩ :=
      App.sharers?_usage_iff.1 (Usage.sharers?_eq_some_iff.2 husage)
    obtain ⟨c, hc⟩ := Option.isSome_iff_exists.1 (App.ceiling?_accessors_isSome h.resolved ht)
    rw [husage] at hexclusive hshared
    rw [hshared, Usage.sharers?, Option.bind_some, hc] at hceiling
    rw [hshared, hexclusive, hceiling] at hownership
    simp only [App.ceiling?_eq_some_iff, App.mem_lookUp_accessors h.resolved] at hc
    refine .shared ⟨t, u, ht, hu, fun h => hne (congrArg Task.name h)⟩
      (fun name => App.mem_accessors_iff) ⟨hc.1, ?_⟩ ?_ hexclusive hshared hceiling hownership
    · rintro p ⟨v, hv, rfl⟩
      exact hc.2 v hv
    · rw [hunused, husage]
      simp

theorem passesOver_ofApp (hr : app.resource? r = none) : (ofApp limits app).PassesOver r := by
  have hexclusive : (ofApp limits app).sharing.exclusive[r]? = none := by
    show (Sharing.ofApp app).exclusive[r]? = none
    rw [Sharing.getElem?_exclusive, hr, Option.bind_none]
  have hshared : (ofApp limits app).sharing.shared[r]? = none := by
    show (Sharing.ofApp app).shared[r]? = none
    rw [Sharing.getElem?_shared, hr, Option.bind_none]
  constructor
  case exclusive => exact hexclusive
  case shared => exact hshared
  case ceiling => rw [ceilings_ofApp, hshared, Option.bind_none]
  case ownership =>
    rw [ownerships_ofApp, hshared, hexclusive]
    rfl

theorem isOf_ofApp (h : app.WellFiled) : (ofApp limits app).IsOf app := by
  constructor
  case declared =>
    intro r hr
    obtain ⟨resource, hr⟩ := App.mem_resources_iff.1 hr
    exact ⟨app.usage r, files_usage h hr, fun usage hfiles => hfiles.eq_usage h⟩
  case undeclared =>
    intro r hr
    have hnone : app.resource? r = none := Std.ExtTreeMap.getElem?_eq_none hr
    exact ⟨passesOver_ofApp hnone, fun hmem => hr (mem_unused_ofApp.1 hmem).1⟩
  case ceiling_iff =>
    intro r
    constructor
    · intro hmem
      obtain ⟨c, hc⟩ := Table.mem_iff_exists.1 hmem
      rw [ceilings_ofApp, Option.bind_eq_some_iff] at hc
      obtain ⟨names, hnames, -⟩ := hc
      exact Table.mem_iff_exists.2 ⟨names, hnames⟩
    · intro hmem
      obtain ⟨names, hnames⟩ := Table.mem_iff_exists.1 hmem
      obtain ⟨-, rfl, t, -, ht, -⟩ := Sharing.shared_eq_some_iff.1 hnames
      obtain ⟨c, hc⟩ := Option.isSome_iff_exists.1 (App.ceiling?_accessors_isSome h.resolved ht)
      refine Table.mem_iff_exists.2 ⟨c, ?_⟩
      rw [ceilings_ofApp, hnames, Option.bind_some, hc]

end Classification

theorem App.value_classify (limits : Limits) (app : App) :
    (app.classify limits).value = .ofApp limits app := rfl

theorem App.checks_classify (limits : Limits) (app : App) : (app.classify limits).checks =
    [Invariant.sharingPartition, .ceilingTight].map (·.check true) := by
  simp only [classify, Sharing.checked, Ceilings.checked, Audited.checks_bind, Audited.value_bind,
    Audited.checks_ensure, Audited.checks_pure, Audited.value_pure, Sharing.isPartition,
    Ceilings.isTight, decide_true]
  rfl

/-- What the three stages come to for the resources of an application, whether it is accepted or
not, is what the walks come to, and every declared resource is in exactly one class of it. -/
theorem resources_classified {app : App} (h : app.Reachable) (limits : Limits) (ledger : Ledger) :
    (ledger.settle (app.classify limits)).1 = .ok (.ofWalks limits app) ∧
      (Classification.ofWalks limits app).IsOf app := by
  rw [Classification.ofWalks_eq]
  constructor
  · rw [Ledger.settle_of_checks_eq (App.checks_classify limits app), App.value_classify]
  · exact Classification.isOf_ofApp h.filed

namespace Depot

def lamp : Resource := { name := "lamp", valueType := "Lamp" }

def spare : Resource := { name := "spare", valueType := "Lamp" }

def blink : Task where
  name := "blink"
  core := ⟨0⟩
  priority := 3
  resources := ((∅ : Table ResourceName Access).insert "lamp" .write).insert "ghost" .read

/-- Beside the bus there are a lamp that one task has for itself and one that nobody uses; that task
also accesses a resource that is not declared. -/
def app : App := ((Relay.app.insertResource lamp).insertResource spare).insertTask blink

theorem reachable : app.Reachable := by
  have hlamp : (Relay.app.insertResource lamp).Reachable :=
    .addResource (r := lamp) Relay.reachable rfl
  have hspare : ((Relay.app.insertResource lamp).insertResource spare).Reachable :=
    .addResource (r := spare) hlamp rfl
  exact .addTask (t := blink) hspare rfl

end Depot

/-- The bus is shared, one lamp owned and the other not used; the resource that is not declared is
passed over. -/
theorem resources_classified_depot :
    ∃ c, ((∅ : Ledger).settle (Depot.app.classify .default)).1 = .ok c ∧
      c.Files Depot.app "bus" (.shared (SortedSet.ofList ["log", "poll"])) ∧
      c.Files Depot.app "lamp" (.exclusive "blink") ∧ c.Files Depot.app "spare" .unused ∧
      c.PassesOver "ghost" := by
  obtain ⟨hsettle, hof⟩ := resources_classified Depot.reachable .default ∅
  have hfiles : ∀ r ∈ Depot.app.resources,
      (Classification.ofWalks .default Depot.app).Files Depot.app r (Depot.app.usage r) := by
    intro r hr
    obtain ⟨usage, hfiles, -⟩ := hof.declared r hr
    rwa [hfiles.eq_usage Depot.reachable.filed] at hfiles
  have hbus : Depot.app.usage "bus" = .shared (SortedSet.ofList ["log", "poll"]) := by
    decide +kernel
  have hlamp : Depot.app.usage "lamp" = .exclusive "blink" := by decide +kernel
  have hspare : Depot.app.usage "spare" = .unused := by decide +kernel
  refine ⟨_, hsettle, ?_, ?_, ?_, (hof.undeclared "ghost" (by decide +kernel)).1⟩
  · rw [← hbus]
    exact hfiles "bus" (by decide +kernel)
  · rw [← hlamp]
    exact hfiles "lamp" (by decide +kernel)
  · rw [← hspare]
    exact hfiles "spare" (by decide +kernel)

end MulticoreTasks
