import MulticoreTasks.Proofs.Acceptance
import MulticoreTasks.Proofs.DeclaredCores
import MulticoreTasks.Proofs.LockSafety

/-!
# Places and obligations of an accepted application

Where resources live, who initialises them, and which types have to be proved safe to share between
contexts or to send to another core:

* `App.Accesses`, `App.StaysOn`, `App.CrossesCores` : how a task accesses a resource, and whether
  the accessors of one run on a single core;
* `App.NeedsSync`, `App.NeedsSend` : why a type has to be proved safe, said of declarations alone;
* `isCrossCore_iff`, `isCrossInitialized_iff` : what a location says about the accessors;
* `Analysis.IsPlaced` : locations, late resources and obligations are those that the declarations
  ask for, and `analyze_places` that those of an accepted application are.

A type is that of resources and of messages, so an obligation has several sources and none of them
may hide another: each type is traced back to one declaration that asks for it, and each such
declaration forward to its type.
-/

namespace MulticoreTasks

namespace App

/-- The stored task `t` accesses the resource `r` in the given way. -/
def Accesses (app : App) (access : Access) (r : ResourceName) (t : Task) : Prop :=
  t ∈ app.taskList ∧ t.resources[r]? = some access

/-- All accessors of the resource run on the core. -/
def StaysOn (app : App) (r : ResourceName) (core : Core) : Prop :=
  ∀ t, app.IsAccessor r t → t.core = core

/-- Two accessors of the resource run on different cores. -/
def CrossesCores (app : App) (r : ResourceName) : Prop :=
  ∃ t u, app.IsAccessor r t ∧ app.IsAccessor r u ∧ t.core ≠ u.core

/-- Two accessors of the resource differ in core or in priority. -/
def Interleaves (app : App) (r : ResourceName) : Prop :=
  ∃ t u, app.IsAccessor r t ∧ app.IsAccessor r u ∧ (t.core ≠ u.core ∨ t.priority ≠ u.priority)

/-- The type has to be safe to share: a resource of it is read, while another accessor on another
core or at another priority may be in the midst of its own access. -/
inductive NeedsSync (app : App) : TypeName → Prop
  | read {r : ResourceName} {resource : Resource} {t : Task} :
      app.resource? r = some resource → app.Accesses .read r t → app.Interleaves r →
        NeedsSync app resource.valueType

/-- The type has to be safe to send. -/
inductive NeedsSend (app : App) : TypeName → Prop
  /-- A resource of it is written, and accessed from two cores. -/
  | write {r : ResourceName} {resource : Resource} {t : Task} :
      app.resource? r = some resource → app.Accesses .write r t → app.CrossesCores r →
        NeedsSend app resource.valueType
  /-- A resource of it is accessed on one core and initialised by another. -/
  | handover {r : ResourceName} {resource : Resource} {core init : Core} :
      app.resource? r = some resource → app.StaysOn r core → resource.lateCore? = some init →
        init ≠ core → NeedsSend app resource.valueType
  /-- A task on another core is started with a message of it. -/
  | message {e : Edge} {t : Task} :
      e ∈ app.edges → app.task? e.target = some t → t.core ≠ e.sender.core →
        NeedsSend app t.message

end App

/-- Locations, late resources and obligations are those that the declarations ask for. -/
structure Analysis.IsPlaced (app : App) (a : Analysis) : Prop where
  located : ∀ r, r ∈ a.locations ↔ r ∈ app.resources
  owned : ∀ r, r ∈ a.ownerships ↔ r ∈ app.resources
  /-- A resource that is accessed on one core lives there. -/
  single : ∀ r resource core, app.resource? r = some resource → app.StaysOn r core →
    ∃ crossed, a.locations[r]? = some (.single core crossed) ∧
      (crossed = true ↔ ∃ init, resource.lateCore? = some init ∧ init ≠ core)
  /-- Any other lives with the core that initialises it, else with the lowest of its accessors. -/
  spread : ∀ r resource, app.resource? r = some resource → (∀ core, ¬ app.StaysOn r core) →
    ∃ storage cores, a.locations[r]? = some (.spread storage cores) ∧
      (∀ core, core ∈ cores ↔ ∃ t, app.IsAccessor r t ∧ t.core = core) ∧
      (∀ init, resource.lateCore? = some init → storage = init) ∧
      (resource.lateCore? = none →
        storage ∈ cores ∧ ∀ core ∈ cores, storage.index ≤ core.index)
  late_iff : ∀ core r,
    (∃ names, a.lateResources[core]? = some names ∧ r ∈ names) ↔
      ∃ resource, app.resource? r = some resource ∧ resource.lateCore? = some core
  late_filled : ∀ (core : Core) (names : SortedSet ResourceName),
    a.lateResources[core]? = some names → names ≠ ∅
  sync_iff : ∀ type, type ∈ a.syncTypes ↔ app.NeedsSync type
  send_iff : ∀ type, type ∈ a.sendTypes ↔ app.NeedsSend type

variable {app : App} {limits : Limits} {r : ResourceName} {resource : Resource}

/-! ## Accessors -/

theorem Placement.isAccessed_iff {access : Access} :
    isAccessed app r access = true ↔ ∃ t, app.Accesses access r t := by
  rw [isAccessed, List.any_eq_true]
  constructor
  · rintro ⟨u, hu, hway⟩
    obtain ⟨huse, rfl⟩ := App.mem_usesOf.1 hu
    obtain ⟨ht, haccess⟩ := App.mem_uses.1 huse
    rw [of_decide_eq_true hway] at haccess
    exact ⟨u.task, ht, haccess⟩
  · rintro ⟨t, ht, haccess⟩
    have huse : (⟨t, r, access⟩ : Use) ∈ app.uses := App.mem_uses.2 ⟨ht, haccess⟩
    exact ⟨_, App.mem_usesOf.2 ⟨huse, rfl⟩, decide_eq_true rfl⟩

theorem mem_accessPriorities_iff {p : Priority} :
    p ∈ app.accessPriorities r ↔ ∃ t, app.IsAccessor r t ∧ t.priority = p := by
  rw [App.accessPriorities, SortedSet.mem_ofList, List.mem_map]
  constructor
  · rintro ⟨u, hu, rfl⟩
    exact ⟨u.task, App.isAccessor_of_mem_usesOf hu, rfl⟩
  · rintro ⟨t, ht, rfl⟩
    obtain ⟨u, hu, rfl⟩ := ht.exists_use
    exact ⟨u, hu, rfl⟩

theorem App.StaysOn.not_crossesCores {core : Core} (h : app.StaysOn r core) :
    ¬ app.CrossesCores r := by
  rintro ⟨t, u, ht, hu, hne⟩
  exact hne ((h t ht).trans (h u hu).symm)

/-! ## Locations -/

theorem any_ne_iff {late? : Option Core} {core : Core} :
    late?.any (· ≠ core) = true ↔ ∃ init, late? = some init ∧ init ≠ core := by
  cases late? with
  | none => simp
  | some init => simp

/-- On one core, a resource lives there. -/
theorem locate_of_singleton {cores : SortedSet Core} {core : Core} (late? : Option Core)
    (h : ∀ c, c ∈ cores ↔ c = core) :
    locate cores late? = some (.single core (late?.any (· ≠ core))) := by
  have hlist : cores.toList = [core] := by
    have hmem : ∀ c, c ∈ cores.toList ↔ c ∈ [core] := by
      intro c
      rw [Std.ExtTreeSet.mem_toList, h, List.mem_singleton]
    have hperm : cores.toList.Perm [core] :=
      (List.perm_ext_iff_of_nodup (SortedSet.nodup_toList cores) (by simp)).2 hmem
    exact List.perm_singleton.1 hperm
  rw [locate, hlist]

/-- On several cores, it lives with the initialising one, else with the lowest of them. -/
theorem exists_locate_of_ne {cores : SortedSet Core} {a b : Core} (late? : Option Core)
    (ha : a ∈ cores) (hb : b ∈ cores) (hne : a ≠ b) : ∃ lowest ∈ cores,
      (∀ core ∈ cores, lowest.index ≤ core.index) ∧
        locate cores late? = some (.spread (late?.getD lowest) cores) := by
  have hsorted := Std.ExtTreeSet.ordered_toList (t := cores)
  simp only [← Std.ExtTreeSet.mem_toList] at ha hb ⊢
  rw [locate]
  cases hlist : cores.toList with
  | nil => simp [hlist] at ha
  | cons lowest rest =>
    cases rest with
    | nil =>
      rw [hlist, List.mem_singleton] at ha hb
      exact absurd (ha.trans hb.symm) hne
    | cons second rest =>
      rw [hlist] at hsorted
      refine ⟨lowest, List.mem_cons_self .., ?_, rfl⟩
      intro core hcore
      rcases List.mem_cons.1 hcore with rfl | hlater
      · exact UInt8.le_refl _
      · have hlt := Core.compare_eq_lt.1 ((List.pairwise_cons.1 hsorted).1 core hlater)
        exact UInt8.le_of_lt hlt

/-- The accessors of a resource run on one core, and it lives there, or on several, and it lives
with the initialising core, else with the lowest of these. -/
theorem locate_accessCores {t : Task} (ht : app.IsAccessor r t) (late? : Option Core) :
    (∃ core, app.StaysOn r core ∧
        locate (app.accessCores r) late? = some (.single core (late?.any (· ≠ core)))) ∨
      app.CrossesCores r ∧ ∃ lowest ∈ app.accessCores r,
        (∀ core ∈ app.accessCores r, lowest.index ≤ core.index) ∧
          locate (app.accessCores r) late? =
            some (.spread (late?.getD lowest) (app.accessCores r)) := by
  by_cases hstays : app.StaysOn r t.core
  · left
    refine ⟨t.core, hstays, locate_of_singleton late? fun core => ?_⟩
    rw [mem_accessCores_iff]
    constructor
    · rintro ⟨u, hu, rfl⟩
      exact hstays u hu
    · rintro rfl
      exact ⟨t, ht, rfl⟩
  · right
    have hother : ∃ u, app.IsAccessor r u ∧ u.core ≠ t.core := by
      simpa [App.StaysOn] using hstays
    obtain ⟨u, hu, hne⟩ := hother
    have htcore : t.core ∈ app.accessCores r := mem_accessCores_iff.2 ⟨t, ht, rfl⟩
    have hucore : u.core ∈ app.accessCores r := mem_accessCores_iff.2 ⟨u, hu, rfl⟩
    exact ⟨⟨u, t, hu, ht, hne⟩, exists_locate_of_ne late? hucore htcore hne⟩

section Located

variable {late? : Option Core} {location : Location}

theorem exists_accessor_of_locate (h : locate (app.accessCores r) late? = some location) :
    ∃ t, app.IsAccessor r t := by
  have hsome : (locate (app.accessCores r) late?).isSome := by
    rw [h]
    rfl
  exact accessCores_ne_empty_iff.1 (locate_isSome_iff.1 hsome)

/-- A location is across cores when the accessors are. -/
theorem isCrossCore_iff (h : locate (app.accessCores r) late? = some location) :
    location.isCrossCore = true ↔ app.CrossesCores r := by
  obtain ⟨t, ht⟩ := exists_accessor_of_locate h
  rcases locate_accessCores ht late? with ⟨core, hstays, hsingle⟩ | ⟨hcross, lowest, -, -, hspread⟩
  · rw [hsingle] at h
    cases h
    simp [Location.isCrossCore, hstays.not_crossesCores]
  · rw [hspread] at h
    cases h
    simp [Location.isCrossCore, hcross]

/-- The first value comes from another core when that one initialises the resource and all accessors
run on one core. -/
theorem isCrossInitialized_iff (h : locate (app.accessCores r) late? = some location) :
    location.isCrossInitialized = true ↔
      ∃ core init, app.StaysOn r core ∧ late? = some init ∧ init ≠ core := by
  obtain ⟨t, ht⟩ := exists_accessor_of_locate h
  rcases locate_accessCores ht late? with ⟨core, hstays, hsingle⟩ | ⟨hcross, lowest, -, -, hspread⟩
  · rw [hsingle] at h
    cases h
    rw [Location.isCrossInitialized, any_ne_iff]
    constructor
    · rintro ⟨init, hinit, hne⟩
      exact ⟨core, init, hstays, hinit, hne⟩
    · rintro ⟨other, init, hother, hinit, hne⟩
      have hsame : other = core := (hother t ht).symm.trans (hstays t ht)
      rw [hsame] at hne
      exact ⟨init, hinit, hne⟩
  · rw [hspread] at h
    cases h
    simp only [Location.isCrossInitialized, Bool.false_eq_true, false_iff]
    rintro ⟨core, init, hstays, -⟩
    exact hstays.not_crossesCores hcross

end Located

/-! ## Obligations of a resource -/

/-- Two accessors at different priorities are two tasks, and then the resource is a shared one. -/
theorem contains_shared_of_priority_ne (h : app.WellFiled) (hr : r ∈ app.resources) {t u : Task}
    (ht : app.IsAccessor r t) (hu : app.IsAccessor r u) (hne : t.priority ≠ u.priority) :
    (Sharing.ofApp app).shared.contains r = true := by
  have hname : t.name ≠ u.name := by
    intro hname
    exact hne (congrArg Task.priority (h.eq_of_name_eq ht.1 hu.1 hname))
  have hshared : (Sharing.ofApp app).shared[r]? = some (app.accessors r) :=
    Sharing.shared_eq_some_iff.2 ⟨hr, rfl, t, u, ht, hu, hname⟩
  exact Std.ExtTreeMap.contains_iff_mem.2 (Table.mem_iff_exists.2 ⟨_, hshared⟩)

theorem one_lt_size_accessPriorities_iff : 1 < (app.accessPriorities r).size ↔
    ∃ t u, app.IsAccessor r t ∧ app.IsAccessor r u ∧ t.priority ≠ u.priority := by
  rw [SortedSet.one_lt_size_iff]
  constructor
  · rintro ⟨a, ha, b, hb, hne⟩
    obtain ⟨t, ht, rfl⟩ := mem_accessPriorities_iff.1 ha
    obtain ⟨u, hu, rfl⟩ := mem_accessPriorities_iff.1 hb
    exact ⟨t, u, ht, hu, hne⟩
  · rintro ⟨t, u, ht, hu, hne⟩
    exact ⟨_, mem_accessPriorities_iff.2 ⟨t, ht, rfl⟩, _, mem_accessPriorities_iff.2 ⟨u, hu, rfl⟩,
      hne⟩

section Placed

variable {p : Placed}

theorem locate_of_mem_placed (hp : p ∈ Placement.placed app (.ofApp app)) :
    locate (app.accessCores p.name) p.resource.lateCore? = some p.location :=
  Placement.locate_of_location? (Placement.mem_placed.1 hp).2

theorem Placement.needsSync_iff (h : app.WellFiled) (hp : p ∈ placed app (.ofApp app)) :
    needsSync app (.ofApp app) p = true ↔
      (∃ t, app.Accesses .read p.name t) ∧ app.Interleaves p.name := by
  have hmem : p.name ∈ app.resources := App.mem_resources_iff.2 ⟨_, (mem_placed.1 hp).1⟩
  rw [needsSync, Bool.and_eq_true, isAccessed_iff, Bool.or_eq_true, Bool.and_eq_true,
    isCrossCore_iff (locate_of_mem_placed hp), decide_eq_true_iff, one_lt_size_accessPriorities_iff]
  refine and_congr_right fun _ => ?_
  constructor
  · rintro (⟨t, u, ht, hu, hne⟩ | ⟨-, t, u, ht, hu, hne⟩)
    · exact ⟨t, u, ht, hu, Or.inl hne⟩
    · exact ⟨t, u, ht, hu, Or.inr hne⟩
  · rintro ⟨t, u, ht, hu, hne | hne⟩
    · exact Or.inl ⟨t, u, ht, hu, hne⟩
    · exact Or.inr ⟨contains_shared_of_priority_ne h hmem ht hu hne, t, u, ht, hu, hne⟩

theorem Placement.needsSend_iff (hp : p ∈ placed app (.ofApp app)) :
    needsSend app p = true ↔
      app.CrossesCores p.name ∧ (∃ t, app.Accesses .write p.name t) ∨
        ∃ core init, app.StaysOn p.name core ∧ p.resource.lateCore? = some init ∧ init ≠ core := by
  have hlocate := locate_of_mem_placed hp
  rw [needsSend, Bool.or_eq_true, Bool.and_eq_true, isCrossCore_iff hlocate, isAccessed_iff,
    isCrossInitialized_iff hlocate]

end Placed

/-! ## What an accepted application asks for -/

section Accepted

variable (hw : app.WellFormed limits)
include hw

/-- Every declared resource is placed. -/
theorem App.WellFormed.exists_placed (hr : app.resource? r = some resource) :
    ∃ location, (⟨r, resource, location⟩ : Placed) ∈ Placement.placed app (.ofApp app) ∧
      (Analysis.ofApp limits app).locations[r]? = some location := by
  obtain ⟨t, ht⟩ := hw.accessed r (App.mem_resources_iff.2 ⟨_, hr⟩)
  obtain ⟨location, hlocation⟩ := exists_location hr ht
  refine ⟨location, Placement.mem_placed.2 ⟨hr, hlocation⟩, ?_⟩
  rw [getElem?_locations_ofApp, hr, Option.bind_some, hlocation]

theorem App.WellFormed.getElem?_locations (hr : app.resource? r = some resource) :
    (Analysis.ofApp limits app).locations[r]? =
      locate (app.accessCores r) resource.lateCore? := by
  obtain ⟨location, hp, hlocation⟩ := hw.exists_placed hr
  rw [hlocation, locate_of_mem_placed hp]

theorem mem_syncTypes_iff (h : app.WellFiled) {type : TypeName} :
    type ∈ (Analysis.ofApp limits app).syncTypes ↔ app.NeedsSync type := by
  show type ∈ (Placement.ofSharing app (.ofApp app)).syncTypes ↔ _
  simp only [Placement.ofSharing, SortedSet.mem_ofList, List.mem_map, List.mem_filter]
  constructor
  · rintro ⟨p, ⟨hp, hneeds⟩, rfl⟩
    obtain ⟨⟨t, ht⟩, hinterleaves⟩ := (Placement.needsSync_iff h hp).1 hneeds
    exact .read (Placement.mem_placed.1 hp).1 ht hinterleaves
  · rintro ⟨hr, ht, hinterleaves⟩
    obtain ⟨location, hp, -⟩ := hw.exists_placed hr
    exact ⟨_, ⟨hp, (Placement.needsSync_iff h hp).2 ⟨⟨_, ht⟩, hinterleaves⟩⟩, rfl⟩

/-- The types that resources ask to be sent. -/
theorem mem_sendTypes_placement_iff {type : TypeName} :
    type ∈ (Placement.ofSharing app (.ofApp app)).sendTypes ↔
      ∃ r resource, app.resource? r = some resource ∧ resource.valueType = type ∧
        (app.CrossesCores r ∧ (∃ t, app.Accesses .write r t) ∨
          ∃ core init, app.StaysOn r core ∧ resource.lateCore? = some init ∧ init ≠ core) := by
  simp only [Placement.ofSharing, SortedSet.mem_ofList, List.mem_map, List.mem_filter]
  constructor
  · rintro ⟨p, ⟨hp, hneeds⟩, rfl⟩
    exact ⟨p.name, p.resource, (Placement.mem_placed.1 hp).1, rfl,
      (Placement.needsSend_iff hp).1 hneeds⟩
  · rintro ⟨r, resource, hr, rfl, hreason⟩
    obtain ⟨location, hp, -⟩ := hw.exists_placed hr
    exact ⟨_, ⟨hp, (Placement.needsSend_iff hp).2 hreason⟩, rfl⟩

/-- The types that messages ask to be sent: where spawns arrive, one that leaves its core by its own
account goes to a task on another core. -/
theorem mem_sendTypes_topology_iff {type : TypeName} :
    type ∈ (Topology.ofApp app).sendTypes ↔
      ∃ e ∈ app.edges, ∃ t, app.task? e.target = some t ∧ t.core ≠ e.sender.core ∧
        t.message = type := by
  simp only [Topology.ofApp, SortedSet.mem_ofList, List.mem_filterMap, List.mem_filter,
    decide_eq_true_eq, App.messageType?, Option.map_eq_some_iff]
  constructor
  · rintro ⟨e, ⟨he, hleaves⟩, t, ht, rfl⟩
    obtain ⟨u, hu, hcore, -⟩ := hw.arrives e he
    have hsame : t = u := Option.some.inj (ht.symm.trans hu)
    rw [← hcore, ← hsame] at hleaves
    exact ⟨e, he, t, ht, hleaves, rfl⟩
  · rintro ⟨e, he, t, ht, hleaves, rfl⟩
    obtain ⟨u, hu, hcore, -⟩ := hw.arrives e he
    have hsame : t = u := Option.some.inj (ht.symm.trans hu)
    rw [hsame, hcore] at hleaves
    exact ⟨e, ⟨he, hleaves⟩, t, ht, rfl⟩

theorem mem_sendTypes_iff {type : TypeName} :
    type ∈ (Analysis.ofApp limits app).sendTypes ↔ app.NeedsSend type := by
  show type ∈ (Placement.ofSharing app (.ofApp app)).sendTypes ∪ (Topology.ofApp app).sendTypes ↔ _
  rw [Std.ExtTreeSet.mem_union_iff, mem_sendTypes_placement_iff hw, mem_sendTypes_topology_iff hw]
  constructor
  · rintro (⟨r, resource, hr, rfl, hreason⟩ | ⟨e, he, t, ht, hleaves, rfl⟩)
    · rcases hreason with ⟨hcross, t, ht⟩ | ⟨core, init, hstays, hinit, hne⟩
      · exact .write hr ht hcross
      · exact .handover hr hstays hinit hne
    · exact .message he ht hleaves
  · intro hneeds
    cases hneeds with
    | write hr ht hcross => exact Or.inl ⟨_, _, hr, rfl, Or.inl ⟨hcross, _, ht⟩⟩
    | handover hr hstays hinit hne =>
      exact Or.inl ⟨_, _, hr, rfl, Or.inr ⟨_, _, hstays, hinit, hne⟩⟩
    | message he ht hleaves => exact Or.inr ⟨_, he, _, ht, hleaves, rfl⟩

theorem mem_locations_iff : r ∈ (Analysis.ofApp limits app).locations ↔ r ∈ app.resources := by
  constructor
  · intro hmem
    obtain ⟨location, hlocation⟩ := Table.mem_iff_exists.1 hmem
    obtain ⟨resource, hr, -⟩ := exists_resource_of_location hlocation
    exact App.mem_resources_iff.2 ⟨resource, hr⟩
  · intro hmem
    obtain ⟨resource, hr⟩ := App.mem_resources_iff.1 hmem
    obtain ⟨location, -, hlocation⟩ := hw.exists_placed hr
    exact Table.mem_iff_exists.2 ⟨location, hlocation⟩

theorem mem_ownerships_iff (h : app.WellFiled) :
    r ∈ (Analysis.ofApp limits app).ownerships ↔ r ∈ app.resources := by
  constructor
  · intro hmem
    obtain ⟨ownership, hownership⟩ := Table.mem_iff_exists.1 hmem
    cases ownership with
    | exclusive owner => exact ((ownerships_exclusive_iff limits).1 hownership).1
    | shared ceiling => exact ((ownerships_shared_iff limits h.resolved).1 hownership).1
  · intro hmem
    obtain ⟨t, ht⟩ := hw.accessed r hmem
    rcases ownerships_cases limits h.resolved hmem ht with ⟨hsome, -⟩ | ⟨c, hsome, -⟩
    · exact Table.mem_iff_exists.2 ⟨_, hsome⟩
    · exact Table.mem_iff_exists.2 ⟨_, hsome⟩

theorem mem_lateResources_iff {core : Core} :
    (∃ names, (Analysis.ofApp limits app).lateResources[core]? = some names ∧ r ∈ names) ↔
      ∃ resource, app.resource? r = some resource ∧ resource.lateCore? = some core := by
  show (∃ names, (Placement.lateOf (Placement.placed app (.ofApp app)))[core]? = some names ∧
    r ∈ names) ↔ _
  constructor
  · rintro ⟨names, hnames, hmem⟩
    obtain ⟨p, hp, rfl, hlate⟩ := (Placement.lateOf_eq_some_iff hnames).1 hmem
    exact ⟨p.resource, (Placement.mem_placed.1 hp).1, hlate⟩
  · rintro ⟨resource, hr, hlate⟩
    obtain ⟨location, hp, -⟩ := hw.exists_placed hr
    obtain ⟨names, hnames⟩ := Table.mem_iff_exists.1 (Placement.mem_lateOf_iff.2 ⟨_, hp, hlate⟩)
    exact ⟨names, hnames, (Placement.lateOf_eq_some_iff hnames).2 ⟨_, hp, rfl, hlate⟩⟩

end Accepted

theorem lateOf_ne_empty {placed : List Placed} {core : Core} {names : SortedSet ResourceName}
    (h : (Placement.lateOf placed)[core]? = some names) : names ≠ ∅ := by
  obtain ⟨p, hp, hlate⟩ := Placement.mem_lateOf_iff.1 (Table.mem_iff_exists.2 ⟨names, h⟩)
  exact SortedSet.ne_empty_of_mem ((Placement.lateOf_eq_some_iff h).2 ⟨p, hp, rfl, hlate⟩)

/-- In an accepted application, every resource lives where its accessors and its initialisation put
it, and a type is to be proved safe exactly when a declaration asks for it. -/
theorem analyze_places (h : app.Reachable) {ledger : Ledger} {a : Analysis}
    (hok : (ledger.settle (analyze limits app)).1 = .ok (.ok a)) : a.IsPlaced app := by
  rw [Ledger.settle_analyze, Except.ok.injEq] at hok
  have hw : app.WellFormed limits := h.filed.wellFormed_of_ok hok
  obtain ⟨-, -, rfl⟩ := analyze_eq_ok_iff.1 hok
  constructor
  case located =>
    intro r
    exact mem_locations_iff hw
  case owned =>
    intro r
    exact mem_ownerships_iff hw h.filed
  case single =>
    intro r resource core hr hstays
    obtain ⟨t, ht⟩ := hw.accessed r (App.mem_resources_iff.2 ⟨_, hr⟩)
    rw [hw.getElem?_locations hr]
    rcases locate_accessCores ht resource.lateCore? with ⟨other, hother, hsingle⟩ | ⟨hcross, -⟩
    · have hsame : other = core := (hother t ht).symm.trans (hstays t ht)
      rw [hsame] at hsingle
      exact ⟨_, hsingle, any_ne_iff⟩
    · exact absurd hcross hstays.not_crossesCores
  case spread =>
    intro r resource hr hnot
    obtain ⟨t, ht⟩ := hw.accessed r (App.mem_resources_iff.2 ⟨_, hr⟩)
    rw [hw.getElem?_locations hr]
    rcases locate_accessCores ht resource.lateCore? with
      ⟨core, hstays, -⟩ | ⟨-, lowest, hmem, hlowest, hspread⟩
    · exact absurd hstays (hnot core)
    · refine ⟨_, _, hspread, fun core => mem_accessCores_iff, ?_, ?_⟩
      · intro init hinit
        rw [hinit, Option.getD_some]
      · intro hnone
        rw [hnone, Option.getD_none]
        exact ⟨hmem, hlowest⟩
  case late_iff =>
    intro core r
    exact mem_lateResources_iff hw
  case late_filled =>
    intro core names hnames
    exact lateOf_ne_empty hnames
  case sync_iff =>
    intro type
    exact mem_syncTypes_iff hw h.filed
  case send_iff =>
    intro type
    exact mem_sendTypes_iff hw

/-- The bus lives with polling, on the lower core; it is read on one core and written on another, so
that its type has both obligations, and the message that starts logging has one. -/
theorem analyze_places_relay : (Analysis.ofApp .default Relay.app).IsPlaced Relay.app ∧
    (∃ cores, (Analysis.ofApp .default Relay.app).locations["bus"]? = some (.spread ⟨0⟩ cores)) ∧
    "Bus" ∈ (Analysis.ofApp .default Relay.app).syncTypes ∧
    "Bus" ∈ (Analysis.ofApp .default Relay.app).sendTypes ∧
    "()" ∈ (Analysis.ofApp .default Relay.app).sendTypes := by
  have hplaced := analyze_places Relay.reachable (Relay.accepted ∅)
  have hbus : Relay.app.resource? "bus" = some Relay.bus := by decide +kernel
  have hpoll : Relay.app.IsAccessor "bus" Relay.poll := ⟨by decide +kernel, by decide +kernel⟩
  have hlog : Relay.app.IsAccessor "bus" Relay.log := ⟨by decide +kernel, by decide +kernel⟩
  have hcross : Relay.poll.core ≠ Relay.log.core := by decide
  refine ⟨hplaced, ?_, ?_, ?_, ?_⟩
  · obtain ⟨storage, cores, hlocation, hcores, -, hlowest⟩ := hplaced.spread "bus" _ hbus
      fun core hstays => hcross ((hstays _ hpoll).trans (hstays _ hlog).symm)
    obtain ⟨-, hleast⟩ := hlowest rfl
    have hzero : storage.index ≤ 0 := hleast ⟨0⟩ ((hcores ⟨0⟩).2 ⟨_, hpoll, rfl⟩)
    have hstorage : storage = ⟨0⟩ := by
      rw [Core.mk.injEq]
      exact UInt8.le_antisymm hzero UInt8.zero_le
    rw [hstorage] at hlocation
    exact ⟨cores, hlocation⟩
  · have hread : Relay.app.Accesses .read "bus" Relay.poll := ⟨hpoll.1, by decide +kernel⟩
    exact (hplaced.sync_iff "Bus").2 (.read hbus hread ⟨_, _, hpoll, hlog, Or.inl hcross⟩)
  · have hwrite : Relay.app.Accesses .write "bus" Relay.log := ⟨hlog.1, by decide +kernel⟩
    exact (hplaced.send_iff "Bus").2 (.write hbus hwrite ⟨_, _, hpoll, hlog, hcross⟩)
  · have hspawn : (⟨Relay.poll, ⟨"log", ⟨1⟩, 2, 4, .immediate⟩⟩ : Edge) ∈ Relay.app.edges := by
      decide +kernel
    have htask : Relay.app.task? "log" = some Relay.log := by decide +kernel
    exact (hplaced.send_iff "()").2 (.message hspawn htask hcross.symm)

end MulticoreTasks
