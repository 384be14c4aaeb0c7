import MulticoreTasks.Resource.Placement
import MulticoreTasks.Startup.Waits
import MulticoreTasks.Proofs.Accessors
import MulticoreTasks.Proofs.Listing

/-!
# Where resources live and who waits for them, by accessor

* `Placement.location?_isSome_iff` : a declared resource has a location when it is used;
* `locate_cases`, `locate_core`    : its storage core is the core of an accessor, or the core that
  initialises it;
* `Waits.mem_initializationPairs_placed_iff`, `Waits.mem_spawnPairs_iff` : a core waits for the
  initialising cores of the resources that its tasks access, and for the cores that these spawn to.
-/

namespace MulticoreTasks

variable {app : App}

/-! ## Locations -/

theorem locate_isSome_iff {cores : SortedSet Core} {late? : Option Core} :
    (locate cores late?).isSome ↔ cores ≠ ∅ := by
  rw [Ne, ← Std.ExtTreeSet.toList_eq_nil_iff, locate]
  split <;> simp_all

theorem accessCores_ne_empty_iff {r : ResourceName} :
    app.accessCores r ≠ ∅ ↔ ∃ t, app.IsAccessor r t := by
  rw [App.accessCores, Ne, SortedSet.ofList_eq_empty_iff, List.map_eq_nil_iff]
  constructor
  · intro h
    obtain ⟨u, hu⟩ := List.exists_mem_of_ne_nil _ h
    exact ⟨u.task, App.isAccessor_of_mem_usesOf hu⟩
  · rintro ⟨t, ht⟩
    obtain ⟨u, hu, -⟩ := ht.exists_use
    exact List.ne_nil_of_mem hu

theorem mem_accessCores_iff {r : ResourceName} {core : Core} :
    core ∈ app.accessCores r ↔ ∃ t, app.IsAccessor r t ∧ t.core = core := by
  rw [App.accessCores, SortedSet.mem_ofList, List.mem_map]
  constructor
  · rintro ⟨u, hu, rfl⟩
    exact ⟨u.task, App.isAccessor_of_mem_usesOf hu, rfl⟩
  · rintro ⟨t, ht, rfl⟩
    obtain ⟨u, hu, rfl⟩ := ht.exists_use
    exact ⟨u, hu, rfl⟩

/-- What a location is: on the only core of the accessors, or spread over several of them and stored
with the initialising core, else with one of them. -/
theorem locate_cases {cores : SortedSet Core} {late? : Option Core} {location : Location}
    (h : locate cores late? = some location) :
    (∃ core, location = .single core (late?.any (· ≠ core)) ∧ ∀ c, c ∈ cores ↔ c = core) ∨
      ∃ lowest ∈ cores, location = .spread (late?.getD lowest) cores := by
  simp only [← Std.ExtTreeSet.mem_toList]
  unfold locate at h
  split at h
  · cases h
  · next core hone =>
    cases h
    exact Or.inl ⟨core, rfl, fun c => by rw [hone, List.mem_singleton]⟩
  · next lowest second rest hmore =>
    cases h
    refine Or.inr ⟨lowest, ?_, rfl⟩
    rw [hmore]
    exact List.mem_cons_self ..

theorem locate_core {cores : SortedSet Core} {late? : Option Core} {location : Location}
    (h : locate cores late? = some location) :
    location.core ∈ cores ∨ late? = some location.core := by
  rcases locate_cases h with ⟨core, rfl, hone⟩ | ⟨lowest, hlowest, rfl⟩
  · exact Or.inl ((hone core).2 rfl)
  · cases late? with
    | none => exact Or.inl hlowest
    | some core => exact Or.inr rfl

theorem Placement.locate_of_location? {sharing : Sharing} {r : ResourceName} {resource : Resource}
    {location : Location} (h : location? app sharing r resource = some location) :
    locate (app.accessCores r) resource.lateCore? = some location := by
  rw [location?, Option.ite_none_right_eq_some] at h
  exact h.2

theorem Sharing.isUsed_ofApp_iff {r : ResourceName} :
    (ofApp app).isUsed r = true ↔ r ∈ app.resources ∧ app.usage r ≠ .unused := by
  rw [isUsed, Bool.or_eq_true, Std.ExtTreeMap.contains_iff_mem, Std.ExtTreeMap.contains_iff_mem,
    Table.mem_iff_exists, Table.mem_iff_exists, App.mem_resources_iff]
  simp only [getElem?_exclusive, getElem?_shared]
  cases hr : app.resource? r with
  | none => simp
  | some resource => cases app.usage r <;> simp [Usage.owner?, Usage.sharers?]

theorem Placement.location?_isSome_iff {r : ResourceName} {resource : Resource}
    (hr : app.resource? r = some resource) :
    (location? app (.ofApp app) r resource).isSome ↔ app.usage r ≠ .unused := by
  have hmem : r ∈ app.resources := App.mem_resources_iff.2 ⟨resource, hr⟩
  rw [location?]
  by_cases hused : (Sharing.ofApp app).isUsed r = true
  · have hne := (Sharing.isUsed_ofApp_iff.1 hused).2
    rw [if_pos hused, locate_isSome_iff, accessCores_ne_empty_iff]
    refine iff_of_true ?_ hne
    rw [Ne, App.unused_iff] at hne
    exact Classical.not_forall_not.1 hne
  · rw [if_neg hused]
    refine iff_of_false (by simp) fun hne => ?_
    exact hused (Sharing.isUsed_ofApp_iff.2 ⟨hmem, hne⟩)

/-- A declared resource with an accessor has a location. -/
theorem exists_location {r : ResourceName} {resource : Resource} {t : Task}
    (hr : app.resource? r = some resource) (ht : app.IsAccessor r t) :
    ∃ location, Placement.location? app (.ofApp app) r resource = some location := by
  have hused : app.usage r ≠ .unused := by
    rw [Ne, App.unused_iff]
    exact fun hno => hno t ht
  exact Option.isSome_iff_exists.1 ((Placement.location?_isSome_iff hr).2 hused)

/-! ## Late resources -/

theorem Placement.mem_placed {sharing : Sharing} {p : Placed} : p ∈ placed app sharing ↔
    app.resource? p.name = some p.resource ∧
      location? app sharing p.name p.resource = some p.location := by
  obtain ⟨name, resource, location⟩ := p
  simp only [placed, List.mem_filterMap, Option.map_eq_some_iff, Prod.exists, Placed.mk.injEq]
  constructor
  · rintro ⟨_, _, hr, _, hloc, rfl, rfl, rfl⟩
    exact ⟨Table.mem_entries.1 hr, hloc⟩
  · rintro ⟨hr, hloc⟩
    exact ⟨_, _, Table.mem_entries.2 hr, _, hloc, rfl, rfl, rfl⟩

theorem Placement.lateOf_eq_some_iff {placed : List Placed} {core : Core}
    {names : SortedSet ResourceName} (h : (lateOf placed)[core]? = some names) {r : ResourceName} :
    r ∈ names ↔ ∃ p ∈ placed, p.name = r ∧ p.resource.lateCore? = some core := by
  obtain ⟨-, rfl⟩ := Table.getElem?_map_groupBy_eq_some.1 h
  simp only [SortedSet.mem_ofList, List.mem_map, List.mem_filter, List.mem_filterMap,
    Option.map_eq_some_iff, decide_eq_true_eq]
  constructor
  · rintro ⟨_, ⟨⟨p, hp, late, hlate, rfl⟩, rfl⟩, rfl⟩
    exact ⟨p, hp, rfl, hlate⟩
  · rintro ⟨p, hp, rfl, hlate⟩
    exact ⟨_, ⟨⟨p, hp, core, hlate, rfl⟩, rfl⟩, rfl⟩

theorem Placement.mem_lateOf_iff {placed : List Placed} {core : Core} :
    core ∈ lateOf placed ↔ ∃ p ∈ placed, p.resource.lateCore? = some core := by
  simp only [lateOf, Std.ExtTreeMap.mem_map, Table.mem_groupBy, List.mem_filterMap,
    Option.map_eq_some_iff]
  constructor
  · rintro ⟨_, ⟨p, hp, late, hlate, rfl⟩, rfl⟩
    exact ⟨p, hp, hlate⟩
  · rintro ⟨p, hp, hlate⟩
    exact ⟨_, ⟨p, hp, core, hlate, rfl⟩, rfl⟩

/-! ## Waits -/

theorem waitsOf_pairs {pairs : List (Core × Core)} {core : Core} {on : SortedSet Core}
    (h : (waitsOf pairs)[core]? = some on) :
    (∃ p ∈ pairs, p.1 = core) ∧ ∀ c ∈ on, (core, c) ∈ pairs := by
  obtain ⟨⟨p, hp, hcore⟩, rfl⟩ := Table.getElem?_map_groupBy_eq_some.1 h
  refine ⟨⟨p, (List.mem_filter.1 hp).1, hcore⟩, ?_⟩
  intro c hc
  obtain ⟨q, hq, rfl⟩ := List.mem_map.1 (SortedSet.mem_ofList.1 hc)
  obtain ⟨hq, hkey⟩ := List.mem_filter.1 hq
  rw [← of_decide_eq_true hkey]
  exact (List.mem_filter.1 hq).1

theorem Waits.mem_initializationPairs_iff {late : Table Core (SortedSet ResourceName)}
    {p : Core × Core} : p ∈ initializationPairs app late ↔
      ∃ names, late[p.2]? = some names ∧ ∃ r ∈ names, ∃ t, app.IsAccessor r t ∧ t.core = p.1 := by
  obtain ⟨core, init⟩ := p
  simp only [initializationPairs, List.mem_flatMap, List.mem_map, List.mem_filter,
    decide_eq_true_eq, Prod.exists, Prod.mk.injEq]
  constructor
  · rintro ⟨_, names, hentry, u, ⟨hu, hr⟩, rfl, rfl⟩
    have haccess := App.isAccessor_of_mem_usesOf (App.mem_usesOf.2 ⟨hu, rfl⟩)
    exact ⟨names, Table.mem_entries.1 hentry, u.resource, hr, u.task, haccess, rfl⟩
  · rintro ⟨names, hentry, r, hr, t, ht, rfl⟩
    obtain ⟨u, hu, rfl⟩ := ht.exists_use
    obtain ⟨huse, rfl⟩ := App.mem_usesOf.1 hu
    exact ⟨_, names, Table.mem_entries.2 hentry, u, ⟨huse, hr⟩, rfl, rfl⟩

/-- No late resource that some task accesses is lost on the way through its location. -/
theorem Waits.mem_initializationPairs_placed_iff {core init : Core} :
    (core, init) ∈ initializationPairs app (Placement.ofSharing app (.ofApp app)).lateResources ↔
      ∃ t r resource, app.IsAccessor r t ∧ t.core = core ∧ app.resource? r = some resource ∧
        resource.lateCore? = some init := by
  rw [mem_initializationPairs_iff]
  constructor
  · rintro ⟨names, hnames, r, hmem, t, ht, hcore⟩
    obtain ⟨p, hp, rfl, hlate⟩ := (Placement.lateOf_eq_some_iff hnames).1 hmem
    exact ⟨t, p.name, p.resource, ht, hcore, (Placement.mem_placed.1 hp).1, hlate⟩
  · rintro ⟨t, r, resource, ht, hcore, hr, hlate⟩
    obtain ⟨location, hlocation⟩ := exists_location hr ht
    have hplaced : (⟨r, resource, location⟩ : Placed) ∈ Placement.placed app (.ofApp app) :=
      Placement.mem_placed.2 ⟨hr, hlocation⟩
    obtain ⟨names, hnames⟩ :=
      Table.mem_iff_exists.1 (Placement.mem_lateOf_iff.2 ⟨_, hplaced, hlate⟩)
    have hmem : r ∈ names := (Placement.lateOf_eq_some_iff hnames).2 ⟨_, hplaced, rfl, hlate⟩
    exact ⟨names, hnames, r, hmem, t, ht, hcore⟩

/-- The routes from one core to another are those of the spawns between the two. -/
theorem Waits.mem_spawnPairs_iff {queues : FreeQueues} {core on : Core} :
    (core, on) ∈ (app.channels queues).keys.map (fun route => (route.sender, route.receiver)) ↔
      ∃ e ∈ app.edges, e.sender.core = core ∧ e.spawn.core = on := by
  simp only [List.mem_map, Std.ExtTreeMap.mem_keys, App.mem_channels, Prod.mk.injEq]
  constructor
  · rintro ⟨_, ⟨e, he, rfl⟩, hsender, hreceiver⟩
    exact ⟨e, he, hsender, hreceiver⟩
  · rintro ⟨e, he, hsender, hreceiver⟩
    exact ⟨e.route, ⟨e, he, rfl⟩, hsender, hreceiver⟩

end MulticoreTasks
