import MulticoreTasks.Analysis.Verdict
import MulticoreTasks.Audit.Ledger
import MulticoreTasks.Proofs.Channels
import MulticoreTasks.Proofs.Clash
import MulticoreTasks.Proofs.Placement

/-!
# No stage fails its own check

Every stage ends by checking what it has produced.  For every application, well filed or not, the
check comes out true: `Sharing.isPartition`, `Ceilings.isTight`, `Placement.isUnique`,
`Placement.isObliged`, `Topology.isPartition`, `Topology.isDeclared`, `TimerQueues.isBounded` and
`Waits.areCoalesced`.  Together they make `holds_checks_analyze`, and with it a run of the analysis
on a ledger gives its verdict (`Ledger.settle_analyze`).
-/

namespace MulticoreTasks

variable {app : App}

/-! ## Sharing -/

/-- Of the members of a list, the used ones are exclusive or shared, and not both. -/
theorem Usage.countP_used {α : Type} (usage : α → Usage) (l : List α) :
    (l.countP fun a => (usage a).owner?.isSome) + (l.countP fun a => (usage a).sharers?.isSome) =
      l.countP fun a => usage a ≠ .unused := by
  have hone : ∀ u : Usage, (if u.owner?.isSome = true then 1 else 0) +
      (if u.sharers?.isSome = true then 1 else 0) =
        if decide (u ≠ .unused) = true then 1 else 0 := by
    intro u
    cases u <;> rfl
  induction l with
  | nil => rfl
  | cons a l ih =>
    have ha := hone (usage a)
    simp only [List.countP_cons]
    omega

theorem Sharing.size_add_size (app : App) : (ofApp app).exclusive.size + (ofApp app).shared.size =
    app.resources.toList.countP fun e => app.usage e.1 ≠ .unused := by
  rw [ofApp, Table.size_filterMap, Table.size_filterMap]
  exact Usage.countP_used (fun e : ResourceName × Resource => app.usage e.1) _

theorem Sharing.isPartition (app : App) : (ofApp app).IsPartition app (findings app) := by
  refine ⟨?_, ?_, ?_⟩
  · intro r hr hshared
    obtain ⟨owner, howner⟩ := Table.mem_iff_exists.1 (Std.ExtTreeMap.mem_keys.1 hr)
    obtain ⟨names, hnames⟩ := Table.mem_iff_exists.1 hshared
    obtain ⟨-, -, hone⟩ := exclusive_eq_some_iff.1 howner
    obtain ⟨-, -, t, u, ht, hu, htu⟩ := shared_eq_some_iff.1 hnames
    exact htu ((hone t ht).trans (hone u hu).symm)
  · intro names hnames
    obtain ⟨r, hr⟩ := Table.mem_values.1 hnames
    obtain ⟨-, rfl, t, u, ht, hu, htu⟩ := shared_eq_some_iff.1 hr
    have htm : t.name ∈ app.accessors r := App.mem_accessors_iff.2 ⟨t, ht, rfl⟩
    have hum : u.name ∈ app.accessors r := App.mem_accessors_iff.2 ⟨u, hu, rfl⟩
    exact SortedSet.one_lt_size_iff.2 ⟨_, htm, _, hum, htu⟩
  · have hlength : (findings app).length =
        app.resources.toList.countP fun e => app.usage e.1 = .unused := by
      rw [findings, List.length_map, ← List.countP_eq_length_filter,
        ← Std.ExtTreeMap.map_fst_toList_eq_keys, List.countP_map]
      rfl
    rw [size_add_size, hlength, ← Std.ExtTreeMap.length_toList,
      List.length_eq_countP_add_countP (fun e => app.usage e.1 = .unused)
        (l := app.resources.toList), Nat.add_comm]
    simp

/-! ## Ceilings -/

theorem Ceilings.isTight (app : App) (sharing : Sharing) :
    (app.ceilings sharing).IsTight app sharing := by
  intro e he
  have hsome := Table.mem_entries.1 he
  rw [App.getElem?_ceilings, Option.bind_eq_some_iff] at hsome
  obtain ⟨names, hnames, hceiling⟩ := hsome
  obtain ⟨⟨t, ht, hattained⟩, hbound⟩ := App.ceiling?_eq_some_iff.1 hceiling
  refine ⟨names, hnames, ?_, ?_⟩
  · rw [List.all_eq_true]
    intro p hp
    obtain ⟨u, hu, rfl⟩ := App.mem_prioritiesOf.1 hp
    exact decide_eq_true (hbound u hu)
  · rw [List.contains_iff_mem]
    exact App.mem_prioritiesOf.2 ⟨t, ht, hattained⟩

/-! ## Placement -/

theorem Placement.isUnique (app : App) :
    (ofSharing app (.ofApp app)).IsUnique (.ofApp app) := by
  refine ⟨?_, ?_⟩
  · rw [Sharing.size_add_size, ofSharing, Table.size_filterMap]
    refine List.countP_congr fun e he => ?_
    rw [location?_isSome_iff (Table.mem_entries.1 he), decide_eq_true_iff]
  · intro name hname
    have hused : (Sharing.ofApp app).isUsed name = true := by
      rw [List.mem_append, Std.ExtTreeMap.mem_keys, Std.ExtTreeMap.mem_keys] at hname
      rw [Sharing.isUsed, Bool.or_eq_true, Std.ExtTreeMap.contains_iff_mem,
        Std.ExtTreeMap.contains_iff_mem]
      exact hname
    obtain ⟨hmem, hne⟩ := Sharing.isUsed_ofApp_iff.1 hused
    obtain ⟨resource, hr⟩ := App.mem_resources_iff.1 hmem
    obtain ⟨location, hloc⟩ := Option.isSome_iff_exists.1 ((location?_isSome_iff hr).2 hne)
    refine Table.mem_iff_exists.2 ⟨location, ?_⟩
    rw [getElem?_locations, hr]
    exact hloc

/-- A location on several cores has an accessor, and whichever way that one goes, the type of the
resource is to be proved safe in that way. -/
theorem Placement.isObliged (app : App) (sharing : Sharing) :
    (ofSharing app sharing).IsObliged app := by
  intro e he hcross
  have hsome := Table.mem_entries.1 he
  rw [getElem?_locations, Option.bind_eq_some_iff] at hsome
  obtain ⟨resource, hr, hloc⟩ := hsome
  have hplaced : (⟨e.1, resource, e.2⟩ : Placed) ∈ placed app sharing := mem_placed.2 ⟨hr, hloc⟩
  have hcores : app.accessCores e.1 ≠ ∅ := by
    unfold location? at hloc
    split at hloc
    · next hused =>
      have hlocated : (locate (app.accessCores e.1) resource.lateCore?).isSome := by
        rw [hloc]
        rfl
      exact locate_isSome_iff.1 hlocated
    · cases hloc
  obtain ⟨t, ht⟩ := accessCores_ne_empty_iff.1 hcores
  obtain ⟨u, hu, -⟩ := ht.exists_use
  have haccess : isAccessed app e.1 u.access = true := List.any_eq_true.2 ⟨u, hu, by simp⟩
  refine ⟨resource, hr, ?_⟩
  cases hway : u.access with
  | read =>
    refine Or.inl (SortedSet.mem_ofList.2
      (List.mem_map.2 ⟨_, List.mem_filter.2 ⟨hplaced, ?_⟩, rfl⟩))
    rw [hway] at haccess
    simp [needsSync, haccess, hcross]
  | write =>
    refine Or.inr (SortedSet.mem_ofList.2
      (List.mem_map.2 ⟨_, List.mem_filter.2 ⟨hplaced, ?_⟩, rfl⟩))
    rw [hway] at haccess
    simp [needsSend, haccess, hcross]

/-! ## Channels and free queues -/

theorem Topology.isPartition (app : App) : (ofApp app).IsPartition app := by
  intro e he
  have hchannel := App.getElem?_channels_route he app.freeQueues
  have htarget := (App.mem_tasks_channel hchannel).2 ⟨e, he, rfl, rfl⟩
  have hsender := (App.mem_senders_channel hchannel).2 ⟨e, he, rfl, rfl⟩
  have hone := Table.filter_entries_eq_singleton
    (p := fun x => x.1 = e.route && e.target ∈ x.2.tasks && e.sender.name ∈ x.2.senders) hchannel
    (by simp only [htarget, hsender]; simp)
    (by simp only [Bool.and_eq_true, decide_eq_true_eq]; exact fun x hx => hx.1.1)
  exact congrArg List.length hone

theorem Topology.isDeclared (app : App) : (ofApp app).IsDeclared app := by
  intro q hq size hsize
  refine App.exists_edge_of_capacity? ?_
  have hqueue : app.freeQueues[q.1]? = some q.2 := Table.mem_entries.1 hq
  rw [FreeQueues.capacity?, hqueue]
  exact Table.mem_entries.1 hsize

theorem Topology.checks_checked (limits : Limits) (app : App) : (checked limits app).checks =
    [Invariant.channelPartition, .freeQueueDeclared].map (·.check true) := by
  simp only [checked, Audited.checks_bind, Audited.checks_ensure, Audited.checks_pure, isPartition,
    isDeclared, decide_true]
  rfl

/-! ## Timer queues -/

theorem highest_ne_zero {l : List UInt8} (hne : l ≠ []) (h : ∀ n ∈ l, n ≠ 0) : highest l ≠ 0 :=
  h _ (highest_mem hne)

theorem TimerQueue.isBounded_ofEdges {bound : Edge → UInt8} {edges : List Edge} (hne : edges ≠ [])
    (hlive : ∀ e ∈ edges, bound e ≠ 0) : (ofEdges bound edges).IsBounded := by
  refine ⟨?_, ?_, rfl, ?_⟩
  · obtain ⟨e, he⟩ := List.exists_mem_of_ne_nil _ hne
    intro hempty
    have hmem : e.target ∈ (ofEdges bound edges).tasks := by
      refine Table.mem_iff_exists.2 ⟨_, Table.getElem?_map_groupBy_eq_some.2 ⟨⟨e, he, rfl⟩, rfl⟩⟩
    rw [hempty] at hmem
    exact Std.ExtTreeMap.not_mem_empty hmem
  · intro entry hentry
    obtain ⟨task, htask⟩ := Table.mem_values.1 hentry
    obtain ⟨⟨e, he, htarget⟩, rfl⟩ := Table.getElem?_map_groupBy_eq_some.1 htask
    have hgroup : e ∈ edges.filter (·.target = task) := List.mem_filter.2 ⟨he, by simpa⟩
    refine UInt8.pos_iff_ne_zero.2 (highest_ne_zero ?_ ?_)
    · exact List.ne_nil_of_mem (List.mem_map_of_mem hgroup)
    · intro n hn
      obtain ⟨f, hf, rfl⟩ := List.mem_map.1 hn
      exact hlive f (List.mem_filter.1 hf).1
  · exact (max_le_iff_and.1 (UInt8.le_refl _)).2

theorem TimerQueues.isBounded (app : App) (bound : Edge → UInt8) :
    ∀ q ∈ (app.timerQueues bound).values, q.IsBounded := by
  intro q hq
  obtain ⟨core, hcore⟩ := Table.mem_values.1 hq
  obtain ⟨⟨e, he, hsender⟩, rfl⟩ := Table.getElem?_map_groupBy_eq_some.1 hcore
  refine TimerQueue.isBounded_ofEdges ?_ ?_
  · exact List.ne_nil_of_mem (List.mem_filter.2 ⟨he, by simpa⟩)
  · intro f hf
    exact (App.mem_liveEdges.1 (List.mem_filter.1 hf).1).2.2

theorem TimerQueues.checks_checked (limits : Limits) (app : App) (queues : FreeQueues) :
    (checked limits app queues).checks = [Invariant.timerQueueBounded].map (·.check true) := by
  have hqueues := decide_eq_true (isBounded app (slotBound limits queues))
  simp only [checked, Audited.checks_bind, Audited.checks_ensure, Audited.checks_pure, hqueues]
  rfl

/-! ## Waits -/

theorem waitsOf_coalesced {pairs : List (Core × Core)} {core : Core} {on : SortedSet Core}
    (h : (waitsOf pairs)[core]? = some on) : on ≠ ∅ ∧ core ∉ on := by
  obtain ⟨⟨p, hp, hcore⟩, rfl⟩ := Table.getElem?_map_groupBy_eq_some.1 h
  constructor
  · refine SortedSet.ne_empty_of_mem (a := p.2) (SortedSet.mem_ofList.2 ?_)
    exact List.mem_map_of_mem (List.mem_filter.2 ⟨hp, by simpa⟩)
  · rw [SortedSet.mem_ofList, List.mem_map]
    rintro ⟨q, hq, rfl⟩
    simp only [List.mem_filter, decide_eq_true_eq] at hq
    exact hq.1.2 hq.2

theorem Waits.areCoalesced (app : App) (late : Table Core (SortedSet ResourceName))
    (routes : List Route) : (ofStart app late routes).AreCoalesced := by
  intro e he
  rcases List.mem_append.1 he with he | he
  · exact waitsOf_coalesced (Table.mem_entries.1 he)
  · exact waitsOf_coalesced (Table.mem_entries.1 he)

end MulticoreTasks
