import MulticoreTasks.Proofs.Faults

/-!
# Locks keep accessors apart

What an accepted application can rely on when its tasks access a resource, whichever way it was put
together:

* `ownerships_exclusive_iff`, `ownerships_shared_iff` : accessors of one name are a single owner,
  and several share under the highest of their priorities;
* `ownerships_cases` : a resource with an accessor is in one of these two cases;
* `core_eq_of_priority_eq` : accessors at one priority of a resource that is not transferable run on
  one core;
* `analyze_locks` : whoever another accessor can preempt has to lock, and whoever does not have to
  lock runs on one core with the others that do not.

Accessors are counted by the names that tasks give themselves, while ceilings are taken over the
tasks that stand under these names.  Nothing in an application makes the two agree; it is the faults
of the accessors that do (`App.Resolved`).
-/

namespace MulticoreTasks

variable {app : App} {limits : Limits} {r : ResourceName} {t u : Task}

/-! ## What a clean analysis comes to -/

theorem conflict?_of_findings (h : (Stages.ofApp limits app).findings = [])
    {names : SortedSet TaskName} (hshared : (Sharing.ofApp app).shared[r]? = some names) :
    app.conflict? r names = none := by
  simp only [Stages.findings, Stages.ofApp, Ceilings.findings, List.append_eq_nil_iff,
    List.filterMap_eq_nil_iff] at h
  exact h.1.1.2.2 (r, names) (Table.mem_entries.2 hshared)

/-! ## Ownership of an accessed resource -/

/-- A resource is exclusive when all its accessors go by one name. -/
theorem ownerships_exclusive_iff (limits : Limits) {owner : TaskName} :
    (Analysis.ofApp limits app).ownerships[r]? = some (.exclusive owner) ↔ r ∈ app.resources ∧
      (∃ t, app.IsAccessor r t) ∧ ∀ t, app.IsAccessor r t → t.name = owner := by
  rw [← Sharing.exclusive_eq_some_iff]
  refine ⟨ownerships_eq_some_exclusive, fun hexclusive => ?_⟩
  obtain ⟨-, -, hone⟩ := Sharing.exclusive_eq_some_iff.1 hexclusive
  have hshared : (Sharing.ofApp app).shared[r]? = none := by
    refine Option.eq_none_iff_forall_ne_some.2 fun names hnames => ?_
    obtain ⟨-, -, v, w, hv, hw, hne⟩ := Sharing.shared_eq_some_iff.1 hnames
    exact hne ((hone v hv).trans (hone w hw).symm)
  show ((Sharing.ofApp app).ownerships (app.ceilings (.ofApp app)))[r]? = _
  rw [Sharing.getElem?_ownerships, hshared, hexclusive]
  rfl

/-- A resource is shared when accessors differ in name, under the highest of their priorities. -/
theorem ownerships_shared_iff (limits : Limits) (hresolved : app.Resolved) {c : Priority} :
    (Analysis.ofApp limits app).ownerships[r]? = some (.shared c) ↔ r ∈ app.resources ∧
      (∃ t u, app.IsAccessor r t ∧ app.IsAccessor r u ∧ t.name ≠ u.name) ∧
      (∃ v, app.IsAccessor r v ∧ v.priority = c) ∧ ∀ v, app.IsAccessor r v → v.priority ≤ c := by
  have hceiling : app.ceiling? (app.accessors r) = some c ↔
      (∃ v, app.IsAccessor r v ∧ v.priority = c) ∧
        ∀ v, app.IsAccessor r v → v.priority ≤ c := by
    simp only [App.ceiling?_eq_some_iff, App.mem_lookUp_accessors hresolved]
  rw [ownerships_eq_some_shared_iff, App.getElem?_ceilings, Option.bind_eq_some_iff, ← hceiling]
  constructor
  · rintro ⟨names, hnames, hsome⟩
    obtain ⟨hr, rfl, hseveral⟩ := Sharing.shared_eq_some_iff.1 hnames
    exact ⟨hr, hseveral, hsome⟩
  · rintro ⟨hr, hseveral, hsome⟩
    exact ⟨_, Sharing.shared_eq_some_iff.2 ⟨hr, rfl, hseveral⟩, hsome⟩

/-- A declared resource with an accessor is owned by that one alone, or shared under a ceiling that
an accessor attains and none exceeds. -/
theorem ownerships_cases (limits : Limits) (hresolved : app.Resolved) (hr : r ∈ app.resources)
    (ht : app.IsAccessor r t) :
    ((Analysis.ofApp limits app).ownerships[r]? = some (.exclusive t.name) ∧
        ∀ u, app.IsAccessor r u → u = t) ∨
      ∃ c, (Analysis.ofApp limits app).ownerships[r]? = some (.shared c) ∧
        (∃ v, app.IsAccessor r v ∧ v.priority = c) ∧ ∀ v, app.IsAccessor r v → v.priority ≤ c := by
  by_cases hone : ∀ u, app.IsAccessor r u → u.name = t.name
  · left
    refine ⟨(ownerships_exclusive_iff limits).2 ⟨hr, ⟨t, ht⟩, hone⟩, fun u hu => ?_⟩
    exact hresolved.eq_of_name_eq hu ht (hone u hu)
  · right
    obtain ⟨u, hu, hne⟩ : ∃ u, app.IsAccessor r u ∧ u.name ≠ t.name := by
      simpa using hone
    obtain ⟨c, hc⟩ := Option.isSome_iff_exists.1 (App.ceiling?_accessors_isSome hresolved ht)
    simp only [App.ceiling?_eq_some_iff, App.mem_lookUp_accessors hresolved] at hc
    exact ⟨c, (ownerships_shared_iff limits hresolved).2 ⟨hr, ⟨u, t, hu, ht, hne⟩, hc⟩, hc⟩

/-- Accessors at one priority run on one core, unless the resource is transferable: two of them have
two names, and then the scan for a clash has gone through both. -/
theorem core_eq_of_priority_eq (hfindings : (Stages.ofApp limits app).findings = [])
    (hresolved : app.Resolved) (hr : r ∈ app.resources) (htrans : app.isTransferable r = false)
    (ht : app.IsAccessor r t) (hu : app.IsAccessor r u) (hpriority : t.priority = u.priority) :
    t.core = u.core := by
  by_cases hname : t.name = u.name
  · rw [hresolved.eq_of_name_eq ht hu hname]
  · have hshared : (Sharing.ofApp app).shared[r]? = some (app.accessors r) :=
      Sharing.shared_eq_some_iff.2 ⟨hr, rfl, t, u, ht, hu, hname⟩
    rcases App.conflict?_eq_none_iff.1 (conflict?_of_findings hfindings hshared) with h | h
    · rw [htrans] at h
      cases h
    · exact h t ((App.mem_lookUp_accessors hresolved).2 ht) u
        ((App.mem_lookUp_accessors hresolved).2 hu) hpriority

/-! ## Locks -/

theorem Ownership.needsLock_shared_iff {c p : Priority} :
    (Ownership.shared c).needsLock p = true ↔ p < c :=
  decide_eq_true_iff

/-- Of two accessors of a resource in an accepted application, the lower one has to lock, up to a
ceiling above which there is no accessor; and if neither has to lock they run on one core, unless
the resource is transferable. -/
theorem analyze_locks {ledger : Ledger} {a : Analysis}
    (hok : (ledger.settle (analyze limits app)).1 = .ok (.ok a)) (ht : app.IsAccessor r t)
    (hu : app.IsAccessor r u) : ∃ o, a.ownerships[r]? = some o ∧
      (t ≠ u → ∃ c, o = .shared c ∧ t.priority ≤ c ∧ u.priority ≤ c ∧
        ∃ v, app.IsAccessor r v ∧ v.priority = c) ∧
      (t.priority < u.priority → o.needsLock t.priority = true) ∧
      (app.isTransferable r = false → o.needsLock t.priority = false →
        o.needsLock u.priority = false → t.core = u.core) := by
  rw [Ledger.settle_analyze, Except.ok.injEq] at hok
  obtain ⟨hfindings, hfaults, rfl⟩ := analyze_eq_ok_iff.1 hok
  have hr : r ∈ app.resources := declared_of_faults hfaults r t ht
  have hresolved : app.Resolved := resolved_of_faults hfaults
  rcases ownerships_cases limits hresolved hr ht with
    ⟨hexclusive, hone⟩ | ⟨c, hshared, hattained, hbound⟩
  · obtain rfl := hone u hu
    refine ⟨_, hexclusive, ?_, ?_, ?_⟩
    · intro hne
      exact absurd rfl hne
    · intro hlt
      exact absurd hlt (UInt8.lt_irrefl _)
    · intro _ _ _
      rfl
  · refine ⟨_, hshared, ?_, ?_, ?_⟩
    · intro _
      exact ⟨c, rfl, hbound t ht, hbound u hu, hattained⟩
    · intro hlt
      rw [Ownership.needsLock_shared_iff]
      exact UInt8.lt_of_lt_of_le hlt (hbound u hu)
    · intro htrans hfreet hfreeu
      -- who does not lock is at the ceiling
      have htop : ∀ v, app.IsAccessor r v → (Ownership.shared c).needsLock v.priority = false →
          v.priority = c := by
        intro v hv hfree
        have hnot : ¬ v.priority < c := by
          rw [← Ownership.needsLock_shared_iff, hfree]
          exact Bool.false_ne_true
        exact UInt8.le_antisymm (hbound v hv) (UInt8.not_lt.1 hnot)
      have hpriority : t.priority = u.priority :=
        (htop t ht hfreet).trans (htop u hu hfreeu).symm
      exact core_eq_of_priority_eq hfindings hresolved hr htrans ht hu hpriority

/-- Polling locks the bus, since logging may preempt it. -/
theorem analyze_locks_relay : ∃ o, (Analysis.ofApp .default Relay.app).ownerships["bus"]? = some o ∧
    o.needsLock Relay.poll.priority = true := by
  have hpoll : Relay.app.IsAccessor "bus" Relay.poll := ⟨by decide, by decide⟩
  have hlog : Relay.app.IsAccessor "bus" Relay.log := ⟨by decide, by decide⟩
  obtain ⟨o, ho, -, hlocks, -⟩ := analyze_locks (Relay.accepted ∅) hpoll hlog
  exact ⟨o, ho, hlocks (by decide)⟩

end MulticoreTasks
