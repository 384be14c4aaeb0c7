import Mathlib.Data.List.Forall2
import MulticoreTasks.Proofs.Verdict

/-!
# What is found

The findings about an application, read off its tasks, resources and spawns:

1. `App.unaccessed`     : the resources that no task accesses;
2. `App.unprogrammable` : the tasks at a priority that the target does not have;
3. `App.clashing`       : the resources over which two cores clash, `App.ReportsClash` being what is
   said of one;
4. `App.spawnFindings`  : what is wrong with a spawn by itself or beside the others;
5. `App.unslotted`      : the delayed spawns of another task, when no slot is set aside for these.

The stages find them by other ways: accessors by name, clashes by a scan, capacities in nested
tables.  `analyze_reports` is the agreement: an application is told all of them, in this order
(`App.batch`), and nothing else that is wrong with it keeps them back.
-/

namespace MulticoreTasks

namespace App

/-- The resources that no task accesses, by name. -/
def unaccessed (app : App) : List ResourceName :=
  app.resources.keys.filter fun r => ∀ t ∈ app.taskList, r ∉ t.resources

/-- The tasks at a priority that the target does not have, by name. -/
def unprogrammable (limits : Limits) (app : App) : List Task :=
  app.taskList.filter fun t => ¬ (1 ≤ t.priority ∧ t.priority ≤ limits.maxPriority)

/-- The resources with a clash between cores that are not declared transferable, by name. -/
def clashing (app : App) : List ResourceName :=
  (app.resources.toList.filter fun e => e.2.transferable = false ∧ app.HasClash e.1).map Prod.fst

/-- The finding `d` names two accessors that clash over the resource `r`. -/
def ReportsClash (app : App) (r : ResourceName) (d : Diagnostic) : Prop :=
  ∃ t u, app.IsAccessor r t ∧ app.IsAccessor r u ∧ t.priority = u.priority ∧ t.core ≠ u.core ∧
    d = .crossCoreConflict r t.priority t.name t.core u.name u.core

/-- The first spawn with a capacity of the same task from the same core. -/
def firstSized? (app : App) (e : Edge) : Option Edge :=
  app.edges.find? fun f =>
    f.spawn.target = e.spawn.target ∧ f.sender.core = e.sender.core ∧ f.spawn.capacity ≠ 0

/-- What is wrong with a spawn of a declared task: a dispatch priority that is not the task's own
and that the target does not have, then a capacity of zero or one other than the first. -/
def spawnFindings (limits : Limits) (app : App) (e : Edge) : List Diagnostic :=
  match app.task? e.spawn.target with
  | none => []
  | some t =>
    (if e.spawn.priority ≠ t.priority ∧
        ¬ (1 ≤ e.spawn.priority ∧ e.spawn.priority ≤ limits.maxPriority) then
      [.priorityOutOfRange e.spawn.target e.spawn.priority limits.maxPriority]
    else []) ++
    if e.spawn.capacity = 0 then [.capacityZero e.spawn.target e.sender.name]
    else
      match app.firstSized? e with
      | none => []
      | some f =>
        if e.spawn.capacity = f.spawn.capacity then []
        else [.conflictingCapacity e.spawn.target e.sender.core f.spawn.capacity e.spawn.capacity]

/-- The delayed spawns of another task than the sender, when no slot is set aside for these. -/
def unslotted (limits : Limits) (app : App) : List Edge :=
  app.edges.filter fun e => e.spawn.dispatch = .delayed ∧ e.spawn.target ≠ e.sender.name ∧
    limits.timerSlotBound = 0

/-- All that is found, where `conflicts` is what is said of the clashes. -/
def batch (limits : Limits) (app : App) (conflicts : List Diagnostic) : List Diagnostic :=
  app.unaccessed.map .unusedResource ++
    (app.unprogrammable limits).map
      (fun t => .priorityOutOfRange t.name t.priority limits.maxPriority) ++
    conflicts ++ app.edges.flatMap (app.spawnFindings limits) ++
    (app.unslotted limits).map fun e => .capacityZero e.spawn.target e.sender.name

end App

variable {app : App} {limits : Limits}

/-! ## Resources without accessors -/

theorem App.forall_not_isAccessor_iff {r : ResourceName} :
    (∀ t, ¬ app.IsAccessor r t) ↔ ∀ t ∈ app.taskList, r ∉ t.resources := by
  simp only [IsAccessor, not_and]

theorem Sharing.findings_eq (app : App) : findings app = app.unaccessed.map .unusedResource := by
  rw [findings, App.unaccessed]
  congr 1
  refine List.filter_congr fun r _ => decide_eq_decide.2 ?_
  rw [App.unused_iff, App.forall_not_isAccessor_iff]

/-! ## Priorities and clashes -/

theorem not_inRange_iff {p : Priority} :
    (!limits.inRange p) = true ↔ ¬ (1 ≤ p ∧ p ≤ limits.maxPriority) := by
  rw [Bool.not_eq_true', ← Bool.not_eq_true, Limits.inRange_iff]

/-- The members of a list that pass a test, beside what is made of exactly these. -/
theorem forall₂_filter_filterMap {α β : Type} {R : α → β → Prop} {p : α → Bool} {f : α → Option β}
    {l : List α} (hkeep : ∀ a ∈ l, p a = true → ∃ b, f a = some b ∧ R a b)
    (hdrop : ∀ a ∈ l, ¬ p a = true → f a = none) :
    List.Forall₂ R (l.filter p) (l.filterMap f) := by
  induction l with
  | nil => exact .nil
  | cons a l ih =>
    have hl := ih (fun b hb => hkeep b (List.mem_cons_of_mem _ hb))
      (fun b hb => hdrop b (List.mem_cons_of_mem _ hb))
    by_cases ha : p a = true
    · obtain ⟨b, hb, hab⟩ := hkeep a (List.mem_cons_self ..) ha
      rw [List.filter_cons_of_pos ha, List.filterMap_cons_some hb]
      exact .cons hab hl
    · rw [List.filter_cons_of_neg ha, List.filterMap_cons_none (hdrop a (List.mem_cons_self ..) ha)]
      exact hl

/-- The conflict over a declared resource, if it is shared. -/
def App.conflictOver? (app : App) (r : ResourceName) : Option Diagnostic :=
  (app.usage r).sharers?.bind (app.conflict? r)

theorem App.conflictOver?_spec (h : app.WellFiled) {r : ResourceName} {resource : Resource}
    (hr : app.resource? r = some resource) :
    (resource.transferable = false ∧ app.HasClash r →
      ∃ d, app.conflictOver? r = some d ∧ app.ReportsClash r d) ∧
    (¬ (resource.transferable = false ∧ app.HasClash r) → app.conflictOver? r = none) := by
  have htrans : app.isTransferable r = resource.transferable := by
    rw [isTransferable, hr]
    rfl
  have hlook := fun t => mem_lookUp_accessors h.resolved (r := r) (t := t)
  constructor
  · rintro ⟨hnot, hclash⟩
    obtain ⟨t, u, ht, hu, hp, hc⟩ := hasClash_iff.1 hclash
    have hname : t.name ≠ u.name := by
      intro hname
      exact hc (congrArg Task.core (h.eq_of_name_eq ht.1 hu.1 hname))
    have hshared := sharers?_usage_iff.2 ⟨rfl, t, u, ht, hu, hname⟩
    have hsome : app.conflict? r (app.accessors r) ≠ none := by
      intro hnone
      rcases conflict?_eq_none_iff.1 hnone with h' | h'
      · rw [htrans, hnot] at h'
        cases h'
      · exact hc (h' t ((hlook t).2 ht) u ((hlook u).2 hu) hp)
    obtain ⟨d, hd⟩ := Option.ne_none_iff_exists'.1 hsome
    refine ⟨d, by rw [conflictOver?, hshared]; exact hd, ?_⟩
    obtain ⟨a, ha, b, hb, hpab, hcab, rfl⟩ := conflict?_eq_some hd
    exact ⟨a, b, (hlook a).1 ha, (hlook b).1 hb, hpab, hcab, rfl⟩
  · intro hno
    rw [conflictOver?]
    cases hshared : (app.usage r).sharers? with
    | none => rfl
    | some names =>
      obtain ⟨rfl, -⟩ := sharers?_usage_iff.1 hshared
      refine conflict?_eq_none_iff.2 ?_
      cases hresource : resource.transferable with
      | true => exact Or.inl (htrans.trans hresource)
      | false =>
        refine Or.inr fun t ht u hu hp => ?_
        by_contra hc
        exact hno ⟨hresource, hasClash_iff.2 ⟨t, u, (hlook t).1 ht, (hlook u).1 hu, hp, hc⟩⟩

/-- One finding for every resource with a clash, in the order of their names. -/
theorem App.forall₂_conflicts (h : app.WellFiled) : List.Forall₂ app.ReportsClash app.clashing
    ((Sharing.ofApp app).shared.toList.filterMap fun e => app.conflict? e.1 e.2) := by
  have hlist : ((Sharing.ofApp app).shared.toList.filterMap fun e => app.conflict? e.1 e.2) =
      app.resources.toList.filterMap fun e => app.conflictOver? e.1 := by
    rw [Sharing.ofApp, Std.ExtTreeMap.toList_filterMap, List.filterMap_filterMap]
    refine List.filterMap_congr fun e _ => ?_
    rw [conflictOver?]
    cases (app.usage e.1).sharers? <;> rfl
  rw [hlist, clashing, List.forall₂_map_left_iff]
  refine forall₂_filter_filterMap ?_ ?_
  · intro e he hkeep
    exact (conflictOver?_spec h (Table.mem_entries.1 he)).1 (of_decide_eq_true hkeep)
  · intro e he hdrop
    exact (conflictOver?_spec h (Table.mem_entries.1 he)).2 fun h' => hdrop (decide_eq_true h')

/-! ## Spawns -/

theorem App.capacity?_eq_firstSized? {e : Edge} (he : e.target ∈ app.tasks) :
    app.freeQueues.capacity? e.target e.sender.core =
      (app.firstSized? e).map (·.spawn.capacity) := by
  rw [capacity?_freeQueues_eq_find?, firstSized?]
  congr 2
  funext f
  refine decide_eq_decide.2 ?_
  constructor
  · rintro ⟨-, hcap, hcore, htarget⟩
    exact ⟨htarget, hcore, hcap⟩
  · rintro ⟨htarget, hcore, hcap⟩
    have hdeclared : f.target ∈ app.tasks := by
      rw [Edge.target, htarget]
      exact he
    exact ⟨hdeclared, hcap, hcore, htarget⟩

theorem Topology.findings_eq (limits : Limits) (app : App) :
    findings limits app app.freeQueues = app.edges.flatMap (app.spawnFindings limits) := by
  unfold findings
  congr 1
  funext e
  rw [edgeFindings, App.spawnFindings]
  cases ht : app.task? e.spawn.target with
  | none => rw [Edge.target, ht]
  | some t =>
    have he : e.target ∈ app.tasks := App.mem_tasks_iff.2 ⟨t, ht⟩
    have hrange : ∀ p, limits.inRange p = false ↔ ¬ (1 ≤ p ∧ p ≤ limits.maxPriority) := by
      intro p
      rw [← not_inRange_iff, Bool.not_eq_true']
    rw [App.capacity?_eq_firstSized? he]
    simp only [Edge.target, ht, hrange]
    cases app.firstSized? e with
    | none => rfl
    | some f => simp only [Option.map_some, eq_comm]

theorem TimerQueues.findings_eq (limits : Limits) (app : App) (queues : FreeQueues) :
    findings app (slotBound limits queues) =
      (app.unslotted limits).map fun e => .capacityZero e.spawn.target e.sender.name := by
  rw [findings, App.delayedEdges, List.filter_filter, App.unslotted]
  congr 1
  refine List.filter_congr fun e _ => ?_
  have hown : e.isOwn = true ↔ e.sender.name = e.spawn.target := decide_eq_true_iff
  rw [Bool.eq_iff_iff]
  simp only [Bool.and_eq_true, Bool.not_eq_true', decide_eq_true_eq, ← Bool.not_eq_true, hown]
  constructor
  · rintro ⟨⟨hbound, hne⟩, hdelayed⟩
    rw [slotBound, if_neg (mt hown.1 hne)] at hbound
    exact ⟨hdelayed, Ne.symm hne, hbound⟩
  · rintro ⟨hdelayed, hne, hbound⟩
    refine ⟨⟨?_, Ne.symm hne⟩, hdelayed⟩
    rw [slotBound, if_neg (mt hown.1 (Ne.symm hne))]
    exact hbound

/-! ## The batch -/

theorem Stages.findings_eq (h : app.WellFiled) (limits : Limits) : ∃ conflicts,
    List.Forall₂ app.ReportsClash app.clashing conflicts ∧
      (ofApp limits app).findings = app.batch limits conflicts := by
  refine ⟨_, App.forall₂_conflicts h, ?_⟩
  have hprio : (app.taskList.filter fun t => !limits.inRange t.priority) =
      app.unprogrammable limits := by
    refine List.filter_congr fun t _ => ?_
    rw [Bool.eq_iff_iff, not_inRange_iff, decide_eq_true_iff]
  simp only [findings, ofApp, Sharing.findings_eq, Ceilings.findings, Topology.findings_eq,
    TimerQueues.findings_eq, hprio, App.batch, List.append_assoc]

/-! ## Their order -/

theorem App.taskList_pairwise (h : app.WellFiled) :
    app.taskList.Pairwise fun t u => compare t.name u.name = .lt := by
  rw [taskList, Table.values, List.pairwise_map]
  refine (Table.entries_pairwise app.tasks).imp_of_mem ?_
  intro a b ha hb hlt
  have hna : a.2.name = a.1 := h.task_name (Table.mem_entries.1 ha)
  have hnb : b.2.name = b.1 := h.task_name (Table.mem_entries.1 hb)
  rw [hna, hnb]
  exact hlt

theorem App.unaccessed_pairwise (app : App) :
    app.unaccessed.Pairwise fun r s => compare r s = .lt :=
  Std.ExtTreeMap.ordered_keys.sublist List.filter_sublist

theorem App.clashing_pairwise (app : App) :
    app.clashing.Pairwise fun r s => compare r s = .lt := by
  rw [clashing, List.pairwise_map]
  exact (Table.entries_pairwise app.resources).sublist List.filter_sublist

/-- An application with findings is told all of them and nothing else, whatever the rest of the
analysis would have come to; resources and tasks come by name. -/
theorem analyze_reports (h : app.Reachable) (limits : Limits) (ledger : Ledger) :
    (app.unaccessed.Pairwise fun r s => compare r s = .lt) ∧
    (app.taskList.Pairwise fun t u => compare t.name u.name = .lt) ∧
    (app.clashing.Pairwise fun r s => compare r s = .lt) ∧
    ∃ conflicts, List.Forall₂ app.ReportsClash app.clashing conflicts ∧
      ∀ found, (ledger.settle (analyze limits app)).1 = .ok (.error (.diagnostics found)) ↔
        found ≠ [] ∧ found = app.batch limits conflicts := by
  obtain ⟨conflicts, hconflicts, hbatch⟩ := Stages.findings_eq h.filed limits
  refine ⟨app.unaccessed_pairwise, App.taskList_pairwise h.filed, app.clashing_pairwise,
    conflicts, hconflicts, ?_⟩
  intro found
  rw [Ledger.settle_analyze, Except.ok.injEq, analyze_eq_diagnostics_iff, hbatch]

/-- Without a second priority and without slots, both that the task to be started asks for too much
and that it cannot be started later are found. -/
theorem analyze_reports_relay :
    ((∅ : Ledger).settle (analyze ⟨1, 0⟩ Relay.app)).1 = .ok (.error (.diagnostics
      [.priorityOutOfRange "log" 2 1, .capacityZero "log" "poll"])) := by
  obtain ⟨-, -, -, conflicts, hconflicts, hfound⟩ := analyze_reports Relay.reachable ⟨1, 0⟩ ∅
  have hnone : Relay.app.clashing = [] := by decide
  rw [hnone, List.forall₂_nil_left_iff] at hconflicts
  subst hconflicts
  exact (hfound _).2 ⟨by decide, by decide +kernel⟩

end MulticoreTasks
