import MulticoreTasks.Proofs.Faults
import MulticoreTasks.Proofs.Findings

/-!
# Which applications are accepted

* `App.WellFormed` : what is asked of an application, said of its declarations alone;
* `Stages.findings_eq_nil_iff` : nothing is found when this holds, as far as spawns arrive;
* `analyze_accepts_iff` : an application that was had through the guarded operations is accepted
  exactly when it is well formed.

Findings and faults share the work: a spawn of an undeclared task is skipped by every stage that
sizes or prices it, and it is the faults that hold it back.  So neither half alone comes to
`App.WellFormed`, and the two are put together before the spawns are looked at.
-/

namespace MulticoreTasks

namespace App

/-- What is asked of an application. -/
structure WellFormed (limits : Limits) (app : App) : Prop where
  /-- Every declared resource is accessed. -/
  accessed : ∀ r ∈ app.resources, ∃ t, app.IsAccessor r t
  /-- Every accessed resource is declared. -/
  declared : ∀ r t, app.IsAccessor r t → r ∈ app.resources
  /-- The target has the priority of every task. -/
  programmable : ∀ t ∈ app.taskList, 1 ≤ t.priority ∧ t.priority ≤ limits.maxPriority
  /-- At one priority, a resource that is not transferable stays on one core. -/
  apart : ∀ r resource, app.resource? r = some resource → resource.transferable = false →
    ∀ t u, app.IsAccessor r t → app.IsAccessor r u → t.priority = u.priority → t.core = u.core
  /-- Every spawn goes where its target runs. -/
  arrives : ∀ e ∈ app.edges, ∃ t, app.task? e.target = some t ∧ t.core = e.spawn.core ∧
    t.priority = e.spawn.priority
  /-- Every spawn has a capacity. -/
  sized : ∀ e ∈ app.edges, e.spawn.capacity ≠ 0
  /-- The spawns of one task from one core have one capacity. -/
  agreed : ∀ e ∈ app.edges, ∀ f ∈ app.edges, e.target = f.target →
    e.sender.core = f.sender.core → e.spawn.capacity = f.spawn.capacity
  /-- Without slots for it, no task schedules another one. -/
  slotted : limits.timerSlotBound = 0 → ∀ e ∈ app.edges, e.spawn.dispatch = .delayed →
    e.target = e.sender.name

variable {app : App} {limits : Limits}

/-! ## Resources and priorities -/

theorem unaccessed_eq_nil_iff :
    app.unaccessed = [] ↔ ∀ r ∈ app.resources, ∃ t, app.IsAccessor r t := by
  simp only [unaccessed, List.filter_eq_nil_iff, Std.ExtTreeMap.mem_keys, decide_eq_true_eq,
    ← forall_not_isAccessor_iff, not_forall, not_not]

theorem unprogrammable_eq_nil_iff : app.unprogrammable limits = [] ↔
    ∀ t ∈ app.taskList, 1 ≤ t.priority ∧ t.priority ≤ limits.maxPriority := by
  simp only [unprogrammable, List.filter_eq_nil_iff, decide_eq_true_eq, not_not]

theorem clashing_eq_nil_iff : app.clashing = [] ↔
    ∀ r resource, app.resource? r = some resource → resource.transferable = false →
      ∀ t u, app.IsAccessor r t → app.IsAccessor r u → t.priority = u.priority →
        t.core = u.core := by
  rw [clashing, List.map_eq_nil_iff, List.filter_eq_nil_iff]
  constructor
  · intro h r resource hr htrans t u ht hu hp
    by_contra hcore
    have hclash : app.HasClash r := hasClash_iff.2 ⟨t, u, ht, hu, hp, hcore⟩
    exact h (r, resource) (Table.mem_entries.2 hr) (decide_eq_true ⟨htrans, hclash⟩)
  · intro h e he hkeep
    obtain ⟨htrans, hclash⟩ := of_decide_eq_true hkeep
    obtain ⟨t, u, ht, hu, hp, hcore⟩ := hasClash_iff.1 hclash
    exact hcore (h e.1 e.2 (Table.mem_entries.1 he) htrans t u ht hu hp)

/-! ## Spawns -/

theorem unslotted_eq_nil_iff : app.unslotted limits = [] ↔
    (limits.timerSlotBound = 0 → ∀ e ∈ app.edges, e.spawn.dispatch = .delayed →
      e.target = e.sender.name) := by
  rw [unslotted, List.filter_eq_nil_iff]
  constructor
  · intro h hbound e he hdelayed
    by_contra hother
    exact h e he (decide_eq_true ⟨hdelayed, hother, hbound⟩)
  · intro h e he hkeep
    obtain ⟨hdelayed, hother, hbound⟩ := of_decide_eq_true hkeep
    exact hother (h hbound e he hdelayed)

theorem firstSized?_congr {e f : Edge} (htarget : e.target = f.target)
    (hcore : e.sender.core = f.sender.core) : app.firstSized? e = app.firstSized? f := by
  replace htarget : e.spawn.target = f.spawn.target := htarget
  rw [firstSized?, firstSized?, htarget, hcore]

/-- A sized spawn has a first sized spawn beside it, if only itself. -/
theorem exists_firstSized? {e : Edge} (he : e ∈ app.edges) (hcap : e.spawn.capacity ≠ 0) :
    ∃ f ∈ app.edges, app.firstSized? e = some f ∧ f.target = e.target ∧
      f.sender.core = e.sender.core := by
  cases hfirst : app.firstSized? e with
  | none =>
    have hno := List.find?_eq_none.1 hfirst e he
    exact absurd (decide_eq_true ⟨rfl, rfl, hcap⟩) hno
  | some f =>
    have hkeys := List.find?_some hfirst
    obtain ⟨htarget, hcore, -⟩ := of_decide_eq_true hkeys
    exact ⟨f, List.mem_of_find?_eq_some hfirst, rfl, htarget, hcore⟩

/-- A spawn that arrives is in order when it has the capacity that was declared first. -/
theorem spawnFindings_eq_nil_iff {e : Edge} {t : Task} (ht : app.task? e.target = some t)
    (hpriority : t.priority = e.spawn.priority) : app.spawnFindings limits e = [] ↔
      e.spawn.capacity ≠ 0 ∧
        ∀ f, app.firstSized? e = some f → e.spawn.capacity = f.spawn.capacity := by
  replace ht : app.task? e.spawn.target = some t := ht
  rw [spawnFindings, ht]
  simp only [hpriority, ne_eq, not_true_eq_false, false_and, if_false, List.nil_append]
  by_cases hcap : e.spawn.capacity = 0
  · simp [hcap]
  · rw [if_neg hcap]
    cases app.firstSized? e with
    | none => simp [hcap]
    | some f =>
      by_cases hsame : e.spawn.capacity = f.spawn.capacity
      · refine iff_of_true (if_pos hsame) ⟨hcap, ?_⟩
        rintro g ⟨⟩
        exact hsame
      · simp [hsame]

/-- Where all spawns arrive, they are in order when all of them have capacities and those of one
task from one core agree: each of these then agrees with the first. -/
theorem spawnFindings_all_nil_iff (limits : Limits) (harrives : ∀ e ∈ app.edges, ∃ t,
      app.task? e.target = some t ∧ t.core = e.spawn.core ∧ t.priority = e.spawn.priority) :
    app.edges.flatMap (app.spawnFindings limits) = [] ↔
      (∀ e ∈ app.edges, e.spawn.capacity ≠ 0) ∧
        ∀ e ∈ app.edges, ∀ f ∈ app.edges, e.target = f.target → e.sender.core = f.sender.core →
          e.spawn.capacity = f.spawn.capacity := by
  have hedge : ∀ e ∈ app.edges, app.spawnFindings limits e = [] ↔ e.spawn.capacity ≠ 0 ∧
      ∀ f, app.firstSized? e = some f → e.spawn.capacity = f.spawn.capacity := by
    intro e he
    obtain ⟨t, ht, -, hpriority⟩ := harrives e he
    exact spawnFindings_eq_nil_iff ht hpriority
  rw [List.flatMap_eq_nil_iff, forall₂_congr hedge]
  constructor
  · intro h
    refine ⟨fun e he => (h e he).1, ?_⟩
    intro e he f hf htarget hcore
    obtain ⟨first, -, hfirst, -⟩ := exists_firstSized? he (h e he).1
    have he' := (h e he).2 first hfirst
    rw [firstSized?_congr htarget hcore] at hfirst
    have hf' := (h f hf).2 first hfirst
    rw [he', hf']
  · rintro ⟨hsized, hagreed⟩ e he
    refine ⟨hsized e he, ?_⟩
    intro f hfirst
    obtain ⟨g, hg, hsome, htarget, hcore⟩ := exists_firstSized? he (hsized e he)
    rw [hfirst] at hsome
    cases hsome
    exact hagreed e he f hg htarget.symm hcore.symm

end App

variable {app : App} {limits : Limits}

/-! ## Acceptance -/

theorem Stages.findings_eq_nil_iff (h : app.WellFiled) : (ofApp limits app).findings = [] ↔
    app.unaccessed = [] ∧ app.unprogrammable limits = [] ∧ app.clashing = [] ∧
      app.edges.flatMap (app.spawnFindings limits) = [] ∧ app.unslotted limits = [] := by
  obtain ⟨conflicts, hconflicts, hbatch⟩ := Stages.findings_eq h limits
  have hclash : conflicts = [] ↔ app.clashing = [] := by
    rw [← List.length_eq_zero_iff, ← hconflicts.length_eq, List.length_eq_zero_iff]
  simp only [hbatch, App.batch, List.append_eq_nil_iff, List.map_eq_nil_iff, hclash, and_assoc]

/-- Nothing is found and nothing is contradictory exactly when the application is well formed. -/
theorem clean_iff_wellFormed (h : app.WellFiled) :
    (Stages.ofApp limits app).findings = [] ∧ (Analysis.ofApp limits app).faults app = [] ↔
      app.WellFormed limits := by
  rw [Stages.findings_eq_nil_iff h, faults_eq_nil_iff h, App.unaccessed_eq_nil_iff,
    App.unprogrammable_eq_nil_iff, App.clashing_eq_nil_iff, App.unslotted_eq_nil_iff]
  constructor
  · rintro ⟨⟨haccessed, hprogrammable, hapart, hspawns, hslotted⟩, hdeclared, harrives⟩
    obtain ⟨hsized, hagreed⟩ := (App.spawnFindings_all_nil_iff limits harrives).1 hspawns
    exact ⟨haccessed, hdeclared, hprogrammable, hapart, harrives, hsized, hagreed, hslotted⟩
  · intro hw
    have hspawns := (App.spawnFindings_all_nil_iff limits hw.arrives).2 ⟨hw.sized, hw.agreed⟩
    exact ⟨⟨hw.accessed, hw.programmable, hw.apart, hspawns, hw.slotted⟩, hw.declared, hw.arrives⟩

theorem App.WellFiled.wellFormed_of_ok (h : app.WellFiled) {a : Analysis}
    (hok : (analyze limits app).value = .ok a) : app.WellFormed limits := by
  obtain ⟨hfindings, hfaults, -⟩ := analyze_eq_ok_iff.1 hok
  exact (clean_iff_wellFormed h).1 ⟨hfindings, hfaults⟩

/-- A run of the analysis ends in a result exactly when the application is well formed, and the
result is what the stages come to. -/
theorem App.WellFiled.settle_analyze_iff (h : app.WellFiled) {ledger : Ledger} {a : Analysis} :
    (ledger.settle (analyze limits app)).1 = .ok (.ok a) ↔
      app.WellFormed limits ∧ a = .ofApp limits app := by
  rw [Ledger.settle_analyze, Except.ok.injEq, analyze_eq_ok_iff, ← clean_iff_wellFormed h,
    and_assoc]

/-- An application is accepted exactly when it is well formed. -/
theorem analyze_accepts_iff (h : app.Reachable) (limits : Limits) (ledger : Ledger) :
    (∃ a, (ledger.settle (analyze limits app)).1 = .ok (.ok a)) ↔ app.WellFormed limits := by
  rw [Ledger.settle_analyze, ← clean_iff_wellFormed h.filed]
  simp only [Except.ok.injEq, analyze_eq_ok_iff]
  constructor
  · rintro ⟨a, hfindings, hfaults, -⟩
    exact ⟨hfindings, hfaults⟩
  · rintro ⟨hfindings, hfaults⟩
    exact ⟨_, hfindings, hfaults, rfl⟩

/-- With all priorities there is nothing to object to; with one priority there is. -/
theorem analyze_accepts_relay :
    Relay.app.WellFormed .default ∧ ¬ Relay.app.WellFormed ⟨1, 1⟩ := by
  constructor
  · exact (analyze_accepts_iff Relay.reachable .default ∅).1 ⟨_, Relay.accepted ∅⟩
  · rw [← analyze_accepts_iff Relay.reachable ⟨1, 1⟩ ∅]
    rintro ⟨a, ha⟩
    rw [Ledger.settle_analyze, Except.ok.injEq, analyze_eq_ok_iff] at ha
    exact absurd ha.1 (by decide +kernel)

end MulticoreTasks
