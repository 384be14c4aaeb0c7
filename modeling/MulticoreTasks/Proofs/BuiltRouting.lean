import MulticoreTasks.Proofs.Building
import MulticoreTasks.Proofs.FirstFault

/-!
# Built applications are not misrouted

The spawns of a built application were looked up when all tasks were known, so they go where their
targets run, at the priority of these.  Of all that can be wrong with an application this leaves
little:

* `App.Arrives`              : every spawn goes where its target runs;
* `Blueprint.Holds.arrives`  : this holds of what a blueprint is built to;
* `Arrives.outOfRange?_batch` : then nothing is said of the priorities of spawns, and each task is
  told of its own once;
* `App.Answers`              : what is left to answer, and `built_never_misrouted` that this is all
  that a built application can be told.
-/

namespace MulticoreTasks

/-- Every spawn names a declared task, and has the core and the priority of that task. -/
def App.Arrives (app : App) : Prop :=
  ∀ e ∈ app.edges, ∃ t, app.task? e.target = some t ∧ e.spawn.core = t.core ∧
    e.spawn.priority = t.priority

/-- The task and the priority that a finding calls out of range. -/
def Diagnostic.outOfRange? : Diagnostic → Option (TaskName × Priority)
  | .priorityOutOfRange task priority _ => some (task, priority)
  | _ => none

/-- The answers to an application whose spawns all arrive. -/
inductive App.Answers (app : App) : Except Rejection Analysis → Prop
  | accepted (a : Analysis) : Answers app (.ok a)
  /-- No task is told twice that its priority is out of range, and none is told of another priority
  than its own. -/
  | found {findings : List Diagnostic}
      (once : ((findings.filterMap Diagnostic.outOfRange?).map Prod.fst).Nodup)
      (own : ∀ x ∈ findings.filterMap Diagnostic.outOfRange?,
        ∃ t, app.task? x.1 = some t ∧ t.priority = x.2) :
      Answers app (.error (.diagnostics findings))
  /-- The only contradiction left is an access to an undeclared resource. -/
  | undeclared (task : TaskName) (r : ResourceName) :
      Answers app (.error (.inconsistent (.unknownResource task r)))

variable {app : App} {limits : Limits}

/-! ## Spawns of a built application -/

namespace Blueprint

variable {b : Blueprint} {drafted : List TaskDraft}

/-- The spawns of a built task are those that were pending for it, looked up among all tasks. -/
theorem Holds.mem_edges_build (h : b.Holds drafted) (hbuild : b.build = .ok app) {e : Edge}
    (he : e ∈ app.edges) : ∃ p ∈ b.pending, p.resolve? b.app = some e.spawn := by
  obtain ⟨-, rfl⟩ := h.build_eq_ok_iff.1 hbuild
  obtain ⟨hsender, hspawn⟩ := App.mem_edges.1 he
  obtain ⟨key, hkey⟩ := App.mem_taskList.1 hsender
  rw [App.task?_attach, Option.map_eq_some_iff] at hkey
  obtain ⟨t, ht, hattach⟩ := hkey
  obtain ⟨d, -, rfl, -⟩ := h.task?_iff.1 ht
  have hspawns : e.sender.spawns = b.spawnsOf key := by
    rw [← hattach]
    show d.task.spawns ++ b.spawnsOf key = b.spawnsOf key
    rw [TaskDraft.spawns_task, List.nil_append]
  rw [hspawns] at hspawn
  obtain ⟨p, hp, hresolve⟩ := List.mem_filterMap.1 hspawn
  exact ⟨p, (List.mem_filter.1 hp).1, hresolve⟩

theorem Holds.arrives (h : b.Holds drafted) (hbuild : b.build = .ok app) : app.Arrives := by
  intro e he
  obtain ⟨p, -, hresolve⟩ := h.mem_edges_build hbuild he
  obtain ⟨t, ht, hspawn⟩ := Option.map_eq_some_iff.1 hresolve
  obtain ⟨-, rfl⟩ := h.build_eq_ok_iff.1 hbuild
  have htarget : e.target = p.target := congrArg Spawn.target hspawn.symm
  refine ⟨{ t with spawns := t.spawns ++ b.spawnsOf p.target }, ?_, ?_, ?_⟩
  · rw [htarget, App.task?_attach, ht, Option.map_some]
  · exact congrArg Spawn.core hspawn.symm
  · exact congrArg Spawn.priority hspawn.symm

end Blueprint

/-! ## What is found -/

/-- Where a spawn has the priority of its target, nothing is said of its own. -/
theorem App.Arrives.outOfRange?_spawnFindings (h : app.Arrives) {e : Edge} (he : e ∈ app.edges) :
    ∀ d ∈ app.spawnFindings limits e, d.outOfRange? = none := by
  obtain ⟨t, ht, -, hpriority⟩ := h e he
  replace ht : app.task? e.spawn.target = some t := ht
  intro d hd
  rw [spawnFindings, ht] at hd
  simp only [hpriority, ne_eq, not_true_eq_false, false_and, if_false, List.nil_append] at hd
  split at hd
  · rw [List.mem_singleton.1 hd]
    rfl
  · split at hd
    · cases hd
    · split at hd
      · cases hd
      · rw [List.mem_singleton.1 hd]
        rfl

theorem outOfRange?_conflicts {names : List ResourceName} {conflicts : List Diagnostic}
    (h : List.Forall₂ app.ReportsClash names conflicts) :
    conflicts.filterMap Diagnostic.outOfRange? = [] := by
  induction h with
  | nil => rfl
  | cons hclash _ ih =>
    obtain ⟨t, u, -, -, -, -, rfl⟩ := hclash
    exact ih

/-- Of all that is found, only what is said of tasks is about priorities out of range. -/
theorem App.Arrives.outOfRange?_batch (h : app.Arrives) (limits : Limits)
    {conflicts : List Diagnostic}
    (hconflicts : List.Forall₂ app.ReportsClash app.clashing conflicts) :
    (app.batch limits conflicts).filterMap Diagnostic.outOfRange? =
      (app.unprogrammable limits).map fun t => (t.name, t.priority) := by
  have hspawns : (app.edges.flatMap (app.spawnFindings limits)).filterMap Diagnostic.outOfRange? =
      [] := by
    refine List.filterMap_eq_nil_iff.2 fun d hd => ?_
    obtain ⟨e, he, hde⟩ := List.mem_flatMap.1 hd
    exact h.outOfRange?_spawnFindings he d hde
  have hunused : (app.unaccessed.map Diagnostic.unusedResource).filterMap Diagnostic.outOfRange? =
      [] := by
    refine List.filterMap_eq_nil_iff.2 fun d hd => ?_
    obtain ⟨r, -, rfl⟩ := List.mem_map.1 hd
    rfl
  have hunslotted : ((app.unslotted limits).map fun e =>
      Diagnostic.capacityZero e.spawn.target e.sender.name).filterMap Diagnostic.outOfRange? =
      [] := by
    refine List.filterMap_eq_nil_iff.2 fun d hd => ?_
    obtain ⟨e, -, rfl⟩ := List.mem_map.1 hd
    rfl
  have htasks : ((app.unprogrammable limits).map fun t =>
      Diagnostic.priorityOutOfRange t.name t.priority limits.maxPriority).filterMap
        Diagnostic.outOfRange? = (app.unprogrammable limits).map fun t => (t.name, t.priority) := by
    rw [List.filterMap_map, ← List.filterMap_eq_map]
    rfl
  rw [batch]
  simp only [List.filterMap_append, hunused, htasks, outOfRange?_conflicts hconflicts, hspawns,
    hunslotted, List.nil_append, List.append_nil]

theorem App.Arrives.answers_diagnostics (h : app.Arrives) (hfiled : app.WellFiled) :
    app.Answers (.error (.diagnostics (Stages.ofApp limits app).findings)) := by
  obtain ⟨conflicts, hconflicts, hbatch⟩ := Stages.findings_eq hfiled limits
  have hranges := h.outOfRange?_batch limits hconflicts
  rw [← hbatch] at hranges
  refine .found ?once ?own
  case once =>
    rw [hranges, List.map_map]
    have hnames : (app.unprogrammable limits).Pairwise fun t u => compare t.name u.name = .lt :=
      (App.taskList_pairwise hfiled).sublist List.filter_sublist
    refine List.pairwise_map.2 (hnames.imp ?_)
    rintro t u hlt (hsame : t.name = u.name)
    rw [hsame, Std.ReflOrd.compare_self] at hlt
    cases hlt
  case own =>
    intro x hx
    rw [hranges] at hx
    obtain ⟨t, ht, rfl⟩ := List.mem_map.1 hx
    obtain ⟨key, hkey⟩ := App.mem_taskList.1 (List.mem_filter.1 ht).1
    have hname : t.name = key := hfiled.task_name hkey
    exact ⟨t, hname ▸ hkey, rfl⟩

/-! ## What is answered -/

theorem App.Arrives.answers (h : app.Arrives) (hfiled : app.WellFiled) (limits : Limits) :
    app.Answers (analyze limits app).value := by
  cases hanswer : (analyze limits app).value with
  | ok a => exact .accepted a
  | error rejection =>
    cases rejection with
    | diagnostics found =>
      obtain ⟨-, rfl⟩ := analyze_eq_diagnostics_iff.1 hanswer
      exact h.answers_diagnostics hfiled
    | inconsistent fault =>
      obtain ⟨-, hhead⟩ := analyze_eq_inconsistent_iff.1 hanswer
      have hfirst := firstFault_head?_faults hfiled limits
      rw [hhead] at hfirst
      cases hfirst with
      | use hu => exact .undeclared _ _
      | spawn _ he =>
        obtain ⟨hmem, hstray⟩ := he.1
        obtain ⟨t, ht, hcore, hpriority⟩ := h _ hmem
        rcases hstray t ht with hne | hne
        · exact absurd hcore.symm hne
        · exact absurd hpriority.symm hne

/-- Whatever steps a blueprint has taken: once it is built, all spawns arrive, no finding about a
spawn is about its priority, and the analysis accepts the application, finds something, or names an
access to an undeclared resource. -/
theorem built_never_misrouted {count : UInt8} {steps : List Blueprint.Step}
    {outcomes : List (Option DeclarationError)} {b : Blueprint} {ledger : Ledger}
    (hrun : (ledger.settle ((Blueprint.ofCoreCount count).attemptAll steps)).1 =
      .ok (outcomes, b))
    (hbuild : b.build = .ok app) (limits : Limits) (later : Ledger) :
    app.Arrives ∧ (∀ d ∈ (Stages.run limits app).value.misspawns, d.outOfRange? = none) ∧
      ∃ answer, (later.settle (analyze limits app)).1 = .ok answer ∧ app.Answers answer := by
  have hempty : (Blueprint.ofCoreCount count).app.WellFiled := App.wellFiled_of_empty rfl rfl
  rw [Ledger.settle_attemptAll_blueprint hempty, Except.ok.injEq] at hrun
  have hfiled : b.app.WellFiled := by
    have hlast := Blueprint.filed_attemptAll hempty steps
    rwa [hrun] at hlast
  have harrives : app.Arrives := (Blueprint.holds_attemptAll hrun).arrives hbuild
  refine ⟨harrives, ?_, _, Ledger.settle_analyze later, ?_⟩
  · intro d hd
    have hspawns : (Stages.run limits app).value.misspawns =
        app.edges.flatMap (app.spawnFindings limits) := Topology.findings_eq limits app
    rw [hspawns] at hd
    obtain ⟨e, he, hde⟩ := List.mem_flatMap.1 hd
    exact harrives.outOfRange?_spawnFindings he d hde
  · exact harrives.answers (Blueprint.filed_build hfiled hbuild) limits

/-- The relay is built with spawns that arrive; with one priority and no slot, its second task is
told once that its own is out of range, for all that it is started at that priority twice. -/
theorem built_never_misrouted_relay : Relay.app.Arrives ∧
    Relay.app.Answers
      (.error (.diagnostics [.priorityOutOfRange "log" 2 1, .capacityZero "log" "poll"])) := by
  have hempty : (Blueprint.ofCoreCount 2).app.WellFiled := App.wellFiled_of_empty rfl rfl
  obtain ⟨harrives, -, answer, hsettle, hanswer⟩ := built_never_misrouted (b := Relay.blueprint)
    (Ledger.settle_attemptAll_blueprint hempty Relay.steps ∅) Relay.build_blueprint ⟨1, 0⟩ ∅
  have hfound : (analyze ⟨1, 0⟩ Relay.app).value =
      .error (.diagnostics [.priorityOutOfRange "log" 2 1, .capacityZero "log" "poll"]) :=
    analyze_eq_diagnostics_iff.2 ⟨by decide, by decide +kernel⟩
  rw [Ledger.settle_analyze, Except.ok.injEq, hfound] at hsettle
  rw [← hsettle] at hanswer
  exact ⟨harrives, hanswer⟩

end MulticoreTasks
