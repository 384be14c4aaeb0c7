import MulticoreTasks.Proofs.Postconditions

/-!
# The verdict, opened

`analyze` runs the stages, judges their findings and then the faults of what they come to.  Here it
is taken apart once, for every later proof:

* `Stages.ofApp`, `Analysis.ofApp` : what the stages hand over, and what they come to, without their
  checks;
* `analyze_eq_ok_iff`, `analyze_eq_diagnostics_iff`, `analyze_eq_inconsistent_iff` : the three
  answers;
* `checks_analyze` : what is checked on the way to each of them, and that it holds;
* `Ledger.settle_analyze` : on a ledger too, with every check made, the answer is that one.
-/

namespace MulticoreTasks

/-- The outputs of the stages. -/
def Stages.ofApp (limits : Limits) (app : App) : Stages where
  sharing := .ofApp app
  ceilings := app.ceilings (.ofApp app)
  placement := .ofSharing app (.ofApp app)
  topology := .ofApp app
  timerQueues := app.timerQueues (slotBound limits app.freeQueues)
  unused := Sharing.findings app
  clashes := Ceilings.findings limits app (.ofApp app)
  misspawns := Topology.findings limits app app.freeQueues
  unslotted := TimerQueues.findings app (slotBound limits app.freeQueues)

/-- What the stages come to, whatever they found. -/
def Analysis.ofApp (limits : Limits) (app : App) : Analysis :=
  .ofStages app (.ofApp limits app)
    (.ofStart app (Stages.ofApp limits app).placement.lateResources
      (Stages.ofApp limits app).topology.channels.keys)

variable {limits : Limits} {app : App}

theorem Stages.value_run : (run limits app).value = ofApp limits app := rfl

/-! ## The three answers -/

theorem value_analyze_of_findings (h : (Stages.ofApp limits app).findings ≠ []) :
    (analyze limits app).value = .error (.diagnostics (Stages.ofApp limits app).findings) := by
  simp only [analyze, Audited.value_bind, Stages.value_run, Stages.judge]
  rfl

theorem value_analyze_of_clean (h : (Stages.ofApp limits app).findings = []) :
    (analyze limits app).value =
      match ((Analysis.ofApp limits app).faults app).head? with
      | some fault => .error (.inconsistent fault)
      | none => .ok (.ofApp limits app) := by
  simp only [analyze, Audited.value_bind, Stages.value_run, Stages.judge]
  split
  · simp only [Audited.value_bind]
    change (match ((Analysis.ofApp limits app).faults app).head? with
      | some fault => _
      | none => _ : Audited (Except Rejection Analysis)).value = _
    cases ((Analysis.ofApp limits app).faults app).head? <;> rfl
  · next hne => exact absurd h hne

theorem analyze_eq_diagnostics_iff {found : List Diagnostic} :
    (analyze limits app).value = .error (.diagnostics found) ↔
      found ≠ [] ∧ found = (Stages.ofApp limits app).findings := by
  by_cases h : (Stages.ofApp limits app).findings = []
  · rw [value_analyze_of_clean h, h]
    constructor
    · intro hsome
      split at hsome <;> simp at hsome
    · rintro ⟨hne, hnil⟩
      exact absurd hnil hne
  · rw [value_analyze_of_findings h, Except.error.injEq, Rejection.diagnostics.injEq]
    constructor
    · rintro rfl
      exact ⟨h, rfl⟩
    · rintro ⟨-, rfl⟩
      rfl

theorem analyze_eq_inconsistent_iff {fault : Inconsistency} :
    (analyze limits app).value = .error (.inconsistent fault) ↔
      (Stages.ofApp limits app).findings = [] ∧
        ((Analysis.ofApp limits app).faults app).head? = some fault := by
  by_cases h : (Stages.ofApp limits app).findings = []
  · rw [value_analyze_of_clean h]
    split
    · next other hother => simp [h, hother]
    · next hnone => simp [hnone]
  · rw [value_analyze_of_findings h]
    simp [h]

theorem analyze_eq_ok_iff {a : Analysis} :
    (analyze limits app).value = .ok a ↔ (Stages.ofApp limits app).findings = [] ∧
      (Analysis.ofApp limits app).faults app = [] ∧ a = .ofApp limits app := by
  by_cases h : (Stages.ofApp limits app).findings = []
  · rw [value_analyze_of_clean h]
    split
    · next fault hfault =>
      have hne : (Analysis.ofApp limits app).faults app ≠ [] := by
        intro hnil
        simp [hnil] at hfault
      simp [hne]
    · next hnone =>
      rw [List.head?_eq_none_iff] at hnone
      simp only [h, hnone, true_and, Except.ok.injEq]
      exact ⟨Eq.symm, Eq.symm⟩
  · rw [value_analyze_of_findings h]
    simp [h]

/-! ## Its checks -/

/-- What the stages check, in their order. -/
def Stages.invariants : List Invariant :=
  [.sharingPartition, .ceilingTight, .locationUnique, .crossCoreObligation, .channelPartition,
    .freeQueueDeclared, .timerQueueBounded]

/-- What is checked once the stages are done, by the verdict that is come to. -/
def closingInvariants : Except Rejection Analysis → List Invariant
  | .error (.diagnostics _) => [.diagnosticsBatched]
  | .error (.inconsistent _) => [.waitsCoalesced]
  | .ok _ => [.waitsCoalesced, .analysisConsistent]

theorem Stages.checks_run : (run limits app).checks = invariants.map (·.check true) := by
  have hqueues := decide_eq_true
    (TimerQueues.isBounded app (slotBound limits (Topology.ofApp app).freeQueues))
  simp only [run, Sharing.checked, Ceilings.checked, Placement.checked, Topology.checked,
    TimerQueues.checked, Audited.checks_bind, Audited.value_bind, Audited.checks_ensure,
    Audited.checks_pure, Audited.value_pure, Sharing.isPartition, Ceilings.isTight,
    Placement.isUnique, Placement.isObliged, Topology.isPartition, Topology.isDeclared, decide_true,
    hqueues]
  rfl

theorem Stages.checks_judge (s : Stages) :
    (s.judge app).checks = (closingInvariants (s.judge app).value).map (·.check true) := by
  unfold judge
  split
  · simp only [Stages.waits, Waits.checked, Audited.checks_bind, Audited.checks_ensure,
      Audited.value_bind, Audited.value_pure, Audited.checks_pure, Waits.areCoalesced, decide_true,
      List.append_nil]
    split <;> rfl
  · next hne =>
    rw [decide_eq_true (show s.findings ≠ [] from hne)]
    rfl

/-- The checks of an analysis: those of the stages, those that its verdict calls for, and all of
them hold. -/
theorem checks_analyze : (analyze limits app).checks =
    (Stages.invariants ++ closingInvariants (analyze limits app).value).map (·.check true) := by
  rw [analyze, Audited.checks_bind, Audited.value_bind, Stages.checks_run, Stages.checks_judge,
    List.map_append]

theorem holds_of_checks_eq {checks : List Check} {invariants : List Invariant}
    (h : checks = invariants.map (·.check true)) : ∀ c ∈ checks, c.holds = true := by
  intro c hc
  rw [h] at hc
  obtain ⟨i, -, rfl⟩ := List.mem_map.1 hc
  rfl

/-- No check fails in an analysis. -/
theorem holds_checks_analyze : ∀ c ∈ (analyze limits app).checks, c.holds = true :=
  holds_of_checks_eq checks_analyze

/-! ## On a ledger -/

namespace Ledger

theorem assertAll_of_holds {ledger : Ledger} {checks : List Check}
    (h : ∀ c ∈ checks, c.holds = true) :
    ledger.assertAll checks = (none, checks.foldl (fun l c => l.insert c.id) ledger) := by
  induction checks generalizing ledger with
  | nil => rfl
  | cons c checks ih =>
    rw [assertAll, if_pos (h c (List.mem_cons_self ..)),
      ih fun d hd => h d (List.mem_cons_of_mem _ hd)]
    rfl

theorem settle_of_holds {α : Type} {ledger : Ledger} {a : Audited α}
    (h : ∀ c ∈ a.checks, c.holds = true) :
    ledger.settle a = (.ok a.value, a.checks.foldl (fun l c => l.insert c.id) ledger) := by
  rw [settle, assertAll_of_holds h]

theorem settle_of_checks_eq {α : Type} {ledger : Ledger} {a : Audited α}
    {invariants : List Invariant} (h : a.checks = invariants.map (·.check true)) :
    (ledger.settle a).1 = .ok a.value := by
  rw [settle_of_holds (holds_of_checks_eq h)]

/-- With every check made, an analysis still gives its verdict. -/
theorem settle_analyze (ledger : Ledger) :
    (ledger.settle (analyze limits app)).1 = .ok (analyze limits app).value :=
  settle_of_checks_eq checks_analyze

end Ledger

theorem Relay.accepted (ledger : Ledger) : (ledger.settle (analyze .default Relay.app)).1 =
    .ok (.ok (.ofApp .default Relay.app)) := by
  rw [Ledger.settle_analyze, Except.ok.injEq]
  exact analyze_eq_ok_iff.2 ⟨by decide +kernel, by decide +kernel, rfl⟩

end MulticoreTasks
