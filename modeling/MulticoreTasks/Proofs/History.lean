import MulticoreTasks.Audit.Ledger

/-!
# What a ledger tells of its run

The steps of a run are told apart by what they do to the ledger: clearing empties it, a check that
holds enters its number, and nothing else changes it.  So what stands in it after a run is read off
the steps alone, and with it the answer to every step.

* `Ledger.Enforced`              : a number was checked and held, and the ledger was not cleared
  since;
* `Ledger.mem_step`, `Ledger.mem_run` : what one step leaves in the ledger, and what a run does;
* `Ledger.IsAnswer`              : the outcome of a step, by the steps before it;
* `run_answers_history`          : every step of a run gets this outcome, and those that change
  nothing might as well not have been made.
-/

namespace MulticoreTasks

namespace Ledger

/-! ## Steps -/

namespace Step

/-- A check of the number, and it holds. -/
def Enforces (id : Nat) (s : Step) : Prop :=
  ∃ check, s = .assert check ∧ check.id = id ∧ check.holds = true

/-- The step is a check that fails, or asks for a contract. -/
def IsIdle : Step → Prop
  | .clear => False
  | .assert check => check.holds = false
  | .contract _ _ => True

end Step

variable {ledger : Ledger} {s : Step} {steps : List Step} {id : Nat}

theorem step_assert (ledger : Ledger) (check : Check) : ledger.step (.assert check) =
    if check.holds then (none, ledger.insert check.id) else (some check.violation, ledger) := by
  rw [step, assertAll]
  rfl

theorem step_of_isIdle (h : s.IsIdle) : (ledger.step s).2 = ledger := by
  cases s with
  | clear => cases h
  | assert check =>
    rw [Step.IsIdle] at h
    rw [step_assert, h]
    rfl
  | contract name required => rfl

/-- What one step leaves in the ledger. -/
theorem mem_step : id ∈ (ledger.step s).2 ↔ (id ∈ ledger ∧ s ≠ .clear) ∨ s.Enforces id := by
  cases s with
  | clear => simp [step, Step.Enforces]
  | assert check =>
    rw [step_assert]
    by_cases hholds : check.holds = true
    · simp [hholds, Step.Enforces, or_comm]
    · simp [hholds, Step.Enforces]
  | contract name required => simp [step, Step.Enforces]

/-! ## Runs -/

/-- The number was checked and held, and the ledger was not cleared since. -/
def Enforced (steps : List Step) (id : Nat) : Prop :=
  ∃ earlier s later, steps = earlier ++ s :: later ∧ s.Enforces id ∧ .clear ∉ later

theorem enforced_nil : ¬ Enforced [] id := by
  rintro ⟨earlier, s, later, heq, -, -⟩
  exact absurd heq (by simp)

theorem enforced_cons :
    Enforced (s :: steps) id ↔ (s.Enforces id ∧ .clear ∉ steps) ∨ Enforced steps id := by
  constructor
  · rintro ⟨earlier, t, later, heq, henforces, hclear⟩
    cases earlier with
    | nil =>
      obtain ⟨rfl, rfl⟩ := List.cons.inj heq
      exact Or.inl ⟨henforces, hclear⟩
    | cons first earlier =>
      obtain ⟨-, rfl⟩ := List.cons.inj heq
      exact Or.inr ⟨earlier, t, later, rfl, henforces, hclear⟩
  · rintro (⟨henforces, hclear⟩ | ⟨earlier, t, later, rfl, henforces, hclear⟩)
    · exact ⟨[], s, steps, rfl, henforces, hclear⟩
    · exact ⟨s :: earlier, t, later, rfl, henforces, hclear⟩

theorem run_cons (ledger : Ledger) (s : Step) (steps : List Step) : ledger.run (s :: steps) =
    ((ledger.step s).1 :: ((ledger.step s).2.run steps).1, ((ledger.step s).2.run steps).2) := rfl

theorem run_append (ledger : Ledger) (before after : List Step) : ledger.run (before ++ after) =
    ((ledger.run before).1 ++ ((ledger.run before).2.run after).1,
      ((ledger.run before).2.run after).2) := by
  induction before generalizing ledger with
  | nil => rfl
  | cons s before ih => rw [List.cons_append, run_cons, ih, run_cons, List.cons_append]

theorem length_run (ledger : Ledger) (steps : List Step) :
    (ledger.run steps).1.length = steps.length := by
  induction steps generalizing ledger with
  | nil => rfl
  | cons s steps ih => rw [run_cons, List.length_cons, ih, List.length_cons]

/-- What a run leaves in the ledger. -/
theorem mem_run :
    id ∈ (ledger.run steps).2 ↔ (id ∈ ledger ∧ .clear ∉ steps) ∨ Enforced steps id := by
  induction steps generalizing ledger with
  | nil => simp [run, enforced_nil]
  | cons s steps ih =>
    rw [run_cons, ih, mem_step, enforced_cons, List.mem_cons, not_or, or_and_right, and_assoc,
      or_assoc, ne_comm]

theorem mem_run_empty : id ∈ (run ∅ steps).2 ↔ Enforced steps id := by
  rw [mem_run, or_iff_right]
  rintro ⟨hmem, -⟩
  exact Std.ExtTreeSet.not_mem_empty hmem

instance (steps : List Step) : DecidablePred (Enforced steps) :=
  fun _ => decidable_of_iff _ mem_run_empty

/-! ## Outcomes -/

/-- The outcome of a step, by the steps before it: clearing succeeds, a check fails if it does not
hold, and a contract is not met if some of its numbers were not enforced, each of which is named as
often as it is asked for, and in that order. -/
def IsAnswer (before : List Step) : Step → Option Violation → Prop
  | .clear, outcome => outcome = none
  | .assert check, outcome =>
    (outcome ≠ none ↔ check.holds = false) ∧
      ∀ violation ∈ outcome, violation = .unheld check.id check.claim check.context
  | .contract name required, outcome =>
    (outcome = none ↔ ∀ id ∈ required, Enforced before id) ∧
      ∀ violation ∈ outcome, violation =
        .unenforced name (required.filter fun id => ¬ Enforced before id)

theorem missing_run (steps : List Step) (required : List Nat) : (run ∅ steps).2.missing required =
    required.filter fun id => ¬ Enforced steps id := by
  refine List.filter_congr fun id _ => ?_
  rw [Bool.eq_iff_iff, decide_eq_true_iff, ← mem_run_empty, Bool.not_eq_true',
    ← Bool.not_eq_true, Std.ExtTreeSet.contains_iff_mem]

theorem contract_eq (ledger : Ledger) (name : String) (required : List Nat) :
    ledger.contract name required =
      if ledger.missing required = [] then none
      else some (.unenforced name (ledger.missing required)) := by
  unfold contract
  cases ledger.missing required <;> rfl

/-- After a run from the empty ledger the next step gets its answer. -/
theorem isAnswer_step (before : List Step) (s : Step) :
    IsAnswer before s ((run ∅ before).2.step s).1 := by
  cases s with
  | clear => rfl
  | assert check =>
    rw [step_assert, IsAnswer]
    cases check.holds <;> simp [Check.violation]
  | contract name required =>
    rw [step, IsAnswer, contract_eq, missing_run]
    have hmet : required.filter (fun id => ¬ Enforced before id) = [] ↔
        ∀ id ∈ required, Enforced before id := by
      simp [List.filter_eq_nil_iff]
    split
    · next hnil => exact ⟨iff_of_true rfl (hmet.1 hnil), by simp⟩
    · next hmissing =>
      refine ⟨iff_of_false (by simp) fun hall => hmissing (hmet.2 hall), ?_⟩
      rintro violation ⟨⟩
      rfl

end Ledger

/-- Every step of a run from the empty ledger gets the outcome that the steps before it call for.
To leave out a step that is idle changes no other outcome, nor the ledger at the end. -/
theorem run_answers_history (before : List Ledger.Step) (s : Ledger.Step)
    (after : List Ledger.Step) :
    ∃ outcome rest,
      ((∅ : Ledger).run (before ++ s :: after)).1 =
        ((∅ : Ledger).run before).1 ++ outcome :: rest ∧
      ((∅ : Ledger).run before).1.length = before.length ∧ rest.length = after.length ∧
      Ledger.IsAnswer before s outcome ∧
      (s.IsIdle → (∅ : Ledger).run (before ++ after) =
        (((∅ : Ledger).run before).1 ++ rest, ((∅ : Ledger).run (before ++ s :: after)).2)) := by
  let stepped := ((∅ : Ledger).run before).2.step s
  refine ⟨stepped.1, (stepped.2.run after).1, ?_, Ledger.length_run _ _, Ledger.length_run _ _,
    Ledger.isAnswer_step before s, fun hidle => ?_⟩
  · rw [Ledger.run_append, Ledger.run_cons]
  · rw [Ledger.run_append, Ledger.run_append, Ledger.run_cons, Ledger.step_of_isIdle hidle]

namespace Relay

/-- Two checks hold and one does not. -/
def audited : List Ledger.Step :=
  [.assert (Invariant.sharingPartition.check true), .assert (Invariant.locationUnique.check false),
    .assert (Invariant.ceilingTight.check true)]

end Relay

/-- A contract names the number of the failed check as often as it is asked for; without it, the
steps after it come out the same. -/
theorem run_answers_history_relay :
    ∃ rest, ((∅ : Ledger).run (Relay.audited ++
        .contract "placed" [5, 3, 5] :: [.clear, .contract "shared" [3]])).1 =
      ((∅ : Ledger).run Relay.audited).1 ++ some (.unenforced "placed" [5, 5]) :: rest ∧
      ((∅ : Ledger).run (Relay.audited ++ [.clear, .contract "shared" [3]])).1 =
        ((∅ : Ledger).run Relay.audited).1 ++ rest := by
  obtain ⟨outcome, rest, hrun, -, -, ⟨hmet, hnamed⟩, hidle⟩ :=
    run_answers_history Relay.audited (.contract "placed" [5, 3, 5])
      [.clear, .contract "shared" [3]]
  have hunmet : ¬ ∀ id ∈ [5, 3, 5], Ledger.Enforced Relay.audited id := by decide +kernel
  have hmissing : [5, 3, 5].filter (fun id => ¬ Ledger.Enforced Relay.audited id) = [5, 5] := by
    decide +kernel
  obtain ⟨violation, hviolation⟩ := Option.ne_none_iff_exists'.1 fun hnone => hunmet (hmet.1 hnone)
  rw [hnamed violation hviolation, hmissing] at hviolation
  refine ⟨rest, ?_, ?_⟩
  · rw [hrun, hviolation]
  · rw [hidle trivial]

end MulticoreTasks
