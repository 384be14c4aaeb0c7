import MulticoreTasks.Proofs.Verdict

/-!
# What an analysis leaves on a ledger

Which checks an analysis makes depends on how it ends and on nothing else, and none of them fails
(`checks_analyze`).  So the ledger after it tells how it ended:

* `recordedBy`        : the numbers that a verdict stands for;
* `Ledger.settle_eq`  : a run whose checks all hold adds their numbers, and nothing else;
* `analyze_recorded`  : an analysis always comes to its verdict, and adds the numbers of it.

Nothing is asked of the application: tasks may stand under other names than their own, two of them
may bear one name, and any of them may run on a core that is not declared.
-/

namespace MulticoreTasks

/-- The numbers of the checks that a verdict stands for. -/
def recordedBy : Except Rejection Analysis → List Nat
  | .error (.diagnostics _) => [3, 4, 5, 6, 7, 8, 9, 11]
  | .error (.inconsistent _) => [3, 4, 5, 6, 7, 8, 9, 10]
  | .ok _ => [3, 4, 5, 6, 7, 8, 9, 10, 12]

namespace Ledger

theorem foldl_insert (ledger : Ledger) (checks : List Check) :
    checks.foldl (fun l c => l.insert c.id) ledger =
      ledger ∪ SortedSet.ofList (checks.map Check.id) := by
  refine Std.ExtTreeSet.ext_mem fun id => ?_
  rw [Std.ExtTreeSet.mem_union_iff, SortedSet.mem_ofList, ← List.filterMap_eq_map]
  exact SortedSet.mem_foldl_insert (some ∘ Check.id) checks ledger id

/-- A run whose checks all hold gives its value and adds their numbers. -/
theorem settle_eq {α : Type} {ledger : Ledger} {a : Audited α}
    (h : ∀ c ∈ a.checks, c.holds = true) :
    ledger.settle a = (.ok a.value, ledger ∪ SortedSet.ofList (a.checks.map Check.id)) := by
  rw [settle_of_holds h, foldl_insert]

end Ledger

variable {limits : Limits} {app : App}

theorem map_id_checks_analyze :
    (analyze limits app).checks.map Check.id = recordedBy (analyze limits app).value := by
  rw [checks_analyze, List.map_map]
  match (analyze limits app).value with
  | .error (.diagnostics _) => rfl
  | .error (.inconsistent _) => rfl
  | .ok _ => rfl

/-- A ceiling is only ever taken over the accessors of a shared resource. -/
theorem mem_shared_of_mem_ceilings {sharing : Sharing} {r : ResourceName}
    (h : r ∈ app.ceilings sharing) : r ∈ sharing.shared := by
  obtain ⟨c, hc⟩ := Table.mem_iff_exists.1 h
  rw [App.getElem?_ceilings, Option.bind_eq_some_iff] at hc
  obtain ⟨names, hnames, -⟩ := hc
  exact Table.mem_iff_exists.2 ⟨names, hnames⟩

/-- Whatever the application and the limits, every check of an analysis holds, and every ceiling
that is checked finds its accessors; the analysis comes to its verdict, and the ledger afterwards is
the one before with the numbers of that verdict. -/
theorem analyze_recorded (limits : Limits) (app : App) (ledger : Ledger) :
    (∀ c ∈ (analyze limits app).checks, c.holds = true) ∧
    (∀ r ∈ (Stages.run limits app).value.ceilings,
      r ∈ (Stages.run limits app).value.sharing.shared) ∧
    ledger.settle (analyze limits app) =
      (.ok (analyze limits app).value,
        ledger ∪ SortedSet.ofList (recordedBy (analyze limits app).value)) := by
  refine ⟨holds_checks_analyze, ?_, ?_⟩
  · intro r hr
    rw [Stages.value_run] at hr ⊢
    exact mem_shared_of_mem_ceilings hr
  · rw [Ledger.settle_eq holds_checks_analyze, map_id_checks_analyze]

end MulticoreTasks
