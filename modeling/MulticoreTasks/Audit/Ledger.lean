import MulticoreTasks.Audit.Check
import MulticoreTasks.Table

/-!
# The ledger of invariants that held

A ledger is the set of the numbers of the checks that were made and held.  A check that fails stops
the computation that made it and leaves no entry; the entries of the checks before it stay.  A
contract asks whether given numbers have all been recorded.

* `Violation`         : a failed check, or a contract with missing numbers, with its wording;
* `Ledger.assertAll`  : checks in order, up to the first that fails;
* `Ledger.settle`     : what an audited computation leaves: its value, or the violation that stopped
  it;
* `Ledger.Step`, `Ledger.run` : runs of clearing, asserting and asking for contracts.
-/

namespace MulticoreTasks

universe u

/-- Why a run was stopped: a check that failed, or a contract that was not met. -/
inductive Violation where
  | unheld (id : Nat) (claim : String) (context : Option String)
  | unenforced (contract : String) (missing : List Nat)
  deriving DecidableEq, Repr

/-- The wording of a violation. -/
def Violation.message : Violation → String
  | unheld id claim none => s!"Invariant {id} failed: {claim}"
  | unheld id claim (some context) => s!"Invariant {id} failed: {claim} (context: {context})"
  | unenforced contract missing =>
    s!"Contract test '{contract}' failed: invariants not enforced: " ++
      "[" ++ String.intercalate ", " (missing.map Nat.repr) ++ "]"

/-- The violation that a failed check stands for. -/
def Check.violation (c : Check) : Violation := .unheld c.id c.claim c.context

/-- The numbers of the invariants that were checked and held. -/
abbrev Ledger := SortedSet Nat

namespace Ledger

/-- Make checks in order: those that hold are recorded, the first that fails ends the run. -/
def assertAll : Ledger → List Check → Option Violation × Ledger
  | ledger, [] => (none, ledger)
  | ledger, c :: cs =>
    if c.holds then assertAll (ledger.insert c.id) cs else (some c.violation, ledger)

/-- What an audited computation leaves: its value if every check held, else the first violation. -/
def settle {α : Type u} (ledger : Ledger) (a : Audited α) : Except Violation α × Ledger :=
  match ledger.assertAll a.checks with
  | (none, after) => (.ok a.value, after)
  | (some violation, after) => (.error violation, after)

/-- The required numbers that are not recorded, in the order they are required, repeats kept. -/
def missing (ledger : Ledger) (required : List Nat) : List Nat :=
  required.filter fun id => !ledger.contains id

/-- Ask for a contract: a violation names every number that is missing. -/
def contract (ledger : Ledger) (name : String) (required : List Nat) : Option Violation :=
  match ledger.missing required with
  | [] => none
  | absent => some (.unenforced name absent)

/-! ## Runs -/

/-- What can be done with a ledger. -/
inductive Step where
  | clear
  | assert (check : Check)
  | contract (name : String) (required : List Nat)
  deriving DecidableEq, Repr

/-- The outcome of one step, `none` when it held, and the ledger after it. -/
def step (ledger : Ledger) : Step → Option Violation × Ledger
  | .clear => (none, ∅)
  | .assert check => ledger.assertAll [check]
  | .contract name required => (ledger.contract name required, ledger)

/-- The outcomes of a run, step by step, and the ledger after it. -/
def run : Ledger → List Step → List (Option Violation) × Ledger
  | ledger, [] => ([], ledger)
  | ledger, s :: rest =>
    let (outcome, after) := ledger.step s
    let (outcomes, last) := run after rest
    (outcome :: outcomes, last)

end Ledger

end MulticoreTasks
