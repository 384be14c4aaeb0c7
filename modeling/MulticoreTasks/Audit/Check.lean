/-!
# Checks that a computation makes on its own result

Every stage of the analysis ends by checking what it has produced.  A check is data, not an effect:
a stage returns its value together with the checks it made, in order, and who runs the stage decides
what becomes of them (`Audit/Ledger.lean`).

* `Invariant` : what is checked, with its number, its wording and the stage that checks it;
* `Check`     : one check made, with whether it held;
* `Audited α` : a value together with the checks made on the way to it.
-/

namespace MulticoreTasks

universe u v

/-- One check made: its number, whether it held, and how it reads when it did not. -/
structure Check where
  id : Nat
  holds : Bool
  claim : String
  context : Option String := none
  deriving DecidableEq, Repr

/-- The properties that the library checks on its own results. -/
inductive Invariant where
  /-- Every stored task runs on a declared core. -/
  | appLegal
  /-- A resource initialised by an undeclared core was refused. -/
  | resourceRefused
  /-- A task on an undeclared core was refused. -/
  | taskRefused
  /-- The declared resources split into exclusive, shared and unused ones. -/
  | sharingPartition
  /-- A ceiling is attained and not exceeded. -/
  | ceilingTight
  /-- A used resource lives in one place. -/
  | locationUnique
  /-- A type used from several cores carries an obligation. -/
  | crossCoreObligation
  /-- A spawn edge runs through one channel. -/
  | channelPartition
  /-- The size of a free queue was declared. -/
  | freeQueueDeclared
  /-- A timer queue has as many slots as its entries need. -/
  | timerQueueBounded
  /-- No core waits for itself, or for nothing. -/
  | waitsCoalesced
  /-- Rejected applications are told all that is wrong with them. -/
  | diagnosticsBatched
  /-- An accepted analysis has no inconsistency. -/
  | analysisConsistent
  deriving DecidableEq, Repr

namespace Invariant

/-- The number under which an invariant is recorded; the two refusals share theirs. -/
def id : Invariant → Nat
  | appLegal => 1
  | resourceRefused => 2
  | taskRefused => 2
  | sharingPartition => 3
  | ceilingTight => 4
  | locationUnique => 5
  | crossCoreObligation => 6
  | channelPartition => 7
  | freeQueueDeclared => 8
  | timerQueueBounded => 9
  | waitsCoalesced => 10
  | diagnosticsBatched => 11
  | analysisConsistent => 12

/-- The wording of an invariant. -/
def claim : Invariant → String
  | appLegal => "Task added, every task runs on a declared core"
  | resourceRefused => "Late-init core not declared, rejecting"
  | taskRefused => "Task core not declared, rejecting"
  | sharingPartition => "Every declared resource is exclusive, shared or unused, exactly once"
  | ceilingTight => "Every ceiling is the maximum accessor priority"
  | locationUnique => "Every used resource has exactly one location"
  | crossCoreObligation => "Every cross-core resource type carries a Send or Sync obligation"
  | channelPartition => "Every spawn edge belongs to exactly one channel"
  | freeQueueDeclared => "Every free queue capacity is a declared capacity"
  | timerQueueBounded => "Every timer queue is non-empty and sized to its entries"
  | waitsCoalesced => "Barriers are coalesced per waiting core and never self-referential"
  | diagnosticsBatched => "Diagnostics are reported as one batch"
  | analysisConsistent => "Analysis passed every consistency check"

/-- The stage that checks an invariant, as a failure names it. -/
def context : Invariant → String
  | appLegal => "add_task"
  | resourceRefused => "add_resource"
  | taskRefused => "add_task"
  | sharingPartition => "ownership::resolve"
  | ceilingTight => "ceiling::compute"
  | locationUnique => "location::assign"
  | crossCoreObligation => "location::assign"
  | channelPartition => "channel::build"
  | freeQueueDeclared => "channel::build"
  | timerQueueBounded => "timer_queue::build"
  | waitsCoalesced => "barrier::synthesize"
  | diagnosticsBatched => "Analysis::compile"
  | analysisConsistent => "Analysis::compile"

/-- The check of an invariant that came out as `holds`. -/
def check (invariant : Invariant) (holds : Bool) : Check :=
  ⟨invariant.id, holds, invariant.claim, some invariant.context⟩

@[simp] theorem check_holds (i : Invariant) (b : Bool) : (i.check b).holds = b := rfl

@[simp] theorem check_id (i : Invariant) (b : Bool) : (i.check b).id = i.id := rfl

end Invariant

/-! ## Audited computations -/

/-- A value together with the checks made on the way to it, first one first. -/
structure Audited (α : Type u) where
  value : α
  checks : List Check := []

namespace Audited

variable {α : Type u} {β : Type v}

instance : Monad Audited where
  pure a := ⟨a, []⟩
  bind a f := ⟨(f a.value).value, a.checks ++ (f a.value).checks⟩

instance : LawfulMonad Audited := LawfulMonad.mk' Audited
  (by intro α x; cases x; simp [Functor.map])
  (by intro α β a f; simp [Bind.bind, Pure.pure])
  (by intro α β γ a f g; simp [Bind.bind])

/-- The computation that only checks an invariant. -/
def ensure (invariant : Invariant) (holds : Bool) : Audited PUnit :=
  ⟨⟨⟩, [invariant.check holds]⟩

@[simp] theorem value_pure (a : α) : (pure a : Audited α).value = a := rfl

@[simp] theorem checks_pure (a : α) : (pure a : Audited α).checks = [] := rfl

@[simp] theorem value_bind {α β : Type u} (a : Audited α) (f : α → Audited β) :
    (a >>= f).value = (f a.value).value := rfl

@[simp] theorem checks_bind {α β : Type u} (a : Audited α) (f : α → Audited β) :
    (a >>= f).checks = a.checks ++ (f a.value).checks := rfl

@[simp] theorem value_map {α β : Type u} (f : α → β) (a : Audited α) :
    (f <$> a).value = f a.value := rfl

@[simp] theorem checks_map {α β : Type u} (f : α → β) (a : Audited α) :
    (f <$> a).checks = a.checks := List.append_nil _

@[simp] theorem checks_ensure (i : Invariant) (b : Bool) : (ensure i b).checks = [i.check b] := rfl

end Audited

end MulticoreTasks
