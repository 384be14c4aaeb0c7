import MulticoreTasks.Proofs.Reachable
import MulticoreTasks.Proofs.Verdict

/-!
# Declaring entries one after the other

* `App.Accepts`               : the entries are declared in turn and none of them is refused;
* `Accepts.value_attemptAll`  : trying them comes to the same application;
* `Accepts.task?_eq_some_iff` : the tasks that are then filed, no two of them under one name
  (`Accepts.nodup_names`);
* `Ledger.settle_attemptAll`, `Ledger.settle_attemptAll_blueprint` : whatever is tried, accepted or
  refused, no check stops it.

What `declare` asks for is in `addResource_eq_ok_iff` and `addTask_eq_ok_iff`; the lemmas here carry
one declaration over to a run of them, by induction on the run.
-/

namespace MulticoreTasks

namespace App

/-- Declared one after the other, the entries extend the application, and none is refused. -/
inductive Accepts : App → List Entry → App → Prop
  | nil (app : App) : Accepts app [] app
  | cons {app next last : App} {entry : Entry} {entries : List Entry} :
      (app.declare entry).value = .ok next → Accepts next entries last →
        Accepts app (entry :: entries) last

variable {app next last : App} {entry : Entry} {entries : List Entry}

theorem value_attempt_of_ok (h : (app.declare entry).value = .ok next) :
    (app.attempt entry).value = (none, next) := by
  rw [value_attempt, h]

theorem Accepts.value_attemptAll (h : Accepts app entries last) :
    (app.attemptAll entries).value = (entries.map fun _ => none, last) := by
  induction h with
  | nil app => rfl
  | cons hdeclare hrest ih =>
    rw [attemptAll, Audited.value_bind, value_attempt_of_ok hdeclare]
    simp only [Audited.value_bind, ih]
    rfl

/-! ## What is filed then -/

theorem task?_of_declare {key : TaskName} {t : Task} (h : (app.declare entry).value = .ok next) :
    next.task? key = some t ↔ app.task? key = some t ∨ entry = .task t ∧ t.name = key := by
  cases entry with
  | resource r =>
    obtain ⟨-, -, rfl⟩ := addResource_eq_ok_iff.1 h
    simp [insertResource, task?]
  | task u =>
    obtain ⟨hfree, -, rfl⟩ := addTask_eq_ok_iff.1 h
    rw [task?_insertTask, Entry.task.injEq]
    by_cases hname : u.name = key
    · have hnone : app.task? key = none := by
        rw [← hname]
        exact Std.ExtTreeMap.getElem?_eq_none hfree
      rw [if_pos hname, hnone, Option.some.injEq]
      constructor
      · rintro rfl
        exact Or.inr ⟨rfl, hname⟩
      · rintro (hsome | ⟨hsame, -⟩)
        · cases hsome
        · exact hsame
    · rw [if_neg hname]
      constructor
      · exact Or.inl
      · rintro (hsome | ⟨rfl, hkey⟩)
        · exact hsome
        · exact absurd hkey hname

theorem Accepts.task?_eq_some_iff (h : Accepts app entries last) {key : TaskName} {t : Task} :
    last.task? key = some t ↔ app.task? key = some t ∨ .task t ∈ entries ∧ t.name = key := by
  induction h with
  | nil app => simp
  | cons hdeclare hrest ih =>
    rw [ih, task?_of_declare hdeclare, List.mem_cons, or_and_right, or_assoc]
    simp only [eq_comm]

/-- The tasks among some entries. -/
def tasksOf (entries : List Entry) : List Task :=
  entries.filterMap fun
    | .resource _ => none
    | .task t => some t

theorem mem_tasksOf {t : Task} : t ∈ tasksOf entries ↔ .task t ∈ entries := by
  rw [tasksOf, List.mem_filterMap]
  constructor
  · rintro ⟨entry, hentry, hsome⟩
    cases entry with
    | resource r => cases hsome
    | task u =>
      cases hsome
      exact hentry
  · intro hentry
    exact ⟨_, hentry, rfl⟩

/-- A name that is filed is not taken by an entry that is accepted later. -/
theorem Accepts.name_free (h : Accepts app entries last) {t : Task} (ht : .task t ∈ entries) :
    t.name ∉ app.tasks := by
  induction h with
  | nil app => cases ht
  | @cons app next last entry entries hdeclare hrest ih =>
    rcases List.mem_cons.1 ht with rfl | hlater
    · exact (addTask_eq_ok_iff.1 hdeclare).1
    · intro hmem
      obtain ⟨u, hu⟩ := Table.mem_iff_exists.1 hmem
      have hkept : next.task? t.name = some u := (task?_of_declare hdeclare).2 (Or.inl hu)
      exact ih hlater (Table.mem_iff_exists.2 ⟨u, hkept⟩)

/-- No two tasks that are accepted bear one name. -/
theorem Accepts.nodup_names (h : Accepts app entries last) :
    ((tasksOf entries).map Task.name).Nodup := by
  induction h with
  | nil app => exact List.nodup_nil
  | @cons app next last entry entries hdeclare hrest ih =>
    cases entry with
    | resource r => exact ih
    | task t =>
      refine List.nodup_cons.2 ⟨?_, ih⟩
      intro hmem
      obtain ⟨u, hu, hname⟩ := List.mem_map.1 hmem
      have hfiled : next.task? t.name = some t :=
        (task?_of_declare hdeclare).2 (Or.inr ⟨rfl, rfl⟩)
      refine hrest.name_free (mem_tasksOf.1 hu) ?_
      rw [hname]
      exact Table.mem_iff_exists.2 ⟨t, hfiled⟩

/-! ## Checks -/

theorem WellFiled.isLegal (h : app.WellFiled) : app.IsLegal := by
  intro t ht
  obtain ⟨key, hkey⟩ := mem_taskList.1 ht
  exact h.task_core hkey

theorem holds_checks_tryResource {r : Resource} :
    ∀ c ∈ (app.tryResource r).checks, c.holds = true := by
  unfold tryResource
  split
  · simp
  · split
    · simp
    · next core hundeclared =>
      have hcore := (Option.filter_eq_some_iff.1 hundeclared).2
      simpa using hcore

theorem WellFiled.holds_checks_tryTask (h : app.WellFiled) {t : Task} :
    ∀ c ∈ (app.tryTask t).checks, c.holds = true := by
  unfold App.tryTask
  split
  · simp
  · split
    · next hcore => simpa using hcore
    · next hcore =>
      have hlegal := (h.insertTask (Classical.not_not.1 hcore)).isLegal
      simpa using hlegal

theorem WellFiled.holds_checks_attempt (h : app.WellFiled) :
    ∀ c ∈ (app.attempt entry).checks, c.holds = true := by
  cases entry with
  | resource r => exact holds_checks_tryResource
  | task t => exact h.holds_checks_tryTask

/-- Declaring an entry makes the checks of trying it. -/
theorem checks_declare : (app.declare entry).checks = (app.attempt entry).checks := by
  cases entry with
  | resource r => exact Audited.checks_map unlessRefused (app.tryResource r)
  | task t => exact Audited.checks_map unlessRefused (app.tryTask t)

theorem WellFiled.holds_checks_declare (h : app.WellFiled) :
    ∀ c ∈ (app.declare entry).checks, c.holds = true := by
  rw [checks_declare]
  exact h.holds_checks_attempt

theorem WellFiled.holds_checks_attemptAll (h : app.WellFiled) :
    ∀ c ∈ (app.attemptAll entries).checks, c.holds = true := by
  induction entries generalizing app with
  | nil => simp [attemptAll]
  | cons entry entries ih =>
    simp only [attemptAll, Audited.checks_bind, Audited.checks_pure, List.append_nil,
      List.mem_append]
    rintro c (hc | hc)
    · exact h.holds_checks_attempt c hc
    · exact ih (h.attempt entry) c hc

end App

namespace Blueprint

variable {b : Blueprint} {s : Step}

theorem checks_tryTask {d : TaskDraft} : (b.tryTask d).checks = (b.app.tryTask d.task).checks := by
  rw [tryTask, Audited.checks_bind]
  rcases (b.app.tryTask d.task).value with ⟨_ | refusal, app⟩ <;> exact List.append_nil _

theorem holds_checks_attempt (h : b.app.WellFiled) :
    ∀ c ∈ (b.attempt s).checks, c.holds = true := by
  cases s with
  | resource r =>
    show ∀ c ∈ (b.tryResource r).checks, _
    rw [tryResource, Audited.checks_bind, Audited.checks_pure, List.append_nil]
    exact App.holds_checks_tryResource
  | task d =>
    show ∀ c ∈ (b.tryTask d).checks, _
    rw [checks_tryTask]
    exact h.holds_checks_tryTask
  | discard d => simp [attempt]

theorem holds_checks_attemptAll (h : b.app.WellFiled) {steps : List Step} :
    ∀ c ∈ (b.attemptAll steps).checks, c.holds = true := by
  induction steps generalizing b with
  | nil => simp [attemptAll]
  | cons s steps ih =>
    simp only [attemptAll, Audited.checks_bind, Audited.checks_pure, List.append_nil,
      List.mem_append]
    rintro c (hc | hc)
    · exact holds_checks_attempt h c hc
    · exact ih (filed_attempt h s) c hc

end Blueprint

namespace Ledger

/-- Trying entries on a ledger comes to what it comes to without one. -/
theorem settle_attemptAll {app : App} (h : app.WellFiled) (entries : List Entry) (ledger : Ledger) :
    (ledger.settle (app.attemptAll entries)).1 = .ok (app.attemptAll entries).value := by
  rw [settle_of_holds h.holds_checks_attemptAll]

/-- So does trying the steps of a blueprint. -/
theorem settle_attemptAll_blueprint {b : Blueprint} (h : b.app.WellFiled)
    (steps : List Blueprint.Step) (ledger : Ledger) :
    (ledger.settle (b.attemptAll steps)).1 = .ok (b.attemptAll steps).value := by
  rw [settle_of_holds (Blueprint.holds_checks_attemptAll h)]

end Ledger

end MulticoreTasks
