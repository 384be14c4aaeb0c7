import MulticoreTasks.Proofs.Attempts
import MulticoreTasks.Proofs.Building

/-!
# The order of declarations

Declarations that all succeed can be made in any order:

* `App.declare_comm`      : two that succeed one after the other may change places;
* `App.Accepts.perm`      : so may any number of them, and the application is the same;
* `Blueprint.value_attemptAll_of_accepts` : a blueprint refuses no step when the bare entries of its
  steps are accepted, and then keeps what their drafts ask for;
* `build_order_irrelevant` : what it is built to does not depend on the order of its steps.

What is pending stands in the order of the steps, all senders mixed, so that two orders do not keep
the same.  They keep the same for each sender, whose drafts come once, and a target is looked up in
the application, which is the same.
-/

namespace MulticoreTasks

/-! ## Entries -/

namespace App

variable {app next last : App} {a b : Entry} {entries entries' : List Entry}

/-- A name stays free unless an entry of this kind takes it. -/
theorem isFree_insert_iff :
    (app.insert a).IsFree b.name b ↔ app.IsFree b.name b ∧ ¬ a.Rivals b := by
  cases a with
  | resource r =>
    cases b with
    | resource s =>
      show s.name ∉ app.resources.insert r.name r ↔ s.name ∉ app.resources ∧ ¬ r.name = s.name
      rw [Std.ExtTreeMap.mem_insert, Std.compare_eq_iff_eq, not_or, and_comm]
    | task u => exact (and_iff_left not_false).symm
  | task t =>
    cases b with
    | resource s => exact (and_iff_left not_false).symm
    | task u =>
      show u.name ∉ app.tasks.insert t.name t ↔ u.name ∉ app.tasks ∧ ¬ t.name = u.name
      rw [Std.ExtTreeMap.mem_insert, Std.compare_eq_iff_eq, not_or, and_comm]

/-- Of two declarations that succeed, either may come first. -/
theorem declare_comm (ha : (app.declare a).value = .ok next)
    (hb : (next.declare b).value = .ok last) :
    ∃ other, (app.declare b).value = .ok other ∧ (other.declare a).value = .ok last := by
  obtain ⟨hfreeA, hcoreA, rfl⟩ := declare_eq_ok_iff.1 ha
  obtain ⟨hfreeB, hcoreB, rfl⟩ := declare_eq_ok_iff.1 hb
  obtain ⟨hfreeB', hapart⟩ := isFree_insert_iff.1 hfreeB
  have hfreeA' : (app.insert b).IsFree a.name a :=
    isFree_insert_iff.2 ⟨hfreeA, fun h => hapart h.symm⟩
  rw [cores_insert] at hcoreB
  refine ⟨app.insert b, declare_eq_ok_iff.2 ⟨hfreeB', hcoreB, rfl⟩,
    declare_eq_ok_iff.2 ⟨hfreeA', ?_, ?_⟩⟩
  · rw [cores_insert]
    exact hcoreA
  · refine eq_of_holds (by simp only [cores_insert]) fun key d => ?_
    rw [holds_insert hfreeB, holds_insert hfreeA, holds_insert hfreeA', holds_insert hfreeB',
      or_right_comm]

/-- Entries that are accepted are accepted in any order, and come to the same. -/
theorem Accepts.perm (h : app.Accepts entries last) (hperm : entries.Perm entries') :
    app.Accepts entries' last := by
  induction hperm generalizing app with
  | nil => exact h
  | cons entry _ ih =>
    cases h with
    | cons hdeclare hrest => exact .cons hdeclare (ih hrest)
  | swap a b entries =>
    cases h with
    | cons hb hrest =>
      cases hrest with
      | cons ha hrest =>
        obtain ⟨other, ha', hb'⟩ := declare_comm hb ha
        exact .cons ha' (.cons hb' hrest)
  | trans _ _ ih ih' => exact ih' (ih h)

theorem Accepts.split (h : app.Accepts (entries ++ entries') last) :
    ∃ next, app.Accepts entries next ∧ next.Accepts entries' last := by
  induction entries generalizing app with
  | nil => exact ⟨app, .nil app, h⟩
  | cons entry entries ih =>
    cases h with
    | cons hdeclare hrest =>
      obtain ⟨next, hentries, hlater⟩ := ih hrest
      exact ⟨next, .cons hdeclare hentries, hlater⟩

/-- Only the spawns for stored tasks are attached. -/
theorem attach_congr {more more' : TaskName → List Spawn}
    (h : ∀ key ∈ app.tasks, more key = more' key) : app.attach more = app.attach more' := by
  refine eq_of_parts rfl rfl (Std.ExtTreeMap.ext_getElem? fun key => ?_)
  show (app.attach more).task? key = (app.attach more').task? key
  rw [task?_attach, task?_attach]
  cases ht : app.task? key with
  | none => rfl
  | some t => rw [h key (mem_tasks_iff.2 ⟨t, ht⟩)]

end App

/-! ## Steps -/

namespace Blueprint

variable {b b' last : Blueprint} {steps steps' : List Step}

theorem taken_of_none (steps : List Step) : taken steps (steps.map fun _ => none) = steps := by
  induction steps with
  | nil => rfl
  | cons s steps ih => exact congrArg (s :: ·) ih

/-- A step whose bare entry is accepted is taken. -/
theorem value_attempt_of_accepts {s : Step} {app : App}
    (h : b.app.Accepts s.bareEntry?.toList app) : (b.attempt s).value =
      (none, ⟨app, b.pending ++ (drafts [s]).flatMap TaskDraft.pending⟩) := by
  cases hentry : s.bareEntry? with
  | none =>
    rw [hentry] at h
    cases h
    cases s with
    | resource r => cases hentry
    | task d => cases hentry
    | discard d =>
      have hpending : (drafts [.discard d]).flatMap TaskDraft.pending = [] := rfl
      rw [hpending, List.append_nil]
      rfl
  | some entry =>
    rw [hentry] at h
    cases h with
    | cons hdeclare hrest =>
      cases hrest
      rw [value_attempt_of_entry hentry, App.value_attempt_of_ok hdeclare]

theorem filterMap_bareEntry?_cons (s : Step) (steps : List Step) :
    (s :: steps).filterMap Step.bareEntry? =
      s.bareEntry?.toList ++ steps.filterMap Step.bareEntry? := by
  cases s <;> rfl

/-- Steps whose bare entries are accepted are all taken. -/
theorem value_attemptAll_of_accepts {app : App}
    (h : b.app.Accepts (steps.filterMap Step.bareEntry?) app) : (b.attemptAll steps).value =
      (steps.map fun _ => none,
        ⟨app, b.pending ++ (drafts steps).flatMap TaskDraft.pending⟩) := by
  induction steps generalizing b with
  | nil =>
    cases h
    simp [attemptAll, drafts]
  | cons s steps ih =>
    rw [filterMap_bareEntry?_cons] at h
    obtain ⟨next, hone, hrest⟩ := h.split
    have hattempt := value_attempt_of_accepts hone
    simp only [attemptAll, Audited.value_bind, hattempt, ih (b := ⟨next, _⟩) hrest]
    rw [drafts_cons s steps, List.flatMap_append, List.append_assoc]
    rfl

/-- In another order, steps that are all taken leave the same application, and for each of its tasks
the same spawns. -/
theorem build_eq_ok_iff_of_perm {count : UInt8} (hperm : steps.Perm steps')
    (h : ((ofCoreCount count).attemptAll steps).value = (steps.map fun _ => none, b))
    (h' : ((ofCoreCount count).attemptAll steps').value = (steps'.map fun _ => none, b'))
    (happ : b'.app = b.app) {app : App} : b.build = .ok app ↔ b'.build = .ok app := by
  have hholds := holds_attemptAll h
  have hholds' := holds_attemptAll h'
  rw [taken_of_none] at hholds hholds'
  have hdrafts : (drafts steps).Perm (drafts steps') := hperm.filterMap _
  have hspawns : b.app.attach b.spawnsOf = b'.app.attach b'.spawnsOf := by
    rw [happ]
    refine App.attach_congr fun key hkey => ?_
    obtain ⟨d, hd, rfl⟩ := hholds.mem_tasks_iff.1 hkey
    rw [hholds.spawnsOf_eq hd, hholds'.spawnsOf_eq (hdrafts.mem_iff.1 hd), happ]
  simp only [hholds.build_eq_ok_iff, hholds'.build_eq_ok_iff, hspawns, List.mem_flatMap,
    hdrafts.mem_iff]

end Blueprint

/-- Steps that a blueprint takes without refusing any are taken in every other order too, and build
to the same application, with the spawns of each task in the same order, or to none; and so its
analysis gives the same answers under all limits. -/
theorem build_order_irrelevant {count : UInt8} {steps steps' : List Blueprint.Step}
    (hperm : steps.Perm steps') {b : Blueprint} {ledger : Ledger}
    (hrun : (ledger.settle ((Blueprint.ofCoreCount count).attemptAll steps)).1 =
      .ok (steps.map fun _ => none, b)) (later : Ledger) :
    ∃ b', (later.settle ((Blueprint.ofCoreCount count).attemptAll steps')).1 =
        .ok (steps'.map fun _ => none, b') ∧
      (∀ app, b.build = .ok app ↔ b'.build = .ok app) ∧
      ∀ limits answer,
        (∃ app, b.build = .ok app ∧ (later.settle (analyze limits app)).1 = .ok answer) ↔
          ∃ app, b'.build = .ok app ∧ (later.settle (analyze limits app)).1 = .ok answer := by
  have hempty : (Blueprint.ofCoreCount count).app.WellFiled := App.wellFiled_of_empty rfl rfl
  rw [Ledger.settle_attemptAll_blueprint hempty, Except.ok.injEq] at hrun
  have haccepts := (Blueprint.decided_attemptAll hrun).1.accepts
  rw [Blueprint.taken_of_none] at haccepts
  obtain ⟨b', hrun', happ⟩ : ∃ b' : Blueprint,
      ((Blueprint.ofCoreCount count).attemptAll steps').value = (steps'.map fun _ => none, b') ∧
        b'.app = b.app :=
    ⟨_, Blueprint.value_attemptAll_of_accepts (haccepts.perm (hperm.filterMap _)), rfl⟩
  have hbuild : ∀ app, b.build = .ok app ↔ b'.build = .ok app := fun _ =>
    Blueprint.build_eq_ok_iff_of_perm hperm hrun hrun' happ
  refine ⟨b', ?_, hbuild, ?_⟩
  · rw [Ledger.settle_attemptAll_blueprint hempty, hrun']
  · intro limits answer
    simp only [hbuild]

namespace Relay

/-- The relay by name, without a step that is refused. -/
def orderly : List Blueprint.Step :=
  [.resource bus, .task pollDraft, .discard ⟨"send", ⟨0⟩, 1, [.spawns "nobody" 1]⟩, .task logDraft]

end Relay

/-- Declared from the last to the first, with the bus after the tasks that access it and logging
before the task that starts it, the steps of the relay are taken and build to it. -/
theorem build_order_irrelevant_relay : ∃ b' : Blueprint,
    ((∅ : Ledger).settle ((Blueprint.ofCoreCount 2).attemptAll Relay.orderly.reverse)).1 =
        .ok (Relay.orderly.reverse.map fun _ => none, b') ∧
      b'.build = .ok Relay.app := by
  have hempty : (Blueprint.ofCoreCount 2).app.WellFiled := App.wellFiled_of_empty rfl rfl
  have hsame : ((Blueprint.ofCoreCount 2).attemptAll Relay.orderly).value =
      (Relay.orderly.map fun _ => none, Relay.blueprint) := by
    decide +kernel
  have hrun : ((∅ : Ledger).settle ((Blueprint.ofCoreCount 2).attemptAll Relay.orderly)).1 =
      .ok (Relay.orderly.map fun _ => none, Relay.blueprint) := by
    rw [Ledger.settle_attemptAll_blueprint hempty, hsame]
  obtain ⟨b', hrun', hbuild, -⟩ :=
    build_order_irrelevant (List.reverse_perm Relay.orderly).symm hrun ∅
  exact ⟨b', hrun', (hbuild _).1 Relay.build_blueprint⟩

end MulticoreTasks
