import Mathlib.Order.Bounds.Defs
import MulticoreTasks.Proofs.Gathering
import MulticoreTasks.Proofs.TimerQueues

/-!
# Timer queues over given free queues

The timer queues of any application, in order or not, when free queues are given, its own or others:

* `Edge.Asks`       : the slots that a delayed spawn asks for, case by case;
* `App.Schedules`   : a delayed spawn from a core takes so many slots, and not none;
* `TimerQueue.IsOfSpawns`, `TimerQueues.AreOfSpawns` : the queues, read off these spawns;
* `timer_queues_of_spawns` : this is what every application is given, and what one walk over its
  delayed spawns gathers.

A task may be scheduled by itself and by others of its core; its entry then is the highest that any
of these spawns asks for.
-/

namespace MulticoreTasks

/-- The slots that a delayed spawn asks for. -/
inductive Edge.Asks (limits : Limits) (queues : FreeQueues) (e : Edge) : UInt8 → Prop
  /-- A task that schedules itself: as many as its free queue has. -/
  | queued {n : UInt8} : e.sender.name = e.target →
      queues.capacity? e.target e.sender.core = some n → Asks limits queues e n
  /-- Without such a queue, the capacity of the spawn. -/
  | unqueued : e.sender.name = e.target →
      queues.capacity? e.target e.sender.core = none → Asks limits queues e e.spawn.capacity
  /-- A task that others schedule: as many as the limits say. -/
  | foreign : e.sender.name ≠ e.target → Asks limits queues e limits.timerSlotBound

/-- A delayed spawn of the application takes `n` slots of the timer queue of the core. -/
structure App.Schedules (limits : Limits) (queues : FreeQueues) (app : App) (core : Core) (e : Edge)
    (n : UInt8) : Prop where
  mem : e ∈ app.edges
  delayed : e.spawn.dispatch = .delayed
  core_eq : e.sender.core = core
  asks : e.Asks limits queues n
  live : n ≠ 0

/-- The queue of a core is that of the spawns that take slots of it. -/
structure TimerQueue.IsOfSpawns (limits : Limits) (queues : FreeQueues) (app : App) (core : Core)
    (q : TimerQueue) : Prop where
  tasks_iff : ∀ task, task ∈ q.tasks ↔ ∃ e n, app.Schedules limits queues core e n ∧ e.target = task
  slots_greatest : ∀ (task : TaskName) (entry : TimerEntry), q.tasks[task]? = some entry →
    IsGreatest {n | ∃ e, app.Schedules limits queues core e n ∧ e.target = task} entry.capacity
  level_greatest : ∀ (task : TaskName) (entry : TimerEntry), q.tasks[task]? = some entry →
    IsGreatest {p | ∃ e n, app.Schedules limits queues core e n ∧ e.target = task ∧
      e.spawn.priority = p} entry.priority
  schedulers_iff : ∀ name, name ∈ q.schedulers ↔
    ∃ e n, app.Schedules limits queues core e n ∧ e.sender.name = name
  capacity_eq : q.capacity = (q.tasks.values.map fun entry => entry.capacity.toNat).sum
  priority_greatest : IsGreatest {p | ∃ entry ∈ q.tasks.values, entry.priority = p} q.priority
  ceiling_greatest : IsGreatest {p | p = q.priority ∨
    ∃ e n, app.Schedules limits queues core e n ∧ e.sender.priority = p} q.ceiling

/-- The cores that a spawn takes slots on have queues, and no others. -/
structure TimerQueues.AreOfSpawns (limits : Limits) (queues : FreeQueues) (app : App)
    (t : TimerQueues) : Prop where
  queue_iff : ∀ core, core ∈ t ↔ ∃ e n, app.Schedules limits queues core e n
  queue : ∀ (core : Core) (q : TimerQueue), t[core]? = some q → q.IsOfSpawns limits queues app core

variable {limits : Limits} {queues : FreeQueues} {app : App} {core : Core} {e : Edge} {n : UInt8}

/-! ## Slots -/

theorem Edge.isOwn_iff : e.isOwn = true ↔ e.sender.name = e.target := decide_eq_true_iff

theorem Edge.asks_iff : e.Asks limits queues n ↔ slotBound limits queues e = n := by
  constructor
  · intro h
    cases h with
    | queued hown hn => rw [slotBound, if_pos (isOwn_iff.2 hown), hn, Option.getD_some]
    | unqueued hown hnone => rw [slotBound, if_pos (isOwn_iff.2 hown), hnone, Option.getD_none]
    | foreign hother => rw [slotBound, if_neg (mt isOwn_iff.1 hother)]
  · rintro rfl
    by_cases hown : e.sender.name = e.target
    · rw [slotBound, if_pos (isOwn_iff.2 hown)]
      cases hqueue : queues.capacity? e.target e.sender.core with
      | none => exact .unqueued hown hqueue
      | some n => exact .queued hown hqueue
    · rw [slotBound, if_neg (mt isOwn_iff.1 hown)]
      exact .foreign hown

instance : Decidable (e.Asks limits queues n) := decidable_of_iff _ Edge.asks_iff.symm

theorem App.schedules_iff : app.Schedules limits queues core e n ↔
    e ∈ app.liveFrom (slotBound limits queues) core ∧ slotBound limits queues e = n := by
  rw [mem_liveFrom]
  constructor
  · rintro ⟨hmem, hdelayed, hcore, hasks, hlive⟩
    obtain rfl := Edge.asks_iff.1 hasks
    exact ⟨⟨hmem, hdelayed, hlive, hcore⟩, rfl⟩
  · rintro ⟨⟨hmem, hdelayed, hlive, hcore⟩, rfl⟩
    exact ⟨hmem, hdelayed, hcore, Edge.asks_iff.2 rfl, hlive⟩

theorem App.exists_schedules_iff {P : Edge → Prop} :
    (∃ e n, app.Schedules limits queues core e n ∧ P e) ↔
      ∃ e ∈ app.liveFrom (slotBound limits queues) core, P e := by
  simp only [schedules_iff, and_assoc, exists_and_left, exists_eq_left']

/-! ## The queue of one core -/

theorem isGreatest_highest {α : Type} {l : List α} {f : α → UInt8} {s : Set UInt8} (hl : l ≠ [])
    (h : ∀ n, n ∈ s ↔ ∃ a ∈ l, f a = n) : IsGreatest s (highest (l.map f)) := by
  have hmem : ∀ n, n ∈ s ↔ n ∈ l.map f := by simpa only [List.mem_map] using h
  exact ⟨(hmem _).2 (highest_mem (mt List.map_eq_nil_iff.1 hl)), fun n hn =>
    le_highest ((hmem n).1 hn)⟩

theorem isGreatest_max {s : Set UInt8} {a b : UInt8} (h : IsGreatest s a) :
    IsGreatest {n | n = b ∨ n ∈ s} (max a b) := by
  have hle : a ≤ max a b ∧ b ≤ max a b := max_le_iff_and.1 (UInt8.le_refl _)
  constructor
  · rw [max_eq_ite]
    split
    · exact Or.inl rfl
    · exact Or.inr h.1
  · rintro n (rfl | hn)
    · exact hle.2
    · exact UInt8.le_trans (h.2 hn) hle.1

theorem isOfSpawns_ofEdges (hlive : app.liveFrom (slotBound limits queues) core ≠ []) :
    (TimerQueue.ofEdges (slotBound limits queues)
      (app.liveFrom (slotBound limits queues) core)).IsOfSpawns limits queues app core := by
  have hgroup : ∀ (task : TaskName) (e : Edge),
      e ∈ (app.liveFrom (slotBound limits queues) core).filter (·.target = task) ↔
        e ∈ app.liveFrom (slotBound limits queues) core ∧ e.target = task := by
    intro task e
    rw [List.mem_filter, decide_eq_true_iff]
  constructor
  case tasks_iff =>
    intro task
    rw [TimerQueue.mem_tasks_ofEdges, App.exists_schedules_iff]
  case slots_greatest =>
    intro task entry hentry
    obtain ⟨⟨e, he, htarget⟩, rfl⟩ := TimerQueue.tasks_ofEdges_eq_some_iff.1 hentry
    refine isGreatest_highest (List.ne_nil_of_mem ((hgroup task e).2 ⟨he, htarget⟩)) fun n => ?_
    simp only [hgroup, Set.mem_ofPred_eq, App.schedules_iff, and_right_comm]
  case level_greatest =>
    intro task entry hentry
    obtain ⟨⟨e, he, htarget⟩, rfl⟩ := TimerQueue.tasks_ofEdges_eq_some_iff.1 hentry
    refine isGreatest_highest (List.ne_nil_of_mem ((hgroup task e).2 ⟨he, htarget⟩)) fun p => ?_
    simp only [hgroup, Set.mem_ofPred_eq, App.exists_schedules_iff, and_assoc]
  case schedulers_iff =>
    intro name
    rw [TimerQueue.mem_schedulers_ofEdges, App.exists_schedules_iff]
  case capacity_eq =>
    show total _ = _
    rw [total_eq_sum, List.map_map]
    rfl
  case priority_greatest =>
    obtain ⟨e, he⟩ := List.exists_mem_of_ne_nil _ hlive
    obtain ⟨entry, hentry⟩ := Table.mem_iff_exists.1 (TimerQueue.mem_tasks_ofEdges.2 ⟨e, he, rfl⟩)
    exact isGreatest_highest (List.ne_nil_of_mem (Table.mem_values.2 ⟨_, hentry⟩)) fun p => Iff.rfl
  case ceiling_greatest =>
    refine isGreatest_max (isGreatest_highest hlive fun p => ?_)
    exact App.exists_schedules_iff

/-! ## All queues -/

theorem areOfSpawns_timerQueues :
    (app.timerQueues (slotBound limits queues)).AreOfSpawns limits queues app := by
  constructor
  case queue_iff =>
    intro core
    rw [Table.mem_iff_exists]
    simp only [App.getElem?_timerQueues_eq_some_iff, App.schedules_iff, exists_and_left, exists_eq,
      exists_eq', and_true]
  case queue =>
    intro core q hq
    obtain ⟨⟨e, he⟩, rfl⟩ := App.getElem?_timerQueues_eq_some_iff.1 hq
    exact isOfSpawns_ofEdges (List.ne_nil_of_mem he)

theorem TimerQueues.findings_eq_asks (limits : Limits) (queues : FreeQueues) (app : App) :
    findings app (slotBound limits queues) =
      (app.edges.filter fun e => e.spawn.dispatch = .delayed ∧ e.sender.name ≠ e.target ∧
        e.Asks limits queues 0).map fun e => .capacityZero e.target e.sender.name := by
  rw [findings, App.delayedEdges, List.filter_filter]
  congr 1
  refine List.filter_congr fun e _ => ?_
  rw [Bool.eq_iff_iff]
  simp only [Bool.and_eq_true, Bool.not_eq_true', decide_eq_true_eq, ← Bool.not_eq_true,
    Edge.isOwn_iff, Edge.asks_iff]
  constructor
  · rintro ⟨⟨hbound, hother⟩, hdelayed⟩
    exact ⟨hdelayed, hother, hbound⟩
  · rintro ⟨hdelayed, hother, hbound⟩
    exact ⟨⟨hbound, hother⟩, hdelayed⟩

/-- Whatever the free queues, every application is given the timer queues that one walk over its
delayed spawns gathers, and these are the ones of the spawns that take slots.  A spawn of another
task that would take none is found, in the order of the spawns. -/
theorem timer_queues_of_spawns (limits : Limits) (app : App) (queues : FreeQueues)
    (ledger : Ledger) :
    ∃ t findings,
      (ledger.settle (TimerQueues.checked limits app queues)).1 = .ok (t, findings) ∧
      (app.delayedEdges.foldl (TimerQueues.Walk.visit (slotBound limits queues)) {}).close =
        (t, findings) ∧
      t.AreOfSpawns limits queues app ∧
      findings = (app.edges.filter fun e => e.spawn.dispatch = .delayed ∧
        e.sender.name ≠ e.target ∧ e.Asks limits queues 0).map fun e =>
          .capacityZero e.target e.sender.name := by
  refine ⟨_, _, ?_, TimerQueues.Walk.close_foldl_visit app, areOfSpawns_timerQueues,
    TimerQueues.findings_eq_asks limits queues app⟩
  rw [Ledger.settle_of_checks_eq (TimerQueues.checks_checked limits app queues)]
  rfl

end MulticoreTasks
