import Mathlib.Algebra.Order.BigOperators.Group.List
import Mathlib.Algebra.Order.Group.Nat
import Mathlib.Data.List.Perm.Subperm
import MulticoreTasks.Proofs.Conservation

/-!
# Timer queues of an accepted application

In an application that is well formed no delayed spawn is without a slot, and the slots that it asks
for can be read off the spawn:

* `Edge.slots`              : its own capacity when a task schedules itself, else what the limits
  say;
* `App.delayedFrom`, `App.liveFrom` : the delayed spawns from a core, and those that get a slot;
* `timerQueues_eq_some_iff` : the queue of a core holds exactly these, with these slots;
* `TimerQueue.Widens`, `TimerQueue.Grows` : what becomes of a queue when its spawns get more slots,
  and when other spawns join them.

The bound of a task that schedules itself is read off its free queue, which is sized by the first
spawn from its core: that this is the capacity of the spawn at hand is where all of them have to
agree.
-/

namespace MulticoreTasks

/-- The slots that a delayed spawn asks for. -/
def Edge.slots (limits : Limits) (e : Edge) : UInt8 :=
  if e.isOwn then e.spawn.capacity else limits.timerSlotBound

/-- The delayed spawns from a core. -/
def App.delayedFrom (app : App) (core : Core) : List Edge :=
  app.delayedEdges.filter (·.senderCore = core)

/-- The delayed spawns from a core that get a slot. -/
def App.liveFrom (app : App) (bound : Edge → UInt8) (core : Core) : List Edge :=
  (app.liveEdges bound).filter (·.senderCore = core)

namespace TimerQueue

/-- The second queue holds the same, and has at least as many slots for it. -/
structure Widens (q wider : TimerQueue) : Prop where
  tasks_iff : ∀ task, task ∈ wider.tasks ↔ task ∈ q.tasks
  entry : ∀ (task : TaskName) (e w : TimerEntry), q.tasks[task]? = some e →
    wider.tasks[task]? = some w → w.priority = e.priority ∧ e.capacity ≤ w.capacity
  schedulers : wider.schedulers = q.schedulers
  capacity : q.capacity ≤ wider.capacity
  priority : wider.priority = q.priority
  ceiling : wider.ceiling = q.ceiling

/-- The second queue holds all that the first one does, and has at least as many slots for it. -/
structure Grows (q larger : TimerQueue) : Prop where
  entry : ∀ (task : TaskName) (e : TimerEntry), q.tasks[task]? = some e →
    ∃ l, larger.tasks[task]? = some l ∧ l.priority = e.priority ∧ e.capacity ≤ l.capacity
  schedulers : ∀ name ∈ q.schedulers, name ∈ larger.schedulers
  capacity : q.capacity ≤ larger.capacity
  priority : q.priority ≤ larger.priority
  ceiling : q.ceiling ≤ larger.ceiling

end TimerQueue

/-! ## Highest levels and sums -/

theorem highest_mono {l m : List UInt8} (h : ∀ a ∈ l, ∃ b ∈ m, a ≤ b) : highest l ≤ highest m := by
  refine highest_le_iff.2 fun a ha => ?_
  obtain ⟨b, hb, hab⟩ := h a ha
  exact UInt8.le_trans hab (le_highest hb)

theorem highest_congr {l m : List UInt8} (h : ∀ a, a ∈ l ↔ a ∈ m) : highest l = highest m :=
  UInt8.le_antisymm (highest_mono fun a ha => ⟨a, (h a).1 ha, UInt8.le_refl a⟩)
    (highest_mono fun a ha => ⟨a, (h a).2 ha, UInt8.le_refl a⟩)

theorem max_mono {a b c d : UInt8} (hac : a ≤ c) (hbd : b ≤ d) : max a b ≤ max c d := by
  have hle : c ≤ max c d ∧ d ≤ max c d := max_le_iff_and.1 (UInt8.le_refl _)
  exact max_le_iff_and.2 ⟨UInt8.le_trans hac hle.1, UInt8.le_trans hbd hle.2⟩

theorem total_eq_sum (l : List UInt8) : total l = (l.map UInt8.toNat).sum := by
  induction l with
  | nil => rfl
  | cons n l ih => rw [total_cons, ih, List.map_cons, List.sum_cons]

/-- A sum over some things is at most one over these and others, of numbers that are no less. -/
theorem sum_map_le_of_subset {α : Type} {l m : List α} {f g : α → Nat} (hl : l.Nodup)
    (hsub : ∀ a ∈ l, a ∈ m) (hle : ∀ a ∈ l, f a ≤ g a) : (l.map f).sum ≤ (m.map g).sum := by
  obtain ⟨k, hperm, hkm⟩ := List.subperm_of_subset hl hsub
  calc (l.map f).sum ≤ (l.map g).sum := List.sum_le_sum hle
    _ = (k.map g).sum := (hperm.map g).sum_eq.symm
    _ ≤ (m.map g).sum := (hkm.map g).sum_le_sum fun _ _ => Nat.zero_le _

/-! ## The queue of given spawns -/

namespace TimerQueue

variable {bound bound' : Edge → UInt8} {edges edges' : List Edge} {task : TaskName}
  {entry : TimerEntry}

/-- What a queue holds of a task: the highest priority and the most slots that a spawn of it asks
for. -/
theorem tasks_ofEdges_eq_some_iff : (ofEdges bound edges).tasks[task]? = some entry ↔
    (∃ e ∈ edges, e.target = task) ∧
      entry = ⟨highest ((edges.filter (·.target = task)).map (·.spawn.priority)),
        highest ((edges.filter (·.target = task)).map bound)⟩ :=
  Table.getElem?_map_groupBy_eq_some

theorem mem_tasks_ofEdges : task ∈ (ofEdges bound edges).tasks ↔ ∃ e ∈ edges, e.target = task := by
  simp only [Table.mem_iff_exists, tasks_ofEdges_eq_some_iff, exists_and_left, exists_eq, and_true]

theorem mem_schedulers_ofEdges {name : TaskName} :
    name ∈ (ofEdges bound edges).schedulers ↔ ∃ e ∈ edges, e.sender.name = name := by
  simp only [ofEdges, SortedSet.mem_ofList, List.mem_map]

/-- The slots of a queue, task by task. -/
theorem slots_eq_sum (tasks : Table TaskName TimerEntry) :
    slots tasks =
      (tasks.keys.map fun task => (tasks[task]?.map (·.capacity.toNat)).getD 0).sum := by
  rw [slots, total_eq_sum, Table.values, ← Std.ExtTreeMap.map_fst_toList_eq_keys, List.map_map,
    List.map_map, List.map_map]
  congr 1
  refine List.map_congr_left fun e he => ?_
  have hentry := Table.mem_entries.1 he
  simp [hentry]

theorem nodup_keys (tasks : Table TaskName TimerEntry) : tasks.keys.Nodup :=
  Std.ExtTreeMap.distinct_keys.imp Std.ReflCmp.ne_of_cmp_ne_eq

theorem slots_mono {tasks tasks' : Table TaskName TimerEntry}
    (h : ∀ (task : TaskName) (e : TimerEntry), tasks[task]? = some e →
      ∃ l, tasks'[task]? = some l ∧ e.capacity ≤ l.capacity) : slots tasks ≤ slots tasks' := by
  rw [slots_eq_sum, slots_eq_sum]
  refine sum_map_le_of_subset (nodup_keys tasks) ?_ ?_
  · intro task htask
    obtain ⟨e, he⟩ := Table.mem_iff_exists.1 (Std.ExtTreeMap.mem_keys.1 htask)
    obtain ⟨l, hl, -⟩ := h task e he
    exact Std.ExtTreeMap.mem_keys.2 (Table.mem_iff_exists.2 ⟨l, hl⟩)
  · intro task htask
    obtain ⟨e, he⟩ := Table.mem_iff_exists.1 (Std.ExtTreeMap.mem_keys.1 htask)
    obtain ⟨l, hl, hle⟩ := h task e he
    rw [he, hl]
    exact hle

/-- What a queue lists of its tasks is made of their spawns. -/
theorem map_values_tasks_ofEdges {α : Type} (f : TimerEntry → α) :
    (ofEdges bound edges).tasks.values.map f =
      (Table.groupBy Edge.target edges).toList.map fun g =>
        f ⟨highest (g.2.map (·.spawn.priority)), highest (g.2.map bound)⟩ := by
  rw [ofEdges, Table.values, Table.entries, Std.ExtTreeMap.toList_map, List.map_map, List.map_map]
  rfl

/-- Two ways to ask for slots that agree on the spawns come to one queue. -/
theorem ofEdges_congr (h : ∀ e ∈ edges, bound e = bound' e) :
    ofEdges bound edges = ofEdges bound' edges := by
  have htasks : (ofEdges bound edges).tasks = (ofEdges bound' edges).tasks := by
    refine Std.ExtTreeMap.ext_getElem? fun task => Option.ext fun entry => ?_
    have hgroup : (edges.filter (·.target = task)).map bound =
        (edges.filter (·.target = task)).map bound' :=
      List.map_congr_left fun e he => h e (List.mem_filter.1 he).1
    rw [tasks_ofEdges_eq_some_iff, tasks_ofEdges_eq_some_iff, hgroup]
  simp only [ofEdges] at htasks ⊢
  rw [htasks]

/-- Only the slots of a queue depend on how many its spawns ask for. -/
theorem priority_ofEdges_eq : (ofEdges bound edges).priority = (ofEdges bound' edges).priority := by
  show highest ((ofEdges bound edges).tasks.values.map (·.priority)) =
    highest ((ofEdges bound' edges).tasks.values.map (·.priority))
  rw [map_values_tasks_ofEdges, map_values_tasks_ofEdges]

theorem highest_map_mono {α : Type} {l : List α} {f g : α → UInt8} (h : ∀ a ∈ l, f a ≤ g a) :
    highest (l.map f) ≤ highest (l.map g) := by
  refine highest_mono fun n hn => ?_
  obtain ⟨a, ha, rfl⟩ := List.mem_map.1 hn
  exact ⟨_, List.mem_map_of_mem ha, h a ha⟩

/-- A queue is the wider for spawns that ask for more slots. -/
theorem widens_ofEdges (hbound : ∀ e ∈ edges, bound e ≤ bound' e) :
    (ofEdges bound edges).Widens (ofEdges bound' edges) := by
  have hentry : ∀ (task : TaskName) (e w : TimerEntry),
      (ofEdges bound edges).tasks[task]? = some e → (ofEdges bound' edges).tasks[task]? = some w →
      w.priority = e.priority ∧ e.capacity ≤ w.capacity := by
    intro task e w he hw
    obtain ⟨-, rfl⟩ := tasks_ofEdges_eq_some_iff.1 he
    obtain ⟨-, rfl⟩ := tasks_ofEdges_eq_some_iff.1 hw
    exact ⟨rfl, highest_map_mono fun f hf => hbound f (List.mem_filter.1 hf).1⟩
  constructor
  case tasks_iff =>
    intro task
    rw [mem_tasks_ofEdges, mem_tasks_ofEdges]
  case entry => exact hentry
  case schedulers => rfl
  case capacity =>
    refine slots_mono fun task e he => ?_
    obtain ⟨w, hw⟩ := Table.mem_iff_exists.1
      (mem_tasks_ofEdges.2 (tasks_ofEdges_eq_some_iff.1 he).1 : task ∈ (ofEdges bound' edges).tasks)
    exact ⟨w, hw, (hentry task e w he hw).2⟩
  case priority => exact priority_ofEdges_eq
  case ceiling =>
    show max _ (ofEdges bound' edges).priority = max _ (ofEdges bound edges).priority
    rw [priority_ofEdges_eq]

/-- A queue grows when spawns join it, as long as those of one task have one priority. -/
theorem grows_ofEdges (hsub : ∀ e ∈ edges, e ∈ edges') (hbound : ∀ e ∈ edges, bound e ≤ bound' e)
    (hpriority : ∀ e ∈ edges', ∀ f ∈ edges', e.target = f.target →
      e.spawn.priority = f.spawn.priority) :
    (ofEdges bound edges).Grows (ofEdges bound' edges') := by
  have hentry : ∀ (task : TaskName) (e : TimerEntry), (ofEdges bound edges).tasks[task]? = some e →
      ∃ l, (ofEdges bound' edges').tasks[task]? = some l ∧ l.priority = e.priority ∧
        e.capacity ≤ l.capacity := by
    intro task entry hentry
    obtain ⟨⟨e, he, htarget⟩, rfl⟩ := tasks_ofEdges_eq_some_iff.1 hentry
    have hgroup : ∀ f ∈ edges.filter (·.target = task), f ∈ edges'.filter (·.target = task) := by
      intro f hf
      obtain ⟨hf, hkey⟩ := List.mem_filter.1 hf
      exact List.mem_filter.2 ⟨hsub f hf, hkey⟩
    have hmem : e ∈ edges.filter (·.target = task) :=
      List.mem_filter.2 ⟨he, decide_eq_true htarget⟩
    -- all spawns of the task have the priority of this one
    have hone : ∀ p ∈ (edges'.filter (·.target = task)).map (·.spawn.priority),
        p = e.spawn.priority := by
      intro p hp
      obtain ⟨f, hf, rfl⟩ := List.mem_map.1 hp
      obtain ⟨hf, hkey⟩ := List.mem_filter.1 hf
      exact hpriority f hf e (hsub e he) ((of_decide_eq_true hkey).trans htarget.symm)
    refine ⟨_, tasks_ofEdges_eq_some_iff.2 ⟨⟨e, hsub e he, htarget⟩, rfl⟩, ?_, ?_⟩
    · have hsmall := hone _ (List.map_subset _ hgroup (highest_mem
        (List.ne_nil_of_mem (List.mem_map_of_mem hmem))))
      have hlarge := hone _ (highest_mem (List.ne_nil_of_mem (List.mem_map_of_mem (hgroup e hmem))))
      exact hlarge.trans hsmall.symm
    · refine highest_mono fun n hn => ?_
      obtain ⟨f, hf, rfl⟩ := List.mem_map.1 hn
      exact ⟨_, List.mem_map_of_mem (hgroup f hf), hbound f (List.mem_filter.1 hf).1⟩
  have hlevel : (ofEdges bound edges).priority ≤ (ofEdges bound' edges').priority := by
    refine highest_mono fun p hp => ?_
    obtain ⟨e, he, rfl⟩ := List.mem_map.1 hp
    obtain ⟨task, htask⟩ := Table.mem_values.1 he
    obtain ⟨l, hl, hsame, -⟩ := hentry task e htask
    exact ⟨_, List.mem_map_of_mem (Table.mem_values.2 ⟨task, hl⟩), UInt8.le_of_eq hsame.symm⟩
  constructor
  case entry => exact hentry
  case schedulers =>
    intro name hname
    obtain ⟨e, he, hsender⟩ := mem_schedulers_ofEdges.1 hname
    exact mem_schedulers_ofEdges.2 ⟨e, hsub e he, hsender⟩
  case capacity =>
    refine slots_mono fun task e he => ?_
    obtain ⟨l, hl, -, hle⟩ := hentry task e he
    exact ⟨l, hl, hle⟩
  case priority => exact hlevel
  case ceiling =>
    refine max_mono (highest_mono fun p hp => ?_) hlevel
    obtain ⟨e, he, rfl⟩ := List.mem_map.1 hp
    exact ⟨_, List.mem_map_of_mem (hsub e he), UInt8.le_refl _⟩

end TimerQueue

/-! ## The queues of an application -/

section Accepted

variable {app : App} {limits : Limits} {bound : Edge → UInt8} {core : Core} {q : TimerQueue}

theorem App.mem_delayedFrom {e : Edge} : e ∈ app.delayedFrom core ↔
    e ∈ app.edges ∧ e.spawn.dispatch = .delayed ∧ e.sender.core = core := by
  simp only [delayedFrom, delayedEdges, List.mem_filter, decide_eq_true_eq, and_assoc]
  exact Iff.rfl

theorem App.mem_liveFrom {e : Edge} : e ∈ app.liveFrom bound core ↔
    e ∈ app.edges ∧ e.spawn.dispatch = .delayed ∧ bound e ≠ 0 ∧ e.sender.core = core := by
  simp only [liveFrom, List.mem_filter, mem_liveEdges, decide_eq_true_eq, and_assoc]
  exact Iff.rfl

/-- A core has a queue for the spawns from it that get a slot, if there are any. -/
theorem App.getElem?_timerQueues_eq_some_iff : (app.timerQueues bound)[core]? = some q ↔
    (∃ e, e ∈ app.liveFrom bound core) ∧ q = .ofEdges bound (app.liveFrom bound core) := by
  simp only [liveFrom, List.mem_filter, decide_eq_true_eq]
  exact Table.getElem?_map_groupBy_eq_some

variable (hw : app.WellFormed limits)
include hw

/-- The free queue of a task that schedules itself has the capacity of this very spawn. -/
theorem slotBound_eq_slots {e : Edge} (he : e ∈ app.edges) :
    slotBound limits app.freeQueues e = e.slots limits := by
  have hfeeds : e.Feeds app e.target e.sender.core := ⟨he, rfl, rfl⟩
  have hcapacity : app.freeQueues.capacity? e.target e.sender.core = some e.spawn.capacity :=
    (capacity?_eq_some_iff hw).2 ⟨⟨e, hfeeds⟩, fun f hf => hf.capacity_eq hw hfeeds⟩
  rw [slotBound, hcapacity, Option.getD_some, Edge.slots]

/-- Every delayed spawn gets a slot. -/
theorem slots_ne_zero {e : Edge} (he : e ∈ app.edges) (hdelayed : e.spawn.dispatch = .delayed) :
    e.slots limits ≠ 0 := by
  unfold Edge.slots
  split
  · exact hw.sized e he
  · next hother =>
    intro hzero
    have hown := hw.slotted hzero e he hdelayed
    exact hother (decide_eq_true hown.symm)

theorem liveEdges_eq_delayedEdges :
    app.liveEdges (slotBound limits app.freeQueues) = app.delayedEdges := by
  refine List.filter_eq_self.2 fun e he => ?_
  obtain ⟨he, hdelayed⟩ := List.mem_filter.1 he
  rw [slotBound_eq_slots hw he]
  exact decide_eq_true (slots_ne_zero hw he (of_decide_eq_true hdelayed))

theorem timerQueues_eq_some_iff : (Analysis.ofApp limits app).timerQueues[core]? = some q ↔
    (∃ e, e ∈ app.delayedFrom core) ∧
      q = .ofEdges (Edge.slots limits) (app.delayedFrom core) := by
  have hbound : TimerQueue.ofEdges (slotBound limits app.freeQueues) (app.delayedFrom core) =
      .ofEdges (Edge.slots limits) (app.delayedFrom core) :=
    TimerQueue.ofEdges_congr fun e he => slotBound_eq_slots hw (App.mem_delayedFrom.1 he).1
  have hlive : app.liveFrom (slotBound limits app.freeQueues) core = app.delayedFrom core := by
    rw [App.liveFrom, liveEdges_eq_delayedEdges hw, App.delayedFrom]
  rw [← hbound, ← hlive]
  exact App.getElem?_timerQueues_eq_some_iff

theorem mem_timerQueues_iff :
    core ∈ (Analysis.ofApp limits app).timerQueues ↔ ∃ e, e ∈ app.delayedFrom core := by
  rw [Table.mem_iff_exists]
  simp only [timerQueues_eq_some_iff hw, exists_and_left, exists_eq, and_true]

end Accepted

end MulticoreTasks
