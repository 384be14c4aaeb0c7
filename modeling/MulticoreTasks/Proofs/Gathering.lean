import MulticoreTasks.Message.TimerQueue
import MulticoreTasks.Message.Topology
import MulticoreTasks.Proofs.Accessors

/-!
# Gathering spawn by spawn

Channels, free queues and timer queues are defined group by group: all spawns under one key at a
time.  Here they are gathered in one walk over the spawns, each of which is entered under its keys
when it is met, and capacities and levels are added up when the walk is over.

* `Topology.Walk`, `Topology.Walk.close_foldl_visit` : the topology with its findings;
* `TimerQueues.Walk`, `TimerQueues.Walk.close_foldl_visit` : the timer queues with theirs.

A walk knows only of the spawns that it has met.  For the sizes of free queues this makes no
difference: a size that is set stays (`Walk.capacity?_foldl_visit`), so that whoever finds one finds
the final one, and whoever finds none sets it.
-/

namespace MulticoreTasks

/-! ## Channels -/

/-- The channel, with one more spawn that runs through it. -/
def Channel.join (app : App) (channel : Channel) (e : Edge) : Channel :=
  { channel with
    tasks := channel.tasks.insert e.target
    senders := channel.senders.insert e.sender.name
    messageTypes := (app.messageType? e).elim channel.messageTypes channel.messageTypes.insert }

namespace Channel

variable {app : App} (edges : List Edge)

theorem tasks_foldl_join :
    (edges.foldl (join app) {}).tasks = SortedSet.ofList (edges.map Edge.target) := by
  rw [← SortedSet.foldl_insert_map]
  exact (List.foldl_hom Channel.tasks fun _ _ => rfl).symm

theorem senders_foldl_join :
    (edges.foldl (join app) {}).senders = SortedSet.ofList (edges.map (·.sender.name)) := by
  rw [← SortedSet.foldl_insert_map]
  exact (List.foldl_hom Channel.senders fun _ _ => rfl).symm

theorem messageTypes_foldl_join : (edges.foldl (join app) {}).messageTypes =
    SortedSet.ofList (edges.filterMap app.messageType?) := by
  rw [← SortedSet.foldl_insert_filterMap]
  exact (List.foldl_hom Channel.messageTypes fun _ _ => rfl).symm

/-- The spawns on a route join to its channel, when the capacity is added up at the end. -/
theorem foldl_join (queues : FreeQueues) (route : Route) :
    { edges.foldl (join app) {} with
      capacity := App.pendingFrom queues (edges.foldl (join app) {}).tasks route.sender } =
      app.channelOf queues route edges := by
  rw [App.channelOf, ← @tasks_foldl_join app edges, ← @senders_foldl_join app edges,
    ← messageTypes_foldl_join]

end Channel

/-! ## Free queues -/

namespace FreeQueues

/-- The queues of one task once a spawn has declared its capacity, which counts for the core that it
comes from unless this has a size. -/
def declareFrom (sizes : Table Core UInt8) (e : Edge) : Table Core UInt8 :=
  sizes.alter e.senderCore fun size => some (size.getD e.spawn.capacity)

/-- The queues once a spawn has declared its capacity. -/
def declare (queues : FreeQueues) (e : Edge) : FreeQueues :=
  queues.alter e.target fun sizes => some (declareFrom (sizes.getD ∅) e)

variable {queues : FreeQueues} {task : TaskName} {core : Core} {n : UInt8}

theorem capacity?_declare (e : Edge) : (queues.declare e).capacity? task core =
    if e.target = task ∧ e.senderCore = core then
      some ((queues.capacity? task core).getD e.spawn.capacity)
    else queues.capacity? task core := by
  rw [capacity?, capacity?, declare, Std.ExtTreeMap.getElem?_alter]
  by_cases htask : e.target = task
  · subst htask
    rw [if_pos Std.ReflCmp.compare_self, Option.bind_some, declareFrom,
      Std.ExtTreeMap.getElem?_alter]
    cases queues[e.target]? with
    | none => by_cases hcore : e.senderCore = core <;> simp [hcore]
    | some sizes => by_cases hcore : e.senderCore = core <;> simp [hcore]
  · have hkey : compare e.target task ≠ .eq := fun h => htask (Std.LawfulEqOrd.eq_of_compare h)
    rw [if_neg hkey, if_neg fun h => htask h.1]

/-- A size that is set stays. -/
theorem capacity?_declare_of_some (e : Edge) (h : queues.capacity? task core = some n) :
    (queues.declare e).capacity? task core = some n := by
  rw [capacity?_declare, h, Option.getD_some, ite_self]

theorem declare_of_some {e : Edge} (h : queues.capacity? e.target e.senderCore = some n) :
    queues.declare e = queues := by
  obtain ⟨sizes, hsizes, hn⟩ := Option.bind_eq_some_iff.1 h
  refine Table.alter_eq_self ?_
  rw [hsizes, Option.getD_some, Option.some.injEq]
  refine Table.alter_eq_self ?_
  rw [hn, Option.getD_some]

/-- In the queues of one task, a core has the capacity of the first spawn from it. -/
theorem foldl_declareFrom (edges : List Edge) : edges.foldl declareFrom ∅ =
    (Table.groupBy Edge.senderCore edges).filterMap fun _ group =>
      group.head?.map (·.spawn.capacity) := by
  have hfirst : ∀ (group : List Edge) (size : Option UInt8),
      group.foldl (fun size e => some (size.getD e.spawn.capacity)) size =
        size.or (group.head?.map (·.spawn.capacity)) := by
    intro group
    induction group with
    | nil =>
      intro size
      cases size <;> rfl
    | cons e group ih =>
      intro size
      rw [List.foldl_cons, ih]
      cases size <;> rfl
  refine Std.ExtTreeMap.ext_getElem? fun core => ?_
  unfold declareFrom
  rw [Table.getElem?_foldl_alter Edge.senderCore fun size e => some (size.getD e.spawn.capacity),
    hfirst, Std.ExtTreeMap.getElem?_empty, Option.none_or, Std.ExtTreeMap.getElem?_filterMap',
    Table.getElem?_groupBy]
  split
  · next hnil =>
    rw [hnil]
    rfl
  · rfl

/-- The queues of an application are declared spawn by spawn. -/
theorem foldl_declare (app : App) : app.sizedEdges.foldl declare ∅ = app.freeQueues := by
  rw [App.freeQueues]
  simp only [← foldl_declareFrom]
  exact Table.foldl_alter_eq_map_groupBy Edge.target declareFrom ∅ app.sizedEdges

end FreeQueues

/-! ## The topology -/

namespace Topology

/-- What has been gathered on the way. -/
structure Walk where
  channels : Channels := ∅
  freeQueues : FreeQueues := ∅
  sendTypes : SortedSet TypeName := ∅
  findings : List Diagnostic := []

namespace Walk

/-- The capacity of a spawn of a declared task is declared, or found to be zero or at odds with what
has been declared before. -/
def size (w : Walk) (e : Edge) : Walk :=
  if e.spawn.capacity = 0 then
    { w with findings := w.findings ++ [.capacityZero e.target e.sender.name] }
  else
    match w.freeQueues.capacity? e.target e.senderCore with
    | none => { w with freeQueues := w.freeQueues.declare e }
    | some first =>
      if first = e.spawn.capacity then w
      else
        { w with findings := w.findings ++
            [.conflictingCapacity e.target e.sender.core first e.spawn.capacity] }

/-- A spawn joins its channel.  If its target is declared, its message type and its priority are
looked at, and its capacity last. -/
def visit (limits : Limits) (app : App) (w : Walk) (e : Edge) : Walk :=
  let channels := w.channels.alter e.route fun channel => some ((channel.getD {}).join app e)
  match app.task? e.target with
  | none => { w with channels }
  | some receiver =>
    let sendTypes :=
      if e.spawn.core ≠ e.sender.core then w.sendTypes.insert receiver.message else w.sendTypes
    let findings := w.findings ++
      if e.spawn.priority ≠ receiver.priority ∧ limits.inRange e.spawn.priority = false then
        [.priorityOutOfRange e.target e.spawn.priority limits.maxPriority]
      else []
    size { w with channels, sendTypes, findings } e

/-- The capacities of the channels are added up. -/
def close (w : Walk) : Topology × List Diagnostic :=
  ({ channels := w.channels.map fun route channel =>
       { channel with capacity := App.pendingFrom w.freeQueues channel.tasks route.sender }
     freeQueues := w.freeQueues
     sendTypes := w.sendTypes },
    w.findings)

variable {limits : Limits} {app : App}

/-- All that becomes of a walk when one more spawn is met. -/
theorem visit_eq (w : Walk) (e : Edge) : w.visit limits app e =
    { channels := w.channels.alter e.route fun channel => some ((channel.getD {}).join app e)
      freeQueues := if e.target ∈ app.tasks && e.spawn.capacity ≠ 0 then w.freeQueues.declare e
        else w.freeQueues
      sendTypes := if e.spawn.core ≠ e.sender.core then
          (app.messageType? e).elim w.sendTypes w.sendTypes.insert
        else w.sendTypes
      findings := w.findings ++ edgeFindings limits app w.freeQueues e } := by
  unfold visit edgeFindings App.messageType?
  cases htarget : app.task? e.target with
  | none =>
    have hnot : e.target ∉ app.tasks := by
      rw [App.mem_tasks_iff, htarget]
      simp
    simp [hnot]
  | some receiver =>
    have hmem : e.target ∈ app.tasks := App.mem_tasks_iff.2 ⟨receiver, htarget⟩
    by_cases hcap : e.spawn.capacity = 0
    · simp [size, hmem, hcap]
    · cases hsize : w.freeQueues.capacity? e.target e.sender.core with
      | none => simp [size, Edge.senderCore, hmem, hcap, hsize]
      | some first =>
        have hdeclared : w.freeQueues.declare e = w.freeQueues := FreeQueues.declare_of_some hsize
        by_cases hsame : first = e.spawn.capacity
        · simp [size, Edge.senderCore, hmem, hcap, hsize, hdeclared, hsame]
        · simp [size, Edge.senderCore, hmem, hcap, hsize, hdeclared, hsame]

/-! ### All spawns -/

variable (edges : List Edge)

theorem channels_foldl_visit (w : Walk) : (edges.foldl (visit limits app) w).channels =
    edges.foldl (fun channels e =>
      channels.alter e.route fun channel => some ((channel.getD {}).join app e)) w.channels :=
  (List.foldl_hom Walk.channels fun w e => by rw [visit_eq]).symm

theorem freeQueues_foldl_visit (w : Walk) : (edges.foldl (visit limits app) w).freeQueues =
    (edges.filter fun e => e.target ∈ app.tasks && e.spawn.capacity ≠ 0).foldl
      FreeQueues.declare w.freeQueues := by
  rw [List.foldl_filter]
  exact (List.foldl_hom Walk.freeQueues fun w e => by rw [visit_eq]).symm

theorem sendTypes_foldl_visit : (edges.foldl (visit limits app) {}).sendTypes =
    SortedSet.ofList
      ((edges.filter fun e => e.spawn.core ≠ e.sender.core).filterMap app.messageType?) := by
  rw [← SortedSet.foldl_insert_filterMap, List.foldl_filter]
  exact (List.foldl_hom Walk.sendTypes fun w e => by rw [visit_eq]; simp).symm

/-- A size that is set stays to the end. -/
theorem capacity?_foldl_visit {w : Walk} {task : TaskName} {core : Core} {n : UInt8}
    (h : w.freeQueues.capacity? task core = some n) :
    (edges.foldl (visit limits app) w).freeQueues.capacity? task core = some n := by
  rw [freeQueues_foldl_visit]
  refine List.foldlRecOn _ _ (motive := (FreeQueues.capacity? · task core = some n)) h ?_
  intro queues hqueues e _
  exact FreeQueues.capacity?_declare_of_some e hqueues

/-- Whether a spawn is in order does not depend on the spawns after it. -/
theorem edgeFindings_foldl_visit (w : Walk) (e : Edge) :
    edgeFindings limits app (edges.foldl (visit limits app) (w.visit limits app e)).freeQueues e =
      edgeFindings limits app w.freeQueues e := by
  unfold edgeFindings
  cases htarget : app.task? e.target with
  | none => rfl
  | some receiver =>
    by_cases hcap : e.spawn.capacity = 0
    · simp only [if_pos hcap]
    · have hmem : e.target ∈ app.tasks := App.mem_tasks_iff.2 ⟨receiver, htarget⟩
      have hvisit : (w.visit limits app e).freeQueues.capacity? e.target e.sender.core =
          some ((w.freeQueues.capacity? e.target e.sender.core).getD e.spawn.capacity) := by
        rw [visit_eq]
        simp [hmem, hcap, FreeQueues.capacity?_declare, Edge.senderCore]
      simp only [capacity?_foldl_visit edges hvisit]
      cases w.freeQueues.capacity? e.target e.sender.core with
      | none => simp
      | some first => rfl

/-- What is found on the way is what the spawns are found to be in the end. -/
theorem findings_foldl_visit (w : Walk) : (edges.foldl (visit limits app) w).findings =
    w.findings ++
      edges.flatMap (edgeFindings limits app (edges.foldl (visit limits app) w).freeQueues) := by
  induction edges generalizing w with
  | nil => simp
  | cons e edges ih =>
    have hvisit : (w.visit limits app e).findings =
        w.findings ++ edgeFindings limits app w.freeQueues e := by rw [visit_eq]
    rw [List.foldl_cons, ih, hvisit, List.flatMap_cons, edgeFindings_foldl_visit,
      List.append_assoc]

/-- The walk comes to the topology of the application and its findings. -/
theorem close_foldl_visit : (app.edges.foldl (visit limits app) {}).close =
    (ofApp app, Topology.findings limits app app.freeQueues) := by
  have hqueues : (app.edges.foldl (visit limits app) {}).freeQueues = app.freeQueues := by
    rw [freeQueues_foldl_visit]
    exact FreeQueues.foldl_declare app
  have hchannels : (app.edges.foldl (visit limits app) {}).channels =
      (Table.groupBy Edge.route app.edges).map fun _ group =>
        group.foldl (Channel.join app) {} := by
    rw [channels_foldl_visit]
    exact Table.foldl_alter_eq_map_groupBy Edge.route (Channel.join app) {} app.edges
  have hfound : (app.edges.foldl (visit limits app) {}).findings =
      Topology.findings limits app app.freeQueues := by
    rw [findings_foldl_visit, hqueues]
    rfl
  rw [close, hqueues, hchannels, hfound, sendTypes_foldl_visit, ofApp, App.channels,
    Std.ExtTreeMap.map_map]
  simp only [Channel.foldl_join]

end Walk

end Topology

/-! ## Timer queues -/

theorem foldl_max {α : Type} (f : α → UInt8) (l : List α) (n : UInt8) :
    l.foldl (fun m a => max m (f a)) n = max n (highest (l.map f)) := by
  have hle : ∀ c, l.foldl (fun m a => max m (f a)) n ≤ c ↔ max n (highest (l.map f)) ≤ c := by
    intro c
    induction l generalizing n with
    | nil => simp [max_le_iff_and]
    | cons a l ih =>
      rw [List.foldl_cons, ih, List.map_cons, highest_cons]
      simp only [max_le_iff_and, and_assoc]
  exact UInt8.le_antisymm ((hle _).2 (UInt8.le_refl _)) ((hle _).1 (UInt8.le_refl _))

theorem zero_max (n : UInt8) : max 0 n = n := by
  rw [max_eq_ite, if_pos UInt8.zero_le]

/-- What is held of a task once one more spawn asks for it. -/
def TimerEntry.raise (entry : TimerEntry) (priority : Priority) (slots : UInt8) : TimerEntry :=
  ⟨max entry.priority priority, max entry.capacity slots⟩

/-- A first spawn gets what it asks for. -/
theorem TimerEntry.raise_getD (entry : Option TimerEntry) (priority : Priority) (slots : UInt8) :
    (entry.getD ⟨priority, slots⟩).raise priority slots =
      (entry.getD ⟨0, 0⟩).raise priority slots := by
  cases entry with
  | none => simp [raise, max_eq_ite]
  | some entry => rfl

namespace TimerQueue

/-- The queue with one more spawn, before anything is added up. -/
def join (bound : Edge → UInt8) (q : TimerQueue) (e : Edge) : TimerQueue :=
  { q with
    tasks := q.tasks.alter e.target fun entry =>
      some ((entry.getD ⟨e.spawn.priority, bound e⟩).raise e.spawn.priority (bound e))
    schedulers := q.schedulers.insert e.sender.name
    ceiling := max q.ceiling e.sender.priority }

/-- Slots and levels are taken over all that the queue holds. -/
def close (q : TimerQueue) : TimerQueue :=
  let priority := highest (q.tasks.values.map (·.priority))
  { q with capacity := slots q.tasks, priority, ceiling := max q.ceiling priority }

variable {bound : Edge → UInt8} (edges : List Edge)

theorem foldl_raise (entry : TimerEntry) :
    edges.foldl (fun entry e => entry.raise e.spawn.priority (bound e)) entry =
      entry.raise (highest (edges.map (·.spawn.priority))) (highest (edges.map bound)) := by
  rw [TimerEntry.raise, ← foldl_max, ← foldl_max]
  induction edges generalizing entry with
  | nil => rfl
  | cons e edges ih => exact ih (entry.raise e.spawn.priority (bound e))

theorem tasks_foldl_join : (edges.foldl (join bound) {}).tasks =
    (Table.groupBy Edge.target edges).map fun _ group =>
      ⟨highest (group.map (·.spawn.priority)), highest (group.map bound)⟩ := by
  have hgathered : (edges.foldl (join bound) {}).tasks = edges.foldl (fun tasks e =>
      tasks.alter e.target fun entry =>
        some ((entry.getD ⟨0, 0⟩).raise e.spawn.priority (bound e))) ∅ :=
    (List.foldl_hom TimerQueue.tasks fun q e => by simp only [join, TimerEntry.raise_getD]).symm
  have hgroups := Table.foldl_alter_eq_map_groupBy Edge.target
    (fun (entry : TimerEntry) (e : Edge) => entry.raise e.spawn.priority (bound e)) ⟨0, 0⟩ edges
  rw [hgathered, hgroups]
  simp only [foldl_raise]
  simp only [TimerEntry.raise, zero_max]

theorem schedulers_foldl_join : (edges.foldl (join bound) {}).schedulers =
    SortedSet.ofList (edges.map (·.sender.name)) := by
  rw [← SortedSet.foldl_insert_map]
  exact (List.foldl_hom TimerQueue.schedulers fun _ _ => rfl).symm

theorem ceiling_foldl_join : (edges.foldl (join bound) {}).ceiling =
    highest (edges.map (·.sender.priority)) := by
  rw [← zero_max (highest _), ← foldl_max]
  exact (List.foldl_hom TimerQueue.ceiling fun _ _ => rfl).symm

theorem close_foldl_join : (edges.foldl (join bound) {}).close = ofEdges bound edges := by
  rw [close, tasks_foldl_join, schedulers_foldl_join, ceiling_foldl_join, ofEdges]

end TimerQueue

namespace TimerQueues

/-- What has been gathered on the way. -/
structure Walk where
  queues : TimerQueues := ∅
  findings : List Diagnostic := []

namespace Walk

/-- A spawn joins the queue of its core, unless it gets no slot. -/
def visit (bound : Edge → UInt8) (w : Walk) (e : Edge) : Walk :=
  if bound e = 0 then
    if e.isOwn then w
    else { w with findings := w.findings ++ [.capacityZero e.target e.sender.name] }
  else { w with queues := w.queues.alter e.senderCore fun q => some ((q.getD {}).join bound e) }

/-- Every queue is closed. -/
def close (w : Walk) : TimerQueues × List Diagnostic :=
  (w.queues.map fun _ q => q.close, w.findings)

variable {bound : Edge → UInt8} (edges : List Edge)

theorem queues_foldl_visit (w : Walk) : (edges.foldl (visit bound) w).queues =
    (edges.filter fun e => bound e ≠ 0).foldl
      (fun queues e => queues.alter e.senderCore fun q => some ((q.getD {}).join bound e))
      w.queues := by
  rw [List.foldl_filter]
  refine (List.foldl_hom Walk.queues fun w e => ?_).symm
  by_cases hbound : bound e = 0
  · by_cases hown : e.isOwn <;> simp [visit, hbound, hown]
  · simp [visit, hbound]

theorem findings_foldl_visit (w : Walk) : (edges.foldl (visit bound) w).findings =
    w.findings ++ (edges.filter fun e => bound e = 0 && !e.isOwn).map fun e =>
      .capacityZero e.target e.sender.name := by
  induction edges generalizing w with
  | nil => simp
  | cons e edges ih =>
    rw [List.foldl_cons, ih]
    by_cases hbound : bound e = 0
    · by_cases hown : e.isOwn <;> simp [visit, hbound, hown]
    · simp [visit, hbound]

/-- The walk comes to the timer queues of the application and their findings. -/
theorem close_foldl_visit (app : App) : (app.delayedEdges.foldl (visit bound) {}).close =
    (app.timerQueues bound, TimerQueues.findings app bound) := by
  have hqueues : (app.delayedEdges.foldl (visit bound) {}).queues =
      (Table.groupBy Edge.senderCore (app.liveEdges bound)).map fun _ group =>
        group.foldl (TimerQueue.join bound) {} := by
    rw [queues_foldl_visit]
    exact Table.foldl_alter_eq_map_groupBy Edge.senderCore (TimerQueue.join bound) {} _
  rw [close, hqueues, findings_foldl_visit, Std.ExtTreeMap.map_map]
  simp only [TimerQueue.close_foldl_join]
  rfl

end Walk

end TimerQueues

end MulticoreTasks
