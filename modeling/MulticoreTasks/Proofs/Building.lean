import Mathlib.Data.List.Nodup
import MulticoreTasks.Proofs.Declaring

/-!
# Building is declaring with the targets looked up

A blueprint takes steps, files tasks without their spawns and keeps these apart until the end.  What
it then comes to is what is had without a blueprint, by declaring each task once with all that its
draft says of it:

* `SpawnsFor`          : the spawns that clauses ask for, going where the drafts of their targets
  say;
* `TaskDraft.Declares` : the task of a draft, with all that its clauses come to;
* `Blueprint.Decided`  : which steps are refused, and why, told by the declaration of their entries
  on the application so far;
* `Blueprint.Enters`   : the entries that steps stand for when nothing is left to look up;
* `IsFirstMissing`     : the first target, draft by draft and clause by clause, that has no draft;
* `Blueprint.build_eq_foldlM` : attaching the pending spawns one by one comes to what building comes
  to at once;
* `Blueprint.Refines`  : building reports that target, or gives the application of those entries,
  and `Blueprint.refines_attemptAll` that this is so after any steps.

Two runs are compared, the one of the blueprint, with bare tasks, and the direct one, with finished
ones.  `App.attach` takes the first to the second, and `declare_attach` says that one declaration
follows the other.  That each task gets its own spawns back is `Holds.spawnsOf_eq`: a name is
drafted once among the steps that were taken, and those that were refused left nothing behind.
-/

namespace MulticoreTasks

/-! ## What a draft says -/

/-- The message that a clause asks for. -/
def Clause.message? : Clause → Option TypeName
  | .message type => some type
  | _ => none

/-- The access to a resource that a clause asks for. -/
def Clause.access? (r : ResourceName) : Clause → Option Access
  | .reads s => if s = r then some .read else none
  | .writes s => if s = r then some .write else none
  | _ => none

/-- The task that a clause starts. -/
def Clause.target? : Clause → Option TaskName
  | .spawns target _ => some target
  | .schedules target _ => some target
  | _ => none

/-- The tasks that a draft starts, in the order of its clauses. -/
def TaskDraft.targets (d : TaskDraft) : List TaskName := d.clauses.filterMap Clause.target?

/-- The spawns that clauses ask for, in their order, each with the core and the priority that its
target is drafted with. -/
inductive SpawnsFor (drafts : List TaskDraft) : List Clause → List Spawn → Prop
  | nil : SpawnsFor drafts [] []
  | silent {clause : Clause} {clauses : List Clause} {spawns : List Spawn} :
      clause.target? = none → SpawnsFor drafts clauses spawns →
        SpawnsFor drafts (clause :: clauses) spawns
  | spawns {d : TaskDraft} {target : TaskName} {capacity : UInt8} {clauses : List Clause}
      {spawns : List Spawn} :
      d ∈ drafts → d.name = target → SpawnsFor drafts clauses spawns →
        SpawnsFor drafts (.spawns target capacity :: clauses)
          (⟨target, d.core, d.priority, capacity, .immediate⟩ :: spawns)
  | schedules {d : TaskDraft} {target : TaskName} {capacity : UInt8} {clauses : List Clause}
      {spawns : List Spawn} :
      d ∈ drafts → d.name = target → SpawnsFor drafts clauses spawns →
        SpawnsFor drafts (.schedules target capacity :: clauses)
          (⟨target, d.core, d.priority, capacity, .delayed⟩ :: spawns)

/-- The task that a draft declares among others. -/
structure TaskDraft.Declares (drafts : List TaskDraft) (d : TaskDraft) (t : Task) : Prop where
  name : t.name = d.name
  core : t.core = d.core
  priority : t.priority = d.priority
  /-- The last word on the message holds. -/
  message : t.message = (d.clauses.filterMap Clause.message?).getLast?.getD "()"
  /-- The last word on each resource holds. -/
  resources : ∀ r, t.resources[r]? = (d.clauses.filterMap (Clause.access? r)).getLast?
  spawns : SpawnsFor drafts d.clauses t.spawns

/-- The first name that some draft starts and no draft bears. -/
def IsFirstMissing (drafts : List TaskDraft) (name : TaskName) : Prop :=
  ∃ before after, drafts.flatMap TaskDraft.targets = before ++ name :: after ∧
    (∀ d ∈ drafts, d.name ≠ name) ∧ ∀ other ∈ before, ∃ d ∈ drafts, d.name = other

/-- The cores below a count. -/
def coresBelow (count : UInt8) : List Core := (List.range count.toNat).map fun i => ⟨UInt8.ofNat i⟩

namespace Blueprint

/-- The entry of a step while spawns are still pending. -/
def Step.bareEntry? : Step → Option Entry
  | .resource r => some (.resource r)
  | .task d => some (.task d.task)
  | .discard _ => none

/-- The outcomes of steps on an application, and the application that they leave: a step is refused
when its entry is, and for the same reason, and the next one is tried on the application so far. -/
inductive Decided : App → List Step → List (Option DeclarationError) → App → Prop
  | nil (app : App) : Decided app [] [] app
  | filed {app next last : App} {s : Step} {entry : Entry} {steps : List Step}
      {outcomes : List (Option DeclarationError)} :
      s.bareEntry? = some entry → (app.declare entry).value = .ok next →
        Decided next steps outcomes last → Decided app (s :: steps) (none :: outcomes) last
  | refused {app last : App} {s : Step} {entry : Entry} {refusal : DeclarationError}
      {steps : List Step} {outcomes : List (Option DeclarationError)} :
      s.bareEntry? = some entry → (app.declare entry).value = .error refusal →
        Decided app steps outcomes last → Decided app (s :: steps) (some refusal :: outcomes) last
  | discarded {app last : App} {d : TaskDraft} {steps : List Step}
      {outcomes : List (Option DeclarationError)} :
      Decided app steps outcomes last → Decided app (.discard d :: steps) (none :: outcomes) last

/-- The steps that were not refused. -/
def taken : List Step → List (Option DeclarationError) → List Step
  | s :: steps, none :: outcomes => s :: taken steps outcomes
  | _ :: steps, some _ :: outcomes => taken steps outcomes
  | _, _ => []

/-- The tasks among some steps; a draft that is discarded is none of them. -/
def drafts (steps : List Step) : List TaskDraft :=
  steps.filterMap fun
    | .task d => some d
    | .resource _ => none
    | .discard _ => none

/-- Look up the target of a spawn, and attach it to its sender. -/
def attachNext (app : App) (p : PendingSpawn) : Except MissingTarget App :=
  match p.resolve? app with
  | none => .error ⟨p.target⟩
  | some spawn => .ok (app.amendTask p.sender fun t => { t with spawns := t.spawns ++ [spawn] })

/-- The entries that steps stand for among given drafts. -/
inductive Enters (drafts : List TaskDraft) : List Step → List Entry → Prop
  | nil : Enters drafts [] []
  | resource {r : Resource} {steps : List Step} {entries : List Entry} :
      Enters drafts steps entries → Enters drafts (.resource r :: steps) (.resource r :: entries)
  | task {d : TaskDraft} {t : Task} {steps : List Step} {entries : List Entry} :
      d.Declares drafts t → Enters drafts steps entries →
        Enters drafts (.task d :: steps) (.task t :: entries)
  | discard {d : TaskDraft} {steps : List Step} {entries : List Entry} :
      Enters drafts steps entries → Enters drafts (.discard d :: steps) entries

/-- After given steps on the cores below a count, building comes to what declaring comes to. -/
structure Refines (count : UInt8) (steps : List Step) (b : Blueprint) : Prop where
  /-- A name is drafted once. -/
  nodup : ((drafts steps).map TaskDraft.name).Nodup
  /-- The pending spawns can be attached one by one. -/
  attached : b.build = b.pending.foldlM attachNext b.app
  missing_iff : ∀ name, b.build = .error ⟨name⟩ ↔ IsFirstMissing (drafts steps) name
  built_iff : (∃ app, b.build = .ok app) ↔
    ∀ target ∈ (drafts steps).flatMap TaskDraft.targets, ∃ d ∈ drafts steps, d.name = target
  entered : ∀ app, b.build = .ok app → ∃ entries, Enters (drafts steps) steps entries
  /-- Declared directly, the entries are all accepted, and the same application is had. -/
  direct : ∀ app, b.build = .ok app → ∀ entries, Enters (drafts steps) steps entries →
    ∀ ledger : Ledger,
      (ledger.settle ((App.ofCores (coresBelow count)).attemptAll entries)).1 =
        .ok (entries.map fun _ => none, app)
  /-- A task has what its own draft says, and nothing from another draft of its name. -/
  task?_iff : ∀ app, b.build = .ok app → ∀ key t, app.task? key = some t ↔
    ∃ d ∈ drafts steps, d.name = key ∧ d.Declares (drafts steps) t

end Blueprint

/-! ## The bare task of a draft -/

/-- What clauses leave alone. -/
theorem foldl_withClause_kept (clauses : List Clause) (t : Task) :
    (clauses.foldl Task.withClause t).name = t.name ∧
      (clauses.foldl Task.withClause t).core = t.core ∧
      (clauses.foldl Task.withClause t).priority = t.priority ∧
      (clauses.foldl Task.withClause t).spawns = t.spawns := by
  induction clauses generalizing t with
  | nil => exact ⟨rfl, rfl, rfl, rfl⟩
  | cons clause clauses ih =>
    have hrest := ih (t.withClause clause)
    cases clause <;> exact hrest

theorem message_withClause (t : Task) (clause : Clause) :
    (t.withClause clause).message = clause.message?.getD t.message := by
  cases clause <;> rfl

theorem resources_withClause (t : Task) (clause : Clause) (r : ResourceName) :
    (t.withClause clause).resources[r]? = (clause.access? r).or t.resources[r]? := by
  cases clause with
  | reads s =>
    show (t.resources.insert s .read)[r]? = (if s = r then some Access.read else none).or _
    by_cases hname : s = r <;> simp [hname, Std.ExtTreeMap.getElem?_insert]
  | writes s =>
    show (t.resources.insert s .write)[r]? = (if s = r then some Access.write else none).or _
    by_cases hname : s = r <;> simp [hname, Std.ExtTreeMap.getElem?_insert]
  | _ => rfl

theorem foldl_withClause_message (clauses : List Clause) (t : Task) :
    (clauses.foldl Task.withClause t).message =
      (clauses.filterMap Clause.message?).getLast?.getD t.message := by
  induction clauses generalizing t with
  | nil => rfl
  | cons clause clauses ih =>
    rw [List.foldl_cons, ih, message_withClause]
    cases hword : clause.message? with
    | none => rw [List.filterMap_cons_none hword, Option.getD_none]
    | some type =>
      rw [List.filterMap_cons_some hword, List.getLast?_cons, Option.getD_some, Option.getD_some]

theorem foldl_withClause_resources (clauses : List Clause) (t : Task) (r : ResourceName) :
    (clauses.foldl Task.withClause t).resources[r]? =
      (clauses.filterMap (Clause.access? r)).getLast?.or t.resources[r]? := by
  induction clauses generalizing t with
  | nil => rfl
  | cons clause clauses ih =>
    rw [List.foldl_cons, ih, resources_withClause]
    cases hword : clause.access? r with
    | none => rw [List.filterMap_cons_none hword, Option.none_or]
    | some access =>
      rw [List.filterMap_cons_some hword, List.getLast?_cons, Option.some_or, Option.some_or]
      cases (clauses.filterMap (Clause.access? r)).getLast? <;> rfl

namespace TaskDraft

variable {d : TaskDraft}

@[simp] theorem name_task : d.task.name = d.name := (foldl_withClause_kept ..).1

@[simp] theorem core_task : d.task.core = d.core := (foldl_withClause_kept ..).2.1

@[simp] theorem priority_task : d.task.priority = d.priority := (foldl_withClause_kept ..).2.2.1

@[simp] theorem spawns_task : d.task.spawns = [] := (foldl_withClause_kept ..).2.2.2

/-- What is pending for a draft are the starts of its targets. -/
theorem map_target_pending (d : TaskDraft) :
    d.pending.map PendingSpawn.target = d.targets := by
  rw [pending, targets, List.map_filterMap]
  congr 1
  funext clause
  cases clause <;> rfl

theorem sender_of_mem_pending {p : PendingSpawn} (h : p ∈ d.pending) : p.sender = d.name := by
  obtain ⟨clause, -, hclause⟩ := List.mem_filterMap.1 h
  cases clause <;> cases hclause <;> rfl

theorem filter_pending_sender (d : TaskDraft) (name : TaskName) :
    d.pending.filter (·.sender = name) = if d.name = name then d.pending else [] := by
  split
  · next hname =>
    refine List.filter_eq_self.2 fun p hp => ?_
    rw [sender_of_mem_pending hp]
    exact decide_eq_true hname
  · next hname =>
    refine List.filter_eq_nil_iff.2 fun p hp => ?_
    rw [sender_of_mem_pending hp, decide_eq_true_iff]
    exact hname

/-- Where names are drafted once, what is asked for in one name is what its draft asks for. -/
theorem filter_flatMap_pending {drafts : List TaskDraft}
    (hnodup : (drafts.map TaskDraft.name).Nodup) (hd : d ∈ drafts) :
    (drafts.flatMap TaskDraft.pending).filter (·.sender = d.name) = d.pending := by
  induction drafts with
  | nil => cases hd
  | cons e drafts ih =>
    rw [List.map_cons, List.nodup_cons] at hnodup
    rw [List.flatMap_cons, List.filter_append, filter_pending_sender]
    rcases List.mem_cons.1 hd with rfl | hlater
    · have hrest : (drafts.flatMap TaskDraft.pending).filter (·.sender = d.name) = [] := by
        refine List.filter_eq_nil_iff.2 fun p hp => ?_
        obtain ⟨e, he, hpe⟩ := List.mem_flatMap.1 hp
        rw [sender_of_mem_pending hpe, decide_eq_true_iff]
        intro hname
        exact hnodup.1 (hname ▸ List.mem_map_of_mem he)
      rw [if_pos rfl, hrest, List.append_nil]
    · have hother : e.name ≠ d.name := by
        intro hname
        exact hnodup.1 (hname ▸ List.mem_map_of_mem hlater)
      rw [if_neg hother, List.nil_append, ih hnodup.2 hlater]

/-- The bare task with the spawns that its draft asks for is the one that is declared. -/
theorem declares_task {drafts : List TaskDraft} {spawns : List Spawn}
    (h : SpawnsFor drafts d.clauses spawns) :
    d.Declares drafts { d.task with spawns := spawns } := by
  constructor
  case name => exact name_task
  case core => exact core_task
  case priority => exact priority_task
  case message => exact foldl_withClause_message d.clauses _
  case resources =>
    intro r
    have hlast := foldl_withClause_resources d.clauses
      { name := d.name, core := d.core, priority := d.priority } r
    rw [Std.ExtTreeMap.getElem?_empty, Option.or_none] at hlast
    exact hlast
  case spawns => exact h

end TaskDraft

/-! ## One task and one entry only -/

section Unique

variable {drafts : List TaskDraft} (hnodup : (drafts.map TaskDraft.name).Nodup)
include hnodup

theorem SpawnsFor.unique {clauses : List Clause} {spawns spawns' : List Spawn}
    (h : SpawnsFor drafts clauses spawns) (h' : SpawnsFor drafts clauses spawns') :
    spawns = spawns' := by
  induction h generalizing spawns' with
  | nil =>
    cases h'
    rfl
  | silent hnone _ ih =>
    cases h' with
    | silent _ h' => exact ih h'
    | spawns _ _ _ => cases hnone
    | schedules _ _ _ => cases hnone
  | spawns hd hname _ ih =>
    cases h' with
    | silent hnone _ => cases hnone
    | spawns hd' hname' h' =>
      rw [List.inj_on_of_nodup_map hnodup hd hd' (hname.trans hname'.symm), ih h']
  | schedules hd hname _ ih =>
    cases h' with
    | silent hnone _ => cases hnone
    | schedules hd' hname' h' =>
      rw [List.inj_on_of_nodup_map hnodup hd hd' (hname.trans hname'.symm), ih h']

theorem TaskDraft.Declares.unique {d : TaskDraft} {t u : Task} (ht : d.Declares drafts t)
    (hu : d.Declares drafts u) : t = u := by
  have hresources : t.resources = u.resources := by
    refine Std.ExtTreeMap.ext_getElem? fun r => ?_
    rw [ht.resources, hu.resources]
  have hspawns : t.spawns = u.spawns := ht.spawns.unique hnodup hu.spawns
  have hname := ht.name.trans hu.name.symm
  have hcore := ht.core.trans hu.core.symm
  have hpriority := ht.priority.trans hu.priority.symm
  have hmessage := ht.message.trans hu.message.symm
  cases t
  cases u
  simp_all

theorem Blueprint.Enters.unique {steps : List Step} {entries entries' : List Entry}
    (h : Enters drafts steps entries) (h' : Enters drafts steps entries') :
    entries = entries' := by
  induction h generalizing entries' with
  | nil =>
    cases h'
    rfl
  | resource _ ih =>
    cases h' with
    | resource h' => rw [ih h']
  | task hd _ ih =>
    cases h' with
    | task hd' h' => rw [ih h', hd.unique hnodup hd']
  | discard _ ih =>
    cases h' with
    | discard h' => rw [ih h']

end Unique

/-! ## The run of a blueprint -/

namespace Blueprint

variable {b last : Blueprint} {s : Step} {entry : Entry} {steps : List Step}
  {outcomes : List (Option DeclarationError)}

/-- A step that has an entry is an attempt at it, after which the spawns of its draft are pending if
it was not refused. -/
theorem value_attempt_of_entry (h : s.bareEntry? = some entry) : (b.attempt s).value =
    match (b.app.attempt entry).value with
    | (none, app) => (none, ⟨app, b.pending ++ (drafts [s]).flatMap TaskDraft.pending⟩)
    | (some refusal, app) => (some refusal, ⟨app, b.pending⟩) := by
  cases s with
  | resource r =>
    cases h
    have hpending : (drafts [.resource r]).flatMap TaskDraft.pending = [] := rfl
    rw [hpending, List.append_nil, attempt, App.attempt, tryResource, Audited.value_bind]
    rcases (b.app.tryResource r).value with ⟨_ | refusal, app⟩ <;> rfl
  | task d =>
    cases h
    have hpending : (drafts [.task d]).flatMap TaskDraft.pending = d.pending := List.append_nil _
    rw [hpending, attempt, App.attempt, tryTask, Audited.value_bind]
    rcases (b.app.tryTask d.task).value with ⟨_ | refusal, app⟩ <;> rfl
  | discard d => cases h

/-- All that can become of an attempt at a step. -/
theorem attempt_cases (b : Blueprint) (s : Step) :
    ((∃ d, s = .discard d) ∧ (b.attempt s).value = (none, b)) ∨
    (∃ entry refusal, s.bareEntry? = some entry ∧
      (b.app.declare entry).value = .error refusal ∧
      (b.attempt s).value = (some refusal, b)) ∨
    (∃ entry app, s.bareEntry? = some entry ∧ (b.app.declare entry).value = .ok app ∧
      (b.attempt s).value =
        (none, ⟨app, b.pending ++ (drafts [s]).flatMap TaskDraft.pending⟩)) := by
  cases hentry : s.bareEntry? with
  | none =>
    cases s with
    | resource r => cases hentry
    | task d => cases hentry
    | discard d => exact Or.inl ⟨⟨d, rfl⟩, rfl⟩
  | some entry =>
    have hvalue := value_attempt_of_entry (b := b) hentry
    rw [App.value_attempt] at hvalue
    cases hdeclare : (b.app.declare entry).value with
    | error refusal =>
      rw [hdeclare] at hvalue
      exact Or.inr (Or.inl ⟨entry, refusal, rfl, hdeclare, hvalue⟩)
    | ok app =>
      rw [hdeclare] at hvalue
      exact Or.inr (Or.inr ⟨entry, app, rfl, hdeclare, hvalue⟩)

/-- A step that is refused leaves the blueprint as it was. -/
theorem kept_of_refused (h : (b.attempt s).value.1 ≠ none) : (b.attempt s).value.2 = b := by
  rcases attempt_cases b s with ⟨-, hvalue⟩ | ⟨_, _, -, -, hvalue⟩ | ⟨_, _, -, -, hvalue⟩
  · rw [hvalue]
  · rw [hvalue]
  · rw [hvalue] at h
    exact absurd rfl h

theorem drafts_cons (s : Step) (steps : List Step) :
    drafts (s :: steps) = drafts [s] ++ drafts steps :=
  List.filterMap_append (l := [s])

/-- A run decides its steps one after the other, and what the taken ones ask for is pending then. -/
theorem decided_attemptAll (h : (b.attemptAll steps).value = (outcomes, last)) :
    Decided b.app steps outcomes last.app ∧
      last.pending = b.pending ++ (drafts (taken steps outcomes)).flatMap TaskDraft.pending := by
  -- from any blueprint: a refused step leaves the one it was tried on
  induction steps generalizing b outcomes with
  | nil =>
    cases h
    exact ⟨.nil _, (List.append_nil _).symm⟩
  | cons s steps ih =>
    simp only [attemptAll, Audited.value_bind, Audited.value_pure, Prod.mk.injEq] at h
    obtain ⟨rfl, hlast⟩ := h
    rcases attempt_cases b s with ⟨⟨d, rfl⟩, hvalue⟩ | ⟨entry, refusal, hentry, hdeclare, hvalue⟩ |
      ⟨entry, app, hentry, hdeclare, hvalue⟩
    · rw [hvalue] at hlast ⊢
      obtain ⟨hrest, hpending⟩ := ih (Prod.ext rfl hlast)
      exact ⟨.discarded hrest, hpending⟩
    · rw [hvalue] at hlast ⊢
      obtain ⟨hrest, hpending⟩ := ih (Prod.ext rfl hlast)
      exact ⟨.refused hentry hdeclare hrest, hpending⟩
    · rw [hvalue] at hlast ⊢
      obtain ⟨hrest, hpending⟩ := ih (Prod.ext rfl hlast)
      refine ⟨.filed hentry hdeclare hrest, ?_⟩
      rw [taken, drafts_cons, List.flatMap_append, hpending, List.append_assoc]

/-- Without the steps that are refused, a run leaves the same blueprint. -/
theorem attemptAll_taken (h : (b.attemptAll steps).value = (outcomes, last)) :
    (b.attemptAll (taken steps outcomes)).value =
      ((taken steps outcomes).map fun _ => none, last) := by
  induction steps generalizing b outcomes with
  | nil =>
    cases h
    rfl
  | cons s steps ih =>
    simp only [attemptAll, Audited.value_bind, Audited.value_pure, Prod.mk.injEq] at h
    obtain ⟨rfl, hlast⟩ := h
    cases hvalue : (b.attempt s).value with
    | mk outcome next =>
      rw [hvalue] at hlast
      have hrest := ih (Prod.ext rfl hlast)
      cases outcome with
      | some refusal =>
        have hkept : (b.attempt s).value.2 = b := kept_of_refused (by simp [hvalue])
        rw [hvalue] at hkept
        replace hkept : next = b := hkept
        rw [hkept] at hrest ⊢
        exact hrest
      | none =>
        simp only [taken, attemptAll, Audited.value_bind, hvalue, hrest]
        rfl

/-- The bare entries of the steps that are taken are accepted one after the other. -/
theorem Decided.accepts {app final : App} (h : Decided app steps outcomes final) :
    app.Accepts ((taken steps outcomes).filterMap Step.bareEntry?) final := by
  induction h with
  | nil app => exact .nil app
  | filed hentry hdeclare _ ih =>
    rw [taken, List.filterMap_cons_some hentry]
    exact .cons hdeclare ih
  | refused _ _ _ ih => exact ih
  | discarded _ ih => exact ih

end Blueprint

/-! ## Attaching spawns -/

/-- The task with more spawns. -/
def Task.attach (more : TaskName → List Spawn) (t : Task) : Task :=
  { t with spawns := t.spawns ++ more t.name }

/-- The entry with more spawns, if it is a task. -/
def Entry.attach (more : TaskName → List Spawn) : Entry → Entry
  | .resource r => .resource r
  | .task t => .task (t.attach more)

namespace App

/-- The application with more spawns on its tasks, by key. -/
def attach (more : TaskName → List Spawn) (app : App) : App :=
  { app with tasks := app.tasks.map fun key t => { t with spawns := t.spawns ++ more key } }

variable {app next last : App} {entry : Entry} {entries : List Entry} {more : TaskName → List Spawn}

theorem task?_attach {key : TaskName} : (app.attach more).task? key =
    (app.task? key).map fun t => { t with spawns := t.spawns ++ more key } :=
  Std.ExtTreeMap.getElem?_map ..

theorem mem_tasks_attach {key : TaskName} : key ∈ (app.attach more).tasks ↔ key ∈ app.tasks :=
  Std.ExtTreeMap.mem_map

theorem eq_of_parts {a b : App} (hcores : a.cores = b.cores)
    (hresources : a.resources = b.resources) (htasks : a.tasks = b.tasks) : a = b := by
  cases a
  cases b
  simp_all

theorem attach_attach (app : App) (more later : TaskName → List Spawn) :
    (app.attach more).attach later = app.attach fun key => more key ++ later key := by
  refine eq_of_parts rfl rfl (Std.ExtTreeMap.ext_getElem? fun key => ?_)
  show ((app.attach more).attach later).task? key = (app.attach _).task? key
  rw [task?_attach, task?_attach, task?_attach, Option.map_map]
  congr 1
  funext t
  exact congrArg (fun spawns => { t with spawns }) (List.append_assoc ..)

/-- To amend the task of one key with a spawn is to attach that spawn to this key alone. -/
theorem amendTask_eq_attach (app : App) (sender : TaskName) (spawn : Spawn) :
    (app.amendTask sender fun t => { t with spawns := t.spawns ++ [spawn] }) =
      app.attach fun key => if sender = key then [spawn] else [] := by
  refine eq_of_parts rfl rfl (Std.ExtTreeMap.ext_getElem? fun key => ?_)
  show (app.tasks.modify sender _)[key]? = (app.attach _).task? key
  rw [task?_attach, Std.ExtTreeMap.getElem?_modify]
  by_cases hname : sender = key
  · subst hname
    simp [task?]
  · simp [hname, task?]

theorem insertTask_attach (app : App) (t : Task) :
    (app.attach more).insertTask (t.attach more) = (app.insertTask t).attach more := by
  refine eq_of_parts rfl rfl (Std.ExtTreeMap.ext_getElem? fun key => ?_)
  show ((app.attach more).insertTask _).task? key = ((app.insertTask t).attach more).task? key
  rw [task?_insertTask, task?_attach, task?_attach, task?_insertTask]
  by_cases hname : t.name = key
  · rw [if_pos hname, if_pos (show (t.attach more).name = key from hname), ← hname]
    rfl
  · rw [if_neg hname, if_neg (show ¬ (t.attach more).name = key from hname)]

/-- Whoever attaches spawns first declares with the same success. -/
theorem declare_attach (h : (app.declare entry).value = .ok next) :
    ((app.attach more).declare (entry.attach more)).value = .ok (next.attach more) := by
  cases entry with
  | resource r =>
    obtain ⟨hfree, hlate, rfl⟩ := addResource_eq_ok_iff.1 h
    exact addResource_eq_ok_iff.2 ⟨hfree, hlate, rfl⟩
  | task t =>
    obtain ⟨hfree, hcore, rfl⟩ := addTask_eq_ok_iff.1 h
    have hstill : (t.attach more).name ∉ (app.attach more).tasks := by
      show t.name ∉ app.tasks.map _
      rw [Std.ExtTreeMap.mem_map]
      exact hfree
    exact addTask_eq_ok_iff.2 ⟨hstill, hcore, (insertTask_attach app t).symm⟩

theorem Accepts.attach (h : app.Accepts entries last) :
    (app.attach more).Accepts (entries.map (Entry.attach more)) (last.attach more) := by
  induction h with
  | nil app => exact .nil _
  | cons hdeclare _ ih => exact .cons (declare_attach hdeclare) ih

end App

/-! ## Attaching one by one -/

namespace Blueprint

variable {app : App} {more : TaskName → List Spawn} {p : PendingSpawn} {pending : List PendingSpawn}

/-- A target is found with its core and its priority, whatever it spawns itself. -/
theorem resolve?_attach : p.resolve? (app.attach more) = p.resolve? app := by
  rw [PendingSpawn.resolve?, App.task?_attach, Option.map_map]
  rfl

theorem spawnsOf_attach (key : TaskName) :
    spawnsOf ⟨app.attach more, pending⟩ key = spawnsOf ⟨app, pending⟩ key := by
  simp only [spawnsOf, resolve?_attach]

theorem spawnsOf_cons (key : TaskName) {spawn : Spawn} (h : p.resolve? app = some spawn) :
    spawnsOf ⟨app, p :: pending⟩ key =
      (if p.sender = key then [spawn] else []) ++ spawnsOf ⟨app, pending⟩ key := by
  by_cases hname : p.sender = key <;> simp [spawnsOf, hname, h]

theorem resolve?_eq_none_iff : p.resolve? app = none ↔ p.target ∉ app.tasks := by
  rw [PendingSpawn.resolve?, Option.map_eq_none_iff, App.mem_tasks_iff]
  exact Option.eq_none_iff_forall_ne_some.trans not_exists.symm

/-- Building goes on after the first spawn as from the application that this is attached to. -/
theorem build_cons (app : App) (p : PendingSpawn) (pending : List PendingSpawn) :
    build ⟨app, p :: pending⟩ =
      (attachNext app p).bind fun next => build ⟨next, pending⟩ := by
  rw [attachNext]
  cases hspawn : p.resolve? app with
  | none =>
    have hmissing : p.target ∉ app.tasks := resolve?_eq_none_iff.1 hspawn
    rw [build, List.find?_cons_of_pos (by simpa using hmissing)]
    rfl
  | some spawn =>
    have hfound : p.target ∈ app.tasks := by
      by_contra hmissing
      rw [resolve?_eq_none_iff.2 hmissing] at hspawn
      cases hspawn
    simp only [Except.bind, App.amendTask_eq_attach]
    rw [build, build, List.find?_cons_of_neg (by simpa using hfound)]
    simp only [App.mem_tasks_attach]
    cases pending.find? (·.target ∉ app.tasks) with
    | some other => rfl
    | none =>
      refine congrArg Except.ok ?_
      show app.attach _ = (app.attach _).attach _
      rw [App.attach_attach]
      refine congrArg app.attach (funext fun key => ?_)
      rw [spawnsOf_cons key hspawn, spawnsOf_attach]

/-- Attaching the pending spawns one after the other comes to what building comes to at once. -/
theorem build_eq_foldlM (app : App) (pending : List PendingSpawn) :
    build ⟨app, pending⟩ = pending.foldlM attachNext app := by
  induction pending generalizing app with
  | nil =>
    have hnone : app.attach (fun _ => []) = app := by
      refine App.eq_of_parts rfl rfl (Std.ExtTreeMap.ext_getElem? fun key => ?_)
      show (app.attach _).task? key = app.task? key
      rw [App.task?_attach]
      cases app.task? key <;> simp
    exact congrArg Except.ok hnone
  | cons p pending ih =>
    rw [build_cons, List.foldlM_cons]
    cases attachNext app p with
    | error missing => rfl
    | ok next => exact ih next

end Blueprint

/-! ## Targets looked up -/

/-- The blueprint holds the drafts and what they ask for, and nothing else. -/
structure Blueprint.Holds (b : Blueprint) (drafts : List TaskDraft) : Prop where
  task?_iff : ∀ {key t}, b.app.task? key = some t ↔ ∃ d ∈ drafts, d.task = t ∧ d.name = key
  nodup : (drafts.map TaskDraft.name).Nodup
  pending : b.pending = drafts.flatMap TaskDraft.pending

namespace Blueprint

variable {b : Blueprint} {drafted : List TaskDraft} {d : TaskDraft} {p : PendingSpawn}

theorem Holds.mem_tasks_iff (h : b.Holds drafted) {name : TaskName} :
    name ∈ b.app.tasks ↔ ∃ d ∈ drafted, d.name = name := by
  rw [Table.mem_iff_exists]
  constructor
  · rintro ⟨t, ht⟩
    obtain ⟨d, hd, -, hname⟩ := h.task?_iff.1 ht
    exact ⟨d, hd, hname⟩
  · rintro ⟨d, hd, hname⟩
    exact ⟨d.task, h.task?_iff.2 ⟨d, hd, rfl, hname⟩⟩

theorem Holds.resolve?_eq (h : b.Holds drafted) (hd : d ∈ drafted) (hname : d.name = p.target) :
    p.resolve? b.app = some ⟨p.target, d.core, d.priority, p.capacity, p.dispatch⟩ := by
  rw [PendingSpawn.resolve?, h.task?_iff.2 ⟨d, hd, rfl, hname⟩, Option.map_some,
    TaskDraft.core_task, TaskDraft.priority_task]

theorem Holds.targets (h : b.Holds drafted) :
    b.pending.map PendingSpawn.target = drafted.flatMap TaskDraft.targets := by
  rw [h.pending, List.map_flatMap]
  exact List.flatMap_congr fun d _ => d.map_target_pending

/-- Attached to a task are the spawns that its own draft asks for. -/
theorem Holds.spawnsOf_eq (h : b.Holds drafted) (hd : d ∈ drafted) :
    b.spawnsOf d.name = d.pending.filterMap (·.resolve? b.app) := by
  rw [spawnsOf, h.pending, TaskDraft.filter_flatMap_pending h.nodup hd]

/-- Where every target has a draft, looking spawns up loses none. -/
theorem Holds.spawnsFor (h : b.Holds drafted) (sender : TaskName) {clauses : List Clause}
    (htargets : ∀ target ∈ clauses.filterMap Clause.target?, ∃ d ∈ drafted, d.name = target) :
    SpawnsFor drafted clauses
      ((clauses.filterMap (Clause.pending? sender)).filterMap (·.resolve? b.app)) := by
  induction clauses with
  | nil => exact .nil
  | cons clause clauses ih =>
    cases clause with
    | spawns target capacity =>
      obtain ⟨⟨d, hd, hname⟩, hrest⟩ := List.forall_mem_cons.1 htargets
      have hfound : (⟨sender, target, capacity, .immediate⟩ : PendingSpawn).resolve? b.app =
          some ⟨target, d.core, d.priority, capacity, .immediate⟩ := h.resolve?_eq hd hname
      have hpending : Clause.pending? sender (.spawns target capacity) =
          some ⟨sender, target, capacity, .immediate⟩ := rfl
      rw [List.filterMap_cons_some hpending, List.filterMap_cons, hfound]
      exact .spawns hd hname (ih hrest)
    | schedules target capacity =>
      obtain ⟨⟨d, hd, hname⟩, hrest⟩ := List.forall_mem_cons.1 htargets
      have hfound : (⟨sender, target, capacity, .delayed⟩ : PendingSpawn).resolve? b.app =
          some ⟨target, d.core, d.priority, capacity, .delayed⟩ := h.resolve?_eq hd hname
      have hpending : Clause.pending? sender (.schedules target capacity) =
          some ⟨sender, target, capacity, .delayed⟩ := rfl
      rw [List.filterMap_cons_some hpending, List.filterMap_cons, hfound]
      exact .schedules hd hname (ih hrest)
    | message type => exact .silent rfl (ih htargets)
    | reads r => exact .silent rfl (ih htargets)
    | writes r => exact .silent rfl (ih htargets)

/-! ## What building comes to -/

/-- The search for a missing target goes through the targets of the drafts. -/
theorem Holds.find?_missing (h : b.Holds drafted) :
    (b.pending.find? (·.target ∉ b.app.tasks)).map PendingSpawn.target =
      (drafted.flatMap TaskDraft.targets).find? (· ∉ b.app.tasks) := by
  rw [← h.targets, List.find?_map]
  rfl

theorem Holds.build_eq_error_iff (h : b.Holds drafted) {name : TaskName} :
    b.build = .error ⟨name⟩ ↔ IsFirstMissing drafted name := by
  have hbuild : b.build = .error ⟨name⟩ ↔
      (drafted.flatMap TaskDraft.targets).find? (· ∉ b.app.tasks) = some name := by
    rw [← h.find?_missing, build]
    cases b.pending.find? (·.target ∉ b.app.tasks) with
    | none => simp
    | some p => simp
  rw [hbuild, List.find?_eq_some_iff_append, IsFirstMissing]
  simp only [decide_eq_true_eq, Bool.not_eq_true', decide_eq_false_iff_not, not_not,
    h.mem_tasks_iff]
  constructor
  · rintro ⟨hmissing, before, after, hsplit, hbefore⟩
    exact ⟨before, after, hsplit, fun d hd hname => hmissing ⟨d, hd, hname⟩, hbefore⟩
  · rintro ⟨before, after, hsplit, hmissing, hbefore⟩
    exact ⟨fun ⟨d, hd, hname⟩ => hmissing d hd hname, before, after, hsplit, hbefore⟩

theorem Holds.build_eq_ok_iff (h : b.Holds drafted) {app : App} :
    b.build = .ok app ↔
      (∀ target ∈ drafted.flatMap TaskDraft.targets, ∃ d ∈ drafted, d.name = target) ∧
        app = b.app.attach b.spawnsOf := by
  have hnone : b.pending.find? (·.target ∉ b.app.tasks) = none ↔
      ∀ target ∈ drafted.flatMap TaskDraft.targets, ∃ d ∈ drafted, d.name = target := by
    rw [← Option.map_eq_none_iff, h.find?_missing]
    simp only [List.find?_eq_none, decide_eq_true_eq, not_not, h.mem_tasks_iff]
  rw [← hnone, build]
  cases b.pending.find? (·.target ∉ b.app.tasks) with
  | none =>
    rw [Except.ok.injEq, eq_comm, and_iff_right rfl]
    rfl
  | some p => simp

/-- Built, the task of a draft is the one that is declared. -/
theorem Holds.declares (h : b.Holds drafted)
    (htargets : ∀ target ∈ drafted.flatMap TaskDraft.targets, ∃ d ∈ drafted, d.name = target)
    (hd : d ∈ drafted) : d.Declares drafted (d.task.attach b.spawnsOf) := by
  have hown : SpawnsFor drafted d.clauses (b.spawnsOf d.name) := by
    rw [h.spawnsOf_eq hd]
    exact h.spawnsFor d.name fun target ht => htargets target (List.mem_flatMap.2 ⟨d, hd, ht⟩)
  have hspawns : b.spawnsOf d.name = d.task.spawns ++ b.spawnsOf d.task.name := by
    rw [TaskDraft.spawns_task, TaskDraft.name_task, List.nil_append]
  rw [hspawns] at hown
  exact TaskDraft.declares_task hown

theorem enters_attach {more : TaskName → List Spawn} {steps : List Step}
    (h : ∀ d ∈ drafts steps, d.Declares drafted (d.task.attach more)) :
    Enters drafted steps ((steps.filterMap Step.bareEntry?).map (Entry.attach more)) := by
  induction steps with
  | nil => exact .nil
  | cons s steps ih =>
    rw [drafts_cons] at h
    have hrest := ih fun d hd => h d (List.mem_append_right _ hd)
    cases s with
    | resource r => exact .resource hrest
    | task d => exact .task (h d (List.mem_append_left _ (List.mem_singleton.2 rfl))) hrest
    | discard d => exact .discard hrest

/-! ## After any steps -/

theorem tasksOf_bareEntries (steps : List Step) :
    App.tasksOf (steps.filterMap Step.bareEntry?) = (drafts steps).map TaskDraft.task := by
  induction steps with
  | nil => rfl
  | cons s steps ih =>
    cases s with
    | resource r => exact ih
    | task d => exact congrArg (d.task :: ·) ih
    | discard d => exact ih

/-- The steps that were taken leave a blueprint that holds their drafts. -/
theorem holds_of_accepts {cores : List Core} {steps : List Step}
    (h : (App.ofCores cores).Accepts (steps.filterMap Step.bareEntry?) b.app)
    (hpending : b.pending = (drafts steps).flatMap TaskDraft.pending) : b.Holds (drafts steps) := by
  constructor
  case task?_iff =>
    intro key t
    have hempty : (App.ofCores cores).task? key = none := Std.ExtTreeMap.getElem?_empty
    rw [h.task?_eq_some_iff, hempty, ← App.mem_tasksOf, tasksOf_bareEntries, List.mem_map]
    constructor
    · rintro (hnone | ⟨⟨d, hd, rfl⟩, hname⟩)
      · cases hnone
      · exact ⟨d, hd, rfl, TaskDraft.name_task.symm.trans hname⟩
    · rintro ⟨d, hd, rfl, hname⟩
      exact Or.inr ⟨⟨d, hd, rfl⟩, TaskDraft.name_task.trans hname⟩
  case nodup =>
    have hnodup := h.nodup_names
    have hnames : Task.name ∘ TaskDraft.task = TaskDraft.name := funext fun d => d.name_task
    rwa [tasksOf_bareEntries, List.map_map, hnames] at hnodup
  case pending => exact hpending

theorem holds_attemptAll {count : UInt8} {steps : List Step}
    {outcomes : List (Option DeclarationError)}
    (h : ((ofCoreCount count).attemptAll steps).value = (outcomes, b)) :
    b.Holds (drafts (taken steps outcomes)) := by
  obtain ⟨hdecided, hpending⟩ := decided_attemptAll h
  exact holds_of_accepts hdecided.accepts hpending

theorem refines_of_accepts {count : UInt8} {steps : List Step}
    (h : (App.ofCores (coresBelow count)).Accepts (steps.filterMap Step.bareEntry?) b.app)
    (hholds : b.Holds (drafts steps)) : b.Refines count steps := by
  have henters : ∀ app, b.build = .ok app → app = b.app.attach b.spawnsOf ∧
      (∀ d ∈ drafts steps, d.Declares (drafts steps) (d.task.attach b.spawnsOf)) := by
    intro app hbuild
    obtain ⟨htargets, happ⟩ := hholds.build_eq_ok_iff.1 hbuild
    exact ⟨happ, fun d hd => hholds.declares htargets hd⟩
  constructor
  case nodup => exact hholds.nodup
  case attached => exact build_eq_foldlM b.app b.pending
  case missing_iff =>
    intro name
    exact hholds.build_eq_error_iff
  case built_iff =>
    simp [hholds.build_eq_ok_iff]
  case entered =>
    intro app hbuild
    exact ⟨_, enters_attach (henters app hbuild).2⟩
  case direct =>
    intro app hbuild entries hentries ledger
    obtain ⟨rfl, hdeclares⟩ := henters app hbuild
    have hfiled : (App.ofCores (coresBelow count)).WellFiled := App.wellFiled_of_empty rfl rfl
    have hdirect : ((App.ofCores (coresBelow count)).attach b.spawnsOf).Accepts _
        (b.app.attach b.spawnsOf) := h.attach
    rw [hentries.unique hholds.nodup (enters_attach hdeclares), Ledger.settle_attemptAll hfiled]
    exact congrArg _ hdirect.value_attemptAll
  case task?_iff =>
    intro app hbuild key t
    obtain ⟨rfl, hdeclares⟩ := henters app hbuild
    have hattach : ∀ d ∈ drafts steps, d.name = key →
        (b.app.attach b.spawnsOf).task? key = some (d.task.attach b.spawnsOf) := by
      rintro d hd rfl
      rw [App.task?_attach, hholds.task?_iff.2 ⟨d, hd, rfl, rfl⟩, Option.map_some, Task.attach,
        TaskDraft.name_task]
    constructor
    · intro ht
      obtain ⟨u, hu, -⟩ := Option.map_eq_some_iff.1 (App.task?_attach.symm.trans ht)
      obtain ⟨d, hd, -, hname⟩ := hholds.task?_iff.1 hu
      rw [hattach d hd hname, Option.some.injEq] at ht
      exact ⟨d, hd, hname, ht ▸ hdeclares d hd⟩
    · rintro ⟨d, hd, hname, ht⟩
      rw [hattach d hd hname, (hdeclares d hd).unique hholds.nodup ht]

theorem refines_attemptAll {count : UInt8} {steps : List Step}
    {outcomes : List (Option DeclarationError)}
    (h : ((ofCoreCount count).attemptAll steps).value = (outcomes, b)) :
    b.Refines count (taken steps outcomes) :=
  refines_of_accepts (decided_attemptAll h).1.accepts (holds_attemptAll h)

end Blueprint

/-- Whatever is tried on a blueprint, no check stops it; a step is refused when declaring its entry
on the application so far is, and for the same reason, and then leaves no trace; and of the steps
that were not refused, building makes what declaring their entries makes, or it reports the first
target that is missing. -/
theorem blueprint_refines (count : UInt8) (steps : List Blueprint.Step) (ledger : Ledger) :
    ∃ outcomes b,
      (ledger.settle ((Blueprint.ofCoreCount count).attemptAll steps)).1 = .ok (outcomes, b) ∧
        Blueprint.Decided (App.ofCores (coresBelow count)) steps outcomes b.app ∧
        ((Blueprint.ofCoreCount count).attemptAll (Blueprint.taken steps outcomes)).value =
          ((Blueprint.taken steps outcomes).map fun _ => none, b) ∧
        b.Refines count (Blueprint.taken steps outcomes) := by
  have hfiled : (Blueprint.ofCoreCount count).app.WellFiled := App.wellFiled_of_empty rfl rfl
  cases hrun : ((Blueprint.ofCoreCount count).attemptAll steps).value with
  | mk outcomes b =>
    obtain ⟨hdecided, -⟩ := Blueprint.decided_attemptAll hrun
    refine ⟨outcomes, b, ?_, hdecided, Blueprint.attemptAll_taken hrun,
      Blueprint.refines_attemptAll hrun⟩
    rw [Ledger.settle_attemptAll_blueprint hfiled, hrun]

namespace Relay

/-- Polling by name, with both of its starts. -/
def pollDraft : TaskDraft :=
  ⟨"poll", ⟨0⟩, 1, [.writes "bus", .spawns "log" 4, .reads "bus", .schedules "log" 4]⟩

/-- Logging by name. -/
def logDraft : TaskDraft := ⟨"log", ⟨1⟩, 2, [.writes "bus"]⟩

/-- The relay by name: polling comes before the task that it starts, is declared once more and
refused, and a third task is thought better of. -/
def steps : List Blueprint.Step :=
  [.resource bus, .task pollDraft, .task logDraft,
    .task ⟨"poll", ⟨1⟩, 3, [.spawns "nobody" 1]⟩,
    .discard ⟨"send", ⟨0⟩, 1, [.spawns "nobody" 1]⟩]

/-- The blueprint after these steps. -/
def blueprint : Blueprint := ((Blueprint.ofCoreCount 2).attemptAll steps).value.2

theorem build_blueprint : blueprint.build = .ok app := by
  have hnone : blueprint.pending.find? (·.target ∉ blueprint.app.tasks) = none := by
    decide +kernel
  rw [Blueprint.build, hnone, Except.ok.injEq]
  exact App.eq_of_parts (by decide +kernel) (by decide +kernel) (by decide +kernel)

end Relay

/-- Of the steps of the relay only the second declaration of polling is refused, and its start of
nobody is not missed; polling is built as its first draft has it. -/
theorem blueprint_refines_relay :
    Blueprint.Decided (App.ofCores (coresBelow 2)) Relay.steps
        [none, none, none, some (.duplicateTask "poll"), none] Relay.blueprint.app ∧
      Relay.blueprint.build = .ok Relay.app ∧
      Relay.pollDraft.Declares [Relay.pollDraft, Relay.logDraft] Relay.poll := by
  obtain ⟨outcomes, b, hsettle, hdecided, -, hrefines⟩ := blueprint_refines 2 Relay.steps ∅
  have hfiled : (Blueprint.ofCoreCount 2).app.WellFiled := App.wellFiled_of_empty rfl rfl
  have hrun : ((Blueprint.ofCoreCount 2).attemptAll Relay.steps).value =
      ([none, none, none, some (.duplicateTask "poll"), none], Relay.blueprint) := by
    decide +kernel
  rw [Ledger.settle_attemptAll_blueprint hfiled, hrun, Except.ok.injEq] at hsettle
  obtain ⟨rfl, rfl⟩ := Prod.mk.inj hsettle
  refine ⟨hdecided, Relay.build_blueprint, ?_⟩
  have hpoll : Relay.app.task? "poll" = some Relay.poll := by decide +kernel
  obtain ⟨d, hd, hname, hdeclares⟩ :=
    (hrefines.task?_iff _ Relay.build_blueprint "poll" Relay.poll).1 hpoll
  have hdrafts : Blueprint.drafts (Blueprint.taken Relay.steps
      [none, none, none, some (.duplicateTask "poll"), none]) =
        [Relay.pollDraft, Relay.logDraft] := rfl
  rw [hdrafts] at hd hdeclares
  simp only [List.mem_cons, List.not_mem_nil, or_false] at hd
  rcases hd with rfl | rfl
  · exact hdeclares
  · simp [Relay.logDraft] at hname

end MulticoreTasks
