import MulticoreTasks.Proofs.Declaring
import MulticoreTasks.Proofs.ReadBack

/-!
# Storing and loading

A record is loaded by declaring its entries in turn, so that whether an entry is refused might
depend on those before it.  It does not:

* `Entry.refusal?`       : why an entry is refused, said of its key, of itself and of the declared
  cores alone;
* `Record.contents`      : the application that a record describes, sound or not;
* `Record.FirstRefused`  : the refusal of the first bad entry, resources before tasks and each kind
  by key;
* `Record.value_load`    : loading comes to the contents, or to the first refusal;
* `load_inverts_store`   : stored applications read back, and what loads is what is sound.

Names never collide on the way: the entries of one kind stand under different keys, and one that
does not bear the name of its key is refused before its name is looked up.
-/

namespace MulticoreTasks

/-! ## What is wrong with an entry -/

/-- The refusal of an entry whose name is taken. -/
def Entry.duplicate : Entry → DeclarationError
  | .resource r => .duplicateResource r.name
  | .task t => .duplicateTask t.name

/-- The core that an entry names. -/
def Entry.core? : Entry → Option Core
  | resource r => r.lateCore?
  | task t => some t.core

/-- Why an entry that stands under a key is refused: it gives itself another name, or else it names
a core that is not declared. -/
def Entry.refusal? (cores : SortedSet Core) (key : String) (entry : Entry) :
    Option DeclarationError :=
  if key = entry.name then (entry.core?.filter (· ∉ cores)).map .undeclaredCore
  else some (.keyMismatch key entry.name)

namespace Record

/-- The application that a record describes; nothing vouches for it. -/
def contents (record : Record) : App := ⟨record.cores, record.resources, record.tasks⟩

/-- The record has an entry under a key. -/
def Holds (record : Record) (key : String) : Entry → Prop
  | .resource r => record.resources[key]? = some r
  | .task t => record.tasks[key]? = some t

/-- The order of entries with their keys: resources before tasks, and each kind by key. -/
inductive Before : String × Entry → String × Entry → Prop
  | resources {k l : String} {r s : Resource} :
      compare k l = .lt → Before (k, .resource r) (l, .resource s)
  | kinds {k l : String} {r : Resource} {t : Task} : Before (k, .resource r) (l, .task t)
  | tasks {k l : String} {t u : Task} : compare k l = .lt → Before (k, .task t) (l, .task u)

/-- The refusal is that of the first bad entry. -/
def FirstRefused (record : Record) (refusal : DeclarationError) : Prop :=
  ∃ key entry, record.Holds key entry ∧ entry.refusal? record.cores key = some refusal ∧
    ∀ other rival, record.Holds other rival → rival.refusal? record.cores other ≠ none →
      (other, rival) = (key, entry) ∨ Before (key, entry) (other, rival)

end Record

/-! ## One entry -/

theorem Entry.refusal?_eq_none_iff {cores : SortedSet Core} {key : String} {entry : Entry} :
    entry.refusal? cores key = none ↔
      key = entry.name ∧ ∀ core, entry.core? = some core → core ∈ cores := by
  unfold refusal?
  split
  · next hname => simp [hname, Option.filter_eq_none_iff]
  · next hname => simp [hname]

namespace App

variable {app : App} {key : String} {entry : Entry}

/-- File an entry under its name. -/
def insert (app : App) : Entry → App
  | .resource r => app.insertResource r
  | .task t => app.insertTask t

/-- No entry of the same kind stands under the key. -/
def IsFree (app : App) (key : String) : Entry → Prop
  | .resource _ => key ∉ app.resources
  | .task _ => key ∉ app.tasks

/-- All that can become of an attempt to declare an entry. -/
theorem attempt_cases (app : App) (entry : Entry) :
    (¬ app.IsFree entry.name entry ∧ (app.attempt entry).value = (some entry.duplicate, app)) ∨
    (app.IsFree entry.name entry ∧ ∃ core, entry.core? = some core ∧ core ∉ app.cores ∧
      (app.attempt entry).value = (some (.undeclaredCore core), app)) ∨
    (app.IsFree entry.name entry ∧ (∀ core, entry.core? = some core → core ∈ app.cores) ∧
      (app.attempt entry).value = (none, app.insert entry)) := by
  cases entry with
  | resource r =>
    rcases tryResource_cases app r with
      ⟨htaken, hvalue⟩ | ⟨hfree, core, hlate, hcore, hvalue⟩ | ⟨hfree, hlate, hvalue⟩
    · exact Or.inl ⟨not_not_intro htaken, hvalue⟩
    · exact Or.inr (Or.inl ⟨hfree, core, hlate, hcore, hvalue⟩)
    · exact Or.inr (Or.inr ⟨hfree, hlate, hvalue⟩)
  | task t =>
    rcases tryTask_cases app t with
      ⟨htaken, hvalue⟩ | ⟨hfree, hcore, hvalue⟩ | ⟨hfree, hcore, hvalue⟩
    · exact Or.inl ⟨not_not_intro htaken, hvalue⟩
    · exact Or.inr (Or.inl ⟨hfree, t.core, rfl, hcore, hvalue⟩)
    · refine Or.inr (Or.inr ⟨hfree, ?_, hvalue⟩)
      rintro core ⟨⟩
      exact hcore

theorem value_declare (h : app.IsFree entry.name entry) : (app.declare entry).value =
    match entry.core?.filter (· ∉ app.cores) with
    | none => .ok (app.insert entry)
    | some core => .error (.undeclaredCore core) := by
  rw [value_declare_eq]
  rcases attempt_cases app entry with
    ⟨htaken, -⟩ | ⟨-, core, hcore, hundeclared, hvalue⟩ | ⟨-, hdeclared, hvalue⟩
  · exact absurd h htaken
  · have hbad : entry.core?.filter (· ∉ app.cores) = some core :=
      Option.filter_eq_some_iff.2 ⟨hcore, decide_eq_true hundeclared⟩
    rw [hvalue, hbad]
    rfl
  · have hgood : entry.core?.filter (· ∉ app.cores) = none :=
      Option.filter_eq_none_iff.2 fun core hcore => by simpa using hdeclared core hcore
    rw [hvalue, hgood]
    rfl

/-- Where its key is free, an entry is filed, or refused for what is wrong with it. -/
theorem value_file (h : app.IsFree key entry) : (app.file key entry).value =
    match entry.refusal? app.cores key with
    | none => .ok (app.insert entry)
    | some refusal => .error refusal := by
  unfold file Entry.refusal?
  by_cases hname : key = entry.name
  · subst hname
    rw [if_pos rfl, if_pos rfl, value_declare h]
    cases entry.core?.filter (· ∉ app.cores) <;> rfl
  · rw [if_neg hname, if_neg hname]
    rfl

theorem cores_insert : (app.insert entry).cores = app.cores := by
  cases entry <;> rfl

/-- Filing an entry adds it to what was filed, and nothing else. -/
theorem holds_insert (h : app.IsFree entry.name entry) {k : String} {d : Entry} :
    (app.insert entry).toRecord.Holds k d ↔
      app.toRecord.Holds k d ∨ (k, d) = (entry.name, entry) := by
  cases entry with
  | resource r =>
    cases d with
    | task u => simp [Record.Holds, toRecord, App.insert, insertResource]
    | resource s =>
      have hfree : app.resource? r.name = none := Std.ExtTreeMap.getElem?_eq_none h
      show (app.insertResource r).resource? k = some s ↔
        app.resource? k = some s ∨ (k, Entry.resource s) = (r.name, Entry.resource r)
      rw [resource?_insertResource]
      by_cases hname : r.name = k
      · subst hname
        simp [hfree, eq_comm]
      · simp [hname, Ne.symm hname]
  | task t =>
    cases d with
    | resource s => simp [Record.Holds, toRecord, App.insert, insertTask]
    | task u =>
      have hfree : app.task? t.name = none := Std.ExtTreeMap.getElem?_eq_none h
      show (app.insertTask t).task? k = some u ↔
        app.task? k = some u ∨ (k, Entry.task u) = (t.name, Entry.task t)
      rw [task?_insertTask]
      by_cases hname : t.name = k
      · subst hname
        simp [hfree, eq_comm]
      · simp [hname, Ne.symm hname]

/-! ## All entries -/

/-- What comes later finds its key free, also after this entry. -/
theorem IsFree.insert {later : String × Entry} (h : app.IsFree later.1 later.2)
    (hname : key = entry.name) (hlater : Record.Before (key, entry) later) :
    (app.insert entry).IsFree later.1 later.2 := by
  subst hname
  cases hlater with
  | kinds => exact h
  | resources hlt =>
    intro hmem
    rcases Std.ExtTreeMap.mem_insert.1 hmem with heq | hmem
    · exact absurd (hlt.symm.trans heq) (by simp)
    · exact h hmem
  | tasks hlt =>
    intro hmem
    rcases Std.ExtTreeMap.mem_insert.1 hmem with heq | hmem
    · exact absurd (hlt.symm.trans heq) (by simp)
    · exact h hmem

/-- Where their keys are free, entries in order are all filed, or the first bad one is refused. -/
theorem value_fileAll {entries : List (String × Entry)}
    (hfree : ∀ e ∈ entries, app.IsFree e.1 e.2) (horder : entries.Pairwise Record.Before) :
    (app.fileAll entries).value =
      match entries.findSome? fun e => e.2.refusal? app.cores e.1 with
      | none => .ok (entries.foldl (fun app e => app.insert e.2) app)
      | some refusal => .error refusal := by
  induction entries generalizing app with
  | nil => rfl
  | cons e entries ih =>
    obtain ⟨hfirst, hrest⟩ := List.pairwise_cons.1 horder
    have hfile := value_file (hfree e (List.mem_cons_self ..))
    rw [fileAll, Audited.value_bind, hfile, List.findSome?_cons]
    cases hrefusal : e.2.refusal? app.cores e.1 with
    | some refusal => rfl
    | none =>
      have hname := (Entry.refusal?_eq_none_iff.1 hrefusal).1
      have hlater : ∀ d ∈ entries, (app.insert e.2).IsFree d.1 d.2 := fun d hd =>
        (hfree d (List.mem_cons_of_mem _ hd)).insert hname (hfirst d hd)
      show ((app.insert e.2).fileAll entries).value = _
      rw [ih hlater hrest, cores_insert]
      rfl

theorem holds_foldl_insert {entries : List (String × Entry)}
    (hfree : ∀ e ∈ entries, app.IsFree e.1 e.2) (horder : entries.Pairwise Record.Before)
    (hsound : ∀ e ∈ entries, e.1 = e.2.name) {k : String} {d : Entry} :
    (entries.foldl (fun app e => app.insert e.2) app).toRecord.Holds k d ↔
      app.toRecord.Holds k d ∨ (k, d) ∈ entries := by
  induction entries generalizing app with
  | nil => simp
  | cons e entries ih =>
    obtain ⟨hfirst, hrest⟩ := List.pairwise_cons.1 horder
    have hname := hsound e (List.mem_cons_self ..)
    have hlater : ∀ d ∈ entries, (app.insert e.2).IsFree d.1 d.2 := fun d hd =>
      (hfree d (List.mem_cons_of_mem _ hd)).insert hname (hfirst d hd)
    have hhere : app.IsFree e.2.name e.2 := hname ▸ hfree e (List.mem_cons_self ..)
    rw [List.foldl_cons, ih hlater hrest fun d hd => hsound d (List.mem_cons_of_mem _ hd),
      holds_insert hhere, List.mem_cons, or_assoc, ← hname]

theorem cores_foldl_insert (entries : List (String × Entry)) (app : App) :
    (entries.foldl (fun app e => app.insert e.2) app).cores = app.cores := by
  induction entries generalizing app with
  | nil => rfl
  | cons e entries ih => rw [List.foldl_cons, ih, cores_insert]

theorem eq_of_holds {a b : App} (hcores : a.cores = b.cores)
    (h : ∀ k d, a.toRecord.Holds k d ↔ b.toRecord.Holds k d) : a = b := by
  have hresources : a.resources = b.resources :=
    Std.ExtTreeMap.ext_getElem? fun k => Option.ext fun r => h k (.resource r)
  have htasks : a.tasks = b.tasks :=
    Std.ExtTreeMap.ext_getElem? fun k => Option.ext fun t => h k (.task t)
  cases a
  cases b
  simp_all

end App

/-! ## Records -/

namespace Record

variable {record : Record}

theorem mem_entries {e : String × Entry} : e ∈ record.entries ↔ record.Holds e.1 e.2 := by
  obtain ⟨key, entry⟩ := e
  simp only [entries, List.mem_append, List.mem_map, Std.ExtTreeMap.mem_toList_iff_getElem?_eq_some,
    Prod.exists, Prod.mk.injEq]
  cases entry <;> simp [Holds]

theorem entries_pairwise (record : Record) : record.entries.Pairwise Before := by
  refine List.pairwise_append.2 ⟨?_, ?_, ?_⟩
  · exact List.pairwise_map.2 ((Table.entries_pairwise record.resources).imp .resources)
  · exact List.pairwise_map.2 ((Table.entries_pairwise record.tasks).imp .tasks)
  · intro a ha b hb
    obtain ⟨_, -, rfl⟩ := List.mem_map.1 ha
    obtain ⟨_, -, rfl⟩ := List.mem_map.1 hb
    exact .kinds

theorem Before.asymm {a b : String × Entry} (hab : Before a b) : ¬ Before b a := by
  intro hba
  cases hab with
  | kinds => cases hba
  | resources hlt =>
    cases hba with
    | resources hgt => exact absurd (Std.OrientedCmp.gt_of_lt hlt) (by simp [hgt])
  | tasks hlt =>
    cases hba with
    | tasks hgt => exact absurd (Std.OrientedCmp.gt_of_lt hlt) (by simp [hgt])

/-- Loading comes to what the record describes, or to the first refusal. -/
theorem value_load (record : Record) : record.load.value =
    match record.entries.findSome? fun e => e.2.refusal? record.cores e.1 with
    | none => .ok record.contents
    | some refusal => .error refusal := by
  have hfree : ∀ e ∈ record.entries, ({ cores := record.cores } : App).IsFree e.1 e.2 := by
    rintro ⟨key, entry⟩ -
    cases entry <;> exact Std.ExtTreeMap.not_mem_empty
  rw [load, App.value_fileAll hfree record.entries_pairwise]
  dsimp only
  cases hfound : record.entries.findSome? fun e => e.2.refusal? record.cores e.1 with
  | some refusal => rfl
  | none =>
    have hsound : ∀ e ∈ record.entries, e.1 = e.2.name := fun e he =>
      (Entry.refusal?_eq_none_iff.1 (List.findSome?_eq_none_iff.1 hfound e he)).1
    refine congrArg Except.ok (App.eq_of_holds (App.cores_foldl_insert ..) fun k d => ?_)
    rw [App.holds_foldl_insert hfree record.entries_pairwise hsound, mem_entries]
    cases d <;> simp [Holds, App.toRecord, contents]

theorem FirstRefused.unique {a b : DeclarationError} (ha : record.FirstRefused a)
    (hb : record.FirstRefused b) : a = b := by
  obtain ⟨k, d, hd, hda, hfirst⟩ := ha
  obtain ⟨l, e, he, heb, hfirst'⟩ := hb
  have hsome : ∀ {x : Option DeclarationError} {y}, x = some y → x ≠ none := by
    rintro x y rfl
    exact Option.some_ne_none y
  rcases hfirst l e he (hsome heb) with heq | hlt
  · obtain ⟨rfl, rfl⟩ := Prod.mk.inj heq
    exact Option.some.inj (hda.symm.trans heb)
  · rcases hfirst' k d hd (hsome hda) with heq | hgt
    · obtain ⟨rfl, rfl⟩ := Prod.mk.inj heq
      exact Option.some.inj (hda.symm.trans heb)
    · exact absurd hgt hlt.asymm

theorem firstRefused_iff {refusal : DeclarationError} : record.FirstRefused refusal ↔
    record.entries.findSome? (fun e => e.2.refusal? record.cores e.1) = some refusal := by
  have hfirst : ∀ {found}, record.entries.findSome? (fun e => e.2.refusal? record.cores e.1) =
      some found → record.FirstRefused found := by
    intro found hfound
    obtain ⟨e, he, hrefusal, hothers⟩ := exists_first_of_findSome? record.entries_pairwise hfound
    exact ⟨e.1, e.2, mem_entries.1 he, hrefusal, fun k d hd => hothers (k, d) (mem_entries.2 hd)⟩
  constructor
  · intro h
    cases hfound : record.entries.findSome? fun e => e.2.refusal? record.cores e.1 with
    | some found => rw [h.unique (hfirst hfound)]
    | none =>
      obtain ⟨key, entry, hholds, hrefusal, -⟩ := h
      have hnone := List.findSome?_eq_none_iff.1 hfound (key, entry) (mem_entries.2 hholds)
      rw [hrefusal] at hnone
      cases hnone
  · exact hfirst

theorem wellFiled_contents_iff : record.contents.WellFiled ↔
    record.entries.findSome? (fun e => e.2.refusal? record.cores e.1) = none := by
  simp only [List.findSome?_eq_none_iff, mem_entries, Prod.forall, Entry.refusal?_eq_none_iff]
  constructor
  · intro h key entry hholds
    cases entry with
    | resource r =>
      exact ⟨(h.resource_name hholds).symm, fun core hcore => h.late_core hholds hcore⟩
    | task t =>
      refine ⟨(h.task_name hholds).symm, ?_⟩
      rintro core ⟨⟩
      exact h.task_core hholds
  · intro h
    constructor
    case resource_name => exact fun {key r} hr => (h key (.resource r) hr).1.symm
    case task_name => exact fun {key t} ht => (h key (.task t) ht).1.symm
    case late_core => exact fun {key r core} hr hcore => (h key (.resource r) hr).2 core hcore
    case task_core => exact fun {key t} ht => (h key (.task t) ht).2 t.core rfl

end Record

/-! ## Checks -/

theorem App.WellFiled.holds_checks_fileAll {app : App} (h : app.WellFiled)
    (entries : List (String × Entry)) : ∀ c ∈ (app.fileAll entries).checks, c.holds = true := by
  induction entries generalizing app with
  | nil => simp [App.fileAll]
  | cons e entries ih =>
    obtain ⟨key, entry⟩ := e
    have hfile : ∀ c ∈ (app.file key entry).checks, c.holds = true := by
      unfold App.file
      split
      · exact h.holds_checks_declare
      · simp
    simp only [App.fileAll, Audited.checks_bind, List.mem_append]
    rintro c (hc | hc)
    · exact hfile c hc
    · split at hc
      · next next hnext =>
        unfold App.file at hnext
        split at hnext
        · exact ih (h.declare hnext) c hc
        · cases hnext
      · simp at hc

/-- No check stops a record from being loaded or refused. -/
theorem Ledger.settle_load (record : Record) (ledger : Ledger) :
    (ledger.settle record.load).1 = .ok record.load.value := by
  have hbare : ({ cores := record.cores } : App).WellFiled := App.wellFiled_of_empty rfl rfl
  rw [Record.load, settle_of_holds (hbare.holds_checks_fileAll record.entries)]

/-! ## Loading -/

section Outcome

variable {record : Record} {ledger : Ledger}

theorem load_eq_ok_iff {app : App} : (ledger.settle record.load).1 = .ok (.ok app) ↔
    record.contents.WellFiled ∧ app = record.contents := by
  rw [Ledger.settle_load, Except.ok.injEq, Record.value_load, Record.wellFiled_contents_iff]
  cases record.entries.findSome? fun e => e.2.refusal? record.cores e.1 <;> simp [eq_comm]

theorem load_eq_error_iff {refusal : DeclarationError} :
    (ledger.settle record.load).1 = .ok (.error refusal) ↔ record.FirstRefused refusal := by
  rw [Ledger.settle_load, Except.ok.injEq, Record.value_load, Record.firstRefused_iff]
  cases record.entries.findSome? fun e => e.2.refusal? record.cores e.1 <;> simp

theorem not_duplicate_of_firstRefused {refusal : DeclarationError}
    (h : record.FirstRefused refusal) (name : String) :
    refusal ≠ .duplicateResource name ∧ refusal ≠ .duplicateTask name := by
  obtain ⟨key, entry, -, hrefusal, -⟩ := h
  unfold Entry.refusal? at hrefusal
  split at hrefusal
  · obtain ⟨core, -, rfl⟩ := Option.map_eq_some_iff.1 hrefusal
    exact ⟨DeclarationError.noConfusion, DeclarationError.noConfusion⟩
  · cases hrefusal
    exact ⟨DeclarationError.noConfusion, DeclarationError.noConfusion⟩

end Outcome

/-- What is stored of an application reads back as that application.  A record is loaded or refused;
it is loaded exactly when it is sound, and then it is what is stored of the outcome; otherwise the
refusal is that of its first bad entry, and never one of a name that is taken. -/
theorem load_inverts_store (ledger : Ledger) :
    (∀ app : App, app.Reachable → ∃ stored, Record.ofDatum? app.toDatum = some stored ∧
      (ledger.settle stored.load).1 = .ok (.ok app)) ∧
    ∀ record : Record,
      (∃ outcome, (ledger.settle record.load).1 = .ok outcome) ∧
      ((∃ loaded, (ledger.settle record.load).1 = .ok (.ok loaded)) ↔ record.contents.WellFiled) ∧
      (∀ loaded, (ledger.settle record.load).1 = .ok (.ok loaded) → loaded.toRecord = record) ∧
      (∀ refusal, (ledger.settle record.load).1 = .ok (.error refusal) ↔
        record.FirstRefused refusal) ∧
      ∀ refusal, (ledger.settle record.load).1 = .ok (.error refusal) → ∀ name,
        refusal ≠ .duplicateResource name ∧ refusal ≠ .duplicateTask name := by
  refine ⟨?_, fun record => ⟨⟨_, Ledger.settle_load record ledger⟩, ?_, ?_, ?_, ?_⟩⟩
  · intro app h
    exact ⟨app.toRecord, Record.ofDatum?_toDatum app.toRecord, load_eq_ok_iff.2 ⟨h.filed, rfl⟩⟩
  · simp only [load_eq_ok_iff]
    exact ⟨fun ⟨_, hsound, _⟩ => hsound, fun hsound => ⟨_, hsound, rfl⟩⟩
  · intro loaded hloaded
    obtain ⟨-, rfl⟩ := load_eq_ok_iff.1 hloaded
    rfl
  · intro refusal
    exact load_eq_error_iff
  · intro refusal hrefused
    exact not_duplicate_of_firstRefused (load_eq_error_iff.1 hrefused)

namespace Relay

/-- The record of a relay on one core, so that logging has nowhere to run; and the bus was renamed,
and is to be initialised by a core that was never there. -/
def damaged : Record :=
  { app.toRecord with
    cores := SortedSet.ofList [⟨0⟩]
    resources := app.resources.insert "bus" { bus with name := "line", init := .late ⟨7⟩ } }

end Relay

/-- The relay reads back.  Of its damaged record the bus comes before logging, and its name before
its core. -/
theorem load_inverts_store_relay :
    (∃ stored, Record.ofDatum? Relay.app.toDatum = some stored ∧
      ((∅ : Ledger).settle stored.load).1 = .ok (.ok Relay.app)) ∧
    Relay.damaged.FirstRefused (.keyMismatch "bus" "line") := by
  obtain ⟨hstored, hloaded⟩ := load_inverts_store ∅
  obtain ⟨-, -, -, hrefused, -⟩ := hloaded Relay.damaged
  exact ⟨hstored Relay.app Relay.reachable, (hrefused _).1 rfl⟩

end MulticoreTasks
