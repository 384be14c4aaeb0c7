import MulticoreTasks.Proofs.Loading

/-!
# Declarations that may fail

A run of declarations goes on whatever becomes of each of them.  What can become of one is said once
(`App.attempt_cases`), and the run is taken apart into its attempts:

* `Attempt`             : a declaration with the application before it and the one after it;
* `App.Leads`           : attempts made one after the other, from one application to another;
* `Attempt.IsDecided`   : when an attempt is refused and why, and what it changes;
* `IsFirstAccepted`     : no declaration of the same kind and name was accepted before;
* `declarations_atomic` : what holds of every run and of every application on its way.

The check that follows an accepted task looks at all tasks that are stored by then, so that it is
the invariant of the whole run, and not this one task, that keeps it from failing.
-/

namespace MulticoreTasks

/-! ## One declaration -/

/-- The entries are of one kind and bear one name, so that at most one of them can be filed. -/
def Entry.Rivals : Entry → Entry → Prop
  | .resource r, .resource s => r.name = s.name
  | .task t, .task u => t.name = u.name
  | _, _ => False

theorem Entry.Rivals.symm {a b : Entry} (h : a.Rivals b) : b.Rivals a := by
  cases a with
  | resource r =>
    cases b with
    | resource s => exact Eq.symm h
    | task u => exact h
  | task t =>
    cases b with
    | resource s => exact h
    | task u => exact Eq.symm h

namespace App

variable {app next first last : App} {entry : Entry}

/-- An entry is accepted when its name is free and its core declared, and then it is filed. -/
theorem declare_eq_ok_iff : (app.declare entry).value = .ok next ↔
    app.IsFree entry.name entry ∧ (∀ core, entry.core? = some core → core ∈ app.cores) ∧
      next = app.insert entry := by
  rw [value_declare_eq]
  rcases attempt_cases app entry with
    ⟨htaken, hvalue⟩ | ⟨-, core, hcore, hundeclared, hvalue⟩ | ⟨hfree, hdeclared, hvalue⟩
  · rw [hvalue]
    exact iff_of_false nofun fun h => htaken h.1
  · rw [hvalue]
    exact iff_of_false nofun fun h => hundeclared (h.2.1 core hcore)
  · rw [hvalue, unlessRefused, Except.ok.injEq, eq_comm]
    exact ⟨fun h => ⟨hfree, hdeclared, h⟩, fun h => h.2.2⟩

end App

/-! ## Attempts -/

/-- One declaration of a run: the application that it is tried on, the refusal if it is refused, and
the application that it leaves. -/
structure Attempt where
  before : App
  entry : Entry
  refusal : Option DeclarationError
  after : App

/-- Made one after the other, the attempts lead from one application to another. -/
inductive App.Leads : App → List Attempt → App → Prop
  | nil (app : App) : Leads app [] app
  | cons {a : Attempt} {attempts : List Attempt} {last : App} :
      (a.before.attempt a.entry).value = (a.refusal, a.after) → Leads a.after attempts last →
        Leads a.before (a :: attempts) last

/-- When an attempt is refused and why, and what it changes. -/
structure Attempt.IsDecided (a : Attempt) : Prop where
  refused_iff : a.refusal ≠ none ↔ ¬ a.before.IsFree a.entry.name a.entry ∨
    ∃ core, a.entry.core? = some core ∧ core ∉ a.before.cores
  /-- A name that is taken is noticed first, whatever the core. -/
  duplicate_iff : a.refusal = some a.entry.duplicate ↔ ¬ a.before.IsFree a.entry.name a.entry
  undeclared_iff : ∀ core, a.refusal = some (.undeclaredCore core) ↔
    a.before.IsFree a.entry.name a.entry ∧ a.entry.core? = some core ∧ core ∉ a.before.cores
  kept : a.refusal ≠ none → a.after = a.before
  filed : a.refusal = none → ∀ key d, a.after.toRecord.Holds key d ↔
    a.before.toRecord.Holds key d ∨ (key, d) = (a.entry.name, a.entry)

/-- The entry was accepted, and none of its kind and name before it. -/
def IsFirstAccepted (attempts : List Attempt) (d : Entry) : Prop :=
  ∃ earlier a later, attempts = earlier ++ a :: later ∧ a.entry = d ∧ a.refusal = none ∧
    ∀ b ∈ earlier, b.refusal = none → ¬ b.entry.Rivals d

theorem Entry.duplicate_ne_undeclared (entry : Entry) (core : Core) :
    entry.duplicate ≠ .undeclaredCore core := by
  cases entry <;> exact DeclarationError.noConfusion

namespace App

variable {app first last : App} {attempts : List Attempt} {a : Attempt} {d : Entry} {key : String}

theorem cores_of_attempt (h : (a.before.attempt a.entry).value = (a.refusal, a.after)) :
    a.after.cores = a.before.cores := by
  rw [value_attempt] at h
  split at h
  · next next hnext =>
    obtain ⟨-, rfl⟩ := Prod.mk.inj h
    obtain ⟨-, -, hnext⟩ := declare_eq_ok_iff.1 hnext
    rw [hnext, cores_insert]
  · rw [(Prod.mk.inj h).2]

/-- The attempt that is made is decided by the name and the core of its entry alone. -/
theorem isDecided_of_attempt (h : (a.before.attempt a.entry).value = (a.refusal, a.after)) :
    a.IsDecided := by
  obtain ⟨before, entry, refusal, after⟩ := a
  replace h : (before.attempt entry).value = (refusal, after) := h
  rcases attempt_cases before entry with
    ⟨htaken, hvalue⟩ | ⟨hfree, core, hcore, hundeclared, hvalue⟩ | ⟨hfree, hdeclared, hvalue⟩
  · rw [hvalue] at h
    obtain ⟨rfl, rfl⟩ := Prod.mk.inj h
    constructor
    case refused_iff => simp [htaken]
    case duplicate_iff => simp [htaken]
    case undeclared_iff => simp [htaken, entry.duplicate_ne_undeclared]
    case kept => exact fun _ => rfl
    case filed => simp
  · rw [hvalue] at h
    obtain ⟨rfl, rfl⟩ := Prod.mk.inj h
    constructor
    case refused_iff => simp [hcore, hundeclared]
    case duplicate_iff => simp [hfree, (entry.duplicate_ne_undeclared core).symm]
    case undeclared_iff =>
      intro other
      simp only [hfree, hcore, Option.some.injEq, DeclarationError.undeclaredCore.injEq, true_and]
      constructor
      · rintro rfl
        exact ⟨rfl, hundeclared⟩
      · exact And.left
    case kept => exact fun _ => rfl
    case filed => simp
  · rw [hvalue] at h
    obtain ⟨rfl, rfl⟩ := Prod.mk.inj h
    constructor
    case refused_iff => simpa [hfree] using hdeclared
    case duplicate_iff => simp [hfree]
    case undeclared_iff => simpa [hfree] using hdeclared
    case kept => simp
    case filed => exact fun _ key d => holds_insert hfree

/-! ## Runs -/

/-- Trying entries is making an attempt at each of them. -/
theorem exists_leads (app : App) (entries : List Entry) : ∃ attempts last,
    app.Leads attempts last ∧ attempts.map Attempt.entry = entries ∧
      (app.attemptAll entries).value = (attempts.map Attempt.refusal, last) := by
  induction entries generalizing app with
  | nil => exact ⟨[], app, .nil app, rfl, rfl⟩
  | cons entry entries ih =>
    obtain ⟨attempts, last, hleads, hentries, hvalue⟩ := ih (app.attempt entry).value.2
    let a : Attempt := ⟨app, entry, (app.attempt entry).value.1, (app.attempt entry).value.2⟩
    have hstep : (a.before.attempt a.entry).value = (a.refusal, a.after) := rfl
    refine ⟨a :: attempts, last, .cons hstep hleads, congrArg (entry :: ·) hentries, ?_⟩
    simp only [attemptAll, Audited.value_bind, hvalue]
    rfl

theorem Leads.cores_eq (h : first.Leads attempts last) : last.cores = first.cores ∧
    ∀ a ∈ attempts, a.before.cores = first.cores := by
  induction h with
  | nil app => exact ⟨rfl, by simp⟩
  | cons hstep _ ih =>
    obtain ⟨hlast, hrest⟩ := ih
    rw [cores_of_attempt hstep] at hlast hrest
    exact ⟨hlast, List.forall_mem_cons.2 ⟨rfl, hrest⟩⟩

/-- The invariant holds of every application on the way. -/
theorem Leads.wellFiled (hfirst : first.WellFiled) (h : first.Leads attempts last) :
    last.WellFiled ∧ ∀ a ∈ attempts, a.before.WellFiled := by
  induction h with
  | nil app => exact ⟨hfirst, by simp⟩
  | @cons a attempts last hstep _ ih =>
    have hafter : a.after.WellFiled := by
      have hkept : (a.before.attempt a.entry).value.2.WellFiled := hfirst.attempt a.entry
      rwa [hstep] at hkept
    obtain ⟨hlast, hrest⟩ := ih hafter
    exact ⟨hlast, List.forall_mem_cons.2 ⟨hfirst, hrest⟩⟩

theorem Leads.isDecided (h : first.Leads attempts last) : ∀ a ∈ attempts, a.IsDecided := by
  induction h with
  | nil app => simp
  | cons hstep _ ih => exact List.forall_mem_cons.2 ⟨isDecided_of_attempt hstep, ih⟩

/-- A run files what it accepts, beside what was filed before. -/
theorem Leads.holds_iff (h : first.Leads attempts last) : last.toRecord.Holds key d ↔
    first.toRecord.Holds key d ∨
      ∃ a ∈ attempts, a.refusal = none ∧ (a.entry.name, a.entry) = (key, d) := by
  induction h with
  | nil app => simp
  | @cons a attempts last hstep _ ih =>
    have hdecided := isDecided_of_attempt hstep
    simp only [ih, List.mem_cons, exists_eq_or_imp]
    cases hrefusal : a.refusal with
    | some refusal =>
      rw [hdecided.kept (by simp [hrefusal])]
      simp
    | none =>
      rw [hdecided.filed hrefusal, eq_comm, or_assoc]
      simp

/-- A run can be cut before any of its attempts. -/
theorem Leads.cut {earlier later : List Attempt} (h : first.Leads (earlier ++ a :: later) last) :
    first.Leads earlier a.before ∧ a.IsDecided := by
  induction earlier generalizing first with
  | nil =>
    cases h with
    | cons hstep _ => exact ⟨.nil _, isDecided_of_attempt hstep⟩
  | cons b earlier ih =>
    cases h with
    | cons hstep hrest =>
      obtain ⟨hearlier, hdecided⟩ := ih hrest
      exact ⟨.cons hstep hearlier, hdecided⟩

theorem isFree_congr {entry : Entry} (h : entry.Rivals d) :
    app.IsFree entry.name entry ↔ app.IsFree d.name d := by
  cases entry with
  | resource r =>
    cases d with
    | resource s =>
      have hname : r.name = s.name := h
      show r.name ∉ app.resources ↔ s.name ∉ app.resources
      rw [hname]
    | task u => cases h
  | task t =>
    cases d with
    | resource s => cases h
    | task u =>
      have hname : t.name = u.name := h
      show t.name ∉ app.tasks ↔ u.name ∉ app.tasks
      rw [hname]

theorem not_isFree_of_holds (h : app.toRecord.Holds d.name d) : ¬ app.IsFree d.name d := by
  cases d with
  | resource r => exact not_not_intro (Table.mem_iff_exists.2 ⟨r, h⟩)
  | task t => exact not_not_intro (Table.mem_iff_exists.2 ⟨t, h⟩)

/-- What is accepted is the first of its kind and name, since a later one finds the name taken. -/
theorem Leads.isFirstAccepted_iff (h : first.Leads attempts last) : IsFirstAccepted attempts d ↔
    ∃ a ∈ attempts, a.refusal = none ∧ a.entry = d := by
  constructor
  · rintro ⟨earlier, a, later, rfl, hentry, haccepted, -⟩
    exact ⟨a, by simp, haccepted, hentry⟩
  · rintro ⟨a, ha, haccepted, rfl⟩
    obtain ⟨earlier, later, rfl⟩ := List.append_of_mem ha
    obtain ⟨hearlier, hdecided⟩ := h.cut
    refine ⟨earlier, a, later, rfl, rfl, haccepted, ?_⟩
    intro b hb hbaccepted hrivals
    have hfiled : a.before.toRecord.Holds b.entry.name b.entry :=
      hearlier.holds_iff.2 (Or.inr ⟨b, hb, hbaccepted, rfl⟩)
    have htaken : ¬ a.before.IsFree a.entry.name a.entry := by
      rw [← isFree_congr hrivals]
      exact not_isFree_of_holds hfiled
    exact hdecided.refused_iff.2 (Or.inl htaken) haccepted

end App

/-- Whatever is declared on given cores, in whatever mix of successes and failures: no check stops
the run; every application on its way has its entries under their own names and on the given cores;
a declaration is refused exactly when its name is taken or else its core not declared, and then
leaves no trace; and what is stored in the end are the first entries of their kind and name that
were accepted. -/
theorem declarations_atomic (cores : List Core) (entries : List Entry) (ledger : Ledger) :
    ∃ attempts last, (App.ofCores cores).Leads attempts last ∧
      attempts.map Attempt.entry = entries ∧
      (ledger.settle ((App.ofCores cores).attemptAll entries)).1 =
        .ok (attempts.map Attempt.refusal, last) ∧
      (∀ a ∈ attempts, a.before.WellFiled ∧ a.before.cores = SortedSet.ofList cores ∧
        a.IsDecided) ∧
      last.WellFiled ∧ last.cores = SortedSet.ofList cores ∧
      ∀ key d, last.toRecord.Holds key d ↔ d.name = key ∧ IsFirstAccepted attempts d := by
  have hempty : (App.ofCores cores).WellFiled := App.wellFiled_of_empty rfl rfl
  obtain ⟨attempts, last, hleads, hentries, hvalue⟩ := (App.ofCores cores).exists_leads entries
  obtain ⟨hlast, hway⟩ := hleads.wellFiled hempty
  obtain ⟨hlastCores, hwayCores⟩ := hleads.cores_eq
  refine ⟨attempts, last, hleads, hentries, ?_, ?_, hlast, hlastCores, ?_⟩
  · rw [Ledger.settle_attemptAll hempty, hvalue]
  · intro a ha
    exact ⟨hway a ha, hwayCores a ha, hleads.isDecided a ha⟩
  · intro key d
    have hnone : ¬ (App.ofCores cores).toRecord.Holds key d := by
      cases d <;> simp [Record.Holds, App.toRecord, App.ofCores]
    rw [hleads.holds_iff, or_iff_right hnone, hleads.isFirstAccepted_iff]
    constructor
    · rintro ⟨a, ha, haccepted, heq⟩
      obtain ⟨hname, rfl⟩ := Prod.mk.inj heq
      exact ⟨hname, a, ha, haccepted, rfl⟩
    · rintro ⟨rfl, a, ha, haccepted, rfl⟩
      exact ⟨a, ha, haccepted, rfl⟩

end MulticoreTasks
