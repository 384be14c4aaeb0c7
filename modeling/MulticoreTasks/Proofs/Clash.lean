import MulticoreTasks.Resource.Ceiling
import MulticoreTasks.Proofs.Accessors

/-!
# Ceilings and clashes, by accessor

The stages look accessors up by name.  Where every accessor is the task of its own name
(`App.Resolved`), looking up the names of the accessors gives the accessors back, and what is
computed from names can be said of tasks:

* `ceiling?_eq_some_iff` : a ceiling is attained and not exceeded;
* `clash?_eq_none_iff`   : the scan for a clash misses none, because ranks come by priority first,
  so that the ranks at one priority follow each other;
* `clash?_eq_some`       : a pair that the scan reports does clash.
-/

namespace MulticoreTasks

namespace App

/-- Every accessor is the task of its own name. -/
def Resolved (app : App) : Prop := ∀ r t, app.IsAccessor r t → app.task? t.name = some t

/-- Two accessors of a resource stand at one priority on different cores. -/
def HasClash (app : App) (r : ResourceName) : Prop :=
  ∃ t ∈ app.taskList, ∃ u ∈ app.taskList, r ∈ t.resources ∧ r ∈ u.resources ∧
    t.priority = u.priority ∧ t.core ≠ u.core

instance (app : App) (r : ResourceName) : Decidable (app.HasClash r) := by
  unfold HasClash; infer_instance

variable {app : App} {r : ResourceName}

theorem hasClash_iff : app.HasClash r ↔ ∃ t u, app.IsAccessor r t ∧ app.IsAccessor r u ∧
    t.priority = u.priority ∧ t.core ≠ u.core := by
  constructor
  · rintro ⟨t, ht, u, hu, htr, hur, hp, hc⟩
    exact ⟨t, u, ⟨ht, htr⟩, ⟨hu, hur⟩, hp, hc⟩
  · rintro ⟨t, u, ⟨ht, htr⟩, ⟨hu, hur⟩, hp, hc⟩
    exact ⟨t, ht, u, hu, htr, hur, hp, hc⟩

theorem WellFiled.resolved (h : app.WellFiled) : app.Resolved :=
  fun _ _ ht => h.task?_name ht.1

theorem Resolved.eq_of_name_eq (h : app.Resolved) {t u : Task} (ht : app.IsAccessor r t)
    (hu : app.IsAccessor r u) (hname : t.name = u.name) : t = u := by
  have hsome := h r t ht
  rw [hname, h r u hu] at hsome
  exact (Option.some.inj hsome).symm

/-! ## Looking accessors up -/

theorem mem_lookUp {names : SortedSet TaskName} {t : Task} :
    t ∈ app.lookUp names ↔ ∃ name ∈ names, app.task? name = some t := by
  simp [lookUp]

theorem mem_lookUp_accessors (h : app.Resolved) {t : Task} :
    t ∈ app.lookUp (app.accessors r) ↔ app.IsAccessor r t := by
  rw [mem_lookUp]
  constructor
  · rintro ⟨name, hname, ht⟩
    obtain ⟨u, hu, rfl⟩ := mem_accessors_iff.1 hname
    rw [h r u hu] at ht
    cases ht
    exact hu
  · intro ht
    exact ⟨t.name, mem_accessors_iff.2 ⟨t, ht, rfl⟩, h r t ht⟩

/-! ## Ceilings -/

theorem mem_prioritiesOf {names : SortedSet TaskName} {p : Priority} :
    p ∈ app.prioritiesOf names ↔ ∃ t ∈ app.lookUp names, t.priority = p := by
  simp [prioritiesOf]

theorem ceiling?_eq_highest {names : SortedSet TaskName} {c : Priority} :
    app.ceiling? names = some c ↔
      app.prioritiesOf names ≠ [] ∧ c = highest (app.prioritiesOf names) := by
  unfold ceiling?
  split
  · next hnil => simp [hnil]
  · next hne =>
    rw [Option.some.injEq]
    exact ⟨fun h => ⟨hne, h.symm⟩, fun h => h.2.symm⟩

theorem ceiling?_eq_some_iff {names : SortedSet TaskName} {c : Priority} :
    app.ceiling? names = some c ↔
      (∃ t ∈ app.lookUp names, t.priority = c) ∧ ∀ t ∈ app.lookUp names, t.priority ≤ c := by
  rw [ceiling?_eq_highest]
  constructor
  · rintro ⟨hne, rfl⟩
    refine ⟨mem_prioritiesOf.1 (highest_mem hne), fun t ht => ?_⟩
    exact le_highest (mem_prioritiesOf.2 ⟨t, ht, rfl⟩)
  · rintro ⟨hattained, hbound⟩
    have hmem : c ∈ app.prioritiesOf names := mem_prioritiesOf.2 hattained
    refine ⟨List.ne_nil_of_mem hmem, UInt8.le_antisymm (le_highest hmem) ?_⟩
    refine highest_le_iff.2 fun p hp => ?_
    obtain ⟨t, ht, rfl⟩ := mem_prioritiesOf.1 hp
    exact hbound t ht

theorem ceiling?_accessors_isSome {t : Task} (h : app.Resolved) (ht : app.IsAccessor r t) :
    (app.ceiling? (app.accessors r)).isSome := by
  have hmem : t.priority ∈ app.prioritiesOf (app.accessors r) :=
    mem_prioritiesOf.2 ⟨t, (mem_lookUp_accessors h).2 ht, rfl⟩
  rw [ceiling?_eq_highest.2 ⟨List.ne_nil_of_mem hmem, rfl⟩]
  rfl

end App

/-! ## The scan for a clash -/

theorem Rank.priority_le_of_lt {a b : Rank} (h : compare a b = .lt) : a.priority ≤ b.priority := by
  have hcases : compare a.priority b.priority ≠ .gt := by
    intro hgt
    have : compare a b = .gt := by
      change (compare a.priority b.priority).then _ = .gt
      rw [hgt]
      rfl
    rw [h] at this
    cases this
  rw [← Std.LawfulOrderOrd.isLE_compare]
  cases hc : compare a.priority b.priority <;> simp_all

/-- In a list by priority, the ranks at the level of the first are those that directly follow it. -/
theorem mem_takeWhile_level {p : Priority} {l : List Rank}
    (hl : l.Pairwise fun a b => a.priority ≤ b.priority) (hp : ∀ a ∈ l, p ≤ a.priority) {b : Rank} :
    b ∈ l.takeWhile (·.priority = p) ↔ b ∈ l ∧ b.priority = p := by
  induction l with
  | nil => simp
  | cons a l ih =>
    obtain ⟨hhead, htail⟩ := List.pairwise_cons.1 hl
    by_cases ha : a.priority = p
    · rw [List.takeWhile_cons_of_pos (by simpa using ha), List.mem_cons, List.mem_cons,
        ih htail fun c hc => hp c (List.mem_cons_of_mem _ hc)]
      constructor
      · rintro (rfl | ⟨hb, hbp⟩)
        · exact ⟨Or.inl rfl, ha⟩
        · exact ⟨Or.inr hb, hbp⟩
      · rintro ⟨rfl | hb, hbp⟩
        · exact Or.inl rfl
        · exact Or.inr ⟨hb, hbp⟩
    · rw [List.takeWhile_cons_of_neg (by simpa using ha)]
      constructor
      · intro hb
        cases hb
      · rintro ⟨hb, rfl⟩
        -- the first rank is below the level already, and so `b` cannot come after it
        have hle : b.priority ≤ a.priority := hp a (List.mem_cons_self ..)
        rcases List.mem_cons.1 hb with rfl | hb
        · exact absurd rfl ha
        · exact absurd (UInt8.le_antisymm (hhead b hb) hle) ha

/-- The scan reports nothing exactly when no two ranks at one priority are on different cores. -/
theorem clash?_eq_none_iff {l : List Rank} (hl : l.Pairwise fun a b => a.priority ≤ b.priority) :
    clash? l = none ↔ ∀ a ∈ l, ∀ b ∈ l, a.priority = b.priority → a.core = b.core := by
  induction l with
  | nil => simp [clash?]
  | cons first rest ih =>
    obtain ⟨hhead, htail⟩ := List.pairwise_cons.1 hl
    have hlevel : ∀ b, b ∈ rest.takeWhile (·.priority = first.priority) ↔
        b ∈ rest ∧ b.priority = first.priority := fun b => mem_takeWhile_level htail hhead
    have hnone : (rest.takeWhile (·.priority = first.priority)).find? (·.core ≠ first.core) = none ↔
        ∀ b ∈ rest, b.priority = first.priority → b.core = first.core := by
      simp only [List.find?_eq_none, hlevel, decide_eq_true_eq, Decidable.not_not, and_imp]
    have hstep : clash? (first :: rest) = none ↔
        (∀ b ∈ rest, b.priority = first.priority → b.core = first.core) ∧ clash? rest = none := by
      rw [← hnone]
      simp only [clash?]
      split
      · next second hsome =>
        rw [hsome]
        simp
      · next hfind =>
        rw [hfind]
        simp
    rw [hstep, ih htail]
    constructor
    · rintro ⟨hfirst, hrest⟩ a ha b hb hab
      rcases List.mem_cons.1 ha with rfl | harest <;> rcases List.mem_cons.1 hb with rfl | hbrest
      · rfl
      · exact (hfirst b hbrest hab.symm).symm
      · exact hfirst a harest hab
      · exact hrest a harest b hbrest hab
    · intro h
      refine ⟨fun b hb hp => ?_, fun a ha b hb => ?_⟩
      · exact h b (List.mem_cons_of_mem _ hb) first (List.mem_cons_self ..) hp
      · exact h a (List.mem_cons_of_mem _ ha) b (List.mem_cons_of_mem _ hb)

/-- What the scan reports does clash. -/
theorem clash?_eq_some {l : List Rank} {a b : Rank} (h : clash? l = some (a, b)) :
    a ∈ l ∧ b ∈ l ∧ a.priority = b.priority ∧ a.core ≠ b.core := by
  induction l with
  | nil => cases h
  | cons first rest ih =>
    simp only [clash?] at h
    split at h
    · next second hsecond =>
      cases h
      have hcore : b.core ≠ a.core := by simpa using List.find?_some hsecond
      have hmem := List.mem_of_find?_eq_some hsecond
      have hprio : b.priority = a.priority := by
        simpa using List.all_eq_true.1 List.all_takeWhile b hmem
      have hrest : b ∈ rest := (List.takeWhile_sublist _).subset hmem
      exact ⟨List.mem_cons_self .., List.mem_cons_of_mem _ hrest, hprio.symm, hcore.symm⟩
    · obtain ⟨ha, hb, hp, hc⟩ := ih h
      exact ⟨List.mem_cons_of_mem _ ha, List.mem_cons_of_mem _ hb, hp, hc⟩

/-! ## Conflicts -/

namespace App

variable {app : App} {r : ResourceName} {names : SortedSet TaskName}

theorem ranks_pairwise : (app.ranks names).Pairwise fun a b => a.priority ≤ b.priority :=
  Std.ExtTreeSet.ordered_toList.imp Rank.priority_le_of_lt

theorem mem_ranks {a : Rank} : a ∈ app.ranks names ↔ ∃ t ∈ app.lookUp names, t.rank = a := by
  simp [ranks]

theorem conflict?_eq_none_iff : app.conflict? r names = none ↔ app.isTransferable r = true ∨
    ∀ t ∈ app.lookUp names, ∀ u ∈ app.lookUp names, t.priority = u.priority → t.core = u.core := by
  unfold conflict?
  by_cases htrans : app.isTransferable r = true
  · simp [htrans]
  · rw [if_neg htrans, Option.map_eq_none_iff, clash?_eq_none_iff ranks_pairwise]
    constructor
    · intro h
      refine Or.inr fun t ht u hu hp => ?_
      exact h t.rank (mem_ranks.2 ⟨t, ht, rfl⟩) u.rank (mem_ranks.2 ⟨u, hu, rfl⟩) hp
    · rintro (h | h) a ha b hb hp
      · exact absurd h htrans
      · obtain ⟨t, ht, rfl⟩ := mem_ranks.1 ha
        obtain ⟨u, hu, rfl⟩ := mem_ranks.1 hb
        exact h t ht u hu hp

theorem conflict?_eq_some {d : Diagnostic} (h : app.conflict? r names = some d) :
    ∃ t ∈ app.lookUp names, ∃ u ∈ app.lookUp names, t.priority = u.priority ∧ t.core ≠ u.core ∧
      d = .crossCoreConflict r t.priority t.name t.core u.name u.core := by
  unfold conflict? at h
  split at h
  · cases h
  · obtain ⟨⟨a, b⟩, hclash, rfl⟩ := Option.map_eq_some_iff.1 h
    obtain ⟨ha, hb, hp, hc⟩ := clash?_eq_some hclash
    obtain ⟨t, ht, rfl⟩ := mem_ranks.1 ha
    obtain ⟨u, hu, rfl⟩ := mem_ranks.1 hb
    exact ⟨t, ht, u, hu, hp, hc, rfl⟩

end App

end MulticoreTasks
