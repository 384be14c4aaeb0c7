import Mathlib.Order.Bounds.Defs
import MulticoreTasks.Proofs.Classification
import MulticoreTasks.Proofs.Findings

/-!
# The clash that is reported

Of all clashes over a resource one is reported: at the lowest priority at which two cores meet, the
first rank by core and name, and the first one beside it on another core.

* `Rank.Before`, `Rank.IsFirst` : core first, then name; what comes first among ranks;
* `IsLeastClash`                : the pair that is to be reported, of which there is one at most;
* `clash?_eq_some_iff`          : the scan of an ordered list comes to this pair, and to no other;
* `conflict?_eq_byRank`         : it makes no difference whether the ranks that are scanned are a
  set or the ranks of a sorted list of tasks, in which two may be equal;
* `ceilings_report_clash`       : what is found over each resource of an application.

The scan looks at pairs in the order of the list, and at the level of its first member only as far
as this level reaches.  That nothing is missed rests on the order alone: a level is one stretch of
the list, and within it the ranks of the first core come before all others.
-/

namespace MulticoreTasks

/-! ## First ranks -/

namespace Rank

/-- The order of ranks at one priority. -/
def Before (a b : Rank) : Prop :=
  a.core.index < b.core.index ∨ a.core = b.core ∧ compare a.name b.name = .lt

/-- The rank is one of the set, and before all others in it. -/
def IsFirst (s : Set Rank) (a : Rank) : Prop := a ∈ s ∧ ∀ c ∈ s, c = a ∨ a.Before c

variable {a b : Rank} {s : Set Rank}

theorem Before.asymm (hab : a.Before b) : ¬ b.Before a := by
  rintro (hba | ⟨hcore, hba⟩) <;> rcases hab with hab | ⟨hcore', hab⟩
  · exact UInt8.lt_asymm hab hba
  · rw [hcore'] at hba
    exact UInt8.lt_irrefl _ hba
  · rw [hcore] at hab
    exact UInt8.lt_irrefl _ hab
  · rw [Std.OrientedCmp.gt_of_lt hab] at hba
    cases hba

theorem IsFirst.unique (ha : IsFirst s a) (hb : IsFirst s b) : a = b := by
  rcases ha.2 b hb.1 with h | hab
  · exact h.symm
  · rcases hb.2 a ha.1 with h | hba
    · exact h
    · exact absurd hba hab.asymm

theorem compare_eq_lt : compare a b = .lt ↔
    a.priority < b.priority ∨ a.priority = b.priority ∧ a.Before b := by
  change (compare a.priority b.priority).then
    ((compare a.core b.core).then (compare a.name b.name)) = .lt ↔ _
  rw [Ordering.then_eq_lt, Ordering.then_eq_lt, Std.compare_eq_lt, Core.compare_eq_lt,
    Std.compare_eq_iff_eq, Std.compare_eq_iff_eq, Before]

/-- Of two ranks in order, the first has the lower priority, or else it comes before the other one
at its priority. -/
theorem isLE_compare_iff : (compare a b).isLE = true ↔
    a.priority < b.priority ∨ a.priority = b.priority ∧ (b = a ∨ a.Before b) := by
  rw [Ordering.isLE_iff_eq_lt_or_eq_eq, compare_eq_lt, Std.compare_eq_iff_eq]
  constructor
  · rintro ((hlt | ⟨hp, hbefore⟩) | rfl)
    · exact Or.inl hlt
    · exact Or.inr ⟨hp, Or.inr hbefore⟩
    · exact Or.inr ⟨rfl, Or.inl rfl⟩
  · rintro (hlt | ⟨hp, rfl | hbefore⟩)
    · exact Or.inl (Or.inl hlt)
    · exact Or.inr rfl
    · exact Or.inl (Or.inr ⟨hp, hbefore⟩)

theorem priority_le_of_isLE (h : (compare a b).isLE = true) : a.priority ≤ b.priority := by
  rcases isLE_compare_iff.1 h with hlt | ⟨hp, -⟩
  · exact UInt8.le_of_lt hlt
  · rw [hp]
    exact UInt8.le_refl _

theorem before_of_isLE (h : (compare a b).isLE = true) (hp : b.priority = a.priority) :
    b = a ∨ a.Before b := by
  rcases isLE_compare_iff.1 h with hlt | ⟨-, h⟩
  · rw [hp] at hlt
    exact absurd hlt (UInt8.lt_irrefl _)
  · exact h

end Rank

/-! ## The least clash -/

/-- The pair of ranks to report, among all that clash: at the lowest priority at which two cores
meet, the first rank, and the first rank on another core than that of the first. -/
structure IsLeastClash (s : Set Rank) (a b : Rank) : Prop where
  lowest : IsLeast {p | ∃ c ∈ s, ∃ d ∈ s, c.priority = p ∧ d.priority = p ∧ c.core ≠ d.core}
    a.priority
  first : Rank.IsFirst {c | c ∈ s ∧ c.priority = a.priority} a
  second : Rank.IsFirst {c | c ∈ s ∧ c.priority = a.priority ∧ c.core ≠ a.core} b

namespace IsLeastClash

variable {s : Set Rank} {a b a' b' : Rank}

theorem unique (h : IsLeastClash s a b) (h' : IsLeastClash s a' b') : a = a' ∧ b = b' := by
  have hp : a.priority = a'.priority :=
    UInt8.le_antisymm (h.lowest.2 h'.lowest.1) (h'.lowest.2 h.lowest.1)
  have hfirst := h.first
  rw [hp] at hfirst
  obtain rfl := hfirst.unique h'.first
  exact ⟨rfl, h.second.unique h'.second⟩

/-- A rank that no other one meets at its own priority on another core makes no difference. -/
theorem insert {c : Rank} (hc : ∀ d ∈ s, d.priority = c.priority → d.core = c.core)
    (h : IsLeastClash s a b) : IsLeastClash (insert c s) a b := by
  obtain ⟨⟨ha, hpa⟩, hfirst⟩ := h.first
  obtain ⟨⟨hb, hpb, hcore⟩, hsecond⟩ := h.second
  -- the level of the pair is not the one of the new rank, since two cores meet there
  have hlevel : ∀ d ∈ Insert.insert c s, d.priority = a.priority → d ∈ s := by
    rintro d (rfl | hd) hp
    · exact absurd ((hc b hb (hpb.trans hp.symm)).trans (hc a ha hp.symm).symm) hcore
    · exact hd
  have hmeet : ∀ d ∈ Insert.insert c s, ∀ e ∈ Insert.insert c s, d.priority = e.priority →
      d.core ≠ e.core → d ∈ s ∧ e ∈ s := by
    rintro d (rfl | hd) e (rfl | he) hp hne
    · exact absurd rfl hne
    · exact absurd (hc e he hp.symm).symm hne
    · exact absurd (hc d hd hp) hne
    · exact ⟨hd, he⟩
  constructor
  case lowest =>
    refine ⟨⟨a, Or.inr ha, b, Or.inr hb, rfl, hpb, hcore.symm⟩, ?_⟩
    rintro p ⟨d, hd, e, he, hpd, hpe, hne⟩
    obtain ⟨hd, he⟩ := hmeet d hd e he (hpd.trans hpe.symm) hne
    exact h.lowest.2 ⟨d, hd, e, he, hpd, hpe, hne⟩
  case first =>
    refine ⟨⟨Or.inr ha, rfl⟩, ?_⟩
    rintro d ⟨hd, hp⟩
    exact hfirst d ⟨hlevel d hd hp, hp⟩
  case second =>
    refine ⟨⟨Or.inr hb, hpb, hcore⟩, ?_⟩
    rintro d ⟨hd, hp, hne⟩
    exact hsecond d ⟨hlevel d hd hp, hp, hne⟩

end IsLeastClash

/-! ## The scan -/

/-- What a search through an ordered list finds is up to the order the first of what it could find.
-/
theorem find?_first {α : Type} {R : α → α → Prop} {p : α → Bool} {l : List α} {a : α}
    (hl : l.Pairwise R) (h : l.find? p = some a) :
    a ∈ l ∧ p a = true ∧ ∀ c ∈ l, p c = true → c = a ∨ R a c := by
  obtain ⟨hpa, before, after, rfl, hbefore⟩ := List.find?_eq_some_iff_append.1 h
  refine ⟨by simp, hpa, fun c hc hpc => ?_⟩
  rcases List.mem_append.1 hc with hc | hc
  · have hfails := hbefore c hc
    rw [hpc] at hfails
    cases hfails
  · rcases List.mem_cons.1 hc with rfl | hc
    · exact Or.inl rfl
    · exact Or.inr ((List.pairwise_cons.1 (List.pairwise_append.1 hl).2.1).1 c hc)

section Scan

variable {l l' : List Rank} {a b : Rank}

/-- When the first rank of an ordered list meets another core at its own priority, it makes the
least clash with the first rank that it meets. -/
theorem isLeastClash_of_find? {first second : Rank} {rest : List Rank}
    (hl : (first :: rest).Pairwise fun a b => (compare a b).isLE = true)
    (h : (rest.takeWhile (·.priority = first.priority)).find? (·.core ≠ first.core) =
      some second) : IsLeastClash {c | c ∈ first :: rest} first second := by
  obtain ⟨hhead, htail⟩ := List.pairwise_cons.1 hl
  have hlevel : ∀ c, c ∈ rest.takeWhile (·.priority = first.priority) ↔
      c ∈ rest ∧ c.priority = first.priority := fun c =>
    mem_takeWhile_level (htail.imp Rank.priority_le_of_isLE)
      fun d hd => Rank.priority_le_of_isLE (hhead d hd)
  obtain ⟨hmem, hcore, hfirst⟩ := find?_first (htail.sublist (List.takeWhile_sublist _)) h
  obtain ⟨hrest, hp⟩ := (hlevel second).1 hmem
  replace hcore : second.core ≠ first.core := of_decide_eq_true hcore
  have hfirstMem : first ∈ first :: rest := List.mem_cons_self ..
  have hsecondMem : second ∈ first :: rest := List.mem_cons_of_mem _ hrest
  constructor
  case lowest =>
    refine ⟨⟨first, hfirstMem, second, hsecondMem, rfl, hp, hcore.symm⟩, ?_⟩
    rintro p ⟨c, hc, -, -, rfl, -⟩
    rcases List.mem_cons.1 hc with rfl | hc
    · exact UInt8.le_refl _
    · exact Rank.priority_le_of_isLE (hhead c hc)
  case first =>
    refine ⟨⟨hfirstMem, rfl⟩, ?_⟩
    rintro c ⟨hc, hpc⟩
    rcases List.mem_cons.1 hc with rfl | hc
    · exact Or.inl rfl
    · exact Rank.before_of_isLE (hhead c hc) hpc
  case second =>
    refine ⟨⟨hsecondMem, hp, hcore⟩, ?_⟩
    rintro c ⟨hc, hpc, hne⟩
    rcases List.mem_cons.1 hc with rfl | hc
    · exact absurd rfl hne
    · rcases hfirst c ((hlevel c).2 ⟨hc, hpc⟩) (decide_eq_true hne) with h | hle
      · exact Or.inl h
      · exact Rank.before_of_isLE hle (hpc.trans hp.symm)

/-- What the scan of an ordered list comes to is the least clash. -/
theorem isLeastClash_of_clash? (hl : l.Pairwise fun a b => (compare a b).isLE = true)
    (h : clash? l = some (a, b)) : IsLeastClash {c | c ∈ l} a b := by
  induction l with
  | nil => cases h
  | cons first rest ih =>
    obtain ⟨hhead, htail⟩ := List.pairwise_cons.1 hl
    simp only [clash?] at h
    split at h
    · next second hfind =>
      cases h
      exact isLeastClash_of_find? hl hfind
    · next hfind =>
      have hcons : {c | c ∈ first :: rest} = insert first {c | c ∈ rest} :=
        Set.ext fun c => List.mem_cons
      rw [hcons]
      refine (ih htail h).insert fun d hd hp => ?_
      have hmem := (mem_takeWhile_level (htail.imp Rank.priority_le_of_isLE)
        fun e he => Rank.priority_le_of_isLE (hhead e he)).2 ⟨hd, hp⟩
      simpa using List.find?_eq_none.1 hfind d hmem

/-- The scan of an ordered list comes to the least clash, if there is one. -/
theorem clash?_eq_some_iff (hl : l.Pairwise fun a b => (compare a b).isLE = true) :
    clash? l = some (a, b) ↔ IsLeastClash {c | c ∈ l} a b := by
  refine ⟨isLeastClash_of_clash? hl, fun hleast => ?_⟩
  cases hclash : clash? l with
  | none =>
    obtain ⟨c, hc, d, hd, hpc, hpd, hne⟩ := hleast.lowest.1
    have hsame := (clash?_eq_none_iff (hl.imp Rank.priority_le_of_isLE)).1 hclash
    exact absurd (hsame c hc d hd (hpc.trans hpd.symm)) hne
  | some pair =>
    obtain ⟨ha, hb⟩ := (isLeastClash_of_clash? hl hclash).unique hleast
    rw [← ha, ← hb]

/-- The scan does not depend on how often a rank is listed. -/
theorem clash?_congr (hl : l.Pairwise fun a b => (compare a b).isLE = true)
    (hl' : l'.Pairwise fun a b => (compare a b).isLE = true) (h : ∀ c, c ∈ l ↔ c ∈ l') :
    clash? l = clash? l' := by
  have hset : {c | c ∈ l} = {c | c ∈ l'} := Set.ext h
  refine Option.ext fun pair => ?_
  rw [clash?_eq_some_iff hl, clash?_eq_some_iff hl', hset]

end Scan

/-! ## Sorted accessors -/

namespace App

variable {app : App} {r : ResourceName} {names : SortedSet TaskName}

/-- The tasks filed under given names, sorted by rank. -/
def byRank (app : App) (names : SortedSet TaskName) : List Task :=
  (app.lookUp names).mergeSort fun t u => (compare t.rank u.rank).isLE

theorem byRank_pairwise :
    ((app.byRank names).map Task.rank).Pairwise fun a b => (compare a b).isLE = true := by
  refine List.pairwise_map.2 (List.pairwise_mergeSort ?_ ?_ _)
  · intro t u v htu huv
    exact Std.TransCmp.isLE_trans htu huv
  · intro t u
    have hswap : compare u.rank t.rank = (compare t.rank u.rank).swap := Std.OrientedCmp.eq_swap
    rw [hswap]
    cases compare t.rank u.rank <;> rfl

theorem ranks_pairwise_isLE :
    (app.ranks names).Pairwise fun a b => (compare a b).isLE = true :=
  Std.ExtTreeSet.ordered_toList.imp fun h => by rw [h]; rfl

/-- The clash over a resource is the one that a scan of its sorted accessors comes to. -/
theorem conflict?_eq_byRank (app : App) (r : ResourceName) (names : SortedSet TaskName) :
    app.conflict? r names =
      if app.isTransferable r then none
      else (clash? ((app.byRank names).map Task.rank)).map fun (a, b) =>
        .crossCoreConflict r a.priority a.name a.core b.name b.core := by
  have hmem : ∀ c, c ∈ app.ranks names ↔ c ∈ (app.byRank names).map Task.rank := by
    intro c
    rw [mem_ranks, List.mem_map]
    simp only [byRank, List.mem_mergeSort]
  rw [conflict?, clash?_congr ranks_pairwise_isLE byRank_pairwise hmem]

/-- The ranks of the accessors of a resource. -/
def competing (app : App) (r : ResourceName) : Set Rank :=
  {a | ∃ t, app.IsAccessor r t ∧ t.rank = a}

theorem setOf_mem_ranks (h : app.Resolved) :
    {c | c ∈ app.ranks (app.accessors r)} = app.competing r := by
  refine Set.ext fun c => ?_
  show c ∈ app.ranks (app.accessors r) ↔ _
  rw [mem_ranks]
  simp only [mem_lookUp_accessors h]
  rfl

/-- A clash over a resource is reported by the accessors that make the least one. -/
theorem exists_isLeastClash (h : app.Resolved) {d : Diagnostic}
    (hd : app.conflict? r (app.accessors r) = some d) :
    ∃ t u, app.IsAccessor r t ∧ app.IsAccessor r u ∧
      IsLeastClash (app.competing r) t.rank u.rank ∧
      d = .crossCoreConflict r t.priority t.name t.core u.name u.core := by
  rw [conflict?, Option.ite_none_left_eq_some] at hd
  obtain ⟨⟨a, b⟩, hclash, rfl⟩ := Option.map_eq_some_iff.1 hd.2
  have hleast := isLeastClash_of_clash? ranks_pairwise_isLE hclash
  rw [setOf_mem_ranks h] at hleast
  obtain ⟨t, ht, rfl⟩ := hleast.first.1.1
  obtain ⟨u, hu, rfl⟩ := hleast.second.1.1
  exact ⟨t, u, ht, hu, hleast, rfl⟩

end App

/-! ## What is found over a resource -/

/-- The finding is a clash over the resource. -/
def Diagnostic.isClashOver (r : ResourceName) : Diagnostic → Bool
  | crossCoreConflict s _ _ _ _ _ => s = r
  | _ => false

namespace Ceilings

variable {limits : Limits} {app : App} {sharing : Sharing} {r : ResourceName}

theorem isClashOver_of_conflict? {s : ResourceName} {names : SortedSet TaskName} {d : Diagnostic}
    (h : app.conflict? s names = some d) : d.isClashOver r = decide (s = r) := by
  obtain ⟨t, -, u, -, -, -, rfl⟩ := App.conflict?_eq_some h
  rfl

/-- Of all that is found about ceilings, one resource has its own clash and nothing else. -/
theorem filter_isClashOver_findings : (findings limits app sharing).filter (·.isClashOver r) =
    (sharing.shared[r]?.bind (app.conflict? r)).toList := by
  have hpriorities : ∀ tasks : List Task, (tasks.map fun t => Diagnostic.priorityOutOfRange t.name
      t.priority limits.maxPriority).filter (·.isClashOver r) = [] := by
    intro tasks
    simp [Diagnostic.isClashOver]
  have hconflicts : ∀ entries : List (ResourceName × SortedSet TaskName),
      (entries.filterMap fun e => app.conflict? e.1 e.2).filter (·.isClashOver r) =
        (entries.filter (·.1 = r)).filterMap fun e => app.conflict? e.1 e.2 := by
    intro entries
    rw [List.filter_filterMap, List.filterMap_filter]
    refine List.filterMap_congr fun e _ => ?_
    cases hd : app.conflict? e.1 e.2 with
    | none => simp
    | some d => simp [Option.filter, isClashOver_of_conflict? hd]
  rw [findings, List.filter_append, hpriorities, List.nil_append]
  refine (hconflicts _).trans ?_
  cases hnames : sharing.shared[r]? with
  | none =>
    have hnil : sharing.shared.toList.filter (·.1 = r) = [] :=
      Table.filter_entries_eq_nil hnames
    rw [hnil]
    rfl
  | some names =>
    have hone : sharing.shared.toList.filter (·.1 = r) = [(r, names)] :=
      Table.filter_entries_eq_singleton hnames (decide_eq_true rfl) fun e => of_decide_eq_true
    rw [hone, Option.bind_some]
    cases hd : app.conflict? r names <;> simp [hd]

/-- Over a declared resource, nothing else than its conflict is found. -/
theorem filter_isClashOver_declared {resource : Resource} (hr : app.resource? r = some resource) :
    (findings limits app (.ofApp app)).filter (·.isClashOver r) = (app.conflictOver? r).toList := by
  rw [filter_isClashOver_findings, Sharing.getElem?_shared, hr]
  rfl

end Ceilings

/-- What is found of clashes between cores: the least one over each resource that has one, unless it
is transferable, and nothing else. -/
structure App.ReportsLeastClashes (app : App) (found : List Diagnostic) : Prop where
  clash : ∀ r resource, app.resource? r = some resource → resource.transferable = false →
    app.HasClash r → ∃ t u, app.IsAccessor r t ∧ app.IsAccessor r u ∧
      IsLeastClash (app.competing r) t.rank u.rank ∧ found.filter (·.isClashOver r) =
        [.crossCoreConflict r t.priority t.name t.core u.name u.core]
  no_clash : ∀ r, ¬ app.HasClash r → found.filter (·.isClashOver r) = []
  transferable : ∀ r resource, app.resource? r = some resource → resource.transferable = true →
    found.filter (·.isClashOver r) = []
  undeclared : ∀ r, r ∉ app.resources → found.filter (·.isClashOver r) = []

/-- Over every resource of an application, accepted or not, the least clash is found if there is one
and the resource is not transferable. -/
theorem ceilings_report_clash {app : App} (h : app.Reachable) (limits : Limits) (ledger : Ledger) :
    ∃ c, (ledger.settle (app.classify limits)).1 = .ok c ∧ app.ReportsLeastClashes c.clashes := by
  have hundeclared : ∀ r, r ∉ app.resources →
      (Ceilings.findings limits app (.ofApp app)).filter (·.isClashOver r) = [] := by
    intro r hr
    have hnone : app.resource? r = none := Std.ExtTreeMap.getElem?_eq_none hr
    rw [Ceilings.filter_isClashOver_findings, Sharing.getElem?_shared, hnone]
    rfl
  have hsilent : ∀ r resource, app.resource? r = some resource →
      ¬ (resource.transferable = false ∧ app.HasClash r) →
      (Ceilings.findings limits app (.ofApp app)).filter (·.isClashOver r) = [] := by
    intro r resource hr hno
    rw [Ceilings.filter_isClashOver_declared hr, (App.conflictOver?_spec h.filed hr).2 hno]
    rfl
  refine ⟨.ofApp limits app, ?_, ?_⟩
  · rw [Ledger.settle_of_checks_eq (App.checks_classify limits app), App.value_classify]
  constructor
  case clash =>
    intro r resource hr hfixed hclash
    obtain ⟨d, hd, -⟩ := (App.conflictOver?_spec h.filed hr).1 ⟨hfixed, hclash⟩
    obtain ⟨names, hnames, hconflict⟩ := Option.bind_eq_some_iff.1 hd
    obtain ⟨rfl, -⟩ := App.sharers?_usage_iff.1 hnames
    obtain ⟨t, u, ht, hu, hleast, rfl⟩ := App.exists_isLeastClash h.filed.resolved hconflict
    refine ⟨t, u, ht, hu, hleast, ?_⟩
    exact (Ceilings.filter_isClashOver_declared hr).trans (congrArg Option.toList hd)
  case no_clash =>
    intro r hno
    cases hr : app.resource? r with
    | none => exact hundeclared r fun hmem => by simp [App.mem_resources_iff, hr] at hmem
    | some resource => exact hsilent r resource hr fun hboth => hno hboth.2
  case transferable =>
    intro r resource hr htrans
    exact hsilent r resource hr fun hboth => by simp [htrans] at hboth
  case undeclared => exact hundeclared

namespace Contest

def audit : Task where
  name := "audit"
  core := ⟨1⟩
  priority := 2
  resources := (∅ : Table ResourceName Access).insert "bus" .read

def beat : Task where
  name := "beat"
  core := ⟨0⟩
  priority := 2
  resources := (∅ : Table ResourceName Access).insert "bus" .read

def dump : Task where
  name := "dump"
  core := ⟨0⟩
  priority := 2
  resources := (∅ : Table ResourceName Access).insert "bus" .read

/-- At the priority of logging three more tasks access the bus, two of them on the core of polling.
-/
def app : App := ((Relay.app.insertTask audit).insertTask beat).insertTask dump

theorem reachable : app.Reachable := by
  have haudit : (Relay.app.insertTask audit).Reachable :=
    .addTask (t := audit) Relay.reachable rfl
  have hbeat : ((Relay.app.insertTask audit).insertTask beat).Reachable :=
    .addTask (t := beat) haudit rfl
  exact .addTask (t := dump) hbeat rfl

end Contest

/-- Of the four clashes over the bus, the one that is reported is between the first tasks of the two
cores by name. -/
theorem ceilings_report_clash_contest :
    ∃ c, ((∅ : Ledger).settle (Contest.app.classify .default)).1 = .ok c ∧
      c.clashes.filter (·.isClashOver "bus") =
        [.crossCoreConflict "bus" 2 "beat" ⟨0⟩ "audit" ⟨1⟩] := by
  obtain ⟨c, hsettle, hreports⟩ := ceilings_report_clash Contest.reachable .default ∅
  have hbus : Contest.app.resource? "bus" = some Relay.bus := by decide +kernel
  obtain ⟨t, u, -, -, hleast, hfound⟩ := hreports.clash "bus" _ hbus rfl (by decide +kernel)
  have hscan : clash? (Contest.app.ranks (Contest.app.accessors "bus")) =
      some (⟨2, ⟨0⟩, "beat"⟩, ⟨2, ⟨1⟩, "audit"⟩) := by decide +kernel
  have hexpected := isLeastClash_of_clash? App.ranks_pairwise_isLE hscan
  rw [App.setOf_mem_ranks Contest.reachable.filed.resolved] at hexpected
  obtain ⟨ht, hu⟩ := hleast.unique hexpected
  obtain ⟨hp, hct, hnt⟩ := Rank.mk.inj ht
  obtain ⟨-, hcu, hnu⟩ := Rank.mk.inj hu
  rw [hp, hct, hnt, hcu, hnu] at hfound
  exact ⟨c, hsettle, hfound⟩

end MulticoreTasks
