import Mathlib.Data.List.Perm.Subperm
import Mathlib.Tactic.ByContra
import MulticoreTasks.Proofs.Postconditions
import MulticoreTasks.Proofs.Survey

/-!
# Placing by a sharing of one's own

`Placement.checked` is handed its sharing and has to take it as it comes: one that lists a resource
twice, or one that the application does not have, or that none of its tasks accesses.

* `Sharing.Misfit`                : the three ways in which a sharing does not fit an application;
* `Placement.mem_locations`       : a listed resource is placed if it is declared and accessed;
* `Placement.isUnique_iff`        : the check of the located resources tells the sharings that fit;
* `Placement.settle_of_misfit`, `Placement.settle_of_fits` : what placing leaves on a ledger;
* `placement_fails_iff_misfit`    : it fails on the sharings that do not fit, always by that check.

The check compares the number of locations with the number of entries.  A resource that is listed
twice is located once, which leaves the locations one short; nothing makes up for it, since only
listed resources are ever located.
-/

namespace MulticoreTasks

/-- A list that has the members of one without repeats, and as many of them, repeats none. -/
theorem length_eq_iff_nodup {α : Type} {l m : List α} (hl : l.Nodup) (h : ∀ a, a ∈ l ↔ a ∈ m) :
    l.length = m.length ↔ m.Nodup := by
  constructor
  · intro hlength
    have hsub : l.Subperm m := List.subperm_of_subset hl fun a ha => (h a).1 ha
    exact (hsub.perm_of_length_le (Nat.le_of_eq hlength.symm)).nodup_iff.1 hl
  · intro hm
    exact ((List.perm_ext_iff_of_nodup hl hm).2 h).length_eq

/-! ## Sharings -/

namespace Sharing

/-- The sharing has an entry for the resource. -/
def Lists (s : Sharing) (r : ResourceName) : Prop := r ∈ s.exclusive ∨ r ∈ s.shared

/-- The sharing is not one of the application's resources. -/
inductive Misfit (s : Sharing) (app : App) : Prop
  /-- A resource has two entries. -/
  | twice {r : ResourceName} (owned : r ∈ s.exclusive) (shared : r ∈ s.shared)
  /-- An entry is of a resource that is not declared. -/
  | undeclared {r : ResourceName} (listed : s.Lists r) (missing : r ∉ app.resources)
  /-- An entry is of a declared resource that no task accesses. -/
  | unaccessed {r : ResourceName} (listed : s.Lists r) (declared : r ∈ app.resources)
      (idle : ∀ t, ¬ app.IsAccessor r t)

/-- The resources with an entry, once for each. -/
def entryKeys (s : Sharing) : List ResourceName := s.exclusive.keys ++ s.shared.keys

variable {s : Sharing} {app : App} {r : ResourceName}

theorem mem_entryKeys : r ∈ s.entryKeys ↔ s.Lists r := by
  rw [entryKeys, List.mem_append, Std.ExtTreeMap.mem_keys, Std.ExtTreeMap.mem_keys, Lists]

theorem length_entryKeys : s.entryKeys.length = s.exclusive.size + s.shared.size := by
  rw [entryKeys, List.length_append, Std.ExtTreeMap.length_keys, Std.ExtTreeMap.length_keys]

theorem nodup_entryKeys : s.entryKeys.Nodup ↔ ∀ r ∈ s.exclusive, r ∉ s.shared := by
  rw [entryKeys, List.nodup_append]
  simp only [Std.ExtTreeMap.mem_keys]
  constructor
  · rintro ⟨-, -, hne⟩ r howned hshared
    exact hne r howned r hshared rfl
  · intro hapart
    refine ⟨Std.ExtTreeMap.nodup_keys, Std.ExtTreeMap.nodup_keys, ?_⟩
    rintro r howned _ hshared rfl
    exact hapart r howned hshared

theorem isUsed_iff : s.isUsed r = true ↔ s.Lists r := by
  rw [isUsed, Bool.or_eq_true, Std.ExtTreeMap.contains_iff_mem, Std.ExtTreeMap.contains_iff_mem,
    Lists]

theorem not_misfit_iff : ¬ s.Misfit app ↔ (∀ r ∈ s.exclusive, r ∉ s.shared) ∧
    ∀ r, s.Lists r → r ∈ app.resources ∧ ∃ t, app.IsAccessor r t := by
  constructor
  · intro hfit
    refine ⟨fun r howned hshared => hfit (.twice howned hshared), fun r hlisted => ?_⟩
    have hdeclared : r ∈ app.resources := by
      by_contra hmissing
      exact hfit (.undeclared hlisted hmissing)
    refine ⟨hdeclared, ?_⟩
    by_contra hidle
    exact hfit (.unaccessed hlisted hdeclared (not_exists.1 hidle))
  · rintro ⟨hapart, haccessed⟩ hmisfit
    cases hmisfit with
    | twice owned shared => exact hapart _ owned shared
    | undeclared listed missing => exact missing (haccessed _ listed).1
    | unaccessed listed declared idle =>
      obtain ⟨t, ht⟩ := (haccessed _ listed).2
      exact idle t ht

end Sharing

/-! ## Locations -/

namespace Placement

variable {app : App} {sharing : Sharing} {r : ResourceName}

theorem mem_locations : r ∈ (ofSharing app sharing).locations ↔
    sharing.Lists r ∧ r ∈ app.resources ∧ ∃ t, app.IsAccessor r t := by
  rw [Std.ExtTreeMap.mem_iff_isSome_getElem?, getElem?_locations]
  by_cases hused : sharing.isUsed r = true
  · have hlisted : sharing.Lists r := Sharing.isUsed_iff.1 hused
    rw [App.mem_resources_iff]
    cases hr : app.resource? r with
    | none => simp
    | some resource =>
      rw [Option.bind_some, location?, if_pos hused, locate_isSome_iff, accessCores_ne_empty_iff]
      simp [hlisted]
  · have hno : (app.resource? r).bind (location? app sharing r) = none := by
      cases app.resource? r <;> simp [location?, hused]
    rw [hno]
    exact iff_of_false (by simp) fun h => hused (Sharing.isUsed_iff.2 h.1)

/-- The located resources are the listed ones, each once, exactly when the sharing fits. -/
theorem isUnique_iff : (ofSharing app sharing).IsUnique sharing ↔ ¬ sharing.Misfit app := by
  have hlisted : ∀ r ∈ (ofSharing app sharing).locations.keys, r ∈ sharing.entryKeys := by
    intro r hr
    exact Sharing.mem_entryKeys.2 (mem_locations.1 (Std.ExtTreeMap.mem_keys.1 hr)).1
  have hlocated : (∀ r ∈ sharing.entryKeys, r ∈ (ofSharing app sharing).locations) ↔
      ∀ r, sharing.Lists r → r ∈ app.resources ∧ ∃ t, app.IsAccessor r t := by
    simp only [Sharing.mem_entryKeys, mem_locations]
    exact forall_congr' fun r => ⟨fun h hr => (h hr).2, fun h hr => ⟨hr, h hr⟩⟩
  rw [Sharing.not_misfit_iff, ← Sharing.nodup_entryKeys, ← hlocated, IsUnique,
    ← Sharing.length_entryKeys, ← Std.ExtTreeMap.length_keys]
  refine and_congr_left fun hall => length_eq_iff_nodup Std.ExtTreeMap.nodup_keys fun r => ?_
  exact ⟨hlisted r, fun hr => Std.ExtTreeMap.mem_keys.2 (hall r hr)⟩

theorem mem_locations_of_fits (h : ¬ sharing.Misfit app) :
    r ∈ (ofSharing app sharing).locations ↔ r ∈ sharing.exclusive ∨ r ∈ sharing.shared := by
  rw [mem_locations]
  exact and_iff_left_of_imp fun hlisted => (Sharing.not_misfit_iff.1 h).2 r hlisted

/-! ## On a ledger -/

theorem checks_checked (app : App) (sharing : Sharing) : (checked app sharing).checks =
    [Invariant.locationUnique.check ((ofSharing app sharing).IsUnique sharing),
      Invariant.crossCoreObligation.check true] := by
  simp only [checked, Audited.checks_bind, Audited.checks_ensure, Audited.checks_pure, isObliged,
    decide_true]
  rfl

/-- The check of the obligations holds, whether or not the check before it does. -/
theorem holds_of_id_eq {c : Check} (hc : c ∈ (checked app sharing).checks)
    (hid : c.id = Invariant.crossCoreObligation.id) : c.holds = true := by
  rw [checks_checked] at hc
  simp only [List.mem_cons, List.not_mem_nil, or_false] at hc
  rcases hc with rfl | rfl
  · cases hid
  · rfl

theorem settle_of_misfit (ledger : Ledger) (h : sharing.Misfit app) :
    ledger.settle (checked app sharing) =
      (.error (Invariant.locationUnique.check false).violation, ledger) := by
  have hunique : ¬ (ofSharing app sharing).IsUnique sharing := fun hunique =>
    isUnique_iff.1 hunique h
  rw [Ledger.settle, checks_checked]
  simp [Ledger.assertAll, hunique]

theorem settle_of_fits (ledger : Ledger) (h : ¬ sharing.Misfit app) :
    ledger.settle (checked app sharing) =
      (.ok (ofSharing app sharing),
        (ledger.insert Invariant.locationUnique.id).insert Invariant.crossCoreObligation.id) := by
  have hunique : (ofSharing app sharing).IsUnique sharing := isUnique_iff.2 h
  rw [Ledger.settle, checks_checked]
  simp only [Ledger.assertAll, Invariant.check_holds, Invariant.check_id, hunique, decide_true,
    if_true]
  rfl

end Placement

/-- Placing fails on the sharings that do not fit the application and on no others, and always
because resources are not located once each; that a type is left without an obligation is never
found.  Placing by a sharing that fits comes to what the walk over the resources comes to, which
locates the listed resources and nothing else. -/
theorem placement_fails_iff_misfit (app : App) (sharing : Sharing) (ledger : Ledger) :
    ((∃ violation, (ledger.settle (Placement.checked app sharing)).1 = .error violation) ↔
      sharing.Misfit app) ∧
    (∀ violation, (ledger.settle (Placement.checked app sharing)).1 = .error violation →
      violation = (Invariant.locationUnique.check false).violation ∧
        (ledger.settle (Placement.checked app sharing)).2 = ledger) ∧
    (∀ c ∈ (Placement.checked app sharing).checks,
      c.id = Invariant.crossCoreObligation.id → c.holds = true) ∧
    (∀ placement, (ledger.settle (Placement.checked app sharing)).1 = .ok placement →
      placement = app.resources.toList.foldl (Placement.settleIn app sharing) {} ∧
        ∀ r, r ∈ placement.locations ↔ r ∈ sharing.exclusive ∨ r ∈ sharing.shared) := by
  have hobliged := @Placement.holds_of_id_eq app sharing
  by_cases hmisfit : sharing.Misfit app
  · rw [Placement.settle_of_misfit ledger hmisfit]
    refine ⟨iff_of_true ⟨_, rfl⟩ hmisfit, ?_, fun c => hobliged, ?_⟩
    · rintro violation ⟨⟩
      exact ⟨rfl, rfl⟩
    · rintro placement ⟨⟩
  · rw [Placement.settle_of_fits ledger hmisfit]
    refine ⟨iff_of_false ?_ hmisfit, ?_, fun c => hobliged, ?_⟩
    · rintro ⟨violation, ⟨⟩⟩
    · rintro violation ⟨⟩
    · rintro placement ⟨⟩
      refine ⟨(Placement.foldl_settleIn app sharing).symm, fun r => ?_⟩
      exact Placement.mem_locations_of_fits hmisfit

namespace Relay

/-- The bus in the hands of one task, though two access it. -/
def seized : Sharing where
  exclusive := (∅ : Table ResourceName TaskName).insert "bus" "log"

/-- The bus in the hands of one task and shared by both. -/
def listedTwice : Sharing where
  exclusive := (∅ : Table ResourceName TaskName).insert "bus" "log"
  shared := (∅ : Table ResourceName (SortedSet TaskName)).insert "bus"
    (SortedSet.ofList ["log", "poll"])

end Relay

/-- To list the bus twice is a misfit; to have it owned by one of its two accessors is not, and it
is located. -/
theorem placement_fails_iff_misfit_relay :
    ((∅ : Ledger).settle (Placement.checked Relay.app Relay.listedTwice)).1 =
      .error (.unheld 5 "Every used resource has exactly one location" (some "location::assign")) ∧
    ∃ placement, ((∅ : Ledger).settle (Placement.checked Relay.app Relay.seized)).1 =
      .ok placement ∧ "bus" ∈ placement.locations := by
  constructor
  · obtain ⟨hiff, hviolation, -, -⟩ := placement_fails_iff_misfit Relay.app Relay.listedTwice ∅
    have hmisfit : Relay.listedTwice.Misfit Relay.app :=
      .twice (r := "bus") (by decide +kernel) (by decide +kernel)
    obtain ⟨violation, herror⟩ := hiff.2 hmisfit
    rw [herror, (hviolation violation herror).1]
    rfl
  · obtain ⟨hiff, -, -, hplaced⟩ := placement_fails_iff_misfit Relay.app Relay.seized ∅
    have hfit : ¬ Relay.seized.Misfit Relay.app := Placement.isUnique_iff.1 (by decide +kernel)
    cases hsettle : ((∅ : Ledger).settle (Placement.checked Relay.app Relay.seized)).1 with
    | error violation => exact absurd (hiff.1 ⟨violation, hsettle⟩) hfit
    | ok placement =>
      obtain ⟨-, hlocations⟩ := hplaced placement hsettle
      exact ⟨placement, rfl, (hlocations "bus").2 (Or.inl (by decide +kernel))⟩

end MulticoreTasks
