import MulticoreTasks.Resource.Sharing
import MulticoreTasks.Proofs.Listing
import MulticoreTasks.Proofs.Reachable

/-!
# Accessors

* `App.IsAccessor` : a stored task accesses a resource; every later statement about resources is in
  these terms, and not in those of names;
* `unused_iff`, `owner?_usage_iff`, `sharers?_usage_iff` : what no accessor, one name and several
  names among the accessors come to.

Accessors are gathered by the names that tasks give themselves.  In an application that is filed
under its names a name stands for one task (`WellFiled.eq_of_name_eq`), so that one name is one
accessor; in general it may be several.
-/

namespace MulticoreTasks

namespace App

/-- The stored task `t` accesses the resource `r`. -/
def IsAccessor (app : App) (r : ResourceName) (t : Task) : Prop :=
  t ∈ app.taskList ∧ r ∈ t.resources

/-! ## Stored tasks -/

theorem mem_tasks_iff {app : App} {key : TaskName} :
    key ∈ app.tasks ↔ ∃ t, app.task? key = some t := by
  rw [Std.ExtTreeMap.mem_iff_isSome_getElem?, Option.isSome_iff_exists]
  rfl

theorem mem_resources_iff {app : App} {key : ResourceName} :
    key ∈ app.resources ↔ ∃ r, app.resource? key = some r := by
  rw [Std.ExtTreeMap.mem_iff_isSome_getElem?, Option.isSome_iff_exists]
  rfl

theorem WellFiled.task?_name {app : App} (h : app.WellFiled) {t : Task} (ht : t ∈ app.taskList) :
    app.task? t.name = some t := by
  obtain ⟨key, hkey⟩ := mem_taskList.1 ht
  rw [h.task_name hkey]
  exact hkey

theorem WellFiled.eq_of_name_eq {app : App} (h : app.WellFiled) {t u : Task}
    (ht : t ∈ app.taskList) (hu : u ∈ app.taskList) (hname : t.name = u.name) : t = u := by
  have hsome := h.task?_name ht
  rw [hname, h.task?_name hu] at hsome
  exact (Option.some.inj hsome).symm

theorem WellFiled.core_mem {app : App} (h : app.WellFiled) {t : Task} (ht : t ∈ app.taskList) :
    t.core ∈ app.cores := by
  obtain ⟨key, hkey⟩ := mem_taskList.1 ht
  exact h.task_core hkey

/-! ## Accesses and accessors -/

variable {app : App} {r : ResourceName}

theorem isAccessor_of_mem_usesOf {u : Use} (hu : u ∈ app.usesOf r) : app.IsAccessor r u.task := by
  obtain ⟨huse, rfl⟩ := mem_usesOf.1 hu
  obtain ⟨ht, haccess⟩ := mem_uses.1 huse
  exact ⟨ht, Std.ExtTreeMap.mem_iff_isSome_getElem?.2 (by rw [haccess]; rfl)⟩

theorem IsAccessor.exists_use {t : Task} (h : app.IsAccessor r t) :
    ∃ u ∈ app.usesOf r, u.task = t := by
  obtain ⟨ht, hr⟩ := h
  obtain ⟨access, haccess⟩ :=
    Option.isSome_iff_exists.1 (Std.ExtTreeMap.mem_iff_isSome_getElem?.1 hr)
  exact ⟨⟨t, r, access⟩, mem_usesOf.2 ⟨mem_uses.2 ⟨ht, haccess⟩, rfl⟩, rfl⟩

theorem mem_accessors_iff {name : TaskName} :
    name ∈ app.accessors r ↔ ∃ t, app.IsAccessor r t ∧ t.name = name := by
  rw [mem_accessors]
  constructor
  · rintro ⟨u, hu, rfl⟩
    exact ⟨u.task, isAccessor_of_mem_usesOf hu, rfl⟩
  · rintro ⟨t, ht, rfl⟩
    obtain ⟨u, hu, rfl⟩ := ht.exists_use
    exact ⟨u, hu, rfl⟩

end App

/-! ## What a set of names comes to -/

namespace Usage

variable {s : SortedSet TaskName}

theorem ofAccessors_eq_unused_iff : ofAccessors s = unused ↔ ∀ name, name ∉ s := by
  simp only [← Std.ExtTreeSet.mem_toList, ofAccessors]
  split
  · next hnil => simp [hnil]
  · next owner hone => simp [hone]
  · next a b rest hmore =>
    rw [hmore]
    simp only [reduceCtorEq, false_iff]
    intro h
    exact h a (List.mem_cons_self ..)

theorem owner?_ofAccessors_iff {owner : TaskName} :
    (ofAccessors s).owner? = some owner ↔ ∀ name, name ∈ s ↔ name = owner := by
  simp only [← Std.ExtTreeSet.mem_toList, ofAccessors]
  have hnodup : s.toList.Nodup := SortedSet.nodup_toList s
  split
  · next hnil =>
    rw [hnil]
    simp only [owner?, List.not_mem_nil, false_iff]
    exact ⟨fun h => by simp at h, fun h => absurd rfl (h owner)⟩
  · next other hone =>
    rw [hone]
    simp only [owner?, Option.some.injEq, List.mem_singleton]
    exact ⟨fun h name => by rw [h], fun h => (h other).1 rfl⟩
  · next a b rest hmore =>
    rw [hmore] at hnodup ⊢
    constructor
    · intro h
      cases h
    · intro h
      have ha : a = owner := (h a).1 (List.mem_cons_self ..)
      have hb : b = owner := (h b).1 (by simp)
      simp [ha, hb] at hnodup

theorem sharers?_ofAccessors_iff {names : SortedSet TaskName} :
    (ofAccessors s).sharers? = some names ↔ names = s ∧ ∃ a ∈ s, ∃ b ∈ s, a ≠ b := by
  simp only [← Std.ExtTreeSet.mem_toList, ofAccessors]
  have hnodup : s.toList.Nodup := SortedSet.nodup_toList s
  split
  · next hnil => simp [hnil, sharers?]
  · next owner hone => simp [hone, sharers?]
  · next a b rest hmore =>
    rw [hmore] at hnodup ⊢
    have hab : a ≠ b := by
      rintro rfl
      simp at hnodup
    simp only [sharers?, Option.some.injEq]
    exact ⟨fun h => ⟨h.symm, a, by simp, b, by simp, hab⟩, fun h => h.1.symm⟩

end Usage

/-! ## Usage -/

namespace App

variable {app : App} {r : ResourceName}

theorem unused_iff : app.usage r = .unused ↔ ∀ t, ¬ app.IsAccessor r t := by
  rw [usage, Usage.ofAccessors_eq_unused_iff]
  constructor
  · intro h t ht
    exact h t.name (mem_accessors_iff.2 ⟨t, ht, rfl⟩)
  · intro h name hname
    obtain ⟨t, ht, -⟩ := mem_accessors_iff.1 hname
    exact h t ht

theorem owner?_usage_iff {owner : TaskName} :
    (app.usage r).owner? = some owner ↔
      (∃ t, app.IsAccessor r t) ∧ ∀ t, app.IsAccessor r t → t.name = owner := by
  rw [usage, Usage.owner?_ofAccessors_iff]
  constructor
  · intro h
    obtain ⟨t, ht, -⟩ := mem_accessors_iff.1 ((h owner).2 rfl)
    exact ⟨⟨t, ht⟩, fun u hu => (h u.name).1 (mem_accessors_iff.2 ⟨u, hu, rfl⟩)⟩
  · rintro ⟨⟨t, ht⟩, hall⟩ name
    rw [mem_accessors_iff]
    constructor
    · rintro ⟨u, hu, rfl⟩
      exact hall u hu
    · rintro rfl
      exact ⟨t, ht, hall t ht⟩

theorem sharers?_usage_iff {names : SortedSet TaskName} :
    (app.usage r).sharers? = some names ↔ names = app.accessors r ∧
      ∃ t u, app.IsAccessor r t ∧ app.IsAccessor r u ∧ t.name ≠ u.name := by
  rw [usage, Usage.sharers?_ofAccessors_iff]
  refine and_congr_right fun _ => ?_
  constructor
  · rintro ⟨a, ha, b, hb, hab⟩
    obtain ⟨t, ht, rfl⟩ := mem_accessors_iff.1 ha
    obtain ⟨u, hu, rfl⟩ := mem_accessors_iff.1 hb
    exact ⟨t, u, ht, hu, hab⟩
  · rintro ⟨t, u, ht, hu, htu⟩
    exact ⟨_, mem_accessors_iff.2 ⟨t, ht, rfl⟩, _, mem_accessors_iff.2 ⟨u, hu, rfl⟩, htu⟩

end App

/-! ## Sharing -/

namespace Sharing

variable {app : App} {r : ResourceName}

theorem exclusive_eq_some_iff {owner : TaskName} :
    (ofApp app).exclusive[r]? = some owner ↔ r ∈ app.resources ∧
      (∃ t, app.IsAccessor r t) ∧ ∀ t, app.IsAccessor r t → t.name = owner := by
  rw [getElem?_exclusive, Option.bind_eq_some_iff, App.mem_resources_iff]
  simp only [App.owner?_usage_iff, exists_and_right]

theorem shared_eq_some_iff {names : SortedSet TaskName} :
    (ofApp app).shared[r]? = some names ↔ r ∈ app.resources ∧ names = app.accessors r ∧
      ∃ t u, app.IsAccessor r t ∧ app.IsAccessor r u ∧ t.name ≠ u.name := by
  rw [getElem?_shared, Option.bind_eq_some_iff, App.mem_resources_iff]
  simp only [App.sharers?_usage_iff, exists_and_right]

end Sharing

end MulticoreTasks
