import Mathlib.Data.List.Nodup
import MulticoreTasks.Proofs.Listing

/-!
# Tables under other keys

What becomes of a set when its members are replaced, and of a table when its keys are:

* `SortedSet.image`, `Table.rekey` : the set of the new members, and the table under the new keys;
* `Table.getElem?_rekey_eq_some`   : what stands under a new key stood under an old one;
* `SortedSet.toList_image_perm`, `Table.values_rekey_perm` : both list the same as before, in
  another order;
* `Table.eq_map_of_forall`, `Table.eq_rekey_of_forall` : how a table is shown to be another one with
  its values changed, or under other keys.

Members and keys have to stay apart.  Where two of them are replaced by one, a set gets smaller and
a table loses an entry.
-/

namespace MulticoreTasks

universe u v w

/-! ## Sets -/

namespace SortedSet

variable {α : Type u} {β : Type v} [Ord α] [Std.TransOrd α] [Ord β] [Std.TransOrd β] {f : α → β}
  {s : SortedSet α}

/-- The set of what the members are replaced by. -/
def image (f : α → β) (s : SortedSet α) : SortedSet β := ofList (s.toList.map f)

theorem mem_image [Std.LawfulEqOrd α] [Std.LawfulEqOrd β] {b : β} :
    b ∈ s.image f ↔ ∃ a ∈ s, f a = b := by
  simp only [image, mem_ofList, List.mem_map, Std.ExtTreeSet.mem_toList]

/-- A set has the members of another one, replaced. -/
theorem eq_image_of_forall [Std.LawfulEqOrd α] [Std.LawfulEqOrd β] {t : SortedSet β}
    (h : ∀ b, b ∈ t ↔ ∃ a ∈ s, f a = b) : t = s.image f :=
  Std.ExtTreeSet.ext_mem fun b => (h b).trans mem_image.symm

theorem toList_image_perm [Std.LawfulEqOrd α] [Std.LawfulEqOrd β]
    (hf : ∀ a ∈ s, ∀ b ∈ s, f a = f b → a = b) : (s.image f).toList.Perm (s.toList.map f) := by
  have hnodup : (s.toList.map f).Nodup := by
    refine List.Nodup.map_on ?_ (nodup_toList s)
    intro a ha b hb
    exact hf a (Std.ExtTreeSet.mem_toList.1 ha) b (Std.ExtTreeSet.mem_toList.1 hb)
  refine (List.perm_ext_iff_of_nodup (nodup_toList _) hnodup).2 fun b => ?_
  rw [Std.ExtTreeSet.mem_toList, mem_image, List.mem_map]
  simp only [Std.ExtTreeSet.mem_toList]

end SortedSet

/-! ## Tables -/

namespace Table

variable {κ : Type u} {α : Type v} {β : Type w} [Ord κ] [Std.TransOrd κ]

/-- The table with every entry under another key. -/
def rekey (f : κ → κ) (t : Table κ α) : Table κ α :=
  Std.ExtTreeMap.ofList (t.toList.map fun e => (f e.1, e.2)) compare

variable [Std.LawfulEqOrd κ]

theorem mem_of_mem_entries {t : Table κ α} {e : κ × α} (he : e ∈ t.entries) : e.1 ∈ t :=
  mem_iff_exists.2 ⟨e.2, mem_entries.1 he⟩

/-- A table has the keys of another one, and its values changed. -/
theorem eq_map_of_forall {t : Table κ α} {t' : Table κ β} {g : α → β}
    (hkeys : ∀ k, k ∈ t' ↔ k ∈ t)
    (hvalues : ∀ (k : κ) (a : α) (b : β), t[k]? = some a → t'[k]? = some b → b = g a) :
    t' = t.map fun _ => g := by
  refine Std.ExtTreeMap.ext_getElem? fun k => Option.ext fun b => ?_
  rw [Std.ExtTreeMap.getElem?_map, Option.map_eq_some_iff]
  constructor
  · intro hb
    obtain ⟨a, ha⟩ := mem_iff_exists.1 ((hkeys k).1 (mem_iff_exists.2 ⟨b, hb⟩))
    exact ⟨a, ha, (hvalues k a b ha hb).symm⟩
  · rintro ⟨a, ha, rfl⟩
    obtain ⟨b, hb⟩ := mem_iff_exists.1 ((hkeys k).2 (mem_iff_exists.2 ⟨a, ha⟩))
    rw [hb, hvalues k a b ha hb]

section Rekey

variable {f : κ → κ} {t : Table κ α} (hf : ∀ a ∈ t, ∀ b ∈ t, f a = f b → a = b)
include hf

theorem getElem?_rekey_eq_some {k : κ} {a : α} :
    (t.rekey f)[k]? = some a ↔ ∃ key, t[key]? = some a ∧ f key = k := by
  have hdistinct : (t.toList.map fun e => (f e.1, e.2)).Pairwise
      fun a b => ¬ compare a.1 b.1 = .eq := by
    refine List.pairwise_map.2 ((entries_pairwise t).imp_of_mem ?_)
    intro a b ha hb hlt heq
    have hkey : a.1 = b.1 := hf a.1 (mem_of_mem_entries ha) b.1 (mem_of_mem_entries hb)
      (Std.LawfulEqOrd.eq_of_compare heq)
    rw [hkey, Std.ReflOrd.compare_self] at hlt
    cases hlt
  rw [rekey, getElem?_ofList_eq_some hdistinct, List.mem_map]
  constructor
  · rintro ⟨e, he, heq⟩
    cases heq
    exact ⟨e.1, mem_entries.1 he, rfl⟩
  · rintro ⟨key, hkey, rfl⟩
    exact ⟨(key, a), mem_entries.2 hkey, rfl⟩

/-- A table has the values of another one, under other keys. -/
theorem eq_rekey_of_forall {t' : Table κ α} (hkeys : ∀ k, k ∈ t' ↔ ∃ key ∈ t, f key = k)
    (hvalues : ∀ (key : κ) (a b : α), t[key]? = some a → t'[f key]? = some b → b = a) :
    t' = t.rekey f := by
  refine Std.ExtTreeMap.ext_getElem? fun k => Option.ext fun b => ?_
  rw [getElem?_rekey_eq_some hf]
  constructor
  · intro hb
    obtain ⟨key, hkey, rfl⟩ := (hkeys k).1 (mem_iff_exists.2 ⟨b, hb⟩)
    obtain ⟨a, ha⟩ := mem_iff_exists.1 hkey
    rw [hvalues key a b ha hb]
    exact ⟨key, ha, rfl⟩
  · rintro ⟨key, ha, rfl⟩
    obtain ⟨a, ha'⟩ := mem_iff_exists.1 ((hkeys (f key)).2 ⟨key, mem_iff_exists.2 ⟨b, ha⟩, rfl⟩)
    rw [ha', hvalues key b a ha ha']

theorem values_rekey_perm : (t.rekey f).values.Perm t.values := by
  have hnodup : (t.entries.map fun e => (f e.1, e.2)).Nodup := by
    refine List.Nodup.map_on ?_ (nodup_entries t)
    intro a ha b hb heq
    obtain ⟨hkey, hvalue⟩ := Prod.mk.inj heq
    exact Prod.ext (hf a.1 (mem_of_mem_entries ha) b.1 (mem_of_mem_entries hb) hkey) hvalue
  have hentries : (t.rekey f).entries.Perm (t.entries.map fun e => (f e.1, e.2)) := by
    refine (List.perm_ext_iff_of_nodup (nodup_entries _) hnodup).2 fun e => ?_
    rw [mem_entries, getElem?_rekey_eq_some hf, List.mem_map]
    constructor
    · rintro ⟨key, hkey, hk⟩
      exact ⟨(key, e.2), mem_entries.2 hkey, Prod.ext hk rfl⟩
    · rintro ⟨e, he, rfl⟩
      exact ⟨e.1, mem_entries.1 he, rfl⟩
  have hvalues := hentries.map Prod.snd
  rw [List.map_map] at hvalues
  exact hvalues

end Rekey

end Table

end MulticoreTasks
