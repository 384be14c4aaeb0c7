import MulticoreTasks.Table

/-!
# Listings of tables and sets

A table lists every entry once, by increasing key, and a set every member once.  What this says of
sizes, of filters and of the groups of a list:

* `exists_first_of_findSome?`         : a search through an ordered list stops at the first member
  that it can stop at;
* `SortedSet.one_lt_size_iff`         : a set has several members when two of them differ;
* `Table.filter_entries_eq_singleton`, `Table.filter_entries_eq_nil` : a filter that only one key
  passes leaves the entry under this key, if there is one;
* `Table.size_filterMap`              : the size of a table of kept entries is a count;
* `Table.getElem?_ofList_eq_some`     : a list with distinct keys is the table made of it, and
  `Table.ofList_toList`, `SortedSet.ofList_toList` : a listing is what it lists;
* `Table.eq_of_mem_iff` : a table of sets is known by their members, when none of them is empty;
* `Table.getElem?_map_groupBy_eq_some`, `SortedSet.ofList_eq_empty_iff` : no group, and no set made
  of one, is empty;
* `Table.foldl_alter_eq_map_groupBy`, `Table.foldl_insert_filterMap` : a table that is gathered
  member by member is the one of the groups, and one that is filled entry by entry is the whole.
-/

namespace MulticoreTasks

universe u v w

/-- In an ordered list, the member that a search stops at comes before all others that it would stop
at. -/
theorem exists_first_of_findSome? {α β : Type} {R : α → α → Prop} {l : List α} {f : α → Option β}
    {b : β} (hl : l.Pairwise R) (h : l.findSome? f = some b) :
    ∃ a ∈ l, f a = some b ∧ ∀ x ∈ l, f x ≠ none → x = a ∨ R a x := by
  obtain ⟨before, a, after, rfl, ha, hnone⟩ := List.findSome?_eq_some_iff.1 h
  refine ⟨a, by simp, ha, ?_⟩
  intro x hx hsome
  rcases List.mem_append.1 hx with hx | hx
  · exact absurd (hnone x hx) hsome
  · rcases List.mem_cons.1 hx with rfl | hx
    · exact Or.inl rfl
    · have hafter := (List.pairwise_append.1 hl).2.1
      exact Or.inr ((List.pairwise_cons.1 hafter).1 x hx)

namespace SortedSet

variable {α : Type u} [Ord α] [Std.TransOrd α]

theorem nodup_toList (s : SortedSet α) : s.toList.Nodup :=
  s.distinct_toList.imp Std.ReflCmp.ne_of_cmp_ne_eq

theorem ne_empty_of_mem {s : SortedSet α} {a : α} (h : a ∈ s) : s ≠ ∅ := by
  rintro rfl
  exact Std.ExtTreeSet.not_mem_empty h

theorem exists_mem_of_ne_empty [Std.LawfulEqOrd α] {s : SortedSet α} (h : s ≠ ∅) :
    ∃ a, a ∈ s := by
  have hlist : s.toList ≠ [] := by rwa [Ne, Std.ExtTreeSet.toList_eq_nil_iff]
  obtain ⟨a, ha⟩ := List.exists_mem_of_ne_nil _ hlist
  exact ⟨a, Std.ExtTreeSet.mem_toList.1 ha⟩

theorem ofList_eq_empty_iff [Std.LawfulEqOrd α] {l : List α} : ofList l = ∅ ↔ l = [] := by
  cases l with
  | nil => exact iff_of_true rfl rfl
  | cons a l =>
    have ha : a ∈ ofList (a :: l) := mem_ofList.2 (List.mem_cons_self ..)
    exact iff_of_false (ne_empty_of_mem ha) (List.cons_ne_nil a l)

theorem ofList_toList [Std.LawfulEqOrd α] (s : SortedSet α) : ofList s.toList = s := by
  refine Std.ExtTreeSet.ext_mem fun a => ?_
  rw [mem_ofList, Std.ExtTreeSet.mem_toList]

/-- What is inserted into a set one after the other is in it in the end, beside what was. -/
theorem mem_foldl_insert [Std.LawfulEqOrd α] {β : Type v} (f : β → Option α) (l : List β)
    (s : SortedSet α) (a : α) :
    a ∈ l.foldl (fun s b => (f b).elim s s.insert) s ↔ a ∈ s ∨ a ∈ l.filterMap f := by
  induction l generalizing s with
  | nil => simp
  | cons b l ih =>
    rw [List.foldl_cons, ih]
    cases hb : f b with
    | none => rw [List.filterMap_cons_none hb, Option.elim_none]
    | some c =>
      rw [List.filterMap_cons_some hb, Option.elim_some, Std.ExtTreeSet.mem_insert,
        Std.compare_eq_iff_eq, List.mem_cons, eq_comm, or_assoc, or_left_comm]

theorem foldl_insert_filterMap [Std.LawfulEqOrd α] {β : Type v} (f : β → Option α) (l : List β) :
    l.foldl (fun s b => (f b).elim s s.insert) ∅ = ofList (l.filterMap f) := by
  refine Std.ExtTreeSet.ext_mem fun a => ?_
  rw [mem_foldl_insert, mem_ofList, or_iff_right Std.ExtTreeSet.not_mem_empty]

theorem foldl_insert_map [Std.LawfulEqOrd α] {β : Type v} (f : β → α) (l : List β) :
    l.foldl (fun s b => s.insert (f b)) ∅ = ofList (l.map f) := by
  rw [← List.filterMap_eq_map, ← foldl_insert_filterMap]
  rfl

/-- A set has several members when two of them differ. -/
theorem one_lt_size_iff [Std.LawfulEqOrd α] {s : SortedSet α} :
    1 < s.size ↔ ∃ a ∈ s, ∃ b ∈ s, a ≠ b := by
  simp only [← Std.ExtTreeSet.length_toList, ← Std.ExtTreeSet.mem_toList]
  have hnodup : s.toList.Nodup := nodup_toList s
  match hlist : s.toList with
  | [] => simp
  | [a] => simp
  | a :: b :: rest =>
    rw [hlist, List.nodup_cons] at hnodup
    have hne : a ≠ b := by
      rintro rfl
      exact hnodup.1 (List.mem_cons_self ..)
    exact iff_of_true (by simp) ⟨a, by simp, b, by simp, hne⟩

end SortedSet

namespace Table

variable {κ : Type u} {α : Type v} [Ord κ] [Std.TransOrd κ]

theorem mem_iff_exists {t : Table κ α} {k : κ} : k ∈ t ↔ ∃ a, t[k]? = some a := by
  rw [Std.ExtTreeMap.mem_iff_isSome_getElem?, Option.isSome_iff_exists]

theorem empty_union [Std.LawfulEqOrd κ] (t : Table κ α) : ∅ ∪ t = t := by
  refine Std.ExtTreeMap.ext_getElem? fun k => ?_
  rw [Std.ExtTreeMap.getElem?_union, Std.ExtTreeMap.getElem?_empty, Option.or_none]

theorem entries_pairwise (t : Table κ α) :
    t.entries.Pairwise fun a b => compare a.1 b.1 = .lt :=
  Std.ExtTreeMap.ordered_keys_toList

theorem nodup_entries (t : Table κ α) : t.entries.Nodup := by
  refine t.entries_pairwise.imp ?_
  rintro a b h rfl
  rw [Std.ReflOrd.compare_self] at h
  cases h

/-- A filter that only one key passes leaves one entry. -/
theorem filter_entries_eq_singleton [Std.LawfulEqOrd κ] {t : Table κ α} {p : κ × α → Bool} {k : κ}
    {a : α} (ha : t[k]? = some a) (hp : p (k, a) = true) (honly : ∀ e, p e = true → e.1 = k) :
    t.entries.filter p = [(k, a)] := by
  have hmem : ∀ e, e ∈ t.entries.filter p ↔ e ∈ [(k, a)] := by
    intro e
    rw [List.mem_filter, List.mem_singleton, mem_entries]
    constructor
    · rintro ⟨hsome, he⟩
      have hkey := honly e he
      rw [hkey, ha] at hsome
      exact Prod.ext hkey (Option.some.inj hsome).symm
    · rintro rfl
      exact ⟨ha, hp⟩
  have hperm : (t.entries.filter p).Perm [(k, a)] :=
    (List.perm_ext_iff_of_nodup (t.nodup_entries.sublist (List.filter_sublist ..))
      (by simp)).2 hmem
  exact List.perm_singleton.1 hperm

/-- A filter for a key that is absent leaves none. -/
theorem filter_entries_eq_nil [Std.LawfulEqOrd κ] [DecidableEq κ] {t : Table κ α} {k : κ}
    (h : t[k]? = none) : t.entries.filter (·.1 = k) = [] := by
  refine List.filter_eq_nil_iff.2 fun e he hkey => ?_
  rw [← of_decide_eq_true hkey, mem_entries.1 he] at h
  cases h

theorem size_filterMap {β : Type w} (t : Table κ α) (f : κ → α → Option β) :
    (t.filterMap f).size = t.toList.countP fun e => (f e.1 e.2).isSome := by
  rw [← Std.ExtTreeMap.length_toList, Std.ExtTreeMap.toList_filterMap,
    List.length_filterMap_eq_countP]
  simp

/-- The lookup in a table made of a list with distinct keys. -/
theorem getElem?_ofList_eq_some [Std.LawfulEqOrd κ] {l : List (κ × α)}
    (hl : l.Pairwise fun a b => ¬ compare a.1 b.1 = .eq) {k : κ} {a : α} :
    (Std.ExtTreeMap.ofList l compare)[k]? = some a ↔ (k, a) ∈ l := by
  classical
  let _ : BEq κ := instBEqOfDecidableEq
  constructor
  · intro h
    have hmem : k ∈ Std.ExtTreeMap.ofList l compare := mem_iff_exists.2 ⟨a, h⟩
    rw [Std.ExtTreeMap.mem_ofList, List.contains_iff_mem] at hmem
    obtain ⟨⟨k', b⟩, hb, rfl⟩ := List.mem_map.1 hmem
    rw [Std.ExtTreeMap.getElem?_ofList_of_mem Std.ReflCmp.compare_self hl hb] at h
    cases h
    exact hb
  · intro h
    exact Std.ExtTreeMap.getElem?_ofList_of_mem Std.ReflCmp.compare_self hl h

theorem ofList_toList [Std.LawfulEqOrd κ] (t : Table κ α) :
    Std.ExtTreeMap.ofList t.toList compare = t := by
  have hdistinct : t.toList.Pairwise fun a b => ¬ compare a.1 b.1 = .eq :=
    Std.ExtTreeMap.distinct_keys_toList
  refine Std.ExtTreeMap.ext_getElem? fun k => Option.ext fun a => ?_
  rw [getElem?_ofList_eq_some hdistinct]
  exact mem_entries (e := (k, a))

section Sets

variable [Ord α] [Std.TransOrd α] [Std.LawfulEqOrd α] {t t' : Table κ (SortedSet α)}

/-- A set that is not empty stands in every table with the same members under the same keys. -/
theorem getElem?_of_mem_iff (ht : ∀ (k : κ) (s : SortedSet α), t[k]? = some s → s ≠ ∅)
    (h : ∀ (k : κ) (a : α), (∃ s, t[k]? = some s ∧ a ∈ s) ↔ ∃ s, t'[k]? = some s ∧ a ∈ s) {k : κ}
    {s : SortedSet α} (hs : t[k]? = some s) : t'[k]? = some s := by
  obtain ⟨a, ha⟩ := SortedSet.exists_mem_of_ne_empty (ht k s hs)
  obtain ⟨s', hs', -⟩ := (h k a).1 ⟨s, hs, ha⟩
  have hmem : ∀ b, b ∈ s ↔ b ∈ s' := by simpa [hs, hs'] using h k
  rw [hs', Std.ExtTreeSet.ext_mem hmem]

/-- Two tables of sets are one when no set in them is empty and they have the same members under
the same keys. -/
theorem eq_of_mem_iff [Std.LawfulEqOrd κ]
    (ht : ∀ (k : κ) (s : SortedSet α), t[k]? = some s → s ≠ ∅)
    (ht' : ∀ (k : κ) (s : SortedSet α), t'[k]? = some s → s ≠ ∅)
    (h : ∀ (k : κ) (a : α), (∃ s, t[k]? = some s ∧ a ∈ s) ↔ ∃ s, t'[k]? = some s ∧ a ∈ s) :
    t = t' := by
  refine Std.ExtTreeMap.ext_getElem? fun k => Option.ext fun s => ?_
  exact ⟨getElem?_of_mem_iff ht h, getElem?_of_mem_iff ht' fun k a => (h k a).symm⟩

end Sets

/-! ## Groups -/

theorem getElem?_map_groupBy_eq_some [Std.LawfulEqOrd κ] [DecidableEq κ] {β : Type w}
    {key : α → κ} {l : List α} {f : κ → List α → β} {k : κ} {b : β} :
    ((groupBy key l).map f)[k]? = some b ↔
      (∃ a ∈ l, key a = k) ∧ b = f k (l.filter (key · = k)) := by
  rw [getElem?_map_groupBy]
  have hnil : l.filter (key · = k) = [] ↔ ¬ ∃ a ∈ l, key a = k := by simp
  by_cases hgroup : ∃ a ∈ l, key a = k
  · rw [if_neg fun h => hnil.1 h hgroup, Option.some.injEq]
    exact ⟨fun h => ⟨hgroup, h.symm⟩, fun h => h.2.symm⟩
  · rw [if_pos (hnil.2 hgroup)]
    simp [hgroup]

/-! ## Gathering member by member -/

theorem alter_eq_self [Std.LawfulEqOrd κ] {t : Table κ α} {k : κ} {f : Option α → Option α}
    (h : f t[k]? = t[k]?) : t.alter k f = t := by
  refine Std.ExtTreeMap.ext_getElem? fun k' => ?_
  rw [Std.ExtTreeMap.getElem?_alter]
  split
  · next hkey => rw [h, Std.LawfulEqOrd.eq_of_compare hkey]
  · rfl

section Gather

variable [Std.LawfulEqOrd κ] [DecidableEq κ] {β : Type w} (key : α → κ)

/-- What stands under a key has met the members with that key, one after the other. -/
theorem getElem?_foldl_alter (f : Option β → α → Option β) (l : List α) (t : Table κ β) (k : κ) :
    (l.foldl (fun t a => t.alter (key a) fun b => f b a) t)[k]? =
      (l.filter (key · = k)).foldl f t[k]? := by
  induction l generalizing t with
  | nil => rfl
  | cons a l ih =>
    rw [List.foldl_cons, ih, Std.ExtTreeMap.getElem?_alter]
    by_cases h : key a = k
    · subst h
      simp
    · have hc : compare (key a) k ≠ .eq := fun e => h (Std.LawfulEqOrd.eq_of_compare e)
      simp [h, hc]

theorem foldl_some_getD {γ : Type v} (g : β → γ → β) (init : β) (l : List γ) (b : Option β) :
    l.foldl (fun b a => some (g (b.getD init) a)) b =
      if l = [] then b else some (l.foldl g (b.getD init)) := by
  induction l generalizing b with
  | nil => rfl
  | cons a l ih =>
    rw [List.foldl_cons, ih, if_neg (List.cons_ne_nil a l)]
    by_cases hl : l = []
    · subst hl
      rfl
    · rw [if_neg hl]
      rfl

/-- Meeting the members one by one, each under its own key, comes to meeting them group by group. -/
theorem foldl_alter_eq_map_groupBy (g : β → α → β) (init : β) (l : List α) :
    l.foldl (fun t a => t.alter (key a) fun b => some (g (b.getD init) a)) (∅ : Table κ β) =
      (groupBy key l).map fun _ group => group.foldl g init := by
  refine Std.ExtTreeMap.ext_getElem? fun k => ?_
  rw [getElem?_foldl_alter key fun b a => some (g (b.getD init) a), foldl_some_getD,
    getElem?_map_groupBy, Std.ExtTreeMap.getElem?_empty]
  rfl

/-- Inserting what is made of the entries of a table one by one comes to inserting all at once. -/
theorem foldl_insert_filterMap (f : κ → α → Option β) (t : Table κ α) (s : Table κ β) :
    t.entries.foldl (fun s e => (f e.1 e.2).elim s (s.insert e.1)) s = s ∪ t.filterMap f := by
  have hstep : ∀ (s : Table κ β) (e : κ × α), (f e.1 e.2).elim s (s.insert e.1) =
      s.alter e.1 fun b => (f e.1 e.2).or b := by
    intro s e
    cases f e.1 e.2 with
    | none => exact (alter_eq_self Option.none_or).symm
    | some b =>
      refine Std.ExtTreeMap.ext_getElem? fun k => ?_
      rw [Option.elim_some, Std.ExtTreeMap.getElem?_insert, Std.ExtTreeMap.getElem?_alter]
      rfl
  refine Std.ExtTreeMap.ext_getElem? fun k => ?_
  simp only [hstep]
  rw [getElem?_foldl_alter Prod.fst fun b e => (f e.1 e.2).or b, Std.ExtTreeMap.getElem?_union,
    Std.ExtTreeMap.getElem?_filterMap']
  cases ha : t[k]? with
  | none =>
    rw [filter_entries_eq_nil ha]
    rfl
  | some a =>
    rw [filter_entries_eq_singleton ha (decide_eq_true rfl) fun e => of_decide_eq_true]
    rfl

end Gather

end Table

end MulticoreTasks
