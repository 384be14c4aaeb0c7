import Std.Data.ExtTreeMap
import Std.Data.ExtTreeSet

/-!
# Ordered tables and sets

Everything the analysis collects is either a finite set or a finite map, and every answer lists it
in key order.  Both are taken extensional, so that two collections are equal exactly when they have
the same members, however they were gathered:

* `SortedSet α`      : a finite set in the order of `α`;
* `Table κ α`        : a finite map in the order of its keys;
* `Table.groupBy`    : the members of a list, in list order, under the key each of them belongs to;
* `Table.entries`, `Table.values` : the listing of a table, by key.

Gathering by key is the one loop that every stage shares.  `getElem?_groupBy` says what it computes:
under a key stand the members with that key, and a key without members is absent.
-/

namespace MulticoreTasks

universe u v w

/-- A finite set, listed in increasing order. -/
abbrev SortedSet (α : Type u) [Ord α] := Std.ExtTreeSet α compare

/-- A finite map, listed by increasing key. -/
abbrev Table (κ : Type u) (α : Type v) [Ord κ] := Std.ExtTreeMap κ α compare

/-! ## Sets -/

namespace SortedSet

variable {α : Type u} [Ord α] [Std.TransOrd α]

/-- The set of the members of a list. -/
def ofList (l : List α) : SortedSet α := Std.ExtTreeSet.ofList l compare

@[simp] theorem mem_ofList [Std.LawfulEqOrd α] {l : List α} {a : α} : a ∈ ofList l ↔ a ∈ l := by
  classical
  let _ : BEq α := instBEqOfDecidableEq
  simp [ofList, Std.ExtTreeSet.mem_ofList]

end SortedSet

/-! ## Tables -/

namespace Table

variable {κ : Type u} {α : Type v} [Ord κ] [Std.TransOrd κ]

/-- The entries of a table, by key. -/
def entries (t : Table κ α) : List (κ × α) := t.toList

/-- The values of a table, by key. -/
def values (t : Table κ α) : List α := t.entries.map Prod.snd

theorem mem_entries [Std.LawfulEqOrd κ] {t : Table κ α} {e : κ × α} :
    e ∈ t.entries ↔ t[e.1]? = some e.2 :=
  Std.ExtTreeMap.mem_toList_iff_getElem?_eq_some

theorem mem_values [Std.LawfulEqOrd κ] {t : Table κ α} {a : α} :
    a ∈ t.values ↔ ∃ k : κ, t[k]? = some a := by
  simp only [values, List.mem_map, mem_entries]
  exact ⟨fun ⟨e, he, h⟩ => ⟨e.1, h ▸ he⟩, fun ⟨k, hk⟩ => ⟨(k, a), hk, rfl⟩⟩

/-- The members of a list under their keys, each group in list order. -/
def groupBy (key : α → κ) (l : List α) : Table κ (List α) :=
  l.foldr (fun a t => t.alter (key a) fun group => some (a :: group.getD [])) ∅

@[simp] theorem groupBy_nil (key : α → κ) : groupBy key [] = ∅ := rfl

theorem groupBy_cons (key : α → κ) (a : α) (l : List α) :
    groupBy key (a :: l) = (groupBy key l).alter (key a) fun group => some (a :: group.getD []) :=
  rfl

/-- Under a key stand the members with that key; a key that no member has is absent. -/
theorem getElem?_groupBy [Std.LawfulEqOrd κ] [DecidableEq κ] (key : α → κ) (l : List α) (k : κ) :
    (groupBy key l)[k]? =
      if l.filter (key · = k) = [] then none else some (l.filter (key · = k)) := by
  induction l with
  | nil => simp
  | cons a l ih =>
    rw [groupBy_cons, Std.ExtTreeMap.getElem?_alter]
    by_cases h : key a = k
    · subst h
      by_cases hl : l.filter (key · = key a) = [] <;> simp [ih, hl]
    · have hc : compare (key a) k ≠ .eq := fun e => h (Std.LawfulEqOrd.eq_of_compare e)
      simp [ih, h, hc]

theorem mem_groupBy [Std.LawfulEqOrd κ] {key : α → κ} {l : List α} {k : κ} :
    k ∈ groupBy key l ↔ ∃ a ∈ l, key a = k := by
  classical
  rw [← Std.ExtTreeMap.isSome_getElem?_iff_mem, getElem?_groupBy]
  split <;> simp_all

/-- What is made of the groups stands under the keys that some member has. -/
theorem getElem?_map_groupBy [Std.LawfulEqOrd κ] [DecidableEq κ] {β : Type w} (key : α → κ)
    (l : List α) (f : κ → List α → β) (k : κ) :
    ((groupBy key l).map f)[k]? =
      if l.filter (key · = k) = [] then none else some (f k (l.filter (key · = k))) := by
  rw [Std.ExtTreeMap.getElem?_map, getElem?_groupBy]
  split <;> simp_all

end Table

end MulticoreTasks
