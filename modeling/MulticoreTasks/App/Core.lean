import MulticoreTasks.Table

/-!
# Cores, priorities and names

* `Core`     : a processing unit of the target, by its index;
* `Priority` : how urgent a task is among those of its core, higher first;
* `highest`  : the highest of a list of levels, `0` when there is none;
* `total`    : what a list of capacities comes to.

Names of tasks, resources and types are texts, ordered by code point.
-/

namespace MulticoreTasks

/-- A processing unit of the target. -/
structure Core where
  index : UInt8
  deriving DecidableEq, Repr

namespace Core

instance : Ord Core := ⟨compareOn Core.index⟩

instance : Std.TransOrd Core := inferInstanceAs (Std.TransCmp (compareOn Core.index))

instance : Std.LawfulEqOrd Core where
  eq_of_compare {a b} h := by
    have h' : a.index = b.index := Std.LawfulEqOrd.eq_of_compare h
    cases a; cases b; simp_all

theorem compare_eq_lt {a b : Core} : compare a b = .lt ↔ a.index < b.index := by
  change compare a.index b.index = .lt ↔ _
  exact Std.compare_eq_lt

/-- How a core is named in messages. -/
def label (c : Core) : String := s!"core {c.index}"

end Core

/-- The urgency of a task among those of its core. -/
abbrev Priority := UInt8

abbrev TaskName := String

abbrev ResourceName := String

/-- The name of the type of a resource or of a message. -/
abbrev TypeName := String

/-! ## The highest of several levels -/

/-- The highest of a list of levels, `0` for the empty list. -/
def highest (l : List UInt8) : UInt8 := l.foldr max 0

@[simp] theorem highest_nil : highest [] = 0 := rfl

theorem highest_cons (a : UInt8) (l : List UInt8) : highest (a :: l) = max a (highest l) := rfl

theorem max_eq_ite (a b : UInt8) : max a b = if a ≤ b then b else a := rfl

theorem max_le_iff_and {a b c : UInt8} : max a b ≤ c ↔ a ≤ c ∧ b ≤ c := by
  rw [max_eq_ite]
  split <;> simp only [UInt8.le_iff_toNat_le] at * <;> omega

theorem highest_le_iff {l : List UInt8} {c : UInt8} : highest l ≤ c ↔ ∀ a ∈ l, a ≤ c := by
  induction l with
  | nil => simp
  | cons a l ih => rw [highest_cons, max_le_iff_and, ih, List.forall_mem_cons]

theorem le_highest {l : List UInt8} {a : UInt8} (h : a ∈ l) : a ≤ highest l :=
  highest_le_iff.1 (UInt8.le_refl _) a h

theorem highest_mem {l : List UInt8} (h : l ≠ []) : highest l ∈ l := by
  induction l with
  | nil => exact absurd rfl h
  | cons a l ih =>
    rw [highest_cons, max_eq_ite]
    split
    · next hle =>
      cases l with
      | nil => exact List.mem_singleton.2 (UInt8.le_antisymm UInt8.zero_le hle)
      | cons b l => exact List.mem_cons_of_mem _ (ih (List.cons_ne_nil _ _))
    · exact List.mem_cons_self

/-! ## What several capacities come to -/

/-- The sum of a list of capacities, which no byte bounds. -/
def total (l : List UInt8) : Nat := l.foldr (fun n sum => n.toNat + sum) 0

@[simp] theorem total_nil : total [] = 0 := rfl

@[simp] theorem total_cons (n : UInt8) (l : List UInt8) : total (n :: l) = n.toNat + total l := rfl

end MulticoreTasks
