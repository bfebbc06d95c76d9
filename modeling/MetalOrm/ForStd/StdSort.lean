import Mathlib

/-!
# `std::sort`

`std::sort` leaves elements that compare as equivalent in an unspecified order. `StdSort less` is
any function that may stand for it: the result is an arrangement of the elements in which none is
less than one before it.

## Key results

- `StdSort.ofOrder`: equivalent elements may come in the order of any total preorder
- `StdSort.sublist_run`: elements that the comparison orders come in that order
-/

namespace MetalOrm.ForStd

variable {α : Type}

/-- A strict weak order, which is what `std::sort` asks of a comparison. -/
structure StrictWeakOrder (less : α → α → Bool) : Prop where
  irrefl : ∀ a, less a a = false
  trans : ∀ a b c, less a b = true → less b c = true → less a c = true
  incomparable_trans : ∀ a b c, less a b = false → less b a = false → less b c = false →
    less c b = false → less a c = false ∧ less c a = false

/-- What is relied on of `std::sort(first, last, less)`. -/
structure StdSort (less : α → α → Bool) where
  run : List α → List α
  perm : ∀ xs, (run xs).Perm xs
  sorted : ∀ xs, (run xs).Pairwise fun a b => less b a = false

namespace StdSort

variable {less : α → α → Bool}

@[simp] theorem mem_run (sort : StdSort less) {xs : List α} {a : α} : a ∈ sort.run xs ↔ a ∈ xs :=
  (sort.perm xs).mem_iff

@[simp] theorem length_run (sort : StdSort less) (xs : List α) :
    (sort.run xs).length = xs.length :=
  (sort.perm xs).length_eq

/-- Elements that are equivalent may be put in the order of any total preorder. -/
def ofOrder (le : α → α → Bool) (trans : ∀ a b c, le a b = true → le b c = true → le a c = true)
    (total : ∀ a b, (le a b || le b a) = true)
    (coarser : ∀ a b, le a b = true → less b a = false) : StdSort less where
  run xs := xs.mergeSort le
  perm xs := List.mergeSort_perm xs le
  sorted xs := (List.pairwise_mergeSort trans total xs).imp fun {a b} h => coarser a b h

theorem run_ofOrder_pairwise {le : α → α → Bool} {trans total}
    {coarser : ∀ a b, le a b = true → less b a = false} (xs : List α) :
    ((ofOrder le trans total coarser).run xs).Pairwise fun a b => le a b = true :=
  List.pairwise_mergeSort trans total xs

/-- A pair that the comparison orders is in that order in a sorted list. -/
theorem sublist_of_pairwise {a b : α} (hne : a ≠ b) (hless : less a b = true) {xs : List α}
    (hsorted : xs.Pairwise fun a b => less b a = false) (ha : a ∈ xs) (hb : b ∈ xs) :
    [a, b].Sublist xs := by
  induction xs with
  | nil => cases ha
  | cons x xs ih =>
    rw [List.pairwise_cons] at hsorted
    obtain rfl | hatail := List.mem_cons.mp ha
    · obtain rfl | hbtail := List.mem_cons.mp hb
      · exact absurd rfl hne
      · exact (List.singleton_sublist.mpr hbtail).cons_cons a
    · obtain rfl | hbtail := List.mem_cons.mp hb
      · -- `b` would stand before `a`
        have := hsorted.1 a hatail
        simp [hless] at this
      · exact (ih hsorted.2 hatail hbtail).cons x

theorem sublist_run (sort : StdSort less) {xs : List α} {a b : α} (ha : a ∈ xs) (hb : b ∈ xs)
    (hne : a ≠ b) (hless : less a b = true) : [a, b].Sublist (sort.run xs) :=
  sublist_of_pairwise hne hless (sort.sorted xs) (sort.mem_run.mpr ha) (sort.mem_run.mpr hb)

end StdSort

end MetalOrm.ForStd
