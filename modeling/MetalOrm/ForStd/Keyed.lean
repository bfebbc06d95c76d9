import Mathlib

/-!
# Lists with keys, and lists with marks

Two lists that are looked up in by a key agree when every element has its counterpart. A list
with marks is what a greedy matching leaves of it.

## Key results

- `agree_iff_find`: agreement by lookups in both directions
- `free_set`: marking one element takes it out of the free ones
-/

namespace MetalOrm.ForStd

variable {α β κ : Type}

/-! ## Lookups by a key -/

/-- Every element of either list has a counterpart in the other. -/
def Agree (R : α → β → Prop) (xs : List α) (ys : List β) : Prop :=
  (∀ x ∈ xs, ∃ y ∈ ys, R x y) ∧ ∀ y ∈ ys, ∃ x ∈ xs, R x y

theorem find?_key [DecidableEq κ] {key : β → κ} {ys : List β} (hnodup : (ys.map key).Nodup)
    {y : β} (hy : y ∈ ys) : ys.find? (fun z => key z = key y) = some y := by
  induction ys with
  | nil => cases hy
  | cons z ys ih =>
    rw [List.map_cons, List.nodup_cons] at hnodup
    obtain rfl | hmem := List.mem_cons.mp hy
    · exact List.find?_cons_of_pos (by simp)
    · have hne : key z ≠ key y := fun h => hnodup.1 (h ▸ List.mem_map_of_mem hmem)
      rw [List.find?_cons_of_neg (by simpa using hne)]
      exact ih hnodup.2 hmem

/-- Where counterparts have one key, agreement is found by looking up each key in the other
    list. -/
theorem agree_iff_find [DecidableEq κ] {key : α → κ} {key' : β → κ} {R : α → β → Prop}
    {xs : List α} {ys : List β} (hR : ∀ x y, R x y → key x = key' y)
    (hnodup : (ys.map key').Nodup) : Agree R xs ys ↔
      (∀ x ∈ xs, ∃ y, ys.find? (fun z => key' z = key x) = some y ∧ R x y) ∧
        ∀ y ∈ ys, ∃ x ∈ xs, key x = key' y := by
  constructor
  · rintro ⟨hleft, hright⟩
    constructor
    · intro x hx
      obtain ⟨y, hy, hxy⟩ := hleft x hx
      exact ⟨y, by rw [hR x y hxy]; exact find?_key hnodup hy, hxy⟩
    · intro y hy
      obtain ⟨x, hx, hxy⟩ := hright y hy
      exact ⟨x, hx, hR x y hxy⟩
  · rintro ⟨hfind, hkeys⟩
    constructor
    · intro x hx
      obtain ⟨y, hy, hxy⟩ := hfind x hx
      exact ⟨y, List.mem_of_find?_eq_some hy, hxy⟩
    · intro y hy
      obtain ⟨x, hx, hkey⟩ := hkeys y hy
      obtain ⟨z, hz, hxz⟩ := hfind x hx
      rw [hkey, find?_key hnodup hy] at hz
      cases hz
      exact ⟨x, hx, hxz⟩

/-! ## Marks -/

/-- The elements that are not marked. -/
def free : List α → List Bool → List α
  | x :: xs, marked :: marks => if marked then free xs marks else x :: free xs marks
  | _, _ => []

/-- The `i`-th element is there and not marked. -/
def FreeAt (xs : List α) (marks : List Bool) (i : Nat) (x : α) : Prop :=
  xs[i]? = some x ∧ marks[i]? = some false

theorem free_replicate (xs : List α) : free xs (List.replicate xs.length false) = xs := by
  induction xs with
  | nil => rfl
  | cons x xs ih => simp [free, List.replicate_succ, ih]

/-- Marking a free element takes it out of the free ones. -/
theorem free_set {xs : List α} {marks : List Bool} {i : Nat} {x : α} (h : FreeAt xs marks i x) :
    (free xs marks).Perm (x :: free xs (marks.set i true)) := by
  induction xs generalizing marks i with
  | nil => cases h.1
  | cons y ys ih =>
    cases marks with
    | nil => cases h.2
    | cons marked marks =>
      cases i with
      | zero =>
        obtain ⟨hx, hmark⟩ := h
        cases hx
        cases hmark
        simp [free]
      | succ i =>
        have hinner : FreeAt ys marks i x := h
        have hrest := ih hinner
        cases marked with
        | true => simpa [free] using hrest
        | false =>
          simp only [free, List.set_cons_succ, Bool.false_eq_true, if_false]
          exact (hrest.cons y).trans (List.Perm.swap x y _)

theorem free_eq_nil {xs : List α} {marks : List Bool} (h : ∀ p ∈ xs.zip marks, p.2 = true) :
    free xs marks = [] := by
  induction xs generalizing marks with
  | nil => rfl
  | cons x xs ih =>
    cases marks with
    | nil => rfl
    | cons marked marks =>
      have hmarked : marked = true := h (x, marked) List.mem_cons_self
      have hinner : ∀ p ∈ xs.zip marks, p.2 = true := fun p hp => h p (List.mem_cons_of_mem _ hp)
      have hrest := ih hinner
      simp [free, hmarked, hrest]

end MetalOrm.ForStd
