import Mathlib

/-!
# The first of each key

`firstBy key l` keeps the first element of `l` for each key, in order. A loop that looks up keys in
the set of those that it has seen computes it (`firstUnseen_cons`).

## Key results

- `nodup_map_firstBy`, `mem_map_firstBy`: each key once
- `length_firstBy_comp_iff`: when coarser keys leave as many elements
- `flatMap_slices`: consecutive slices of a list
-/

namespace MetalOrm.ForStd

variable {α κ ι : Type} [DecidableEq κ] [DecidableEq ι] {key : α → κ} {l : List α}

/-- The first element of each key, in order. -/
def firstBy (key : α → κ) : List α → List α
  | [] => []
  | a :: l => a :: (firstBy key l).filter (key · ≠ key a)

theorem firstBy_sublist : (firstBy key l).Sublist l := by
  induction l with
  | nil => exact .slnil
  | cons a l ih => exact (List.filter_sublist.trans ih).cons_cons a

/-- The keys that are left are those of the list. -/
theorem mem_map_firstBy {k : κ} : k ∈ (firstBy key l).map key ↔ k ∈ l.map key := by
  induction l with
  | nil => rfl
  | cons a l ih =>
    rw [firstBy, List.map_cons, List.map_cons, List.mem_cons, List.mem_cons, ← ih]
    by_cases hk : k = key a
    · simp [hk]
    · simp only [hk, false_or, List.mem_map, List.mem_filter, decide_eq_true_eq]
      constructor
      · rintro ⟨b, ⟨hb, -⟩, rfl⟩
        exact ⟨b, hb, rfl⟩
      · rintro ⟨b, hb, rfl⟩
        exact ⟨b, ⟨hb, hk⟩, rfl⟩

theorem nodup_map_firstBy : ((firstBy key l).map key).Nodup := by
  induction l with
  | nil => exact .nil
  | cons a l ih =>
    rw [firstBy, List.map_cons, List.nodup_cons]
    refine ⟨?_, ih.sublist (List.filter_sublist.map key)⟩
    rw [List.mem_map]
    rintro ⟨b, hb, heq⟩
    simp [heq] at hb

/-- The first elements of the keys that have not been seen. -/
def firstUnseen (key : α → κ) (seen : List κ) (l : List α) : List α :=
  (firstBy key l).filter (key · ∉ seen)

@[simp] theorem firstUnseen_nil (seen : List κ) : firstUnseen key seen [] = [] := rfl

@[simp] theorem firstUnseen_of_nil (l : List α) : firstUnseen key [] l = firstBy key l := by
  simp [firstUnseen]

/-- A loop keeps an element, unless it has seen the key. -/
theorem firstUnseen_cons (a : α) (l : List α) (seen : List κ) :
    firstUnseen key seen (a :: l) =
      if key a ∈ seen then firstUnseen key seen l
      else a :: firstUnseen key (key a :: seen) l := by
  rw [firstUnseen, firstUnseen, firstUnseen, firstBy, List.filter_cons, List.filter_filter]
  by_cases ha : key a ∈ seen
  · simp only [ha, not_true_eq_false, decide_false, Bool.false_eq_true, if_false, if_true]
    refine List.filter_congr fun b _ => ?_
    -- a key that was not seen is not that of `a`
    by_cases hb : key b ∈ seen
    · simp [hb]
    · have hne : key b ≠ key a := fun heq => hb (heq ▸ ha)
      simp [hb, hne]
  · simp only [ha, not_false_eq_true, decide_true, if_true, if_false, List.mem_cons, not_or]
    congr 1
    refine List.filter_congr fun b _ => ?_
    simp [Bool.and_comm]

/-- It matters which keys have been seen, not in which order. -/
theorem firstUnseen_congr {seen seen' : List κ} (h : ∀ k, k ∈ seen ↔ k ∈ seen') (l : List α) :
    firstUnseen key seen l = firstUnseen key seen' l :=
  List.filter_congr fun a _ => by simp only [h]

theorem mem_firstUnseen_id {seen l : List κ} {k : κ} :
    k ∈ firstUnseen id seen l ↔ k ∈ l ∧ k ∉ seen := by
  have hmem : k ∈ firstBy id l ↔ k ∈ l := by
    have h : k ∈ (firstBy id l).map id ↔ k ∈ l.map id := mem_map_firstBy
    rwa [List.map_id, List.map_id] at h
  simp [firstUnseen, hmem]

/-- Keys that separate the same elements leave the same ones. -/
theorem firstBy_congr {key' : α → ι} (h : ∀ a ∈ l, ∀ b ∈ l, key a = key b ↔ key' a = key' b) :
    firstBy key l = firstBy key' l := by
  induction l with
  | nil => rfl
  | cons a l ih =>
    rw [firstBy, firstBy, ih fun b hb c hc =>
      h b (List.mem_cons_of_mem a hb) c (List.mem_cons_of_mem a hc)]
    congr 1
    refine List.filter_congr fun b hb => ?_
    have hab := h b (List.mem_cons_of_mem a (firstBy_sublist.subset hb)) a List.mem_cons_self
    simp only [ne_eq, hab]

theorem length_firstBy : (firstBy key l).length = (l.map key).toFinset.card := by
  rw [← List.length_map key, ← List.toFinset_card_of_nodup nodup_map_firstBy]
  congr 1
  ext k
  rw [List.mem_toFinset, List.mem_toFinset, mem_map_firstBy]

/-- Coarser keys leave as many elements just when they are no coarser on the list. -/
theorem length_firstBy_comp_iff (f : κ → ι) :
    (firstBy (f ∘ key) l).length = (firstBy key l).length ↔
      ∀ a ∈ l, ∀ b ∈ l, f (key a) = f (key b) → key a = key b := by
  have himage : (l.map (f ∘ key)).toFinset = (l.map key).toFinset.image f := by
    rw [← List.map_map]
    ext i
    simp
  rw [length_firstBy, length_firstBy, himage, Finset.card_image_iff]
  constructor
  · intro h a ha b hb heq
    exact h (by simpa using ⟨a, ha, rfl⟩) (by simpa using ⟨b, hb, rfl⟩) heq
  · intro h i hi j hj heq
    rw [Finset.mem_coe, List.mem_toFinset, List.mem_map] at hi hj
    obtain ⟨a, ha, rfl⟩ := hi
    obtain ⟨b, hb, rfl⟩ := hj
    exact h a ha b hb heq

/-! ## Slices -/

/-- Consecutive slices of one size make up the list, as far as they reach. -/
theorem flatMap_slices (l : List α) (size count : Nat) :
    (List.range count).flatMap (fun i => (l.drop (i * size)).take size) = l.take (count * size) := by
  induction count with
  | zero => simp
  | succ count ih =>
    rw [List.range_succ, List.flatMap_append, ih, List.flatMap_singleton, Nat.succ_mul,
      List.take_add]

end MetalOrm.ForStd
