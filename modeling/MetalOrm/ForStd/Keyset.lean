import Mathlib

/-!
# Pages of sorted lists

A library for pages that start at a key: comparisons by several terms, and the first elements of a
list that is sorted by such a comparison.

## Key results

- `lexicographic_lt_iff`: the condition that a query for a page has
- `exists_lt_iff_length`: whether something comes after a page
- `Lists.append_page`: a page and the listing of what is behind it
- `behind_induction`: the induction over what is behind a key
-/

namespace MetalOrm.ForStd.Keyset

variable {α β : Type}

/-! ## Comparisons by several terms -/

/-- The comparison by the first of the terms that tells the two apart. -/
def lexicographic (compare : β → α → α → Ordering) : List β → α → α → Ordering
  | [] => fun _ _ => .eq
  | term :: terms => compareLex (compare term) (lexicographic compare terms)

/-- Each element, with those before it. -/
def splits : List β → List (List β × β)
  | [] => []
  | b :: bs => ([], b) :: (splits bs).map fun split => (b :: split.1, split.2)

theorem splits_map {γ : Type} (f : γ → β) (cs : List γ) :
    splits (cs.map f) = (splits cs).map fun split => (split.1.map f, f split.2) := by
  induction cs with
  | nil => rfl
  | cons c cs ih =>
    rw [List.map_cons, splits, ih, splits, List.map_cons, List.map_map, List.map_map]
    rfl

theorem mem_of_mem_splits {bs : List β} {split : List β × β} (h : split ∈ splits bs) :
    split.2 ∈ bs ∧ ∀ b ∈ split.1, b ∈ bs := by
  induction bs generalizing split with
  | nil => cases h
  | cons b bs ih =>
    rw [splits] at h
    obtain rfl | hmem := List.mem_cons.mp h
    · exact ⟨List.mem_cons_self, nofun⟩
    · obtain ⟨rest, hrest, rfl⟩ := List.mem_map.mp hmem
      obtain ⟨hlast, hbefore⟩ := ih hrest
      refine ⟨List.mem_cons_of_mem b hlast, ?_⟩
      exact List.forall_mem_cons.mpr
        ⟨List.mem_cons_self, fun b' hb' => List.mem_cons_of_mem b (hbefore b' hb')⟩

variable {compare : β → α → α → Ordering}

/-- An element comes before another if a term puts it before, and the terms before that one do not
    tell them apart. -/
theorem lexicographic_lt_iff {terms : List β} {a b : α} :
    lexicographic compare terms a b = .lt ↔
      ∃ split ∈ splits terms, (∀ term ∈ split.1, compare term a b = .eq) ∧
        compare split.2 a b = .lt := by
  induction terms with
  | nil => simp [lexicographic, splits]
  | cons term terms ih =>
    rw [lexicographic, compareLex, Ordering.then_eq_lt, ih]
    simp only [splits, List.mem_cons, List.mem_map, exists_eq_or_imp, List.not_mem_nil,
      false_implies, implies_true, true_and, exists_exists_and_eq_and, forall_eq_or_imp]
    refine or_congr_right ?_
    constructor
    · rintro ⟨heq, split, hmem, hbefore, hlt⟩
      exact ⟨split, hmem, ⟨heq, hbefore⟩, hlt⟩
    · rintro ⟨split, hmem, ⟨heq, hbefore⟩, hlt⟩
      exact ⟨heq, split, hmem, hbefore, hlt⟩

theorem lexicographic_trans (h : ∀ term, Std.TransCmp (compare term)) (terms : List β) :
    Std.TransCmp (lexicographic compare terms) := by
  induction terms with
  | nil => exact { eq_swap := rfl, isLE_trans := fun _ _ => rfl }
  | cons term terms ih =>
    have := h term
    exact inferInstanceAs (Std.TransCmp (compareLex (compare term) (lexicographic compare terms)))

/-! ## Pages -/

section

variable {cmp : α → α → Ordering} [Std.TransCmp cmp] {rows : List α}

/-- Nothing comes before the first element. -/
theorem not_lt_head (hsorted : rows.Pairwise (cmp · · = .lt)) {first : α}
    (hfirst : rows.head? = some first) : ∀ row ∈ rows, cmp row first ≠ .lt := by
  cases rows with
  | nil => cases hfirst
  | cons row rows =>
    cases hfirst
    intro other hother hlt
    have hrefl : ∀ x, cmp x x = .eq := fun x => Std.ReflCmp.compare_self
    obtain rfl | hmem := List.mem_cons.mp hother
    · rw [hrefl] at hlt
      cases hlt
    · have hgt := Std.OrientedCmp.gt_of_lt hlt
      rw [(List.pairwise_cons.mp hsorted).1 other hmem] at hgt
      cases hgt

/-- Something comes after a page if the list is longer than the page may be. -/
theorem exists_lt_iff_length (hsorted : rows.Pairwise (cmp · · = .lt)) {limit : Nat} {last : α}
    (hlast : (rows.take limit).getLast? = some last) :
    (∃ row ∈ rows, cmp last row = .lt) ↔ limit < rows.length := by
  have hmem : last ∈ rows.take limit := List.mem_of_getLast? hlast
  constructor
  · rintro ⟨row, hrow, hlt⟩
    by_contra hle
    rw [List.take_of_length_le (by omega)] at hlast
    -- `last` ends the list, so `row` is before it or is it
    obtain ⟨init, rfl⟩ : ∃ init, rows = init ++ [last] := by
      obtain ⟨init, hinit⟩ := List.getLast?_eq_some_iff.mp hlast
      exact ⟨init, hinit⟩
    obtain hinit | hself := List.mem_append.mp hrow
    · have hgt := Std.OrientedCmp.gt_of_lt hlt
      rw [(List.pairwise_append.mp hsorted).2.2 row hinit last (by simp)] at hgt
      cases hgt
    · have hrefl : cmp last last = .eq := Std.ReflCmp.compare_self
      rw [List.mem_singleton.mp hself, hrefl] at hlt
      cases hlt
  · intro hlt
    refine ⟨rows[limit], List.getElem_mem hlt, ?_⟩
    have hsplit : rows.take limit ++ rows.drop limit = rows := List.take_append_drop limit rows
    rw [← hsplit] at hsorted
    refine (List.pairwise_append.mp hsorted).2.2 last hmem _ ?_
    rw [List.drop_eq_getElem_cons hlt]
    exact List.mem_cons_self

end

/-! ## Listings -/

/-- A list of what a source holds, in the strict order: one element for all that compare as equal. -/
structure Lists (cmp : α → α → Ordering) (source : α → Prop) (items : List α) : Prop where
  sorted : items.Pairwise (cmp · · = .lt)
  mem : ∀ item ∈ items, source item
  cover : ∀ a, source a → ∃ item ∈ items, cmp item a = .eq

section

variable {cmp : α → α → Ordering} {source : α → Prop} {items : List α}

theorem Lists.congr {source' : α → Prop} (h : Lists cmp source items)
    (hsource : ∀ a, source a ↔ source' a) : Lists cmp source' items where
  sorted := h.sorted
  mem item hitem := (hsource item).mp (h.mem item hitem)
  cover a ha := h.cover a ((hsource a).mpr ha)

/-- Backward, the listing is the other way. -/
theorem Lists.reverse [Std.OrientedCmp cmp] (h : Lists cmp source items) :
    Lists (fun a b => cmp b a) source items.reverse where
  sorted := List.pairwise_reverse.mpr h.sorted
  mem item hitem := h.mem item (List.mem_reverse.mp hitem)
  cover a ha := by
    obtain ⟨item, hitem, heq⟩ := h.cover a ha
    exact ⟨item, List.mem_reverse.mpr hitem, Std.OrientedCmp.eq_symm heq⟩

variable [Std.TransCmp cmp]

/-- A page, and a listing of what is behind its last element. -/
theorem Lists.append_page {candidates rest : List α} {limit : Nat} {last : α}
    (h : Lists cmp source candidates) (hlast : (candidates.take limit).getLast? = some last)
    (hrest : Lists cmp (fun a => source a ∧ cmp last a = .lt) rest) :
    Lists cmp source (candidates.take limit ++ rest) where
  sorted := by
    refine List.pairwise_append.mpr ⟨h.sorted.sublist (List.take_sublist _ _), hrest.sorted, ?_⟩
    intro a ha b hb
    obtain ⟨init, hinit⟩ := List.getLast?_eq_some_iff.mp hlast
    have hpage : (init ++ [last]).Pairwise (cmp · · = .lt) :=
      hinit ▸ h.sorted.sublist (List.take_sublist _ _)
    rw [hinit] at ha
    obtain ha | ha := List.mem_append.mp ha
    · have hbefore := (List.pairwise_append.mp hpage).2.2 a ha last (List.mem_singleton_self _)
      exact Std.TransCmp.lt_trans hbefore (hrest.mem b hb).2
    · rw [List.mem_singleton.mp ha]
      exact (hrest.mem b hb).2
  mem item hitem := by
    obtain hitem | hitem := List.mem_append.mp hitem
    · exact h.mem item (List.mem_of_mem_take hitem)
    · exact (hrest.mem item hitem).1
  cover a ha := by
    by_cases hbehind : cmp last a = .lt
    · obtain ⟨item, hitem, heq⟩ := hrest.cover a ⟨ha, hbehind⟩
      exact ⟨item, List.mem_append_right _ hitem, heq⟩
    · obtain ⟨item, hitem, heq⟩ := h.cover a ha
      refine ⟨item, List.mem_append_left _ ?_, heq⟩
      -- a candidate that is not on the page comes after the last one that is
      rw [← List.take_append_drop limit candidates] at hitem
      obtain hitem | hitem := List.mem_append.mp hitem
      · exact hitem
      · have hsorted := h.sorted
        rw [← List.take_append_drop limit candidates] at hsorted
        have hlt := (List.pairwise_append.mp hsorted).2.2 last (List.mem_of_getLast? hlast) item hitem
        exact absurd (Std.TransCmp.lt_of_lt_of_eq hlt heq) hbehind

/-- A listing of a list without equal elements is the list, sorted. -/
theorem Lists.perm {rows : List α} (h : Lists cmp (· ∈ rows) items)
    (hunique : rows.Pairwise (cmp · · ≠ .eq)) : items.Perm rows := by
  have hrefl : ∀ a, cmp a a = .eq := fun a => Std.ReflCmp.compare_self
  have hitems : items.Nodup := h.sorted.imp fun {a b} hlt heq => by
    rw [heq, hrefl] at hlt
    cases hlt
  have hrows : rows.Nodup := hunique.imp fun {a b} hne heq => by
    rw [heq] at hne
    exact hne (hrefl b)
  refine (List.perm_ext_iff_of_nodup hitems hrows).mpr fun a => ⟨h.mem a, fun ha => ?_⟩
  obtain ⟨item, hitem, heq⟩ := h.cover a ha
  have hsymm : Std.Symm fun a b : α => cmp a b ≠ .eq :=
    ⟨fun _ _ hne heq => hne (Std.OrientedCmp.eq_symm heq)⟩
  by_cases hsame : item = a
  · exact hsame ▸ hitem
  · exact absurd heq (hunique.forall (h.mem item hitem) ha hsame)

/-- What is behind a key, if there is one. -/
def Behind (cmp : α → α → Ordering) (start : Option α) (a : α) : Prop :=
  ∀ key ∈ start, cmp key a = .lt

variable (cmp) in
/-- An induction over keys, from the last of them to the first. -/
theorem behind_induction {rows : List α} {motive : Option α → Prop}
    (h : ∀ start, (∀ key ∈ start, key ∈ rows) →
      (∀ next ∈ rows, Behind cmp start next → motive (some next)) → motive start) :
    ∀ start, (∀ key ∈ start, key ∈ rows) → motive start := by
  -- the induction is on a list of what may still be behind the key
  have hleft : ∀ (left : List α) (start : Option α), (∀ key ∈ start, key ∈ rows) →
      (∀ a ∈ rows, Behind cmp start a → a ∈ left) → motive start := by
    intro left
    induction hlength : left.length using Nat.strongRecOn generalizing left with
    | ind count ih =>
      intro start hstart hcover
      refine h start hstart fun next hnext hbehind => ?_
      refine ih (left.filter fun a => cmp next a = .lt).length ?_ _ rfl (some next) ?_ ?_
      · rw [← hlength, List.length_filter_lt_length_iff_exists]
        refine ⟨next, hcover next hnext hbehind, ?_⟩
        have hrefl : cmp next next = .eq := Std.ReflCmp.compare_self
        simp [hrefl]
      · intro key hkey
        cases hkey
        exact hnext
      · intro a ha hafter
        have hlt : cmp next a = .lt := hafter next rfl
        refine List.mem_filter.mpr ⟨hcover a ha fun key hkey => ?_, decide_eq_true hlt⟩
        exact Std.TransCmp.lt_trans (hbehind key hkey) hlt
  exact fun start hstart => hleft rows start hstart fun a ha _ => ha

end

end MetalOrm.ForStd.Keyset
