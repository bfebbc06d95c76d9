import MetalOrm.Native.NestedSet
import Mathlib.Data.List.Nodup
import Mathlib.Data.List.Pairwise

/-!
# What `validate_tree` accepts

`ValidBounds` says that intervals are those of a forest. The validation compares every node with
the nodes behind it in the order of their left boundaries, so it sees a defect unless that defect
is a tie between boundaries.

## Key results

- `validateItems_eq_nil`: what the loop checks
- `validate_tree_exact_iff`: the validation is exact on rows with distinct boundaries and on rows
  with a defect that does not depend on a tie, and on no others
-/

namespace MetalOrm.Native.Tree

open ForStd (StdSort)

/-! ## Forests of intervals -/

/-- The intervals have no boundary in common and `a` is before `b`. -/
def NestedSetBounds.Before (a b : NestedSetBounds) : Prop := a.rght < b.lft

/-- The interval `a` is a part of `b`. -/
def NestedSetBounds.Within (a b : NestedSetBounds) : Prop := b.lft ≤ a.lft ∧ a.rght ≤ b.rght

/-- Two intervals are disjoint or nested. -/
def NestedSetBounds.Laminar (a b : NestedSetBounds) : Prop :=
  a.Before b ∨ b.Before a ∨ a.Within b ∨ b.Within a

theorem NestedSetBounds.Laminar.symm {a b : NestedSetBounds} (h : a.Laminar b) : b.Laminar a := by
  unfold Laminar at h ⊢
  tauto

instance : Std.Symm NestedSetBounds.Laminar := ⟨fun _ _ h => h.symm⟩

/-- The boundary values of a list of intervals. -/
def boundaryValues (bounds : List NestedSetBounds) : List Int64 :=
  bounds.flatMap fun b => [b.lft, b.rght]

/-- The intervals are those of a forest. -/
structure ValidBounds (bounds : List NestedSetBounds) : Prop where
  positive : ∀ b ∈ bounds, 1 ≤ b.lft
  ordered : ∀ b ∈ bounds, b.lft < b.rght
  distinct : (boundaryValues bounds).Nodup
  laminar : bounds.Pairwise NestedSetBounds.Laminar

/-- `a` and `b` cross, with all four boundaries apart. -/
def NestedSetBounds.Cross (a b : NestedSetBounds) : Prop :=
  a.lft < b.lft ∧ b.lft < a.rght ∧ a.rght < b.rght

/-- Every defect can be seen without comparing boundaries that are equal. -/
def TieFree (bounds : List NestedSetBounds) : Prop :=
  (boundaryValues bounds).Nodup ∨ (∃ b ∈ bounds, b.lft < 1 ∨ b.rght ≤ b.lft) ∨
    ∃ a ∈ bounds, ∃ b ∈ bounds, a.Cross b

/-- The four boundaries of two intervals are apart. -/
def NestedSetBounds.Distinct (a b : NestedSetBounds) : Prop :=
  a.lft ≠ b.lft ∧ a.lft ≠ b.rght ∧ a.rght ≠ b.lft ∧ a.rght ≠ b.rght

theorem pairwise_distinct_of_nodup {bounds : List NestedSetBounds}
    (h : (boundaryValues bounds).Nodup) : bounds.Pairwise NestedSetBounds.Distinct := by
  apply (List.nodup_flatMap.mp h).2.imp
  intro a b hab
  have hapart : ∀ x ∈ [a.lft, a.rght], x ∉ [b.lft, b.rght] := fun x hx => hab hx
  have hlft := hapart a.lft (by simp)
  have hrght := hapart a.rght (by simp)
  simp only [List.mem_cons, List.not_mem_nil, or_false, not_or] at hlft hrght
  exact ⟨hlft.1, hlft.2, hrght.1, hrght.2⟩

/-! ## What the loop checks -/

theorem nodeErrors_eq_nil {node : Item} :
    nodeErrors node = [] ↔ node.lft < node.rght ∧ 1 ≤ node.lft := by
  have hlt : ¬ node.lft ≥ node.rght ↔ node.lft < node.rght := by
    simp only [ge_iff_le, Int64.le_iff_toInt_le, Int64.lt_iff_toInt_lt]
    omega
  have hle : ¬ node.lft < 1 ↔ 1 ≤ node.lft := by
    simp only [Int64.le_iff_toInt_le, Int64.lt_iff_toInt_lt]
    omega
  rw [← hlt, ← hle]
  unfold nodeErrors
  split <;> split <;> simp_all

theorem overlapErrors_eq_nil {node : Item} {others : List Item} :
    overlapErrors node others = [] ↔ ∀ other ∈ others, overlaps node other = false := by
  simp [overlapErrors, List.filter_eq_nil_iff]

theorem validateItems_eq_nil {items : List Item} :
    validateItems items = [] ↔ (∀ node ∈ items, node.lft < node.rght ∧ 1 ≤ node.lft) ∧
      items.Pairwise fun node other => overlaps node other = false := by
  induction items with
  | nil => simp [validateItems]
  | cons node others ih =>
    rw [validateItems, List.append_eq_nil_iff, List.append_eq_nil_iff, nodeErrors_eq_nil,
      overlapErrors_eq_nil, ih, List.forall_mem_cons, List.pairwise_cons]
    tauto

/-- The errors of an arrangement of the items. -/
theorem validate_run_eq_nil (sort : StdSort Item.before) {items : List Item} :
    validateItems (sort.run items) = [] ↔
      (∀ node ∈ items, node.lft < node.rght ∧ 1 ≤ node.lft) ∧
        (sort.run items).Pairwise fun node other => overlaps node other = false := by
  rw [validateItems_eq_nil]
  simp only [StdSort.mem_run]

/-! ## Boundaries that are apart -/

/-- Two nodes with distinct boundaries, in the order of the loop. -/
theorem overlaps_eq_false_iff {a b : Item} (ha : a.lft < a.rght) (hb : b.lft < b.rght)
    (hsorted : Item.before b a = false) (hdistinct : a.bounds.Distinct b.bounds) :
    overlaps a b = false ↔ a.bounds.Laminar b.bounds := by
  simp only [Item.before, decide_eq_false_iff_not, Item.bounds, NestedSetBounds.Distinct,
    NestedSetBounds.Laminar, NestedSetBounds.Before, NestedSetBounds.Within, overlaps,
    Bool.and_eq_false_iff, gt_iff_lt, Int64.lt_iff_toInt_lt, Int64.le_iff_toInt_le, ne_eq,
    ← Int64.toInt_inj] at *
  omega

theorem validate_iff_of_nodup (sort : StdSort Item.before) {items : List Item}
    (hnodup : (boundaryValues (items.map Item.bounds)).Nodup) :
    validateItems (sort.run items) = [] ↔ ValidBounds (items.map Item.bounds) := by
  have hperm := sort.perm items
  have hdistinct : (sort.run items).Pairwise fun a b => a.bounds.Distinct b.bounds := by
    apply List.pairwise_map.mp
    apply pairwise_distinct_of_nodup
    exact ((hperm.map Item.bounds).flatMap_right _).nodup_iff.mpr hnodup
  -- node by node, the loop and the definition say the same
  have hpairs : (∀ node ∈ items, node.lft < node.rght ∧ 1 ≤ node.lft) →
      ((sort.run items).Pairwise (fun a b => overlaps a b = false) ↔
        (sort.run items).Pairwise fun a b => a.bounds.Laminar b.bounds) := by
    intro hnodes
    have hiff := ((sort.sorted items).and hdistinct).imp_of_mem
      fun {a b} (ha : a ∈ sort.run items) (hb : b ∈ sort.run items) hab =>
        overlaps_eq_false_iff (hnodes a (by simpa using ha)).1 (hnodes b (by simpa using hb)).1
          hab.1 hab.2
    constructor
    · intro h
      exact (h.and hiff).imp fun hab => hab.2.mp hab.1
    · intro h
      exact (h.and hiff).imp fun hab => hab.2.mpr hab.1
  have hlaminar : (sort.run items).Pairwise (fun a b => a.bounds.Laminar b.bounds) ↔
      (items.map Item.bounds).Pairwise NestedSetBounds.Laminar := by
    rw [List.pairwise_map]
    exact hperm.pairwise_iff fun h => h.symm
  rw [validate_run_eq_nil]
  constructor
  · rintro ⟨hnodes, hoverlaps⟩
    exact ⟨List.forall_mem_map.mpr fun a ha => (hnodes a ha).2,
      List.forall_mem_map.mpr fun a ha => (hnodes a ha).1, hnodup,
      hlaminar.mp ((hpairs hnodes).mp hoverlaps)⟩
  · intro hvalid
    have hnodes : ∀ node ∈ items, node.lft < node.rght ∧ 1 ≤ node.lft := fun a ha =>
      ⟨hvalid.ordered a.bounds (List.mem_map_of_mem ha),
        hvalid.positive a.bounds (List.mem_map_of_mem ha)⟩
    exact ⟨hnodes, (hpairs hnodes).mpr (hlaminar.mpr hvalid.laminar)⟩

/-! ## Defects that are always seen -/

theorem validate_ne_nil_of_cross (sort : StdSort Item.before) {items : List Item} {a b : Item}
    (ha : a ∈ items) (hb : b ∈ items) (hcross : a.bounds.Cross b.bounds) :
    validateItems (sort.run items) ≠ [] := by
  intro h
  have hbefore : Item.before a b = true := decide_eq_true hcross.1
  have hne : a ≠ b := by
    intro heq
    have hlt := hcross.1
    rw [heq] at hlt
    exact Int64.lt_irrefl hlt
  -- the loop compares the two in this order
  have hpair := ((validate_run_eq_nil sort).mp h).2.sublist (sort.sublist_run ha hb hne hbefore)
  have hoverlaps : overlaps a b = false := by simpa using hpair
  have : overlaps a b = true := by
    simp only [overlaps, Bool.and_eq_true, decide_eq_true_eq]
    exact hcross.2
  rw [this] at hoverlaps
  cases hoverlaps

theorem not_validBounds_of_cross {bounds : List NestedSetBounds} {a b : NestedSetBounds}
    (ha : a ∈ bounds) (hb : b ∈ bounds) (hcross : a.Cross b) : ¬ ValidBounds bounds := by
  intro hvalid
  have horder := hvalid.ordered b hb
  have hne : a ≠ b := by
    rintro rfl
    exact Int64.lt_irrefl hcross.1
  have hlaminar := hvalid.laminar.forall ha hb hne
  simp only [NestedSetBounds.Cross, NestedSetBounds.Laminar, NestedSetBounds.Before,
    NestedSetBounds.Within, Int64.lt_iff_toInt_lt, Int64.le_iff_toInt_le] at *
  omega

/-! ## Ties -/

/-- Of the nodes with one left boundary, the widest first. -/
def Item.widestFirst (a b : Item) : Bool := a.lft < b.lft || (a.lft == b.lft && b.rght ≤ a.rght)

/-- An arrangement that `std::sort` may choose. -/
def sortWidestFirst : StdSort Item.before :=
  .ofOrder Item.widestFirst
    (by
      intro a b c
      simp only [Item.widestFirst, Bool.or_eq_true, Bool.and_eq_true, decide_eq_true_eq,
        beq_iff_eq, Int64.lt_iff_toInt_lt, Int64.le_iff_toInt_le, ← Int64.toInt_inj]
      omega)
    (by
      intro a b
      simp only [Item.widestFirst, Bool.or_eq_true, Bool.and_eq_true, decide_eq_true_eq,
        beq_iff_eq, Int64.lt_iff_toInt_lt, Int64.le_iff_toInt_le, ← Int64.toInt_inj]
      omega)
    (by
      intro a b
      simp only [Item.widestFirst, Item.before, Bool.or_eq_true, Bool.and_eq_true,
        decide_eq_true_eq, decide_eq_false_iff_not, beq_iff_eq, Int64.lt_iff_toInt_lt,
        Int64.le_iff_toInt_le, ← Int64.toInt_inj]
      omega)

/-- With the widest first, the loop sees nothing but crossings. -/
theorem validate_widestFirst_eq_nil {items : List Item}
    (hnodes : ∀ node ∈ items, node.lft < node.rght ∧ 1 ≤ node.lft)
    (hcross : ∀ a ∈ items, ∀ b ∈ items, ¬ a.bounds.Cross b.bounds) :
    validateItems (sortWidestFirst.run items) = [] := by
  rw [validate_run_eq_nil]
  refine ⟨hnodes, ?_⟩
  apply (StdSort.run_ofOrder_pairwise items).imp_of_mem
  intro a b ha hb hab
  have hnot := hcross a (by simpa using ha) b (by simpa using hb)
  simp only [Item.widestFirst, NestedSetBounds.Cross, Item.bounds, overlaps, Bool.or_eq_true,
    Bool.and_eq_true, Bool.and_eq_false_iff, decide_eq_true_eq, decide_eq_false_iff_not,
    beq_iff_eq, gt_iff_lt, Int64.lt_iff_toInt_lt, Int64.le_iff_toInt_le,
    ← Int64.toInt_inj] at hab hnot ⊢
  omega

/-- The loop is exact in every arrangement of the items exactly when no defect is a tie. -/
theorem validateItems_exact_iff (items : List Item) :
    (∀ sort : StdSort Item.before,
      validateItems (sort.run items) = [] ↔ ValidBounds (items.map Item.bounds)) ↔
        TieFree (items.map Item.bounds) := by
  constructor
  · intro hexact
    by_contra htie
    simp only [TieFree, not_or, not_exists, not_and] at htie
    obtain ⟨hdup, hgood, hcross⟩ := htie
    -- the widest first, nothing is seen, but two boundaries are equal
    have hnodes : ∀ node ∈ items, node.lft < node.rght ∧ 1 ≤ node.lft := by
      intro node hnode
      have hnot := hgood node.bounds (List.mem_map_of_mem hnode)
      simp only [Item.bounds, Int64.lt_iff_toInt_lt, Int64.le_iff_toInt_le] at hnot ⊢
      omega
    have hnil := validate_widestFirst_eq_nil hnodes fun a ha b hb =>
      hcross a.bounds (List.mem_map_of_mem ha) b.bounds (List.mem_map_of_mem hb)
    exact hdup ((hexact sortWidestFirst).mp hnil).distinct
  · rintro (hnodup | ⟨b, hb, hbad⟩ | ⟨a, ha, b, hb, hcross⟩) sort
    · exact validate_iff_of_nodup sort hnodup
    · obtain ⟨node, hnode, rfl⟩ := List.mem_map.mp hb
      constructor
      · intro h
        have hgood := ((validate_run_eq_nil sort).mp h).1 node hnode
        simp only [Item.bounds, Int64.lt_iff_toInt_lt, Int64.le_iff_toInt_le] at hbad hgood
        omega
      · intro hvalid
        have hpositive := hvalid.positive node.bounds hb
        have hordered := hvalid.ordered node.bounds hb
        simp only [Item.bounds, Int64.lt_iff_toInt_lt, Int64.le_iff_toInt_le]
          at hbad hpositive hordered
        omega
    · obtain ⟨x, hx, rfl⟩ := List.mem_map.mp ha
      obtain ⟨y, hy, rfl⟩ := List.mem_map.mp hb
      constructor
      · intro h
        exact absurd h (validate_ne_nil_of_cross sort hx hy hcross)
      · intro hvalid
        exact absurd hvalid (not_validBounds_of_cross ha hb hcross)

/-! ## Rows -/

/-- The interval of a row whose boundaries are integers. -/
def boundsOf (leftKey rightKey : Name) (row : Row) : Option NestedSetBounds :=
  match row.lookup leftKey, row.lookup rightKey with
  | some (.int64 lft), some (.int64 rght) => some ⟨lft, rght⟩
  | _, _ => none

/-- The rows have the columns that are read, and integer boundaries. -/
def IntegerBoundaries (rows : List Row) (pkKey leftKey rightKey : Name) : Prop :=
  ∀ row ∈ rows, (row.lookup pkKey).isSome ∧ (boundsOf leftKey rightKey row).isSome

theorem itemOf_eq_ok {row : Row} {pkKey leftKey rightKey : Name}
    (hpk : (row.lookup pkKey).isSome) (hbounds : (boundsOf leftKey rightKey row).isSome) :
    ∃ item, itemOf pkKey leftKey rightKey row = .ok item ∧
      boundsOf leftKey rightKey row = some item.bounds := by
  obtain ⟨pk, hpk⟩ := Option.isSome_iff_exists.mp hpk
  unfold boundsOf at hbounds ⊢
  split at hbounds
  · rename_i l r hl hr
    exact ⟨⟨pk, l, r⟩, by simp [itemOf, hpk, hl, hr]; rfl, by simp [Item.bounds]⟩
  · cases hbounds

theorem mapM_itemOf {rows : List Row} {pkKey leftKey rightKey : Name}
    (hrows : IntegerBoundaries rows pkKey leftKey rightKey) :
    ∃ items, rows.mapM (itemOf pkKey leftKey rightKey) = .ok items ∧
      rows.filterMap (boundsOf leftKey rightKey) = items.map Item.bounds := by
  induction rows with
  | nil => exact ⟨[], rfl, rfl⟩
  | cons row rows ih =>
    obtain ⟨hrow, htail⟩ := List.forall_mem_cons.mp hrows
    obtain ⟨item, hitem, hbounds⟩ := itemOf_eq_ok hrow.1 hrow.2
    obtain ⟨items, hitems, hmap⟩ := ih htail
    exact ⟨item :: items, by rw [List.mapM_cons, hitem, hitems]; rfl,
      by rw [List.filterMap_cons_some hbounds, hmap, List.map_cons]⟩

theorem validateTree_of_mapM {rows : List Row} {pkKey leftKey rightKey : Name}
    {items : List Item} (hitems : rows.mapM (itemOf pkKey leftKey rightKey) = .ok items)
    (sort : StdSort Item.before) :
    validateTree sort rows pkKey leftKey rightKey = .ok (validateItems (sort.run items)) := by
  rw [validateTree, hitems]
  rfl

/-- For rows with integer boundaries: whatever `std::sort` does with equal left boundaries,
    `validate_tree` returns no error exactly for the intervals of a forest, if and only if every
    defect can be seen without comparing equal boundaries. -/
theorem validate_tree_exact_iff (rows : List Row) (pkKey leftKey rightKey : Name)
    (hrows : IntegerBoundaries rows pkKey leftKey rightKey) :
    (∀ sort : StdSort Item.before,
      validateTree sort rows pkKey leftKey rightKey = .ok [] ↔
        ValidBounds (rows.filterMap (boundsOf leftKey rightKey))) ↔
      TieFree (rows.filterMap (boundsOf leftKey rightKey)) := by
  obtain ⟨items, hitems, hbounds⟩ := mapM_itemOf hrows
  rw [hbounds, ← validateItems_exact_iff]
  simp only [validateTree_of_mapM hitems, Except.ok.injEq]

/-! ### Two rows with one interval -/

/-- A row of a tree, with columns named `id`, `lft` and `rght`. -/
def boundaryRow (pk : Value) (lft rght : Int64) : Row :=
  ((∅ : Row).insert (.ofAscii "id") pk |>.insert (.ofAscii "lft") (.int64 lft)).insert
    (.ofAscii "rght") (.int64 rght)

theorem integerBoundaries_pair (pk pk' : Value) (b b' : NestedSetBounds) :
    IntegerBoundaries [boundaryRow pk b.lft b.rght, boundaryRow pk' b'.lft b'.rght]
      (.ofAscii "id") (.ofAscii "lft") (.ofAscii "rght") :=
  List.forall_mem_cons.mpr ⟨⟨rfl, rfl⟩, List.forall_mem_singleton.mpr ⟨rfl, rfl⟩⟩

/-- A root with one child. -/
theorem validate_tree_exact_iff_nested :
    (∀ sort : StdSort Item.before,
      validateTree sort [boundaryRow (.int64 1) 1 4, boundaryRow (.int64 2) 2 3]
          (.ofAscii "id") (.ofAscii "lft") (.ofAscii "rght") = .ok [] ↔
        ValidBounds [⟨1, 4⟩, ⟨2, 3⟩]) ↔ TieFree [⟨1, 4⟩, ⟨2, 3⟩] :=
  validate_tree_exact_iff [boundaryRow (.int64 1) 1 4, boundaryRow (.int64 2) 2 3]
    (.ofAscii "id") (.ofAscii "lft") (.ofAscii "rght")
    (integerBoundaries_pair (.int64 1) (.int64 2) ⟨1, 4⟩ ⟨2, 3⟩)

/-- Nodes `1` and `2` both have the interval from `1` to `2`, and no error is reported. -/
theorem validate_tree_twins : ¬ ∀ (rows : List Row) (pkKey leftKey rightKey : Name),
    IntegerBoundaries rows pkKey leftKey rightKey → ∀ sort : StdSort Item.before,
      (validateTree sort rows pkKey leftKey rightKey = .ok [] ↔
        ValidBounds (rows.filterMap (boundsOf leftKey rightKey))) := by
  intro hexact
  have hitems : [boundaryRow (.int64 1) 1 2, boundaryRow (.int64 2) 1 2].mapM
      (itemOf (.ofAscii "id") (.ofAscii "lft") (.ofAscii "rght")) =
        .ok [⟨.int64 1, 1, 2⟩, ⟨.int64 2, 1, 2⟩] := rfl
  have hvalid := (hexact _ _ _ _ (integerBoundaries_pair (.int64 1) (.int64 2) ⟨1, 2⟩ ⟨1, 2⟩)
    sortWidestFirst).mp
  rw [validateTree_of_mapM hitems, validate_widestFirst_eq_nil] at hvalid
  · exact absurd (hvalid rfl).distinct (by decide)
  · intro node hnode
    simp only [List.mem_cons, List.not_mem_nil, or_false] at hnode
    obtain rfl | rfl := hnode <;> decide
  · intro a ha b hb
    simp only [List.mem_cons, List.not_mem_nil, or_false] at ha hb
    obtain rfl | rfl := ha <;> obtain rfl | rfl := hb <;>
      simp [NestedSetBounds.Cross, Item.bounds]

end MetalOrm.Native.Tree
