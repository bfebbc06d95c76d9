import Mathlib.Data.List.Forall2
import MetalOrm.Spec.TreeSpacing

/-!
# Exchanging siblings

`move_up` and `move_down` park the subtree on the right ten million places behind, move the left
one into its place and bring the parked one back. The third update selects by boundaries, so it
also takes what stood in the parking place before.

## Key results

- `swapRow_left`, `swapRow_right`, `swapRow_other`: where the three updates leave a row
- `swap_siblings`: when the two subtrees are exchanged and nothing else changes
- `swap_moves_others`: a tree of roots in which something else does change
-/

open Relation (ReflTransGen TransGen)

namespace MetalOrm.Native.Tree

open ForStd (Forest Client)
open TreeManager (temp)

/-! ## Shifting a row -/

/-- A row with both boundaries shifted. -/
def shifted (m : TreeMapping) (d : Int64) (row : TableRow) : TableRow := fun column =>
  if column = m.left then .int64 (boundary row m.left + d)
  else if column = m.right then .int64 (boundary row m.right + d)
  else row column

@[simp] theorem boundary_shifted_left (m : TreeMapping) (d : Int64) (row : TableRow) :
    boundary (shifted m d row) m.left = boundary row m.left + d := by
  simp [boundary, shifted]

@[simp] theorem boundary_shifted_right (m : TreeMapping) (d : Int64) (row : TableRow) :
    boundary (shifted m d row) m.right = boundary row m.right + d := by
  by_cases h : m.right = m.left
  · simp [boundary, shifted, h]
  · simp [boundary, shifted, h]

theorem shifted_shifted (m : TreeMapping) (d d' : Int64) (row : TableRow) :
    shifted m d' (shifted m d row) = shifted m (d + d') row := by
  funext column
  by_cases hleft : column = m.left
  · simp [shifted, hleft, boundary, Int64.add_assoc]
  · by_cases hright : column = m.right
    · have hne : m.right ≠ m.left := fun heq => hleft (hright.trans heq)
      simp [shifted, hright, hne, boundary, Int64.add_assoc]
    · simp [shifted, hleft, hright]

theorem eq_zero_of_shifted {m : TreeMapping} {d d' : Int64} {row : TableRow}
    (h : shifted m d row = shifted m d' row) : d = d' := by
  have hleft := congrArg (boundary · m.left) h
  simp only [boundary_shifted_left] at hleft
  grind

theorem toInt_add_of_fits {a b : Int64} (hle : -2 ^ 63 ≤ a.toInt + b.toInt)
    (hlt : a.toInt + b.toInt < 2 ^ 63) : (a + b).toInt = a.toInt + b.toInt := by
  rw [Int64.toInt_add]
  exact Int.bmod_eq_of_le (by omega) (by omega)

section MoveRange

variable {t : TreeManager} (hscope : ∀ entry ∈ t.scope,
  entry.1 ≠ t.mapping.left ∧ entry.1 ≠ t.mapping.right)

/-- What `move_range` makes of a row. -/
def moveRow (t : TreeManager) (lft rght delta : Int64) (row : TableRow) : TableRow :=
  if meets t.engine (t.applyScope [.compare t.mapping.left .ge (.int64 lft),
      .compare t.mapping.right .le (.int64 rght)]) row then
    assigned t.engine [.plus t.mapping.left (.int64 delta), .plus t.mapping.right (.int64 delta)]
      row
  else row

theorem run_moveRange (lft rght delta : Int64) (rows : List TableRow) :
    (t.moveRange lft rght delta).run t.serve rows =
      (.ok (), rows.map (moveRow t lft rght delta)) := rfl

include hscope in
/-- The boundaries do not matter for the scope. -/
theorem inScope_shifted (d : Int64) (row : TableRow) :
    inScope t (shifted t.mapping d row) = inScope t row := by
  rw [Bool.eq_iff_iff]
  simp only [inScope, meets, TreeManager.applyScope, List.nil_append, List.all_map,
    List.all_eq_true]
  apply forall₂_congr
  intro entry hentry
  obtain ⟨hleft, hright⟩ := hscope entry hentry
  simp [Conjunct.holds, shifted, hleft, hright]

/-- A row outside the scope is not moved. -/
theorem moveRow_outside {row : TableRow} (h : inScope t row = false) (lft rght delta : Int64) :
    moveRow t lft rght delta row = row := by
  rw [moveRow, meets_applyScope, h, Bool.and_false]
  rfl

/-- Both boundaries of a row of the scope are integers. -/
structure Bounds (t : TreeManager) (row : TableRow) (lft rght : Int64) : Prop where
  mem : inScope t row = true
  left : row t.mapping.left = .int64 lft
  right : row t.mapping.right = .int64 rght

include hscope in
theorem Bounds.shifted {row : TableRow} {lft rght : Int64} (h : Bounds t row lft rght)
    (hne : t.mapping.left ≠ t.mapping.right) (d : Int64) :
    Bounds t (shifted t.mapping d row) (lft + d) (rght + d) where
  mem := (inScope_shifted hscope d row).trans h.mem
  left := by simp [Tree.shifted, boundary, h.left]
  right := by simp [Tree.shifted, boundary, h.right, hne.symm]

theorem Bounds.ne {row : TableRow} {lft rght : Int64} (h : Bounds t row lft rght)
    (hlt : lft < rght) : t.mapping.left ≠ t.mapping.right := by
  intro heq
  have hright := h.right
  rw [← heq, h.left] at hright
  exact Int64.ne_of_lt hlt (Value.int64.inj hright)

/-- A row that is not in the range is not moved. -/
theorem Bounds.moveRow_of_not {row : TableRow} {l r : Int64} (h : Bounds t row l r)
    {lft rght : Int64} (hnot : ¬ (lft ≤ l ∧ r ≤ rght)) (delta : Int64) :
    moveRow t lft rght delta row = row := by
  rw [moveRow, if_neg]
  rw [meets_applyScope, h.mem, Bool.and_true]
  simp only [meets, List.all_cons, List.all_nil, Bool.and_true, Conjunct.holds, h.left, h.right,
    t.engine.compare_int64]
  simpa using hnot

/-- A row in the range is shifted, as far as its boundaries stay in 64 bits. -/
theorem Bounds.moveRow_of {row : TableRow} {l r : Int64} (h : Bounds t row l r)
    (hne : t.mapping.left ≠ t.mapping.right) {lft rght delta : Int64}
    (hrange : lft ≤ l ∧ r ≤ rght) (hl : l.toInt + delta.toInt = (l + delta).toInt)
    (hr : r.toInt + delta.toInt = (r + delta).toInt) :
    moveRow t lft rght delta row = Tree.shifted t.mapping delta row := by
  have hmet : meets t.engine (t.applyScope [.compare t.mapping.left .ge (.int64 lft),
      .compare t.mapping.right .le (.int64 rght)]) row = true := by
    rw [meets_applyScope, h.mem, Bool.and_true]
    simp only [meets, List.all_cons, List.all_nil, Bool.and_true, Conjunct.holds, h.left, h.right,
      t.engine.compare_int64]
    simpa using hrange
  rw [moveRow, if_pos hmet]
  funext column
  by_cases hleft : column = t.mapping.left
  · simp [assigned, SetTerm.column, SetTerm.value, Tree.shifted, boundary, hleft, h.left,
      t.engine.add_int64 _ _ _ hl]
  · by_cases hright : column = t.mapping.right
    · simp [assigned, SetTerm.column, SetTerm.value, Tree.shifted, boundary, hright, h.right, hne,
        hne.symm, t.engine.add_int64 _ _ _ hr]
    · have hleft' : (t.mapping.left == column) = false := by simpa using Ne.symm hleft
      have hright' : (t.mapping.right == column) = false := by simpa using Ne.symm hright
      simp [assigned, SetTerm.column, Tree.shifted, hleft, hright, hleft', hright']

/-- The same with integers: only the ends of the row have to stay in 64 bits. -/
theorem Bounds.moveRow_of_toInt {row : TableRow} {l r : Int64} (h : Bounds t row l r)
    (hlt : l < r) {lft rght delta : Int64} (hlft : lft.toInt ≤ l.toInt)
    (hrght : r.toInt ≤ rght.toInt) (hlow : -2 ^ 63 ≤ l.toInt + delta.toInt)
    (hhigh : r.toInt + delta.toInt < 2 ^ 63) :
    moveRow t lft rght delta row = Tree.shifted t.mapping delta row := by
  have hlr := Int64.lt_iff_toInt_lt.mp hlt
  have hl : (l + delta).toInt = l.toInt + delta.toInt :=
    toInt_add_of_fits (by omega) (by omega)
  have hr : (r + delta).toInt = r.toInt + delta.toInt :=
    toInt_add_of_fits (by omega) (by omega)
  exact h.moveRow_of (h.ne hlt)
    ⟨Int64.le_iff_toInt_le.mpr hlft, Int64.le_iff_toInt_le.mpr hrght⟩ hl.symm hr.symm

end MoveRange

/-! ## Three updates -/

/-- The width of the subtree of a row. -/
def width (t : TreeManager) (row : TableRow) : Int64 :=
  subtreeWidth (boundary row t.mapping.left) (boundary row t.mapping.right)

/-- What `swap_adjacent` makes of a row, with its parking distance. -/
def swapRow (t : TreeManager) (away : Int64) (x y row : TableRow) : TableRow :=
  moveRow t (boundary y t.mapping.left + away) (boundary y t.mapping.right + away)
    (-away - width t x)
    (moveRow t (boundary x t.mapping.left) (boundary x t.mapping.right) (width t y)
      (moveRow t (boundary y t.mapping.left) (boundary y t.mapping.right) away row))

theorem run_swapAdjacent (t : TreeManager) {x y : TableRow} (rows : List TableRow)
    (hlt : boundary x t.mapping.right < boundary y t.mapping.left) :
    (t.swapAdjacent (nodeResult t x) (nodeResult t y)).run t.serve rows =
      (.ok true, rows.map (swapRow t temp x y)) := by
  have hlt' : ¬ (nodeResult t x).rght ≥ (nodeResult t y).lft := fun hle =>
    Int64.lt_irrefl (Int64.lt_of_lt_of_le hlt hle)
  rw [TreeManager.swapAdjacent, if_neg hlt']
  rw [Client.run_bind_ok t.serve (run_moveRange _ _ _ rows),
    Client.run_bind_ok t.serve (run_moveRange _ _ _ _),
    Client.run_bind_ok t.serve (run_moveRange _ _ _ _), Client.run_pure, List.map_map,
    List.map_map]
  rfl

theorem park_and_return (w v : Int64) : v + (-v - w) = -w := by
  grind

/-- The sums of `swap_adjacent`, as integers. -/
structure Parking (t : TreeManager) (x y : TableRow) : Prop where
  one_le : 1 ≤ (boundary x t.mapping.left).toInt
  left_lt : (boundary x t.mapping.left).toInt < (boundary x t.mapping.right).toInt
  between : (boundary x t.mapping.right).toInt < (boundary y t.mapping.left).toInt
  right_lt : (boundary y t.mapping.left).toInt < (boundary y t.mapping.right).toInt
  fits : (boundary y t.mapping.right).toInt + 10000000 < 2 ^ 63

namespace Parking

variable {t : TreeManager} {x y : TableRow} {away : Int64}

theorem parked_left (p : Parking t x y) (haway : away.toInt = 10000000) :
    (boundary y t.mapping.left + away).toInt =
      (boundary y t.mapping.left).toInt + 10000000 := by
  have := p.one_le
  have := p.left_lt
  have := p.between
  have := p.right_lt
  have := p.fits
  rw [toInt_add_of_fits, haway]
  all_goals omega

theorem parked_right (p : Parking t x y) (haway : away.toInt = 10000000) :
    (boundary y t.mapping.right + away).toInt =
      (boundary y t.mapping.right).toInt + 10000000 := by
  have := p.one_le
  have := p.left_lt
  have := p.between
  have := p.right_lt
  have := p.fits
  rw [toInt_add_of_fits, haway]
  all_goals omega

theorem toInt_width {row : TableRow} (hle : 1 ≤ (boundary row t.mapping.left).toInt)
    (hlt : (boundary row t.mapping.left).toInt < (boundary row t.mapping.right).toInt) :
    (width t row).toInt =
      (boundary row t.mapping.right).toInt - (boundary row t.mapping.left).toInt + 1 := by
  have hfits := (boundary row t.mapping.right).toInt_lt
  have hdifference : (boundary row t.mapping.right - boundary row t.mapping.left).toInt =
      (boundary row t.mapping.right).toInt - (boundary row t.mapping.left).toInt := by
    rw [Int64.toInt_sub]
    exact Int.bmod_eq_of_le (by omega) (by omega)
  rw [width, subtreeWidth, toInt_add_of_fits, hdifference]
  · rfl
  all_goals
    rw [hdifference, show (1 : Int64).toInt = 1 from rfl]
    omega

theorem width_left (p : Parking t x y) : (width t x).toInt =
    (boundary x t.mapping.right).toInt - (boundary x t.mapping.left).toInt + 1 :=
  toInt_width p.one_le p.left_lt

theorem width_right (p : Parking t x y) : (width t y).toInt =
    (boundary y t.mapping.right).toInt - (boundary y t.mapping.left).toInt + 1 := by
  have := p.one_le
  have := p.left_lt
  have := p.between
  exact toInt_width (by omega) p.right_lt

theorem back_toInt (p : Parking t x y) (haway : away.toInt = 10000000) :
    (-away - width t x).toInt = -10000000 - (width t x).toInt := by
  have hwidth := p.width_left
  have := p.one_le
  have := p.left_lt
  have := p.between
  have := p.right_lt
  have := p.fits
  have hneg : (-away).toInt = -10000000 := by
    rw [Int64.toInt_neg, haway]
    rfl
  rw [Int64.toInt_sub, hneg]
  exact Int.bmod_eq_of_le (by omega) (by omega)

end Parking

namespace Spaced

variable {t : TreeManager} {rows : List TableRow} {f : Forest TableRow} {place : Nat → Int64}

theorem bounds (h : Spaced t rows f place) {row : TableRow} (hrow : row ∈ f.nodes) :
    Bounds t row (boundary row t.mapping.left) (boundary row t.mapping.right) where
  mem := (h.mem_nodes.mp hrow).2
  left := h.left_eq hrow
  right := h.right_eq hrow

theorem parking (h : Spaced t rows f place) {x y : TableRow} (hxy : f.Elder x y)
    (hfits : (boundary y t.mapping.right).toInt + 10000000 < 2 ^ 63) : Parking t x y where
  one_le := Int64.le_iff_toInt_le.mp (h.one_le hxy.mem_left)
  left_lt := Int64.lt_iff_toInt_lt.mp (h.lt hxy.mem_left)
  between := Int64.lt_iff_toInt_lt.mp (h.elder_lt hxy)
  right_lt := Int64.lt_iff_toInt_lt.mp (h.lt hxy.mem_right)
  fits := hfits

variable (hscope : ∀ entry ∈ t.scope, entry.1 ≠ t.mapping.left ∧ entry.1 ≠ t.mapping.right)

include hscope in
/-- The right subtree moves left by the width of the left one. -/
theorem swapRow_right (h : Spaced t rows f place) {x y row : TableRow} {away : Int64} (p : Parking t x y)
    (haway : away.toInt = 10000000) (hy : y ∈ f.nodes) (hrow : ReflTransGen f.Child y row) (hnode : row ∈ f.nodes) :
    swapRow t away x y row = shifted t.mapping (-width t x) row := by
  have hbounds := h.bounds hnode
  have hlt := h.lt hnode
  have hne := hbounds.ne hlt
  obtain ⟨hleft, hright⟩ := (h.covers_iff hy hnode).mpr hrow
  rw [Int64.le_iff_toInt_le] at hleft hright
  rw [Int64.lt_iff_toInt_lt] at hlt
  have hone := p.one_le
  have hleftLt := p.left_lt
  have hbetween := p.between
  have hfits := p.fits
  have hwidth := p.width_left
  have hback := p.back_toInt haway
  have hparkedLeft := p.parked_left haway
  have hparkedRight := p.parked_right haway
  have hl : (boundary row t.mapping.left + away).toInt =
      (boundary row t.mapping.left).toInt + away.toInt :=
    toInt_add_of_fits (by omega) (by omega)
  have hr : (boundary row t.mapping.right + away).toInt =
      (boundary row t.mapping.right).toInt + away.toInt :=
    toInt_add_of_fits (by omega) (by omega)
  have hparked := hbounds.shifted hscope hne away
  have hparkedLt : boundary row t.mapping.left + away < boundary row t.mapping.right + away := by
    rw [Int64.lt_iff_toInt_lt]
    omega
  have hstay : ¬ (boundary x t.mapping.left ≤ boundary row t.mapping.left + away ∧
      boundary row t.mapping.right + away ≤ boundary x t.mapping.right) := by
    rw [Int64.le_iff_toInt_le, Int64.le_iff_toInt_le]
    omega
  rw [swapRow, hbounds.moveRow_of_toInt (h.lt hnode) hleft hright (by omega) (by omega),
    hparked.moveRow_of_not hstay, hparked.moveRow_of_toInt hparkedLt (by omega) (by omega)
      (by omega) (by omega), shifted_shifted, park_and_return]

/-- The first update leaves the left subtree where it is, the second one moves it. -/
theorem moveRow_left (h : Spaced t rows f place) {x y row : TableRow} (away : Int64)
    (p : Parking t x y) (hx : x ∈ f.nodes) (hrow : ReflTransGen f.Child x row)
    (hnode : row ∈ f.nodes) :
    moveRow t (boundary x t.mapping.left) (boundary x t.mapping.right) (width t y)
        (moveRow t (boundary y t.mapping.left) (boundary y t.mapping.right) away row) =
        shifted t.mapping (width t y) row ∧
      (boundary row t.mapping.left + width t y).toInt =
        (boundary row t.mapping.left).toInt + (width t y).toInt ∧
      (boundary row t.mapping.right + width t y).toInt =
        (boundary row t.mapping.right).toInt + (width t y).toInt := by
  have hbounds := h.bounds hnode
  have hlt := h.lt hnode
  have hne := hbounds.ne hlt
  obtain ⟨hleft, hright⟩ := (h.covers_iff hx hnode).mpr hrow
  rw [Int64.le_iff_toInt_le] at hleft hright
  rw [Int64.lt_iff_toInt_lt] at hlt
  have hone := p.one_le
  have hbetween := p.between
  have hrightLt := p.right_lt
  have hfits := p.fits
  have hwidth := p.width_right
  have hl : (boundary row t.mapping.left + width t y).toInt =
      (boundary row t.mapping.left).toInt + (width t y).toInt :=
    toInt_add_of_fits (by omega) (by omega)
  have hr : (boundary row t.mapping.right + width t y).toInt =
      (boundary row t.mapping.right).toInt + (width t y).toInt :=
    toInt_add_of_fits (by omega) (by omega)
  have hstay : ¬ (boundary y t.mapping.left ≤ boundary row t.mapping.left ∧
      boundary row t.mapping.right ≤ boundary y t.mapping.right) := by
    rw [Int64.le_iff_toInt_le, Int64.le_iff_toInt_le]
    omega
  refine ⟨?_, hl, hr⟩
  rw [hbounds.moveRow_of_not hstay,
    hbounds.moveRow_of_toInt (h.lt hnode) hleft hright (by omega) (by omega)]

include hscope in
/-- The left subtree moves right by the width of the right one, as far as it does not reach the
    parking place. -/
theorem swapRow_left (h : Spaced t rows f place) {x y row : TableRow} {away : Int64}
    (p : Parking t x y) (haway : away.toInt = 10000000) (hx : x ∈ f.nodes)
    (hrow : ReflTransGen f.Child x row) (hnode : row ∈ f.nodes)
    (hbefore : (boundary row t.mapping.left).toInt + (width t y).toInt <
      (boundary y t.mapping.left).toInt + 10000000) :
    swapRow t away x y row = shifted t.mapping (width t y) row := by
  have hbounds := h.bounds hnode
  have hmoved := hbounds.shifted hscope (hbounds.ne (h.lt hnode)) (width t y)
  obtain ⟨hrun, hl, -⟩ := h.moveRow_left away p hx hrow hnode
  have hparked := p.parked_left haway
  rw [swapRow, hrun, hmoved.moveRow_of_not]
  rw [Int64.le_iff_toInt_le]
  omega

include hscope in
/-- What reaches the parking place is brought back with the other subtree. -/
theorem swapRow_left_caught (h : Spaced t rows f place) {x y row : TableRow} {away : Int64}
    (p : Parking t x y) (haway : away.toInt = 10000000) (hx : x ∈ f.nodes)
    (hrow : ReflTransGen f.Child x row) (hnode : row ∈ f.nodes)
    (hreach : (boundary y t.mapping.left).toInt + 10000000 ≤
      (boundary row t.mapping.left).toInt + (width t y).toInt) :
    swapRow t away x y row = shifted t.mapping (width t y + (-away - width t x)) row := by
  have hbounds := h.bounds hnode
  have hne := hbounds.ne (h.lt hnode)
  have hmoved := hbounds.shifted hscope hne (width t y)
  obtain ⟨hrun, hl, hr⟩ := h.moveRow_left away p hx hrow hnode
  have hright := ((h.covers_iff hx hnode).mpr hrow).2
  have hlt := h.lt hnode
  rw [Int64.le_iff_toInt_le] at hright
  rw [Int64.lt_iff_toInt_lt] at hlt
  have hone := p.one_le
  have hleftLt := p.left_lt
  have hbetween := p.between
  have hfits := p.fits
  have hwidth := p.width_left
  have hwidth' := p.width_right
  have hback := p.back_toInt haway
  have hparkedLeft := p.parked_left haway
  have hparkedRight := p.parked_right haway
  have hmovedLt : boundary row t.mapping.left + width t y <
      boundary row t.mapping.right + width t y := by
    rw [Int64.lt_iff_toInt_lt]
    omega
  rw [swapRow, hrun, hmoved.moveRow_of_toInt hmovedLt (by omega) (by omega) (by omega)
    (by omega), shifted_shifted]

/-- Rows outside both subtrees stay, unless they stand in the parking place. -/
theorem swapRow_other (h : Spaced t rows f place) {x y row : TableRow} {away : Int64}
    (p : Parking t x y) (haway : away.toInt = 10000000) (hx : x ∈ f.nodes) (hy : y ∈ f.nodes)
    (hnode : row ∈ f.nodes) (hnotx : ¬ ReflTransGen f.Child x row)
    (hnoty : ¬ ReflTransGen f.Child y row)
    (hapart : ¬ ((boundary y t.mapping.left).toInt + 10000000 ≤
        (boundary row t.mapping.left).toInt ∧
      (boundary row t.mapping.right).toInt ≤ (boundary y t.mapping.right).toInt + 10000000)) :
    swapRow t away x y row = row := by
  have hbounds := h.bounds hnode
  have hparkedLeft := p.parked_left haway
  have hparkedRight := p.parked_right haway
  rw [swapRow, hbounds.moveRow_of_not (mt (h.covers_iff hy hnode).mp hnoty),
    hbounds.moveRow_of_not (mt (h.covers_iff hx hnode).mp hnotx), hbounds.moveRow_of_not]
  rw [Int64.le_iff_toInt_le, Int64.le_iff_toInt_le]
  omega

/-- A row in the parking place is moved with the subtree that is brought back. -/
theorem swapRow_caught (h : Spaced t rows f place) {x y row : TableRow} {away : Int64}
    (p : Parking t x y) (haway : away.toInt = 10000000) (hx : x ∈ f.nodes) (hy : y ∈ f.nodes)
    (hnode : row ∈ f.nodes) (hnotx : ¬ ReflTransGen f.Child x row)
    (hnoty : ¬ ReflTransGen f.Child y row)
    (hparked : (boundary y t.mapping.left).toInt + 10000000 ≤
        (boundary row t.mapping.left).toInt ∧
      (boundary row t.mapping.right).toInt ≤ (boundary y t.mapping.right).toInt + 10000000) :
    swapRow t away x y row = shifted t.mapping (-away - width t x) row := by
  have hbounds := h.bounds hnode
  have hlt := h.lt hnode
  have hne := hbounds.ne hlt
  rw [Int64.lt_iff_toInt_lt] at hlt
  have hone := p.one_le
  have hleftLt := p.left_lt
  have hbetween := p.between
  have hfits := p.fits
  have hwidth := p.width_left
  have hback := p.back_toInt haway
  have hparkedLeft := p.parked_left haway
  have hparkedRight := p.parked_right haway
  rw [swapRow, hbounds.moveRow_of_not (mt (h.covers_iff hy hnode).mp hnoty),
    hbounds.moveRow_of_not (mt (h.covers_iff hx hnode).mp hnotx),
    hbounds.moveRow_of_toInt (h.lt hnode) (by omega) (by omega) (by omega) (by omega)]

end Spaced

theorem swapRow_outside {t : TreeManager} {row : TableRow} (h : inScope t row = false)
    (away : Int64) (x y : TableRow) : swapRow t away x y row = row := by
  rw [swapRow, moveRow_outside h, moveRow_outside h, moveRow_outside h]

/-! ## Finding the siblings -/

/-- The text that siblings are compared by. -/
def keyText (t : TreeManager) (row : TableRow) : List UInt8 := valueKey (row t.mapping.pk)

/-- The search stops at the first sibling with the key. -/
theorem findSibling_split {t : TreeManager} {key : List UInt8} {u v : List TableRow}
    {z : TableRow} (hu : ∀ w ∈ u, keyText t w ≠ key) (hz : keyText t z = key) :
    TreeManager.findSibling t.mapping key ((u ++ z :: v).map (nodeResult t)) =
      .ok (u.map (nodeResult t), (z :: v).map (nodeResult t)) := by
  have hid : ∀ row, requireValue (nodeResult t row).data t.mapping.pk = .ok (row t.mapping.pk) :=
    fun row => requireValue_resultRow row t.mapping.pk_mem
  induction u with
  | nil =>
    rw [List.nil_append, List.map_cons, TreeManager.findSibling, hid]
    exact if_pos hz
  | cons w u ih =>
    obtain ⟨hw, hu⟩ := List.forall_mem_cons.mp hu
    rw [List.cons_append, List.map_cons, TreeManager.findSibling, hid]
    show (if keyText t w = key then _ else _) = _
    rw [if_neg hw, ih hu]
    rfl

namespace Spaced

variable {t : TreeManager} {rows : List TableRow} {f : Forest TableRow} {place : Nat → Int64}

theorem parent_eq_null_iff (h : Spaced t rows f place) {row : TableRow} (hrow : row ∈ f.nodes) :
    row t.mapping.parent = .null ↔ row ∈ f.roots := by
  constructor
  · intro hnull
    obtain ⟨r, hr, hreach⟩ := Forest.exists_root hrow
    obtain rfl | ⟨p, -, hp⟩ := ReflTransGen.cases_tail hreach
    · exact hr
    · exact absurd ((h.child p row hp).symm.trans hnull) (h.keyed p hp.mem_left)
  · exact h.root row

/-- The siblings of a row are the list it stands in, in order. -/
theorem run_getSiblings (h : Spaced t rows f place) {l : List TableRow} (hl : f.Siblings l)
    {x : TableRow} (hx : x ∈ l) :
    (t.getSiblings (nodeResult t x) true).run t.serve rows = (.ok (l.map (nodeResult t)), rows) := by
  have hsorted : l.Pairwise fun y z =>
      boundary y t.mapping.left < boundary z t.mapping.left :=
    hl.pairwise_elder.imp fun hyz => Int64.lt_trans (h.lt hyz.mem_left) (h.elder_lt hyz)
  apply h.run_results hsorted
  intro row
  cases hl with
  | roots =>
    have hnull : (nodeResult t x).parentId = .null := h.root x hx
    simp only [TreeManager.childOf, hnull, if_true, Option.map_none, Option.toList_none, meets,
      List.all_cons, List.all_nil, Bool.and_true, Conjunct.holds, beq_iff_eq]
    constructor
    · intro hrow
      have hnode := Forest.roots_subset_nodes hrow
      exact ⟨hnode, (h.parent_eq_null_iff hnode).mpr hrow⟩
    · rintro ⟨hnode, hrow⟩
      exact (h.parent_eq_null_iff hnode).mp hrow
  | @below p c hc =>
    have hparent : (nodeResult t x).parentId = p t.mapping.pk :=
      h.child p x (hc.child_of_mem_roots hx)
    have hne := h.keyed p hc.mem
    simp only [hparent, TreeManager.childOf, hne, if_false, Option.map_none, Option.toList_none,
      meets, List.all_cons, List.all_nil, Bool.and_true, Conjunct.holds]
    rw [hc.mem_roots_iff h.nodup]
    constructor
    · intro hrow
      refine ⟨hrow.mem_right, ?_⟩
      rw [h.child p row hrow]
      exact t.engine.compare_eq_self _ hne
    · rintro ⟨hnode, hmet⟩
      by_cases hroot : row ∈ f.roots
      · rw [h.root row hroot, t.engine.compare_null] at hmet
        cases hmet
      · obtain ⟨r, hr, hreach⟩ := Forest.exists_root hnode
        obtain rfl | ⟨q, -, hq⟩ := ReflTransGen.cases_tail hreach
        · exact absurd hr hroot
        · rw [h.child q row hq] at hmet
          exact h.eq_of_compare hq.mem_left hc.mem hmet ▸ hq

/-- `move_down` swaps the first sibling with the key of the row and the next one. -/
theorem run_moveDown (h : Spaced t rows f place) {x z z' : TableRow} {u v : List TableRow}
    (hl : f.Siblings (u ++ z :: z' :: v)) (hx : x ∈ u ++ z :: z' :: v)
    (hu : ∀ w ∈ u, keyText t w ≠ keyText t x) (hz : keyText t z = keyText t x) :
    (t.moveDown (nodeResult t x)).run t.serve rows =
      (t.swapAdjacent (nodeResult t z) (nodeResult t z')).run t.serve rows := by
  have hid : requireValue (nodeResult t x).data t.mapping.pk = .ok (x t.mapping.pk) :=
    requireValue_resultRow x t.mapping.pk_mem
  rw [TreeManager.moveDown, Client.run_bind_ok t.serve (h.run_getSiblings hl hx), hid,
    Client.run_bind_ok t.serve (Client.run_lift t.serve _ _),
    Client.run_bind_ok t.serve (congrArg (·, rows) (findSibling_split hu hz))]
  rfl

/-- `move_up` swaps the first sibling with the key of the row and the one before it. -/
theorem run_moveUp (h : Spaced t rows f place) {x z z' : TableRow} {u v : List TableRow}
    (hl : f.Siblings (u ++ z :: z' :: v)) (hx : x ∈ u ++ z :: z' :: v)
    (hu : ∀ w ∈ u ++ [z], keyText t w ≠ keyText t x) (hz : keyText t z' = keyText t x) :
    (t.moveUp (nodeResult t x)).run t.serve rows =
      (t.swapAdjacent (nodeResult t z) (nodeResult t z')).run t.serve rows := by
  have hid : requireValue (nodeResult t x).data t.mapping.pk = .ok (x t.mapping.pk) :=
    requireValue_resultRow x t.mapping.pk_mem
  have hsplit := findSibling_split (v := v) hu hz
  rw [List.append_assoc, List.singleton_append] at hsplit
  rw [TreeManager.moveUp, Client.run_bind_ok t.serve (h.run_getSiblings hl hx), hid,
    Client.run_bind_ok t.serve (Client.run_lift t.serve _ _),
    Client.run_bind_ok t.serve (congrArg (·, rows) hsplit)]
  simp only [List.map_append, List.map_cons, List.map_nil, List.getLast?_append,
    List.getLast?_singleton, Option.some_or]

/-- `move_up` does nothing when the first sibling has the key. -/
theorem run_moveUp_first (h : Spaced t rows f place) {x z : TableRow} {v : List TableRow}
    (hl : f.Siblings (z :: v)) (hx : x ∈ z :: v) (hz : keyText t z = keyText t x) :
    (t.moveUp (nodeResult t x)).run t.serve rows = (.ok false, rows) := by
  have hid : requireValue (nodeResult t x).data t.mapping.pk = .ok (x t.mapping.pk) :=
    requireValue_resultRow x t.mapping.pk_mem
  have hsplit := findSibling_split (u := []) (v := v) (fun _ hw => by cases hw) hz
  rw [List.nil_append] at hsplit
  rw [TreeManager.moveUp, Client.run_bind_ok t.serve (h.run_getSiblings hl hx), hid,
    Client.run_bind_ok t.serve (Client.run_lift t.serve _ _),
    Client.run_bind_ok t.serve (congrArg (·, rows) hsplit)]
  rfl

end Spaced

/-! ## Exchanges -/

/-- What exchanging the subtrees of `x` and `y`, with `x` on the left, makes of a row. -/
structure Exchanged (t : TreeManager) (f : Forest TableRow) (x y row row' : TableRow) : Prop where
  left : ReflTransGen f.Child x row → row' = shifted t.mapping (width t y) row
  right : ReflTransGen f.Child y row → row' = shifted t.mapping (-width t x) row
  other : ¬ ReflTransGen f.Child x row → ¬ ReflTransGen f.Child y row → row' = row

/-- The parking place of the right subtree is free when it is entered and when it is left. -/
structure Parkable (t : TreeManager) (f : Forest TableRow) (x y : TableRow) : Prop where
  free : ∀ row ∈ f.nodes, ¬ ReflTransGen f.Child x row → ¬ ReflTransGen f.Child y row →
    ¬ ((boundary y t.mapping.left).toInt + 10000000 ≤ (boundary row t.mapping.left).toInt ∧
      (boundary row t.mapping.right).toInt ≤ (boundary y t.mapping.right).toInt + 10000000)
  reach : ∀ row, ReflTransGen f.Child x row →
    (boundary row t.mapping.left).toInt +
        ((boundary y t.mapping.right).toInt - (boundary y t.mapping.left).toInt + 1) <
      (boundary y t.mapping.left).toInt + 10000000

/-- The code exchanges the two subtrees, says so, and changes nothing else. -/
def Exchanges (t : TreeManager) (rows : List TableRow) (f : Forest TableRow) (x y : TableRow)
    (code : TreeM Bool) : Prop :=
  ∃ rows', code.run t.serve rows = (.ok true, rows') ∧
    List.Forall₂ (Exchanged t f x y) rows rows'

theorem forall₂_map {R : TableRow → TableRow → Prop} {g : TableRow → TableRow}
    {rows : List TableRow} :
    List.Forall₂ R rows (rows.map g) ↔ ∀ row ∈ rows, R row (g row) := by
  rw [List.forall₂_map_right_iff, List.forall₂_same]

theorem temp_toInt : temp.toInt = 10000000 := by decide

theorem eq_zero_of_shifted_self {m : TreeMapping} {d : Int64} {row : TableRow}
    (h : shifted m d row = row) : d.toInt = 0 := by
  have hleft := congrArg (boundary · m.left) h
  simp only [boundary_shifted_left] at hleft
  have hzero : d = 0 := by grind
  rw [hzero]
  rfl

namespace Spaced

variable {t : TreeManager} {rows : List TableRow} {f : Forest TableRow} {place : Nat → Int64}

theorem mem_of_reflTransGen {x row : TableRow} (hx : x ∈ f.nodes)
    (h : ReflTransGen f.Child x row) : row ∈ f.nodes := by
  cases h with
  | refl => exact hx
  | tail _ hrow => exact hrow.mem_right

theorem width_pos (h : Spaced t rows f place) {row : TableRow} (hrow : row ∈ f.nodes) :
    0 < (width t row).toInt := by
  have hone := Int64.le_iff_toInt_le.mp (h.one_le hrow)
  have hlt := Int64.lt_iff_toInt_lt.mp (h.lt hrow)
  rw [Parking.toInt_width hone hlt]
  omega

/-- A subtree that is moved left is moved. -/
theorem toInt_neg_width (h : Spaced t rows f place) {row : TableRow} (hrow : row ∈ f.nodes) :
    (-width t row).toInt = -(width t row).toInt := by
  have hpos := h.width_pos hrow
  have hlt := (width t row).toInt_lt
  rw [Int64.toInt_neg]
  exact Int.bmod_eq_of_le (by omega) (by omega)

/-- Siblings are not below each other. -/
theorem not_below_of_elder (h : Spaced t rows f place) {x y : TableRow} (hxy : f.Elder x y) :
    ¬ ReflTransGen f.Child x y ∧ ¬ ReflTransGen f.Child y x := by
  have hx := h.lt hxy.mem_left
  have hy := h.lt hxy.mem_right
  have hlt := h.elder_lt hxy
  rw [← h.covers_iff hxy.mem_left hxy.mem_right, ← h.covers_iff hxy.mem_right hxy.mem_left]
  simp only [Int64.le_iff_toInt_le, Int64.lt_iff_toInt_lt] at *
  omega

variable (hscope : ∀ entry ∈ t.scope, entry.1 ≠ t.mapping.left ∧ entry.1 ≠ t.mapping.right)

include hscope in
/-- The three updates exchange the subtrees exactly when the parking place is free. -/
theorem exchanged_iff (h : Spaced t rows f place) {x y : TableRow} (hxy : f.Elder x y)
    (hfits : (boundary y t.mapping.right).toInt + 10000000 < 2 ^ 63) :
    List.Forall₂ (Exchanged t f x y) rows (rows.map (swapRow t temp x y)) ↔
      Parkable t f x y := by
  have p := h.parking hxy hfits
  have hx := hxy.mem_left
  have hy := hxy.mem_right
  rw [forall₂_map]
  constructor
  · intro hall
    have hpos := h.width_pos hx
    have hback := p.back_toInt temp_toInt
    constructor
    · intro row hnode hnotx hnoty hparked
      have hother := (hall row (h.mem_nodes.mp hnode).1).other hnotx hnoty
      rw [h.swapRow_caught p temp_toInt hx hy hnode hnotx hnoty hparked] at hother
      have := eq_zero_of_shifted_self hother
      omega
    · intro row hbelow
      have hnode := mem_of_reflTransGen hx hbelow
      by_contra hreach
      rw [← p.width_right] at hreach
      have hleft := (hall row (h.mem_nodes.mp hnode).1).left hbelow
      rw [h.swapRow_left_caught hscope p temp_toInt hx hbelow hnode (by omega)] at hleft
      have heq := eq_zero_of_shifted hleft
      have hzero : -temp - width t x = 0 := by
        generalize -temp - width t x = d at heq
        grind
      rw [hzero] at hback
      have : (0 : Int64).toInt = 0 := rfl
      omega
  · intro hpark row hrow
    constructor
    · intro hbelow
      have hreach := hpark.reach row hbelow
      rw [← p.width_right] at hreach
      exact h.swapRow_left hscope p temp_toInt hx hbelow (mem_of_reflTransGen hx hbelow) hreach
    · intro hbelow
      exact h.swapRow_right hscope p temp_toInt hy hbelow (mem_of_reflTransGen hy hbelow)
    · intro hnotx hnoty
      by_cases hin : inScope t row = true
      · have hnode := h.mem_nodes.mpr ⟨hrow, hin⟩
        exact h.swapRow_other p temp_toInt hx hy hnode hnotx hnoty
          (hpark.free row hnode hnotx hnoty)
      · exact swapRow_outside (Bool.not_eq_true _ ▸ hin) _ _ _

include hscope in
/-- Exchanging `z`, at or before `x`, with a sibling before it is not what is asked for. -/
theorem not_exchanged (h : Spaced t rows f place) {before after : List TableRow}
    {w x y z : TableRow} (hl : f.Siblings (before ++ x :: y :: after)) (hwz : f.Elder w z)
    (hz : z ∈ before ++ [x])
    (hfits : (boundary y t.mapping.right).toInt + 10000000 < 2 ^ 63) :
    ¬ List.Forall₂ (Exchanged t f x y) rows (rows.map (swapRow t temp w z)) := by
  intro hall
  obtain ⟨-, htail, hbefore⟩ := List.pairwise_append.mp hl.pairwise_elder
  have hxy : f.Elder x y := (List.pairwise_cons.mp htail).1 y List.mem_cons_self
  have hzy : f.Elder z y := by
    obtain hz | hz := List.mem_append.mp hz
    · exact hbefore z hz y (List.mem_cons_of_mem x List.mem_cons_self)
    · exact List.mem_singleton.mp hz ▸ hxy
  have hznode := hwz.mem_right
  have hfits' : (boundary z t.mapping.right).toInt + 10000000 < 2 ^ 63 := by
    have hlt := Int64.lt_iff_toInt_lt.mp (h.elder_lt hzy)
    have hlt' := Int64.lt_iff_toInt_lt.mp (h.lt hzy.mem_right)
    omega
  have hswap := h.swapRow_right hscope (h.parking hwz hfits') temp_toInt hznode .refl hznode
  have hexchanged := forall₂_map.mp hall z (h.mem_nodes.mp hznode).1
  rw [hswap] at hexchanged
  have hpos := h.width_pos hwz.mem_left
  have hneg := h.toInt_neg_width hwz.mem_left
  obtain hz | hz := List.mem_append.mp hz
  · have hzx : f.Elder z x := hbefore z hz x List.mem_cons_self
    have := eq_zero_of_shifted_self
      (hexchanged.other (h.not_below_of_elder hzx).2 (h.not_below_of_elder hzy).2)
    omega
  · obtain rfl := List.mem_singleton.mp hz
    have heq := congrArg Int64.toInt (eq_zero_of_shifted (hexchanged.left .refl))
    have hposy := h.width_pos hxy.mem_right
    omega

/-- The first row of a list with a key. -/
theorem exists_first {l : List TableRow} {key : List UInt8}
    (hl : ¬ ∀ z ∈ l, keyText t z ≠ key) :
    ∃ u z v, l = u ++ z :: v ∧ (∀ w ∈ u, keyText t w ≠ key) ∧ keyText t z = key := by
  induction l with
  | nil => simp at hl
  | cons a l ih =>
    by_cases ha : keyText t a = key
    · exact ⟨[], a, l, rfl, by simp, ha⟩
    · have hl' : ¬ ∀ z ∈ l, keyText t z ≠ key :=
        fun hall => hl (List.forall_mem_cons.mpr ⟨ha, hall⟩)
      obtain ⟨u, z, v, rfl, hu, hz⟩ := ih hl'
      exact ⟨a :: u, z, v, rfl, List.forall_mem_cons.mpr ⟨ha, hu⟩, hz⟩

include hscope in
theorem moveDown_iff (h : Spaced t rows f place) {before after : List TableRow} {x y : TableRow}
    (hl : f.Siblings (before ++ x :: y :: after))
    (hfits : (boundary y t.mapping.right).toInt + 10000000 < 2 ^ 63) :
    Exchanges t rows f x y (t.moveDown (nodeResult t x)) ↔
      (∀ z ∈ before, keyText t z ≠ keyText t x) ∧ Parkable t f x y := by
  have hx : x ∈ before ++ x :: y :: after := List.mem_append_right _ List.mem_cons_self
  have hxy : f.Elder x y := (List.pairwise_cons.mp
    (List.pairwise_append.mp hl.pairwise_elder).2.1).1 y List.mem_cons_self
  by_cases hkeys : ∀ z ∈ before, keyText t z ≠ keyText t x
  · rw [Exchanges, h.run_moveDown hl hx hkeys rfl, run_swapAdjacent t rows (h.elder_lt hxy),
      and_iff_right hkeys, ← h.exchanged_iff hscope hxy hfits]
    simp
  · -- an earlier sibling has the key, and is swapped with the one behind it
    refine iff_of_false ?_ fun hboth => hkeys hboth.1
    rintro ⟨rows', hrun, hall⟩
    obtain ⟨u, z, v, rfl, hu, hz⟩ := exists_first hkeys
    obtain ⟨z', v', hsplit, hz'⟩ : ∃ z' v', u ++ z :: v ++ x :: y :: after = u ++ z :: z' :: v' ∧
        z' ∈ u ++ z :: v ++ [x] := by
      cases v with
      | nil => exact ⟨x, y :: after, by simp, by simp⟩
      | cons z' v => exact ⟨z', v ++ x :: y :: after, by simp, by simp⟩
    have hl' := hsplit ▸ hl
    have hzz' : f.Elder z z' := (List.pairwise_cons.mp
      (List.pairwise_append.mp hl'.pairwise_elder).2.1).1 z' List.mem_cons_self
    rw [h.run_moveDown hl' (hsplit ▸ hx) hu hz, run_swapAdjacent t rows (h.elder_lt hzz')] at hrun
    obtain rfl := (Prod.ext_iff.mp hrun).2
    exact h.not_exchanged hscope hl hzz' hz' hfits hall

include hscope in
theorem moveUp_iff (h : Spaced t rows f place) {before after : List TableRow} {x y : TableRow}
    (hl : f.Siblings (before ++ x :: y :: after))
    (hfits : (boundary y t.mapping.right).toInt + 10000000 < 2 ^ 63) :
    Exchanges t rows f x y (t.moveUp (nodeResult t y)) ↔
      (∀ z ∈ before ++ [x], keyText t z ≠ keyText t y) ∧ Parkable t f x y := by
  have hy : y ∈ before ++ x :: y :: after := by simp
  have hxy : f.Elder x y := (List.pairwise_cons.mp
    (List.pairwise_append.mp hl.pairwise_elder).2.1).1 y List.mem_cons_self
  by_cases hkeys : ∀ z ∈ before ++ [x], keyText t z ≠ keyText t y
  · rw [Exchanges, h.run_moveUp hl hy hkeys rfl, run_swapAdjacent t rows (h.elder_lt hxy),
      and_iff_right hkeys, ← h.exchanged_iff hscope hxy hfits]
    simp
  · -- an earlier sibling has the key, and is swapped with the one before it
    refine iff_of_false ?_ fun hboth => hkeys hboth.1
    rintro ⟨rows', hrun, hall⟩
    obtain ⟨u, z, v, hsplit, hu, hz⟩ := exists_first hkeys
    have hlist : before ++ x :: y :: after = u ++ z :: (v ++ y :: after) := by
      rw [← List.singleton_append, ← List.append_assoc, hsplit]
      simp
    have hzmem : z ∈ before ++ [x] := by simp [hsplit]
    obtain rfl | ⟨u, w, rfl⟩ := List.eq_nil_or_concat' u
    · rw [List.nil_append] at hlist
      rw [h.run_moveUp_first (hlist ▸ hl) (hlist ▸ hy) hz] at hrun
      cases hrun
    · rw [List.append_assoc, List.singleton_append] at hlist
      have hl' := hlist ▸ hl
      have hwz : f.Elder w z := (List.pairwise_cons.mp
        (List.pairwise_append.mp hl'.pairwise_elder).2.1).1 z List.mem_cons_self
      rw [h.run_moveUp hl' (hlist ▸ hy) hu hz, run_swapAdjacent t rows (h.elder_lt hwz)] at hrun
      obtain rfl := (Prod.ext_iff.mp hrun).2
      exact h.not_exchanged hscope hl hwz hzmem hfits hall

end Spaced

/-- `move_down` of the left one of two adjacent siblings, and `move_up` of the right one, exchange
    them when no earlier sibling has the key text and the parking place is free. -/
theorem swap_siblings {t : TreeManager} {rows : List TableRow} {f : Forest TableRow}
    {place : Nat → Int64} (h : Spaced t rows f place)
    (hscope : ∀ entry ∈ t.scope, entry.1 ≠ t.mapping.left ∧ entry.1 ≠ t.mapping.right)
    {before after : List TableRow} {x y : TableRow} {nodeX nodeY : TreeNodeResult}
    (hsiblings : f.Siblings (before ++ x :: y :: after))
    (hx : makeResult t.mapping (t.mapping.resultRow x) = .ok nodeX)
    (hy : makeResult t.mapping (t.mapping.resultRow y) = .ok nodeY)
    (hfits : nodeY.rght.toInt + 10000000 < 2 ^ 63) :
    (Exchanges t rows f x y (t.moveDown nodeX) ↔
      (∀ z ∈ before, keyText t z ≠ keyText t x) ∧ Parkable t f x y) ∧
    (Exchanges t rows f x y (t.moveUp nodeY) ↔
      (∀ z ∈ before ++ [x], keyText t z ≠ keyText t y) ∧ Parkable t f x y) := by
  have hxnode : x ∈ f.nodes := hsiblings.subset (by simp)
  have hynode : y ∈ f.nodes := hsiblings.subset (by simp)
  obtain rfl : nodeResult t x = nodeX := Except.ok.inj ((h.makeResult_eq hxnode).symm.trans hx)
  obtain rfl : nodeResult t y = nodeY := Except.ok.inj ((h.makeResult_eq hynode).symm.trans hy)
  exact ⟨h.moveDown_iff hscope hsiblings hfits, h.moveUp_iff hscope hsiblings hfits⟩

theorem swap_siblings_family :
    (Exchanges (tenantTree 1) familyRows family (category 2 (.int64 1) 2 3 1 1)
        (category 3 (.int64 1) 4 5 1 1) ((tenantTree 1).moveDown
          (nodeResult (tenantTree 1) (category 2 (.int64 1) 2 3 1 1))) ↔
      (∀ z ∈ ([] : List TableRow), keyText (tenantTree 1) z ≠
          keyText (tenantTree 1) (category 2 (.int64 1) 2 3 1 1)) ∧
        Parkable (tenantTree 1) family (category 2 (.int64 1) 2 3 1 1)
          (category 3 (.int64 1) 4 5 1 1)) :=
  have hspaced := encodes_family.spaced (by decide)
  have hsiblings : family.Siblings ([] ++ category 2 (.int64 1) 2 3 1 1 ::
      category 3 (.int64 1) 4 5 1 1 :: []) := .below .top
  (swap_siblings hspaced (by decide) hsiblings
    (hspaced.makeResult_eq (hsiblings.subset List.mem_cons_self))
    (hspaced.makeResult_eq (hsiblings.subset (List.mem_cons_of_mem _ List.mem_cons_self)))
    (by decide)).1

/-! ## A tree of roots -/

/-- The root number `i`. -/
def rootRow (i : Nat) : TableRow :=
  category (Int64.ofNat i) .null (Int64.ofNat (2 * i + 1)) (Int64.ofNat (2 * i + 2)) 0 1

/-- A forest of `n` roots without children. -/
def rootForest (i : Nat) : Nat → Forest TableRow
  | 0 => .nil
  | n + 1 => .cons (rootRow i) .nil (rootForest (i + 1) n)

theorem nodes_rootForest (i n : Nat) :
    (rootForest i n).nodes = (List.range' i n).map rootRow := by
  induction n generalizing i with
  | zero => rfl
  | succ n ih =>
    rw [rootForest, Forest.nodes, ih, List.range'_succ, List.map_cons]
    rfl

theorem roots_rootForest (i n : Nat) :
    (rootForest i n).roots = (List.range' i n).map rootRow := by
  induction n generalizing i with
  | zero => rfl
  | succ n ih => rw [rootForest, Forest.roots, ih, List.range'_succ, List.map_cons]

theorem number_rootForest (i n : Nat) : (rootForest i n).number (2 * i + 1) 0 =
    (List.range' i n).map fun j => ⟨rootRow j, 2 * j + 1, 2 * j + 2, 0⟩ := by
  induction n generalizing i with
  | zero => rfl
  | succ n ih =>
    rw [rootForest, Forest.number, List.range'_succ, List.map_cons, ← ih]
    simp only [Forest.size, Forest.number, List.nil_append]
    congr 2

theorem not_child_rootForest (i n : Nat) {p b : TableRow} : ¬ (rootForest i n).Child p b := by
  induction n generalizing i with
  | zero => exact nofun
  | succ n ih =>
    rintro (h | h | h)
    · cases h
    · cases h
    · exact ih (i + 1) h

theorem left_rootRow {i : Nat} (hi : i < 2 ^ 62) :
    (boundary (rootRow i) categories.left).toInt = 2 * i + 1 := by
  rw [show boundary (rootRow i) categories.left = Int64.ofNat (2 * i + 1) from rfl,
    toInt_ofNat_of_lt (by omega)]
  omega

theorem right_rootRow {i : Nat} (hi : i + 1 < 2 ^ 62) :
    (boundary (rootRow i) categories.right).toInt = 2 * i + 2 := by
  rw [show boundary (rootRow i) categories.right = Int64.ofNat (2 * i + 2) from rfl,
    toInt_ofNat_of_lt (by omega)]
  omega

/-- Roots are below themselves alone. -/
theorem not_below_rootForest {i j n : Nat} (hi : i < 2 ^ 62) (hj : j < 2 ^ 62) (hne : i ≠ j) :
    ¬ ReflTransGen (rootForest 0 n).Child (rootRow i) (rootRow j) := by
  intro h
  obtain heq | ⟨p, -, hp⟩ := ReflTransGen.cases_tail h
  · have hi := left_rootRow hi
    rw [← heq, left_rootRow hj] at hi
    omega
  · exact not_child_rootForest 0 n hp

theorem encodes_rootForest {n : Nat} (hn : n < 2 ^ 62) :
    Encodes (tenantTree 1) (rootForest 0 n).nodes (rootForest 0 n) where
  nodes := by
    have hscope : ∀ row ∈ (rootForest 0 n).nodes, inScope (tenantTree 1) row = true := by
      intro row hrow
      rw [nodes_rootForest] at hrow
      obtain ⟨i, -, rfl⟩ := List.mem_map.mp hrow
      rfl
    rw [List.filter_eq_self.mpr hscope]
  keyed row hrow := by
    rw [nodes_rootForest] at hrow
    obtain ⟨i, -, rfl⟩ := List.mem_map.mp hrow
    exact nofun
  distinct := by
    rw [nodes_rootForest, List.pairwise_map]
    apply (List.nodup_range' (s := 0) (n := n)).imp_of_mem
    intro i j hi hj hne
    rw [List.mem_range'_1] at hi hj
    have hkeys : Int64.ofNat i ≠ Int64.ofNat j := by
      rw [Ne, ← Int64.toInt_inj, toInt_ofNat_of_lt (by omega), toInt_ofNat_of_lt (by omega)]
      omega
    exact decide_eq_false hkeys
  root row hrow := by
    rw [roots_rootForest] at hrow
    obtain ⟨i, -, rfl⟩ := List.mem_map.mp hrow
    rfl
  child row row' h := absurd h (not_child_rootForest 0 n)
  numbered entry hentry := by
    rw [show 1 = 2 * 0 + 1 from rfl, number_rootForest] at hentry
    obtain ⟨i, -, rfl⟩ := List.mem_map.mp hentry
    refine ⟨rfl, rfl, ?_⟩
    intro depth hdepth
    cases hdepth
    rfl

/-- With five million roots before it, a root stands where the second one is parked. -/
theorem not_parkable_rootForest {i n : Nat} (hi : i = 5000001) (hn : i < n) :
    ¬ Parkable (tenantTree 1) (rootForest 0 n) (rootRow 0) (rootRow 1) := by
  intro hpark
  have hnode : rootRow i ∈ (rootForest 0 n).nodes := by
    rw [nodes_rootForest]
    exact List.mem_map_of_mem (List.mem_range'_1.mpr (by omega))
  have hparked := hpark.free _ hnode (not_below_rootForest (by omega) (by omega) (by omega))
    (not_below_rootForest (by omega) (by omega) (by omega))
  apply hparked
  show (boundary (rootRow 1) categories.left).toInt + 10000000 ≤
      (boundary (rootRow i) categories.left).toInt ∧
    (boundary (rootRow i) categories.right).toInt ≤
      (boundary (rootRow 1) categories.right).toInt + 10000000
  rw [left_rootRow (by omega), left_rootRow (by omega), right_rootRow (by omega),
    right_rootRow (by omega)]
  omega

/-- In a table of more than five million roots, `move_down` of the first one moves another root
    too. -/
theorem swap_moves_others : ¬ ∀ (t : TreeManager) (rows : List TableRow) (f : Forest TableRow),
    Encodes t rows f →
    (∀ entry ∈ t.scope, entry.1 ≠ t.mapping.left ∧ entry.1 ≠ t.mapping.right) →
    ∀ (before after : List TableRow) (x y : TableRow) (nodeX nodeY : TreeNodeResult),
      f.Siblings (before ++ x :: y :: after) →
      makeResult t.mapping (t.mapping.resultRow x) = .ok nodeX →
      makeResult t.mapping (t.mapping.resultRow y) = .ok nodeY →
      nodeY.rght.toInt + 10000000 < 2 ^ 63 →
      Exchanges t rows f x y (t.moveDown nodeX) ∧ Exchanges t rows f x y (t.moveUp nodeY) := by
  intro hall
  obtain ⟨n, hn⟩ : ∃ n, n = 5000002 := ⟨_, rfl⟩
  have hencodes := encodes_rootForest (n := n) (by omega)
  have hspaced := hencodes.spaced (by rw [← Forest.length_nodes, nodes_rootForest]; simp; omega)
  have hscope : ∀ entry ∈ (tenantTree 1).scope,
      entry.1 ≠ (tenantTree 1).mapping.left ∧ entry.1 ≠ (tenantTree 1).mapping.right := by decide
  have hsiblings : (rootForest 0 n).Siblings
      ([] ++ rootRow 0 :: rootRow 1 :: (List.range' 2 (n - 2)).map rootRow) := by
    have hroots : (rootForest 0 n).roots =
        rootRow 0 :: rootRow 1 :: (List.range' 2 (n - 2)).map rootRow := by
      rw [roots_rootForest, show n = n - 2 + 1 + 1 by omega, List.range'_succ, List.range'_succ]
      rfl
    exact hroots ▸ .roots
  have hfits : (boundary (rootRow 1) (tenantTree 1).mapping.right).toInt + 10000000 < 2 ^ 63 := by
    show (boundary (rootRow 1) categories.right).toInt + 10000000 < 2 ^ 63
    rw [right_rootRow (by omega)]
    omega
  have hx := hspaced.makeResult_eq (hsiblings.subset (List.mem_cons_self))
  have hy := hspaced.makeResult_eq (hsiblings.subset (List.mem_cons_of_mem _ List.mem_cons_self))
  have hdown := (hall _ _ _ hencodes hscope [] _ _ _ _ _ hsiblings hx hy hfits).1
  have hpark := ((hspaced.moveDown_iff hscope hsiblings hfits).mp hdown).2
  exact not_parkable_rootForest rfl (by omega) hpark

end MetalOrm.Native.Tree
