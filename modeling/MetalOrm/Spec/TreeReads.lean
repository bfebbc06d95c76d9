import Mathlib.Data.Int.Order.Basic
import MetalOrm.Spec.TreeSpacing
import MetalOrm.ForStd.Threading

/-!
# Reading a tree

In a table that is numbered without gaps, what the reads of a tree compute from boundaries is what
the parent column says. `to_threaded` needs less: it loses no row of any list, and it gives every
row of a stretch of the tree its parent.

## Key results

- `threads_toThreaded`: what `to_threaded` builds from rows that can be read
- `tree_reads`: paths, descendants, leaves, levels, counts and threads
-/

open Relation (ReflTransGen TransGen)

namespace MetalOrm.Native.Tree

open ForStd (Forest Client Threads)

/-! ## Threading -/

/-- The threaded nodes of a forest. -/
def threaded : Forest Row → List ThreadedTreeNode
  | .nil => []
  | .cons row children siblings => .mk row (threaded children) :: threaded siblings

section Threading

variable {α : Type} {view : α → Row} {lft rght : α → Int64} {leftKey rightKey : Name}

/-- The boundaries of every row of a list can be read. -/
def Bounded (view : α → Row) (lft rght : α → Int64) (leftKey rightKey : Name) (l : List α) :
    Prop :=
  ∀ a ∈ l, boundaryOf (view a) leftKey = .ok (lft a) ∧ boundaryOf (view a) rightKey = .ok (rght a)

private theorem ok_bind {β γ : Type} (b : β) (next : β → Except Exn γ) :
    (Except.ok b >>= next) = next b := rfl

/-- With a fuel above the number of rows, parsing threads the list. -/
theorem exists_threads (fuel : Nat) (limit : Option Int64) (l : List α) (hfuel : l.length < fuel)
    (hl : Bounded view lft rght leftKey rightKey l) :
    ∃ g rest, parseThreaded leftKey rightKey fuel limit (l.map view) =
        .ok (threaded (g.map view), rest.map view) ∧
      Threads (fun a => (lft a).toInt) (fun a => (rght a).toInt) (limit.map Int64.toInt) l g
        rest := by
  induction fuel generalizing limit l with
  | zero => omega
  | succ fuel ih =>
    cases l with
    | nil => exact ⟨.nil, [], rfl, .nil⟩
    | cons a l =>
      obtain ⟨⟨hleft, hright⟩, hl⟩ := List.forall_mem_cons.mp hl
      rw [List.length_cons] at hfuel
      by_cases hstop : ∃ b ∈ limit, b ≤ lft a
      · obtain ⟨b, hb, hle⟩ := hstop
        obtain rfl : limit = some b := hb
        refine ⟨.nil, a :: l, ?_, .stop (Int64.le_iff_toInt_le.mp hle)⟩
        simp only [List.map_cons, parseThreaded, hleft, ok_bind, ge_iff_le, hle, if_true]
        rfl
      · obtain ⟨c, l', hc, hthreadsc⟩ := ih (some (rght a)) l (by omega) hl
        have hlength : l'.length ≤ l.length := by
          rw [hthreadsc.nodes_append, List.length_append]
          exact Nat.le_add_left _ _
        have hl' : Bounded view lft rght leftKey rightKey l' := fun b hb =>
          hl b (hthreadsc.nodes_append ▸ List.mem_append_right _ hb)
        obtain ⟨s, rest, hs, hthreadss⟩ := ih limit l' (by omega) hl'
        refine ⟨.cons a c s, rest, ?_, .node ?_ hthreadsc hthreadss⟩
        · cases limit with
          | none =>
            simp only [List.map_cons, parseThreaded, hright, ok_bind, hc, hs]
            rfl
          | some b =>
            have hlt : ¬ b ≤ lft a := fun hle => hstop ⟨b, rfl, hle⟩
            simp only [List.map_cons, parseThreaded, hleft, hright, ok_bind, ge_iff_le, hlt,
              if_false, hc, hs]
            rfl
        · intro b hb
          obtain ⟨b, hlimit, rfl⟩ := Option.map_eq_some_iff.mp hb
          have hlt : ¬ b ≤ lft a := fun hle => hstop ⟨b, hlimit, hle⟩
          rw [Int64.le_iff_toInt_le] at hlt
          omega

/-- A list whose boundaries can be read is threaded as a whole. -/
theorem threads_toThreaded {l : List α} (hl : Bounded view lft rght leftKey rightKey l) :
    ∃ g, toThreaded (l.map view) leftKey rightKey = .ok (threaded (g.map view)) ∧
      g.nodes = l ∧
      Threads (fun a => (lft a).toInt) (fun a => (rght a).toInt) none l g [] ∧
      ∀ fuel, l.length < fuel → parseThreaded leftKey rightKey fuel none (l.map view) =
        .ok (threaded (g.map view), []) := by
  obtain ⟨g, rest, hparse, hthreads⟩ := exists_threads (l.length + 1) none l (by omega) hl
  obtain rfl := hthreads.rest_eq_nil
  refine ⟨g, ?_, ?_, hthreads, ?_⟩
  · rw [toThreaded, List.length_map, hparse]
    rfl
  · rw [hthreads.nodes_append, List.append_nil]
  · intro fuel hfuel
    obtain ⟨g', rest', hparse', hthreads'⟩ := exists_threads fuel none l hfuel hl
    obtain ⟨rfl, rfl⟩ := hthreads.unique hthreads'
    exact hparse'

/-- Whatever the boundaries are, no row is lost and none is doubled. -/
theorem toThreaded_keeps {list : List Row} (hlist : ∀ row ∈ list, ∃ l r : Int64,
      boundaryOf row leftKey = .ok l ∧ boundaryOf row rightKey = .ok r ∧ l < r) :
    ∃ g : Forest Row, g.nodes = list ∧ toThreaded list leftKey rightKey = .ok (threaded g) ∧
      ∀ fuel, list.length < fuel →
        parseThreaded leftKey rightKey fuel none list = .ok (threaded g, []) := by
  have hbounded : Bounded id (fun row => (boundaryOf row leftKey).toOption.getD 0)
      (fun row => (boundaryOf row rightKey).toOption.getD 0) leftKey rightKey list := by
    intro row hrow
    obtain ⟨l, r, hl, hr, -⟩ := hlist row hrow
    simp [hl, hr, Except.toOption]
  obtain ⟨g, hrun, hnodes, -, hfuel⟩ := threads_toThreaded hbounded
  rw [List.map_id, Forest.map_id] at hrun
  simp only [List.map_id, Forest.map_id] at hfuel
  exact ⟨g, hnodes, hrun, hfuel⟩

end Threading

/-! ## Boundaries without gaps -/

variable {t : TreeManager} {rows : List TableRow} {f : Forest TableRow}

namespace Spaced

/-- The numbers of a table without gaps fit. -/
theorem size_lt (h : Spaced t rows f Int64.ofNat) : f.size < 2 ^ 62 := by
  by_contra hsize
  have hlt := h.increasing 1 (2 ^ 63) (by omega) (by omega) (by omega)
  exact absurd hlt (by decide)

theorem toInt_left (h : Spaced t rows f Int64.ofNat) {e : Forest.Entry TableRow}
    (he : e ∈ f.number 1 0) : (boundary e.node t.mapping.left).toInt = e.lft := by
  have hbounds := Forest.bounds_of_mem_number he
  have hsize := h.size_lt
  rw [h.left_entry he, toInt_ofNat_of_lt (by omega)]

theorem toInt_right (h : Spaced t rows f Int64.ofNat) {e : Forest.Entry TableRow}
    (he : e ∈ f.number 1 0) : (boundary e.node t.mapping.right).toInt = e.rght := by
  have hbounds := Forest.bounds_of_mem_number he
  have hsize := h.size_lt
  rw [h.right_entry he, toInt_ofNat_of_lt (by omega)]

/-- Between the boundaries of a row there is room for what is below it. -/
theorem toInt_width (h : Spaced t rows f Int64.ofNat) {x : TableRow} {c : Forest TableRow}
    (hc : f.Below x c) : (boundary x t.mapping.right - boundary x t.mapping.left).toInt =
      2 * c.size + 1 := by
  obtain ⟨e, he, rfl, hwidth⟩ := hc.exists_entry 1 0
  have hbounds := Forest.bounds_of_mem_number he
  have hsize := h.size_lt
  rw [Int64.toInt_sub, h.toInt_left he, h.toInt_right he, Int.bmod_eq_of_le]
  all_goals omega

/-- `child_count` is the number of descendants. -/
theorem toInt_childCount (h : Spaced t rows f Int64.ofNat) {x : TableRow} {c : Forest TableRow}
    (hc : f.Below x c) :
    (childCount (boundary x t.mapping.left) (boundary x t.mapping.right)).toInt = c.size := by
  have hwidth := h.toInt_width hc
  have hsize := h.size_lt
  have hle : c.size ≤ f.size := by
    have hlength := hc.isInfix.sublist.length_le
    rw [List.length_cons, Forest.length_nodes, Forest.length_nodes] at hlength
    omega
  have hdescendants :
      (boundary x t.mapping.right - boundary x t.mapping.left - 1).toInt = 2 * c.size := by
    rw [Int64.toInt_sub, hwidth, show (1 : Int64).toInt = 1 from rfl, Int.bmod_eq_of_le]
    all_goals omega
  rw [childCount, Int64.toInt_div_of_ne_right _ _ (by decide), hdescendants]
  show (2 * (c.size : Int)).tdiv 2 = c.size
  exact Int.mul_tdiv_cancel_left _ (by decide)

end Spaced

/-! ## Conditions on boundaries -/

namespace Spaced

variable {place : Nat → Int64}

theorem meets_ancestors (h : Spaced t rows f place) {x row : TableRow} (hx : x ∈ f.nodes)
    (hrow : row ∈ f.nodes) :
    meets t.engine [.compare t.mapping.left .lt (.int64 (boundary x t.mapping.left)),
      .compare t.mapping.right .gt (.int64 (boundary x t.mapping.right))] row = true ↔
      TransGen f.Child row x := by
  rw [h.meets_bounds hrow, t.engine.compare_int64, t.engine.compare_int64, ← h.contains_iff hrow hx]
  simp

theorem meets_lineage (h : Spaced t rows f place) {x row : TableRow} (hx : x ∈ f.nodes)
    (hrow : row ∈ f.nodes) :
    meets t.engine [.compare t.mapping.left .le (.int64 (boundary x t.mapping.left)),
      .compare t.mapping.right .ge (.int64 (boundary x t.mapping.right))] row = true ↔
      ReflTransGen f.Child row x := by
  rw [h.meets_bounds hrow, t.engine.compare_int64, t.engine.compare_int64, ← h.covers_iff hrow hx]
  simp

theorem meets_descendants (h : Spaced t rows f place) {x row : TableRow} (hx : x ∈ f.nodes)
    (hrow : row ∈ f.nodes) :
    meets t.engine [.compare t.mapping.left .gt (.int64 (boundary x t.mapping.left)),
      .compare t.mapping.right .lt (.int64 (boundary x t.mapping.right))] row = true ↔
      TransGen f.Child x row := by
  rw [h.meets_bounds hrow, t.engine.compare_int64, t.engine.compare_int64, ← h.contains_iff hx hrow]
  simp

theorem meets_subtree (h : Spaced t rows f place) {x row : TableRow} (hx : x ∈ f.nodes)
    (hrow : row ∈ f.nodes) :
    meets t.engine [.compare t.mapping.left .ge (.int64 (boundary x t.mapping.left)),
      .compare t.mapping.right .le (.int64 (boundary x t.mapping.right))] row = true ↔
      ReflTransGen f.Child x row := by
  rw [h.meets_bounds hrow, t.engine.compare_int64, t.engine.compare_int64, ← h.covers_iff hx hrow]
  simp

theorem meets_leaf (h : Spaced t rows f Int64.ofNat) {row : TableRow} (hrow : row ∈ f.nodes) :
    meets t.engine [.difference t.mapping.right t.mapping.left (.int64 1)] row = true ↔
      ∀ b, ¬ f.Child row b := by
  obtain ⟨c, hc⟩ := Forest.exists_below hrow
  have hwidth := h.toInt_width hc
  have hsub : t.engine.sub (row t.mapping.right) (row t.mapping.left) =
      .int64 (boundary row t.mapping.right - boundary row t.mapping.left) := by
    obtain ⟨e, he, rfl, he'⟩ := hc.exists_entry 1 0
    rw [h.right_eq hrow, h.left_eq hrow]
    apply t.engine.sub_int64
    rw [hwidth, h.toInt_left he, h.toInt_right he, he']
    omega
  simp only [meets, List.all_cons, List.all_nil, Bool.and_true, Conjunct.holds, hsub,
    t.engine.compare_int64, decide_eq_true_eq]
  rw [← Int64.toInt_inj, hwidth, show (1 : Int64).toInt = 1 from rfl]
  cases c with
  | nil =>
    simp only [Forest.size]
    constructor
    · intro _ b hb
      cases (hc.mem_roots_iff h.nodup).mpr hb
    · omega
  | cons a c s =>
    simp only [Forest.size]
    constructor
    · omega
    · intro hleaf
      exact absurd (hc.child_of_mem_roots List.mem_cons_self) (hleaf a)

end Spaced

/-! ## Reads -/

/-- The chain of parents that ends at `x` starts at a row without a parent. -/
structure Lineage (t : TreeManager) (live above : List TableRow) (x : TableRow) : Prop where
  linked : (above ++ [x]).IsChain (ParentOf t live)
  top : ∀ r ∈ (above ++ [x]).head?, r t.mapping.parent = .null

/-- The code returns the nodes of the rows, and leaves the table as it is. -/
def Reads (t : TreeManager) (rows : List TableRow) (code : TreeM (List TreeNodeResult))
    (l : List TableRow) : Prop :=
  ∃ nodes, code.run t.serve rows = (.ok nodes, rows) ∧
    nodes.map TreeNodeResult.data = l.map t.mapping.resultRow

/-- What the reads of the node of a row return, with `above` the rows from the root to its parent
    and `below` the forest of its children. -/
structure ReadsAt (t : TreeManager) (rows : List TableRow) (x : TableRow) (node : TreeNodeResult)
    (above : List TableRow) (below : Forest TableRow) : Prop where
  made : makeResult t.mapping (t.mapping.resultRow x) = .ok node
  lineage : Lineage t (scopeRows t rows) above x
  descendants : ∀ y, y ∈ below.nodes ↔ TransGen (ParentOf t (scopeRows t rows)) x y
  path : Reads t rows (t.getPath node.bounds true) (above ++ [x])
  ancestors : Reads t rows (t.getPath node.bounds false) above
  found : t.serve (t.findDescendants node.bounds) rows =
    (.ok { rows := below.nodes.map t.mapping.resultRow }, rows)
  subtree : t.serve (t.findSubtree node.bounds) rows =
    (.ok { rows := (x :: below.nodes).map t.mapping.resultRow }, rows)
  level : ∃ level, (t.getLevel node).run t.serve rows = (.ok level, rows) ∧
    level.toInt = above.length
  count : (childCount node.lft node.rght).toInt = below.nodes.length

namespace Spaced

variable {place : Nat → Int64}

theorem reads_of (h : Spaced t rows f place) {conditions : List Conjunct} {l : List TableRow}
    (hsorted : l.Pairwise fun x y => boundary x t.mapping.left < boundary y t.mapping.left)
    (hmem : ∀ row, row ∈ l ↔ row ∈ f.nodes ∧ meets t.engine conditions row = true) :
    Reads t rows (t.results (t.ordered conditions true)) l := by
  refine ⟨_, h.run_results hsorted hmem, ?_⟩
  rw [List.map_map]
  rfl

theorem transGen_iff (h : Spaced t rows f place) {x y : TableRow} :
    TransGen (ParentOf t (scopeRows t rows)) x y ↔ TransGen f.Child x y := by
  have hrel : ParentOf t (scopeRows t rows) = f.Child :=
    funext fun _ => funext fun _ => propext h.parentOf_iff
  rw [hrel]

/-- The rows of a chain of parents are sorted. -/
theorem sorted_lineage (h : Spaced t rows f place) {l : List TableRow}
    (hchain : l.IsChain f.Child) :
    l.Pairwise fun x y => boundary x t.mapping.left < boundary y t.mapping.left := by
  have hstep : l.IsChain fun x y => boundary x t.mapping.left < boundary y t.mapping.left :=
    hchain.imp fun x y hxy => ((h.nested hxy.mem_left hxy.mem_right).mp (.single hxy)).1
  have : IsTrans TableRow fun x y => boundary x t.mapping.left < boundary y t.mapping.left :=
    ⟨fun _ _ _ => Int64.lt_trans⟩
  exact hstep.pairwise

/-- A list has what meets the conditions when these say what is in the list. -/
theorem mem_iff_meets {conditions : List Conjunct} {l : List TableRow} {P : TableRow → Prop}
    (hl : ∀ row, row ∈ l ↔ P row) (hsubset : l ⊆ f.nodes)
    (hmeets : ∀ row ∈ f.nodes, meets t.engine conditions row = true ↔ P row) (row : TableRow) :
    row ∈ l ↔ row ∈ f.nodes ∧ meets t.engine conditions row = true := by
  constructor
  · intro hrow
    exact ⟨hsubset hrow, (hmeets row (hsubset hrow)).mpr ((hl row).mp hrow)⟩
  · rintro ⟨hrow, hmet⟩
    exact (hl row).mpr ((hmeets row hrow).mp hmet)

/-- The level of a node is the number of its ancestors, with a depth column or without. -/
theorem run_getLevel (h : Spaced t rows f Int64.ofNat) {x : TableRow} {above : List TableRow}
    (hdepth : ∃ e ∈ f.number 1 0, e.node = x ∧ e.depth = above.length)
    (hlength : above.length < 2 ^ 62)
    (hpath : Reads t rows (t.getPath (nodeResult t x).bounds false) above) :
    ∃ level, (t.getLevel (nodeResult t x)).run t.serve rows = (.ok level, rows) ∧
      level.toInt = above.length := by
  refine ⟨Int64.ofNat above.length, ?_, toInt_ofNat_of_lt (by omega)⟩
  obtain ⟨e, he, rfl, hdepth⟩ := hdepth
  rw [TreeManager.getLevel, show (nodeResult t e.node).depth =
    t.mapping.depth.map (boundary e.node) from rfl]
  cases hcolumn : t.mapping.depth with
  | some column =>
    have hvalue := (h.numbered e he).2.2 column hcolumn
    simp only [Option.map_some, boundary, hvalue, hdepth]
    rfl
  | none =>
    obtain ⟨nodes, hrun, hdata⟩ := hpath
    have hlength := congrArg List.length hdata
    rw [List.length_map, List.length_map] at hlength
    simp only [Option.map_none]
    rw [Client.run_bind_ok t.serve hrun, Client.run_pure, hlength]

/-- What the reads of a row return is what the forest says. -/
theorem readsAt (h : Spaced t rows f Int64.ofNat) {x : TableRow} (hx : x ∈ f.nodes) :
    ∃ node above below, f.Below x below ∧ ReadsAt t rows x node above below := by
  obtain ⟨above, hchain, htop, hdepth⟩ := Forest.exists_lineage hx
  obtain ⟨below, hbelow⟩ := Forest.exists_below hx
  have hsortedl := h.sorted_lineage hchain
  have hsorted := h.sorted.sublist hbelow.isInfix.sublist
  have hmemAbove : ∀ row, row ∈ above ↔ TransGen f.Child row x :=
    fun row => Forest.mem_lineage_iff h.nodup hchain htop
  have hsubset : above ++ [x] ⊆ f.nodes := by
    intro row hrow
    obtain hrow | hrow := List.mem_append.mp hrow
    · obtain ⟨_, hchild, -⟩ := TransGen.head'_iff.mp ((hmemAbove row).mp hrow)
      exact hchild.mem_left
    · exact List.mem_singleton.mp hrow ▸ hx
  have hmemPath : ∀ row, row ∈ above ++ [x] ↔ ReflTransGen f.Child row x := by
    intro row
    rw [List.mem_append, List.mem_singleton, hmemAbove, Relation.reflTransGen_iff_eq_or_transGen,
      eq_comm, or_comm]
  have hmemBelow : ∀ row, row ∈ below.nodes ↔ TransGen f.Child x row :=
    fun row => hbelow.mem_nodes_iff h.nodup
  have hmemSubtree : ∀ row, row ∈ x :: below.nodes ↔ ReflTransGen f.Child x row := by
    intro row
    rw [List.mem_cons, hmemBelow, Relation.reflTransGen_iff_eq_or_transGen]
  have hancestors : Reads t rows (t.getPath (nodeResult t x).bounds false) above :=
    h.reads_of (hsortedl.sublist (List.sublist_append_left above [x]))
      (mem_iff_meets hmemAbove (fun _ hrow => hsubset (List.mem_append_left _ hrow))
        fun _ hrow => h.meets_ancestors hx hrow)
  have hlength : above.length < 2 ^ 62 := by
    have hnodup : above.Nodup := (hsortedl.sublist (List.sublist_append_left above [x])).imp
      fun hlt heq => Int64.ne_of_lt hlt (congrArg (boundary · _) heq)
    have hle := (hnodup.subperm fun _ hrow => hsubset (List.mem_append_left _ hrow)).length_le
    rw [Forest.length_nodes] at hle
    exact Nat.lt_of_le_of_lt hle h.size_lt
  refine ⟨nodeResult t x, above, below, hbelow, ?_⟩
  exact {
    made := h.makeResult_eq hx
    lineage := {
      linked := hchain.imp fun _ _ => h.parentOf_iff.mpr
      top := fun r hr => h.root r (htop r hr) }
    descendants := fun y => by rw [hmemBelow, h.transGen_iff]
    path := h.reads_of hsortedl
      (mem_iff_meets hmemPath hsubset fun _ hrow => h.meets_lineage hx hrow)
    ancestors := hancestors
    found := h.run_ordered (List.pairwise_cons.mp hsorted).2
      (mem_iff_meets hmemBelow hbelow.subset fun _ hrow => h.meets_descendants hx hrow)
    subtree := h.run_ordered hsorted
      (mem_iff_meets hmemSubtree hbelow.isInfix.subset fun _ hrow => h.meets_subtree hx hrow)
    level := h.run_getLevel (by simpa using hdepth 1 0) hlength hancestors
    count := by
      rw [Forest.length_nodes]
      exact h.toInt_childCount hbelow }

/-- The leaves are the rows that are nobody's parent, in preorder. -/
theorem reads_leaves (h : Spaced t rows f Int64.ofNat) :
    ∃ leaves, leaves.Sublist f.nodes ∧
      (∀ row, row ∈ leaves ↔
        row ∈ scopeRows t rows ∧ ∀ b, ¬ ParentOf t (scopeRows t rows) row b) ∧
      Reads t rows t.getLeaves leaves := by
  let conditions : List Conjunct := [.difference t.mapping.right t.mapping.left (.int64 1)]
  refine ⟨f.nodes.filter (meets t.engine conditions), List.filter_sublist, ?_, ?_⟩
  · intro row
    rw [List.mem_filter, h.mem_scopeRows, and_congr_right fun hrow => h.meets_leaf hrow]
    simp only [h.parentOf_iff]
  · exact h.reads_of (h.sorted.sublist List.filter_sublist) fun row => List.mem_filter

/-- A stretch of the tree is threaded with the parents that its rows name. -/
theorem threads_stretch (h : Spaced t rows f place) {l : List TableRow} (hl : l <:+: f.nodes) :
    ∃ g : Forest TableRow,
      toThreaded (l.map t.mapping.resultRow) t.mapping.left t.mapping.right =
        .ok (threaded (g.map t.mapping.resultRow)) ∧
      g.nodes = l ∧
      ∀ p y, g.Child p y ↔ p ∈ l ∧ y ∈ l ∧ y t.mapping.parent = p t.mapping.pk := by
  have hbounded : Bounded t.mapping.resultRow (boundary · t.mapping.left)
      (boundary · t.mapping.right) t.mapping.left t.mapping.right l := by
    intro row hrow
    have hnode := hl.subset hrow
    simp only [boundaryOf, t.mapping.lookup_resultRow _ t.mapping.left_mem,
      t.mapping.lookup_resultRow _ t.mapping.right_mem]
    rw [h.left_eq hnode, h.right_eq hnode]
    exact ⟨rfl, rfl⟩
  obtain ⟨g, hrun, hnodes, hthreads, -⟩ := threads_toThreaded hbounded
  refine ⟨g, hrun, hnodes, fun p y => ?_⟩
  rw [hthreads.child_iff h.nodup (h.sorted.imp Int64.lt_iff_toInt_lt.mp) hl ?_]
  · apply and_congr_right
    intro hp
    apply and_congr_right
    intro hy
    rw [← h.parentOf_iff, ParentOf, h.mem_scopeRows, h.mem_scopeRows]
    exact ⟨fun hlink => hlink.2.2, fun hlink => ⟨hl.subset hp, hl.subset hy, hlink⟩⟩
  · intro q hq y hy
    rw [h.nested hq hy, Int64.lt_iff_toInt_lt, Int64.lt_iff_toInt_lt]

end Spaced

/-- Reads agree with the parent column, and threading loses no row. -/
theorem tree_reads (h : Spaced t rows f Int64.ofNat) :
    (∀ x ∈ f.nodes, ∃ node above below, f.Below x below ∧ ReadsAt t rows x node above below) ∧
    (∃ leaves, leaves.Sublist f.nodes ∧
      (∀ row, row ∈ leaves ↔
        row ∈ scopeRows t rows ∧ ∀ b, ¬ ParentOf t (scopeRows t rows) row b) ∧
      Reads t rows t.getLeaves leaves) ∧
    (∀ l, l <:+: f.nodes → ∃ g : Forest TableRow,
      toThreaded (l.map t.mapping.resultRow) t.mapping.left t.mapping.right =
        .ok (threaded (g.map t.mapping.resultRow)) ∧
      g.nodes = l ∧
      ∀ p y, g.Child p y ↔ p ∈ l ∧ y ∈ l ∧ y t.mapping.parent = p t.mapping.pk) ∧
    ∀ (list : List Row) (leftKey rightKey : Name),
      (∀ row ∈ list, ∃ l r : Int64, boundaryOf row leftKey = .ok l ∧
        boundaryOf row rightKey = .ok r ∧ l < r) →
      ∃ g : Forest Row, g.nodes = list ∧ toThreaded list leftKey rightKey = .ok (threaded g) ∧
        ∀ fuel, list.length < fuel →
          parseThreaded leftKey rightKey fuel none list = .ok (threaded g, []) := by
  exact ⟨fun x hx => h.readsAt hx, h.reads_leaves, fun l hl => h.threads_stretch hl,
    fun list leftKey rightKey hlist => toThreaded_keeps hlist⟩

theorem tree_reads_family : ∃ node above below,
    ReadsAt (tenantTree 1) familyRows (category 2 (.int64 1) 2 3 1 1) node above below := by
  have hreads := tree_reads (encodes_family.spaced (by decide))
  obtain ⟨node, above, below, -, hat⟩ := hreads.1 _ (List.mem_cons_of_mem _ List.mem_cons_self)
  exact ⟨node, above, below, hat⟩

end MetalOrm.Native.Tree
