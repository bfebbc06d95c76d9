import MetalOrm.Spec.TreeRecovery
import MetalOrm.ForStd.ForestPaths

/-!
# Boundaries in the order of a tree

A table that encodes a forest with gaps: the boundaries are in the order of the preorder numbers,
but need not be the numbers. What the statements of a tree select is then read off the forest.

## Key results

- `Spaced.nested`: a row is below another one when it starts inside it
- `Spaced.run_ordered`: what an ordered query returns
-/

open Relation (ReflTransGen TransGen)

namespace MetalOrm.Native.Tree

open ForStd (Forest Client)

/-- The integer in a column. -/
def boundary (row : TableRow) (column : Name) : Int64 :=
  match row column with
  | .int64 v => v
  | _ => 0

/-- What `make_result` reads from a row. -/
def nodeResult (t : TreeManager) (row : TableRow) : TreeNodeResult where
  data := t.mapping.resultRow row
  lft := boundary row t.mapping.left
  rght := boundary row t.mapping.right
  parentId := row t.mapping.parent
  depth := t.mapping.depth.map (boundary row)
  isLeaf := isLeaf (boundary row t.mapping.left) (boundary row t.mapping.right)
  isRoot := isRoot (row t.mapping.parent)
  childCount := childCount (boundary row t.mapping.left) (boundary row t.mapping.right)

/-- The rows of the scope encode the forest: the boundary numbered `i` is `place i`. -/
structure Spaced (t : TreeManager) (rows : List TableRow) (f : Forest TableRow)
    (place : Nat → Int64) : Prop where
  nodes : (rows.filter (inScope t)).Perm f.nodes
  keyed : ∀ row ∈ f.nodes, row t.mapping.pk ≠ .null
  distinct : f.nodes.Pairwise fun row row' =>
    t.engine.compare .eq (row t.mapping.pk) (row' t.mapping.pk) = false
  root : ∀ row ∈ f.roots, row t.mapping.parent = .null
  child : ∀ row row', f.Child row row' → row' t.mapping.parent = row t.mapping.pk
  increasing : ∀ i j, 1 ≤ i → i < j → j ≤ 2 * f.size → place i < place j
  positive : ∀ i, 1 ≤ i → i ≤ 2 * f.size → 1 ≤ place i
  numbered : ∀ entry ∈ f.number 1 0,
    entry.node t.mapping.left = .int64 (place entry.lft) ∧
    entry.node t.mapping.right = .int64 (place entry.rght) ∧
    ∀ depth ∈ t.mapping.depth, entry.node depth = .int64 (Int64.ofNat entry.depth)

theorem toInt_ofNat_of_lt {n : Nat} (h : n < 2 ^ 63) : (Int64.ofNat n).toInt = n :=
  Int64.toInt_ofNat_of_lt h

/-- A table without gaps is one whose numbers stand for themselves. -/
theorem Encodes.spaced {t : TreeManager} {rows : List TableRow} {f : Forest TableRow}
    (h : Encodes t rows f) (hsize : f.size < 2 ^ 62) : Spaced t rows f Int64.ofNat where
  nodes := h.nodes
  keyed := h.keyed
  distinct := h.distinct
  root := h.root
  child := h.child
  increasing i j hi hij hj := by
    rw [Int64.lt_iff_toInt_lt, toInt_ofNat_of_lt (by omega), toInt_ofNat_of_lt (by omega)]
    omega
  positive i hi hle := by
    rw [Int64.le_iff_toInt_le, toInt_ofNat_of_lt (by omega)]
    change 1 ≤ (i : Int)
    omega
  numbered := h.numbered

namespace Spaced

variable {t : TreeManager} {rows : List TableRow} {f : Forest TableRow} {place : Nat → Int64}

/-! ## Rows of the forest -/

theorem encodes (h : Spaced t rows f Int64.ofNat) : Encodes t rows f where
  nodes := h.nodes
  keyed := h.keyed
  distinct := h.distinct
  root := h.root
  child := h.child
  numbered := h.numbered

theorem nodup (h : Spaced t rows f place) : f.nodes.Nodup := by
  apply h.distinct.imp_of_mem
  rintro row row' hrow - hne rfl
  rw [t.engine.compare_eq_self _ (h.keyed row hrow)] at hne
  cases hne

theorem mem_nodes (h : Spaced t rows f place) {row : TableRow} :
    row ∈ f.nodes ↔ row ∈ rows ∧ inScope t row = true := by
  rw [← h.nodes.mem_iff, List.mem_filter]

theorem mem_scopeRows (h : Spaced t rows f place) {row : TableRow} :
    row ∈ scopeRows t rows ↔ row ∈ f.nodes :=
  h.nodes.mem_iff

theorem eq_of_compare (h : Spaced t rows f place) {p q : TableRow} (hp : p ∈ f.nodes)
    (hq : q ∈ f.nodes)
    (heq : t.engine.compare .eq (p t.mapping.pk) (q t.mapping.pk) = true) : p = q := by
  by_contra hne
  have : Std.Symm fun row row' : TableRow =>
      t.engine.compare .eq (row t.mapping.pk) (row' t.mapping.pk) = false :=
    ⟨fun _ _ hrow => (t.engine.compare_eq_comm _ _).trans hrow⟩
  rw [h.distinct.forall hp hq hne] at heq
  cases heq

/-- The parents of the forest are the rows that are named in the parent column. -/
theorem parentOf_iff (h : Spaced t rows f place) {p row : TableRow} :
    ParentOf t (scopeRows t rows) p row ↔ f.Child p row := by
  constructor
  · rintro ⟨hp, hrow, hlink⟩
    rw [h.mem_scopeRows] at hp hrow
    obtain ⟨r, hr, hreach⟩ := Forest.exists_root hrow
    obtain rfl | ⟨q, -, hq⟩ := ReflTransGen.cases_tail hreach
    · exact absurd (hlink.symm.trans (h.root _ hr)) (h.keyed p hp)
    · have hpk : p t.mapping.pk = q t.mapping.pk := hlink.symm.trans (h.child q row hq)
      obtain rfl : p = q := h.eq_of_compare hp hq.mem_left
        (hpk ▸ t.engine.compare_eq_self _ (h.keyed p hp))
      exact hq
  · intro hchild
    exact ⟨h.mem_scopeRows.mpr hchild.mem_left, h.mem_scopeRows.mpr hchild.mem_right,
      h.child p row hchild⟩

/-! ## Boundaries -/

theorem exists_entry {row : TableRow} (hrow : row ∈ f.nodes) :
    ∃ e ∈ f.number 1 0, e.node = row := by
  rw [← Forest.map_node_number f 1 0] at hrow
  exact List.mem_map.mp hrow

theorem left_entry (h : Spaced t rows f place) {e : Forest.Entry TableRow}
    (he : e ∈ f.number 1 0) : boundary e.node t.mapping.left = place e.lft := by
  simp only [boundary, (h.numbered e he).1]

theorem right_entry (h : Spaced t rows f place) {e : Forest.Entry TableRow}
    (he : e ∈ f.number 1 0) : boundary e.node t.mapping.right = place e.rght := by
  simp only [boundary, (h.numbered e he).2.1]

theorem left_eq (h : Spaced t rows f place) {row : TableRow} (hrow : row ∈ f.nodes) :
    row t.mapping.left = .int64 (boundary row t.mapping.left) := by
  obtain ⟨e, he, rfl⟩ := exists_entry hrow
  rw [h.left_entry he, (h.numbered e he).1]

theorem right_eq (h : Spaced t rows f place) {row : TableRow} (hrow : row ∈ f.nodes) :
    row t.mapping.right = .int64 (boundary row t.mapping.right) := by
  obtain ⟨e, he, rfl⟩ := exists_entry hrow
  rw [h.right_entry he, (h.numbered e he).2.1]

/-- The places are in the order of the numbers. -/
theorem place_lt_iff (h : Spaced t rows f place) {i j : Nat} (hi : 1 ≤ i) (hi' : i ≤ 2 * f.size)
    (hj : 1 ≤ j) (hj' : j ≤ 2 * f.size) : place i < place j ↔ i < j := by
  constructor
  · intro hlt
    by_contra hle
    obtain rfl | hji := Nat.eq_or_lt_of_le (Nat.not_lt.mp hle)
    · exact Int64.lt_irrefl hlt
    · exact Int64.lt_irrefl (Int64.lt_trans hlt (h.increasing j i hj hji hi'))
  · exact fun hij => h.increasing i j hi hij hj'

theorem lt (h : Spaced t rows f place) {row : TableRow} (hrow : row ∈ f.nodes) :
    boundary row t.mapping.left < boundary row t.mapping.right := by
  obtain ⟨e, he, rfl⟩ := exists_entry hrow
  have hbounds := Forest.bounds_of_mem_number he
  rw [h.left_entry he, h.right_entry he]
  exact h.increasing _ _ (by omega) (by omega) (by omega)

theorem one_le (h : Spaced t rows f place) {row : TableRow} (hrow : row ∈ f.nodes) :
    1 ≤ boundary row t.mapping.left := by
  obtain ⟨e, he, rfl⟩ := exists_entry hrow
  have hbounds := Forest.bounds_of_mem_number he
  rw [h.left_entry he]
  exact h.positive _ (by omega) (by omega)

/-- A row is below another one when it starts inside it. -/
theorem nested (h : Spaced t rows f place) {x y : TableRow} (hx : x ∈ f.nodes)
    (hy : y ∈ f.nodes) : TransGen f.Child x y ↔
      boundary x t.mapping.left < boundary y t.mapping.left ∧
        boundary y t.mapping.left < boundary x t.mapping.right := by
  obtain ⟨e, he, rfl⟩ := exists_entry hx
  obtain ⟨e', he', rfl⟩ := exists_entry hy
  have hb := Forest.bounds_of_mem_number he
  have hb' := Forest.bounds_of_mem_number he'
  rw [h.left_entry he, h.left_entry he', h.right_entry he,
    h.place_lt_iff (by omega) (by omega) (by omega) (by omega),
    h.place_lt_iff (by omega) (by omega) (by omega) (by omega),
    ← Forest.contains_iff h.nodup he he']
  constructor
  · intro hcontains
    simp only [Forest.Entry.Contains] at hcontains
    omega
  · rintro ⟨hlt, hlt'⟩
    obtain hapart | hcontains := Forest.apart_or_contains he he' hlt
    · omega
    · exact hcontains

/-- What is below a row ends inside it. -/
theorem right_lt (h : Spaced t rows f place) {x y : TableRow} (hxy : TransGen f.Child x y)
    (hx : x ∈ f.nodes) (hy : y ∈ f.nodes) :
    boundary y t.mapping.right < boundary x t.mapping.right := by
  obtain ⟨e, he, rfl⟩ := exists_entry hx
  obtain ⟨e', he', rfl⟩ := exists_entry hy
  have hb := Forest.bounds_of_mem_number he
  have hb' := Forest.bounds_of_mem_number he'
  have hcontains := ((Forest.contains_iff h.nodup he he').mpr hxy).2
  rw [h.right_entry he, h.right_entry he']
  exact h.increasing _ _ (by omega) hcontains (by omega)

/-- What starts behind a row ends before it or is below it. -/
theorem apart_or_below (h : Spaced t rows f place) {x y : TableRow} (hx : x ∈ f.nodes)
    (hy : y ∈ f.nodes) (hlt : boundary x t.mapping.left < boundary y t.mapping.left) :
    boundary x t.mapping.right < boundary y t.mapping.left ∨ TransGen f.Child x y := by
  obtain ⟨e, he, rfl⟩ := exists_entry hx
  obtain ⟨e', he', rfl⟩ := exists_entry hy
  have hb := Forest.bounds_of_mem_number he
  have hb' := Forest.bounds_of_mem_number he'
  rw [h.left_entry he, h.left_entry he',
    h.place_lt_iff (by omega) (by omega) (by omega) (by omega)] at hlt
  obtain hapart | hcontains := Forest.apart_or_contains he he' hlt
  · left
    rw [h.right_entry he, h.left_entry he']
    exact h.increasing _ _ (by omega) hapart (by omega)
  · exact .inr ((Forest.contains_iff h.nodup he he').mp hcontains)

/-- An elder sibling ends before. -/
theorem elder_lt (h : Spaced t rows f place) {x y : TableRow} (hxy : f.Elder x y) :
    boundary x t.mapping.right < boundary y t.mapping.left := by
  obtain ⟨e, he, e', he', rfl, rfl, hlt⟩ := Forest.exists_of_elder hxy 1 0
  have hb := Forest.bounds_of_mem_number he
  have hb' := Forest.bounds_of_mem_number he'
  rw [h.right_entry he, h.left_entry he']
  exact h.increasing _ _ (by omega) hlt (by omega)

/-- The nodes are sorted by their left boundaries. -/
theorem sorted (h : Spaced t rows f place) :
    f.nodes.Pairwise fun x y => boundary x t.mapping.left < boundary y t.mapping.left := by
  rw [← Forest.map_node_number f 1 0, List.pairwise_map]
  apply (Forest.pairwise_lft f 1 0).imp_of_mem
  intro e e' he he' hlt
  have hb := Forest.bounds_of_mem_number he
  have hb' := Forest.bounds_of_mem_number he'
  rw [h.left_entry he, h.left_entry he']
  exact h.increasing _ _ (by omega) hlt (by omega)

/-- Different rows start at different boundaries. -/
theorem eq_of_left (h : Spaced t rows f place) {x y : TableRow} (hx : x ∈ f.nodes)
    (hy : y ∈ f.nodes) (heq : boundary x t.mapping.left = boundary y t.mapping.left) : x = y := by
  have hnodup : (f.nodes.map fun row => boundary row t.mapping.left).Nodup := by
    rw [List.Nodup, List.pairwise_map]
    exact h.sorted.imp fun hlt => Int64.ne_of_lt hlt
  exact List.inj_on_of_nodup_map hnodup hx hy heq

/-- A row strictly inside another one is below it. -/
theorem contains_iff (h : Spaced t rows f place) {x y : TableRow} (hx : x ∈ f.nodes)
    (hy : y ∈ f.nodes) :
    (boundary x t.mapping.left < boundary y t.mapping.left ∧
      boundary y t.mapping.right < boundary x t.mapping.right) ↔ TransGen f.Child x y := by
  constructor
  · rintro ⟨hleft, hright⟩
    obtain hapart | hbelow := h.apart_or_below hx hy hleft
    · have := h.lt hy
      exact absurd (Int64.lt_trans (Int64.lt_trans hapart this) hright) Int64.lt_irrefl
    · exact hbelow
  · intro hbelow
    exact ⟨((h.nested hx hy).mp hbelow).1, h.right_lt hbelow hx hy⟩

/-- A row inside another one is that row or below it. -/
theorem covers_iff (h : Spaced t rows f place) {x y : TableRow} (hx : x ∈ f.nodes)
    (hy : y ∈ f.nodes) :
    (boundary x t.mapping.left ≤ boundary y t.mapping.left ∧
      boundary y t.mapping.right ≤ boundary x t.mapping.right) ↔ ReflTransGen f.Child x y := by
  rw [Relation.reflTransGen_iff_eq_or_transGen]
  constructor
  · rintro ⟨hleft, hright⟩
    obtain hlt | heq := Int64.lt_or_eq_of_le hleft
    · obtain hapart | hbelow := h.apart_or_below hx hy hlt
      · have := Int64.lt_trans hapart (h.lt hy)
        exact absurd (Int64.lt_of_lt_of_le this hright) Int64.lt_irrefl
      · exact .inr hbelow
    · exact .inl (h.eq_of_left hy hx heq.symm)
  · rintro (rfl | hbelow)
    · exact ⟨Int64.le_refl _, Int64.le_refl _⟩
    · obtain ⟨hleft, hright⟩ := (h.contains_iff hx hy).mpr hbelow
      exact ⟨Int64.le_of_lt hleft, Int64.le_of_lt hright⟩

/-! ## Queries -/

/-- A condition on both boundaries of a row of the tree compares integers. -/
theorem meets_bounds (h : Spaced t rows f place) {row : TableRow} (hrow : row ∈ f.nodes)
    (op op' : Query.CompareOp) (l r : Int64) :
    meets t.engine [.compare t.mapping.left op (.int64 l), .compare t.mapping.right op' (.int64 r)]
        row =
      (t.engine.compare op (.int64 (boundary row t.mapping.left)) (.int64 l) &&
        t.engine.compare op' (.int64 (boundary row t.mapping.right)) (.int64 r)) := by
  simp only [meets, List.all_cons, List.all_nil, Bool.and_true, Conjunct.holds, h.left_eq hrow,
    h.right_eq hrow]

/-- An ordered query returns the rows of the scope that meet its conditions, sorted. -/
theorem run_ordered (h : Spaced t rows f place) {conditions : List Conjunct} {l : List TableRow}
    (hsorted : l.Pairwise fun x y => boundary x t.mapping.left < boundary y t.mapping.left)
    (hmem : ∀ row, row ∈ l ↔ row ∈ f.nodes ∧ meets t.engine conditions row = true) :
    t.serve (t.ordered conditions true) rows =
      (.ok { rows := l.map t.mapping.resultRow }, rows) := by
  have hperm : (rows.filter (meets t.engine (t.applyScope conditions))).Perm l := by
    have hfound : (rows.filter (meets t.engine (t.applyScope conditions))).Perm
        (f.nodes.filter (meets t.engine conditions)) := by
      have hfilter : meets t.engine (t.applyScope conditions) =
          fun row => meets t.engine conditions row && inScope t row :=
        funext (meets_applyScope t conditions)
      rw [hfilter, ← List.filter_filter]
      exact h.nodes.filter _
    apply hfound.trans
    apply (List.perm_ext_iff_of_nodup (h.nodup.filter _) ?_).mpr
    · intro row
      rw [List.mem_filter, hmem]
    · exact hsorted.imp fun hlt heq => Int64.ne_of_lt hlt (congrArg (boundary · _) heq)
  have hnode : ∀ row ∈ l, row ∈ f.nodes := fun row hrow => ((hmem row).mp hrow).1
  have hordered : t.engine.orderBy true t.mapping.left
      (rows.filter (meets t.engine (t.applyScope conditions))) = l := by
    have hl := (t.engine.orderBy_perm true t.mapping.left _).trans hperm
    refine hl.eq_of_pairwise ?_ (t.engine.orderBy_sorted true t.mapping.left _)
      (hsorted.imp_of_mem fun hx hy hlt v v' hv hv' => ?_)
    · -- rows that may stand in either order are the same
      intro x y hx hy hxy hyx
      have hx := hnode x (hl.mem_iff.mp hx)
      have hy := hnode y hy
      exact h.eq_of_left hx hy (Int64.le_antisymm (hxy _ _ (h.left_eq hx) (h.left_eq hy))
        (hyx _ _ (h.left_eq hy) (h.left_eq hx)))
    · obtain rfl : boundary _ t.mapping.left = v :=
        Value.int64.inj ((h.left_eq (hnode _ hx)).symm.trans hv)
      obtain rfl : boundary _ t.mapping.left = v' :=
        Value.int64.inj ((h.left_eq (hnode _ hy)).symm.trans hv')
      exact Int64.le_of_lt hlt
  rw [TreeManager.serve, TreeManager.ordered, Statement.run]
  simp only [hordered]

/-! ## Results -/

theorem depthOf_eq (h : Spaced t rows f place) {row : TableRow} (hrow : row ∈ f.nodes) :
    depthOf t.mapping (t.mapping.resultRow row) = .ok (t.mapping.depth.map (boundary row)) := by
  obtain ⟨e, he, rfl⟩ := exists_entry hrow
  unfold depthOf
  cases hdepth : t.mapping.depth with
  | none => rfl
  | some column =>
    have hvalue := (h.numbered e he).2.2 column hdepth
    simp only [requireValue_resultRow _ (t.mapping.depth_mem column hdepth), hvalue,
      Option.map_some, boundary]
    rfl

/-- The rows of the tree can be read. -/
theorem makeResult_eq (h : Spaced t rows f place) {row : TableRow} (hrow : row ∈ f.nodes) :
    makeResult t.mapping (t.mapping.resultRow row) = .ok (nodeResult t row) := by
  unfold makeResult
  rw [requireValue_resultRow row t.mapping.left_mem, requireValue_resultRow row t.mapping.right_mem,
    requireValue_resultRow row t.mapping.parent_mem, h.depthOf_eq hrow, h.left_eq hrow,
    h.right_eq hrow]
  rfl

theorem mapM_makeResult (h : Spaced t rows f place) {l : List TableRow}
    (hl : ∀ row ∈ l, row ∈ f.nodes) :
    (l.map t.mapping.resultRow).mapM (makeResult t.mapping) = .ok (l.map (nodeResult t)) := by
  induction l with
  | nil => rfl
  | cons row l ih =>
    obtain ⟨hrow, hl⟩ := List.forall_mem_cons.mp hl
    rw [List.map_cons, List.mapM_cons, h.makeResult_eq hrow, ih hl]
    rfl

/-- An ordered query of the manager returns the nodes that meet its conditions. -/
theorem run_results (h : Spaced t rows f place) {conditions : List Conjunct}
    {l : List TableRow}
    (hsorted : l.Pairwise fun x y => boundary x t.mapping.left < boundary y t.mapping.left)
    (hmem : ∀ row, row ∈ l ↔ row ∈ f.nodes ∧ meets t.engine conditions row = true) :
    (t.results (t.ordered conditions true)).run t.serve rows =
      (.ok (l.map (nodeResult t)), rows) := by
  have hquery : (execute (t.ordered conditions true)).run t.serve rows =
      (.ok { rows := l.map t.mapping.resultRow }, rows) := by
    rw [execute, Client.run_call, h.run_ordered hsorted hmem]
  rw [TreeManager.results, Client.run_bind_ok t.serve hquery, Client.run_lift]
  simp only [h.mapM_makeResult fun row hrow => ((hmem row).mp hrow).1]

end Spaced

/-- A root with two children. -/
def familyRows : List TableRow :=
  [category 1 .null 1 6 0 1, category 2 (.int64 1) 2 3 1 1, category 3 (.int64 1) 4 5 1 1]

/-- The forest of the family. -/
def family : Forest TableRow :=
  .cons (category 1 .null 1 6 0 1)
    (.cons (category 2 (.int64 1) 2 3 1 1) .nil (.cons (category 3 (.int64 1) 4 5 1 1) .nil .nil))
    .nil

theorem encodes_family : Encodes (tenantTree 1) familyRows family where
  nodes := by
    have hscope : ∀ row ∈ familyRows, inScope (tenantTree 1) row = true := by decide
    rw [List.filter_eq_self.mpr hscope]
    exact .refl _
  keyed := by decide
  distinct := by decide
  root := by decide
  child row row' h := by
    cases h with
    | top h =>
      simp only [Forest.roots, List.mem_cons, List.not_mem_nil, or_false] at h
      obtain rfl | rfl := h <;> rfl
    | inside h =>
      cases h with
      | top h => cases h
      | inside h => cases h
      | beside h =>
        cases h with
        | top h => cases h
        | inside h => cases h
        | beside h => cases h
    | beside h => cases h
  numbered := by decide

end MetalOrm.Native.Tree
