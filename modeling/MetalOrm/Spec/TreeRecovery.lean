import MetalOrm.Spec.TreeForest
import MetalOrm.Spec.TreeRebuild
import MetalOrm.Spec.TreeValidation

/-!
# What a recovered table is

`recover` numbers the rows that it reaches from those without a parent, and reports success
whatever it did not reach. It rebuilds the whole scope when the parent chain of every row ends at
a row without a parent, and no row with children shares its key text with another row.

## Key results

- `run_recover_of_readable`: the run as a function of the rows
- `nodup_nodes_of_rooted`: with such rows, the rebuilt forest has every row once
-/

open Relation (ReflTransGen TransGen)

namespace MetalOrm.Native.Tree

open ForStd (Client StdSort Forest)

variable (t : TreeManager)

/-! ## Parent links -/

/-- The rows of the scope. -/
def scopeRows (rows : List TableRow) : List TableRow := rows.filter (inScope t)

variable (live : List TableRow)

/-- `row` names `parent` as its parent. -/
def ParentOf (parent row : TableRow) : Prop :=
  parent ∈ live ∧ row ∈ live ∧ row t.mapping.parent = parent t.mapping.pk

/-- The row has `depth` ancestors, the last of which has no parent. -/
inductive Depth : TableRow → Nat → Prop
  | root {row : TableRow} (hmem : row ∈ live) (hroot : row t.mapping.parent = .null) : Depth row 0
  | child {parent row : TableRow} {depth : Nat} (hparent : Depth parent depth)
      (hlink : ParentOf t live parent row) : Depth row (depth + 1)

/-- No row with children shares its key text with another row. -/
def ApartKeys : Prop :=
  ∀ p ∈ live, ∀ q ∈ live, valueKey (p t.mapping.pk) = valueKey (q t.mapping.pk) → p ≠ q →
    ∀ row ∈ live, row t.mapping.parent ≠ p t.mapping.pk

/-- By the texts of the keys, `row` is a child of `parent`. -/
def KeyLink (parent row : TableRow) : Prop :=
  row ∈ live ∧ valueKey (row t.mapping.parent) = valueKey (parent t.mapping.pk)

/-- By the texts of the keys, a row below one without a parent is its own descendant. -/
def KeyLoop : Prop :=
  ∃ root ∈ live, root t.mapping.parent = .null ∧
    ∃ row, ReflTransGen (KeyLink t live) root row ∧ TransGen (KeyLink t live) row row

/-- The boundaries and the depth of a row can be read. -/
def Readable (row : TableRow) : Prop :=
  ∃ node, recoveryNode t.mapping (t.mapping.resultRow row) = .ok node

/-- The node of a row. -/
def nodeOf (row : TableRow) : RecoverNode :=
  match recoveryNode t.mapping (t.mapping.resultRow row) with
  | .ok node => node
  | .error _ => ⟨row t.mapping.pk, 0, 0, row t.mapping.parent, none⟩

/-! ## Rows with their own keys -/

/-- Rows of a table whose roles are held by different columns. -/
structure KeyedRows : Prop where
  roles : (t.mapping.pk :: t.mapping.parent :: t.mapping.left :: t.mapping.right ::
    t.mapping.depth.toList).Nodup
  scope : ∀ entry ∈ t.scope,
    entry.1 ∉ t.mapping.left :: t.mapping.right :: t.mapping.depth.toList
  keyed : ∀ row ∈ live, row t.mapping.pk ≠ .null
  distinct : live.Pairwise fun row row' =>
    t.engine.compare .eq (row t.mapping.pk) (row' t.mapping.pk) = false
  size_lt : live.length < 2 ^ 62

/-! ## Recovered rows -/

/-- The boundaries and depths are those of the forest of the parent links. -/
structure Numbering (less : RecoverNode → RecoverNode → Bool)
    (lft rght depth : TableRow → Nat) : Prop where
  boundaries : (live.flatMap fun row => [lft row, rght row]).Perm
    (List.range' 1 (2 * live.length))
  ordered : ∀ row ∈ live, lft row < rght row
  nested : ∀ a ∈ live, ∀ b ∈ live,
    (lft a < lft b ∧ rght b < rght a) ↔ TransGen (ParentOf t live) a b
  siblings : ∀ a ∈ live, ∀ b ∈ live, a t.mapping.parent = b t.mapping.parent →
    less (nodeOf t a) (nodeOf t b) = true → rght a < lft b
  depth : ∀ row ∈ live, Depth t live row (depth row)

/-- A row with new boundaries and a new depth. -/
def renumbered (lft rght depth : Nat) (row : TableRow) : TableRow := fun column =>
  if column = t.mapping.left then .int64 (Int64.ofNat lft)
  else if column = t.mapping.right then .int64 (Int64.ofNat rght)
  else if some column = t.mapping.depth then .int64 (Int64.ofNat depth)
  else row column

/-- The scope has been rebuilt from its parent links, and the rows outside are as they were. -/
def Recovered (less : RecoverNode → RecoverNode → Bool) (rows rows' : List TableRow)
    (processed : Nat) : Prop :=
  ∃ lft rght depth : TableRow → Nat,
    Numbering t (scopeRows t rows) less lft rght depth ∧
    processed = (scopeRows t rows).length ∧
    (rows' = rows.map fun row =>
      if inScope t row then renumbered t (lft row) (rght row) (depth row) row else row) ∧
    ∀ sort : StdSort Item.before, (t.validate sort).run t.serve rows' = (.ok [], rows')

/-! ## Reading the nodes -/

section Reading

variable {t} {live}

theorem requireValue_resultRow (row : TableRow) {column : Name} (h : column ∈ t.mapping.columns) :
    requireValue (t.mapping.resultRow row) column = .ok (row column) := by
  rw [requireValue, TreeMapping.lookup_resultRow _ _ h]

theorem recoveryNode_keys {row : TableRow} {node : RecoverNode}
    (h : recoveryNode t.mapping (t.mapping.resultRow row) = .ok node) :
    node.pk = row t.mapping.pk ∧ node.parentId = row t.mapping.parent := by
  unfold recoveryNode at h
  rw [requireValue_resultRow row t.mapping.pk_mem, requireValue_resultRow row t.mapping.parent_mem]
    at h
  obtain ⟨pk, hpk, h⟩ := except_bind_ok h
  obtain ⟨parent, hparent, h⟩ := except_bind_ok h
  obtain ⟨left, -, h⟩ := except_bind_ok h
  obtain ⟨lft, -, h⟩ := except_bind_ok h
  obtain ⟨right, -, h⟩ := except_bind_ok h
  obtain ⟨rght, -, h⟩ := except_bind_ok h
  obtain ⟨depth, -, h⟩ := except_bind_ok h
  cases hpk
  cases hparent
  cases h
  exact ⟨rfl, rfl⟩

@[simp] theorem nodeOf_pk (row : TableRow) : (nodeOf t row).pk = row t.mapping.pk := by
  unfold nodeOf
  split
  · rename_i node h
    exact (recoveryNode_keys h).1
  · rfl

@[simp] theorem nodeOf_parentId (row : TableRow) :
    (nodeOf t row).parentId = row t.mapping.parent := by
  unfold nodeOf
  split
  · rename_i node h
    exact (recoveryNode_keys h).2
  · rfl

theorem recoveryNode_of_readable {row : TableRow} (h : Readable t row) :
    recoveryNode t.mapping (t.mapping.resultRow row) = .ok (nodeOf t row) := by
  obtain ⟨node, hnode⟩ := h
  rw [nodeOf, hnode]

/-- The rows that `recover` reads, in the order it reads them. -/
def readRows (t : TreeManager) (rows : List TableRow) : List TableRow :=
  t.engine.orderBy true t.mapping.left (scopeRows t rows)

theorem mem_readRows {rows : List TableRow} {row : TableRow} :
    row ∈ readRows t rows ↔ row ∈ scopeRows t rows :=
  (t.engine.orderBy_perm _ _ _).mem_iff

theorem mapM_recoveryNode {rows : List TableRow} (h : ∀ row ∈ rows, Readable t row) :
    (rows.map t.mapping.resultRow).mapM (recoveryNode t.mapping) = .ok (rows.map (nodeOf t)) := by
  induction rows with
  | nil => rfl
  | cons row rows ih =>
    obtain ⟨hrow, htail⟩ := List.forall_mem_cons.mp h
    rw [List.map_cons, List.mapM_cons, recoveryNode_of_readable hrow, ih htail]
    rfl

theorem readable_of_mapM {rows : List TableRow} {nodes : List RecoverNode}
    (h : (rows.map t.mapping.resultRow).mapM (recoveryNode t.mapping) = .ok nodes) :
    ∀ row ∈ rows, Readable t row := by
  induction rows generalizing nodes with
  | nil => exact fun _ h => nomatch h
  | cons row rows ih =>
    rw [List.map_cons, List.mapM_cons] at h
    obtain ⟨node, hnode, h⟩ := except_bind_ok h
    obtain ⟨tail, htail, h⟩ := except_bind_ok h
    exact List.forall_mem_cons.mpr ⟨⟨node, hnode⟩, ih htail⟩

theorem run_recoveryNodes (rows : List TableRow) :
    t.recoveryNodes.run t.serve rows =
      (((readRows t rows).map t.mapping.resultRow).mapM (recoveryNode t.mapping), rows) := rfl

end Reading

/-! ## Writing the numbers -/

section Writing

variable {t}

/-- What the statement of an update makes of a row. -/
def applyUpdate (t : TreeManager) (row : TableRow) (item : RecoverUpdate) : TableRow :=
  match t.recoverStatement item with
  | .update sets conditions => updated (t := t) sets conditions row
  | _ => row

theorem run_updates (updates : List RecoverUpdate) (rows : List TableRow) :
    (updates.forM fun item => do
      let _ ← execute (t.recoverStatement item) : TreeM PUnit).run t.serve rows =
      (.ok ⟨⟩, rows.map fun row => updates.foldl (applyUpdate t) row) := by
  induction updates generalizing rows with
  | nil =>
    rw [show rows.map (fun row => [].foldl (applyUpdate t) row) = rows from List.map_id rows]
    rfl
  | cons item updates ih =>
    have hstep : (execute (t.recoverStatement item) >>= fun _ => pure PUnit.unit : TreeM PUnit).run
        t.serve rows = (.ok ⟨⟩, rows.map fun row => applyUpdate t row item) := rfl
    refine (Client.run_bind_ok t.serve hstep _).trans ?_
    rw [ih, List.map_map]
    rfl

/-- A recovery whose rows can be read. -/
theorem run_recover_of_readable {less : RecoverNode → RecoverNode → Bool} (sort : StdSort less)
    (fuel : Nat) {rows : List TableRow} (h : ∀ row ∈ scopeRows t rows, Readable t row) :
    (t.recover sort fuel).run t.serve rows =
      match recover sort fuel ((readRows t rows).map (nodeOf t)) with
      | none => (.ok none, rows)
      | some updates => (.ok (some ⟨updates.length, true, []⟩),
          rows.map fun row => updates.foldl (applyUpdate t) row) := by
  have hread : t.recoveryNodes.run t.serve rows = (.ok ((readRows t rows).map (nodeOf t)), rows) := by
    rw [run_recoveryNodes, mapM_recoveryNode fun row hrow => h row (mem_readRows.mp hrow)]
  rw [TreeManager.recover, Client.run_tryCatch, TreeManager.recoverStatements,
    Client.run_bind_ok t.serve hread]
  cases recover sort fuel ((readRows t rows).map (nodeOf t)) with
  | none => rfl
  | some updates =>
    dsimp only
    rw [Client.run_bind_ok t.serve (run_updates updates rows)]
    rfl

/-- A recovery that reports success has read its rows. -/
theorem readable_of_run_recover {less : RecoverNode → RecoverNode → Bool} {sort : StdSort less}
    {fuel : Nat} {rows rows' : List TableRow} {result : RecoverResult}
    (h : (t.recover sort fuel).run t.serve rows = (.ok (some result), rows'))
    (hsuccess : result.success = true) : ∀ row ∈ scopeRows t rows, Readable t row := by
  cases hmap : ((readRows t rows).map t.mapping.resultRow).mapM (recoveryNode t.mapping) with
  | ok nodes => exact fun row hrow => readable_of_mapM hmap row (mem_readRows.mpr hrow)
  | error error =>
    have hread : t.recoveryNodes.run t.serve rows = (.error error, rows) := by
      rw [run_recoveryNodes, hmap]
    rw [TreeManager.recover, Client.run_tryCatch, TreeManager.recoverStatements,
      Client.run_bind_error t.serve hread] at h
    cases h
    cases hsuccess

/-! ### One row -/

theorem renumbered_other {lft rght depth : Nat} {row : TableRow} {column : Name}
    (hleft : column ≠ t.mapping.left) (hright : column ≠ t.mapping.right)
    (hdepth : column ∉ t.mapping.depth.toList) :
    renumbered t lft rght depth row column = row column := by
  have hnot : ¬ some column = t.mapping.depth := by
    intro h
    exact hdepth (by simp [← h])
  rw [renumbered, if_neg hleft, if_neg hright, if_neg hnot]

variable {live : List TableRow} (hk : KeyedRows t live)

include hk in
theorem renumbered_pk (lft rght depth : Nat) (row : TableRow) :
    renumbered t lft rght depth row t.mapping.pk = row t.mapping.pk := by
  have hroles := hk.roles
  simp only [List.nodup_cons, List.mem_cons, not_or] at hroles
  exact renumbered_other hroles.1.2.1 hroles.1.2.2.1 hroles.1.2.2.2

include hk in
theorem inScope_renumbered (lft rght depth : Nat) (row : TableRow) :
    inScope t (renumbered t lft rght depth row) = inScope t row := by
  simp only [inScope, meets, TreeManager.applyScope, List.nil_append, List.all_map]
  rw [Bool.eq_iff_iff, List.all_eq_true, List.all_eq_true]
  have hcolumn : ∀ entry ∈ t.scope, renumbered t lft rght depth row entry.1 = row entry.1 := by
    intro entry hentry
    have hscope := hk.scope entry hentry
    simp only [List.mem_cons, not_or] at hscope
    exact renumbered_other hscope.1 hscope.2.1 hscope.2.2
  constructor
  · intro h entry hentry
    have := h entry hentry
    simpa [Conjunct.holds, hcolumn entry hentry] using this
  · intro h entry hentry
    have := h entry hentry
    simpa [Conjunct.holds, hcolumn entry hentry] using this

theorem assigned_eq_renumbered (item : RecoverUpdate) (row : TableRow) :
    assigned t.engine
      ([.assign t.mapping.left (.int64 (Int64.ofNat item.lft)),
        .assign t.mapping.right (.int64 (Int64.ofNat item.rght))] ++
        (t.mapping.depth.map fun depth =>
          SetTerm.assign depth (.int64 (Int64.ofNat item.depth))).toList) row =
      renumbered t item.lft item.rght item.depth row := by
  funext column
  simp only [assigned, renumbered, List.cons_append, List.nil_append, List.find?_cons,
    SetTerm.column]
  by_cases hleft : column = t.mapping.left
  · simp [hleft, SetTerm.value]
  · rw [if_neg hleft, beq_false_of_ne (Ne.symm hleft)]
    dsimp only
    by_cases hright : column = t.mapping.right
    · simp [hright, SetTerm.value]
    · rw [if_neg hright, beq_false_of_ne (Ne.symm hright)]
      dsimp only
      cases hdepth : t.mapping.depth with
      | none => simp
      | some depth =>
        by_cases heq : column = depth
        · simp [heq, SetTerm.value]
        · simp [heq, beq_false_of_ne (Ne.symm heq)]

theorem applyUpdate_of_match {item : RecoverUpdate} {row : TableRow} (hin : inScope t row = true)
    (hmatch : t.engine.compare .eq (row t.mapping.pk) item.pk = true) :
    applyUpdate t row item = renumbered t item.lft item.rght item.depth row := by
  have hmeets : meets t.engine (t.applyScope [.compare t.mapping.pk .eq item.pk]) row = true := by
    rw [meets_applyScope, hin]
    simp [meets, Conjunct.holds, hmatch]
  rw [← assigned_eq_renumbered]
  exact if_pos hmeets

theorem applyUpdate_of_not_match {item : RecoverUpdate} {row : TableRow}
    (hmatch : t.engine.compare .eq (row t.mapping.pk) item.pk = false) :
    applyUpdate t row item = row := by
  have hmeets : ¬ meets t.engine (t.applyScope [.compare t.mapping.pk .eq item.pk]) row = true := by
    rw [meets_applyScope]
    simp [meets, Conjunct.holds, hmatch]
  exact if_neg hmeets

theorem foldl_applyUpdate_outside {updates : List RecoverUpdate} {row : TableRow}
    (hout : inScope t row = false) : updates.foldl (applyUpdate t) row = row := by
  induction updates with
  | nil => rfl
  | cons item updates ih =>
    rw [List.foldl_cons, show applyUpdate t row item = row from updated_of_not_inScope hout, ih]

theorem foldl_applyUpdate_none {updates : List RecoverUpdate} {row : TableRow}
    (h : ∀ item ∈ updates, t.engine.compare .eq (row t.mapping.pk) item.pk = false) :
    updates.foldl (applyUpdate t) row = row := by
  induction updates with
  | nil => rfl
  | cons item updates ih =>
    rw [List.forall_mem_cons] at h
    rw [List.foldl_cons, applyUpdate_of_not_match h.1, ih h.2]

include hk in
/-- Of the updates, one is about the row. -/
theorem foldl_applyUpdate {updates : List RecoverUpdate} {row : TableRow} {item : RecoverUpdate}
    (hnodup : updates.Nodup) (hin : inScope t row = true) (hmem : item ∈ updates)
    (hmatch : t.engine.compare .eq (row t.mapping.pk) item.pk = true)
    (hothers : ∀ other ∈ updates, other ≠ item →
      t.engine.compare .eq (row t.mapping.pk) other.pk = false) :
    updates.foldl (applyUpdate t) row = renumbered t item.lft item.rght item.depth row := by
  induction updates with
  | nil => cases hmem
  | cons first updates ih =>
    obtain ⟨hfirst, hnodup⟩ := List.nodup_cons.mp hnodup
    obtain ⟨hfirstother, hothers⟩ := List.forall_mem_cons.mp hothers
    rw [List.foldl_cons]
    by_cases heq : first = item
    · subst heq
      rw [applyUpdate_of_match hin hmatch]
      apply foldl_applyUpdate_none
      intro other hother
      rw [renumbered_pk hk]
      exact hothers other hother fun h => hfirst (h ▸ hother)
    · rw [applyUpdate_of_not_match (hfirstother heq)]
      exact ih hnodup ((List.mem_cons.mp hmem).resolve_left (Ne.symm heq)) hothers

end Writing

/-! ## The forest of the parent links -/

section Links

variable {t} {live : List TableRow} (hk : KeyedRows t live)

include hk in
theorem compare_of_ne {row row' : TableRow} (h : row ∈ live) (h' : row' ∈ live) (hne : row ≠ row') :
    t.engine.compare .eq (row t.mapping.pk) (row' t.mapping.pk) = false := by
  have : Std.Symm fun row row' : TableRow =>
      t.engine.compare .eq (row t.mapping.pk) (row' t.mapping.pk) = false :=
    ⟨fun _ _ h => (t.engine.compare_eq_comm _ _).trans h⟩
  exact hk.distinct.forall h h' hne

include hk in
theorem row_eq_of_pk {row row' : TableRow} (h : row ∈ live) (h' : row' ∈ live)
    (heq : row t.mapping.pk = row' t.mapping.pk) : row = row' := by
  by_contra hne
  have hself := t.engine.compare_eq_self _ (hk.keyed row h)
  have hfalse := compare_of_ne hk h h' hne
  rw [← heq, hself] at hfalse
  cases hfalse

include hk in
theorem row_eq_of_nodeOf {row row' : TableRow} (h : row ∈ live) (h' : row' ∈ live)
    (heq : nodeOf t row = nodeOf t row') : row = row' :=
  row_eq_of_pk hk h h' (by simpa using congrArg RecoverNode.pk heq)

include hk in
theorem nodup_live : live.Nodup := by
  apply hk.distinct.imp_of_mem
  rintro row row' hrow - hfalse rfl
  rw [t.engine.compare_eq_self _ (hk.keyed row hrow)] at hfalse
  cases hfalse

include hk in
theorem depth_unique {row : TableRow} {d d' : Nat} (h : Depth t live row d)
    (h' : Depth t live row d') : d = d' := by
  induction h generalizing d' with
  | root hmem hroot =>
    cases h' with
    | root => rfl
    | child _ hlink => exact absurd (hlink.2.2.symm.trans hroot) (hk.keyed _ hlink.1)
  | child hparent hlink ih =>
    cases h' with
    | root hmem hroot => exact absurd (hlink.2.2.symm.trans hroot) (hk.keyed _ hlink.1)
    | child hparent' hlink' =>
      obtain rfl := row_eq_of_pk hk hlink.1 hlink'.1 (hlink.2.2.symm.trans hlink'.2.2)
      rw [ih hparent']

include hk in
theorem valueKey_ne_null {row : TableRow} (h : row ∈ live) :
    valueKey (row t.mapping.pk) ≠ valueKey .null :=
  fun heq => hk.keyed row h (valueKey_eq_null.mp heq)

variable (hrooted : ∀ row ∈ live, ∃ depth, Depth t live row depth) (hapart : ApartKeys t live)

include hk hrooted hapart in
/-- Where keys are apart, their texts link no other rows than they do. -/
theorem parent_of_key {parent row : TableRow} (hp : parent ∈ live) (hrow : row ∈ live)
    (hkey : valueKey (row t.mapping.parent) = valueKey (parent t.mapping.pk)) :
    row t.mapping.parent = parent t.mapping.pk := by
  obtain ⟨depth, hdepth⟩ := hrooted row hrow
  cases hdepth with
  | root _ hroot =>
    rw [hroot] at hkey
    exact absurd hkey.symm (valueKey_ne_null hk hp)
  | @child parent' _ _ _ hlink =>
    by_contra hne
    have hkeys : valueKey (parent' t.mapping.pk) = valueKey (parent t.mapping.pk) := by
      rw [← hlink.2.2, hkey]
    have hdiff : parent' ≠ parent := fun h => hne (h ▸ hlink.2.2)
    exact hapart parent' hlink.1 parent hp hkeys hdiff row hrow hlink.2.2

end Links

section Forest

variable {t} {rows : List TableRow} {less : RecoverNode → RecoverNode → Bool}
  {sort : StdSort less}

/-- The nodes that `recover` works on. -/
def readNodes (t : TreeManager) (rows : List TableRow) : List RecoverNode :=
  (readRows t rows).map (nodeOf t)

theorem mem_readNodes {node : RecoverNode} :
    node ∈ readNodes t rows ↔ ∃ row ∈ scopeRows t rows, nodeOf t row = node := by
  simp only [readNodes, List.mem_map, mem_readRows]

theorem mem_children {parent : Value} {row : TableRow} (hrow : row ∈ scopeRows t rows) :
    nodeOf t row ∈ childrenUnder sort (readNodes t rows) (valueKey parent) ↔
      valueKey (row t.mapping.parent) = valueKey parent := by
  rw [mem_childrenUnder, nodeOf_parentId]
  exact ⟨fun h => h.2, fun h => ⟨mem_readNodes.mpr ⟨row, hrow, rfl⟩, h⟩⟩

theorem mem_kids {parent row : TableRow} (hrow : row ∈ scopeRows t rows) :
    nodeOf t row ∈ kids sort (readNodes t rows) (nodeOf t parent) ↔
      valueKey (row t.mapping.parent) = valueKey (parent t.mapping.pk) := by
  rw [kids, nodeOf_pk]
  exact mem_children hrow

variable (hk : KeyedRows t (scopeRows t rows)) {f : Forest RecoverNode}
  (hf : Forest.Grown (kids sort (readNodes t rows))
    (childrenUnder sort (readNodes t rows) (valueKey .null)) f)

include hf in
/-- A row whose parent chain ends is numbered. -/
theorem mem_nodes_of_depth {row : TableRow} {depth : Nat}
    (h : Depth t (scopeRows t rows) row depth) : nodeOf t row ∈ f.nodes := by
  induction h with
  | root hmem hroot =>
    apply Forest.roots_subset_nodes
    rw [hf.roots_eq, mem_children hmem, hroot]
  | child _ hlink ih =>
    apply (hf.child_of_mem ih _).mem_right
    rw [mem_kids hlink.2.1, hlink.2.2]

include hf in
/-- Only rows of the scope are numbered. -/
theorem row_of_mem_nodes {node : RecoverNode} (h : node ∈ f.nodes) :
    ∃ row ∈ scopeRows t rows, nodeOf t row = node := by
  obtain ⟨root, hroot, hreach⟩ := hf.mem_nodes_iff.mp h
  apply mem_readNodes.mp
  obtain rfl | ⟨parent, -, hkid⟩ := ReflTransGen.cases_tail hreach
  · exact (mem_childrenUnder.mp hroot).1
  · exact (mem_childrenUnder.mp hkid).1

include hk in
theorem nodup_readNodes : (readNodes t rows).Nodup := by
  apply List.Nodup.map_on
  · intro row hrow row' hrow' heq
    exact row_eq_of_nodeOf hk (mem_readRows.mp hrow) (mem_readRows.mp hrow') heq
  · exact (t.engine.orderBy_perm _ _ _).nodup_iff.mpr (nodup_live hk)

theorem nodup_childrenUnder {nodes : List RecoverNode} (h : nodes.Nodup) (key : List UInt8) :
    (childrenUnder sort nodes key).Nodup :=
  (sort.perm _).nodup_iff.mpr (h.filter _)

variable (hrooted : ∀ row ∈ scopeRows t rows, ∃ depth, Depth t (scopeRows t rows) row depth)
  (hapart : ApartKeys t (scopeRows t rows))

include hk hrooted in
/-- The number of ancestors, as a function of the node. -/
theorem exists_rank : ∃ rank : RecoverNode → Nat, ∀ row ∈ scopeRows t rows,
    Depth t (scopeRows t rows) row (rank (nodeOf t row)) := by
  have hdepth : ∀ node : RecoverNode, ∃ depth, ∀ row ∈ scopeRows t rows, nodeOf t row = node →
      Depth t (scopeRows t rows) row depth := by
    intro node
    by_cases hnode : ∃ row ∈ scopeRows t rows, nodeOf t row = node
    · obtain ⟨row, hrow, rfl⟩ := hnode
      obtain ⟨depth, hdepth⟩ := hrooted row hrow
      refine ⟨depth, fun row' hrow' heq => ?_⟩
      rw [row_eq_of_nodeOf hk hrow' hrow heq]
      exact hdepth
    · exact ⟨0, fun row hrow heq => absurd ⟨row, hrow, heq⟩ hnode⟩
  choose rank hrank using hdepth
  exact ⟨rank, fun row hrow => hrank _ row hrow rfl⟩

include hk hf hrooted hapart in
/-- Every row is numbered once. -/
theorem nodup_nodes_of_rooted : f.nodes.Nodup := by
  obtain ⟨rank, hrank⟩ := exists_rank hk hrooted
  have hnodup := nodup_readNodes hk
  -- a child of a row, by the key, is a row that names it as its parent
  have hkid : ∀ row ∈ scopeRows t rows, ∀ node ∈ kids sort (readNodes t rows) (nodeOf t row),
      ∃ child, nodeOf t child = node ∧ ParentOf t (scopeRows t rows) row child := by
    intro row hrow node hnode
    obtain ⟨child, hchild, rfl⟩ := mem_readNodes.mp (mem_childrenUnder.mp hnode).1
    exact ⟨child, rfl, hrow, hchild,
      parent_of_key hk hrooted hapart hrow hchild ((mem_kids hchild).mp hnode)⟩
  have hclosed : ∀ node, (∃ row ∈ scopeRows t rows, nodeOf t row = node) →
      ∀ child ∈ kids sort (readNodes t rows) node, ∃ row ∈ scopeRows t rows, nodeOf t row = child :=
    fun node _ child hchild => mem_readNodes.mp (mem_childrenUnder.mp hchild).1
  have hdeeper : ∀ node, (∃ row ∈ scopeRows t rows, nodeOf t row = node) →
      ∀ child ∈ kids sort (readNodes t rows) node, rank child = rank node + 1 := by
    rintro _ ⟨row, hrow, rfl⟩ node hnode
    obtain ⟨child, rfl, hlink⟩ := hkid row hrow node hnode
    exact depth_unique hk (hrank child hlink.2.1) (.child (hrank row hrow) hlink)
  apply Forest.Grown.nodup_nodes hclosed hdeeper hf
  · rintro _ _ node ⟨row, hrow, rfl⟩ ⟨row', hrow', rfl⟩ hnode hnode'
    obtain ⟨child, rfl, hlink⟩ := hkid row hrow node hnode
    obtain ⟨child', heq, hlink'⟩ := hkid row' hrow' _ hnode'
    obtain rfl := row_eq_of_nodeOf hk hlink'.2.1 hlink.2.1 heq
    rw [row_eq_of_pk hk hrow hrow' (hlink.2.2.symm.trans hlink'.2.2)]
  · exact fun node _ => nodup_childrenUnder hnodup _
  · exact fun node hnode => mem_readNodes.mp (mem_childrenUnder.mp hnode).1
  · intro node hnode
    obtain ⟨row, hrow, rfl⟩ := mem_readNodes.mp (mem_childrenUnder.mp hnode).1
    have hnull := valueKey_eq_null.mp ((mem_children hrow).mp hnode)
    exact depth_unique hk (hrank row hrow) (.root hrow hnull)
  · exact nodup_childrenUnder hnodup _

end Forest

end MetalOrm.Native.Tree
