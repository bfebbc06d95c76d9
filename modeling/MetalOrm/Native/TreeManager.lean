import MetalOrm.Native.NestedSet
import MetalOrm.Native.QueryCore
import MetalOrm.ForStd.Client

/-!
# Trees in a table

`TreeQuery` and `TreeManager` of `metal/tree.hpp`: the statements a tree operation sends to the
database, and what it does with their results.

A statement is kept as syntax. What it does to the rows of the table is `Statement.run`, where an
`Engine` stands for the arithmetic and the comparisons of the server, the order of what it returns
and the rows it makes for an `INSERT`. An operation is the code that sends the statements; running
it against `TreeManager.serve` lets the table go through their effects in order.
-/

namespace MetalOrm.Native.Tree

open ForStd (Client StdSort)
open Query (CompareOp)

/-! ## Mappings -/

/-- What reflection knows about a tree entity, as `validate_tree_mapping` accepts it. -/
structure TreeMapping where
  table : Name
  columns : List Name
  nodup : columns.Nodup
  pk : Name
  parent : Name
  left : Name
  right : Name
  depth : Option Name
  pk_mem : pk ∈ columns
  parent_mem : parent ∈ columns
  left_mem : left ∈ columns
  right_mem : right ∈ columns
  depth_mem : ∀ d ∈ depth, d ∈ columns

/-- A row of the table in the database. -/
abbrev TableRow := Name → Value

/-- The row that a `SELECT` of the mapped columns returns. -/
def TreeMapping.resultRow (m : TreeMapping) (row : TableRow) : Row where
  entries := m.columns.map fun column => ⟨column, row column⟩
  nodupKeys := by
    rw [List.NodupKeys, List.keys, List.map_map]
    exact (List.map_id _).symm ▸ m.nodup

theorem TreeMapping.lookup_resultRow (m : TreeMapping) (row : TableRow) {column : Name}
    (h : column ∈ m.columns) : (m.resultRow row).lookup column = some (row column) := by
  apply AList.mem_lookup_iff.mpr
  exact List.mem_map_of_mem h

/-! ## Statements -/

/-- A condition of a `WHERE` clause, joined to the others with `AND`. -/
inductive Conjunct where
  | compare (column : Name) (op : CompareOp) (value : Value)
  | isNull (column : Name)
  | difference (minuend subtrahend : Name) (value : Value)
deriving DecidableEq

/-- An assignment of an `UPDATE`. -/
inductive SetTerm where
  | assign (column : Name) (value : Value)
  | plus (column : Name) (value : Value)
  | minus (column : Name) (value : Value)
  | decrement (column : Name)
deriving DecidableEq

/-- The column that is assigned. -/
def SetTerm.column : SetTerm → Name
  | assign column _ | plus column _ | minus column _ | decrement column => column

/-- The statements of a tree. `select` has the direction of its order by the left boundary. -/
inductive Statement where
  | select (conditions : List Conjunct) (ascending : Option Bool)
  | maxRight (conditions : List Conjunct)
  | update (sets : List SetTerm) (conditions : List Conjunct)
  | delete (conditions : List Conjunct)
  | insert (assignments : List (Name × Value))
deriving DecidableEq

/-- The database server, as far as the statements of a tree depend on it. -/
structure Engine where
  /-- Whether a comparison is true. -/
  compare : CompareOp → Value → Value → Bool
  add : Value → Value → Value
  sub : Value → Value → Value
  max : List Value → Value
  /-- `ORDER BY` a column. -/
  orderBy : Bool → Name → List TableRow → List TableRow
  /-- The row of an `INSERT`, with defaults and a generated key, or why there is none. -/
  newRow : List TableRow → List (Name × Value) → Except Exn TableRow
  compare_null : ∀ op value, compare op .null value = false
  compare_eq_self : ∀ value, value ≠ .null → compare .eq value value = true
  compare_eq_comm : ∀ a b, compare .eq a b = compare .eq b a
  compare_int64 : ∀ op (a b : Int64), compare op (.int64 a) (.int64 b) =
    match op with
    | .eq => decide (a = b)
    | .ne => decide (a ≠ b)
    | .gt => decide (a > b)
    | .ge => decide (a ≥ b)
    | .lt => decide (a < b)
    | .le => decide (a ≤ b)
  add_int64 : ∀ a b c : Int64, a.toInt + b.toInt = c.toInt →
    add (.int64 a) (.int64 b) = .int64 c
  sub_int64 : ∀ a b c : Int64, a.toInt - b.toInt = c.toInt →
    sub (.int64 a) (.int64 b) = .int64 c
  max_nil : max [] = .null
  max_int64 : ∀ values : List Int64, ∀ v ∈ values, (∀ w ∈ values, w ≤ v) →
    max (values.map .int64) = .int64 v
  orderBy_perm : ∀ ascending column rows, (orderBy ascending column rows).Perm rows
  orderBy_sorted : ∀ ascending column rows,
    (orderBy ascending column rows).Pairwise fun r r' => ∀ v v' : Int64,
      r column = .int64 v → r' column = .int64 v' → if ascending then v ≤ v' else v' ≤ v
  newRow_assigned : ∀ rows assignments row, newRow rows assignments = .ok row →
    ∀ column value, assignments.lookup column = some value → row column = value

variable (e : Engine)

/-- Whether a row meets a condition. -/
def Conjunct.holds (row : TableRow) : Conjunct → Bool
  | compare column op value => e.compare op (row column) value
  | isNull column => row column == .null
  | difference minuend subtrahend value =>
    e.compare .eq (e.sub (row minuend) (row subtrahend)) value

/-- Whether a row meets a `WHERE` clause. -/
def meets (conditions : List Conjunct) (row : TableRow) : Bool :=
  conditions.all (Conjunct.holds e row)

/-- The value that a row is assigned, computed from the row as it was. -/
def SetTerm.value (row : TableRow) : SetTerm → Value
  | assign _ value => value
  | plus column value => e.add (row column) value
  | minus column value => e.sub (row column) value
  | decrement column => e.sub (row column) (.int64 1)

/-- A row after the assignments of an `UPDATE`. -/
def assigned (sets : List SetTerm) (row : TableRow) : TableRow := fun column =>
  match sets.find? fun term => term.column == column with
  | some term => term.value e row
  | none => row column

/-- What a statement returns and leaves in the table. -/
def Statement.run (m : TreeMapping) (rows : List TableRow) :
    Statement → Except Exn (QueryResult × List TableRow)
  | select conditions ascending =>
    let found := rows.filter (meets e conditions)
    let found := match ascending with
      | some ascending => e.orderBy ascending m.left found
      | none => found
    .ok ({ rows := found.map m.resultRow }, rows)
  | maxRight conditions =>
    let value := e.max ((rows.filter (meets e conditions)).map fun row => row m.right)
    .ok ({ rows := [(∅ : Row).insert (.ofAscii "max_rght") value] }, rows)
  | update sets conditions =>
    .ok ({ rows := [] }, rows.map fun row =>
      if meets e conditions row then assigned e sets row else row)
  | delete conditions => .ok ({ rows := [] }, rows.filter fun row => !meets e conditions row)
  | insert assignments => do
    let row ← e.newRow rows assignments
    return ({ rows := [(∅ : Row).insert m.pk (row m.pk)] }, rows ++ [row])

/-! ## Results -/

/-- `require_value`. -/
def requireValue (row : Row) (column : Name) : Except Exn Value :=
  match row.lookup column with
  | some value => .ok value
  | none => .error ⟨ByteString.ascii "MetalORM: tree row is missing required column '" ++
      column.bytes ++ ByteString.ascii "'"⟩

/-- `TreeNodeResult`. -/
structure TreeNodeResult where
  data : Row
  lft : Int64
  rght : Int64
  parentId : Value
  depth : Option Int64
  isLeaf : Bool
  isRoot : Bool
  childCount : Int64

/-- The boundaries of a node. -/
def TreeNodeResult.bounds (node : TreeNodeResult) : NestedSetBounds := ⟨node.lft, node.rght⟩

/-- The depth of a row, where there is a column for it and it is not null. -/
def depthOf (m : TreeMapping) (row : Row) : Except Exn (Option Int64) :=
  match m.depth with
  | none => .ok none
  | some column => do
    let value ← requireValue row column
    if value = .null then return none else return some (← fromInt64 value)

/-- `make_result`. -/
def makeResult (m : TreeMapping) (row : Row) : Except Exn TreeNodeResult := do
  let lft ← fromInt64 (← requireValue row m.left)
  let rght ← fromInt64 (← requireValue row m.right)
  let parent ← requireValue row m.parent
  let depth ← depthOf m row
  return {
    data := row, lft := lft, rght := rght, parentId := parent, depth := depth
    isLeaf := isLeaf lft rght, isRoot := isRoot parent
    childCount := childCount lft rght }

/-- `RecoverResult`. -/
structure RecoverResult where
  processed : Nat
  success : Bool
  errors : List (List UInt8)
deriving DecidableEq

/-- The node of a row in `recovery_nodes`. -/
def recoveryNode (m : TreeMapping) (row : Row) : Except Exn RecoverNode := do
  let pk ← requireValue row m.pk
  let parentId ← requireValue row m.parent
  let lft ← fromInt64 (← requireValue row m.left)
  let rght ← fromInt64 (← requireValue row m.right)
  let depth ← depthOf m row
  return ⟨pk, lft, rght, parentId, depth⟩

/-! ## Sending statements -/

/-- Code that sends statements through the executor of the session. -/
abbrev TreeM := Client Exn Statement QueryResult

/-- `executor().execute`. -/
def execute (statement : Statement) : TreeM QueryResult := Client.call statement

/-- `set_assignment`, and `set_scope` on the scope of a query. -/
def setAssignment (row : List (Name × Value)) (column : Name) (value : Value) :
    List (Name × Value) :=
  match row with
  | [] => [(column, value)]
  | assignment :: row =>
    if assignment.1 = column then (column, value) :: row
    else assignment :: setAssignment row column value

theorem mem_map_fst_setAssignment {row : List (Name × Value)} {column c : Name} {value : Value} :
    c ∈ (setAssignment row column value).map Prod.fst ↔ c = column ∨ c ∈ row.map Prod.fst := by
  induction row with
  | nil => simp [setAssignment]
  | cons assignment row ih =>
    rw [setAssignment]
    split
    · rename_i heq
      simp [heq]
    · rw [List.map_cons, List.mem_cons, ih, List.map_cons, List.mem_cons]
      tauto

theorem nodup_setAssignment {row : List (Name × Value)} (h : (row.map Prod.fst).Nodup)
    (column : Name) (value : Value) : ((setAssignment row column value).map Prod.fst).Nodup := by
  induction row with
  | nil => simp [setAssignment]
  | cons assignment row ih =>
    obtain ⟨hnew, htail⟩ := List.nodup_cons.mp h
    rw [setAssignment]
    split
    · rename_i heq
      exact List.nodup_cons.mpr ⟨heq ▸ hnew, htail⟩
    · rename_i hne
      rw [List.map_cons, List.nodup_cons, mem_map_fst_setAssignment]
      exact ⟨fun hmem => hmem.elim hne hnew, ih htail⟩

/-- `TreeManager`, with the server its session is connected to. -/
structure TreeManager where
  engine : Engine
  mapping : TreeMapping
  scope : List (Name × Value)
  scope_nodup : (scope.map Prod.fst).Nodup

namespace TreeManager

/-- `with_scope`. -/
def withScope (t : TreeManager) (column : Name) (value : Value) : TreeManager :=
  { t with
    scope := setAssignment t.scope column value
    scope_nodup := nodup_setAssignment t.scope_nodup column value }

/-- The executor: what a statement returns, and the rows it leaves. A statement that fails leaves
    the rows as they are. -/
def serve (t : TreeManager) (statement : Statement) (rows : List TableRow) :
    Except Exn QueryResult × List TableRow :=
  match statement.run t.engine t.mapping rows with
  | .error error => (.error error, rows)
  | .ok (result, rows) => (.ok result, rows)

theorem serve_insert_ok {t : TreeManager} {assignments : List (Name × Value)}
    {rows : List TableRow} {row : TableRow} (h : t.engine.newRow rows assignments = .ok row) :
    t.serve (.insert assignments) rows =
      (.ok { rows := [(∅ : Row).insert t.mapping.pk (row t.mapping.pk)] }, rows ++ [row]) := by
  simp only [serve, Statement.run, h]
  rfl

theorem serve_insert_error {t : TreeManager} {assignments : List (Name × Value)}
    {rows : List TableRow} {error : Exn} (h : t.engine.newRow rows assignments = .error error) :
    t.serve (.insert assignments) rows = (.error error, rows) := by
  simp only [serve, Statement.run, h]
  rfl

/-- `apply_scope`, `append_scope` and the loops of `where_eq` over the scope. -/
def applyScope (t : TreeManager) (conditions : List Conjunct) : List Conjunct :=
  conditions ++ t.scope.map fun (column, value) => .compare column .eq value

/-! ### `TreeQuery` -/

/-- `TreeQuery::filtered`. -/
def filtered (t : TreeManager) (conditions : List Conjunct) : Statement :=
  .select (t.applyScope conditions) none

/-- `TreeQuery::ordered`. -/
def ordered (t : TreeManager) (conditions : List Conjunct) (ascending : Bool) : Statement :=
  .select (t.applyScope conditions) (some ascending)

/-- `find_ancestors`. -/
def findAncestors (t : TreeManager) (bounds : NestedSetBounds) (includeSelf : Bool)
    (ascending : Bool) : Statement :=
  t.ordered [.compare t.mapping.left (if includeSelf then .le else .lt) (.int64 bounds.lft),
    .compare t.mapping.right (if includeSelf then .ge else .gt) (.int64 bounds.rght)] ascending

/-- `find_descendants`. -/
def findDescendants (t : TreeManager) (bounds : NestedSetBounds) : Statement :=
  t.ordered [.compare t.mapping.left .gt (.int64 bounds.lft),
    .compare t.mapping.right .lt (.int64 bounds.rght)] true

/-- The condition on the parent column of `find_direct_children` and `find_siblings`. -/
def childOf (t : TreeManager) (parentId : Value) : Conjunct :=
  if parentId = .null then .isNull t.mapping.parent else .compare t.mapping.parent .eq parentId

/-- `find_direct_children`. -/
def findDirectChildren (t : TreeManager) (parentId : Value) : Statement :=
  t.ordered [t.childOf parentId] true

/-- `find_siblings`. -/
def findSiblings (t : TreeManager) (parentId : Value) (excludeId : Option Value) : Statement :=
  t.ordered (t.childOf parentId ::
    (excludeId.map fun id => Conjunct.compare t.mapping.pk .ne id).toList) true

/-- `find_roots`. -/
def findRoots (t : TreeManager) : Statement := t.ordered [.isNull t.mapping.parent] true

/-- `find_subtree`. -/
def findSubtree (t : TreeManager) (bounds : NestedSetBounds) : Statement :=
  t.ordered [.compare t.mapping.left .ge (.int64 bounds.lft),
    .compare t.mapping.right .le (.int64 bounds.rght)] true

/-- `find_tree_list`. -/
def findTreeList (t : TreeManager) : Statement := t.ordered [] true

/-- `find_leaves`. -/
def findLeaves (t : TreeManager) : Statement :=
  t.ordered [.difference t.mapping.right t.mapping.left (.int64 1)] true

/-- `find_by_id`. -/
def findById (t : TreeManager) (id : Value) : Statement :=
  t.filtered [.compare t.mapping.pk .eq id]

/-! ### Reads -/

/-- `results(execute(query))`. -/
def results (t : TreeManager) (query : Statement) : TreeM (List TreeNodeResult) := do
  let result ← execute query
  Client.lift (result.rows.mapM (makeResult t.mapping))

/-- `get_node`. -/
def getNode (t : TreeManager) (id : Value) : TreeM (Option TreeNodeResult) := do
  let result ← execute (t.findById id)
  match result.rows with
  | [] => return none
  | row :: _ => return some (← Client.lift (makeResult t.mapping row))

/-- `get_roots`. -/
def getRoots (t : TreeManager) : TreeM (List TreeNodeResult) := t.results t.findRoots

/-- `get_children`. -/
def getChildren (t : TreeManager) (parentId : Value) : TreeM (List TreeNodeResult) :=
  t.results (t.findDirectChildren parentId)

/-- `get_descendants`. -/
def getDescendants (t : TreeManager) (bounds : NestedSetBounds) : TreeM (List TreeNodeResult) :=
  t.results (t.findDescendants bounds)

/-- `get_path`. -/
def getPath (t : TreeManager) (bounds : NestedSetBounds) (includeSelf : Bool) :
    TreeM (List TreeNodeResult) :=
  t.results (t.findAncestors bounds includeSelf true)

/-- `get_siblings`. -/
def getSiblings (t : TreeManager) (node : TreeNodeResult) (includeSelf : Bool) :
    TreeM (List TreeNodeResult) := do
  if includeSelf then t.results (t.findSiblings node.parentId none)
  else
    let id ← Client.lift (requireValue node.data t.mapping.pk)
    t.results (t.findSiblings node.parentId (some id))

/-- `get_parent`. -/
def getParent (t : TreeManager) (node : TreeNodeResult) : TreeM (Option TreeNodeResult) :=
  if node.isRoot then return none else t.getNode node.parentId

/-- `get_descendants_threaded`. -/
def getDescendantsThreaded (t : TreeManager) (bounds : NestedSetBounds) :
    TreeM (List ThreadedTreeNode) := do
  let result ← execute (t.findDescendants bounds)
  Client.lift (toThreaded result.rows t.mapping.left t.mapping.right)

/-- `get_leaves`. -/
def getLeaves (t : TreeManager) : TreeM (List TreeNodeResult) := t.results t.findLeaves

/-- `get_level`. -/
def getLevel (t : TreeManager) (node : TreeNodeResult) : TreeM Int64 :=
  match node.depth with
  | some depth => return depth
  | none => do
    let path ← t.getPath node.bounds false
    return Int64.ofNat path.length

/-- `max_rght`. -/
def maxRght (t : TreeManager) : TreeM Int64 := do
  let result ← execute (.maxRight (t.applyScope []))
  match result.rows with
  | [] => return 0
  | row :: _ =>
    let value ← Client.lift (requireValue row (.ofAscii "max_rght"))
    if value = .null then return 0 else Client.lift (fromInt64 value)

/-! ### Shifting boundaries -/

/-- `shift_for_insert`. -/
def shiftForInsert (t : TreeManager) (point width : Int64) : TreeM PUnit := do
  let updateBoundary (column : Name) : Statement :=
    .update [.plus column (.int64 width)] (t.applyScope [.compare column .ge (.int64 point)])
  let _ ← execute (updateBoundary t.mapping.right)
  let _ ← execute (updateBoundary t.mapping.left)

/-- `shift_for_delete`. -/
def shiftForDelete (t : TreeManager) (deletedRght width : Int64) : TreeM PUnit := do
  let updateBoundary (column : Name) : Statement :=
    .update [.minus column (.int64 width)]
      (t.applyScope [.compare column .gt (.int64 deletedRght)])
  let _ ← execute (updateBoundary t.mapping.left)
  let _ ← execute (updateBoundary t.mapping.right)

/-- `move_range`. -/
def moveRange (t : TreeManager) (lft rght delta : Int64) : TreeM PUnit := do
  let _ ← execute (.update
    [.plus t.mapping.left (.int64 delta), .plus t.mapping.right (.int64 delta)]
    (t.applyScope [.compare t.mapping.left .ge (.int64 lft),
      .compare t.mapping.right .le (.int64 rght)]))

/-- The distance that a range is moved out of the way. -/
def temp : Int64 := 10000000

/-- `swap_adjacent`. -/
def swapAdjacent (t : TreeManager) (left right : TreeNodeResult) : TreeM Bool := do
  if left.rght ≥ right.lft then return false else
  let leftWidth := subtreeWidth left.lft left.rght
  let rightWidth := subtreeWidth right.lft right.rght
  t.moveRange right.lft right.rght temp
  t.moveRange left.lft left.rght rightWidth
  t.moveRange (right.lft + temp) (right.rght + temp) (-temp - leftWidth)
  return true

/-- `move_subtree`. -/
def moveSubtree (t : TreeManager) (node : TreeNodeResult) (targetLft : Int64)
    (newParentId : Value) (newDepth : Int64) : TreeM PUnit := do
  let width := subtreeWidth node.lft node.rght
  let level ← t.getLevel node
  let oldDepth := node.depth.getD level
  let depthDelta := newDepth - oldDepth
  let isolateDelta := -temp - node.rght
  let isolatedLft := node.lft + isolateDelta
  let isolatedRght := node.rght + isolateDelta
  t.moveRange node.lft node.rght isolateDelta
  t.shiftForDelete node.rght width
  t.shiftForInsert targetLft width
  let restoreDelta := targetLft - node.lft - isolateDelta
  let depthTerm : List SetTerm := match t.mapping.depth with
    | some depth => if depthDelta ≠ 0 then [.plus depth (.int64 depthDelta)] else []
    | none => []
  let _ ← execute (.update
    ([.plus t.mapping.left (.int64 restoreDelta), .plus t.mapping.right (.int64 restoreDelta)] ++
      depthTerm)
    (t.applyScope [.compare t.mapping.left .ge (.int64 isolatedLft),
      .compare t.mapping.right .le (.int64 isolatedRght)]))
  let id ← Client.lift (requireValue node.data t.mapping.pk)
  let _ ← execute (.update [.assign t.mapping.parent newParentId]
    (t.applyScope [.compare t.mapping.pk .eq id]))

/-! ### Mutations -/

/-- The search of `move_up` and `move_down`: the siblings around the node with a key. -/
def findSibling (m : TreeMapping) (key : List UInt8) :
    List TreeNodeResult → Except Exn (List TreeNodeResult × List TreeNodeResult)
  | [] => .ok ([], [])
  | sibling :: siblings => do
    let id ← requireValue sibling.data m.pk
    if valueKey id = key then return ([], sibling :: siblings)
    let (before, after) ← findSibling m key siblings
    return (sibling :: before, after)

/-- `move_up`. -/
def moveUp (t : TreeManager) (node : TreeNodeResult) : TreeM Bool := do
  let siblings ← t.getSiblings node true
  let id ← Client.lift (requireValue node.data t.mapping.pk)
  let around ← Client.lift (findSibling t.mapping (valueKey id) siblings)
  match around.1.getLast?, around.2 with
  | some previous, found :: _ => t.swapAdjacent previous found
  | _, _ => return false

/-- `move_down`. -/
def moveDown (t : TreeManager) (node : TreeNodeResult) : TreeM Bool := do
  let siblings ← t.getSiblings node true
  let id ← Client.lift (requireValue node.data t.mapping.pk)
  let around ← Client.lift (findSibling t.mapping (valueKey id) siblings)
  match around.2 with
  | found :: next :: _ => t.swapAdjacent found next
  | _ => return false

/-- The branches of `move_to`: the left boundary and the depth of the new place. -/
def moveTarget (t : TreeManager) (node : TreeNodeResult) (newParentId : Value) :
    TreeM (Int64 × Int64) :=
  if newParentId = .null then do
    let max ← t.maxRght
    return (max + 1, 0)
  else do
    match ← t.getNode newParentId with
    | none => throw (Exn.ofText "MetalORM: tree parent node not found")
    | some parent =>
      if isDescendantOf parent.bounds node.bounds ||
          (parent.lft == node.lft && parent.rght == node.rght) then
        throw (Exn.ofText
          "MetalORM: cannot move a tree node below itself or one of its descendants")
      else do
        let level ← t.getLevel parent
        return (parent.rght, level + 1)

/-- `move_to`. -/
def moveTo (t : TreeManager) (node : TreeNodeResult) (newParentId : Value) : TreeM PUnit := do
  let width := subtreeWidth node.lft node.rght
  let place ← t.moveTarget node newParentId
  let target := if place.1 > node.rght then place.1 - width else place.1
  t.moveSubtree node target newParentId place.2

/-- The assignments of `insert_as_child`. -/
def insertAssignments (t : TreeManager) (row : List (Name × Value)) (parentId : Value)
    (bounds : Int64 × Int64) (depth : Int64) : List (Name × Value) :=
  let row := setAssignment row t.mapping.parent parentId
  let row := setAssignment row t.mapping.left (.int64 bounds.1)
  let row := setAssignment row t.mapping.right (.int64 bounds.2)
  let row := match t.mapping.depth with
    | some column => setAssignment row column (.int64 depth)
    | none => row
  t.scope.foldl (fun row (column, value) => setAssignment row column value) row

/-- The branches of `insert_as_child`: the boundaries and the depth of the new node. -/
def insertPlace (t : TreeManager) (parentId : Value) : TreeM ((Int64 × Int64) × Int64) :=
  if parentId = .null then do
    let max ← t.maxRght
    return (insertAsRoot max, 0)
  else do
    match ← t.getNode parentId with
    | none => throw (Exn.ofText "MetalORM: tree parent node not found")
    | some parent =>
      t.shiftForInsert parent.rght 2
      let level ← t.getLevel parent
      return (insertAsLastChild parent.rght, level + 1)

/-- `insert_as_child`. -/
def insertAsChild (t : TreeManager) (parentId : Value) (row : List (Name × Value)) :
    TreeM Value := do
  let place ← t.insertPlace parentId
  let result ← execute (.insert (t.insertAssignments row parentId place.1 place.2))
  match result.rows with
  | row :: _ => Client.lift (requireValue row t.mapping.pk)
  | [] => if result.lastInsertId ≠ 0 then return .int64 result.lastInsertId else return .null

/-- The step of `remove_from_tree` that moves the strict descendants up by one. -/
def promoteDescendants (t : TreeManager) (node : TreeNodeResult) : TreeM PUnit :=
  if node.rght - node.lft > 1 then do
    let _ ← execute (.update
      ([.decrement t.mapping.left, .decrement t.mapping.right] ++
        (t.mapping.depth.map SetTerm.decrement).toList)
      (t.applyScope [.compare t.mapping.left .gt (.int64 node.lft),
        .compare t.mapping.right .lt (.int64 node.rght)]))
  else return

/-- `remove_from_tree`. -/
def removeFromTree (t : TreeManager) (node : TreeNodeResult) : TreeM PUnit := do
  let nodeId ← Client.lift (requireValue node.data t.mapping.pk)
  let originalMaxRght ← t.maxRght
  let _ ← execute (.update [.assign t.mapping.parent node.parentId]
    (t.applyScope [.compare t.mapping.parent .eq nodeId]))
  t.promoteDescendants node
  t.shiftForDelete node.rght 2
  let _ ← execute (.update
    ([.assign t.mapping.parent .null, .assign t.mapping.left (.int64 (originalMaxRght - 1)),
      .assign t.mapping.right (.int64 originalMaxRght)] ++
      (t.mapping.depth.map fun depth => SetTerm.assign depth (.int64 0)).toList)
    (t.applyScope [.compare t.mapping.pk .eq nodeId]))

/-- `delete_subtree`. -/
def deleteSubtree (t : TreeManager) (node : TreeNodeResult) : TreeM Int64 := do
  let width := subtreeWidth node.lft node.rght
  let _ ← execute (.delete (t.applyScope [.compare t.mapping.left .ge (.int64 node.lft),
    .compare t.mapping.right .le (.int64 node.rght)]))
  t.shiftForDelete node.rght width
  return width / 2

/-! ### Recovery and validation -/

/-- `recovery_nodes`. -/
def recoveryNodes (t : TreeManager) : TreeM (List RecoverNode) := do
  let result ← execute t.findTreeList
  Client.lift (result.rows.mapM (recoveryNode t.mapping))

/-- The statement for one update of `recover`. -/
def recoverStatement (t : TreeManager) (item : RecoverUpdate) : Statement :=
  .update
    ([.assign t.mapping.left (.int64 (Int64.ofNat item.lft)),
      .assign t.mapping.right (.int64 (Int64.ofNat item.rght))] ++
      (t.mapping.depth.map fun depth =>
        SetTerm.assign depth (.int64 (Int64.ofNat item.depth))).toList)
    (t.applyScope [.compare t.mapping.pk .eq item.pk])

/-- The `try` block of `recover`. A result of `none` means that the recursion got deeper than
    `fuel` calls. -/
def recoverStatements (t : TreeManager) {less : RecoverNode → RecoverNode → Bool}
    (sort : StdSort less) (fuel : Nat) : TreeM (Option RecoverResult) := do
  let nodes ← t.recoveryNodes
  match Tree.recover sort fuel nodes with
  | none => return none
  | some updates =>
    updates.forM fun item => do
      let _ ← execute (t.recoverStatement item)
    return some ⟨updates.length, true, []⟩

/-- `recover`. -/
def recover (t : TreeManager) {less : RecoverNode → RecoverNode → Bool} (sort : StdSort less)
    (fuel : Nat) : TreeM (Option RecoverResult) :=
  tryCatch (t.recoverStatements sort fuel) fun error => return some ⟨0, false, [error.what]⟩

/-- `validate`. -/
def validate (t : TreeManager) (sort : StdSort Item.before) : TreeM (List (List UInt8)) := do
  let result ← execute t.findTreeList
  Client.lift (validateTree sort result.rows t.mapping.pk t.mapping.left t.mapping.right)

end TreeManager

/-! ## Operations -/

/-- A call of a `TreeManager` that sends statements, by the type of its result. -/
inductive TreeOp : Type → Type 1 where
  | getNode (id : Value) : TreeOp (Option TreeNodeResult)
  | getRoots : TreeOp (List TreeNodeResult)
  | getChildren (parentId : Value) : TreeOp (List TreeNodeResult)
  | getDescendants (bounds : NestedSetBounds) : TreeOp (List TreeNodeResult)
  | getPath (bounds : NestedSetBounds) (includeSelf : Bool) : TreeOp (List TreeNodeResult)
  | getSiblings (node : TreeNodeResult) (includeSelf : Bool) : TreeOp (List TreeNodeResult)
  | getParent (node : TreeNodeResult) : TreeOp (Option TreeNodeResult)
  | getDescendantsThreaded (bounds : NestedSetBounds) : TreeOp (List ThreadedTreeNode)
  | getLeaves : TreeOp (List TreeNodeResult)
  | getLevel (node : TreeNodeResult) : TreeOp Int64
  | moveUp (node : TreeNodeResult) : TreeOp Bool
  | moveDown (node : TreeNodeResult) : TreeOp Bool
  | moveTo (node : TreeNodeResult) (newParentId : Value) : TreeOp PUnit
  | insertAsChild (parentId : Value) (row : List (Name × Value)) : TreeOp Value
  | removeFromTree (node : TreeNodeResult) : TreeOp PUnit
  | deleteSubtree (node : TreeNodeResult) : TreeOp Int64
  | recover (less : RecoverNode → RecoverNode → Bool) (sort : StdSort less) (fuel : Nat) :
    TreeOp (Option RecoverResult)
  | validate (sort : StdSort Item.before) : TreeOp (List (List UInt8))

/-- The code of a call. -/
def TreeOp.code (t : TreeManager) {α : Type} : TreeOp α → TreeM α
  | getNode id => t.getNode id
  | getRoots => t.getRoots
  | getChildren parentId => t.getChildren parentId
  | getDescendants bounds => t.getDescendants bounds
  | getPath bounds includeSelf => t.getPath bounds includeSelf
  | getSiblings node includeSelf => t.getSiblings node includeSelf
  | getParent node => t.getParent node
  | getDescendantsThreaded bounds => t.getDescendantsThreaded bounds
  | getLeaves => t.getLeaves
  | getLevel node => t.getLevel node
  | moveUp node => t.moveUp node
  | moveDown node => t.moveDown node
  | moveTo node newParentId => t.moveTo node newParentId
  | insertAsChild parentId row => t.insertAsChild parentId row
  | removeFromTree node => t.removeFromTree node
  | deleteSubtree node => t.deleteSubtree node
  | recover _ sort fuel => t.recover sort fuel
  | validate sort => t.validate sort

end MetalOrm.Native.Tree
