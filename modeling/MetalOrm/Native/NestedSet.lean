import MetalOrm.Native.ValueKey
import MetalOrm.Native.Entity
import MetalOrm.ForStd.StdSort

/-!
# Nested sets

`NestedSetStrategy` of `metal/tree.hpp`: what is computed from the boundaries of a tree without a
database. `std::sort` is a parameter.
-/

namespace MetalOrm.Native.Tree

open ForStd (StdSort)

/-- `NestedSetBounds`. -/
structure NestedSetBounds where
  lft : Int64
  rght : Int64
deriving DecidableEq

/-- `NestedSetStrategy::child_count`. -/
def childCount (lft rght : Int64) : Int64 := (rght - lft - 1) / 2

/-- `NestedSetStrategy::is_leaf`. -/
def isLeaf (lft rght : Int64) : Bool := rght - lft == 1

/-- `NestedSetStrategy::is_root`. -/
def isRoot (parentId : Value) : Bool := parentId == .null

/-- `NestedSetStrategy::is_descendant_of`. -/
def isDescendantOf (a b : NestedSetBounds) : Bool := a.lft > b.lft && a.rght < b.rght

/-- `NestedSetStrategy::subtree_width`. -/
def subtreeWidth (lft rght : Int64) : Int64 := rght - lft + 1

/-- `NestedSetStrategy::insert_as_last_child`. -/
def insertAsLastChild (parentRght : Int64) : Int64 × Int64 := (parentRght, parentRght + 1)

/-- `NestedSetStrategy::insert_as_root`. -/
def insertAsRoot (maxRght : Int64) : Int64 × Int64 := (maxRght + 1, maxRght + 2)

/-! ## Rebuilding -/

/-- `RecoverNode`. -/
structure RecoverNode where
  pk : Value
  lft : Int64
  rght : Int64
  parentId : Value
  depth : Option Int64
deriving DecidableEq

/-- `RecoverUpdate`. The counters start at one and are never decremented. -/
structure RecoverUpdate where
  pk : Value
  lft : Nat
  rght : Nat
  depth : Nat
deriving DecidableEq

/-- The comparison of siblings that is used when none is given. -/
def lessByPk (a b : RecoverNode) : Bool :=
  match a.pk, b.pk with
  | .int64 ai, .int64 bi => ai < bi
  | _, _ => decide (valueKey a.pk < valueKey b.pk)

/-- What `children` holds under a key once the siblings are sorted. -/
def childrenUnder {less : RecoverNode → RecoverNode → Bool} (sort : StdSort less)
    (nodes : List RecoverNode) (key : List UInt8) : List RecoverNode :=
  sort.run (nodes.filter fun node => valueKey node.parentId == key)

/-- `traverse`: the counter behind the last child, and the updates. `none` means that the
    recursion got deeper than `fuel` calls. -/
def traverse (children : List UInt8 → List RecoverNode) :
    Nat → Value → Nat → Nat → Option (Nat × List RecoverUpdate)
  | 0, _, _, _ => none
  | fuel + 1, parent, left, depth =>
    (children (valueKey parent)).foldlM (fun state child => do
      let below ← traverse children fuel child.pk (state.1 + 1) (depth + 1)
      return (below.1 + 1, state.2 ++ below.2 ++ [⟨child.pk, state.1, below.1, depth⟩]))
      (left, [])

/-- `NestedSetStrategy::recover`. -/
def recover {less : RecoverNode → RecoverNode → Bool} (sort : StdSort less) (fuel : Nat)
    (nodes : List RecoverNode) : Option (List RecoverUpdate) :=
  (traverse (childrenUnder sort nodes) fuel .null 1 0).map Prod.snd

/-! ## Threading -/

/-- `ThreadedTreeNode`. -/
inductive ThreadedTreeNode where
  | mk (node : Row) (children : List ThreadedTreeNode)

/-- `as_i64` of `to_threaded`. -/
def boundaryOf (row : Row) (key : Name) : Except Exn Int64 :=
  match row.lookup key with
  | some value => fromInt64 value
  | none => .error (.ofText "MetalORM: threaded tree row is missing a boundary column")

/-- The loops of `to_threaded` and `parse_one`: the nodes that start before `limit`, and the rows
    behind them. Every round takes a row, so a fuel above the number of rows is not used up. -/
def parseThreaded (leftKey rightKey : Name) :
    Nat → Option Int64 → List Row → Except Exn (List ThreadedTreeNode × List Row)
  | 0, _, rows => .ok ([], rows)
  | _ + 1, _, [] => .ok ([], [])
  | fuel + 1, limit, row :: rows => do
    if let some limit := limit then
      let left ← boundaryOf row leftKey
      if left ≥ limit then return ([], row :: rows)
    let boundary ← boundaryOf row rightKey
    let (children, rest) ← parseThreaded leftKey rightKey fuel (some boundary) rows
    let (siblings, rest) ← parseThreaded leftKey rightKey fuel limit rest
    return (.mk row children :: siblings, rest)

/-- `NestedSetStrategy::to_threaded`. -/
def toThreaded (rows : List Row) (leftKey rightKey : Name) :
    Except Exn (List ThreadedTreeNode) :=
  (parseThreaded leftKey rightKey (rows.length + 1) none rows).map Prod.fst

/-! ## Validating -/

/-- `Item` of `validate_tree`. -/
structure Item where
  pk : Value
  lft : Int64
  rght : Int64
deriving DecidableEq

/-- The boundaries of an item. -/
def Item.bounds (item : Item) : NestedSetBounds := ⟨item.lft, item.rght⟩

/-- The comparison that `validate_tree` sorts by. -/
def Item.before (a b : Item) : Bool := a.lft < b.lft

/-- The item of a row. -/
def itemOf (pkKey leftKey rightKey : Name) (row : Row) : Except Exn Item :=
  match row.lookup pkKey, row.lookup leftKey, row.lookup rightKey with
  | some pk, some l, some r => do return ⟨pk, ← fromInt64 l, ← fromInt64 r⟩
  | _, _, _ => .error (.ofText "MetalORM: tree validation row is missing required columns")

/-- The errors of a node by itself. -/
def nodeErrors (node : Item) : List (List UInt8) :=
  (if node.lft ≥ node.rght then
    [ByteString.ascii "Node " ++ valueKey node.pk ++
      ByteString.ascii ": lft must be less than rght"] else []) ++
  (if node.lft < 1 then
    [ByteString.ascii "Node " ++ valueKey node.pk ++ ByteString.ascii ": lft must be positive"]
    else [])

/-- `other` starts inside `node` and ends behind it. -/
def overlaps (node other : Item) : Bool := other.lft < node.rght && other.rght > node.rght

/-- The errors of a node against the nodes behind it. -/
def overlapErrors (node : Item) (others : List Item) : List (List UInt8) :=
  (others.filter (overlaps node)).map fun other =>
    ByteString.ascii "Node " ++ valueKey node.pk ++ ByteString.ascii " overlaps with node " ++
      valueKey other.pk

/-- The loop over the sorted items. -/
def validateItems : List Item → List (List UInt8)
  | [] => []
  | node :: others => nodeErrors node ++ overlapErrors node others ++ validateItems others

/-- `NestedSetStrategy::validate_tree`. -/
def validateTree (sort : StdSort Item.before) (rows : List Row) (pkKey leftKey rightKey : Name) :
    Except Exn (List (List UInt8)) := do
  let items ← rows.mapM (itemOf pkKey leftKey rightKey)
  return validateItems (sort.run items)

end MetalOrm.Native.Tree
