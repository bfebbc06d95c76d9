import MetalOrm.Spec.TreeScope
import MetalOrm.ForStd.Forest

/-!
# Tables that are trees

What the rows of a scope are for: they encode an ordered forest. The forest is numbered in
preorder from one, the boundaries and the depth of a row are its numbers, and its parent column
has the key of its parent.
-/

namespace MetalOrm.Native.Tree

open ForStd (Forest)

/-- The rows of the scope encode the forest. -/
structure Encodes (t : TreeManager) (rows : List TableRow) (f : Forest TableRow) : Prop where
  nodes : (rows.filter (inScope t)).Perm f.nodes
  keyed : ∀ row ∈ f.nodes, row t.mapping.pk ≠ .null
  distinct : f.nodes.Pairwise fun row row' =>
    t.engine.compare .eq (row t.mapping.pk) (row' t.mapping.pk) = false
  root : ∀ row ∈ f.roots, row t.mapping.parent = .null
  child : ∀ row row', f.Child row row' → row' t.mapping.parent = row t.mapping.pk
  numbered : ∀ entry ∈ f.number 1 0,
    entry.node t.mapping.left = .int64 (Int64.ofNat entry.lft) ∧
    entry.node t.mapping.right = .int64 (Int64.ofNat entry.rght) ∧
    ∀ depth ∈ t.mapping.depth, entry.node depth = .int64 (Int64.ofNat entry.depth)

/-- The rows of the scope are the nodes of a forest. -/
def WellFormed (t : TreeManager) (rows : List TableRow) : Prop := ∃ f, Encodes t rows f

/-- What a failing operation must not change of a row. -/
def treeColumns (m : TreeMapping) (row : TableRow) : List Value :=
  row m.parent :: row m.left :: row m.right :: (m.depth.map row).toList

end MetalOrm.Native.Tree
