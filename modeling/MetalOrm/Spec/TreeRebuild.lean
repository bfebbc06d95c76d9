import MetalOrm.Native.NestedSet
import MetalOrm.ForStd.Forest
import Mathlib.Data.List.Perm.Subperm

/-!
# What rebuilding numbers

The recursion of `recover` follows a map from keys to siblings. When it returns, it has numbered
the forest that grows from the rows without a parent; it returns unless some row there is, by its
key, a descendant of itself.

## Key results

- `traverse_numbers`: the updates are the numbering of a forest
- `traverse_eq_none`: with a loop on its way, the recursion has no end
- `traverse_isSome`: without one, it is no deeper than there are rows
-/

open Relation (ReflTransGen TransGen)

namespace MetalOrm.Native.Tree

open ForStd (StdSort Forest)

variable {less : RecoverNode → RecoverNode → Bool} (sort : StdSort less)
  (nodes : List RecoverNode)

/-- The update of a numbered node. -/
def updateOf (entry : Forest.Entry RecoverNode) : RecoverUpdate :=
  ⟨entry.node.pk, entry.lft, entry.rght, entry.depth⟩

/-- The siblings that the recursion visits below a node. -/
def kids (node : RecoverNode) : List RecoverNode := childrenUnder sort nodes (valueKey node.pk)

theorem mem_childrenUnder {sort : StdSort less} {nodes : List RecoverNode} {key : List UInt8}
    {node : RecoverNode} :
    node ∈ childrenUnder sort nodes key ↔ node ∈ nodes ∧ valueKey node.parentId = key := by
  simp [childrenUnder]

/-- The step of the loop over siblings. -/
def visit (children : List UInt8 → List RecoverNode) (fuel depth : Nat)
    (state : Nat × List RecoverUpdate) (child : RecoverNode) :
    Option (Nat × List RecoverUpdate) := do
  let below ← traverse children fuel child.pk (state.1 + 1) (depth + 1)
  return (below.1 + 1, state.2 ++ below.2 ++ [⟨child.pk, state.1, below.1, depth⟩])

theorem traverse_succ (children : List UInt8 → List RecoverNode) (fuel : Nat) (parent : Value)
    (left depth : Nat) : traverse children (fuel + 1) parent left depth =
      (children (valueKey parent)).foldlM (visit children fuel depth) (left, []) := rfl

/-! ## The numbering -/

/-- One visit numbers a node and what is below it. -/
theorem visit_eq_some {children : List UInt8 → List RecoverNode} {fuel depth : Nat}
    {state next : Nat × List RecoverUpdate} {child : RecoverNode}
    (h : visit children fuel depth state child = some next) :
    ∃ below, traverse children fuel child.pk (state.1 + 1) (depth + 1) = some below ∧
      next = (below.1 + 1, state.2 ++ below.2 ++ [⟨child.pk, state.1, below.1, depth⟩]) := by
  obtain ⟨below, hbelow, hnext⟩ := Option.bind_eq_some_iff.mp h
  exact ⟨below, hbelow, (Option.some.inj hnext).symm⟩

/-- The recursion, where it returns, numbers the forest that grows below a key. -/
theorem traverse_numbers {fuel : Nat} {parent : Value} {left depth right : Nat}
    {updates : List RecoverUpdate}
    (h : traverse (childrenUnder sort nodes) fuel parent left depth = some (right, updates)) :
    ∃ f, Forest.Grown (kids sort nodes) (childrenUnder sort nodes (valueKey parent)) f ∧
      right = left + 2 * f.size ∧ updates.Perm ((f.number left depth).map updateOf) := by
  induction fuel generalizing parent left depth right updates with
  | zero => cases h
  | succ fuel ih =>
    rw [traverse_succ] at h
    -- the loop over the siblings, from any state
    have hloop : ∀ (siblings : List RecoverNode) (state : Nat × List RecoverUpdate),
        siblings.foldlM (visit (childrenUnder sort nodes) fuel depth) state =
          some (right, updates) →
        ∃ f, Forest.Grown (kids sort nodes) siblings f ∧ right = state.1 + 2 * f.size ∧
          updates.Perm (state.2 ++ (f.number state.1 depth).map updateOf) := by
      intro siblings
      induction siblings with
      | nil =>
        intro state h
        obtain rfl : state = (right, updates) := Option.some.inj h
        exact ⟨.nil, .nil, rfl, by simp [Forest.number]⟩
      | cons child siblings ihs =>
        intro state h
        rw [List.foldlM_cons] at h
        obtain ⟨next, hvisit, hrest⟩ := Option.bind_eq_some_iff.mp h
        obtain ⟨below, hbelow, rfl⟩ := visit_eq_some hvisit
        obtain ⟨c, hc, hright, hcperm⟩ := ih hbelow
        obtain ⟨s, hs, hsright, hsperm⟩ := ihs _ hrest
        have hstart : below.1 + 1 = state.1 + 2 * c.size + 2 := by omega
        refine ⟨.cons child c s, .cons hc hs, ?_, ?_⟩
        · dsimp only at hsright
          rw [Forest.size]
          omega
        · -- the node is written behind what is below it
          have hnode : (⟨child.pk, state.1, below.1, depth⟩ : RecoverUpdate) =
              updateOf ⟨child, state.1, state.1 + 2 * c.size + 1, depth⟩ := by
            have hcount : below.1 = state.1 + 2 * c.size + 1 := by omega
            rw [updateOf, hcount]
          dsimp only at hsperm
          rw [hstart, hnode] at hsperm
          rw [Forest.number, List.map_cons, List.map_append]
          refine hsperm.trans ?_
          rw [List.append_assoc, List.append_assoc]
          apply List.Perm.append_left
          refine (hcperm.append_right _).trans ?_
          exact List.perm_middle
    exact hloop _ _ h

/-! ## Loops -/

/-- A node that is on a loop or leads to one. -/
def Endless (node : RecoverNode) : Prop :=
  ∃ x, ReflTransGen (fun a b => b ∈ kids sort nodes a) node x ∧
    TransGen (fun a b => b ∈ kids sort nodes a) x x

section Loops

variable {sort nodes}

theorem exists_endless_kid {node : RecoverNode} (h : Endless sort nodes node) :
    ∃ child ∈ kids sort nodes node, Endless sort nodes child := by
  obtain ⟨x, hreach, hloop⟩ := h
  obtain rfl | ⟨child, hchild, hrest⟩ := ReflTransGen.cases_head hreach
  · obtain ⟨child, hchild, hrest⟩ := TransGen.head'_iff.mp hloop
    exact ⟨child, hchild, node, hrest, hloop⟩
  · exact ⟨child, hchild, x, hrest, hloop⟩

/-- A loop over siblings with one that it cannot get past has no result. -/
theorem foldlM_visit_eq_none {children : List UInt8 → List RecoverNode} {fuel depth : Nat}
    {siblings : List RecoverNode} {child : RecoverNode} (hmem : child ∈ siblings)
    (hchild : ∀ left depth, traverse children fuel child.pk left depth = none)
    (state : Nat × List RecoverUpdate) :
    siblings.foldlM (visit children fuel depth) state = none := by
  induction siblings generalizing state with
  | nil => cases hmem
  | cons sibling siblings ih =>
    rw [List.foldlM_cons]
    obtain rfl | hmem := List.mem_cons.mp hmem
    · rw [visit, hchild]
      rfl
    · cases visit children fuel depth state sibling with
      | none => rfl
      | some next => exact ih hmem next

/-- With a loop below a key, the recursion has no end. -/
theorem traverse_eq_none {parent : Value} {node : RecoverNode}
    (hmem : node ∈ childrenUnder sort nodes (valueKey parent))
    (hendless : Endless sort nodes node) (fuel left depth : Nat) :
    traverse (childrenUnder sort nodes) fuel parent left depth = none := by
  induction fuel generalizing parent node left depth with
  | zero => rfl
  | succ fuel ih =>
    obtain ⟨child, hchild, hnext⟩ := exists_endless_kid hendless
    exact foldlM_visit_eq_none hmem (fun _ _ => ih hchild hnext _ _) _

theorem foldlM_visit_isSome {children : List UInt8 → List RecoverNode} {fuel depth : Nat}
    {siblings : List RecoverNode}
    (h : ∀ child ∈ siblings, ∀ left depth, (traverse children fuel child.pk left depth).isSome)
    (state : Nat × List RecoverUpdate) :
    (siblings.foldlM (visit children fuel depth) state).isSome := by
  induction siblings generalizing state with
  | nil => rfl
  | cons child siblings ih =>
    rw [List.forall_mem_cons] at h
    obtain ⟨below, hbelow⟩ := Option.isSome_iff_exists.mp (h.1 (state.1 + 1) (depth + 1))
    rw [List.foldlM_cons, visit, hbelow]
    exact ih h.2 _

/-- Without a loop, the recursion visits on its way down every node at most once. -/
theorem traverse_isSome
    (hends : ∀ root ∈ childrenUnder sort nodes (valueKey .null),
      ¬ Endless sort nodes root)
    {fuel : Nat} {path : List RecoverNode} (hnodup : path.Nodup) (hsub : path ⊆ nodes)
    (hfuel : nodes.length < fuel + path.length) {parent : Value}
    (hpath : ∀ node ∈ path, ∀ child ∈ childrenUnder sort nodes (valueKey parent),
      TransGen (fun a b => b ∈ kids sort nodes a) node child)
    (hroot : ∀ child ∈ childrenUnder sort nodes (valueKey parent),
      ∃ root ∈ childrenUnder sort nodes (valueKey .null),
        ReflTransGen (fun a b => b ∈ kids sort nodes a) root child) (left depth : Nat) :
    (traverse (childrenUnder sort nodes) fuel parent left depth).isSome := by
  induction fuel generalizing path parent left depth with
  | zero =>
    have := (List.subperm_of_subset hnodup hsub).length_le
    omega
  | succ fuel ih =>
    apply foldlM_visit_isSome
    intro child hchild left depth
    obtain ⟨root, hrootmem, hreach⟩ := hroot child hchild
    have hnew : child ∉ path := fun hmem =>
      hends root hrootmem ⟨child, hreach, hpath child hmem child hchild⟩
    refine ih (List.nodup_cons.mpr ⟨hnew, hnodup⟩) ?_ ?_ ?_ ?_ left depth
    · exact List.cons_subset.mpr ⟨(mem_childrenUnder.mp hchild).1, hsub⟩
    · rw [List.length_cons]
      omega
    · intro node hnode next hnext
      obtain rfl | hnode := List.mem_cons.mp hnode
      · exact .single hnext
      · exact .tail (hpath node hnode child hchild) hnext
    · intro next hnext
      exact ⟨root, hrootmem, hreach.tail hnext⟩

/-- Without a loop there are updates. -/
theorem recover_isSome
    (hends : ∀ root ∈ childrenUnder sort nodes (valueKey .null),
      ¬ Endless sort nodes root) :
    (recover sort (nodes.length + 1) nodes).isSome := by
  rw [recover, Option.isSome_map]
  exact traverse_isSome hends List.nodup_nil (List.nil_subset nodes) (by simp)
    (fun _ h => nomatch h) (fun child h => ⟨child, h, .refl⟩) 1 0

end Loops

end MetalOrm.Native.Tree
