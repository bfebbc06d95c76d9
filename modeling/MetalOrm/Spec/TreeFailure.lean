import MetalOrm.Spec.TreeForest

/-!
# Tree operations whose statements fail

A tree operation opens no transaction. When one of its statements fails, the ones before it have
taken effect, and nothing takes them back: the table is what they made of it.

## Key results

- `tree_op_failure`: the outcome and the table after a failing statement
- `insert_not_atomic`: a table that is no tree any more
-/

namespace MetalOrm.Native.Tree

open ForStd (Client StdSort Forest)
open ForStd.Client (Direct faulty after)

variable (t : TreeManager)

/-- The statement with the number `i` fails. -/
def failAt (i : Nat) (error : Exn) (n : Nat) : Option Exn := if n = i then some error else none

/-- The statements of an operation on a table, when none of them fails. -/
def statements {α : Type} (op : TreeOp α) (rows : List TableRow) : List Statement :=
  (op.code t).requests t.serve rows

/-- What a caller is told when a statement fails. -/
def TreeOp.failure {α : Type} (error : Exn) : TreeOp α → Except Exn α
  | recover _ _ _ => .ok (some ⟨0, false, [error.what]⟩)
  | _ => .error error

/-- The statement only reads. -/
def Statement.reads : Statement → Bool
  | select _ _ => true
  | maxRight _ => true
  | _ => false

theorem serve_reads {statement : Statement} (h : statement.reads = true) (rows : List TableRow) :
    (t.serve statement rows).2 = rows := by
  cases statement <;> first | rfl | cases h

theorem after_reads {statements : List Statement} (h : ∀ st ∈ statements, st.reads = true)
    (rows : List TableRow) : after t.serve statements rows = rows := by
  induction statements with
  | nil => rfl
  | cons statement statements ih =>
    rw [List.forall_mem_cons] at h
    rw [after, List.foldl_cons, serve_reads t h.1]
    exact ih h.2

theorem failAt_before {i n : Nat} {error : Exn} (h : n ≠ i) : failAt i error n = none := by
  rw [failAt, if_neg h]

theorem run_failAt {α : Type} {p : TreeM α} {P : Statement → Prop} (hp : Direct P p)
    {rows : List TableRow} {i : Nat} (hi : i < (p.requests t.serve rows).length) (error : Exn) :
    p.run (faulty t.serve (failAt (i + 1) error)) (rows, 0) =
      (.error error, (after t.serve ((p.requests t.serve rows).take i) rows, i + 1)) := by
  have hfault : failAt (i + 1) error (0 + i + 1) = some error := by simp [failAt]
  have hrun := Client.run_faulty_of_some hp hi hfault fun n _ hle =>
    failAt_before (show n ≠ i + 1 by omega)
  rw [hrun]
  congr 2
  omega

/-- An operation whose statement number `i + 1` fails reports the failure, and the table is what
    the statements before it made of it; reads do not change it. -/
theorem tree_op_failure {α : Type} (op : TreeOp α) (rows : List TableRow) (i : Nat)
    (hi : i < (statements t op rows).length) (error : Exn) :
    (op.code t).run (faulty t.serve (failAt (i + 1) error)) (rows, 0) =
      (op.failure error, (after t.serve ((statements t op rows).take i) rows, i + 1)) ∧
    ((∀ statement ∈ (statements t op rows).take i, statement.reads = true) →
      after t.serve ((statements t op rows).take i) rows = rows) := by
  refine ⟨?_, fun h => after_reads t h rows⟩
  cases hcatches : op.catches with
  | false =>
    have hfailure : op.failure error = .error error := by
      cases op <;> first | rfl | cases hcatches
    rw [hfailure]
    exact run_failAt t (direct_scoped op hcatches) hi error
  | true =>
    cases op with
    | recover less sort fuel =>
      have hrequests : statements t (.recover less sort fuel) rows =
          (t.recoverStatements sort fuel).requests t.serve rows :=
        Client.requests_tryCatch t.serve (t.recoverStatements sort fuel)
          (fun error => .ok (some ⟨0, false, [error.what]⟩)) rows
      rw [hrequests] at hi ⊢
      have hrun := run_failAt t (direct_recover (k := ⟨false, false⟩) sort fuel) hi error
      rw [TreeOp.code, TreeManager.recover, Client.run_tryCatch, hrun]
      rfl
    | _ => cases hcatches

/-! ## A tree that is lost -/

/-- A root without children. -/
def rootRows : List TableRow := [category 1 .null 1 2 0 1]

theorem encodes_rootRows :
    Encodes (tenantTree 1) rootRows (.cons (category 1 .null 1 2 0 1) .nil .nil) where
  nodes := by
    have hscope : inScope (tenantTree 1) (category 1 .null 1 2 0 1) = true := by decide
    rw [rootRows, List.filter_cons_of_pos hscope]
    exact .refl _
  keyed row hrow := by
    rw [List.mem_singleton.mp hrow]
    decide
  distinct := List.pairwise_singleton _ _
  root row hrow := by
    rw [List.mem_singleton.mp hrow]
    rfl
  child row row' h := by
    cases h with
    | top h => cases h
    | inside h => cases h
    | beside h => cases h
  numbered entry hentry := by
    rw [List.mem_singleton.mp hentry]
    refine ⟨rfl, rfl, ?_⟩
    intro depth hdepth
    cases hdepth
    rfl

theorem tree_op_failure_root :
    ((TreeOp.insertAsChild (.int64 1) []).code (tenantTree 1)).run
        (faulty (tenantTree 1).serve (failAt 4 (.ofText "disk full"))) (rootRows, 0) =
      (.error (.ofText "disk full"), (after (tenantTree 1).serve
        ((statements (tenantTree 1) (.insertAsChild (.int64 1) []) rootRows).take 3) rootRows,
          4)) :=
  (tree_op_failure (tenantTree 1) (.insertAsChild (.int64 1) []) rootRows 3 (by decide)
    (.ofText "disk full")).1

/-- The right boundary of the parent stays shifted when the `INSERT` fails. -/
theorem insert_not_atomic : ¬ ∀ (t : TreeManager) (rows : List TableRow), WellFormed t rows →
    ∀ {α : Type} (op : TreeOp α) (i : Nat) (error : Exn) (rows' : List TableRow) (n : Nat),
      (op.code t).run (faulty t.serve (failAt i error)) (rows, 0) =
          (op.failure error, (rows', n)) →
        rows'.map (treeColumns t.mapping) = rows.map (treeColumns t.mapping) := by
  intro hatomic
  have hrun : ((TreeOp.insertAsChild (.int64 1) []).code (tenantTree 1)).run
      (faulty (tenantTree 1).serve (failAt 4 (.ofText "disk full"))) (rootRows, 0) =
        (.error (.ofText "disk full"), (after (tenantTree 1).serve
          ((statements (tenantTree 1) (.insertAsChild (.int64 1) []) rootRows).take 3) rootRows,
            4)) := rfl
  have hrows := hatomic (tenantTree 1) rootRows ⟨_, encodes_rootRows⟩ _ _ _ _ _ hrun
  exact absurd hrows (by decide)

end MetalOrm.Native.Tree
