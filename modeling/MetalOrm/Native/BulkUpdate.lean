import MetalOrm.Native.BulkWhere

/-!
# Bulk UPDATE by row

`metal/bulk.hpp`: `bulk_update` compiles one statement for each row that assigns something. The
statements are given in the order of the rows; what the executor returns is left out.
-/

namespace MetalOrm.Native.Bulk

open Query

/-- `resolve_by_columns`. -/
def resolveByColumns (entity : BulkEntity) (selection : BulkColumns) : Except Exn (List String) := do
  let result ← match selection with
    | .default => pure [entity.primaryKey]
    | .all => throw (Exn.ofText "MetalORM: bulk 'by' cannot select all columns")
    | .selected names => pure names
  if result.isEmpty then
    throw (Exn.ofText "MetalORM: bulk 'by' requires at least one reflected column")
  if result.all entity.knownColumn then return result
  else throw (Exn.ofText "MetalORM: bulk 'by' column is not mapped by the target entity")

/-- `assignment_value`. -/
def assignmentValue (assignment : DmlAssignment) (context : String) : Except Exn Value :=
  match assignment.value with
  | .value v => return v
  | .excluded _ => throw (Exn.ofText
      ("MetalORM: excluded() cannot be used as a bulk row value in " ++ context))

/-- The body of the loop over the identity columns. -/
def identityPredicate (row : DmlRow) (column : String) : Except Exn DmlPredicate :=
  match row.find column with
  | none => throw (Exn.ofText ("MetalORM: bulk_update row is missing a reflected identity column " ++
      "required by 'by'"))
  | some assignment => do
    let value ← assignmentValue assignment "bulk_update"
    return { column, value }

/-- The assignments of a row: identity columns and unmapped columns are left out. -/
def rowAssignments (entity : BulkEntity) (identity : List String) (row : DmlRow) :
    List DmlAssignment :=
  row.filter fun assignment =>
    assignment.column ∉ identity ∧ entity.knownColumn assignment.column

/-- The builder of a row. -/
def updateRow (entity : BulkEntity) (where_ : Option DmlWhereCompiler) (returning : List String)
    (assignments : List DmlAssignment) (predicates : List DmlPredicate) : UpdateNode :=
  let node : UpdateNode := { table := entity.table, assignments, predicates }
  let node := match where_ with
    | some extraWhere => node.andWhere extraWhere
    | none => node
  if returning.isEmpty then node else node.withReturning returning

/-- What `bulk_update` sends for a row. -/
structure BulkUpdateStatement where
  node : UpdateNode
  compiled : CompiledQuery Value

/-- The body of the loop over the rows of a chunk. A row that assigns nothing is skipped. -/
def rowStatement (entity : BulkEntity) (dialect : Dialect) (identity : List String)
    (where_ : Option DmlWhereCompiler) (returning : List String) (row : DmlRow) :
    Except Exn (Option BulkUpdateStatement) := do
  let predicates ← identity.mapM (identityPredicate row)
  let assignments := rowAssignments entity identity row
  if assignments.isEmpty then return none
  let node := updateRow entity where_ returning assignments predicates
  return some { node, compiled := ← node.compile dialect }

/-- `bulk_update`, up to its transaction: the statements of each chunk. -/
def bulkUpdate (entity : BulkEntity) (dialect : Dialect) (options : BulkBaseOptions)
    (whereOptions : BulkWhereOptions) (rows : BulkRows) :
    Except Exn (List (List BulkUpdateStatement)) := do
  if rows.rows.isEmpty then return []
  let identity ← resolveByColumns entity whereOptions.identity
  let returning ← resolveReturningColumns entity whereOptions.returning
  validateBaseOptions options
  (bulkChunks rows options).mapM fun chunk => do
    let statements ←
      chunk.mapM (rowStatement entity dialect identity whereOptions.where_ returning)
    return statements.reduceOption

end MetalOrm.Native.Bulk
