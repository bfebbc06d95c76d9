import MetalOrm.Native.BulkChunks
import MetalOrm.Native.InsertQuery

/-!
# Bulk INSERT and upsert

`metal/bulk.hpp`: `bulk_insert` and `bulk_upsert` compile one INSERT for each chunk of
`run_chunks`. The statements are given in the order of the chunks; what the executor returns is
left out.
-/

namespace MetalOrm.Native.Bulk

open Query

/-- The rows of a call: a `std::vector`, whose size is a `size_t`. -/
structure BulkRows where
  rows : List DmlRow
  size_lt : rows.length < 2 ^ 64

/-- `rows.size()`. -/
def BulkRows.size (rows : BulkRows) : UInt64 := UInt64.ofNat rows.rows.length

/-- `BulkColumns`. -/
inductive BulkColumns where
  | default
  | selected (names : List String)
  | all
deriving DecidableEq

/-- What reflection gives about the target entity. -/
structure BulkEntity where
  table : String
  primaryKey : String
  columns : List String

/-- `known_column`. -/
def BulkEntity.knownColumn (entity : BulkEntity) (name : String) : Bool := name ∈ entity.columns

/-- `resolve_returning_columns`. -/
def resolveReturningColumns (entity : BulkEntity) (selection : BulkColumns) :
    Except Exn (List String) :=
  let result := match selection with
    | .default => []
    | .all => entity.columns
    | .selected names => names
  if result.all entity.knownColumn then return result
  else throw (Exn.ofText "MetalORM: RETURNING column is not mapped by the target entity")

/-- `rows[begin, end)`. -/
def BulkRows.slice (rows : BulkRows) (first last : UInt64) : List DmlRow :=
  (rows.rows.drop first.toNat).take (last.toNat - first.toNat)

/-- The chunks of `run_chunks`, as rows. -/
def bulkChunks (rows : BulkRows) (options : BulkBaseOptions) : List (List DmlRow) :=
  (chunkIndices rows.size options).map fun i =>
    rows.slice (chunkBegin options i) (chunkEnd rows.size options i)

/-- What a bulk operation sends for a chunk. -/
structure BulkStatement where
  node : InsertNode
  compiled : CompiledQuery Value

/-- The body of a chunk: the builder with the rows of the chunk and a conflict clause, if any,
    compiled. -/
def chunkStatement (entity : BulkEntity) (dialect : Dialect)
    (applyConflict : InsertNode → Except Exn InsertNode) (returning : List String)
    (chunk : List DmlRow) : Except Exn BulkStatement := do
  let node ← InsertNode.valuesAll { table := entity.table } chunk
  let node ← applyConflict node
  let node := if returning.isEmpty then node else node.withReturning returning
  let compiled ← node.compile dialect
  return { node, compiled }

/-- `run_chunks` over the body of a chunk, with concurrency 1. -/
def runStatements (entity : BulkEntity) (dialect : Dialect)
    (applyConflict : InsertNode → Except Exn InsertNode) (returning : List String)
    (options : BulkBaseOptions) (rows : BulkRows) : Except Exn (List BulkStatement) := do
  validateBaseOptions options
  (bulkChunks rows options).mapM (chunkStatement entity dialect applyConflict returning)

/-- `apply_conflict`. -/
def applyConflict (clause : DmlConflictClause) (node : InsertNode) : Except Exn InsertNode :=
  if clause.doNothing then return node.onConflictDoNothing clause.columns
  else node.onConflictDoUpdate clause.columns clause.assignments clause.predicates

/-- `bulk_insert`, up to its transaction. -/
def bulkInsert (entity : BulkEntity) (dialect : Dialect) (onConflict : Option DmlConflictClause)
    (returning : BulkColumns) (options : BulkBaseOptions) (rows : BulkRows) :
    Except Exn (List BulkStatement) := do
  if rows.rows.isEmpty then return []
  let returning ← resolveReturningColumns entity returning
  runStatements entity dialect (fun node => match onConflict with
    | none => return node
    | some clause => applyConflict clause node) returning options rows

/-- The conflict columns of `bulk_upsert`. -/
def resolveConflictColumns (entity : BulkEntity) (selection : BulkColumns) :
    Except Exn (List String) :=
  let conflictColumns := match selection with
    | .default => [entity.primaryKey]
    | .all => entity.columns
    | .selected names => names
  if conflictColumns.isEmpty then
    throw (Exn.ofText "MetalORM: bulk_upsert requires at least one conflict column")
  else if conflictColumns.all entity.knownColumn then return conflictColumns
  else throw (Exn.ofText "MetalORM: bulk_upsert conflict column is not mapped")

/-- The update columns of `bulk_upsert`: by default those that the first row assigns. -/
def resolveUpdateColumns (entity : BulkEntity) (conflictColumns : List String)
    (selection : BulkColumns) (front : DmlRow) : Except Exn (List String) :=
  let updateColumns := match selection with
    | .default => (front.map (·.column)).filter fun column =>
        entity.knownColumn column && !(column ∈ conflictColumns : Bool)
    | .all => entity.columns
    | .selected names => names
  if updateColumns.all entity.knownColumn then return updateColumns
  else throw (Exn.ofText "MetalORM: bulk_upsert update column is not mapped")

/-- The conflict clause that `bulk_upsert` puts on the builder. -/
def upsertConflict (conflictColumns updateColumns : List String) (node : InsertNode) :
    Except Exn InsertNode :=
  if updateColumns.isEmpty then return node.onConflictDoNothing conflictColumns
  else node.onConflictDoUpdate conflictColumns
    (updateColumns.map fun name => ⟨name, .excluded name⟩) []

/-- `bulk_upsert`, up to its transaction. -/
def bulkUpsert (entity : BulkEntity) (dialect : Dialect)
    (conflictColumns updateColumns returning : BulkColumns) (options : BulkBaseOptions)
    (rows : BulkRows) : Except Exn (List BulkStatement) := do
  match rows.rows with
  | [] => return []
  | front :: _ =>
    let conflictColumns ← resolveConflictColumns entity conflictColumns
    let updateColumns ← resolveUpdateColumns entity conflictColumns updateColumns front
    let returning ← resolveReturningColumns entity returning
    runStatements entity dialect (upsertConflict conflictColumns updateColumns) returning options
      rows

end MetalOrm.Native.Bulk
