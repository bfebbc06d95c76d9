import MetalOrm.Native.BulkInsert
import MetalOrm.Native.DmlQuery

/-!
# Bulk UPDATE and DELETE by identity

`metal/bulk.hpp`: `bulk_update_where` and `bulk_delete` compile one statement for each chunk of
identity values. The statements are given in the order of the chunks; what the executor returns is
left out.
-/

namespace MetalOrm.Native.Bulk

open Query

/-- The normalised ids of a call: a `std::vector`, whose size is a `size_t`. -/
structure BulkIds where
  values : List Value
  size_lt : values.length < 2 ^ 64

/-- `values.size()`. -/
def BulkIds.size (ids : BulkIds) : UInt64 := UInt64.ofNat ids.values.length

/-- `values[begin, end)`. -/
def BulkIds.slice (ids : BulkIds) (first last : UInt64) : List Value :=
  (ids.values.drop first.toNat).take (last.toNat - first.toNat)

/-- The chunks of `run_chunks`, as values. -/
def idChunks (ids : BulkIds) (options : BulkBaseOptions) : List (List Value) :=
  (chunkIndices ids.size options).map fun i =>
    ids.slice (chunkBegin options i) (chunkEnd ids.size options i)

/-- `resolve_by_columns` with `single_only`: the one column. -/
def resolveByColumn (entity : BulkEntity) (selection : BulkColumns) : Except Exn String := do
  let result ← match selection with
    | .default => pure [entity.primaryKey]
    | .all => throw (Exn.ofText "MetalORM: bulk 'by' cannot select all columns")
    | .selected names => pure names
  match result with
  | [] => throw (Exn.ofText "MetalORM: bulk 'by' requires at least one reflected column")
  | [name] =>
    if entity.knownColumn name then return name
    else throw (Exn.ofText "MetalORM: bulk 'by' column is not mapped by the target entity")
  | _ => throw (Exn.ofText
      "MetalORM: this bulk operation requires exactly one reflected 'by' column")

/-- `BulkUpdateOptions` and `BulkDeleteOptions`, less the base options; a DELETE returns nothing. -/
structure BulkWhereOptions where
  identity : BulkColumns := .default
  where_ : Option DmlWhereCompiler := none
  returning : BulkColumns := .default

/-- The builder of `bulk_update_where` for a chunk. -/
def updateChunk (entity : BulkEntity) (set : List DmlAssignment) (identity : String)
    (where_ : Option DmlWhereCompiler) (returning : List String) (chunk : List Value) :
    UpdateNode :=
  let node := (UpdateNode.set { table := entity.table } set).whereIn identity chunk
  let node := match where_ with
    | some extraWhere => node.andWhere extraWhere
    | none => node
  if returning.isEmpty then node else node.withReturning returning

/-- The builder of `bulk_delete` for a chunk. -/
def deleteChunk (entity : BulkEntity) (identity : String) (where_ : Option DmlWhereCompiler)
    (chunk : List Value) : DeleteNode :=
  let node := DeleteNode.whereIn { table := entity.table } identity chunk
  match where_ with
  | some extraWhere => node.andWhere extraWhere
  | none => node

/-- `bulk_update_where`, up to its transaction. -/
def bulkUpdateWhere (entity : BulkEntity) (dialect : Dialect) (options : BulkBaseOptions)
    (whereOptions : BulkWhereOptions) (ids : BulkIds) (set : List DmlAssignment) :
    Except Exn (List (CompiledQuery Value)) := do
  if ids.values.isEmpty then return []
  let identity ← resolveByColumn entity whereOptions.identity
  let returning ← resolveReturningColumns entity whereOptions.returning
  let set := set.filter fun assignment => entity.knownColumn assignment.column
  if set.isEmpty then
    throw (Exn.ofText "MetalORM: bulk_update_where requires at least one mapped SET column")
  validateBaseOptions options
  (idChunks ids options).mapM fun chunk =>
    (updateChunk entity set identity whereOptions.where_ returning chunk).compile dialect

/-- `bulk_delete`, up to its transaction. -/
def bulkDelete (entity : BulkEntity) (dialect : Dialect) (options : BulkBaseOptions)
    (whereOptions : BulkWhereOptions) (ids : BulkIds) :
    Except Exn (List (CompiledQuery Value)) := do
  if ids.values.isEmpty then return []
  let identity ← resolveByColumn entity whereOptions.identity
  validateBaseOptions options
  (idChunks ids options).mapM fun chunk =>
    (deleteChunk entity identity whereOptions.where_ chunk).compile dialect

end MetalOrm.Native.Bulk
