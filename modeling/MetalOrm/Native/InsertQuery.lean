import MetalOrm.Native.SelectCompiler

/-!
# INSERT statements

`metal/dml.hpp`: the operands and clauses of DML statements, and `InsertQueryBuilder` with the
`InsertNode` that it builds and compiles.
-/

namespace MetalOrm.Native.Query

/-- `DmlOperand`: a value, or `excluded(column)`. -/
inductive DmlOperand where
  | value (v : Value)
  | excluded (column : String)
deriving DecidableEq

/-- `DmlAssignment`. -/
structure DmlAssignment where
  column : String
  value : DmlOperand
deriving DecidableEq

/-- `DmlPredicate`. -/
structure DmlPredicate where
  column : String
  op : CompareOp := .eq
  value : Value
deriving DecidableEq

/-- `DmlReturning`. -/
structure DmlReturning where
  column : String
  aliasName : Option String := none
deriving DecidableEq

/-- `DmlConflictClause`. -/
structure DmlConflictClause where
  columns : List String
  constraint : Option String := none
  doNothing : Bool := false
  assignments : List DmlAssignment := []
  predicates : List DmlPredicate := []
deriving DecidableEq

/-- A row of an INSERT: assignments, in their order. -/
abbrev DmlRow := List DmlAssignment

/-- `InsertNode`. -/
structure InsertNode where
  table : String
  columns : List String := []
  rows : List DmlRow := []
  selectSource : Option (Dialect → Except Exn (CompiledQuery Value)) := none
  conflict : Option DmlConflictClause := none
  returning : List DmlReturning := []

/-! ## Compilation -/

/-- `dialect.quote_identifier(id)` as a part of a text. -/
def quoted (dialect : Dialect) (id : String) : Sql Value := Sql.chars (dialect.quoteIdentifier id)

/-- `compile_dml_operand`. -/
def compileDmlOperand (dialect : Dialect) (allowExcluded : Bool) :
    DmlOperand → CompileM Value (Sql Value)
  | .value v => bindLiteral dialect v
  | .excluded column =>
    if allowExcluded then return ("excluded." ++ quoted dialect column : Sql Value)
    else throw (Exn.ofText "MetalORM: excluded() is valid only inside ON CONFLICT DO UPDATE")

/-- The loop of `append_dml_predicates`. -/
def compilePredicates (dialect : Dialect) : List DmlPredicate → CompileM Value (List (Sql Value))
  | [] => return []
  | predicate :: predicates => do
    let placeholder ← bindLiteral dialect predicate.value
    return (quoted dialect predicate.column ++
      (Sql.chars (" " ++ compareToken predicate.op ++ " ") ++ placeholder)) ::
        (← compilePredicates dialect predicates)

/-- `append_dml_predicates`. -/
def appendDmlPredicates (dialect : Dialect) (predicates : List DmlPredicate) :
    CompileM Value (Sql Value) := do
  if predicates.isEmpty then return Sql.empty
  let terms ← compilePredicates dialect predicates
  return " WHERE " ++ Sql.join " AND " terms

/-- `append_returning`. -/
def appendReturning (dialect : Dialect) (returning : List DmlReturning) : Sql Value :=
  if returning.isEmpty then Sql.empty
  else (" RETURNING " ++ Sql.join ", " (returning.map fun item =>
    match item.aliasName with
    | none => quoted dialect item.column
    | some name => quoted dialect item.column ++ (" AS " ++ quoted dialect name)) : Sql Value)

/-- `std::find_if` over the assignments of a row. -/
def DmlRow.find (row : DmlRow) (column : String) : Option DmlAssignment :=
  List.find? (·.column = column) row

/-- The loop of `compile` over the destination columns of one row. -/
def compileCells (dialect : Dialect) (row : DmlRow) :
    List String → CompileM Value (List (Sql Value))
  | [] => return []
  | column :: columns => do
    match row.find column with
    | none =>
      throw (Exn.ofText ("MetalORM: INSERT row is missing destination column '" ++ column ++ "'"))
    | some assignment =>
      let cell ← compileDmlOperand dialect false assignment.value
      return cell :: (← compileCells dialect row columns)

/-- The loop of `compile` over the rows. -/
def compileRows (dialect : Dialect) (columns : List String) :
    List DmlRow → CompileM Value (List (Sql Value))
  | [] => return []
  | row :: rows => do
    let cells ← compileCells dialect row columns
    let text : Sql Value := "(" ++ (Sql.join ", " cells ++ ")")
    return text :: (← compileRows dialect columns rows)

/-- The part of `compile` between the table and the conflict clause. -/
def compileSource (dialect : Dialect) (node : InsertNode) : CompileM Value (Sql Value) := do
  if node.columns.isEmpty then
    if node.rows.isEmpty && node.selectSource.isNone then return " DEFAULT VALUES"
    else throw (Exn.ofText "MetalORM: INSERT requires destination columns")
  else
    let columns : Sql Value := " (" ++ (Sql.join ", " (node.columns.map (quoted dialect)) ++ ") ")
    match node.selectSource with
    | some source =>
      let compiled ← source dialect
      modify (· ++ compiled.params)
      return columns ++ compiled.sql
    | none =>
      if node.rows.isEmpty then
        throw (Exn.ofText "MetalORM: INSERT ... VALUES requires at least one row")
      let rows ← compileRows dialect node.columns node.rows
      return columns ++ ("VALUES " ++ Sql.join ", " rows)

/-- The loop of `compile` over the assignments of DO UPDATE. -/
def compileUpdates (dialect : Dialect) : List DmlAssignment → CompileM Value (List (Sql Value))
  | [] => return []
  | assignment :: assignments => do
    let operand ← compileDmlOperand dialect true assignment.value
    return (quoted dialect assignment.column ++ (" = " ++ operand)) ::
      (← compileUpdates dialect assignments)

/-- The target of the conflict clause. -/
def compileConflictTarget (dialect : Dialect) (conflict : DmlConflictClause) :
    CompileM Value (Sql Value) :=
  match conflict.constraint with
  | some constraint =>
    if dialect.family ≠ .postgres then
      throw (Exn.ofText "MetalORM: named ON CONFLICT constraints are supported only by PostgreSQL")
    else return (" ON CONFLICT ON CONSTRAINT " ++ quoted dialect constraint : Sql Value)
  | none =>
    if conflict.columns.isEmpty then
      throw (Exn.ofText "MetalORM: ON CONFLICT requires conflict columns")
    else return (" ON CONFLICT (" ++ (Sql.join ", " (conflict.columns.map (quoted dialect)) ++ ")") :
      Sql Value)

/-- The conflict clause of `compile`. -/
def compileConflict (dialect : Dialect) : Option DmlConflictClause → CompileM Value (Sql Value)
  | none => return Sql.empty
  | some conflict => do
    let target ← compileConflictTarget dialect conflict
    if conflict.doNothing then return target ++ " DO NOTHING"
    if conflict.assignments.isEmpty then
      throw (Exn.ofText "MetalORM: ON CONFLICT DO UPDATE requires at least one assignment")
    let updates ← compileUpdates dialect conflict.assignments
    let predicates ← appendDmlPredicates dialect conflict.predicates
    return target ++ (" DO UPDATE SET " ++ (Sql.join ", " updates ++ predicates))

/-- `InsertQueryBuilder::compile`. -/
def InsertNode.compile (node : InsertNode) (dialect : Dialect) :
    Except Exn (CompiledQuery Value) := do
  let body : CompileM Value (Sql Value) := do
    let source ← compileSource dialect node
    let conflict ← compileConflict dialect node.conflict
    return "INSERT INTO " ++ (quoted dialect node.table ++ (source ++ (conflict ++
      (appendReturning dialect node.returning ++ ";"))))
  let (sql, params) ← body.run []
  return { sql, params }

/-! ## `InsertQueryBuilder` -/

namespace InsertNode

/-- `values(row)`. -/
def values (node : InsertNode) (row : DmlRow) : Except Exn InsertNode :=
  if node.selectSource.isSome then
    throw (Exn.ofText "MetalORM: cannot mix INSERT ... VALUES with INSERT ... SELECT")
  else if row.isEmpty then return node
  else return { node with
    columns := if node.columns.isEmpty then row.map (·.column) else node.columns
    rows := node.rows ++ [row] }

/-- `values(rows)`. -/
def valuesAll (node : InsertNode) : List DmlRow → Except Exn InsertNode
  | [] => return node
  | row :: rows => do (← node.values row).valuesAll rows

/-- `on_conflict(columns).do_nothing()`. -/
def onConflictDoNothing (node : InsertNode) (columns : List String) : InsertNode :=
  { node with conflict := some { columns, doNothing := true } }

/-- `on_conflict(columns).do_update(assignments, predicates)`. -/
def onConflictDoUpdate (node : InsertNode) (columns : List String)
    (assignments : List DmlAssignment) (predicates : List DmlPredicate) : Except Exn InsertNode :=
  if assignments.isEmpty then
    throw (Exn.ofText "MetalORM: ON CONFLICT DO UPDATE requires at least one assignment")
  else return { node with conflict := some { columns, assignments, predicates } }

/-- `returning(columns)`. -/
def withReturning (node : InsertNode) (columns : List String) : InsertNode :=
  { node with returning := columns.map fun column => { column } }

end InsertNode

end MetalOrm.Native.Query
