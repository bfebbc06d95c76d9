import MetalOrm.Native.InsertQuery

/-!
# UPDATE and DELETE statements

`metal/dml.hpp`: the WHERE clause of DML statements, and `UpdateQueryBuilder` and
`DeleteQueryBuilder` with the nodes that they build and compile.
-/

namespace MetalOrm.Native.Query

/-- `DmlInPredicate`. -/
structure DmlInPredicate where
  column : String
  values : List Value
  negated : Bool := false
deriving DecidableEq

/-- `DmlWhereCompiler`. -/
abbrev DmlWhereCompiler := Dialect → CompileM Value (Sql Value)

/-- `dml_where`: the entity of the statement has the empty alias. -/
def dmlWhere (type : TypeIndex) (expression : ExprNode Value) : DmlWhereCompiler := fun dialect =>
  compileExpression { dialect, aliases := [(type, "")] } expression

/-! ## The WHERE clause -/

/-- The body of the loop of `append_dml_where` over the IN predicates. -/
def compileInPredicate (dialect : Dialect) (predicate : DmlInPredicate) :
    CompileM Value (Sql Value) := do
  if predicate.values.isEmpty then return Sql.chars (if predicate.negated then "1" else "0")
  let values ← bindLiterals dialect predicate.values
  let list : Sql Value := Sql.join ", " values ++ ")"
  return quoted dialect predicate.column ++
    (Sql.chars (if predicate.negated then " NOT IN (" else " IN (") ++ list)

/-- The loop of `append_dml_where` over the IN predicates. -/
def compileInPredicates (dialect : Dialect) :
    List DmlInPredicate → CompileM Value (List (Sql Value))
  | [] => return []
  | predicate :: predicates => do
    let term ← compileInPredicate dialect predicate
    return term :: (← compileInPredicates dialect predicates)

/-- The part of `append_dml_where` that runs `extra_where`. -/
def compileExtraTerm (dialect : Dialect) : Option DmlWhereCompiler →
    CompileM Value (List (Sql Value))
  | none => return []
  | some extraWhere => do
    let fragment ← extraWhere dialect
    if fragment.isEmpty then
      throw (Exn.ofText "MetalORM: DML expression predicate compiled to an empty fragment")
    let term : Sql Value := "(" ++ (fragment ++ ")")
    return [term]

/-- `append_dml_where`. -/
def appendDmlWhere (dialect : Dialect) (predicates : List DmlPredicate)
    (inPredicates : List DmlInPredicate) (extraWhere : Option DmlWhereCompiler) :
    CompileM Value (Sql Value) := do
  if predicates.isEmpty && inPredicates.isEmpty && extraWhere.isNone then return Sql.empty
  let terms ← compilePredicates dialect predicates
  let inTerms ← compileInPredicates dialect inPredicates
  let extraTerm ← compileExtraTerm dialect extraWhere
  return " WHERE " ++ Sql.join " AND " (terms ++ (inTerms ++ extraTerm))

/-! ## `UpdateQueryBuilder` -/

/-- `UpdateNode`. -/
structure UpdateNode where
  table : String
  assignments : List DmlAssignment := []
  predicates : List DmlPredicate := []
  inPredicates : List DmlInPredicate := []
  extraWhere : Option DmlWhereCompiler := none
  returning : List DmlReturning := []

namespace UpdateNode

/-- `set`. -/
def set (node : UpdateNode) (assignments : List DmlAssignment) : UpdateNode :=
  { node with assignments }

/-- `where_in`. -/
def whereIn (node : UpdateNode) (column : String) (values : List Value) : UpdateNode :=
  { node with inPredicates := node.inPredicates ++ [{ column, values }] }

/-- `and_where`, of an expression about the table of the statement. -/
def andWhere (node : UpdateNode) (extraWhere : DmlWhereCompiler) : UpdateNode :=
  { node with extraWhere := some extraWhere }

/-- `returning`. -/
def withReturning (node : UpdateNode) (columns : List String) : UpdateNode :=
  { node with returning := columns.map fun column => { column } }

/-- The loop of `compile` over the assignments. -/
def compileAssignments (dialect : Dialect) : List DmlAssignment → CompileM Value (List (Sql Value))
  | [] => return []
  | assignment :: assignments => do
    let operand ← compileDmlOperand dialect false assignment.value
    return (quoted dialect assignment.column ++ (" = " ++ operand)) ::
      (← compileAssignments dialect assignments)

/-- `compile`. -/
def compile (node : UpdateNode) (dialect : Dialect) : Except Exn (CompiledQuery Value) := do
  if node.assignments.isEmpty then
    throw (Exn.ofText "MetalORM: UPDATE requires at least one assignment")
  let body : CompileM Value (Sql Value) := do
    let assignments ← compileAssignments dialect node.assignments
    let whereSql ← appendDmlWhere dialect node.predicates node.inPredicates node.extraWhere
    return "UPDATE " ++ (quoted dialect node.table ++ (" SET " ++ (Sql.join ", " assignments ++
      (whereSql ++ (appendReturning dialect node.returning ++ ";")))))
  let (sql, params) ← body.run []
  return { sql, params }

end UpdateNode

/-! ## `DeleteQueryBuilder` -/

/-- `DeleteNode`. -/
structure DeleteNode where
  table : String
  predicates : List DmlPredicate := []
  inPredicates : List DmlInPredicate := []
  extraWhere : Option DmlWhereCompiler := none
  returning : List DmlReturning := []

namespace DeleteNode

/-- `where_in`. -/
def whereIn (node : DeleteNode) (column : String) (values : List Value) : DeleteNode :=
  { node with inPredicates := node.inPredicates ++ [{ column, values }] }

/-- `and_where`, of an expression about the table of the statement. -/
def andWhere (node : DeleteNode) (extraWhere : DmlWhereCompiler) : DeleteNode :=
  { node with extraWhere := some extraWhere }

/-- `compile`. -/
def compile (node : DeleteNode) (dialect : Dialect) : Except Exn (CompiledQuery Value) := do
  let body : CompileM Value (Sql Value) := do
    let whereSql ← appendDmlWhere dialect node.predicates node.inPredicates node.extraWhere
    return "DELETE FROM " ++ (quoted dialect node.table ++
      (whereSql ++ (appendReturning dialect node.returning ++ ";")))
  let (sql, params) ← body.run []
  return { sql, params }

end DeleteNode

end MetalOrm.Native.Query
