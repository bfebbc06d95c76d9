import MetalOrm.Native.FunctionCompiler

/-!
# Compiling expressions and SELECT queries

`metal/query/sqlite_compiler.hpp` and `BasicSelectQuery::compile_impl`
(`metal/query/select.hpp`). The parameter vector a `CompileContext` refers to is
the state of `CompileM`; every query is compiled with a vector of its own, and
its text is spliced in by `nest`.
-/

namespace MetalOrm.Native.Query

variable {V : Type}

/-- Compiling appends to the parameter vector, and may throw. -/
abbrev CompileM (V : Type) := StateT (List V) (Except Exn)

/-- `CompileContext`, less the parameter vector. `emplace` keeps an entry that is
    there, so new aliases are appended and the first one counts. -/
structure CompileContext where
  dialect : Dialect
  aliases : List (TypeIndex × String)

/-- `ExtraWhereCompiler`. -/
abbrev ExtraWhereCompiler (V : Type) := Dialect → String → Except Exn (CompiledQuery V)

/-! ## Columns and literals -/

/-- `alias_for`. -/
def aliasFor (ctx : CompileContext) (owner : TypeIndex) : Except Exn String :=
  match ctx.aliases.lookup owner with
  | some aliasName => .ok aliasName
  | none =>
    .error (.ofText "MetalORM: SQL expression references an entity outside the query scope")

/-- `compile_column`. -/
def compileColumn (ctx : CompileContext) (column : ColumnRef) : Except Exn String := do
  let aliasName ← aliasFor ctx column.owner
  if aliasName = "" then return ctx.dialect.quoteIdentifier column.column
  return ctx.dialect.quoteIdentifier aliasName ++ "." ++ ctx.dialect.quoteIdentifier column.column

/-- `ctx.params.push_back(v)` and the placeholder for it. -/
def bindLiteral (dialect : Dialect) (v : V) : CompileM V (Sql V) := do
  modify (· ++ [v])
  let placeholder ← dialect.placeholder (← get).length
  return Sql.hole placeholder v

/-- `bindLiteral` for every value of an IN list. -/
def bindLiterals (dialect : Dialect) : List V → CompileM V (List (Sql V))
  | [] => return []
  | v :: vs => do
    let text ← bindLiteral dialect v
    return text :: (← bindLiterals dialect vs)

/-- Compile a nested query behind the parameters pushed so far, and append its
    parameters. -/
def nest (dialect : Dialect) (compile : Dialect → Except Exn (CompiledQuery V)) :
    CompileM V (Sql V) := do
  let params ← get
  let nested ← compile (offsetPlaceholders dialect params.length)
  set (params ++ nested.params)
  return nested.sql

/-- `compile_aggregate`. -/
def compileAggregate (ctx : CompileContext) (aggregate : AggregateRef) : Except Exn String := do
  let column ← match aggregate.column with
    | some column => compileColumn ctx column
    | none => pure "*"
  return aggregateToken aggregate.kind ++ "(" ++ (if aggregate.distinct then "DISTINCT " else "") ++
    column ++ ")"

/-- The column lists of PARTITION BY and GROUP BY. -/
def compileColumns (ctx : CompileContext) (columns : List ColumnRef) : Except Exn String := do
  return ", ".intercalate (← columns.mapM (compileColumn ctx))

/-- The terms of an ORDER BY. -/
def compileOrder (ctx : CompileContext) (orderBy : List OrderSpec) : Except Exn String := do
  let terms ← orderBy.mapM fun order => do
    return (← compileColumn ctx order.column) ++ (if order.ascending then " ASC" else " DESC")
  return ", ".intercalate terms

/-- The GROUP BY clause of `compile_impl`. -/
def compileGroupBy (ctx : CompileContext) (columns : List ColumnRef) : Except Exn String := do
  if columns.isEmpty then return ""
  return " GROUP BY " ++ (← compileColumns ctx columns)

/-- The part of `compile_window` after the arguments. -/
def compileOver (ctx : CompileContext) (partitionBy : List ColumnRef) (orderBy : List OrderSpec) :
    Except Exn String := do
  let partition ←
    if partitionBy.isEmpty then pure ""
    else return "PARTITION BY " ++ (← compileColumns ctx partitionBy)
  let order ←
    if orderBy.isEmpty then pure ""
    else return (if partitionBy.isEmpty then "" else " ") ++ "ORDER BY " ++
      (← compileOrder ctx orderBy)
  return ") OVER (" ++ partition ++ order ++ ")"

/-! ## Joins -/

/-- `alias.column`, quoted. -/
def qcol (dialect : Dialect) (aliasName column : String) : String :=
  dialect.quoteIdentifier aliasName ++ "." ++ dialect.quoteIdentifier column

/-- The keyword of a join. -/
def joinKeyword : JoinKind → String
  | .left => " LEFT JOIN "
  | .inner => " INNER JOIN "

/-- The loop of `compile_impl` over the joins: `aliases` grows by the joined
    entities, `entityAlias` and `pivotAlias` count the aliases given out. -/
def compileJoins (dialect : Dialect) (rootAlias : String) (correlatedScope : Bool) :
    List JoinSpec → (entityAlias pivotAlias : Nat) → List (TypeIndex × String) →
      Except Exn (String × List (TypeIndex × String))
  | [], _, _, aliases => .ok ("", aliases)
  | join :: joins, entityAlias, pivotAlias, aliases => do
    match aliases.lookup join.ownerType with
    | none => .error (.ofText "MetalORM: join owner was not introduced before its relation")
    | some ownerAlias =>
      let targetAlias :=
        (if correlatedScope then rootAlias ++ "_j" else "t") ++ toString entityAlias
      let keyword := joinKeyword join.kind
      let (clause, pivotAlias) := match join.pivot with
        | some pivot =>
          let pivotName := (if correlatedScope then rootAlias ++ "_p" else "p") ++ toString pivotAlias
          (keyword ++ dialect.quoteIdentifier pivot.table ++ " AS " ++
              dialect.quoteIdentifier pivotName ++ " ON " ++
              qcol dialect pivotName pivot.rootColumn ++ " = " ++
              qcol dialect ownerAlias join.ownerColumn ++
            keyword ++ dialect.quoteIdentifier join.targetTable ++ " AS " ++
              dialect.quoteIdentifier targetAlias ++ " ON " ++
              qcol dialect targetAlias join.targetColumn ++ " = " ++
              qcol dialect pivotName pivot.targetColumn, pivotAlias + 1)
        | none =>
          (keyword ++ dialect.quoteIdentifier join.targetTable ++ " AS " ++
              dialect.quoteIdentifier targetAlias ++ " ON " ++
              qcol dialect ownerAlias join.ownerColumn ++ " = " ++
              qcol dialect targetAlias join.targetColumn, pivotAlias)
      let (rest, aliases) ← compileJoins dialect rootAlias correlatedScope joins (entityAlias + 1)
        pivotAlias (aliases ++ [(join.targetType, targetAlias)])
      return (clause ++ rest, aliases)

/-- The loop of `compile_impl` over the CTE joins. -/
def compileCteJoins (ctx : CompileContext) (joins : List CteJoinSpec) : Except Exn String := do
  let clauses ← joins.mapM fun join => do
    return joinKeyword join.kind ++ ctx.dialect.quoteIdentifier join.cteName ++ " ON " ++
      (← compileColumn ctx join.ownerColumn) ++ " = " ++
      qcol ctx.dialect join.cteName join.cteColumn
  return "".intercalate clauses

/-- The default projection: every column of the root entity. -/
def rootColumns (dialect : Dialect) (root : EntityInfo) (rootAlias : String) : String :=
  ", ".intercalate (root.columns.map fun name =>
    if rootAlias = "" then dialect.quoteIdentifier name
    else qcol dialect rootAlias name ++ " AS " ++ dialect.quoteIdentifier name)

/-- The alias of the root entity in `compile_impl`. -/
def rootAliasOf (query : SelectQuery V) (hasExtraWhere : Bool) (override : String) : String :=
  if override ≠ "" then override
  else match query.derivedSource with
    | some derived => derived.aliasName
    | none =>
      if !query.joins.isEmpty || !query.cteJoins.isEmpty || hasExtraWhere then "t0" else ""

/-- The WHERE clause of `compile_impl`. -/
def whereClause (whereSql extraSql : Option (Sql V)) : Sql V :=
  match whereSql, extraSql with
  | some w, some e => " WHERE (" ++ w ++ ") AND (" ++ e ++ ")"
  | some w, none => " WHERE " ++ w
  | none, some e => " WHERE " ++ e
  | none, none => Sql.empty

/-- The HAVING clause of `compile_impl`. -/
def havingClause : Option (Sql V) → Sql V
  | some sql => " HAVING " ++ sql
  | none => Sql.empty

/-- The part of `compile_impl` that runs `extra_where`: an empty text is left out
    together with its parameters. -/
def compileExtraWhere (dialect : Dialect) (rootAlias : String) :
    Option (ExtraWhereCompiler V) → CompileM V (Option (Sql V))
  | none => return none
  | some extraWhere => do
    let params ← get
    let compiled ← extraWhere (offsetPlaceholders dialect params.length) rootAlias
    if compiled.sql.isEmpty then return none
    set (params ++ compiled.params)
    return some compiled.sql

/-- The text of `compile_impl` behind the set operations. -/
def compileTail (ctx : CompileContext) (query : SelectQuery V) (terminate : Bool) :
    Except Exn String := do
  let order ←
    if query.orderBy.isEmpty then pure ""
    else return " ORDER BY " ++ (← compileOrder ctx query.orderBy)
  let limit := match query.limit with
    | some n => " LIMIT " ++ toString n
    | none => ""
  let offset := match query.offset with
    | some n => " OFFSET " ++ toString n
    | none => ""
  return order ++ limit ++ offset ++ (if terminate then ";" else "")

/-- The compilers of the parts of a query that contain expressions or queries. -/
structure QueryParts (V : Type) where
  ctes : CompileM V (List (Sql V))
  projections : CompileContext → CompileM V (List (Sql V))
  source : (rootAlias : String) → CompileM V (Sql V)
  where_ : CompileContext → CompileM V (Option (Sql V))
  having : CompileContext → CompileM V (Option (Sql V))
  setOperations : CompileM V (Sql V)

/-- The text of `compile_impl`, from the compilers of its parts. -/
def assembleSql (query : SelectQuery V) (dialect : Dialect) (terminate : Bool)
    (extraWhere : Option (ExtraWhereCompiler V)) (override : String) (parts : QueryParts V) :
    CompileM V (Sql V) := do
  let rootAlias := rootAliasOf query extraWhere.isSome override
  let cteTexts ← parts.ctes
  let withSql : Sql V := if query.ctes.isEmpty then Sql.empty
    else (if query.ctes.any (·.recursive) then "WITH RECURSIVE " else "WITH ") ++
      Sql.join ", " cteTexts ++ " "
  let (joinSql, aliases) ← compileJoins dialect rootAlias (override ≠ "") query.joins 1 0
    [(query.root.type, rootAlias)]
  let ctx : CompileContext := { dialect, aliases }
  let cteJoinSql ← compileCteJoins ctx query.cteJoins
  let projectionTexts ← parts.projections ctx
  let projectionSql : Sql V :=
    if query.projections.isEmpty then rootColumns dialect query.root rootAlias
    else Sql.join ", " projectionTexts
  let source ← parts.source rootAlias
  let whereSql ← parts.where_ ctx
  let extraSql ← compileExtraWhere dialect rootAlias extraWhere
  let groupSql ← compileGroupBy ctx query.groupBy
  let havingSql ← parts.having ctx
  let setSql ← parts.setOperations
  let tail ← compileTail ctx query terminate
  return withSql ++ "SELECT " ++ (if query.distinct then "DISTINCT " else "") ++ projectionSql ++
    " FROM " ++ source ++ joinSql ++ cteJoinSql ++ whereClause whereSql extraSql ++ groupSql ++
    havingClause havingSql ++ setSql ++ tail

/-- `compile_impl`, from the compilers of its parts: the parameter vector starts empty. -/
def assembleQuery (query : SelectQuery V) (dialect : Dialect) (terminate : Bool)
    (extraWhere : Option (ExtraWhereCompiler V)) (override : String) (parts : QueryParts V) :
    Except Exn (CompiledQuery V) := do
  let (sql, params) ← assembleSql query dialect terminate extraWhere override parts []
  return { sql, params }

/-! ## Expressions and queries -/

mutual

/-- `compile_scalar`, with `compile_arithmetic`, `compile_function`,
    `compile_case` and `compile_window`. -/
def compileScalar (ctx : CompileContext) : ScalarNode V → CompileM V (Sql V)
  | .column ref => do
    let text ← compileColumn ctx ref
    return text
  | .value v => bindLiteral ctx.dialect v
  | .arithmetic left op right => do
    let left ← compileScalar ctx left
    let right ← compileScalar ctx right
    return "(" ++ left ++ " " ++ arithmeticToken op ++ " " ++ right ++ ")"
  | .aggregate ref => do
    let text ← compileAggregate ctx ref
    return text
  | .function name args => do
    validateFunctionIdentifier name
    let upper := upperAscii name
    if ctx.dialect.family = .postgres then do
      let args ← compileScalars ctx args
      renderPostgresFunction upper name args
    else if upper = "TRUNCATE" then
      -- the digits are compiled twice, so that each placeholder has its own parameter
      match args with
      | [value, digits] => do
        let value ← compileScalar ctx value
        let scaleLeft ← compileScalar ctx digits
        let scaleRight ← compileScalar ctx digits
        return "(CAST((" ++ value ++ ") * pow(10.0, " ++ scaleLeft ++ ") AS INTEGER) / pow(10.0, " ++
          scaleRight ++ "))"
      | _ => throw (.ofText "MetalORM: TRUNCATE expects value and digits")
    else do
      let args ← compileScalars ctx args
      renderFunction upper name args
  | .case branches elseValue => do
    if branches.isEmpty then throw (.ofText "MetalORM: CASE requires at least one WHEN branch")
    let whens ← compileBranches ctx branches
    let otherwise ← compileElse ctx elseValue
    return "CASE" ++ whens ++ otherwise ++ " END"
  | .window name args partitionBy orderBy => do
    validateFunctionIdentifier name
    let args ← compileScalars ctx args
    let overClause ← compileOver ctx partitionBy orderBy
    return name ++ "(" ++ Sql.join ", " args ++ overClause

/-- The arguments of a function, from left to right. -/
def compileScalars (ctx : CompileContext) : List (ScalarNode V) → CompileM V (List (Sql V))
  | [] => return []
  | arg :: args => do
    let text ← compileScalar ctx arg
    let texts ← compileScalars ctx args
    return text :: texts

/-- The WHEN branches of a CASE. -/
def compileBranches (ctx : CompileContext) : List (CaseBranch V) → CompileM V (Sql V)
  | [] => return Sql.empty
  | { when, thenValue } :: branches => do
    let whenSql ← compileExpression ctx when
    let thenSql ← compileScalar ctx thenValue
    let rest ← compileBranches ctx branches
    return " WHEN " ++ whenSql ++ " THEN " ++ thenSql ++ rest

/-- The ELSE part of a CASE. -/
def compileElse (ctx : CompileContext) : Option (ScalarNode V) → CompileM V (Sql V)
  | none => return Sql.empty
  | some value => do
    let text ← compileScalar ctx value
    return " ELSE " ++ text

/-- `compile_expression`. -/
def compileExpression (ctx : CompileContext) : ExprNode V → CompileM V (Sql V)
  | .comparison left op right => do
    let left ← compileScalar ctx left
    let right ← compileScalar ctx right
    return left ++ " " ++ compareToken op ++ " " ++ right
  | .nullCheck operand negated => do
    let operand ← compileScalar ctx operand
    return operand ++ (if negated then " IS NOT NULL" else " IS NULL")
  | .like operand pattern negated => do
    let operand ← compileScalar ctx operand
    let pattern ← compileScalar ctx pattern
    return operand ++ (if negated then " NOT LIKE " else " LIKE ") ++ pattern
  | .between operand lower upper negated => do
    let operand ← compileScalar ctx operand
    let lower ← compileScalar ctx lower
    let upper ← compileScalar ctx upper
    return operand ++ (if negated then " NOT BETWEEN " else " BETWEEN ") ++ lower ++ " AND " ++ upper
  | .inValues operand values negated => do
    if values.isEmpty then return (if negated then "1 = 1" else "0 = 1" : String)
    let operand ← compileScalar ctx operand
    let values ← bindLiterals ctx.dialect values
    return operand ++ (if negated then " NOT IN (" else " IN (") ++ Sql.join ", " values ++ ")"
  | .inSubquery operand subquery negated => do
    let left ← compileScalar ctx operand
    -- `compile_scalar_subquery`
    let sql ← nest ctx.dialect fun dialect =>
      if subquery.projectionArity ≠ 1 then
        throw (.ofText "MetalORM: scalar subquery must project exactly one expression")
      else compileImpl subquery dialect false none ""
    return left ++ (if negated then " NOT IN (" else " IN (") ++ sql ++ ")"
  | .exists subquery negated => do
    let sql ← nest ctx.dialect fun dialect => compileImpl subquery dialect false none ""
    return (if negated then "NOT EXISTS (" else "EXISTS (") ++ sql ++ ")"
  | .logical op left right => do
    let left ← compileExpression ctx left
    let right ← compileExpression ctx right
    return "(" ++ left ++ (if op = .and then " AND " else " OR ") ++ right ++ ")"
  | .not operand => do
    let operand ← compileExpression ctx operand
    return "NOT (" ++ operand ++ ")"

/-- The expression of WHERE or HAVING, when there is one. -/
def compileOptional (ctx : CompileContext) : Option (ExprNode V) → CompileM V (Option (Sql V))
  | none => return none
  | some expression => do
    let text ← compileExpression ctx expression
    return some text

/-- `append_projection_sql` for explicit projections. -/
def compileProjections (ctx : CompileContext) : List (ProjectionSpec V) → CompileM V (List (Sql V))
  | [] => return []
  | { expression, aliasName } :: projections => do
    let text ← compileScalar ctx expression
    let texts ← compileProjections ctx projections
    let suffix := match aliasName with
      | some name => " AS " ++ ctx.dialect.quoteIdentifier name
      | none => ""
    return (text ++ suffix) :: texts

/-- The loop of `compile_impl` over the CTEs. -/
def compileCtes (dialect : Dialect) : List (CteSpec V) → CompileM V (List (Sql V))
  | [] => return []
  | { name, columns, recursive := _, query } :: ctes => do
    let sql ← nest dialect fun dialect => compileImpl query dialect false none ""
    let texts ← compileCtes dialect ctes
    let columnList := if columns.isEmpty then ""
      else " (" ++ ", ".intercalate (columns.map dialect.quoteIdentifier) ++ ")"
    return (dialect.quoteIdentifier name ++ columnList ++ " AS (" ++ sql ++ ")") :: texts

/-- The loop of `compile_impl` over the set operations. -/
def compileSetOperations (dialect : Dialect) : List (SetOperationSpec V) → CompileM V (Sql V)
  | [] => return Sql.empty
  | { kind, query } :: operations => do
    let sql ← nest dialect fun dialect => compileImpl query dialect false none ""
    let rest ← compileSetOperations dialect operations
    return " " ++ setOperationToken kind ++ " " ++ sql ++ rest

/-- `compile_from_source` of `query`, given its derived source. -/
def compileFromSource (dialect : Dialect) (query : SelectQuery V) (rootAlias : String) :
    Option (DerivedSourceSpec V) → CompileM V (Sql V)
  | none =>
    let table := dialect.quoteIdentifier (query.fromName.getD query.root.table)
    return table ++ (if rootAlias = "" then "" else " AS " ++ dialect.quoteIdentifier rootAlias)
  | some { aliasName, query := source } => do
    let sql ← nest dialect fun dialect => compileImpl source dialect false none ""
    let name := if rootAlias = "" then aliasName else rootAlias
    return "(" ++ sql ++ ") AS " ++ dialect.quoteIdentifier name

/-- `BasicSelectQuery::compile_impl`. -/
def compileImpl : SelectQuery V → (dialect : Dialect) → (terminate : Bool) →
    (extraWhere : Option (ExtraWhereCompiler V)) → (rootAliasOverride : String) →
      Except Exn (CompiledQuery V)
  | query@{ projections, where_, having, derivedSource, ctes, setOperations, .. },
      dialect, terminate, extraWhere, override =>
    assembleQuery query dialect terminate extraWhere override {
      ctes := compileCtes dialect ctes
      projections := fun ctx => compileProjections ctx projections
      source := fun rootAlias => compileFromSource dialect query rootAlias derivedSource
      where_ := fun ctx => compileOptional ctx where_
      having := fun ctx => compileOptional ctx having
      setOperations := compileSetOperations dialect setOperations }

end

/-- `BasicSelectQuery::compile`. -/
def SelectQuery.compile (query : SelectQuery V) (dialect : Dialect) :
    Except Exn (CompiledQuery V) :=
  compileImpl query dialect true none ""

/-- `BasicSelectQuery::compile_subquery`. -/
def SelectQuery.compileSubquery (query : SelectQuery V) (dialect : Dialect) :
    Except Exn (CompiledQuery V) :=
  compileImpl query dialect false none ""

/-- `BasicSelectQuery::compile_subquery_with_extra_where`. -/
def SelectQuery.compileSubqueryWithExtraWhere (query : SelectQuery V) (dialect : Dialect)
    (extraWhere : ExtraWhereCompiler V) (rootAliasOverride : String := "") :
    Except Exn (CompiledQuery V) :=
  compileImpl query dialect false (some extraWhere) rootAliasOverride

end MetalOrm.Native.Query
