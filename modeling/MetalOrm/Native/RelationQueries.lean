import MetalOrm.Native.SelectCompiler

/-!
# Relation filters and batch loaders

`metal/query/relation_queries.hpp`, `make_every_relation_filter`
(`metal/dto_relation_filter.hpp`) and the statements of the batch relation loaders
of `Session` (`metal/orm.hpp`).
-/

namespace MetalOrm.Native.Query

variable {V : Type}

/-! ## Relations -/

/-- The columns of a relation, as its annotation and reflection give them. -/
inductive RelationColumns (V : Type) where
  | belongsTo (foreignKey targetKey : String)
  | hasOne (targetForeignKey localKey : String)
  | hasMany (targetForeignKey localKey : String)
  | manyToMany (pivot pivotRootKey pivotTargetKey localKey targetKey : String)
  | morphOne (typeField idField localKey : String) (typeValue : V)
  | morphMany (typeField idField localKey : String) (typeValue : V)

/-- A reflected relation that filters accept: `morph_to` is refused at compile time. -/
structure RelationInfo (V : Type) where
  name : String
  target : EntityInfo
  targetPrimaryKey : String
  columns : RelationColumns V

/-- The correlation of a morph relation. -/
def morphCorrelation (dialect : Dialect) (childAlias outerAlias typeField idField localKey : String)
    (typeValue : V) : Except Exn (CompiledQuery V) := do
  let placeholder ← dialect.placeholder 1
  return {
    sql := qcol dialect childAlias idField ++ " = " ++ qcol dialect outerAlias localKey ++ " AND " ++
      qcol dialect childAlias typeField ++ " = " ++ Sql.hole placeholder typeValue
    params := [typeValue] }

/-- `compile_relation_correlation`. -/
def compileRelationCorrelation (relation : RelationInfo V) (dialect : Dialect)
    (childAlias outerAlias : String) : Except Exn (CompiledQuery V) :=
  match relation.columns with
  | .belongsTo foreignKey targetKey => return {
      sql := qcol dialect childAlias targetKey ++ " = " ++ qcol dialect outerAlias foreignKey }
  | .hasOne targetForeignKey localKey | .hasMany targetForeignKey localKey => return {
      sql := qcol dialect childAlias targetForeignKey ++ " = " ++ qcol dialect outerAlias localKey }
  | .manyToMany pivot pivotRootKey pivotTargetKey localKey targetKey =>
    let pivotAlias := childAlias ++ "_pivot"
    return {
      sql := "EXISTS (SELECT 1 FROM " ++ dialect.quoteIdentifier pivot ++ " AS " ++
        dialect.quoteIdentifier pivotAlias ++ " WHERE " ++
        qcol dialect pivotAlias pivotTargetKey ++ " = " ++ qcol dialect childAlias targetKey ++
        " AND " ++ qcol dialect pivotAlias pivotRootKey ++ " = " ++
        qcol dialect outerAlias localKey ++ ")" }
  | .morphOne typeField idField localKey typeValue
  | .morphMany typeField idField localKey typeValue =>
    morphCorrelation dialect childAlias outerAlias typeField idField localKey typeValue

/-! ## Filtered queries -/

mutual

/-- What a relation filter can be about: a plain query, or a `RelationFilteredQuery`. -/
inductive CorrelatedQuery (V : Type) where
  | basic (query : SelectQuery V)
  | filtered (base : SelectQuery V) (filters : List (RelationFilter V))

/-- A `RelationFilterSpec`, as `make_relation_filter` or `make_every_relation_filter`
    builds it. -/
inductive RelationFilter (V : Type) where
  | related (relation : RelationInfo V) (child : CorrelatedQuery V) (negated : Bool)
  | every (relation : RelationInfo V) (predicate : CorrelatedQuery V)

end

/-- `RelationFilterSpec::negated`. -/
def RelationFilter.negated : RelationFilter V → Bool
  | .related _ _ negated => negated
  | .every _ _ => true

/-- `select<Target>()`. -/
def selectTarget (relation : RelationInfo V) : SelectQuery V := { root := relation.target }

/-- The condition of `make_every_relation_filter` that two aliases are the same row. -/
def sameRow (relation : RelationInfo V) (child : String) : ExtraWhereCompiler V :=
  fun dialect rootAlias => return {
    sql := qcol dialect rootAlias relation.targetPrimaryKey ++ " = " ++
      qcol dialect child relation.targetPrimaryKey }

/-- The extra condition of `make_every_relation_filter`: the row is related, and the predicate
    query does not find it. Both are compiled in the same dialect. -/
def everyCondition (relation : RelationInfo V) (outer : String)
    (matching : Dialect → (childAlias : String) → Except Exn (CompiledQuery V)) :
    ExtraWhereCompiler V :=
  fun dialect childAlias => do
    let correlation ← compileRelationCorrelation relation dialect childAlias outer
    let matching ← matching dialect childAlias
    return {
      sql := correlation.sql ++ " AND NOT EXISTS (" ++ matching.sql ++ ")"
      params := correlation.params ++ matching.params }

/-- `append_predicate` on the texts that are not empty. -/
def joinPredicates (predicates : List (Sql V)) : Sql V :=
  Sql.join " AND " (predicates.map fun sql => "(" ++ sql ++ ")")

/-- `compile_relation_filter_list`; `filters` is its loop over the filters. -/
def compileRelationFilterList (dialect : Dialect) (rootAlias : String)
    (filters : CompileM V (List (Sql V))) (outerExtra : Option (ExtraWhereCompiler V)) :
    Except Exn (CompiledQuery V) := do
  let body : CompileM V (Sql V) := do
    let predicates ← filters
    let extra ← compileExtraWhere dialect rootAlias outerExtra
    return joinPredicates (predicates ++ extra.toList)
  let (sql, params) ← body []
  return { sql, params }

mutual

/-- `compile_subquery_with_extra_where` of a plain or a filtered query. -/
def CorrelatedQuery.compileWith : CorrelatedQuery V → Dialect →
    (extraWhere : Option (ExtraWhereCompiler V)) → (rootAliasOverride : String) →
      Except Exn (CompiledQuery V)
  | .basic query, dialect, extraWhere, override =>
    compileImpl query dialect false extraWhere override
  | .filtered base filters, dialect, extraWhere, override =>
    compileImpl base dialect false (some fun dialect rootAlias =>
      compileRelationFilterList dialect rootAlias (compileFilters dialect rootAlias filters)
        extraWhere) override

/-- The loop of `compile_relation_filter_list`. -/
def compileFilters (dialect : Dialect) (rootAlias : String) :
    List (RelationFilter V) → CompileM V (List (Sql V))
  | [] => return []
  | filter :: filters => do
    let sql ← nest dialect fun dialect => filter.compileExists dialect rootAlias
    let texts ← compileFilters dialect rootAlias filters
    return ((if filter.negated then "NOT EXISTS (" else "EXISTS (") ++ sql ++ ")") :: texts

/-- `RelationFilterSpec::compile_exists`. -/
def RelationFilter.compileExists : RelationFilter V → Dialect → (outerAlias : String) →
    Except Exn (CompiledQuery V)
  | .related relation child _, dialect, outer =>
    child.compileWith dialect (some fun dialect childAlias =>
      compileRelationCorrelation relation dialect childAlias outer) (outer ++ "_rel")
  | .every relation predicate, dialect, outer =>
    compileImpl (selectTarget relation) dialect false (some (everyCondition relation outer
      fun dialect childAlias => predicate.compileWith dialect (some (sameRow relation childAlias))
        (childAlias ++ "_every"))) (outer ++ "_rel")

end

/-- `compile` of a plain or a filtered query. -/
def CorrelatedQuery.compile (query : CorrelatedQuery V) (dialect : Dialect) :
    Except Exn (CompiledQuery V) :=
  match query with
  | .basic query => query.compile dialect
  | .filtered _ _ => do
    let out ← query.compileWith dialect none ""
    return { out with sql := out.sql ++ ";" }

/-! ## Batch loaders -/

/-- `append_target_columns`. -/
def targetColumns (dialect : Dialect) (target : EntityInfo) (aliasName : String) : String :=
  ", ".intercalate (target.columns.map fun name => aliasName ++ "." ++ dialect.quoteIdentifier name)

/-- `append_pivot_columns`. -/
def pivotColumns (dialect : Dialect) (pivot : EntityInfo) (aliasName : String) : String :=
  "".intercalate (pivot.columns.map fun name =>
    ", " ++ aliasName ++ "." ++ dialect.quoteIdentifier name ++ " AS " ++
      dialect.quoteIdentifier ("__metal_pivot_" ++ name))

/-- `append_in_placeholders`, from the placeholder of number `index` on: the parameters
    are the keys. -/
def inPlaceholders (dialect : Dialect) : (index : Nat) → (keys : List V) →
    Except Exn (List (Sql V))
  | _, [] => return []
  | index, key :: keys => do
    let placeholder ← dialect.placeholder index
    return Sql.hole placeholder key :: (← inPlaceholders dialect (index + 1) keys)

/-- The statement of a loader that finds rows by a list of keys, which is not empty; `tail` is
    what follows the list, with the parameters it needs. -/
def loadByKeys (dialect : Dialect) (columns source keyColumn : String) (keys : List V)
    (tail : CompiledQuery V) : Except Exn (CompiledQuery V) := do
  let list ← inPlaceholders dialect 1 keys
  return {
    sql := "SELECT " ++ columns ++ " FROM " ++ source ++ " WHERE " ++ keyColumn ++ " IN (" ++
      Sql.join ", " list ++ ")" ++ tail.sql
    params := keys ++ tail.params }

/-- The columns of a loader that needs the key of the root with each row. -/
def keyedColumns (dialect : Dialect) (target : EntityInfo) (keyColumn : String) : String :=
  targetColumns dialect target "t" ++ ", t." ++ dialect.quoteIdentifier keyColumn ++
    " AS \"__metal_root_key\""

/-- `load_has_many_batch`. -/
def loadHasManyBatch (dialect : Dialect) (target : EntityInfo) (targetForeignKey : String)
    (keys : List V) : Except Exn (CompiledQuery V) :=
  loadByKeys dialect (keyedColumns dialect target targetForeignKey)
    (dialect.quoteIdentifier target.table ++ " t") ("t." ++ dialect.quoteIdentifier targetForeignKey)
    keys { sql := ";" }

/-- `load_has_one_batch`. -/
def loadHasOneBatch (dialect : Dialect) (target : EntityInfo) (targetForeignKey : String)
    (keys : List V) : Except Exn (CompiledQuery V) :=
  loadByKeys dialect (keyedColumns dialect target targetForeignKey)
    (dialect.quoteIdentifier target.table ++ " t") ("t." ++ dialect.quoteIdentifier targetForeignKey)
    keys { sql := ";" }

/-- `load_belongs_to_batch`. -/
def loadBelongsToBatch (dialect : Dialect) (target : EntityInfo) (targetKey : String)
    (keys : List V) : Except Exn (CompiledQuery V) :=
  loadByKeys dialect (targetColumns dialect target "t")
    (dialect.quoteIdentifier target.table ++ " t") ("t." ++ dialect.quoteIdentifier targetKey)
    keys { sql := ";" }

/-- `load_many_to_many_batch`. -/
def loadManyToManyBatch (dialect : Dialect) (target pivot : EntityInfo)
    (pivotRootKey pivotTargetKey targetKey : String) (keys : List V) :
    Except Exn (CompiledQuery V) :=
  loadByKeys dialect
    (targetColumns dialect target "t" ++ pivotColumns dialect pivot "p" ++ ", p." ++
      dialect.quoteIdentifier pivotRootKey ++ " AS \"__metal_root_key\"")
    (dialect.quoteIdentifier target.table ++ " t JOIN " ++ dialect.quoteIdentifier pivot.table ++
      " p ON p." ++ dialect.quoteIdentifier pivotTargetKey ++ " = t." ++
      dialect.quoteIdentifier targetKey)
    ("p." ++ dialect.quoteIdentifier pivotRootKey) keys { sql := ";" }

/-- What follows the key list of a morph loader. The placeholder is written `?`, whatever
    the dialect. -/
def morphTail (dialect : Dialect) (typeField : String) (typeValue : V) : CompiledQuery V where
  sql := " AND t." ++ dialect.quoteIdentifier typeField ++ " = " ++
    Sql.hole .question typeValue ++ ";"
  params := [typeValue]

/-- `load_morph_one_batch`. -/
def loadMorphOneBatch (dialect : Dialect) (target : EntityInfo) (typeField idField : String)
    (typeValue : V) (keys : List V) : Except Exn (CompiledQuery V) :=
  loadByKeys dialect (keyedColumns dialect target idField)
    (dialect.quoteIdentifier target.table ++ " t") ("t." ++ dialect.quoteIdentifier idField)
    keys (morphTail dialect typeField typeValue)

/-- `load_morph_many_batch`. -/
def loadMorphManyBatch (dialect : Dialect) (target : EntityInfo) (typeField idField : String)
    (typeValue : V) (keys : List V) : Except Exn (CompiledQuery V) :=
  loadByKeys dialect (keyedColumns dialect target idField)
    (dialect.quoteIdentifier target.table ++ " t") ("t." ++ dialect.quoteIdentifier idField)
    keys (morphTail dialect typeField typeValue)

/-- The statement of one case of `load_morph_to_batch`. -/
def loadMorphToBatch (dialect : Dialect) (target : EntityInfo) (targetKey : String)
    (keys : List V) : Except Exn (CompiledQuery V) :=
  loadByKeys dialect (targetColumns dialect target "t")
    (dialect.quoteIdentifier target.table ++ " t") ("t." ++ dialect.quoteIdentifier targetKey)
    keys { sql := ";" }

end MetalOrm.Native.Query
