import Mathlib.Data.List.DropRight
import MetalOrm.Native.SchemaTypes

/-!
# Schema diff

`metal/schema_diff.hpp`: the normalisations, `diff_schema` for SQLite and PostgreSQL, and
`execute_schema_plan`. What a function pushes onto the plan is the part of the plan that it
returns.
-/

namespace MetalOrm.Native.Schema

open Query (Dialect DialectFamily)

/-! ## Normalisations -/

/-- `std::isspace`. -/
def isSpace (c : Char) : Bool :=
  c = ' ' || c = '\t' || c = '\n' || c = '\x0b' || c = '\x0c' || c = '\r'

/-- The loop of `normalize_schema_type`. -/
def normalizeTypeChars (result : List Char) (pendingSpace : Bool) : List Char → List Char
  | [] => result
  | c :: cs =>
    if isSpace c then normalizeTypeChars result (!result.isEmpty) cs
    else normalizeTypeChars (result ++ (if pendingSpace then [' '] else []) ++ [c.toLower]) false cs

/-- `normalize_schema_type`. -/
def normalizeSchemaType (value : String) : String :=
  String.ofList ((normalizeTypeChars [] false value.toList).rdropWhile (· = ' '))

/-- A character that trimming removes. -/
def isBlank (c : Char) : Bool := c = ' ' || c = '\t' || c = '\r' || c = '\n'

/-- `normalize_check_expression`. -/
def normalizeCheckExpression (value : String) : String :=
  String.ofList ((value.toList.dropWhile isBlank).rdropWhile isBlank)

/-- `normalize_schema_default` and `normalize_optional_check_expression`. -/
def normalizeSchemaDefault (value : Option String) : Option String :=
  value.map normalizeCheckExpression

/-- `normalize_reference_action`. -/
def normalizeReferenceAction (value : Option String) : String :=
  match value with
  | none => "NO ACTION"
  | some action => if action.isEmpty then "NO ACTION" else String.ofList (action.toList.map Char.toUpper)

/-! ## Comparisons -/

/-- `same_reference`, both references present. -/
def sameNamedReference (expected actual : ForeignKeyReference) : Bool :=
  expected.table = actual.table && expected.column = actual.column &&
  expected.name = actual.name && expected.deferrable = actual.deferrable &&
  expected.schema = actual.schema &&
  normalizeReferenceAction expected.onDelete = normalizeReferenceAction actual.onDelete &&
  normalizeReferenceAction expected.onUpdate = normalizeReferenceAction actual.onUpdate

/-- `same_reference`. -/
def sameReference (expected actual : Option ForeignKeyReference) : Bool :=
  match expected, actual with
  | some expected, some actual => sameNamedReference expected actual
  | expected, actual => expected.isNone && actual.isNone

/-- `same_reference_definition`. -/
def sameReferenceDefinition (expected actual : ForeignKeyReference) : Bool :=
  expected.table = actual.table && expected.column = actual.column &&
  expected.deferrable = actual.deferrable && expected.schema = actual.schema &&
  normalizeReferenceAction expected.onDelete = normalizeReferenceAction actual.onDelete &&
  normalizeReferenceAction expected.onUpdate = normalizeReferenceAction actual.onUpdate

/-- `same_check`. -/
def sameCheck (expected actual : DatabaseCheck) : Bool :=
  expected.name = actual.name &&
  normalizeCheckExpression expected.expression = normalizeCheckExpression actual.expression

/-- The inner loop of `same_checks`: mark the first check that is not matched and is the same. -/
def matchCheck (check : DatabaseCheck) : List DatabaseCheck → List Bool → Option (List Bool)
  | candidate :: actual, marked :: matched =>
    if !marked && sameCheck check candidate then some (true :: matched)
    else (matchCheck check actual matched).map (marked :: ·)
  | _, _ => none

/-- The loop of `same_checks`. -/
def matchChecks (actual : List DatabaseCheck) : List DatabaseCheck → List Bool → Bool
  | [], _ => true
  | check :: expected, matched =>
    match matchCheck check actual matched with
    | none => false
    | some matched => matchChecks actual expected matched

/-- `same_checks`. -/
def sameChecks (expected actual : List DatabaseCheck) : Bool :=
  expected.length = actual.length &&
    matchChecks actual expected (List.replicate actual.length false)

/-- `find_column`. -/
def findColumn (table : DatabaseTable) (name : String) : Option DatabaseColumn :=
  table.columns.find? (·.name = name)

/-- `find_index`. -/
def findIndex (table : DatabaseTable) (name : String) : Option DatabaseIndex :=
  table.indexes.find? (·.name = name)

/-- `same_index`. -/
def sameIndex (expected actual : DatabaseIndex) : Bool :=
  expected.unique = actual.unique && expected.columns = actual.columns &&
    expected.where_ = actual.where_

/-- `ColumnDiff`. -/
structure ColumnDiff where
  typeChanged : Bool
  nullabilityChanged : Bool
  uniqueChanged : Bool
  uniqueNameChanged : Bool
  defaultChanged : Bool
  autoIncrementChanged : Bool
  checkChanged : Bool
  referenceChanged : Bool

/-- `any`. -/
def ColumnDiff.any (diff : ColumnDiff) : Bool :=
  diff.typeChanged || diff.nullabilityChanged || diff.uniqueChanged || diff.uniqueNameChanged ||
  diff.defaultChanged || diff.autoIncrementChanged || diff.checkChanged || diff.referenceChanged

/-- `postgres_scalar_mutation`. -/
def ColumnDiff.postgresScalarMutation (diff : ColumnDiff) : Bool :=
  diff.typeChanged || diff.nullabilityChanged || diff.defaultChanged || diff.autoIncrementChanged

/-- `diff_column`. -/
def diffColumn (expected actual : DatabaseColumn) : ColumnDiff where
  typeChanged := normalizeSchemaType expected.type ≠ normalizeSchemaType actual.type
  nullabilityChanged := expected.notNull ≠ actual.notNull
  uniqueChanged := expected.unique ≠ actual.unique
  uniqueNameChanged := expected.uniqueName ≠ actual.uniqueName
  defaultChanged :=
    normalizeSchemaDefault expected.defaultValue ≠ normalizeSchemaDefault actual.defaultValue
  autoIncrementChanged := expected.autoIncrement ≠ actual.autoIncrement
  checkChanged := normalizeSchemaDefault expected.check ≠ normalizeSchemaDefault actual.check
  referenceChanged := !sameReference expected.references actual.references

/-! ## SQLite -/

/-- What `diff_sqlite_table` does for a column of the expected table. -/
def diffSqliteColumn (expected actual : DatabaseTable) (column : DatabaseColumn) : SchemaPlan :=
  match findColumn actual column.name with
  | none =>
    if column.unique then
      .change {
        kind := .addColumn
        table := expected.name
        description := "Add unique column " ++ column.name ++ " to " ++ expected.name
        statements := []
        safe := false } ++
      .warning ("SQLite ADD COLUMN does not permit UNIQUE constraints; rebuild table " ++
        expected.name ++ " to add unique column " ++ column.name ++ ".")
    else .change {
      kind := .addColumn
      table := expected.name
      description := "Add column " ++ column.name ++ " to " ++ expected.name
      statements := [.addColumn expected.name column] }
  | some actualColumn =>
    if (diffColumn column actualColumn).any then
      .warning ("SQLite ALTER COLUMN is not supported; rebuild table " ++
        expected.name ++ " to change column " ++ column.name ++ ".")
    else .empty

/-- What `diff_sqlite_table` does for a column of the actual table. -/
def dropSqliteColumn (expected : DatabaseTable) (column : DatabaseColumn) : SchemaPlan :=
  if (findColumn expected column.name).isSome then .empty
  else .change {
    kind := .dropColumn
    table := expected.name
    description := "Drop column " ++ column.name ++ " from " ++ expected.name
    statements := []
    safe := false } ++
  .warning ("Dropping columns on SQLite requires table rebuild (column " ++
    column.name ++ " on " ++ expected.name ++ ").")

/-- The creation of an index that is missing. -/
def createIndexChange (table : DatabaseTable) (index : DatabaseIndex) : SchemaPlan :=
  .change {
    kind := .addIndex
    table := table.name
    description := "Create index " ++ index.name ++ " on " ++ table.name
    statements := [.createIndex table.name index] }

/-- What `diff_sqlite_table` does for an index of the expected table. -/
def diffSqliteIndex (expected actual : DatabaseTable) (index : DatabaseIndex) : SchemaPlan :=
  match findIndex actual index.name with
  | none => createIndexChange expected index
  | some actualIndex =>
    if sameIndex index actualIndex then .empty
    else .warning ("SQLite index " ++ index.name ++ " on " ++ expected.name ++
      " differs from the expected definition; drop/recreate it explicitly.")

/-- What both dialects do for an index of the actual table. -/
def dropIndexChange (expected : DatabaseTable) (options : SchemaDiffOptions)
    (index : DatabaseIndex) : SchemaPlan :=
  if (findIndex expected index.name).isSome then .empty
  else .change {
    kind := .dropIndex
    table := expected.name
    description := "Drop index " ++ index.name ++ " on " ++ expected.name
    statements := if options.allowDestructive then [.dropIndex index.name] else []
    safe := false }

/-- `diff_sqlite_table`. -/
def diffSqliteTable (expected actual : DatabaseTable) (options : SchemaDiffOptions) : SchemaPlan :=
  .concat (expected.columns.map (diffSqliteColumn expected actual)) ++
  (if sameChecks expected.checks actual.checks then .empty
    else .warning ("SQLite table CHECK constraints on " ++ expected.name ++
      " differ from the expected definition; rebuild the table to change them.")) ++
  .concat (actual.columns.map (dropSqliteColumn expected)) ++
  .concat (expected.indexes.map (diffSqliteIndex expected actual)) ++
  .concat (actual.indexes.map (dropIndexChange expected options))

/-! ## PostgreSQL -/

/-- `render_postgres_scalar_alterations`. -/
def renderPostgresScalarAlterations (table : DatabaseTable) (expected : DatabaseColumn)
    (diff : ColumnDiff) : List SchemaStatement :=
  (if diff.typeChanged then [.alterColumn table.name expected.name (.setType expected.type)]
    else []) ++
  (if diff.defaultChanged then
    [.alterColumn table.name expected.name (match expected.defaultValue with
      | some value => .setDefault value
      | none => .dropDefault)]
    else []) ++
  (if diff.nullabilityChanged then
    [.alterColumn table.name expected.name (if expected.notNull then .setNotNull else .dropNotNull)]
    else []) ++
  (if diff.autoIncrementChanged then
    [.alterColumn table.name expected.name
      (if expected.autoIncrement then .addIdentity else .dropIdentity)]
    else [])

/-- `postgres_column_constraint_name`. -/
def postgresColumnConstraintName (table : DatabaseTable) (column : DatabaseColumn)
    (suffix : String) (explicitName : Option String) : String :=
  explicitName.getD (table.name ++ "_" ++ column.name ++ "_" ++ suffix)

/-- `postgres_drop_constraint`. -/
def postgresDropConstraint (table : DatabaseTable) (constraint : String) : SchemaStatement :=
  .dropConstraint table.name constraint

/-- `postgres_add_unique_constraint`. -/
def postgresAddUniqueConstraint (table : DatabaseTable) (column : DatabaseColumn) :
    SchemaStatement :=
  .addUnique table.name (postgresColumnConstraintName table column "key" column.uniqueName)
    column.name

/-- `postgres_add_check_constraint`, with the expression of `column.check`. -/
def postgresAddCheckConstraint (table : DatabaseTable) (column : DatabaseColumn)
    (expression : String) : SchemaStatement :=
  .addCheck table.name (postgresColumnConstraintName table column "check" none) column.name
    expression

/-- `postgres_add_reference_constraint`. -/
def postgresAddReferenceConstraint (table : DatabaseTable) (column : DatabaseColumn)
    (reference : ForeignKeyReference) : SchemaStatement :=
  .addReference table.name (postgresColumnConstraintName table column "fkey" reference.name)
    column.name reference

/-- A change of a column. -/
def alterColumnChange (table : DatabaseTable) (description : String)
    (statements : List SchemaStatement) (safe : Bool) : SchemaPlan :=
  .change { kind := .alterColumn, table := table.name, description, statements, safe }

/-- `diff_postgres_unique_constraint`. -/
def diffPostgresUniqueConstraint (table : DatabaseTable) (expected actual : DatabaseColumn)
    (diff : ColumnDiff) (options : SchemaDiffOptions) : SchemaPlan :=
  if !diff.uniqueChanged && !diff.uniqueNameChanged then .empty
  else if expected.unique && !actual.unique then
    alterColumnChange table ("Add UNIQUE constraint on " ++ table.name ++ "." ++ expected.name)
      [postgresAddUniqueConstraint table expected] true
  else
    let actualName := postgresColumnConstraintName table actual "key" actual.uniqueName
    if !expected.unique && actual.unique then
      alterColumnChange table ("Drop UNIQUE constraint on " ++ table.name ++ "." ++ expected.name)
        (if options.allowDestructive then [postgresDropConstraint table actualName] else []) false
    else if expected.unique && actual.unique then
      let expectedName := postgresColumnConstraintName table expected "key" expected.uniqueName
      if actualName ≠ expectedName then
        alterColumnChange table
          ("Rename UNIQUE constraint on " ++ table.name ++ "." ++ expected.name)
          [.renameConstraint table.name actualName expectedName] true
      else .empty
    else .empty

/-- `diff_postgres_check_constraint`. -/
def diffPostgresCheckConstraint (table : DatabaseTable) (expected actual : DatabaseColumn)
    (diff : ColumnDiff) (options : SchemaDiffOptions) : SchemaPlan :=
  if !diff.checkChanged then .empty
  else
    let name := postgresColumnConstraintName table expected "check" none
    match expected.check, actual.check with
    | some expression, none =>
      alterColumnChange table ("Add CHECK constraint on " ++ table.name ++ "." ++ expected.name)
        [postgresAddCheckConstraint table expected expression] true
    | none, some _ =>
      alterColumnChange table ("Drop CHECK constraint on " ++ table.name ++ "." ++ expected.name)
        (if options.allowDestructive then [postgresDropConstraint table name] else []) false
    | some expression, some _ =>
      alterColumnChange table ("Replace CHECK constraint on " ++ table.name ++ "." ++ expected.name)
        [postgresDropConstraint table name, postgresAddCheckConstraint table expected expression]
        true
    | none, none => .empty

/-- `diff_postgres_reference_constraint`. -/
def diffPostgresReferenceConstraint (table : DatabaseTable) (expected actual : DatabaseColumn)
    (diff : ColumnDiff) (options : SchemaDiffOptions) : SchemaPlan :=
  if !diff.referenceChanged then .empty
  else match expected.references, actual.references with
    | some reference, none =>
      alterColumnChange table ("Add foreign key on " ++ table.name ++ "." ++ expected.name)
        [postgresAddReferenceConstraint table expected reference] true
    | none, some reference =>
      let actualName := postgresColumnConstraintName table actual "fkey" reference.name
      alterColumnChange table ("Drop foreign key on " ++ table.name ++ "." ++ expected.name)
        (if options.allowDestructive then [postgresDropConstraint table actualName] else []) false
    | none, none => .empty
    | some expectedReference, some actualReference =>
      let actualName := postgresColumnConstraintName table actual "fkey" actualReference.name
      let expectedName := postgresColumnConstraintName table expected "fkey" expectedReference.name
      if sameReferenceDefinition expectedReference actualReference then
        if actualName ≠ expectedName then
          alterColumnChange table ("Rename foreign key on " ++ table.name ++ "." ++ expected.name)
            [.renameConstraint table.name actualName expectedName] true
        else .empty
      else
        alterColumnChange table ("Replace foreign key on " ++ table.name ++ "." ++ expected.name)
          [postgresDropConstraint table actualName,
            postgresAddReferenceConstraint table expected expectedReference] true

/-- `postgres_primary_key_constraint_name`. -/
def postgresPrimaryKeyConstraintName (table : DatabaseTable) : String :=
  table.primaryKeyName.getD (table.name ++ "_pkey")

/-- `postgres_add_primary_key_constraint`. -/
def postgresAddPrimaryKeyConstraint (table : DatabaseTable) : SchemaStatement :=
  .addPrimaryKey table.name (postgresPrimaryKeyConstraintName table) table.primaryKey

/-- A change of a table. -/
def alterTableChange (table : DatabaseTable) (description : String)
    (statements : List SchemaStatement) (safe : Bool) : SchemaPlan :=
  .change { kind := .alterTable, table := table.name, description, statements, safe }

/-- `diff_postgres_primary_key`. -/
def diffPostgresPrimaryKey (expected actual : DatabaseTable) (options : SchemaDiffOptions) :
    SchemaPlan :=
  if expected.primaryKey = actual.primaryKey then .empty
  else if actual.primaryKey.isEmpty then
    if expected.primaryKey.isEmpty then .empty
    else alterTableChange expected ("Add primary key on " ++ expected.name)
      [postgresAddPrimaryKeyConstraint expected] true
  else
    let drop := postgresDropConstraint actual (postgresPrimaryKeyConstraintName actual)
    if expected.primaryKey.isEmpty then
      alterTableChange expected ("Drop primary key on " ++ expected.name)
        (if options.allowDestructive then [drop] else []) false
    else alterTableChange expected ("Replace primary key on " ++ expected.name)
      (if options.allowDestructive then [drop, postgresAddPrimaryKeyConstraint expected] else [])
      false

/-- `postgres_table_check_constraint_name`. -/
def postgresTableCheckConstraintName (table : DatabaseTable) (check : DatabaseCheck) : String :=
  check.name.getD (table.name ++ "_check")

/-- `postgres_add_table_check_constraint`. -/
def postgresAddTableCheckConstraint (table : DatabaseTable) (check : DatabaseCheck) :
    SchemaStatement :=
  .addTableCheck table.name check

/-- What the search among the actual checks found. -/
inductive CheckSearch where
  | sameName (i : Nat) (candidate : DatabaseCheck)
  | sameExpression (i : Nat) (candidate : DatabaseCheck)
  | notFound
deriving DecidableEq

/-- The search of `diff_postgres_table_checks` from the `i`-th actual check on: the first free
    check of the wanted name, else the first free check of the wanted expression. -/
def searchCheck (wanted : DatabaseCheck) (i : Nat) (sameExpression : CheckSearch) :
    List DatabaseCheck → List Bool → CheckSearch
  | candidate :: actual, marked :: matched =>
    if marked then searchCheck wanted (i + 1) sameExpression actual matched
    else if wanted.name.isSome && candidate.name = wanted.name then .sameName i candidate
    else searchCheck wanted (i + 1)
      (if sameExpression = .notFound &&
          normalizeCheckExpression candidate.expression =
            normalizeCheckExpression wanted.expression then .sameExpression i candidate
        else sameExpression) actual matched
  | _, _ => sameExpression

/-- The body of the loop of `diff_postgres_table_checks` over the expected checks. -/
def diffPostgresTableCheck (expected actual : DatabaseTable) (matched : List Bool)
    (wanted : DatabaseCheck) : List Bool × SchemaPlan :=
  match searchCheck wanted 0 .notFound actual.checks matched with
  | .sameName i candidate =>
    (matched.set i true,
      if normalizeCheckExpression candidate.expression =
        normalizeCheckExpression wanted.expression then .empty
      else alterTableChange expected
        ("Replace table CHECK constraint " ++ wanted.name.getD "" ++ " on " ++ expected.name)
        [postgresDropConstraint actual (postgresTableCheckConstraintName actual candidate),
          postgresAddTableCheckConstraint expected wanted] true)
  | .sameExpression i candidate =>
    (matched.set i true, match wanted.name with
      | none => .empty
      | some name =>
        let actualName := postgresTableCheckConstraintName actual candidate
        if actualName ≠ name then
          alterTableChange expected ("Rename table CHECK constraint on " ++ expected.name)
            [.renameConstraint expected.name actualName name] true
        else .empty)
  | .notFound =>
    (matched, alterTableChange expected ("Add table CHECK constraint on " ++ expected.name)
      [postgresAddTableCheckConstraint expected wanted] true)

/-- The loop of `diff_postgres_table_checks` over the expected checks. -/
def diffExpectedChecks (expected actual : DatabaseTable) (matched : List Bool) :
    List DatabaseCheck → List Bool × SchemaPlan
  | [] => (matched, .empty)
  | wanted :: checks =>
    let (matched, plan) := diffPostgresTableCheck expected actual matched wanted
    let (matched, rest) := diffExpectedChecks expected actual matched checks
    (matched, plan ++ rest)

/-- What `diff_postgres_table_checks` does for an actual check. -/
def dropTableCheck (expected actual : DatabaseTable) (options : SchemaDiffOptions)
    (check : DatabaseCheck × Bool) : SchemaPlan :=
  if check.2 then .empty
  else
    let name := postgresTableCheckConstraintName actual check.1
    alterTableChange expected
      ("Drop table CHECK constraint " ++ name ++ " from " ++ expected.name)
      (if options.allowDestructive then [postgresDropConstraint actual name] else []) false

/-- `diff_postgres_table_checks`. -/
def diffPostgresTableChecks (expected actual : DatabaseTable) (options : SchemaDiffOptions) :
    SchemaPlan :=
  let (matched, plan) := diffExpectedChecks expected actual
    (List.replicate actual.checks.length false) expected.checks
  plan ++ .concat ((actual.checks.zip matched).map (dropTableCheck expected actual options))

/-- What `diff_postgres_table` does for a column of the expected table. -/
def diffPostgresColumn (expected actual : DatabaseTable) (options : SchemaDiffOptions)
    (column : DatabaseColumn) : SchemaPlan :=
  match findColumn actual column.name with
  | none => .change {
      kind := .addColumn
      table := expected.name
      description := "Add column " ++ column.name ++ " to " ++ expected.name
      statements := [.addColumn expected.name column] }
  | some actualColumn =>
    let diff := diffColumn column actualColumn
    (if diff.postgresScalarMutation then
      let statements := renderPostgresScalarAlterations expected column diff
      (if statements.isEmpty then .empty
        else alterColumnChange expected ("Alter column " ++ column.name ++ " on " ++ expected.name)
          statements true) ++
      (if diff.autoIncrementChanged then
        .warning ("Altering PostgreSQL identity properties on " ++ expected.name ++ "." ++
          column.name ++
          " may fail if an existing sequence is attached; verify generated column state.")
        else .empty)
      else .empty) ++
    diffPostgresUniqueConstraint expected column actualColumn diff options ++
    diffPostgresCheckConstraint expected column actualColumn diff options ++
    diffPostgresReferenceConstraint expected column actualColumn diff options

/-- What `diff_postgres_table` does for a column of the actual table. -/
def dropPostgresColumn (expected : DatabaseTable) (options : SchemaDiffOptions)
    (column : DatabaseColumn) : SchemaPlan :=
  if (findColumn expected column.name).isSome then .empty
  else .change {
    kind := .dropColumn
    table := expected.name
    description := "Drop column " ++ column.name ++ " from " ++ expected.name
    statements := if options.allowDestructive then [.dropColumn expected.name column.name] else []
    safe := false }

/-- What `diff_postgres_table` does for an index of the expected table. -/
def diffPostgresIndex (expected actual : DatabaseTable) (index : DatabaseIndex) : SchemaPlan :=
  match findIndex actual index.name with
  | none => createIndexChange expected index
  | some actualIndex =>
    if sameIndex index actualIndex then .empty
    else .change {
      kind := .addIndex
      table := expected.name
      description := "Recreate index " ++ index.name ++ " on " ++ expected.name
      statements := [.dropIndex index.name, .createIndex expected.name index] }

/-- `diff_postgres_table`. -/
def diffPostgresTable (expected actual : DatabaseTable) (options : SchemaDiffOptions) :
    SchemaPlan :=
  .concat (expected.columns.map (diffPostgresColumn expected actual options)) ++
  diffPostgresPrimaryKey expected actual options ++
  diffPostgresTableChecks expected actual options ++
  .concat (actual.columns.map (dropPostgresColumn expected options)) ++
  .concat (expected.indexes.map (diffPostgresIndex expected actual)) ++
  .concat (actual.indexes.map (dropIndexChange expected options))

/-! ## `diff_schema` -/

/-- `diff_existing_table`. -/
def diffExistingTable (expected actual : DatabaseTable) (family : DialectFamily)
    (options : SchemaDiffOptions) : SchemaPlan :=
  match family with
  | .postgres => diffPostgresTable expected actual options
  | .sqlite | .generic => diffSqliteTable expected actual options

/-- What `diff_schema` does for an expected table. `actual_tables` keeps the first table of a
    name. -/
def diffExpectedTable (actual : DatabaseSchema) (family : DialectFamily)
    (options : SchemaDiffOptions) (wanted : ExpectedTable) : SchemaPlan :=
  match actual.tables.find? (·.name = wanted.table.name) with
  | none => .change {
      kind := .createTable
      table := wanted.table.name
      description := "Create table " ++ wanted.table.name
      statements := .given wanted.createTableSql :: wanted.createIndexSql.map .given }
  | some actualTable => diffExistingTable wanted.table actualTable family options

/-- What `diff_schema` does for an actual table. -/
def dropTableChange (expected : ExpectedSchema) (options : SchemaDiffOptions)
    (table : DatabaseTable) : SchemaPlan :=
  if expected.tables.any (·.table.name = table.name) then .empty
  else .change {
    kind := .dropTable
    table := table.name
    description := "Drop table " ++ table.name
    statements := if options.allowDestructive then [.dropTable table.name] else []
    safe := false }

/-- `diff_schema`, by the family of the dialect; the dialect itself is needed for the texts only. -/
def diffSchema (expected : ExpectedSchema) (actual : DatabaseSchema) (family : DialectFamily)
    (options : SchemaDiffOptions) : SchemaPlan :=
  .concat (expected.tables.map (diffExpectedTable actual family options)) ++
  .concat (actual.tables.map (dropTableChange expected options))

/-! ## `execute_schema_plan` -/

/-- Send the statements of a change, up to the first on which the executor throws: what was sent,
    and whether all was. -/
def executeStatements (dialect : Dialect) (execute : String → Except Exn Unit) :
    List SchemaStatement → List SchemaStatement × Except Exn Unit
  | [] => ([], .ok ())
  | statement :: statements =>
    let text := statement.render dialect
    if text.isEmpty then executeStatements dialect execute statements
    else match execute text with
      | .error e => ([statement], .error e)
      | .ok () =>
        let (sent, result) := executeStatements dialect execute statements
        (statement :: sent, result)

/-- The loop of `execute_schema_plan`: for each change that it comes to, what was sent. -/
def executeChanges (dialect : Dialect) (execute : String → Except Exn Unit)
    (options : SynchronizeOptions) :
    List SchemaChange → List (SchemaChange × List SchemaStatement) × Except Exn Unit
  | [] => ([], .ok ())
  | change :: changes =>
    if !change.safe && !options.allowDestructive then
      executeChanges dialect execute options changes
    else match executeStatements dialect execute change.statements with
      | (sent, .error e) => ([(change, sent)], .error e)
      | (sent, .ok ()) =>
        let (rest, result) := executeChanges dialect execute options changes
        ((change, sent) :: rest, result)

/-- `execute_schema_plan`. -/
def executeSchemaPlan (dialect : Dialect) (execute : String → Except Exn Unit)
    (plan : SchemaPlan) (options : SynchronizeOptions) :
    List (SchemaChange × List SchemaStatement) × Except Exn Unit :=
  if options.dryRun then ([], .ok ())
  else executeChanges dialect execute options plan.changes

end MetalOrm.Native.Schema
