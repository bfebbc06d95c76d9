import MetalOrm.Native.SchemaTypes

/-!
# `CREATE TABLE`

`metal/ddl.hpp`: the text of the `CREATE TABLE` statement of a mapped type, and
`metal/schema_expected.hpp`: the table that the mapping declares. A mapped type is what reflection
gives about it.
-/

namespace MetalOrm.Native.Ddl

open Query (Dialect DialectFamily)
open Schema (DatabaseTable DatabaseColumn DatabaseCheck ForeignKeyReference)

/-- The type of a mapped member, less `std::optional`. -/
inductive MemberType where
  | boolean
  | integral (bytes : Nat)
  | floating
  | string
  | blob

/-- `referential_action`. -/
inductive ReferentialAction where
  | unspecified
  | noAction
  | restrict
  | cascade
  | setNull
  | setDefault

/-- `referential_action_sql`. -/
def ReferentialAction.sql : ReferentialAction → String
  | .noAction => "NO ACTION"
  | .restrict => "RESTRICT"
  | .cascade => "CASCADE"
  | .setNull => "SET NULL"
  | .setDefault => "SET DEFAULT"
  | .unspecified => ""

/-- The default of a column: `default_text`, `default_sql`, `default_null`, or a `default_value`;
    a real one as it is written with 17 digits. -/
inductive ColumnDefault where
  | text (value : String)
  | sql (expression : String)
  | null
  | boolean (value : Bool)
  | integer (value : Int)
  | real (text : String)

/-- `reference` and `reference_to`, with the table and the column of the target. -/
structure ReferenceAnnotation where
  table : String
  column : String
  onDelete : ReferentialAction
  onUpdate : ReferentialAction
  constraintName : String
  deferrable : Bool

/-- A persistent member. `unique` is `unique_t` without a name and `named_unique` with one. -/
structure MappedColumn where
  name : String
  type : MemberType
  optional : Bool
  databaseType : Option String
  primaryKey : Bool
  generated : Bool
  unique : Option (Option String)
  default : Option ColumnDefault
  check : Option String
  reference : Option ReferenceAnnotation

/-- `table_check`. -/
structure TableCheck where
  name : Option String
  expression : String

/-- A mapped type, as `validate_mapping` accepts it: no column name occurs twice. -/
structure MappedTable where
  name : String
  columns : List MappedColumn
  checks : List TableCheck
  nodup : (columns.map MappedColumn.name).Nodup

/-! ## Parts of columns -/

/-- `sqlite_type_name`. -/
def sqliteTypeName : MemberType → String
  | .boolean | .integral _ => "INTEGER"
  | .floating => "REAL"
  | .string => "TEXT"
  | .blob => "BLOB"

/-- `postgres_type_name`. -/
def postgresTypeName : MemberType → String
  | .boolean => "BOOLEAN"
  | .integral bytes => if bytes ≤ 4 then "INTEGER" else "BIGINT"
  | .floating => "DOUBLE PRECISION"
  | .string => "TEXT"
  | .blob => "BYTEA"

/-- `column_type_name`. -/
def columnTypeName (dialect : Dialect) (column : MappedColumn) : String :=
  column.databaseType.getD
    (if dialect.family = .postgres then postgresTypeName column.type
    else sqliteTypeName column.type)

/-- `quote_sql_text`. -/
def quoteSqlText (value : String) : String :=
  "'" ++ String.ofList (value.toList.flatMap fun ch => if ch = '\'' then ['\'', '\''] else [ch]) ++
    "'"

/-- `column_default_sql`. -/
def columnDefaultSql : ColumnDefault → String
  | .text value => quoteSqlText value
  | .sql expression => expression
  | .null => "NULL"
  | .boolean value => if value then "1" else "0"
  | .integer value => toString value
  | .real text => text

/-- `physical_reference_sql`. -/
def physicalReferenceSql (dialect : Dialect) (reference : ReferenceAnnotation) : String :=
  (if reference.constraintName.isEmpty then ""
    else " CONSTRAINT " ++ dialect.quoteIdentifier reference.constraintName) ++
  " REFERENCES " ++ dialect.quoteIdentifier reference.table ++
    " (" ++ dialect.quoteIdentifier reference.column ++ ")" ++
  (if reference.onDelete.sql.isEmpty then "" else " ON DELETE " ++ reference.onDelete.sql) ++
  (if reference.onUpdate.sql.isEmpty then "" else " ON UPDATE " ++ reference.onUpdate.sql) ++
  (if reference.deferrable then " DEFERRABLE INITIALLY DEFERRED" else "")

/-- `column_unique_sql`. -/
def columnUniqueSql (dialect : Dialect) : Option String → String
  | some name => " CONSTRAINT " ++ dialect.quoteIdentifier name ++ " UNIQUE"
  | none => " UNIQUE"

/-- `column_check_sql`. -/
def columnCheckSql (expression : String) : String := " CHECK (" ++ expression ++ ")"

/-- `primary_key_count`. -/
def primaryKeyCount (table : MappedTable) : Nat := table.columns.countP (·.primaryKey)

/-! ## `create_table_sql` -/

/-- The text for a column. -/
def columnSql (dialect : Dialect) (pkCount : Nat) (column : MappedColumn) : String :=
  dialect.quoteIdentifier column.name ++ " " ++ columnTypeName dialect column ++
  (if column.generated && dialect.family = .postgres then " GENERATED BY DEFAULT AS IDENTITY"
    else "") ++
  (if column.primaryKey && pkCount = 1 then " PRIMARY KEY" else "") ++
  (if column.generated && dialect.family ≠ .postgres then " AUTOINCREMENT" else "") ++
  (if !column.optional && (!column.primaryKey || pkCount > 1) then " NOT NULL" else "") ++
  (match column.unique with
    | some name => columnUniqueSql dialect name
    | none => "") ++
  (match column.default with
    | some value => " DEFAULT " ++ columnDefaultSql value
    | none => "") ++
  (match column.check with
    | some expression => columnCheckSql expression
    | none => "") ++
  (match column.reference with
    | some reference => physicalReferenceSql dialect reference
    | none => "")

/-- The `PRIMARY KEY` of several columns. -/
def primaryKeySql (dialect : Dialect) (table : MappedTable) : List String :=
  if primaryKeyCount table > 1 then
    ["PRIMARY KEY (" ++ ", ".intercalate
      ((table.columns.filter (·.primaryKey)).map fun column => dialect.quoteIdentifier column.name) ++
      ")"]
  else []

/-- The text for a table check. -/
def tableCheckSql (dialect : Dialect) (check : TableCheck) : String :=
  (match check.name with
    | some name => "CONSTRAINT " ++ dialect.quoteIdentifier name ++ " "
    | none => "") ++ "CHECK (" ++ check.expression ++ ")"

/-- `create_table_sql`. -/
def createTableSql (dialect : Dialect) (table : MappedTable) : String :=
  "CREATE TABLE IF NOT EXISTS " ++ dialect.quoteIdentifier table.name ++ " (" ++
    ", ".intercalate (table.columns.map (columnSql dialect (primaryKeyCount table))) ++
    String.join ((primaryKeySql dialect table ++ table.checks.map (tableCheckSql dialect)).map
      fun part => ", " ++ part) ++ ");"

/-! ## `expected_table` -/

/-- A text that may be missing. -/
def optionalText (text : String) : Option String := if text.isEmpty then none else some text

/-- The foreign key that a column declares. -/
def expectedReference (reference : ReferenceAnnotation) : ForeignKeyReference where
  table := reference.table
  column := reference.column
  name := optionalText reference.constraintName
  onDelete := optionalText reference.onDelete.sql
  onUpdate := optionalText reference.onUpdate.sql
  deferrable := reference.deferrable

/-- The column that a member declares. -/
def expectedColumn (dialect : Dialect) (column : MappedColumn) : DatabaseColumn where
  name := column.name
  type := columnTypeName dialect column
  notNull := !column.optional
  unique := column.unique.isSome
  uniqueName := column.unique.join
  defaultValue := column.default.map columnDefaultSql
  autoIncrement := column.generated
  check := column.check
  references := column.reference.map expectedReference

/-- `expected_table`, less the texts of the statements. -/
def expectedTable (dialect : Dialect) (table : MappedTable) : DatabaseTable where
  name := table.name
  columns := table.columns.map (expectedColumn dialect)
  primaryKey := (table.columns.filter (·.primaryKey)).map (·.name)
  checks := table.checks.map fun check => { name := check.name, expression := check.expression }

end MetalOrm.Native.Ddl
