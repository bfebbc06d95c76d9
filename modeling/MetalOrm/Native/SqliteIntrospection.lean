import MetalOrm.ForStd.TextSearch
import MetalOrm.Native.CreateTable
import MetalOrm.Native.SchemaDiff
import MetalOrm.Native.SqliteDdlParser

/-!
# SQLite introspection

`metal/schema_introspection.hpp`: a table of the database by its `CREATE TABLE` and the pragmas,
less views, and `add_expected_index` of `metal/schema_expected.hpp`. What the pragmas answer is
given as rows, a null or missing text as `none`.
-/

namespace MetalOrm.Native.Ddl

open ForStd (findWord)
open Query (Dialect)
open Schema (DatabaseTable DatabaseColumn DatabaseIndex ForeignKeyReference ExpectedSchema
  ExpectedTable renderIndex)

/-- `uppercase`. -/
def uppercase (value : List Char) : List Char := value.map Char.toUpper

/-- `normalize_action`. -/
def normalizeAction (action : Option String) : Option String :=
  action.bind fun action =>
    let normalized := String.ofList (uppercase action.toList)
    if normalized ∈ ["NO ACTION", "RESTRICT", "CASCADE", "SET NULL", "SET DEFAULT"] then
      some normalized
    else none

/-- `SchemaComments`; a column is looked up under `table.column`. -/
structure SchemaComments where
  tables : String → Option String := fun _ => none
  columns : String → Option String := fun _ => none

/-- `partial_index_where`. -/
def partialIndexWhere (createSql : String) : Option String :=
  (findWord " WHERE ".toList (uppercase createSql.toList)).map fun pos =>
    String.ofList (createSql.toList.drop (pos + 7))

/-- `has_autoincrement`. -/
def hasAutoincrement (createSql : String) : Bool :=
  (findWord "AUTOINCREMENT".toList (uppercase createSql.toList)).isSome

/-! ## What the pragmas answer -/

/-- A row of `pragma_table_info`. -/
structure TableInfo where
  name : Option String
  type : Option String
  notnull : Int
  dfltValue : Option String
  pk : Int

/-- A row of `pragma_foreign_key_list`. -/
structure ForeignKeyInfo where
  table : Option String
  from_ : Option String
  to_ : Option String
  onUpdate : Option String
  onDelete : Option String

/-- A row of `pragma_index_list`, with the names in `pragma_index_info` and the `sql` of
    `sqlite_master`. -/
structure IndexInfo where
  name : Option String
  unique : Int
  origin : Option String
  partial_ : Int
  columns : List (Option String)
  sql : Option String
deriving DecidableEq

/-- A row of `sqlite_master` for a table, with what the pragmas answer about it. -/
structure TableRows where
  name : String
  sql : Option String
  columns : List TableInfo
  foreignKeys : List ForeignKeyInfo := []
  indexes : List IndexInfo := []

/-! ## `introspect_sqlite` -/

/-- The column of a row of `pragma_table_info`. -/
def introspectColumn (comments : SchemaComments) (table : String) (autoincrement : Bool)
    (info : TableInfo) : Option DatabaseColumn :=
  info.name.map fun name =>
    { name
      type := info.type.getD ""
      notNull := info.notnull = 1 || info.pk > 0
      defaultValue := info.dfltValue
      autoIncrement := autoincrement && info.pk > 0
      comment := comments.columns (table ++ "." ++ name) }

/-- The primary key, in the order of `pk`. -/
def introspectPrimaryKey (columns : List TableInfo) : List String :=
  let found := columns.filterMap fun info => info.name.bind fun name =>
    if info.pk > 0 then some (info.pk, name) else none
  (found.mergeSort fun a b => a.1 < b.1 || (a.1 = b.1 && a.2 ≤ b.2)).map Prod.snd

/-- The reference that a row of `pragma_foreign_key_list` gives to a column. -/
def introspectForeignKey (table : DatabaseTable) (info : ForeignKeyInfo) : DatabaseTable :=
  match info.from_, info.table, info.to_ with
  | some from_, some target, some column =>
    { table with
      columns := updateColumn from_.toList (fun found =>
        { found with
          references := some {
            table := target
            column
            onDelete := normalizeAction info.onDelete
            onUpdate := normalizeAction info.onUpdate } }) table.columns }
  | _, _, _ => table

/-- The index of a row of `pragma_index_list`: not that of a primary key, nor an automatic one. -/
def introspectIndex (info : IndexInfo) : Option DatabaseIndex :=
  info.name.bind fun name =>
    if info.origin.getD "" = "pk" || "sqlite_autoindex_".toList.isPrefixOf name.toList then none
    else some {
      name
      unique := info.unique = 1
      columns := info.columns.filterMap id
      where_ := if info.partial_ = 1 then info.sql.bind partialIndexWhere else none }

/-- The body of the loop of `introspect_sqlite` over the tables. -/
def introspectTable (comments : SchemaComments) (rows : TableRows) : DatabaseTable :=
  let createSql := rows.sql.getD ""
  let table : DatabaseTable :=
    { name := rows.name
      comment := comments.tables rows.name
      columns := rows.columns.filterMap
        (introspectColumn comments rows.name (hasAutoincrement createSql)) }
  let table := parseSqliteUniqueConstraints createSql.toList table
  let table := parseSqliteCheckConstraints createSql.toList table
  let table := { table with primaryKey := introspectPrimaryKey rows.columns }
  let table := rows.foreignKeys.foldl introspectForeignKey table
  let table := parseSqliteForeignKeyModifiers createSql.toList table
  { table with indexes := rows.indexes.filterMap introspectIndex }

/-! ## `add_expected_index` -/

/-- An index and its text, which is the one of `render_index`, added to a table. -/
def addIndex (dialect : Dialect) (entry : ExpectedTable) (index : DatabaseIndex) : ExpectedTable :=
  { entry with
    table := { entry.table with indexes := entry.table.indexes ++ [index] }
    createIndexSql := entry.createIndexSql ++ [renderIndex entry.table.name index dialect] }

/-- The first table of the name, with the index. -/
def addIndexTo (dialect : Dialect) (table : String) (index : DatabaseIndex) :
    List ExpectedTable → List ExpectedTable
  | [] => []
  | entry :: tables =>
    if entry.table.name = table then addIndex dialect entry index :: tables
    else entry :: addIndexTo dialect table index tables

/-- `add_expected_index`. -/
def addExpectedIndex (schema : ExpectedSchema) (dialect : Dialect) (table : String)
    (index : DatabaseIndex) : Except Exn ExpectedSchema :=
  if schema.tables.any (·.table.name = table) then
    .ok { tables := addIndexTo dialect table index schema.tables }
  else .error (.ofText
    "MetalORM: expected schema does not contain the indexed entity table")

end MetalOrm.Native.Ddl
