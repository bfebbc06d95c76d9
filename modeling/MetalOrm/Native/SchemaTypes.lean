import MetalOrm.Native.QueryCore

/-!
# Schemas and schema plans

`metal/schema_types.hpp`: the description of a database schema, the expected schema, and the plan
that leads from one to the other. A statement of a plan is kept with what it is about; its text is
`SchemaStatement.render`.
-/

namespace MetalOrm.Native.Schema

open Query (Dialect DialectFamily)

/-- `ForeignKeyReference`. -/
structure ForeignKeyReference where
  table : String
  column : String
  name : Option String := none
  onDelete : Option String := none
  onUpdate : Option String := none
  deferrable : Bool := false
  schema : Option String := none
deriving DecidableEq

/-- `DatabaseColumn`. -/
structure DatabaseColumn where
  name : String
  type : String
  notNull : Bool := false
  unique : Bool := false
  uniqueName : Option String := none
  defaultValue : Option String := none
  autoIncrement : Bool := false
  references : Option ForeignKeyReference := none
  check : Option String := none
  comment : Option String := none
deriving DecidableEq

/-- `DatabaseIndex`, its columns as their names. -/
structure DatabaseIndex where
  name : String
  columns : List String
  unique : Bool := false
  where_ : Option String := none
deriving DecidableEq

/-- `DatabaseCheck`. -/
structure DatabaseCheck where
  name : Option String := none
  expression : String
deriving DecidableEq

/-- `DatabaseTable`. -/
structure DatabaseTable where
  name : String
  columns : List DatabaseColumn := []
  primaryKey : List String := []
  indexes : List DatabaseIndex := []
  checks : List DatabaseCheck := []
  comment : Option String := none
  primaryKeyName : Option String := none
deriving DecidableEq

/-- `DatabaseSchema`, less its views. -/
structure DatabaseSchema where
  tables : List DatabaseTable := []
deriving DecidableEq

/-- `ExpectedTable`. -/
structure ExpectedTable where
  table : DatabaseTable
  createTableSql : String
  createIndexSql : List String := []
deriving DecidableEq

/-- `ExpectedSchema`. -/
structure ExpectedSchema where
  tables : List ExpectedTable := []
deriving DecidableEq

/-- `SchemaChangeKind`. -/
inductive SchemaChangeKind where
  | createTable | dropTable | addColumn | dropColumn | alterColumn | alterTable | addIndex | dropIndex
deriving DecidableEq

/-- What follows `ALTER COLUMN`. -/
inductive ColumnAlteration where
  | setType (type : String)
  | setDefault (value : String)
  | dropDefault
  | setNotNull
  | dropNotNull
  | addIdentity
  | dropIdentity
deriving DecidableEq

/-- A statement of a plan: one that the expected schema brings, or one that the diff writes. -/
inductive SchemaStatement where
  | given (sql : String)
  | addColumn (table : String) (column : DatabaseColumn)
  | alterColumn (table column : String) (alteration : ColumnAlteration)
  | dropColumn (table column : String)
  | dropTable (table : String)
  | createIndex (table : String) (index : DatabaseIndex)
  | dropIndex (name : String)
  | addPrimaryKey (table name : String) (columns : List String)
  | addUnique (table name column : String)
  | addCheck (table name column expression : String)
  | addReference (table name column : String) (reference : ForeignKeyReference)
  | addTableCheck (table : String) (check : DatabaseCheck)
  | dropConstraint (table name : String)
  | renameConstraint (table name newName : String)
deriving DecidableEq

/-- `SchemaChange`. -/
structure SchemaChange where
  kind : SchemaChangeKind
  table : String
  description : String
  statements : List SchemaStatement
  safe : Bool := true
deriving DecidableEq

/-- `SchemaPlan`. -/
structure SchemaPlan where
  changes : List SchemaChange := []
  warnings : List String := []
deriving DecidableEq

/-- `SchemaDiffOptions`. -/
structure SchemaDiffOptions where
  allowDestructive : Bool := false

/-- `SynchronizeOptions`. -/
structure SynchronizeOptions where
  allowDestructive : Bool := false
  dryRun : Bool := false

/-! ## Parts of plans -/

namespace SchemaPlan

/-- A part of a plan after another. -/
instance : Append SchemaPlan := ⟨fun p q => ⟨p.changes ++ q.changes, p.warnings ++ q.warnings⟩⟩

/-- Nothing to do. -/
def empty : SchemaPlan := {}

/-- `plan.changes.push_back`. -/
def change (change : SchemaChange) : SchemaPlan := { changes := [change] }

/-- `plan.warnings.push_back`. -/
def warning (text : String) : SchemaPlan := { warnings := [text] }

/-- The parts of a plan, one after the other. -/
def concat : List SchemaPlan → SchemaPlan
  | [] => empty
  | plan :: plans => plan ++ concat plans

@[simp] theorem changes_append (p q : SchemaPlan) : (p ++ q).changes = p.changes ++ q.changes := rfl

@[simp] theorem warnings_append (p q : SchemaPlan) :
    (p ++ q).warnings = p.warnings ++ q.warnings := rfl

@[simp] theorem changes_concat (plans : List SchemaPlan) :
    (concat plans).changes = plans.flatMap changes := by
  induction plans with
  | nil => rfl
  | cons plan plans ih => simp [concat, ih]

@[simp] theorem warnings_concat (plans : List SchemaPlan) :
    (concat plans).warnings = plans.flatMap warnings := by
  induction plans with
  | nil => rfl
  | cons plan plans ih => simp [concat, ih]

end SchemaPlan

/-! ## Texts -/

/-- `render_reference_table`. -/
def renderReferenceTable (reference : ForeignKeyReference) (dialect : Dialect) : String :=
  (match reference.schema with
    | some schema => dialect.quoteIdentifier schema ++ "."
    | none => "") ++ dialect.quoteIdentifier reference.table

/-- The actions of a reference, and whether it is deferrable. -/
def renderReferenceActions (reference : ForeignKeyReference) : String :=
  (match reference.onDelete with
    | some action => " ON DELETE " ++ action
    | none => "") ++
  (match reference.onUpdate with
    | some action => " ON UPDATE " ++ action
    | none => "") ++
  (if reference.deferrable then " DEFERRABLE INITIALLY DEFERRED" else "")

/-- `render_reference_definition`. -/
def renderReferenceDefinition (reference : ForeignKeyReference) (dialect : Dialect) : String :=
  (match reference.name with
    | some name => " CONSTRAINT " ++ dialect.quoteIdentifier name
    | none => "") ++
  " REFERENCES " ++ renderReferenceTable reference dialect ++
    " (" ++ dialect.quoteIdentifier reference.column ++ ")" ++ renderReferenceActions reference

/-- `render_column_definition`. -/
def renderColumnDefinition (column : DatabaseColumn) (dialect : Dialect) : String :=
  dialect.quoteIdentifier column.name ++ " " ++ column.type ++
  (if column.notNull then " NOT NULL" else "") ++
  (if column.unique then
    (match column.uniqueName with
      | some name => " CONSTRAINT " ++ dialect.quoteIdentifier name
      | none => "") ++ " UNIQUE"
  else "") ++
  (match column.defaultValue with
    | some value => " DEFAULT " ++ value
    | none => "") ++
  (match column.check with
    | some expression => " CHECK (" ++ expression ++ ")"
    | none => "") ++
  (match column.references with
    | some reference => renderReferenceDefinition reference dialect
    | none => "")

/-- `render_index`. -/
def renderIndex (table : String) (index : DatabaseIndex) (dialect : Dialect) : String :=
  "CREATE " ++ (if index.unique then "UNIQUE " else "") ++
  "INDEX IF NOT EXISTS " ++ dialect.quoteIdentifier index.name ++
  " ON " ++ dialect.quoteIdentifier table ++ " (" ++
  ", ".intercalate (index.columns.map dialect.quoteIdentifier) ++ ")" ++
  (match index.where_ with
    | some predicate => " WHERE " ++ predicate
    | none => "") ++ ";"

/-- The text of an alteration. -/
def ColumnAlteration.render : ColumnAlteration → String
  | .setType type => "TYPE " ++ type ++ ";"
  | .setDefault value => "SET DEFAULT " ++ value ++ ";"
  | .dropDefault => "DROP DEFAULT;"
  | .setNotNull => "SET NOT NULL;"
  | .dropNotNull => "DROP NOT NULL;"
  | .addIdentity => "ADD GENERATED BY DEFAULT AS IDENTITY;"
  | .dropIdentity => "DROP IDENTITY IF EXISTS;"

/-- The text of a statement. -/
def SchemaStatement.render (dialect : Dialect) : SchemaStatement → String
  | .given sql => sql
  | .addColumn table column =>
    "ALTER TABLE " ++ dialect.quoteIdentifier table ++ " ADD " ++
      renderColumnDefinition column dialect ++ ";"
  | .alterColumn table column alteration =>
    "ALTER TABLE " ++ dialect.quoteIdentifier table ++ " ALTER COLUMN " ++
      dialect.quoteIdentifier column ++ " " ++ alteration.render
  | .dropColumn table column =>
    "ALTER TABLE " ++ dialect.quoteIdentifier table ++ " DROP COLUMN " ++
      dialect.quoteIdentifier column ++ ";"
  | .dropTable table => "DROP TABLE IF EXISTS " ++ dialect.quoteIdentifier table ++ ";"
  | .createIndex table index => renderIndex table index dialect
  | .dropIndex name => "DROP INDEX IF EXISTS " ++ dialect.quoteIdentifier name ++ ";"
  | .addPrimaryKey table name columns =>
    "ALTER TABLE " ++ dialect.quoteIdentifier table ++ " ADD CONSTRAINT " ++
      dialect.quoteIdentifier name ++ " PRIMARY KEY (" ++
      ", ".intercalate (columns.map dialect.quoteIdentifier) ++ ");"
  | .addUnique table name column =>
    "ALTER TABLE " ++ dialect.quoteIdentifier table ++ " ADD CONSTRAINT " ++
      dialect.quoteIdentifier name ++ " UNIQUE (" ++ dialect.quoteIdentifier column ++ ");"
  | .addCheck table name _ expression =>
    "ALTER TABLE " ++ dialect.quoteIdentifier table ++ " ADD CONSTRAINT " ++
      dialect.quoteIdentifier name ++ " CHECK (" ++ expression ++ ");"
  | .addReference table name column reference =>
    "ALTER TABLE " ++ dialect.quoteIdentifier table ++ " ADD CONSTRAINT " ++
      dialect.quoteIdentifier name ++ " FOREIGN KEY (" ++ dialect.quoteIdentifier column ++ ")" ++
      " REFERENCES " ++ renderReferenceTable reference dialect ++
      " (" ++ dialect.quoteIdentifier reference.column ++ ")" ++
      renderReferenceActions reference ++ ";"
  | .addTableCheck table check =>
    "ALTER TABLE " ++ dialect.quoteIdentifier table ++ " ADD " ++
      (match check.name with
        | some name => "CONSTRAINT " ++ dialect.quoteIdentifier name ++ " "
        | none => "") ++ "CHECK (" ++ check.expression ++ ");"
  | .dropConstraint table name =>
    "ALTER TABLE " ++ dialect.quoteIdentifier table ++ " DROP CONSTRAINT " ++
      dialect.quoteIdentifier name ++ ";"
  | .renameConstraint table name newName =>
    "ALTER TABLE " ++ dialect.quoteIdentifier table ++ " RENAME CONSTRAINT " ++
      dialect.quoteIdentifier name ++ " TO " ++ dialect.quoteIdentifier newName ++ ";"

end MetalOrm.Native.Schema
