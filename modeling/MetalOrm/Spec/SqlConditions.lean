import MetalOrm.Native.SelectCompiler
import MetalOrm.ForStd.Kleene

/-!
# The SQL of relation filters

The conditions that filters are compiled to, as a syntax tree with its SQLite text
and its meaning: three-valued, over rows in a scope of aliases. How the database
compares values is a parameter.

## Key results

- `holds_existsIn`: EXISTS asks for a row of the table
- `Conjunction` lemmas: a list of grouped conditions holds if each of them does
-/

namespace MetalOrm.Native.Query

open ForStd

/-! ## Syntax -/

/-- A scalar of a filter condition. -/
inductive Operand where
  | column (aliasName column : String)
  | literal (v : Value)
  | lower (aliasName column : String)

/-- What a SELECT lists. -/
inductive Projection where
  | columns (root : EntityInfo)
  | one

/-- A condition of a WHERE clause. -/
inductive Condition where
  | compare (left : Operand) (op : CompareOp) (right : Operand)
  | nullCheck (operand : Operand) (negated : Bool)
  | like (operand pattern : Operand)
  | inValues (operand : Operand) (values : List Value) (negated : Bool)
  | constant (b : Bool)
  | and (left right : Condition)
  | group (inner : Condition)
  | existsRow (negated : Bool) (projection : Projection) (table aliasName : String)
  | existsWhere (negated : Bool) (projection : Projection) (table aliasName : String)
      (condition : Condition)

/-- `EXISTS` over a SELECT whose WHERE clause may be missing. -/
def Condition.existsIn (negated : Bool) (projection : Projection) (table aliasName : String) :
    Option Condition → Condition
  | none => existsRow negated projection table aliasName
  | some condition => existsWhere negated projection table aliasName condition

/-- The grouped conditions of a list, joined by AND. -/
def conjunction : List Condition → Option Condition
  | [] => none
  | c :: cs => some (match conjunction cs with
    | none => c.group
    | some rest => .and c.group rest)

/-- A WHERE clause and an extra condition. -/
def whereAnd : Option Condition → Option Condition → Option Condition
  | some w, some e => some (.and w.group e.group)
  | some w, none => some w
  | none, e => e

/-- A SELECT over one table. -/
structure Select where
  root : EntityInfo
  aliasName : String
  condition : Option Condition

/-! ## Text -/

namespace Operand

/-- The text of a scalar. -/
def text : Operand → String
  | column aliasName name => qcol sqliteDialect aliasName name
  | literal _ => "?"
  | lower aliasName name => "LOWER(" ++ qcol sqliteDialect aliasName name ++ ")"

/-- The literals of a scalar. -/
def literals : Operand → List Value
  | literal v => [v]
  | _ => []

/-- The alias that a scalar refers to is in scope. -/
def resolves (aliases : List String) : Operand → Bool
  | column aliasName _ => aliases.contains aliasName
  | literal _ => true
  | lower aliasName _ => aliases.contains aliasName

end Operand

/-- `SELECT ... FROM table AS alias`. -/
def selectText (projection : Projection) (table aliasName : String) : String :=
  "SELECT " ++ (match projection with
    | .columns root => rootColumns sqliteDialect root aliasName
    | .one => "1") ++ " FROM " ++ quoteAnsiIdentifier table ++ " AS " ++
    quoteAnsiIdentifier aliasName

namespace Condition

/-- The keyword of an EXISTS condition. -/
def existsToken (negated : Bool) : String := if negated then "NOT EXISTS (" else "EXISTS ("

/-- The text of a condition. -/
def text : Condition → String
  | compare left op right => left.text ++ " " ++ compareToken op ++ " " ++ right.text
  | nullCheck operand negated => operand.text ++ (if negated then " IS NOT NULL" else " IS NULL")
  | like operand pattern => operand.text ++ " LIKE " ++ pattern.text
  | inValues operand values negated =>
    operand.text ++ (if negated then " NOT IN (" else " IN (") ++
      ", ".intercalate (values.map fun _ => "?") ++ ")"
  | constant b => if b then "1 = 1" else "0 = 1"
  | and left right => left.text ++ " AND " ++ right.text
  | group inner => "(" ++ inner.text ++ ")"
  | existsRow negated projection table aliasName =>
    existsToken negated ++ selectText projection table aliasName ++ ")"
  | existsWhere negated projection table aliasName condition =>
    existsToken negated ++ selectText projection table aliasName ++ " WHERE " ++
      condition.text ++ ")"

/-- The literals of a condition, in the order of their placeholders. -/
def literals : Condition → List Value
  | compare left _ right => left.literals ++ right.literals
  | nullCheck operand _ => operand.literals
  | like operand pattern => operand.literals ++ pattern.literals
  | inValues operand values _ => operand.literals ++ values
  | constant _ => []
  | and left right => left.literals ++ right.literals
  | group inner => inner.literals
  | existsRow _ _ _ _ => []
  | existsWhere _ _ _ _ condition => condition.literals

/-- Every alias that a condition refers to is in scope. -/
def resolves : Condition → (aliases : List String) → Bool
  | compare left _ right, aliases => left.resolves aliases && right.resolves aliases
  | nullCheck operand _, aliases => operand.resolves aliases
  | like operand pattern, aliases => operand.resolves aliases && pattern.resolves aliases
  | inValues operand _ _, aliases => operand.resolves aliases
  | constant _, _ => true
  | and left right, aliases => left.resolves aliases && right.resolves aliases
  | group inner, aliases => inner.resolves aliases
  | existsRow _ _ _ _, _ => true
  | existsWhere _ _ _ aliasName condition, aliases => condition.resolves (aliasName :: aliases)

end Condition

/-- The text of a WHERE clause. -/
def whereText : Option Condition → String
  | none => ""
  | some condition => " WHERE " ++ condition.text

/-- The literals of a WHERE clause. -/
def whereLiterals : Option Condition → List Value
  | none => []
  | some condition => condition.literals

namespace Select

/-- The text of a SELECT. -/
def text (select : Select) : String :=
  selectText (.columns select.root) select.root.table select.aliasName ++ whereText select.condition

/-- The literals of a SELECT. -/
def literals (select : Select) : List Value := whereLiterals select.condition

/-- Every alias is in scope. -/
def resolves (select : Select) : Bool :=
  select.condition.all (·.resolves [select.aliasName])

end Select

/-! ## Meaning -/

/-- A row of a table. -/
abbrev Tuple := String → Value

/-- A value with the table and the column it was read from, which decide its affinity. -/
structure Cell where
  origin : Option (String × String) := none
  value : Value

/-- The comparisons of the database. -/
structure Engine where
  compare : CompareOp → Cell → Cell → Truth
  like : Cell → Cell → Truth
  lower : Cell → Value

/-- The rows of each table. -/
abbrev Database := String → List Tuple

/-- What an alias stands for, innermost first. -/
abbrev Scope := List (String × String × Tuple)

/-- The cell of a column of a row. -/
def cellOf (table : String) (row : Tuple) (column : String) : Cell :=
  { origin := some (table, column), value := row column }

/-- The meaning of a scalar; an alias that is not in scope has none. -/
def Operand.eval (engine : Engine) (scope : Scope) : Operand → Option Cell
  | .column aliasName name => do
    let (table, row) ← scope.lookup aliasName
    return cellOf table row name
  | .literal v => some { value := v }
  | .lower aliasName name => do
    let (table, row) ← scope.lookup aliasName
    return { value := engine.lower (cellOf table row name) }

namespace Condition

/-- The meaning of a condition. -/
def eval (engine : Engine) (db : Database) : Condition → Scope → Truth
  | compare left op right, scope => do
    engine.compare op (← left.eval engine scope) (← right.eval engine scope)
  | nullCheck operand negated, scope => do
    return (decide ((← operand.eval engine scope).value = .null)) != negated
  | like operand pattern, scope => do
    engine.like (← operand.eval engine scope) (← pattern.eval engine scope)
  | inValues operand values negated, scope => do
    let cell ← operand.eval engine scope
    Truth.negate negated (Truth.any (fun v => engine.compare .eq cell { value := v }) values)
  | constant b, _ => some b
  | and left right, scope => (left.eval engine db scope).and (right.eval engine db scope)
  | group inner, scope => inner.eval engine db scope
  | existsRow negated _ table _, _ => some (!(db table).isEmpty != negated)
  | existsWhere negated _ table aliasName condition, scope =>
    some (((db table).any fun row =>
      (condition.eval engine db ((aliasName, table, row) :: scope)).holds) != negated)

end Condition

/-- A WHERE clause that is missing holds. -/
def whereHolds (engine : Engine) (db : Database) (condition : Option Condition) (scope : Scope) :
    Bool :=
  condition.all fun c => (c.eval engine db scope).holds

/-- The rows that a SELECT finds. -/
def Select.rows (engine : Engine) (db : Database) (select : Select) : List Tuple :=
  (db select.root.table).filter fun row =>
    whereHolds engine db select.condition [(select.aliasName, select.root.table, row)]

/-! ## Lemmas -/

variable {engine : Engine} {db : Database} {scope : Scope}

/-- EXISTS asks for a row of the table that the WHERE clause accepts. -/
theorem holds_existsIn (negated : Bool) (projection : Projection) (table aliasName : String)
    (condition : Option Condition) :
    ((Condition.existsIn negated projection table aliasName condition).eval engine db scope).holds =
      (((db table).any fun row =>
        whereHolds engine db condition ((aliasName, table, row) :: scope)) != negated) := by
  cases condition with
  | none =>
    cases h : db table <;> simp [Condition.existsIn, Condition.eval, whereHolds, h]
  | some c => simp [Condition.existsIn, Condition.eval, whereHolds]

theorem text_existsIn (negated : Bool) (projection : Projection) (table aliasName : String)
    (condition : Option Condition) :
    (Condition.existsIn negated projection table aliasName condition).text =
      Condition.existsToken negated ++ (selectText projection table aliasName ++
        whereText condition) ++ ")" := by
  cases condition with
  | none => simp [Condition.existsIn, Condition.text, whereText, String.append_assoc]
  | some c => simp [Condition.existsIn, Condition.text, whereText, String.append_assoc]

theorem literals_existsIn (negated : Bool) (projection : Projection) (table aliasName : String)
    (condition : Option Condition) :
    (Condition.existsIn negated projection table aliasName condition).literals =
      whereLiterals condition := by
  cases condition <;> rfl

theorem resolves_existsIn (negated : Bool) (projection : Projection) (table aliasName : String)
    (condition : Option Condition) (aliases : List String) :
    (Condition.existsIn negated projection table aliasName condition).resolves aliases =
      condition.all (·.resolves (aliasName :: aliases)) := by
  cases condition <;> rfl

/-! ### Conjunctions -/

@[simp] theorem whereHolds_conjunction (cs : List Condition) :
    whereHolds engine db (conjunction cs) scope =
      cs.all fun c => (c.eval engine db scope).holds := by
  induction cs with
  | nil => rfl
  | cons c cs ih =>
    rw [conjunction, List.all_cons, ← ih]
    cases conjunction cs <;> simp [whereHolds, Condition.eval]

@[simp] theorem whereHolds_whereAnd (w e : Option Condition) :
    whereHolds engine db (whereAnd w e) scope =
      (whereHolds engine db w scope && whereHolds engine db e scope) := by
  cases w <;> cases e <;> simp [whereAnd, whereHolds, Condition.eval]

@[simp] theorem whereLiterals_conjunction (cs : List Condition) :
    whereLiterals (conjunction cs) = cs.flatMap (·.literals) := by
  induction cs with
  | nil => rfl
  | cons c cs ih =>
    rw [conjunction, List.flatMap_cons, ← ih]
    cases conjunction cs <;> simp [whereLiterals, Condition.literals]

@[simp] theorem whereLiterals_whereAnd (w e : Option Condition) :
    whereLiterals (whereAnd w e) = whereLiterals w ++ whereLiterals e := by
  cases w <;> cases e <;> simp [whereAnd, whereLiterals, Condition.literals]

theorem resolves_conjunction (cs : List Condition) (aliases : List String) :
    (conjunction cs).all (·.resolves aliases) = cs.all (·.resolves aliases) := by
  induction cs with
  | nil => rfl
  | cons c cs ih =>
    rw [conjunction, List.all_cons, ← ih]
    cases conjunction cs <;> simp [Condition.resolves]

theorem resolves_whereAnd (w e : Option Condition) (aliases : List String) :
    (whereAnd w e).all (·.resolves aliases) =
      (w.all (·.resolves aliases) && e.all (·.resolves aliases)) := by
  cases w <;> cases e <;> simp [whereAnd, Condition.resolves]

end MetalOrm.Native.Query
