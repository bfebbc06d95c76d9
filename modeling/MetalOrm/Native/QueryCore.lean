import MetalOrm.Native.Value

/-!
# Query AST, dialects and SQL text

`metal/query/core_types.hpp` and the state records of `metal/query/select.hpp`.

The AST is generic in the type `V` of its literals; the library uses `Value`.
A subquery, which the source keeps as a `std::function` that compiles it, is the
query itself. An SQL text is a list of pieces: characters, or a placeholder
together with the literal of the AST it was emitted for, which `Sql.render`
leaves out.
-/

namespace MetalOrm.Native.Query

variable {V : Type}

/-! ## SQL text -/

/-- What `Dialect::placeholder` returns: `?` or `$k`. -/
inductive Placeholder where
  | question
  | numbered (k : Nat)
deriving DecidableEq

/-- The characters of a placeholder. -/
def Placeholder.render : Placeholder → String
  | .question => "?"
  | .numbered k => "$" ++ toString k

/-- A part of an SQL text. -/
inductive Piece (V : Type) where
  | chars (s : String)
  | hole (placeholder : Placeholder) (literal : V)
deriving DecidableEq

/-- An SQL text. -/
def Sql (V : Type) : Type := List (Piece V)

namespace Sql

instance : Append (Sql V) := ⟨List.append⟩

/-- A text without placeholders. -/
def chars (s : String) : Sql V := [.chars s]

instance : Coe String (Sql V) := ⟨chars⟩

instance [DecidableEq V] : DecidableEq (Sql V) := inferInstanceAs (DecidableEq (List (Piece V)))

/-- The empty text. -/
def empty : Sql V := []

/-- A placeholder standing for a literal. -/
def hole (placeholder : Placeholder) (literal : V) : Sql V := [.hole placeholder literal]

/-- The characters that are sent to the database. -/
def render (sql : Sql V) : String :=
  List.foldr (fun piece rest => (match piece with
    | .chars s => s
    | .hole p _ => p.render) ++ rest) "" sql

/-- `std::string::empty`: no placeholder has an empty text. -/
def isEmpty (sql : Sql V) : Bool :=
  List.all sql fun
    | .chars s => s.isEmpty
    | .hole _ _ => false

/-- The placeholders of a text from left to right, each with its literal. -/
def holes (sql : Sql V) : List (Placeholder × V) :=
  List.filterMap (fun
    | .chars _ => none
    | .hole p v => some (p, v)) sql

/-- The literals that the placeholders stand for, from left to right. -/
def literals (sql : Sql V) : List V := sql.holes.map Prod.snd

/-- The placeholders of a text from left to right. -/
def placeholders (sql : Sql V) : List Placeholder := sql.holes.map Prod.fst

/-- `join_sql`. -/
def join (separator : String) : List (Sql V) → Sql V
  | [] => empty
  | [sql] => sql
  | sql :: rest => sql ++ (separator ++ join separator rest)

@[simp] theorem holes_empty : (empty : Sql V).holes = [] := rfl

@[simp] theorem holes_chars (s : String) : (chars s : Sql V).holes = [] := rfl

@[simp] theorem holes_hole (p : Placeholder) (v : V) : (hole p v).holes = [(p, v)] := rfl

@[simp] theorem holes_append (a b : Sql V) : (a ++ b).holes = a.holes ++ b.holes :=
  List.filterMap_append

theorem holes_join (separator : String) (parts : List (Sql V)) :
    (join separator parts).holes = parts.flatMap holes := by
  induction parts with
  | nil => rfl
  | cons sql rest ih =>
    cases rest with
    | nil => simp [join]
    | cons next rest => simp [join, ih]

@[simp] theorem literals_append (a b : Sql V) : (a ++ b).literals = a.literals ++ b.literals := by
  simp [literals]

@[simp] theorem isEmpty_append (a b : Sql V) : (a ++ b).isEmpty = (a.isEmpty && b.isEmpty) :=
  List.all_append

@[simp] theorem isEmpty_chars (s : String) : (chars s : Sql V).isEmpty = s.isEmpty := by
  simp [isEmpty, chars]

@[simp] theorem isEmpty_hole (p : Placeholder) (v : V) : (hole p v).isEmpty = false := rfl

@[simp] theorem render_empty : (empty : Sql V).render = "" := rfl

@[simp] theorem render_chars (s : String) : (chars s : Sql V).render = s := by
  simp [render, chars]

@[simp] theorem render_hole (p : Placeholder) (v : V) : (hole p v).render = p.render := by
  simp [render, hole]

@[simp] theorem render_append (a b : Sql V) : (a ++ b).render = a.render ++ b.render := by
  induction a with
  | nil => exact (String.empty_append).symm
  | cons piece a ih =>
    have h : render (List.append a b) = render a ++ render b := ih
    show _ ++ render (List.append a b) = _ ++ render a ++ render b
    rw [h, String.append_assoc]

theorem render_join (separator : String) (parts : List (Sql V)) :
    (join separator parts).render = separator.intercalate (parts.map render) := by
  induction parts with
  | nil => rfl
  | cons sql rest ih =>
    cases rest with
    | nil => simp [join]
    | cons next rest => simp [join, ih, String.intercalate_cons_cons, String.append_assoc]

end Sql

/-! ## Dialects -/

/-- `DialectFamily`. -/
inductive DialectFamily where
  | generic
  | sqlite
  | postgres
deriving DecidableEq

/-- `Dialect`. -/
structure Dialect where
  quoteIdentifier : String → String
  placeholder : Nat → Except Exn Placeholder
  family : DialectFamily := .generic

/-- `quote_ansi_identifier`. -/
def quoteAnsiIdentifier (id : String) : String :=
  "\"" ++ String.ofList (id.toList.flatMap fun c => if c = '"' then ['"', '"'] else [c]) ++ "\""

/-- `PlaceholderOffsetDialect`, as `offset_placeholders` builds it. -/
def offsetPlaceholders (dialect : Dialect) (offset : Nat) : Dialect :=
  { dialect with placeholder := fun index => dialect.placeholder (offset + index) }

/-- `SQLiteDialect`. -/
def sqliteDialect : Dialect where
  quoteIdentifier := quoteAnsiIdentifier
  placeholder := fun _ => .ok .question
  family := .sqlite

/-- `PostgresDialect`. -/
def postgresDialect : Dialect where
  quoteIdentifier := quoteAnsiIdentifier
  placeholder := fun index =>
    if index = 0 then .error (.ofText "MetalORM: PostgreSQL placeholder indexes are one-based")
    else .ok (.numbered index)
  family := .postgres

/-- `CompiledQuery`. -/
structure CompiledQuery (V : Type) where
  sql : Sql V := Sql.empty
  params : List V := []

/-! ## Expressions -/

/-- A string literal. -/
def text (s : String) : Value := .string (.ofAscii s)

/-- `CompareOp`. -/
inductive CompareOp where
  | eq | ne | gt | ge | lt | le
deriving DecidableEq

/-- `compare_token`. -/
def compareToken : CompareOp → String
  | .eq => "="
  | .ne => "<>"
  | .gt => ">"
  | .ge => ">="
  | .lt => "<"
  | .le => "<="

/-- `LogicOp`. -/
inductive LogicOp where
  | and | or
deriving DecidableEq

/-- `ArithmeticOp`. -/
inductive ArithmeticOp where
  | add | subtract | multiply | divide | modulo
deriving DecidableEq

/-- `arithmetic_token`. -/
def arithmeticToken : ArithmeticOp → String
  | .add => "+"
  | .subtract => "-"
  | .multiply => "*"
  | .divide => "/"
  | .modulo => "%"

/-- `AggregateKind`. -/
inductive AggregateKind where
  | count | sum | avg | min | max | stddev | variance
deriving DecidableEq

/-- `aggregate_token`. -/
def aggregateToken : AggregateKind → String
  | .count => "COUNT"
  | .sum => "SUM"
  | .avg => "AVG"
  | .min => "MIN"
  | .max => "MAX"
  | .stddev => "STDDEV"
  | .variance => "VARIANCE"

/-- `JoinKind`. -/
inductive JoinKind where
  | inner | left
deriving DecidableEq

/-- `SetOperationKind`. -/
inductive SetOperationKind where
  | union | unionAll | intersect | except
deriving DecidableEq

/-- `set_operation_token`. -/
def setOperationToken : SetOperationKind → String
  | .union => "UNION"
  | .unionAll => "UNION ALL"
  | .intersect => "INTERSECT"
  | .except => "EXCEPT"

/-- `std::type_index` of an entity. -/
abbrev TypeIndex := Nat

/-- `ColumnRef`. -/
structure ColumnRef where
  owner : TypeIndex
  column : String
deriving DecidableEq

/-- `AggregateRef`. -/
structure AggregateRef where
  kind : AggregateKind := .count
  column : Option ColumnRef := none
  distinct : Bool := false
deriving DecidableEq

/-- `OrderSpec` and `WindowOrderRef`. -/
structure OrderSpec where
  column : ColumnRef
  ascending : Bool := true
deriving DecidableEq

/-- What reflection gives about the root entity of a query. -/
structure EntityInfo where
  type : TypeIndex
  table : String
  columns : List String
deriving DecidableEq

/-- The pivot table of a many-to-many join. -/
structure PivotSpec where
  table : String
  rootColumn : String
  targetColumn : String
deriving DecidableEq

/-- `JoinSpec`. The pivot is present for a many-to-many relation only. -/
structure JoinSpec where
  kind : JoinKind := .inner
  ownerType : TypeIndex
  targetType : TypeIndex
  targetTable : String
  ownerColumn : String
  targetColumn : String
  pivot : Option PivotSpec := none
deriving DecidableEq

/-- `CteJoinSpec`. -/
structure CteJoinSpec where
  kind : JoinKind := .inner
  cteName : String
  ownerColumn : ColumnRef
  cteColumn : String
deriving DecidableEq

mutual

/-- `ScalarNode`. -/
inductive ScalarNode (V : Type) where
  | column (ref : ColumnRef)
  | value (v : V)
  | arithmetic (left : ScalarNode V) (op : ArithmeticOp) (right : ScalarNode V)
  | aggregate (ref : AggregateRef)
  | function (name : String) (args : List (ScalarNode V))
  | case (branches : List (CaseBranch V)) (elseValue : Option (ScalarNode V))
  | window (name : String) (args : List (ScalarNode V)) (partitionBy : List ColumnRef)
      (orderBy : List OrderSpec)

/-- `CaseBranch`. -/
structure CaseBranch (V : Type) where
  when : ExprNode V
  thenValue : ScalarNode V

/-- `ExprNode`. -/
inductive ExprNode (V : Type) where
  | comparison (left : ScalarNode V) (op : CompareOp) (right : ScalarNode V)
  | nullCheck (operand : ScalarNode V) (negated : Bool)
  | like (operand pattern : ScalarNode V) (negated : Bool)
  | between (operand lower upper : ScalarNode V) (negated : Bool)
  | inValues (operand : ScalarNode V) (values : List V) (negated : Bool)
  | inSubquery (operand : ScalarNode V) (subquery : SelectQuery V) (negated : Bool)
  | exists (subquery : SelectQuery V) (negated : Bool)
  | logical (op : LogicOp) (left right : ExprNode V)
  | not (operand : ExprNode V)

/-- `ProjectionSpec`. -/
structure ProjectionSpec (V : Type) where
  expression : ScalarNode V
  aliasName : Option String := none

/-- `CteSpec`. -/
structure CteSpec (V : Type) where
  name : String
  columns : List String := []
  recursive : Bool := false
  query : SelectQuery V

/-- `SetOperationSpec`. -/
structure SetOperationSpec (V : Type) where
  kind : SetOperationKind
  query : SelectQuery V

/-- `DerivedSourceSpec`. -/
structure DerivedSourceSpec (V : Type) where
  aliasName : String
  query : SelectQuery V

/-- `BasicSelectQuery<Root, Scope...>` with its `SelectState`. -/
structure SelectQuery (V : Type) where
  root : EntityInfo
  distinct : Bool := false
  projections : List (ProjectionSpec V) := []
  joins : List JoinSpec := []
  cteJoins : List CteJoinSpec := []
  where_ : Option (ExprNode V) := none
  groupBy : List ColumnRef := []
  having : Option (ExprNode V) := none
  orderBy : List OrderSpec := []
  limit : Option Nat := none
  offset : Option Nat := none
  fromName : Option String := none
  derivedSource : Option (DerivedSourceSpec V) := none
  ctes : List (CteSpec V) := []
  setOperations : List (SetOperationSpec V) := []

end

/-- `BasicSelectQuery::projection_arity`. -/
def SelectQuery.projectionArity (query : SelectQuery V) : Nat :=
  if query.projections.isEmpty then query.root.columns.length else query.projections.length

end MetalOrm.Native.Query
