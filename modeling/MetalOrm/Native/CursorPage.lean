import MetalOrm.Native.Cursor
import MetalOrm.Native.ValueKey
import MetalOrm.ForStd.Keyset

/-!
# Pages by cursors

`execute_cursor_impl` of `metal/query/pagination.hpp`: the rows of a query behind or before a
cursor, as many as a page has, and whether there is a page behind it and one before it. The
statement is built as syntax first, and then written as text with its parameters.
-/

namespace MetalOrm.Native.Cursor

open ForStd (decimal)

/-! ## Options and results -/

/-- `CursorPageOptions`. -/
structure CursorPageOptions where
  first : Option UInt64 := none
  after : Option ByteString := none
  last : Option UInt64 := none
  before : Option ByteString := none

/-- `CursorPageInfo`. -/
structure CursorPageInfo where
  hasNextPage : Bool := false
  hasPreviousPage : Bool := false
  startCursor : Option (List UInt8) := none
  endCursor : Option (List UInt8) := none

/-- `CursorPageResult`. -/
structure CursorPageResult where
  items : List Row
  pageInfo : CursorPageInfo

/-- `validate_cursor_options`. -/
def validateCursorOptions (options : CursorPageOptions) : Except Exn Unit :=
  if options.first.isSome && options.last.isSome then
    .error (.ofText "MetalORM: cursor first and last cannot be used together")
  else if options.after.isSome && options.before.isSome then
    .error (.ofText "MetalORM: cursor after and before cannot be used together")
  else if options.first.isNone && options.last.isNone then
    .error (.ofText "MetalORM: cursor pagination requires first or last")
  else if options.first.getD (options.last.getD 0) < 1 then
    .error (.ofText "MetalORM: cursor page size must be >= 1")
  else .ok ()

/-! ## Statements -/

/-- The operators of a cursor predicate. -/
inductive KeyOperator where
  | eq | gt | lt
deriving DecidableEq

/-- A comparison of a column with a value of the cursor. -/
structure KeyComparison where
  column : ByteString
  op : KeyOperator
  value : Value
deriving DecidableEq

/-- The query around the query that is paged: its predicate, an OR of ANDs, the columns of its order
    with their directions, and its limit. -/
structure CursorStatement where
  predicate : Option (List (List KeyComparison)) := none
  order : List (ByteString × Bool)
  limit : Option UInt64
deriving DecidableEq

/-- What is written for a statement by a dialect. -/
structure CursorDialect where
  quoteIdentifier : List UInt8 → List UInt8
  placeholder : Nat → Except Exn (List UInt8)

/-- A text with its parameters. -/
abbrev BoundSql := List UInt8 × List Value

/-- `__metal_cursor`. -/
def cursorAlias : List UInt8 := ByteString.ascii "__metal_cursor"

/-- A column of the paged query. -/
def aliasColumn (dialect : CursorDialect) (column : ByteString) : List UInt8 :=
  dialect.quoteIdentifier cursorAlias ++ [46] ++ dialect.quoteIdentifier column.bytes

/-- The text of an operator. -/
def KeyOperator.text : KeyOperator → List UInt8
  | .eq => ByteString.ascii " = "
  | .gt => ByteString.ascii " > "
  | .lt => ByteString.ascii " < "

/-- A comparison, at the end of a statement. -/
def appendComparison (dialect : CursorDialect) (sql : BoundSql) (comparison : KeyComparison) :
    Except Exn BoundSql := do
  let hole ← dialect.placeholder (sql.2.length + 1)
  return (sql.1 ++ aliasColumn dialect comparison.column ++ comparison.op.text ++ hole,
    sql.2 ++ [comparison.value])

/-- The parts of a predicate, with a separator between them. -/
def appendSeparated {α : Type} (append : BoundSql → α → Except Exn BoundSql)
    (separator : List UInt8) : BoundSql → List α → Except Exn BoundSql
  | sql, [] => .ok sql
  | sql, [part] => append sql part
  | sql, part :: parts => do
    let sql ← append sql part
    appendSeparated append separator (sql.1 ++ separator, sql.2) parts

/-- A disjunct of the predicate. -/
def appendDisjunct (dialect : CursorDialect) (sql : BoundSql) (disjunct : List KeyComparison) :
    Except Exn BoundSql := do
  let sql ← appendSeparated (appendComparison dialect) (ByteString.ascii " AND ")
    (sql.1 ++ [40], sql.2) disjunct
  return (sql.1 ++ [41], sql.2)

/-- The predicate of a statement. -/
def appendPredicate (dialect : CursorDialect) (sql : BoundSql) :
    Option (List (List KeyComparison)) → Except Exn BoundSql
  | none => .ok sql
  | some predicate => do
    let sql ← appendSeparated (appendDisjunct dialect) (ByteString.ascii " OR ")
      (sql.1 ++ ByteString.ascii " WHERE (", sql.2) predicate
    return (sql.1 ++ [41], sql.2)

/-- A column of the order. -/
def orderText (dialect : CursorDialect) (term : ByteString × Bool) : List UInt8 :=
  aliasColumn dialect term.1 ++ ByteString.ascii (if term.2 then " ASC" else " DESC")

/-- The text of a statement over the given query. -/
def CursorStatement.write (dialect : CursorDialect) (base : BoundSql)
    (statement : CursorStatement) : Except Exn BoundSql := do
  let sql ← appendPredicate dialect
    (ByteString.ascii "SELECT * FROM (" ++ base.1 ++ ByteString.ascii ") AS " ++
      dialect.quoteIdentifier cursorAlias, base.2) statement.predicate
  let order := (ByteString.ascii ", ").intercalate (statement.order.map (orderText dialect))
  let limit := match statement.limit with
    | some limit => ByteString.ascii " LIMIT " ++ decimal limit.toNat
    | none => []
  return (sql.1 ++ ByteString.ascii " ORDER BY " ++ order ++ limit ++ [59], sql.2)

/-- `append_cursor_predicate`: a disjunct for each term, with the terms before it. -/
def cursorPredicate (order : List CursorOrderTerm) (values : List Value) (afterMode : Bool) :
    Except Exn (List (List KeyComparison)) :=
  if values.length ≠ order.length then .error invalidPayload
  else
    .ok ((ForStd.Keyset.splits (order.zip values)).map fun (before, term, value) =>
      (before.map fun (term, value) => { column := term.column, op := .eq, value }) ++
        [{ column := term.column,
           op := if (if afterMode then term.ascending else !term.ascending) then .gt else .lt,
           value }])

/-! ## Rows -/

/-- `cursor_values_from_row`. -/
def cursorValuesFromRow (row : Row) (order : List CursorOrderTerm) : Except Exn (List Value) :=
  order.mapM fun term =>
    match row.lookup term.column with
    | none => .error ⟨ByteString.ascii "MetalORM: cursor ORDER BY column '" ++ term.column.bytes ++
        ByteString.ascii "' is not present in the query projection"⟩
    | some .null => .error (.ofText "MetalORM: cursor pagination requires non-null ORDER BY values")
    | some value => .ok value

/-- The loop that keeps the first row for each value of a column. -/
def distinctRows (column : ByteString) : (seen : List (List UInt8)) → List Row →
    Except Exn (List Row)
  | _, [] => .ok []
  | seen, row :: rows =>
    match row.lookup column with
    | none => .error (.ofText
        "MetalORM: root-aware cursor pagination requires the root primary key in the projection")
    | some value =>
      if valueKey value ∈ seen then distinctRows column seen rows
      else do
        let rest ← distinctRows column (valueKey value :: seen) rows
        return row :: rest

/-! ## Pages -/

/-- The cursor of a row. -/
def cursorOfRow (doubles : DoubleText) (row : Row) (order : List CursorOrderTerm) :
    Except Exn (List UInt8) := do
  let values ← cursorValuesFromRow row order
  encodeCursor doubles values order

/-- The rows of the page, and the flags and cursors of it. -/
def pageOf (doubles : DoubleText) (order : List CursorOrderTerm) (options : CursorPageOptions)
    (rows : List Row) : Except Exn CursorPageResult := do
  let limit := (options.first.getD (options.last.getD 0)).toNat
  let backward := options.last.isSome
  let hasExtra := limit < rows.length
  let rows := if hasExtra then rows.take limit else rows
  let rows := if backward then rows.reverse else rows
  match rows.head?, rows.getLast? with
  | some front, some back =>
    let startCursor ← cursorOfRow doubles front order
    let endCursor ← cursorOfRow doubles back order
    return {
      items := rows
      pageInfo := {
        hasNextPage := if backward then options.before.isSome else hasExtra
        hasPreviousPage := if backward then hasExtra else options.after.isSome
        startCursor := some startCursor
        endCursor := some endCursor } }
  | _, _ => return { items := rows, pageInfo := {} }

/-- The predicate for the cursor of the options. -/
def predicateOf (doubles : DoubleText) (order : List CursorOrderTerm)
    (options : CursorPageOptions) : Except Exn (Option (List (List KeyComparison))) :=
  match options.after <|> options.before with
  | none => .ok none
  | some cursor => do
    let decoded ← decodeCursor doubles cursor.bytes
    if decoded.signature ≠ orderSignature order then
      .error (.ofText
        "MetalORM: cursor ORDER BY signature does not match the current reflected order")
    else
      let predicate ← cursorPredicate order decoded.values !options.last.isSome
      return some predicate

/-- The statement of a call. -/
def statementOf (doubles : DoubleText) (order : List CursorOrderTerm) (options : CursorPageOptions)
    (dedupeColumn : Option ByteString) : Except Exn CursorStatement := do
  let predicate ← predicateOf doubles order options
  return {
    predicate
    order := order.map fun term =>
      (term.column, if options.last.isSome then !term.ascending else term.ascending)
    limit := if dedupeColumn.isSome then none
      else some (options.first.getD (options.last.getD 0) + 1) }

/-- The rows of the result; joins repeat the rows of the root. -/
def resultRows (dedupeColumn : Option ByteString) (rows : List Row) : Except Exn (List Row) :=
  match dedupeColumn with
  | none => .ok rows
  | some column => distinctRows column [] rows

/-- `execute_cursor_impl`. -/
def executeCursorImpl (doubles : DoubleText) (dialect : CursorDialect)
    (compileSubquery : Except Exn BoundSql)
    (execute : List UInt8 → List Value → Except Exn (List Row)) (order : List CursorOrderTerm)
    (options : CursorPageOptions) (dedupeColumn : Option ByteString) :
    Except Exn CursorPageResult :=
  if order.isEmpty then
    .error (.ofText "MetalORM: cursor pagination requires at least one reflected ORDER BY field")
  else do
    validateCursorOptions options
    let base ← compileSubquery
    let statement ← statementOf doubles order options dedupeColumn
    let sql ← statement.write dialect base
    let rows ← execute sql.1 sql.2
    let rows ← resultRows dedupeColumn rows
    pageOf doubles order options rows

end MetalOrm.Native.Cursor
