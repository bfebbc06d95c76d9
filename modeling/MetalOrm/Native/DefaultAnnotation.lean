import MetalOrm.Native.CreateTable
import MetalOrm.Native.SqliteIntrospection

/-!
# Defaults of generated columns

`src/entity_generator.cpp`: the annotation for the default of a column that was read from a database,
and what the compiler makes of it. `metal/mapping_defaults.hpp` and `metal/column_defaults.hpp` say
which annotations a member can have.
-/

namespace MetalOrm.Native.Ddl

open Schema (DatabaseColumn)

/-- `ScalarKind`. -/
inductive ScalarKind where
  | integer
  | real
  | boolean
  | text
  | blob
deriving DecidableEq

/-- Floating-point numbers: what `std::strtod` reads if it reads the whole text and the number is
    finite, and the text with 17 digits, which is read back. Behind blanks a number begins with a
    sign, a point or a digit. -/
structure Doubles where
  Number : Type
  strtod : List Char → Option Number
  digits17 : Number → List Char
  strtod_digits17 : ∀ x, strtod (digits17 x) = some x
  head_of_strtod : ∀ value x, strtod value = some x → ∀ ch ∈ (value.dropWhile isSpace).head?,
    ch.isDigit = true ∨ ch ∈ ['+', '-', '.']

/-! ## Texts of literals -/

/-- `cpp_string`. -/
def cppString (value : List Char) : List Char :=
  value.flatMap fun ch =>
    if ch = '\\' then ['\\', '\\']
    else if ch = '"' then ['\\', '"']
    else if ch = '\n' then ['\\', 'n']
    else if ch = '\x0d' then ['\\', 'r']
    else if ch = '\t' then ['\\', 't']
    else [ch]

/-- What the compiler reads between the quotes of a string literal. -/
def readCppString : List Char → Option (List Char)
  | [] => some []
  | '\\' :: rest =>
    match rest with
    | '\\' :: rest => (readCppString rest).map ('\\' :: ·)
    | '"' :: rest => (readCppString rest).map ('"' :: ·)
    | 'n' :: rest => (readCppString rest).map ('\n' :: ·)
    | 'r' :: rest => (readCppString rest).map ('\x0d' :: ·)
    | 't' :: rest => (readCppString rest).map ('\t' :: ·)
    | _ => none
  | ch :: rest => if ch = '"' || ch = '\n' then none else (readCppString rest).map (ch :: ·)

/-- `-` or nothing, and digits. -/
def integerLiteral (value : List Char) : Option Int :=
  match value with
  | '-' :: digits =>
    if digits.isEmpty || !digits.all Char.isDigit then none
    else some (-(Nat.ofDigitChars 10 digits 0 : Int))
  | digits =>
    if digits.isEmpty || !digits.all Char.isDigit then none
    else some (Nat.ofDigitChars 10 digits 0 : Int)

/-- `std::from_chars` for a `std::int64_t`, if it reads the whole text. -/
def fromChars (value : List Char) : Option Int :=
  (integerLiteral value).filter fun n => -2 ^ 63 ≤ n && n < 2 ^ 63

/-! ## Reading the default -/

/-- The loop over the characters in `strip_outer_parentheses`, and the test behind it. -/
def balancedLoop (depth : Int) : List Char → Bool
  | [] => depth = 0
  | ch :: rest =>
    let depth := if ch = '(' then depth + 1 else if ch = ')' then depth - 1 else depth
    if depth = 0 && !rest.isEmpty then false
    else if depth < 0 then false
    else balancedLoop depth rest

/-- A text in outer parentheses that balance if quotes are ignored. -/
def parenthesized (value : List Char) : Bool :=
  !(value.length < 2 || value.head? ≠ some '(' || value.getLast? ≠ some ')') && balancedLoop 0 value

/-- `value.substr(1, value.size() - 2)`. -/
def inner (value : List Char) : List Char := value.tail.dropLast

/-- The loop of `strip_outer_parentheses`. -/
def stripLoop : Nat → List Char → List Char
  | 0, value => value
  | fuel + 1, value =>
    let value := trimSqlView value
    if parenthesized value then stripLoop fuel (inner value) else value

/-- `strip_outer_parentheses`: each round makes the text shorter. -/
def stripOuterParentheses (value : List Char) : List Char := stripLoop (value.length + 1) value

/-- The loop of `unquote_sql_text`. -/
def unquoteLoop : List Char → List Char
  | [] => []
  | [ch] => [ch]
  | ch :: next :: rest =>
    if ch = '\'' && next = '\'' then '\'' :: unquoteLoop rest else ch :: unquoteLoop (next :: rest)

/-- A text in quotes. -/
def quotedText (value : List Char) : Bool :=
  !(value.length < 2 || value.head? ≠ some '\'' || value.getLast? ≠ some '\'')

/-- `unquote_sql_text`. -/
def unquoteSqlText (value : List Char) : Option (List Char) :=
  if quotedText value then some (unquoteLoop (inner value)) else none

/-! ## Annotations -/

/-- An annotation of the header: `default_null`, or another one with what stands in its braces; that
    is a literal, or the inside of a string literal. -/
inductive MappingDefault where
  | null
  | value (literal : List Char)
  | text (literal : List Char)
  | sql (literal : List Char)
deriving DecidableEq

/-- The text of an annotation in the header. -/
def MappingDefault.source : MappingDefault → List Char
  | .null => "metal::mapping::default_null".toList
  | .value literal => "metal::mapping::default_value\x7b".toList ++ literal ++ "\x7d".toList
  | .text literal => "metal::mapping::default_text\x7b\"".toList ++ literal ++ "\"\x7d".toList
  | .sql literal => "metal::mapping::default_sql\x7b\"".toList ++ literal ++ "\"\x7d".toList

/-- `default_annotation`, for what `strip_outer_parentheses` leaves. -/
def annotationOf (doubles : Doubles) (notNull : Bool) (kind : ScalarKind) (value : List Char) :
    MappingDefault :=
  let upper := uppercase value
  if upper = "NULL".toList then if !notNull then .null else .sql "NULL".toList
  else if kind = .boolean && (value = "0".toList || value = "1".toList ||
      upper = "TRUE".toList || upper = "FALSE".toList) then
    .value (if value = "1".toList || upper = "TRUE".toList then "true".toList else "false".toList)
  else
    match if kind = .integer then fromChars value else none with
    | some n => .value (toString n).toList
    | none =>
      match if kind = .real then doubles.strtod value else none with
      | some x => .value (doubles.digits17 x)
      | none =>
        match if kind ≠ .blob then unquoteSqlText value else none with
        | some t => .text (cppString t)
        | none => .sql (cppString value)

/-- `default_annotation`. -/
def defaultAnnotation (doubles : Doubles) (column : DatabaseColumn) (kind : ScalarKind) :
    Option MappingDefault :=
  column.defaultValue.map fun default =>
    annotationOf doubles column.notNull kind (stripOuterParentheses default.toList)

/-! ## Members -/

/-- `fixed_text<256>`: a text and the zero behind it, up to the first zero. -/
def fixedText (literal : List Char) : Option (List Char) := do
  let value ← readCppString literal
  guard ((String.ofList value).utf8ByteSize + 1 ≤ 256)
  return value.takeWhile (· ≠ '\x00')

/-- The default that a member of the generated type has, if the header is compiled: the constructors
    of the annotations, and `validate_column_default`. The digits of an integer are a literal of
    their own, which has to fit into a `long long` without the sign. -/
def MappingDefault.declared (doubles : Doubles) (kind : ScalarKind) (optional : Bool) :
    MappingDefault → Option ColumnDefault
  | .null => if optional then some .null else none
  | .sql literal => do
    let expression ← fixedText literal
    guard (!expression.isEmpty)
    return .sql (String.ofList expression)
  | .text literal => do
    guard (kind = .text)
    return .text (String.ofList (← fixedText literal))
  | .value literal =>
    if literal = "true".toList || literal = "false".toList then
      if kind = .boolean then some (.boolean (literal = "true".toList)) else none
    else
      match integerLiteral literal with
      | some n => if kind = .integer && n.natAbs < 2 ^ 63 then some (.integer n) else none
      | none => do
        guard (kind = .real)
        return .real (String.ofList (doubles.digits17 (← doubles.strtod literal)))

end MetalOrm.Native.Ddl
