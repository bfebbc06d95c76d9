import MetalOrm.Native.QueryCore

/-!
# Rendering SQL functions

`compile_function` (`metal/query/sqlite_compiler.hpp`) and
`compile_postgres_function` (`metal/query/postgres_function_compiler.hpp`), from
the point where the arguments have been compiled: `renderFunction` and
`renderPostgresFunction` get the upper-case name and the texts of the arguments.
-/

namespace MetalOrm.Native.Query

variable {V : Type}

/-- `upper_ascii` and `postgres_upper_ascii`. -/
def upperAscii (s : String) : String := String.ofList (s.toList.map Char.toUpper)

/-- `lower_ascii` and `postgres_lower_ascii`. -/
def lowerAscii (s : String) : String := String.ofList (s.toList.map Char.toLower)

/-- `std::string::starts_with`. -/
def startsWith (s start : String) : Bool := start.toList.isPrefixOf s.toList

/-- `s.substr(start.size())`. -/
def afterStart (s start : String) : String := String.ofList (s.toList.drop start.toList.length)

/-- `validate_function_identifier`. -/
def validateFunctionIdentifier (name : String) : Except Exn Unit :=
  let wellFormed := match name.toList with
    | [] => false
    | c :: cs => (c.isAlpha || c == '_') && (c :: cs).all fun c => c.isAlphanum || c == '_'
  if wellFormed then .ok ()
  else .error (.ofText "MetalORM: SQL function name must be a simple identifier")

/-! ## Argument counts -/

/-- A renderer that takes exactly one argument. -/
def one (message : String) (args : List (Sql V)) (text : Sql V → Sql V) : Except Exn (Sql V) :=
  match args with
  | [a] => .ok (text a)
  | _ => .error (.ofText message)

/-- A renderer that takes exactly two arguments. -/
def two (message : String) (args : List (Sql V)) (text : Sql V → Sql V → Sql V) :
    Except Exn (Sql V) :=
  match args with
  | [a, b] => .ok (text a b)
  | _ => .error (.ofText message)

/-! ## SQLite -/

/-- The `strftime` format of a date part function. -/
def datePartFormat (name : String) : String :=
  if name = "YEAR" then "%Y"
  else if name = "MONTH" then "%m"
  else if name = "DAY" then "%d"
  else if name = "HOUR" then "%H"
  else if name = "MINUTE" then "%M"
  else if name = "SECOND" then "%S"
  else if name = "DAY_OF_WEEK" then "%w"
  else "%W"

/-- The `strftime` format of an `EXTRACT_` part. -/
def extractFormat (part : String) : Option String :=
  if part = "YEAR" then some "%Y"
  else if part = "MONTH" then some "%m"
  else if part = "DAY" then some "%d"
  else if part = "HOUR" then some "%H"
  else if part = "MINUTE" then some "%M"
  else if part = "SECOND" then some "%S"
  else if part = "DOW" then some "%w"
  else if part = "WEEK" then some "%W"
  else none

/-- `compile_function` after the arguments have been compiled. `name` is the
    upper-case name and `fnName` the name as it was given. -/
def renderFunction (name fnName : String) (args : List (Sql V)) : Except Exn (Sql V) :=
  if name = "NOW" then .ok "datetime('now', 'localtime')"
  else if name = "CURRENT_DATE" then .ok "date('now', 'localtime')"
  else if name = "CURRENT_TIME" then .ok "time('now', 'localtime')"
  else if name = "UTC_NOW" then .ok "datetime('now')"
  else if name = "LOCAL_TIME" then .ok "time('now', 'localtime')"
  else if name = "LOCAL_TIMESTAMP" then .ok "datetime('now', 'localtime')"
  else if name = "CONCAT" then
    if args.isEmpty then .ok "''" else .ok ("(" ++ Sql.join " || " args ++ ")")
  else if name = "LEFT" then
    two "MetalORM: LEFT expects two arguments" args fun a b =>
      "substr(" ++ a ++ ", 1, " ++ b ++ ")"
  else if name = "RIGHT" then
    two "MetalORM: RIGHT expects two arguments" args fun a b =>
      "substr(" ++ a ++ ", -(" ++ b ++ "))"
  else if name = "ASCII" then
    one "MetalORM: ASCII expects one argument" args fun a => "unicode(substr(" ++ a ++ ", 1, 1))"
  else if name = "CHR" then
    one "MetalORM: CHR expects one argument" args fun a => "char(" ++ a ++ ")"
  else if name = "BIT_LENGTH" then
    one "MetalORM: BIT_LENGTH expects one argument" args fun a =>
      "(length(CAST(" ++ a ++ " AS BLOB)) * 8)"
  else if name = "OCTET_LENGTH" then
    one "MetalORM: OCTET_LENGTH expects one argument" args fun a =>
      "length(CAST(" ++ a ++ " AS BLOB))"
  else if name = "POSITION" ∨ name = "LOCATE" then
    two "MetalORM: POSITION/LOCATE expects two arguments on SQLite" args fun a b =>
      "instr(" ++ b ++ ", " ++ a ++ ")"
  else if name = "IF_NULL" then .ok ("COALESCE(" ++ Sql.join ", " args ++ ")")
  else if name = "GREATEST" then .ok ("max(" ++ Sql.join ", " args ++ ")")
  else if name = "LEAST" then .ok ("min(" ++ Sql.join ", " args ++ ")")
  else if name = "RANDOM" ∨ name = "RAND" then .ok "(abs(random()) / 9223372036854775808.0)"
  else if name = "MOD" then
    two "MetalORM: MOD expects two arguments" args fun a b => "((" ++ a ++ ") % (" ++ b ++ "))"
  else if name = "COT" then
    one "MetalORM: COT expects one argument" args fun a => "(1.0 / tan(" ++ a ++ "))"
  else if name = "CBRT" then
    one "MetalORM: CBRT expects one argument" args fun a => "pow(" ++ a ++ ", 1.0 / 3.0)"
  else if name ∈ ["YEAR", "MONTH", "DAY", "HOUR", "MINUTE", "SECOND", "DAY_OF_WEEK",
      "WEEK_OF_YEAR"] then
    one "MetalORM: date-part function expects one argument" args fun a =>
      "CAST(strftime('" ++ datePartFormat name ++ "', " ++ a ++ ") AS INTEGER)"
  else if name = "QUARTER" then
    one "MetalORM: QUARTER expects one argument" args fun a =>
      "((CAST(strftime('%m', " ++ a ++ ") AS INTEGER) + 2) / 3)"
  else if name = "DATE_DIFF" then
    two "MetalORM: DATE_DIFF expects two arguments" args fun a b =>
      "CAST(julianday(" ++ a ++ ") - julianday(" ++ b ++ ") AS INTEGER)"
  else if name = "DATE_FORMAT" then
    two "MetalORM: DATE_FORMAT expects two arguments" args fun a b =>
      "strftime(" ++ b ++ ", " ++ a ++ ")"
  else if name = "UNIX_TIMESTAMP" then
    if args.isEmpty then .ok "CAST(strftime('%s', 'now') AS INTEGER)"
    else one "MetalORM: UNIX_TIMESTAMP expects zero or one argument" args fun a =>
      "CAST(strftime('%s', " ++ a ++ ") AS INTEGER)"
  else if name = "FROM_UNIXTIME" then
    one "MetalORM: FROM_UNIXTIME expects one argument" args fun a =>
      "datetime(" ++ a ++ ", 'unixepoch')"
  else if name = "END_OF_MONTH" then
    one "MetalORM: END_OF_MONTH expects one argument" args fun a =>
      "date(" ++ a ++ ", 'start of month', '+1 month', '-1 day')"
  else if startsWith name "DATE_ADD_" ∨ startsWith name "DATE_SUB_" then
    two "MetalORM: DATE_ADD/DATE_SUB expects date and interval" args fun a b =>
      let add := startsWith name "DATE_ADD_"
      let unit := lowerAscii (afterStart name (if add then "DATE_ADD_" else "DATE_SUB_"))
      "datetime(" ++ a ++ ", '" ++ (if add then "+" else "-") ++ "' || " ++ b ++ " || ' " ++ unit
        ++ "')"
  else if startsWith name "DATE_TRUNC_" then
    one "MetalORM: DATE_TRUNC expects one date argument" args id >>= fun a =>
      let part := lowerAscii (afterStart name "DATE_TRUNC_")
      if part ≠ "year" ∧ part ≠ "month" ∧ part ≠ "day" then
        .error (.ofText "MetalORM: SQLite DATE_TRUNC supports year, month and day")
      else if part = "day" then .ok ("date(" ++ a ++ ")")
      else .ok ("date(" ++ a ++ ", 'start of " ++ part ++ "')")
  else if startsWith name "EXTRACT_" then
    one "MetalORM: EXTRACT expects one date argument" args id >>= fun a =>
      match extractFormat (afterStart name "EXTRACT_") with
      | some format => .ok ("CAST(strftime('" ++ format ++ "', " ++ a ++ ") AS INTEGER)")
      | none => .error (.ofText "MetalORM: unsupported SQLite EXTRACT part")
  else if name = "JSON_PATH" then
    two "MetalORM: JSON_PATH expects value and path" args fun a b =>
      "json_extract(" ++ a ++ ", " ++ b ++ ")"
  else if name = "JSON_LENGTH" then
    if args.isEmpty ∨ args.length > 2 then
      .error (.ofText "MetalORM: JSON_LENGTH expects one or two arguments")
    else .ok ("json_array_length(" ++ Sql.join ", " args ++ ")")
  else if name = "JSON_ARRAYAGG" then
    one "MetalORM: JSON_ARRAYAGG expects one argument" args fun a => "json_group_array(" ++ a ++ ")"
  else .ok (fnName ++ "(" ++ Sql.join ", " args ++ ")")

/-! ## PostgreSQL -/

/-- `expect` of `compile_postgres_function`: the text of its exception. -/
def expectMessage (count : Nat) (functionName : String) : String :=
  "MetalORM: " ++ functionName ++ " expects " ++ toString count ++ " argument" ++
    (if count = 1 then "" else "s") ++ " on PostgreSQL"

/-- A PostgreSQL renderer without arguments. -/
def expectNone (functionName : String) (args : List (Sql V)) (text : String) :
    Except Exn (Sql V) :=
  match args with
  | [] => .ok text
  | _ => .error (.ofText (expectMessage 0 functionName))

/-- A PostgreSQL renderer of one argument. -/
def expectOne (functionName : String) (args : List (Sql V)) (text : Sql V → Sql V) :
    Except Exn (Sql V) :=
  one (expectMessage 1 functionName) args text

/-- A PostgreSQL renderer of two arguments. -/
def expectTwo (functionName : String) (args : List (Sql V)) (text : Sql V → Sql V → Sql V) :
    Except Exn (Sql V) :=
  two (expectMessage 2 functionName) args text

/-- `compile_postgres_function` after the arguments have been compiled. -/
def renderPostgresFunction (name fnName : String) (args : List (Sql V)) : Except Exn (Sql V) :=
  if name = "NOW" then expectNone "NOW" args "NOW()"
  else if name = "CURRENT_DATE" then expectNone "CURRENT_DATE" args "CURRENT_DATE"
  else if name = "CURRENT_TIME" then expectNone "CURRENT_TIME" args "CURRENT_TIME"
  else if name = "UTC_NOW" then expectNone "UTC_NOW" args "(NOW() AT TIME ZONE 'UTC')"
  else if name = "LOCAL_TIME" then expectNone "LOCAL_TIME" args "LOCALTIME"
  else if name = "LOCAL_TIMESTAMP" then expectNone "LOCAL_TIMESTAMP" args "LOCALTIMESTAMP"
  else if name = "POSITION" ∨ name = "LOCATE" then
    expectTwo name args fun a b => "POSITION(" ++ a ++ " IN " ++ b ++ ")"
  else if name = "INSTR" then
    expectTwo "INSTR" args fun a b => "STRPOS(" ++ a ++ ", " ++ b ++ ")"
  else if name = "IF_NULL" then .ok ("COALESCE(" ++ Sql.join ", " args ++ ")")
  else if name = "GROUP_CONCAT" then
    match args with
    | [a] => .ok ("STRING_AGG(" ++ a ++ ", ',')")
    | [a, b] => .ok ("STRING_AGG(" ++ a ++ ", " ++ b ++ ")")
    | _ => .error (.ofText "MetalORM: GROUP_CONCAT expects one or two arguments on PostgreSQL")
  else if name = "RANDOM" ∨ name = "RAND" then expectNone name args "RANDOM()"
  else if name = "TRUNCATE" then
    expectTwo "TRUNCATE" args fun a b => "TRUNC(" ++ a ++ ", " ++ b ++ ")"
  else if name ∈ ["YEAR", "MONTH", "DAY", "HOUR", "MINUTE", "SECOND", "DAY_OF_WEEK",
      "WEEK_OF_YEAR", "QUARTER"] then
    let part := if name = "DAY_OF_WEEK" then "DOW" else if name = "WEEK_OF_YEAR" then "WEEK" else name
    expectOne name args fun a => "EXTRACT(" ++ part ++ " FROM " ++ a ++ ")"
  else if name = "DATE_DIFF" then
    expectTwo "DATE_DIFF" args fun a b => "(" ++ a ++ "::DATE - " ++ b ++ "::DATE)"
  else if name = "DATE_FORMAT" then
    expectTwo "DATE_FORMAT" args fun a b => "TO_CHAR(" ++ a ++ ", " ++ b ++ ")"
  else if name = "UNIX_TIMESTAMP" then
    if args.isEmpty then .ok "EXTRACT(EPOCH FROM NOW())::BIGINT"
    else one "MetalORM: UNIX_TIMESTAMP expects zero or one argument on PostgreSQL" args fun a =>
      "EXTRACT(EPOCH FROM " ++ a ++ ")::BIGINT"
  else if name = "FROM_UNIXTIME" then
    expectOne "FROM_UNIXTIME" args fun a => "TO_TIMESTAMP(" ++ a ++ ")"
  else if name = "END_OF_MONTH" then
    expectOne "END_OF_MONTH" args fun a =>
      "(DATE_TRUNC('month', " ++ a ++ ") + INTERVAL '1 month' - INTERVAL '1 day')::DATE"
  else if startsWith name "DATE_ADD_" ∨ startsWith name "DATE_SUB_" then
    expectTwo name args fun a b =>
      let add := startsWith name "DATE_ADD_"
      let unit := lowerAscii (afterStart name (if add then "DATE_ADD_" else "DATE_SUB_"))
      "(" ++ a ++ (if add then " + " else " - ") ++ "(" ++ b ++ " || ' " ++ unit ++ "')::INTERVAL)"
  else if startsWith name "DATE_TRUNC_" then
    let part := lowerAscii (afterStart name "DATE_TRUNC_")
    expectOne name args fun a => "DATE_TRUNC('" ++ part ++ "', " ++ a ++ ")"
  else if startsWith name "EXTRACT_" then
    let part := afterStart name "EXTRACT_"
    expectOne name args fun a => "EXTRACT(" ++ part ++ " FROM " ++ a ++ ")"
  else if name = "JSON_PATH" then
    expectTwo "JSON_PATH" args fun a b =>
      "(JSONB_PATH_QUERY_FIRST((" ++ a ++ ")::JSONB, (" ++ b ++ ")::JSONPATH) #>> '\x7b\x7d')"
  else if name = "JSON_LENGTH" then
    expectOne "JSON_LENGTH" args fun a => "JSONB_ARRAY_LENGTH((" ++ a ++ ")::JSONB)"
  else if name = "JSON_ARRAYAGG" then
    expectOne "JSON_ARRAYAGG" args fun a => "JSONB_AGG(" ++ a ++ ")"
  else .ok (fnName ++ "(" ++ Sql.join ", " args ++ ")")

end MetalOrm.Native.Query
