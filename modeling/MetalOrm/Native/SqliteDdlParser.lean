import MetalOrm.Native.SchemaTypes
import Mathlib.Data.List.DropRight

/-!
# Constraints in a stored `CREATE TABLE`

`metal/sqlite_ddl_parser.hpp`: the scanners over the text of a `CREATE TABLE` statement, and the
three parsers that take from it what the pragmas of SQLite do not tell. A position in a text is a
`Cursor`, so that a scanner sees the character before it and all that follow.
-/

namespace MetalOrm.Native.Ddl

open Schema (DatabaseTable DatabaseColumn DatabaseCheck)

/-- A position in a text: the characters before it are counted, and the last one is kept. -/
structure Cursor where
  pos : Nat
  prev : Option Char
  rest : List Char
deriving DecidableEq

namespace Cursor

/-- The position 0. -/
def start (text : List Char) : Cursor := ⟨0, none, text⟩

/-- The next position. -/
def next (c : Cursor) : Cursor :=
  match c.rest with
  | [] => c
  | ch :: rest => ⟨c.pos + 1, some ch, rest⟩

/-- The position `n` characters further on. -/
def advance (c : Cursor) : Nat → Cursor
  | 0 => c
  | n + 1 => c.next.advance n

end Cursor

/-! ## Characters -/

/-- `std::isspace`. -/
def isSpace (ch : Char) : Bool := ch ∈ [' ', '\t', '\n', '\x0b', '\x0c', '\x0d']

/-- `trim_sql_view`. -/
def trimSqlView (value : List Char) : List Char := (value.dropWhile isSpace).rdropWhile isSpace

/-- `sql_identifier_char`. -/
def sqlIdentifierChar (ch : Char) : Bool := ch.isAlphanum || ch = '_'

/-- `sql_keyword_at`. -/
def sqlKeywordAt (c : Cursor) (keyword : String) : Bool :=
  if c.rest.length < keyword.toList.length then false
  else if c.prev.any sqlIdentifierChar then false
  else if (c.rest.drop keyword.toList.length).head?.any sqlIdentifierChar then false
  else (c.rest.take keyword.toList.length).map Char.toUpper = keyword.toList.map Char.toUpper

/-- The loop of `skip_sql_space`. -/
def skipSpaces (pos : Nat) (prev : Option Char) : List Char → Cursor
  | [] => ⟨pos, prev, []⟩
  | ch :: rest => if isSpace ch then skipSpaces (pos + 1) (some ch) rest else ⟨pos, prev, ch :: rest⟩

/-- `skip_sql_space`. -/
def skipSqlSpace (c : Cursor) : Cursor := skipSpaces c.pos c.prev c.rest

/-! ## Identifiers -/

/-- The loop of `read_sql_identifier` in a quoted identifier. -/
def readQuoted (close : Char) (result : List Char) (pos : Nat) (prev : Option Char) :
    List Char → Option (List Char) × Cursor
  | [] => (none, ⟨pos, prev, []⟩)
  | ch :: rest =>
    if ch = close then
      match rest with
      | [] => (some result, ⟨pos + 1, some ch, []⟩)
      | ch' :: rest' =>
        if ch' = close then readQuoted close (result ++ [close]) (pos + 2) (some ch') rest'
        else (some result, ⟨pos + 1, some ch, ch' :: rest'⟩)
    else readQuoted close (result ++ [ch]) (pos + 1) (some ch) rest

/-- A character that ends an unquoted identifier. -/
def endsIdentifier (ch : Char) : Bool := isSpace ch || ch = '(' || ch = ')' || ch = ','

/-- The loop of `read_sql_identifier` in an unquoted identifier. -/
def readBare (result : List Char) (pos : Nat) (prev : Option Char) :
    List Char → List Char × Cursor
  | [] => (result, ⟨pos, prev, []⟩)
  | ch :: rest =>
    if endsIdentifier ch then (result, ⟨pos, prev, ch :: rest⟩)
    else readBare (result ++ [ch]) (pos + 1) (some ch) rest

/-- `read_sql_identifier`: the identifier, if there is one, and the position after it. -/
def readSqlIdentifier (c : Cursor) : Option (List Char) × Cursor :=
  let c := skipSqlSpace c
  match c.rest with
  | [] => (none, c)
  | ch :: rest =>
    if ch = '"' || ch = '`' || ch = '[' then
      readQuoted (if ch = '[' then ']' else ch) [] (c.pos + 1) (some ch) rest
    else
      let (name, after) := readBare [] c.pos c.prev (ch :: rest)
      (if name.isEmpty then none else some name, after)

/-! ## Scanners -/

/-- What a scanner is in: code, a quoted text, an identifier in brackets, or a comment. -/
inductive Lexed where
  | code
  | quoted (quote : Char)
  | bracketed
  | lineComment
  | blockComment
deriving DecidableEq

/-- What the scanners do with a character that is no code, or that begins what is none: the state
    after it, and whether they skip the next one too. -/
def lexStep (state : Lexed) (ch next : Char) : Option (Lexed × Bool) :=
  match state with
  | .lineComment => some (if ch = '\n' || ch = '\x0d' then .code else .lineComment, false)
  | .blockComment =>
    some (if ch = '*' && next = '/' then (.code, true) else (.blockComment, false))
  | .quoted quote =>
    some (if ch = quote then if next = quote then (.quoted quote, true) else (.code, false)
      else (.quoted quote, false))
  | .bracketed =>
    some (if ch = ']' then if next = ']' then (.bracketed, true) else (.code, false)
      else (.bracketed, false))
  | .code =>
    if ch = '-' && next = '-' then some (.lineComment, true)
    else if ch = '/' && next = '*' then some (.blockComment, true)
    else if ch = '\'' || ch = '"' || ch = '`' then some (.quoted ch, false)
    else if ch = '[' then some (.bracketed, false)
    else none

/-- The loop that `find_sql_matching_paren`, `find_sql_keyword_top_level` and
    `split_sqlite_table_body` have in common: `step` is for the characters of the code. -/
def scanCode {σ α : Type} (step : σ → Cursor → Char → σ ⊕ α) (state : Lexed) (skip : Bool) (s : σ)
    (pos : Nat) (prev : Option Char) : List Char → σ ⊕ α
  | [] => .inl s
  | ch :: rest =>
    if skip then scanCode step state false s (pos + 1) (some ch) rest
    else
      match lexStep state ch (rest.headD '\x00') with
      | some (state, skip) => scanCode step state skip s (pos + 1) (some ch) rest
      | none =>
        match step s ⟨pos, prev, ch :: rest⟩ ch with
        | .inl s => scanCode step .code false s (pos + 1) (some ch) rest
        | .inr a => .inr a

/-- A parenthesis in the loop of `find_sql_matching_paren`. -/
def parenStep (depth : Nat) (c : Cursor) (ch : Char) : Nat ⊕ Cursor :=
  if ch = '(' then .inl (depth + 1)
  else if ch = ')' then if depth = 1 then .inr c else .inl (depth - 1)
  else .inl depth

/-- `find_sql_matching_paren`. -/
def findSqlMatchingParen (c : Cursor) : Option Cursor :=
  match c.rest with
  | '(' :: rest =>
    match scanCode parenStep .code false 1 (c.pos + 1) (some '(') rest with
    | .inr close => some close
    | .inl _ => none
  | _ => none

/-- A character in the loop of `find_sql_keyword_top_level`. -/
def keywordStep (keyword : String) (depth : Nat) (c : Cursor) (ch : Char) : Nat ⊕ Cursor :=
  if ch = '(' then .inl (depth + 1)
  else if ch = ')' then .inl (depth - 1)
  else if depth = 0 && sqlKeywordAt c keyword then .inr c
  else .inl depth

/-- `find_sql_keyword_top_level`. -/
def findSqlKeywordTopLevel (start : Cursor) (keyword : String) : Option Cursor :=
  match scanCode (keywordStep keyword) .code false 0 start.pos start.prev start.rest with
  | .inr found => some found
  | .inl _ => none

/-- `extract_check_expression`. -/
def extractCheckExpression (check : Cursor) : Option (List Char) :=
  let c := skipSqlSpace (check.advance "CHECK".length)
  match findSqlMatchingParen c with
  | some close => some (trimSqlView (c.next.rest.take (close.pos - c.pos - 1)))
  | none => none

/-! ## The body of a table -/

/-- The first loop of `split_sqlite_table_body`: it knows no comments, and no `]]`. -/
def findTableBody (quote : Option Char) (bracket skip : Bool) (pos : Nat) (prev : Option Char) :
    List Char → Option Cursor
  | [] => none
  | ch :: rest =>
    if skip then findTableBody quote bracket false (pos + 1) (some ch) rest
    else
      match quote with
      | some q =>
        if ch = q then
          if rest.headD '\x00' = q then findTableBody quote bracket true (pos + 1) (some ch) rest
          else findTableBody none bracket false (pos + 1) (some ch) rest
        else findTableBody quote bracket false (pos + 1) (some ch) rest
      | none =>
        if bracket then
          findTableBody none (!(ch = ']')) false (pos + 1) (some ch) rest
        else if ch = '\'' || ch = '"' || ch = '`' then
          findTableBody (some ch) false false (pos + 1) (some ch) rest
        else if ch = '[' then findTableBody none true false (pos + 1) (some ch) rest
        else if ch = '(' then some ⟨pos, prev, ch :: rest⟩
        else findTableBody none false false (pos + 1) (some ch) rest

/-- The state of the last loop of `split_sqlite_table_body`. -/
structure SplitState where
  depth : Nat
  start : Cursor
  result : List (List Char)

/-- A character in the last loop of `split_sqlite_table_body`. -/
def splitStep (s : SplitState) (c : Cursor) (ch : Char) : SplitState ⊕ Empty :=
  if ch = '(' then .inl { s with depth := s.depth + 1 }
  else if ch = ')' && s.depth > 0 then .inl { s with depth := s.depth - 1 }
  else if ch = ',' && s.depth = 0 then
    .inl { s with
      start := c.next
      result := s.result ++ [trimSqlView (s.start.rest.take (c.pos - s.start.pos))] }
  else .inl s

/-- The last loop of `split_sqlite_table_body`. -/
def splitBody (body : List Char) : List (List Char) :=
  match scanCode splitStep .code false ⟨0, .start body, []⟩ 0 none body with
  | .inl s => s.result ++ [trimSqlView s.start.rest]
  | .inr never => nomatch never

/-- `split_sqlite_table_body`. -/
def splitSqliteTableBody (createSql : List Char) : List (List Char) :=
  match findTableBody none false false 0 none createSql with
  | none => []
  | some open_ =>
    match findSqlMatchingParen open_ with
    | none => []
    | some close => splitBody (open_.next.rest.take (close.pos - open_.pos - 1))

/-! ## Names and modifiers -/

/-- The loop of `constraint_name_for_reference` and of `constraint_name_for_unique`: the name that
    stands right before `target`. -/
def constraintNameBefore (target : Cursor) : Nat → Cursor → Option (List Char)
  | 0, _ => none
  | fuel + 1, search =>
    if search.pos < target.pos then
      match findSqlKeywordTopLevel search "CONSTRAINT" with
      | none => none
      | some found =>
        if found.pos ≥ target.pos then none
        else
          match readSqlIdentifier (found.advance "CONSTRAINT".length) with
          | (some name, c) =>
            if (skipSqlSpace c).pos = target.pos then some name
            else constraintNameBefore target fuel (found.advance "CONSTRAINT".length)
          | (none, _) => constraintNameBefore target fuel (found.advance "CONSTRAINT".length)
    else none

/-- `constraint_name_for_reference`. -/
def constraintNameForReference (segment : List Char) (reference : Cursor) : Option (List Char) :=
  constraintNameBefore reference (segment.length + 1) (.start segment)

/-- `constraint_name_for_unique`. -/
def constraintNameForUnique (segment : List Char) (unique : Cursor) : Option (List Char) :=
  constraintNameBefore unique (segment.length + 1) (.start segment)

/-- `sqlite_reference_is_deferred`. -/
def sqliteReferenceIsDeferred (reference : Cursor) : Bool :=
  let after := reference.advance "REFERENCES".length
  match findSqlKeywordTopLevel after "DEFERRABLE" with
  | none => false
  | some deferrable =>
    let negated :=
      match findSqlKeywordTopLevel after "NOT" with
      | none => false
      | some not_ => not_.pos < deferrable.pos &&
          (skipSqlSpace (not_.advance "NOT".length)).pos = deferrable.pos
    if negated then false
    else
      let c := skipSqlSpace (deferrable.advance "DEFERRABLE".length)
      if sqlKeywordAt c "INITIALLY" then
        sqlKeywordAt (skipSqlSpace (c.advance "INITIALLY".length)) "DEFERRED"
      else false

/-- Change the first column of a name. -/
def updateColumn (name : List Char) (change : DatabaseColumn → DatabaseColumn) :
    List DatabaseColumn → List DatabaseColumn
  | [] => []
  | column :: columns =>
    if column.name.toList = name then change column :: columns
    else column :: updateColumn name change columns

/-- `apply_sqlite_reference_modifiers`. -/
def applySqliteReferenceModifiers (table : DatabaseTable) (columnName segment : List Char)
    (reference : Cursor) (constraintName : Option (List Char)) : DatabaseTable :=
  { table with
    columns := updateColumn columnName (fun column =>
      { column with
        references := column.references.map fun references =>
          { references with
            name := (constraintName.or (constraintNameForReference segment reference)).map
              String.ofList
            deferrable := sqliteReferenceIsDeferred reference } }) table.columns }

/-- `apply_sqlite_column_unique`. -/
def applySqliteColumnUnique (table : DatabaseTable) (columnName : List Char)
    (constraintName : Option (List Char)) : DatabaseTable :=
  { table with
    columns := updateColumn columnName (fun column =>
      { column with unique := true, uniqueName := constraintName.map String.ofList })
      table.columns }

/-! ## The parsers -/

/-- How each parser begins with a segment: the name after `CONSTRAINT`, and the position of what
    follows. -/
def tableConstraint (segment : List Char) : Option (List Char) × Cursor :=
  let c := skipSqlSpace (.start segment)
  if sqlKeywordAt c "CONSTRAINT" then
    let (name, c) := readSqlIdentifier (c.advance "CONSTRAINT".length)
    (name, skipSqlSpace c)
  else (none, c)

/-- The only column of a list in parentheses. -/
def onlyColumn (open_ close : Cursor) : Option (List Char) :=
  let (name, c) := readSqlIdentifier open_.next
  if (skipSqlSpace c).pos = close.pos then name else none

/-- The body of the loop of `parse_sqlite_foreign_key_modifiers`. -/
def parseReferenceSegment (table : DatabaseTable) (segment : List Char) : DatabaseTable :=
  if segment.isEmpty then table
  else
    let (constraintName, c) := tableConstraint segment
    if sqlKeywordAt c "FOREIGN" then
      let c := skipSqlSpace (c.advance "FOREIGN".length)
      if sqlKeywordAt c "KEY" then
        let c := skipSqlSpace (c.advance "KEY".length)
        match findSqlMatchingParen c with
        | none => table
        | some close =>
          match onlyColumn c close with
          | none => table
          | some child =>
            match findSqlKeywordTopLevel close.next "REFERENCES" with
            | none => table
            | some reference =>
              applySqliteReferenceModifiers table child segment reference constraintName
      else table
    else
      match readSqlIdentifier (.start segment) with
      | (none, _) => table
      | (some name, c) =>
        match findSqlKeywordTopLevel c "REFERENCES" with
        | none => table
        | some reference => applySqliteReferenceModifiers table name segment reference none

/-- `parse_sqlite_foreign_key_modifiers`. -/
def parseSqliteForeignKeyModifiers (createSql : List Char) (table : DatabaseTable) :
    DatabaseTable :=
  (splitSqliteTableBody createSql).foldl parseReferenceSegment table

/-- The body of the loop of `parse_sqlite_unique_constraints`. -/
def parseUniqueSegment (table : DatabaseTable) (segment : List Char) : DatabaseTable :=
  if segment.isEmpty then table
  else
    let (constraintName, c) := tableConstraint segment
    if sqlKeywordAt c "UNIQUE" then
      let c := skipSqlSpace (c.advance "UNIQUE".length)
      match findSqlMatchingParen c with
      | none => table
      | some close =>
        match onlyColumn c close with
        | none => table
        | some name => applySqliteColumnUnique table name constraintName
    else
      match readSqlIdentifier (.start segment) with
      | (none, _) => table
      | (some name, c) =>
        match findSqlKeywordTopLevel c "UNIQUE" with
        | none => table
        | some unique =>
          applySqliteColumnUnique table name (constraintNameForUnique segment unique)

/-- `parse_sqlite_unique_constraints`. -/
def parseSqliteUniqueConstraints (createSql : List Char) (table : DatabaseTable) :
    DatabaseTable :=
  (splitSqliteTableBody createSql).foldl parseUniqueSegment table

/-- The body of the loop of `parse_sqlite_check_constraints`. -/
def parseCheckSegment (table : DatabaseTable) (segment : List Char) : DatabaseTable :=
  if segment.isEmpty then table
  else
    let (constraintName, c) := tableConstraint segment
    if sqlKeywordAt c "CHECK" then
      match extractCheckExpression c with
      | none => table
      | some expression =>
        { table with
          checks := table.checks ++
            [{ name := constraintName.map String.ofList
               expression := String.ofList expression }] }
    else
      match readSqlIdentifier (.start segment) with
      | (none, _) => table
      | (some name, c) =>
        match findSqlKeywordTopLevel c "CHECK" with
        | none => table
        | some check =>
          match extractCheckExpression check with
          | none => table
          | some expression =>
            { table with
              columns := updateColumn name (fun column =>
                { column with check := some (String.ofList expression) }) table.columns }

/-- `parse_sqlite_check_constraints`. -/
def parseSqliteCheckConstraints (createSql : List Char) (table : DatabaseTable) : DatabaseTable :=
  (splitSqliteTableBody createSql).foldl parseCheckSegment table

end MetalOrm.Native.Ddl
