import MetalOrm.ForStd.Decimal
import MetalOrm.ForStd.FreshNames
import MetalOrm.Native.Value

/-!
# The names of a generated header

`src/entity_generator.cpp` and `src/view_generator.cpp`: how tables, views, columns and foreign keys
are given the names of classes and members. Of a schema there is what the names depend on, and of a
header its classes with their names. The classification of characters is that of the locale "C".
-/

namespace MetalOrm.Native.Generator

open ForStd (decimal isDigit freeName assignFresh)

/-- The bytes of a `std::string`. -/
abbrev Text := List UInt8

/-- An ASCII text of the source. -/
abbrev lit (text : String) : Text := ByteString.ascii text

/-! ## Schemas -/

/-- `DatabaseColumn`: its name, and the table that it references. -/
structure DatabaseColumn where
  name : Text
  references : Option Text := none

/-- `DatabaseTable`. A database has no two columns of one name in a table. -/
structure DatabaseTable where
  name : Text
  columns : List DatabaseColumn
  primaryKey : List Text := []
  nodup : (columns.map (·.name)).Nodup

/-- `DatabaseView`. -/
structure DatabaseView where
  name : Text
  columns : List DatabaseColumn
  nodup : (columns.map (·.name)).Nodup

/-- `DatabaseSchema`. A database has no two tables or views of one name. -/
structure DatabaseSchema where
  tables : List DatabaseTable
  views : List DatabaseView
  nodup : (tables.map (·.name) ++ views.map (·.name)).Nodup

/-! ## Characters -/

/-- `std::isalnum(c) || c == '_'`. -/
def isWordByte (c : UInt8) : Bool :=
  isDigit c || 65 ≤ c && c ≤ 90 || 97 ≤ c && c ≤ 122 || c == 95

/-- `std::toupper`. -/
def toUpper (c : UInt8) : UInt8 := if 97 ≤ c && c ≤ 122 then c - 32 else c

/-- `std::tolower`. -/
def toLower (c : UInt8) : UInt8 := if 65 ≤ c && c ≤ 90 then c + 32 else c

/-- The `keywords` of `is_cpp_keyword`. -/
def cppKeywords : List Text := [
  "alignas", "alignof", "and", "and_eq", "asm", "auto", "bitand", "bitor", "bool",
  "break", "case", "catch", "char", "char8_t", "char16_t", "char32_t", "class", "compl",
  "concept", "const", "consteval", "constexpr", "constinit", "const_cast", "continue", "co_await",
  "co_return", "co_yield", "decltype", "default", "delete", "do", "double", "dynamic_cast",
  "else", "enum", "explicit", "export", "extern", "false", "float", "for", "friend", "goto",
  "if", "inline", "int", "long", "mutable", "namespace", "new", "noexcept", "not", "not_eq",
  "nullptr", "operator", "or", "or_eq", "private", "protected", "public", "register",
  "reinterpret_cast", "requires", "return", "short", "signed", "sizeof", "static", "static_assert",
  "static_cast", "struct", "switch", "template", "this", "thread_local", "throw", "true", "try",
  "typedef", "typeid", "typename", "union", "unsigned", "using", "virtual", "void", "volatile",
  "wchar_t", "while", "xor", "xor_eq"].map lit

/-- `is_cpp_keyword`. -/
def isCppKeyword (value : Text) : Bool := cppKeywords.contains value

/-! ## Names -/

/-- An underscore in front of a digit. -/
def guardDigit (name : Text) : Text := if name.head?.any isDigit then 95 :: name else name

/-- `identifier`. -/
def identifier (input fallback : Text) : Text :=
  let out := input.map fun c => if isWordByte c then c else 95
  let out := guardDigit (if out.isEmpty then fallback else out)
  if isCppKeyword out then out ++ [95] else out

/-- The `irregular` plurals of `singularize`. -/
def irregular : List (Text × Text) := [
  (lit "children", lit "child"), (lit "people", lit "person"), (lit "men", lit "man"),
  (lit "women", lit "woman"), (lit "mice", lit "mouse"), (lit "geese", lit "goose")]

/-- `ends_with`. -/
def endsWith (value ending : Text) : Bool := ending.isSuffixOf value

/-- `singularize`. -/
def singularize (value : Text) : Text :=
  let lower := value.map toLower
  match irregular.lookup lower with
  | some singular => singular
  | none =>
    if lower = lit "series" || lower = lit "species" || lower = lit "news" ||
        endsWith lower (lit "status") || endsWith lower (lit "analysis") then value
    else if value.length > 3 && endsWith lower (lit "ies") then
      value.take (value.length - 3) ++ lit "y"
    else if value.length > 1 && endsWith lower (lit "s") && !endsWith lower (lit "ss") &&
        !endsWith lower (lit "us") && !endsWith lower (lit "is") then value.dropLast
    else value

/-- The loop of `class_name` and `view_type_name`: underscores are left out, and the letters behind
    them are capitals. -/
def capitalized : (capitalize : Bool) → Text → Text
  | _, [] => []
  | capitalize, c :: cs =>
    if c = 95 then capitalized true cs
    else (if capitalize then toUpper c else c) :: capitalized false cs

/-- `class_name`. -/
def className (table : Text) : Text :=
  let out := capitalized true (singularize (identifier table (lit "Entity")))
  let out := guardDigit (if out.isEmpty then lit "Entity" else out)
  if isCppKeyword out then out ++ lit "Entity" else out

/-- `relation_name`. -/
def relationName (column target : Text) : Text :=
  let base := identifier column (lit "relation")
  let base := if base.length > 3 && endsWith base (lit "_id") then base.take (base.length - 3)
    else base
  if base.isEmpty || base = column then
    identifier (singularize (identifier target (lit "relation"))) (lit "relation")
  else base

/-- `view_type_name`. -/
def viewTypeName (name : Text) : Text :=
  let out := capitalized true (identifier name (lit "View"))
  let out := if out.isEmpty then lit "View" else out
  if endsWith out (lit "View") then out else out ++ lit "View"

/-! ## Distinct names -/

/-- The loop over the suffixes of the name of a class. -/
def freeClass (used : List Text) (base : Text) : Text :=
  freeName used base fun suffix => base ++ decimal suffix

/-- The loop over the suffixes of the name of a member. -/
def freeMember (used : List Text) (base : Text) : Text :=
  freeName used base fun suffix => base ++ lit "_" ++ decimal suffix

/-- The values of `make_class_names`, in the order of the tables: these are distinct, so a table is
    found by its position as by its name. -/
def classNames (tables : List DatabaseTable) : List Text :=
  assignFresh freeClass [] (tables.map fun table => className table.name)

/-- The values of `member_names`, in the order of the columns. -/
def memberNames (columns : List DatabaseColumn) : List Text :=
  assignFresh freeMember [] (columns.map fun column => identifier column.name (lit "field"))

/-- `find_table`. -/
def findTable (schema : DatabaseSchema) (name : Text) : Option DatabaseTable :=
  schema.tables.find? (·.name = name)

/-- The target of a column that gets a relation: `belongs_to_reference` asks for one primary key. -/
def relationTarget (schema : DatabaseSchema) (column : DatabaseColumn) : Option DatabaseTable := do
  let target ← findTable schema (← column.references)
  guard (target.primaryKey.length = 1)
  return target

/-- The `property` of a relation, given the names of the members so far. -/
def relationProperty (used : List Text) (name : Text) : Text :=
  freeMember used (if name ∈ used then name ++ lit "_relation" else name)

/-- The names `relation_name` gives for the columns of a table that get a relation. -/
def relationBases (schema : DatabaseSchema) (table : DatabaseTable) : List Text :=
  table.columns.filterMap fun column =>
    (relationTarget schema column).map fun target => relationName column.name target.name

/-- The relations of a table: the loop over the columns of `generate_entity_header`. -/
def relationNames (schema : DatabaseSchema) (table : DatabaseTable) : List Text :=
  assignFresh relationProperty (memberNames table.columns) (relationBases schema table)

/-! ## Headers -/

/-- A class of a header. -/
structure GeneratedClass where
  name : Text
  members : List Text
  relations : List Text

/-- `generate_entity_header`. -/
def generateEntityHeader (schema : DatabaseSchema) (emitRelations : Bool) : List GeneratedClass :=
  (schema.tables.zip (classNames schema.tables)).map fun (table, name) => {
    name
    members := memberNames table.columns
    relations := if emitRelations then relationNames schema table else [] }

/-- The names of the classes of `generate_view_body`. -/
def viewNames (views : List DatabaseView) : List Text :=
  assignFresh freeClass [] (views.map fun view => viewTypeName view.name)

/-- `generate_view_body`. -/
def generateViewBody (views : List DatabaseView) : List GeneratedClass :=
  (views.zip (viewNames views)).map fun (view, name) => {
    name, members := memberNames view.columns, relations := [] }

/-- `generate_model_header`: the views are put in front of the end of the namespace. -/
def generateModelHeader (schema : DatabaseSchema) (emitRelations : Bool) : List GeneratedClass :=
  generateEntityHeader schema emitRelations ++ generateViewBody schema.views

end MetalOrm.Native.Generator
