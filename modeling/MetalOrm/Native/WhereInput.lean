import MetalOrm.Native.RelationQueries
import MetalOrm.ForStd.Binary64

/-!
# Filters of requests

`metal/dto_filter.hpp` and `metal/dto_relation_filter.hpp`: a `FilterInput` or a
`WhereInput` names members of an entity, and is turned into the predicate and the
relation filters of a query. Reflection is a parameter: what it gives about each
entity type.
-/

namespace MetalOrm.Native.Query

/-! ## Reflection -/

/-- The type of a persistent member, less its `std::optional`. -/
inductive MemberType where
  | integral (bits : Nat) (signed : Bool)
  | floating (single : Bool)
  | string
  | bool
  | blob
deriving DecidableEq

/-- A persistent member: its identifier, its column and its type. -/
structure ColumnMember where
  name : String
  column : String
  type : MemberType
deriving DecidableEq

/-- A relationship member. The target of `morph_to` depends on the row. -/
structure RelationMember where
  name : String
  target : Option (TypeIndex × RelationColumns Value)

/-- What reflection gives about an entity type. -/
structure EntityType where
  table : String
  primaryKey : String
  members : List ColumnMember
  relations : List RelationMember

/-- The entity types of a program. -/
abbrev Reflection := TypeIndex → EntityType

/-- The root of `select<T>()`. -/
def Reflection.entity (reflection : Reflection) (T : TypeIndex) : EntityInfo where
  type := T
  table := (reflection T).table
  columns := (reflection T).members.map (·.column)

/-- A relation as the relation filters see it. -/
def Reflection.relation (reflection : Reflection) (name : String) (target : TypeIndex)
    (columns : RelationColumns Value) : RelationInfo Value where
  name := name
  target := reflection.entity target
  targetPrimaryKey := (reflection target).primaryKey
  columns := columns

/-! ## Inputs -/

/-- `FilterOperator`. -/
inductive FilterOperator where
  | equals | notEquals | isIn | notIn | lt | lte | gt | gte
  | contains | startsWith | endsWith | isNull | isNotNull
deriving DecidableEq

/-- `StringFilterMode`. -/
inductive StringFilterMode where
  | defaultMode | insensitive
deriving DecidableEq

/-- `FilterClause`. -/
structure FilterClause where
  field : String
  op : FilterOperator := .equals
  value : Value := .null
  values : List Value := []
  mode : StringFilterMode := .defaultMode
deriving DecidableEq

mutual

/-- `WhereInput`. A `FilterInput` is one without relations. -/
structure WhereInput where
  clauses : List FilterClause := []
  relations : List RelationFilterClause := []

/-- `RelationFilterClause`. -/
structure RelationFilterClause where
  relation : String
  someFilter : Option WhereInput := none
  everyFilter : Option WhereInput := none
  noneFilter : Option WhereInput := none
  isEmpty : Option Bool := none
  isNotEmpty : Option Bool := none

end

/-- `where_has_conditions`. -/
def WhereInput.hasConditions (input : WhereInput) : Bool :=
  !input.clauses.isEmpty || !input.relations.isEmpty

/-- `relation_clause_has_operator`. -/
def RelationFilterClause.hasOperator (clause : RelationFilterClause) : Bool :=
  clause.someFilter.isSome || clause.everyFilter.isSome || clause.noneFilter.isSome ||
    clause.isEmpty.isSome || clause.isNotEmpty.isSome

/-! ## Values of filters -/

/-- `static_cast` between integers of the given width and `int64_t`. -/
def castIntegral (bits : Nat) (signed : Bool) (v : Int64) : Int64 :=
  Int64.ofInt (if signed then v.toInt.bmod (2 ^ bits) else v.toInt % (2 ^ bits : Nat))

/-- An integer that a type of the given width can hold. -/
def Representable (bits : Nat) (signed : Bool) (n : Int) : Prop :=
  if signed then -2 ^ (bits - 1) ≤ n ∧ n < 2 ^ (bits - 1) else 0 ≤ n ∧ n < 2 ^ bits

instance (bits : Nat) (signed : Bool) (n : Int) : Decidable (Representable bits signed n) := by
  unfold Representable
  infer_instance

/-- `static_cast` of a `double` to an integer and on to `int64_t`. The behaviour is undefined for
    what the integer type cannot hold, where the model takes zero. -/
def castDouble (bits : Nat) (signed : Bool) (v : UInt64) : Int64 :=
  match ForStd.Binary64.number v with
  | some q =>
    if Representable bits signed (ForStd.Binary64.truncate q) then
      Int64.ofInt (ForStd.Binary64.truncate q)
    else 0
  | none => 0

/-- `static_cast` of a number to `float` or `double` and back to `double`. -/
def castFloating (single : Bool) (v : Float) : Value :=
  .double (if single then v.toFloat32.toFloat else v).toBits

/-- `to_value(from_value<M>(v))` for a value that is not null. -/
def fromValue (type : MemberType) (v : Value) : Except Exn Value :=
  match type, v with
  | .string, .string s => .ok (.string s)
  | .blob, .blob b => .ok (.blob b)
  | .bool, .bool b => .ok (.bool b)
  | .bool, .int64 v => .ok (.bool (v != 0))
  | .integral bits signed, .int64 v => .ok (.int64 (castIntegral bits signed v))
  | .integral bits signed, .bool b => .ok (.int64 (castIntegral bits signed (if b then 1 else 0)))
  | .integral bits signed, .double v => .ok (.int64 (castDouble bits signed v))
  | .floating single, .double v => .ok (castFloating single (Float.ofBits v))
  | .floating single, .int64 v => .ok (castFloating single v.toFloat)
  | _, _ => .error (.ofText "MetalORM: incompatible database value conversion")

/-- `normalize_filter_value`. -/
def normalizeFilterValue (type : MemberType) (v : Value) : Except Exn Value :=
  if v = .null then .ok .null else fromValue type v

/-- The bytes as a `std::string`, which throws above its largest size. -/
def byteString (bytes : List UInt8) : Except Exn ByteString :=
  if h : bytes.length < 2 ^ 64 then .ok ⟨bytes, h⟩ else .error (.ofText "basic_string::append")

/-- `std::tolower` of an ASCII letter. -/
def toLowerByte (c : UInt8) : UInt8 := if 65 ≤ c ∧ c ≤ 90 then c + 32 else c

/-- `ascii_lower` of `metal/dto_filter.hpp`. -/
def asciiLower (s : ByteString) : ByteString :=
  ⟨s.bytes.map toLowerByte, by simpa using s.size_lt⟩

/-- The pattern of a string filter: `%` is byte 37. -/
def likePattern (op : FilterOperator) (text : ByteString) : Except Exn ByteString :=
  match op with
  | .contains => byteString (37 :: text.bytes ++ [37])
  | .startsWith => byteString (text.bytes ++ [37])
  | _ => byteString (37 :: text.bytes)

/-! ## Scalar filters -/

/-- The comparison of a clause with its value. -/
def filterComparison (operand : ScalarNode Value) (type : MemberType) (op : CompareOp)
    (value : Value) : Except Exn (ExprNode Value) :=
  if value = .null then
    if op = .eq then .ok (.nullCheck operand false)
    else if op = .ne then .ok (.nullCheck operand true)
    else .error (.ofText "MetalORM: ordered REST filters cannot compare against null")
  else do
    let normalized ← normalizeFilterValue type value
    return .comparison operand op (.value normalized)

/-- `lt`, `lte`, `gt` and `gte`. -/
def orderedFilter (operand : ScalarNode Value) (type : MemberType) (op : CompareOp)
    (value : Value) : Except Exn (ExprNode Value) :=
  match type with
  | .integral _ _ | .floating _ => filterComparison operand type op value
  | _ => .error (.ofText "MetalORM: lt/lte/gt/gte REST filters require a numeric DTO field")

/-- The values of an IN filter. -/
def filterValues (type : MemberType) (values : List Value) : Except Exn (List Value) :=
  values.mapM fun v =>
    if v = .null then
      .error (.ofText
        "MetalORM: IN/NOT IN REST filters do not accept null; use is_null/is_not_null")
    else normalizeFilterValue type v

/-- `isIn` and `notIn`. -/
def listFilter (operand : ScalarNode Value) (type : MemberType) (values : List Value)
    (negated : Bool) : Except Exn (ExprNode Value) :=
  match type with
  | .bool => .error (.ofText "MetalORM: boolean REST filters support equals/not only")
  | _ => do
    let values ← filterValues type values
    return .inValues operand values negated

/-- `contains`, `startsWith` and `endsWith`. -/
def stringFilter (operand : ScalarNode Value) (type : MemberType) (clause : FilterClause) :
    Except Exn (ExprNode Value) :=
  match type, clause.value with
  | .string, .null =>
    .error (.ofText "MetalORM: string REST filters cannot compare against null")
  | .string, .string text => do
    let pattern ← likePattern clause.op text
    match clause.mode with
    | .insensitive =>
      return .like (.function "LOWER" [operand]) (.value (.string (asciiLower pattern))) false
    | .defaultMode => return .like operand (.value (.string pattern)) false
  | .string, _ => .error (.ofText "MetalORM: incompatible database value conversion")
  | _, _ =>
    .error (.ofText "MetalORM: contains/starts_with/ends_with require a string DTO field")

/-- `build_member_filter`. -/
def buildMemberFilter (T : TypeIndex) (member : ColumnMember) (clause : FilterClause) :
    Except Exn (ExprNode Value) :=
  let operand : ScalarNode Value := .column ⟨T, member.column⟩
  match clause.op with
  | .equals => filterComparison operand member.type .eq clause.value
  | .notEquals => filterComparison operand member.type .ne clause.value
  | .lt => orderedFilter operand member.type .lt clause.value
  | .lte => orderedFilter operand member.type .le clause.value
  | .gt => orderedFilter operand member.type .gt clause.value
  | .gte => orderedFilter operand member.type .ge clause.value
  | .isNull => .ok (.nullCheck operand false)
  | .isNotNull => .ok (.nullCheck operand true)
  | .isIn => listFilter operand member.type clause.values false
  | .notIn => listFilter operand member.type clause.values true
  | .contains | .startsWith | .endsWith => stringFilter operand member.type clause

/-- `and_filter_nodes`, where the right node is there. -/
def andFilterNodes : Option (ExprNode Value) → ExprNode Value → ExprNode Value
  | none, right => right
  | some left, right => .logical .and left right

/-- `filter_member_allowed` and `dto_relation_allowed`: an empty policy allows everything. -/
def policyAllows (policy : List String) (name : String) : Bool :=
  policy.isEmpty || policy.contains name

/-- The node of one clause in `build_filter_expression`. -/
def buildClause (reflection : Reflection) (T : TypeIndex) (allowed : List String)
    (clause : FilterClause) : Except Exn (ExprNode Value) :=
  match (reflection T).members.find? (·.name = clause.field) with
  | none => .error (.ofText ("MetalORM: unknown REST filter field '" ++ clause.field ++ "'"))
  | some member =>
    if policyAllows allowed member.name then buildMemberFilter T member clause
    else .error (.ofText ("MetalORM: REST filter field '" ++ clause.field ++
      "' is not allowed by the reflected filter policy"))

/-- The loop of `build_filter_expression`. -/
def combineClauses (reflection : Reflection) (T : TypeIndex) (allowed : List String) :
    (combined : Option (ExprNode Value)) → List FilterClause →
      Except Exn (Option (ExprNode Value))
  | combined, [] => return combined
  | combined, clause :: clauses => do
    let node ← buildClause reflection T allowed clause
    combineClauses reflection T allowed (some (andFilterNodes combined node)) clauses

/-- `build_filter_expression`. -/
def buildFilterExpression (reflection : Reflection) (T : TypeIndex) (allowed : List String)
    (clauses : List FilterClause) : Except Exn (Option (ExprNode Value)) :=
  combineClauses reflection T allowed none clauses

/-- `BasicSelectQuery::where`: a predicate that was there is replaced. -/
def SelectQuery.setWhere (query : SelectQuery Value) (expression : ExprNode Value) :
    SelectQuery Value :=
  { query with where_ := some expression }

/-- `apply_filter`. -/
def applyFilter (reflection : Reflection) (T : TypeIndex) (allowed : List String)
    (query : SelectQuery Value) (clauses : List FilterClause) :
    Except Exn (SelectQuery Value) := do
  let expression ← buildFilterExpression reflection T allowed clauses
  return match expression with
    | some expression => query.setWhere expression
    | none => query

/-! ## Relation filters -/

/-- `select<T>()`. -/
def Reflection.select (reflection : Reflection) (T : TypeIndex) : SelectQuery Value :=
  { root := reflection.entity T }

/-- The filter of `isEmpty` or `isNotEmpty`, when it is given. -/
def emptinessFilter (relation : RelationInfo Value) : (negated : Option Bool) →
    List (RelationFilter Value)
  | none => []
  | some negated => [.related relation (.basic (selectTarget relation)) negated]

mutual

/-- `build_nested_where_query`. -/
def buildNestedWhereQuery (reflection : Reflection) : WhereInput → (T : TypeIndex) →
    Except Exn (CorrelatedQuery Value)
  | { clauses, relations }, T => do
    let base ← applyFilter reflection T [] (reflection.select T) clauses
    let filters ← relationFilters reflection T [] relations
    return .filtered base filters

/-- The loop of `apply_relation_filters_impl`. -/
def relationFilters (reflection : Reflection) (T : TypeIndex) (allowed : List String) :
    List RelationFilterClause → Except Exn (List (RelationFilter Value))
  | [] => return []
  | clause :: clauses => do
    let filters ← relationClauseFilters reflection T allowed clause
    let rest ← relationFilters reflection T allowed clauses
    return filters ++ rest

/-- The filters that `apply_relation_filters_impl` and `append_relation_clause` add for a
    clause. -/
def relationClauseFilters (reflection : Reflection) (T : TypeIndex) (allowed : List String) :
    RelationFilterClause → Except Exn (List (RelationFilter Value))
  | clause@{ relation := name, someFilter, everyFilter, noneFilter, isEmpty, isNotEmpty } =>
    if !clause.hasOperator then
      .error (.ofText ("MetalORM: relation filter '" ++ name ++
        "' must include some/every/none/isEmpty/isNotEmpty"))
    else match (reflection T).relations.find? (·.name = name) with
      | none => .error (.ofText ("MetalORM: unknown REST relation filter '" ++ name ++ "'"))
      | some member =>
        if !policyAllows allowed member.name then
          .error (.ofText ("MetalORM: REST relation filter '" ++ name ++
            "' is not allowed by the reflected relation policy"))
        else match member.target with
          | none => .error (.ofText
            "MetalORM: morph_to REST relation filters are discriminator-dependent and unsupported")
          | some (target, columns) => do
            let relation := reflection.relation member.name target columns
            let some_ ← nestedFilters reflection target
              (fun child => [.related relation child false]) someFilter
            let none_ ← nestedFilters reflection target
              (fun child => [.related relation child true]) noneFilter
            let every ← nestedFilters reflection target
              (fun child => [.related relation (.basic (selectTarget relation)) false,
                .every relation child]) everyFilter
            return some_ ++ none_ ++ every ++ emptinessFilter relation isEmpty ++
              emptinessFilter relation (isNotEmpty.map (!·))

/-- The filters for a nested input, when it is given and has conditions. -/
def nestedFilters (reflection : Reflection) (target : TypeIndex)
    (filters : CorrelatedQuery Value → List (RelationFilter Value)) :
    Option WhereInput → Except Exn (List (RelationFilter Value))
  | none => return []
  | some input =>
    if input.hasConditions then do
      let child ← buildNestedWhereQuery reflection input target
      return filters child
    else return []

end

/-- `apply_where`. -/
def applyWhere (reflection : Reflection) (T : TypeIndex) (allowedFields allowedRelations : List String)
    (query : SelectQuery Value) (input : WhereInput) : Except Exn (CorrelatedQuery Value) := do
  let base ← applyFilter reflection T allowedFields query input.clauses
  let filters ← relationFilters reflection T allowedRelations input.relations
  return .filtered base filters

end MetalOrm.Native.Query
