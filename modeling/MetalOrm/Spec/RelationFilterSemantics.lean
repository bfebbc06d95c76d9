import MetalOrm.Spec.FilterText
import MetalOrm.ForStd.Modal

/-!
# The meaning of relation filters

Which rows satisfy a `WhereInput`, by recursion over the input, and that the nest of
EXISTS conditions it is compiled to on SQLite selects them. In between stands a modal
formula: the relations of an entity are steps from row to row, and so is looking for the
rows with the same primary key.

## Key results

- `denotes_applyWhere`: the compiled conditions hold of the rows that satisfy the formula
- `satisfied_eq_sat`: the formula says what the input asks for, if rows have keys
- `relation_filter_semantics`: the statement of `apply_where` selects the rows that
  satisfy the input, if no primary key is null
-/

namespace MetalOrm.Native.Query

open ForStd

/-! ## Rows that satisfy an input -/

/-- Two values are equal for the database; a null is equal to nothing. -/
def Engine.equal (engine : Engine) (a b : Cell) : Bool := (engine.compare .eq a b).holds

/-- A row of the target is related to a row of the owner: by the foreign key, through the
    pivot table, or by the id and the type of the morph relation. -/
def RelationInfo.related (relation : RelationInfo Value) (engine : Engine) (db : Database)
    (ownerTable : String) (row target : Tuple) : Bool :=
  let own := cellOf ownerTable row
  let other := cellOf relation.target.table target
  match relation.columns with
  | .belongsTo foreignKey targetKey => engine.equal (other targetKey) (own foreignKey)
  | .hasOne targetForeignKey localKey | .hasMany targetForeignKey localKey =>
    engine.equal (other targetForeignKey) (own localKey)
  | .manyToMany pivot pivotRootKey pivotTargetKey localKey targetKey =>
    (db pivot).any fun link =>
      engine.equal (cellOf pivot link pivotTargetKey) (other targetKey) &&
        engine.equal (cellOf pivot link pivotRootKey) (own localKey)
  | .morphOne typeField idField localKey typeValue
  | .morphMany typeField idField localKey typeValue =>
    engine.equal (other idField) (own localKey) &&
      engine.equal (other typeField) { value := typeValue }

/-- The rows that are related to a row of the owner. -/
def RelationInfo.relatedRows (relation : RelationInfo Value) (engine : Engine) (db : Database)
    (ownerTable : String) (row : Tuple) : List Tuple :=
  (db relation.target.table).filter (relation.related engine db ownerTable row)

/-- The value that a clause compares with: the value as the type of the member. -/
def literalOf (type : MemberType) (v : Value) : Cell where
  value := match normalizeFilterValue type v with
    | .ok v => v
    | .error _ => v

/-- The text that a string clause looks for. -/
def patternOf (clause : FilterClause) (text : ByteString) : ByteString :=
  match likePattern clause.op text with
  | .ok pattern => pattern
  | .error _ => text

/-- A row satisfies a scalar clause. A comparison with a null value asks for null. -/
def FilterClause.satisfied (clause : FilterClause) (engine : Engine) (table : String)
    (member : ColumnMember) (row : Tuple) : Bool :=
  let cell := cellOf table row member.column
  let compare (op : CompareOp) : Bool :=
    (engine.compare op cell (literalOf member.type clause.value)).holds
  match clause.op with
  | .equals => if clause.value = .null then cell.value = .null else compare .eq
  | .notEquals => if clause.value = .null then cell.value ≠ .null else compare .ne
  | .lt => compare .lt
  | .lte => compare .le
  | .gt => compare .gt
  | .gte => compare .ge
  | .isNull => cell.value = .null
  | .isNotNull => cell.value ≠ .null
  | .isIn => clause.values.any fun v => engine.equal cell (literalOf member.type v)
  | .notIn => clause.values.all fun v =>
    engine.compare .eq cell (literalOf member.type v) == some false
  | .contains | .startsWith | .endsWith =>
    match clause.value with
    | .string text =>
      match clause.mode with
      | .insensitive => (engine.like { value := engine.lower cell }
          { value := .string (asciiLower (patternOf clause text)) }).holds
      | .defaultMode => (engine.like cell { value := .string (patternOf clause text) }).holds
    | _ => false

/-- The member that a clause names. -/
def EntityType.member? (entity : EntityType) (field : String) : Option ColumnMember :=
  entity.members.find? (·.name = field)

/-- A row satisfies the clause on the member that it names. -/
def EntityType.satisfies (entity : EntityType) (engine : Engine) (row : Tuple)
    (clause : FilterClause) : Bool :=
  (entity.member? clause.field).all fun member => clause.satisfied engine entity.table member row

/-- The target and the columns of the relation that a clause names. -/
def Reflection.relation? (reflection : Reflection) (T : TypeIndex) (name : String) :
    Option (TypeIndex × RelationInfo Value) := do
  let member ← (reflection T).relations.find? (·.name = name)
  let (target, columns) ← member.target
  return (target, reflection.relation member.name target columns)

/-- The rows that the relation of the given name leads to. -/
def Reflection.relatedRows (reflection : Reflection) (engine : Engine) (db : Database)
    (T : TypeIndex) (name : String) (row : Tuple) : List Tuple :=
  match reflection.relation? T name with
  | some (_, relation) => relation.relatedRows engine db (reflection T).table row
  | none => []

/-- A step from row to row: along a relation, or to the rows with the same primary key. -/
inductive Step where
  | relation (name : String)
  | sameKey

/-- The entity that a step from `T` leads to. -/
def Reflection.target (reflection : Reflection) (T : TypeIndex) : Step → TypeIndex
  | .relation name => match reflection.relation? T name with
    | some (target, _) => target
    | none => T
  | .sameKey => T

mutual

/-- A row of `T` satisfies an input: all scalar clauses and all relation clauses. -/
def WhereInput.satisfied (reflection : Reflection) (engine : Engine) (db : Database) :
    WhereInput → (T : TypeIndex) → (row : Tuple) → Bool
  | { clauses, relations }, T, row =>
    clauses.all ((reflection T).satisfies engine row) &&
      relationsSatisfied reflection engine db relations T row

/-- A row satisfies all relation clauses of a list. -/
def relationsSatisfied (reflection : Reflection) (engine : Engine) (db : Database) :
    List RelationFilterClause → (T : TypeIndex) → (row : Tuple) → Bool
  | [], _, _ => true
  | clause :: clauses, T, row =>
    clause.satisfied reflection engine db T row &&
      relationsSatisfied reflection engine db clauses T row

/-- A row satisfies a relation clause. -/
def RelationFilterClause.satisfied (reflection : Reflection) (engine : Engine) (db : Database) :
    RelationFilterClause → (T : TypeIndex) → (row : Tuple) → Bool
  | { relation := name, someFilter, everyFilter, noneFilter, isEmpty, isNotEmpty }, T, row =>
    let related := reflection.relatedRows engine db T name row
    let target := reflection.target T (.relation name)
    nestedSatisfied reflection engine db target (fun holds => related.any holds) someFilter &&
      nestedSatisfied reflection engine db target (fun holds => !related.any holds) noneFilter &&
      nestedSatisfied reflection engine db target
        (fun holds => !related.isEmpty && related.all holds) everyFilter &&
      isEmpty.all (fun b => related.isEmpty == b) &&
      isNotEmpty.all (fun b => (!related.isEmpty) == b)

/-- A condition on the related rows, given what a nested input asks of each of them. An input
    without conditions imposes nothing. -/
def nestedSatisfied (reflection : Reflection) (engine : Engine) (db : Database)
    (target : TypeIndex) (quantifier : (Tuple → Bool) → Bool) : Option WhereInput → Bool
  | none => true
  | some input =>
    !input.hasConditions || quantifier (fun row => input.satisfied reflection engine db target row)

end

/-! ## Scalar clauses -/

/-- A predicate on members of `T` that holds of the rows that pass a test. -/
def Expresses (T : TypeIndex) (e : ExprNode Value) (test : Engine → String → Tuple → Bool) : Prop :=
  ∀ aliasName, ∃ c, e.condition? T aliasName = some c ∧
    (∀ aliases, aliasName ∈ aliases → c.resolves aliases = true) ∧
    ∀ engine db scope table row, scope.lookup aliasName = some (table, row) →
      (c.eval engine db scope).holds = test engine table row

theorem Expresses.congr {T : TypeIndex} {e : ExprNode Value}
    {test test' : Engine → String → Tuple → Bool} (h : Expresses T e test)
    (htest : ∀ engine table row, test engine table row = test' engine table row) :
    Expresses T e test' := by
  intro aliasName
  obtain ⟨c, hc, hresolves, heval⟩ := h aliasName
  refine ⟨c, hc, hresolves, fun engine db scope table row hscope => ?_⟩
  rw [heval engine db scope table row hscope, htest]

theorem expresses_nullCheck (T : TypeIndex) (column : String) (negated : Bool) :
    Expresses T (.nullCheck (.column ⟨T, column⟩) negated) fun _ table row =>
      decide ((cellOf table row column).value = .null) != negated := by
  intro aliasName
  refine ⟨.nullCheck (.column aliasName column) negated, by simp [ExprNode.condition?,
    ScalarNode.operand?], fun aliases hmem => by simp [Condition.resolves, Operand.resolves, hmem],
    fun engine db scope table row hscope => ?_⟩
  simp [Condition.eval, Operand.eval, hscope]

theorem expresses_comparison (T : TypeIndex) (column : String) (op : CompareOp) (v : Value) :
    Expresses T (.comparison (.column ⟨T, column⟩) op (.value v)) fun engine table row =>
      (engine.compare op (cellOf table row column) { value := v }).holds := by
  intro aliasName
  refine ⟨.compare (.column aliasName column) op (.literal v), by simp [ExprNode.condition?,
    ScalarNode.operand?], fun aliases hmem => by simp [Condition.resolves, Operand.resolves, hmem],
    fun engine db scope table row hscope => ?_⟩
  simp [Condition.eval, Operand.eval, hscope]

theorem expresses_like (T : TypeIndex) (column : String) (v : Value) :
    Expresses T (.like (.column ⟨T, column⟩) (.value v) false) fun engine table row =>
      (engine.like (cellOf table row column) { value := v }).holds := by
  intro aliasName
  refine ⟨.like (.column aliasName column) (.literal v), by simp [ExprNode.condition?,
    ScalarNode.operand?], fun aliases hmem => by simp [Condition.resolves, Operand.resolves, hmem],
    fun engine db scope table row hscope => ?_⟩
  simp [Condition.eval, Operand.eval, hscope]

theorem expresses_likeLower (T : TypeIndex) (column : String) (v : Value) :
    Expresses T (.like (.function "LOWER" [.column ⟨T, column⟩]) (.value v) false)
      fun engine table row => (engine.like { value := engine.lower (cellOf table row column) }
        { value := v }).holds := by
  intro aliasName
  refine ⟨.like (.lower aliasName column) (.literal v), by simp [ExprNode.condition?,
    ScalarNode.operand?], fun aliases hmem => by simp [Condition.resolves, Operand.resolves, hmem],
    fun engine db scope table row hscope => ?_⟩
  simp [Condition.eval, Operand.eval, hscope]

theorem expresses_inValues (T : TypeIndex) (column : String) (values : List Value)
    (negated : Bool) :
    Expresses T (.inValues (.column ⟨T, column⟩) values negated) fun engine table row =>
      if negated then
        values.all fun v => engine.compare .eq (cellOf table row column) { value := v } == some false
      else values.any fun v => engine.equal (cellOf table row column) { value := v } := by
  intro aliasName
  cases values with
  | nil =>
    refine ⟨.constant negated, by simp [ExprNode.condition?, ScalarNode.operand?],
      fun aliases _ => rfl, fun engine db scope table row _ => ?_⟩
    cases negated <;> rfl
  | cons v values =>
    refine ⟨.inValues (.column aliasName column) (v :: values) negated, by simp
      [ExprNode.condition?, ScalarNode.operand?], fun aliases hmem => by simp [Condition.resolves,
      Operand.resolves, hmem], fun engine db scope table row hscope => ?_⟩
    have heval : Condition.eval engine db
        (.inValues (.column aliasName column) (v :: values) negated) scope =
        Truth.negate negated (Truth.any (fun v => engine.compare .eq (cellOf table row column)
          { value := v }) (v :: values)) := by
      simp [Condition.eval, Operand.eval, hscope]
    rw [heval]
    cases negated with
    | false => exact Truth.holds_any _ _
    | true => exact (Truth.holds_not _).trans (Truth.any_eq_false _ _)

theorem expresses_and {T : TypeIndex} {left right : ExprNode Value}
    {test test' : Engine → String → Tuple → Bool} (h : Expresses T left test)
    (h' : Expresses T right test') :
    Expresses T (.logical .and left right) fun engine table row =>
      test engine table row && test' engine table row := by
  intro aliasName
  obtain ⟨c, hc, hresolves, heval⟩ := h aliasName
  obtain ⟨c', hc', hresolves', heval'⟩ := h' aliasName
  refine ⟨.group (.and c c'), by simp [ExprNode.condition?, hc, hc'], fun aliases hmem => by simp
    [Condition.resolves, hresolves aliases hmem, hresolves' aliases hmem],
    fun engine db scope table row hscope => ?_⟩
  simp [Condition.eval, heval engine db scope table row hscope,
    heval' engine db scope table row hscope]

theorem literalOf_normalized {type : MemberType} {v normalized : Value}
    (h : normalizeFilterValue type v = .ok normalized) : literalOf type v = { value := normalized } := by
  simp [literalOf, h]

/-- The comparison of a clause, unless it asks for null. -/
theorem expresses_filterComparison {T : TypeIndex} {member : ColumnMember} {op : CompareOp}
    {v : Value} {e : ExprNode Value}
    (h : filterComparison (.column ⟨T, member.column⟩) member.type op v = .ok e) :
    Expresses T e fun engine table row =>
      if v = .null then
        decide ((cellOf table row member.column).value = .null) != decide (op = .ne)
      else (engine.compare op (cellOf table row member.column) (literalOf member.type v)).holds := by
  unfold filterComparison at h
  split at h
  · rename_i hnull
    split at h
    · rename_i hop
      cases h
      refine (expresses_nullCheck T member.column false).congr fun _ _ _ => ?_
      simp [hnull, hop]
    · split at h
      · rename_i hop
        cases h
        refine (expresses_nullCheck T member.column true).congr fun _ _ _ => ?_
        simp [hnull, hop]
      · cases h
  · rename_i hnull
    cases hnormalized : normalizeFilterValue member.type v with
    | error e => simp [hnormalized, Bind.bind, Except.bind] at h
    | ok normalized =>
      rw [hnormalized] at h
      cases h
      refine (expresses_comparison T member.column op normalized).congr fun _ _ _ => ?_
      simp [hnull, literalOf_normalized hnormalized]

theorem filterValues_literalOf {type : MemberType} {values normalized : List Value}
    (h : filterValues type values = .ok normalized) :
    normalized.map (fun v => ({ value := v } : Cell)) = values.map (literalOf type) := by
  induction values generalizing normalized with
  | nil =>
    cases h
    rfl
  | cons v values ih =>
    unfold filterValues at h ih
    rw [List.mapM_cons] at h
    obtain ⟨head, hhead, h⟩ := except_bind_ok h
    obtain ⟨tail, htail, h⟩ := except_bind_ok h
    cases h
    split at hhead
    · cases hhead
    · simp [literalOf_normalized hhead, ih htail]

theorem expresses_listFilter {T : TypeIndex} {member : ColumnMember} {values : List Value}
    {negated : Bool} {e : ExprNode Value}
    (h : listFilter (.column ⟨T, member.column⟩) member.type values negated = .ok e) :
    Expresses T e fun engine table row =>
      let cell := cellOf table row member.column
      if negated then values.all fun v => engine.compare .eq cell (literalOf member.type v) == some false
      else values.any fun v => engine.equal cell (literalOf member.type v) := by
  unfold listFilter at h
  split at h
  · cases h
  · obtain ⟨normalized, hnormalized, h⟩ := except_bind_ok h
    cases h
    have hmap := filterValues_literalOf hnormalized
    refine (expresses_inValues T member.column normalized negated).congr fun engine table row => ?_
    have hall : ∀ p : Cell → Bool, normalized.all (fun v => p { value := v }) =
        values.all fun v => p (literalOf member.type v) := by
      intro p
      have := congrArg (List.all · p) hmap
      simpa [List.all_map, Function.comp_def] using this
    have hany : ∀ p : Cell → Bool, normalized.any (fun v => p { value := v }) =
        values.any fun v => p (literalOf member.type v) := by
      intro p
      have := congrArg (List.any · p) hmap
      simpa [List.any_map, Function.comp_def] using this
    cases negated with
    | false => exact hany fun cell => engine.equal (cellOf table row member.column) cell
    | true => exact hall fun cell =>
        engine.compare .eq (cellOf table row member.column) cell == some false

theorem expresses_stringFilter {T : TypeIndex} {member : ColumnMember} {clause : FilterClause}
    {e : ExprNode Value}
    (h : stringFilter (.column ⟨T, member.column⟩) member.type clause = .ok e) :
    Expresses T e fun engine table row =>
      match clause.value with
      | .string text =>
        match clause.mode with
        | .insensitive =>
          (engine.like { value := engine.lower (cellOf table row member.column) }
            { value := .string (asciiLower (patternOf clause text)) }).holds
        | .defaultMode => (engine.like (cellOf table row member.column)
            { value := .string (patternOf clause text) }).holds
      | _ => false := by
  unfold stringFilter at h
  split at h
  · cases h
  · rename_i text _ hvalue
    obtain ⟨pattern, hpattern, h⟩ := except_bind_ok h
    have hpatternOf : patternOf clause text = pattern := by simp [patternOf, hpattern]
    split at h
    · rename_i hmode
      cases h
      refine (expresses_likeLower T member.column _).congr fun _ _ _ => ?_
      simp [hvalue, hmode, hpatternOf]
    · rename_i hmode
      cases h
      refine (expresses_like T member.column _).congr fun _ _ _ => ?_
      simp [hvalue, hmode, hpatternOf]
  · cases h
  · cases h

theorem filterComparison_of_ordered {operand : ScalarNode Value} {type : MemberType}
    {op : CompareOp} {v : Value} {e : ExprNode Value} (h : orderedFilter operand type op v = .ok e) :
    filterComparison operand type op v = .ok e := by
  unfold orderedFilter at h
  split at h
  · exact h
  · exact h
  · cases h

/-- An ordered comparison does not ask for null. -/
theorem expresses_orderedFilter {T : TypeIndex} {member : ColumnMember} {op : CompareOp}
    {v : Value} {e : ExprNode Value} (hop : op ≠ .eq ∧ op ≠ .ne)
    (h : orderedFilter (.column ⟨T, member.column⟩) member.type op v = .ok e) :
    Expresses T e fun engine table row =>
      (engine.compare op (cellOf table row member.column) (literalOf member.type v)).holds := by
  have hcomparison := filterComparison_of_ordered h
  have hnull : v ≠ .null := by
    intro hnull
    simp [filterComparison, hnull, hop.1, hop.2] at hcomparison
  refine (expresses_filterComparison hcomparison).congr fun _ _ _ => ?_
  simp [hnull]

/-- The node of a clause holds of the rows that satisfy it. -/
theorem expresses_buildMemberFilter {T : TypeIndex} {member : ColumnMember} {clause : FilterClause}
    {e : ExprNode Value} (h : buildMemberFilter T member clause = .ok e) :
    Expresses T e fun engine table row => clause.satisfied engine table member row := by
  unfold buildMemberFilter at h
  unfold FilterClause.satisfied
  cases hop : clause.op <;> simp only [hop] at h ⊢
  case equals =>
    refine (expresses_filterComparison h).congr fun _ _ _ => ?_
    split <;> simp_all
  case notEquals =>
    refine (expresses_filterComparison h).congr fun _ _ _ => ?_
    split <;> simp_all
  case lt => exact expresses_orderedFilter (by decide) h
  case lte => exact expresses_orderedFilter (by decide) h
  case gt => exact expresses_orderedFilter (by decide) h
  case gte => exact expresses_orderedFilter (by decide) h
  case isNull =>
    cases h
    refine (expresses_nullCheck T member.column false).congr fun _ _ _ => ?_
    simp
  case isNotNull =>
    cases h
    refine (expresses_nullCheck T member.column true).congr fun _ _ _ => ?_
    simp
  case isIn => exact expresses_listFilter h
  case notIn => exact expresses_listFilter h
  case contains => exact expresses_stringFilter h
  case startsWith => exact expresses_stringFilter h
  case endsWith => exact expresses_stringFilter h

theorem expresses_buildClause {reflection : Reflection} {T : TypeIndex} {allowed : List String}
    {clause : FilterClause} {e : ExprNode Value}
    (h : buildClause reflection T allowed clause = .ok e) :
    Expresses T e fun engine table row =>
      ((reflection T).member? clause.field).all fun member =>
        clause.satisfied engine table member row := by
  unfold buildClause at h
  unfold EntityType.member?
  split at h
  · cases h
  · rename_i member hmember
    split at h
    · refine (expresses_buildMemberFilter h).congr fun _ _ _ => ?_
      rw [hmember]
      rfl
    · cases h

/-- What `build_filter_expression` returns for clauses that pass a test. -/
def ExpressesAll (T : TypeIndex) (e : Option (ExprNode Value))
    (test : Engine → String → Tuple → Bool) : Prop :=
  match e with
  | none => ∀ engine table row, test engine table row = true
  | some e => Expresses T e test

theorem expresses_combineClauses {reflection : Reflection} {T : TypeIndex} {allowed : List String}
    {clauses : List FilterClause} {combined result : Option (ExprNode Value)}
    {test : Engine → String → Tuple → Bool} (hcombined : ExpressesAll T combined test)
    (h : combineClauses reflection T allowed combined clauses = .ok result) :
    ExpressesAll T result fun engine table row => test engine table row &&
      clauses.all fun clause => ((reflection T).member? clause.field).all fun member =>
        clause.satisfied engine table member row := by
  induction clauses generalizing combined test with
  | nil =>
    cases h
    simpa using hcombined
  | cons clause clauses ih =>
    obtain ⟨node, hnode, h⟩ := except_bind_ok h
    have hclause := expresses_buildClause hnode
    simp only [List.all_cons, ← Bool.and_assoc]
    refine ih ?_ h
    cases combined with
    | none =>
      refine hclause.congr fun engine table row => ?_
      rw [hcombined engine table row, Bool.true_and]
    | some left => exact expresses_and hcombined hclause

/-- The predicate of an input without relations, on a query that had none. -/
theorem expresses_applyFilter {reflection : Reflection} {T : TypeIndex} {allowed : List String}
    {clauses : List FilterClause} {query : SelectQuery Value}
    (h : applyFilter reflection T allowed (reflection.select T) clauses = .ok query) :
    query.root = reflection.entity T ∧ query.Simple ∧
      ExpressesAll T query.where_ fun engine table row =>
        clauses.all fun clause => ((reflection T).member? clause.field).all fun member =>
          clause.satisfied engine table member row := by
  obtain ⟨expression, hexpression, h⟩ := except_bind_ok h
  have htrue : ExpressesAll T none fun _ _ _ => true := fun _ _ _ => rfl
  have hall := expresses_combineClauses htrue hexpression
  simp only [Bool.true_and] at hall
  cases expression with
  | none =>
    cases h
    exact ⟨rfl, ⟨rfl, by simp [Reflection.select]⟩, hall⟩
  | some e =>
    cases h
    refine ⟨rfl, ⟨rfl, fun e' he' aliasName => ?_⟩, hall⟩
    cases he'
    obtain ⟨c, hc, -⟩ := hall aliasName
    exact Option.isSome_iff_exists.mpr ⟨c, hc⟩

/-- The condition of a predicate under an alias. -/
theorem condition_of_expressesAll {query : SelectQuery Value} {T : TypeIndex}
    {test : Engine → String → Tuple → Bool} (hroot : query.root.type = T)
    (h : ExpressesAll T query.where_ test) (aliasName : String) :
    (∀ aliases, aliasName ∈ aliases → (query.condition aliasName).all (·.resolves aliases) = true) ∧
      ∀ engine db scope table row, scope.lookup aliasName = some (table, row) →
        whereHolds engine db (query.condition aliasName) scope = test engine table row := by
  unfold SelectQuery.condition
  rw [hroot]
  cases hwhere : query.where_ with
  | none =>
    rw [hwhere] at h
    exact ⟨fun _ _ => rfl, fun engine db scope table row _ => (h engine table row).symm⟩
  | some e =>
    rw [hwhere] at h
    obtain ⟨c, hc, hresolves, heval⟩ := h aliasName
    simp only [Option.bind_some, hc]
    exact ⟨fun aliases hmem => hresolves aliases hmem, heval⟩

/-! ## Relation clauses -/

theorem lookup_child (outer suffix table : String) (row : Tuple) (scope : Scope)
    (hsuffix : suffix ≠ "") :
    List.lookup outer ((outer ++ suffix, table, row) :: scope) = scope.lookup outer := by
  have hne : (outer == outer ++ suffix) = false := by
    rw [beq_eq_false_iff_ne]
    intro h
    have hlength := congrArg String.length h
    rw [String.length_append] at hlength
    have : suffix.length = 0 := by omega
    exact hsuffix (String.length_eq_zero_iff.mp this)
  rw [List.lookup_cons, hne]

theorem lookup_self (aliasName table : String) (row : Tuple) (scope : Scope) :
    List.lookup aliasName ((aliasName, table, row) :: scope) = some (table, row) := by
  simp

theorem holds_sameColumn {engine : Engine} {db : Database} {scope : Scope}
    {left leftColumn right rightColumn table table' : String} {row row' : Tuple}
    (hleft : scope.lookup left = some (table, row))
    (hright : scope.lookup right = some (table', row')) :
    ((sameColumn left leftColumn right rightColumn).eval engine db scope).holds =
      engine.equal (cellOf table row leftColumn) (cellOf table' row' rightColumn) := by
  simp [sameColumn, Condition.eval, Operand.eval, hleft, hright, Engine.equal]

/-- The correlation of a relation holds of the rows that are related. -/
theorem holds_correlation (relation : RelationInfo Value) (engine : Engine) (db : Database)
    {scope : Scope} {outer table : String} {row : Tuple} (target : Tuple)
    (hscope : scope.lookup outer = some (table, row)) :
    ((relation.correlation (outer ++ "_rel") outer).eval engine db
      ((outer ++ "_rel", relation.target.table, target) :: scope)).holds =
      relation.related engine db table row target := by
  have houter := (lookup_child outer "_rel" relation.target.table target scope (by decide)).trans hscope
  have hchild := lookup_self (outer ++ "_rel") relation.target.table target scope
  obtain ⟨name, targetInfo, primaryKey, columns⟩ := relation
  cases columns with
  | belongsTo foreignKey targetKey => exact holds_sameColumn hchild houter
  | hasOne targetForeignKey localKey => exact holds_sameColumn hchild houter
  | hasMany targetForeignKey localKey => exact holds_sameColumn hchild houter
  | manyToMany pivot pivotRootKey pivotTargetKey localKey targetKey =>
    dsimp only [RelationInfo.correlation, RelationInfo.related] at hchild houter ⊢
    rw [holds_existsIn, Bool.bne_false]
    congr 1
    funext link
    -- the pivot alias hides neither of the two others
    have hchild' := (lookup_child (outer ++ "_rel") "_pivot" pivot link
      ((outer ++ "_rel", targetInfo.table, target) :: scope) (by decide)).trans hchild
    have houter' : List.lookup outer ((outer ++ "_rel" ++ "_pivot", pivot, link) ::
        (outer ++ "_rel", targetInfo.table, target) :: scope) = some (table, row) := by
      rw [String.append_assoc, lookup_child outer _ pivot link _ (by decide), houter]
    have hpivot := lookup_self (outer ++ "_rel" ++ "_pivot") pivot link
      ((outer ++ "_rel", targetInfo.table, target) :: scope)
    simp only [whereHolds, Option.all_some, Condition.eval, Truth.holds_and]
    rw [holds_sameColumn hpivot hchild', holds_sameColumn hpivot houter']
  | morphOne typeField idField localKey typeValue =>
    dsimp only [RelationInfo.correlation, RelationInfo.related] at hchild houter ⊢
    rw [Condition.eval, Truth.holds_and, holds_sameColumn hchild houter]
    simp [Condition.eval, Operand.eval, Engine.equal]
  | morphMany typeField idField localKey typeValue =>
    dsimp only [RelationInfo.correlation, RelationInfo.related] at hchild houter ⊢
    rw [Condition.eval, Truth.holds_and, holds_sameColumn hchild houter]
    simp [Condition.eval, Operand.eval, Engine.equal]

theorem resolves_correlation (relation : RelationInfo Value) {child outer : String}
    {aliases : List String} (hchild : child ∈ aliases) (houter : outer ∈ aliases) :
    (relation.correlation child outer).resolves aliases = true := by
  unfold RelationInfo.correlation
  split <;> simp [sameColumn, Condition.existsIn, Condition.resolves, Operand.resolves, hchild, houter]

/-- No two rows of the table have equal keys, and no key is null: it equals itself. -/
structure Keyed (engine : Engine) (table key : String) (rows : List Tuple) : Prop where
  unique : ∀ p ∈ rows, ∀ r ∈ rows,
    engine.equal (cellOf table p key) (cellOf table r key) = true → p = r
  present : ∀ r ∈ rows, engine.equal (cellOf table r key) (cellOf table r key) = true

/-- The only row with the key of a row is the row itself. -/
theorem Keyed.mem_sameKey {engine : Engine} {table key : String} {rows : List Tuple}
    (h : Keyed engine table key rows) {row : Tuple} (hrow : row ∈ rows) (other : Tuple) :
    other ∈ rows.filter (fun other =>
      engine.equal (cellOf table other key) (cellOf table row key)) ↔ other = row := by
  rw [List.mem_filter]
  constructor
  · rintro ⟨hother, hequal⟩
    exact h.unique other hother row hrow hequal
  · rintro rfl
    exact ⟨hrow, h.present other hrow⟩

/-! ## Formulas -/

/-- A condition on a row of an entity. -/
abbrev RowFormula := Formula FilterClause Step

/-- The clauses that a row satisfies, and the rows that a step leads to. -/
def Reflection.frame (reflection : Reflection) (engine : Engine) (db : Database) :
    Frame TypeIndex Tuple FilterClause Step where
  test T row clause := (reflection T).satisfies engine row clause
  successors T row
    | .relation name => reflection.relatedRows engine db T name row
    | .sameKey => (db (reflection T).table).filter fun other =>
      engine.equal (cellOf (reflection T).table other (reflection T).primaryKey)
        (cellOf (reflection T).table row (reflection T).primaryKey)

/-- A row of `T` satisfies a formula. -/
def Reflection.sat (reflection : Reflection) (engine : Engine) (db : Database) (φ : RowFormula)
    (T : TypeIndex) (row : Tuple) : Bool :=
  (reflection.frame engine db).sat reflection.target φ T row

/-- The conjunction of a list of formulas. -/
def formulaOfClauses : List FilterClause → RowFormula
  | [] => .top
  | clause :: clauses => .and (.atom clause) (formulaOfClauses clauses)

theorem sat_formulaOfClauses (reflection : Reflection) (engine : Engine) (db : Database)
    (clauses : List FilterClause) (T : TypeIndex) (row : Tuple) :
    reflection.sat engine db (formulaOfClauses clauses) T row =
      clauses.all ((reflection T).satisfies engine row) := by
  induction clauses with
  | nil => rfl
  | cons clause clauses ih =>
    rw [List.all_cons, ← ih]
    rfl

/-- The formula of `isEmpty` or `isNotEmpty`. -/
def emptinessFormula (step : Step) : (negated : Option Bool) → RowFormula
  | none => .top
  | some negated => (Formula.some step .top).negate negated

/-- The formula of `every`: there is a related row, and every related row has a row with its
    key that satisfies the nested input. -/
def everyFormula (step : Step) (φ : RowFormula) : RowFormula :=
  .and (.some step .top) (.all step (.some .sameKey φ))

mutual

/-- The formula of an input. -/
def WhereInput.formula : WhereInput → RowFormula
  | { clauses, relations } => .and (formulaOfClauses clauses) (relationsFormula relations)

def relationsFormula : List RelationFilterClause → RowFormula
  | [] => .top
  | clause :: clauses => .and clause.formula (relationsFormula clauses)

def RelationFilterClause.formula : RelationFilterClause → RowFormula
  | { relation := name, someFilter, everyFilter, noneFilter, isEmpty, isNotEmpty } =>
    .and (.and (.and (.and
      (nestedFormula (.some (.relation name)) someFilter)
      (nestedFormula (fun φ => .not (.some (.relation name) φ)) noneFilter))
      (nestedFormula (everyFormula (.relation name)) everyFilter))
      (emptinessFormula (.relation name) isEmpty))
      (emptinessFormula (.relation name) (isNotEmpty.map (!·)))

def nestedFormula (build : RowFormula → RowFormula) : Option WhereInput → RowFormula
  | none => .top
  | some input => if input.hasConditions then build input.formula else .top

end

/-! ## Nested queries -/

/-- The condition of a query over `T` holds of the rows that satisfy a formula. -/
structure Denotes (reflection : Reflection) (T : TypeIndex) (query : CorrelatedQuery Value)
    (φ : RowFormula) : Prop where
  root : query.root = reflection.entity T
  simple : query.Simple
  resolves : ∀ aliasName extra aliases, aliasName ∈ aliases →
    Option.all (·.resolves aliases) extra = true →
      (query.condition aliasName extra).all (·.resolves aliases) = true
  holds : ∀ engine db aliasName extra scope row,
    List.lookup aliasName scope = some ((reflection T).table, row) →
      whereHolds engine db (query.condition aliasName extra) scope =
        (reflection.sat engine db φ T row && whereHolds engine db extra scope)

theorem Denotes.table {reflection : Reflection} {T : TypeIndex} {query : CorrelatedQuery Value}
    {φ : RowFormula} (h : Denotes reflection T query φ) :
    query.root.table = (reflection T).table := by
  rw [h.root]
  rfl

/-- The conditions of filters on `T` hold of the rows that satisfy a formula. -/
structure FiltersDenote (reflection : Reflection) (T : TypeIndex)
    (filters : List (RelationFilter Value)) (φ : RowFormula) : Prop where
  simple : filtersSimple filters
  resolves : ∀ outer aliases, outer ∈ aliases →
    (filterConditions filters outer).all (·.resolves aliases) = true
  holds : ∀ engine db outer scope row,
    List.lookup outer scope = some ((reflection T).table, row) →
      (filterConditions filters outer).all (fun c => (c.eval engine db scope).holds) =
        reflection.sat engine db φ T row

theorem filterConditions_append (filters filters' : List (RelationFilter Value)) (outer : String) :
    filterConditions (filters ++ filters') outer =
      filterConditions filters outer ++ filterConditions filters' outer := by
  induction filters with
  | nil => simp [filterConditions]
  | cons filter filters ih => simp [filterConditions, ih]

theorem filtersSimple_append {filters filters' : List (RelationFilter Value)}
    (h : filtersSimple filters) (h' : filtersSimple filters') :
    filtersSimple (filters ++ filters') := by
  induction filters with
  | nil => exact h'
  | cons filter filters ih =>
    simp only [List.cons_append, filtersSimple] at h ⊢
    exact ⟨h.1, ih h.2⟩

theorem relation_table {reflection : Reflection} {T target : TypeIndex} {name : String}
    {relation : RelationInfo Value} (h : reflection.relation? T name = some (target, relation)) :
    relation.target.table = (reflection target).table ∧
      relation.targetPrimaryKey = (reflection target).primaryKey := by
  simp only [Reflection.relation?, Option.bind_eq_bind, Option.bind_eq_some_iff] at h
  obtain ⟨member, _, columns, _, h⟩ := h
  cases h
  exact ⟨rfl, rfl⟩

namespace FiltersDenote

variable {reflection : Reflection} {T target : TypeIndex}
  {filters filters' : List (RelationFilter Value)} {φ ψ : RowFormula}

theorem nil : FiltersDenote reflection T [] .top where
  simple := by simp [filtersSimple]
  resolves _ _ _ := by simp [filterConditions]
  holds _ _ _ _ _ _ := by simp [filterConditions, Reflection.sat, Frame.sat]

theorem append (h : FiltersDenote reflection T filters φ)
    (h' : FiltersDenote reflection T filters' ψ) :
    FiltersDenote reflection T (filters ++ filters') (.and φ ψ) where
  simple := filtersSimple_append h.simple h'.simple
  resolves outer aliases houter := by
    rw [filterConditions_append, List.all_append, h.resolves outer aliases houter,
      h'.resolves outer aliases houter, Bool.and_self]
  holds engine db outer scope row hscope := by
    rw [filterConditions_append, List.all_append, h.holds engine db outer scope row hscope,
      h'.holds engine db outer scope row hscope]
    rfl

variable {name : String} {relation : RelationInfo Value} {child : CorrelatedQuery Value}

/-- `make_relation_filter`: some related row satisfies the nested query, or none. -/
theorem related (hrelation : reflection.relation? T name = some (target, relation))
    (hchild : Denotes reflection target child φ) (negated : Bool) :
    FiltersDenote reflection T [.related relation child negated]
      ((Formula.some (.relation name) φ).negate negated) where
  simple := by
    simpa [filtersSimple, RelationFilter.Simple] using hchild.simple
  resolves outer aliases houter := by
    have hcorrelation := resolves_correlation relation
      (List.mem_cons_self (a := outer ++ "_rel") (l := aliases)) (List.mem_cons_of_mem _ houter)
    simp only [filterConditions, RelationFilter.condition, List.all_cons, List.all_nil,
      Bool.and_true, resolves_existsIn]
    exact hchild.resolves _ _ _ List.mem_cons_self (by simpa using hcorrelation)
  holds engine db outer scope row hscope := by
    obtain ⟨htable, -⟩ := relation_table hrelation
    rw [Reflection.sat, Frame.sat_negate]
    simp only [filterConditions, RelationFilter.condition, List.all_cons, List.all_nil,
      Bool.and_true, holds_existsIn, Frame.sat, Reflection.frame, Reflection.relatedRows,
      Reflection.target, hrelation, RelationInfo.relatedRows, List.any_filter, hchild.table, htable]
    congr 2
    funext row'
    rw [hchild.holds engine db (outer ++ "_rel") _
      ((outer ++ "_rel", (reflection target).table, row') :: scope) row' (lookup_self _ _ _ _),
      Bool.and_comm]
    refine congrArg₂ (· && ·) ?_ rfl
    have hcorrelation := holds_correlation relation engine db row' hscope
    rw [htable] at hcorrelation
    exact hcorrelation

/-- `make_every_relation_filter`: every related row has a row with its key that satisfies the
    nested query. -/
theorem every (hrelation : reflection.relation? T name = some (target, relation))
    (hchild : Denotes reflection target child φ) :
    FiltersDenote reflection T [.every relation child]
      (.all (.relation name) (.some .sameKey φ)) where
  simple := by
    simpa [filtersSimple, RelationFilter.Simple] using hchild.simple
  resolves outer aliases houter := by
    have hcorrelation := resolves_correlation relation
      (List.mem_cons_self (a := outer ++ "_rel") (l := aliases)) (List.mem_cons_of_mem _ houter)
    simp only [filterConditions, RelationFilter.condition, List.all_cons, List.all_nil,
      Bool.and_true, resolves_existsIn, Option.all_some, Condition.resolves, hcorrelation,
      Bool.true_and]
    refine hchild.resolves _ _ _ List.mem_cons_self ?_
    simp [sameColumn, Condition.resolves, Operand.resolves]
  holds engine db outer scope row hscope := by
    obtain ⟨htable, hkey⟩ := relation_table hrelation
    -- the inner query looks for the key of the related row
    have hinner : ∀ row',
        (whereHolds engine db (some (.and (relation.correlation (outer ++ "_rel") outer)
          (.existsIn true (.columns child.root) child.root.table (outer ++ "_rel" ++ "_every")
            (child.condition (outer ++ "_rel" ++ "_every")
              (some (sameColumn (outer ++ "_rel" ++ "_every") relation.targetPrimaryKey
                (outer ++ "_rel") relation.targetPrimaryKey))))))
          ((outer ++ "_rel", (reflection target).table, row') :: scope)) =
        (relation.related engine db (reflection T).table row row' &&
          !reflection.sat engine db (.some .sameKey φ) target row') := by
      intro row'
      have hcorrelation := holds_correlation relation engine db row' hscope
      rw [htable] at hcorrelation
      show ((Condition.and _ _).eval engine db _).holds = _
      rw [Condition.eval, Truth.holds_and, holds_existsIn, hchild.table, Bool.bne_true]
      refine congrArg₂ (· && ·) hcorrelation (congrArg (!·) ?_)
      simp only [Reflection.sat, Frame.sat, Reflection.frame, Reflection.target, List.any_filter]
      congr 1
      funext row''
      have hrow := lookup_self (outer ++ "_rel" ++ "_every") (reflection target).table row''
        ((outer ++ "_rel", (reflection target).table, row') :: scope)
      have hrow' := (lookup_child (outer ++ "_rel") "_every" (reflection target).table row''
        ((outer ++ "_rel", (reflection target).table, row') :: scope) (by decide)).trans
        (lookup_self _ _ _ _)
      rw [hchild.holds engine db _ _ _ row'' hrow, Bool.and_comm]
      refine congrArg₂ (· && ·) ?_ rfl
      rw [← hkey]
      exact holds_sameColumn hrow hrow'
    rw [Reflection.sat, Frame.sat_all]
    simp only [filterConditions, RelationFilter.condition, List.all_cons, List.all_nil,
      Bool.and_true, holds_existsIn, Bool.bne_true, Reflection.frame, Reflection.relatedRows,
      Reflection.target, hrelation, RelationInfo.relatedRows, htable]
    rw [Bool.eq_iff_iff, Bool.not_eq_true', List.any_eq_false, List.all_filter, List.all_eq_true]
    refine forall_congr' fun row' => forall_congr' fun _ => ?_
    rw [hinner row']
    cases relation.related engine db (reflection T).table row row' with
    | false => simp
    | true =>
      rw [Bool.true_and, Bool.not_eq_true, Bool.not_eq_false']
      rfl

end FiltersDenote

/-- `select<T>()` finds every row. -/
theorem denotes_select (reflection : Reflection) (T : TypeIndex) (root : EntityInfo)
    (hroot : root = reflection.entity T) : Denotes reflection T (.basic { root }) .top where
  root := hroot
  simple := by
    unfold CorrelatedQuery.Simple
    exact simple_select _
  resolves aliasName extra aliases halias hextra := by
    unfold CorrelatedQuery.condition
    rw [resolves_whereAnd, hextra]
    rfl
  holds engine db aliasName extra scope row hscope := by
    unfold CorrelatedQuery.condition
    rw [whereHolds_whereAnd]
    rfl

/-- The query that `apply_where` builds on `select<T>()`. -/
theorem denotes_filtered {reflection : Reflection} {T : TypeIndex} {allowed : List String}
    {clauses : List FilterClause} {base : SelectQuery Value} {filters : List (RelationFilter Value)}
    {φ : RowFormula}
    (hbase : applyFilter reflection T allowed (reflection.select T) clauses = .ok base)
    (hfilters : FiltersDenote reflection T filters φ) :
    Denotes reflection T (.filtered base filters) (.and (formulaOfClauses clauses) φ) := by
  obtain ⟨hroot, hsimple, hwhere⟩ := expresses_applyFilter hbase
  have htype : base.root.type = T := by rw [hroot]; rfl
  refine ⟨hroot, ?_, fun aliasName extra aliases halias hextra => ?_,
    fun engine db aliasName extra scope row hscope => ?_⟩
  · unfold CorrelatedQuery.Simple
    exact ⟨hsimple, hfilters.simple⟩
  · unfold CorrelatedQuery.condition
    have hresolves := (condition_of_expressesAll htype hwhere aliasName).1 aliases halias
    rw [resolves_whereAnd, hresolves, resolves_conjunction, List.all_append,
      hfilters.resolves aliasName aliases halias]
    cases extra <;> simp_all
  · unfold CorrelatedQuery.condition
    have heval := (condition_of_expressesAll htype hwhere aliasName).2 engine db scope
      (reflection T).table row hscope
    have hsat : reflection.sat engine db (.and (formulaOfClauses clauses) φ) T row =
        (reflection.sat engine db (formulaOfClauses clauses) T row &&
          reflection.sat engine db φ T row) := rfl
    rw [whereHolds_whereAnd, heval, whereHolds_conjunction, List.all_append,
      hfilters.holds engine db aliasName scope row hscope, hsat, sat_formulaOfClauses, Bool.and_assoc]
    congr 2
    cases extra <;> simp [whereHolds]

/-- The filter of `isEmpty` or `isNotEmpty`. -/
theorem filtersDenote_emptiness {reflection : Reflection} {T target : TypeIndex} {name : String}
    {relation : RelationInfo Value}
    (hrelation : reflection.relation? T name = some (target, relation))
    (htarget : relation.target = reflection.entity target) (negated : Option Bool) :
    FiltersDenote reflection T (emptinessFilter relation negated)
      (emptinessFormula (.relation name) negated) := by
  cases negated with
  | none => exact .nil
  | some b => exact .related hrelation (denotes_select reflection target _ htarget) b

mutual

/-- `build_nested_where_query` finds the rows that satisfy the formula of the input. -/
theorem denotes_nested {reflection : Reflection} : (input : WhereInput) → ∀ {T : TypeIndex}
    {query : CorrelatedQuery Value}, buildNestedWhereQuery reflection input T = .ok query →
      Denotes reflection T query input.formula
  | { clauses, relations }, T, query, h => by
    unfold buildNestedWhereQuery at h
    obtain ⟨base, hbase, h⟩ := except_bind_ok h
    obtain ⟨filters, hfilters, h⟩ := except_bind_ok h
    cases h
    unfold WhereInput.formula
    exact denotes_filtered hbase (filtersDenote_relations relations hfilters)

theorem filtersDenote_relations {reflection : Reflection} : (clauses : List RelationFilterClause) →
    ∀ {T : TypeIndex} {allowed : List String} {filters : List (RelationFilter Value)},
      relationFilters reflection T allowed clauses = .ok filters →
        FiltersDenote reflection T filters (relationsFormula clauses)
  | [], T, allowed, filters, h => by
    unfold relationFilters at h
    cases h
    unfold relationsFormula
    exact .nil
  | clause :: clauses, T, allowed, filters, h => by
    unfold relationFilters at h
    obtain ⟨first, hfirst, h⟩ := except_bind_ok h
    obtain ⟨rest, hrest, h⟩ := except_bind_ok h
    cases h
    unfold relationsFormula
    exact (filtersDenote_clause clause hfirst).append (filtersDenote_relations clauses hrest)

theorem filtersDenote_clause {reflection : Reflection} : (clause : RelationFilterClause) →
    ∀ {T : TypeIndex} {allowed : List String} {filters : List (RelationFilter Value)},
      relationClauseFilters reflection T allowed clause = .ok filters →
        FiltersDenote reflection T filters clause.formula
  | { relation := name, someFilter, everyFilter, noneFilter, isEmpty, isNotEmpty }, T, allowed,
    filters, h => by
    unfold relationClauseFilters at h
    split at h
    · cases h
    · split at h
      · cases h
      · rename_i member hmember
        split at h
        · cases h
        · split at h
          · cases h
          · rename_i target columns htarget
            obtain ⟨some_, hsome, h⟩ := except_bind_ok h
            obtain ⟨none_, hnone, h⟩ := except_bind_ok h
            obtain ⟨every, hevery, h⟩ := except_bind_ok h
            cases h
            have hrelation : reflection.relation? T name =
                some (target, reflection.relation member.name target columns) := by
              simp [Reflection.relation?, hmember, htarget]
            have hselect := denotes_select reflection target _ rfl
            -- one list of filters for each operator
            have hsome' := filtersDenote_nestedFilters someFilter
              (fun child φ hchild => .related hrelation hchild false) hsome
            have hnone' := filtersDenote_nestedFilters noneFilter
              (fun child φ hchild => .related hrelation hchild true) hnone
            have hevery' : FiltersDenote reflection T every
                (nestedFormula (everyFormula (.relation name)) everyFilter) :=
              filtersDenote_nestedFilters everyFilter (fun child φ hchild =>
                (FiltersDenote.related hrelation hselect false).append
                  (.every hrelation hchild)) hevery
            unfold RelationFilterClause.formula
            exact (((hsome'.append hnone').append hevery').append
              (filtersDenote_emptiness hrelation rfl isEmpty)).append
              (filtersDenote_emptiness hrelation rfl (isNotEmpty.map (!·)))

theorem filtersDenote_nestedFilters {reflection : Reflection} : (nested : Option WhereInput) →
    ∀ {T target : TypeIndex} {filtersOf : CorrelatedQuery Value → List (RelationFilter Value)}
      {filters : List (RelationFilter Value)} {build : RowFormula → RowFormula},
      (∀ child φ, Denotes reflection target child φ →
        FiltersDenote reflection T (filtersOf child) (build φ)) →
      nestedFilters reflection target filtersOf nested = .ok filters →
        FiltersDenote reflection T filters (nestedFormula build nested)
  | none, T, target, filtersOf, filters, build, hbuild, h => by
    unfold nestedFilters at h
    cases h
    unfold nestedFormula
    exact .nil
  | some input, T, target, filtersOf, filters, build, hbuild, h => by
    unfold nestedFilters at h
    unfold nestedFormula
    split at h
    · rename_i hconditions
      obtain ⟨child, hchild, h⟩ := except_bind_ok h
      cases h
      rw [if_pos hconditions]
      exact hbuild child _ (denotes_nested input hchild)
    · rename_i hconditions
      cases h
      rw [if_neg hconditions]
      exact .nil

end

/-! ## The formula says what the input asks for -/

/-- The tables of all entities have keys. -/
def Reflection.Keyed (reflection : Reflection) (engine : Engine) (db : Database) : Prop :=
  ∀ T, Query.Keyed engine (reflection T).table (reflection T).primaryKey (db (reflection T).table)

variable {reflection : Reflection} {engine : Engine} {db : Database}

/-- Related rows are rows of the target. -/
theorem mem_relatedRows {T : TypeIndex} {name : String} {row row' : Tuple}
    (h : row' ∈ reflection.relatedRows engine db T name row) :
    row' ∈ db (reflection (reflection.target T (.relation name))).table := by
  unfold Reflection.relatedRows at h
  unfold Reflection.target
  cases hrelation : reflection.relation? T name with
  | none => simp [hrelation] at h
  | some found =>
    simp only [hrelation, RelationInfo.relatedRows, List.mem_filter] at h ⊢
    rw [← (relation_table hrelation).1]
    exact h.1

theorem sat_emptinessFormula (T : TypeIndex) (name : String) (row : Tuple) (negated : Option Bool) :
    reflection.sat engine db (emptinessFormula (.relation name) negated) T row =
      negated.all fun b => (reflection.relatedRows engine db T name row).isEmpty == b := by
  cases negated with
  | none => rfl
  | some b =>
    unfold emptinessFormula
    rw [Reflection.sat, Frame.sat_negate]
    simp only [Frame.sat, Reflection.frame, Option.all_some]
    cases reflection.relatedRows engine db T name row <;> cases b <;> simp

theorem sat_everyFormula (hkeyed : reflection.Keyed engine db) (T : TypeIndex) (name : String)
    (row : Tuple) (φ : RowFormula) :
    reflection.sat engine db (everyFormula (.relation name) φ) T row =
      (!(reflection.relatedRows engine db T name row).isEmpty &&
        (reflection.relatedRows engine db T name row).all fun row' =>
          reflection.sat engine db φ (reflection.target T (.relation name)) row') := by
  have hsome : reflection.sat engine db (.some (.relation name) .top) T row =
      !(reflection.relatedRows engine db T name row).isEmpty := by
    simp only [Reflection.sat, Frame.sat, Reflection.frame]
    cases reflection.relatedRows engine db T name row <;> simp
  have hall : reflection.sat engine db (.all (.relation name) (.some .sameKey φ)) T row =
      (reflection.relatedRows engine db T name row).all fun row' =>
        reflection.sat engine db φ (reflection.target T (.relation name)) row' := by
    rw [Reflection.sat, Frame.sat_all, Bool.eq_iff_iff, List.all_eq_true, List.all_eq_true]
    refine forall_congr' fun row' => forall_congr' fun hrow' => ?_
    -- a related row is the only row of the target with its key
    rw [Frame.sat_some_self ((hkeyed _).mem_sameKey (mem_relatedRows hrow'))]
    rfl
  rw [← hsome, ← hall]
  rfl

mutual

/-- A row satisfies the formula of an input if it satisfies the input. -/
theorem satisfied_eq_sat (hkeyed : reflection.Keyed engine db) : (input : WhereInput) →
    ∀ (T : TypeIndex) (row : Tuple), input.satisfied reflection engine db T row =
      reflection.sat engine db input.formula T row
  | { clauses, relations }, T, row => by
    unfold WhereInput.satisfied WhereInput.formula
    rw [← sat_formulaOfClauses reflection engine db, relationsSatisfied_eq_sat hkeyed relations T row]
    rfl

theorem relationsSatisfied_eq_sat (hkeyed : reflection.Keyed engine db) :
    (clauses : List RelationFilterClause) → ∀ (T : TypeIndex) (row : Tuple),
      relationsSatisfied reflection engine db clauses T row =
        reflection.sat engine db (relationsFormula clauses) T row
  | [], T, row => by
    unfold relationsSatisfied relationsFormula
    rfl
  | clause :: clauses, T, row => by
    unfold relationsSatisfied relationsFormula
    rw [clauseSatisfied_eq_sat hkeyed clause T row, relationsSatisfied_eq_sat hkeyed clauses T row]
    rfl

theorem clauseSatisfied_eq_sat (hkeyed : reflection.Keyed engine db) :
    (clause : RelationFilterClause) → ∀ (T : TypeIndex) (row : Tuple),
      clause.satisfied reflection engine db T row =
        reflection.sat engine db clause.formula T row
  | { relation := name, someFilter, everyFilter, noneFilter, isEmpty, isNotEmpty }, T, row => by
    have hsome : nestedSatisfied reflection engine db (reflection.target T (.relation name))
        (fun holds => (reflection.relatedRows engine db T name row).any holds) someFilter =
        reflection.sat engine db (nestedFormula (.some (.relation name)) someFilter) T row :=
      nestedSatisfied_eq_sat hkeyed someFilter fun φ => rfl
    have hnone : nestedSatisfied reflection engine db (reflection.target T (.relation name))
        (fun holds => !(reflection.relatedRows engine db T name row).any holds) noneFilter =
        reflection.sat engine db
          (nestedFormula (fun φ => .not (.some (.relation name) φ)) noneFilter) T row :=
      nestedSatisfied_eq_sat hkeyed noneFilter fun φ => rfl
    have hevery : nestedSatisfied reflection engine db (reflection.target T (.relation name))
        (fun holds => !(reflection.relatedRows engine db T name row).isEmpty &&
          (reflection.relatedRows engine db T name row).all holds) everyFilter =
        reflection.sat engine db (nestedFormula (everyFormula (.relation name)) everyFilter) T row :=
      nestedSatisfied_eq_sat hkeyed everyFilter fun φ =>
        (sat_everyFormula hkeyed T name row φ).symm
    have hnotEmpty : (isNotEmpty.map (!·)).all
        (fun b => (reflection.relatedRows engine db T name row).isEmpty == b) =
        isNotEmpty.all fun b => (!(reflection.relatedRows engine db T name row).isEmpty) == b := by
      cases isNotEmpty with
      | none => rfl
      | some b =>
        simp only [Option.map_some, Option.all_some]
        cases b <;> simp
    unfold RelationFilterClause.satisfied RelationFilterClause.formula
    dsimp only
    rw [hsome, hnone, hevery, ← sat_emptinessFormula, ← hnotEmpty, ← sat_emptinessFormula]
    rfl

theorem nestedSatisfied_eq_sat (hkeyed : reflection.Keyed engine db) :
    (nested : Option WhereInput) → ∀ {T target : TypeIndex} {row : Tuple}
      {quantifier : (Tuple → Bool) → Bool} {build : RowFormula → RowFormula},
      (∀ φ, quantifier (reflection.sat engine db φ target) =
        reflection.sat engine db (build φ) T row) →
      nestedSatisfied reflection engine db target quantifier nested =
        reflection.sat engine db (nestedFormula build nested) T row
  | none, T, target, row, quantifier, build, h => by
    unfold nestedSatisfied nestedFormula
    rfl
  | some input, T, target, row, quantifier, build, h => by
    unfold nestedSatisfied nestedFormula
    cases hconditions : input.hasConditions with
    | false => rfl
    | true =>
      rw [if_pos rfl, ← h]
      simp only [Bool.not_true, Bool.false_or]
      exact congrArg quantifier (funext (satisfied_eq_sat hkeyed input target))

end

/-! ## The statement of `apply_where` -/

/-- A database of the entity tables: primary keys are unique. -/
structure Instance (reflection : Reflection) (engine : Engine) where
  rows : Database
  unique : ∀ T, ∀ p ∈ rows (reflection T).table, ∀ r ∈ rows (reflection T).table,
    engine.equal (cellOf (reflection T).table p (reflection T).primaryKey)
      (cellOf (reflection T).table r (reflection T).primaryKey) = true → p = r

/-- No primary key is null: each is equal to itself. -/
def Instance.KeysPresent {reflection : Reflection} {engine : Engine}
    (db : Instance reflection engine) : Prop :=
  ∀ T, ∀ r ∈ db.rows (reflection T).table,
    engine.equal (cellOf (reflection T).table r (reflection T).primaryKey)
      (cellOf (reflection T).table r (reflection T).primaryKey) = true

theorem Instance.KeysPresent.keyed {reflection : Reflection} {engine : Engine}
    {db : Instance reflection engine} (h : db.KeysPresent) : reflection.Keyed engine db.rows :=
  fun T => ⟨db.unique T, h T⟩

/-- The SELECT that a query over one table is compiled to. -/
def CorrelatedQuery.toSelect (query : CorrelatedQuery Value) : Select where
  root := query.root
  aliasName := "t0"
  condition := query.condition "t0" none

/-- A filtered query at the top level has the alias `t0`. -/
theorem compile_toSelect {base : SelectQuery Value} {filters : List (RelationFilter Value)}
    (h : (CorrelatedQuery.filtered base filters).Simple) :
    CompilesTo ((CorrelatedQuery.filtered base filters).compile sqliteDialect)
      ((CorrelatedQuery.filtered base filters).toSelect.text ++ ";")
      (CorrelatedQuery.filtered base filters).toSelect.literals := by
  unfold CorrelatedQuery.Simple at h
  obtain ⟨hbase, hfilters⟩ := h
  have hplain := hbase.plain
  have hextra : ExtraWrites (some fun dialect rootAlias =>
      compileRelationFilterList dialect rootAlias (compileFilters dialect rootAlias filters) none)
      "t0" _ :=
    extraWrites_filterList (compileFilters_writes filters hfilters (by decide)) (extraWrites_none "t0")
  have hroot : ∀ f : ExtraWhereCompiler Value,
      rootAliasOf base (some f).isSome "" = "t0" := by
    intro f
    rw [hplain]
    rfl
  obtain ⟨out, hout, htext, hparams⟩ := compileImpl_simple hbase (hroot _) (by decide) hextra
  refine ⟨{ out with sql := out.sql ++ ";" }, ?_, ?_, ?_⟩
  · unfold CorrelatedQuery.compile CorrelatedQuery.compileWith
    dsimp only
    rw [hout]
    rfl
  · rw [Sql.render_append, htext, Sql.render_chars]
    unfold Select.text CorrelatedQuery.toSelect CorrelatedQuery.condition
    rfl
  · rw [hparams]
    unfold Select.literals CorrelatedQuery.toSelect CorrelatedQuery.condition
    rfl

/-- What the query of `apply_where` denotes. -/
theorem denotes_applyWhere {reflection : Reflection} {T : TypeIndex}
    {fields relations : List String} {input : WhereInput} {query : CorrelatedQuery Value}
    (h : applyWhere reflection T fields relations (reflection.select T) input = .ok query) :
    Denotes reflection T query input.formula ∧
      CompilesTo (query.compile sqliteDialect) (query.toSelect.text ++ ";")
        query.toSelect.literals := by
  obtain ⟨base, hbase, h⟩ := except_bind_ok h
  obtain ⟨filters, hfilters, h⟩ := except_bind_ok h
  cases h
  obtain ⟨clauses, relations⟩ := input
  unfold WhereInput.formula
  have hdenotes := denotes_filtered hbase (filtersDenote_relations relations hfilters)
  exact ⟨hdenotes, compile_toSelect hdenotes.simple⟩

/-- On SQLite, the statement of `apply_where` is a SELECT whose conditions refer to aliases in
    scope; where no primary key is null, it selects the rows that satisfy the input. -/
theorem relation_filter_semantics {reflection : Reflection} {T : TypeIndex}
    {fields relations : List String} {input : WhereInput} {query : CorrelatedQuery Value}
    (h : applyWhere reflection T fields relations (reflection.select T) input = .ok query) :
    CompilesTo (query.compile sqliteDialect) (query.toSelect.text ++ ";") query.toSelect.literals ∧
      query.toSelect.root = reflection.entity T ∧ query.toSelect.resolves = true ∧
      ∀ engine (db : Instance reflection engine), db.KeysPresent →
        query.toSelect.rows engine db.rows =
          (db.rows (reflection T).table).filter (input.satisfied reflection engine db.rows T) := by
  obtain ⟨hdenotes, hcompile⟩ := denotes_applyWhere h
  refine ⟨hcompile, hdenotes.root, ?_, fun engine db hkeys => ?_⟩
  · exact hdenotes.resolves "t0" none ["t0"] List.mem_cons_self rfl
  · unfold Select.rows CorrelatedQuery.toSelect
    rw [hdenotes.table]
    refine List.filter_congr fun row _ => ?_
    rw [hdenotes.holds engine db.rows "t0" none _ row (lookup_self _ _ _ _),
      ← satisfied_eq_sat hkeys.keyed]
    simp [whereHolds]

/-! ### Tags of users -/

/-- Users with tags; the key of a tag is a text. -/
def tagReflection : Reflection
  | 0 => { table := "users", primaryKey := "id", members := [],
           relations := [{ name := "tags", target := some (1, .hasMany "user_id" "id") }] }
  | 1 => { table := "tags", primaryKey := "name",
           members := [{ name := "label", column := "label", type := .string }], relations := [] }
  | _ => { table := "", primaryKey := "", members := [], relations := [] }

/-- Equality of values; what is compared with null is unknown. -/
def equalityEngine : Engine where
  compare op a b :=
    if a.value = .null ∨ b.value = .null then none
    else match op with
      | .eq => some (a.value = b.value)
      | .ne => some (a.value ≠ b.value)
      | _ => none
  like _ _ := none
  lower cell := cell.value

/-- One user with one tag, whose key is given. -/
def oneTag (key : Value) : Database
  | "users" => [fun _ => .int64 1]
  | "tags" => [fun column =>
      if column = "name" then key else if column = "label" then text "x" else .int64 1]
  | _ => []

theorem oneTag_subsingleton (key : Value) (table : String) :
    ∀ p ∈ oneTag key table, ∀ r ∈ oneTag key table, p = r := by
  unfold oneTag
  split <;> simp

/-- `oneTag` as an instance. -/
def oneTagInstance (key : Value) : Instance tagReflection equalityEngine where
  rows := oneTag key
  unique _ p hp r hr _ := oneTag_subsingleton key _ p hp r hr

/-- Every tag is labelled `x`. -/
def everyTagX : WhereInput where
  relations := [{
    relation := "tags"
    everyFilter := some { clauses := [{ field := "label", value := text "x" }] } }]

/-- A tag whose key is not null: the user is found. -/
theorem relation_filter_semantics_oneTag :
    ∃ query, applyWhere tagReflection 0 [] [] (tagReflection.select 0) everyTagX = .ok query ∧
      (query.toSelect.rows equalityEngine (oneTag (text "a"))).length = 1 := by
  have h : applyWhere tagReflection 0 [] [] (tagReflection.select 0) everyTagX = .ok _ := rfl
  refine ⟨_, h, ?_⟩
  have hkeys : (oneTagInstance (text "a")).KeysPresent := by
    intro T r hr
    match T, hr with
    | 0, hr =>
      cases List.mem_singleton.mp hr
      decide
    | 1, hr =>
      cases List.mem_singleton.mp hr
      decide
    | _ + 2, hr => cases hr
  have hrows := (relation_filter_semantics h).2.2.2 equalityEngine (oneTagInstance (text "a")) hkeys
  exact (congrArg List.length hrows).trans (by decide)

/-- A tag whose key is null: the user satisfies the input and is not found. -/
theorem not_relation_filter_semantics :
    ∃ query, applyWhere tagReflection 0 [] [] (tagReflection.select 0) everyTagX = .ok query ∧
      CompilesTo (query.compile sqliteDialect) (query.toSelect.text ++ ";")
        query.toSelect.literals ∧
      (((oneTagInstance .null).rows "users").filter
        (everyTagX.satisfied tagReflection equalityEngine (oneTagInstance .null).rows 0)).length = 1 ∧
      (query.toSelect.rows equalityEngine (oneTagInstance .null).rows).length = 0 := by
  have h : applyWhere tagReflection 0 [] [] (tagReflection.select 0) everyTagX = .ok _ := rfl
  exact ⟨_, h, (denotes_applyWhere h).2, by decide, by decide⟩

end MetalOrm.Native.Query
