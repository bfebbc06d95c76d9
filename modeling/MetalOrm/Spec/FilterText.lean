import MetalOrm.Native.WhereInput
import MetalOrm.Spec.SqlConditions

/-!
# The text of filtered queries

What `compile` writes on SQLite for a query over one table with relation filters: the
text and the parameters of a `Condition`.

## Key results

- `compileExpression_writes`: predicates of filters
- `compileWith_writes`: filtered queries, by recursion over the filters
-/

namespace MetalOrm.Native.Query

open ForStd

variable {α β : Type}

/-! ## Steps that return -/

/-- A step that returns a result with the property `result`, and pushes `pushed`. -/
def Writes (x : CompileM Value α) (result : α → Prop) (pushed : List Value) : Prop :=
  ∀ params, ∃ a, x params = .ok (a, params ++ pushed) ∧ result a

namespace Writes

variable {x : CompileM Value α} {f : α → CompileM Value β} {result : α → Prop}
  {result' : β → Prop} {pushed pushed' : List Value}

theorem pure {a : α} (h : result a) : Writes (pure a : CompileM Value α) result [] := by
  intro params
  exact ⟨a, by rw [List.append_nil]; rfl, h⟩

/-- A step that returns what it is given. -/
theorem done (a : α) : Writes (Pure.pure a : CompileM Value α) (· = a) [] := .pure rfl

theorem bind (hx : Writes x result pushed)
    (hf : ∀ a, result a → Writes (f a) result' pushed') :
    Writes (x >>= f) result' (pushed ++ pushed') := by
  intro params
  obtain ⟨a, ha, hresult⟩ := hx params
  obtain ⟨b, hb, hresult'⟩ := hf a hresult (params ++ pushed)
  refine ⟨b, ?_, hresult'⟩
  rw [List.append_assoc] at hb
  simpa [Bind.bind, StateT.bind, ha, Except.bind] using hb

/-- A step that neither pushes nor throws. -/
theorem lift {e : Except Exn α} {a : α} (he : e = .ok a) (hf : Writes (f a) result' pushed) :
    Writes ((liftM e : CompileM Value α) >>= f) result' pushed := by
  subst he
  exact hf

theorem cast (h : Writes x result pushed) (hpushed : pushed = pushed') :
    Writes x result pushed' := hpushed ▸ h

end Writes

/-- A query that compiles to a text with parameters. -/
def CompilesTo (query : Except Exn (CompiledQuery Value)) (text : String) (params : List Value) :
    Prop :=
  ∃ out, query = .ok out ∧ out.sql.render = text ∧ out.params = params

/-- A text that is not empty. -/
def IsText (text : String) (sql : Sql Value) : Prop := sql.render = text ∧ sql.isEmpty = false

/-- The text of a WHERE clause that may be missing. -/
def IsWhere : Option Condition → Option (Sql Value) → Prop
  | none, none => True
  | some c, some sql => IsText c.text sql
  | _, _ => False

/-- Placeholders of SQLite are the same behind any parameters. -/
@[simp] theorem offsetPlaceholders_sqlite (n : Nat) :
    offsetPlaceholders sqliteDialect n = sqliteDialect := rfl

theorem bindLiteral_writes (v : Value) :
    Writes (bindLiteral sqliteDialect v) (IsText "?") [v] := by
  intro params
  exact ⟨Sql.hole .question v, rfl, by simp [IsText, Placeholder.render]⟩

theorem nest_writes {compile : Dialect → Except Exn (CompiledQuery Value)} {text : String}
    {pushed : List Value} (h : CompilesTo (compile sqliteDialect) text pushed) :
    Writes (nest sqliteDialect compile) (·.render = text) pushed := by
  intro params
  obtain ⟨out, hout, htext, hparams⟩ := h
  refine ⟨out.sql, ?_, htext⟩
  subst hparams
  simp [nest, Bind.bind, StateT.bind, get, getThe, MonadStateOf.get, StateT.get, hout, liftM,
    monadLift, MonadLift.monadLift, StateT.lift, Except.bind, set, StateT.set, pure, Except.pure,
    StateT.pure]

/-! ## Predicates of filters -/

/-- The scalar of a filter on a member of `T`, which has the given alias. -/
def ScalarNode.operand? (T : TypeIndex) (aliasName : String) : ScalarNode Value → Option Operand
  | .column ref => if ref.owner = T then some (.column aliasName ref.column) else none
  | .value v => some (.literal v)
  | .function "LOWER" [.column ref] =>
    if ref.owner = T then some (.lower aliasName ref.column) else none
  | _ => none

/-- The condition of a filter on members of `T`. -/
def ExprNode.condition? (T : TypeIndex) (aliasName : String) : ExprNode Value → Option Condition
  | .comparison left op right => do
    return .compare (← left.operand? T aliasName) op (← right.operand? T aliasName)
  | .nullCheck operand negated => do
    return .nullCheck (← operand.operand? T aliasName) negated
  | .like operand pattern false => do
    return .like (← operand.operand? T aliasName) (← pattern.operand? T aliasName)
  | .inValues operand values negated => do
    let operand ← operand.operand? T aliasName
    return if values.isEmpty then .constant negated else .inValues operand values negated
  | .logical .and left right => do
    return .group (.and (← left.condition? T aliasName) (← right.condition? T aliasName))
  | _ => none

/-- The context of a query over one table. -/
def rootContext (T : TypeIndex) (aliasName : String) : CompileContext :=
  { dialect := sqliteDialect, aliases := [(T, aliasName)] }

theorem compileColumn_root {T : TypeIndex} {aliasName : String} (halias : aliasName ≠ "")
    {ref : ColumnRef} (howner : ref.owner = T) :
    compileColumn (rootContext T aliasName) ref = .ok (qcol sqliteDialect aliasName ref.column) := by
  simp [compileColumn, aliasFor, rootContext, howner, halias, qcol, Bind.bind, Except.bind, pure,
    Except.pure]

@[simp] theorem quoteIdentifier_sqlite :
    sqliteDialect.quoteIdentifier = quoteAnsiIdentifier := rfl

@[simp] theorem qcol_isEmpty (aliasName column : String) :
    (qcol sqliteDialect aliasName column).isEmpty = false := by
  simp [qcol, quoteAnsiIdentifier]

theorem qcol_isText (aliasName column : String) :
    IsText (qcol sqliteDialect aliasName column)
      (Sql.chars (qcol sqliteDialect aliasName column)) := by
  simp [IsText]

theorem compileColumn_writes {T : TypeIndex} {aliasName : String} (halias : aliasName ≠ "")
    {ref : ColumnRef} (howner : ref.owner = T) :
    Writes (compileScalar (rootContext T aliasName) (.column ref))
      (IsText (qcol sqliteDialect aliasName ref.column)) [] := by
  unfold compileScalar
  exact .lift (compileColumn_root halias howner) (.pure (qcol_isText _ _))

/-- `LOWER` is rendered as it is. -/
theorem compileLower_writes {T : TypeIndex} {aliasName : String} (halias : aliasName ≠ "")
    {ref : ColumnRef} (howner : ref.owner = T) :
    Writes (compileScalar (rootContext T aliasName) (.function "LOWER" [.column ref]))
      (IsText ("LOWER(" ++ qcol sqliteDialect aliasName ref.column ++ ")")) [] := by
  have hargs : Writes (compileScalars (rootContext T aliasName) [.column ref])
      (fun texts => ∃ sql, texts = [sql] ∧ IsText (qcol sqliteDialect aliasName ref.column) sql)
      [] := by
    unfold compileScalars
    exact .bind (compileColumn_writes halias howner) fun sql hsql =>
      .pure ⟨sql, rfl, hsql⟩
  unfold compileScalar
  refine .lift rfl ?_
  rw [if_neg (by simp [rootContext, sqliteDialect]), if_neg (by decide)]
  refine .cast (.bind hargs fun texts htexts => ?_) (List.append_nil [])
  obtain ⟨sql, rfl, htext, hempty⟩ := htexts
  intro params
  refine ⟨Sql.chars "LOWER" ++ Sql.chars "(" ++ Sql.join ", " [sql] ++ Sql.chars ")", ?_,
    by simp [Sql.join, htext], by simp [Sql.join, hempty]⟩
  rw [List.append_nil]
  rfl

theorem compileScalar_writes {T : TypeIndex} {aliasName : String} (halias : aliasName ≠ "")
    {e : ScalarNode Value} {operand : Operand} (h : e.operand? T aliasName = some operand) :
    Writes (compileScalar (rootContext T aliasName) e) (IsText operand.text) operand.literals := by
  unfold ScalarNode.operand? at h
  split at h
  · rename_i ref
    split at h
    · rename_i howner
      cases h
      exact compileColumn_writes halias howner
    · cases h
  · cases h
    unfold compileScalar
    exact bindLiteral_writes _
  · rename_i ref
    split at h
    · rename_i howner
      cases h
      exact compileLower_writes halias howner
    · cases h
  · cases h

theorem bindLiterals_writes (values : List Value) :
    Writes (bindLiterals sqliteDialect values)
      (fun texts => texts.map Sql.render = values.map fun _ => "?") values := by
  induction values with
  | nil => exact .pure rfl
  | cons v values ih =>
    unfold bindLiterals
    refine .cast (.bind (bindLiteral_writes v) fun text htext =>
      .bind ih fun texts htexts => .pure ?_) (by simp)
    simp [htext.1, htexts]

theorem compileExpression_writes {T : TypeIndex} {aliasName : String} (halias : aliasName ≠ "") :
    (e : ExprNode Value) → {c : Condition} → e.condition? T aliasName = some c →
    Writes (compileExpression (rootContext T aliasName) e) (IsText c.text) c.literals
  | .comparison left op right, c, h => by
    simp only [ExprNode.condition?, Option.bind_eq_bind, Option.bind_eq_some_iff] at h
    obtain ⟨l, hl, r, hr, hc⟩ := h
    cases hc
    unfold compileExpression
    refine .cast (.bind (compileScalar_writes halias hl) fun sql hsql =>
      .bind (compileScalar_writes halias hr) fun sql' hsql' => .pure ?_) (by simp [Condition.literals])
    simp [IsText, Condition.text, hsql.1, hsql'.1, hsql.2]
  | .nullCheck operand negated, c, h => by
    simp only [ExprNode.condition?, Option.bind_eq_bind, Option.bind_eq_some_iff] at h
    obtain ⟨o, ho, hc⟩ := h
    cases hc
    unfold compileExpression
    refine .cast (.bind (compileScalar_writes halias ho) fun sql hsql => .pure ?_)
      (by simp [Condition.literals])
    simp [IsText, Condition.text, hsql.1, hsql.2]
  | .like operand pattern false, c, h => by
    simp only [ExprNode.condition?, Option.bind_eq_bind, Option.bind_eq_some_iff] at h
    obtain ⟨o, ho, p, hp, hc⟩ := h
    cases hc
    unfold compileExpression
    refine .cast (.bind (compileScalar_writes halias ho) fun sql hsql =>
      .bind (compileScalar_writes halias hp) fun sql' hsql' => .pure ?_)
      (by simp [Condition.literals])
    simp [IsText, Condition.text, hsql.1, hsql'.1, hsql.2]
  | .inValues operand values negated, c, h => by
    simp only [ExprNode.condition?, Option.bind_eq_bind, Option.bind_eq_some_iff] at h
    obtain ⟨o, ho, hc⟩ := h
    cases hc
    unfold compileExpression
    -- an empty list is compiled to a constant
    split
    · refine .pure ⟨?_, ?_⟩
      · cases negated <;> simp [Condition.text]
      · cases negated <;> simp
    · refine .cast (.bind (compileScalar_writes halias ho) fun sql hsql =>
        .bind (bindLiterals_writes values) fun texts htexts => .pure ?_)
        (by simp [Condition.literals])
      simp [IsText, Condition.text, hsql.1, hsql.2, Sql.render_join, htexts, String.append_assoc]
  | .logical .and left right, c, h => by
    simp only [ExprNode.condition?, Option.bind_eq_bind, Option.bind_eq_some_iff] at h
    obtain ⟨l, hl, r, hr, hc⟩ := h
    cases hc
    unfold compileExpression
    refine .cast (.bind (compileExpression_writes halias left hl) fun sql hsql =>
      .bind (compileExpression_writes halias right hr) fun sql' hsql' => .pure ?_)
      (by simp [Condition.literals])
    simp [IsText, Condition.text, hsql.1, hsql'.1, String.append_assoc]
  | .like _ _ true, _, h | .between _ _ _ _, _, h | .inSubquery _ _ _, _, h | .exists _ _, _, h
  | .logical .or _ _, _, h | .not _, _, h => by
    simp [ExprNode.condition?] at h

/-! ## Queries over one table -/

/-- The WHERE predicate of a query as a condition. -/
def SelectQuery.condition (query : SelectQuery Value) (aliasName : String) : Option Condition :=
  query.where_.bind (·.condition? query.root.type aliasName)

/-- A query over one table whose WHERE predicate, if any, comes from filters. -/
structure SelectQuery.Simple (query : SelectQuery Value) : Prop where
  plain : query = { root := query.root, where_ := query.where_ }
  readable : ∀ e ∈ query.where_, ∀ aliasName, (e.condition? query.root.type aliasName).isSome

theorem compileOptional_writes {query : SelectQuery Value} (h : query.Simple) {aliasName : String}
    (halias : aliasName ≠ "") :
    Writes (compileOptional (rootContext query.root.type aliasName) query.where_)
      (IsWhere (query.condition aliasName)) (whereLiterals (query.condition aliasName)) := by
  have hreadable := h.readable
  unfold SelectQuery.condition
  cases hw : query.where_ with
  | none =>
    unfold compileOptional
    exact .pure trivial
  | some e =>
    obtain ⟨c, hc⟩ := Option.isSome_iff_exists.mp (hreadable e hw aliasName)
    unfold compileOptional
    simp only [Option.bind_some, hc]
    exact .cast (.bind (compileExpression_writes halias e hc) fun sql hsql => .pure hsql)
      (List.append_nil _)

theorem compileOptional_none (ctx : CompileContext) :
    Writes (compileOptional ctx none) (· = none) [] := by
  unfold compileOptional
  exact .pure rfl

/-- The text of the two parts of a WHERE clause. -/
theorem render_whereClause {w e : Option Condition} {w' e' : Option (Sql Value)}
    (hw : IsWhere w w') (he : IsWhere e e') :
    (whereClause w' e').render = whereText (whereAnd w e) := by
  cases w <;> cases w' <;> cases e <;> cases e' <;>
    simp_all [IsWhere, IsText, whereClause, whereText, whereAnd, Condition.text, String.append_assoc]
  rw [show " WHERE (" = " WHERE " ++ "(" from rfl, show ") AND (" = ") AND " ++ "(" from rfl]
  simp only [String.append_assoc]

/-- What the extra condition of a query is compiled to under the alias of its root. -/
def ExtraWrites (extra : Option (ExtraWhereCompiler Value)) (rootAlias : String)
    (condition : Option Condition) : Prop :=
  Writes (compileExtraWhere sqliteDialect rootAlias extra) (IsWhere condition)
    (whereLiterals condition)

theorem extraWrites_none (rootAlias : String) : ExtraWrites none rootAlias none := .pure trivial

theorem extraWrites_some {extra : ExtraWhereCompiler Value} {rootAlias : String} {c : Condition}
    {out : CompiledQuery Value} (hout : extra sqliteDialect rootAlias = .ok out)
    (htext : IsText c.text out.sql) (hparams : out.params = c.literals) :
    ExtraWrites (some extra) rootAlias (some c) := by
  intro params
  refine ⟨some out.sql, ?_, htext⟩
  simp [compileExtraWhere, Bind.bind, StateT.bind, get, getThe, MonadStateOf.get, StateT.get, hout,
    liftM, monadLift, MonadLift.monadLift, StateT.lift, Except.bind, set, StateT.set, pure,
    Except.pure, StateT.pure, htext.2, hparams, whereLiterals]

theorem compilesTo_of_writes {x : CompileM Value (Sql Value)} {text : String} {pushed : List Value}
    (h : Writes x (·.render = text) pushed) :
    CompilesTo (do
      let (sql, params) ← x []
      return { sql, params }) text pushed := by
  obtain ⟨sql, hsql, htext⟩ := h []
  exact ⟨{ sql, params := pushed }, by rw [hsql]; rfl, htext, rfl⟩

theorem compileImpl_simple {query : SelectQuery Value} (h : query.Simple)
    {extra : Option (ExtraWhereCompiler Value)} {override rootAlias : String}
    {condition : Option Condition} (hroot : rootAliasOf query extra.isSome override = rootAlias)
    (halias : rootAlias ≠ "") (hextra : ExtraWrites extra rootAlias condition) :
    CompilesTo (compileImpl query sqliteDialect false extra override)
      (selectText (.columns query.root) query.root.table rootAlias ++
        whereText (whereAnd (query.condition rootAlias) condition))
      (whereLiterals (whereAnd (query.condition rootAlias) condition)) := by
  have hwhere := compileOptional_writes h halias
  generalize hcondition : query.condition rootAlias = where_ at hwhere ⊢
  generalize hq : query.where_ = predicate at hwhere
  generalize hr : query.root = root at hwhere ⊢
  have hquery : query = { root, where_ := predicate } := by rw [← hq, ← hr]; exact h.plain
  subst hquery
  unfold compileImpl assembleQuery
  refine compilesTo_of_writes ?_
  unfold assembleSql
  dsimp only
  rw [hroot]
  unfold compileCtes compileProjections compileSetOperations compileFromSource compileJoins
  refine .cast (.bind (.done []) fun ctes hctes => .lift rfl ?_)
    (List.nil_append _)
  dsimp only
  refine .lift rfl (.cast (.bind (.done []) fun projections hprojections =>
    .bind (.pure rfl) fun source hsource => .bind hwhere fun whereSql hwhereSql =>
    .bind hextra fun extraSql hextraSql => .lift rfl (.bind
      (compileOptional_none _) fun having hhaving => .bind (.done Sql.empty) fun set hset =>
      .lift rfl (.pure ?_))) ?_)
  · subst hctes hprojections hhaving hset hsource
    simp [halias, havingClause, render_whereClause hwhereSql hextraSql, selectText, sqliteDialect,
      String.append_assoc]
  · simp

/-! ## Relation filters -/

/-- The condition that two columns are equal. -/
def sameColumn (left leftColumn right rightColumn : String) : Condition :=
  .compare (.column left leftColumn) .eq (.column right rightColumn)

/-- The condition of `compile_relation_correlation`. -/
def RelationInfo.correlation (relation : RelationInfo Value) (child outer : String) : Condition :=
  match relation.columns with
  | .belongsTo foreignKey targetKey => sameColumn child targetKey outer foreignKey
  | .hasOne targetForeignKey localKey | .hasMany targetForeignKey localKey =>
    sameColumn child targetForeignKey outer localKey
  | .manyToMany pivot pivotRootKey pivotTargetKey localKey targetKey =>
    .existsIn false .one pivot (child ++ "_pivot") (some (.and
      (sameColumn (child ++ "_pivot") pivotTargetKey child targetKey)
      (sameColumn (child ++ "_pivot") pivotRootKey outer localKey)))
  | .morphOne typeField idField localKey typeValue
  | .morphMany typeField idField localKey typeValue =>
    .and (sameColumn child idField outer localKey)
      (.compare (.column child typeField) .eq (.literal typeValue))

/-- The root entity of a query. -/
def CorrelatedQuery.root : CorrelatedQuery Value → EntityInfo
  | .basic query => query.root
  | .filtered base _ => base.root

mutual

/-- The WHERE clause of a query under an alias, with an extra condition. -/
def CorrelatedQuery.condition : CorrelatedQuery Value → (aliasName : String) →
    (extra : Option Condition) → Option Condition
  | .basic query, aliasName, extra => whereAnd (query.condition aliasName) extra
  | .filtered base filters, aliasName, extra =>
    whereAnd (base.condition aliasName)
      (conjunction (filterConditions filters aliasName ++ extra.toList))

/-- The conditions of a list of filters on the entity of the given alias. -/
def filterConditions : List (RelationFilter Value) → (outer : String) → List Condition
  | [], _ => []
  | filter :: filters, outer => filter.condition outer :: filterConditions filters outer

/-- The condition of a filter on the entity of the given alias. -/
def RelationFilter.condition : RelationFilter Value → (outer : String) → Condition
  | .related relation child negated, outer =>
    .existsIn negated (.columns child.root) child.root.table (outer ++ "_rel")
      (child.condition (outer ++ "_rel") (some (relation.correlation (outer ++ "_rel") outer)))
  | .every relation predicate, outer =>
    .existsIn true (.columns relation.target) relation.target.table (outer ++ "_rel")
      (some (.and (relation.correlation (outer ++ "_rel") outer)
        (.existsIn true (.columns predicate.root) predicate.root.table (outer ++ "_rel" ++ "_every")
          (predicate.condition (outer ++ "_rel" ++ "_every")
            (some (sameColumn (outer ++ "_rel" ++ "_every") relation.targetPrimaryKey
              (outer ++ "_rel") relation.targetPrimaryKey))))))

end

mutual

/-- Every query in a filtered query is a simple one. -/
def CorrelatedQuery.Simple : CorrelatedQuery Value → Prop
  | .basic query => query.Simple
  | .filtered base filters => base.Simple ∧ filtersSimple filters

def filtersSimple : List (RelationFilter Value) → Prop
  | [] => True
  | filter :: filters => filter.Simple ∧ filtersSimple filters

def RelationFilter.Simple : RelationFilter Value → Prop
  | .related _ child _ => child.Simple
  | .every _ predicate => predicate.Simple

end

theorem simple_select (root : EntityInfo) : SelectQuery.Simple ({ root } : SelectQuery Value) :=
  ⟨rfl, by simp⟩

theorem sameColumn_isText (left leftColumn right rightColumn : String) :
    IsText (sameColumn left leftColumn right rightColumn).text
      (Sql.chars (qcol sqliteDialect left leftColumn) ++ Sql.chars " = " ++
        Sql.chars (qcol sqliteDialect right rightColumn)) := by
  simp [IsText, sameColumn, Condition.text, Operand.text, compareToken, String.append_assoc]

/-- The correlation of a relation is the text of its condition. -/
theorem correlation_writes (relation : RelationInfo Value) (child outer : String) :
    ∃ out, compileRelationCorrelation relation sqliteDialect child outer = .ok out ∧
      IsText (relation.correlation child outer).text out.sql ∧
      out.params = (relation.correlation child outer).literals := by
  have hmorph : ∀ typeField idField localKey (typeValue : Value),
      ∃ out, morphCorrelation sqliteDialect child outer typeField idField localKey typeValue =
          .ok out ∧
        IsText (Condition.and (sameColumn child idField outer localKey)
          (.compare (.column child typeField) .eq (.literal typeValue))).text out.sql ∧
        out.params = [typeValue] := by
    intro typeField idField localKey typeValue
    refine ⟨_, rfl, ?_, rfl⟩
    dsimp only
    simp [IsText, sameColumn, Condition.text, Operand.text, compareToken, Placeholder.render,
      String.append_assoc]
  obtain ⟨name, target, primaryKey, columns⟩ := relation
  cases columns with
  | belongsTo foreignKey targetKey => exact ⟨_, rfl, sameColumn_isText _ _ _ _, rfl⟩
  | hasOne targetForeignKey localKey => exact ⟨_, rfl, sameColumn_isText _ _ _ _, rfl⟩
  | hasMany targetForeignKey localKey => exact ⟨_, rfl, sameColumn_isText _ _ _ _, rfl⟩
  | manyToMany pivot pivotRootKey pivotTargetKey localKey targetKey =>
    refine ⟨_, rfl, ?_, rfl⟩
    dsimp only [RelationInfo.correlation]
    rw [text_existsIn]
    simp [IsText, Condition.existsToken, selectText, whereText, sameColumn, Condition.text,
      Operand.text, compareToken, String.append_assoc]
    rw [show "EXISTS (SELECT 1 FROM " = "EXISTS (" ++ "SELECT 1 FROM " from rfl, String.append_assoc]
  | morphOne typeField idField localKey typeValue => exact hmorph _ _ _ _
  | morphMany typeField idField localKey typeValue => exact hmorph _ _ _ _

/-- `joinPredicates` writes the text of a conjunction. -/
theorem joinPredicates_isText {c : Condition} {cs : List Condition} {texts : List (Sql Value)}
    (h : texts.map Sql.render = (c :: cs).map Condition.text) :
    ∃ all, conjunction (c :: cs) = some all ∧ IsText all.text (joinPredicates texts) := by
  induction cs generalizing c texts with
  | nil =>
    obtain ⟨sql, rest, rfl, hsql, hrest⟩ := List.map_eq_cons_iff.mp h
    have hnil : rest = [] := List.map_eq_nil_iff.mp hrest
    subst hnil
    exact ⟨c.group, rfl, by simp [IsText, joinPredicates, Sql.join, Condition.text, hsql]⟩
  | cons d cs ih =>
    obtain ⟨sql, rest, rfl, hsql, hrest⟩ := List.map_eq_cons_iff.mp h
    obtain ⟨all, hall, htext, -⟩ := ih hrest
    obtain ⟨next, rest, rfl, -, -⟩ := List.map_eq_cons_iff.mp hrest
    refine ⟨.and c.group all, by rw [conjunction, hall], ?_, ?_⟩
    · have hjoin : joinPredicates (sql :: next :: rest) =
          Sql.chars "(" ++ sql ++ Sql.chars ")" ++
            (Sql.chars " AND " ++ joinPredicates (next :: rest)) := rfl
      simp [hjoin, htext, hsql, Condition.text, String.append_assoc]
      rw [← String.append_assoc]
      rfl
    · simp [joinPredicates, Sql.join]

/-- An extra condition with an empty text is left out. -/
theorem extraWrites_empty {extra : ExtraWhereCompiler Value} {rootAlias : String}
    {out : CompiledQuery Value} (hout : extra sqliteDialect rootAlias = .ok out)
    (hempty : out.sql.isEmpty = true) : ExtraWrites (some extra) rootAlias none := by
  intro params
  refine ⟨none, ?_, trivial⟩
  simp [compileExtraWhere, Bind.bind, StateT.bind, get, getThe, MonadStateOf.get, StateT.get, hout,
    liftM, monadLift, MonadLift.monadLift, StateT.lift, Except.bind, pure, Except.pure, StateT.pure,
    hempty, whereLiterals]

/-- The filters of a list and an extra condition, as one extra condition. -/
theorem extraWrites_filterList
    {compile : Dialect → String → CompileM Value (List (Sql Value))}
    {extra : Option (ExtraWhereCompiler Value)} {rootAlias : String} {cs : List Condition}
    {condition : Option Condition}
    (hcompile : Writes (compile sqliteDialect rootAlias)
      (fun texts => texts.map Sql.render = cs.map Condition.text) (cs.flatMap (·.literals)))
    (hextra : ExtraWrites extra rootAlias condition) :
    ExtraWrites (some fun dialect alias' =>
      compileRelationFilterList dialect alias' (compile dialect alias') extra) rootAlias
      (conjunction (cs ++ condition.toList)) := by
  have hbody : ∃ out texts, compileRelationFilterList sqliteDialect rootAlias
        (compile sqliteDialect rootAlias) extra = .ok out ∧
      out.sql = joinPredicates texts ∧
      texts.map Sql.render = (cs ++ condition.toList).map Condition.text ∧
      out.params = (cs ++ condition.toList).flatMap (·.literals) := by
    obtain ⟨texts, htexts, hrender⟩ := hcompile []
    obtain ⟨extraSql, hextraSql, hwhere⟩ := hextra (cs.flatMap (·.literals))
    rw [List.nil_append] at htexts
    refine ⟨⟨joinPredicates (texts ++ extraSql.toList), cs.flatMap (·.literals) ++
      whereLiterals condition⟩, texts ++ extraSql.toList, ?_, rfl, ?_, ?_⟩
    · unfold compileRelationFilterList
      simp [Bind.bind, StateT.bind, htexts, hextraSql, Except.bind, pure, Except.pure, StateT.pure]
    · rw [List.map_append, List.map_append, hrender]
      cases condition <;> cases extraSql <;> simp_all [IsWhere, IsText]
    · cases condition <;> simp [whereLiterals]
  obtain ⟨out, texts, hout, hsql, hrender, hparams⟩ := hbody
  cases hall : cs ++ condition.toList with
  | nil =>
    rw [hall] at hrender
    have hnil : texts = [] := by simpa using hrender
    exact extraWrites_empty hout (by rw [hsql, hnil]; rfl)
  | cons c rest =>
    rw [hall] at hrender hparams
    obtain ⟨all, hconj, htext⟩ := joinPredicates_isText hrender
    have hliterals : whereLiterals (some all) = (c :: rest).flatMap (·.literals) := by
      rw [← hconj, whereLiterals_conjunction]
    rw [hconj]
    exact extraWrites_some hout (hsql ▸ htext) (hparams.trans hliterals.symm)

/-- The text of a SELECT in a filter. -/
def CorrelatedQuery.selectText (query : CorrelatedQuery Value) (aliasName : String)
    (condition : Option Condition) : String :=
  Query.selectText (.columns query.root) query.root.table aliasName ++ whereText condition

theorem append_ne_empty (s t : String) (h : t ≠ "") : s ++ t ≠ "" := by
  intro hempty
  exact h (String.append_eq_empty_iff.mp hempty).2

mutual

/-- A filtered query is compiled to the SELECT of its condition. -/
theorem compileWith_writes : (query : CorrelatedQuery Value) → query.Simple →
    ∀ {extra : Option (ExtraWhereCompiler Value)} {aliasName : String}
      {condition : Option Condition}, aliasName ≠ "" → ExtraWrites extra aliasName condition →
      CompilesTo (query.compileWith sqliteDialect extra aliasName)
        (query.selectText aliasName (query.condition aliasName condition))
        (whereLiterals (query.condition aliasName condition))
  | .basic query, h, extra, aliasName, condition, halias, hextra => by
    unfold CorrelatedQuery.compileWith CorrelatedQuery.condition CorrelatedQuery.selectText
    exact compileImpl_simple (by simpa [CorrelatedQuery.Simple] using h)
      (by simp [rootAliasOf, halias]) halias hextra
  | .filtered base filters, h, extra, aliasName, condition, halias, hextra => by
    unfold CorrelatedQuery.Simple at h
    unfold CorrelatedQuery.compileWith CorrelatedQuery.condition CorrelatedQuery.selectText
    have hfilters : ExtraWrites (some fun dialect rootAlias =>
        compileRelationFilterList dialect rootAlias (compileFilters dialect rootAlias filters) extra)
        aliasName _ := extraWrites_filterList (compileFilters_writes filters h.2 halias) hextra
    exact compileImpl_simple h.1 (by simp [rootAliasOf, halias]) halias hfilters
termination_by query => sizeOf query

theorem compileFilters_writes : (filters : List (RelationFilter Value)) → filtersSimple filters →
    ∀ {outer : String}, outer ≠ "" →
      Writes (compileFilters sqliteDialect outer filters)
        (fun texts => texts.map Sql.render = (filterConditions filters outer).map Condition.text)
        ((filterConditions filters outer).flatMap (·.literals))
  | [], _, outer, _ => by
    unfold compileFilters filterConditions
    exact .pure rfl
  | filter :: filters, h, outer, houter => by
    unfold filtersSimple at h
    obtain ⟨text, htext, hcompile⟩ := compileExists_writes filter h.1 houter
    unfold compileFilters filterConditions
    refine .cast (.bind (nest_writes hcompile) fun sql hsql =>
      .bind (compileFilters_writes filters h.2 houter) fun texts htexts => .pure ?_) (by simp)
    simp [htexts, htext, hsql, Condition.existsToken]
termination_by filters => sizeOf filters

theorem compileExists_writes : (filter : RelationFilter Value) → filter.Simple →
    ∀ {outer : String}, outer ≠ "" → ∃ text,
      (filter.condition outer).text = Condition.existsToken filter.negated ++ text ++ ")" ∧
        CompilesTo (filter.compileExists sqliteDialect outer) text
          (filter.condition outer).literals
  | .related relation child negated, h, outer, houter => by
    have hchild : outer ++ "_rel" ≠ "" := append_ne_empty _ _ (by decide)
    obtain ⟨out, hout, htext, hparams⟩ := correlation_writes relation (outer ++ "_rel") outer
    unfold RelationFilter.Simple at h
    unfold RelationFilter.condition RelationFilter.compileExists
    rw [text_existsIn, literals_existsIn]
    refine ⟨_, rfl, ?_⟩
    have hextra : ExtraWrites (some fun dialect childAlias =>
        compileRelationCorrelation relation dialect childAlias outer) (outer ++ "_rel") _ :=
      extraWrites_some hout htext hparams
    exact compileWith_writes child h hchild hextra
  | .every relation predicate, h, outer, houter => by
    have hchild : outer ++ "_rel" ≠ "" := append_ne_empty _ _ (by decide)
    have hrow : outer ++ "_rel" ++ "_every" ≠ "" := append_ne_empty _ _ (by decide)
    obtain ⟨out, hout, htext, hparams⟩ := correlation_writes relation (outer ++ "_rel") outer
    unfold RelationFilter.Simple at h
    -- the query that looks for the same row among those that match
    have hsame : ExtraWrites (some (sameRow relation (outer ++ "_rel")))
        (outer ++ "_rel" ++ "_every") _ :=
      extraWrites_some rfl (sameColumn_isText _ relation.targetPrimaryKey _ _) rfl
    obtain ⟨matching, hmatching, hmatchingText, hmatchingParams⟩ :=
      compileWith_writes predicate h hrow hsame
    have hextra : ExtraWrites (some (everyCondition relation outer fun dialect childAlias =>
        predicate.compileWith dialect (some (sameRow relation childAlias)) (childAlias ++ "_every")))
        (outer ++ "_rel") (some (.and (relation.correlation (outer ++ "_rel") outer)
          (.existsIn true (.columns predicate.root) predicate.root.table
            (outer ++ "_rel" ++ "_every") (predicate.condition (outer ++ "_rel" ++ "_every")
              (some (sameColumn (outer ++ "_rel" ++ "_every") relation.targetPrimaryKey
                (outer ++ "_rel") relation.targetPrimaryKey)))))) := by
      have hevery : everyCondition relation outer (fun dialect childAlias =>
          predicate.compileWith dialect (some (sameRow relation childAlias))
            (childAlias ++ "_every")) sqliteDialect (outer ++ "_rel") =
          .ok ⟨out.sql ++ Sql.chars " AND NOT EXISTS (" ++ matching.sql ++ Sql.chars ")",
            out.params ++ matching.params⟩ := by
        simp only [everyCondition]
        rw [hout, hmatching]
        rfl
      refine extraWrites_some hevery ⟨?_, by simp [htext.2]⟩ ?_
      · rw [Condition.text, text_existsIn]
        simp only [Sql.render_append, Sql.render_chars, htext.1, hmatchingText,
          Condition.existsToken, if_true, CorrelatedQuery.selectText]
        rw [show " AND NOT EXISTS (" = " AND " ++ "NOT EXISTS (" from rfl]
        simp only [String.append_assoc]
      · simp [hparams, hmatchingParams, Condition.literals, literals_existsIn]
    unfold RelationFilter.condition RelationFilter.compileExists
    rw [text_existsIn, literals_existsIn]
    refine ⟨_, rfl, ?_⟩
    exact compileImpl_simple (simple_select relation.target) (by simp [rootAliasOf, houter]) hchild hextra
termination_by filter => sizeOf filter

end

end MetalOrm.Native.Query
