import Mathlib.Tactic.Choose
import MetalOrm.ForStd.NameScopes
import MetalOrm.Native.RelationQueries
import MetalOrm.Spec.EmissionRules

/-!
# The aliases of a query

Each SELECT of a query is a block that declares the names of its FROM list. The condition of a
relation filter refers to the SELECT around it, and stands in a block inside.

## Key results

- `compileWith_written`: the blocks of a query are those of its text
-/

namespace MetalOrm.Native.Query

open ForStd

variable {V : Type}

/-! ## The names of a FROM list -/

/-- How the alias of a joined entity begins. -/
def entityAlias (rootAlias : String) (correlatedScope : Bool) : String :=
  if correlatedScope then rootAlias ++ "_j" else "t"

/-- How the alias of a pivot begins. -/
def pivotAlias (rootAlias : String) (correlatedScope : Bool) : String :=
  if correlatedScope then rootAlias ++ "_p" else "p"

/-- The aliases of the joins, numbered from `entity` and `pivot` on. -/
def joinAliases (entities pivots : String) : List JoinSpec → (entity pivot : Nat) → List String
  | [], _, _ => []
  | join :: joins, entity, pivot =>
    match join.pivot with
    | some _ => (pivots ++ toString pivot) :: (entities ++ toString entity) ::
        joinAliases entities pivots joins (entity + 1) (pivot + 1)
    | none => (entities ++ toString entity) :: joinAliases entities pivots joins (entity + 1) pivot

/-- The names of the CTE joins. -/
def SelectQuery.cteNames (query : SelectQuery V) : List String := query.cteJoins.map (·.cteName)

/-- The names of the FROM list. A table without an alias is the only entry, and its columns are not
    qualified. -/
def SelectQuery.fromNames (query : SelectQuery V) (hasExtraWhere : Bool) (override : String) :
    List String :=
  let rootAlias := rootAliasOf query hasExtraWhere override
  (if rootAlias = "" && query.derivedSource.isNone then [] else [rootAlias]) ++
    joinAliases (entityAlias rootAlias (override ≠ "")) (pivotAlias rootAlias (override ≠ ""))
      query.joins 1 0 ++ query.cteNames

/-! ## Blocks -/

/-- What an extra condition refers to, and the SELECTs inside. -/
structure Correlation where
  references : List (Nat × String) := []
  inner : List (Block String) := []

/-- The block of a SELECT: its columns are qualified with the names of its own list. -/
def SelectQuery.block (query : SelectQuery V) (hasExtraWhere : Bool) (override : String)
    (condition : Correlation) : Block String :=
  let names := query.fromNames hasExtraWhere override
  .mk names (names.map ((0, ·)) ++ condition.references) condition.inner

/-- The condition of `compile_relation_correlation`, in the SELECT with the alias of the child. -/
def relationCorrelation (relation : RelationInfo V) (childAlias outerAlias : String) : Correlation :=
  match relation.columns with
  | .manyToMany .. => {
      inner := [.mk [childAlias ++ "_pivot"]
        ([childAlias ++ "_pivot"].map ((0, ·)) ++ [(1, childAlias), (2, outerAlias)]) []] }
  | _ => { references := [(0, childAlias), (1, outerAlias)] }

/-- The condition that two aliases are the same row. -/
def sameRowCorrelation (predicateAlias childAlias : String) : Correlation where
  references := [(0, predicateAlias), (1, childAlias)]

mutual

/-- The block of a plain or a filtered query. -/
def CorrelatedQuery.block : CorrelatedQuery V → (extra : Option Correlation) →
    (rootAliasOverride : String) → Block String
  | .basic query, extra, override => query.block extra.isSome override (extra.getD {})
  | .filtered base filters, extra, override =>
    base.block true override {
      references := (extra.getD {}).references
      inner := filterBlocks (rootAliasOf base true override) filters ++ (extra.getD {}).inner }

/-- The blocks of relation filters. -/
def filterBlocks (rootAlias : String) : List (RelationFilter V) → List (Block String)
  | [] => []
  | filter :: filters => filter.block rootAlias :: filterBlocks rootAlias filters

/-- The block of a relation filter. -/
def RelationFilter.block (outerAlias : String) : RelationFilter V → Block String
  | .related relation child _ =>
    child.block (some (relationCorrelation relation (outerAlias ++ "_rel") outerAlias))
      (outerAlias ++ "_rel")
  | .every relation predicate =>
    let childAlias := outerAlias ++ "_rel"
    let correlation := relationCorrelation relation childAlias outerAlias
    (selectTarget relation).block true childAlias {
      references := correlation.references
      inner := correlation.inner ++ [predicate.block
        (some (sameRowCorrelation (childAlias ++ "_every") childAlias)) (childAlias ++ "_every")] }

end

/-! ## Queries inside that are compiled on their own -/

mutual

/-- The queries inside of CTEs, derived tables and set operations. They refer to nothing outside. -/
def SelectQuery.bodies : SelectQuery V → List (SelectQuery V)
  | { derivedSource, ctes, setOperations, .. } =>
    cteBodies ctes ++ (sourceBodies derivedSource ++ setBodies setOperations)

def cteBodies : List (CteSpec V) → List (SelectQuery V)
  | [] => []
  | { name := _, columns := _, recursive := _, query } :: ctes =>
    query :: (query.bodies ++ cteBodies ctes)

def sourceBodies : Option (DerivedSourceSpec V) → List (SelectQuery V)
  | none => []
  | some { aliasName := _, query } => query :: query.bodies

def setBodies : List (SetOperationSpec V) → List (SelectQuery V)
  | [] => []
  | { kind := _, query } :: operations => query :: (query.bodies ++ setBodies operations)

end

mutual

/-- The queries inside that are compiled on their own, in a query and in its filters. -/
def CorrelatedQuery.bodies : CorrelatedQuery V → List (SelectQuery V)
  | .basic query => query.bodies
  | .filtered base filters => base.bodies ++ filterBodies filters

def filterBodies : List (RelationFilter V) → List (SelectQuery V)
  | [] => []
  | filter :: filters => filter.bodies ++ filterBodies filters

def RelationFilter.bodies : RelationFilter V → List (SelectQuery V)
  | .related _ child _ => child.bodies
  | .every _ predicate => predicate.bodies

end

/-- The blocks of a query that stand in no other. -/
def CorrelatedQuery.blocks (query : CorrelatedQuery V) : List (Block String) :=
  query.block none "" :: query.bodies.map (·.block false "" {})

/-! ## Texts -/

/-- A part of a FROM list, and the names that it introduces: those behind `AS`, and those of CTEs. -/
inductive Introduces (quote : String → String) : String → List String → Prop where
  | empty : Introduces quote "" []
  | table (table : String) : Introduces quote (quote table) []
  | aliased (before name after : String) :
    Introduces quote (before ++ " AS " ++ quote name ++ after) [name]
  | cte (before name after : String) :
    Introduces quote (before ++ quote name ++ " ON " ++ after) [name]
  | append {text text' : String} {names names' : List String} (h : Introduces quote text names)
    (h' : Introduces quote text' names') : Introduces quote (text ++ text') (names ++ names')

/-- A text stands in another one. -/
def Within (text whole : String) : Prop := ∃ before after, whole = before ++ text ++ after

/-- The text of a SELECT with the names of its block, and the texts of the blocks inside behind its
    FROM list. -/
inductive Written (quote : String → String) : Block String → String → Prop where
  | select {names : List String} {references : List (Nat × String)} {inner : List (Block String)}
    (before : String) {source : String} (after : String) (hsource : Introduces quote source names)
    (text : Block String → String) (hinner : ∀ block ∈ inner, Written quote block (text block))
    (hwithin : ∀ block ∈ inner, Within (text block) after) :
    Written quote (.mk names references inner) (before ++ " FROM " ++ source ++ after)

/-- The texts of blocks stand in a text. -/
def Inside (quote : String → String) (inner : List (Block String)) (whole : String) : Prop :=
  ∀ block ∈ inner, ∃ text, Written quote block text ∧ Within text whole

theorem Within.refl (text : String) : Within text text := ⟨"", "", by simp⟩

theorem Within.empty (whole : String) : Within "" whole := ⟨"", whole, by simp⟩

theorem Within.trans {text text' whole : String} (h : Within text text') (h' : Within text' whole) :
    Within text whole := by
  obtain ⟨before, after, rfl⟩ := h
  obtain ⟨before', after', rfl⟩ := h'
  exact ⟨before' ++ before, after ++ after', by simp only [String.append_assoc]⟩

theorem Within.left {text whole : String} (h : Within text whole) (before : String) :
    Within text (before ++ whole) := by
  obtain ⟨start, after, rfl⟩ := h
  exact ⟨before ++ start, after, by simp only [String.append_assoc]⟩

theorem Within.right {text whole : String} (h : Within text whole) (after : String) :
    Within text (whole ++ after) := by
  obtain ⟨before, rest, rfl⟩ := h
  exact ⟨before, rest ++ after, by simp only [String.append_assoc]⟩

section

variable {quote : String → String} {inner inner' : List (Block String)} {text whole : String}

theorem Inside.within (h : Inside quote inner text) (hwithin : Within text whole) :
    Inside quote inner whole := by
  intro block hblock
  obtain ⟨sub, hwritten, hsub⟩ := h block hblock
  exact ⟨sub, hwritten, hsub.trans hwithin⟩

theorem Inside.append (h : Inside quote inner whole) (h' : Inside quote inner' whole) :
    Inside quote (inner ++ inner') whole := by
  intro block hblock
  exact (List.mem_append.mp hblock).elim (h block) (h' block)

theorem Inside.nil : Inside quote [] whole := nofun

theorem Inside.singleton {block : Block String} (h : Written quote block text)
    (hwithin : Within text whole) : Inside quote [block] whole := by
  intro other hother
  obtain rfl := List.mem_singleton.mp hother
  exact ⟨text, h, hwithin⟩

/-- A SELECT whose inner texts stand behind the FROM list. -/
theorem Written.of_inside {names : List String} {references : List (Nat × String)}
    (before : String) {source after : String} (hsource : Introduces quote source names)
    (h : Inside quote inner after) :
    Written quote (.mk names references inner) (before ++ " FROM " ++ source ++ after) := by
  classical
  have hchoice : ∀ block, ∃ sub, block ∈ inner → Written quote block sub ∧ Within sub after := by
    intro block
    by_cases hblock : block ∈ inner
    · obtain ⟨sub, hsub⟩ := h block hblock
      exact ⟨sub, fun _ => hsub⟩
    · exact ⟨"", fun hmem => absurd hmem hblock⟩
  choose text htext using hchoice
  exact .select before after hsource text (fun block hblock => (htext block hblock).1)
    fun block hblock => (htext block hblock).2

end

/-! ## The text of a FROM list -/

theorem except_bind_eq_ok {α β : Type} {x : Except Exn α} {f : α → Except Exn β} {b : β}
    (h : (x >>= f) = .ok b) : ∃ a, x = .ok a ∧ f a = .ok b := by
  cases x with
  | error e => cases h
  | ok a => exact ⟨a, rfl, h⟩

/-- The joins introduce their aliases, and columns are qualified with these. -/
theorem compileJoins_introduces {dialect : Dialect} {rootAlias : String} {correlatedScope : Bool}
    {joins : List JoinSpec} {entity pivot : Nat} {aliases aliases' : List (TypeIndex × String)}
    {sql : String}
    (h : compileJoins dialect rootAlias correlatedScope joins entity pivot aliases =
      .ok (sql, aliases')) :
    Introduces dialect.quoteIdentifier sql (joinAliases (entityAlias rootAlias correlatedScope)
        (pivotAlias rootAlias correlatedScope) joins entity pivot) ∧
      ∀ entry ∈ aliases', entry ∈ aliases ∨ entry.2 ∈ joinAliases
        (entityAlias rootAlias correlatedScope) (pivotAlias rootAlias correlatedScope) joins entity
          pivot := by
  induction joins generalizing entity pivot aliases sql with
  | nil =>
    obtain ⟨rfl, rfl⟩ := Prod.mk.inj (Except.ok.inj h)
    exact ⟨.empty, fun entry hentry => .inl hentry⟩
  | cons join joins ih =>
    unfold compileJoins at h
    split at h
    · cases h
    · rename_i ownerAlias _
      rw [joinAliases]
      -- an entry is given to the aliases, which the later joins refer to
      have hentry : ∀ {rest : List String} {entry : TypeIndex × String} {name : String},
          entry ∈ aliases ++ [(join.targetType, name)] ∨ entry.2 ∈ rest →
            entry ∈ aliases ∨ entry.2 ∈ name :: rest := by
        rintro rest entry name (hmem | hmem)
        · obtain hmem | hmem := List.mem_append.mp hmem
          · exact .inl hmem
          · obtain rfl := List.mem_singleton.mp hmem
            exact .inr List.mem_cons_self
        · exact .inr (List.mem_cons_of_mem _ hmem)
      have haliased : ∀ table name condition : String, Introduces dialect.quoteIdentifier
          (joinKeyword join.kind ++ dialect.quoteIdentifier table ++ " AS " ++
            dialect.quoteIdentifier name ++ condition) [name] := fun table name condition =>
        .aliased (joinKeyword join.kind ++ dialect.quoteIdentifier table) name condition
      cases hpivot : join.pivot with
      | none =>
        rw [hpivot] at h
        obtain ⟨⟨rest, aliases₁⟩, hrest, h⟩ := except_bind_eq_ok h
        obtain ⟨rfl, rfl⟩ := Prod.mk.inj (Except.ok.inj h)
        obtain ⟨hintroduces, haliases⟩ := ih hrest
        refine ⟨?_, fun entry hmem => hentry (haliases entry hmem)⟩
        have htext := (haliased join.targetTable
          (entityAlias rootAlias correlatedScope ++ toString entity)
          (" ON " ++ qcol dialect ownerAlias join.ownerColumn ++ " = " ++
            qcol dialect (entityAlias rootAlias correlatedScope ++ toString entity)
              join.targetColumn)).append hintroduces
        simpa only [entityAlias, pivotAlias, String.append_assoc, List.singleton_append]
          using htext
      | some spec =>
        rw [hpivot] at h
        obtain ⟨⟨rest, aliases₁⟩, hrest, h⟩ := except_bind_eq_ok h
        obtain ⟨rfl, rfl⟩ := Prod.mk.inj (Except.ok.inj h)
        obtain ⟨hintroduces, haliases⟩ := ih hrest
        refine ⟨?_, fun entry hmem =>
          (hentry (haliases entry hmem)).imp_right (List.mem_cons_of_mem _)⟩
        have htext := (haliased spec.table
          (pivotAlias rootAlias correlatedScope ++ toString pivot)
          (" ON " ++ qcol dialect (pivotAlias rootAlias correlatedScope ++ toString pivot)
              spec.rootColumn ++ " = " ++ qcol dialect ownerAlias join.ownerColumn)).append
          ((haliased join.targetTable (entityAlias rootAlias correlatedScope ++ toString entity)
            (" ON " ++ qcol dialect (entityAlias rootAlias correlatedScope ++ toString entity)
                join.targetColumn ++ " = " ++
              qcol dialect (pivotAlias rootAlias correlatedScope ++ toString pivot)
                spec.targetColumn)).append hintroduces)
        simpa only [entityAlias, pivotAlias, String.append_assoc, List.singleton_append]
          using htext

theorem intercalate_empty_cons (text : String) (rest : List String) :
    "".intercalate (text :: rest) = text ++ "".intercalate rest := by
  cases rest with
  | nil => simp
  | cons next rest => rw [String.intercalate_cons_cons, String.append_empty]

/-- The CTE joins introduce the names of the CTEs. -/
theorem compileCteJoins_introduces {ctx : CompileContext} {joins : List CteJoinSpec}
    {sql : String} (h : compileCteJoins ctx joins = .ok sql) :
    Introduces ctx.dialect.quoteIdentifier sql (joins.map (·.cteName)) := by
  obtain ⟨clauses, hclauses, hsql⟩ := except_bind_eq_ok h
  obtain rfl := Except.ok.inj hsql
  clear h hsql
  induction joins generalizing clauses with
  | nil =>
    obtain rfl := Except.ok.inj hclauses
    exact .empty
  | cons join joins ih =>
    rw [List.mapM_cons] at hclauses
    obtain ⟨clause, hclause, hclauses⟩ := except_bind_eq_ok hclauses
    obtain ⟨rest, hrest, hclauses⟩ := except_bind_eq_ok hclauses
    obtain rfl := Except.ok.inj hclauses
    obtain ⟨column, -, hclause⟩ := except_bind_eq_ok hclause
    obtain rfl := Except.ok.inj hclause
    have htext := (@Introduces.cte ctx.dialect.quoteIdentifier (joinKeyword join.kind)
      join.cteName (column ++ " = " ++ qcol ctx.dialect join.cteName join.cteColumn)).append
      (ih rest hrest)
    rw [intercalate_empty_cons, List.map_cons]
    simpa only [String.append_assoc, List.singleton_append] using htext

/-- The root of a FROM list, under its alias if it has one. -/
theorem compileFromSource_introduces {dialect : Dialect} {query : SelectQuery V}
    {hasExtraWhere : Bool} {override : String} {params params' : List V} {sql : Sql V}
    (h : compileFromSource dialect query (rootAliasOf query hasExtraWhere override)
      query.derivedSource params = .ok (sql, params')) :
    Introduces dialect.quoteIdentifier sql.render
      (if rootAliasOf query hasExtraWhere override = "" && query.derivedSource.isNone then []
        else [rootAliasOf query hasExtraWhere override]) := by
  have hroot : ∀ derived, query.derivedSource = some derived →
      (if rootAliasOf query hasExtraWhere override = "" then derived.aliasName
        else rootAliasOf query hasExtraWhere override) =
        rootAliasOf query hasExtraWhere override := by
    intro derived hderived
    split
    · rename_i hempty
      unfold rootAliasOf at hempty ⊢
      rw [hderived] at hempty ⊢
      split at hempty
      · rename_i hoverride
        exact absurd hempty hoverride
      · rename_i hoverride
        rw [if_neg hoverride]
    · rfl
  generalize rootAliasOf query hasExtraWhere override = rootAlias at h hroot ⊢
  generalize query.derivedSource = source at h hroot ⊢
  cases source with
  | none =>
    unfold compileFromSource at h
    cases h
    by_cases hempty : rootAlias = ""
    · rw [if_pos hempty, if_pos (by simp [hempty]), Sql.render_append, Sql.render_chars,
        Sql.render_chars, String.append_empty]
      exact .table _
    · rw [if_neg hempty, if_neg (by simp [hempty]), Sql.render_append, Sql.render_chars,
        Sql.render_chars]
      have htext := @Introduces.aliased dialect.quoteIdentifier (dialect.quoteIdentifier
        (query.fromName.getD query.root.table)) rootAlias ""
      rwa [String.append_empty, String.append_assoc] at htext
  | some derived =>
    obtain ⟨aliasName, body⟩ := derived
    unfold compileFromSource at h
    obtain ⟨inner, _, -, h⟩ := run_bind_ok h
    cases h
    rw [hroot _ rfl, if_neg (by simp)]
    simp only [Sql.render_append, Sql.render_chars]
    have hclose : ") AS " = ")" ++ " AS " := rfl
    have htext := @Introduces.aliased dialect.quoteIdentifier ("(" ++ inner.render ++ ")")
      rootAlias ""
    rw [hclose, ← String.append_assoc]
    rwa [String.append_empty] at htext

theorem render_of_isEmpty {sql : Sql V} (h : sql.isEmpty = true) : sql.render = "" := by
  induction sql with
  | nil => rfl
  | cons piece sql ih =>
    have hpieces := List.all_eq_true.mp h
    have hrest := ih (List.all_eq_true.mpr fun other hother =>
      hpieces other (List.mem_cons_of_mem _ hother))
    have hpiece := hpieces piece List.mem_cons_self
    cases piece with
    | chars text =>
      have hrender : Sql.render (.chars text :: sql) = text ++ Sql.render sql := rfl
      rw [hrender, hrest, String.isEmpty_iff.mp hpiece]
      rfl
    | hole placeholder literal => cases hpiece

theorem within_whereClause (whereSql : Option (Sql V)) (extra : Sql V) :
    Within extra.render (whereClause whereSql (some extra)).render := by
  cases whereSql with
  | none =>
    unfold whereClause
    simp only [Sql.render_append, Sql.render_chars]
    exact (Within.refl _).left _
  | some sql =>
    unfold whereClause
    simp only [Sql.render_append, Sql.render_chars]
    exact ((Within.refl _).left _).right _

/-- What an extra condition compiles to has the texts of its blocks. -/
def Provides (quote : String → String) (rootAlias : String) (condition : Correlation) :
    Option (ExtraWhereCompiler V) → Prop
  | none => condition.inner = []
  | some extra => ∀ dialect out, dialect.quoteIdentifier = quote →
    extra dialect rootAlias = .ok out → Inside quote condition.inner out.sql.render

theorem compileExtraWhere_inside {dialect : Dialect} {rootAlias : String} {condition : Correlation}
    {extra : Option (ExtraWhereCompiler V)} {params params' : List V} {extraSql : Option (Sql V)}
    (hextra : Provides dialect.quoteIdentifier rootAlias condition extra)
    (h : compileExtraWhere dialect rootAlias extra params = .ok (extraSql, params'))
    {whole : String} (hwhole : ∀ sql, extraSql = some sql → Within sql.render whole) :
    Inside dialect.quoteIdentifier condition.inner whole := by
  cases extra with
  | none =>
    have hnone : condition.inner = [] := hextra
    rw [hnone]
    exact .nil
  | some f =>
    obtain ⟨_, _, hg, h⟩ := run_bind_ok h
    cases hg
    obtain ⟨out, _, hc, h⟩ := run_bind_ok h
    have hinside := hextra (offsetPlaceholders dialect _) out rfl (run_lift_ok hc).1
    split at h
    · -- an empty text is left out
      rename_i hempty
      rw [render_of_isEmpty hempty] at hinside
      exact hinside.within (.empty _)
    · cases h
      exact hinside.within (hwhole _ rfl)

theorem within_join {separator : String} {parts : List (Sql V)} {sql : Sql V} (h : sql ∈ parts) :
    Within sql.render (Sql.join separator parts).render := by
  induction parts with
  | nil => cases h
  | cons first parts ih =>
    cases parts with
    | nil =>
      obtain rfl := List.mem_singleton.mp h
      exact .refl _
    | cons next parts =>
      have hjoin : (Sql.join separator (first :: next :: parts)).render =
          first.render ++ (separator ++ (Sql.join separator (next :: parts)).render) := by
        simp only [Sql.join, Sql.render_append, Sql.render_chars]
      rw [hjoin]
      obtain rfl | h := List.mem_cons.mp h
      · exact (Within.refl _).right _
      · exact ((ih h).left _).left _

/-- The text of a query around its FROM list: CTEs stand in front of it, the extra condition and the
    set operations behind it. -/
theorem assembleQuery_text {query : SelectQuery V} {dialect : Dialect} {terminate : Bool}
    {extra : Option (ExtraWhereCompiler V)} {override : String} {parts : QueryParts V}
    {out : CompiledQuery V} (h : assembleQuery query dialect terminate extra override parts = .ok out) :
    ∃ (cteTexts : List (Sql V)) (joinSql cteJoinSql : String) (aliases : List (TypeIndex × String))
      (source setSql : Sql V) (extraSql : Option (Sql V)) (before after : String),
      (∃ params params', parts.ctes params = .ok (cteTexts, params')) ∧
      compileJoins dialect (rootAliasOf query extra.isSome override) (override ≠ "") query.joins 1 0
        [(query.root.type, rootAliasOf query extra.isSome override)] = .ok (joinSql, aliases) ∧
      compileCteJoins { dialect, aliases } query.cteJoins = .ok cteJoinSql ∧
      (∃ params params', parts.source (rootAliasOf query extra.isSome override) params =
        .ok (source, params')) ∧
      (∃ params params', compileExtraWhere dialect (rootAliasOf query extra.isSome override) extra
        params = .ok (extraSql, params')) ∧
      (∃ params params', parts.setOperations params = .ok (setSql, params')) ∧
      (query.ctes ≠ [] → ∀ sql ∈ cteTexts, Within sql.render before) ∧
      (∀ sql, extraSql = some sql → Within sql.render after) ∧ Within setSql.render after ∧
      out.sql.render = before ++ " FROM " ++ (source.render ++ joinSql ++ cteJoinSql) ++ after := by
  obtain ⟨⟨sql, params⟩, hrun, hout⟩ := except_bind_eq_ok h
  cases hout
  obtain ⟨cteTexts, _, hctes, h⟩ := run_bind_ok hrun
  obtain ⟨⟨joinSql, aliases⟩, _, hjoins, h⟩ := run_bind_ok h
  obtain ⟨cteJoinSql, _, hcteJoins, h⟩ := run_bind_ok h
  obtain ⟨projectionTexts, _, -, h⟩ := run_bind_ok h
  obtain ⟨source, _, hsource, h⟩ := run_bind_ok h
  obtain ⟨whereSql, _, -, h⟩ := run_bind_ok h
  obtain ⟨extraSql, _, hextra, h⟩ := run_bind_ok h
  obtain ⟨groupSql, _, -, h⟩ := run_bind_ok h
  obtain ⟨havingSql, _, -, h⟩ := run_bind_ok h
  obtain ⟨setSql, _, hset, h⟩ := run_bind_ok h
  obtain ⟨tail, _, -, h⟩ := run_bind_ok h
  have hsql := (Prod.mk.inj (Except.ok.inj h)).1
  rw [← hsql]
  clear h hsql hrun
  generalize hwith : (if query.ctes.isEmpty then Sql.empty else _ : Sql V) = withSql
  generalize (if query.projections.isEmpty then _ else _ : Sql V) = projectionSql
  have hbefore : query.ctes ≠ [] → ∀ sql ∈ cteTexts, Within sql.render (withSql.render ++
      "SELECT " ++ (if query.distinct then "DISTINCT " else "") ++ projectionSql.render) := by
    intro hne sql hsql
    rw [if_neg (by simpa using hne)] at hwith
    subst hwith
    simp only [Sql.render_append, Sql.render_chars]
    exact (((((within_join hsql).left _).right _).right _).right _).right _
  have hafter : ∀ sql, extraSql = some sql → Within sql.render
      ((whereClause whereSql extraSql).render ++ groupSql ++ (havingClause havingSql).render ++
        setSql.render ++ tail) := by
    rintro sql rfl
    exact ((((within_whereClause whereSql sql).right _).right _).right _).right _
  refine ⟨cteTexts, joinSql, cteJoinSql, aliases, source, setSql, extraSql, _, _,
    ⟨_, _, hctes⟩, (run_lift_ok hjoins).1, (run_lift_ok hcteJoins).1, ⟨_, _, hsource⟩,
    ⟨_, _, hextra⟩, ⟨_, _, hset⟩, hbefore, hafter, ((Within.refl _).left _).right _, ?_⟩
  simp only [Sql.render_append, Sql.render_chars, String.append_assoc]

theorem assembleQuery_written {query : SelectQuery V} {dialect : Dialect} {terminate : Bool}
    {extra : Option (ExtraWhereCompiler V)} {override : String} {parts : QueryParts V}
    {out : CompiledQuery V} {condition : Correlation}
    (hsource : ∀ params sql params',
      parts.source (rootAliasOf query extra.isSome override) params = .ok (sql, params') →
        compileFromSource dialect query (rootAliasOf query extra.isSome override)
          query.derivedSource params = .ok (sql, params'))
    (hextra : Provides dialect.quoteIdentifier (rootAliasOf query extra.isSome override) condition
      extra)
    (h : assembleQuery query dialect terminate extra override parts = .ok out) :
    Written dialect.quoteIdentifier (query.block extra.isSome override condition)
      out.sql.render := by
  obtain ⟨cteTexts, joinSql, cteJoinSql, aliases, source, setSql, extraSql, before, after, -, hjoins,
    hcteJoins, ⟨_, _, hroot⟩, ⟨_, _, hextraSql⟩, -, -, hafter, -, htext⟩ := assembleQuery_text h
  have hfrom : Introduces dialect.quoteIdentifier (source.render ++ joinSql ++ cteJoinSql)
      (query.fromNames extra.isSome override) :=
    ((compileFromSource_introduces (hsource _ _ _ hroot)).append
      (compileJoins_introduces hjoins).1).append (compileCteJoins_introduces hcteJoins)
  rw [htext]
  exact .of_inside before hfrom (compileExtraWhere_inside hextra hextraSql hafter)

theorem compileImpl_written {query : SelectQuery V} {dialect : Dialect} {terminate : Bool}
    {extra : Option (ExtraWhereCompiler V)} {override : String} {out : CompiledQuery V}
    {condition : Correlation}
    (hextra : Provides dialect.quoteIdentifier (rootAliasOf query extra.isSome override) condition
      extra)
    (h : compileImpl query dialect terminate extra override = .ok out) :
    Written dialect.quoteIdentifier (query.block extra.isSome override condition)
      out.sql.render := by
  cases query
  unfold compileImpl at h
  exact assembleQuery_written (fun _ _ _ hsource => hsource) hextra h

theorem compileImpl_written_some {query : SelectQuery V} {dialect : Dialect} {terminate : Bool}
    {extra : ExtraWhereCompiler V} {override : String} {out : CompiledQuery V}
    {condition : Correlation}
    (hextra : Provides dialect.quoteIdentifier (rootAliasOf query true override) condition
      (some extra))
    (h : compileImpl query dialect terminate (some extra) override = .ok out) :
    Written dialect.quoteIdentifier (query.block true override condition) out.sql.render :=
  compileImpl_written hextra h

/-! ## The text of relation filters -/

/-- The texts of blocks stand in one of the texts. -/
def Among (quote : String → String) (inner : List (Block String)) (texts : List (Sql V)) : Prop :=
  ∀ block ∈ inner, ∃ text, Written quote block text ∧ ∃ sql ∈ texts, Within text sql.render

theorem Among.inside {quote : String → String} {inner : List (Block String)} {texts : List (Sql V)}
    {whole : String} (h : Among quote inner texts)
    (hwhole : ∀ sql ∈ texts, Within sql.render whole) : Inside quote inner whole := by
  intro block hblock
  obtain ⟨text, hwritten, sql, hsql, hwithin⟩ := h block hblock
  exact ⟨text, hwritten, hwithin.trans (hwhole sql hsql)⟩

theorem Among.cons {quote : String → String} {inner inner' : List (Block String)} {sql : Sql V}
    {texts : List (Sql V)} (h : Inside quote inner sql.render) (h' : Among quote inner' texts) :
    Among quote (inner ++ inner') (sql :: texts) := by
  intro block hblock
  obtain hblock | hblock := List.mem_append.mp hblock
  · obtain ⟨text, hwritten, hwithin⟩ := h block hblock
    exact ⟨text, hwritten, sql, List.mem_cons_self, hwithin⟩
  · obtain ⟨text, hwritten, other, hother, hwithin⟩ := h' block hblock
    exact ⟨text, hwritten, other, List.mem_cons_of_mem _ hother, hwithin⟩

theorem run_nest_ok {dialect : Dialect} {compile : Dialect → Except Exn (CompiledQuery V)}
    {params params' : List V} {sql : Sql V} (h : nest dialect compile params = .ok (sql, params')) :
    ∃ offset out, compile (offsetPlaceholders dialect offset) = .ok out ∧ out.sql = sql := by
  obtain ⟨_, _, hg, h⟩ := run_bind_ok h
  cases hg
  obtain ⟨out, _, hout, h⟩ := run_bind_ok h
  cases h
  exact ⟨_, out, (run_lift_ok hout).1, rfl⟩

theorem rootAliasOf_override {override : String} (h : override ≠ "") (query : SelectQuery V)
    (hasExtraWhere : Bool) : rootAliasOf query hasExtraWhere override = override := if_pos h

theorem ne_empty_of_suffix (start suffix : String) (h : suffix.length ≠ 0) :
    start ++ suffix ≠ "" := by
  intro heq
  have hlength := congrArg String.length heq
  rw [String.length_append] at hlength
  have : "".length = 0 := rfl
  omega

theorem within_joinPredicates {predicates : List (Sql V)} {sql : Sql V} (h : sql ∈ predicates) :
    Within sql.render (joinPredicates predicates).render := by
  refine Within.trans ?_ (within_join (List.mem_map_of_mem h))
  simp only [Sql.render_append, Sql.render_chars]
  exact ((Within.refl _).left _).right _

/-- The correlation of a pivot has a SELECT of its own. -/
theorem correlation_provides (relation : RelationInfo V) (quote : String → String)
    (childAlias outerAlias : String) :
    Provides quote childAlias (relationCorrelation relation childAlias outerAlias)
      (some fun dialect childAlias =>
        compileRelationCorrelation relation dialect childAlias outerAlias) := by
  rintro dialect out rfl hout
  unfold compileRelationCorrelation at hout
  unfold relationCorrelation
  split
  · rename_i pivot pivotRootKey pivotTargetKey localKey targetKey hcolumns
    rw [hcolumns] at hout
    obtain rfl := Except.ok.inj hout
    simp only [Sql.render_append, Sql.render_chars]
    have hopen : "EXISTS (SELECT 1 FROM " = "EXISTS (" ++ ("SELECT 1" ++ " FROM ") := rfl
    have hsource := @Introduces.aliased dialect.quoteIdentifier (dialect.quoteIdentifier pivot)
      (childAlias ++ "_pivot") (" WHERE " ++ qcol dialect (childAlias ++ "_pivot") pivotTargetKey ++
        " = " ++ qcol dialect childAlias targetKey ++ " AND " ++
        qcol dialect (childAlias ++ "_pivot") pivotRootKey ++ " = " ++
        qcol dialect outerAlias localKey)
    have hwritten : ∀ references, Written dialect.quoteIdentifier
        (.mk [childAlias ++ "_pivot"] references []) ("SELECT 1" ++ " FROM " ++ _ ++ "") :=
      fun references => .of_inside "SELECT 1" hsource .nil
    refine .singleton (hwritten _) ⟨"EXISTS (", ")", ?_⟩
    rw [hopen]
    simp only [String.append_assoc, String.append_empty]
  · exact .nil

theorem sameRow_provides (relation : RelationInfo V) (quote : String → String)
    (rootAlias predicateAlias childAlias : String) :
    Provides quote rootAlias (sameRowCorrelation predicateAlias childAlias)
      (some (sameRow relation childAlias)) := fun _ _ _ _ => .nil

mutual

/-- The blocks of a query are those of its text. -/
theorem CorrelatedQuery.compileWith_written {dialect : Dialect}
    {extra : Option (ExtraWhereCompiler V)} {condition : Option Correlation} {override : String}
    {out : CompiledQuery V} (hsome : extra.isSome = condition.isSome)
    (hextra : ∀ rootAlias, (override ≠ "" → rootAlias = override) →
      Provides dialect.quoteIdentifier rootAlias (condition.getD {}) extra) :
    (query : CorrelatedQuery V) → query.compileWith dialect extra override = .ok out →
      Written dialect.quoteIdentifier (query.block condition override) out.sql.render
  | .basic query, h => by
    unfold CorrelatedQuery.compileWith at h
    unfold CorrelatedQuery.block
    rw [← hsome]
    exact compileImpl_written (hextra _ fun hoverride => if_pos hoverride) h
  | .filtered base filters, h => by
    unfold CorrelatedQuery.compileWith at h
    unfold CorrelatedQuery.block
    refine compileImpl_written_some ?_ h
    intro dialect' out' hquote hout
    obtain ⟨⟨sql, params⟩, hrun, hout⟩ := except_bind_eq_ok hout
    cases hout
    obtain ⟨predicates, _, hpredicates, hrun⟩ := run_bind_ok hrun
    obtain ⟨extraSql, _, hextraSql, hrun⟩ := run_bind_ok hrun
    cases hrun
    rw [← hquote] at hextra ⊢
    refine .append ?_ ?_
    · exact (compileFilters_written filters hpredicates).inside fun part hpart =>
        within_joinPredicates (List.mem_append_left _ hpart)
    · refine compileExtraWhere_inside (hextra _ fun hoverride => if_pos hoverride) hextraSql
        fun part hpart => within_joinPredicates (List.mem_append_right _ ?_)
      rw [hpart]
      exact List.mem_cons_self
termination_by query => sizeOf query

theorem compileFilters_written {dialect : Dialect} {rootAlias : String} {params params' : List V}
    {texts : List (Sql V)} : (filters : List (RelationFilter V)) →
      compileFilters dialect rootAlias filters params = .ok (texts, params') →
        Among dialect.quoteIdentifier (filterBlocks rootAlias filters) texts
  | [], _ => by
    unfold filterBlocks
    exact nofun
  | filter :: filters, h => by
    unfold compileFilters at h
    unfold filterBlocks
    obtain ⟨sql, _, hsql, h⟩ := run_bind_ok h
    obtain ⟨rest, _, hrest, h⟩ := run_bind_ok h
    cases h
    obtain ⟨offset, out, hout, rfl⟩ := run_nest_ok hsql
    have hwritten := filter.compileExists_written hout
    change Written dialect.quoteIdentifier _ _ at hwritten
    refine .cons (.singleton hwritten ?_) (compileFilters_written filters hrest)
    simp only [Sql.render_append, Sql.render_chars]
    exact ((Within.refl _).left _).right _
termination_by filters => sizeOf filters

theorem RelationFilter.compileExists_written {dialect : Dialect} {outerAlias : String}
    {out : CompiledQuery V} : (filter : RelationFilter V) →
      filter.compileExists dialect outerAlias = .ok out →
        Written dialect.quoteIdentifier (filter.block outerAlias) out.sql.render
  | .related relation child negated, h => by
    unfold RelationFilter.compileExists at h
    unfold RelationFilter.block
    refine child.compileWith_written rfl (fun rootAlias hrootAlias => ?_) h
    rw [hrootAlias (ne_empty_of_suffix outerAlias "_rel" (by decide))]
    exact correlation_provides relation _ _ outerAlias
  | .every relation predicate, h => by
    have hchild := ne_empty_of_suffix outerAlias "_rel" (by decide)
    unfold RelationFilter.compileExists at h
    unfold RelationFilter.block
    refine compileImpl_written_some ?_ h
    rw [rootAliasOf_override hchild]
    intro dialect' out' hquote hout
    obtain ⟨correlation, hcorrelation, hout⟩ := except_bind_eq_ok hout
    obtain ⟨matching, hmatching, hout⟩ := except_bind_eq_ok hout
    obtain rfl := Except.ok.inj hout
    have hsameRow : ∀ rootAlias, (outerAlias ++ "_rel" ++ "_every" ≠ "" → rootAlias =
        outerAlias ++ "_rel" ++ "_every") → Provides dialect'.quoteIdentifier rootAlias
          ((some (sameRowCorrelation (outerAlias ++ "_rel" ++ "_every") (outerAlias ++ "_rel"))).getD
            {}) (some (sameRow relation (outerAlias ++ "_rel"))) :=
      fun rootAlias _ => sameRow_provides relation _ rootAlias _ _
    have hpredicate := predicate.compileWith_written rfl hsameRow hmatching
    have hinside := correlation_provides relation _ _ outerAlias dialect' correlation rfl hcorrelation
    rw [hquote] at hpredicate hinside
    simp only [Sql.render_append, Sql.render_chars]
    exact (hinside.within (((Within.refl _).right _).right _ |>.right _)).append
      (.singleton hpredicate (((Within.refl _).left _).right _))
termination_by filter => sizeOf filter

end

/-! ## The text of the queries inside -/

/-- The blocks of queries that are compiled on their own. -/
def bodyBlocks (bodies : List (SelectQuery V)) : List (Block String) :=
  bodies.map (·.block false "" {})

theorem bodyBlocks_append (bodies bodies' : List (SelectQuery V)) :
    bodyBlocks (bodies ++ bodies') = bodyBlocks bodies ++ bodyBlocks bodies' := List.map_append

/-- A query that is compiled on its own, with the queries in it. -/
theorem body_inside {query : SelectQuery V} {dialect : Dialect} {out : CompiledQuery V}
    (h : compileImpl query dialect false none "" = .ok out)
    (hbodies : Inside dialect.quoteIdentifier (bodyBlocks query.bodies) out.sql.render) :
    Inside dialect.quoteIdentifier (bodyBlocks (query :: query.bodies)) out.sql.render := by
  have hextra : Provides dialect.quoteIdentifier (rootAliasOf query false "") {}
      (none : Option (ExtraWhereCompiler V)) := rfl
  have hquery := Inside.singleton (compileImpl_written hextra h) (Within.refl _)
  exact hquery.append hbodies

mutual

/-- The queries in a query have their texts in its text. -/
theorem compileImpl_bodies {dialect : Dialect} {terminate : Bool}
    {extra : Option (ExtraWhereCompiler V)} {override : String} {out : CompiledQuery V} :
    (query : SelectQuery V) → compileImpl query dialect terminate extra override = .ok out →
      Inside dialect.quoteIdentifier (bodyBlocks query.bodies) out.sql.render
  | { root, distinct, projections, joins, cteJoins, where_, groupBy, having, orderBy, limit, offset,
      fromName, derivedSource, ctes, setOperations }, h => by
    unfold compileImpl at h
    obtain ⟨cteTexts, joinSql, cteJoinSql, aliases, source, setSql, extraSql, before, after,
      ⟨_, _, hctes⟩, -, -, ⟨_, _, hsource⟩, -, ⟨_, _, hset⟩, hbefore, -, hafter, htext⟩ :=
      assembleQuery_text h
    have hcteBodies := compileCtes_bodies ctes hctes
    have hsourceBodies := compileFromSource_bodies derivedSource hsource
    have hsetBodies := compileSetOperations_bodies setOperations hset
    unfold SelectQuery.bodies
    rw [htext, bodyBlocks_append, bodyBlocks_append]
    refine .append ?_ (.append ?_ ?_)
    · by_cases hnil : ctes = []
      · subst hnil
        exact .nil
      · exact hcteBodies.inside fun sql hsql => (((hbefore hnil sql hsql).right _).right _).right _
    · exact hsourceBodies.within (((((Within.refl _).right _).right _).left _).right _)
    · exact hsetBodies.within (hafter.left _)
termination_by query => sizeOf query

theorem compileCtes_bodies {dialect : Dialect} {params params' : List V} {texts : List (Sql V)} :
    (ctes : List (CteSpec V)) → compileCtes dialect ctes params = .ok (texts, params') →
      Among dialect.quoteIdentifier (bodyBlocks (cteBodies ctes)) texts
  | [], _ => by
    unfold cteBodies
    exact nofun
  | { name, columns, recursive, query } :: ctes, h => by
    unfold compileCtes at h
    obtain ⟨sql, _, hsql, h⟩ := run_bind_ok h
    obtain ⟨rest, _, hrest, h⟩ := run_bind_ok h
    cases h
    obtain ⟨offset, out, hout, rfl⟩ := run_nest_ok hsql
    have hquery := body_inside hout (compileImpl_bodies query hout)
    unfold cteBodies
    rw [← List.cons_append, bodyBlocks_append]
    refine .cons (hquery.within ?_) (compileCtes_bodies ctes hrest)
    simp only [Sql.render_append, Sql.render_chars]
    exact ((Within.refl _).left _).right _
termination_by ctes => sizeOf ctes

theorem compileFromSource_bodies {dialect : Dialect} {query : SelectQuery V} {rootAlias : String}
    {params params' : List V} {sql : Sql V} : (source : Option (DerivedSourceSpec V)) →
      compileFromSource dialect query rootAlias source params = .ok (sql, params') →
        Inside dialect.quoteIdentifier (bodyBlocks (sourceBodies source)) sql.render
  | none, _ => by
    unfold sourceBodies
    exact .nil
  | some { aliasName, query := body }, h => by
    unfold compileFromSource at h
    obtain ⟨inner, _, hinner, h⟩ := run_bind_ok h
    cases h
    obtain ⟨offset, out, hout, rfl⟩ := run_nest_ok hinner
    unfold sourceBodies
    refine (body_inside hout (compileImpl_bodies body hout)).within ?_
    simp only [Sql.render_append, Sql.render_chars]
    exact (((Within.refl _).left _).right _).right _
termination_by source => sizeOf source

theorem compileSetOperations_bodies {dialect : Dialect} {params params' : List V} {sql : Sql V} :
    (operations : List (SetOperationSpec V)) →
      compileSetOperations dialect operations params = .ok (sql, params') →
        Inside dialect.quoteIdentifier (bodyBlocks (setBodies operations)) sql.render
  | [], _ => by
    unfold setBodies
    exact .nil
  | { kind, query } :: operations, h => by
    unfold compileSetOperations at h
    obtain ⟨inner, _, hinner, h⟩ := run_bind_ok h
    obtain ⟨rest, _, hrest, h⟩ := run_bind_ok h
    cases h
    obtain ⟨offset, out, hout, rfl⟩ := run_nest_ok hinner
    have hquery := body_inside hout (compileImpl_bodies query hout)
    have hoperations := compileSetOperations_bodies operations hrest
    unfold setBodies
    rw [← List.cons_append, bodyBlocks_append]
    simp only [Sql.render_append, Sql.render_chars]
    exact (hquery.within (((Within.refl _).left _).right _)).append
      (hoperations.within ((Within.refl _).left _))
termination_by operations => sizeOf operations

end

theorem compileImpl_extra_inside {query : SelectQuery V} {dialect : Dialect} {terminate : Bool}
    {extra : Option (ExtraWhereCompiler V)} {override : String} {out : CompiledQuery V}
    {blocks : List (Block String)}
    (hextra : Provides dialect.quoteIdentifier (rootAliasOf query extra.isSome override)
      { inner := blocks } extra)
    (h : compileImpl query dialect terminate extra override = .ok out) :
    Inside dialect.quoteIdentifier blocks out.sql.render := by
  cases query
  unfold compileImpl at h
  obtain ⟨_, _, _, _, _, _, _, _, _, -, -, -, -, ⟨_, _, hextraSql⟩, -, -, hafter, -, htext⟩ :=
    assembleQuery_text h
  have hinside := compileExtraWhere_inside hextra hextraSql hafter
  rw [htext]
  exact hinside.within ((Within.refl _).left _)

mutual

theorem CorrelatedQuery.compileWith_bodies {dialect : Dialect}
    {extra : Option (ExtraWhereCompiler V)} {override : String} {out : CompiledQuery V} :
    (query : CorrelatedQuery V) → query.compileWith dialect extra override = .ok out →
      Inside dialect.quoteIdentifier (bodyBlocks query.bodies) out.sql.render
  | .basic query, h => by
    unfold CorrelatedQuery.compileWith at h
    unfold CorrelatedQuery.bodies
    exact compileImpl_bodies query h
  | .filtered base filters, h => by
    unfold CorrelatedQuery.compileWith at h
    unfold CorrelatedQuery.bodies
    rw [bodyBlocks_append]
    refine .append (compileImpl_bodies base h) (compileImpl_extra_inside ?_ h)
    rintro dialect' out' hquote hout
    obtain ⟨⟨sql, params⟩, hrun, hout⟩ := except_bind_eq_ok hout
    cases hout
    obtain ⟨predicates, _, hpredicates, hrun⟩ := run_bind_ok hrun
    obtain ⟨extraSql, _, hextraSql, hrun⟩ := run_bind_ok hrun
    cases hrun
    rw [← hquote]
    exact (compileFilters_bodies filters hpredicates).inside fun part hpart =>
      within_joinPredicates (List.mem_append_left _ hpart)
termination_by query => sizeOf query

theorem compileFilters_bodies {dialect : Dialect} {rootAlias : String} {params params' : List V}
    {texts : List (Sql V)} : (filters : List (RelationFilter V)) →
      compileFilters dialect rootAlias filters params = .ok (texts, params') →
        Among dialect.quoteIdentifier (bodyBlocks (filterBodies filters)) texts
  | [], _ => by
    unfold filterBodies
    exact nofun
  | filter :: filters, h => by
    unfold compileFilters at h
    unfold filterBodies
    obtain ⟨sql, _, hsql, h⟩ := run_bind_ok h
    obtain ⟨rest, _, hrest, h⟩ := run_bind_ok h
    cases h
    obtain ⟨offset, out, hout, rfl⟩ := run_nest_ok hsql
    have hbodies := filter.compileExists_bodies hout
    change Inside dialect.quoteIdentifier _ _ at hbodies
    rw [bodyBlocks_append]
    refine .cons (hbodies.within ?_) (compileFilters_bodies filters hrest)
    simp only [Sql.render_append, Sql.render_chars]
    exact ((Within.refl _).left _).right _
termination_by filters => sizeOf filters

theorem RelationFilter.compileExists_bodies {dialect : Dialect} {outerAlias : String}
    {out : CompiledQuery V} : (filter : RelationFilter V) →
      filter.compileExists dialect outerAlias = .ok out →
        Inside dialect.quoteIdentifier (bodyBlocks filter.bodies) out.sql.render
  | .related relation child negated, h => by
    unfold RelationFilter.compileExists at h
    unfold RelationFilter.bodies
    exact child.compileWith_bodies h
  | .every relation predicate, h => by
    unfold RelationFilter.compileExists at h
    unfold RelationFilter.bodies
    refine compileImpl_extra_inside ?_ h
    intro dialect' out' hquote hout
    obtain ⟨correlation, hcorrelation, hout⟩ := except_bind_eq_ok hout
    obtain ⟨matching, hmatching, hout⟩ := except_bind_eq_ok hout
    obtain rfl := Except.ok.inj hout
    have hpredicate := predicate.compileWith_bodies hmatching
    rw [hquote] at hpredicate
    simp only [Sql.render_append, Sql.render_chars]
    exact hpredicate.within (((Within.refl _).left _).right _)
termination_by filter => sizeOf filter

end

/-- The blocks of a query are SELECTs of the text that is sent to the database. -/
theorem CorrelatedQuery.compile_written {query : CorrelatedQuery V} {dialect : Dialect}
    {out : CompiledQuery V} (h : query.compile dialect = .ok out) :
    Inside dialect.quoteIdentifier query.blocks out.sql.render := by
  cases query with
  | basic query =>
    have hextra : Provides dialect.quoteIdentifier (rootAliasOf query false "") {}
        (none : Option (ExtraWhereCompiler V)) := rfl
    have hquery := Inside.singleton (compileImpl_written hextra h) (Within.refl _)
    exact hquery.append (compileImpl_bodies query h)
  | filtered base filters =>
    obtain ⟨out', hout', hout⟩ := except_bind_eq_ok h
    cases hout
    have hextra : ∀ rootAlias, ("" ≠ "" → rootAlias = "") → Provides dialect.quoteIdentifier
        rootAlias ((none : Option Correlation).getD {}) (none : Option (ExtraWhereCompiler V)) :=
      fun _ _ => rfl
    have hquery := Inside.singleton (CorrelatedQuery.compileWith_written rfl hextra _ hout')
      (Within.refl _)
    have hinside := hquery.append (CorrelatedQuery.compileWith_bodies _ hout')
    simp only [Sql.render_append, Sql.render_chars]
    exact hinside.within ((Within.refl _).right _)

/-- A column carries the alias of an entry of the FROM list, or none if there is only one. -/
theorem compileColumn_qualified {query : SelectQuery V} {hasExtraWhere : Bool} {override : String}
    {dialect : Dialect} {aliases : List (TypeIndex × String)} {joinSql text : String}
    {column : ColumnRef}
    (hjoins : compileJoins dialect (rootAliasOf query hasExtraWhere override) (override ≠ "")
      query.joins 1 0 [(query.root.type, rootAliasOf query hasExtraWhere override)] =
        .ok (joinSql, aliases))
    (h : compileColumn { dialect, aliases } column = .ok text) :
    text = dialect.quoteIdentifier column.column ∨
      ∃ name ∈ query.fromNames hasExtraWhere override, text = qcol dialect name column.column := by
  obtain ⟨aliasName, halias, h⟩ := except_bind_eq_ok h
  unfold aliasFor at halias
  split at halias
  · rename_i found hlookup
    obtain rfl := Except.ok.inj halias
    split at h
    · exact .inl (Except.ok.inj h).symm
    · rename_i hne
      refine .inr ⟨found, ?_, (Except.ok.inj h).symm⟩
      obtain ⟨front, back, haliases, -⟩ := List.lookup_eq_some_iff.mp hlookup
      change aliases = _ at haliases
      have hentry : (column.owner, found) ∈ aliases := by
        rw [haliases]
        exact List.mem_append_right _ List.mem_cons_self
      unfold SelectQuery.fromNames
      obtain hroot | hjoined := (compileJoins_introduces hjoins).2 _ hentry
      · obtain ⟨-, rfl⟩ := Prod.mk.inj (List.mem_singleton.mp hroot)
        dsimp only
        rw [if_neg (by simpa using fun h => absurd h hne)]
        exact List.mem_append_left _ (List.mem_append_left _ List.mem_cons_self)
      · exact List.mem_append_left _ (List.mem_append_right _ hjoined)
  · cases halias

end MetalOrm.Native.Query
