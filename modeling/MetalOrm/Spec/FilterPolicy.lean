import MetalOrm.Spec.RelationFilterSemantics

/-!
# What filters can read

`apply_where` checks the clauses of an input on `T` against a field policy and a relation
policy, but not those of nested inputs. Two databases that look the same through the allowed
fields and relations select the same roots, unless a relation leads back to `T` and the
nested input there uses what the policy forbids.

## Key results

- `within_formula`: the formula of an input that respects the policy
- `DifferInHidden.indistinguishable`: databases that differ only in what is hidden
- `allowlist_noninterference`: such an input cannot tell indistinguishable databases apart
-/

namespace MetalOrm.Native.Query

open ForStd

/-- The policies of `apply_where` on an entity. -/
structure Policy where
  entity : TypeIndex
  fields : List String
  relations : List String

namespace Policy

/-- A field of `s` that may be read. -/
def AllowsField (policy : Policy) (s : TypeIndex) (field : String) : Prop :=
  s = policy.entity → field ∈ policy.fields

/-- A clause on `s` that reads an allowed field. -/
def AllowsClause (policy : Policy) (s : TypeIndex) (clause : FilterClause) : Prop :=
  policy.AllowsField s clause.field

/-- A step from `s` that may be taken. Looking a row up by its key is always allowed. -/
def AllowsStep (policy : Policy) (s : TypeIndex) : Step → Prop
  | .relation name => s = policy.entity → name ∈ policy.relations
  | .sameKey => True

end Policy

/-! ## Inputs that respect a policy -/

mutual

/-- The clauses of an input on `s`, and of the inputs nested in it, respect the policy. -/
def WhereInput.respects (reflection : Reflection) (policy : Policy) :
    WhereInput → (s : TypeIndex) → Prop
  | { clauses, relations }, s =>
    (∀ clause ∈ clauses, policy.AllowsClause s clause) ∧
      relationsRespect reflection policy relations s

def relationsRespect (reflection : Reflection) (policy : Policy) :
    List RelationFilterClause → (s : TypeIndex) → Prop
  | [], _ => True
  | clause :: clauses, s =>
    policy.AllowsStep s (.relation clause.relation) ∧ clause.nestedRespect reflection policy s ∧
      relationsRespect reflection policy clauses s

/-- The inputs nested in a relation clause on `s` respect the policy. -/
def RelationFilterClause.nestedRespect (reflection : Reflection) (policy : Policy) :
    RelationFilterClause → (s : TypeIndex) → Prop
  | { relation := name, someFilter, everyFilter, noneFilter, isEmpty := _, isNotEmpty := _ }, s =>
    nestedInputRespects reflection policy someFilter (reflection.target s (.relation name)) ∧
      nestedInputRespects reflection policy noneFilter (reflection.target s (.relation name)) ∧
      nestedInputRespects reflection policy everyFilter (reflection.target s (.relation name))

def nestedInputRespects (reflection : Reflection) (policy : Policy) :
    Option WhereInput → (s : TypeIndex) → Prop
  | none, _ => True
  | some input, s => input.respects reflection policy s

end

/-- The formula uses what the policy allows. -/
abbrev RowFormula.Respects (φ : RowFormula) (reflection : Reflection) (policy : Policy)
    (s : TypeIndex) : Prop :=
  φ.Within reflection.target policy.AllowsClause policy.AllowsStep s

variable {reflection : Reflection} {policy : Policy}

theorem respects_formulaOfClauses {clauses : List FilterClause} {s : TypeIndex}
    (h : ∀ clause ∈ clauses, policy.AllowsClause s clause) :
    RowFormula.Respects (formulaOfClauses clauses) reflection policy s := by
  induction clauses with
  | nil => trivial
  | cons clause clauses ih =>
    rw [List.forall_mem_cons] at h
    exact ⟨h.1, ih h.2⟩

theorem respects_emptinessFormula {s : TypeIndex} {step : Step} (h : policy.AllowsStep s step)
    (negated : Option Bool) :
    RowFormula.Respects (emptinessFormula step negated) reflection policy s := by
  cases negated with
  | none => trivial
  | some negated => cases negated <;> exact ⟨h, trivial⟩

mutual

/-- The formula of an input that respects the policy. -/
theorem within_formula : (input : WhereInput) → ∀ {s : TypeIndex},
    input.respects reflection policy s → RowFormula.Respects input.formula reflection policy s
  | { clauses, relations }, s, h => by
    unfold WhereInput.respects at h
    unfold WhereInput.formula
    exact ⟨respects_formulaOfClauses h.1, within_relationsFormula relations h.2⟩

theorem within_relationsFormula : (clauses : List RelationFilterClause) → ∀ {s : TypeIndex},
    relationsRespect reflection policy clauses s →
      RowFormula.Respects (relationsFormula clauses) reflection policy s
  | [], s, h => by
    unfold relationsFormula
    trivial
  | clause :: clauses, s, h => by
    unfold relationsRespect at h
    unfold relationsFormula
    exact ⟨within_clauseFormula clause h.1 h.2.1, within_relationsFormula clauses h.2.2⟩

theorem within_clauseFormula : (clause : RelationFilterClause) → ∀ {s : TypeIndex},
    policy.AllowsStep s (.relation clause.relation) → clause.nestedRespect reflection policy s →
      RowFormula.Respects clause.formula reflection policy s
  | { relation := name, someFilter, everyFilter, noneFilter, isEmpty, isNotEmpty }, s, hstep, h => by
    unfold RelationFilterClause.nestedRespect at h
    unfold RelationFilterClause.formula
    refine ⟨⟨⟨⟨?_, ?_⟩, ?_⟩, respects_emptinessFormula hstep isEmpty⟩,
      respects_emptinessFormula hstep _⟩
    · exact within_nestedFormula someFilter h.1 fun φ hφ => ⟨hstep, hφ⟩
    · exact within_nestedFormula noneFilter h.2.1 fun φ hφ => ⟨hstep, hφ⟩
    · exact within_nestedFormula everyFilter h.2.2 fun φ hφ =>
        ⟨⟨hstep, trivial⟩, hstep, trivial, hφ⟩

theorem within_nestedFormula : (nested : Option WhereInput) → ∀ {s target : TypeIndex}
    {build : RowFormula → RowFormula}, nestedInputRespects reflection policy nested target →
      (∀ φ, RowFormula.Respects φ reflection policy target →
        RowFormula.Respects (build φ) reflection policy s) →
      RowFormula.Respects (nestedFormula build nested) reflection policy s
  | none, s, target, build, h, hbuild => by
    unfold nestedFormula
    trivial
  | some input, s, target, build, h, hbuild => by
    unfold nestedInputRespects at h
    unfold nestedFormula
    split
    · exact hbuild _ (within_formula input h)
    · trivial

end

/-! ## Accepted inputs -/

theorem policyAllows_mem {allowed : List String} {name : String} (hallowed : allowed ≠ [])
    (h : policyAllows allowed name = true) : name ∈ allowed := by
  simpa [policyAllows, hallowed] using h

/-- Clauses that are accepted name allowed fields. -/
theorem field_mem_of_combineClauses {T : TypeIndex} {allowed : List String} (hallowed : allowed ≠ [])
    {clauses : List FilterClause} {combined result : Option (ExprNode Value)}
    (h : combineClauses reflection T allowed combined clauses = .ok result) :
    ∀ clause ∈ clauses, clause.field ∈ allowed := by
  induction clauses generalizing combined with
  | nil => simp
  | cons clause clauses ih =>
    obtain ⟨node, hnode, h⟩ := except_bind_ok h
    refine List.forall_mem_cons.mpr ⟨?_, ih h⟩
    unfold buildClause at hnode
    split at hnode
    · cases hnode
    · rename_i member hmember
      split at hnode
      · rename_i hpolicy
        have hname : member.name = clause.field := by
          simpa using List.find?_some hmember
        exact hname ▸ policyAllows_mem hallowed hpolicy
      · cases hnode

/-- Relation clauses that are accepted name allowed relations. -/
theorem relation_mem_of_relationFilters {T : TypeIndex} {allowed : List String}
    (hallowed : allowed ≠ []) {clauses : List RelationFilterClause}
    {filters : List (RelationFilter Value)}
    (h : relationFilters reflection T allowed clauses = .ok filters) :
    ∀ clause ∈ clauses, clause.relation ∈ allowed := by
  induction clauses generalizing filters with
  | nil => simp
  | cons clause clauses ih =>
    unfold relationFilters at h
    obtain ⟨first, hfirst, h⟩ := except_bind_ok h
    obtain ⟨rest, hrest, h⟩ := except_bind_ok h
    refine List.forall_mem_cons.mpr ⟨?_, ih hrest⟩
    obtain ⟨name, someFilter, everyFilter, noneFilter, isEmpty, isNotEmpty⟩ := clause
    unfold relationClauseFilters at hfirst
    split at hfirst
    · cases hfirst
    · split at hfirst
      · cases hfirst
      · rename_i member hmember
        split at hfirst
        · cases hfirst
        · rename_i hpolicy
          have hname : member.name = name := by simpa using List.find?_some hmember
          exact hname ▸ policyAllows_mem hallowed (by simpa using hpolicy)

/-- The inputs nested in an input on the entity of the policy respect it. -/
def WhereInput.NestedRespect (reflection : Reflection) (policy : Policy) (input : WhereInput) :
    Prop :=
  ∀ clause ∈ input.relations, clause.nestedRespect reflection policy policy.entity

theorem relationsRespect_of_forall {clauses : List RelationFilterClause}
    (h : ∀ clause ∈ clauses, clause.relation ∈ policy.relations ∧
      clause.nestedRespect reflection policy policy.entity) :
    relationsRespect reflection policy clauses policy.entity := by
  induction clauses with
  | nil =>
    unfold relationsRespect
    trivial
  | cons clause clauses ih =>
    rw [List.forall_mem_cons] at h
    unfold relationsRespect
    exact ⟨fun _ => h.1.1, h.1.2, ih h.2⟩

/-- What `apply_where` accepts respects the policy if the nested inputs do. -/
theorem respects_of_applyWhere {input : WhereInput} {query : CorrelatedQuery Value}
    (hfields : policy.fields ≠ []) (hrelations : policy.relations ≠ [])
    (h : applyWhere reflection policy.entity policy.fields policy.relations
      (reflection.select policy.entity) input = .ok query)
    (hnested : input.NestedRespect reflection policy) :
    input.respects reflection policy policy.entity := by
  obtain ⟨base, hbase, h⟩ := except_bind_ok h
  obtain ⟨filters, hfilters, h⟩ := except_bind_ok h
  obtain ⟨expression, hexpression, hbase⟩ := except_bind_ok hbase
  have hclauses := field_mem_of_combineClauses hfields hexpression
  have hmem := relation_mem_of_relationFilters hrelations hfilters
  obtain ⟨clauses, relations⟩ := input
  unfold WhereInput.respects
  refine ⟨fun clause hclause _ => hclauses clause hclause, ?_⟩
  have hall : ∀ clause ∈ relations, clause.relation ∈ policy.relations ∧
      clause.nestedRespect reflection policy policy.entity :=
    fun clause hclause => ⟨hmem clause hclause, hnested clause hclause⟩
  exact relationsRespect_of_forall hall

/-! ## Databases that look the same -/

/-- Rows of two databases that look the same through what the policy allows: matched rows
    agree on the allowed fields, and what an allowed step leads to on one side is matched on
    the other. -/
structure Matching (reflection : Reflection) (policy : Policy) (engine : Engine)
    (db db' : Database) (matched : TypeIndex → Tuple → Tuple → Prop) : Prop where
  fields : ∀ s row row', matched s row row' → ∀ member ∈ (reflection s).members,
    policy.AllowsField s member.name → row member.column = row' member.column
  forth : ∀ s row row', matched s row row' → ∀ step, policy.AllowsStep s step →
    ∀ next ∈ (reflection.frame engine db).successors s row step,
      ∃ next' ∈ (reflection.frame engine db').successors s row' step,
        matched (reflection.target s step) next next'
  back : ∀ s row row', matched s row row' → ∀ step, policy.AllowsStep s step →
    ∀ next' ∈ (reflection.frame engine db').successors s row' step,
      ∃ next ∈ (reflection.frame engine db).successors s row step,
        matched (reflection.target s step) next next'

/-- The databases have the same rows of the entity of the policy, row by row, up to what the
    policy does not allow to read from them. -/
def Indistinguishable (reflection : Reflection) (policy : Policy) (engine : Engine)
    (db db' : Database) : Prop :=
  ∃ matched, Matching reflection policy engine db db' matched ∧
    List.Forall₂ (matched policy.entity) (db (reflection policy.entity).table)
      (db' (reflection policy.entity).table)

theorem Matching.bisimulation {engine : Engine} {db db' : Database}
    {matched : TypeIndex → Tuple → Tuple → Prop}
    (h : Matching reflection policy engine db db' matched) :
    Frame.Bisimulation reflection.target policy.AllowsClause policy.AllowsStep
      (reflection.frame engine db) (reflection.frame engine db') matched where
  test s row row' hrow clause hclause := by
    show (reflection s).satisfies engine row clause = (reflection s).satisfies engine row' clause
    unfold EntityType.satisfies EntityType.member?
    cases hmember : (reflection s).members.find? (·.name = clause.field) with
    | none => rfl
    | some member =>
      have hname : member.name = clause.field := by simpa using List.find?_some hmember
      have hvalue := h.fields s row row' hrow member (List.mem_of_find?_eq_some hmember)
        (hname ▸ hclause)
      show clause.satisfied engine (reflection s).table member row =
        clause.satisfied engine (reflection s).table member row'
      have hcell : cellOf (reflection s).table row member.column =
          cellOf (reflection s).table row' member.column :=
        congrArg (Cell.mk (some ((reflection s).table, member.column))) hvalue
      unfold FilterClause.satisfied
      rw [hcell]
  forth := h.forth
  back := h.back

theorem map_eq_map_of_forall₂ {related : Tuple → Tuple → Prop} {rows rows' : List Tuple}
    (hrows : List.Forall₂ related rows rows') {f g : Tuple → Bool}
    (h : ∀ row row', related row row' → f row = g row') : rows.map f = rows'.map g := by
  induction hrows with
  | nil => rfl
  | cons hrow _ ih => rw [List.map_cons, List.map_cons, h _ _ hrow, ih]

/-- The SELECT accepts a row of its table. -/
def Select.accepts (engine : Engine) (db : Database) (select : Select) (row : Tuple) : Bool :=
  whereHolds engine db select.condition [(select.aliasName, select.root.table, row)]

/-! ## Databases that differ in what is hidden -/

/-- The key that a relation reads from the owner. -/
def RelationColumns.ownKey {V : Type} : RelationColumns V → String
  | .belongsTo foreignKey _ => foreignKey
  | .hasOne _ localKey | .hasMany _ localKey => localKey
  | .manyToMany _ _ _ localKey _ => localKey
  | .morphOne _ _ localKey _ | .morphMany _ _ localKey _ => localKey

/-- The keys that a relation reads from the target. -/
def RelationColumns.targetKeys {V : Type} : RelationColumns V → List String
  | .belongsTo _ targetKey => [targetKey]
  | .hasOne targetForeignKey _ | .hasMany targetForeignKey _ => [targetForeignKey]
  | .manyToMany _ _ _ _ targetKey => [targetKey]
  | .morphOne typeField idField _ _ | .morphMany typeField idField _ _ => [idField, typeField]

/-- The key columns of an entity: its primary key, and the keys of the relations that the
    policy allows, from it and to it. -/
def Policy.IsKey (reflection : Reflection) (policy : Policy) (s : TypeIndex) (column : String) :
    Prop :=
  column = (reflection s).primaryKey ∨
    (∃ name target relation, policy.AllowsStep s (.relation name) ∧
      reflection.relation? s name = some (target, relation) ∧ column = relation.columns.ownKey) ∨
    ∃ owner name relation, policy.AllowsStep owner (.relation name) ∧
      reflection.relation? owner name = some (s, relation) ∧ column ∈ relation.columns.targetKeys

/-- The columns of an entity that are not hidden. -/
def Policy.Shows (reflection : Reflection) (policy : Policy) (s : TypeIndex) (column : String) :
    Prop :=
  s = policy.entity → policy.IsKey reflection s column ∨
    ∃ member ∈ (reflection s).members, member.column = column ∧ member.name ∈ policy.fields

/-- The databases agree on what is not hidden: on the columns shown of the entities that
    allowed relations lead to, and on the pivot tables of allowed relations. -/
structure DifferInHidden (reflection : Reflection) (policy : Policy)
    (reached : TypeIndex → Prop) (db db' : Database) : Prop where
  root : reached policy.entity
  closed : ∀ s, reached s → ∀ name, policy.AllowsStep s (.relation name) →
    reached (reflection.target s (.relation name))
  rows : ∀ s, reached s → List.Forall₂
    (fun row row' => ∀ column, policy.Shows reflection s column → row column = row' column)
    (db (reflection s).table) (db' (reflection s).table)
  pivots : ∀ s, reached s → ∀ name, policy.AllowsStep s (.relation name) → ∀ found,
    reflection.relation? s name = some found →
    ∀ pivot pivotRootKey pivotTargetKey localKey targetKey,
      found.2.columns = .manyToMany pivot pivotRootKey pivotTargetKey localKey targetKey →
      db pivot = db' pivot

theorem cellOf_congr {table column : String} {row row' : Tuple} (h : row column = row' column) :
    cellOf table row column = cellOf table row' column :=
  congrArg (Cell.mk (some (table, column))) h

/-- Whether rows are related depends on their keys and on the pivot table. -/
theorem related_congr {relation : RelationInfo Value} {engine : Engine} {db db' : Database}
    {ownerTable : String} {row row' target target' : Tuple}
    (hown : row relation.columns.ownKey = row' relation.columns.ownKey)
    (htarget : ∀ column ∈ relation.columns.targetKeys, target column = target' column)
    (hpivot : ∀ pivot pivotRootKey pivotTargetKey localKey targetKey,
      relation.columns = .manyToMany pivot pivotRootKey pivotTargetKey localKey targetKey →
      db pivot = db' pivot) :
    relation.related engine db ownerTable row target =
      relation.related engine db' ownerTable row' target' := by
  obtain ⟨name, entity, targetPrimaryKey, columns⟩ := relation
  have hother : ∀ column ∈ columns.targetKeys,
      cellOf entity.table target column = cellOf entity.table target' column :=
    fun column hcolumn => cellOf_congr (htarget column hcolumn)
  have hsource : cellOf ownerTable row columns.ownKey = cellOf ownerTable row' columns.ownKey :=
    cellOf_congr hown
  unfold RelationInfo.related
  cases columns with
  | belongsTo foreignKey targetKey =>
    dsimp only [RelationColumns.ownKey] at hsource
    dsimp only
    rw [hsource, hother targetKey (by simp [RelationColumns.targetKeys])]
  | hasOne targetForeignKey localKey | hasMany targetForeignKey localKey =>
    dsimp only [RelationColumns.ownKey] at hsource
    dsimp only
    rw [hsource, hother targetForeignKey (by simp [RelationColumns.targetKeys])]
  | manyToMany pivot pivotRootKey pivotTargetKey localKey targetKey =>
    dsimp only [RelationColumns.ownKey] at hsource
    dsimp only
    rw [hsource, hother targetKey (by simp [RelationColumns.targetKeys]),
      hpivot _ _ _ _ _ rfl]
  | morphOne typeField idField localKey typeValue | morphMany typeField idField localKey typeValue =>
    dsimp only [RelationColumns.ownKey] at hsource
    dsimp only
    rw [hsource, hother idField (by simp [RelationColumns.targetKeys]),
      hother typeField (by simp [RelationColumns.targetKeys])]

theorem exists_of_forall₂ {related : Tuple → Tuple → Prop} {rows rows' : List Tuple}
    (h : List.Forall₂ related rows rows') {row : Tuple} (hrow : row ∈ rows) :
    ∃ row' ∈ rows', related row row' := by
  induction h with
  | nil => cases hrow
  | cons hrelated _ ih =>
    obtain rfl | hrow := List.mem_cons.mp hrow
    · exact ⟨_, List.mem_cons_self, hrelated⟩
    · obtain ⟨row', hrow', hmatch⟩ := ih hrow
      exact ⟨row', List.mem_cons_of_mem _ hrow', hmatch⟩

namespace DifferInHidden

variable {reached : TypeIndex → Prop} {db db' : Database}

theorem symm (h : DifferInHidden reflection policy reached db db') :
    DifferInHidden reflection policy reached db' db where
  root := h.root
  closed := h.closed
  rows s hs := (h.rows s hs).flip.imp fun _ _ hrow column hshown => (hrow column hshown).symm
  pivots s hs name hstep found hfound _ _ _ _ _ hcolumns :=
    (h.pivots s hs name hstep found hfound _ _ _ _ _ hcolumns).symm

/-- What a step from a row leads to, is matched on the other side. -/
theorem forth (h : DifferInHidden reflection policy reached db db') (engine : Engine)
    {s : TypeIndex} (hs : reached s) {row row' : Tuple}
    (hrow : ∀ column, policy.Shows reflection s column → row column = row' column)
    {step : Step} (hstep : policy.AllowsStep s step) {next : Tuple}
    (hnext : next ∈ (reflection.frame engine db).successors s row step) :
    ∃ next' ∈ (reflection.frame engine db').successors s row' step,
      reached (reflection.target s step) ∧
        ∀ column, policy.Shows reflection (reflection.target s step) column →
          next column = next' column := by
  cases step with
  | sameKey =>
    obtain ⟨hmem, hequal⟩ := List.mem_filter.mp hnext
    obtain ⟨next', hmem', hnext'⟩ := exists_of_forall₂ (h.rows s hs) hmem
    have hkey : policy.Shows reflection s (reflection s).primaryKey := fun _ => .inl (.inl rfl)
    refine ⟨next', List.mem_filter.mpr ⟨hmem', ?_⟩, hs, hnext'⟩
    rw [← cellOf_congr (hnext' _ hkey), ← cellOf_congr (hrow _ hkey)]
    exact hequal
  | relation name =>
    have hreached := h.closed s hs name hstep
    change next ∈ reflection.relatedRows engine db s name row at hnext
    obtain ⟨next', hmem', hnext'⟩ := exists_of_forall₂ (h.rows _ hreached) (mem_relatedRows hnext)
    refine ⟨next', ?_, hreached, hnext'⟩
    show next' ∈ reflection.relatedRows engine db' s name row'
    cases hfound : reflection.relation? s name with
    | none => simp [Reflection.relatedRows, hfound] at hnext
    | some found =>
      obtain ⟨target, relation⟩ := found
      have htarget : reflection.target s (.relation name) = target := by
        simp [Reflection.target, hfound]
      simp only [Reflection.relatedRows, hfound, RelationInfo.relatedRows, List.mem_filter]
        at hnext ⊢
      rw [htarget] at hmem' hnext'
      refine ⟨(relation_table hfound).1 ▸ hmem', ?_⟩
      rw [← hnext.2]
      refine (related_congr ?_ ?_ (h.pivots s hs name hstep _ hfound)).symm
      · exact hrow _ fun _ => .inl (.inr (.inl ⟨name, target, relation, hstep, hfound, rfl⟩))
      · exact fun column hcolumn => hnext' _ fun _ =>
          .inl (.inr (.inr ⟨s, name, relation, hstep, hfound, hcolumn⟩))

/-- Databases that differ only in what is hidden look the same. -/
theorem indistinguishable (h : DifferInHidden reflection policy reached db db') (engine : Engine) :
    Indistinguishable reflection policy engine db db' := by
  refine ⟨fun s row row' => reached s ∧
    ∀ column, policy.Shows reflection s column → row column = row' column, ?_, ?_⟩
  · constructor
    · intro s row row' hrow member hmember hallowed
      exact hrow.2 _ fun hs => .inr ⟨member, hmember, rfl, hallowed hs⟩
    · intro s row row' hrow step hstep next hnext
      exact h.forth engine hrow.1 hrow.2 hstep hnext
    · intro s row row' hrow step hstep next' hnext'
      obtain ⟨next, hnext, hreached, hmatch⟩ := h.symm.forth engine hrow.1
        (fun column hshown => (hrow.2 column hshown).symm) hstep hnext'
      exact ⟨next, hnext, hreached, fun column hshown => (hmatch column hshown).symm⟩
  · exact (h.rows _ h.root).imp fun _ _ hrow => ⟨h.root, hrow⟩

end DifferInHidden

/-! ## Noninterference -/

/-- An input accepted under a policy, whose nested inputs respect it, selects the same roots,
    row by row, from two databases that look the same through what the policy allows. On SQLite
    its statement is the SELECT. -/
theorem allowlist_noninterference {input : WhereInput} {query : CorrelatedQuery Value}
    (hfields : policy.fields ≠ []) (hrelations : policy.relations ≠ [])
    (h : applyWhere reflection policy.entity policy.fields policy.relations
      (reflection.select policy.entity) input = .ok query)
    (hnested : input.NestedRespect reflection policy) {engine : Engine} {db db' : Database}
    (hsame : Indistinguishable reflection policy engine db db') :
    CompilesTo (query.compile sqliteDialect) (query.toSelect.text ++ ";") query.toSelect.literals ∧
      (db (reflection policy.entity).table).map (query.toSelect.accepts engine db) =
        (db' (reflection policy.entity).table).map (query.toSelect.accepts engine db') := by
  have hrespects := within_formula input (respects_of_applyWhere hfields hrelations h hnested)
  obtain ⟨hdenotes, hcompile⟩ := denotes_applyWhere h
  have haccepts : ∀ db row, query.toSelect.accepts engine db row =
      reflection.sat engine db input.formula policy.entity row := by
    intro db row
    unfold Select.accepts CorrelatedQuery.toSelect
    rw [hdenotes.table, hdenotes.holds engine db "t0" none _ row (lookup_self _ _ _ _)]
    simp [whereHolds]
  obtain ⟨matched, hmatching, hrows⟩ := hsame
  refine ⟨hcompile, ?_⟩
  rw [funext (haccepts db), funext (haccepts db')]
  exact map_eq_map_of_forall₂ hrows fun row row' hrow =>
    Frame.sat_eq_of_bisimilar hmatching.bisimulation hrespects hrow

/-! ### Friends of users -/

/-- Users with a name, a password and a friend. -/
def friendReflection : Reflection
  | 0 => { table := "users", primaryKey := "id",
           members := [{ name := "name", column := "name", type := .string },
             { name := "password", column := "password", type := .string }],
           relations := [{ name := "friend", target := some (0, .belongsTo "friend_id" "id") }] }
  | _ => { table := "", primaryKey := "", members := [], relations := [] }

/-- Requests may filter by name and by friend. -/
def friendPolicy : Policy where
  entity := 0
  fields := ["name"]
  relations := ["friend"]

/-- One user, her own friend, with the given password. -/
def oneFriend (password : String) : Database
  | "users" => [fun column =>
      if column = "name" then text "ada" else if column = "password" then text password
      else .int64 1]
  | _ => []

theorem friend_relation {s : TypeIndex} {name : String} {found : TypeIndex × RelationInfo Value}
    (h : friendReflection.relation? s name = some found) :
    found.1 = 0 ∧ found.2.columns = .belongsTo "friend_id" "id" := by
  match s with
  | 0 =>
    by_cases hname : "friend" = name
    · simp [Reflection.relation?, friendReflection, hname] at h
      rw [← h]
      exact ⟨rfl, rfl⟩
    · simp [Reflection.relation?, friendReflection, hname] at h
  | _ + 1 => cases h

theorem not_shows_password : ¬ friendPolicy.Shows friendReflection 0 "password" := by
  intro h
  obtain (hkey | ⟨_, _, _, _, hfound, hkey⟩ | ⟨_, _, _, _, hfound, hkey⟩) |
    ⟨member, hmember, hcolumn, hname⟩ := h rfl
  · exact absurd hkey (by decide)
  · rw [(friend_relation hfound).2] at hkey
    exact absurd hkey (by decide)
  · rw [(friend_relation hfound).2] at hkey
    exact absurd hkey (by decide)
  · simp only [friendReflection, List.mem_cons, List.not_mem_nil, or_false] at hmember
    obtain rfl | rfl := hmember
    · exact absurd hcolumn (by decide)
    · exact absurd hname (by decide)

/-- The password is hidden. -/
theorem oneFriend_differInHidden (password password' : String) :
    DifferInHidden friendReflection friendPolicy (· = 0) (oneFriend password)
      (oneFriend password') where
  root := rfl
  closed s hs name hstep := by
    subst hs
    unfold Reflection.target
    dsimp only
    split
    · rename_i hfound
      exact (friend_relation hfound).1
    · rfl
  rows s hs := by
    subst hs
    refine .cons (fun column hshown => ?_) .nil
    have hcolumn : column ≠ "password" := fun hcolumn => not_shows_password (hcolumn ▸ hshown)
    simp [hcolumn]
  pivots s hs name hstep found hfound _ _ _ _ _ hcolumns := by
    rw [(friend_relation hfound).2] at hcolumns
    cases hcolumns

/-- The friend of the user has the given value in the given field. -/
def friendWith (field : String) (value : String) : WhereInput where
  relations := [{
    relation := "friend"
    someFilter := some { clauses := [{ field := field, value := text value }] } }]

/-- The name of the friend may be asked for. -/
theorem allowlist_noninterference_friend :
    ∃ query, applyWhere friendReflection 0 ["name"] ["friend"] (friendReflection.select 0)
        (friendWith "name" "ada") = .ok query ∧
      (oneFriend "x" "users").map (query.toSelect.accepts equalityEngine (oneFriend "x")) =
        (oneFriend "y" "users").map (query.toSelect.accepts equalityEngine (oneFriend "y")) := by
  have h : applyWhere friendReflection 0 ["name"] ["friend"] (friendReflection.select 0)
      (friendWith "name" "ada") = .ok _ := rfl
  have hnested : (friendWith "name" "ada").NestedRespect friendReflection friendPolicy := by
    intro clause hclause
    cases List.mem_singleton.mp hclause
    simp [RelationFilterClause.nestedRespect, nestedInputRespects, WhereInput.respects,
      relationsRespect, Policy.AllowsClause, Policy.AllowsField, friendPolicy]
  exact ⟨_, h, (allowlist_noninterference (by decide) (by decide) h hnested
    ((oneFriend_differInHidden "x" "y").indistinguishable equalityEngine)).2⟩

/-- The password of the friend can be asked for all the same. -/
theorem not_allowlist_noninterference :
    ∃ query, applyWhere friendReflection 0 ["name"] ["friend"] (friendReflection.select 0)
        (friendWith "password" "x") = .ok query ∧
      DifferInHidden friendReflection friendPolicy (· = 0) (oneFriend "x") (oneFriend "y") ∧
      (oneFriend "x" "users").map (query.toSelect.accepts equalityEngine (oneFriend "x")) ≠
        (oneFriend "y" "users").map (query.toSelect.accepts equalityEngine (oneFriend "y")) := by
  have h : applyWhere friendReflection 0 ["name"] ["friend"] (friendReflection.select 0)
      (friendWith "password" "x") = .ok _ := rfl
  exact ⟨_, h, oneFriend_differInHidden "x" "y", by decide⟩

end MetalOrm.Native.Query
