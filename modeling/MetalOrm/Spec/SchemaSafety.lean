import MetalOrm.Native.SchemaDiff

/-!
# Plans that are not destructive

Without `allow_destructive` a plan drops a constraint or an index only to create it anew in the
same change. A DROP names what it drops, so what it drops is read off the names in the actual
schema: where two constraints of a table bear one name, it may be the wrong one.

## Key results

- `diffSchema_sound`: what the changes of a plan can be
- `executeSchemaPlan_sent`: what is sent, and what is sent when no statement throws
- `plan_preserves`: what a plan that is not destructive keeps
-/

namespace MetalOrm.Native.Schema

open Query (Dialect DialectFamily)

/-! ## What a statement drops and creates -/

/-- A part of a database. -/
inductive SchemaObject where
  | table (name : String)
  | column (table name : String)
  | primaryKey (table : String)
  | unique (table column : String)
  | check (table column : String)
  | reference (table column : String)
  | tableCheck (table : String) (check : DatabaseCheck)
  | index (table name : String)
deriving DecidableEq

/-- The constraints of a column, with their names. -/
def columnConstraints (table : DatabaseTable) (column : DatabaseColumn) :
    List (String × SchemaObject) :=
  (if column.unique then
    [(postgresColumnConstraintName table column "key" column.uniqueName,
      .unique table.name column.name)] else []) ++
  (if column.check.isSome then
    [(postgresColumnConstraintName table column "check" none, .check table.name column.name)]
    else []) ++
  (match column.references with
    | some reference => [(postgresColumnConstraintName table column "fkey" reference.name,
        .reference table.name column.name)]
    | none => [])

/-- The constraints of a table, with their names. -/
def DatabaseTable.constraints (table : DatabaseTable) : List (String × SchemaObject) :=
  (if table.primaryKey.isEmpty then []
    else [(postgresPrimaryKeyConstraintName table, .primaryKey table.name)]) ++
  table.columns.flatMap (columnConstraints table) ++
  table.checks.map fun check =>
    (postgresTableCheckConstraintName table check, .tableCheck table.name check)

/-- The indexes of a schema, with their names. -/
def DatabaseSchema.indexes (schema : DatabaseSchema) : List (String × SchemaObject) :=
  schema.tables.flatMap fun table =>
    table.indexes.map fun index => (index.name, .index table.name index.name)

/-- The statement drops a table, a column, a constraint or an index. -/
def SchemaStatement.IsDrop : SchemaStatement → Prop
  | .dropTable _ | .dropColumn _ _ | .dropConstraint _ _ | .dropIndex _ => True
  | _ => False

/-- What a statement drops in a database. -/
def Drops (actual : DatabaseSchema) : SchemaStatement → SchemaObject → Prop
  | .dropTable name, object => object = .table name
  | .dropColumn table name, object => object = .column table name
  | .dropConstraint name constraint, object =>
    ∃ table ∈ actual.tables, table.name = name ∧ (constraint, object) ∈ table.constraints
  | .dropIndex name, object => (name, object) ∈ actual.indexes
  | _, _ => False

/-- A constraint or an index, and not a primary key. -/
def SchemaObject.Replaceable : SchemaObject → Prop
  | .table _ | .column _ _ | .primaryKey _ => False
  | _ => True

/-- The object is in the expected schema. A table check is the same when its name is. -/
def ExpectedSchema.Has (expected : ExpectedSchema) (object : SchemaObject) : Prop :=
  ∃ wanted ∈ expected.tables, match object with
    | .table name => wanted.table.name = name
    | .column table name => wanted.table.name = table ∧ ∃ c ∈ wanted.table.columns, c.name = name
    | .primaryKey table => wanted.table.name = table ∧ wanted.table.primaryKey ≠ []
    | .unique table name =>
      wanted.table.name = table ∧ ∃ c ∈ wanted.table.columns, c.name = name ∧ c.unique
    | .check table name =>
      wanted.table.name = table ∧ ∃ c ∈ wanted.table.columns, c.name = name ∧ c.check.isSome
    | .reference table name =>
      wanted.table.name = table ∧ ∃ c ∈ wanted.table.columns, c.name = name ∧ c.references.isSome
    | .tableCheck table check =>
      wanted.table.name = table ∧ check.name.isSome ∧
        ∃ c ∈ wanted.table.checks, c.name = check.name
    | .index table name =>
      wanted.table.name = table ∧ ∃ index ∈ wanted.table.indexes, index.name = name

/-- The statement creates the object as the expected schema has it. -/
def Creates (expected : ExpectedSchema) (statement : SchemaStatement) (object : SchemaObject) :
    Prop :=
  ∃ wanted ∈ expected.tables, match statement, object with
    | .addCheck table _ column expression, .check table' column' =>
      table = wanted.table.name ∧ table' = wanted.table.name ∧ column = column' ∧
        ∃ c ∈ wanted.table.columns, c.name = column ∧ c.check = some expression
    | .addReference table _ column reference, .reference table' column' =>
      table = wanted.table.name ∧ table' = wanted.table.name ∧ column = column' ∧
        ∃ c ∈ wanted.table.columns, c.name = column ∧ c.references = some reference
    | .addTableCheck table check, .tableCheck table' old =>
      table = wanted.table.name ∧ table' = wanted.table.name ∧ check ∈ wanted.table.checks ∧
        check.name.isSome ∧ old.name = check.name
    | .createIndex table index, .index table' name =>
      table = wanted.table.name ∧ table' = wanted.table.name ∧ index ∈ wanted.table.indexes ∧
        index.name = name
    | _, _ => False

theorem Creates.has {expected : ExpectedSchema} {statement : SchemaStatement}
    {object : SchemaObject} (h : Creates expected statement object) :
    expected.Has object ∧ object.Replaceable := by
  obtain ⟨wanted, hwanted, h⟩ := h
  split at h
  · obtain ⟨-, htable, hcolumn, c, hc, hname, hcheck⟩ := h
    exact ⟨⟨wanted, hwanted, htable.symm, c, hc, hname.trans hcolumn, by simp [hcheck]⟩, trivial⟩
  · obtain ⟨-, htable, hcolumn, c, hc, hname, hreference⟩ := h
    exact ⟨⟨wanted, hwanted, htable.symm, c, hc, hname.trans hcolumn, by simp [hreference]⟩,
      trivial⟩
  · obtain ⟨-, htable, hcheck, hsome, hname⟩ := h
    exact ⟨⟨wanted, hwanted, htable.symm, by rwa [hname], _, hcheck, hname.symm⟩, trivial⟩
  · obtain ⟨-, htable, hindex, hname⟩ := h
    exact ⟨⟨wanted, hwanted, htable.symm, _, hindex, hname⟩, trivial⟩
  · cases h

/-! ## The changes of a plan -/

/-- A change without DROP or, on PostgreSQL, a DROP and the creation of what it drops. -/
def Sound (expected : ExpectedSchema) (actual : DatabaseSchema) (family : DialectFamily)
    (change : SchemaChange) : Prop :=
  (change.safe = false → change.statements = []) ∧
  ((∀ statement ∈ change.statements, ¬ statement.IsDrop) ∨ family = .postgres ∧
    ∃ drop creation object, change.statements = [drop, creation] ∧ drop.IsDrop ∧
      Drops actual drop object ∧ Creates expected creation object)

/-- Every change of the part of a plan is sound. -/
def SoundPart (expected : ExpectedSchema) (actual : DatabaseSchema) (family : DialectFamily)
    (plan : SchemaPlan) : Prop :=
  ∀ change ∈ plan.changes, Sound expected actual family change

section

variable {expected : ExpectedSchema} {actual : DatabaseSchema} {family : DialectFamily}
  {plan plan' : SchemaPlan}

namespace SoundPart

theorem empty : SoundPart expected actual family .empty := by
  intro change h
  cases h

theorem warning (text : String) : SoundPart expected actual family (.warning text) := by
  intro change h
  cases h

theorem append (h : SoundPart expected actual family plan) (h' : SoundPart expected actual family plan') :
    SoundPart expected actual family (plan ++ plan') := by
  intro change hchange
  obtain hmem | hmem := List.mem_append.mp hchange
  · exact h change hmem
  · exact h' change hmem

theorem concat {plans : List SchemaPlan} (h : ∀ plan ∈ plans, SoundPart expected actual family plan) :
    SoundPart expected actual family (.concat plans) := by
  intro change hchange
  rw [SchemaPlan.changes_concat] at hchange
  obtain ⟨plan, hplan, hmem⟩ := List.mem_flatMap.mp hchange
  exact h plan hplan change hmem

theorem ite {c : Prop} [Decidable c] (h : c → SoundPart expected actual family plan)
    (h' : ¬ c → SoundPart expected actual family plan') :
    SoundPart expected actual family (if c then plan else plan') := by
  split
  · rename_i hc
    exact h hc
  · rename_i hc
    exact h' hc

/-- A change without DROP. -/
theorem change {change : SchemaChange} (hsafe : change.safe = false → change.statements = [])
    (h : ∀ statement ∈ change.statements, ¬ statement.IsDrop) :
    SoundPart expected actual family (.change change) := by
  intro c hc
  cases List.mem_singleton.mp hc
  exact ⟨hsafe, .inl h⟩

/-- A DROP and the creation of what it drops. -/
theorem replace {change : SchemaChange} {drop creation : SchemaStatement} {object : SchemaObject}
    (hfamily : family = .postgres) (hsafe : change.safe = true)
    (hstatements : change.statements = [drop, creation]) (hdrop : drop.IsDrop)
    (hdrops : Drops actual drop object)
    (hcreates : Creates expected creation object) :
    SoundPart expected actual family (.change change) := by
  intro c hc
  cases List.mem_singleton.mp hc
  exact ⟨by simp [hsafe], .inr ⟨hfamily, drop, creation, object, hstatements, hdrop, hdrops, hcreates⟩⟩

end SoundPart

end

/-! ## Names in the actual schema -/

theorem check_mem_constraints {table : DatabaseTable} {column : DatabaseColumn}
    (hcolumn : column ∈ table.columns) (hcheck : column.check.isSome) :
    (postgresColumnConstraintName table column "check" none, .check table.name column.name) ∈
      table.constraints := by
  have hmem : (postgresColumnConstraintName table column "check" none,
      SchemaObject.check table.name column.name) ∈ columnConstraints table column := by
    simp [columnConstraints, hcheck]
  unfold DatabaseTable.constraints
  exact List.mem_append_left _ (List.mem_append_right _
    (List.mem_flatMap.mpr ⟨column, hcolumn, hmem⟩))

theorem reference_mem_constraints {table : DatabaseTable} {column : DatabaseColumn}
    {reference : ForeignKeyReference} (hcolumn : column ∈ table.columns)
    (hreference : column.references = some reference) :
    (postgresColumnConstraintName table column "fkey" reference.name,
      .reference table.name column.name) ∈ table.constraints := by
  have hmem : (postgresColumnConstraintName table column "fkey" reference.name,
      SchemaObject.reference table.name column.name) ∈ columnConstraints table column := by
    simp [columnConstraints, hreference]
  unfold DatabaseTable.constraints
  exact List.mem_append_left _ (List.mem_append_right _
    (List.mem_flatMap.mpr ⟨column, hcolumn, hmem⟩))

theorem tableCheck_mem_constraints {table : DatabaseTable} {check : DatabaseCheck}
    (hcheck : check ∈ table.checks) :
    (postgresTableCheckConstraintName table check, .tableCheck table.name check) ∈
      table.constraints :=
  List.mem_append_right _ (List.mem_map_of_mem hcheck)

theorem findColumn_spec {table : DatabaseTable} {name : String} {column : DatabaseColumn}
    (h : findColumn table name = some column) : column ∈ table.columns ∧ column.name = name :=
  ⟨List.mem_of_find?_eq_some h, by simpa using List.find?_some h⟩

theorem findIndex_spec {table : DatabaseTable} {name : String} {index : DatabaseIndex}
    (h : findIndex table name = some index) : index ∈ table.indexes ∧ index.name = name :=
  ⟨List.mem_of_find?_eq_some h, by simpa using List.find?_some h⟩

/-- The check that the search found under the wanted name. -/
theorem searchCheck_sameName {wanted candidate : DatabaseCheck} {actual : List DatabaseCheck}
    {matched : List Bool} {i j : Nat} {found : CheckSearch}
    (hfound : ∀ k check, found ≠ .sameName k check)
    (h : searchCheck wanted i found actual matched = .sameName j candidate) :
    candidate ∈ actual ∧ wanted.name.isSome ∧ candidate.name = wanted.name := by
  induction actual generalizing i matched found with
  | nil => exact absurd h (hfound _ _)
  | cons check actual ih =>
    cases matched with
    | nil => exact absurd h (hfound _ _)
    | cons marked matched =>
      unfold searchCheck at h
      split at h
      · obtain ⟨hmem, hname⟩ := ih hfound h
        exact ⟨List.mem_cons_of_mem _ hmem, hname⟩
      · split at h
        · rename_i hname
          cases h
          simpa using hname
        · refine (ih ?_ h).imp (List.mem_cons_of_mem _) id
          intro k c
          split
          · simp
          · exact hfound k c

/-! ## The changes of each part -/

section

variable {expected : ExpectedSchema} {actual : DatabaseSchema} {family : DialectFamily}
  {wanted : ExpectedTable} {table : DatabaseTable}

/-- Nothing is dropped without `allow_destructive`. -/
def keeping : SchemaDiffOptions := { allowDestructive := false }

theorem soundPart_dropIndex (index : DatabaseIndex) : SoundPart expected actual family
    (dropIndexChange wanted.table keeping index) := by
  unfold dropIndexChange
  exact .ite (fun _ => .empty) fun _ => .change (by simp [keeping]) (by simp [keeping])

theorem soundPart_createIndex (index : DatabaseIndex) : SoundPart expected actual family
    (createIndexChange wanted.table index) :=
  .change (by simp) (by simp [SchemaStatement.IsDrop])

theorem soundPart_sqliteTable :
    SoundPart expected actual family (diffSqliteTable wanted.table table keeping) := by
  have hcolumn : ∀ column, SoundPart expected actual family
      (diffSqliteColumn wanted.table table column) := by
    intro column
    unfold diffSqliteColumn
    split
    · exact .ite (fun _ => .append (.change (by simp) (by simp)) (.warning _))
        fun _ => .change (by simp) (by simp [SchemaStatement.IsDrop])
    · exact .ite (fun _ => .warning _) fun _ => .empty
  have hdropColumn : ∀ column, SoundPart expected actual family
      (dropSqliteColumn wanted.table column) := by
    intro column
    unfold dropSqliteColumn
    exact .ite (fun _ => .empty) fun _ => .append (.change (by simp) (by simp)) (.warning _)
  have hindex : ∀ index, SoundPart expected actual family (diffSqliteIndex wanted.table table index) := by
    intro index
    unfold diffSqliteIndex
    split
    · exact soundPart_createIndex index
    · exact .ite (fun _ => .empty) fun _ => .warning _
  unfold diffSqliteTable
  apply SoundPart.append _ (.concat (by simpa using fun index _ => soundPart_dropIndex index))
  apply SoundPart.append _ (.concat (by simpa using fun index _ => hindex index))
  apply SoundPart.append _ (.concat (by simpa using fun column _ => hdropColumn column))
  apply SoundPart.append (.concat (by simpa using fun column _ => hcolumn column))
  exact .ite (fun _ => .empty) fun _ => .warning _

/-- A change of the expected table that drops nothing. -/
theorem soundPart_alterColumn {description : String} {statements : List SchemaStatement}
    {safe : Bool} (hsafe : safe = false → statements = [])
    (h : ∀ statement ∈ statements, ¬ statement.IsDrop) :
    SoundPart expected actual family (alterColumnChange wanted.table description statements safe) :=
  .change hsafe h

theorem soundPart_alterTable {description : String} {statements : List SchemaStatement}
    {safe : Bool} (hsafe : safe = false → statements = [])
    (h : ∀ statement ∈ statements, ¬ statement.IsDrop) :
    SoundPart expected actual family (alterTableChange wanted.table description statements safe) :=
  .change hsafe h

theorem renderPostgresScalarAlterations_keep (column : DatabaseColumn) (diff : ColumnDiff) :
    ∀ statement ∈ renderPostgresScalarAlterations wanted.table column diff,
      ¬ statement.IsDrop := by
  intro statement h
  simp only [renderPostgresScalarAlterations, List.mem_append] at h
  obtain ((h | h) | h) | h := h <;>
  · split at h
    · cases List.mem_singleton.mp h
      exact id
    · cases h

theorem soundPart_unique (column actualColumn : DatabaseColumn) (diff : ColumnDiff) :
    SoundPart expected actual family
      (diffPostgresUniqueConstraint wanted.table column actualColumn diff keeping) := by
  unfold diffPostgresUniqueConstraint
  refine .ite (fun _ => .empty) fun _ => .ite (fun _ => ?_) fun _ => .ite (fun _ => ?_) fun _ =>
    .ite (fun _ => .ite (fun _ => ?_) fun _ => .empty) fun _ => .empty
  · exact soundPart_alterColumn (by simp) (by simp [postgresAddUniqueConstraint,
      SchemaStatement.IsDrop])
  · exact soundPart_alterColumn (by simp [keeping]) (by simp [keeping])
  · exact soundPart_alterColumn (by simp) (by simp [SchemaStatement.IsDrop])

section

variable (hfamily : family = .postgres) (hwanted : wanted ∈ expected.tables)
  (htable : table ∈ actual.tables) (hname : table.name = wanted.table.name)

include hfamily hwanted htable hname

theorem soundPart_check {column actualColumn : DatabaseColumn} (diff : ColumnDiff)
    (hcolumn : column ∈ wanted.table.columns) (hactual : actualColumn ∈ table.columns)
    (hsame : actualColumn.name = column.name) : SoundPart expected actual family
      (diffPostgresCheckConstraint wanted.table column actualColumn diff keeping) := by
  unfold diffPostgresCheckConstraint
  refine .ite (fun _ => .empty) fun _ => ?_
  dsimp only
  split
  · exact soundPart_alterColumn (by simp) (by simp [postgresAddCheckConstraint,
      SchemaStatement.IsDrop])
  · exact soundPart_alterColumn (by simp [keeping]) (by simp [keeping])
  · -- The check is dropped under the name that a column check has.
    rename_i expression old hexpected hold
    have hmem := check_mem_constraints hactual (by simp [hold])
    have hrename : postgresColumnConstraintName table actualColumn "check" none =
        postgresColumnConstraintName wanted.table column "check" none := by
      simp [postgresColumnConstraintName, hname, hsame]
    rw [hrename] at hmem
    have hcreates : Creates expected
        (postgresAddCheckConstraint wanted.table column expression)
        (.check table.name actualColumn.name) :=
      ⟨wanted, hwanted, rfl, hname, hsame.symm, column, hcolumn, rfl, hexpected⟩
    exact .replace hfamily rfl rfl trivial ⟨table, htable, hname, hmem⟩ hcreates
  · exact .empty

theorem soundPart_reference {column actualColumn : DatabaseColumn} (diff : ColumnDiff)
    (hcolumn : column ∈ wanted.table.columns) (hactual : actualColumn ∈ table.columns)
    (hsame : actualColumn.name = column.name) : SoundPart expected actual family
      (diffPostgresReferenceConstraint wanted.table column actualColumn diff keeping) := by
  unfold diffPostgresReferenceConstraint
  refine .ite (fun _ => .empty) fun _ => ?_
  split
  · exact soundPart_alterColumn (by simp) (by simp [postgresAddReferenceConstraint,
      SchemaStatement.IsDrop])
  · exact soundPart_alterColumn (by simp [keeping]) (by simp [keeping])
  · exact .empty
  · rename_i expectedReference actualReference hexpected hold
    refine .ite (fun _ => .ite (fun _ => ?_) fun _ => .empty) fun _ => ?_
    · exact soundPart_alterColumn (by simp) (by simp [SchemaStatement.IsDrop])
    · have hmem := reference_mem_constraints hactual hold
      have hrename : postgresColumnConstraintName table actualColumn "fkey" actualReference.name =
          postgresColumnConstraintName wanted.table actualColumn "fkey" actualReference.name := by
        simp [postgresColumnConstraintName, hname]
      rw [hrename] at hmem
      have hcreates : Creates expected
          (postgresAddReferenceConstraint wanted.table column expectedReference)
          (.reference table.name actualColumn.name) :=
        ⟨wanted, hwanted, rfl, hname, hsame.symm, column, hcolumn, rfl, hexpected⟩
      exact .replace hfamily rfl rfl trivial ⟨table, htable, hname, hmem⟩ hcreates

omit hfamily hwanted htable hname in
theorem soundPart_primaryKey :
    SoundPart expected actual family (diffPostgresPrimaryKey wanted.table table keeping) := by
  unfold diffPostgresPrimaryKey
  refine .ite (fun _ => .empty) fun _ => .ite (fun _ => .ite (fun _ => .empty) fun _ => ?_)
    fun _ => .ite (fun _ => ?_) fun _ => ?_
  · exact soundPart_alterTable (by simp) (by simp [postgresAddPrimaryKeyConstraint,
      SchemaStatement.IsDrop])
  · exact soundPart_alterTable (by simp [keeping]) (by simp [keeping])
  · exact soundPart_alterTable (by simp [keeping]) (by simp [keeping])

theorem soundPart_tableCheck {check : DatabaseCheck} (matched : List Bool)
    (hcheck : check ∈ wanted.table.checks) : SoundPart expected actual family
      (diffPostgresTableCheck wanted.table table matched check).2 := by
  unfold diffPostgresTableCheck
  split
  · rename_i i candidate hsearch
    obtain ⟨hmem, hsome, hsame⟩ := searchCheck_sameName (by simp) hsearch
    refine .ite (fun _ => .empty) fun _ => ?_
    have hcreates : Creates expected (postgresAddTableCheckConstraint wanted.table check)
        (.tableCheck table.name candidate) :=
      ⟨wanted, hwanted, rfl, hname, hcheck, hsome, hsame⟩
    exact .replace hfamily rfl rfl trivial ⟨table, htable, rfl, tableCheck_mem_constraints hmem⟩ hcreates
  · dsimp only
    split
    · exact .empty
    · refine .ite (fun _ => ?_) fun _ => .empty
      exact soundPart_alterTable (by simp) (by simp [SchemaStatement.IsDrop])
  · exact soundPart_alterTable (by simp) (by simp [postgresAddTableCheckConstraint,
      SchemaStatement.IsDrop])

theorem soundPart_expectedChecks {checks : List DatabaseCheck} (matched : List Bool)
    (hchecks : ∀ check ∈ checks, check ∈ wanted.table.checks) : SoundPart expected actual family
      (diffExpectedChecks wanted.table table matched checks).2 := by
  induction checks generalizing matched with
  | nil => exact .empty
  | cons check checks ih =>
    have hfirst := soundPart_tableCheck hfamily hwanted htable hname matched
      (hchecks check List.mem_cons_self)
    exact hfirst.append (ih _ fun c hc => hchecks c (List.mem_cons_of_mem _ hc))

theorem soundPart_tableChecks :
    SoundPart expected actual family (diffPostgresTableChecks wanted.table table keeping) := by
  unfold diffPostgresTableChecks
  apply SoundPart.append (soundPart_expectedChecks hfamily hwanted htable hname _ fun _ h => h)
  apply SoundPart.concat
  intro plan hplan
  obtain ⟨check, -, rfl⟩ := List.mem_map.mp hplan
  unfold dropTableCheck
  refine .ite (fun _ => .empty) fun _ => ?_
  exact soundPart_alterTable (by simp [keeping]) (by simp [keeping])

theorem soundPart_column {column : DatabaseColumn} (hcolumn : column ∈ wanted.table.columns) :
    SoundPart expected actual family (diffPostgresColumn wanted.table table keeping column) := by
  unfold diffPostgresColumn
  split
  · exact .change (by simp) (by simp [SchemaStatement.IsDrop])
  · rename_i actualColumn hfind
    obtain ⟨hactual, hsame⟩ := findColumn_spec hfind
    apply SoundPart.append _
      (soundPart_reference hfamily hwanted htable hname _ hcolumn hactual hsame)
    apply SoundPart.append _ (soundPart_check hfamily hwanted htable hname _ hcolumn hactual hsame)
    apply SoundPart.append _ (soundPart_unique column actualColumn _)
    refine .ite (fun _ => .append (.ite (fun _ => .empty) fun _ => ?_)
      (.ite (fun _ => .warning _) fun _ => .empty)) fun _ => .empty
    exact soundPart_alterColumn (by simp) (renderPostgresScalarAlterations_keep column _)

theorem soundPart_index {index : DatabaseIndex} (hindex : index ∈ wanted.table.indexes) :
    SoundPart expected actual family (diffPostgresIndex wanted.table table index) := by
  unfold diffPostgresIndex
  split
  · exact soundPart_createIndex index
  · rename_i actualIndex hfind
    obtain ⟨hactual, hsame⟩ := findIndex_spec hfind
    refine .ite (fun _ => .empty) fun _ => ?_
    have hcreates : Creates expected (.createIndex wanted.table.name index)
        (.index table.name index.name) := ⟨wanted, hwanted, rfl, hname, hindex, rfl⟩
    have hdrops : (index.name, SchemaObject.index table.name index.name) ∈ actual.indexes :=
      List.mem_flatMap.mpr ⟨table, htable, List.mem_map.mpr ⟨actualIndex, hactual, by rw [hsame]⟩⟩
    exact .replace hfamily rfl rfl trivial hdrops hcreates

theorem soundPart_postgresTable :
    SoundPart expected actual family (diffPostgresTable wanted.table table keeping) := by
  have hdropColumn : ∀ column, SoundPart expected actual family
      (dropPostgresColumn wanted.table keeping column) := by
    intro column
    unfold dropPostgresColumn
    exact .ite (fun _ => .empty) fun _ => .change (by simp [keeping]) (by simp [keeping])
  unfold diffPostgresTable
  apply SoundPart.append _ (.concat (by simpa using fun index _ => soundPart_dropIndex index))
  apply SoundPart.append _
    (.concat (by simpa using fun index h => soundPart_index hfamily hwanted htable hname h))
  apply SoundPart.append _ (.concat (by simpa using fun column _ => hdropColumn column))
  apply SoundPart.append _ (soundPart_tableChecks hfamily hwanted htable hname)
  apply SoundPart.append _ soundPart_primaryKey
  exact .concat (by simpa using fun column h => soundPart_column hfamily hwanted htable hname h)

end

/-- What the changes of a plan can be. -/
theorem diffSchema_sound (expected : ExpectedSchema) (actual : DatabaseSchema)
    (family : DialectFamily) : SoundPart expected actual family
      (diffSchema expected actual family keeping) := by
  have hexpected : ∀ wanted ∈ expected.tables, SoundPart expected actual family
      (diffExpectedTable actual family keeping wanted) := by
    intro wanted hwanted
    unfold diffExpectedTable
    split
    · exact .change (by simp) (by simp [SchemaStatement.IsDrop])
    · rename_i table hfind
      have htable := List.mem_of_find?_eq_some hfind
      have hname : table.name = wanted.table.name := by simpa using List.find?_some hfind
      unfold diffExistingTable
      split
      · exact soundPart_postgresTable rfl hwanted htable hname
      · exact soundPart_sqliteTable
      · exact soundPart_sqliteTable
  have hdrop : ∀ table, SoundPart expected actual family (dropTableChange expected keeping table) := by
    intro table
    unfold dropTableChange
    exact .ite (fun _ => .empty) fun _ => .change (by simp [keeping]) (by simp [keeping])
  unfold diffSchema
  apply SoundPart.append (.concat (by simpa using fun wanted h => hexpected wanted h))
  exact .concat (by simpa using fun table _ => hdrop table)

end

/-! ## What is executed -/

/-- No two tables, no two constraints of a table and no two indexes have one name. -/
structure DatabaseSchema.NamesDistinct (schema : DatabaseSchema) : Prop where
  tables : (schema.tables.map (·.name)).Nodup
  constraints : ∀ table ∈ schema.tables, (table.constraints.map Prod.fst).Nodup
  indexes : (schema.indexes.map Prod.fst).Nodup

/-- The statement has a text. -/
def Written (dialect : Dialect) (statement : SchemaStatement) : Bool :=
  !(statement.render dialect).isEmpty

/-- The statement is followed by one that creates the object. -/
def Recreated (expected : ExpectedSchema) (statements : List SchemaStatement)
    (drop : SchemaStatement) (object : SchemaObject) : Prop :=
  ∃ before after, statements = before ++ drop :: after ∧
    ∃ creation ∈ after, Creates expected creation object

/-- A statement of the change keeps what the expected schema has: a DROP drops something, and
    everything that it drops is created again. -/
def Keeps (expected : ExpectedSchema) (actual : DatabaseSchema) (change : SchemaChange)
    (statement : SchemaStatement) : Prop :=
  (statement.IsDrop → ∃ object, Drops actual statement object) ∧
    ∀ object, Drops actual statement object → object.Replaceable ∧ expected.Has object ∧
      Recreated expected change.statements statement object

/-- In a schema with distinct names a statement drops one thing. -/
theorem DatabaseSchema.NamesDistinct.drops {actual : DatabaseSchema} (h : actual.NamesDistinct)
    {statement : SchemaStatement} {object object' : SchemaObject}
    (hdrops : Drops actual statement object) (hdrops' : Drops actual statement object') :
    object = object' := by
  cases statement with
  | dropTable name => exact hdrops.trans hdrops'.symm
  | dropColumn table name => exact hdrops.trans hdrops'.symm
  | dropIndex name =>
    have hpair := List.inj_on_of_nodup_map h.indexes hdrops hdrops' rfl
    exact (Prod.mk.inj hpair).2
  | dropConstraint name constraint =>
    obtain ⟨table, htable, hname, hmem⟩ := hdrops
    obtain ⟨table', htable', hname', hmem'⟩ := hdrops'
    have hsame := List.inj_on_of_nodup_map h.tables htable htable' (hname.trans hname'.symm)
    subst hsame
    have hpair := List.inj_on_of_nodup_map (h.constraints table htable) hmem hmem' rfl
    exact (Prod.mk.inj hpair).2
  | _ => cases hdrops

theorem not_drops {actual : DatabaseSchema} {statement : SchemaStatement} {object : SchemaObject}
    (h : ¬ statement.IsDrop) : ¬ Drops actual statement object := by
  cases statement <;> simp_all [SchemaStatement.IsDrop, Drops]

/-- What a sound change does, where a statement drops one thing only. -/
theorem Sound.keeps {expected : ExpectedSchema} {actual : DatabaseSchema} {change : SchemaChange}
    {family : DialectFamily} (h : Sound expected actual family change)
    (hnames : family = .postgres → actual.NamesDistinct)
    {statement : SchemaStatement} (hstatement : statement ∈ change.statements) :
    Keeps expected actual change statement := by
  obtain hkeep | ⟨hfamily, drop, creation, object, hstatements, hdrop, hdrops, hcreates⟩ := h.2
  · have hno := hkeep statement hstatement
    exact ⟨fun hdrop => absurd hdrop hno, fun object hdrops => absurd hdrops (not_drops hno)⟩
  · rw [hstatements] at hstatement
    obtain rfl | hmem := List.mem_cons.mp hstatement
    · refine ⟨fun _ => ⟨object, hdrops⟩, fun object' hdrops' => ?_⟩
      cases (hnames hfamily).drops hdrops hdrops'
      have hlater : Recreated expected change.statements statement object :=
        ⟨[], [creation], hstatements, creation, List.mem_singleton_self _, hcreates⟩
      exact ⟨hcreates.has.2, hcreates.has.1, hlater⟩
    · cases List.mem_singleton.mp hmem
      -- The creation itself drops nothing.
      have hno : ¬ statement.IsDrop := by
        obtain ⟨wanted, -, hcreates⟩ := hcreates
        split at hcreates <;> first | exact id | cases hcreates
      exact ⟨fun hdrop => absurd hdrop hno, fun object hdrops => absurd hdrops (not_drops hno)⟩

theorem executeStatements_sent (dialect : Dialect) (execute : String → Except Exn Unit)
    (statements : List SchemaStatement) :
    (executeStatements dialect execute statements).1 ⊆ statements ∧
      ((executeStatements dialect execute statements).2 = .ok () →
        (executeStatements dialect execute statements).1 =
          statements.filter (Written dialect)) := by
  induction statements with
  | nil => exact ⟨fun _ h => h, fun _ => rfl⟩
  | cons statement statements ih =>
    obtain ⟨hsub, hall⟩ := ih
    unfold executeStatements
    by_cases htext : (statement.render dialect).isEmpty
    · simp only [htext, if_true]
      refine ⟨fun s hs => List.mem_cons_of_mem _ (hsub hs), fun hok => ?_⟩
      rw [hall hok, List.filter_cons_of_neg (by simp [Written, htext])]
    · simp only [htext, if_false, Bool.false_eq_true]
      cases execute (statement.render dialect) with
      | error e => exact ⟨by simp, by simp⟩
      | ok u =>
        refine ⟨?_, fun hok => ?_⟩
        · intro s hs
          obtain rfl | hmem := List.mem_cons.mp hs
          · exact List.mem_cons_self
          · exact List.mem_cons_of_mem _ (hsub hmem)
        · show statement :: _ = _
          rw [hall hok, List.filter_cons_of_pos (by simp [Written, htext])]

/-- What is sent: statements of safe changes, all of them when no statement throws. -/
theorem executeChanges_sent (dialect : Dialect) (execute : String → Except Exn Unit)
    {options : SynchronizeOptions} (hoptions : options.allowDestructive = false)
    (changes : List SchemaChange) :
    ∀ p ∈ (executeChanges dialect execute options changes).1, p.1 ∈ changes ∧ p.1.safe = true ∧
      p.2 ⊆ p.1.statements ∧ ((executeChanges dialect execute options changes).2 = .ok () →
        p.2 = p.1.statements.filter (Written dialect)) := by
  induction changes with
  | nil =>
    intro p hp
    cases hp
  | cons change changes ih =>
    intro p hp
    unfold executeChanges at hp ⊢
    cases hsafe : change.safe with
    | false =>
      simp only [hsafe, hoptions, Bool.not_false, Bool.and_self, if_true] at hp ⊢
      exact (ih p hp).imp (List.mem_cons_of_mem _) id
    | true =>
      simp only [hsafe, Bool.not_true, Bool.false_and, Bool.false_eq_true, if_false] at hp ⊢
      obtain ⟨hsub, hall⟩ := executeStatements_sent dialect execute change.statements
      cases hrun : executeStatements dialect execute change.statements with
      | mk sent result =>
        rw [hrun] at hsub hall hp
        cases result with
        | error e =>
          cases List.mem_singleton.mp hp
          exact ⟨List.mem_cons_self, hsafe, hsub, by simp⟩
        | ok u =>
          obtain rfl | hmem := List.mem_cons.mp hp
          · exact ⟨List.mem_cons_self, hsafe, hsub, fun _ => hall rfl⟩
          · exact (ih p hmem).imp (List.mem_cons_of_mem _) id

/-- What a plan that is not destructive keeps. -/
theorem plan_preserves (expected : ExpectedSchema) (actual : DatabaseSchema) (dialect : Dialect)
    (execute : String → Except Exn Unit) {options : SynchronizeOptions}
    (hoptions : options.allowDestructive = false)
    (hnames : dialect.family = .postgres → actual.NamesDistinct) :
    let plan := diffSchema expected actual dialect.family { allowDestructive := false }
    let run := executeSchemaPlan dialect execute plan options
    (∀ change ∈ plan.changes, change.safe = false → change.statements = []) ∧
      (∀ p ∈ run.1, p.1 ∈ plan.changes ∧ p.1.safe = true ∧ p.2 ⊆ p.1.statements ∧
        (∀ statement ∈ p.2, Keeps expected actual p.1 statement) ∧
        (run.2 = .ok () → p.2 = p.1.statements.filter (Written dialect))) ∧
      (options.dryRun = true → run.1 = []) := by
  intro plan run
  have hsound : SoundPart expected actual dialect.family plan :=
    diffSchema_sound expected actual dialect.family
  refine ⟨fun change hchange => (hsound change hchange).1, ?_, ?_⟩
  · intro p hp
    unfold run executeSchemaPlan at hp ⊢
    split at hp
    · cases hp
    · rename_i hdry
      simp only [hdry, Bool.false_eq_true, if_false]
      obtain ⟨hmem, hsafe, hsub, hall⟩ :=
        executeChanges_sent dialect execute hoptions plan.changes p hp
      exact ⟨hmem, hsafe, hsub, fun s hs => (hsound p.1 hmem).keeps hnames (hsub hs), hall⟩
  · intro hdry
    simp [run, executeSchemaPlan, hdry]

/-- A table of whose column the check is to change. -/
def checkedTable (expression : String) : DatabaseTable where
  name := "t"
  columns := [{ name := "id", type := "integer" },
    { name := "c", type := "integer", check := some expression }]
  primaryKey := ["id"]

/-- On PostgreSQL the check is replaced. -/
theorem plan_preserves_check :
    let actual : DatabaseSchema := { tables := [checkedTable "c > 0"] }
    let expected : ExpectedSchema := { tables := [{
      table := checkedTable "c > 1"
      createTableSql := "CREATE TABLE t (id integer PRIMARY KEY, c integer CHECK (c > 1));" }] }
    let plan := diffSchema expected actual .postgres { allowDestructive := false }
    let run := executeSchemaPlan Query.postgresDialect (fun _ => .ok ()) plan {}
    (∀ change ∈ plan.changes, change.safe = false → change.statements = []) ∧
      (∀ p ∈ run.1, p.1 ∈ plan.changes ∧ p.1.safe = true ∧ p.2 ⊆ p.1.statements ∧
        (∀ statement ∈ p.2, Keeps expected actual p.1 statement) ∧
        (run.2 = .ok () → p.2 = p.1.statements.filter (Written Query.postgresDialect))) ∧
      (({} : SynchronizeOptions).dryRun = true → run.1 = []) :=
  plan_preserves _ _ Query.postgresDialect (fun _ => .ok ()) rfl
    fun _ => ⟨by decide, by decide, by decide⟩

/-- The name of the check, given to the primary key. -/
def misnamedTable : DatabaseTable :=
  { checkedTable "c > 0" with primaryKeyName := some "t_c_check" }

/-- Where the primary key has the name of the check, the replacement drops the primary key. -/
theorem not_plan_preserves : ¬ ∀ (expected : ExpectedSchema) (actual : DatabaseSchema),
    let plan := diffSchema expected actual .postgres { allowDestructive := false }
    let run := executeSchemaPlan Query.postgresDialect (fun _ => .ok ()) plan {}
    ∀ p ∈ run.1, ∀ statement ∈ p.2, Keeps expected actual p.1 statement := by
  intro h
  have hkeeps := h { tables := [{ table := checkedTable "c > 1", createTableSql := "" }] }
    { tables := [misnamedTable] }
  have hsent : ∃ p ∈ (executeSchemaPlan Query.postgresDialect (fun _ => .ok ())
      (diffSchema { tables := [{ table := checkedTable "c > 1", createTableSql := "" }] }
        { tables := [misnamedTable] } .postgres { allowDestructive := false }) {}).1,
      SchemaStatement.dropConstraint "t" "t_c_check" ∈ p.2 := by decide +kernel
  have hdrops : Drops { tables := [misnamedTable] } (.dropConstraint "t" "t_c_check")
      (.primaryKey "t") := ⟨misnamedTable, List.mem_singleton_self _, rfl, by decide⟩
  obtain ⟨p, hp, hstatement⟩ := hsent
  exact ((hkeeps p hp _ hstatement).2 _ hdrops).1

end MetalOrm.Native.Schema
