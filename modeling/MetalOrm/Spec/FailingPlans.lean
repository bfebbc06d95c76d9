import MetalOrm.Spec.CheckMatching
import MetalOrm.Spec.SchemaSafety

/-!
# Plans that fail on the way

`execute_schema_plan` sends one statement after the other and opens no transaction. A constraint or
an index that is to change is dropped by one statement and created by the next: when the second
throws, the first has taken effect.

## Key results

- `executeSchemaPlan_position`: what is sent when a statement throws
- `failing_plan_keeps_iff`: which schemas can be brought up to date without such a loss
-/

namespace MetalOrm.Native.Schema

open Query (Dialect DialectFamily)

/-! ## What has been executed -/

/-- The statements that a plan sends without `allow_destructive`. -/
def SchemaPlan.sent (dialect : Dialect) (changes : List SchemaChange) : List SchemaStatement :=
  ((changes.filter (·.safe)).flatMap (·.statements)).filter (Written dialect)

theorem executeStatements_position (dialect : Dialect) (execute : String → Except Exn Unit)
    (statements : List SchemaStatement) :
    match executeStatements dialect execute statements with
    | (sent, .ok ()) => sent = statements.filter (Written dialect)
    | (sent, .error _) => ∃ n < (statements.filter (Written dialect)).length,
        sent = (statements.filter (Written dialect)).take (n + 1) := by
  induction statements with
  | nil => rfl
  | cons statement statements ih =>
    unfold executeStatements
    by_cases htext : (statement.render dialect).isEmpty = true
    · -- An empty text is not sent.
      have hfilter : (statement :: statements).filter (Written dialect) =
          statements.filter (Written dialect) :=
        List.filter_cons_of_neg (by simp [Written, htext])
      simp only [htext, if_true, hfilter]
      exact ih
    · have hfilter : (statement :: statements).filter (Written dialect) =
          statement :: statements.filter (Written dialect) :=
        List.filter_cons_of_pos (by simp [Written, htext])
      simp only [htext, if_false, Bool.false_eq_true, hfilter]
      cases execute (statement.render dialect) with
      | error e => exact ⟨0, by simp, by simp⟩
      | ok u =>
        cases hrun : executeStatements dialect execute statements with
        | mk sent result =>
          rw [hrun] at ih
          cases result with
          | ok u => exact congrArg _ ih
          | error e =>
            obtain ⟨n, hn, hsent⟩ := ih
            exact ⟨n + 1, by simpa using hn, by simp [hsent]⟩

/-- When a statement throws, the statements before it have been executed, and no other. -/
theorem executeChanges_position (dialect : Dialect) (execute : String → Except Exn Unit)
    (changes : List SchemaChange) :
    match executeChanges dialect execute {} changes with
    | (runs, .ok ()) => runs.flatMap Prod.snd = SchemaPlan.sent dialect changes
    | (runs, .error _) => ∃ n < (SchemaPlan.sent dialect changes).length,
        runs.flatMap Prod.snd = (SchemaPlan.sent dialect changes).take (n + 1) := by
  induction changes with
  | nil => rfl
  | cons change changes ih =>
    unfold executeChanges
    cases hsafe : change.safe with
    | false =>
      have hskip : SchemaPlan.sent dialect (change :: changes) = SchemaPlan.sent dialect changes := by
        simp [SchemaPlan.sent, hsafe]
      rw [hskip]
      exact ih
    | true =>
      have hsent : SchemaPlan.sent dialect (change :: changes) =
          change.statements.filter (Written dialect) ++ SchemaPlan.sent dialect changes := by
        simp [SchemaPlan.sent, hsafe]
      simp only [hsent, Bool.not_true, Bool.false_and, Bool.false_eq_true, if_false]
      have hstatements := executeStatements_position dialect execute change.statements
      cases hrun : executeStatements dialect execute change.statements with
      | mk sent result =>
        rw [hrun] at hstatements
        cases result with
        | error e =>
          obtain ⟨n, hn, hbegins⟩ := hstatements
          refine ⟨n, by rw [List.length_append]; omega, ?_⟩
          rw [List.take_append_of_le_length (by omega)]
          simpa using hbegins
        | ok u =>
          cases hrest : executeChanges dialect execute {} changes with
          | mk runs result =>
            rw [hrest] at ih
            have hfirst : sent = change.statements.filter (Written dialect) := hstatements
            cases result with
            | ok u =>
              show sent ++ runs.flatMap Prod.snd = _
              rw [hfirst, ih]
            | error e =>
              obtain ⟨n, hn, hbegins⟩ := ih
              refine ⟨sent.length + n, by rw [List.length_append, ← hfirst]; omega, ?_⟩
              show sent ++ runs.flatMap Prod.snd = _
              rw [hbegins, ← hfirst, Nat.add_assoc, List.take_length_add_append]

/-! ## The objects of the database -/

/-- The constraints and the indexes of a schema. -/
def DatabaseSchema.objects (schema : DatabaseSchema) : List SchemaObject :=
  schema.tables.flatMap (fun table => table.constraints.map Prod.snd) ++
    schema.indexes.map Prod.snd

/-- What a statement does to the objects that a database has. -/
def SchemaStatement.apply (expected : ExpectedSchema) (actual : DatabaseSchema)
    (objects : Set SchemaObject) (statement : SchemaStatement) : Set SchemaObject :=
  { object | (object ∈ objects ∧ ¬ Drops actual statement object) ∨
    Creates expected statement object }

/-- The objects after some statements. -/
def objectsAfter (expected : ExpectedSchema) (actual : DatabaseSchema)
    (statements : List SchemaStatement) : Set SchemaObject :=
  statements.foldl (SchemaStatement.apply expected actual) { object | object ∈ actual.objects }

theorem objectsAfter_concat (expected : ExpectedSchema) (actual : DatabaseSchema)
    (statements : List SchemaStatement) (statement : SchemaStatement) :
    objectsAfter expected actual (statements ++ [statement]) =
      statement.apply expected actual (objectsAfter expected actual statements) := by
  simp [objectsAfter]

/-- Without a DROP nothing is lost. -/
theorem mem_objectsAfter {expected : ExpectedSchema} {actual : DatabaseSchema}
    {statements : List SchemaStatement} (h : ∀ statement ∈ statements, ¬ statement.IsDrop)
    {object : SchemaObject} (hobject : object ∈ actual.objects) :
    object ∈ objectsAfter expected actual statements := by
  induction statements using List.reverseRecOn with
  | nil => exact hobject
  | append_singleton statements statement ih =>
    rw [objectsAfter_concat]
    refine .inl ⟨ih fun s hs => h s (List.mem_append_left _ hs), ?_⟩
    exact not_drops (h statement (by simp))

theorem Drops.mem_objects {actual : DatabaseSchema} {statement : SchemaStatement}
    {object : SchemaObject} (h : Drops actual statement object) (hobject : object.Replaceable) :
    object ∈ actual.objects := by
  cases statement with
  | dropTable name =>
    cases h
    exact hobject.elim
  | dropColumn table name =>
    cases h
    exact hobject.elim
  | dropConstraint name constraint =>
    obtain ⟨table, htable, -, hmem⟩ := h
    exact List.mem_append_left _ (List.mem_flatMap.mpr ⟨table, htable, List.mem_map_of_mem hmem⟩)
  | dropIndex name => exact List.mem_append_right _ (List.mem_map_of_mem h)
  | _ => cases h

/-- Whatever statement throws, what the expected schema has and the database had is there. -/
def LosesNothing (expected : ExpectedSchema) (actual : DatabaseSchema)
    (statements : List SchemaStatement) : Prop :=
  ∀ n < statements.length, ∀ object ∈ actual.objects, expected.Has object →
    object ∈ objectsAfter expected actual (statements.take n)

/-! ## What is replaced -/

/-- The column has a check or a reference that is not the one of the database. -/
def ColumnReplaced (column actual : DatabaseColumn) : Prop :=
  (∃ expression ∈ column.check, ∃ old ∈ actual.check,
    normalizeCheckExpression expression ≠ normalizeCheckExpression old) ∨
  ∃ reference ∈ column.references, ∃ old ∈ actual.references,
    sameReferenceDefinition reference old = false

/-- A wanted check has another expression than its namesake, which no check before it took. -/
def ChecksReplaced : List DatabaseCheck → List DatabaseCheck → Prop
  | [], _ => False
  | wanted :: checks, free =>
    (∃ candidate ∈ free.find? (namesake wanted), synonym wanted candidate = false) ∨
      ChecksReplaced checks (leftFree wanted free)

/-- Something of the table is to be replaced. -/
def TableReplaced (wanted table : DatabaseTable) : Prop :=
  (∃ column ∈ wanted.columns, ∃ old ∈ findColumn table column.name, ColumnReplaced column old) ∨
  ChecksReplaced wanted.checks table.checks ∨
  ∃ index ∈ wanted.indexes, ∃ old ∈ findIndex table index.name, sameIndex index old = false

/-- Something of the schema is to be replaced. -/
def Replaces (expected : ExpectedSchema) (actual : DatabaseSchema) : Prop :=
  ∃ wanted ∈ expected.tables, ∃ table ∈ actual.tables.find? (·.name = wanted.table.name),
    TableReplaced wanted.table table

/-- Some statement of the part of a plan is a DROP. -/
def SchemaPlan.HasDrop (plan : SchemaPlan) : Prop :=
  ∃ change ∈ plan.changes, ∃ statement ∈ change.statements, statement.IsDrop

namespace SchemaPlan

variable {plan plan' : SchemaPlan}

@[simp] theorem not_hasDrop_empty : ¬ SchemaPlan.empty.HasDrop := by
  simp [HasDrop, SchemaPlan.empty]

@[simp] theorem not_hasDrop_warning (text : String) : ¬ (SchemaPlan.warning text).HasDrop := by
  simp [HasDrop, SchemaPlan.warning]

@[simp] theorem hasDrop_change (change : SchemaChange) :
    (SchemaPlan.change change).HasDrop ↔ ∃ statement ∈ change.statements, statement.IsDrop := by
  simp [HasDrop, SchemaPlan.change]

@[simp] theorem hasDrop_append : (plan ++ plan').HasDrop ↔ plan.HasDrop ∨ plan'.HasDrop := by
  simp only [HasDrop, changes_append, List.mem_append, or_and_right, exists_or]

@[simp] theorem hasDrop_concat {α : Type} {part : α → SchemaPlan} {items : List α} :
    (concat (items.map part)).HasDrop ↔ ∃ item ∈ items, (part item).HasDrop := by
  induction items with
  | nil => simp [concat]
  | cons item items ih => simp [concat, ih]

@[simp] theorem hasDrop_ite {c : Prop} [Decidable c] :
    (if c then plan else plan').HasDrop ↔ (c ∧ plan.HasDrop) ∨ (¬ c ∧ plan'.HasDrop) := by
  by_cases hc : c <;> simp [hc]

@[simp] theorem hasDrop_alterColumn (table : DatabaseTable) (description : String)
    (statements : List SchemaStatement) (safe : Bool) :
    (alterColumnChange table description statements safe).HasDrop ↔
      ∃ statement ∈ statements, statement.IsDrop :=
  hasDrop_change _

@[simp] theorem hasDrop_alterTable (table : DatabaseTable) (description : String)
    (statements : List SchemaStatement) (safe : Bool) :
    (alterTableChange table description statements safe).HasDrop ↔
      ∃ statement ∈ statements, statement.IsDrop :=
  hasDrop_change _

end SchemaPlan

section

variable (wanted table : DatabaseTable)

theorem hasDrop_check (column actualColumn : DatabaseColumn) :
    (diffPostgresCheckConstraint wanted column actualColumn (diffColumn column actualColumn)
        keeping).HasDrop ↔
      ∃ expression ∈ column.check, ∃ old ∈ actualColumn.check,
        normalizeCheckExpression expression ≠ normalizeCheckExpression old := by
  unfold diffPostgresCheckConstraint
  cases hcheck : column.check with
  | none =>
    cases hold : actualColumn.check <;>
      simp [keeping]
  | some expression =>
    cases hold : actualColumn.check <;>
      simp [diffColumn, normalizeSchemaDefault, hcheck, hold, postgresDropConstraint,
        postgresAddCheckConstraint, SchemaStatement.IsDrop]

theorem hasDrop_reference (column actualColumn : DatabaseColumn) :
    (diffPostgresReferenceConstraint wanted column actualColumn (diffColumn column actualColumn)
        keeping).HasDrop ↔
      ∃ reference ∈ column.references, ∃ old ∈ actualColumn.references,
        sameReferenceDefinition reference old = false := by
  unfold diffPostgresReferenceConstraint
  cases hreference : column.references with
  | none =>
    cases hold : actualColumn.references <;>
      simp [keeping]
  | some reference =>
    cases hold : actualColumn.references with
    | none =>
      simp [postgresAddReferenceConstraint, SchemaStatement.IsDrop]
    | some old =>
      -- References of different definitions are different references.
      have hchanged : sameReferenceDefinition reference old = false →
          (diffColumn column actualColumn).referenceChanged = true := by
        simp only [diffColumn, hreference, hold, sameReference, Bool.not_eq_true']
        intro hdefinition
        by_contra hsame
        simp_all [sameNamedReference, sameReferenceDefinition]
      cases hdefinition : sameReferenceDefinition reference old with
      | true => simp [hdefinition, SchemaStatement.IsDrop]
      | false =>
        simp [hdefinition, hchanged hdefinition, postgresDropConstraint, SchemaStatement.IsDrop]

theorem not_hasDrop_unique (column actualColumn : DatabaseColumn) (diff : ColumnDiff) :
    ¬ (diffPostgresUniqueConstraint wanted column actualColumn diff keeping).HasDrop := by
  simp [diffPostgresUniqueConstraint, keeping, postgresAddUniqueConstraint, SchemaStatement.IsDrop]

theorem hasDrop_column (column : DatabaseColumn) :
    (diffPostgresColumn wanted table keeping column).HasDrop ↔
      ∃ old ∈ findColumn table column.name, ColumnReplaced column old := by
  unfold diffPostgresColumn
  cases hfind : findColumn table column.name with
  | none => simp [SchemaStatement.IsDrop]
  | some old =>
    have hscalar : ¬ ∃ statement ∈ renderPostgresScalarAlterations wanted column
        (diffColumn column old), statement.IsDrop := by
      rintro ⟨statement, hstatement, hdrop⟩
      -- No alteration of a column is a DROP.
      simp only [renderPostgresScalarAlterations, List.mem_append] at hstatement
      obtain ((h | h) | h) | h := hstatement <;>
      · split at h
        · cases List.mem_singleton.mp h
          exact hdrop
        · cases h
    simp [hscalar, hasDrop_check, hasDrop_reference, not_hasDrop_unique, ColumnReplaced]

theorem hasDrop_planChecks (checks free : List DatabaseCheck) :
    (planChecks wanted table keeping checks free).HasDrop ↔ ChecksReplaced checks free := by
  induction checks generalizing free with
  | nil => simp [planChecks, ChecksReplaced, dropTableCheck, keeping]
  | cons check checks ih =>
    rw [planChecks, SchemaPlan.hasDrop_append, ih, ChecksReplaced]
    refine or_congr_left ?_
    unfold planCheck
    cases hname : free.find? (namesake check) with
    | some candidate =>
      simp [postgresDropConstraint, postgresAddTableCheckConstraint, SchemaStatement.IsDrop]
    | none =>
      cases hsame : free.find? (synonym check) with
      | none => simp [postgresAddTableCheckConstraint, SchemaStatement.IsDrop]
      | some candidate =>
        cases check.name <;> simp [SchemaStatement.IsDrop]

theorem hasDrop_tableChecks : (diffPostgresTableChecks wanted table keeping).HasDrop ↔
    ChecksReplaced wanted.checks table.checks := by
  rw [← hasDrop_planChecks wanted table]
  unfold SchemaPlan.HasDrop
  rw [changes_diffPostgresTableChecks]

theorem not_hasDrop_primaryKey : ¬ (diffPostgresPrimaryKey wanted table keeping).HasDrop := by
  simp [diffPostgresPrimaryKey, keeping, postgresAddPrimaryKeyConstraint, SchemaStatement.IsDrop]

theorem hasDrop_index (index : DatabaseIndex) : (diffPostgresIndex wanted table index).HasDrop ↔
    ∃ old ∈ findIndex table index.name, sameIndex index old = false := by
  unfold diffPostgresIndex createIndexChange
  cases findIndex table index.name <;> simp [SchemaStatement.IsDrop]

theorem hasDrop_postgresTable :
    (diffPostgresTable wanted table keeping).HasDrop ↔ TableReplaced wanted table := by
  have hcolumns : ∀ column, ¬ (dropPostgresColumn wanted keeping column).HasDrop := by
    simp [dropPostgresColumn, keeping]
  have hindexes : ∀ index, ¬ (dropIndexChange wanted keeping index).HasDrop := by
    simp [dropIndexChange, keeping]
  simp only [diffPostgresTable, SchemaPlan.hasDrop_append, SchemaPlan.hasDrop_concat,
    hasDrop_column, not_hasDrop_primaryKey, hasDrop_tableChecks, hcolumns,
    hasDrop_index, hindexes, and_false, exists_false, or_false, TableReplaced, or_assoc]

/-- A plan drops something exactly when something is to be replaced. -/
theorem hasDrop_diffSchema (expected : ExpectedSchema) (actual : DatabaseSchema) :
    (diffSchema expected actual .postgres keeping).HasDrop ↔ Replaces expected actual := by
  have hdrop : ∀ table, ¬ (dropTableChange expected keeping table).HasDrop := by
    simp [dropTableChange, keeping]
  simp only [diffSchema, SchemaPlan.hasDrop_append, SchemaPlan.hasDrop_concat,
    hdrop, and_false, exists_false, or_false, Replaces]
  refine exists_congr fun wanted => and_congr_right fun _ => ?_
  unfold diffExpectedTable
  cases actual.tables.find? (·.name = wanted.table.name) with
  | none => simp [SchemaStatement.IsDrop]
  | some table => simp [diffExistingTable, hasDrop_postgresTable]

end

/-! ## The loss -/

theorem written_of_render {dialect : Dialect} {statement : SchemaStatement} {text ending : String}
    (h : statement.render dialect = text ++ ending) (hending : ending ≠ "") :
    Written dialect statement = true := by
  simp [Written, h, hending]

theorem written_of_isDrop (dialect : Dialect) {statement : SchemaStatement} (h : statement.IsDrop) :
    Written dialect statement = true := by
  have hsemicolon : ";" ≠ "" := by decide
  cases statement with
  | dropTable name => exact written_of_render (rfl : _ = _ ++ ";") hsemicolon
  | dropColumn table name => exact written_of_render (rfl : _ = _ ++ ";") hsemicolon
  | dropConstraint table name => exact written_of_render (rfl : _ = _ ++ ";") hsemicolon
  | dropIndex name => exact written_of_render (rfl : _ = _ ++ ";") hsemicolon
  | _ => cases h

theorem Creates.written {expected : ExpectedSchema} {statement : SchemaStatement}
    {object : SchemaObject} (h : Creates expected statement object) (dialect : Dialect) :
    Written dialect statement = true := by
  obtain ⟨wanted, -, h⟩ := h
  split at h
  · exact written_of_render (rfl : _ = _ ++ ");") (by decide)
  · exact written_of_render (rfl : _ = _ ++ ";") (by decide)
  · exact written_of_render (rfl : _ = _ ++ ");") (by decide)
  · exact written_of_render (rfl : _ = _ ++ ";") (by decide)
  · cases h

theorem Creates.not_isDrop {expected : ExpectedSchema} {statement : SchemaStatement}
    {object : SchemaObject} (h : Creates expected statement object) : ¬ statement.IsDrop := by
  obtain ⟨wanted, -, h⟩ := h
  split at h <;> first | exact id | cases h

/-- A replacement whose second statement throws has lost what it replaces. -/
theorem not_losesNothing {expected : ExpectedSchema} {actual : DatabaseSchema}
    (dialect : Dialect) {changes : List SchemaChange} {change : SchemaChange}
    (hchange : change ∈ changes) (hsound : Sound expected actual .postgres change)
    {statement : SchemaStatement} (hstatement : statement ∈ change.statements)
    (hdrop : statement.IsDrop) :
    ¬ LosesNothing expected actual (SchemaPlan.sent dialect changes) := by
  intro hkept
  obtain hkeep | ⟨-, drop, creation, object, hstatements, hdrop, hdrops, hcreates⟩ := hsound.2
  · exact hkeep statement hstatement hdrop
  have hsafe : change.safe = true := by
    by_contra hunsafe
    have hnone := hsound.1 (by simpa using hunsafe)
    rw [hstatements] at hnone
    cases hnone
  -- The DROP and the creation follow each other in what is sent.
  obtain ⟨earlier, later, rfl⟩ := List.append_of_mem hchange
  have hsent : SchemaPlan.sent dialect (earlier ++ change :: later) =
      (SchemaPlan.sent dialect earlier ++ [drop]) ++
        creation :: SchemaPlan.sent dialect later := by
    simp [SchemaPlan.sent, hsafe, hstatements, written_of_isDrop dialect hdrop,
      hcreates.written dialect]
  have hobject := hkept (SchemaPlan.sent dialect earlier ++ [drop]).length
    (by simp [hsent]) object
    (hdrops.mem_objects hcreates.has.2) hcreates.has.1
  rw [hsent, List.take_left, objectsAfter_concat] at hobject
  obtain ⟨-, hnot⟩ | hcreated := hobject
  · exact hnot hdrops
  · exact hcreated.not_isDrop hdrop

/-- A failing plan loses nothing exactly when nothing is to be replaced. -/
theorem failing_plan_keeps_iff (expected : ExpectedSchema) (actual : DatabaseSchema) :
    let plan := diffSchema expected actual .postgres { allowDestructive := false }
    let sent := SchemaPlan.sent Query.postgresDialect plan.changes
    (∀ execute e, (executeSchemaPlan Query.postgresDialect execute plan {}).2 = .error e →
      ∃ n < sent.length, (executeSchemaPlan Query.postgresDialect execute plan {}).1.flatMap
        Prod.snd = sent.take (n + 1)) ∧
    (LosesNothing expected actual sent ↔ ¬ Replaces expected actual) := by
  intro plan sent
  constructor
  · intro execute e hfails
    have hposition := executeChanges_position Query.postgresDialect execute plan.changes
    have hrun : executeSchemaPlan Query.postgresDialect execute plan {} =
        executeChanges Query.postgresDialect execute {} plan.changes := rfl
    rw [hrun] at hfails ⊢
    cases hresult : executeChanges Query.postgresDialect execute {} plan.changes with
    | mk runs result =>
      rw [hresult] at hfails hposition
      cases result with
      | ok u => cases hfails
      | error e => exact hposition
  · rw [← hasDrop_diffSchema]
    constructor
    · rintro hkept ⟨change, hchange, statement, hstatement, hdrop⟩
      exact not_losesNothing _ hchange (diffSchema_sound expected actual .postgres change hchange)
        hstatement hdrop hkept
    · intro hno n hn object hobject hhas
      refine mem_objectsAfter (fun statement hstatement hdrop => hno ?_) hobject
      have hmem := List.mem_of_mem_take hstatement
      obtain ⟨change, hchange, hin⟩ := List.mem_flatMap.mp (List.mem_filter.mp hmem).1
      exact ⟨change, (List.mem_filter.mp hchange).1, statement, hin, hdrop⟩

/-- The check of a column is dropped, and its new definition is refused. -/
theorem failing_plan_loses_check :
    let actual : DatabaseSchema := { tables := [checkedTable "c > 0"] }
    let expected : ExpectedSchema := { tables := [{
      table := checkedTable "c > 1"
      createTableSql := "CREATE TABLE t (id integer PRIMARY KEY, c integer CHECK (c > 1));" }] }
    let plan := diffSchema expected actual .postgres { allowDestructive := false }
    ¬ LosesNothing expected actual (SchemaPlan.sent Query.postgresDialect plan.changes) := by
  intro actual expected plan hkept
  have hsent : SchemaPlan.sent Query.postgresDialect plan.changes =
      [.dropConstraint "t" "t_c_check", .addCheck "t" "t_c_check" "c" "c > 1"] := by
    decide +kernel
  rw [hsent] at hkept
  have hthere := hkept 1 (by decide) (.check "t" "c") (by decide)
    ⟨_, List.mem_singleton_self _, rfl, { name := "c", type := "integer", check := some "c > 1" },
      by decide, rfl, rfl⟩
  obtain ⟨-, hnot⟩ | ⟨wanted, -, hcreated⟩ := hthere
  · exact hnot ⟨checkedTable "c > 0", List.mem_singleton_self _, rfl, by decide⟩
  · exact hcreated

end MetalOrm.Native.Schema
