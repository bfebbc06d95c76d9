import MetalOrm.ForStd.Keyed
import MetalOrm.Native.SchemaDiff

/-!
# When the schema diff has nothing to say

A part of a plan is quiet when it has neither a change nor a warning. Each function of the diff is
quiet exactly when what it compares agrees, up to its normalisations.

## Key results

- `sameChecks_iff`: the greedy matching of SQLite finds the same checks in any order
- `quiet_expectedChecks`: what the greedy matching of PostgreSQL pairs
- `quiet_sqliteTable`, `quiet_postgresTable`: when a table is left alone
- `schema_agreement`: the diff is quiet when the schemas agree, and only then
-/

namespace MetalOrm.Native.Schema

open ForStd
open Query (Dialect DialectFamily)

/-! ## Quiet parts -/

/-- Neither a change nor a warning. -/
def Quiet (plan : SchemaPlan) : Prop := plan.changes = [] ∧ plan.warnings = []

@[simp] theorem quiet_empty : Quiet .empty := ⟨rfl, rfl⟩

@[simp] theorem not_quiet_change (change : SchemaChange) : ¬ Quiet (.change change) := by
  simp [Quiet, SchemaPlan.change]

@[simp] theorem not_quiet_warning (text : String) : ¬ Quiet (.warning text) := by
  simp [Quiet, SchemaPlan.warning]

@[simp] theorem not_quiet_alterColumn (table : DatabaseTable) (description : String)
    (statements : List SchemaStatement) (safe : Bool) :
    ¬ Quiet (alterColumnChange table description statements safe) := not_quiet_change _

@[simp] theorem not_quiet_alterTable (table : DatabaseTable) (description : String)
    (statements : List SchemaStatement) (safe : Bool) :
    ¬ Quiet (alterTableChange table description statements safe) := not_quiet_change _

@[simp] theorem quiet_append {p q : SchemaPlan} : Quiet (p ++ q) ↔ Quiet p ∧ Quiet q := by
  simp only [Quiet, SchemaPlan.changes_append, SchemaPlan.warnings_append, List.append_eq_nil_iff]
  exact and_and_and_comm

theorem quiet_concat {α : Type} {f : α → SchemaPlan} {xs : List α} :
    Quiet (.concat (xs.map f)) ↔ ∀ x ∈ xs, Quiet (f x) := by
  induction xs with
  | nil => simp [SchemaPlan.concat]
  | cons x xs ih =>
    show Quiet (f x ++ .concat (xs.map f)) ↔ _
    rw [quiet_append, ih, List.forall_mem_cons]

/-! ## Agreement up to the normalisations -/

/-- The names agree. On PostgreSQL a name that is left out is the default name. -/
def SameName (family : DialectFamily) (default : String) (expected actual : Option String) : Prop :=
  match family with
  | .postgres => expected.getD default = actual.getD default
  | .sqlite | .generic => expected = actual

/-- The references agree up to the letter case of their actions and an action that is left
    out. -/
def SameReference (family : DialectFamily) (default : String)
    (expected actual : Option ForeignKeyReference) : Prop :=
  match expected, actual with
  | none, none => True
  | some expected, some actual =>
    sameReferenceDefinition expected actual = true ∧
      SameName family default expected.name actual.name
  | _, _ => False

/-- The default name of a constraint of a column. -/
def defaultName (table column suffix : String) : String := table ++ "_" ++ column ++ "_" ++ suffix

/-- The columns agree in everything but their comments. -/
structure SameColumn (family : DialectFamily) (table : String)
    (expected actual : DatabaseColumn) : Prop where
  name : expected.name = actual.name
  type : normalizeSchemaType expected.type = normalizeSchemaType actual.type
  notNull : expected.notNull = actual.notNull
  unique : expected.unique = actual.unique
  uniqueName : SameName family (defaultName table expected.name "key") expected.uniqueName
    actual.uniqueName
  default : normalizeSchemaDefault expected.defaultValue =
    normalizeSchemaDefault actual.defaultValue
  autoIncrement : expected.autoIncrement = actual.autoIncrement
  check : normalizeSchemaDefault expected.check = normalizeSchemaDefault actual.check
  references : SameReference family (defaultName table expected.name "fkey") expected.references
    actual.references

/-- What a check is compared by. -/
def checkKey (check : DatabaseCheck) : Option String × String :=
  (check.name, normalizeCheckExpression check.expression)

/-- The checks of a table as PostgreSQL pairs them: an unnamed expected check may have any name,
    and the default name of a table check may be left out in the actual schema. -/
def PairedCheck (table : String) (expected actual : DatabaseCheck) : Prop :=
  normalizeCheckExpression expected.expression = normalizeCheckExpression actual.expression ∧
    (expected.name = actual.name ∨ expected.name = none ∨
      expected.name = some (table ++ "_check") ∧ actual.name = none)

/-- The same checks, in any order. -/
def SameChecks (family : DialectFamily) (table : String) (expected actual : List DatabaseCheck) :
    Prop :=
  match family with
  | .postgres => ∃ paired, List.Forall₂ (PairedCheck table) expected paired ∧ paired.Perm actual
  | .sqlite | .generic => (expected.map checkKey).Perm (actual.map checkKey)

/-- The same checks, in the same order. -/
def CheckByCheck (expected actual : List DatabaseCheck) : Prop :=
  expected.map checkKey = actual.map checkKey

/-- The tables agree, given what it means for their checks. -/
structure SameTable (family : DialectFamily)
    (checks : String → List DatabaseCheck → List DatabaseCheck → Prop)
    (expected actual : DatabaseTable) : Prop where
  name : expected.name = actual.name
  columns : Agree (SameColumn family expected.name) expected.columns actual.columns
  checks : checks expected.name expected.checks actual.checks
  indexes : Agree Eq expected.indexes actual.indexes
  primaryKey : family = .postgres → expected.primaryKey = actual.primaryKey

/-- The schemas have the same tables. -/
def SameSchema (family : DialectFamily)
    (checks : String → List DatabaseCheck → List DatabaseCheck → Prop)
    (expected : ExpectedSchema) (actual : DatabaseSchema) : Prop :=
  Agree (fun wanted table => SameTable family checks wanted.table table) expected.tables
    actual.tables

/-- No two tables, no two columns and no two indexes of a table have one name. -/
structure DatabaseSchema.Distinct (schema : DatabaseSchema) : Prop where
  tables : (schema.tables.map (·.name)).Nodup
  columns : ∀ table ∈ schema.tables, (table.columns.map (·.name)).Nodup
  indexes : ∀ table ∈ schema.tables, (table.indexes.map (·.name)).Nodup

/-- Only unique columns carry a unique name. -/
def OnlyUniqueNamed (table : DatabaseTable) : Prop :=
  ∀ column ∈ table.columns, column.unique = false → column.uniqueName = none

/-! ## Checks on SQLite -/

theorem sameCheck_iff {expected actual : DatabaseCheck} :
    sameCheck expected actual = true ↔ checkKey expected = checkKey actual := by
  simp [sameCheck, checkKey]

theorem matchCheck_some {check : DatabaseCheck} {actual : List DatabaseCheck}
    {matched matched' : List Bool} (h : matchCheck check actual matched = some matched') :
    ∃ i candidate, FreeAt actual matched i candidate ∧ sameCheck check candidate = true ∧
      matched' = matched.set i true := by
  induction actual generalizing matched matched' with
  | nil => simp [matchCheck] at h
  | cons candidate actual ih =>
    cases matched with
    | nil => simp [matchCheck] at h
    | cons marked matched =>
      unfold matchCheck at h
      split at h
      · rename_i hfound
        simp only [Bool.and_eq_true, Bool.not_eq_true'] at hfound
        cases h
        exact ⟨0, candidate, ⟨rfl, by rw [hfound.1]; rfl⟩, hfound.2, rfl⟩
      · obtain ⟨rest, hrest, rfl⟩ := Option.map_eq_some_iff.mp h
        obtain ⟨i, c, hfree, hsame, rfl⟩ := ih hrest
        exact ⟨i + 1, c, hfree, hsame, rfl⟩

theorem matchCheck_none {check : DatabaseCheck} {actual : List DatabaseCheck}
    {matched : List Bool} (h : matchCheck check actual matched = none) :
    ∀ candidate ∈ free actual matched, sameCheck check candidate = false := by
  induction actual generalizing matched with
  | nil =>
    intro candidate hmem
    simp [free] at hmem
  | cons first actual ih =>
    cases matched with
    | nil =>
      intro candidate hmem
      simp [free] at hmem
    | cons marked matched =>
      unfold matchCheck at h
      split at h
      · cases h
      · rename_i hfound
        have hrest := ih (Option.map_eq_none_iff.mp h)
        intro candidate hmem
        cases marked with
        | true => exact hrest candidate (by simpa [free] using hmem)
        | false =>
          obtain rfl | hmem := List.mem_cons.mp (by simpa [free] using hmem)
          · simpa using hfound
          · exact hrest candidate hmem

/-- The matching succeeds exactly when the expected checks are among those that are free. -/
theorem matchChecks_iff {actual expected : List DatabaseCheck} {matched : List Bool} :
    matchChecks actual expected matched = true ↔
      (expected.map checkKey).Subperm ((free actual matched).map checkKey) := by
  induction expected generalizing matched with
  | nil => simp [matchChecks]
  | cons check expected ih =>
    unfold matchChecks
    rw [List.map_cons]
    cases hmatch : matchCheck check actual matched with
    | none =>
      have hnone := matchCheck_none hmatch
      simp only [Bool.false_eq_true, false_iff]
      intro hsub
      obtain ⟨candidate, hmem, hkey⟩ := List.mem_map.mp (hsub.subset List.mem_cons_self)
      have hsame := sameCheck_iff.mpr hkey.symm
      rw [hnone candidate hmem] at hsame
      cases hsame
    | some matched' =>
      obtain ⟨i, candidate, hfree, hsame, rfl⟩ := matchCheck_some hmatch
      -- The check and its candidate have one key, so both sides lose the same.
      have hperm := (free_set hfree).map checkKey
      rw [List.map_cons, ← sameCheck_iff.mp hsame] at hperm
      dsimp only
      rw [ih, hperm.subperm_left, List.subperm_cons]

/-- `same_checks` finds the same checks in any order. -/
theorem sameChecks_iff {expected actual : List DatabaseCheck} :
    sameChecks expected actual = true ↔ (expected.map checkKey).Perm (actual.map checkKey) := by
  unfold sameChecks
  rw [Bool.and_eq_true, decide_eq_true_iff, matchChecks_iff, free_replicate]
  constructor
  · rintro ⟨hlength, hsub⟩
    exact hsub.perm_of_length_le (by simp [hlength])
  · intro hperm
    exact ⟨by simpa using hperm.length_eq, hperm.subperm⟩

/-! ## Tables on SQLite -/

section

variable {expected actual : DatabaseTable} {family : DialectFamily}

theorem sameName_iff (hfamily : family ≠ .postgres) {default : String}
    {name actualName : Option String} : SameName family default name actualName ↔
      name = actualName := by
  cases family with
  | postgres => exact absurd rfl hfamily
  | sqlite => exact Iff.rfl
  | generic => exact Iff.rfl

theorem findColumn_isSome {table : DatabaseTable} {name : String} :
    (findColumn table name).isSome = true ↔ ∃ column ∈ table.columns, column.name = name := by
  simp [findColumn, List.find?_isSome]

theorem findIndex_isSome {table : DatabaseTable} {name : String} :
    (findIndex table name).isSome = true ↔ ∃ index ∈ table.indexes, index.name = name := by
  simp [findIndex, List.find?_isSome]

/-- A comparison that finds nothing changed. -/
theorem sqlite_diffColumn (hfamily : family ≠ .postgres) {table : String}
    {column actualColumn : DatabaseColumn} (hname : actualColumn.name = column.name) :
    (diffColumn column actualColumn).any = false ↔
      SameColumn family table column actualColumn := by
  have hreference : sameReference column.references actualColumn.references = true ↔
      SameReference family (defaultName table column.name "fkey") column.references
        actualColumn.references := by
    unfold sameReference SameReference
    cases column.references <;> cases actualColumn.references <;>
      simp [sameNamedReference, sameReferenceDefinition, sameName_iff hfamily, and_assoc,
        and_left_comm, and_comm]
  have huniqueName : SameName family (defaultName table column.name "key") column.uniqueName
      actualColumn.uniqueName ↔ _ := sameName_iff hfamily
  simp only [ColumnDiff.any, diffColumn, Bool.or_eq_false_iff, decide_eq_false_iff_not, ne_eq,
    not_not, Bool.not_eq_false', hreference, ← huniqueName]
  constructor
  · rintro ⟨⟨⟨⟨⟨⟨⟨htype, hnull⟩, hunique⟩, huname⟩, hdefault⟩, hauto⟩, hcheck⟩, href⟩
    exact ⟨hname.symm, htype, hnull, hunique, huname, hdefault, hauto, hcheck, href⟩
  · intro h
    exact ⟨⟨⟨⟨⟨⟨⟨h.type, h.notNull⟩, h.unique⟩, h.uniqueName⟩, h.default⟩, h.autoIncrement⟩,
      h.check⟩, h.references⟩

theorem quiet_sqliteColumn (hfamily : family ≠ .postgres) {column : DatabaseColumn} :
    Quiet (diffSqliteColumn expected actual column) ↔ ∃ actualColumn,
      findColumn actual column.name = some actualColumn ∧
        SameColumn family expected.name column actualColumn := by
  unfold diffSqliteColumn
  cases hfind : findColumn actual column.name with
  | none => cases hunique : column.unique <;> simp
  | some actualColumn =>
    have hname : actualColumn.name = column.name := by simpa using List.find?_some hfind
    simp only [Option.some.injEq, exists_eq_left', ← sqlite_diffColumn hfamily hname]
    split
    · rename_i hany
      simp [hany]
    · rename_i hany
      simp [hany]

theorem quiet_dropSqliteColumn {column : DatabaseColumn} :
    Quiet (dropSqliteColumn expected column) ↔
      ∃ wanted ∈ expected.columns, wanted.name = column.name := by
  rw [← findColumn_isSome]
  unfold dropSqliteColumn
  split <;> simp_all

theorem quiet_dropIndex {options : SchemaDiffOptions} {index : DatabaseIndex} :
    Quiet (dropIndexChange expected options index) ↔
      ∃ wanted ∈ expected.indexes, wanted.name = index.name := by
  rw [← findIndex_isSome]
  unfold dropIndexChange
  split <;> simp_all

/-- Two indexes of one name are the same when everything that is compared is. -/
theorem sameIndex_iff {index actualIndex : DatabaseIndex} (hname : actualIndex.name = index.name) :
    sameIndex index actualIndex = true ↔ index = actualIndex := by
  obtain ⟨name, columns, unique, where_⟩ := index
  obtain ⟨name', columns', unique', where_'⟩ := actualIndex
  simp only [sameIndex, Bool.and_eq_true, decide_eq_true_iff, DatabaseIndex.mk.injEq]
  constructor
  · rintro ⟨⟨hunique, hcolumns⟩, hwhere⟩
    exact ⟨hname.symm, hcolumns, hunique, hwhere⟩
  · rintro ⟨-, hcolumns, hunique, hwhere⟩
    exact ⟨⟨hunique, hcolumns⟩, hwhere⟩

theorem quiet_sqliteIndex {index : DatabaseIndex} :
    Quiet (diffSqliteIndex expected actual index) ↔
      ∃ actualIndex, findIndex actual index.name = some actualIndex ∧ index = actualIndex := by
  unfold diffSqliteIndex
  cases hfind : findIndex actual index.name with
  | none => simp [createIndexChange]
  | some actualIndex =>
    have hname : actualIndex.name = index.name := by simpa using List.find?_some hfind
    simp only [Option.some.injEq, exists_eq_left', ← sameIndex_iff hname]
    split
    · rename_i hsame
      simp [hsame]
    · rename_i hsame
      simp [hsame]

/-- Columns that agree are found by their names. -/
theorem agree_columns (hcolumns : (actual.columns.map (·.name)).Nodup) :
    Agree (SameColumn family expected.name) expected.columns actual.columns ↔
      (∀ column ∈ expected.columns, ∃ actualColumn,
        findColumn actual column.name = some actualColumn ∧
          SameColumn family expected.name column actualColumn) ∧
        ∀ column ∈ actual.columns, ∃ wanted ∈ expected.columns, wanted.name = column.name :=
  agree_iff_find (fun _ _ h => h.name) hcolumns

theorem agree_indexes (hindexes : (actual.indexes.map (·.name)).Nodup) :
    Agree Eq expected.indexes actual.indexes ↔
      (∀ index ∈ expected.indexes, ∃ actualIndex,
        findIndex actual index.name = some actualIndex ∧ index = actualIndex) ∧
        ∀ index ∈ actual.indexes, ∃ wanted ∈ expected.indexes, wanted.name = index.name :=
  agree_iff_find (fun _ _ h => by rw [h]) hindexes

/-- SQLite leaves a table alone exactly when it agrees. -/
theorem quiet_sqliteTable (hfamily : family ≠ .postgres) {options : SchemaDiffOptions}
    (hname : expected.name = actual.name) (hcolumns : (actual.columns.map (·.name)).Nodup)
    (hindexes : (actual.indexes.map (·.name)).Nodup) :
    Quiet (diffSqliteTable expected actual options) ↔
      SameTable family (SameChecks family) expected actual := by
  have hperm : SameChecks family expected.name expected.checks actual.checks ↔
      sameChecks expected.checks actual.checks = true := by
    rw [sameChecks_iff]
    cases family with
    | postgres => exact absurd rfl hfamily
    | sqlite => exact Iff.rfl
    | generic => exact Iff.rfl
  have hchecks : Quiet (if sameChecks expected.checks actual.checks then .empty
      else .warning ("SQLite table CHECK constraints on " ++ expected.name ++
        " differ from the expected definition; rebuild the table to change them.")) ↔
      SameChecks family expected.name expected.checks actual.checks := by
    rw [hperm]
    split
    · rename_i h
      simp [h]
    · rename_i h
      simp [h]
  unfold diffSqliteTable
  simp only [quiet_append, quiet_concat, hchecks, quiet_sqliteColumn hfamily,
    quiet_dropSqliteColumn,
    quiet_sqliteIndex, quiet_dropIndex]
  constructor
  · rintro ⟨⟨⟨⟨hfound, hsame⟩, hkept⟩, hindex⟩, hkeptIndex⟩
    exact ⟨hname, (agree_columns hcolumns).mpr ⟨hfound, hkept⟩, hsame,
      (agree_indexes hindexes).mpr ⟨hindex, hkeptIndex⟩, fun h => absurd h hfamily⟩
  · intro h
    obtain ⟨hfound, hkept⟩ := (agree_columns hcolumns).mp h.columns
    obtain ⟨hindex, hkeptIndex⟩ := (agree_indexes hindexes).mp h.indexes
    exact ⟨⟨⟨⟨hfound, h.checks⟩, hkept⟩, hindex⟩, hkeptIndex⟩

end

/-! ## Columns on PostgreSQL -/

section

variable {expected : DatabaseTable} {column actualColumn : DatabaseColumn}
  {options : SchemaDiffOptions}

theorem quiet_unique (hname : actualColumn.name = column.name) :
    Quiet (diffPostgresUniqueConstraint expected column actualColumn
        (diffColumn column actualColumn) options) ↔
      column.unique = actualColumn.unique ∧ (column.unique = true →
        SameName .postgres (defaultName expected.name column.name "key") column.uniqueName
          actualColumn.uniqueName) := by
  unfold diffPostgresUniqueConstraint SameName
  simp only [diffColumn, postgresColumnConstraintName, hname]
  show Quiet (if _ then _ else _) ↔ _ ∧ (_ → column.uniqueName.getD _ = _)
  have hsame : column.uniqueName = actualColumn.uniqueName →
      column.uniqueName.getD (defaultName expected.name column.name "key") =
        actualColumn.uniqueName.getD (defaultName expected.name column.name "key") :=
    fun h => by rw [h]
  unfold defaultName at *
  cases hexpected : column.unique <;> cases hactual : actualColumn.unique <;>
    simp only [Bool.false_eq_true, not_true_eq_false, decide_false, Bool.not_false, Bool.true_and,
      Bool.and_true, Bool.and_false, Bool.not_true, if_false, ne_eq, false_imp_iff, and_true,
      reduceCtorEq, not_false_eq_true, decide_true, Bool.false_and, if_true, true_imp_iff,
      true_and, false_and, not_quiet_alterColumn]
  · split <;> simp
  · split
    · rename_i h
      simp only [quiet_empty, true_iff]
      exact hsame (by simpa using h)
    · split
      · rename_i h
        simpa using Ne.symm h
      · rename_i h
        simpa using (not_not.mp h).symm

theorem quiet_check :
    Quiet (diffPostgresCheckConstraint expected column actualColumn
        (diffColumn column actualColumn) options) ↔
      normalizeSchemaDefault column.check = normalizeSchemaDefault actualColumn.check := by
  unfold diffPostgresCheckConstraint
  simp only [diffColumn, ne_eq, decide_not, Bool.not_not, decide_eq_true_iff]
  split
  · rename_i h
    simp [h]
  · rename_i h
    simp only [h, iff_false]
    split
    · simp
    · simp
    · simp
    · rename_i hexpected hactual
      exact absurd (by rw [hexpected, hactual]) h

theorem quiet_reference (hname : actualColumn.name = column.name) :
    Quiet (diffPostgresReferenceConstraint expected column actualColumn
        (diffColumn column actualColumn) options) ↔
      SameReference .postgres (defaultName expected.name column.name "fkey") column.references
        actualColumn.references := by
  unfold diffPostgresReferenceConstraint SameReference SameName
  simp only [diffColumn, postgresColumnConstraintName, hname, Bool.not_not]
  unfold defaultName
  cases hexpected : column.references with
  | none => cases hactual : actualColumn.references <;> simp [sameReference]
  | some reference =>
    cases hactual : actualColumn.references with
    | none => simp [sameReference]
    | some actualReference =>
      dsimp only
      split
      · -- Everything agrees, the name included.
        rename_i hsame
        simp only [quiet_empty, true_iff]
        simp only [sameReference, sameNamedReference, Bool.and_eq_true, decide_eq_true_iff] at hsame
        obtain ⟨⟨⟨⟨⟨⟨htable, hcolumn⟩, hrefname⟩, hdefer⟩, hschema⟩, hdelete⟩, hupdate⟩ := hsame
        simp [sameReferenceDefinition, htable, hcolumn, hdefer, hschema, hdelete, hupdate, hrefname]
      · split
        · rename_i hdefinition
          simp only [hdefinition, true_and]
          split
          · rename_i h
            simpa using Ne.symm h
          · rename_i h
            simpa using (not_not.mp h).symm
        · rename_i hdefinition
          simp [hdefinition]

/-- The columns agree as far as the diff looks: the name of a unique constraint counts where there
    is one. -/
def Settled (table : String) (expected actual : DatabaseColumn) : Prop :=
  (normalizeSchemaType expected.type = normalizeSchemaType actual.type ∧
    expected.notNull = actual.notNull ∧
    normalizeSchemaDefault expected.defaultValue = normalizeSchemaDefault actual.defaultValue ∧
    expected.autoIncrement = actual.autoIncrement) ∧
  (expected.unique = actual.unique ∧ (expected.unique = true →
    SameName .postgres (defaultName table expected.name "key") expected.uniqueName
      actual.uniqueName)) ∧
  normalizeSchemaDefault expected.check = normalizeSchemaDefault actual.check ∧
  SameReference .postgres (defaultName table expected.name "fkey") expected.references
    actual.references

theorem SameColumn.settled {table : String} (h : SameColumn .postgres table column actualColumn) :
    Settled table column actualColumn :=
  ⟨⟨h.type, h.notNull, h.default, h.autoIncrement⟩, ⟨h.unique, fun _ => h.uniqueName⟩, h.check,
    h.references⟩

theorem Settled.sameColumn {table : String} (h : Settled table column actualColumn)
    (hname : actualColumn.name = column.name)
    (hnamed : column.unique = false → column.uniqueName = none)
    (hnamed' : actualColumn.unique = false → actualColumn.uniqueName = none) :
    SameColumn .postgres table column actualColumn := by
  obtain ⟨⟨htype, hnull, hdefault, hauto⟩, ⟨hunique, huname⟩, hcheck, href⟩ := h
  refine ⟨hname.symm, htype, hnull, hunique, ?_, hdefault, hauto, hcheck, href⟩
  cases hcolumn : column.unique with
  | true => exact huname hcolumn
  | false =>
    rw [hnamed hcolumn, hnamed' (hunique ▸ hcolumn)]
    rfl

theorem scalar_statements (diff : ColumnDiff) (h : diff.postgresScalarMutation = true) :
    (renderPostgresScalarAlterations expected column diff).isEmpty = false := by
  obtain ⟨type, nullability, unique, uniqueName, default, auto, check, reference⟩ := diff
  cases type <;> cases nullability <;> cases default <;> cases auto <;>
    first | rfl | cases h

theorem quiet_postgresColumn {actual : DatabaseTable} :
    Quiet (diffPostgresColumn expected actual options column) ↔ ∃ actualColumn,
      findColumn actual column.name = some actualColumn ∧
        Settled expected.name column actualColumn := by
  unfold diffPostgresColumn
  cases hfind : findColumn actual column.name with
  | none => simp
  | some actualColumn =>
    have hname : actualColumn.name = column.name := by simpa using List.find?_some hfind
    have hscalar : ∀ {plan : SchemaPlan}, Quiet (if (diffColumn column
          actualColumn).postgresScalarMutation then
          (if (renderPostgresScalarAlterations expected column
              (diffColumn column actualColumn)).isEmpty then .empty
            else alterColumnChange expected
              ("Alter column " ++ column.name ++ " on " ++ expected.name)
              (renderPostgresScalarAlterations expected column (diffColumn column actualColumn))
              true) ++ plan
          else .empty) ↔
        (diffColumn column actualColumn).postgresScalarMutation = false := by
      intro plan
      split
      · rename_i h
        simp [h, scalar_statements _ h]
      · rename_i h
        simpa using h
    have hsame : (diffColumn column actualColumn).postgresScalarMutation = false ↔
        normalizeSchemaType column.type = normalizeSchemaType actualColumn.type ∧
        column.notNull = actualColumn.notNull ∧
        normalizeSchemaDefault column.defaultValue =
          normalizeSchemaDefault actualColumn.defaultValue ∧
        column.autoIncrement = actualColumn.autoIncrement := by
      simp [ColumnDiff.postgresScalarMutation, diffColumn, and_assoc]
    simp only [quiet_append, hscalar, hsame, quiet_unique hname, quiet_check,
      quiet_reference hname, Option.some.injEq, exists_eq_left', Settled, and_assoc]

end

/-! ## Table checks on PostgreSQL -/

/-- What the search found: a free check of the wanted name, or one of the wanted expression. -/
def Found (wanted : DatabaseCheck) (actual : List DatabaseCheck) (matched : List Bool) :
    CheckSearch → Prop
  | .sameName i candidate =>
    FreeAt actual matched i candidate ∧ wanted.name.isSome ∧ candidate.name = wanted.name
  | .sameExpression i candidate =>
    FreeAt actual matched i candidate ∧
      normalizeCheckExpression candidate.expression = normalizeCheckExpression wanted.expression
  | .notFound => True

/-- The search looks at the checks one by one; `before` are those it has seen. -/
theorem searchCheck_found {wanted : DatabaseCheck} {before actual : List DatabaseCheck}
    {seen matched : List Bool} {found : CheckSearch} (hlength : seen.length = before.length)
    (hfound : Found wanted (before ++ actual) (seen ++ matched) found) :
    Found wanted (before ++ actual) (seen ++ matched)
      (searchCheck wanted before.length found actual matched) := by
  induction actual generalizing before seen matched found with
  | nil => cases matched <;> exact hfound
  | cons candidate actual ih =>
    cases matched with
    | nil => exact hfound
    | cons marked matched =>
      have hstep : ∀ {next : CheckSearch},
          Found wanted (before ++ candidate :: actual) (seen ++ marked :: matched) next →
          Found wanted (before ++ candidate :: actual) (seen ++ marked :: matched)
            (searchCheck wanted (before.length + 1) next actual matched) := by
        intro next hnext
        have hlength' : (seen ++ [marked]).length = (before ++ [candidate]).length := by
          simp [hlength]
        have hnext' : Found wanted ((before ++ [candidate]) ++ actual)
            ((seen ++ [marked]) ++ matched) next := by simpa using hnext
        simpa using ih hlength' hnext'
      have hat : marked = false → FreeAt (before ++ candidate :: actual)
          (seen ++ marked :: matched) before.length candidate := by
        intro hmarked
        constructor
        · simp
        · rw [← hlength, hmarked]
          simp
      unfold searchCheck
      split
      · exact hstep hfound
      · rename_i hmarked
        have hfree := hat (by simpa using hmarked)
        split
        · rename_i hname
          simp only [Bool.and_eq_true, decide_eq_true_iff] at hname
          exact ⟨hfree, hname⟩
        · apply hstep
          split
          · rename_i hexpression
            simp only [Bool.and_eq_true, decide_eq_true_iff] at hexpression
            exact ⟨hfree, hexpression.2⟩
          · exact hfound

theorem searchCheck_spec (wanted : DatabaseCheck) (actual : List DatabaseCheck)
    (matched : List Bool) :
    Found wanted actual matched (searchCheck wanted 0 .notFound actual matched) := by
  have hstart : Found wanted ([] ++ actual) ([] ++ matched) .notFound := trivial
  exact searchCheck_found rfl hstart

section

variable {expected actual : DatabaseTable} {options : SchemaDiffOptions}

/-- A quiet round pairs the wanted check with a free one. -/
theorem quiet_tableCheck (hname : expected.name = actual.name) {matched : List Bool}
    {wanted : DatabaseCheck}
    (h : Quiet (diffPostgresTableCheck expected actual matched wanted).2) :
    ∃ i candidate, FreeAt actual.checks matched i candidate ∧
      PairedCheck expected.name wanted candidate ∧
      (diffPostgresTableCheck expected actual matched wanted).1 = matched.set i true := by
  have hspec := searchCheck_spec wanted actual.checks matched
  unfold diffPostgresTableCheck at h ⊢
  cases hsearch : searchCheck wanted 0 .notFound actual.checks matched with
  | sameName i candidate =>
    rw [hsearch] at hspec h
    obtain ⟨hfree, -, hsame⟩ := hspec
    dsimp only at h
    split at h
    · rename_i hexpression
      exact ⟨i, candidate, hfree, ⟨hexpression.symm, .inl hsame.symm⟩, rfl⟩
    · exact absurd h (not_quiet_alterTable _ _ _ _)
  | sameExpression i candidate =>
    rw [hsearch] at hspec h
    obtain ⟨hfree, hexpression⟩ := hspec
    dsimp only at h
    split at h
    · rename_i hunnamed
      exact ⟨i, candidate, hfree, ⟨hexpression.symm, .inr (.inl hunnamed)⟩, rfl⟩
    · rename_i name hnamed
      split at h
      · exact absurd h (not_quiet_alterTable _ _ _ _)
      · rename_i hresolved
        have hresolved := not_not.mp hresolved
        unfold postgresTableCheckConstraintName at hresolved
        refine ⟨i, candidate, hfree, ⟨hexpression.symm, ?_⟩, rfl⟩
        -- The candidate has the wanted name, or none where the wanted name is the default.
        cases hcandidate : candidate.name with
        | none =>
          rw [hcandidate, Option.getD_none] at hresolved
          exact .inr (.inr ⟨by rw [hnamed, hname, hresolved], rfl⟩)
        | some actualName =>
          rw [hcandidate, Option.getD_some] at hresolved
          exact .inl (by rw [hnamed, hresolved])
  | notFound =>
    rw [hsearch] at h
    exact absurd h (not_quiet_alterTable _ _ _ _)

/-- Quiet rounds pair each expected check with a check of its own. -/
theorem quiet_expectedChecks (hname : expected.name = actual.name) {checks : List DatabaseCheck}
    {matched : List Bool} (h : Quiet (diffExpectedChecks expected actual matched checks).2) :
    ∃ paired, List.Forall₂ (PairedCheck expected.name) checks paired ∧
      (free actual.checks matched).Perm (paired ++
        free actual.checks (diffExpectedChecks expected actual matched checks).1) ∧
      (diffExpectedChecks expected actual matched checks).1.length = matched.length := by
  induction checks generalizing matched with
  | nil => exact ⟨[], .nil, .refl _, rfl⟩
  | cons wanted checks ih =>
    have hboth : Quiet ((diffPostgresTableCheck expected actual matched wanted).2 ++
        (diffExpectedChecks expected actual
          (diffPostgresTableCheck expected actual matched wanted).1 checks).2) := h
    rw [quiet_append] at hboth
    obtain ⟨i, candidate, hfree, hpair, hmatched⟩ := quiet_tableCheck hname hboth.1
    have hrest := hboth.2
    rw [hmatched] at hrest
    obtain ⟨paired, hpaired, hperm, hlength⟩ := ih hrest
    refine ⟨candidate :: paired, .cons hpair hpaired, ?_, ?_⟩
    · show (free actual.checks matched).Perm (candidate :: paired ++ free actual.checks
        (diffExpectedChecks expected actual
          (diffPostgresTableCheck expected actual matched wanted).1 checks).1)
      rw [hmatched]
      exact (free_set hfree).trans (hperm.cons candidate)
    · show (diffExpectedChecks expected actual
        (diffPostgresTableCheck expected actual matched wanted).1 checks).1.length = _
      rw [hmatched, hlength, List.length_set]

theorem quiet_dropTableCheck {check : DatabaseCheck × Bool} :
    Quiet (dropTableCheck expected actual options check) ↔ check.2 = true := by
  unfold dropTableCheck
  split
  · rename_i h
    simp [h]
  · rename_i h
    simp [h]

/-- PostgreSQL leaves the table checks alone only when they are the same, up to their order. -/
theorem sameChecks_of_quiet (hname : expected.name = actual.name)
    (h : Quiet (diffPostgresTableChecks expected actual options)) :
    SameChecks .postgres expected.name expected.checks actual.checks := by
  unfold diffPostgresTableChecks at h
  dsimp only at h
  rw [quiet_append, quiet_concat] at h
  obtain ⟨paired, hpaired, hperm, -⟩ := quiet_expectedChecks hname h.1
  have hnone := free_eq_nil fun p hp => quiet_dropTableCheck.mp (h.2 p hp)
  rw [free_replicate, hnone, List.append_nil] at hperm
  exact ⟨paired, hpaired, hperm.symm⟩

/-- A check that stands behind marked ones is found where it stands. -/
theorem searchCheck_skip (wanted : DatabaseCheck) (before actual : List DatabaseCheck)
    (matched : List Bool) (i : Nat) (found : CheckSearch) :
    searchCheck wanted i found (before ++ actual) (List.replicate before.length true ++ matched) =
      searchCheck wanted (i + before.length) found actual matched := by
  induction before generalizing i with
  | nil => rfl
  | cons check before ih =>
    have hrest := ih (i + 1)
    rw [Nat.add_assoc, Nat.add_comm 1] at hrest
    simpa [searchCheck, List.replicate_succ] using hrest

/-- Without a name to look for, the first find stays. -/
theorem searchCheck_unnamed {wanted : DatabaseCheck} (hwanted : wanted.name = none) (i j : Nat)
    (candidate : DatabaseCheck) (actual : List DatabaseCheck) (matched : List Bool) :
    searchCheck wanted i (.sameExpression j candidate) actual matched =
      .sameExpression j candidate := by
  induction actual generalizing i matched with
  | nil => cases matched <;> rfl
  | cons check actual ih =>
    cases matched with
    | nil => rfl
    | cons marked matched => simp [searchCheck, hwanted, ih]

/-- The wanted check is found in the first place that is free. -/
theorem diffPostgresTableCheck_first {before rest : List DatabaseCheck}
    {candidate wanted : DatabaseCheck} {matched : List Bool}
    (hchecks : actual.checks = before ++ candidate :: rest)
    (hkey : checkKey wanted = checkKey candidate) :
    diffPostgresTableCheck expected actual (List.replicate before.length true ++ false :: matched)
        wanted =
      (List.replicate (before.length + 1) true ++ matched, .empty) := by
  obtain ⟨hname, hexpression⟩ := Prod.mk.inj hkey
  have hset : (List.replicate before.length true ++ false :: matched).set before.length true =
      List.replicate (before.length + 1) true ++ matched := by
    rw [List.set_append_right _ _ (by simp), List.replicate_succ']
    simp
  unfold diffPostgresTableCheck
  rw [hchecks, searchCheck_skip, Nat.zero_add]
  unfold searchCheck
  cases hwanted : wanted.name with
  | none => simp [hexpression, searchCheck_unnamed hwanted, hset]
  | some name => simp [hname ▸ hwanted, hexpression, hset]

/-- Checks that agree one by one need no change. -/
theorem diffExpectedChecks_quiet {before rest checks : List DatabaseCheck}
    (hchecks : actual.checks = before ++ rest) (hsame : CheckByCheck checks rest) :
    diffExpectedChecks expected actual
        (List.replicate before.length true ++ List.replicate rest.length false) checks =
      (List.replicate actual.checks.length true, .empty) := by
  unfold CheckByCheck at hsame
  induction checks generalizing before rest with
  | nil =>
    cases rest with
    | nil => simp [diffExpectedChecks, hchecks]
    | cons check rest => cases hsame
  | cons wanted checks ih =>
    cases rest with
    | nil => cases hsame
    | cons candidate rest =>
      rw [List.map_cons, List.map_cons, List.cons.injEq] at hsame
      have hfirst : diffPostgresTableCheck expected actual (List.replicate before.length true ++
          false :: List.replicate rest.length false) wanted = _ :=
        diffPostgresTableCheck_first hchecks hsame.1
      have hmoved : actual.checks = (before ++ [candidate]) ++ rest := by simp [hchecks]
      have hrest := ih hmoved hsame.2
      unfold diffExpectedChecks
      rw [List.length_cons, List.replicate_succ, hfirst]
      rw [List.length_append, List.length_singleton] at hrest
      simp only [hrest]
      rfl

/-- PostgreSQL leaves table checks alone that agree one by one. -/
theorem quiet_of_checkByCheck (hsame : CheckByCheck expected.checks actual.checks) :
    Quiet (diffPostgresTableChecks expected actual options) := by
  have hnone : actual.checks = [] ++ actual.checks := rfl
  have hquiet : diffExpectedChecks expected actual _ expected.checks = _ :=
    diffExpectedChecks_quiet hnone hsame
  unfold diffPostgresTableChecks
  simp only [List.length_nil, List.replicate_zero, List.nil_append] at hquiet
  rw [hquiet]
  dsimp only
  rw [quiet_append, quiet_concat]
  refine ⟨quiet_empty, fun p hp => quiet_dropTableCheck.mpr ?_⟩
  exact List.eq_of_mem_replicate (List.of_mem_zip hp).2

end

/-! ## Tables on PostgreSQL -/

section

variable {expected actual : DatabaseTable} {options : SchemaDiffOptions}

theorem quiet_primaryKey : Quiet (diffPostgresPrimaryKey expected actual options) ↔
    expected.primaryKey = actual.primaryKey := by
  unfold diffPostgresPrimaryKey
  split
  · rename_i h
    simp [h]
  · rename_i h
    simp only [h, iff_false]
    split
    · rename_i hactual
      split
      · -- Two empty keys are equal.
        rename_i hexpected
        simp only [List.isEmpty_iff] at hexpected hactual
        exact absurd (hexpected.trans hactual.symm) h
      · exact not_quiet_alterTable _ _ _ _
    · split
      · exact not_quiet_alterTable _ _ _ _
      · exact not_quiet_alterTable _ _ _ _

theorem quiet_dropPostgresColumn {column : DatabaseColumn} :
    Quiet (dropPostgresColumn expected options column) ↔
      ∃ wanted ∈ expected.columns, wanted.name = column.name := by
  rw [← findColumn_isSome]
  unfold dropPostgresColumn
  split <;> simp_all

theorem quiet_postgresIndex {index : DatabaseIndex} :
    Quiet (diffPostgresIndex expected actual index) ↔
      ∃ actualIndex, findIndex actual index.name = some actualIndex ∧ index = actualIndex := by
  unfold diffPostgresIndex
  cases hfind : findIndex actual index.name with
  | none => simp [createIndexChange]
  | some actualIndex =>
    have hname : actualIndex.name = index.name := by simpa using List.find?_some hfind
    simp only [Option.some.injEq, exists_eq_left', ← sameIndex_iff hname]
    split
    · rename_i hsame
      simp [hsame]
    · rename_i hsame
      simp [hsame]

/-- PostgreSQL leaves a table alone that agrees, check by check. -/
theorem quiet_postgresTable (hcolumns : (actual.columns.map (·.name)).Nodup)
    (hindexes : (actual.indexes.map (·.name)).Nodup)
    (h : SameTable .postgres (fun _ => CheckByCheck) expected actual) :
    Quiet (diffPostgresTable expected actual options) := by
  obtain ⟨hfound, hkept⟩ := (agree_columns hcolumns).mp h.columns
  obtain ⟨hindex, hkeptIndex⟩ := (agree_indexes hindexes).mp h.indexes
  unfold diffPostgresTable
  simp only [quiet_append, quiet_concat, quiet_primaryKey, quiet_postgresColumn,
    quiet_dropPostgresColumn, quiet_postgresIndex, quiet_dropIndex]
  refine ⟨⟨⟨⟨⟨?_, h.primaryKey rfl⟩, quiet_of_checkByCheck h.checks⟩, hkept⟩, hindex⟩, hkeptIndex⟩
  intro column hcolumn
  obtain ⟨actualColumn, hfind, hsame⟩ := hfound column hcolumn
  exact ⟨actualColumn, hfind, hsame.settled⟩

/-- PostgreSQL leaves a table alone only when it agrees. -/
theorem sameTable_of_quiet (hname : expected.name = actual.name)
    (hcolumns : (actual.columns.map (·.name)).Nodup)
    (hindexes : (actual.indexes.map (·.name)).Nodup) (hnamed : OnlyUniqueNamed expected)
    (hnamed' : OnlyUniqueNamed actual) (h : Quiet (diffPostgresTable expected actual options)) :
    SameTable .postgres (SameChecks .postgres) expected actual := by
  unfold diffPostgresTable at h
  simp only [quiet_append, quiet_concat, quiet_primaryKey, quiet_postgresColumn,
    quiet_dropPostgresColumn, quiet_postgresIndex, quiet_dropIndex] at h
  obtain ⟨⟨⟨⟨⟨hfound, hkey⟩, hchecks⟩, hkept⟩, hindex⟩, hkeptIndex⟩ := h
  refine ⟨hname, (agree_columns hcolumns).mpr ⟨?_, hkept⟩, sameChecks_of_quiet hname hchecks,
    (agree_indexes hindexes).mpr ⟨hindex, hkeptIndex⟩, fun _ => hkey⟩
  intro column hcolumn
  obtain ⟨actualColumn, hfind, hsettled⟩ := hfound column hcolumn
  have hcolumnName : actualColumn.name = column.name := by simpa using List.find?_some hfind
  exact ⟨actualColumn, hfind, hsettled.sameColumn hcolumnName (hnamed column hcolumn)
    (hnamed' actualColumn (List.mem_of_find?_eq_some hfind))⟩

end

/-! ## Schemas -/

section

variable {expected : ExpectedSchema} {actual : DatabaseSchema} {options : SchemaDiffOptions}
  {family : DialectFamily}

/-- The diff is quiet when every table is found and left alone, and none is left over. -/
theorem quiet_schema : Quiet (diffSchema expected actual family options) ↔
    (∀ wanted ∈ expected.tables, ∃ table,
      actual.tables.find? (·.name = wanted.table.name) = some table ∧
        Quiet (diffExistingTable wanted.table table family options)) ∧
      ∀ table ∈ actual.tables, ∃ wanted ∈ expected.tables, wanted.table.name = table.name := by
  have hexpected : ∀ wanted, Quiet (diffExpectedTable actual family options wanted) ↔ ∃ table,
      actual.tables.find? (·.name = wanted.table.name) = some table ∧
        Quiet (diffExistingTable wanted.table table family options) := by
    intro wanted
    unfold diffExpectedTable
    cases actual.tables.find? (·.name = wanted.table.name) <;> simp
  have hdrop : ∀ table, Quiet (dropTableChange expected options table) ↔
      ∃ wanted ∈ expected.tables, wanted.table.name = table.name := by
    intro table
    unfold dropTableChange
    split
    · rename_i h
      simpa using h
    · rename_i h
      simpa using h
  unfold diffSchema
  simp only [quiet_append, quiet_concat, hexpected, hdrop]

/-- The tables of one name, as the lookup by name finds them. -/
theorem sameSchema_iff {checks : String → List DatabaseCheck → List DatabaseCheck → Prop}
    (hactual : actual.Distinct) : SameSchema family checks expected actual ↔
      (∀ wanted ∈ expected.tables, ∃ table,
        actual.tables.find? (·.name = wanted.table.name) = some table ∧
          SameTable family checks wanted.table table) ∧
        ∀ table ∈ actual.tables, ∃ wanted ∈ expected.tables, wanted.table.name = table.name :=
  agree_iff_find (fun _ _ h => h.name) hactual.tables

/-- Checks that agree one by one are the same. -/
theorem CheckByCheck.sameChecks {family : DialectFamily} (hfamily : family ≠ .postgres)
    {table : String} {checks checks' : List DatabaseCheck} (h : CheckByCheck checks checks') :
    SameChecks family table checks checks' := by
  cases family with
  | postgres => exact absurd rfl hfamily
  | sqlite => exact .of_eq h
  | generic => exact .of_eq h

/-- A table that agrees check by check is left alone. -/
theorem quiet_of_sameTable {table actualTable : DatabaseTable}
    (hcolumns : (actualTable.columns.map (·.name)).Nodup)
    (hindexes : (actualTable.indexes.map (·.name)).Nodup)
    (h : SameTable family (fun _ => CheckByCheck) table actualTable) :
    Quiet (diffExistingTable table actualTable family options) := by
  have hsqlite : family ≠ .postgres → Quiet (diffSqliteTable table actualTable options) :=
    fun hfamily => (quiet_sqliteTable hfamily h.name hcolumns hindexes).mpr
      ⟨h.name, h.columns, h.checks.sameChecks hfamily, h.indexes, h.primaryKey⟩
  cases family with
  | postgres => exact quiet_postgresTable hcolumns hindexes h
  | sqlite => exact hsqlite nofun
  | generic => exact hsqlite nofun

/-- A table that is left alone agrees. -/
theorem SameTable.of_quiet {table actualTable : DatabaseTable}
    (hname : table.name = actualTable.name) (hcolumns : (actualTable.columns.map (·.name)).Nodup)
    (hindexes : (actualTable.indexes.map (·.name)).Nodup) (hnamed : OnlyUniqueNamed table)
    (hnamed' : OnlyUniqueNamed actualTable)
    (h : Quiet (diffExistingTable table actualTable family options)) :
    SameTable family (SameChecks family) table actualTable := by
  cases family with
  | postgres => exact sameTable_of_quiet hname hcolumns hindexes hnamed hnamed' h
  | sqlite =>
    have hfamily : DialectFamily.sqlite ≠ .postgres := nofun
    exact (quiet_sqliteTable hfamily hname hcolumns hindexes).mp h
  | generic =>
    have hfamily : DialectFamily.generic ≠ .postgres := nofun
    exact (quiet_sqliteTable hfamily hname hcolumns hindexes).mp h

/-- The diff is quiet when the schemas agree, and only then. -/
theorem schema_agreement (hactual : actual.Distinct) :
    (SameSchema family (fun _ => CheckByCheck) expected actual →
      Quiet (diffSchema expected actual family options)) ∧
    ((∀ wanted ∈ expected.tables, OnlyUniqueNamed wanted.table) →
      (∀ table ∈ actual.tables, OnlyUniqueNamed table) →
      Quiet (diffSchema expected actual family options) →
        SameSchema family (SameChecks family) expected actual) := by
  constructor
  · intro h
    obtain ⟨hfound, hkept⟩ := (sameSchema_iff hactual).mp h
    refine quiet_schema.mpr ⟨fun wanted hwanted => ?_, hkept⟩
    obtain ⟨table, hfind, hsame⟩ := hfound wanted hwanted
    have htable := List.mem_of_find?_eq_some hfind
    exact ⟨table, hfind, quiet_of_sameTable (hactual.columns table htable)
      (hactual.indexes table htable) hsame⟩
  · intro hnamed hnamed' h
    obtain ⟨hfound, hkept⟩ := quiet_schema.mp h
    refine (sameSchema_iff hactual).mpr ⟨fun wanted hwanted => ?_, hkept⟩
    obtain ⟨table, hfind, hquiet⟩ := hfound wanted hwanted
    have htable := List.mem_of_find?_eq_some hfind
    have hname : table.name = wanted.table.name := by simpa using List.find?_some hfind
    exact ⟨table, hfind, .of_quiet hname.symm (hactual.columns table htable)
      (hactual.indexes table htable) (hnamed wanted hwanted) (hnamed' table htable) hquiet⟩

end

/-- A table with a unique column, as an entity declares it. -/
def declaredTable : DatabaseTable where
  name := "t"
  columns := [{ name := "c", type := "integer", unique := true, check := some "c > 0" }]

/-- The same table, as a database reports it. -/
def reportedTable : DatabaseTable where
  name := "t"
  columns := [{
    name := "c"
    type := " INTEGER"
    unique := true
    uniqueName := some "t_c_key"
    check := some " c > 0 " }]

theorem schema_agreement_reported :
    Quiet (diffSchema { tables := [{ table := declaredTable, createTableSql := "" }] }
      { tables := [reportedTable] } .postgres {}) ∧
    SameSchema .postgres (SameChecks .postgres)
      { tables := [{ table := declaredTable, createTableSql := "" }] }
      { tables := [reportedTable] } := by
  have hdistinct : DatabaseSchema.Distinct { tables := [reportedTable] } :=
    ⟨by decide, by decide, by decide⟩
  have hnamed : ∀ wanted ∈ [({ table := declaredTable, createTableSql := "" } : ExpectedTable)],
      OnlyUniqueNamed wanted.table := by
    unfold OnlyUniqueNamed
    decide
  have hnamed' : ∀ table ∈ [reportedTable], OnlyUniqueNamed table := by
    unfold OnlyUniqueNamed
    decide
  have hname : (none : Option String).getD (defaultName "t" "c" "key") =
      (some "t_c_key").getD (defaultName "t" "c" "key") := by decide +kernel
  have hcolumn : SameColumn .postgres "t"
      { name := "c", type := "integer", unique := true, check := some "c > 0" }
      { name := "c", type := " INTEGER", unique := true, uniqueName := some "t_c_key",
        check := some " c > 0 " } :=
    ⟨rfl, by decide +kernel, rfl, rfl, hname, rfl, rfl, by decide +kernel, trivial⟩
  have hsame : SameSchema .postgres (fun _ => CheckByCheck)
      { tables := [{ table := declaredTable, createTableSql := "" }] }
      { tables := [reportedTable] } := by
    have htable : SameTable .postgres (fun _ => CheckByCheck) declaredTable reportedTable :=
      ⟨rfl, ⟨by simpa [declaredTable, reportedTable] using hcolumn,
        by simpa [declaredTable, reportedTable] using hcolumn⟩, rfl, ⟨nofun, nofun⟩, fun _ => rfl⟩
    exact ⟨by simpa using htable, by simpa using htable⟩
  have hquiet : Quiet (diffSchema { tables := [{ table := declaredTable, createTableSql := "" }] }
      { tables := [reportedTable] } .postgres {}) := (schema_agreement hdistinct).1 hsame
  exact ⟨hquiet, (schema_agreement hdistinct).2 hnamed hnamed' hquiet⟩

/-- Table checks that agree but for an expected name that is left out. -/
def ClaimedChecks (_ : String) (expected actual : List DatabaseCheck) : Prop :=
  ∃ paired, List.Forall₂ (fun check candidate =>
    normalizeCheckExpression check.expression = normalizeCheckExpression candidate.expression ∧
      (check.name = candidate.name ∨ check.name = none)) expected paired ∧ paired.Perm actual

/-- The default name of a table check is taken for the name of an unnamed actual check. -/
theorem not_schema_agreement : ¬ ∀ (expected : ExpectedSchema) (actual : DatabaseSchema),
    actual.Distinct → (∀ wanted ∈ expected.tables, OnlyUniqueNamed wanted.table) →
    (∀ table ∈ actual.tables, OnlyUniqueNamed table) →
    Quiet (diffSchema expected actual .postgres {}) →
      SameSchema .postgres ClaimedChecks expected actual := by
  intro h
  have hsame := h
    { tables := [{
      table := { name := "t", checks := [{ name := some "t_check", expression := "true" }] }
      createTableSql := "" }] }
    { tables := [{ name := "t", checks := [{ expression := "true" }] }] }
    ⟨by decide, by decide, by decide⟩ (by simp [OnlyUniqueNamed]) (by simp [OnlyUniqueNamed])
    ⟨by decide +kernel, by decide +kernel⟩
  obtain ⟨table, htable, hsame⟩ := hsame.1 _ (List.mem_singleton_self _)
  cases List.mem_singleton.mp htable
  obtain ⟨paired, hpaired, hperm⟩ := hsame.checks
  cases List.perm_singleton.mp hperm
  cases hpaired with
  | cons hcheck hrest => simp at hcheck

end MetalOrm.Native.Schema
