import MetalOrm.Spec.SessionRules
import MetalOrm.Spec.TableStore

/-!
# What the statements of a flush write

The INSERT of a new object stores its columns, generated key included; the UPDATE
of a dirty object stores the changed columns of the snapshot it was built from;
the DELETE drops the row. Each of them touches the row of one key only.

## Key results

- `insertStatement_writes`, `updateStatement_writes`, `deleteStatement_writes`
- `updateColumn_writes`: the UPDATE of a foreign key
-/

namespace MetalOrm.Native

open ForStd ForStd.Prog Session

variable {D R : Type}

/-! ## The columns of the statements -/

@[simp] theorem mem_sortNames (names : List Name) (name : Name) :
    name ∈ sortNames names ↔ name ∈ names :=
  (List.perm_insertionSort _ names).mem_iff

/-- `assignmentsOf` lists each name with its value in the snapshot. -/
theorem lookup_assignmentsOf (cls : EntityClass) (columns : Name → Value) {names : List Name}
    (hnames : ∀ name ∈ names, name ∈ cls.columns) (name : Name) :
    (assignmentsOf (cls.snapshotOf columns) names).lookup name =
      if name ∈ names then some (columns name) else none := by
  unfold assignmentsOf
  rw [EntityClass.lookup_map_pair names
    (fun name => ((cls.snapshotOf columns).lookup name).getD .null)]
  split
  · rename_i hmem
    simp [hnames name hmem]
  · rfl

theorem mem_changedColumns (cls : EntityClass) (columns : Name → Value) (original : Snapshot)
    (name : Name) :
    name ∈ changedColumns cls (cls.snapshotOf columns) original ↔
      name ∈ cls.columns ∧ name ≠ cls.primaryKey ∧
      ¬(original.lookup name).any (·.eq (columns name)) := by
  simp [changedColumns, EntityClass.snapshotOf]

/-! ## The rows they leave -/

/-- The rows of a database with those of one key replaced. -/
def setRow (rows : Name → Value → Option (Name → Value)) (table : Name) (pk : Value)
    (row : Option (Name → Value)) : Name → Value → Option (Name → Value) :=
  Function.update rows table (Function.update (rows table) pk row)

@[simp] theorem setRow_self (rows : Name → Value → Option (Name → Value)) (table : Name)
    (pk : Value) (row : Option (Name → Value)) : setRow rows table pk row table pk = row := by
  simp [setRow]

theorem setRow_of_ne {rows : Name → Value → Option (Name → Value)} {table t : Name}
    {pk k : Value} {row : Option (Name → Value)} (h : ¬(t = table ∧ k = pk)) :
    setRow rows table pk row t k = rows t k := by
  by_cases ht : t = table
  · subst ht
    have hk : k ≠ pk := fun hk => h ⟨rfl, hk⟩
    simp [setRow, hk]
  · simp [setRow, ht]

/-- A statement changes the rows of its own table only. -/
theorem rows_eq_setRow {engine : Engine} {s s' : engine.Db} {statement : Statement}
    {result : QueryResult} {pk : Value} {row : Option (Name → Value)}
    (happly : engine.apply s statement = .ok (result, s'))
    (h : s'.rows statement.table = Function.update (s.rows statement.table) pk row) :
    s'.rows = setRow s.rows statement.table pk row := by
  funext table
  by_cases ht : table = statement.table
  · subst ht
    rw [h, setRow, Function.update_self]
  · rw [Engine.apply_other_table happly (Ne.symm ht), setRow, Function.update_of_ne ht]

section Writes

variable {engine : Engine} {s s' : engine.Db} {cls : EntityClass} {result : QueryResult}
  (hschema : engine.primaryKeyOf cls.table = cls.primaryKey)

include hschema

/-- The INSERT of an object stores it under its primary key, which had no row. -/
theorem insertStatement_writes {env : Env D R} {before after : Name → Value}
    (hexecute : engine.execute (insertStatement env cls before) s = (.ok result, s'))
    (hafter : InsertedColumns env cls result before after) :
    ∃ row, s.rows cls.table (after cls.primaryKey) = none ∧
      s'.rows = setRow s.rows cls.table (after cls.primaryKey) (some row) ∧
      after cls.primaryKey ≠ .null ∧ (∀ name ∈ cls.columns, row name = after name) ∧
      (∀ name ∈ cls.columns, name ≠ cls.primaryKey → after name = before name) := by
  obtain ⟨s₁, happly, hrows, _⟩ := Engine.execute_ok hexecute
  have hnames : (cls.snapshotOf before).map (·.1) = cls.columns := by
    simp [EntityClass.snapshotOf, Function.comp_def]
  unfold InsertedColumns at hafter
  unfold insertStatement at happly
  simp only [hnames] at happly
  cases hneeds : needsGeneratedKey cls (before cls.primaryKey) with
  | false =>
    -- every column is listed, the primary key too
    rw [hneeds, if_neg Bool.false_ne_true] at hafter
    subst hafter
    simp only [hneeds, Bool.and_false, Bool.not_false, List.filter_true] at happly
    have hlookup := lookup_assignmentsOf cls after
      (show ∀ name ∈ sortNames cls.columns, name ∈ cls.columns by simp)
    simp only [mem_sortNames] at hlookup
    have hpk := hlookup cls.primaryKey
    rw [if_pos cls.primaryKey_mem, ← hschema] at hpk
    obtain ⟨hnull, hnone, hupdate⟩ := Engine.apply_insert hpk happly
    have hwrite := rows_eq_setRow happly hupdate
    rw [hschema] at hnull hnone hwrite
    refine ⟨_, hnone, hrows ▸ hwrite, hnull, fun name hname => ?_, fun _ _ _ => rfl⟩
    simp [Engine.rowOf, assignAll, hlookup, hname]
  | true =>
    rw [hneeds, if_pos rfl] at hafter
    obtain ⟨value, hvalue, rfl⟩ := hafter
    simp only [hneeds, Bool.and_true, Bool.true_and] at happly
    have hlisted : ∀ name ∈ sortNames (cls.columns.filter fun name => !(name == cls.primaryKey)),
        name ∈ cls.columns := by
      simp only [mem_sortNames]
      exact fun name hname => List.mem_of_mem_filter hname
    have hlookup := lookup_assignmentsOf cls before hlisted
    simp only [mem_sortNames, List.mem_filter] at hlookup
    have hpk := hlookup cls.primaryKey
    simp only [beq_self_eq_true, Bool.not_true, Bool.false_eq_true, and_false, if_false] at hpk
    obtain ⟨k, _, hnone, hupdate, hlast, hreturning⟩ :=
      Engine.apply_insert_generated (by rw [hschema]; exact hpk) happly
    -- both ways to retrieve the key give the one that was generated
    have hkey : value = .int64 k := by
      unfold generatedKey at hvalue
      cases hretrieval : env.generatedKeyRetrieval with
      | lastInsertId =>
        rw [hretrieval] at hvalue
        cases hvalue
        rw [hlast]
      | returning =>
        obtain ⟨row, hrow, hlookupRow⟩ := hreturning (by simp [hretrieval, hschema])
        rw [hschema] at hlookupRow
        simp only [hretrieval, hrow, hlookupRow] at hvalue
        cases hvalue
        rfl
    subst hkey
    have hwrite := rows_eq_setRow happly hupdate
    rw [hschema] at hwrite
    refine ⟨_, by simpa using hnone, by simpa using hrows ▸ hwrite, by simp,
      fun name hname => ?_, fun name _ hne => by simp [hne]⟩
    by_cases hne : name = cls.primaryKey
    · simp [hne]
    · simp [Engine.rowOf, assignAll, hlookup, hname, hne]

/-- The UPDATE of an object stores the changed columns, in the row of `pk` only. -/
theorem updateStatement_writes {columns : Name → Value} {original : Snapshot} {pk : Value}
    (hexecute : engine.execute (updateStatement cls (cls.snapshotOf columns) original pk) s =
      (.ok result, s')) :
    ∃ assign : (Name → Value) → Name → Value,
      s'.rows = setRow s.rows cls.table pk ((s.rows cls.table pk).map assign) ∧
      ∀ row name, assign row name =
        if name ∈ changedColumns cls (cls.snapshotOf columns) original then columns name
        else row name := by
  obtain ⟨s₁, happly, hrows, _⟩ := Engine.execute_ok hexecute
  unfold updateStatement at happly
  rw [← hschema] at happly
  have hwrite := rows_eq_setRow happly (Engine.apply_update_key happly)
  refine ⟨_, hrows ▸ hwrite, fun row name => ?_⟩
  have hlisted : ∀ name ∈ sortNames (changedColumns cls (cls.snapshotOf columns) original),
      name ∈ cls.columns := by
    simp only [mem_sortNames, mem_changedColumns]
    exact fun name hname => hname.1
  have hlookup := lookup_assignmentsOf cls columns hlisted name
  simp only [mem_sortNames] at hlookup
  rw [assignAll, hlookup]
  split <;> rfl

/-- The UPDATE of one column, for one key. -/
theorem updateColumn_writes {column : Name} {value pk : Value}
    (hexecute : engine.execute (.update cls.table [(column, value)] [(cls.primaryKey, pk)]) s =
      (.ok result, s')) :
    column ≠ cls.primaryKey ∧ s'.rows = setRow s.rows cls.table pk
      ((s.rows cls.table pk).map fun row => Function.update row column value) := by
  obtain ⟨s₁, happly, hrows, _⟩ := Engine.execute_ok hexecute
  rw [← hschema] at happly
  have hwrite := rows_eq_setRow happly (Engine.apply_update_key happly)
  constructor
  · -- the server refuses to change a primary key
    rintro rfl
    simp [Engine.apply, Engine.failure, hschema] at happly
  · have hassign : assignAll [(column, value)] = fun row => Function.update row column value := by
      funext row name
      by_cases hname : name = column
      · simp [assignAll, List.lookup, hname]
      · simp [assignAll, List.lookup, hname, beq_eq_false_iff_ne.mpr hname]
    rw [hrows, hwrite, hassign]
    rfl

theorem deleteStatement_writes {pk : Value}
    (hexecute : engine.execute (.delete cls.table [(cls.primaryKey, pk)]) s = (.ok result, s')) :
    s'.rows = setRow s.rows cls.table pk none := by
  obtain ⟨s₁, happly, hrows, _⟩ := Engine.execute_ok hexecute
  rw [← hschema] at happly
  exact hrows ▸ rows_eq_setRow happly (Engine.apply_delete_key happly)

end Writes

end MetalOrm.Native
