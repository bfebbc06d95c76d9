import MetalOrm.Native.Session

/-!
# The database a session talks to

What the DML of the runtime does to keyed tables. A `Store` holds at most one row
for each table and primary key; an `Engine` adds what SQL leaves to the server:
the generated keys, and every other reason for a statement to fail. A statement
that fails changes nothing.

`executed` is the log of the statements that succeeded.

## Key results

- `apply_other_table`: a statement leaves every other table alone
- `apply_spared`: it leaves every stored row alone that it does not select
- `apply_insert`, `apply_insert_generated`, `apply_update_key`, `apply_delete_key`:
  the statements of a flush
-/

namespace MetalOrm.Native

open ForStd

/-- The rows of a database. Primary keys are unique and not NULL. -/
structure Store (primaryKeyOf : Name → Name) where
  rows : Name → Value → Option (Name → Value)
  keyed : ∀ table pk row, rows table pk = some row → row (primaryKeyOf table) = pk ∧ pk ≠ .null
  executed : List Statement

/-- The SQL meaning of the joined `where_eq` predicates: `NULL` is equal to nothing. -/
def matchesAll (wheres : List (Name × Value)) (row : Name → Value) : Bool :=
  wheres.all fun (column, value) => value != .null && row column == value

/-- Whether a statement selects a stored row of its table. -/
def Statement.selects : Statement → (Name → Value) → Bool
  | .insert _ _ _, _ => false
  | .update _ _ wheres, row => matchesAll wheres row
  | .delete _ wheres, row => matchesAll wheres row

/-- A row after the assignments of an `UPDATE`. -/
def assignAll (assignments : List (Name × Value)) (row : Name → Value) : Name → Value :=
  fun column => (assignments.lookup column).getD (row column)

namespace Store

variable {primaryKeyOf : Name → Name}

/-- Put a row under its key. -/
def insertRow (s : Store primaryKeyOf) (table : Name) (row : Name → Value)
    (hpk : row (primaryKeyOf table) ≠ .null) : Store primaryKeyOf where
  rows t pk := if t = table ∧ pk = row (primaryKeyOf table) then some row else s.rows t pk
  keyed t pk r h := by
    split at h
    · rename_i heq
      cases h
      exact ⟨by rw [heq.1, heq.2], heq.2 ▸ hpk⟩
    · exact s.keyed t pk r h
  executed := s.executed

/-- Change the rows of a table that satisfy the predicates, not their keys. -/
def updateRows (s : Store primaryKeyOf) (table : Name) (assignments wheres : List (Name × Value))
    (hpk : assignments.lookup (primaryKeyOf table) = none) : Store primaryKeyOf where
  rows t pk :=
    if t = table then
      (s.rows t pk).map fun row => if matchesAll wheres row then assignAll assignments row else row
    else s.rows t pk
  keyed t pk r h := by
    split at h
    · rename_i ht
      subst ht
      obtain ⟨row, hrow, rfl⟩ := Option.map_eq_some_iff.mp h
      have hkey := s.keyed t pk row hrow
      split
      · exact ⟨by rw [assignAll, hpk]; exact hkey.1, hkey.2⟩
      · exact hkey
    · exact s.keyed t pk r h
  executed := s.executed

/-- Drop the rows of a table that satisfy the predicates. -/
def deleteRows (s : Store primaryKeyOf) (table : Name) (wheres : List (Name × Value)) :
    Store primaryKeyOf where
  rows t pk := if t = table then (s.rows t pk).filter fun row => !matchesAll wheres row
    else s.rows t pk
  keyed t pk r h := by
    split at h
    · exact s.keyed t pk r (Option.filter_eq_some_iff.mp h).1
    · exact s.keyed t pk r h
  executed := s.executed

end Store

/-- What a database server adds to its rows. `reject` stands for every failure that
    is not about a primary key: other constraints, a lost connection. -/
structure Engine where
  primaryKeyOf : Name → Name
  generate : Store primaryKeyOf → Name → Option Int64
  generate_fresh : ∀ s table k, generate s table = some k →
    k ≠ 0 ∧ s.rows table (.int64 k) = none
  reject : Statement → Store primaryKeyOf → Option Exn

namespace Engine

variable (engine : Engine)

abbrev Db := Store engine.primaryKeyOf

/-- The row that an `INSERT` asks for: columns it does not list are NULL. -/
def rowOf (values : List (Name × Value)) : Name → Value := assignAll values fun _ => .null

/-- A statement that fails with a text of the server. -/
def failure (text : String) : Except Exn α := .error (.ofText text)

/-- The rows that a statement leaves, and what it returns. -/
def apply (s : engine.Db) : Statement → Except Exn (QueryResult × engine.Db)
  | .insert table values returning =>
    match values.lookup (engine.primaryKeyOf table) with
    | some _ =>
      if hnull : rowOf values (engine.primaryKeyOf table) ≠ .null then
        if (s.rows table (rowOf values (engine.primaryKeyOf table))).isSome then
          failure "duplicate primary key"
        else .ok ({ rows := [] }, s.insertRow table (rowOf values) hnull)
      else failure "primary key is NULL"
    | none =>
      match engine.generate s table with
      | none => failure "no primary key left"
      | some k =>
        let row := Function.update (rowOf values) (engine.primaryKeyOf table) (.int64 k)
        let returned : Row := returning.foldl (fun r column => r.insert column (row column)) ∅
        .ok ({ rows := if returning.isEmpty then [] else [returned], lastInsertId := k },
          s.insertRow table row (by simp [row]))
  | .update table assignments wheres =>
    if hpk : assignments.lookup (engine.primaryKeyOf table) = none then
      .ok ({ rows := [] }, s.updateRows table assignments wheres hpk)
    else failure "update of a primary key"
  | .delete table wheres => .ok ({ rows := [] }, s.deleteRows table wheres)

/-- `DbExecutor::execute`. -/
def execute (statement : Statement) (s : engine.Db) : Except Exn QueryResult × engine.Db :=
  match engine.reject statement s with
  | some e => (.error e, s)
  | none =>
    match engine.apply s statement with
    | .error e => (.error e, s)
    | .ok (result, s') => (.ok result, { s' with executed := s'.executed ++ [statement] })

/-- A connection to the engine, for sessions that do not use transactions. -/
def executor : Executor engine.Db where
  transactions := false
  savepoints := false
  execute := engine.execute
  beginTransaction s := (.ok (), s)
  commitTransaction s := (.ok (), s)
  rollbackTransaction s := (.ok (), s)
  savepoint _ s := (.ok (), s)
  releaseSavepoint _ s := (.ok (), s)
  rollbackToSavepoint _ s := (.ok (), s)

variable {engine}

/-- A statement fails and changes nothing, or does what `apply` says. -/
theorem execute_cases (statement : Statement) (s : engine.Db) :
    (∃ e, engine.execute statement s = (.error e, s)) ∨
    ∃ result s', engine.apply s statement = .ok (result, s') ∧
      engine.execute statement s =
        (.ok result, { s' with executed := s'.executed ++ [statement] }) := by
  unfold execute
  cases engine.reject statement s with
  | some e => exact .inl ⟨e, rfl⟩
  | none =>
    cases happly : engine.apply s statement with
    | error e => exact .inl ⟨e, by simp⟩
    | ok r => exact .inr ⟨r.1, r.2, by simp⟩

theorem execute_ok {statement : Statement} {s s' : engine.Db} {result : QueryResult}
    (h : engine.execute statement s = (.ok result, s')) :
    ∃ s₁, engine.apply s statement = .ok (result, s₁) ∧ s'.rows = s₁.rows ∧
      s'.executed = s₁.executed ++ [statement] := by
  rcases execute_cases statement s with ⟨e, he⟩ | ⟨r, s₁, happly, hok⟩
  · rw [he] at h
    cases h
  · rw [hok] at h
    cases h
    exact ⟨s₁, happly, rfl, rfl⟩

/-- Every statement leaves the log alone while it runs. -/
theorem apply_executed {statement : Statement} {s s' : engine.Db} {result : QueryResult}
    (h : engine.apply s statement = .ok (result, s')) : s'.executed = s.executed := by
  cases statement with
  | insert table values returning =>
    simp only [apply] at h
    split at h
    · split at h
      · split at h
        · cases h
        · cases h
          rfl
      · cases h
    · split at h
      · cases h
      · cases h
        rfl
  | update table assignments wheres =>
    simp only [apply] at h
    split at h
    · cases h
      rfl
    · cases h
  | delete table wheres =>
    cases h
    rfl

theorem apply_other_table {statement : Statement} {s s' : engine.Db} {result : QueryResult}
    (h : engine.apply s statement = .ok (result, s')) {table : Name}
    (htable : statement.table ≠ table) : s'.rows table = s.rows table := by
  cases statement with
  | insert t values returning =>
    have ht : ¬t = table := htable
    simp only [apply] at h
    split at h
    · split at h
      · split at h
        · cases h
        · cases h
          simp [Store.insertRow, Ne.symm ht]
      · cases h
    · split at h
      · cases h
      · cases h
        simp [Store.insertRow, Ne.symm ht]
  | update t assignments wheres =>
    have ht : ¬t = table := htable
    simp only [apply] at h
    split at h
    · cases h
      simp [Store.updateRows, Ne.symm ht]
    · cases h
  | delete t wheres =>
    have ht : ¬t = table := htable
    cases h
    simp [Store.deleteRows, Ne.symm ht]

/-- A stored row that a statement does not select stays as it is. -/
theorem apply_spared {statement : Statement} {s s' : engine.Db} {result : QueryResult}
    (h : engine.apply s statement = .ok (result, s')) {table : Name} {pk : Value}
    {row : Name → Value} (hrow : s.rows table pk = some row)
    (hspared : statement.table = table → statement.selects row = false) :
    s'.rows table pk = some row := by
  by_cases htable : statement.table = table
  · have hselects := hspared htable
    subst htable
    cases statement with
    | insert t values returning =>
      simp only [apply] at h
      split at h
      · split at h
        · split at h
          · cases h
          · rename_i _ hnone
            cases h
            -- the new row has another key, as this one is taken
            have hne : pk ≠ rowOf values (engine.primaryKeyOf t) := by
              rintro rfl
              exact hnone (by rw [show s.rows t _ = some row from hrow]; rfl)
            simpa [Store.insertRow, Statement.table, hne] using hrow
        · cases h
      · split at h
        · cases h
        · rename_i _ k hgenerate
          cases h
          have hfresh := (engine.generate_fresh s t k hgenerate).2
          have hne : pk ≠ .int64 k := by
            rintro rfl
            rw [show s.rows t _ = some row from hrow] at hfresh
            cases hfresh
          simpa [Store.insertRow, Statement.table, hne] using hrow
    | update t assignments wheres =>
      simp only [apply] at h
      split at h
      · cases h
        have hmatch : matchesAll wheres row = false := hselects
        simp [Store.updateRows, Statement.table, show s.rows t pk = some row from hrow, hmatch]
      · cases h
    | delete t wheres =>
      cases h
      have hmatch : matchesAll wheres row = false := hselects
      simp [Store.deleteRows, Statement.table, show s.rows t pk = some row from hrow, hmatch]
  · rw [apply_other_table h htable, hrow]

/-- An `INSERT` that lists the primary key stores the listed row under it. -/
theorem apply_insert {s s' : engine.Db} {table : Name} {values : List (Name × Value)}
    {returning : List Name} {result : QueryResult} {pk : Value}
    (hpk : values.lookup (engine.primaryKeyOf table) = some pk)
    (h : engine.apply s (.insert table values returning) = .ok (result, s')) :
    pk ≠ .null ∧ s.rows table pk = none ∧
      s'.rows table = Function.update (s.rows table) pk (some (rowOf values)) := by
  have hrow : rowOf values (engine.primaryKeyOf table) = pk := by simp [rowOf, assignAll, hpk]
  simp only [apply, hpk] at h
  split at h
  · rename_i hnull
    split at h
    · cases h
    · rename_i hnone
      cases h
      rw [hrow] at hnull hnone
      refine ⟨hnull, by simpa using hnone, funext fun k => ?_⟩
      simp [Store.insertRow, hrow, Function.update_apply]
  · cases h

/-- An `INSERT` that leaves the primary key out stores the row under a new one. -/
theorem apply_insert_generated {s s' : engine.Db} {table : Name}
    {values : List (Name × Value)} {returning : List Name} {result : QueryResult}
    (hpk : values.lookup (engine.primaryKeyOf table) = none)
    (h : engine.apply s (.insert table values returning) = .ok (result, s')) :
    ∃ k, k ≠ 0 ∧ s.rows table (.int64 k) = none ∧
      s'.rows table = Function.update (s.rows table) (.int64 k)
        (some (Function.update (rowOf values) (engine.primaryKeyOf table) (.int64 k))) ∧
      result.lastInsertId = k ∧
      (returning = [engine.primaryKeyOf table] →
        ∃ row, result.rows = [row] ∧ row.lookup (engine.primaryKeyOf table) = some (.int64 k)) := by
  simp only [apply, hpk] at h
  cases hgenerate : engine.generate s table with
  | none => simp [hgenerate, failure] at h
  | some k =>
    obtain ⟨hzero, hfresh⟩ := engine.generate_fresh s table k hgenerate
    rw [hgenerate] at h
    cases h
    refine ⟨k, hzero, hfresh, funext fun pk => ?_, rfl, ?_⟩
    · simp [Store.insertRow, Function.update_apply]
    · rintro rfl
      exact ⟨AList.singleton (engine.primaryKeyOf table) (.int64 k), by simp,
        by simp [AList.lookup, AList.singleton]⟩

/-- Only the row of a key satisfies `WHERE pk = key`. -/
theorem matchesAll_key {s : engine.Db} {table : Name} {k : Value} {row : Name → Value}
    (hrow : s.rows table k = some row) (pk : Value) :
    matchesAll [(engine.primaryKeyOf table, pk)] row = decide (k = pk) := by
  obtain ⟨rfl, hnull⟩ := s.keyed table k row hrow
  by_cases h : row (engine.primaryKeyOf table) = pk
  · simp [matchesAll, ← h, hnull]
  · simp [matchesAll, h]

theorem apply_update_key {s s' : engine.Db} {table : Name} {assignments : List (Name × Value)}
    {result : QueryResult} {pk : Value}
    (h : engine.apply s (.update table assignments [(engine.primaryKeyOf table, pk)]) =
      .ok (result, s')) :
    s'.rows table =
      Function.update (s.rows table) pk ((s.rows table pk).map (assignAll assignments)) := by
  simp only [apply] at h
  split at h
  · cases h
    funext k
    cases hk : s.rows table k with
    | none =>
      by_cases heq : k = pk
      · subst heq
        simp [Store.updateRows, hk]
      · simp [Store.updateRows, hk, heq]
    | some row =>
      have hmatch := matchesAll_key hk pk
      by_cases heq : k = pk
      · subst heq
        simp [Store.updateRows, hk, hmatch]
      · simp [Store.updateRows, hk, hmatch, heq]
  · cases h

theorem apply_delete_key {s s' : engine.Db} {table : Name} {result : QueryResult} {pk : Value}
    (h : engine.apply s (.delete table [(engine.primaryKeyOf table, pk)]) = .ok (result, s')) :
    s'.rows table = Function.update (s.rows table) pk none := by
  cases h
  funext k
  cases hk : s.rows table k with
  | none =>
    by_cases heq : k = pk
    · simp [Store.deleteRows, ← heq, hk]
    · simp [Store.deleteRows, hk, heq]
  | some row =>
    have hmatch := matchesAll_key hk pk
    by_cases heq : k = pk
    · subst heq
      simp [Store.deleteRows, hk, hmatch]
    · simp [Store.deleteRows, hk, hmatch, heq]

/-- The part of a database that belongs to one table. -/
def SameTable (table : Name) (s s' : engine.Db) : Prop :=
  s'.rows table = s.rows table ∧
  s'.executed.filter (·.table == table) = s.executed.filter (·.table == table)

/-- A server whose tables are keyed by a column `id` and take one generated key. -/
def single : Engine where
  primaryKeyOf _ := .ofAscii "id"
  generate s table := if (s.rows table (.int64 1)).isNone then some 1 else none
  generate_fresh s table k h := by
    split at h
    · rename_i hnone
      cases h
      exact ⟨by decide, by simpa using hnone⟩
    · cases h
  reject _ _ := none

/-- A database without rows. -/
def noRows (engine : Engine) : engine.Db where
  rows _ _ := none
  keyed _ _ _ h := by cases h
  executed := []

end Engine

end MetalOrm.Native
