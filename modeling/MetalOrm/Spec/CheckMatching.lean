import MetalOrm.ForStd.Keyed
import MetalOrm.Native.SchemaDiff

/-!
# The matching of table checks

`diff_postgres_table_checks` marks the actual checks that are taken. What it does is told here by
the list of those that are free.

## Key results

- `changes_diffPostgresTableChecks`: the plan, by the free checks
-/

namespace MetalOrm.Native.Schema

open ForStd (free free_replicate)

/-- The candidate bears the name of the wanted check. -/
def namesake (wanted candidate : DatabaseCheck) : Bool :=
  wanted.name.isSome && candidate.name = wanted.name

/-- The candidate has the expression of the wanted check. -/
def synonym (wanted candidate : DatabaseCheck) : Bool :=
  normalizeCheckExpression candidate.expression = normalizeCheckExpression wanted.expression

/-- The checks that stay free when the wanted check takes one: its namesake, else the first with
    its expression. -/
def leftFree (wanted : DatabaseCheck) (free : List DatabaseCheck) : List DatabaseCheck :=
  if free.any (namesake wanted) then free.eraseP (namesake wanted)
  else free.eraseP (synonym wanted)

/-- The plan for a wanted check, by the checks that are free. -/
def planCheck (expected actual : DatabaseTable) (wanted : DatabaseCheck)
    (free : List DatabaseCheck) : SchemaPlan :=
  match free.find? (namesake wanted), free.find? (synonym wanted) with
  | some candidate, _ =>
    if synonym wanted candidate then .empty
    else alterTableChange expected
      ("Replace table CHECK constraint " ++ wanted.name.getD "" ++ " on " ++ expected.name)
      [postgresDropConstraint actual (postgresTableCheckConstraintName actual candidate),
        postgresAddTableCheckConstraint expected wanted] true
  | none, some candidate =>
    match wanted.name with
    | none => .empty
    | some name =>
      if postgresTableCheckConstraintName actual candidate ≠ name then
        alterTableChange expected ("Rename table CHECK constraint on " ++ expected.name)
          [.renameConstraint expected.name (postgresTableCheckConstraintName actual candidate)
            name] true
      else .empty
  | none, none => alterTableChange expected ("Add table CHECK constraint on " ++ expected.name)
      [postgresAddTableCheckConstraint expected wanted] true

/-- The plan for the wanted checks and, behind it, for those that nothing took. -/
def planChecks (expected actual : DatabaseTable) (options : SchemaDiffOptions) :
    List DatabaseCheck → List DatabaseCheck → SchemaPlan
  | [], free => .concat (free.map fun check => dropTableCheck expected actual options (check, false))
  | wanted :: checks, free =>
    planCheck expected actual wanted free ++
      planChecks expected actual options checks (leftFree wanted free)

section

variable {wanted candidate : DatabaseCheck} {actual : List DatabaseCheck} {matched : List Bool}

theorem free_unmarked (check : DatabaseCheck) :
    free (check :: actual) (false :: matched) = check :: free actual matched := rfl

theorem searchCheck_marked (check : DatabaseCheck) (i : Nat) (found : CheckSearch) :
    searchCheck wanted i found (check :: actual) (true :: matched) =
      searchCheck wanted (i + 1) found actual matched := by
  rw [searchCheck, if_pos rfl]

theorem searchCheck_free (check : DatabaseCheck) (i : Nat) (found : CheckSearch) :
    searchCheck wanted i found (check :: actual) (false :: matched) =
      if namesake wanted check then .sameName i check
      else searchCheck wanted (i + 1)
        (if found = .notFound && synonym wanted check then .sameExpression i check else found)
        actual matched := by
  rw [searchCheck, if_neg (by simp)]
  rfl

theorem searchCheck_namesake (h : (free actual matched).find? (namesake wanted) = some candidate) :
    ∃ k, free actual (matched.set k true) =
        (free actual matched).eraseP (namesake wanted) ∧
      ∀ i found, searchCheck wanted i found actual matched = .sameName (i + k) candidate := by
  induction actual generalizing matched with
  | nil => cases h
  | cons check actual ih =>
    cases matched with
    | nil => cases h
    | cons marked matched =>
      cases marked with
      | true =>
        obtain ⟨k, hfree, hsearch⟩ := ih h
        refine ⟨k + 1, hfree, fun i found => ?_⟩
        rw [searchCheck_marked, hsearch, Nat.add_right_comm, Nat.add_assoc]
      | false =>
        rw [free_unmarked] at h ⊢
        by_cases hname : namesake wanted check = true
        · -- This is the first namesake.
          rw [List.find?_cons_of_pos hname] at h
          cases h
          refine ⟨0, by rw [List.eraseP_cons_of_pos hname]; rfl, fun i found => ?_⟩
          rw [searchCheck_free, if_pos hname, Nat.add_zero]
        · rw [List.find?_cons_of_neg hname] at h
          obtain ⟨k, hfree, hsearch⟩ := ih h
          refine ⟨k + 1, ?_, fun i found => ?_⟩
          · rw [List.eraseP_cons_of_neg hname, ← hfree]
            rfl
          · rw [searchCheck_free, if_neg hname, hsearch, Nat.add_right_comm, Nat.add_assoc]

/-- Without a namesake the search returns what it found before. -/
theorem searchCheck_keeps {found : CheckSearch} (hfound : found ≠ .notFound) {i : Nat}
    (h : ∀ check ∈ free actual matched, ¬ namesake wanted check = true) :
    searchCheck wanted i found actual matched = found := by
  induction actual generalizing matched i with
  | nil => rfl
  | cons check actual ih =>
    cases matched with
    | nil => rfl
    | cons marked matched =>
      cases marked with
      | true =>
        rw [searchCheck_marked]
        exact ih h
      | false =>
        rw [free_unmarked, List.forall_mem_cons] at h
        rw [searchCheck_free, if_neg h.1, if_neg (by simp [hfound])]
        exact ih h.2

theorem searchCheck_synonym
    (hname : ∀ check ∈ free actual matched, ¬ namesake wanted check = true)
    (h : (free actual matched).find? (synonym wanted) = some candidate) :
    ∃ k, free actual (matched.set k true) =
        (free actual matched).eraseP (synonym wanted) ∧
      ∀ i, searchCheck wanted i .notFound actual matched = .sameExpression (i + k) candidate := by
  induction actual generalizing matched with
  | nil => cases h
  | cons check actual ih =>
    cases matched with
    | nil => cases h
    | cons marked matched =>
      cases marked with
      | true =>
        obtain ⟨k, hfree, hsearch⟩ := ih hname h
        refine ⟨k + 1, hfree, fun i => ?_⟩
        rw [searchCheck_marked, hsearch, Nat.add_right_comm, Nat.add_assoc]
      | false =>
        rw [free_unmarked] at h hname ⊢
        rw [List.forall_mem_cons] at hname
        by_cases hsame : synonym wanted check = true
        · rw [List.find?_cons_of_pos hsame] at h
          cases h
          refine ⟨0, by rw [List.eraseP_cons_of_pos hsame]; rfl, fun i => ?_⟩
          rw [searchCheck_free, if_neg hname.1, if_pos (by simpa using hsame)]
          exact searchCheck_keeps (by simp) hname.2
        · rw [List.find?_cons_of_neg hsame] at h
          obtain ⟨k, hfree, hsearch⟩ := ih hname.2 h
          refine ⟨k + 1, ?_, fun i => ?_⟩
          · rw [List.eraseP_cons_of_neg hsame, ← hfree]
            rfl
          · rw [searchCheck_free, if_neg hname.1, if_neg (by simpa using hsame), hsearch,
              Nat.add_right_comm, Nat.add_assoc]

theorem searchCheck_notFound
    (hname : ∀ check ∈ free actual matched, ¬ namesake wanted check = true)
    (h : ∀ check ∈ free actual matched, ¬ synonym wanted check = true) (i : Nat) :
    searchCheck wanted i .notFound actual matched = .notFound := by
  induction actual generalizing matched i with
  | nil => rfl
  | cons check actual ih =>
    cases matched with
    | nil => rfl
    | cons marked matched =>
      cases marked with
      | true =>
        rw [searchCheck_marked]
        exact ih hname h _
      | false =>
        rw [free_unmarked, List.forall_mem_cons] at h hname
        rw [searchCheck_free, if_neg hname.1, if_neg (by simpa using h.1)]
        exact ih hname.2 h.2 _

end

variable (expected actual : DatabaseTable)

/-- What is done for a wanted check, by the free checks. -/
theorem diffPostgresTableCheck_eq (matched : List Bool) (wanted : DatabaseCheck) :
    (diffPostgresTableCheck expected actual matched wanted).2 =
        planCheck expected actual wanted (free actual.checks matched) ∧
      free actual.checks (diffPostgresTableCheck expected actual matched wanted).1 =
        leftFree wanted (free actual.checks matched) := by
  unfold diffPostgresTableCheck planCheck leftFree
  cases hname : (free actual.checks matched).find? (namesake wanted) with
  | some candidate =>
    obtain ⟨k, hfree, hsearch⟩ := searchCheck_namesake hname
    have hany : (free actual.checks matched).any (namesake wanted) = true := by
      rw [List.any_eq_true]
      exact ⟨candidate, List.mem_of_find?_eq_some hname, List.find?_some hname⟩
    rw [hsearch, if_pos hany, Nat.zero_add]
    exact ⟨by simp [synonym], hfree⟩
  | none =>
    have hany : ¬ (free actual.checks matched).any (namesake wanted) = true := by
      simpa using hname
    rw [if_neg hany]
    cases hsame : (free actual.checks matched).find? (synonym wanted) with
    | some candidate =>
      obtain ⟨k, hfree, hsearch⟩ := searchCheck_synonym (List.find?_eq_none.mp hname) hsame
      rw [hsearch, Nat.zero_add]
      exact ⟨rfl, hfree⟩
    | none =>
      rw [searchCheck_notFound (List.find?_eq_none.mp hname) (List.find?_eq_none.mp hsame)]
      refine ⟨rfl, (List.eraseP_of_forall_not ?_).symm⟩
      simpa using hsame

theorem changes_diffExpectedChecks (options : SchemaDiffOptions) (checks : List DatabaseCheck)
    (matched : List Bool) :
    let run := diffExpectedChecks expected actual matched checks
    (run.2 ++ SchemaPlan.concat ((free actual.checks run.1).map fun check =>
        dropTableCheck expected actual options (check, false))).changes =
      (planChecks expected actual options checks (free actual.checks matched)).changes := by
  induction checks generalizing matched with
  | nil => simp [diffExpectedChecks, planChecks, SchemaPlan.empty]
  | cons wanted checks ih =>
    obtain ⟨hplan, hfree⟩ := diffPostgresTableCheck_eq expected actual matched wanted
    rw [planChecks, SchemaPlan.changes_append, ← hplan, ← hfree, ← ih]
    simp [diffExpectedChecks]

/-- Only the checks that are not marked are dropped. -/
theorem changes_dropTableCheck (options : SchemaDiffOptions) (checks : List DatabaseCheck)
    (matched : List Bool) :
    (SchemaPlan.concat ((checks.zip matched).map
        (dropTableCheck expected actual options))).changes =
      (SchemaPlan.concat ((free checks matched).map fun check =>
        dropTableCheck expected actual options (check, false))).changes := by
  induction checks generalizing matched with
  | nil => rfl
  | cons check checks ih =>
    cases matched with
    | nil => rfl
    | cons marked matched =>
      have ih := ih matched
      simp only [SchemaPlan.changes_concat] at ih
      cases marked with
      | true => simpa [free, dropTableCheck, SchemaPlan.empty] using ih
      | false => simpa [free] using ih

/-- The plan of `diff_postgres_table_checks`, by the free checks. -/
theorem changes_diffPostgresTableChecks (options : SchemaDiffOptions) :
    (diffPostgresTableChecks expected actual options).changes =
      (planChecks expected actual options expected.checks actual.checks).changes := by
  have hrun := changes_diffExpectedChecks expected actual options expected.checks
    (List.replicate actual.checks.length false)
  rw [free_replicate] at hrun
  rw [← hrun]
  unfold diffPostgresTableChecks
  simp only [SchemaPlan.changes_append, changes_dropTableCheck]

end MetalOrm.Native.Schema
