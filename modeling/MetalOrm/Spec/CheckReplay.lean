import MetalOrm.Spec.CheckMatching

/-!
# The checks of a table, statement by statement

The statements of `diff_postgres_table_checks` are executed on the checks that the table has, each
under its name. Whether they succeed, and which checks there are in the end, is told by which
actual check each wanted check takes.

## Key results

- `replay_clash`, `replay_succeeds`: when the statements succeed, and what they leave
-/

namespace MetalOrm.Native.Schema

/-! ## The database -/

/-- The name of a check: a given one, or one that the database has made up. -/
inductive CheckName where
  | given (name : String)
  | generated (number : Nat)
deriving DecidableEq

/-- The checks of a table in the database, and the number of the next made-up name. -/
structure CheckStore where
  checks : List (CheckName × String)
  fresh : Nat := 0
deriving DecidableEq

namespace CheckStore

/-- The names in use. -/
def names (store : CheckStore) : List CheckName := store.checks.map Prod.fst

/-- Execute a statement: `none` is an error of the database. -/
def execute (store : CheckStore) : SchemaStatement → Option CheckStore
  | .dropConstraint _ name =>
    if .given name ∈ store.names then
      some { store with checks := store.checks.filter (·.1 ≠ .given name) }
    else none
  | .renameConstraint _ name newName =>
    if .given name ∈ store.names ∧ .given newName ∉ store.names then
      some { store with
        checks := store.checks.map fun check =>
          if check.1 = .given name then (.given newName, check.2) else check }
    else none
  | .addTableCheck _ check =>
    match check.name with
    | some name =>
      if .given name ∈ store.names then none
      else some { store with checks := store.checks ++ [(.given name, check.expression)] }
    | none => some
      { checks := store.checks ++ [(.generated store.fresh, check.expression)]
        fresh := store.fresh + 1 }
  | _ => some store

/-- Execute statements, one after the other. -/
def run (store : CheckStore) (statements : List SchemaStatement) : Option CheckStore :=
  statements.foldlM execute store

@[simp] theorem run_nil (store : CheckStore) : store.run [] = some store := rfl

theorem run_cons (store : CheckStore) (statement : SchemaStatement)
    (statements : List SchemaStatement) : store.run (statement :: statements) =
      (store.execute statement).bind fun store => store.run statements := rfl

theorem run_append (store : CheckStore) (first second : List SchemaStatement) :
    store.run (first ++ second) = (store.run first).bind fun store => store.run second := by
  simp [run, List.foldlM_append]

/-- What can be told of a check: a made-up name tells nothing. -/
def shown (check : CheckName × String) : Option String × String :=
  (match check.1 with
    | .given name => some name
    | .generated _ => none, normalizeCheckExpression check.2)

end CheckStore

/-- The name of an actual check in the database. -/
def DatabaseTable.checkName (actual : DatabaseTable) (check : DatabaseCheck) : String :=
  postgresTableCheckConstraintName actual check

/-- An actual check, as the database has it. -/
def DatabaseTable.storedCheck (actual : DatabaseTable) (check : DatabaseCheck) :
    CheckName × String :=
  (.given (actual.checkName check), check.expression)

/-- Execute what `diff_postgres_table_checks` emits with `allow_destructive`. -/
def replayChecks (expected actual : DatabaseTable) : Option CheckStore :=
  CheckStore.run { checks := actual.checks.map actual.storedCheck }
    ((diffPostgresTableChecks expected actual { allowDestructive := true }).changes.flatMap
      (·.statements))

/-! ## The database up to order -/

/-- The database has these checks, in some order, under different names. -/
structure Holds (store : CheckStore) (checks : List (CheckName × String)) : Prop where
  perm : store.checks.Perm checks
  nodup : (checks.map Prod.fst).Nodup
  fresh : ∀ number, .generated number ∈ checks.map Prod.fst → number < store.fresh

namespace Holds

variable {store : CheckStore} {checks checks' : List (CheckName × String)}

theorem reorder (h : Holds store checks) (hperm : checks.Perm checks') : Holds store checks' where
  perm := h.perm.trans hperm
  nodup := ((hperm.map Prod.fst).nodup_iff).mp h.nodup
  fresh := fun number hnumber => h.fresh number ((hperm.map Prod.fst).mem_iff.mpr hnumber)

theorem mem_names (h : Holds store checks) (name : CheckName) :
    name ∈ store.names ↔ name ∈ checks.map Prod.fst :=
  (h.perm.map Prod.fst).mem_iff

theorem drop {name expression : String} {table : String}
    (h : Holds store ((.given name, expression) :: checks)) :
    ∃ store', store.execute (.dropConstraint table name) = some store' ∧ Holds store' checks := by
  obtain ⟨hnot, hnodup⟩ := List.nodup_cons.mp h.nodup
  have hmem : CheckName.given name ∈ store.names := (h.mem_names _).mpr List.mem_cons_self
  refine ⟨_, if_pos hmem, ?_, hnodup, fun number hnumber =>
    h.fresh number (List.mem_cons_of_mem _ hnumber)⟩
  -- Of all checks only the dropped one has its name.
  have hkept : checks.filter (·.1 ≠ .given name) = checks :=
    List.filter_eq_self.mpr fun check hcheck => by
      have hother : check.1 ≠ .given name := fun heq =>
        hnot (List.mem_map.mpr ⟨check, hcheck, heq⟩)
      simpa using hother
  have hperm := h.perm.filter (·.1 ≠ .given name)
  rwa [List.filter_cons_of_neg (by simp), hkept] at hperm

theorem rename {name newName expression table : String}
    (h : Holds store ((.given name, expression) :: checks))
    (hnew : .given newName ∉ store.names) :
    ∃ store', store.execute (.renameConstraint table name newName) = some store' ∧
      Holds store' ((.given newName, expression) :: checks) := by
  obtain ⟨hnot, hnodup⟩ := List.nodup_cons.mp h.nodup
  have hmem : CheckName.given name ∈ store.names := (h.mem_names _).mpr List.mem_cons_self
  rw [h.mem_names] at hnew
  refine ⟨_, if_pos ⟨hmem, by rwa [h.mem_names]⟩, ?_, ?_, ?_⟩
  · have hkept : (checks.map fun check => if check.1 = .given name then
        (CheckName.given newName, check.2) else check) = checks := by
      conv_rhs => rw [← List.map_id checks]
      refine List.map_congr_left fun check hcheck => if_neg fun heq => hnot ?_
      exact List.mem_map.mpr ⟨check, hcheck, heq⟩
    have hperm := h.perm.map fun check => if check.1 = .given name then
      (CheckName.given newName, check.2) else check
    rwa [List.map_cons, if_pos rfl, hkept] at hperm
  · exact List.nodup_cons.mpr ⟨fun hin => hnew (List.mem_cons_of_mem _ hin), hnodup⟩
  · intro number hnumber
    obtain heq | hin := List.mem_cons.mp hnumber
    · cases heq
    · exact h.fresh number (List.mem_cons_of_mem _ hin)

theorem add {name expression table : String} (h : Holds store checks)
    (hnew : .given name ∉ store.names) :
    ∃ store', store.execute (.addTableCheck table { name := some name, expression }) = some store' ∧
      Holds store' (checks ++ [(.given name, expression)]) := by
  refine ⟨_, if_neg hnew, h.perm.append_right _, ?_, ?_⟩
  · rw [List.map_append, List.nodup_append]
    refine ⟨h.nodup, by simp, ?_⟩
    rintro used hused made hmade rfl
    rw [h.mem_names] at hnew
    cases List.mem_singleton.mp hmade
    exact hnew hused
  · intro number hnumber
    rw [List.map_append, List.mem_append] at hnumber
    obtain hin | hlast := hnumber
    · exact h.fresh number hin
    · cases List.mem_singleton.mp hlast

theorem addUnnamed {expression table : String} (h : Holds store checks) :
    ∃ store', store.execute (.addTableCheck table { name := none, expression }) = some store' ∧
      Holds store' (checks ++ [(.generated store.fresh, expression)]) := by
  refine ⟨_, rfl, h.perm.append_right _, ?_, ?_⟩
  · rw [List.map_append, List.nodup_append]
    refine ⟨h.nodup, by simp, ?_⟩
    rintro used hused made hmade rfl
    cases List.mem_singleton.mp hmade
    exact absurd (h.fresh _ hused) (Nat.lt_irrefl _)
  · intro number hnumber
    rw [List.map_append, List.mem_append] at hnumber
    obtain hin | hlast := hnumber
    · exact Nat.lt_succ_of_lt (h.fresh number hin)
    · cases List.mem_singleton.mp hlast
      exact Nat.lt_succ_self _

end Holds

/-! ## What a wanted check takes -/

/-- The actual check that a wanted check takes from the free ones. -/
def takenCheck (wanted : DatabaseCheck) (free : List DatabaseCheck) : Option DatabaseCheck :=
  (free.find? (namesake wanted)).or (free.find? (synonym wanted))

section

variable {wanted check : DatabaseCheck} {free : List DatabaseCheck}

theorem takenCheck_some (h : takenCheck wanted free = some check) :
    check ∈ free ∧ free.Perm (check :: leftFree wanted free) := by
  unfold takenCheck at h
  have heraseP : ∀ {p : DatabaseCheck → Bool}, free.find? p = some check →
      check ∈ free ∧ free.Perm (check :: free.eraseP p) := by
    intro p hfind
    obtain ⟨hp, before, after, rfl, hbefore⟩ := List.find?_eq_some_iff_append.mp hfind
    refine ⟨by simp, ?_⟩
    rw [List.eraseP_append_right _ (by simpa using hbefore), List.eraseP_cons_of_pos hp]
    exact List.perm_middle
  unfold leftFree
  cases hname : free.find? (namesake wanted) with
  | some found =>
    rw [hname, Option.some_or] at h
    cases h
    have hany : free.any (namesake wanted) = true :=
      List.any_eq_true.mpr ⟨check, List.mem_of_find?_eq_some hname, List.find?_some hname⟩
    rw [if_pos hany]
    exact heraseP hname
  | none =>
    rw [hname, Option.none_or] at h
    have hany : ¬ free.any (namesake wanted) = true := by simpa using hname
    rw [if_neg hany]
    exact heraseP h

theorem takenCheck_none (h : takenCheck wanted free = none) : leftFree wanted free = free := by
  unfold takenCheck at h
  obtain ⟨hname, hsame⟩ := Option.or_eq_none_iff.mp h
  have hany : ¬ free.any (namesake wanted) = true := by simpa using hname
  unfold leftFree
  rw [if_neg hany]
  exact List.eraseP_of_forall_not (by simpa using hsame)

theorem leftFree_subset (wanted : DatabaseCheck) (free : List DatabaseCheck) :
    leftFree wanted free ⊆ free := by
  unfold leftFree
  split
  · exact List.eraseP_subset
  · exact List.eraseP_subset

/-- What is taken has the name of the wanted check, or its expression. -/
theorem takenCheck_spec (h : takenCheck wanted free = some check) :
    namesake wanted check = true ∨
      (∀ other ∈ free, ¬ namesake wanted other = true) ∧ synonym wanted check = true := by
  unfold takenCheck at h
  cases hname : free.find? (namesake wanted) with
  | some found =>
    rw [hname, Option.some_or] at h
    cases h
    exact .inl (List.find?_some hname)
  | none =>
    rw [hname, Option.none_or] at h
    exact .inr ⟨List.find?_eq_none.mp hname, List.find?_some h⟩

theorem namesake_iff : namesake wanted check = true ↔
    ∃ name, wanted.name = some name ∧ check.name = some name := by
  unfold namesake
  cases wanted.name <;> simp

end

/-! ## Names that collide -/

/-- The statements of a part of a plan. -/
def SchemaPlan.statements (plan : SchemaPlan) : List SchemaStatement :=
  plan.changes.flatMap (·.statements)

@[simp] theorem SchemaPlan.statements_append (p q : SchemaPlan) :
    (p ++ q).statements = p.statements ++ q.statements := by
  simp [SchemaPlan.statements]

@[simp] theorem SchemaPlan.statements_empty : SchemaPlan.empty.statements = [] := rfl

@[simp] theorem statements_alterTable (table : DatabaseTable) (description : String)
    (statements : List SchemaStatement) (safe : Bool) :
    (alterTableChange table description statements safe).statements = statements := by
  simp [SchemaPlan.statements, alterTableChange, SchemaPlan.change]

variable (expected actual : DatabaseTable)

/-- The name of the wanted check is in use, and nothing that the check takes gives it up: no free
    check has it for its own, and the check that is taken has another one. -/
def Clash (used : List String) (free : List DatabaseCheck) (wanted : DatabaseCheck) : Prop :=
  ∃ name, wanted.name = some name ∧ (∀ check ∈ free, ¬ namesake wanted check = true) ∧
    (name ∈ used ∨ name ∈ free.map actual.checkName) ∧
    ∀ check ∈ takenCheck wanted free, actual.checkName check ≠ name

/-- The name of the check that the wanted one ends with, as far as it can be told. -/
def finalName (wanted : DatabaseCheck) (free : List DatabaseCheck) : Option String :=
  match wanted.name with
  | some name => some name
  | none => (takenCheck wanted free).map actual.checkName

/-- No name collides, from the names in use and the free checks on. -/
def ClashFree : List String → List DatabaseCheck → List DatabaseCheck → Prop
  | _, _, [] => True
  | used, free, wanted :: checks => ¬ Clash actual used free wanted ∧
      ClashFree ((finalName actual wanted free).toList ++ used) (leftFree wanted free) checks

/-- What can be told of the checks that the wanted ones end with. -/
def shownChecks : List DatabaseCheck → List DatabaseCheck → List (Option String × String)
  | _, [] => []
  | free, wanted :: checks =>
    (finalName actual wanted free, normalizeCheckExpression wanted.expression) ::
      shownChecks (leftFree wanted free) checks

/-- The check of the database is what the wanted one asks for. -/
def Meets (wanted : DatabaseCheck) (check : CheckName × String) : Prop :=
  (∀ name ∈ wanted.name, check.1 = .given name) ∧
    normalizeCheckExpression check.2 = normalizeCheckExpression wanted.expression

section

variable {expected actual}
variable {store : CheckStore} {entries : List (CheckName × String)} {free : List DatabaseCheck}
  {wanted check : DatabaseCheck} {used : List String}

/-- The plan for the wanted check succeeds, and the database has what it asks for. -/
def Fulfilled (expected actual : DatabaseTable) (store : CheckStore)
    (entries : List (CheckName × String)) (free : List DatabaseCheck) (wanted : DatabaseCheck) :
    Prop :=
  ∃ store' entry, store.run (planCheck expected actual wanted free).statements = some store' ∧
    Holds store' (entries ++ entry :: (leftFree wanted free).map actual.storedCheck) ∧
    Meets wanted entry ∧ CheckStore.shown entry =
      (finalName actual wanted free, normalizeCheckExpression wanted.expression)

/-- The check that is taken comes first. -/
theorem Holds.taken (h : Holds store (entries ++ free.map actual.storedCheck))
    (htaken : takenCheck wanted free = some check) :
    Holds store (actual.storedCheck check ::
      (entries ++ (leftFree wanted free).map actual.storedCheck)) := by
  have hperm := (takenCheck_some htaken).2.map actual.storedCheck
  exact h.reorder ((hperm.append_left entries).trans List.perm_middle)

theorem fulfilled_namesake (h : Holds store (entries ++ free.map actual.storedCheck))
    (hname : free.find? (namesake wanted) = some check) :
    Fulfilled expected actual store entries free wanted := by
  obtain ⟨name, hwanted, hcheck⟩ := namesake_iff.mp (List.find?_some hname)
  have htaken : takenCheck wanted free = some check := by rw [takenCheck, hname, Option.some_or]
  have hfirst := h.taken htaken
  have hstored : actual.storedCheck check = (.given name, check.expression) := by
    simp [DatabaseTable.storedCheck, DatabaseTable.checkName, postgresTableCheckConstraintName, hcheck]
  have hfinal : finalName actual wanted free = some name := by simp [finalName, hwanted]
  have hplan : planCheck expected actual wanted free =
      if synonym wanted check then .empty
      else alterTableChange expected
        ("Replace table CHECK constraint " ++ wanted.name.getD "" ++ " on " ++ expected.name)
        [postgresDropConstraint actual (postgresTableCheckConstraintName actual check),
          postgresAddTableCheckConstraint expected wanted] true := by
    rw [planCheck, hname]
  unfold Fulfilled
  rw [hplan, hfinal]
  by_cases hsame : synonym wanted check = true
  · -- The check is there already.
    have hexpression : normalizeCheckExpression check.expression =
        normalizeCheckExpression wanted.expression := by simpa [synonym] using hsame
    rw [if_pos hsame]
    refine ⟨store, actual.storedCheck check, rfl, hfirst.reorder List.perm_middle.symm, ?_, ?_⟩
    · rw [hstored]
      exact ⟨fun n hn => by rw [hwanted] at hn; cases hn; rfl, hexpression⟩
    · rw [hstored, CheckStore.shown, hexpression]
  · rw [if_neg hsame]
    rw [hstored] at hfirst
    obtain ⟨dropped, hdrop, hrest⟩ := @Holds.drop _ _ _ _ actual.name hfirst
    have hnew : .given name ∉ dropped.names := by
      rw [hrest.mem_names]
      exact (List.nodup_cons.mp hfirst.nodup).1
    obtain ⟨added, hadd, hholds⟩ := @Holds.add _ _ _ wanted.expression expected.name hrest hnew
    have hwantedEq : wanted = { name := some name, expression := wanted.expression } := by
      rw [← hwanted]
    have hconstraint : postgresTableCheckConstraintName actual check = name := by
      simp [postgresTableCheckConstraintName, hcheck]
    refine ⟨added, (.given name, wanted.expression), ?_, ?_, ?_, rfl⟩
    · rw [statements_alterTable, hconstraint, CheckStore.run_cons, postgresDropConstraint, hdrop,
        Option.bind_some, CheckStore.run_cons, postgresAddTableCheckConstraint]
      rw [← hwantedEq] at hadd
      rw [hadd]
      rfl
    · refine hholds.reorder ?_
      rw [List.append_assoc]
      exact (List.perm_append_comm).append_left entries
    · exact ⟨fun n hn => by rw [hwanted] at hn; cases hn; rfl, rfl⟩

/-- The names in use: those of the checks that are settled, and those of the free ones. -/
theorem Holds.given_mem_names (h : Holds store (entries ++ free.map actual.storedCheck))
    (hused : ∀ name, name ∈ used ↔ CheckName.given name ∈ entries.map Prod.fst) (name : String) :
    CheckName.given name ∈ store.names ↔ name ∈ used ∨ name ∈ free.map actual.checkName := by
  rw [h.mem_names, List.map_append, List.mem_append, ← hused, List.map_map]
  refine or_congr_right ?_
  simp [DatabaseTable.storedCheck]

/-- Without a check to take, the wanted one is added. -/
theorem run_planCheck_missing (h : Holds store (entries ++ free.map actual.storedCheck))
    (hused : ∀ name, name ∈ used ↔ CheckName.given name ∈ entries.map Prod.fst)
    (hname : free.find? (namesake wanted) = none) (hsame : free.find? (synonym wanted) = none) :
    (Clash actual used free wanted →
      store.run (planCheck expected actual wanted free).statements = none) ∧
    (¬ Clash actual used free wanted → Fulfilled expected actual store entries free wanted) := by
  have htaken : takenCheck wanted free = none := by rw [takenCheck, hname, hsame]; rfl
  have hleft := takenCheck_none htaken
  have hplan : planCheck expected actual wanted free =
      alterTableChange expected ("Add table CHECK constraint on " ++ expected.name)
        [postgresAddTableCheckConstraint expected wanted] true := by
    rw [planCheck, hname, hsame]
  have hreorder : ∀ entry : CheckName × String,
      (entries ++ free.map actual.storedCheck ++ [entry]).Perm
        (entries ++ entry :: free.map actual.storedCheck) := by
    intro entry
    rw [List.append_assoc]
    exact (List.perm_append_comm).append_left entries
  unfold Fulfilled
  rw [hplan, statements_alterTable, CheckStore.run_cons, postgresAddTableCheckConstraint, hleft]
  obtain ⟨name, expression⟩ := wanted
  cases name with
  | none =>
    -- The database makes up a name.
    obtain ⟨added, hadd, hholds⟩ := @Holds.addUnnamed _ _ expression expected.name h
    refine ⟨fun ⟨name, hwanted, _⟩ => (nomatch hwanted), fun _ => ?_⟩
    rw [hadd]
    refine ⟨added, _, rfl, hholds.reorder (hreorder _), ⟨fun n hn => (nomatch hn), rfl⟩, ?_⟩
    simp [CheckStore.shown, finalName, htaken]
  | some name =>
    have hmem := h.given_mem_names hused name
    constructor
    · rintro ⟨name', hwanted, -, hin, -⟩
      cases hwanted
      have hadd : store.execute (.addTableCheck expected.name { name := some name, expression }) =
          none := if_pos (hmem.mpr hin)
      rw [hadd]
      rfl
    · intro hclash
      have hnew : CheckName.given name ∉ store.names := by
        intro hin
        exact hclash ⟨name, rfl, List.find?_eq_none.mp hname, hmem.mp hin, by simp [htaken]⟩
      obtain ⟨added, hadd, hholds⟩ := @Holds.add _ _ _ expression expected.name h hnew
      rw [hadd]
      refine ⟨added, _, rfl, hholds.reorder (hreorder _), ⟨fun n hn => by cases hn; rfl, rfl⟩, ?_⟩
      simp [CheckStore.shown, finalName]

/-- A check of the wanted expression is kept, under the wanted name. -/
theorem run_planCheck_synonym (h : Holds store (entries ++ free.map actual.storedCheck))
    (hused : ∀ name, name ∈ used ↔ CheckName.given name ∈ entries.map Prod.fst)
    (hname : free.find? (namesake wanted) = none) (hsame : free.find? (synonym wanted) = some check) :
    (Clash actual used free wanted →
      store.run (planCheck expected actual wanted free).statements = none) ∧
    (¬ Clash actual used free wanted → Fulfilled expected actual store entries free wanted) := by
  have htaken : takenCheck wanted free = some check := by rw [takenCheck, hname, hsame]; rfl
  have hfirst := h.taken htaken
  have hexpression : normalizeCheckExpression check.expression =
      normalizeCheckExpression wanted.expression := by simpa [synonym] using List.find?_some hsame
  have hplan : planCheck expected actual wanted free = wanted.name.elim .empty fun name =>
      if postgresTableCheckConstraintName actual check ≠ name then
        alterTableChange expected ("Rename table CHECK constraint on " ++ expected.name)
          [.renameConstraint expected.name (postgresTableCheckConstraintName actual check)
            name] true
      else .empty := by
    rw [planCheck, hname, hsame] <;> cases wanted.name <;> rfl
  have hkept : Holds store (entries ++ actual.storedCheck check ::
      (leftFree wanted free).map actual.storedCheck) := hfirst.reorder List.perm_middle.symm
  unfold Fulfilled
  rw [hplan]
  cases hwanted : wanted.name with
  | none =>
    refine ⟨fun hclash => ?_, fun _ => ?_⟩
    · obtain ⟨name, hclash, -⟩ := hclash
      cases hwanted.symm.trans hclash
    refine ⟨store, _, rfl, hkept, ⟨fun n hn => ?_, hexpression⟩, ?_⟩
    · cases hwanted.symm.trans hn
    simp [CheckStore.shown, DatabaseTable.storedCheck, finalName, hwanted, htaken, hexpression]
  | some name =>
    have hmem := h.given_mem_names hused name
    have hmeets : ∀ expression, normalizeCheckExpression expression =
        normalizeCheckExpression wanted.expression →
          Meets wanted (.given name, expression) ∧ CheckStore.shown (.given name, expression) =
            (finalName actual wanted free, normalizeCheckExpression wanted.expression) := by
      intro expression hnormal
      refine ⟨⟨fun n hn => by rw [hwanted] at hn; cases hn; rfl, hnormal⟩, ?_⟩
      simp [CheckStore.shown, finalName, hwanted, hnormal]
    by_cases hown : actual.checkName check = name
    · -- It has the wanted name already.
      have hconstraint : ¬ postgresTableCheckConstraintName actual check ≠ name := not_not.mpr hown
      dsimp only [Option.elim]
      rw [if_neg hconstraint]
      refine ⟨?_, fun _ => ?_⟩
      · rintro ⟨name', hwanted', -, -, hother⟩
        rw [hwanted] at hwanted'
        cases hwanted'
        exact absurd hown (hother check htaken)
      · have hstored : actual.storedCheck check = (.given name, check.expression) := by
          rw [DatabaseTable.storedCheck, hown]
        rw [hstored] at hkept
        exact ⟨store, _, rfl, hkept, hmeets _ hexpression⟩
    · have hconstraint : postgresTableCheckConstraintName actual check ≠ name := hown
      dsimp only [Option.elim]
      rw [if_pos hconstraint, statements_alterTable, CheckStore.run_cons]
      constructor
      · rintro ⟨name', hwanted', -, hin, -⟩
        rw [hwanted] at hwanted'
        cases hwanted'
        have hrename : store.execute (.renameConstraint expected.name
            (postgresTableCheckConstraintName actual check) name) = none :=
          if_neg fun hboth => hboth.2 (hmem.mpr hin)
        rw [hrename]
        rfl
      · intro hclash
        have hnew : CheckName.given name ∉ store.names := by
          intro hin
          refine hclash ⟨name, hwanted, List.find?_eq_none.mp hname, hmem.mp hin, ?_⟩
          intro other hother
          rw [htaken] at hother
          cases hother
          exact hown
        obtain ⟨renamed, hrename, hholds⟩ := @Holds.rename _ _ (actual.checkName check) name
          check.expression expected.name hfirst hnew
        have hexecute : store.execute (.renameConstraint expected.name
            (postgresTableCheckConstraintName actual check) name) = some renamed := hrename
        rw [hexecute]
        exact ⟨renamed, _, rfl, hholds.reorder List.perm_middle.symm, hmeets _ hexpression⟩

/-- The plan for a wanted check fails exactly when its name collides. -/
theorem run_planCheck (h : Holds store (entries ++ free.map actual.storedCheck))
    (hused : ∀ name, name ∈ used ↔ CheckName.given name ∈ entries.map Prod.fst) :
    (Clash actual used free wanted →
      store.run (planCheck expected actual wanted free).statements = none) ∧
    (¬ Clash actual used free wanted → Fulfilled expected actual store entries free wanted) := by
  cases hname : free.find? (namesake wanted) with
  | some check =>
    refine ⟨?_, fun _ => fulfilled_namesake h hname⟩
    rintro ⟨name, -, hnone, -⟩
    exact absurd (List.find?_some hname) (hnone check (List.mem_of_find?_eq_some hname))
  | none =>
    cases hsame : free.find? (synonym wanted) with
    | none => exact run_planCheck_missing h hused hname hsame
    | some check => exact run_planCheck_synonym h hused hname hsame

/-! ## The whole run -/

theorem statements_drops (free : List DatabaseCheck) :
    (planChecks expected actual { allowDestructive := true } [] free).statements =
      free.map fun check => .dropConstraint actual.name (actual.checkName check) := by
  induction free with
  | nil => rfl
  | cons check free ih =>
    simp only [planChecks, List.map_cons, SchemaPlan.concat, SchemaPlan.statements_append] at ih ⊢
    rw [ih]
    simp [dropTableCheck, postgresDropConstraint, DatabaseTable.checkName]

/-- What nothing took is dropped. -/
theorem run_drops (h : Holds store (entries ++ free.map actual.storedCheck)) :
    ∃ store', store.run (planChecks expected actual { allowDestructive := true } [] free).statements =
      some store' ∧ Holds store' entries := by
  rw [statements_drops]
  induction free generalizing store with
  | nil =>
    rw [List.map_nil, List.append_nil] at h
    exact ⟨store, rfl, h⟩
  | cons check free ih =>
    have hfirst : Holds store ((.given (actual.checkName check), check.expression) ::
        (entries ++ free.map actual.storedCheck)) := h.reorder List.perm_middle
    obtain ⟨dropped, hdrop, hrest⟩ := @Holds.drop _ _ _ _ actual.name hfirst
    obtain ⟨store', hrun, hholds⟩ := ih hrest
    refine ⟨store', ?_, hholds⟩
    rw [List.map_cons, CheckStore.run_cons, hdrop]
    exact hrun

/-- The plan for the wanted checks fails exactly when a name collides. -/
theorem run_planChecks {checks : List DatabaseCheck}
    (h : Holds store (entries ++ free.map actual.storedCheck))
    (hused : ∀ name, name ∈ used ↔ CheckName.given name ∈ entries.map Prod.fst) :
    (¬ ClashFree actual used free checks → store.run
      (planChecks expected actual { allowDestructive := true } checks free).statements = none) ∧
    (ClashFree actual used free checks → ∃ store' new, store.run
        (planChecks expected actual { allowDestructive := true } checks free).statements =
          some store' ∧ Holds store' (entries ++ new) ∧ List.Forall₂ Meets checks new ∧
        new.map CheckStore.shown = shownChecks actual free checks) := by
  induction checks generalizing store entries free used with
  | nil =>
    refine ⟨fun hclash => absurd trivial hclash, fun _ => ?_⟩
    obtain ⟨store', hrun, hholds⟩ := @run_drops expected _ _ _ _ h
    exact ⟨store', [], hrun, by rwa [List.append_nil], .nil, rfl⟩
  | cons wanted checks ih =>
    obtain ⟨hfails, hsettles⟩ := @run_planCheck expected _ _ _ _ wanted _ h hused
    rw [planChecks, SchemaPlan.statements_append, CheckStore.run_append]
    by_cases hclash : Clash actual used free wanted
    · refine ⟨fun _ => ?_, fun hfree => absurd hclash hfree.1⟩
      rw [hfails hclash]
      rfl
    · obtain ⟨settled, entry, hrun, hholds, hmeets, hshown⟩ := hsettles hclash
      have hused' : ∀ name, name ∈ (finalName actual wanted free).toList ++ used ↔
          CheckName.given name ∈ (entries ++ [entry]).map Prod.fst := by
        intro name
        obtain ⟨hfinal, -⟩ := Prod.mk.inj hshown
        rw [← hfinal, List.mem_append, List.map_append, List.mem_append, hused, or_comm]
        refine or_congr_right ?_
        obtain ⟨entryName, expression⟩ := entry
        cases entryName <;> simp [eq_comm]
      have hrest : Holds settled ((entries ++ [entry]) ++
          (leftFree wanted free).map actual.storedCheck) := by
        rw [List.append_assoc]
        exact hholds
      obtain ⟨hfail, hsucceed⟩ := ih hrest hused'
      rw [hrun, Option.bind_some]
      refine ⟨fun hnot => hfail fun hfree => hnot ⟨hclash, hfree⟩, fun hfree => ?_⟩
      obtain ⟨store', new, hrun', hholds', hall, hshownAll⟩ := hsucceed hfree.2
      refine ⟨store', entry :: new, hrun', ?_, .cons hmeets hall, ?_⟩
      · rwa [List.append_assoc] at hholds'
      · rw [List.map_cons, hshown, hshownAll]
        rfl

/-- The database has a check for every wanted one, and no other. -/
def Reaches (checks : List DatabaseCheck) (store : CheckStore) : Prop :=
  ∃ entries, entries.Perm store.checks ∧ List.Forall₂ Meets checks entries

/-- The names of the actual checks are different in the database. -/
def DatabaseTable.ChecksDistinct (actual : DatabaseTable) : Prop :=
  (actual.checks.map actual.checkName).Nodup

instance (actual : DatabaseTable) : Decidable actual.ChecksDistinct :=
  inferInstanceAs (Decidable (List.Nodup _))

theorem replayChecks_eq (expected actual : DatabaseTable) : replayChecks expected actual =
    CheckStore.run { checks := actual.checks.map actual.storedCheck }
      (planChecks expected actual { allowDestructive := true } expected.checks
        actual.checks).statements := by
  rw [replayChecks, changes_diffPostgresTableChecks]
  rfl

theorem holds_initial (h : actual.ChecksDistinct) :
    Holds { checks := actual.checks.map actual.storedCheck }
      ([] ++ actual.checks.map actual.storedCheck) where
  perm := .refl _
  nodup := by
    rw [List.nil_append, List.map_map]
    have hnames : actual.checks.map (Prod.fst ∘ actual.storedCheck) =
        (actual.checks.map actual.checkName).map CheckName.given := by
      rw [List.map_map]
      rfl
    rw [hnames]
    exact List.Nodup.map (fun _ _ heq => CheckName.given.inj heq) h
  fresh := by
    intro number hnumber
    rw [List.nil_append, List.map_map] at hnumber
    obtain ⟨check, -, heq⟩ := List.mem_map.mp hnumber
    cases heq

/-- A name that collides makes a statement fail. -/
theorem replay_clash (h : actual.ChecksDistinct)
    (hclash : ¬ ClashFree actual [] actual.checks expected.checks) :
    replayChecks expected actual = none := by
  rw [replayChecks_eq]
  exact (run_planChecks (holds_initial h) (by simp)).1 hclash

/-- Otherwise the statements leave a check for every wanted one. -/
theorem replay_succeeds (h : actual.ChecksDistinct)
    (hfree : ClashFree actual [] actual.checks expected.checks) :
    ∃ store, replayChecks expected actual = some store ∧ Reaches expected.checks store ∧
      (store.checks.map CheckStore.shown).Perm (shownChecks actual actual.checks expected.checks) := by
  obtain ⟨store, new, hrun, hholds, hmeets, hshown⟩ :=
    (@run_planChecks expected _ _ _ _ _ expected.checks (holds_initial h) (by simp)).2 hfree
  rw [List.nil_append] at hholds
  refine ⟨store, by rwa [replayChecks_eq], ⟨new, hholds.perm.symm, hmeets⟩, ?_⟩
  rw [← hshown]
  exact hholds.perm.map _

end

end MetalOrm.Native.Schema
