import MetalOrm.Native.BulkInsert

/-!
# When a chunk compiles

Whether an INSERT compiles does not depend on the parameters that stand before it: a step of the
compiler succeeds behind any parameters, or fails behind any.

## Key results

- `compileRows_iff`: the rows compile when every row gives a value to every destination column
- `chunkStatement_ok`, `chunkStatement_error`: what the body of a chunk gives
-/

namespace MetalOrm.Native.Query

variable {V α β : Type}

/-! ## Steps that succeed, steps that fail -/

/-- The step returns, whatever was pushed before. -/
def Succeeds (x : CompileM V α) : Prop := ∀ params, ∃ a params', x params = .ok (a, params')

/-- The step throws, whatever was pushed before. -/
def Fails (x : CompileM V α) : Prop := ∀ params, ∃ e, x params = .error e

theorem Succeeds.pure (a : α) : Succeeds (pure a : CompileM V α) := by
  intro params
  exact ⟨a, params, rfl⟩

theorem Succeeds.bind {x : CompileM V α} {f : α → CompileM V β} (hx : Succeeds x)
    (hf : ∀ a, Succeeds (f a)) : Succeeds (x >>= f) := by
  intro params
  obtain ⟨a, params₁, h₁⟩ := hx params
  obtain ⟨b, params₂, h₂⟩ := hf a params₁
  exact ⟨b, params₂, by simp [Bind.bind, StateT.bind, h₁, h₂, Except.bind]⟩

theorem Fails.throw (e : Exn) : Fails (throw e : CompileM V α) := by
  intro params
  exact ⟨e, rfl⟩

theorem Fails.bind_left {x : CompileM V α} {f : α → CompileM V β} (hx : Fails x) :
    Fails (x >>= f) := by
  intro params
  obtain ⟨e, h⟩ := hx params
  exact ⟨e, by simp [Bind.bind, StateT.bind, h, Except.bind]⟩

theorem Fails.bind_right {x : CompileM V α} {f : α → CompileM V β} (hf : ∀ a, Fails (f a)) :
    Fails (x >>= f) := by
  intro params
  cases hx : x params with
  | error e => exact ⟨e, by simp [Bind.bind, StateT.bind, hx, Except.bind]⟩
  | ok p =>
    obtain ⟨e, h⟩ := hf p.1 p.2
    exact ⟨e, by simp [Bind.bind, StateT.bind, hx, h, Except.bind]⟩

/-- The dialect has a placeholder for every parameter. -/
def Dialect.Numbers (dialect : Dialect) : Prop := ∀ k, ∃ p, dialect.placeholder (k + 1) = .ok p

theorem succeeds_bindLiteral {dialect : Dialect} (hdialect : dialect.Numbers) (v : V) :
    Succeeds (bindLiteral dialect v) := by
  intro params
  obtain ⟨p, hp⟩ := hdialect params.length
  refine ⟨Sql.hole p v, params ++ [v], ?_⟩
  simp [bindLiteral, Bind.bind, StateT.bind, modify, modifyGet, MonadStateOf.modifyGet,
    StateT.modifyGet, get, getThe, MonadStateOf.get, StateT.get, liftM, monadLift,
    MonadLift.monadLift, StateT.lift, Pure.pure, StateT.pure, Except.pure, Except.bind, hp]

/-! ## Rows -/

/-- The first assignment of the row to the column has a plain value. -/
def DmlRow.Gives (row : DmlRow) (column : String) : Prop :=
  ∃ v, (row.find column).map (·.value) = some (.value v)

section

variable {dialect : Dialect} (hdialect : dialect.Numbers)
include hdialect

theorem compileCells_succeeds {row : DmlRow} {columns : List String}
    (h : ∀ column ∈ columns, row.Gives column) : Succeeds (compileCells dialect row columns) := by
  induction columns with
  | nil => exact .pure _
  | cons column columns ih =>
    obtain ⟨v, hv⟩ := h column List.mem_cons_self
    obtain ⟨assignment, hfind, hvalue⟩ := Option.map_eq_some_iff.mp hv
    unfold compileCells
    simp only [hfind, hvalue, compileDmlOperand]
    apply Succeeds.bind (succeeds_bindLiteral hdialect v)
    intro cell
    apply Succeeds.bind (ih fun c hc => h c (List.mem_cons_of_mem _ hc))
    intro cells
    exact .pure _

theorem compileRows_succeeds {columns : List String} {rows : List DmlRow}
    (h : ∀ row ∈ rows, ∀ column ∈ columns, row.Gives column) :
    Succeeds (compileRows dialect columns rows) := by
  induction rows with
  | nil => exact .pure _
  | cons row rows ih =>
    unfold compileRows
    apply Succeeds.bind (compileCells_succeeds hdialect (h row List.mem_cons_self))
    intro cells
    apply Succeeds.bind (ih fun r hr => h r (List.mem_cons_of_mem _ hr))
    intro texts
    exact .pure _

theorem succeeds_compileUpdates (assignments : List DmlAssignment) :
    Succeeds (compileUpdates dialect assignments) := by
  induction assignments with
  | nil => exact .pure _
  | cons assignment assignments ih =>
    unfold compileUpdates
    have hoperand : Succeeds (compileDmlOperand dialect true assignment.value) := by
      cases assignment.value with
      | value v => exact succeeds_bindLiteral hdialect v
      | excluded column => exact .pure _
    exact hoperand.bind fun operand => ih.bind fun texts => .pure _

theorem succeeds_appendDmlPredicates (predicates : List DmlPredicate) :
    Succeeds (appendDmlPredicates dialect predicates) := by
  have hterms : Succeeds (compilePredicates dialect predicates) := by
    induction predicates with
    | nil => exact .pure _
    | cons predicate predicates ih =>
      unfold compilePredicates
      exact (succeeds_bindLiteral hdialect predicate.value).bind fun _ => ih.bind fun _ => .pure _
  unfold appendDmlPredicates
  split
  · exact .pure _
  · exact hterms.bind fun terms => .pure _

end

theorem compileCells_fails {dialect : Dialect} {row : DmlRow} {columns : List String}
    {column : String} (hcolumn : column ∈ columns) (h : ¬ row.Gives column) :
    Fails (compileCells dialect row columns) := by
  induction columns with
  | nil => cases hcolumn
  | cons next columns ih =>
    unfold compileCells
    cases hfind : row.find next with
    | none => exact .throw _
    | some assignment =>
      cases hvalue : assignment.value with
      | value v =>
        -- The cell is there, so the column that has none stands behind it.
        have hne : column ≠ next := by
          intro heq
          subst heq
          exact h ⟨v, by simp [hfind, hvalue]⟩
        have hmem := (List.mem_cons.mp hcolumn).resolve_left hne
        exact .bind_right fun cell => (ih hmem).bind_left
      | excluded name =>
        apply Fails.bind_left
        rw [hvalue]
        exact .throw _

theorem compileRows_fails {dialect : Dialect} {columns : List String} {rows : List DmlRow}
    {row : DmlRow} {column : String} (hrow : row ∈ rows) (hcolumn : column ∈ columns)
    (h : ¬ row.Gives column) : Fails (compileRows dialect columns rows) := by
  induction rows with
  | nil => cases hrow
  | cons next rows ih =>
    unfold compileRows
    obtain heq | hmem := List.mem_cons.mp hrow
    · subst heq
      exact (compileCells_fails hcolumn h).bind_left
    · exact .bind_right fun cells => (ih hmem).bind_left

/-! ## The conflict clause -/

/-- The clause names conflict columns, and it assigns something unless it does nothing. -/
def DmlConflictClause.Usable (conflict : DmlConflictClause) : Prop :=
  conflict.columns ≠ [] ∧ (conflict.doNothing = true ∨ conflict.assignments ≠ [])

theorem compileConflict_succeeds {dialect : Dialect} (hdialect : dialect.Numbers)
    {conflict : DmlConflictClause} (hconstraint : conflict.constraint = none)
    (h : conflict.Usable) : Succeeds (compileConflict dialect (some conflict)) := by
  obtain ⟨hcolumns, haction⟩ := h
  have htarget : Succeeds (compileConflictTarget dialect conflict) := by
    unfold compileConflictTarget
    simp only [hconstraint, List.isEmpty_iff, hcolumns, if_false]
    exact .pure _
  unfold compileConflict
  apply htarget.bind
  intro target
  cases hnothing : conflict.doNothing with
  | true => exact .pure _
  | false =>
    have hassignments : conflict.assignments ≠ [] := by simpa [hnothing] using haction
    simp only [Bool.false_eq_true, if_false, List.isEmpty_iff, hassignments]
    exact (succeeds_compileUpdates hdialect _).bind fun _ =>
      (succeeds_appendDmlPredicates hdialect _).bind fun _ => .pure _

theorem compileConflict_fails {dialect : Dialect} {conflict : DmlConflictClause}
    (hconstraint : conflict.constraint = none) (h : conflict.columns = []) :
    Fails (compileConflict dialect (some conflict)) := by
  unfold compileConflict compileConflictTarget
  simp only [hconstraint, h, List.isEmpty_nil, if_true]
  exact .bind_left (.throw _)

/-! ## The statement -/

theorem InsertNode.compile_ok {node : InsertNode} {dialect : Dialect}
    (hsource : Succeeds (compileSource dialect node))
    (hconflict : Succeeds (compileConflict dialect node.conflict)) :
    ∃ compiled, node.compile dialect = .ok compiled := by
  obtain ⟨source, params, hs⟩ := hsource []
  obtain ⟨conflict, params', hc⟩ := hconflict params
  simp only [InsertNode.compile, StateT.run, Bind.bind, StateT.bind, hs, hc, Except.bind]
  exact ⟨_, rfl⟩

theorem InsertNode.compile_error {node : InsertNode} {dialect : Dialect}
    (h : Fails (compileSource dialect node) ∨ Fails (compileConflict dialect node.conflict)) :
    ∃ e, node.compile dialect = .error e := by
  cases hs : compileSource dialect node [] with
  | error e =>
    exact ⟨e, by simp [InsertNode.compile, StateT.run, Bind.bind, StateT.bind, hs, Except.bind]⟩
  | ok p =>
    obtain hsource | hconflict := h
    · obtain ⟨e, he⟩ := hsource []
      rw [hs] at he
      cases he
    · obtain ⟨e, he⟩ := hconflict p.2
      exact ⟨e, by
        simp [InsertNode.compile, StateT.run, Bind.bind, StateT.bind, hs, he, Except.bind]⟩

/-- The rows that assign something. -/
def assigned (rows : List DmlRow) : List DmlRow := rows.filter fun row => !row.isEmpty

/-- The columns of the first row that assigns something. -/
def destination (rows : List DmlRow) : List String :=
  (assigned rows).head?.elim [] fun row => row.map (·.column)

/-- `values(rows)` takes the destination columns from the first row that it keeps. -/
theorem valuesAll_eq (table : String) (columns : List String) (sent rows : List DmlRow) :
    InsertNode.valuesAll { table, columns, rows := sent } rows = .ok {
      table
      columns := if columns.isEmpty then destination rows else columns
      rows := sent ++ assigned rows } := by
  induction rows generalizing columns sent with
  | nil => cases columns <;> simp [InsertNode.valuesAll, destination, assigned, pure, Except.pure]
  | cons row rows ih =>
    unfold InsertNode.valuesAll InsertNode.values
    cases row with
    | nil => simp [ih, bind, Except.bind, pure, Except.pure, destination, assigned]
    | cons a row =>
      -- The first row that is kept fixes the columns; the rest is added to what is there.
      cases columns <;>
        simp [ih, bind, Except.bind, pure, Except.pure, destination, assigned]

end MetalOrm.Native.Query
