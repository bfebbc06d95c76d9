import Mathlib.Data.List.ReduceOption
import MetalOrm.ForStd.LastWrite
import MetalOrm.ForStd.RowActions
import MetalOrm.Native.BulkUpdate
import MetalOrm.Spec.BulkChunking
import MetalOrm.Spec.BulkTargets

/-!
# Bulk statements in any order

The workers of a bulk operation send the statements of their chunks in an order that differs from
run to run. Each statement acts on the rows of its clause one by one, so the table in the end can be
said row by row: it does not depend on the order, nor on the chunks.

## Key results

- `runs_bulkUpdate`: what is left of a table after `bulk_update`, if no two rows have one identity
- `bulk_any_order`: the same for `bulk_update_where` and `bulk_delete`, for all identities
-/

namespace MetalOrm.Native.Bulk

open ForStd Query

/-! ## What a statement does to a table -/

/-- A database, and what a column stores of a value. -/
structure DmlDatabase extends DmlEngine where
  stored : (table column : String) → Value → Value

/-- What an assignment stores in a column. -/
def storedIn (db : DmlDatabase) (table column : String) (assignment : DmlAssignment) :
    Option Value :=
  match assignment.value with
  | .value v => if assignment.column = column then some (db.stored table column v) else none
  | .excluded _ => none

/-- The row with the assignments made, the last one of a column last. -/
def assign (db : DmlDatabase) (table : String) (assignments : List DmlAssignment) (row : Tuple) :
    Tuple := fun column => lastWrite (storedIn db table column) assignments (row column)

/-- The rows that a clause holds for are changed. A clause that is no condition is refused. -/
structure TableStatement where
  table : String
  terms : List WhereTerm
  act : Tuple → Option Tuple

namespace TableStatement

/-- What the statement does to the rows. -/
def action (s : TableStatement) (db : DmlDatabase) : RowAction Tuple where
  guard row := (clauseTruth db.toDmlEngine s.table row s.terms).holds
  act := s.act

/-- The statement on a table. -/
def execute (db : DmlDatabase) (family : DialectFamily) (rows : List Tuple) (s : TableStatement) :
    Option (List Tuple) :=
  if s.terms.all (·.boolean family) then some ((s.action db).run rows) else none

/-- The rows that are touched are those that the statement acts on. -/
theorem touched_eq (db : DmlDatabase) (family : DialectFamily) (rows : List Tuple)
    (s : TableStatement) :
    touched family db.toDmlEngine s.table s.terms rows =
      (s.execute db family rows).map fun _ => rows.filter (s.action db).guard := by
  unfold touched execute
  split <;> rfl

/-- Statements one after the other. -/
def executeAll (db : DmlDatabase) (family : DialectFamily) (statements : List TableStatement)
    (rows : List Tuple) : Option (List Tuple) :=
  statements.foldlM (execute db family) rows

theorem executeAll_eq {db : DmlDatabase} {family : DialectFamily} {statements : List TableStatement}
    (h : ∀ s ∈ statements, s.terms.all (·.boolean family)) (rows : List Tuple) :
    executeAll db family statements rows =
      some (RowAction.runAll (statements.map (·.action db)) rows) := by
  induction statements generalizing rows with
  | nil => rfl
  | cons s statements ih =>
    obtain ⟨hs, hstatements⟩ := List.forall_mem_cons.mp h
    rw [executeAll, List.foldlM_cons, execute, if_pos hs]
    exact ih hstatements _

end TableStatement

/-- An UPDATE on its table. -/
def updateStatement (db : DmlDatabase) (dialect : Dialect) (node : UpdateNode) : TableStatement where
  table := node.table
  terms := node.terms dialect
  act row := some (assign db node.table node.assignments row)

/-- A DELETE on its table. -/
def deleteStatement (dialect : Dialect) (node : DeleteNode) : TableStatement where
  table := node.table
  terms := node.terms dialect
  act _ := none

section Assign

variable {db : DmlDatabase} {table : String} {assignments : List DmlAssignment}

/-- Columns that are not assigned stay as they are. -/
theorem assign_other {column : String} (h : ∀ a ∈ assignments, a.column ≠ column) (row : Tuple) :
    assign db table assignments row column = row column := by
  refine lastWrite_of_none (fun a ha => ?_) _
  unfold storedIn
  split
  · rw [if_neg (h a ha)]
  · rfl

/-- Assigning the same values again changes nothing. -/
theorem assign_assign (row : Tuple) :
    assign db table assignments (assign db table assignments row) =
      assign db table assignments row := by
  funext column
  rw [assign, assign]
  by_cases h : ∃ a ∈ assignments, storedIn db table column a ≠ none
  · exact lastWrite_eq_of_exists h _ _
  · have hnone : ∀ a ∈ assignments, storedIn db table column a = none := fun a ha => by
      by_contra hne
      exact h ⟨a, ha, hne⟩
    rw [lastWrite_of_none hnone]

end Assign

/-! ## `bulk_update` -/

/-- The value that a row gives for a column. -/
def givenValue (given : DmlRow) (column : String) : Option Value :=
  match given.find column with
  | some { value := .value v, .. } => some v
  | _ => none

section

variable (db : DmlDatabase) (entity : BulkEntity) (dialect : Dialect) (identity : List String)
  (where_ : Option DmlWhereCompiler)

/-- A row of the table has the identity of a row of the call. -/
def hasIdentity (given : DmlRow) (row : Tuple) : Bool :=
  identity.all fun column => (givenValue given column).any fun v =>
    (db.compare .eq (cellOf entity.table row column) { value := v }).holds

/-- The parameters in front of the extra condition. -/
def rowParams (given : DmlRow) : List Value :=
  (rowAssignments entity identity given).flatMap (·.value.values) ++
    identity.filterMap (givenValue given)

/-- A row of the table after `bulk_update`: the row of the call with its identity is assigned, if
    the extra condition holds. -/
def updatedRow (given : List DmlRow) (row : Tuple) : Tuple :=
  match given.find? (hasIdentity db entity identity · row) with
  | none => row
  | some g =>
    if extraHolds db.toDmlEngine row (extraShape dialect where_ (rowParams entity identity g)) then
      assign db entity.table (rowAssignments entity identity g) row
    else row

/-- No row of the table has the identity of two rows. -/
def Distinct (given : List DmlRow) : Prop :=
  given.Pairwise fun g g' => ∀ row, ¬(hasIdentity db entity identity g row = true ∧
    hasIdentity db entity identity g' row = true)

end

section

variable {db : DmlDatabase} {entity : BulkEntity} {dialect : Dialect} {identity returning : List String}
  {where_ : Option DmlWhereCompiler} {given : DmlRow}

/-- An assignment of the row leaves its identity as it is. -/
theorem hasIdentity_assign (given' : DmlRow) (row : Tuple) :
    hasIdentity db entity identity given' (assign db entity.table
      (rowAssignments entity identity given) row) = hasIdentity db entity identity given' row := by
  unfold hasIdentity
  rw [Bool.eq_iff_iff, List.all_eq_true, List.all_eq_true]
  refine forall₂_congr fun column hcolumn => ?_
  have hother : ∀ a ∈ rowAssignments entity identity given, a.column ≠ column := by
    rintro a ha rfl
    have hkept := (List.mem_filter.mp ha).2
    simp only [decide_eq_true_eq] at hkept
    exact hkept.1 hcolumn
  rw [cellOf, cellOf, assign_other hother row]

/-- The predicates of a row compare its identity columns with the values that it gives. -/
theorem identityPredicates_ok {predicates : List DmlPredicate}
    (h : identity.mapM (identityPredicate given) = .ok predicates) :
    predicates.map (·.value) = identity.filterMap (givenValue given) ∧
      ∀ row, predicates.all (·.holds db.toDmlEngine entity.table row) =
        hasIdentity db entity identity given row := by
  have hone : ∀ column p, identityPredicate given column = .ok p →
      givenValue given column = some p.value ∧ p = { column, value := p.value } := by
    intro column p hp
    unfold identityPredicate at hp
    unfold givenValue
    cases hfind : given.find column with
    | none =>
      rw [hfind] at hp
      cases hp
    | some a =>
      obtain ⟨name, v | c⟩ := a
      · rw [hfind] at hp
        cases hp
        exact ⟨rfl, rfl⟩
      · rw [hfind] at hp
        cases hp
  induction identity generalizing predicates with
  | nil =>
    cases h
    exact ⟨rfl, fun _ => rfl⟩
  | cons column identity ih =>
    rw [List.mapM_cons] at h
    obtain ⟨p, hp, h⟩ := except_bind_ok h
    obtain ⟨rest, hrest, h⟩ := except_bind_ok h
    cases h
    obtain ⟨hvalue, hp⟩ := hone column p hp
    obtain ⟨hvalues, hall⟩ := ih hrest
    refine ⟨by rw [List.map_cons, List.filterMap_cons, hvalue, hvalues], fun row => ?_⟩
    rw [List.all_cons, hall, hasIdentity, hasIdentity, List.all_cons, hvalue, hp]
    rfl

/-- The members of the builder of a row. -/
theorem updateRow_eq (assignments : List DmlAssignment) (predicates : List DmlPredicate) :
    ∃ columns, updateRow entity where_ returning assignments predicates =
      { table := entity.table, assignments, predicates, extraWhere := where_,
        returning := columns } := by
  unfold updateRow
  cases where_ <;> cases returning <;> exact ⟨_, rfl⟩

/-- What is sent for a row of the call. -/
structure Sends (entity : BulkEntity) (dialect : Dialect) (identity : List String)
    (where_ : Option DmlWhereCompiler) (given : DmlRow) (s : BulkUpdateStatement) : Prop where
  compiles : s.node.compile dialect = .ok s.compiled
  boolean : ∀ db, (updateStatement db dialect s.node).terms.all (·.boolean dialect.family)
  guard : ∀ db row, ((updateStatement db dialect s.node).action db).guard row =
    (hasIdentity db entity identity given row && extraHolds db.toDmlEngine row
      (extraShape dialect where_ (rowParams entity identity given)))
  act : ∀ db row, ((updateStatement db dialect s.node).action db).act row =
    some (assign db entity.table (rowAssignments entity identity given) row)

theorem rowStatement_ok {sent : Option BulkUpdateStatement}
    (h : rowStatement entity dialect identity where_ returning given = .ok sent) :
    (sent = none ∧ rowAssignments entity identity given = []) ∨
      ∃ s, sent = some s ∧ Sends entity dialect identity where_ given s := by
  unfold rowStatement at h
  obtain ⟨predicates, hpredicates, h⟩ := except_bind_ok h
  dsimp only at h
  split at h
  · rename_i hempty
    cases h
    exact .inl ⟨rfl, List.isEmpty_iff.mp hempty⟩
  · obtain ⟨compiled, hcompiled, h⟩ := except_bind_ok h
    cases h
    refine .inr ⟨_, rfl, hcompiled, fun db => ?_, fun db row => ?_, fun db row => ?_⟩
    all_goals
      obtain ⟨columns, hnode⟩ := @updateRow_eq entity returning where_
        (rowAssignments entity identity given) predicates
      simp only [hnode, updateStatement, TableStatement.action, UpdateNode.terms]
    · exact (boolean_whereTerms _ _).mpr (.inr nofun)
    · obtain ⟨hvalues, hall⟩ := @identityPredicates_ok db entity identity given _ hpredicates
      have hparams : rowParams entity identity given =
          (rowAssignments entity identity given).flatMap (·.value.values) ++
            predicateLiterals predicates [] := by
        rw [rowParams, predicateLiterals, hvalues, List.flatMap_nil, List.append_nil]
      rw [clauseTerms, holds_whereTerms, satisfies, hall, List.all_nil, Bool.and_true, hparams]
      rfl

/-- Statements of rows without a common identity act on different rows. -/
theorem Sends.apart {given' : DmlRow} {s s' : BulkUpdateStatement}
    (h : Sends entity dialect identity where_ given s)
    (h' : Sends entity dialect identity where_ given' s')
    (hdistinct : ∀ row, ¬(hasIdentity db entity identity given row = true ∧
      hasIdentity db entity identity given' row = true)) :
    ((updateStatement db dialect s.node).action db).Apart
      ((updateStatement db dialect s'.node).action db) := by
  have hfalse : ∀ {row}, ((updateStatement db dialect s.node).action db).guard row = true →
      ((updateStatement db dialect s'.node).action db).guard row = false := by
    intro row hrow
    rw [h.guard, Bool.and_eq_true] at hrow
    rw [h'.guard, Bool.and_eq_false_iff]
    exact .inl (Bool.eq_false_iff.mpr fun hboth => hdistinct row ⟨hrow.1, hboth⟩)
  have hfalse' : ∀ {row}, ((updateStatement db dialect s'.node).action db).guard row = true →
      ((updateStatement db dialect s.node).action db).guard row = false := by
    intro row hrow
    rw [h'.guard, Bool.and_eq_true] at hrow
    rw [h.guard, Bool.and_eq_false_iff]
    exact .inl (Bool.eq_false_iff.mpr fun hboth => hdistinct row ⟨hboth, hrow.1⟩)
  refine ⟨fun _ => hfalse, fun _ => hfalse', fun row row' hrow hact => ?_,
    fun row row' hrow hact => ?_⟩
  · -- the row keeps its identity
    rw [h.act] at hact
    cases hact
    have hboth := hfalse hrow
    rw [h.guard, Bool.and_eq_true] at hrow
    rw [h'.guard, hasIdentity_assign, Bool.and_eq_false_iff]
    exact .inl (Bool.eq_false_iff.mpr fun hrow' => hdistinct row ⟨hrow.1, hrow'⟩)
  · rw [h'.act] at hact
    cases hact
    rw [h'.guard, Bool.and_eq_true] at hrow
    rw [h.guard, hasIdentity_assign, Bool.and_eq_false_iff]
    exact .inl (Bool.eq_false_iff.mpr fun hrow' => hdistinct row ⟨hrow', hrow.1⟩)

/-- The statements of the chunks are those of the rows. -/
theorem flatten_mapM {f : DmlRow → Except Exn (Option BulkUpdateStatement)}
    {parts : List (List DmlRow)} {chunks : List (List BulkUpdateStatement)}
    (h : parts.mapM (fun chunk => do
      let statements ← chunk.mapM f
      return statements.reduceOption) = .ok chunks) :
    ∃ sent, parts.flatten.mapM f = .ok sent ∧ chunks.flatten = sent.reduceOption := by
  induction parts generalizing chunks with
  | nil =>
    cases h
    exact ⟨[], rfl, rfl⟩
  | cons part parts ih =>
    rw [List.mapM_cons] at h
    obtain ⟨statements, hpart, h⟩ := except_bind_ok h
    obtain ⟨sent₁, hsent₁, hpart⟩ := except_bind_ok hpart
    obtain ⟨rest, hrest, h⟩ := except_bind_ok h
    cases hpart
    cases h
    obtain ⟨sent₂, hsent₂, hflatten⟩ := ih hrest
    refine ⟨sent₁ ++ sent₂, ?_, ?_⟩
    · rw [List.flatten_cons, List.mapM_append, hsent₁, hsent₂]
      rfl
    · rw [List.flatten_cons, hflatten, List.reduceOption_append]

variable {rows : List DmlRow} {sent : List (Option BulkUpdateStatement)}

theorem exists_sends
    (h : rows.mapM (rowStatement entity dialect identity where_ returning) = .ok sent) :
    ∀ s ∈ sent.reduceOption, ∃ g ∈ rows, Sends entity dialect identity where_ g s := by
  intro s hs
  obtain ⟨i, hi, hget⟩ := List.getElem_of_mem (List.reduceOption_mem_iff.mp hs)
  obtain ⟨hlength, hrows⟩ := List.forall₂_iff_get.mp (forall₂_of_mapM h)
  obtain ⟨hg, hgiven⟩ := hrows i (by omega) hi
  simp only [List.get_eq_getElem, hget] at hg hgiven
  obtain ⟨hnone, -⟩ | ⟨s', hs', hsends⟩ := rowStatement_ok hgiven
  · cases hnone
  · cases hs'
    exact ⟨_, hg, hsends⟩

/-- The actions of the statements, and what becomes of a row under them. -/
theorem actions_of_rows (hdistinct : Distinct db entity identity rows)
    (h : rows.mapM (rowStatement entity dialect identity where_ returning) = .ok sent) :
    let actions := sent.reduceOption.map fun s => (updateStatement db dialect s.node).action db
    actions.Pairwise RowAction.Apart ∧ ∀ row,
      RowAction.met actions row = some (updatedRow db entity dialect identity where_ rows row) := by
  induction rows generalizing sent with
  | nil =>
    cases h
    exact ⟨.nil, fun _ => rfl⟩
  | cons g rows ih =>
    rw [List.mapM_cons] at h
    obtain ⟨o, ho, h⟩ := except_bind_ok h
    obtain ⟨rest, hrest, h⟩ := except_bind_ok h
    cases h
    obtain ⟨hg, hrows⟩ := List.pairwise_cons.mp hdistinct
    obtain ⟨happart, hmet⟩ := ih hrows hrest
    have hsends := exists_sends hrest
    obtain ⟨rfl, hempty⟩ | ⟨s, rfl, hs⟩ := rowStatement_ok ho
    · refine ⟨by simpa using happart, fun row => ?_⟩
      rw [List.reduceOption_cons_of_none, hmet row, updatedRow, updatedRow, List.find?_cons]
      cases hidentity : hasIdentity db entity identity g row with
      | false => rfl
      | true =>
        -- the row assigns nothing, and no other row has this identity
        have hnone : rows.find? (hasIdentity db entity identity · row) = none :=
          List.find?_eq_none.mpr fun g' hg' hrow => hg g' hg' row ⟨hidentity, hrow⟩
        rw [hnone]
        simp only [hempty]
        exact congrArg some (ite_self row).symm
    · refine ⟨?_, fun row => ?_⟩
      · rw [List.reduceOption_cons_of_some, List.map_cons, List.pairwise_cons]
        refine ⟨fun a ha => ?_, happart⟩
        obtain ⟨s', hs', rfl⟩ := List.mem_map.mp ha
        obtain ⟨g', hg', hsends'⟩ := hsends s' hs'
        exact hs.apart hsends' (hg g' hg')
      · have hmet := hmet row
        rw [List.reduceOption_cons_of_some, List.map_cons, RowAction.met, List.find?_cons, hs.guard,
          updatedRow, List.find?_cons]
        cases hidentity : hasIdentity db entity identity g row with
        | false => exact hmet
        | true =>
          rw [Bool.true_and]
          cases hextra : extraHolds db.toDmlEngine row
              (extraShape dialect where_ (rowParams entity identity g)) with
          | true =>
            simp only [hextra, if_true]
            exact hs.act db row
          | false =>
            -- no other statement meets the row
            have hnone : (rest.reduceOption.map fun s =>
                (updateStatement db dialect s.node).action db).find? (·.guard row) = none := by
              refine List.find?_eq_none.mpr fun a ha hrow => ?_
              obtain ⟨s', hs', rfl⟩ := List.mem_map.mp ha
              obtain ⟨g', hg', hsends'⟩ := hsends s' hs'
              rw [hsends'.guard, Bool.and_eq_true] at hrow
              exact hg g' hg' row ⟨hidentity, hrow.1⟩
            simp only [hnone, hextra, Bool.false_eq_true, if_false]

end

section

variable {db : DmlDatabase} {entity : BulkEntity} {dialect : Dialect} {options : BulkBaseOptions}
  {whereOptions : BulkWhereOptions}

/-- What `bulk_update` sends comes from the rows of the call. -/
theorem bulkUpdate_ok {rows : BulkRows} {chunks : List (List BulkUpdateStatement)}
    (h : bulkUpdate entity dialect options whereOptions rows = .ok chunks)
    (hwrap : NoWrap rows.size options) {identity : List String}
    (hidentity : resolveByColumns entity whereOptions.identity = .ok identity) :
    ∃ returning sent,
      rows.rows.mapM (rowStatement entity dialect identity whereOptions.where_ returning) =
        .ok sent ∧ chunks.flatten = sent.reduceOption := by
  unfold bulkUpdate at h
  split at h
  · rename_i hempty
    cases h
    rw [List.isEmpty_iff.mp hempty]
    exact ⟨[], [], rfl, rfl⟩
  · obtain ⟨names, hnames, h⟩ := except_bind_ok h
    cases hidentity.symm.trans hnames
    obtain ⟨returning, -, h⟩ := except_bind_ok h
    obtain ⟨_, hvalid, h⟩ := except_bind_ok h
    have hchunk := one_le_of_validate hvalid
    obtain ⟨sent, hsent, hflatten⟩ := flatten_mapM h
    rw [bulkChunks_eq hchunk hwrap, flatten_chunksOf (one_le_toNat hchunk)] at hsent
    exact ⟨returning, sent, hsent, hflatten⟩

/-- The table after the statements of `bulk_update`, and the rows that each of them returns. -/
theorem runs_bulkUpdate {rows : BulkRows} {chunks : List (List BulkUpdateStatement)}
    (h : bulkUpdate entity dialect options whereOptions rows = .ok chunks)
    (hwrap : NoWrap rows.size options) {identity : List String}
    (hidentity : resolveByColumns entity whereOptions.identity = .ok identity)
    (hdistinct : Distinct db entity identity rows.rows) {order : List BulkUpdateStatement}
    (hperm : order.Perm chunks.flatten) (table : List Tuple) :
    TableStatement.executeAll db dialect.family
        (order.map fun s => updateStatement db dialect s.node) table =
      some (table.map (updatedRow db entity dialect identity whereOptions.where_ rows.rows)) ∧
    ∀ before s after, order = before ++ s :: after → ∀ table',
      TableStatement.executeAll db dialect.family
          (before.map fun s => updateStatement db dialect s.node) table = some table' →
        ((updateStatement db dialect s.node).action db).returned table' =
          ((updateStatement db dialect s.node).action db).returned table := by
  obtain ⟨returning, sent, hsent, hflatten⟩ := bulkUpdate_ok h hwrap hidentity
  obtain ⟨happart, hmet⟩ := actions_of_rows hdistinct hsent
  rw [hflatten] at hperm
  have hboolean : ∀ s ∈ order.map fun s => updateStatement db dialect s.node,
      s.terms.all (·.boolean dialect.family) := by
    intro _ h
    obtain ⟨s, hs, rfl⟩ := List.mem_map.mp h
    obtain ⟨g, -, hsends⟩ := exists_sends hsent s (hperm.mem_iff.mp hs)
    exact hsends.boolean db
  have hperm' := hperm.map fun s => (updateStatement db dialect s.node).action db
  refine ⟨?_, ?_⟩
  · rw [TableStatement.executeAll_eq hboolean]
    simp only [List.map_map, Function.comp_def]
    rw [RowAction.runAll_apart hperm' happart, funext hmet]
    exact congrArg some (congrFun List.filterMap_eq_map' table)
  · rintro before s after rfl table' htable
    have horder := hperm'.symm.pairwise happart RowAction.Apart.symm
    rw [List.map_append, List.pairwise_append] at horder
    rw [TableStatement.executeAll_eq fun t ht => hboolean t (by
      rw [List.map_append]
      exact List.mem_append_left _ ht)] at htable
    cases htable
    simp only [List.map_map, Function.comp_def]
    exact RowAction.returned_apart (fun b hb => (horder.2.2 b hb _ List.mem_cons_self).symm) table

/-! ## `bulk_update_where` and `bulk_delete` -/

/-- A row that the statement of a chunk touches. -/
def inChunk (db : DmlDatabase) (dialect : Dialect) (entity : BulkEntity) (identity : String)
    (where_ : Option DmlWhereCompiler) (setValues chunk : List Value) (row : Tuple) : Bool :=
  keyIn db.toDmlEngine entity.table identity chunk row &&
    extraHolds db.toDmlEngine row (extraShape dialect where_ (setValues ++ chunk))

variable {ids : BulkIds} {identity : String} {order : List (List Value)}

/-- The table after the statements of `bulk_update_where`. -/
theorem runs_bulkUpdateWhere (hchunks : ∀ chunk ∈ idChunks ids options, chunk ≠ []) (set : List DmlAssignment)
    (returning : List String) (hperm : order.Perm (idChunks ids options)) (table : List Tuple) :
    TableStatement.executeAll db dialect.family (order.map fun chunk => updateStatement db dialect
        (updateChunk entity set identity whereOptions.where_ returning chunk)) table =
      some (table.map fun row =>
        if (idChunks ids options).any (inChunk db dialect entity identity whereOptions.where_
            (set.flatMap (·.value.values)) · row) then assign db entity.table set row else row) := by
  have hstatement : ∀ chunk, updateStatement db dialect
      (updateChunk entity set identity whereOptions.where_ returning chunk) =
        { table := entity.table
          terms := clauseTerms dialect [] [{ column := identity, values := chunk }]
            whereOptions.where_ (set.flatMap (·.value.values))
          act := fun row => some (assign db entity.table set row) } := by
    intro chunk
    obtain ⟨columns, hnode⟩ := updateChunk_eq entity set identity whereOptions.where_ returning chunk
    rw [hnode]
    rfl
  have hguard : ∀ chunk row, ((updateStatement db dialect (updateChunk entity set identity
      whereOptions.where_ returning chunk)).action db).guard row = inChunk db dialect entity identity
        whereOptions.where_ (set.flatMap (·.value.values)) chunk row := by
    intro chunk row
    rw [hstatement]
    dsimp only [TableStatement.action]
    rw [clauseTerms, holds_whereTerms, satisfies_chunk, predicateLiterals, List.map_nil,
      List.nil_append, List.flatMap_singleton]
    rfl
  have hsame : RowAction.Same (fun row => some (assign db entity.table set row))
      ((idChunks ids options).map fun chunk => (updateStatement db dialect
        (updateChunk entity set identity whereOptions.where_ returning chunk)).action db) := by
    refine ⟨fun a ha => ?_, fun row _ => ?_⟩
    · obtain ⟨chunk, -, rfl⟩ := List.mem_map.mp ha
      exact congrArg TableStatement.act (hstatement chunk)
    · rintro ⟨⟩
      rw [assign_assign]
  rw [TableStatement.executeAll_eq]
  · simp only [List.map_map, Function.comp_def]
    rw [RowAction.runAll_same (hperm.map _) hsame]
    refine congrArg some (Eq.trans (List.filterMap_congr fun row _ => ?_)
      (congrFun List.filterMap_eq_map' table))
    simp only [List.any_map, Function.comp_def, hguard, apply_ite some]
  · intro _ h
    obtain ⟨chunk, hchunk, rfl⟩ := List.mem_map.mp h
    rw [hstatement]
    refine (boolean_whereTerms _ _).mpr (.inr fun p hp => ?_)
    rw [List.mem_singleton.mp hp]
    exact hchunks chunk (hperm.mem_iff.mp hchunk)

/-- The table after the statements of `bulk_delete`. -/
theorem runs_bulkDelete (hchunks : ∀ chunk ∈ idChunks ids options, chunk ≠ [])
    (hperm : order.Perm (idChunks ids options)) (table : List Tuple) :
    TableStatement.executeAll db dialect.family (order.map fun chunk =>
        deleteStatement dialect (deleteChunk entity identity whereOptions.where_ chunk)) table =
      some (table.filter fun row => !(idChunks ids options).any
        (inChunk db dialect entity identity whereOptions.where_ [] · row)) := by
  have hguard : ∀ chunk row, ((deleteStatement dialect (deleteChunk entity identity
      whereOptions.where_ chunk)).action db).guard row = inChunk db dialect entity identity
        whereOptions.where_ [] chunk row := by
    intro chunk row
    rw [deleteChunk_eq]
    dsimp only [TableStatement.action, deleteStatement, DeleteNode.terms]
    rw [clauseTerms, holds_whereTerms, satisfies_chunk, predicateLiterals, List.map_nil,
      List.nil_append, List.nil_append, List.flatMap_singleton]
    rfl
  have hsame : RowAction.Same (fun _ => none) ((idChunks ids options).map fun chunk =>
      (deleteStatement dialect (deleteChunk entity identity whereOptions.where_ chunk)).action
        db) := by
    refine ⟨fun a ha => ?_, fun _ _ hact => by cases hact⟩
    obtain ⟨chunk, -, rfl⟩ := List.mem_map.mp ha
    rfl
  rw [TableStatement.executeAll_eq]
  · simp only [List.map_map, Function.comp_def]
    rw [RowAction.runAll_same (hperm.map _) hsame, ← List.filterMap_eq_filter]
    refine congrArg some (List.filterMap_congr fun row _ => ?_)
    simp only [List.any_map, Function.comp_def, hguard, Option.guard]
    split <;> rename_i h <;> simp [h]
  · intro _ h
    obtain ⟨chunk, hchunk, rfl⟩ := List.mem_map.mp h
    rw [deleteChunk_eq]
    refine (boolean_whereTerms _ _).mpr (.inr fun p hp => ?_)
    rw [List.mem_singleton.mp hp]
    exact hchunks chunk (hperm.mem_iff.mp hchunk)

/-- No chunk of a call that returns is empty. -/
theorem idChunks_ne_nil (set : List DmlAssignment) {outs : List (CompiledQuery Value)}
    (h : bulkUpdateWhere entity dialect options whereOptions ids set = .ok outs ∨
      bulkDelete entity dialect options whereOptions ids = .ok outs) :
    ∀ chunk ∈ idChunks ids options, chunk ≠ [] := by
  by_cases hempty : ids.values.isEmpty
  · rw [idChunks_nil (List.isEmpty_iff.mp hempty)]
    nofun
  · have hvalid : validateBaseOptions options = .ok () := by
      obtain h | h := h
      · rw [bulkUpdateWhere, if_neg hempty] at h
        obtain ⟨_, -, h⟩ := except_bind_ok h
        obtain ⟨_, -, h⟩ := except_bind_ok h
        dsimp only at h
        split at h
        · cases h
        · obtain ⟨_, hvalid, -⟩ := except_bind_ok h
          exact hvalid
      · rw [bulkDelete, if_neg hempty] at h
        obtain ⟨_, -, h⟩ := except_bind_ok h
        obtain ⟨_, hvalid, -⟩ := except_bind_ok h
        exact hvalid
    exact fun chunk => ne_nil_of_mem_idChunks (one_le_of_validate hvalid)

end

/-- A database that compares values as they are. -/
def plainDatabase : DmlDatabase where
  compare op a b := some (op = .eq && a.value = b.value)
  like _ _ := none
  lower cell := cell.value
  fragment _ _ := none
  stored _ _ v := v

/-- Two rows that rename people. -/
def renamings : BulkRows where
  rows := [[⟨"id", .value (.int64 1)⟩, ⟨"name", .value (text "Ada")⟩],
    [⟨"id", .value (.int64 2)⟩, ⟨"name", .value (text "Grace")⟩]]
  size_lt := by decide

end MetalOrm.Native.Bulk
