import MetalOrm.Spec.ChunkPartition
import MetalOrm.Spec.InsertOutcome

/-!
# Bulk INSERT and upsert against the chunk size

The destination columns of an INSERT are those of the first row of its chunk that assigns
something, so a column that only a later row of the chunk assigns is left out, and one that a
later row leaves out makes the statement throw. The chunk size decides which rows stand in one
chunk.

## Key results

- `flatten_chunksOf`: the chunks are consecutive parts of the rows
- `runStatements_ok`, `runStatements_error`: what a bulk operation emits, and when it throws
- `bulk_chunking`: when two chunk sizes emit the same, and everything that the rows assign
-/

namespace MetalOrm.Native.Bulk

open Query

/-! ## What is emitted -/

/-- What an INSERT sends for a row. -/
structure Emission where
  row : DmlRow
  assignments : List (String × DmlOperand)
  conflict : Option DmlConflictClause
deriving DecidableEq

/-- The values of the destination columns. -/
def cells (row : DmlRow) (columns : List String) : List (String × DmlOperand) :=
  columns.filterMap fun column => (row.find column).map fun a => (column, a.value)

/-- What a statement sends, row by row. -/
def BulkStatement.emitted (statement : BulkStatement) : List Emission :=
  statement.node.rows.map fun row =>
    ⟨row, cells row statement.node.columns, statement.node.conflict⟩

/-- What all statements send. -/
def emitted (statements : List BulkStatement) : List Emission :=
  statements.flatMap BulkStatement.emitted

/-- Either both calls throw, or both send the same, and `complete` holds of it. -/
def ChunkFree (complete : List Emission → Prop) :
    Except Exn (List BulkStatement) → Except Exn (List BulkStatement) → Prop
  | .ok first, .ok second => emitted first = emitted second ∧ complete (emitted first)
  | .error _, .error _ => True
  | _, _ => False

/-- Every assignment of a row to a mapped column is sent for that row. -/
def InsertsAll (entity : BulkEntity) (rows : List DmlRow) (emissions : List Emission) : Prop :=
  ∀ (k : Nat) row, (assigned rows)[k]? = some row → ∀ a ∈ row, entity.knownColumn a.column →
    ∃ e, emissions[k]? = some e ∧ e.row = row ∧ (a.column, a.value) ∈ e.assignments

/-- Every other column that a row assigns is in the DO UPDATE of that row. -/
def UpdatesAll (conflictColumns : List String) (rows : List DmlRow)
    (emissions : List Emission) : Prop :=
  ∀ (k : Nat) row, (assigned rows)[k]? = some row → ∀ a ∈ row, a.column ∉ conflictColumns →
    ∃ e clause, emissions[k]? = some e ∧ e.row = row ∧ e.conflict = some clause ∧
      a.column ∈ clause.assignments.map (·.column)

/-! ## Chunks -/

/-- The rows in parts of `size`. -/
def chunksOf (size : Nat) (rows : List DmlRow) : List (List DmlRow) :=
  (List.range ((rows.length + size - 1) / size)).map fun i => (rows.drop (i * size)).take size

theorem flatten_range_chunks (size : Nat) (rows : List DmlRow) (n : Nat) :
    ((List.range n).map fun i => (rows.drop (i * size)).take size).flatten =
      rows.take (n * size) := by
  induction n with
  | zero => simp
  | succ n ih => rw [List.range_succ, List.map_append, List.flatten_append, ih, Nat.succ_mul,
      List.take_add]; simp

theorem flatten_chunksOf {size : Nat} (hsize : 0 < size) (rows : List DmlRow) :
    (chunksOf size rows).flatten = rows := by
  unfold chunksOf
  rw [flatten_range_chunks, List.take_of_length_le]
  have hlt := Nat.lt_mul_div_succ (rows.length + size - 1) hsize
  rw [Nat.mul_add, Nat.mul_one, Nat.mul_comm] at hlt
  omega

theorem BulkRows.toNat_size (rows : BulkRows) : rows.size.toNat = rows.rows.length :=
  UInt64.toNat_ofNat_of_lt' rows.size_lt

variable {rows : BulkRows} {options : BulkBaseOptions}

/-- Where the count of chunks does not wrap around, the chunks are those of the quotient. -/
theorem totalChunks_eq (hchunk : 1 ≤ options.chunkSize) (hwrap : NoWrap rows.size options) :
    (totalChunks rows.size options).toNat =
      (rows.rows.length + options.chunkSize.toNat - 1) / options.chunkSize.toNat := by
  obtain ⟨hcover, hlt⟩ := totalChunks_bounds hchunk hwrap
  have hpos := one_le_toNat hchunk
  rw [rows.toNat_size] at hcover hlt
  generalize (totalChunks rows.size options).toNat = total at *
  apply Nat.le_antisymm
  · rw [Nat.le_div_iff_mul_le hpos]
    cases total with
    | zero => omega
    | succ n =>
      have hn := hlt n (Nat.lt_succ_self n)
      rw [Nat.succ_mul]
      omega
  · rw [← Nat.lt_succ_iff, Nat.div_lt_iff_lt_mul hpos, Nat.succ_mul]
    omega

theorem bulkChunks_eq (hchunk : 1 ≤ options.chunkSize) (hwrap : NoWrap rows.size options) :
    bulkChunks rows options = chunksOf options.chunkSize.toNat rows.rows := by
  have htotal := totalChunks_eq hchunk hwrap
  unfold bulkChunks chunkIndices chunksOf
  rw [← htotal, List.map_map]
  apply List.map_congr_left
  intro i hi
  have hi := List.mem_range.mp hi
  have hlt := (totalChunks_bounds hchunk hwrap).2 i hi
  have hindex : (UInt64.ofNat i).toNat = i := toNat_ofNat_lt hi
  have hfirst := chunkBegin_toNat hchunk hwrap (by rwa [hindex])
  have hlast := chunkEnd_toNat hchunk hwrap (by rwa [hindex])
  rw [hindex] at hfirst hlast
  show rows.slice _ _ = _
  unfold BulkRows.slice
  rw [hfirst, hlast]
  unfold bound
  rw [rows.toNat_size] at *
  have hbegin : min rows.rows.length (i * options.chunkSize.toNat) =
      i * options.chunkSize.toNat := by omega
  rw [Nat.succ_mul, hbegin]
  -- The last chunk ends with the rows, so there it does not matter that its end is cut off.
  obtain hle | hgt := Nat.le_total (i * options.chunkSize.toNat + options.chunkSize.toNat)
    rows.rows.length
  · rw [Nat.min_eq_right hle, Nat.add_sub_cancel_left]
  · rw [Nat.min_eq_left hgt, List.take_of_length_le, List.take_of_length_le]
    all_goals
      simp only [List.length_drop]
      omega

theorem bulkChunks_wrapped (hwrap : ¬ NoWrap rows.size options) : bulkChunks rows options = [] := by
  simp [bulkChunks, chunkIndices, totalChunks_wrapped hwrap]

/-! ## Where the rows are placed -/

instance : Decidable (NoWrap rows.size options) := inferInstanceAs (Decidable (_ ∨ _))

/-- The rows that assign something, each with the destination columns of its chunk. There are no
    chunks where their count wraps around. -/
def placements (rows : BulkRows) (options : BulkBaseOptions) : List (DmlRow × List String) :=
  if NoWrap rows.size options then
    (chunksOf options.chunkSize.toNat rows.rows).flatMap fun chunk =>
      (assigned chunk).map fun row => (row, destination chunk)
  else []

/-- Every row has a plain value for every destination column of its chunk. -/
def Fits (rows : BulkRows) (options : BulkBaseOptions) : Prop :=
  ∀ p ∈ placements rows options, ∀ column ∈ p.2, p.1.Gives column

/-- The statements that `placements` stands for. -/
def emissions (conflict : Option DmlConflictClause) (placed : List (DmlRow × List String)) :
    List Emission :=
  placed.map fun p => ⟨p.1, cells p.1 p.2, conflict⟩

theorem placements_eq (hchunk : 1 ≤ options.chunkSize) : placements rows options =
    (bulkChunks rows options).flatMap fun chunk =>
      (assigned chunk).map fun row => (row, destination chunk) := by
  unfold placements
  split
  · rename_i hwrap
    rw [bulkChunks_eq hchunk hwrap]
  · rename_i hwrap
    rw [bulkChunks_wrapped hwrap]
    rfl

/-- Every row that assigns something is placed once, in the order of the rows. -/
theorem placements_rows (hchunk : 1 ≤ options.chunkSize) (hwrap : NoWrap rows.size options) :
    (placements rows options).map Prod.fst = assigned rows.rows := by
  have hflatten := flatten_chunksOf (one_le_toNat hchunk) rows.rows
  unfold placements
  rw [if_pos hwrap, List.map_flatMap]
  conv_rhs => rw [← hflatten, assigned, List.filter_flatten]
  simp [List.flatMap_def, assigned, Function.comp_def]

/-! ## The body of a chunk -/

/-- What putting the conflict clause on a builder does: it puts `conflict`, which compiles, or
    the chunk is refused. -/
structure Applies (dialect : Dialect) (apply : InsertNode → Except Exn InsertNode)
    (conflict : Option DmlConflictClause) (usable : Prop) : Prop where
  put : usable → ∀ node, node.conflict = none → apply node = .ok { node with conflict }
  compiles : usable → Succeeds (compileConflict dialect conflict)
  refused : ¬ usable → ∀ node, (∃ e, apply node = .error e) ∨
    ∃ clause, apply node = .ok { node with conflict := clause } ∧
      Fails (compileConflict dialect clause)

section

variable {entity : BulkEntity} {dialect : Dialect} {apply : InsertNode → Except Exn InsertNode}
  {conflict : Option DmlConflictClause} {usable : Prop} {returning : List String}
  {chunk : List DmlRow}

/-- The node of a chunk, with its conflict clause. -/
def chunkNode (entity : BulkEntity) (conflict : Option DmlConflictClause)
    (returning : List String) (chunk : List DmlRow) : InsertNode where
  table := entity.table
  columns := destination chunk
  rows := assigned chunk
  conflict := conflict
  returning := if returning.isEmpty then [] else returning.map fun column => { column }

theorem mem_assigned {row : DmlRow} {rows : List DmlRow} :
    row ∈ assigned rows ↔ row ∈ rows ∧ row ≠ [] := by
  simp [assigned]

theorem destination_eq_nil : destination chunk = [] ↔ assigned chunk = [] := by
  unfold destination
  cases h : assigned chunk with
  | nil => simp
  | cons row rows =>
    have hrow : row ∈ assigned chunk := by simp [h]
    simp [(mem_assigned.mp hrow).2]

theorem chunkStatement_eq {node : InsertNode} (hput : apply
      { table := entity.table, columns := destination chunk, rows := assigned chunk } = .ok node) :
    chunkStatement entity dialect apply returning chunk =
      let node := if returning.isEmpty then node else node.withReturning returning
      (node.compile dialect).map fun compiled => ⟨node, compiled⟩ := by
  have hvalues := valuesAll_eq entity.table [] [] chunk
  rw [List.isEmpty_nil, if_pos rfl, List.nil_append] at hvalues
  unfold chunkStatement
  rw [hvalues]
  simp only [bind, Except.bind, hput]
  cases InsertNode.compile _ dialect <;> rfl

/-- The rows of a chunk compile exactly when each gives a value to each destination column. -/
theorem compileSource_succeeds (hdialect : dialect.Numbers)
    (hfits : ∀ row ∈ assigned chunk, ∀ column ∈ destination chunk, row.Gives column) :
    Succeeds (compileSource dialect (chunkNode entity conflict returning chunk)) := by
  unfold compileSource chunkNode
  by_cases hnone : assigned chunk = []
  · simp only [destination_eq_nil.mpr hnone, hnone, List.isEmpty_nil, if_true, Bool.and_true,
      Option.isNone_none]
    exact .pure _
  · simp only [List.isEmpty_iff, mt destination_eq_nil.mp hnone, hnone, if_false]
    exact (compileRows_succeeds hdialect hfits).bind fun _ => .pure _

/-- A row without a value for a destination column makes the rows of its chunk throw. -/
theorem compileSource_fails {row : DmlRow} {column : String} (hrow : row ∈ assigned chunk)
    (hcolumn : column ∈ destination chunk) (h : ¬ row.Gives column) :
    Fails (compileSource dialect (chunkNode entity conflict returning chunk)) := by
  have hsome : assigned chunk ≠ [] := List.ne_nil_of_mem hrow
  unfold compileSource chunkNode
  simp only [List.isEmpty_iff, mt destination_eq_nil.mp hsome, hsome, if_false]
  exact (compileRows_fails hrow hcolumn h).bind_left

theorem chunkStatement_put {clause : Option DmlConflictClause} (hput : apply
      { table := entity.table, columns := destination chunk, rows := assigned chunk } = .ok
      { table := entity.table, columns := destination chunk, rows := assigned chunk,
        conflict := clause }) :
    chunkStatement entity dialect apply returning chunk =
      ((chunkNode entity clause returning chunk).compile dialect).map fun compiled =>
        ⟨chunkNode entity clause returning chunk, compiled⟩ := by
  rw [chunkStatement_eq hput]
  unfold chunkNode
  cases returning <;> rfl

/-- A chunk whose rows fit is sent, row by row. -/
theorem chunkStatement_ok (hdialect : dialect.Numbers)
    (happlies : Applies dialect apply conflict usable) (husable : usable)
    (hfits : ∀ row ∈ assigned chunk, ∀ column ∈ destination chunk, row.Gives column) :
    ∃ statement, chunkStatement entity dialect apply returning chunk = .ok statement ∧
      statement.emitted =
        emissions conflict ((assigned chunk).map fun row => (row, destination chunk)) := by
  have hsource : Succeeds (compileSource dialect (chunkNode entity conflict returning chunk)) :=
    compileSource_succeeds hdialect hfits
  obtain ⟨compiled, hcompiled⟩ := InsertNode.compile_ok hsource (happlies.compiles husable)
  rw [chunkStatement_put (happlies.put husable _ rfl), hcompiled]
  refine ⟨_, rfl, ?_⟩
  simp [BulkStatement.emitted, emissions, chunkNode, Function.comp_def]

/-- A chunk is refused for its conflict clause, or for a row that does not fit. -/
theorem chunkStatement_error (happlies : Applies dialect apply conflict usable)
    (h : ¬ usable ∨ ∃ row ∈ assigned chunk, ∃ column ∈ destination chunk, ¬ row.Gives column) :
    ∃ e, chunkStatement entity dialect apply returning chunk = .error e := by
  have hcompile : ∀ clause, apply
        { table := entity.table, columns := destination chunk, rows := assigned chunk } = .ok
        { table := entity.table, columns := destination chunk, rows := assigned chunk,
          conflict := clause } →
      Fails (compileSource dialect (chunkNode entity clause returning chunk)) ∨
        Fails (compileConflict dialect clause) →
      ∃ e, chunkStatement entity dialect apply returning chunk = .error e := by
    intro clause hput hfails
    obtain ⟨e, he⟩ := InsertNode.compile_error hfails
    exact ⟨e, by rw [chunkStatement_put hput, he]; rfl⟩
  by_cases husable : usable
  · obtain ⟨row, hrow, column, hcolumn, hnone⟩ := h.resolve_left (not_not_intro husable)
    exact hcompile conflict (happlies.put husable _ rfl)
      (.inl (compileSource_fails hrow hcolumn hnone))
  · obtain ⟨e, he⟩ | ⟨clause, hput, hfails⟩ := happlies.refused husable
      { table := entity.table, columns := destination chunk, rows := assigned chunk }
    · have hvalues := valuesAll_eq entity.table [] [] chunk
      rw [List.isEmpty_nil, if_pos rfl, List.nil_append] at hvalues
      exact ⟨e, by simp [chunkStatement, hvalues, bind, Except.bind, he]⟩
    · exact hcompile clause hput (.inr hfails)

end

/-! ## All chunks -/

theorem mapM_error {α β : Type} {f : α → Except Exn β} {xs : List α} {x : α} (hx : x ∈ xs)
    (h : ∃ e, f x = .error e) : ∃ e, xs.mapM f = .error e := by
  induction xs with
  | nil => cases hx
  | cons y ys ih =>
    rw [List.mapM_cons]
    cases hy : f y with
    | error e => exact ⟨e, rfl⟩
    | ok z =>
      have hne : x ≠ y := by
        rintro rfl
        obtain ⟨e, he⟩ := h
        rw [hy] at he
        cases he
      obtain ⟨e, he⟩ := ih ((List.mem_cons.mp hx).resolve_left hne)
      exact ⟨e, by simp [bind, Except.bind, he]⟩

theorem mapM_emitted {f : List DmlRow → Except Exn BulkStatement}
    {g : List DmlRow → List Emission} {chunks : List (List DmlRow)}
    (h : ∀ chunk ∈ chunks, ∃ statement, f chunk = .ok statement ∧ statement.emitted = g chunk) :
    ∃ statements, chunks.mapM f = .ok statements ∧ emitted statements = chunks.flatMap g := by
  induction chunks with
  | nil => exact ⟨[], rfl, rfl⟩
  | cons chunk chunks ih =>
    obtain ⟨statement, hok, hsent⟩ := h chunk List.mem_cons_self
    obtain ⟨statements, hoks, hsents⟩ := ih fun c hc => h c (List.mem_cons_of_mem _ hc)
    refine ⟨statement :: statements, ?_, ?_⟩
    · rw [List.mapM_cons, hok]
      simp [bind, Except.bind, hoks, pure, Except.pure]
    · unfold emitted at *
      rw [List.flatMap_cons, List.flatMap_cons, hsent, hsents]

/-- The chunks throw: the conflict clause is refused, or a row does not fit. -/
def Refused (usable : Prop) (rows : BulkRows) (options : BulkBaseOptions) : Prop :=
  ¬ usable ∧ NoWrap rows.size options ∨ ¬ Fits rows options

section

variable {entity : BulkEntity} {dialect : Dialect} {apply : InsertNode → Except Exn InsertNode}
  {conflict : Option DmlConflictClause} {usable : Prop} {returning : List String}

theorem mem_placements (hchunk : 1 ≤ options.chunkSize) {p : DmlRow × List String} :
    p ∈ placements rows options ↔
      ∃ chunk ∈ bulkChunks rows options, p.1 ∈ assigned chunk ∧ destination chunk = p.2 := by
  rw [placements_eq hchunk]
  simp only [List.mem_flatMap, List.mem_map, Prod.ext_iff]
  constructor
  · rintro ⟨chunk, hmem, row, hrow, rfl, hcolumns⟩
    exact ⟨chunk, hmem, hrow, hcolumns⟩
  · rintro ⟨chunk, hmem, hrow, hcolumns⟩
    exact ⟨chunk, hmem, p.1, hrow, rfl, hcolumns⟩

theorem runStatements_ok (hdialect : dialect.Numbers)
    (happlies : Applies dialect apply conflict usable) (hchunk : 1 ≤ options.chunkSize)
    (hworkers : 1 ≤ options.concurrency) (h : ¬ Refused usable rows options) :
    ∃ statements, runStatements entity dialect apply returning options rows = .ok statements ∧
      emitted statements = emissions conflict (placements rows options) := by
  obtain ⟨husable, hfits⟩ := not_or.mp h
  have hfits := not_not.mp hfits
  unfold runStatements
  rw [validateBaseOptions_ok hchunk hworkers]
  simp only [bind, Except.bind]
  by_cases hwrap : NoWrap rows.size options
  · have husable : usable := by
      by_contra hno
      exact husable ⟨hno, hwrap⟩
    rw [placements_eq hchunk, emissions, List.map_flatMap]
    apply mapM_emitted
    intro chunk hmem
    apply chunkStatement_ok hdialect happlies husable
    intro row hrow column hcolumn
    exact hfits (row, destination chunk) ((mem_placements hchunk).mpr ⟨chunk, hmem, hrow, rfl⟩)
      column hcolumn
  · rw [bulkChunks_wrapped hwrap, placements, if_neg hwrap]
    exact ⟨[], rfl, rfl⟩

theorem runStatements_error (happlies : Applies dialect apply conflict usable)
    (hchunk : 1 ≤ options.chunkSize) (hworkers : 1 ≤ options.concurrency)
    (hrows : rows.rows ≠ []) (h : Refused usable rows options) :
    ∃ e, runStatements entity dialect apply returning options rows = .error e := by
  unfold runStatements
  rw [validateBaseOptions_ok hchunk hworkers]
  simp only [bind, Except.bind]
  obtain ⟨husable, hwrap⟩ | hfits := h
  · have hsome : bulkChunks rows options ≠ [] := by
      intro hnone
      apply hrows
      rw [← flatten_chunksOf (one_le_toNat hchunk) rows.rows, ← bulkChunks_eq hchunk hwrap, hnone]
      rfl
    obtain ⟨chunk, hmem⟩ := List.exists_mem_of_ne_nil _ hsome
    exact mapM_error hmem (chunkStatement_error happlies (.inl husable))
  · unfold Fits at hfits
    push Not at hfits
    obtain ⟨p, hp, column, hcolumn, hnone⟩ := hfits
    obtain ⟨chunk, hmem, hrow, hcolumns⟩ := (mem_placements hchunk).mp hp
    apply mapM_error hmem (chunkStatement_error happlies (.inr ?_))
    exact ⟨p.1, hrow, column, by rwa [hcolumns], hnone⟩

end

/-! ## Two chunk sizes -/

/-- Every destination column has its cell. -/
theorem cells_columns {row : DmlRow} {columns : List String}
    (h : ∀ column ∈ columns, row.Gives column) : (cells row columns).map Prod.fst = columns := by
  induction columns with
  | nil => rfl
  | cons column columns ih =>
    obtain ⟨v, hv⟩ := h column List.mem_cons_self
    obtain ⟨a, hfind, hvalue⟩ := Option.map_eq_some_iff.mp hv
    have hrest := ih fun c hc => h c (List.mem_cons_of_mem _ hc)
    unfold cells at *
    simp [hfind, hrest]

theorem mem_cells {row : DmlRow} {columns : List String} {a : DmlAssignment} :
    (a.column, a.value) ∈ cells row columns ↔
      a.column ∈ columns ∧ (row.find a.column).map (·.value) = some a.value := by
  unfold cells
  simp only [List.mem_filterMap, Option.map_eq_some_iff, Prod.mk.injEq]
  constructor
  · rintro ⟨column, hmem, b, hfind, rfl, hvalue⟩
    exact ⟨hmem, b, hfind, hvalue⟩
  · rintro ⟨hmem, b, hfind, hvalue⟩
    exact ⟨a.column, hmem, b, hfind, rfl, hvalue⟩

/-- The same is sent where the rows are placed the same. -/
theorem emissions_inj {options' : BulkBaseOptions} {conflict : Option DmlConflictClause}
    (hfits : Fits rows options) (hfits' : Fits rows options') :
    emissions conflict (placements rows options) = emissions conflict (placements rows options') ↔
      placements rows options = placements rows options' := by
  have hback : ∀ {o : BulkBaseOptions}, Fits rows o →
      (emissions conflict (placements rows o)).map
        (fun e => (e.row, e.assignments.map Prod.fst)) = placements rows o := by
    intro o ho
    unfold emissions
    rw [List.map_map]
    conv_rhs => rw [← List.map_id (placements rows o)]
    apply List.map_congr_left
    intro p hp
    show (p.1, (cells p.1 p.2).map Prod.fst) = p
    rw [cells_columns (ho p hp)]
  constructor
  · intro h
    rw [← hback hfits, ← hback hfits', h]
  · intro h
    rw [h]

section

variable {entity : BulkEntity} {dialect : Dialect} {apply : InsertNode → Except Exn InsertNode}
  {conflict : Option DmlConflictClause} {usable : Prop} {returning : List String}
  {options' : BulkBaseOptions}

/-- When two chunk sizes give the same, and all of it. -/
def Agrees (usable complete : Prop) (rows : BulkRows) (options options' : BulkBaseOptions) :
    Prop :=
  Refused usable rows options ∧ Refused usable rows options' ∨
    ¬ Refused usable rows options ∧ ¬ Refused usable rows options' ∧
      placements rows options = placements rows options' ∧ complete

theorem chunkFree_iff {complete : List Emission → Prop} (hdialect : dialect.Numbers)
    (happlies : Applies dialect apply conflict usable) (hrows : rows.rows ≠ [])
    (hchunk : 1 ≤ options.chunkSize) (hworkers : 1 ≤ options.concurrency)
    (hchunk' : 1 ≤ options'.chunkSize) (hworkers' : 1 ≤ options'.concurrency) :
    ChunkFree complete (runStatements entity dialect apply returning options rows)
        (runStatements entity dialect apply returning options' rows) ↔
      Agrees usable (complete (emissions conflict (placements rows options))) rows options
        options' := by
  have hok : ∀ {o : BulkBaseOptions}, 1 ≤ o.chunkSize → 1 ≤ o.concurrency →
      ¬ Refused usable rows o → ∃ statements, runStatements entity dialect apply returning o rows =
        .ok statements ∧ emitted statements = emissions conflict (placements rows o) :=
    fun h₁ h₂ h => runStatements_ok hdialect happlies h₁ h₂ h
  have herror : ∀ {o : BulkBaseOptions}, 1 ≤ o.chunkSize → 1 ≤ o.concurrency →
      Refused usable rows o → ∃ e, runStatements entity dialect apply returning o rows =
        .error e := fun h₁ h₂ h => runStatements_error happlies h₁ h₂ hrows h
  unfold Agrees
  by_cases h : Refused usable rows options
  · obtain ⟨e, he⟩ := herror hchunk hworkers h
    by_cases h' : Refused usable rows options'
    · obtain ⟨e', he'⟩ := herror hchunk' hworkers' h'
      simp [he, he', h, h', ChunkFree]
    · obtain ⟨statements, hs, -⟩ := hok hchunk' hworkers' h'
      simp [he, hs, h, h', ChunkFree]
  · obtain ⟨statements, hs, hsent⟩ := hok hchunk hworkers h
    by_cases h' : Refused usable rows options'
    · obtain ⟨e', he'⟩ := herror hchunk' hworkers' h'
      simp [hs, he', h, h', ChunkFree]
    · obtain ⟨statements', hs', hsent'⟩ := hok hchunk' hworkers' h'
      have hinj : emissions conflict (placements rows options) =
            emissions conflict (placements rows options') ↔ _ :=
        emissions_inj (not_not.mp (not_or.mp h).2) (not_not.mp (not_or.mp h').2)
      simp [hs, hs', h, h', ChunkFree, hsent, hsent', hinj]

end

/-! ## Completeness -/

/-- Every mapped column that a row assigns is a destination column, and the row does not assign
    it another value before. -/
def NamesAll (entity : BulkEntity) (rows : BulkRows) (options : BulkBaseOptions) : Prop :=
  (NoWrap rows.size options ∨ ∀ row ∈ rows.rows, ∀ a ∈ row, ¬ entity.knownColumn a.column) ∧
    ∀ p ∈ placements rows options, ∀ a ∈ p.1, entity.knownColumn a.column →
      a.column ∈ p.2 ∧ (p.1.find a.column).map (·.value) = some a.value

/-- The place of a row: the columns of its chunk. -/
theorem placed_at (hchunk : 1 ≤ options.chunkSize) (hwrap : NoWrap rows.size options) {k : Nat}
    {row : DmlRow} (hrow : (assigned rows.rows)[k]? = some row) :
    ∃ columns, (placements rows options)[k]? = some (row, columns) := by
  rw [← placements_rows hchunk hwrap, List.getElem?_map, Option.map_eq_some_iff] at hrow
  obtain ⟨p, hp, rfl⟩ := hrow
  exact ⟨p.2, hp⟩

theorem emissions_at {conflict : Option DmlConflictClause} {placed : List (DmlRow × List String)}
    {k : Nat} {e : Emission} : (emissions conflict placed)[k]? = some e ↔
      ∃ p, placed[k]? = some p ∧ ⟨p.1, cells p.1 p.2, conflict⟩ = e := by
  unfold emissions
  rw [List.getElem?_map, Option.map_eq_some_iff]

theorem placements_wrapped (hwrap : ¬ NoWrap rows.size options) : placements rows options = [] :=
  if_neg hwrap

/-- Where nothing is sent, no row may assign a column that has to be sent. -/
theorem none_assigned {P : DmlAssignment → Prop} {Q : Nat → DmlRow → DmlAssignment → Prop}
    (hnone : ∀ k row a, ¬ Q k row a)
    (h : ∀ (k : Nat) row, (assigned rows.rows)[k]? = some row → ∀ a ∈ row, P a → Q k row a) :
    ∀ row ∈ rows.rows, ∀ a ∈ row, ¬ P a := by
  intro row hrow a ha hP
  have hmem : row ∈ assigned rows.rows := mem_assigned.mpr ⟨hrow, List.ne_nil_of_mem ha⟩
  obtain ⟨k, hk⟩ := List.getElem?_of_mem hmem
  exact hnone k row a (h k row hk a ha hP)

theorem insertsAll_iff {entity : BulkEntity} {conflict : Option DmlConflictClause}
    (hchunk : 1 ≤ options.chunkSize) :
    InsertsAll entity rows.rows (emissions conflict (placements rows options)) ↔
      NamesAll entity rows options := by
  by_cases hwrap : NoWrap rows.size options
  · constructor
    · intro h
      refine ⟨.inl hwrap, fun p hp a ha hknown => ?_⟩
      obtain ⟨k, hk⟩ := List.getElem?_of_mem hp
      have hrow : (assigned rows.rows)[k]? = some p.1 := by
        rw [← placements_rows hchunk hwrap, List.getElem?_map, hk]
        rfl
      obtain ⟨e, he, -, hsent⟩ := h k p.1 hrow a ha hknown
      obtain ⟨q, hq, rfl⟩ := emissions_at.mp he
      rw [hk] at hq
      cases hq
      exact mem_cells.mp hsent
    · rintro ⟨-, h⟩ k row hrow a ha hknown
      obtain ⟨columns, hplaced⟩ := placed_at hchunk hwrap hrow
      have hcell := h (row, columns) (List.mem_of_getElem? hplaced) a ha hknown
      exact ⟨_, emissions_at.mpr ⟨_, hplaced, rfl⟩, rfl, mem_cells.mpr hcell⟩
  · rw [placements_wrapped hwrap]
    constructor
    · intro h
      refine ⟨.inr (none_assigned ?_ h), by simp [placements_wrapped hwrap]⟩
      simp [emissions]
    · rintro ⟨hnone, -⟩ k row hrow a ha hknown
      have hmem := (mem_assigned.mp (List.mem_of_getElem? hrow)).1
      exact absurd hknown (hnone.resolve_left hwrap row hmem a ha)

/-- The conflict clause assigns every other column that a row assigns. -/
def CoversAll (conflictColumns updated : List String) (rows : BulkRows)
    (options : BulkBaseOptions) : Prop :=
  (NoWrap rows.size options ∨ ∀ row ∈ rows.rows, ∀ a ∈ row, a.column ∈ conflictColumns) ∧
    ∀ row ∈ rows.rows, ∀ a ∈ row, a.column ∉ conflictColumns → a.column ∈ updated

theorem updatesAll_iff {conflictColumns : List String} {clause : DmlConflictClause}
    (hchunk : 1 ≤ options.chunkSize) :
    UpdatesAll conflictColumns rows.rows (emissions (some clause) (placements rows options)) ↔
      CoversAll conflictColumns (clause.assignments.map (·.column)) rows options := by
  by_cases hwrap : NoWrap rows.size options
  · constructor
    · intro h
      refine ⟨.inl hwrap, fun row hrow a ha hother => ?_⟩
      have hmem : row ∈ assigned rows.rows := mem_assigned.mpr ⟨hrow, List.ne_nil_of_mem ha⟩
      obtain ⟨k, hk⟩ := List.getElem?_of_mem hmem
      obtain ⟨e, clause', he, -, hclause, hmem⟩ := h k row hk a ha hother
      obtain ⟨q, hq, rfl⟩ := emissions_at.mp he
      cases hclause
      exact hmem
    · rintro ⟨-, h⟩ k row hrow a ha hother
      obtain ⟨columns, hplaced⟩ := placed_at hchunk hwrap hrow
      have hmem := (mem_assigned.mp (List.mem_of_getElem? hrow)).1
      exact ⟨_, clause, emissions_at.mpr ⟨_, hplaced, rfl⟩, rfl, rfl, h row hmem a ha hother⟩
  · rw [placements_wrapped hwrap]
    constructor
    · intro h
      have hnone := none_assigned (P := fun a => a.column ∉ conflictColumns) (by simp [emissions]) h
      have hall : ∀ row ∈ rows.rows, ∀ a ∈ row, a.column ∈ conflictColumns :=
        fun row hrow a ha => not_not.mp (hnone row hrow a ha)
      exact ⟨.inr hall, fun row hrow a ha hother => absurd (hall row hrow a ha) hother⟩
    · rintro ⟨hnone, -⟩ k row hrow a ha hother
      have hmem := (mem_assigned.mp (List.mem_of_getElem? hrow)).1
      exact absurd (hnone.resolve_left hwrap row hmem a ha) hother

/-! ## Conflict clauses -/

/-- The clause that `apply_conflict` puts on a builder. -/
def appliedClause (clause : DmlConflictClause) : DmlConflictClause :=
  if clause.doNothing then { columns := clause.columns, doNothing := true }
  else {
    columns := clause.columns
    assignments := clause.assignments
    predicates := clause.predicates }

theorem applies_none (dialect : Dialect) : Applies dialect (fun node => return node) none True where
  put := by
    intro _ node hnode
    cases node
    cases hnode
    rfl
  compiles _ := .pure _
  refused h := absurd trivial h

theorem applies_clause {dialect : Dialect} (hdialect : dialect.Numbers)
    (clause : DmlConflictClause) :
    Applies dialect (applyConflict clause) (some (appliedClause clause)) clause.Usable where
  put := by
    rintro ⟨-, haction⟩ node -
    unfold applyConflict appliedClause
    cases hnothing : clause.doNothing with
    | true => rfl
    | false =>
      have hassignments : clause.assignments ≠ [] := by simpa [hnothing] using haction
      simp only [InsertNode.onConflictDoUpdate, List.isEmpty_iff, hassignments, if_false,
        Bool.false_eq_true]
      rfl
  compiles := by
    rintro ⟨hcolumns, haction⟩
    unfold appliedClause
    cases hnothing : clause.doNothing with
    | true => exact compileConflict_succeeds hdialect rfl ⟨hcolumns, .inl rfl⟩
    | false =>
      have hassignments : clause.assignments ≠ [] := by simpa [hnothing] using haction
      exact compileConflict_succeeds hdialect rfl ⟨hcolumns, .inr hassignments⟩
  refused := by
    intro husable node
    unfold applyConflict
    cases hnothing : clause.doNothing with
    | true =>
      have hcolumns : clause.columns = [] := by
        by_contra hne
        exact husable ⟨hne, .inl hnothing⟩
      exact .inr ⟨_, rfl, compileConflict_fails rfl hcolumns⟩
    | false =>
      by_cases hassignments : clause.assignments = []
      · left
        simp only [InsertNode.onConflictDoUpdate, hassignments, List.isEmpty_nil, if_true,
          Bool.false_eq_true, if_false]
        exact ⟨_, rfl⟩
      · have hcolumns : clause.columns = [] := by
          by_contra hne
          exact husable ⟨hne, .inr hassignments⟩
        have hfails : Fails (compileConflict dialect (some {
            columns := clause.columns
            assignments := clause.assignments
            predicates := clause.predicates })) := compileConflict_fails rfl hcolumns
        refine .inr ⟨_, ?_, hfails⟩
        simp only [InsertNode.onConflictDoUpdate, List.isEmpty_iff, hassignments, if_false,
          Bool.false_eq_true]
        rfl

/-- The clause that `bulk_upsert` puts on a builder. -/
def upsertClause (conflictColumns updateColumns : List String) : DmlConflictClause :=
  if updateColumns.isEmpty then { columns := conflictColumns, doNothing := true }
  else {
    columns := conflictColumns
    assignments := updateColumns.map fun name => ⟨name, .excluded name⟩ }

theorem upsertClause_assignments (conflictColumns updateColumns : List String) :
    (upsertClause conflictColumns updateColumns).assignments.map (·.column) = updateColumns := by
  unfold upsertClause
  cases updateColumns <;> simp [Function.comp_def]

theorem applies_upsert {dialect : Dialect} (hdialect : dialect.Numbers)
    {conflictColumns : List String} (hcolumns : conflictColumns ≠ []) (updateColumns : List String) :
    Applies dialect (upsertConflict conflictColumns updateColumns)
      (some (upsertClause conflictColumns updateColumns)) True where
  put := by
    intro _ node _
    unfold upsertConflict upsertClause
    cases updateColumns <;> rfl
  compiles := by
    intro _
    unfold upsertClause
    cases updateColumns with
    | nil => exact compileConflict_succeeds hdialect rfl ⟨hcolumns, .inl rfl⟩
    | cons name names =>
      exact compileConflict_succeeds hdialect rfl ⟨hcolumns, .inr (List.cons_ne_nil _ _)⟩
  refused h := absurd trivial h

/-! ## The chunk size -/

/-- The options with another chunk size. -/
def sized (options : BulkBaseOptions) (chunkSize : UInt64) : BulkBaseOptions :=
  { options with chunkSize }

/-- When `bulk_insert` gives the same for two chunk sizes, unless it throws before its chunks. -/
def InsertAgrees (entity : BulkEntity) (onConflict : Option DmlConflictClause)
    (returning : BulkColumns) (rows : BulkRows) (options options' : BulkBaseOptions) : Prop :=
  ∀ returned, rows.rows ≠ [] → resolveReturningColumns entity returning = .ok returned →
    1 ≤ options.concurrency →
    Agrees (∀ clause ∈ onConflict, clause.Usable) (NamesAll entity rows options) rows options
      options'

/-- When `bulk_upsert` gives the same for two chunk sizes, unless it throws before its chunks. -/
def UpsertAgrees (entity : BulkEntity) (conflictColumns updateColumns returning : BulkColumns)
    (rows : BulkRows) (options options' : BulkBaseOptions) : Prop :=
  ∀ front rest conflict updated returned, rows.rows = front :: rest →
    resolveConflictColumns entity conflictColumns = .ok conflict →
    resolveUpdateColumns entity conflict updateColumns front = .ok updated →
    resolveReturningColumns entity returning = .ok returned → 1 ≤ options.concurrency →
    Agrees True (NamesAll entity rows options ∧
      (updateColumns = .default → CoversAll conflict updated rows options)) rows options options'

/-- What an upsert has to send: with the default update columns, also its DO UPDATE. -/
def UpsertsAll (entity : BulkEntity) (conflictColumns updateColumns : BulkColumns)
    (rows : List DmlRow) (emissions : List Emission) : Prop :=
  InsertsAll entity rows emissions ∧ (updateColumns = .default → ∀ conflict,
    resolveConflictColumns entity conflictColumns = .ok conflict →
      UpdatesAll conflict rows emissions)

theorem chunkFree_error {complete : List Emission → Prop} {first second : Except Exn
    (List BulkStatement)} (h : ∃ e, first = .error e) (h' : ∃ e, second = .error e) :
    ChunkFree complete first second := by
  obtain ⟨e, rfl⟩ := h
  obtain ⟨e', rfl⟩ := h'
  trivial

theorem runStatements_idle {entity : BulkEntity} {dialect : Dialect}
    {apply : InsertNode → Except Exn InsertNode} {returning : List String}
    (hworkers : ¬ 1 ≤ options.concurrency) :
    ∃ e, runStatements entity dialect apply returning options rows = .error e := by
  have hlt : options.concurrency < 1 := UInt64.not_le.mp hworkers
  have hinvalid : ∃ e, validateBaseOptions options = .error e := by
    unfold validateBaseOptions
    by_cases hsize : options.chunkSize < 1 <;>
      simp [hlt, hsize, bind, Except.bind, throw, throwThe, MonadExceptOf.throw]
  obtain ⟨e, he⟩ := hinvalid
  exact ⟨e, by rw [runStatements, he]; rfl⟩

theorem resolveConflictColumns_ne {entity : BulkEntity} {selection : BulkColumns}
    {conflict : List String} (h : resolveConflictColumns entity selection = .ok conflict) :
    conflict ≠ [] := by
  unfold resolveConflictColumns at h
  extract_lets names at h
  split at h
  · cases h
  · rename_i hne
    split at h
    · have hnames : names = conflict := by simpa [pure, Except.pure] using h
      rw [← hnames]
      simpa using hne
    · cases h

section

variable {entity : BulkEntity} {dialect : Dialect} {c₁ c₂ : UInt64}

/-- What two chunk sizes have in common, behind the checks of `run_chunks`. -/
theorem runs_chunkFree {apply : InsertNode → Except Exn InsertNode}
    {conflict : Option DmlConflictClause} {usable complete : Prop} {returning : List String}
    {whole : List Emission → Prop} (hdialect : dialect.Numbers)
    (happlies : Applies dialect apply conflict usable) (hrows : rows.rows ≠ []) (h₁ : 1 ≤ c₁)
    (h₂ : 1 ≤ c₂)
    (hcomplete : whole (emissions conflict (placements rows (sized options c₁))) ↔ complete) :
    ChunkFree whole (runStatements entity dialect apply returning (sized options c₁) rows)
        (runStatements entity dialect apply returning (sized options c₂) rows) ↔
      (1 ≤ options.concurrency →
        Agrees usable complete rows (sized options c₁) (sized options c₂)) := by
  by_cases hworkers : 1 ≤ options.concurrency
  · have hone : 1 ≤ (sized options c₁).concurrency := hworkers
    have htwo : 1 ≤ (sized options c₂).concurrency := hworkers
    rw [chunkFree_iff hdialect happlies hrows h₁ hone h₂ htwo, hcomplete]
    simp only [hworkers, true_imp_iff]
  · have hone : ¬ 1 ≤ (sized options c₁).concurrency := hworkers
    have htwo : ¬ 1 ≤ (sized options c₂).concurrency := hworkers
    constructor
    · intro _ h
      exact absurd h hworkers
    · intro _
      exact chunkFree_error (runStatements_idle hone) (runStatements_idle htwo)

theorem bulkInsert_chunkFree (hdialect : dialect.Numbers) (onConflict : Option DmlConflictClause)
    (returning : BulkColumns) (h₁ : 1 ≤ c₁) (h₂ : 1 ≤ c₂) :
    ChunkFree (InsertsAll entity rows.rows)
        (bulkInsert entity dialect onConflict returning (sized options c₁) rows)
        (bulkInsert entity dialect onConflict returning (sized options c₂) rows) ↔
      InsertAgrees entity onConflict returning rows (sized options c₁) (sized options c₂) := by
  unfold bulkInsert InsertAgrees
  by_cases hrows : rows.rows = []
  · simp [hrows, ChunkFree, InsertsAll, assigned, pure, Except.pure]
  simp only [List.isEmpty_iff, hrows, if_false]
  cases resolveReturningColumns entity returning with
  | error e => simp [bind, Except.bind, ChunkFree]
  | ok returned =>
    have hall : (∀ returned', rows.rows ≠ [] →
        (.ok returned : Except Exn (List String)) = .ok returned' →
        1 ≤ (sized options c₁).concurrency →
        Agrees (∀ clause ∈ onConflict, clause.Usable) (NamesAll entity rows (sized options c₁)) rows
          (sized options c₁) (sized options c₂)) ↔ (1 ≤ options.concurrency →
        Agrees (∀ clause ∈ onConflict, clause.Usable) (NamesAll entity rows (sized options c₁)) rows
          (sized options c₁) (sized options c₂)) :=
      ⟨fun h => h returned hrows rfl, fun h _ _ _ => h⟩
    rw [hall]
    simp only [bind, Except.bind]
    cases onConflict with
    | none =>
      have happlies : Applies dialect (fun node => return node) none
          (∀ clause ∈ (none : Option DmlConflictClause), clause.Usable) := by
        simpa using applies_none dialect
      exact runs_chunkFree hdialect happlies hrows h₁ h₂ (insertsAll_iff h₁)
    | some clause =>
      have happlies : Applies dialect (applyConflict clause) (some (appliedClause clause))
          (∀ c ∈ some clause, c.Usable) := by simpa using applies_clause hdialect clause
      exact runs_chunkFree hdialect happlies hrows h₁ h₂ (insertsAll_iff h₁)

theorem bulkUpsert_chunkFree (hdialect : dialect.Numbers)
    (conflictColumns updateColumns returning : BulkColumns) (h₁ : 1 ≤ c₁) (h₂ : 1 ≤ c₂) :
    ChunkFree (UpsertsAll entity conflictColumns updateColumns rows.rows)
        (bulkUpsert entity dialect conflictColumns updateColumns returning (sized options c₁) rows)
        (bulkUpsert entity dialect conflictColumns updateColumns returning (sized options c₂)
          rows) ↔
      UpsertAgrees entity conflictColumns updateColumns returning rows (sized options c₁)
        (sized options c₂) := by
  unfold bulkUpsert UpsertAgrees
  cases hrows : rows.rows with
  | nil => simp [ChunkFree, UpsertsAll, InsertsAll, UpdatesAll, assigned, pure, Except.pure]
  | cons front rest =>
    have hsome : rows.rows ≠ [] := by simp [hrows]
    simp only [bind, Except.bind]
    cases hconflict : resolveConflictColumns entity conflictColumns with
    | error e => simp [ChunkFree]
    | ok conflict =>
    dsimp only
    cases hupdated : resolveUpdateColumns entity conflict updateColumns front with
    | error e =>
      constructor
      · rintro - _ _ _ names _ ⟨rfl, rfl⟩ ⟨rfl⟩ hnames
        rw [hupdated] at hnames
        cases hnames
      · intro _
        trivial
    | ok updated =>
    cases resolveReturningColumns entity returning with
    | error e => simp [ChunkFree]
    | ok returned =>
      have hcomplete : UpsertsAll entity conflictColumns updateColumns rows.rows
            (emissions (some (upsertClause conflict updated))
              (placements rows (sized options c₁))) ↔
          NamesAll entity rows (sized options c₁) ∧ (updateColumns = .default →
            CoversAll conflict updated rows (sized options c₁)) := by
        have hchunk : 1 ≤ (sized options c₁).chunkSize := h₁
        have hupdates : UpdatesAll conflict rows.rows
              (emissions (some (upsertClause conflict updated))
                (placements rows (sized options c₁))) ↔ _ := updatesAll_iff hchunk
        rw [upsertClause_assignments] at hupdates
        unfold UpsertsAll
        rw [insertsAll_iff h₁, hconflict, ← hupdates]
        simp
      have happlies := applies_upsert hdialect (resolveConflictColumns_ne hconflict) updated
      have hiff : ChunkFree _ (runStatements entity dialect (upsertConflict conflict updated)
          returned (sized options c₁) rows) _ ↔ _ :=
        runs_chunkFree hdialect happlies hsome h₁ h₂ hcomplete
      rw [hrows] at hiff
      constructor
      · rintro h _ _ _ names _ ⟨rfl, rfl⟩ ⟨rfl⟩ hnames - hworkers
        rw [hupdated] at hnames
        cases hnames
        exact hiff.mp h hworkers
      · intro h
        exact hiff.mpr fun hworkers => h front rest conflict updated returned rfl rfl hupdated rfl
          hworkers

end

/-- SQLite has a placeholder for every parameter. -/
theorem sqliteDialect_numbers : sqliteDialect.Numbers := fun _ => ⟨_, rfl⟩

/-- An entity with columns `id`, `name` and `age`. -/
def personEntity : BulkEntity := ⟨"people", "id", ["id", "name", "age"]⟩

/-- Rows that assign the same columns. -/
def evenRows : BulkRows where
  rows := [[⟨"id", .value (.int64 1)⟩], [⟨"id", .value (.int64 2)⟩]]
  size_lt := by decide

/-- Two rows, of which only the second assigns `age`. -/
def unevenRows : BulkRows where
  rows := [[⟨"id", .value (.int64 1)⟩], [⟨"id", .value (.int64 2)⟩, ⟨"age", .value (.int64 30)⟩]]
  size_lt := by decide

end MetalOrm.Native.Bulk
