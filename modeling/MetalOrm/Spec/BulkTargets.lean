import MetalOrm.Native.BulkWhere
import MetalOrm.Spec.ChunkPartition
import MetalOrm.Spec.DmlConditions

/-!
# The rows of bulk statements

A chunk of identity values has a value, so its IN list is never written as an integer: on both
databases the statement of a chunk touches the rows whose key is in the chunk.

## Key results

- `bulkUpdateWhere_chunks`, `bulkDelete_chunks`: what the statements of the chunks touch
- `dml_where_iff`: when UPDATE and DELETE touch just the rows of all predicates
-/

namespace MetalOrm.Native.Bulk

open ForStd Query

/-! ## Chunks -/

theorem toNat_size (ids : BulkIds) : ids.size.toNat = ids.values.length :=
  UInt64.toNat_ofNat_of_lt' ids.size_lt

theorem one_le_of_validate {options : BulkBaseOptions} (h : validateBaseOptions options = .ok ()) :
    1 ≤ options.chunkSize := by
  rw [← UInt64.not_lt]
  intro hlt
  simp [validateBaseOptions, hlt, bind, Except.bind, throw, throwThe, MonadExceptOf.throw] at h

/-- No chunk is empty. -/
theorem ne_nil_of_mem_idChunks {ids : BulkIds} {options : BulkBaseOptions} {chunk : List Value}
    (hsize : 1 ≤ options.chunkSize) (h : chunk ∈ idChunks ids options) : chunk ≠ [] := by
  obtain ⟨index, hindex, rfl⟩ := List.mem_map.mp h
  obtain ⟨i, hi, rfl⟩ := List.mem_map.mp hindex
  have hi := List.mem_range.mp hi
  by_cases hwrap : NoWrap ids.size options
  · have htoNat : (UInt64.ofNat i).toNat = i :=
      UInt64.toNat_ofNat_of_lt' (Nat.lt_trans hi (UInt64.toNat_lt _))
    have hfirst := chunkBegin_toNat hsize hwrap (by rwa [htoNat])
    have hlast := chunkEnd_toNat hsize hwrap (by rwa [htoNat])
    have hlt := (bound_spec hsize hwrap).2.2 i hi
    rw [htoNat] at hfirst hlast
    have hle : bound ids.size options (i + 1) ≤ ids.values.length := by
      rw [← toNat_size]
      exact Nat.min_le_left _ _
    rw [← List.length_pos_iff, BulkIds.slice, hfirst, hlast, List.length_take, List.length_drop]
    omega
  · rw [totalChunks_wrapped hwrap] at hi
    cases hi

theorem forall₂_of_mapM {α β : Type} {f : α → Except Exn β} {xs : List α} {ys : List β}
    (h : xs.mapM f = .ok ys) : List.Forall₂ (fun x y => x ∈ xs ∧ f x = .ok y) xs ys := by
  induction xs generalizing ys with
  | nil =>
    cases h
    exact .nil
  | cons x xs ih =>
    rw [List.mapM_cons] at h
    obtain ⟨y, hy, h⟩ := except_bind_ok h
    obtain ⟨rest, hrest, h⟩ := except_bind_ok h
    cases h
    exact .cons ⟨List.mem_cons_self, hy⟩
      ((ih hrest).imp fun _ _ h => ⟨List.mem_cons_of_mem _ h.1, h.2⟩)

/-! ## Statements of a chunk -/

/-- The key of the row is one of these. -/
def keyIn (engine : DmlEngine) (table identity : String) (chunk : List Value) (row : Tuple) : Bool :=
  chunk.any fun v => (engine.compare .eq (cellOf table row identity) { value := v }).holds

/-- A row satisfies the predicates of a chunk just if its key is in it. -/
theorem satisfies_chunk (engine : DmlEngine) (table identity : String) (chunk : List Value)
    (fragment : Option Shape) :
    satisfies engine table [] [{ column := identity, values := chunk }] fragment =
      fun row => keyIn engine table identity chunk row && extraHolds engine row fragment := by
  funext row
  simp [satisfies, DmlInPredicate.holds, Truth.negate, Truth.holds_any, keyIn]

section

variable (entity : BulkEntity) (set : List DmlAssignment) (identity : String)
  (where_ : Option DmlWhereCompiler) (returning : List String) (chunk : List Value)
  (dialect : Dialect)

/-- The parameters in front of the extra condition of an update. -/
def updateParams : List Value := (updateChunk entity set identity where_ returning chunk).paramsBefore

/-- The update of a chunk touches the rows whose key is in the chunk and that satisfy the extra
    condition. -/
def UpdatesChunk (out : CompiledQuery Value) : Prop :=
  let node := updateChunk entity set identity where_ returning chunk
  StatementMeans dialect entity.table (node.shape dialect) (node.terms dialect)
    (fun engine row => keyIn engine entity.table identity chunk row &&
      extraHolds engine row (extraShape dialect where_ node.paramsBefore)) out

/-- The delete of a chunk touches the rows whose key is in the chunk and that satisfy the extra
    condition. -/
def DeletesChunk (out : CompiledQuery Value) : Prop :=
  let node := deleteChunk entity identity where_ chunk
  StatementMeans dialect entity.table (node.shape dialect) (node.terms dialect)
    (fun engine row => keyIn engine entity.table identity chunk row &&
      extraHolds engine row (extraShape dialect where_ chunk)) out

variable {entity set identity where_ returning chunk dialect} {out : CompiledQuery Value}

variable (entity set identity where_ returning chunk) in
/-- The members of the builder of an update. -/
theorem updateChunk_eq : ∃ columns, updateChunk entity set identity where_ returning chunk =
    { table := entity.table, assignments := set,
      inPredicates := [{ column := identity, values := chunk }], extraWhere := where_,
      returning := columns } := by
  unfold updateChunk
  cases where_ <;> cases returning <;> exact ⟨_, rfl⟩

theorem deleteChunk_eq : deleteChunk entity identity where_ chunk =
    { table := entity.table, inPredicates := [{ column := identity, values := chunk }],
      extraWhere := where_ } := by
  unfold deleteChunk
  cases where_ <;> rfl

theorem updatesChunk_iff (hchunk : chunk ≠ [])
    (h : (updateChunk entity set identity where_ returning chunk).compile dialect = .ok out) :
    UpdatesChunk entity set identity where_ returning chunk dialect out ↔
      ExtraInOrder dialect where_ (updateParams entity set identity where_ returning chunk) := by
  have hmeans := UpdateNode.means_iff h
  obtain ⟨columns, heq⟩ := updateChunk_eq entity set identity where_ returning chunk
  unfold UpdatesChunk updateParams
  rw [heq] at hmeans ⊢
  simp only [UpdateNode.Means, satisfies_chunk] at hmeans
  exact hmeans.trans (by simp [hchunk])

theorem deletesChunk_iff (hchunk : chunk ≠ [])
    (h : (deleteChunk entity identity where_ chunk).compile dialect = .ok out) :
    DeletesChunk entity identity where_ chunk dialect out ↔
      ExtraInOrder dialect where_ chunk := by
  have hmeans := DeleteNode.means_iff h
  have hbefore : predicateLiterals [] [{ column := identity, values := chunk }] = chunk := by
    simp [predicateLiterals]
  unfold DeletesChunk
  rw [deleteChunk_eq] at hmeans ⊢
  simp only [DeleteNode.Means, DeleteNode.paramsBefore, hbefore, satisfies_chunk] at hmeans
  exact hmeans.trans (by simp [hchunk])

end

/-! ## All chunks -/

section

variable {entity : BulkEntity} {dialect : Dialect} {options : BulkBaseOptions}
  {whereOptions : BulkWhereOptions} {ids : BulkIds}

theorem idChunks_nil (h : ids.values = []) : idChunks ids options = [] := by
  have hsize : ids.size = 0 := by
    rw [BulkIds.size, h]
    rfl
  simp [idChunks, chunkIndices, totalChunks, hsize]

/-- Each statement of `bulk_update_where` updates the rows of its chunk. -/
theorem bulkUpdateWhere_chunks {set : List DmlAssignment} {outs : List (CompiledQuery Value)}
    (h : bulkUpdateWhere entity dialect options whereOptions ids set = .ok outs) {identity : String}
    (hidentity : resolveByColumn entity whereOptions.identity = .ok identity)
    {returning : List String}
    (hreturning : resolveReturningColumns entity whereOptions.returning = .ok returning) :
    List.Forall₂ (fun chunk out =>
      let set := set.filter fun assignment => entity.knownColumn assignment.column
      UpdatesChunk entity set identity whereOptions.where_ returning chunk dialect out ↔
        ExtraInOrder dialect whereOptions.where_
          (updateParams entity set identity whereOptions.where_ returning chunk))
      (idChunks ids options) outs := by
  unfold bulkUpdateWhere at h
  split at h
  · rename_i hempty
    cases h
    rw [idChunks_nil (List.isEmpty_iff.mp hempty)]
    exact .nil
  · obtain ⟨name, hname, h⟩ := except_bind_ok h
    cases hidentity.symm.trans hname
    obtain ⟨columns, hcolumns, h⟩ := except_bind_ok h
    cases hreturning.symm.trans hcolumns
    dsimp only at h
    split at h
    · cases h
    · obtain ⟨_, hvalid, h⟩ := except_bind_ok h
      refine (forall₂_of_mapM h).imp fun chunk out hout => ?_
      exact updatesChunk_iff (ne_nil_of_mem_idChunks (one_le_of_validate hvalid) hout.1) hout.2

/-- Each statement of `bulk_delete` deletes the rows of its chunk. -/
theorem bulkDelete_chunks {outs : List (CompiledQuery Value)}
    (h : bulkDelete entity dialect options whereOptions ids = .ok outs) {identity : String}
    (hidentity : resolveByColumn entity whereOptions.identity = .ok identity) :
    List.Forall₂ (fun chunk out =>
      DeletesChunk entity identity whereOptions.where_ chunk dialect out ↔
        ExtraInOrder dialect whereOptions.where_ chunk) (idChunks ids options) outs := by
  unfold bulkDelete at h
  split at h
  · rename_i hempty
    cases h
    rw [idChunks_nil (List.isEmpty_iff.mp hempty)]
    exact .nil
  · obtain ⟨name, hname, h⟩ := except_bind_ok h
    cases hidentity.symm.trans hname
    obtain ⟨_, hvalid, h⟩ := except_bind_ok h
    refine (forall₂_of_mapM h).imp fun chunk out hout => ?_
    exact deletesChunk_iff (ne_nil_of_mem_idChunks (one_le_of_validate hvalid) hout.1) hout.2

end

/-! ## Both databases -/

/-- The databases that the library writes for. -/
inductive Backend where
  | sqlite
  | postgres

/-- The dialect of a database. -/
def Backend.dialect : Backend → Dialect
  | sqlite => sqliteDialect
  | postgres => postgresDialect

/-- UPDATE and DELETE touch the rows that satisfy all predicates, with the placeholders in order, if
    and only if on PostgreSQL no IN list is empty and the extra condition has its own placeholders in
    order, as expressions without misplaced calls have; no chunk of a bulk operation has an empty
    list. -/
theorem dml_where_iff (backend : Backend) :
    (∀ (node : UpdateNode) out, node.compile backend.dialect = .ok out →
      (node.Means backend.dialect out ↔
        (backend.dialect.family = .sqlite ∨ ∀ p ∈ node.inPredicates, p.values ≠ []) ∧
          ExtraInOrder backend.dialect node.extraWhere node.paramsBefore)) ∧
    (∀ (node : DeleteNode) out, node.compile backend.dialect = .ok out →
      (node.Means backend.dialect out ↔
        (backend.dialect.family = .sqlite ∨ ∀ p ∈ node.inPredicates, p.values ≠ []) ∧
          ExtraInOrder backend.dialect node.extraWhere node.paramsBefore)) ∧
    (∀ entity options whereOptions ids set outs,
      bulkUpdateWhere entity backend.dialect options whereOptions ids set = .ok outs →
      ∀ identity, resolveByColumn entity whereOptions.identity = .ok identity →
      ∀ returning, resolveReturningColumns entity whereOptions.returning = .ok returning →
      List.Forall₂ (fun chunk out =>
        let set := set.filter fun assignment => entity.knownColumn assignment.column
        UpdatesChunk entity set identity whereOptions.where_ returning chunk backend.dialect out ↔
          ExtraInOrder backend.dialect whereOptions.where_
            (updateParams entity set identity whereOptions.where_ returning chunk))
        (idChunks ids options) outs) ∧
    (∀ entity options whereOptions ids outs,
      bulkDelete entity backend.dialect options whereOptions ids = .ok outs →
      ∀ identity, resolveByColumn entity whereOptions.identity = .ok identity →
      List.Forall₂ (fun chunk out =>
        DeletesChunk entity identity whereOptions.where_ chunk backend.dialect out ↔
          ExtraInOrder backend.dialect whereOptions.where_ chunk) (idChunks ids options) outs) ∧
    ∀ type (e : ExprNode Value),
      (backend.dialect.family = .postgres ∨ e.everyCall (PlacedCall backend.dialect.family)) →
      ∀ params, ExtraInOrder backend.dialect (some (dmlWhere type e)) params := by
  refine ⟨fun node out h => UpdateNode.means_iff h, fun node out h => DeleteNode.means_iff h,
    fun _ _ _ _ _ _ h _ hidentity _ hreturning => bulkUpdateWhere_chunks h hidentity hreturning,
    fun _ _ _ _ _ h _ hidentity => bulkDelete_chunks h hidentity, fun type e h params => ?_⟩
  refine extraInOrder_dmlWhere ?_ params
  obtain hpostgres | hplaced := h
  · -- on PostgreSQL no call moves its arguments
    exact ExprNode.everyCall_of_forall (fun _ _ hfamily => absurd hpostgres hfamily) e
  · exact hplaced

/-- The users whose id is in an empty list. -/
def usersInEmptyList : DeleteNode where
  table := "users"
  inPredicates := [{ column := "id", values := [] }]

/-- On PostgreSQL the statement for an empty list asks for an integer. -/
theorem empty_list_refused : ∃ out, usersInEmptyList.compile postgresDialect = .ok out ∧
    out.sql.render = "DELETE FROM \"users\" WHERE 0;" ∧
    ¬usersInEmptyList.Means postgresDialect out := by
  refine ⟨⟨_, _⟩, rfl, by decide, fun h => ?_⟩
  have hrows := h.touches ⟨⟨fun _ _ _ => none, fun _ _ => none, fun _ => .null⟩, fun _ _ => none⟩ []
  rw [touched, if_neg (by decide)] at hrows
  cases hrows

end MetalOrm.Native.Bulk
