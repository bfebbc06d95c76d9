import MetalOrm.Native.RelationChange
import MetalOrm.Spec.CheckpointRestore

/-!
# Rules for the relation processor

What the loops of `flush_has_one`, `flush_has_many` and `flush_many_to_many` did when
they returned, one function at a time.

## Key results

- `writeForeignKey_ok`: the column, the statement and the snapshot
- `linkHasOne_ok`, `linkHasMany_ok`, `detachTarget_ok`: one target
- `flushHasOne_ok`, `flushHasMany_ok`, `flushManyToMany_ok`: one relation
-/

namespace MetalOrm.Native

open ForStd ForStd.Prog Session

theorem Reference.added_of_clean {reference : Reference} (h : reference.dirty = false) :
    reference.added = none := by simp [Reference.added, h]

theorem Reference.removed_of_clean {reference : Reference}
    (h : reference.dirty = false) : reference.removed = none := by simp [Reference.removed, h]

namespace RelationChange

variable {D : Type} {env : Env D Members} {w w' : World D Members} {root target : Key}

theorem exec_setColumn (key : Key) (column : Name) (value : Value) (w : World D Members) :
    exec (setColumn key column value) w = (.ok (), { w with
      uow := w.uow.setColumns key (Function.update (w.uow.heap key).columns column value) }) :=
  rfl

/-- A check that let the program go on did not fail. -/
theorem throwIf_ok {α : Type} {condition : Bool} {text : String} {p : SessionM D Members α}
    {a : α} (h : exec (throwIf condition text >>= fun _ => p) w = (.ok a, w')) :
    condition = false ∧ exec p w = (.ok a, w') := by
  unfold throwIf at h
  cases condition with
  | true => cases h
  | false => exact ⟨rfl, h⟩

/-- The state of a session after a foreign key was written. -/
def linked (env : Env D Members) (target : Key) (column : Name) (member : Value) (db : D)
    (w : World D Members) : World D Members :=
  { w with
    uow := (w.uow.setColumns target (Function.update (w.uow.heap target).columns column
      member)).refreshSnapshot env.classOf target
    db := db }

theorem writeForeignKey_ok {column : Name} {targetKey member value : Value}
    (h : exec (writeForeignKey env target column targetKey member value) w = (.ok (), w')) :
    ∃ result db, env.executor.execute (.update (env.classOf target).table [(column, value)]
        [((env.classOf target).primaryKey, targetKey)]) w.db = (.ok result, db) ∧
      w' = linked env target column member db w := by
  unfold writeForeignKey at h
  dsimp only at h
  rw [exec_bind_ok (exec_setColumn target column member w)] at h
  obtain ⟨result, _, hexecute, h⟩ := exec_bind_eq_ok.mp h
  obtain ⟨db, hresult, rfl⟩ := execute_ok hexecute
  cases h
  exact ⟨result, db, hresult, rfl⟩

theorem linked_tracked (column : Name) (member : Value) (db : D) (k : Key) :
    (linked env target column member db w).uow.tracked k =
      if k = target then (w.uow.tracked target).map fun t => ⟨t.status,
        (env.classOf target).snapshotOf (Function.update (w.uow.heap target).columns column member)⟩
      else w.uow.tracked k := by
  have hsnapshot : (w.uow.setColumns target (Function.update (w.uow.heap target).columns column
      member)).snapshot env.classOf target = (env.classOf target).snapshotOf
        (Function.update (w.uow.heap target).columns column member) := by
    simp [UowState.snapshot, UowState.setColumns]
  rw [← hsnapshot]
  exact UowState.updateTracked_tracked _ target _ k

/-- Only the foreign key of the target changes. -/
theorem linked_heap (column : Name) (member : Value) (db : D) :
    (linked env target column member db w).uow.heap =
      (w.uow.setColumns target (Function.update (w.uow.heap target).columns column member)).heap :=
  (UowState.updateTracked_frame _ target _).1

theorem linkTarget_ok {r : HasTargets} {targetKey rootKey : Value}
    (h : exec (linkTarget env r targetKey rootKey target) w = (.ok (), w')) :
    ∃ member, r.targetForeignKey.fromValue rootKey = some member ∧
      exec (writeForeignKey env target r.targetForeignKey.column targetKey member rootKey) w =
        (.ok (), w') := by
  unfold linkTarget at h
  cases hmember : r.targetForeignKey.fromValue rootKey with
  | none =>
    rw [hmember] at h
    cases h
  | some member =>
    rw [hmember] at h
    exact ⟨member, rfl, h⟩

/-- What linking a target does, in a `has_one` and in a `has_many`. -/
def LinkRuns (env : Env D Members) (r : HasTargets) (rootKey : Value) (target : Key)
    (w w' : World D Members) : Prop :=
  missingRelationKey (env.classOf target) (env.classOf target).primaryKey
    ((w.uow.heap target).columns (env.classOf target).primaryKey) = false ∧
  ∃ member, r.targetForeignKey.fromValue rootKey = some member ∧
    exec (writeForeignKey env target r.targetForeignKey.column
      ((w.uow.heap target).columns (env.classOf target).primaryKey) member rootKey) w =
        (.ok (), w')

theorem linkHasMany_ok {r : HasTargets} {rootKey : Value}
    (h : exec (linkHasMany env r rootKey target) w = (.ok (), w')) :
    LinkRuns env r rootKey target w w' := by
  unfold linkHasMany at h
  rw [exec_bind_ok (by rfl)] at h
  obtain ⟨hkey, h⟩ := throwIf_ok h
  exact ⟨hkey, linkTarget_ok h⟩

theorem linkHasOne_ok {r : HasTargets} {rootKey : Value}
    (h : exec (linkHasOne env r root rootKey target) w = (.ok (), w')) :
    missingRelationKey (env.classOf root) r.localKey rootKey = false ∧
      (w.uow.tracked target).isSome ∧ LinkRuns env r rootKey target w w' := by
  unfold linkHasOne at h
  obtain ⟨hroot, h⟩ := throwIf_ok h
  rw [exec_bind_ok (by rfl)] at h
  obtain ⟨hcontains, h⟩ := throwIf_ok h
  rw [exec_bind_ok (by rfl)] at h
  obtain ⟨hkey, h⟩ := throwIf_ok h
  exact ⟨hroot, by simpa using hcontains, hkey, linkTarget_ok h⟩

theorem detachTarget_ok {r : HasTargets} {kind : String}
    (h : exec (detachTarget env r kind target) w = (.ok (), w')) :
    (r.cascade.cascadesRemove = true ∧ exec (remove target) w = (.ok (), w')) ∨
    (r.cascade.cascadesRemove = false ∧ r.targetForeignKey.optional = true ∧
      exec (writeForeignKey env target r.targetForeignKey.column
        ((w.uow.heap target).columns (env.classOf target).primaryKey) .null .null) w =
          (.ok (), w')) := by
  unfold detachTarget at h
  split at h
  · exact .inl ⟨by assumption, h⟩
  · rename_i hcascade
    split at h
    · rename_i hoptional
      rw [exec_bind_ok (by rfl)] at h
      exact .inr ⟨by simpa using hcascade, hoptional, h⟩
    · cases h

/-- The two loops over the targets of a relation. -/
theorem forM_forM_ok {link detach : Key → SessionM D Members Unit} {added removed : List Key}
    (h : exec (do added.forM link; removed.forM detach) w = (.ok (), w')) :
    ∃ w₁, exec (added.forM link) w = (.ok (), w₁) ∧ exec (removed.forM detach) w₁ = (.ok (), w') := by
  obtain ⟨_, w₁, hadded, hremoved⟩ := exec_bind_eq_ok.mp h
  exact ⟨w₁, hadded, hremoved⟩

theorem flushHasOne_ok {r : HasTargets} (h : exec (flushHasOne env r root) w = (.ok (), w')) :
    ∃ w₁, exec (((w.uow.heap root).runtime.references r.index).added.toList.forM
        (linkHasOne env r root ((w.uow.heap root).columns r.localKey))) w = (.ok (), w₁) ∧
      exec (((w.uow.heap root).runtime.references r.index).removed.toList.forM
        (detachTarget env r "has_one")) w₁ = (.ok (), w') := by
  unfold flushHasOne at h
  rw [exec_bind_ok (by rfl)] at h
  dsimp only at h
  split at h
  · rw [exec_bind_ok (by rfl)] at h
    exact forM_forM_ok h
  · rename_i hclean
    cases h
    have hclean' : ((w.uow.heap root).runtime.references r.index).dirty = false := by
      simpa using hclean
    exact ⟨w, by rw [Reference.added_of_clean hclean']; rfl,
      by rw [Reference.removed_of_clean hclean']; rfl⟩

theorem flushHasMany_ok {r : HasTargets} (h : exec (flushHasMany env r root) w = (.ok (), w')) :
    (missingRelationKey (env.classOf root) r.localKey ((w.uow.heap root).columns r.localKey) &&
      (!((w.uow.heap root).runtime.collections r.index).added.isEmpty ||
        !((w.uow.heap root).runtime.collections r.index).removed.isEmpty)) = false ∧
    ∃ w₁, exec (((w.uow.heap root).runtime.collections r.index).added.forM
        (linkHasMany env r ((w.uow.heap root).columns r.localKey))) w = (.ok (), w₁) ∧
      exec (((w.uow.heap root).runtime.collections r.index).removed.forM
        (detachTarget env r "has_many")) w₁ = (.ok (), w') := by
  unfold flushHasMany at h
  rw [exec_bind_ok (by rfl), exec_bind_ok (by rfl)] at h
  obtain ⟨hkey, h⟩ := throwIf_ok h
  exact ⟨hkey, forM_forM_ok h⟩

theorem insertPivot_ok {r : ManyToMany} {m : Members} {rootKey : Value}
    (h : exec (insertPivot env r m rootKey target) w = (.ok (), w')) :
    ∃ values result db,
      env.executor.execute (.insert r.pivot values []) w.db = (.ok result, db) ∧
      w' = { w with db := db } := by
  unfold insertPivot at h
  rw [exec_bind_ok (by rfl)] at h
  obtain ⟨_, h⟩ := throwIf_ok h
  rw [exec_bind_ok (exec_get w)] at h
  obtain ⟨result, _, hexecute, h⟩ := exec_bind_eq_ok.mp h
  obtain ⟨db, hresult, rfl⟩ := execute_ok hexecute
  cases h
  exact ⟨_, result, db, hresult, rfl⟩

theorem updatePivot_ok {r : ManyToMany} {m : Members} {rootKey : Value}
    (h : exec (updatePivot env r m rootKey target) w = (.ok (), w')) :
    w' = w ∨ ∃ assignments result db,
      env.executor.execute (.update r.pivot assignments (pivotWheres r rootKey
        ((w.uow.heap target).columns r.targetKey))) w.db = (.ok result, db) ∧
      w' = { w with db := db } := by
  unfold updatePivot at h
  rw [exec_bind_ok (exec_get w)] at h
  dsimp only at h
  split at h
  · rw [exec_bind_ok (by rfl)] at h
    obtain ⟨result, _, hexecute, h⟩ := exec_bind_eq_ok.mp h
    obtain ⟨db, hresult, rfl⟩ := execute_ok hexecute
    cases h
    exact .inr ⟨_, result, db, hresult, rfl⟩
  · cases h
    exact .inl rfl

/-- A cascade removes a tracked target, and deletes the row of another one. -/
theorem removePivotTarget_ok {r : ManyToMany} {targetKey : Value}
    (h : exec (removePivotTarget env r targetKey target) w = (.ok (), w')) :
    w' = w ∨ exec (remove target) w = (.ok (), w') ∨
    (r.cascade.cascadesRemove = true ∧ (w.uow.tracked target).isSome = false ∧
      ∃ result db, env.executor.execute (.delete (env.classOf target).table
        [(r.targetKey, targetKey)]) w.db = (.ok result, db) ∧ w' = { w with db := db }) := by
  unfold removePivotTarget at h
  split at h
  · rename_i hcascade
    rw [exec_bind_ok (by rfl)] at h
    split at h
    · exact .inr (.inl h)
    · rename_i htracked
      obtain ⟨result, _, hexecute, h⟩ := exec_bind_eq_ok.mp h
      obtain ⟨db, hresult, rfl⟩ := execute_ok hexecute
      cases h
      exact .inr (.inr ⟨hcascade, by simpa using htracked, result, db, hresult, rfl⟩)
  · cases h
    exact .inl rfl

theorem deletePivot_ok {r : ManyToMany} {rootKey : Value}
    (h : exec (deletePivot env r rootKey target) w = (.ok (), w')) :
    ∃ result db, env.executor.execute (.delete r.pivot (pivotWheres r rootKey
        ((w.uow.heap target).columns r.targetKey))) w.db = (.ok result, db) ∧
      exec (removePivotTarget env r ((w.uow.heap target).columns r.targetKey) target)
        { w with db := db } = (.ok (), w') := by
  unfold deletePivot at h
  rw [exec_bind_ok (by rfl)] at h
  obtain ⟨result, _, hexecute, h⟩ := exec_bind_eq_ok.mp h
  obtain ⟨db, hresult, rfl⟩ := execute_ok hexecute
  exact ⟨result, db, hresult, h⟩

/-- The three loops of `flush_many_to_many`. -/
theorem flushManyToMany_ok {r : ManyToMany}
    (h : exec (flushManyToMany env r root) w = (.ok (), w')) :
    let m := (w.uow.heap root).runtime
    let values := m.collections r.index
    let rootKey := (w.uow.heap root).columns r.localKey
    ∃ w₁ w₂, exec ((withoutEquivalent env r w.uow m values.items values.baseline).forM
        (insertPivot env r m rootKey)) w = (.ok (), w₁) ∧
      exec ((pivotUpdates env r w₁.uow m).forM (updatePivot env r m rootKey)) w₁ = (.ok (), w₂) ∧
      exec ((withoutEquivalent env r w₂.uow m values.baseline values.items).forM
        (deletePivot env r rootKey)) w₂ = (.ok (), w') := by
  unfold flushManyToMany at h
  rw [exec_bind_ok (by rfl), exec_bind_ok (by rfl), exec_bind_ok (exec_get w),
    exec_bind_ok (exec_get w)] at h
  obtain ⟨_, h⟩ := throwIf_ok h
  obtain ⟨_, w₁, hadded, h⟩ := exec_bind_eq_ok.mp h
  rw [exec_bind_ok (exec_get w₁)] at h
  obtain ⟨_, w₂, hupdates, h⟩ := exec_bind_eq_ok.mp h
  exact ⟨w₁, w₂, hadded, hupdates, h⟩

end RelationChange

end MetalOrm.Native
