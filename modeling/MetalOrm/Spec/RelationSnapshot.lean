import MetalOrm.Spec.FlushSnapshot
import MetalOrm.Spec.RelationRules

/-!
# What the flush pipeline records

The relation processor writes one foreign key to a target and then records all
columns of it as stored (`refresh_snapshot`). The snapshot is right exactly when
the other columns of the target had not changed since they were recorded.

## Key results

- `Synced.writeForeignKey`: one target
- `processRelations_synced`: the relation processor
- `flush_records`: the flush, and the flush pipeline after it
-/

namespace MetalOrm.Native

open ForStd ForStd.Prog Session RelationChange

variable {engine : Engine}

/-! ## Conditions -/

section Conditions

variable (env : Env engine.Db Members)

/-- The condition on writing `value` to the foreign key of a target, which gets
    `member` in memory. -/
structure LinkOk (target : Key) (column : Name) (member value : Value)
    (w : World engine.Db Members) : Prop where
  /-- A managed target is clean but for its foreign key, and has the primary key and
      the foreign key that the statement writes. -/
  managed : ∀ original, w.uow.tracked target = some ⟨.managed, original⟩ →
    original.lookup (env.classOf target).primaryKey =
      some ((w.uow.heap target).columns (env.classOf target).primaryKey) ∧
    member.Same value ∧
    ∀ name ∈ (env.classOf target).columns, name ≠ column →
      ∃ v, original.lookup name = some v ∧ v.Same ((w.uow.heap target).columns name)
  /-- The statement for another target is not addressed to the row of a managed entity. -/
  other : (∀ original, w.uow.tracked target ≠ some ⟨.managed, original⟩) →
    Spares env (.update (env.classOf target).table [(column, value)]
      [((env.classOf target).primaryKey,
        (w.uow.heap target).columns (env.classOf target).primaryKey)]) w

/-- The condition on a target that was added to a `has_one` or a `has_many`. -/
def AddedOk (r : HasTargets) (rootKey : Value) (target : Key)
    (w : World engine.Db Members) : Prop :=
  ∀ member, r.targetForeignKey.fromValue rootKey = some member →
    LinkOk env target r.targetForeignKey.column member rootKey w

/-- The condition on a target that was removed from a `has_one` or a `has_many`. -/
def RemovedOk (r : HasTargets) (target : Key) (w : World engine.Db Members) : Prop :=
  r.cascade.cascadesRemove = false → LinkOk env target r.targetForeignKey.column .null .null w

/-- The condition on the two loops over the targets of a `has_one` or a `has_many`. -/
def TargetsOk (r : HasTargets) (kind : String) (link : Key → SessionM engine.Db Members Unit)
    (rootKey : Value) (added removed : List Key) (w : World engine.Db Members) : Prop :=
  Along (AddedOk env r rootKey) link added w ∧
  ∀ w₁, exec (added.forM link) w = (.ok (), w₁) →
    Along (RemovedOk env r) (detachTarget env r kind) removed w₁

/-- The pivot statements about a target select no row of a managed pivot entity. -/
def PivotSpares (r : ManyToMany) (rootKey : Value) (target : Key)
    (w : World engine.Db Members) : Prop :=
  Spares env (.delete r.pivot (pivotWheres r rootKey ((w.uow.heap target).columns r.targetKey))) w

/-- The condition on a target that was removed from a `many_to_many`. -/
def DetachedOk (r : ManyToMany) (rootKey : Value) (target : Key)
    (w : World engine.Db Members) : Prop :=
  PivotSpares env r rootKey target w ∧
  (r.cascade.cascadesRemove = true → (w.uow.tracked target).isSome = false →
    Spares env (.delete (env.classOf target).table
      [(r.targetKey, (w.uow.heap target).columns r.targetKey)]) w)

/-- The condition on the loops of a `many_to_many`. -/
def PivotsOk (r : ManyToMany) (rootKey : Value) (m : Members)
    (w : World engine.Db Members) : Prop :=
  let values := m.collections r.index
  ∀ w₁, exec ((withoutEquivalent env r w.uow m values.items values.baseline).forM
      (insertPivot env r m rootKey)) w = (.ok (), w₁) →
    Along (PivotSpares env r rootKey) (updatePivot env r m rootKey)
      (pivotUpdates env r w₁.uow m) w₁ ∧
    ∀ w₂, exec ((pivotUpdates env r w₁.uow m).forM (updatePivot env r m rootKey)) w₁ =
        (.ok (), w₂) →
      Along (DetachedOk env r rootKey) (deletePivot env r rootKey)
        (withoutEquivalent env r w₂.uow m values.baseline values.items) w₂

/-- The condition on one relation of a root. -/
def RelationOk (root : Key) (relation : Relation) (w : World engine.Db Members) : Prop :=
  let object := w.uow.heap root
  match relation with
  | .hasOne r =>
    let reference := object.runtime.references r.index
    let rootKey := object.columns r.localKey
    TargetsOk env r "has_one" (linkHasOne env r root rootKey) rootKey
      reference.added.toList reference.removed.toList w
  | .hasMany r =>
    let values := object.runtime.collections r.index
    let rootKey := object.columns r.localKey
    TargetsOk env r "has_many" (linkHasMany env r rootKey) rootKey values.added values.removed w
  | .manyToMany r => PivotsOk env r (object.columns r.localKey) object.runtime w
  | .belongsTo _ | .morphOne _ | .morphMany _ | .morphTo _ => True

/-- The condition on the relations of one tracked object. -/
def ProcessOk (relationsOf : Key → List Relation) (key : Key)
    (w : World engine.Db Members) : Prop :=
  (w.uow.tracked key).isSome → Along (RelationOk env key) (flushRelation env key) (relationsOf key) w

end Conditions

/-! ## Statements that select no managed row -/

section Statements

variable {env : Env engine.Db Members} (hexecutor : env.executor.execute = engine.execute)
  {w w' : World engine.Db Members}

include hexecutor

theorem Spares.keeps {statement : Statement} (hspares : Spares env statement w)
    {result : QueryResult} {db : engine.Db}
    (hexecute : env.executor.execute statement w.db = (.ok result, db)) {k : Key}
    {original : Snapshot} {pk : Value} {row : Name → Value}
    (hk : w.uow.tracked k = some ⟨.managed, original⟩)
    (hpk : original.lookup (env.classOf k).primaryKey = some pk)
    (hrow : w.db.rows (env.classOf k).table pk = some row) :
    db.rows (env.classOf k).table pk = some row := by
  rw [hexecutor] at hexecute
  obtain ⟨s₁, happly, hrows, _⟩ := Engine.execute_ok hexecute
  rw [hrows]
  exact Engine.apply_spared happly hrow fun htable => hspares k original pk row hk htable hpk hrow

theorem Synced.spared (h : Synced env w) {statement : Statement}
    (hspares : Spares env statement w) {result : QueryResult} {db : engine.Db}
    (hexecute : env.executor.execute statement w.db = (.ok result, db)) :
    Synced env { w with db := db } where
  recorded k original hk := (h.recorded k original hk).of_rows fun _ _ hpk hrow =>
    hspares.keeps hexecutor hexecute hk hpk hrow
  distinct := h.distinct

omit hexecutor

theorem spares_insert (table : Name) (values : List (Name × Value)) (returning : List Name) :
    Spares env (.insert table values returning) w := fun _ _ _ _ _ _ _ _ => rfl

/-- An entity that is not managed any more is of no concern. -/
theorem Synced.remove (h : Synced env w) {key : Key}
    (hremove : exec (Session.remove key) w = (.ok (), w')) : Synced env w' := by
  cases hremove
  refine h.replace key (fun k hk => ?_) (fun _ _ _ _ _ _ _ hrow => hrow) fun o ho => ?_
  · exact (w.uow.updateTracked_tracked key _ k).trans (if_neg hk)
  · simp [UowState.updateTracked_tracked] at ho

end Statements

/-! ## The targets of a relation -/

section Targets

variable {env : Env engine.Db Members} (hexecutor : env.executor.execute = engine.execute)
  (hschema : ∀ k, engine.primaryKeyOf (env.classOf k).table = (env.classOf k).primaryKey)
  {w w' : World engine.Db Members} {target : Key}

include hexecutor hschema

/-- Writing the foreign key of a target that meets the condition. -/
theorem Synced.writeForeignKey (h : Synced env w) {column : Name} {member value : Value}
    (hok : LinkOk env target column member value w)
    (hwrite : exec (writeForeignKey env target column
      ((w.uow.heap target).columns (env.classOf target).primaryKey) member value) w =
        (.ok (), w')) : Synced env w' := by
  obtain ⟨result, db, hexecute, rfl⟩ := writeForeignKey_ok hwrite
  by_cases hmanaged : ∃ original, w.uow.tracked target = some ⟨.managed, original⟩
  · obtain ⟨original, hmanaged⟩ := hmanaged
    obtain ⟨hpk, hmember, hclean⟩ := hok.managed original hmanaged
    rw [hexecutor] at hexecute
    obtain ⟨hcolumn, hrows⟩ := updateColumn_writes (hschema target) hexecute
    -- the snapshot that is recorded has the same primary key
    have hkey : ((env.classOf target).snapshotOf (Function.update (w.uow.heap target).columns
        column member)).lookup (env.classOf target).primaryKey =
          original.lookup (env.classOf target).primaryKey := by
      simp [(env.classOf target).primaryKey_mem, hpk, Ne.symm hcolumn]
    refine h.replace target (fun k hk => ?_) (fun k o pk row hk hk' hpk' hrow => ?_) fun o ho => ?_
    · rw [linked_tracked, if_neg hk]
    · have hne : ¬((env.classOf k).table = (env.classOf target).table ∧
          pk = (w.uow.heap target).columns (env.classOf target).primaryKey) := by
        rintro ⟨htable, rfl⟩
        exact hk (h.distinct k target o original hk' hmanaged ⟨htable, by rw [hpk', hpk]⟩)
      exact (congrFun₂ hrows _ _).trans ((setRow_of_ne hne).trans hrow)
    · rw [linked_tracked, if_pos rfl, hmanaged] at ho
      cases ho
      refine ⟨?_, fun k o hk hk' hsame => ?_⟩
      · obtain ⟨pk, row, hpk', hrow, hsame⟩ := h.recorded target original hmanaged
        rw [hpk] at hpk'
        cases hpk'
        refine ⟨_, Function.update row column value, hkey.trans hpk, ?_, fun name hname => ?_⟩
        · show db.rows _ _ = _
          rw [hrows, setRow_self, hrow, Option.map_some]
        · refine ⟨Function.update (w.uow.heap target).columns column member name,
            by simp [hname], ?_⟩
          by_cases hne : name = column
          · subst hne
            simpa using hmember
          · obtain ⟨v, hv, hvname⟩ := hclean name hname hne
            obtain ⟨v', hv', hvrow⟩ := hsame name hname
            rw [hv] at hv'
            cases hv'
            rw [Function.update_of_ne hne, Function.update_of_ne hne]
            exact hvname.symm.trans hvrow
      · exact hk (h.distinct k target o original hk' hmanaged ⟨hsame.1, hsame.2.trans hkey⟩)
  · have hother : ∀ original, w.uow.tracked target ≠ some ⟨.managed, original⟩ :=
      fun original horiginal => hmanaged ⟨original, horiginal⟩
    refine h.replace target (fun k hk => ?_) (fun k o pk row _ hk' hpk' hrow => ?_) fun o ho => ?_
    · rw [linked_tracked, if_neg hk]
    · exact (hok.other hother).keeps hexecutor hexecute hk' hpk' hrow
    · rw [linked_tracked, if_pos rfl] at ho
      obtain ⟨t, ht, hto⟩ := Option.map_eq_some_iff.mp ho
      obtain ⟨status, original⟩ := t
      cases hto
      exact absurd ht (hother original)

theorem LinkRuns.synced {r : HasTargets} {rootKey : Value} (h : Synced env w)
    (hok : AddedOk env r rootKey target w) (hruns : LinkRuns env r rootKey target w w') :
    Synced env w' := by
  obtain ⟨_, member, hmember, hwrite⟩ := hruns
  exact h.writeForeignKey hexecutor hschema (hok member hmember) hwrite

theorem Synced.detachTarget {r : HasTargets} {kind : String} (h : Synced env w)
    (hok : RemovedOk env r target w)
    (hdetach : exec (detachTarget env r kind target) w = (.ok (), w')) : Synced env w' := by
  rcases detachTarget_ok hdetach with ⟨_, hremove⟩ | ⟨hcascade, _, hwrite⟩
  · exact h.remove hremove
  · exact h.writeForeignKey hexecutor hschema (hok hcascade) hwrite

/-- The two loops of a relation keep the snapshots, if each link does. -/
theorem Synced.targets {r : HasTargets} {kind : String}
    {link : Key → SessionM engine.Db Members Unit} {rootKey : Value} {added removed : List Key}
    (hlink : ∀ t u u', exec (link t) u = (.ok (), u') → LinkRuns env r rootKey t u u')
    (h : Synced env w) (hok : TargetsOk env r kind link rootKey added removed w)
    {w₁ : World engine.Db Members} (hadded : exec (added.forM link) w = (.ok (), w₁))
    (hremoved : exec (removed.forM (RelationChange.detachTarget env r kind)) w₁ = (.ok (), w')) :
    Synced env w' := by
  have h₁ : Synced env w₁ := hok.1.invariant (fun t u u' hu hcond hexec =>
    LinkRuns.synced hexecutor hschema hu hcond (hlink t u u' hexec)) h hadded
  exact (hok.2 w₁ hadded).invariant (fun t u u' hu hcond hexec =>
    hu.detachTarget hexecutor hschema hcond hexec) h₁ hremoved

end Targets

/-! ## The pivot rows of a relation -/

section Pivots

variable {env : Env engine.Db Members} (hexecutor : env.executor.execute = engine.execute)
  {w w' : World engine.Db Members} {r : ManyToMany} {target : Key}

include hexecutor

/-- A statement that spares the managed rows selects none after another such statement. -/
theorem Spares.after (h : Synced env w) {statement other : Statement}
    (hspares : Spares env statement w) (hother : Spares env other w) {result : QueryResult}
    {db : engine.Db} (hexecute : env.executor.execute other w.db = (.ok result, db)) :
    Spares env statement { w with db := db } := by
  intro k original pk row hk htable hpk hrow
  obtain ⟨pk', row', hpk', hrow', _⟩ := h.recorded k original hk
  rw [hpk] at hpk'
  cases hpk'
  have hkept : db.rows (env.classOf k).table pk = some row' :=
    hother.keeps hexecutor hexecute hk hpk hrow'
  have heq : some row = some row' := by rw [← hkept, ← hrow]
  cases heq
  exact hspares k original pk row hk htable hpk hrow'

theorem Synced.insertPivot {m : Members} {rootKey : Value} (h : Synced env w)
    (hinsert : exec (insertPivot env r m rootKey target) w = (.ok (), w')) : Synced env w' := by
  obtain ⟨values, result, db, hexecute, rfl⟩ := insertPivot_ok hinsert
  exact h.spared hexecutor (spares_insert r.pivot values []) hexecute

theorem Synced.updatePivot {m : Members} {rootKey : Value} (h : Synced env w)
    (hok : PivotSpares env r rootKey target w)
    (hupdate : exec (updatePivot env r m rootKey target) w = (.ok (), w')) : Synced env w' := by
  rcases updatePivot_ok hupdate with rfl | ⟨assignments, result, db, hexecute, rfl⟩
  · exact h
  · -- which rows an UPDATE selects does not depend on what it assigns
    exact h.spared hexecutor (show Spares env (.update r.pivot assignments _) w from hok) hexecute

theorem Synced.deletePivot {rootKey : Value} (h : Synced env w)
    (hok : DetachedOk env r rootKey target w)
    (hdelete : exec (deletePivot env r rootKey target) w = (.ok (), w')) : Synced env w' := by
  obtain ⟨result, db, hexecute, htarget⟩ := deletePivot_ok hdelete
  have h₁ : Synced env { w with db := db } := h.spared hexecutor hok.1 hexecute
  rcases removePivotTarget_ok htarget with rfl | hremove | ⟨hcascade, htracked, _, db', hexec, rfl⟩
  · exact h₁
  · exact h₁.remove hremove
  · exact h₁.spared hexecutor
      (Spares.after hexecutor h (hok.2 hcascade htracked) hok.1 hexecute) hexec

theorem Synced.flushManyToMany {root : Key} (h : Synced env w)
    (hok : RelationOk env root (.manyToMany r) w)
    (hflush : exec (flushManyToMany env r root) w = (.ok (), w')) : Synced env w' := by
  obtain ⟨w₁, w₂, hadded, hupdates, hremoved⟩ := flushManyToMany_ok hflush
  obtain ⟨hok₁, hok₂⟩ := hok w₁ hadded
  have h₁ : Synced env w₁ := (Along.of_forall (fun _ _ => trivial) _ w).invariant
    (fun t u u' hu (_ : True) hexec => hu.insertPivot hexecutor hexec) h hadded
  have h₂ : Synced env w₂ := hok₁.invariant
    (fun t u u' hu hcond hexec => hu.updatePivot hexecutor hcond hexec) h₁ hupdates
  exact (hok₂ w₂ hupdates).invariant
    (fun t u u' hu hcond hexec => hu.deletePivot hexecutor hcond hexec) h₂ hremoved

end Pivots

/-! ## The relations that only assign to objects -/

section Assignments

variable (env : Env engine.Db Members)

/-- Synced snapshots stay synced. -/
def KeepsSynced (w w' : World engine.Db Members) : Prop := Synced env w → Synced env w'

instance : IsPreorder (World engine.Db Members) (KeepsSynced env) where
  refl _ := id
  trans _ _ _ huv hvw h := hvw (huv h)

theorem setColumn_keepsSynced (key : Key) (column : Name) (value : Value) :
    Preserves (KeepsSynced env) (setColumn key column value) := fun _ h => h.congr rfl rfl

theorem assignMember_keepsSynced (key : Key) (member : Member) (value : Value) :
    Preserves (KeepsSynced env) (assignMember key member value) := by
  unfold assignMember
  split
  · exact setColumn_keepsSynced env key _ _
  · exact .throw _

theorem clearNullableMember_keepsSynced (key : Key) (member : Member) (relationName : String) :
    Preserves (KeepsSynced env) (clearNullableMember key member relationName) :=
  .ite (fun _ => setColumn_keepsSynced env key _ _) fun _ => .throw _

theorem throwIf_keepsSynced (condition : Bool) (text : String) :
    Preserves (KeepsSynced env) (throwIf condition text) := .ite (fun _ => .throw _) fun _ => .pure _

/-- Programs that only read the session. -/
theorem read_keepsSynced {α : Type} {p : SessionM engine.Db Members α}
    (h : ∀ w, (exec p w).2 = w) : Preserves (KeepsSynced env) p := .of_refl h

theorem remove_keepsSynced (key : Key) :
    Preserves (KeepsSynced env) (Session.remove key : SessionM engine.Db Members Unit) :=
  fun _ h => h.remove rfl

theorem flushBelongsTo_keepsSynced (r : BelongsTo) (root : Key) :
    Preserves (KeepsSynced env) (flushBelongsTo env r root) := by
  refine (read_keepsSynced env fun _ => rfl).bind fun m => .ite (fun _ => ?_) fun _ => .pure _
  split
  · exact (read_keepsSynced env fun _ => rfl).bind fun key =>
      (throwIf_keepsSynced env _ _).bind fun _ => assignMember_keepsSynced env root _ _
  · exact .ite (fun _ => clearNullableMember_keepsSynced env root _ _) fun _ => .pure _

theorem linkMorph_keepsSynced (r : MorphTargets) (kind : String) (rootKey : Value) (target : Key) :
    Preserves (KeepsSynced env) (linkMorph r kind rootKey target) :=
  (read_keepsSynced env fun _ => rfl).bind fun _ => (throwIf_keepsSynced env _ _).bind fun _ =>
    (assignMember_keepsSynced env target _ _).bind fun _ => assignMember_keepsSynced env target _ _

theorem detachMorph_keepsSynced (r : MorphTargets) (kind : String) (target : Key) :
    Preserves (KeepsSynced env) (detachMorph r kind target) :=
  .ite (fun _ => remove_keepsSynced env target) fun _ =>
    (clearNullableMember_keepsSynced env target _ _).bind fun _ =>
      clearNullableMember_keepsSynced env target _ _

theorem flushMorphOne_keepsSynced (r : MorphTargets) (root : Key) :
    Preserves (KeepsSynced env) (flushMorphOne env r root) :=
  (read_keepsSynced env fun _ => rfl).bind fun _ => (read_keepsSynced env fun _ => rfl).bind fun _ =>
    (Preserves.forM fun target _ => (throwIf_keepsSynced env _ _).bind fun _ =>
      linkMorph_keepsSynced env r _ _ target).bind fun _ =>
    .forM fun target _ => detachMorph_keepsSynced env r _ target

theorem flushMorphMany_keepsSynced (r : MorphTargets) (root : Key) :
    Preserves (KeepsSynced env) (flushMorphMany env r root) :=
  (read_keepsSynced env fun _ => rfl).bind fun _ => (read_keepsSynced env fun _ => rfl).bind fun _ =>
    (throwIf_keepsSynced env _ _).bind fun _ =>
    (Preserves.forM fun target _ => linkMorph_keepsSynced env r _ _ target).bind fun _ =>
    .forM fun target _ => detachMorph_keepsSynced env r _ target

theorem linkMorphTo_keepsSynced (r : MorphTo) (root target : Key) :
    Preserves (KeepsSynced env) (linkMorphTo env r root target) :=
  (Preserves.forM fun _ _ => (read_keepsSynced env fun _ => rfl).bind fun _ =>
    (throwIf_keepsSynced env _ _).bind fun _ =>
    (assignMember_keepsSynced env root _ _).bind fun _ =>
      assignMember_keepsSynced env root _ _).bind fun _ => throwIf_keepsSynced env _ _

theorem flushMorphTo_keepsSynced (r : MorphTo) (root : Key) :
    Preserves (KeepsSynced env) (flushMorphTo env r root) := by
  refine (read_keepsSynced env fun _ => rfl).bind fun m => .ite (fun _ => ?_) fun _ => .pure _
  split
  · exact linkMorphTo_keepsSynced env r root _
  · exact (clearNullableMember_keepsSynced env root _ _).bind fun _ =>
      clearNullableMember_keepsSynced env root _ _

end Assignments

/-! ## The pipeline -/

section Pipeline

variable {env : Env engine.Db Members} {relationsOf : Key → List Relation}
  (hexecutor : env.executor.execute = engine.execute)
  (hschema : ∀ k, engine.primaryKeyOf (env.classOf k).table = (env.classOf k).primaryKey)
  {w w' : World engine.Db Members}

include hexecutor hschema

theorem Synced.flushRelation {root : Key} {relation : Relation} (h : Synced env w)
    (hok : RelationOk env root relation w)
    (hflush : exec (flushRelation env root relation) w = (.ok (), w')) : Synced env w' := by
  -- what a program preserves, read for one that returned
  have hkeeps : Preserves (KeepsSynced env) (RelationChange.flushRelation env root relation) →
      Synced env w' := fun hpreserves => by
    have hw := hpreserves w h
    rwa [hflush] at hw
  cases relation with
  | belongsTo r => exact hkeeps (flushBelongsTo_keepsSynced env r root)
  | hasOne r =>
    obtain ⟨w₁, hadded, hremoved⟩ := flushHasOne_ok hflush
    exact h.targets hexecutor hschema (fun _ _ _ hlink => (linkHasOne_ok hlink).2.2) hok hadded
      hremoved
  | hasMany r =>
    obtain ⟨_, w₁, hadded, hremoved⟩ := flushHasMany_ok hflush
    exact h.targets hexecutor hschema (fun _ _ _ hlink => linkHasMany_ok hlink) hok hadded hremoved
  | manyToMany r => exact h.flushManyToMany hexecutor hok hflush
  | morphOne r => exact hkeeps (flushMorphOne_keepsSynced env r root)
  | morphMany r => exact hkeeps (flushMorphMany_keepsSynced env r root)
  | morphTo r => exact hkeeps (flushMorphTo_keepsSynced env r root)

theorem processRelations_synced (h : Synced env w)
    (hok : Along (ProcessOk env relationsOf) (processKey (env.withRelations relationsOf))
      w.uow.keys w)
    (hprocess : exec (processRelations (env.withRelations relationsOf)) w = (.ok (), w')) :
    Synced env w' := by
  refine hok.invariant (fun key u u' hu hcond hexec => ?_) h
    (show exec (w.uow.keys.forM _) w = (.ok (), w') from hprocess)
  unfold processKey at hexec
  rw [exec_bind_ok (exec_get u)] at hexec
  split at hexec
  · rename_i htracked
    exact (hcond htracked).invariant (fun relation v v' hv hrelation hflush =>
      hv.flushRelation hexecutor hschema hrelation hflush) hu hexec
  · cases hexec
    exact hu

omit hexecutor hschema

variable (env) in
/-- What a flush should leave: the snapshot of every managed entity is its row, so
    that a column that differs from the row is seen as changed. -/
structure RecordsWritten (w : World engine.Db Members) : Prop where
  synced : Synced env w
  dirty : ∀ key original pk row, w.uow.tracked key = some ⟨.managed, original⟩ →
    original.lookup (env.classOf key).primaryKey = some pk →
    w.db.rows (env.classOf key).table pk = some row →
    ∀ name ∈ (env.classOf key).columns, name ≠ (env.classOf key).primaryKey →
      ¬((w.uow.heap key).columns name).Same (row name) →
      name ∈ changedColumns (env.classOf key) (w.uow.snapshot env.classOf key) original

theorem recordsWritten_iff : RecordsWritten env w ↔ Synced env w :=
  ⟨RecordsWritten.synced, fun h =>
    ⟨h, fun _ _ _ _ hmanaged hpk hrow _ hname hne => h.dirty hmanaged hpk hrow hname hne⟩⟩

include hexecutor hschema

/-- A flush records what it wrote when every step meets its condition, and only then
    as long as the updates keep the primary keys; so does the pipeline, when every
    step of the relation processor and of the second flush meets its condition too. -/
theorem flush_records (hhooks : ∀ phase k, AssignsOnly (env.runTableHook phase k))
    (hinv : w.uow.Inv) (hsynced : Synced env w) {w₁ : World engine.Db Members}
    (hflush : exec (flush (env.withRelations relationsOf)) w = (.ok (), w₁)) :
    (Along (FlushOk env) (flushKey env) w.uow.keys w → RecordsWritten env w₁) ∧
    (Along (KeyKept env) (flushKey env) w.uow.keys w → RecordsWritten env w₁ →
      Along (FlushOk env) (flushKey env) w.uow.keys w) ∧
    ∀ w₂ w₃, Along (FlushOk env) (flushKey env) w.uow.keys w →
      exec (processRelations (env.withRelations relationsOf)) w₁ = (.ok (), w₂) →
      Along (ProcessOk env relationsOf) (processKey (env.withRelations relationsOf))
        w₁.uow.keys w₁ →
      exec (flush (env.withRelations relationsOf)) w₂ = (.ok (), w₃) →
      Along (FlushOk env) (flushKey env) w₂.uow.keys w₂ → RecordsWritten env w₃ := by
  have hflush₁ : exec (flush env) w = (.ok (), w₁) := hflush
  simp only [recordsWritten_iff]
  refine ⟨fun hok => flush_synced hexecutor hschema hhooks hsynced hok hflush₁,
    fun hkept => (synced_flush hexecutor hschema hhooks hinv hsynced hkept hflush₁).mp, ?_⟩
  intro w₂ w₃ hok₁ hprocess hok₂ hflush₂ hok₃
  have h₁ := flush_synced hexecutor hschema hhooks hsynced hok₁ hflush₁
  have h₂ := processRelations_synced hexecutor hschema h₁ hok₂ hprocess
  exact flush_synced hexecutor hschema hhooks h₂ hok₃ hflush₂

end Pipeline

/-! ## A user that is renamed -/

/-- The columns of a user. -/
def userColumns (name : String) (column : Name) : Value :=
  if column = .ofAscii "id" then .int64 1 else .string (.ofAscii name)

/-- A server that stores one user. -/
def oneUser : Engine.single.Db where
  rows table pk :=
    if table = userClass.table ∧ pk = .int64 1 then some (userColumns "Ada") else none
  keyed table pk row h := by
    split at h
    · rename_i heq
      cases h
      exact ⟨by rw [heq.2]; rfl, by rw [heq.2]; decide⟩
    · cases h
  executed := []

/-- No relation member is set. -/
def noMembers : Members where
  references _ := ⟨none, none⟩
  collections _ := ⟨[], []⟩
  pivotPatches _ _ := none
  bound := true

/-- The user was loaded, and then renamed in memory. -/
def renamedUser : World Engine.single.Db Members :=
  { World.initial (fun _ => ⟨userColumns "Grace", noMembers⟩) oneUser with
    uow :=
      { UowState.initial (fun _ => ⟨userColumns "Grace", noMembers⟩) with
        tracked := fun key =>
          if key = 7 then some ⟨.managed, userClass.snapshotOf (userColumns "Ada")⟩ else none
        trackedOrder := [7] } }

/-- A session over users, with this `before_update` hook. -/
def userSession (beforeUpdate : Key → SessionM Engine.single.Db Members Unit) :
    Env Engine.single.Db Members :=
  { Env.quiet (fun _ => userClass) Engine.single.executor with
    runTableHook := fun phase key =>
      match phase with
      | .beforeUpdate => beforeUpdate key
      | _ => pure () }

/-- A hook that changes the name of its user once more. -/
def renameAgain (key : Key) : SessionM Engine.single.Db Members Unit :=
  SessionM.assign key fun columns =>
    Function.update columns (.ofAscii "name") (.string (.ofAscii "Edith"))

theorem managed_renamedUser {key : Key} {original : Snapshot}
    (h : renamedUser.uow.tracked key = some ⟨.managed, original⟩) :
    key = 7 ∧ original = userClass.snapshotOf (userColumns "Ada") := by
  by_cases hkey : key = 7
  · subst hkey
    cases h
    exact ⟨rfl, rfl⟩
  · simp [renamedUser, hkey] at h

theorem inv_renamedUser : renamedUser.uow.Inv where
  order_nodup := by simp [renamedUser]
  mem_order key := by by_cases hkey : key = 7 <;> simp [renamedUser, hkey]
  wellFormed := by simp [renamedUser, UowState.initial]
  covered := by simp [renamedUser, UowState.initial]
  nested := List.Pairwise.nil

theorem synced_renamedUser (beforeUpdate : Key → SessionM Engine.single.Db Members Unit) :
    Synced (userSession beforeUpdate) renamedUser where
  recorded key original h := by
    obtain ⟨rfl, rfl⟩ := managed_renamedUser h
    refine ⟨.int64 1, userColumns "Ada", rfl, rfl, fun name hname => ?_⟩
    have hname' : name ∈ userClass.columns := hname
    exact ⟨userColumns "Ada" name, by simp [hname'], .refl _⟩
  distinct k₁ k₂ o₁ o₂ h₁ h₂ _ := by rw [(managed_renamedUser h₁).1, (managed_renamedUser h₂).1]

/-- A hook that leaves the user alone: the flush stores the new name and records it. -/
theorem flush_records_renamed :
    let env := userSession fun _ => pure ()
    RecordsWritten env (exec (flush (env.withRelations fun _ => [])) renamedUser).2 := by
  intro env
  have hquiet : ∀ phase k (w : World Engine.single.Db Members),
      exec (env.runTableHook phase k) w = (.ok (), w) := fun phase _ _ => by cases phase <;> rfl
  have hhooks : ∀ phase k, AssignsOnly (env.runTableHook phase k) := fun phase k w => by
    rw [hquiet]
    exact ⟨rfl, w.uow.heap, rfl⟩
  have hreturns : (exec (flush (env.withRelations fun _ => [])) renamedUser).1 = .ok () := rfl
  refine (flush_records rfl (fun _ => rfl) hhooks inv_renamedUser (synced_renamedUser _)
    (Prod.ext hreturns rfl)).1 ⟨⟨?_, ?_, ?_⟩, fun _ _ => trivial⟩
  · intro original v h _ hhook
    obtain ⟨_, rfl⟩ := managed_renamedUser h
    rw [hquiet] at hhook
    cases hhook
    rfl
  · intro original v _ _ hhook name _ _
    rw [hquiet] at hhook
    cases hhook
    exact .refl _
  · intro original v h
    cases h

/-- A hook that renames its own user: the flush stores the name from before the hook,
    and records the name from after it. -/
theorem not_flush_records :
    ¬∀ (env : Env Engine.single.Db Members) (w w' : World Engine.single.Db Members),
      env.executor.execute = Engine.single.execute →
      (∀ k, Engine.single.primaryKeyOf (env.classOf k).table = (env.classOf k).primaryKey) →
      (∀ phase k, AssignsOnly (env.runTableHook phase k)) → w.uow.Inv → Synced env w →
      exec (flush env) w = (.ok (), w') → RecordsWritten env w' := by
  intro hclaim
  have hhooks : ∀ phase k, AssignsOnly ((userSession renameAgain).runTableHook phase k) :=
    fun phase k w => by
      cases phase with
      | beforeUpdate => exact ⟨rfl, _, rfl⟩
      | _ => exact ⟨rfl, w.uow.heap, rfl⟩
  have hreturns : (exec (flush (userSession renameAgain)) renamedUser).1 = .ok () := rfl
  have hrecords := hclaim _ _ _ rfl (fun _ => rfl) hhooks inv_renamedUser (synced_renamedUser _)
    (Prod.ext hreturns rfl)
  obtain ⟨pk, row, hpk, hrow, hsame⟩ := hrecords.synced.recorded 7
    (userClass.snapshotOf (Function.update (userColumns "Grace") (.ofAscii "name")
      (.string (.ofAscii "Edith")))) rfl
  cases hpk
  obtain ⟨value, hvalue, hstored⟩ := hsame (.ofAscii "name") (by decide)
  have hname : row (.ofAscii "name") = .string (.ofAscii "Grace") := by
    have hstoredName := congrArg (Option.map fun r : Name → Value => r (.ofAscii "name")) hrow
    exact (Option.some.inj hstoredName).symm
  cases hvalue
  rw [hname] at hstored
  exact absurd hstored (by decide)

end MetalOrm.Native
