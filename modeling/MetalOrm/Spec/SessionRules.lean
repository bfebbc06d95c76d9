import MetalOrm.Native.Session

/-!
# Rules for session programs

What the functions of a session are made of: unit steps (`UnitStep`), changes of
the identity map, of the connection, and callbacks. A preorder on worlds that
admits the first three (`Admits`) holds across `flush`, `persist`,
`flushPipeline`, … as soon as it holds across the callbacks.

## Key results

- `flush_preserves`: `UnitOfWork::flush` preserves what its hooks preserve
- `track_preserves`, `persist_preserves`, `remove_preserves`
- `flushPipeline_preserves`: the pipeline preserves what its callbacks preserve
-/

namespace MetalOrm.Native

open ForStd ForStd.Prog

variable {D R α : Type}

/-- One change of a unit of work that opens, commits and rolls back no checkpoint. -/
inductive UnitStep (classOf : Key → EntityClass) (s : UowState R) : UowState R → Prop where
  | track (key : Key) (tracked : TrackedEntity) : UnitStep classOf s (s.track classOf key tracked)
  | erase (key : Key) : UnitStep classOf s (s.erase key)
  /-- A change of the status or of the original snapshot of an entry. -/
  | updateTracked (key : Key) (f : TrackedEntity → TrackedEntity) :
      UnitStep classOf s (s.updateTracked key f)
  /-- A change of the columns or of the runtime members of an object. -/
  | setObject (key : Key) (object : Entity R) :
      UnitStep classOf s { s with heap := Function.update s.heap key object }

/-- The changes of a world that `P` holds across. -/
structure Admits (classOf : Key → EntityClass) (P : World D R → World D R → Prop) : Prop where
  unit : ∀ w t, UnitStep classOf w.uow t → P w { w with uow := t }
  identity : ∀ w identity, P w { w with identity := identity }
  db : ∀ w db, P w { w with db := db }

/-- The changes that flushing one key makes, its hooks apart. -/
structure FlushAdmits (env : Env D R) (key : Key) (P : World D R → World D R → Prop) : Prop where
  execute : ∀ statement w, statement.table = (env.classOf key).table →
    P w { w with db := (env.executor.execute statement w.db).2 }
  assign : ∀ f w, P w (exec (SessionM.assign key f) w).2
  updateTracked : ∀ f w, P w { w with uow := w.uow.updateTracked key f }
  erase : ∀ w, P w { w with uow := w.uow.erase key }
  identity : ∀ w identity, P w { w with identity := identity }

theorem Admits.flush {env : Env D R} {P : World D R → World D R → Prop}
    (h : Admits env.classOf P) (key : Key) : FlushAdmits env key P where
  execute _ w _ := h.db w _
  assign _ w := h.unit w _ (.setObject key _)
  updateTracked f w := h.unit w _ (.updateTracked key f)
  erase w := h.unit w _ (.erase key)
  identity := h.identity

/-- A relation on worlds that only looks at the unit of work. -/
def OnUow (P : UowState R → UowState R → Prop) (w w' : World D R) : Prop := P w.uow w'.uow

instance (P : UowState R → UowState R → Prop) [IsPreorder _ P] :
    IsPreorder (World D R) (OnUow P) where
  refl w := refl_of P w.uow
  trans _ _ _ := trans_of P

theorem admits_onUow {classOf : Key → EntityClass} {P : UowState R → UowState R → Prop}
    [IsPreorder _ P] (hunit : ∀ s t, UnitStep classOf s t → P s t) :
    Admits classOf (OnUow P : World D R → World D R → Prop) where
  unit w t := hunit w.uow t
  identity w _ := refl_of P w.uow
  db w _ := refl_of P w.uow

/-- The code that a session calls back. -/
inductive Env.Callback (env : Env D R) : SessionM D R Unit → Prop where
  | hook (phase : TableHookPhase) (key : Key) : Callback env (env.runTableHook phase key)
  | prepareRelations (key : Key) : Callback env (env.prepareRelations key)
  | flushRelations (key : Key) : Callback env (env.flushRelations key)
  | dispatchDomainEvents (key : Key) : Callback env (env.dispatchDomainEvents key)
  | beforeFlush (i : Interceptor D R) : i ∈ env.interceptors → Callback env i.beforeFlush
  | afterFlush (i : Interceptor D R) : i ∈ env.interceptors → Callback env i.afterFlush

/-- A session without callbacks. -/
def Env.quiet (classOf : Key → EntityClass) (executor : Executor D) : Env D R where
  classOf := classOf
  executor := executor
  generatedKeyRetrieval := .lastInsertId
  valueKey _ := []
  bindRelations _ := id
  runTableHook _ _ := pure ()
  prepareRelations _ := pure ()
  flushRelations _ := pure ()
  acceptRelations _ := id
  dispatchDomainEvents _ := pure ()
  interceptors := []
  prepareBound := 1

theorem Env.quiet_callback {classOf : Key → EntityClass} {executor : Executor D}
    {p : SessionM D R Unit} (h : (Env.quiet classOf executor).Callback p) : p = pure () := by
  cases h with
  | beforeFlush i hi => cases hi
  | afterFlush i hi => cases hi
  | _ => rfl

namespace Session

open SessionM

section Preserves

variable (env : Env D R) {P : World D R → World D R → Prop} [IsPreorder _ P]

/-! ### Programs that leave the world alone -/

theorem snapshot_preserves (key : Key) : Preserves P (snapshot env key) := .of_refl fun _ => rfl

theorem getPk_preserves (key : Key) : Preserves P (getPk env key) := .of_refl fun _ => rfl

theorem getColumns_preserves (key : Key) : Preserves P (getColumns key : SessionM D R _) :=
  .of_refl fun _ => rfl

/-- A statement only changes the connection. -/
theorem exec_execute (statement : Statement) (w : World D R) :
    exec (execute env statement) w =
      ((env.executor.execute statement w.db).1,
        { w with db := (env.executor.execute statement w.db).2 }) := by
  unfold execute
  rw [exec_bind_ok (exec_get w)]
  rcases env.executor.execute statement w.db with ⟨_ | _, db⟩ <;> rfl

/-! ### Programs made of unit steps -/

variable (admits : Admits env.classOf P)

include admits

omit [IsPreorder _ P] in
theorem modifyUow_preserves {f : UowState R → UowState R}
    (h : ∀ s, UnitStep env.classOf s (f s)) :
    Preserves P (modifyUow f : SessionM D R Unit) := fun w => admits.unit w _ (h w.uow)

omit [IsPreorder _ P] in
theorem execute_preserves (statement : Statement) : Preserves P (execute env statement) := by
  intro w
  rw [exec_execute]
  exact admits.db w _

omit admits in
theorem registerIdentity_preserves (hidentity : ∀ w identity, P w { w with identity := identity })
    (key : Key) : Preserves P (registerIdentity env key) :=
  (getPk_preserves env key).bind fun _ => .ite (fun _ w => hidentity w _) fun _ => .pure _

omit [IsPreorder _ P] in
theorem assignRuntime_preserves (key : Key) (f : R → R) :
    Preserves P (assignRuntime key f : SessionM D R Unit) :=
  modifyUow_preserves env admits fun _ => .setObject key _

theorem track_preserves (key : Key) (status : EntityStatus) :
    Preserves P (track env key status) :=
  (snapshot_preserves env key).bind fun current =>
    let original := if status = .new then [] else current
    (modifyUow_preserves env admits fun _ => .track key { status, original }).bind fun _ =>
    (assignRuntime_preserves env admits key (env.bindRelations key)).bind fun _ =>
    registerIdentity_preserves env admits.identity key

theorem persist_preserves (key : Key) : Preserves P (persist env key) := by
  refine Preserves.get.bind fun w => ?_
  split
  · exact .ite (fun _ => modifyUow_preserves env admits fun _ => .updateTracked key _)
      fun _ => .pure _
  · exact (getPk_preserves env key).bind fun _ => track_preserves env admits key _

omit [IsPreorder _ P] in
theorem remove_preserves (key : Key) : Preserves P (remove key : SessionM D R Unit) :=
  modifyUow_preserves env admits fun _ => .updateTracked key _

omit admits

/-! ### Flushing -/

section Flush

variable {key : Key} (flushes : FlushAdmits env key P)
  (hooks : ∀ phase key, Preserves P (env.runTableHook phase key))

include flushes

theorem assignGeneratedKey_preserves (needsKey : Bool) (result : QueryResult) :
    Preserves P (assignGeneratedKey env key needsKey result) := by
  unfold assignGeneratedKey
  apply Preserves.ite
  · intro _
    split
    · exact flushes.assign _
    · exact .throw _
  · exact fun _ => .pure _

include hooks

theorem flushInsert_preserves : Preserves P (flushInsert env key) := by
  have hexecute : ∀ columns, Preserves P
      (execute env (insertStatement env (env.classOf key) columns)) := fun columns w => by
    rw [exec_execute]
    exact flushes.execute _ w rfl
  exact (hooks .beforeInsert key).bind fun _ => (getColumns_preserves key).bind fun columns =>
    (hexecute columns).bind fun _ => (assignGeneratedKey_preserves env flushes _ _).bind fun _ =>
    Preserves.bind (fun w => flushes.updateTracked _ w) fun _ =>
    (registerIdentity_preserves env flushes.identity key).bind fun _ => hooks .afterInsert key

theorem flushUpdateIfDirty_preserves (tracked : TrackedEntity) :
    Preserves P (flushUpdateIfDirty env key tracked) := by
  have hexecute : ∀ current pk, Preserves P
      (execute env (updateStatement (env.classOf key) current tracked.original pk)) :=
    fun current pk w => by
      rw [exec_execute]
      exact flushes.execute _ w rfl
  exact (snapshot_preserves env key).bind fun current => .ite (fun _ => .pure _) fun _ =>
    (hooks .beforeUpdate key).bind fun _ => (getPk_preserves env key).bind fun pk =>
    (hexecute current pk).bind fun _ =>
    Preserves.bind (fun w => flushes.updateTracked _ w) fun _ => hooks .afterUpdate key

theorem flushDelete_preserves : Preserves P (flushDelete env key) := by
  have hexecute : ∀ pk, Preserves P (execute env
      (.delete (env.classOf key).table [((env.classOf key).primaryKey, pk)])) := fun pk w => by
    rw [exec_execute]
    exact flushes.execute _ w rfl
  exact (hooks .beforeDelete key).bind fun _ => (getPk_preserves env key).bind fun pk =>
    (hexecute pk).bind fun _ => Preserves.bind (fun w => flushes.identity w _) fun _ =>
    Preserves.bind (fun w => flushes.erase w) fun _ => hooks .afterDelete key

theorem flushKey_preserves : Preserves P (flushKey env key) := by
  refine Preserves.get.bind fun w => ?_
  split
  · exact .pure _
  · split
    · exact flushInsert_preserves env flushes hooks
    · exact flushUpdateIfDirty_preserves env flushes hooks _
    · exact flushDelete_preserves env flushes hooks
    · exact .pure _

end Flush

theorem flush_preserves (flushes : ∀ key, FlushAdmits env key P)
    (hooks : ∀ phase key, Preserves P (env.runTableHook phase key)) : Preserves P (flush env) :=
  Preserves.get.bind fun _ => .forM fun key _ => flushKey_preserves env (flushes key) hooks

/-! ### The flush pipeline -/

/-- The loops over the tracked keys that skip a key no longer tracked. -/
theorem forM_keys_preserves {f : Key → SessionM D R Unit} (hf : ∀ key, Preserves P (f key))
    (keys : List Key) :
    Preserves P (keys.forM fun key => do
      if ((← get).uow.tracked key).isSome then f key) :=
  .forM fun key _ => Preserves.get.bind fun _ => .ite (fun _ => hf key) fun _ => .pure _

theorem prepareRound_preserves (hprepare : ∀ key, Preserves P (env.prepareRelations key))
    (keys prepared : List Key) : Preserves P (prepareRound env keys prepared) := by
  induction keys generalizing prepared with
  | nil => exact .pure _
  | cons key rest ih =>
    exact Preserves.get.bind fun _ => .ite (fun _ => ih prepared)
      fun _ => (hprepare key).bind fun _ => ih _

theorem prepareRounds_preserves (hprepare : ∀ key, Preserves P (env.prepareRelations key))
    (rounds : Nat) (prepared : List Key) : Preserves P (prepareRounds env rounds prepared) := by
  induction rounds generalizing prepared with
  | zero => exact Preserves.get.bind fun _ => .ite (fun _ => .throw _) fun _ => .pure _
  | succ rounds ih =>
    exact Preserves.get.bind fun _ => .ite
      (fun _ => (prepareRound_preserves env hprepare _ _).bind fun prepared' =>
        .ite (fun _ => .pure _) fun _ => ih prepared')
      fun _ => .pure _

variable (callbacks : ∀ p, env.Callback p → Preserves P p)

include callbacks

theorem processRelations_preserves : Preserves P (processRelations env) :=
  Preserves.get.bind fun _ =>
    forM_keys_preserves (fun key => callbacks _ (.flushRelations key)) _

theorem dispatchDomainEvents_preserves : Preserves P (dispatchDomainEvents env) :=
  Preserves.get.bind fun _ =>
    forM_keys_preserves (fun key => callbacks _ (.dispatchDomainEvents key)) _

include admits

theorem flushPipeline_preserves : Preserves P (flushPipeline env) := by
  have hflush := flush_preserves env admits.flush fun phase key => callbacks _ (.hook phase key)
  exact
    (Preserves.forM fun i hi => callbacks _ (.beforeFlush i hi)).bind fun _ =>
    (prepareRounds_preserves env (fun key => callbacks _ (.prepareRelations key)) _ _).bind fun _ =>
    hflush.bind fun _ => (processRelations_preserves env callbacks).bind fun _ =>
    hflush.bind fun _ => .forM fun i hi => callbacks _ (.afterFlush i hi)

omit callbacks

theorem acceptRelations_preserves : Preserves P (acceptRelations env) :=
  Preserves.get.bind fun _ =>
    forM_keys_preserves (fun key => assignRuntime_preserves env admits key _) _

end Preserves

/-! ### What a flush that returned did -/

section Returned

variable {env : Env D R} {key : Key} {w w' : World D R}

/-- The columns of an object after the generated key, if any, was assigned. -/
def InsertedColumns (env : Env D R) (cls : EntityClass) (result : QueryResult)
    (before after : Name → Value) : Prop :=
  if needsGeneratedKey cls (before cls.primaryKey) then
    ∃ value, generatedKey env cls.primaryKey result = .ok value ∧
      after = Function.update before cls.primaryKey value
  else after = before

theorem InsertedColumns.of_ne {cls : EntityClass} {result : QueryResult}
    {before after : Name → Value} (h : InsertedColumns env cls result before after) {name : Name}
    (hname : name ≠ cls.primaryKey) : after name = before name := by
  unfold InsertedColumns at h
  split at h
  · obtain ⟨value, _, rfl⟩ := h
    exact Function.update_of_ne hname _ _
  · rw [h]

theorem exec_modifyUow (f : UowState R → UowState R) (w : World D R) :
    exec (SessionM.modifyUow f : SessionM D R Unit) w = (.ok (), { w with uow := f w.uow }) := rfl

theorem exec_registerIdentity (env : Env D R) (key : Key) (w : World D R) :
    ∃ identity, exec (registerIdentity env key) w = (.ok (), { w with identity := identity }) := by
  unfold registerIdentity getPk
  rw [exec_bind_ok (by rfl)]
  split
  · exact ⟨_, rfl⟩
  · exact ⟨w.identity, rfl⟩

theorem assignGeneratedKey_ok {result : QueryResult} {before : Name → Value}
    (hbefore : (w.uow.heap key).columns = before)
    (h : exec (assignGeneratedKey env key
      (needsGeneratedKey (env.classOf key) (before (env.classOf key).primaryKey)) result) w =
        (.ok (), w')) :
    ∃ columns, InsertedColumns env (env.classOf key) result before columns ∧
      w' = { w with uow := w.uow.setColumns key columns } := by
  subst hbefore
  unfold assignGeneratedKey at h
  unfold InsertedColumns
  split at h
  · rename_i hneeds
    split at h
    · rename_i value hvalue
      cases h
      exact ⟨_, by rw [if_pos hneeds]; exact ⟨value, hvalue, rfl⟩, rfl⟩
    · cases h
  · rename_i hneeds
    cases h
    exact ⟨(w.uow.heap key).columns, by rw [if_neg hneeds], by simp [UowState.setColumns]⟩

theorem execute_ok {statement : Statement} {result : QueryResult}
    (h : exec (execute env statement) w = (.ok result, w')) :
    ∃ db, env.executor.execute statement w.db = (.ok result, db) ∧ w' = { w with db := db } := by
  rw [exec_execute, Prod.mk.injEq] at h
  exact ⟨_, Prod.ext h.1 rfl, h.2.symm⟩

/-- Registering an identity only changes the identity map. -/
theorem registerIdentity_ok {α : Type} {p : SessionM D R α} {r : Except Exn α}
    (h : exec (registerIdentity env key >>= fun _ => p) w = (r, w')) :
    ∃ identity, exec p { w with identity := identity } = (r, w') := by
  obtain ⟨identity, hidentity⟩ := exec_registerIdentity env key w
  rw [exec_bind_ok hidentity] at h
  exact ⟨identity, h⟩

theorem flushInsert_ok (h : exec (flushInsert env key) w = (.ok (), w')) :
    ∃ v result db identity columns,
      exec (env.runTableHook .beforeInsert key) w = (.ok (), v) ∧
      env.executor.execute (insertStatement env (env.classOf key) (v.uow.heap key).columns) v.db =
        (.ok result, db) ∧
      InsertedColumns env (env.classOf key) result (v.uow.heap key).columns columns ∧
      exec (env.runTableHook .afterInsert key)
        { v with uow := (v.uow.setColumns key columns).updateTracked key fun _ =>
                   ⟨.managed, (env.classOf key).snapshotOf columns⟩
                 identity := identity, db := db } = (.ok (), w') := by
  unfold flushInsert at h
  obtain ⟨_, v, hbefore, h⟩ := exec_bind_eq_ok.mp h
  obtain ⟨_, _, hcolumns, h⟩ := exec_bind_eq_ok.mp h
  cases hcolumns
  obtain ⟨result, _, hexecute, h⟩ := exec_bind_eq_ok.mp h
  obtain ⟨db, hresult, rfl⟩ := execute_ok hexecute
  obtain ⟨_, _, hassign, h⟩ := exec_bind_eq_ok.mp h
  obtain ⟨columns, hinserted, rfl⟩ := assignGeneratedKey_ok (by rfl) hassign
  obtain ⟨_, _, hmodify, h⟩ := exec_bind_eq_ok.mp h
  cases hmodify
  obtain ⟨identity, hafter⟩ := registerIdentity_ok h
  refine ⟨v, result, db, identity, columns, hbefore, hresult, hinserted, ?_⟩
  have hsnapshot : (v.uow.setColumns key columns).snapshot env.classOf key =
      (env.classOf key).snapshotOf columns := by
    simp [UowState.snapshot, UowState.setColumns]
  rw [← hsnapshot]
  exact hafter

theorem flushUpdateIfDirty_ok {tracked : TrackedEntity}
    (h : exec (flushUpdateIfDirty env key tracked) w = (.ok (), w')) :
    (changedColumns (env.classOf key) (w.uow.snapshot env.classOf key) tracked.original = [] ∧
      w' = w) ∨
    ∃ v result db,
      changedColumns (env.classOf key) (w.uow.snapshot env.classOf key) tracked.original ≠ [] ∧
      exec (env.runTableHook .beforeUpdate key) w = (.ok (), v) ∧
      env.executor.execute (updateStatement (env.classOf key) (w.uow.snapshot env.classOf key)
        tracked.original ((v.uow.heap key).columns (env.classOf key).primaryKey)) v.db =
        (.ok result, db) ∧
      exec (env.runTableHook .afterUpdate key)
        { v with uow := v.uow.refreshSnapshot env.classOf key, db := db } = (.ok (), w') := by
  unfold flushUpdateIfDirty at h
  obtain ⟨_, _, hsnapshot, h⟩ := exec_bind_eq_ok.mp h
  cases hsnapshot
  split at h
  · rename_i hclean
    cases h
    exact .inl ⟨List.isEmpty_iff.mp hclean, rfl⟩
  · rename_i hdirty
    obtain ⟨_, v, hbefore, h⟩ := exec_bind_eq_ok.mp h
    obtain ⟨_, _, hpk, h⟩ := exec_bind_eq_ok.mp h
    cases hpk
    obtain ⟨result, _, hexecute, h⟩ := exec_bind_eq_ok.mp h
    obtain ⟨db, hresult, rfl⟩ := execute_ok hexecute
    obtain ⟨_, _, hmodify, hafter⟩ := exec_bind_eq_ok.mp h
    cases hmodify
    exact .inr ⟨v, result, db, fun hnil => hdirty (List.isEmpty_iff.mpr hnil), hbefore, hresult,
      hafter⟩

theorem flushDelete_ok (h : exec (flushDelete env key) w = (.ok (), w')) :
    ∃ v result db identity,
      exec (env.runTableHook .beforeDelete key) w = (.ok (), v) ∧
      env.executor.execute (.delete (env.classOf key).table [((env.classOf key).primaryKey,
        (v.uow.heap key).columns (env.classOf key).primaryKey)]) v.db = (.ok result, db) ∧
      exec (env.runTableHook .afterDelete key)
        { v with uow := v.uow.erase key, identity := identity, db := db } = (.ok (), w') := by
  unfold flushDelete at h
  obtain ⟨_, v, hbefore, h⟩ := exec_bind_eq_ok.mp h
  obtain ⟨_, _, hpk, h⟩ := exec_bind_eq_ok.mp h
  cases hpk
  obtain ⟨result, _, hexecute, h⟩ := exec_bind_eq_ok.mp h
  obtain ⟨db, hresult, rfl⟩ := execute_ok hexecute
  obtain ⟨_, _, herase, h⟩ := exec_bind_eq_ok.mp h
  cases herase
  obtain ⟨_, _, hmodify, hafter⟩ := exec_bind_eq_ok.mp h
  cases hmodify
  exact ⟨v, result, db, _, hbefore, hresult, hafter⟩

end Returned

end Session

end MetalOrm.Native
