import MetalOrm.Native.UnitOfWork
import MetalOrm.ForStd.Decimal
import MetalOrm.ForStd.Program
import Mathlib.Data.List.Sort

/-!
# Session: flush and transactions

`metal/orm.hpp` (`Session`) and the database side of `metal/unit_of_work.hpp`
(`flush`). A session action is a `SessionM` program: it may throw (`Exn`), and
like in C++ everything done before the throw stays done.

`Env` holds what is fixed for a session: the executor, the dialect's way to
retrieve generated keys, the classes of the objects, and the closures that
`Session::track` installs (hooks, relation callbacks, event dispatch).
-/

namespace MetalOrm.Native

/-- The DML the runtime emits. `wheres` are `where_eq` predicates, joined by AND. -/
inductive Statement where
  | insert (table : Name) (values : List (Name × Value)) (returning : List Name)
  | update (table : Name) (assignments wheres : List (Name × Value))
  | delete (table : Name) (wheres : List (Name × Value))
deriving DecidableEq

/-- The table of a statement. -/
def Statement.table : Statement → Name
  | .insert table _ _ => table
  | .update table _ _ => table
  | .delete table _ => table

/-- `DbExecutor` over a connection state of type `D`. Every call may throw, and
    may have changed the connection when it does. -/
structure Executor (D : Type) where
  transactions : Bool
  savepoints : Bool
  execute : Statement → D → Except Exn QueryResult × D
  beginTransaction : D → Except Exn Unit × D
  commitTransaction : D → Except Exn Unit × D
  rollbackTransaction : D → Except Exn Unit × D
  savepoint : List UInt8 → D → Except Exn Unit × D
  releaseSavepoint : List UInt8 → D → Except Exn Unit × D
  rollbackToSavepoint : List UInt8 → D → Except Exn Unit × D

/-- `GeneratedKeyRetrieval` of the dialect. -/
inductive GeneratedKeyRetrieval where
  | lastInsertId
  | returning
deriving DecidableEq

/-- A transaction call that reached the executor, and whether it returned. -/
inductive Call where
  | begin (ok : Bool)
  | commit (ok : Bool)
  | rollback (ok : Bool)
  | savepoint (name : List UInt8) (ok : Bool)
  | release (name : List UInt8) (ok : Bool)
  | rollbackTo (name : List UInt8) (ok : Bool)
deriving DecidableEq

/-- The state of a `Session`, of its unit of work and of its connection. `calls`
    is not in the source: it is the log of the transaction calls made so far. -/
structure World (D R : Type) where
  uow : UowState R
  identity : Nat → List UInt8 → Option Key
  transactionDepth : Nat
  savepointCounter : Nat
  rollbackOnly : Bool
  db : D
  calls : List Call

/-- A session that has just been constructed. -/
def World.initial {D R : Type} (heap : Key → Entity R) (db : D) : World D R where
  uow := .initial heap
  identity := fun _ _ => none
  transactionDepth := 0
  savepointCounter := 0
  rollbackOnly := false
  db := db
  calls := []

/-- A program that runs against a session. -/
abbrev SessionM (D R : Type) := ForStd.Prog Exn (World D R)

/-- `Session::TableHookPhase`. -/
inductive TableHookPhase where
  | beforeInsert
  | afterInsert
  | beforeUpdate
  | afterUpdate
  | beforeDelete
  | afterDelete

/-- `SessionInterceptor`. -/
structure Interceptor (D R : Type) where
  beforeFlush : SessionM D R Unit
  afterFlush : SessionM D R Unit

/-- What is fixed for a session; the closures take the key of their object. -/
structure Env (D R : Type) where
  classOf : Key → EntityClass
  executor : Executor D
  generatedKeyRetrieval : GeneratedKeyRetrieval
  valueKey : Value → List UInt8
  bindRelations : Key → R → R
  runTableHook : TableHookPhase → Key → SessionM D R Unit
  prepareRelations : Key → SessionM D R Unit
  flushRelations : Key → SessionM D R Unit
  acceptRelations : Key → R → R
  dispatchDomainEvents : Key → SessionM D R Unit
  interceptors : List (Interceptor D R)
  prepareBound : Nat

variable {D R α : Type}

namespace SessionM

/-- Change the unit of work (and the objects). -/
def modifyUow (f : UowState R → UowState R) : SessionM D R Unit :=
  modify fun w => { w with uow := f w.uow }

/-- Change the mapped columns of one object. -/
def assign (key : Key) (f : (Name → Value) → Name → Value) : SessionM D R Unit :=
  modifyUow fun s => s.setColumns key (f (s.heap key).columns)

/-- Change the runtime members of one object. -/
def assignRuntime (key : Key) (f : R → R) : SessionM D R Unit :=
  modifyUow fun s => s.setRuntime key (f (s.heap key).runtime)

/-- A transaction call of the executor, entered in the log. -/
def transactionCall (call : Bool → Call) (run : D → Except Exn Unit × D) : SessionM D R Unit := do
  let w ← get
  match run w.db with
  | (.ok (), db) => set { w with db := db, calls := w.calls ++ [call true] }
  | (.error e, db) =>
    set { w with db := db, calls := w.calls ++ [call false] }
    throw e

end SessionM

namespace Session

open SessionM

variable (env : Env D R)

/-- `executor_.execute(compiled.sql, compiled.params)`. -/
def execute (statement : Statement) : SessionM D R QueryResult := do
  let w ← get
  let (result, db) := env.executor.execute statement w.db
  set { w with db := db }
  match result with
  | .ok rows => return rows
  | .error e => throw e

/-- The mapped columns of an object. -/
def getColumns (key : Key) : SessionM D R (Name → Value) :=
  return ((← get).uow.heap key).columns

/-- `tracked.snapshot()`. -/
def snapshot (key : Key) : SessionM D R Snapshot := return (← get).uow.snapshot env.classOf key

/-- `tracked.get_pk()`. -/
def getPk (key : Key) : SessionM D R Value :=
  return ((← get).uow.heap key).columns (env.classOf key).primaryKey

/-- `tracked.set_pk(value)`. -/
def setPk (key : Key) (value : Value) : SessionM D R Unit :=
  assign key fun columns => Function.update columns (env.classOf key).primaryKey value

/-- `tracked.register_identity()`. -/
def registerIdentity (key : Key) : SessionM D R Unit := do
  let pk ← getPk env key
  if (env.classOf key).hasIdentityKey pk then
    modify fun w => { w with
      identity := Function.update w.identity (env.classOf key).type
        (Function.update (w.identity (env.classOf key).type) (env.valueKey pk) (some key)) }

/-- `tracked.erase_identity(pk)`. -/
def eraseIdentity (key : Key) (pk : Value) : SessionM D R Unit :=
  modify fun w => { w with
    identity := Function.update w.identity (env.classOf key).type
      (Function.update (w.identity (env.classOf key).type) (env.valueKey pk) none) }

/-! ### Flushing -/

/-- Column names in the order `std::sort` puts them. -/
def sortNames (names : List Name) : List Name :=
  names.insertionSort fun a b => a.le b = true

/-- `{name, current.at(name)}` for each of `names`. -/
def assignmentsOf (current : Snapshot) (names : List Name) : List (Name × Value) :=
  names.map fun name => (name, (current.lookup name).getD .null)

/-- `needs_generated_key`, for an entity with this primary key. -/
def needsGeneratedKey (cls : EntityClass) (pk : Value) : Bool :=
  cls.generatedPk && pk.isEmptyGenerated

/-- The INSERT for an object with these columns. -/
def insertStatement (cls : EntityClass) (columns : Name → Value) : Statement :=
  let current := cls.snapshotOf columns
  let needsKey := needsGeneratedKey cls (columns cls.primaryKey)
  let names := sortNames
    ((current.map (·.1)).filter fun name => !(name == cls.primaryKey && needsKey))
  let returning :=
    if needsKey && env.generatedKeyRetrieval = .returning then [cls.primaryKey] else []
  .insert cls.table (assignmentsOf current names) returning

/-- Read the generated key out of the result of an INSERT. -/
def generatedKey (primaryKey : Name) (result : QueryResult) : Except Exn Value :=
  match env.generatedKeyRetrieval with
  | .lastInsertId => .ok (.int64 result.lastInsertId)
  | .returning =>
    match result.rows with
    | [] =>
      .error (.ofText "MetalORM: INSERT RETURNING did not return the generated primary key")
    | row :: _ =>
      match row.lookup primaryKey with
      | some value => .ok value
      | none => .error ⟨ByteString.ascii
          "MetalORM: INSERT RETURNING result is missing generated primary key '" ++
          primaryKey.bytes ++ ByteString.ascii "'"⟩

/-- `if (needs_generated_key) …` after the INSERT. -/
def assignGeneratedKey (key : Key) (needsKey : Bool) (result : QueryResult) :
    SessionM D R Unit := do
  if needsKey then
    match generatedKey env (env.classOf key).primaryKey result with
    | .ok value => setPk env key value
    | .error e => throw e

/-- `UnitOfWork::flush_insert`. -/
def flushInsert (key : Key) : SessionM D R Unit := do
  let cls := env.classOf key
  env.runTableHook .beforeInsert key
  let columns ← getColumns key
  let result ← execute env (insertStatement env cls columns)
  assignGeneratedKey env key (needsGeneratedKey cls (columns cls.primaryKey)) result
  modifyUow fun s =>
    s.updateTracked key fun _ => ⟨.managed, s.snapshot env.classOf key⟩
  registerIdentity env key
  env.runTableHook .afterInsert key

/-- The columns that `flush_update_if_dirty` finds changed. -/
def changedColumns (cls : EntityClass) (current original : Snapshot) : List Name :=
  (current.filter fun (name, value) =>
    name != cls.primaryKey && !((original.lookup name).any (·.eq value))).map (·.1)

/-- The UPDATE of the changed columns to the values of a snapshot. -/
def updateStatement (cls : EntityClass) (current original : Snapshot) (pk : Value) : Statement :=
  .update cls.table (assignmentsOf current (sortNames (changedColumns cls current original)))
    [(cls.primaryKey, pk)]

/-- `UnitOfWork::flush_update_if_dirty`. -/
def flushUpdateIfDirty (key : Key) (tracked : TrackedEntity) : SessionM D R Unit := do
  let cls := env.classOf key
  let current ← snapshot env key
  if (changedColumns cls current tracked.original).isEmpty then return
  -- the statement writes `current`, taken before the hook runs
  env.runTableHook .beforeUpdate key
  let pk ← getPk env key
  let _ ← execute env (updateStatement cls current tracked.original pk)
  modifyUow (·.refreshSnapshot env.classOf key)
  env.runTableHook .afterUpdate key

/-- `UnitOfWork::flush_delete`. -/
def flushDelete (key : Key) : SessionM D R Unit := do
  let cls := env.classOf key
  env.runTableHook .beforeDelete key
  let pk ← getPk env key
  let _ ← execute env (.delete cls.table [(cls.primaryKey, pk)])
  eraseIdentity env key pk
  modifyUow (·.erase key)
  env.runTableHook .afterDelete key

/-- The body of the loop of `UnitOfWork::flush`. -/
def flushKey (key : Key) : SessionM D R Unit := do
  match (← get).uow.tracked key with
  | none => return
  | some tracked =>
    match tracked.status with
    | .new => flushInsert env key
    | .managed => flushUpdateIfDirty env key tracked
    | .removed => flushDelete env key
    | .detached => return

/-- `UnitOfWork::flush`: the keys are those tracked when it starts. -/
def flush : SessionM D R Unit := do
  (← get).uow.keys.forM (flushKey env)

/-! ### Tracking -/

/-- `Session::track`. -/
def track (key : Key) (status : EntityStatus) : SessionM D R Unit := do
  let current ← snapshot env key
  let original := if status = .new then [] else current
  modifyUow (·.track env.classOf key { status, original })
  assignRuntime key (env.bindRelations key)
  registerIdentity env key

/-- `Session::persist`. -/
def persist (key : Key) : SessionM D R Unit := do
  match (← get).uow.tracked key with
  | some tracked =>
    if tracked.status = .removed then
      modifyUow (·.updateTracked key fun t => { t with status := .managed })
  | none =>
    let pk ← getPk env key
    track env key (if (env.classOf key).hasIdentityKey pk then .managed else .new)

/-- `Session::remove`. -/
def remove (key : Key) : SessionM D R Unit :=
  modifyUow (·.updateTracked key fun t => { t with status := .removed })

/-! ### The flush pipeline -/

/-- One round of the `while` loop of `RelationChangeProcessor::prepare` visits
    every key that is tracked and not prepared yet; `prepared` collects them. -/
def prepareRound : List Key → List Key → SessionM D R (List Key)
  | [], prepared => return prepared
  | key :: rest, prepared => do
    if key ∈ prepared || ((← get).uow.tracked key).isNone then
      prepareRound rest prepared
    else
      env.prepareRelations key
      prepareRound rest (prepared ++ [key])

/-- `RelationChangeProcessor::prepare`. `rounds` bounds the loop: a run that needs
    more of them does not return in the source, and never returns normally here. -/
def prepareRounds : Nat → List Key → SessionM D R Unit
  | 0, prepared => do
    if prepared.length < (← get).uow.keys.length then throw (.ofText "prepare: out of rounds")
  | rounds + 1, prepared => do
    let keys := (← get).uow.keys
    if prepared.length < keys.length then
      let prepared' ← prepareRound env keys prepared
      if prepared'.length = prepared.length then return
      prepareRounds rounds prepared'

/-- The body of the loop of `RelationChangeProcessor::process`. -/
def processKey (key : Key) : SessionM D R Unit := do
  if ((← get).uow.tracked key).isSome then env.flushRelations key

/-- `RelationChangeProcessor::process`. -/
def processRelations : SessionM D R Unit := do
  (← get).uow.keys.forM (processKey env)

/-- `RelationChangeProcessor::accept`. -/
def acceptRelations : SessionM D R Unit := do
  (← get).uow.keys.forM fun key => do
    if ((← get).uow.tracked key).isSome then assignRuntime key (env.acceptRelations key)

/-- `UnitOfWork::dispatch_domain_events`. -/
def dispatchDomainEvents : SessionM D R Unit := do
  (← get).uow.keys.forM fun key => do
    if ((← get).uow.tracked key).isSome then env.dispatchDomainEvents key

/-- `Session::flush_pipeline`. -/
def flushPipeline : SessionM D R Unit := do
  env.interceptors.forM (·.beforeFlush)
  prepareRounds env env.prepareBound []
  flush env
  processRelations env
  flush env
  env.interceptors.forM (·.afterFlush)

/-! ### Transactions -/

/-- `Session::rebuild_identity_map`. -/
def rebuildIdentityMap : SessionM D R Unit := do
  modify fun w => { w with identity := fun _ _ => none }
  (← get).uow.keys.forM (registerIdentity env)

/-- `UnitOfWork::commit_checkpoint`. -/
def commitCheckpoint : SessionM D R Unit := do
  match (← get).uow.commitCheckpoint with
  | some uow => modifyUow fun _ => uow
  | none => throw (.ofText "MetalORM: no UnitOfWork checkpoint to commit")

/-- `if (has_checkpoint()) { try { rollback_checkpoint(); } catch (...) {} }`. -/
def rollbackCheckpointIfOpen : SessionM D R Unit := do
  match (← get).uow.rollbackCheckpoint env.classOf with
  | some uow => modifyUow fun _ => uow
  | none => return

/-- `Session::throw_if_rollback_only`. -/
def throwIfRollbackOnly : SessionM D R Unit := do
  if (← get).rollbackOnly then
    throw (.ofText
      "MetalORM: cannot commit transaction because an inner transaction failed")

/-- The text that `Session::next_savepoint_name` builds. -/
def savepointName (counter : Nat) : List UInt8 :=
  ByteString.ascii "metalorm_sp_" ++ ForStd.decimal counter

/-- `Session::next_savepoint_name`. -/
def nextSavepointName : SessionM D R (List UInt8) := do
  modify fun w => { w with savepointCounter := w.savepointCounter + 1 }
  return savepointName (← get).savepointCounter

/-- `Session::assert_savepoint_support`. -/
def assertSavepointSupport : SessionM D R Unit :=
  if env.executor.savepoints then return
  else throw (.ofText ("MetalORM: nested Session::transaction() calls require " ++
    "savepoint support in this executor"))

def beginTransaction : SessionM D R Unit :=
  transactionCall .begin env.executor.beginTransaction

def commitTransaction : SessionM D R Unit :=
  transactionCall .commit env.executor.commitTransaction

def rollbackTransaction : SessionM D R Unit :=
  transactionCall .rollback env.executor.rollbackTransaction

def savepoint (name : List UInt8) : SessionM D R Unit :=
  transactionCall (.savepoint name) (env.executor.savepoint name)

def releaseSavepoint (name : List UInt8) : SessionM D R Unit :=
  transactionCall (.release name) (env.executor.releaseSavepoint name)

def rollbackToSavepoint (name : List UInt8) : SessionM D R Unit :=
  transactionCall (.rollbackTo name) (env.executor.rollbackToSavepoint name)

/-- `try { … } catch (...) {}`. -/
def ignoreErrors (p : SessionM D R Unit) : SessionM D R Unit := tryCatch p fun _ => pure ()

/-- `Session::finish_transaction_scope`. -/
def finishTransactionScope : SessionM D R Unit :=
  modify fun w =>
    let depth := w.transactionDepth - 1
    if depth = 0 then
      { w with transactionDepth := depth, rollbackOnly := false, savepointCounter := 0 }
    else
      { w with transactionDepth := depth }

/-- The first `if` of `Session::rollback_transaction_scope`. -/
def rollbackDatabaseScope (outermost : Bool) (name : List UInt8) : SessionM D R Unit := do
  if outermost then
    ignoreErrors (rollbackTransaction env)
  else
    modify fun w => { w with rollbackOnly := true }
    ignoreErrors (rollbackToSavepoint env name)

/-- `Session::rollback_transaction_scope`. -/
def rollbackTransactionScope (outermost : Bool) (name : List UInt8) : SessionM D R Unit := do
  rollbackDatabaseScope env outermost name
  rollbackCheckpointIfOpen env
  rebuildIdentityMap env
  finishTransactionScope

/-- The `try` block of `Session::commit`. -/
def commitBody : SessionM D R Unit := do
  beginTransaction env
  flushPipeline env
  acceptRelations env
  commitTransaction env
  commitCheckpoint

/-- `Session::commit`. -/
def commit : SessionM D R Unit := do
  if (← get).transactionDepth != 0 then
    throw (.ofText ("MetalORM: commit() cannot be called inside Session::transaction(); " ++
      "the transaction scope flushes automatically"))
  else if !env.executor.transactions then
    flushPipeline env
    acceptRelations env
    dispatchDomainEvents env
  else
    modifyUow (·.beginCheckpoint env.classOf)
    tryCatch (commitBody env) fun e => do
      ignoreErrors (rollbackTransaction env)
      rollbackCheckpointIfOpen env
      rebuildIdentityMap env
      throw e
    dispatchDomainEvents env

/-- `if (outermost) unit_of_work_.dispatch_domain_events()`. -/
def dispatchWhenOutermost (outermost : Bool) : SessionM D R Unit :=
  if outermost then dispatchDomainEvents env else return

/-- `COMMIT` for the outermost scope, `RELEASE` for an inner one. -/
def closeDatabaseScope (outermost : Bool) (name : List UInt8) : SessionM D R Unit :=
  if outermost then commitTransaction env else releaseSavepoint env name

/-- The `try` block of `Session::transaction` before it closes the database scope. -/
def transactionWork (fn : SessionM D R α) : SessionM D R α := do
  let result ← fn
  throwIfRollbackOnly
  flushPipeline env
  throwIfRollbackOnly
  acceptRelations env
  return result

/-- The `try` block of `Session::transaction`. -/
def transactionBody (outermost : Bool) (name : List UInt8) (fn : SessionM D R α) :
    SessionM D R α := do
  let result ← transactionWork env fn
  closeDatabaseScope env outermost name
  commitCheckpoint
  return result

/-- `Session::transaction` from the moment the transaction or the savepoint is open. -/
def transactionScope (outermost : Bool) (name : List UInt8) (fn : SessionM D R α) :
    SessionM D R α := do
  modifyUow (·.beginCheckpoint env.classOf)
  modify fun w => { w with transactionDepth := w.transactionDepth + 1 }
  let result ← tryCatch (transactionBody env outermost name fn) fun e => do
    rollbackTransactionScope env outermost name
    throw e
  finishTransactionScope
  dispatchWhenOutermost env outermost
  return result

/-- `Session::transaction`. -/
def transaction (fn : SessionM D R α) : SessionM D R α := do
  if !env.executor.transactions then
    let result ← fn
    commit env
    return result
  if (← get).transactionDepth = 0 then
    modify fun w => { w with rollbackOnly := false }
    beginTransaction env
    transactionScope env true [] fn
  else
    assertSavepointSupport env
    let name ← nextSavepointName
    savepoint env name
    transactionScope env false name fn

/-! ### Giving a session up -/

/-- Forget every entity: `unit_of_work_.clear(); identity_map_.clear();`. -/
def forgetAll : SessionM D R Unit :=
  modify fun w => { w with uow := w.uow.clear, identity := fun _ _ => none }

/-- `transaction_depth_ = 0; savepoint_counter_ = 0; rollback_only_ = false;`. -/
def resetScopes : SessionM D R Unit :=
  modify fun w => { w with transactionDepth := 0, savepointCounter := 0, rollbackOnly := false }

/-- The first `if` of `Session::rollback`. -/
def rollbackOpenTransaction : SessionM D R Unit := do
  if env.executor.transactions && (← get).transactionDepth != 0 then
    ignoreErrors (rollbackTransaction env)
  else
    return

/-- The second `if` of `Session::rollback`. -/
def forgetEntities : SessionM D R Unit := do
  if (← get).uow.checkpoints.isEmpty then
    forgetAll
  else
    modifyUow (·.rollbackAllCheckpoints env.classOf)
    rebuildIdentityMap env

/-- `Session::rollback`. -/
def rollback : SessionM D R Unit := do
  rollbackOpenTransaction env
  forgetEntities env
  resetScopes

/-- `Session::clear`. -/
def clear : SessionM D R Unit := do
  forgetAll
  resetScopes

end Session

end MetalOrm.Native
