import MetalOrm.Native.Pool
import MetalOrm.Native.Value

/-!
# Executors over a pool of connections

`src/pooled_executor.cpp` (`PooledExecutor`) over the pool of `metal/pool.hpp`. A method
of an executor calls the pool, or the connection that it holds; between two such calls
other executors, the reaper and `Pool::destroy` may run. The mutex of an executor
admits one method at a time.
-/

namespace MetalOrm.Native

/-- `PooledExecutorMode`. -/
inductive PooledExecutorMode where
  | session
  | sticky
deriving DecidableEq

/-- How an executor was constructed: `ExecutorCapabilities` and the mode. -/
structure PooledExecutorConfig where
  transactions : Bool
  savepoints : Bool
  mode : PooledExecutorMode

/-- A call of a `DbExecutor`. -/
inductive DbCall where
  | execute (sql : ByteString) (params : List Value)
  | beginTransaction
  | commitTransaction
  | rollbackTransaction
  | savepoint (name : ByteString)
  | releaseSavepoint (name : ByteString)
  | rollbackToSavepoint (name : ByteString)

/-- What a connection's database knows about its transaction. -/
inductive TransactionState where
  | closed
  | opened
  | unknown
deriving DecidableEq

/-- A call of a connection that was made, and whether it returned. Not in the source. -/
structure ExecutedCall where
  connection : Resource
  dbCall : DbCall
  returned : Bool

/-- What a running method of an executor does next. -/
inductive ExecutorSection where
  /-- In `pool_->acquire()`; then the call on the lease, which is a local variable or
      `lease_`. -/
  | acquire (isLocal : Bool) (dbCall : DbCall)
  /-- The call on a connection. -/
  | call (connection : Resource) (isLocal : Bool) (dbCall : DbCall)
  /-- In `release()` or `destroy()` of a lease. -/
  | giveBack

/-- `PooledExecutor`. `disposed` says that its destructor has run, and `log` is not in the
    source. -/
structure PooledExecutor where
  lease : Option Resource
  transactionActive : Bool
  running : Option ExecutorSection
  disposed : Bool
  log : List ExecutedCall

namespace PooledExecutor

/-- After the constructor. -/
def init : PooledExecutor := ⟨none, false, none, false, []⟩

/-- `ensure_persistent_executor_locked`, and then the call. -/
def onPersistent (executor : PooledExecutor) (dbCall : DbCall) : ExecutorSection :=
  match executor.lease with
  | some connection => .call connection false dbCall
  | none => .acquire false dbCall

/-- A call that needs an active transaction and its lease. -/
def inTransaction (executor : PooledExecutor) (dbCall : DbCall) : Option ExecutorSection :=
  if executor.transactionActive then
    executor.lease.map fun connection => .call connection false dbCall
  else none

/-- The first thing that a method does to the pool or a connection; none, when it returns
    or throws without. -/
def start (config : PooledExecutorConfig) (executor : PooledExecutor) :
    DbCall → Option ExecutorSection
  | .execute sql params =>
    if config.mode = .sticky ∨ executor.lease.isSome = true then
      some (executor.onPersistent (.execute sql params))
    else some (.acquire true (.execute sql params))
  | .beginTransaction =>
    if config.transactions = false then none
    else if executor.transactionActive then none
    else some (executor.onPersistent .beginTransaction)
  | .commitTransaction =>
    if config.transactions then executor.inTransaction .commitTransaction else none
  | .rollbackTransaction =>
    if config.transactions then executor.inTransaction .rollbackTransaction else none
  | .savepoint name =>
    if config.savepoints then executor.inTransaction (.savepoint name) else none
  | .releaseSavepoint name =>
    if config.savepoints then executor.inTransaction (.releaseSavepoint name) else none
  | .rollbackToSavepoint name =>
    if config.savepoints then executor.inTransaction (.rollbackToSavepoint name) else none

end PooledExecutor

/-- The transaction of a connection after a call. -/
def DbCall.after (returned : Bool) (before : TransactionState) : DbCall → TransactionState
  | .beginTransaction => if returned then .opened else .unknown
  | .commitTransaction | .rollbackTransaction => if returned then .closed else .unknown
  | .execute _ _ | .savepoint _ | .releaseSavepoint _ | .rollbackToSavepoint _ => before

/-- The executors `ι` over one pool, other threads `κ` that use the pool itself, and the
    transactions of the connections. -/
structure PooledExecutors (ι κ : Type) where
  threads : PoolThreads (ι ⊕ κ)
  executor : ι → PooledExecutor
  transaction : Resource → TransactionState

/-- A call of a method, the destructor, a step of a running method, and what the threads
    that are not executors do: the reaper and `Pool::destroy`. -/
inductive ExecutorEvent (ι κ : Type) where
  | call (i : ι) (dbCall : DbCall)
  | dispose (i : ι)
  | step (i : ι) (outcome : Outcome) (now : Int)
  | reap (k : κ)
  | destroyPool (k : κ)
  | poolStep (k : κ) (outcome : Outcome) (now : Int)

namespace PooledExecutors

variable {ι κ : Type} [DecidableEq ι] [DecidableEq κ]

/-- Executors that have just been constructed, over a pool. -/
def init (pool : Pool) : PooledExecutors ι κ :=
  ⟨.init pool, fun _ => .init, fun _ => .closed⟩

variable (config : ι → PooledExecutorConfig) (options : PoolOptions) (s : PooledExecutors ι κ)

/-- Another value for one executor. -/
def setExecutor (i : ι) (executor : PooledExecutor) : PooledExecutors ι κ :=
  { s with executor := Function.update s.executor i executor }

/-- The thread of an executor calls the pool. -/
def callPool (i : ι) (poolCall : PoolCall) : PooledExecutors ι κ :=
  { s with threads := s.threads.next options (.call (.inl i) poolCall) }

/-- The executor gives its lease or its local lease back to the pool: `release()`, or
    `destroy()` of the lease. -/
def giveBack (i : ι) (executor : PooledExecutor) (poolCall : PoolCall) : PooledExecutors ι κ :=
  (s.setExecutor i { executor with running := some .giveBack }).callPool options i poolCall

/-- A method begins with a section. -/
def enter (i : ι) (executor : PooledExecutor) (first : ExecutorSection) : PooledExecutors ι κ :=
  let entered := s.setExecutor i { executor with running := some first }
  match first with
  | .acquire _ _ => entered.callPool options i .acquire
  | .call _ _ _ | .giveBack => entered

/-- What follows a call on a connection: a local lease goes back to the pool; after
    `commit` and `rollback` `lease_` does, and after a failed `begin`, `commit` or
    `rollback` it is destroyed. -/
def afterCall (i : ι) (executor : PooledExecutor) (connection : Resource) (isLocal : Bool)
    (returned : Bool) : DbCall → PooledExecutors ι κ
  | .beginTransaction =>
    if returned then
      s.setExecutor i { executor with transactionActive := true, running := none }
    else
      s.giveBack options i { executor with transactionActive := false, lease := none }
        (.destroyLease connection)
  | .commitTransaction | .rollbackTransaction =>
    if returned then
      s.giveBack options i { executor with transactionActive := false, lease := none }
        (.release connection)
    else
      s.giveBack options i { executor with transactionActive := false, lease := none }
        (.destroyLease connection)
  | .execute _ _ | .savepoint _ | .releaseSavepoint _ | .rollbackToSavepoint _ =>
    if isLocal then s.giveBack options i executor (.release connection)
    else s.setExecutor i { executor with running := none }

/-- A call on a connection, and what follows it. -/
def runCall (i : ι) (connection : Resource) (isLocal : Bool) (dbCall : DbCall)
    (returned : Bool) : PooledExecutors ι κ :=
  let executor := s.executor i
  let called : PooledExecutors ι κ :=
    { s with
      transaction := Function.update s.transaction connection
        (dbCall.after returned (s.transaction connection)) }
  called.afterCall options i
    { executor with log := executor.log ++ [⟨connection, dbCall, returned⟩] }
    connection isLocal returned dbCall

/-- A section of the pool in a method of an executor. -/
def runPool (i : ι) (outcome : Outcome) (now : Int) : PooledExecutors ι κ :=
  let executor := s.executor i
  let moved := { s with threads := s.threads.next options (.step (.inl i) outcome now) }
  match s.threads.pending (.inl i) with
  | none => moved
  | some current =>
    match (current.run options now outcome s.threads.pool).2, executor.running with
    | .next _, _ => moved
    | .lease connection, some (.acquire isLocal dbCall) =>
      moved.setExecutor i
        { executor with
          lease := if isLocal then none else some connection
          running := some (.call connection isLocal dbCall) }
    | .lease _, _ => moved
    | .done, _ => moved.setExecutor i { executor with running := none }

/-- `dispose_noexcept`. -/
def dispose (i : ι) : PooledExecutors ι κ :=
  let executor := { s.executor i with disposed := true }
  match executor.lease with
  | none => s.setExecutor i executor
  | some connection =>
    if executor.transactionActive then
      s.enter options i executor (.call connection false .rollbackTransaction)
    else s.giveBack options i { executor with lease := none } (.release connection)

/-- One event. A disposed executor cannot be called, nor one whose method is running. -/
def next : ExecutorEvent ι κ → PooledExecutors ι κ
  | .call i dbCall =>
    if (s.executor i).disposed = true ∨ (s.executor i).running.isSome = true then s
    else
      match (s.executor i).start (config i) dbCall with
      | some first => s.enter options i (s.executor i) first
      | none => s
  | .dispose i =>
    if (s.executor i).disposed = true ∨ (s.executor i).running.isSome = true then s
    else s.dispose options i
  | .step i outcome now =>
    match (s.executor i).running with
    | none => s
    | some (.call connection isLocal dbCall) =>
      s.runCall options i connection isLocal dbCall (outcome == .returns)
    | some (.acquire _ _) | some .giveBack => s.runPool options i outcome now
  | .reap k => { s with threads := s.threads.next options (.call (.inr k) .reap) }
  | .destroyPool k => { s with threads := s.threads.next options (.call (.inr k) .destroy) }
  | .poolStep k outcome now =>
    { s with threads := s.threads.next options (.step (.inr k) outcome now) }

end PooledExecutors

end MetalOrm.Native
