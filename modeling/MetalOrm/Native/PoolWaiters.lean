import MetalOrm.Native.Pool

/-!
# The condition variable of the pool

`Pool` has the sections of the methods of `metal/pool.hpp`. Here a thread also waits on
`cv`, notifies it, and calls `adapter.destroy` before or after it notifies. What a section
does to the pool is `PoolSection.run`; what its thread does then, until its next section,
is written down by `PoolSection.follow`.
-/

namespace MetalOrm.Native

/-- What a thread does between two sections. With `caught` an exception of
    `adapter.destroy` stays where it is: `destroy_one_noexcept`, or the loop of `destroy`. -/
inductive PoolAction where
  | destroyOne (r : Resource) (caught : Bool)
  | notifyOne
  | notifyAll
deriving DecidableEq

/-- A thread waits on `cv`, or it has some actions ahead of it, and after them a section,
    a lease that `acquire` returns, or the end of its call. -/
inductive PoolThread where
  | blocked
  | active (actions : List PoolAction) (last : Progress)

namespace PoolThread

/-- A thread outside the pool. -/
def finished : PoolThread := active [] .done

/-- A thread before a section. -/
def before (current : PoolSection) : PoolThread := active [] (.next current)

def isBlocked : PoolThread → Bool
  | blocked => true
  | active _ _ => false

def isFinished : PoolThread → Bool
  | active [] .done => true
  | _ => false

/-- A thread that waits goes back to the top of the loop of `acquire`. -/
def wake : PoolThread → PoolThread
  | blocked => before .reserve
  | active actions last => active actions last

end PoolThread

open PoolAction PoolThread in
/-- What a thread goes on with after a section; `pool` is the pool before it. -/
def PoolSection.follow (options : PoolOptions) (now : Int) (outcome : Outcome) (pool : Pool) :
    PoolSection → PoolThread
  | .reserve =>
    if pool.destroyed then finished
    else
      match pool.idle.getLast? with
      | some entry => before (.validate entry.resource)
      | none =>
        if pool.totalLive < options.max then before .create
        -- the deadline has passed
        else if outcome = .throws ∧ 0 < options.acquireTimeout then finished
        else blocked
  | .validate r =>
    match outcome with
    | .returns => before (.grantIdle r)
    | .refuses => before (.discard r true)
    | .throws => before (.discard r false)
  | .discard r true => active [notifyOne, destroyOne r false] (.next .reserve)
  | .discard r false => active [destroyOne r true, notifyOne] .done
  | .grantIdle r =>
    if pool.destroyed then active [notifyAll, destroyOne r false] .done
    else active [] (.lease r)
  | .create =>
    match outcome with
    | .returns => before (.grantNew pool.created)
    | _ => before .abort
  | .abort => active [notifyAll] .done
  | .grantNew r =>
    if pool.destroyed then active [notifyAll, destroyOne r false] .done
    else active [notifyAll] (.lease r)
  | .dispose _ _ => finished
  | .release r =>
    if pool.destroyed then active [destroyOne r false, notifyOne] .done
    else active [notifyOne] .done
  | .destroyLease r => active [destroyOne r false, notifyOne] .done
  | .reap =>
    if pool.destroyed = true ∨ options.idleTimeout ≤ 0 then finished
    else
      let expired :=
        (Pool.reapLoop options.idleTimeout now (pool.idle.length - options.min) pool.idle).1
      active (expired.map (destroyOne · true) ++ if expired.isEmpty then [] else [notifyAll]) .done
  | .destroyPool =>
    if pool.destroyed then finished
    else active (notifyAll :: pool.idleResources.map (destroyOne · true)) .done

/-- A thread calls, or it does what is next in its call, or it wakes up unasked: at its
    deadline, or spuriously. `woken` is the thread that `notify_one` wakes. -/
inductive WaiterEvent (ι : Type) where
  | call (thread : ι) (poolCall : PoolCall)
  | step (thread : ι) (outcome : Outcome) (now : Int) (woken : ι)
  | wake (thread : ι)

/-- The pool, the leases that are outstanding, and the threads. -/
structure PoolWaiters (ι : Type) where
  pool : Pool
  leases : List Resource
  threads : ι → PoolThread

namespace PoolWaiters

open PoolThread

variable {ι : Type} [DecidableEq ι]

/-- No thread has called anything on the pool yet. -/
def init (pool : Pool) : PoolWaiters ι := ⟨pool, [], fun _ => finished⟩

def set (s : PoolWaiters ι) (i : ι) (thread : PoolThread) : PoolWaiters ι :=
  { s with threads := Function.update s.threads i thread }

/-- A thread begins a call. To give a lease back takes a lease; without one the call
    does nothing. -/
def begin (s : PoolWaiters ι) (i : ι) : PoolCall → PoolWaiters ι
  | .acquire => s.set i (before .reserve)
  | .release r =>
    if r ∈ s.leases then { s.set i (before (.release r)) with leases := s.leases.erase r } else s
  | .destroyLease r =>
    if r ∈ s.leases then
      { s.set i (before (.destroyLease r)) with leases := s.leases.erase r }
    else s
  | .reap => s.set i (before .reap)
  | .destroy => s.set i (before .destroyPool)

/-- The end of what a thread had ahead of it. -/
def finish (options : PoolOptions) (s : PoolWaiters ι) (i : ι) (outcome : Outcome) (now : Int) :
    Progress → PoolWaiters ι
  | .next current =>
    { s.set i (current.follow options now outcome s.pool) with
      pool := (current.run options now outcome s.pool).1 }
  | .lease r => { s.set i finished with leases := r :: s.leases }
  | .done => s

variable [Fintype ι]

/-- One action of a thread, with those that it has ahead of it after that. -/
def act (s : PoolWaiters ι) (i : ι) (outcome : Outcome) (woken : ι) (rest : List PoolAction)
    (last : Progress) : PoolAction → PoolWaiters ι
  | .destroyOne r caught =>
    let pool := { s.pool with handed := r :: s.pool.handed }
    if outcome = .throws ∧ caught = false then { s.set i finished with pool := pool }
    else { s.set i (active rest last) with pool := pool }
  | .notifyOne =>
    if (s.threads woken).isBlocked then (s.set woken (before .reserve)).set i (active rest last)
    -- `notify_one` wakes a thread that waits, if there is one
    else if ∃ j, (s.threads j).isBlocked then s
    else s.set i (active rest last)
  | .notifyAll =>
    { s with threads := Function.update (fun j => (s.threads j).wake) i (active rest last) }

/-- One event. A thread inside a call cannot call. -/
def next (options : PoolOptions) (s : PoolWaiters ι) : WaiterEvent ι → PoolWaiters ι
  | .call i poolCall => if (s.threads i).isFinished then s.begin i poolCall else s
  | .step i outcome now woken =>
    match s.threads i with
    | .blocked => s
    | .active [] last => s.finish options i outcome now last
    | .active (action :: rest) last => s.act i outcome woken rest last action
  | .wake i => s.set i (s.threads i).wake

end PoolWaiters

end MetalOrm.Native
