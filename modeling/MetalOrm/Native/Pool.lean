import Mathlib

/-!
# The resource pool

`metal/pool.hpp` (`Pool<TResource>`): its state, the sections of its methods and threads
that run them. A section holds the mutex, or it is a call of the adapter, which the pool
makes outside the mutex. A resource is named by its number in the order of creation.
-/

namespace MetalOrm.Native

/-- A resource of the pool. -/
abbrev Resource := Nat

/-- `PoolOptions` after `normalize_options`, times in milliseconds. `reap_interval` only
    says when the reaper looks. -/
structure PoolOptions where
  max : Nat
  min : Nat
  idleTimeout : Int
  acquireTimeout : Int

/-- `IdleEntry`. -/
structure IdleEntry where
  resource : Resource
  lastUsedAt : Int

/-- `State`. The counters are integers, so that a decrement below zero would show.
    `created` and `handed` are not in the source: how many resources `adapter.create` has
    returned, and those that were handed to `adapter.destroy`, the last one first. -/
structure Pool where
  idle : List IdleEntry
  leased : Int
  creating : Int
  destroyed : Bool
  created : Nat
  handed : List Resource

/-- What the adapter does: it returns (`validate` returns true), it returns null or
    false, or it throws. For a thread that waits in `acquire`, `throws` is the timeout. -/
inductive Outcome where
  | returns
  | refuses
  | throws
deriving DecidableEq

/-- What a thread inside the pool does next. -/
inductive PoolSection where
  /-- `acquire`: the top of the loop. -/
  | reserve
  /-- `acquire`: `adapter.validate`. -/
  | validate (r : Resource)
  /-- `acquire`, after the validation failed; with `retry` the loop goes on. -/
  | discard (r : Resource) (retry : Bool)
  /-- `acquire`, after the validation succeeded. -/
  | grantIdle (r : Resource)
  /-- `acquire`: `adapter.create`. -/
  | create
  /-- `acquire`, after the creation failed. -/
  | abort
  /-- `acquire`, after the creation succeeded. -/
  | grantNew (r : Resource)
  /-- `destroy_one` for these resources in turn; with `retry` the loop of `acquire` goes on. -/
  | dispose (rs : List Resource) (retry : Bool)
  /-- `release_resource`. -/
  | release (r : Resource)
  /-- `destroy_leased_resource`. -/
  | destroyLease (r : Resource)
  /-- A round of the reaper. -/
  | reap
  /-- `destroy`. -/
  | destroyPool

/-- How a section ends: the call goes on, `acquire` returns a lease, or the call is over. -/
inductive Progress where
  | next (current : PoolSection)
  | lease (r : Resource)
  | done

namespace Pool

/-- `total_live_locked`. -/
def totalLive (pool : Pool) : Int := pool.idle.length + pool.leased + pool.creating

/-- The loop of the reaper over the idle list: the resources that it removes, at most
    `removable`, and the entries that it keeps. -/
def reapLoop (timeout now : Int) : Nat → List IdleEntry → List Resource × List IdleEntry
  | _, [] => ([], [])
  | 0, entries => ([], entries)
  | removable + 1, entry :: entries =>
    if timeout ≤ now - entry.lastUsedAt then
      let (expired, keep) := reapLoop timeout now removable entries
      (entry.resource :: expired, keep)
    else
      let (expired, keep) := reapLoop timeout now (removable + 1) entries
      (expired, entry :: keep)

/-- The resources of the idle list, front first. -/
def idleResources (pool : Pool) : List Resource := pool.idle.map IdleEntry.resource

/-- A pool after its constructor, which has warmed `n` resources. -/
def warmed (n : Nat) (now : Int) : Pool where
  idle := (List.range n).map fun r => ⟨r, now⟩
  leased := 0
  creating := 0
  destroyed := false
  created := n
  handed := []

end Pool

/-- `destroy_one` for some resources. -/
def Progress.disposeAll (rs : List Resource) : Progress :=
  if rs.isEmpty then .done else .next (.dispose rs false)

/-- What a section does to the pool, and how it ends. -/
def PoolSection.run (options : PoolOptions) (now : Int) (outcome : Outcome) (pool : Pool) :
    PoolSection → Pool × Progress
  | .reserve =>
    if pool.destroyed then (pool, .done)
    else
      match pool.idle.getLast? with
      | some entry =>
        ({ pool with idle := pool.idle.dropLast, leased := pool.leased + 1 },
          .next (.validate entry.resource))
      | none =>
        if pool.totalLive < options.max then
          ({ pool with creating := pool.creating + 1 }, .next .create)
        else if outcome = .throws ∧ 0 < options.acquireTimeout then (pool, .done)
        else (pool, .next .reserve)
  | .validate r =>
    match outcome with
    | .returns => (pool, .next (.grantIdle r))
    | .refuses => (pool, .next (.discard r true))
    | .throws => (pool, .next (.discard r false))
  | .discard r retry => ({ pool with leased := pool.leased - 1 }, .next (.dispose [r] retry))
  | .grantIdle r =>
    if pool.destroyed then
      ({ pool with leased := pool.leased - 1 }, .next (.dispose [r] false))
    else (pool, .lease r)
  | .create =>
    match outcome with
    | .returns => ({ pool with created := pool.created + 1 }, .next (.grantNew pool.created))
    | _ => (pool, .next .abort)
  | .abort => ({ pool with creating := pool.creating - 1 }, .done)
  | .grantNew r =>
    if pool.destroyed then
      ({ pool with creating := pool.creating - 1 }, .next (.dispose [r] false))
    else ({ pool with creating := pool.creating - 1, leased := pool.leased + 1 }, .lease r)
  | .dispose [] _ => (pool, .done)
  | .dispose (r :: rs) retry =>
    ({ pool with handed := r :: pool.handed },
      if retry = true ∧ rs = [] ∧ outcome ≠ .throws then .next .reserve else .disposeAll rs)
  | .release r =>
    if pool.destroyed then
      ({ pool with leased := pool.leased - 1 }, .next (.dispose [r] false))
    else ({ pool with leased := pool.leased - 1, idle := pool.idle ++ [⟨r, now⟩] }, .done)
  | .destroyLease r =>
    ({ pool with leased := pool.leased - 1 }, .next (.dispose [r] false))
  | .reap =>
    if pool.destroyed = true ∨ options.idleTimeout ≤ 0 then (pool, .done)
    else
      let (expired, keep) :=
        Pool.reapLoop options.idleTimeout now (pool.idle.length - options.min) pool.idle
      ({ pool with idle := keep }, .disposeAll expired)
  | .destroyPool =>
    if pool.destroyed then (pool, .done)
    else ({ pool with destroyed := true, idle := [] }, .disposeAll pool.idleResources)

/-! ## Threads -/

/-- A call into the pool. The destructor of a lease is a `release`. -/
inductive PoolCall where
  | acquire
  | release (r : Resource)
  | destroyLease (r : Resource)
  | reap
  | destroy

/-- A thread calls, or it runs the next section of its call. -/
inductive PoolEvent (ι : Type) where
  | call (thread : ι) (poolCall : PoolCall)
  | step (thread : ι) (outcome : Outcome) (now : Int)

/-- The pool, the leases that are outstanding, and what each thread does next. -/
structure PoolThreads (ι : Type) where
  pool : Pool
  leases : List Resource
  pending : ι → Option PoolSection

namespace PoolThreads

variable {ι : Type} [DecidableEq ι]

/-- No thread has called anything on the pool yet. -/
def init (pool : Pool) : PoolThreads ι := ⟨pool, [], fun _ => none⟩

/-- A thread begins a call. To give a lease back takes a lease; without one the call
    does nothing. -/
def begin (s : PoolThreads ι) (i : ι) : PoolCall → PoolThreads ι
  | .acquire => { s with pending := Function.update s.pending i (some .reserve) }
  | .release r =>
    if r ∈ s.leases then
      { s with
        leases := s.leases.erase r
        pending := Function.update s.pending i (some (.release r)) }
    else s
  | .destroyLease r =>
    if r ∈ s.leases then
      { s with
        leases := s.leases.erase r
        pending := Function.update s.pending i (some (.destroyLease r)) }
    else s
  | .reap => { s with pending := Function.update s.pending i (some .reap) }
  | .destroy => { s with pending := Function.update s.pending i (some .destroyPool) }

/-- A section of a thread has ended. -/
def advance (s : PoolThreads ι) (i : ι) (result : Pool × Progress) : PoolThreads ι :=
  match result.2 with
  | .next current =>
    { s with pool := result.1, pending := Function.update s.pending i (some current) }
  | .lease r =>
    { pool := result.1, leases := r :: s.leases, pending := Function.update s.pending i none }
  | .done => { s with pool := result.1, pending := Function.update s.pending i none }

/-- One event. A thread inside a call cannot call, and one outside has no section. -/
def next (options : PoolOptions) (s : PoolThreads ι) : PoolEvent ι → PoolThreads ι
  | .call i poolCall =>
    match s.pending i with
    | some _ => s
    | none => s.begin i poolCall
  | .step i outcome now =>
    match s.pending i with
    | none => s
    | some current => s.advance i (current.run options now outcome s.pool)

end PoolThreads

end MetalOrm.Native
