import MetalOrm.Native.Entity
import Mathlib.Logic.Function.Basic

/-!
# Unit of work: tracking and checkpoints

`metal/unit_of_work.hpp`, the part that does not talk to the database: `track`,
`erase`, `keys`, `clear`, `refresh_snapshot` and the checkpoint stack. The
objects that the tracked closures read and write are part of the state (`heap`).

`checkpoints` has the innermost checkpoint (`checkpoints_.back()`) first.
`history` is not in the source: it records every `capture_entry` that `track`
made, so that a statement can speak of the object at the moment it was tracked.
-/

namespace MetalOrm.Native

variable {R : Type}

/-- `UnitOfWork::CheckpointEntry`. `runtime` is the copy of the runtime members
    that the closure `restore_runtime` assigns back. -/
structure CheckpointEntry (R : Type) where
  existed : Bool
  tracked : TrackedEntity
  current : Snapshot
  runtime : R

/-- `UnitOfWork::Checkpoint`. -/
structure Checkpoint (R : Type) where
  entries : List (Key × CheckpointEntry R)
  order : List Key

/-- The state of a `UnitOfWork` together with the objects it points to. -/
structure UowState (R : Type) where
  heap : Key → Entity R
  tracked : Key → Option TrackedEntity
  trackedOrder : List Key
  checkpoints : List (Checkpoint R)
  history : List (Key × CheckpointEntry R)

namespace Checkpoint

/-- `entries.contains(key)`. -/
def contains (c : Checkpoint R) (key : Key) : Bool := c.entries.any (·.1 == key)

/-- `if (!entries.contains(key)) entries.emplace(key, entry)`. -/
def emplace (c : Checkpoint R) (item : Key × CheckpointEntry R) : Checkpoint R :=
  if c.contains item.1 then c else { c with entries := c.entries ++ [item] }

end Checkpoint

namespace UowState

variable (classOf : Key → EntityClass)

/-- A unit of work that has not been used. -/
def initial (heap : Key → Entity R) : UowState R :=
  { heap, tracked := fun _ => none, trackedOrder := [], checkpoints := [], history := [] }

/-- `tracked.snapshot()`. -/
def snapshot (s : UowState R) (key : Key) : Snapshot :=
  (classOf key).snapshotOf (s.heap key).columns

/-- Assignment to the mapped members of an object. -/
def setColumns (s : UowState R) (key : Key) (columns : Name → Value) : UowState R :=
  { s with heap := Function.update s.heap key { s.heap key with columns } }

/-- Assignment to the runtime members of an object. -/
def setRuntime (s : UowState R) (key : Key) (runtime : R) : UowState R :=
  { s with heap := Function.update s.heap key { s.heap key with runtime } }

/-- `UnitOfWork::capture_entry`. -/
def captureEntry (s : UowState R) (existed : Bool) (key : Key) (tracked : TrackedEntity) :
    CheckpointEntry R :=
  { existed, tracked, current := s.snapshot classOf key, runtime := (s.heap key).runtime }

/-- `UnitOfWork::track`. -/
def track (s : UowState R) (key : Key) (tracked : TrackedEntity) : UowState R :=
  let captured := (key, s.captureEntry classOf false key tracked)
  { s with
    checkpoints := s.checkpoints.map (·.emplace captured)
    tracked := Function.update s.tracked key (some tracked)
    trackedOrder :=
      if (s.tracked key).isNone then s.trackedOrder ++ [key] else s.trackedOrder
    history := s.history ++ [captured] }

/-- `UnitOfWork::erase`. -/
def erase (s : UowState R) (key : Key) : UowState R :=
  { s with
    tracked := Function.update s.tracked key none
    trackedOrder := s.trackedOrder.filter (· != key) }

/-- `UnitOfWork::keys`. -/
def keys (s : UowState R) : List Key := s.trackedOrder.filter fun key => (s.tracked key).isSome

/-- `UnitOfWork::clear`. -/
def clear (s : UowState R) : UowState R :=
  { s with tracked := fun _ => none, trackedOrder := [], checkpoints := [] }

/-- Assignment to fields of the entry that `find(key)` returns, if there is one. -/
def updateTracked (s : UowState R) (key : Key) (f : TrackedEntity → TrackedEntity) : UowState R :=
  match s.tracked key with
  | some tracked => { s with tracked := Function.update s.tracked key (some (f tracked)) }
  | none => s

/-- `UnitOfWork::refresh_snapshot`. -/
def refreshSnapshot (s : UowState R) (key : Key) : UowState R :=
  s.updateTracked key fun tracked => { tracked with original := s.snapshot classOf key }

/-- `UnitOfWork::begin_checkpoint`. -/
def beginCheckpoint (s : UowState R) : UowState R :=
  let entries := s.trackedOrder.filterMap fun key =>
    (s.tracked key).map fun tracked => (key, s.captureEntry classOf true key tracked)
  { s with checkpoints := { entries, order := s.trackedOrder } :: s.checkpoints }

/-- `UnitOfWork::commit_checkpoint`; `none` is the `std::logic_error`. -/
def commitCheckpoint (s : UowState R) : Option (UowState R) :=
  match s.checkpoints with
  | [] => none
  | _ :: rest => some { s with checkpoints := rest }

/-- The body of the loop of `rollback_checkpoint` over the entries. -/
def restoreEntry (s : UowState R) (item : Key × CheckpointEntry R) : UowState R :=
  let (key, entry) := item
  let object := s.heap key
  { s with
    heap := Function.update s.heap key
      { columns := (classOf key).restoreSnapshot entry.current object.columns
        runtime := entry.runtime }
    tracked := Function.update s.tracked key (if entry.existed then some entry.tracked else none) }

/-- `UnitOfWork::rollback_checkpoint`; `none` is the `std::logic_error`. -/
def rollbackCheckpoint (s : UowState R) : Option (UowState R) :=
  match s.checkpoints with
  | [] => none
  | checkpoint :: rest =>
    let restored := checkpoint.entries.foldl (restoreEntry classOf) { s with checkpoints := rest }
    some { restored with trackedOrder := checkpoint.order }

/-- `UnitOfWork::rollback_all_checkpoints`: one round for each open checkpoint. -/
def rollbackAllCheckpoints (s : UowState R) : UowState R :=
  s.checkpoints.foldl (fun s _ => (s.rollbackCheckpoint classOf).getD s) s

end UowState

end MetalOrm.Native
