import MetalOrm.ForStd.Events
import MetalOrm.Native.Value

/-!
# Chunks of bulk operations

`metal/bulk.hpp`: `run_chunks` splits the rows of a bulk operation and runs the chunks, one
after the other or by worker threads that share a counter; `aggregate` puts the outcomes
together. A `size_t` is a 64-bit word.

Between two accesses to what the workers share, a worker is at one of the places of
`WorkerPhase`; an event lets one worker go on to the next.
-/

namespace MetalOrm.Native.Bulk

open ForStd

/-- `ChunkOutcome`. The time is the bit pattern of a double. -/
structure ChunkOutcome where
  processedRows : UInt64 := 0
  returning : List Row := []
  elapsedMs : UInt64 := 0

/-- `ChunkCompleteInfo`. -/
structure ChunkCompleteInfo where
  chunkIndex : UInt64
  totalChunks : UInt64
  rowsInChunk : UInt64
  elapsedMs : UInt64

/-- `BulkBaseOptions`, less `transactional`. -/
structure BulkBaseOptions where
  chunkSize : UInt64 := 500
  concurrency : UInt64 := 1
  timing : Bool := false
  onChunkComplete : Option (ChunkCompleteInfo → Except Exn Unit) := none

/-- `validate_base_options`. -/
def validateBaseOptions (options : BulkBaseOptions) : Except Exn Unit := do
  if options.chunkSize < 1 then
    throw (Exn.ofText "MetalORM: bulk chunk_size must be >= 1")
  if options.concurrency < 1 then
    throw (Exn.ofText "MetalORM: bulk concurrency must be >= 1")

/-- What a bulk operation does with the rows `[begin, end)` of a chunk. -/
abbrev ExecuteChunk := (chunkIndex first last : UInt64) → Except Exn ChunkOutcome

/-- `total_chunks`. -/
def totalChunks (rowCount : UInt64) (options : BulkBaseOptions) : UInt64 :=
  if rowCount = 0 then 0 else (rowCount + options.chunkSize - 1) / options.chunkSize

/-- `begin` of a chunk. -/
def chunkBegin (options : BulkBaseOptions) (chunkIndex : UInt64) : UInt64 :=
  chunkIndex * options.chunkSize

/-- `end` of a chunk. -/
def chunkEnd (rowCount : UInt64) (options : BulkBaseOptions) (chunkIndex : UInt64) : UInt64 :=
  min rowCount (chunkBegin options chunkIndex + options.chunkSize)

/-- `run_one` up to the store of its outcome, with the time it measures. -/
def runOne (rowCount : UInt64) (options : BulkBaseOptions) (executeChunk : ExecuteChunk)
    (elapsed : UInt64) (chunkIndex : UInt64) : Except Exn ChunkOutcome := do
  let first := chunkBegin options chunkIndex
  let last := chunkEnd rowCount options chunkIndex
  let outcome ← executeChunk chunkIndex first last
  let outcome := if options.timing || options.onChunkComplete.isSome then
    { outcome with elapsedMs := elapsed } else outcome
  if let some onChunkComplete := options.onChunkComplete then
    onChunkComplete {
      chunkIndex
      totalChunks := totalChunks rowCount options
      rowsInChunk := last - first
      elapsedMs := outcome.elapsedMs }
  return outcome

/-- A call of `execute_chunk`, and whether its `run_one` returned. -/
structure ChunkCall where
  chunkIndex : UInt64
  first : UInt64
  last : UInt64
  returned : Bool
deriving DecidableEq

/-- The call that `run_one` makes. -/
def chunkCall (rowCount : UInt64) (options : BulkBaseOptions) (chunkIndex : UInt64)
    (returned : Bool) : ChunkCall :=
  ⟨chunkIndex, chunkBegin options chunkIndex, chunkEnd rowCount options chunkIndex, returned⟩

/-! ## One after the other -/

/-- `for (i = 0; i < total_chunks; ++i) run_one(i)`: the calls, and the outcomes. -/
def runSequential (rowCount : UInt64) (options : BulkBaseOptions) (executeChunk : ExecuteChunk)
    (clock : UInt64 → UInt64) : List UInt64 → List ChunkCall × Except Exn (List ChunkOutcome)
  | [] => ([], .ok [])
  | i :: indices =>
    match runOne rowCount options executeChunk (clock i) i with
    | .error e => ([chunkCall rowCount options i false], .error e)
    | .ok outcome =>
      let (calls, outcomes) := runSequential rowCount options executeChunk clock indices
      (chunkCall rowCount options i true :: calls, (outcome :: ·) <$> outcomes)

/-! ## Worker threads -/

/-- Where a worker is: at `failed.load`, at `next.fetch_add`, inside `run_one`, at the lock of
    `error_mutex`, at `failed.store`, or at its end. -/
inductive WorkerPhase where
  | checking
  | fetching
  | running (chunkIndex : UInt64)
  | recording (error : Exn)
  | stopping
  | finished
deriving DecidableEq

/-- What the workers share, the calls so far, and where each worker is. -/
structure ChunkWorkers (ι : Type) where
  next : UInt64
  failed : Bool
  error : Option Exn
  outcomes : List ChunkOutcome
  calls : List ChunkCall
  phase : ι → WorkerPhase

/-- A worker goes on. The time is what it measures if it runs a chunk. -/
structure WorkerEvent (ι : Type) where
  worker : ι
  elapsed : UInt64

namespace ChunkWorkers

variable {ι : Type}

/-- The workers when they start. -/
def init (rowCount : UInt64) (options : BulkBaseOptions) : ChunkWorkers ι where
  next := 0
  failed := false
  error := none
  outcomes := List.replicate (totalChunks rowCount options).toNat {}
  calls := []
  phase _ := .checking

variable [DecidableEq ι] in
/-- A worker is at another place. -/
def move (s : ChunkWorkers ι) (i : ι) (phase : WorkerPhase) : ChunkWorkers ι :=
  { s with phase := Function.update s.phase i phase }

variable [DecidableEq ι] in
/-- One event. A worker at its end stays there. -/
def step (rowCount : UInt64) (options : BulkBaseOptions) (executeChunk : ExecuteChunk)
    (s : ChunkWorkers ι) (event : WorkerEvent ι) : ChunkWorkers ι :=
  match s.phase event.worker with
  | .checking => s.move event.worker (if s.failed then .finished else .fetching)
  | .fetching =>
    { s with next := s.next + 1 }.move event.worker
      (if s.next ≥ totalChunks rowCount options then .finished else .running s.next)
  | .running chunkIndex =>
    match runOne rowCount options executeChunk event.elapsed chunkIndex with
    | .ok outcome =>
      { s with
        outcomes := s.outcomes.set chunkIndex.toNat outcome
        calls := s.calls ++ [chunkCall rowCount options chunkIndex true] }.move
          event.worker .checking
    | .error e =>
      { s with
        calls := s.calls ++ [chunkCall rowCount options chunkIndex false] }.move
          event.worker (.recording e)
  | .recording e => { s with error := s.error.or (some e) }.move event.worker .stopping
  | .stopping => { s with failed := true }.move event.worker .finished
  | .finished => s

/-- All workers are joined. -/
def Done (s : ChunkWorkers ι) : Prop := ∀ i, s.phase i = .finished

/-- What `run_chunks` does when the workers are joined. -/
def result (s : ChunkWorkers ι) : Except Exn (List ChunkOutcome) :=
  match s.error with
  | some e => .error e
  | none => .ok s.outcomes

end ChunkWorkers

/-! ## `run_chunks` -/

/-- `worker_count`. -/
def workerCount (rowCount : UInt64) (options : BulkBaseOptions) : UInt64 :=
  min options.concurrency (totalChunks rowCount options)

/-- What `std::vector` throws when it is asked for more than its `max_size()`. -/
def lengthError : Exn := Exn.ofText "cannot create std::vector larger than max_size()"

/-- The chunks from the first on. -/
def chunkIndices (rowCount : UInt64) (options : BulkBaseOptions) : List UInt64 :=
  (List.range (totalChunks rowCount options).toNat).map UInt64.ofNat

/-- `run_chunks`: the calls it makes and what it returns or throws, in some interleaving of the
    workers. `maxSize` is the `max_size()` of the vector of outcomes. -/
inductive RunChunks (maxSize : Nat) (rowCount : UInt64) (options : BulkBaseOptions)
    (executeChunk : ExecuteChunk) : List ChunkCall → Except Exn (List ChunkOutcome) → Prop
  | refused {e : Exn} (hoptions : validateBaseOptions options = .error e) :
    RunChunks maxSize rowCount options executeChunk [] (.error e)
  | tooMany (hoptions : validateBaseOptions options = .ok ())
    (hsize : maxSize < (totalChunks rowCount options).toNat) :
    RunChunks maxSize rowCount options executeChunk [] (.error lengthError)
  | none (hoptions : validateBaseOptions options = .ok ())
    (hnone : totalChunks rowCount options = 0) :
    RunChunks maxSize rowCount options executeChunk [] (.ok [])
  | sequential (hoptions : validateBaseOptions options = .ok ())
    (hsize : (totalChunks rowCount options).toNat ≤ maxSize)
    (hsome : totalChunks rowCount options ≠ 0)
    (hone : options.concurrency = 1 ∨ totalChunks rowCount options = 1) (clock : UInt64 → UInt64) :
    RunChunks maxSize rowCount options executeChunk
      (runSequential rowCount options executeChunk clock (chunkIndices rowCount options)).1
      (runSequential rowCount options executeChunk clock (chunkIndices rowCount options)).2
  | concurrent (hoptions : validateBaseOptions options = .ok ())
    (hsize : (totalChunks rowCount options).toNat ≤ maxSize)
    (hsome : totalChunks rowCount options ≠ 0)
    (hmany : ¬ (options.concurrency = 1 ∨ totalChunks rowCount options = 1))
    (events : List (WorkerEvent (Fin (workerCount rowCount options).toNat)))
    {s : ChunkWorkers (Fin (workerCount rowCount options).toNat)}
    (hrun : runEvents (ChunkWorkers.step rowCount options executeChunk)
      (ChunkWorkers.init rowCount options) events = s) (hdone : s.Done) :
    RunChunks maxSize rowCount options executeChunk s.calls s.result

/-! ## `aggregate` -/

/-- `BulkStrategy`. -/
inductive BulkStrategy where
  | individual | batch | whereIn
deriving DecidableEq

/-- `BulkResultMetadata`. -/
structure BulkResultMetadata where
  strategy : BulkStrategy := .individual
  dialect : String := "sqlite"
  hasReturningSupport : Bool := true
deriving DecidableEq

/-- `BulkResult`. -/
structure BulkResult where
  processedRows : UInt64 := 0
  chunksExecuted : UInt64 := 0
  returning : List Row := []
  chunkTimingsMs : Option (List UInt64) := none
  metadata : Option BulkResultMetadata := none

/-- The loop of `aggregate`. -/
def addOutcomes (result : BulkResult) : List ChunkOutcome → BulkResult
  | [] => result
  | outcome :: outcomes =>
    addOutcomes { result with
      processedRows := result.processedRows + outcome.processedRows
      returning := result.returning ++ outcome.returning
      chunkTimingsMs := result.chunkTimingsMs.map (· ++ [outcome.elapsedMs]) } outcomes

/-- `aggregate`, with the name that `dialect_name` gives. -/
def aggregate (outcomes : List ChunkOutcome) (timing : Bool) (strategy : BulkStrategy)
    (dialect : String) : BulkResult :=
  let result := addOutcomes {
    chunksExecuted := UInt64.ofNat outcomes.length
    chunkTimingsMs := if timing then some [] else none } outcomes
  { result with metadata := some { strategy, dialect, hasReturningSupport := true } }

end MetalOrm.Native.Bulk
