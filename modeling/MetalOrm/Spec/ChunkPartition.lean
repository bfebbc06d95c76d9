import Mathlib.Algebra.Order.BigOperators.Group.Finset
import MetalOrm.Native.BulkChunks

/-!
# Chunks partition the rows

Where the count of chunks does not wrap around, the chunks are consecutive parts of the rows.
Whatever the interleaving, an index is drawn from the counter once, and it is then either with
the worker that drew it or among the calls.

## Key results

- `Counted.step`: every event keeps the count of the indices
- `remaining_lt`: every event of a worker that is not at its end uses up a part of a bound
- `run_chunks_partition`: calls and outcomes, in every interleaving, exactly when the count of
  chunks does not wrap around
-/

namespace MetalOrm.Native.Bulk

open ForStd

/-! ## Arithmetic of chunks -/

/-- The sum of the rounding-up division stays within `size_t`, or there are no rows. -/
def NoWrap (rowCount : UInt64) (options : BulkBaseOptions) : Prop :=
  rowCount = 0 ∨ rowCount.toNat + options.chunkSize.toNat ≤ 2 ^ 64

/-- Where the chunk of index `i` begins. -/
def bound (rowCount : UInt64) (options : BulkBaseOptions) (i : Nat) : Nat :=
  min rowCount.toNat (i * options.chunkSize.toNat)

variable {rowCount : UInt64} {options : BulkBaseOptions} {executeChunk : ExecuteChunk}

theorem validateBaseOptions_ok (hchunk : 1 ≤ options.chunkSize) (hworkers : 1 ≤ options.concurrency) :
    validateBaseOptions options = .ok () := by
  have h : ¬ options.chunkSize < 1 := UInt64.not_lt.mpr hchunk
  have h' : ¬ options.concurrency < 1 := UInt64.not_lt.mpr hworkers
  simp [validateBaseOptions, h, h', pure, Except.pure]

theorem one_le_toNat {n : UInt64} (h : 1 ≤ n) : 1 ≤ n.toNat :=
  UInt64.le_iff_toNat_le.mp h

/-- `std::min` takes the first argument unless the second is smaller. -/
theorem toNat_min (a b : UInt64) : (if a ≤ b then a else b).toNat = min a.toNat b.toNat := by
  split
  · rename_i h
    rw [Nat.min_eq_left (UInt64.le_iff_toNat_le.mp h)]
  · rename_i h
    rw [Nat.min_eq_right (UInt64.le_iff_toNat_le.mp ((UInt64.le_total a b).resolve_left h))]

/-- The number of chunks is the quotient, rounded up. -/
theorem totalChunks_bounds (hchunk : 1 ≤ options.chunkSize) (hwrap : NoWrap rowCount options) :
    rowCount.toNat ≤ (totalChunks rowCount options).toNat * options.chunkSize.toNat ∧
      ∀ i < (totalChunks rowCount options).toNat, i * options.chunkSize.toNat < rowCount.toNat := by
  have hpos := one_le_toNat hchunk
  unfold totalChunks
  split
  · rename_i hzero
    simp [hzero]
  · rename_i hrows
    have hle := hwrap.resolve_left hrows
    have hne : rowCount.toNat ≠ 0 := fun h => hrows (UInt64.toNat_inj.mp h)
    have hsum : (rowCount + options.chunkSize - 1).toNat =
        rowCount.toNat + options.chunkSize.toNat - 1 := by
      rw [UInt64.toNat_sub, UInt64.toNat_add]
      have h1 : (1 : UInt64).toNat = 1 := rfl
      omega
    rw [UInt64.toNat_div, hsum]
    generalize rowCount.toNat = rows at *
    generalize options.chunkSize.toNat = size at *
    constructor
    · have hlt := Nat.lt_mul_div_succ (rows + size - 1) hpos
      rw [Nat.mul_add, Nat.mul_one, Nat.mul_comm] at hlt
      omega
    · intro i hi
      have hmul := (Nat.le_div_iff_mul_le hpos).mp hi
      rw [Nat.succ_mul] at hmul
      omega

theorem chunkBegin_toNat (hchunk : 1 ≤ options.chunkSize) (hwrap : NoWrap rowCount options)
    {i : UInt64} (hi : i.toNat < (totalChunks rowCount options).toNat) :
    (chunkBegin options i).toNat = bound rowCount options i.toNat := by
  have hlt := (totalChunks_bounds hchunk hwrap).2 i.toNat hi
  have hrows := rowCount.toNat_lt
  unfold chunkBegin bound
  rw [UInt64.toNat_mul, Nat.mod_eq_of_lt (by omega)]
  omega

theorem chunkEnd_toNat (hchunk : 1 ≤ options.chunkSize) (hwrap : NoWrap rowCount options)
    {i : UInt64} (hi : i.toNat < (totalChunks rowCount options).toNat) :
    (chunkEnd rowCount options i).toNat = bound rowCount options (i.toNat + 1) := by
  have hlt := (totalChunks_bounds hchunk hwrap).2 i.toNat hi
  have hbegin := chunkBegin_toNat hchunk hwrap hi
  have hle : rowCount.toNat + options.chunkSize.toNat ≤ 2 ^ 64 := by
    obtain hzero | hle := hwrap
    · subst hzero
      exact absurd hlt (Nat.not_lt_zero _)
    · exact hle
  have hsum : (chunkBegin options i + options.chunkSize).toNat =
      (i.toNat + 1) * options.chunkSize.toNat := by
    rw [UInt64.toNat_add, hbegin, Nat.succ_mul]
    unfold bound
    omega
  unfold chunkEnd bound
  rw [← hsum]
  exact toNat_min _ _

/-- The bounds of the chunks go from no rows to all rows, strictly. -/
theorem bound_spec (hchunk : 1 ≤ options.chunkSize) (hwrap : NoWrap rowCount options) :
    bound rowCount options 0 = 0 ∧
      bound rowCount options (totalChunks rowCount options).toNat = rowCount.toNat ∧
      ∀ i < (totalChunks rowCount options).toNat,
        bound rowCount options i < bound rowCount options (i + 1) := by
  obtain ⟨hcover, hlt⟩ := totalChunks_bounds hchunk hwrap
  have hpos := one_le_toNat hchunk
  refine ⟨by simp [bound], by unfold bound; omega, fun i hi => ?_⟩
  have hi' := hlt i hi
  unfold bound
  rw [Nat.succ_mul]
  omega

/-- Where the sum wraps around, there are no chunks. -/
theorem totalChunks_wrapped (hwrap : ¬ NoWrap rowCount options) :
    totalChunks rowCount options = 0 := by
  obtain ⟨hrows, hlt⟩ := not_or.mp hwrap
  have hr := rowCount.toNat_lt
  have hs := options.chunkSize.toNat_lt
  apply UInt64.toNat_inj.mp
  unfold totalChunks
  rw [if_neg hrows, UInt64.toNat_div, UInt64.toNat_sub, UInt64.toNat_add]
  apply Nat.div_eq_of_lt
  have h1 : (1 : UInt64).toNat = 1 := rfl
  omega

/-! ## The counter -/

namespace WorkerPhase

/-- The worker runs the chunk of index `i`. -/
def runs (i : Nat) : WorkerPhase → Nat
  | .running chunkIndex => if chunkIndex.toNat = i then 1 else 0
  | _ => 0

/-- The worker is at its end. -/
def ended : WorkerPhase → Nat
  | .finished => 1
  | _ => 0

/-- What a worker still has to do before it draws again, at most. -/
def weight : WorkerPhase → Nat
  | .checking => 4
  | .fetching => 3
  | .running _ => 5
  | .recording _ => 3
  | .stopping => 2
  | .finished => 0

@[simp] theorem runs_running (i : Nat) (chunkIndex : UInt64) :
    (running chunkIndex).runs i = if chunkIndex.toNat = i then 1 else 0 := rfl

@[simp] theorem runs_fetching (i : Nat) : fetching.runs i = 0 := rfl

@[simp] theorem runs_finished (i : Nat) : finished.runs i = 0 := rfl

@[simp] theorem ended_fetching : fetching.ended = 0 := rfl

@[simp] theorem ended_running (chunkIndex : UInt64) : (running chunkIndex).ended = 0 := rfl

@[simp] theorem ended_finished : finished.ended = 1 := rfl

theorem ended_le (phase : WorkerPhase) : phase.ended ≤ 1 := by
  cases phase <;> simp [ended]

theorem ended_of_ne {phase : WorkerPhase} (h : phase ≠ .finished) : phase.ended = 0 := by
  cases phase <;> simp_all [ended]

end WorkerPhase

/-- The calls of the chunk of index `i`. -/
def callsOf (i : Nat) (calls : List ChunkCall) : Nat := calls.countP (·.chunkIndex.toNat = i)

theorem callsOf_append (i : Nat) (calls : List ChunkCall) (call : ChunkCall) :
    callsOf i (calls ++ [call]) =
      callsOf i calls + (WorkerPhase.running call.chunkIndex).runs i := by
  unfold callsOf WorkerPhase.runs
  rw [List.countP_append, List.countP_singleton]
  simp

/-- How often the index `i` has been drawn when the counter stands at `next`. -/
def draws (next total i : Nat) : Nat := if i < next ∧ i < total then 1 else 0

theorem draws_succ_of_lt {next total : Nat} (h : next < total) (i : Nat) :
    draws (next + 1) total i = draws next total i + if next = i then 1 else 0 := by
  unfold draws
  split <;> split <;> split <;> omega

theorem draws_succ_of_le {next total : Nat} (h : total ≤ next) (i : Nat) :
    draws (next + 1) total i = draws next total i := by
  unfold draws
  split <;> split <;> omega

variable {ι : Type} [Fintype ι]

/-- An index is drawn once, and then it is with a worker or among the calls. The counter passes
    the number of chunks once for each worker that is at its end. -/
structure Counted (rowCount : UInt64) (options : BulkBaseOptions) (s : ChunkWorkers ι) : Prop where
  count : ∀ i, callsOf i s.calls + ∑ w, (s.phase w).runs i =
    draws s.next.toNat (totalChunks rowCount options).toNat i
  next_le : s.next.toNat ≤ (totalChunks rowCount options).toNat + ∑ w, (s.phase w).ended

/-- There is room for a draw of every worker after the last chunk. -/
def Room (ι : Type) [Fintype ι] (rowCount : UInt64) (options : BulkBaseOptions) : Prop :=
  (totalChunks rowCount options).toNat + Fintype.card ι < 2 ^ 64

theorem counted_init :
    Counted rowCount options (ChunkWorkers.init rowCount options : ChunkWorkers ι) where
  count i := by simp [ChunkWorkers.init, callsOf, WorkerPhase.runs, draws]
  next_le := by simp [ChunkWorkers.init]

theorem sum_ended_lt {phase : ι → WorkerPhase} {w : ι} (h : phase w ≠ .finished) :
    ∑ w, (phase w).ended < Fintype.card ι := by
  have hlt : ∑ w, (phase w).ended < ∑ _w : ι, 1 :=
    Finset.sum_lt_sum (fun w _ => (phase w).ended_le)
      ⟨w, Finset.mem_univ w, by rw [WorkerPhase.ended_of_ne h]; exact Nat.one_pos⟩
  simpa using hlt

variable [DecidableEq ι]

namespace Counted

variable {s : ChunkWorkers ι}

omit [DecidableEq ι] in
/-- A draw does not wrap the counter around. -/
theorem next_succ (h : Counted rowCount options s) (hroom : Room ι rowCount options) {w : ι}
    (hw : s.phase w ≠ .finished) : (s.next + 1).toNat = s.next.toNat + 1 := by
  have hlt := sum_ended_lt hw
  have hle := h.next_le
  unfold Room at hroom
  rw [UInt64.toNat_add]
  have h1 : (1 : UInt64).toNat = 1 := rfl
  omega

/-- A worker that neither draws nor calls. -/
theorem moved (h : Counted rowCount options s) {w : ι} {phase : WorkerPhase}
    (hruns : ∀ i, (s.phase w).runs i = phase.runs i) (hended : (s.phase w).ended ≤ phase.ended) :
    Counted rowCount options (s.move w phase) where
  count i := by
    have hsum := sum_update_add (WorkerPhase.runs i) s.phase w phase
    have hcount := h.count i
    have hsame := hruns i
    show callsOf i s.calls + ∑ v, (Function.update s.phase w phase v).runs i =
      draws s.next.toNat _ i
    omega
  next_le := by
    have hsum := sum_update_add WorkerPhase.ended s.phase w phase
    have hle := h.next_le
    show s.next.toNat ≤ _ + ∑ v, (Function.update s.phase w phase v).ended
    omega

/-- A draw after the last chunk ends the worker. -/
theorem drawn_none (h : Counted rowCount options s) {w : ι} (hw : s.phase w = .fetching)
    (hsucc : (s.next + 1).toNat = s.next.toNat + 1)
    (hge : (totalChunks rowCount options).toNat ≤ s.next.toNat) :
    Counted rowCount options ({ s with next := s.next + 1 }.move w .finished) where
  count i := by
    have hsum := sum_update_add (WorkerPhase.runs i) s.phase w .finished
    have hcount := h.count i
    show callsOf i s.calls + ∑ v, (Function.update s.phase w .finished v).runs i =
      draws (s.next + 1).toNat _ i
    rw [hsucc, draws_succ_of_le hge]
    rw [hw] at hsum
    simp only [WorkerPhase.runs_fetching, WorkerPhase.runs_finished, Nat.add_zero] at hsum
    omega
  next_le := by
    have hsum := sum_update_add WorkerPhase.ended s.phase w .finished
    have hle := h.next_le
    show (s.next + 1).toNat ≤ _ + ∑ v, (Function.update s.phase w .finished v).ended
    rw [hsucc]
    rw [hw] at hsum
    simp only [WorkerPhase.ended_fetching, WorkerPhase.ended_finished] at hsum
    omega

/-- A draw of a chunk gives it to the worker. -/
theorem drawn_some (h : Counted rowCount options s) {w : ι} (hw : s.phase w = .fetching)
    (hsucc : (s.next + 1).toNat = s.next.toNat + 1)
    (hlt : s.next.toNat < (totalChunks rowCount options).toNat) :
    Counted rowCount options ({ s with next := s.next + 1 }.move w (.running s.next)) where
  count i := by
    have hsum := sum_update_add (WorkerPhase.runs i) s.phase w (.running s.next)
    have hcount := h.count i
    show callsOf i s.calls + ∑ v, (Function.update s.phase w (.running s.next) v).runs i =
      draws (s.next + 1).toNat _ i
    rw [hsucc, draws_succ_of_lt hlt]
    rw [hw] at hsum
    simp only [WorkerPhase.runs_fetching, WorkerPhase.runs_running, Nat.add_zero] at hsum
    omega
  next_le := by
    show (s.next + 1).toNat ≤ _ + ∑ v, (Function.update s.phase w (.running s.next) v).ended
    exact hsucc ▸ Nat.le_add_right_of_le hlt

theorem called (h : Counted rowCount options s) {w : ι} {chunkIndex : UInt64}
    (hw : s.phase w = .running chunkIndex) (outcomes : List ChunkOutcome) {returned : Bool}
    {phase : WorkerPhase} (hruns : ∀ i, phase.runs i = 0) :
    Counted rowCount options ({ s with
      outcomes := outcomes
      calls := s.calls ++ [chunkCall rowCount options chunkIndex returned] }.move w phase) where
  count i := by
    have hsum := sum_update_add (WorkerPhase.runs i) s.phase w phase
    have hcount := h.count i
    show callsOf i (s.calls ++ [chunkCall rowCount options chunkIndex returned]) +
      ∑ v, (Function.update s.phase w phase v).runs i = draws s.next.toNat _ i
    have hcall := callsOf_append i s.calls (chunkCall rowCount options chunkIndex returned)
    have hsame : (WorkerPhase.running (chunkCall rowCount options chunkIndex returned).chunkIndex).runs i =
      (WorkerPhase.running chunkIndex).runs i := rfl
    rw [hw, hruns] at hsum
    omega
  next_le := by
    have hsum := sum_update_add WorkerPhase.ended s.phase w phase
    have hle := h.next_le
    rw [hw] at hsum
    simp only [WorkerPhase.ended_running, Nat.add_zero] at hsum
    show s.next.toNat ≤ _ + ∑ v, (Function.update s.phase w phase v).ended
    omega

/-- Every event keeps the count. -/
theorem step (h : Counted rowCount options s) (hroom : Room ι rowCount options)
    (event : WorkerEvent ι) : Counted rowCount options (s.step rowCount options executeChunk event) := by
  unfold ChunkWorkers.step
  split
  · rename_i hw
    refine h.moved (fun i => ?_) ?_
    · rw [hw]
      split <;> rfl
    · rw [hw]
      exact Nat.zero_le _
  · rename_i hw
    have hne : s.phase event.worker ≠ .finished := by
      rw [hw]
      nofun
    have hsucc := h.next_succ hroom hne
    split
    · exact h.drawn_none hw hsucc (UInt64.le_iff_toNat_le.mp ‹_›)
    · exact h.drawn_some hw hsucc (UInt64.lt_iff_toNat_lt.mp (UInt64.not_le.mp ‹_›))
  · rename_i hw
    split
    · exact h.called hw _ fun i => rfl
    · exact h.called hw s.outcomes fun i => rfl
  · rename_i hw
    have hmoved : Counted rowCount options (s.move event.worker .stopping) :=
      h.moved (by rw [hw]; exact fun _ => rfl) (by rw [hw]; exact Nat.le_refl _)
    exact ⟨hmoved.count, hmoved.next_le⟩
  · rename_i hw
    have hmoved : Counted rowCount options (s.move event.worker .finished) :=
      h.moved (by rw [hw]; exact fun _ => rfl) (by rw [hw]; exact Nat.zero_le _)
    exact ⟨hmoved.count, hmoved.next_le⟩
  · exact h

end Counted

/-! ## What has been called -/

/-- The outcome is what `run_one` returned for the index, at some reading of the clock. -/
def IsOutcome (rowCount : UInt64) (options : BulkBaseOptions) (executeChunk : ExecuteChunk)
    (chunkIndex : UInt64) (outcome : ChunkOutcome) : Prop :=
  ∃ elapsed, runOne rowCount options executeChunk elapsed chunkIndex = .ok outcome

/-- Where a worker can be as long as no call has thrown. -/
structure Placed (total next : Nat) (phase : WorkerPhase) : Prop where
  stopping : phase ≠ .stopping
  recording : ∀ e, phase ≠ .recording e
  finished : phase = .finished → total < next

omit [Fintype ι] in
theorem forall_update {P : WorkerPhase → Prop} {phases : ι → WorkerPhase} (h : ∀ v, P (phases v))
    {phase : WorkerPhase} (hphase : P phase) (w v : ι) : P (Function.update phases w phase v) := by
  rw [Function.update_apply]
  split
  · exact hphase
  · exact h v

omit [Fintype ι] in
theorem forall_running {total : Nat} {phases : ι → WorkerPhase}
    (h : ∀ v i, phases v = .running i → i.toNat < total) {phase : WorkerPhase}
    (hphase : ∀ i, phase = .running i → i.toNat < total) (w v : ι) (i : UInt64)
    (hv : Function.update phases w phase v = .running i) : i.toNat < total := by
  rw [Function.update_apply] at hv
  split at hv
  · exact hphase i hv
  · exact h v i hv

/-- Calls are those of `run_one` and have stored their outcomes; a worker is only at its end when
    the counter has passed the chunks or a call has thrown. -/
structure Stored (rowCount : UInt64) (options : BulkBaseOptions) (executeChunk : ExecuteChunk)
    (s : ChunkWorkers ι) : Prop where
  length : s.outcomes.length = (totalChunks rowCount options).toNat
  running : ∀ w chunkIndex, s.phase w = .running chunkIndex →
    chunkIndex.toNat < (totalChunks rowCount options).toNat
  call : ∀ call ∈ s.calls, call = chunkCall rowCount options call.chunkIndex call.returned
  outcome : ∀ call ∈ s.calls, call.returned = true →
    ∃ outcome, s.outcomes[call.chunkIndex.toNat]? = some outcome ∧
      IsOutcome rowCount options executeChunk call.chunkIndex outcome
  clean : (∀ call ∈ s.calls, call.returned = true) → s.failed = false ∧ s.error = none ∧
    ∀ w, Placed (totalChunks rowCount options).toNat s.next.toNat (s.phase w)

omit [Fintype ι] [DecidableEq ι] in
theorem stored_init :
    Stored rowCount options executeChunk (ChunkWorkers.init rowCount options : ChunkWorkers ι) where
  length := List.length_replicate
  running := nofun
  call := nofun
  outcome := nofun
  clean _ := ⟨rfl, rfl, fun _ => ⟨nofun, nofun, nofun⟩⟩

namespace Stored

variable {s : ChunkWorkers ι}

omit [Fintype ι] in
/-- A worker that does not call. -/
theorem moved (h : Stored rowCount options executeChunk s) {s' : ChunkWorkers ι} {w : ι}
    {phase : WorkerPhase} (hs : s'.outcomes = s.outcomes) (hcalls : s'.calls = s.calls)
    (hphase : s'.phase = Function.update s.phase w phase)
    (hrunning : ∀ chunkIndex, phase = .running chunkIndex →
      chunkIndex.toNat < (totalChunks rowCount options).toNat)
    (hnext : s.next.toNat ≤ s'.next.toNat)
    (hclean : (∀ call ∈ s.calls, call.returned = true) → s'.failed = false ∧ s'.error = none ∧
      Placed (totalChunks rowCount options).toNat s'.next.toNat phase) :
    Stored rowCount options executeChunk s' where
  length := hs ▸ h.length
  running v := by
    rw [hphase]
    exact forall_running h.running hrunning w v
  call := hcalls ▸ h.call
  outcome := by
    rw [hcalls, hs]
    exact h.outcome
  clean hreturned := by
    rw [hcalls] at hreturned
    obtain ⟨hfailed, herror, hplace⟩ := hclean hreturned
    rw [hphase]
    refine ⟨hfailed, herror, forall_update (fun v => ?_) hplace w⟩
    obtain ⟨hstop, hrecord, hend⟩ := (h.clean hreturned).2.2 v
    exact ⟨hstop, hrecord, fun hv => Nat.lt_of_lt_of_le (hend hv) hnext⟩

omit [Fintype ι] in
/-- A call that returns stores its outcome. -/
theorem returned (h : Stored rowCount options executeChunk s) {w : ι} {chunkIndex elapsed : UInt64}
    (hw : s.phase w = .running chunkIndex) {outcome : ChunkOutcome}
    (hrun : runOne rowCount options executeChunk elapsed chunkIndex = .ok outcome) :
    Stored rowCount options executeChunk ({ s with
      outcomes := s.outcomes.set chunkIndex.toNat outcome
      calls := s.calls ++ [chunkCall rowCount options chunkIndex true] }.move w .checking) where
  length := by
    show (s.outcomes.set _ _).length = _
    rw [List.length_set, h.length]
  running := by
    have hphase : ∀ i, WorkerPhase.checking = .running i → i.toNat < (totalChunks rowCount options).toNat :=
      nofun
    exact forall_running h.running hphase w
  call call hcall := by
    obtain hcall | hcall := List.mem_append.mp hcall
    · exact h.call call hcall
    · cases List.mem_singleton.mp hcall
      rfl
  outcome call hcall hreturned := by
    have hlt := h.running w chunkIndex hw
    show ∃ o, (s.outcomes.set chunkIndex.toNat outcome)[call.chunkIndex.toNat]? = some o ∧ _
    by_cases hsame : call.chunkIndex = chunkIndex
    · refine ⟨outcome, ?_, elapsed, hsame ▸ hrun⟩
      rw [hsame, List.getElem?_set_self (by rw [h.length]; exact hlt)]
    · obtain hcall | hcall := List.mem_append.mp hcall
      · have hne : chunkIndex.toNat ≠ call.chunkIndex.toNat :=
          fun heq => hsame (UInt64.toNat_inj.mp heq).symm
        rw [List.getElem?_set_ne hne]
        exact h.outcome call hcall hreturned
      · cases List.mem_singleton.mp hcall
        exact absurd rfl hsame
  clean hreturned := by
    obtain ⟨hfailed, herror, hplace⟩ :=
      h.clean fun call hcall => hreturned call (List.mem_append_left _ hcall)
    have hphase : Placed (totalChunks rowCount options).toNat s.next.toNat .checking :=
      ⟨nofun, nofun, nofun⟩
    exact ⟨hfailed, herror, forall_update hplace hphase w⟩

omit [Fintype ι] in
/-- After a call that throws, nothing is asked of where the workers are. -/
theorem threw (h : Stored rowCount options executeChunk s) {w : ι} {chunkIndex : UInt64} {e : Exn} :
    Stored rowCount options executeChunk ({ s with
      calls := s.calls ++ [chunkCall rowCount options chunkIndex false] }.move w (.recording e)) where
  length := h.length
  running := by
    have hphase : ∀ i, WorkerPhase.recording e = .running i → i.toNat < (totalChunks rowCount options).toNat :=
      nofun
    exact forall_running h.running hphase w
  call call hcall := by
    obtain hcall | hcall := List.mem_append.mp hcall
    · exact h.call call hcall
    · cases List.mem_singleton.mp hcall
      rfl
  outcome call hcall hreturned := by
    obtain hcall | hcall := List.mem_append.mp hcall
    · exact h.outcome call hcall hreturned
    · cases List.mem_singleton.mp hcall
      cases hreturned
  clean hreturned := by
    have hlast := hreturned _ (List.mem_append_right _ (List.mem_singleton.mpr rfl))
    cases hlast

/-- Every event keeps what is stored. -/
theorem step (h : Stored rowCount options executeChunk s) (hcounted : Counted rowCount options s)
    (hroom : Room ι rowCount options) (event : WorkerEvent ι) :
    Stored rowCount options executeChunk (s.step rowCount options executeChunk event) := by
  unfold ChunkWorkers.step
  split
  · rename_i hw
    refine h.moved rfl rfl rfl ?_ (Nat.le_refl _) fun hreturned => ?_
    · intro i hi
      split at hi <;> cases hi
    · obtain ⟨hfailed, herror, -⟩ := h.clean hreturned
      rw [hfailed]
      exact ⟨hfailed, herror, ⟨nofun, nofun, nofun⟩⟩
  · rename_i hw
    have hne : s.phase event.worker ≠ .finished := by
      rw [hw]
      nofun
    have hsucc := hcounted.next_succ hroom hne
    have hnext : s.next.toNat ≤ (s.next + 1).toNat := by omega
    split
    · rename_i hge
      have hge : (totalChunks rowCount options).toNat ≤ s.next.toNat := UInt64.le_iff_toNat_le.mp hge
      refine h.moved rfl rfl rfl nofun hnext fun hreturned => ?_
      obtain ⟨hfailed, herror, -⟩ := h.clean hreturned
      refine ⟨hfailed, herror, ⟨nofun, nofun, fun _ => ?_⟩⟩
      show _ < (s.next + 1).toNat
      omega
    · rename_i hlt
      have hlt : s.next.toNat < (totalChunks rowCount options).toNat :=
        UInt64.lt_iff_toNat_lt.mp (UInt64.not_le.mp hlt)
      refine h.moved rfl rfl rfl (fun i hi => ?_) hnext fun hreturned => ?_
      · cases hi
        exact hlt
      · obtain ⟨hfailed, herror, -⟩ := h.clean hreturned
        exact ⟨hfailed, herror, ⟨nofun, nofun, nofun⟩⟩
  · rename_i hw
    split
    · exact h.returned hw ‹_›
    · exact h.threw
  · rename_i e hw
    exact h.moved rfl rfl rfl nofun (Nat.le_refl _) fun hreturned =>
      absurd hw (((h.clean hreturned).2.2 event.worker).recording e)
  · rename_i hw
    exact h.moved rfl rfl rfl nofun (Nat.le_refl _) fun hreturned =>
      absurd hw ((h.clean hreturned).2.2 event.worker).stopping
  · exact h

end Stored

/-! ## Interleavings end -/

/-- A bound on what the workers still do. -/
def remaining (rowCount : UInt64) (options : BulkBaseOptions) (s : ChunkWorkers ι) : Nat :=
  8 * ((totalChunks rowCount options).toNat + Fintype.card ι - s.next.toNat) +
    ∑ w, (s.phase w).weight

/-- An event of a worker that is not at its end. -/
def Acts (s : ChunkWorkers ι) (event : WorkerEvent ι) : Prop := s.phase event.worker ≠ .finished

/-- An event of a worker that is not at its end uses up a part of the bound. -/
theorem remaining_lt {s : ChunkWorkers ι} (h : Counted rowCount options s)
    (hroom : Room ι rowCount options) {event : WorkerEvent ι} (hacts : Acts s event) :
    remaining rowCount options (s.step rowCount options executeChunk event) <
      remaining rowCount options s := by
  -- all but a draw leave the counter alone and go to a place of less weight
  have hlighter : ∀ (s' : ChunkWorkers ι) (phase : WorkerPhase), s'.next = s.next →
      s'.phase = Function.update s.phase event.worker phase →
      phase.weight < (s.phase event.worker).weight →
      remaining rowCount options s' < remaining rowCount options s := by
    intro s' phase hnext hphase hweight
    have hsum := sum_update_add WorkerPhase.weight s.phase event.worker phase
    unfold remaining
    rw [hnext, hphase]
    omega
  have hended := sum_ended_lt hacts
  have hle := h.next_le
  have hsucc := h.next_succ hroom hacts
  unfold ChunkWorkers.step
  split
  · rename_i hw
    refine hlighter _ _ rfl rfl ?_
    rw [hw]
    split <;> decide
  · rename_i hw
    have hdraw : ∀ phase : WorkerPhase, phase.weight ≤ 5 →
        remaining rowCount options ({ s with next := s.next + 1 }.move event.worker phase) <
          remaining rowCount options s := by
      intro phase hweight
      have hsum := sum_update_add WorkerPhase.weight s.phase event.worker phase
      unfold remaining
      show 8 * (_ - (s.next + 1).toNat) +
        ∑ v, (Function.update s.phase event.worker phase v).weight < _
      rw [hsucc]
      rw [hw] at hsum
      omega
    split
    · exact hdraw _ (by decide)
    · exact hdraw _ (Nat.le_refl _)
  · rename_i hw
    split
    · refine hlighter _ _ rfl rfl ?_
      rw [hw]
      exact Nat.lt_succ_self 4
    · refine hlighter _ _ rfl rfl ?_
      rw [hw]
      exact Nat.lt_of_lt_of_le (Nat.lt_succ_self 3) (Nat.le_succ 4)
  · rename_i hw
    refine hlighter _ _ rfl rfl ?_
    rw [hw]
    exact Nat.lt_succ_self 2
  · rename_i hw
    refine hlighter _ _ rfl rfl ?_
    rw [hw]
    exact Nat.zero_lt_succ 1
  · rename_i hw
    exact absurd hw hacts

/-- A run of workers that act has a bounded length, and goes on until all are at their ends. -/
theorem events_end {s : ChunkWorkers ι} (h : Counted rowCount options s)
    (hroom : Room ι rowCount options) :
    (∀ events, AlongEvents (ChunkWorkers.step rowCount options executeChunk) Acts s events →
      events.length ≤ remaining rowCount options s) ∧
    ∃ events, AlongEvents (ChunkWorkers.step rowCount options executeChunk) Acts s events ∧
      (runEvents (ChunkWorkers.step rowCount options executeChunk) s events).Done := by
  constructor
  · intro events
    induction events generalizing s with
    | nil => exact fun _ => Nat.zero_le _
    | cons event events ih =>
      intro halong
      have hlt : remaining rowCount options (s.step rowCount options executeChunk event) <
          remaining rowCount options s := remaining_lt h hroom halong.1
      have hrest := ih (h.step hroom event) halong.2
      rw [List.length_cons]
      omega
  · induction hn : remaining rowCount options s using Nat.strong_induction_on generalizing s with
    | _ n ih =>
      by_cases hdone : s.Done
      · exact ⟨[], trivial, hdone⟩
      · obtain ⟨w, hw⟩ := not_forall.mp hdone
        have hlt : remaining rowCount options (s.step rowCount options executeChunk ⟨w, 0⟩) <
            remaining rowCount options s := remaining_lt h hroom hw
        obtain ⟨events, halong, hend⟩ := ih _ (hn ▸ hlt) (h.step hroom ⟨w, 0⟩) rfl
        exact ⟨⟨w, 0⟩ :: events, ⟨hw, halong⟩, hend⟩

/-! ## What runs return -/

/-- Every chunk has been called once, and the outcomes are those of the calls. -/
structure Completed (rowCount : UInt64) (options : BulkBaseOptions) (executeChunk : ExecuteChunk)
    (calls : List ChunkCall) (result : Except Exn (List ChunkOutcome)) : Prop where
  calls : calls.Perm ((chunkIndices rowCount options).map (chunkCall rowCount options · true))
  outcomes : ∃ outcomes, result = .ok outcomes ∧
    List.Forall₂ (IsOutcome rowCount options executeChunk) (chunkIndices rowCount options) outcomes

theorem runSequential_returned {clock : UInt64 → UInt64} (indices : List UInt64)
    (hreturned : ∀ call ∈ (runSequential rowCount options executeChunk clock indices).1,
      call.returned = true) :
    (runSequential rowCount options executeChunk clock indices).1 =
        indices.map (chunkCall rowCount options · true) ∧
      ∃ outcomes, (runSequential rowCount options executeChunk clock indices).2 = .ok outcomes ∧
        List.Forall₂ (IsOutcome rowCount options executeChunk) indices outcomes := by
  induction indices with
  | nil => exact ⟨rfl, [], rfl, .nil⟩
  | cons i indices ih =>
    cases hrun : runOne rowCount options executeChunk (clock i) i with
    | error e =>
      simp only [runSequential, hrun] at hreturned
      exact nomatch hreturned _ List.mem_cons_self
    | ok outcome =>
      simp only [runSequential, hrun, List.forall_mem_cons] at hreturned ⊢
      obtain ⟨hcalls, outcomes, hresult, houtcomes⟩ := ih hreturned.2
      rw [hcalls, hresult]
      exact ⟨rfl, outcome :: outcomes, rfl, .cons ⟨clock i, hrun⟩ houtcomes⟩

omit [DecidableEq ι] in
/-- In a final state without a throw, the calls are all chunks. -/
theorem Counted.calls_perm {s : ChunkWorkers ι} (h : Counted rowCount options s)
    (hstored : Stored rowCount options executeChunk s) (hdone : s.Done) (hsome : Nonempty ι)
    (hreturned : ∀ call ∈ s.calls, call.returned = true) :
    s.calls.Perm ((chunkIndices rowCount options).map (chunkCall rowCount options · true)) := by
  obtain ⟨w⟩ := hsome
  have hpassed := ((hstored.clean hreturned).2.2 w).finished (hdone w)
  have hruns : ∀ i, ∑ v, (s.phase v).runs i = 0 := by
    intro i
    apply Finset.sum_eq_zero
    intro v _
    rw [hdone v]
    rfl
  have hcount : ∀ i, (s.calls.map (·.chunkIndex.toNat)).count i =
      (List.range (totalChunks rowCount options).toNat).count i := by
    intro i
    have hi := h.count i
    rw [hruns, Nat.add_zero] at hi
    have hmap : (s.calls.map (·.chunkIndex.toNat)).count i = callsOf i s.calls := by
      unfold List.count callsOf
      rw [List.countP_map]
      rfl
    rw [hmap, hi, List.nodup_range.count]
    unfold draws
    simp only [List.mem_range]
    have hiff : i < s.next.toNat ∧ i < (totalChunks rowCount options).toNat ↔
        i < (totalChunks rowCount options).toNat := by omega
    simp only [hiff]
  have hperm : (s.calls.map (·.chunkIndex.toNat)).Perm
      (List.range (totalChunks rowCount options).toNat) := List.perm_iff_count.mpr hcount
  have hcalls : s.calls = (s.calls.map (·.chunkIndex.toNat)).map
      fun i => chunkCall rowCount options (UInt64.ofNat i) true := by
    rw [List.map_map]
    have hsame : ∀ call ∈ s.calls,
        chunkCall rowCount options (UInt64.ofNat call.chunkIndex.toNat) true = id call := by
      intro call hcall
      rw [UInt64.ofNat_toNat, ← hreturned call hcall]
      exact (hstored.call call hcall).symm
    exact ((List.map_congr_left hsame).trans (List.map_id _)).symm
  have hmap := hperm.map fun i => chunkCall rowCount options (UInt64.ofNat i) true
  rw [← hcalls] at hmap
  unfold chunkIndices
  rw [List.map_map]
  exact hmap

omit [Fintype ι] [DecidableEq ι] in
theorem Stored.outcomes {s : ChunkWorkers ι} (hstored : Stored rowCount options executeChunk s)
    (hcalls :
      s.calls.Perm ((chunkIndices rowCount options).map (chunkCall rowCount options · true))) :
    List.Forall₂ (IsOutcome rowCount options executeChunk) (chunkIndices rowCount options)
      s.outcomes := by
  have hlength : (chunkIndices rowCount options).length = s.outcomes.length := by
    rw [hstored.length]
    simp [chunkIndices]
  rw [List.forall₂_iff_get]
  refine ⟨hlength, fun i hi hi' => ?_⟩
  have hget : (chunkIndices rowCount options).get ⟨i, hi⟩ = UInt64.ofNat i := by
    simp [chunkIndices]
  have hmem : chunkCall rowCount options (UInt64.ofNat i) true ∈ s.calls := by
    rw [hcalls.mem_iff, ← hget]
    exact List.mem_map_of_mem (List.get_mem _ _)
  obtain ⟨outcome, hout, houtcome⟩ := hstored.outcome _ hmem rfl
  have hlt : i < 2 ^ 64 := by
    have htotal := (totalChunks rowCount options).toNat_lt
    rw [hstored.length] at hi'
    omega
  have hindex : (chunkCall rowCount options (UInt64.ofNat i) true).chunkIndex.toNat = i := by
    show (UInt64.ofNat i).toNat = i
    rw [UInt64.toNat_ofNat', Nat.mod_eq_of_lt hlt]
  rw [hindex] at hout
  rw [hget]
  have hvalue : s.outcomes.get ⟨i, hi'⟩ = outcome := by
    rw [List.get_eq_getElem]
    exact (List.getElem?_eq_some_iff.mp hout).2
  rw [hvalue]
  exact houtcome

/-- The workers of a run are not none, and there is room for their draws. -/
theorem workers_room {maxSize : Nat} (hmax : maxSize < 2 ^ 63)
    (hworkers : 1 ≤ options.concurrency) (hsize : (totalChunks rowCount options).toNat ≤ maxSize)
    (hsome : totalChunks rowCount options ≠ 0) :
    Room (Fin (workerCount rowCount options).toNat) rowCount options ∧
      Nonempty (Fin (workerCount rowCount options).toNat) := by
  have hpos : 0 < (totalChunks rowCount options).toNat :=
    Nat.pos_of_ne_zero fun h => hsome (UInt64.toNat_inj.mp h)
  have hone := one_le_toNat hworkers
  have hcount : (workerCount rowCount options).toNat =
      min options.concurrency.toNat (totalChunks rowCount options).toNat := toNat_min _ _
  constructor
  · unfold Room
    rw [Fintype.card_fin]
    omega
  · exact ⟨⟨0, by omega⟩⟩

/-- What a run does that returns no error: everything is called once. -/
theorem RunChunks.completed {maxSize : Nat} (hmax : maxSize < 2 ^ 63)
    (hchunk : 1 ≤ options.chunkSize) (hworkers : 1 ≤ options.concurrency)
    (hsize : (totalChunks rowCount options).toNat ≤ maxSize) {calls : List ChunkCall}
    {result : Except Exn (List ChunkOutcome)}
    (h : RunChunks maxSize rowCount options executeChunk calls result)
    (hreturned : ∀ call ∈ calls, call.returned = true) :
    Completed rowCount options executeChunk calls result := by
  have hoptions := validateBaseOptions_ok hchunk hworkers
  cases h with
  | refused hrefused => cases hoptions.symm.trans hrefused
  | tooMany _ hlt => omega
  | none _ hnone =>
    have hindices : chunkIndices rowCount options = [] := by
      simp [chunkIndices, hnone]
    refine ⟨?_, [], rfl, ?_⟩
    · rw [hindices]
      exact .nil
    · rw [hindices]
      exact .nil
  | sequential _ _ _ _ clock =>
    obtain ⟨hcalls, houtcomes⟩ := runSequential_returned _ hreturned
    exact ⟨.of_eq hcalls, houtcomes⟩
  | concurrent _ _ hsome _ events hrun hdone =>
    rename_i s
    obtain ⟨hroom, hnonempty⟩ := workers_room hmax hworkers hsize hsome
    have hinv : Counted rowCount options s ∧ Stored rowCount options executeChunk s := by
      rw [← hrun]
      refine runEvents_invariant
        (fun s => Counted rowCount options s ∧ Stored rowCount options executeChunk s) ?_
        ⟨counted_init, stored_init⟩
      exact fun s event _ hs => ⟨hs.1.step hroom event, hs.2.step hs.1 hroom event⟩
    have hperm := hinv.1.calls_perm hinv.2 hdone hnonempty hreturned
    refine ⟨hperm, s.outcomes, ?_, hinv.2.outcomes hperm⟩
    unfold ChunkWorkers.result
    rw [(hinv.2.clean hreturned).2.1]

/-! ## Outcomes and their sum -/

/-- An outcome less the time it took. -/
def ChunkOutcome.untimed (outcome : ChunkOutcome) : ChunkOutcome := { outcome with elapsedMs := 0 }

/-- A result less the times of the chunks. -/
def BulkResult.untimed (result : BulkResult) : BulkResult := { result with chunkTimingsMs := none }

theorem runOne_ok {elapsed i : UInt64} {outcome : ChunkOutcome}
    (h : runOne rowCount options executeChunk elapsed i = .ok outcome) :
    ∃ executed, executeChunk i (chunkBegin options i) (chunkEnd rowCount options i) = .ok executed ∧
      outcome.untimed = executed.untimed := by
  obtain ⟨executed, hexecuted, h⟩ := except_bind_ok h
  refine ⟨executed, hexecuted, ?_⟩
  dsimp only at h
  have htimed : ∀ timed : Bool,
      (if timed = true then { executed with elapsedMs := elapsed } else executed).untimed =
        executed.untimed := by
    intro timed
    cases timed <;> rfl
  cases hcallback : options.onChunkComplete with
  | none =>
    rw [hcallback] at h
    cases h
    exact htimed _
  | some callback =>
    rw [hcallback] at h
    obtain ⟨_, _, h⟩ := except_bind_ok h
    cases h
    exact htimed _

theorem IsOutcome.untimed_eq {options' : BulkBaseOptions} (hchunk : options.chunkSize = options'.chunkSize)
    {i : UInt64} {outcome outcome' : ChunkOutcome}
    (h : IsOutcome rowCount options executeChunk i outcome)
    (h' : IsOutcome rowCount options' executeChunk i outcome') :
    outcome.untimed = outcome'.untimed := by
  obtain ⟨elapsed, hrun⟩ := h
  obtain ⟨elapsed', hrun'⟩ := h'
  obtain ⟨executed, hexecuted, hsame⟩ := runOne_ok hrun
  obtain ⟨executed', hexecuted', hsame'⟩ := runOne_ok hrun'
  have hends : chunkBegin options i = chunkBegin options' i ∧
      chunkEnd rowCount options i = chunkEnd rowCount options' i := by
    unfold chunkEnd chunkBegin
    rw [hchunk]
    exact ⟨rfl, rfl⟩
  rw [hends.1, hends.2, hexecuted'] at hexecuted
  rw [hsame, hsame', Except.ok.inj hexecuted]

theorem addOutcomes_untimed {outcomes outcomes' : List ChunkOutcome}
    (h : outcomes.map ChunkOutcome.untimed = outcomes'.map ChunkOutcome.untimed)
    {result result' : BulkResult} (hresult : result.untimed = result'.untimed) :
    (addOutcomes result outcomes).untimed = (addOutcomes result' outcomes').untimed := by
  induction outcomes generalizing outcomes' result result' with
  | nil =>
    cases outcomes' with
    | nil => exact hresult
    | cons outcome outcomes' => cases h
  | cons outcome outcomes ih =>
    cases outcomes' with
    | nil => cases h
    | cons outcome' outcomes' =>
      obtain ⟨hhead, htail⟩ := List.cons.inj h
      refine ih htail ?_
      simp only [ChunkOutcome.untimed, ChunkOutcome.mk.injEq, and_true] at hhead
      simp only [BulkResult.untimed, BulkResult.mk.injEq, true_and] at hresult ⊢
      obtain ⟨hrows, hchunks, hreturning, hmetadata⟩ := hresult
      exact ⟨by rw [hrows, hhead.1], hchunks, by rw [hreturning, hhead.2], hmetadata⟩

theorem aggregate_untimed {outcomes outcomes' : List ChunkOutcome}
    (h : outcomes.map ChunkOutcome.untimed = outcomes'.map ChunkOutcome.untimed) (timing : Bool)
    (strategy : BulkStrategy) (dialect : String) :
    (aggregate outcomes timing strategy dialect).untimed =
      (aggregate outcomes' timing strategy dialect).untimed := by
  have hlength : outcomes.length = outcomes'.length := by
    have := congrArg List.length h
    simpa using this
  have hstart : BulkResult.untimed {
        chunksExecuted := UInt64.ofNat outcomes.length
        chunkTimingsMs := if timing then some [] else none } = BulkResult.untimed {
        chunksExecuted := UInt64.ofNat outcomes'.length
        chunkTimingsMs := if timing then some [] else none } := by
    rw [hlength]
  have hadd := addOutcomes_untimed h hstart
  unfold aggregate
  simp only [BulkResult.untimed, BulkResult.mk.injEq, true_and] at hadd ⊢
  exact ⟨hadd.1, hadd.2.1, hadd.2.2.1, trivial⟩

theorem addOutcomes_processedRows {outcomes : List ChunkOutcome} {result : BulkResult}
    (hfits : result.processedRows.toNat + (outcomes.map (·.processedRows.toNat)).sum < 2 ^ 64) :
    (addOutcomes result outcomes).processedRows.toNat =
      result.processedRows.toNat + (outcomes.map (·.processedRows.toNat)).sum := by
  induction outcomes generalizing result with
  | nil => rfl
  | cons outcome outcomes ih =>
    rw [List.map_cons, List.sum_cons] at hfits ⊢
    have hadd : (result.processedRows + outcome.processedRows).toNat =
        result.processedRows.toNat + outcome.processedRows.toNat := by
      rw [UInt64.toNat_add]
      omega
    rw [addOutcomes, ih]
    · show (result.processedRows + outcome.processedRows).toNat + _ = _
      omega
    · show (result.processedRows + outcome.processedRows).toNat + _ < _
      omega

theorem addOutcomes_chunksExecuted (outcomes : List ChunkOutcome) (result : BulkResult) :
    (addOutcomes result outcomes).chunksExecuted = result.chunksExecuted := by
  induction outcomes generalizing result with
  | nil => rfl
  | cons outcome outcomes ih => exact ih _

theorem sum_differences {b : Nat → Nat} {n : Nat} (h : ∀ i < n, b i ≤ b (i + 1)) :
    ((List.range n).map fun i => b (i + 1) - b i).sum + b 0 = b n := by
  induction n with
  | zero => simp
  | succ n ih =>
    have hn := h n (Nat.lt_succ_self n)
    have hrest := ih fun i hi => h i (Nat.lt_succ_of_lt hi)
    rw [List.range_succ, List.map_append, List.sum_append]
    simp only [List.map_cons, List.map_nil, List.sum_cons, List.sum_nil]
    omega

/-! ## The partition -/

/-- `execute_chunk` reports the rows of its chunk, as the bulk operations do. -/
def Reports (executeChunk : ExecuteChunk) : Prop :=
  ∀ i first last outcome, executeChunk i first last = .ok outcome →
    outcome.processedRows = last - first

/-- The calls are, in the order of their indices, consecutive parts of the rows that are not
    empty; the outcomes are those of a run with concurrency 1, but for the times. -/
def Partitions (maxSize : Nat) (rowCount : UInt64) (options : BulkBaseOptions)
    (executeChunk : ExecuteChunk) (calls : List ChunkCall)
    (result : Except Exn (List ChunkOutcome)) : Prop :=
  ∃ (n : Nat) (bounds : Nat → Nat) (outcomes : List ChunkOutcome),
    bounds 0 = 0 ∧ bounds n = rowCount.toNat ∧ (∀ i < n, bounds i < bounds (i + 1)) ∧
    (calls.map fun call => (call.chunkIndex.toNat, call.first.toNat, call.last.toNat)).Perm
      ((List.range n).map fun i => (i, bounds i, bounds (i + 1))) ∧
    result = .ok outcomes ∧
    (∀ timing strategy dialect,
      (aggregate outcomes timing strategy dialect).chunksExecuted.toNat = n ∧
      (Reports executeChunk →
        (aggregate outcomes timing strategy dialect).processedRows = rowCount)) ∧
    ∀ calls' result',
      RunChunks maxSize rowCount { options with concurrency := 1 } executeChunk calls' result' →
      (∀ call ∈ calls', call.returned = true) → calls.Perm calls' ∧
        ∃ outcomes', result' = .ok outcomes' ∧
          outcomes.map ChunkOutcome.untimed = outcomes'.map ChunkOutcome.untimed ∧
          ∀ timing strategy dialect, (aggregate outcomes timing strategy dialect).untimed =
            (aggregate outcomes' timing strategy dialect).untimed

/-- Every interleaving of the workers ends: a run in which they act is bounded, and goes on until
    they are joined. -/
def Ends (rowCount : UInt64) (options : BulkBaseOptions) (executeChunk : ExecuteChunk) : Prop :=
  ∃ limit, ∀ events : List (WorkerEvent (Fin (workerCount rowCount options).toNat)),
    AlongEvents (ChunkWorkers.step rowCount options executeChunk) Acts
      (ChunkWorkers.init rowCount options) events →
    events.length ≤ limit ∧ ∃ more,
      AlongEvents (ChunkWorkers.step rowCount options executeChunk) Acts
        (ChunkWorkers.init rowCount options) (events ++ more) ∧
      (runEvents (ChunkWorkers.step rowCount options executeChunk)
        (ChunkWorkers.init rowCount options) (events ++ more)).Done

theorem toNat_ofNat_lt {n : Nat} {total : UInt64} (h : n < total.toNat) :
    (UInt64.ofNat n).toNat = n := by
  have htotal := total.toNat_lt
  rw [UInt64.toNat_ofNat', Nat.mod_eq_of_lt (by omega)]

namespace Completed

variable {calls : List ChunkCall} {result : Except Exn (List ChunkOutcome)}

theorem ranges (h : Completed rowCount options executeChunk calls result)
    (hchunk : 1 ≤ options.chunkSize) (hwrap : NoWrap rowCount options) :
    (calls.map fun call => (call.chunkIndex.toNat, call.first.toNat, call.last.toNat)).Perm
      ((List.range (totalChunks rowCount options).toNat).map fun i =>
        (i, bound rowCount options i, bound rowCount options (i + 1))) := by
  refine (h.calls.map _).trans (.of_eq ?_)
  unfold chunkIndices
  rw [List.map_map, List.map_map]
  apply List.map_congr_left
  intro i hi
  have hindex := toNat_ofNat_lt (List.mem_range.mp hi)
  have hlt : (UInt64.ofNat i).toNat < (totalChunks rowCount options).toNat := by
    rw [hindex]
    exact List.mem_range.mp hi
  have hbegin := chunkBegin_toNat hchunk hwrap hlt
  have hend := chunkEnd_toNat hchunk hwrap hlt
  rw [hindex] at hbegin hend
  show ((UInt64.ofNat i).toNat, (chunkBegin options (UInt64.ofNat i)).toNat,
    (chunkEnd rowCount options (UInt64.ofNat i)).toNat) = _
  rw [hindex, hbegin, hend]

/-- The reported rows add up to all rows. -/
theorem processedRows {outcomes : List ChunkOutcome} (hchunk : 1 ≤ options.chunkSize)
    (hwrap : NoWrap rowCount options) (hreports : Reports executeChunk)
    (houtcomes : List.Forall₂ (IsOutcome rowCount options executeChunk)
      (chunkIndices rowCount options) outcomes) :
    (outcomes.map (·.processedRows.toNat)).sum = rowCount.toNat := by
  have hrows : outcomes.map (·.processedRows.toNat) =
      (chunkIndices rowCount options).map fun i =>
        (chunkEnd rowCount options i - chunkBegin options i).toNat := by
    clear hchunk hwrap
    generalize chunkIndices rowCount options = indices at houtcomes
    induction houtcomes with
    | nil => rfl
    | cons houtcome _ ih =>
      obtain ⟨elapsed, hrun⟩ := houtcome
      obtain ⟨executed, hexecuted, hsame⟩ := runOne_ok hrun
      have hprocessed := congrArg ChunkOutcome.processedRows hsame
      have hreported := hreports _ _ _ _ hexecuted
      rw [List.map_cons, List.map_cons, ih, ← hreported]
      exact congrArg (fun n : UInt64 => n.toNat :: _) hprocessed
  obtain ⟨hzero, hall, hmono⟩ := bound_spec hchunk hwrap
  have hsum := sum_differences fun i hi => Nat.le_of_lt (hmono i hi)
  rw [hzero, hall, Nat.add_zero] at hsum
  rw [hrows, ← hsum]
  unfold chunkIndices
  rw [List.map_map]
  congr 1
  apply List.map_congr_left
  intro i hi
  have hindex := toNat_ofNat_lt (List.mem_range.mp hi)
  have hlt : (UInt64.ofNat i).toNat < (totalChunks rowCount options).toNat := by
    rw [hindex]
    exact List.mem_range.mp hi
  have hbegin := chunkBegin_toNat hchunk hwrap hlt
  have hend := chunkEnd_toNat hchunk hwrap hlt
  rw [hindex] at hbegin hend
  have hle := Nat.le_of_lt (hmono i (List.mem_range.mp hi))
  have hsub : chunkBegin options (UInt64.ofNat i) ≤ chunkEnd rowCount options (UInt64.ofNat i) := by
    rw [UInt64.le_iff_toNat_le, hbegin, hend]
    exact hle
  show (chunkEnd rowCount options (UInt64.ofNat i) - chunkBegin options (UInt64.ofNat i)).toNat = _
  rw [UInt64.toNat_sub_of_le _ _ hsub, hbegin, hend]

/-- A completed run partitions the rows. -/
theorem partitions {maxSize : Nat} (h : Completed rowCount options executeChunk calls result)
    (hmax : maxSize < 2 ^ 63) (hchunk : 1 ≤ options.chunkSize) (hwrap : NoWrap rowCount options)
    (hsize : (totalChunks rowCount options).toNat ≤ maxSize) :
    Partitions maxSize rowCount options executeChunk calls result := by
  obtain ⟨hzero, hall, hmono⟩ := bound_spec hchunk hwrap
  obtain ⟨outcomes, hresult, houtcomes⟩ := h.outcomes
  refine ⟨(totalChunks rowCount options).toNat, bound rowCount options, outcomes, hzero, hall, hmono,
    h.ranges hchunk hwrap, hresult, fun timing strategy dialect => ⟨?_, fun hreports => ?_⟩,
    fun calls' result' hrun hreturned => ?_⟩
  · show (addOutcomes _ outcomes).chunksExecuted.toNat = _
    have hlength : outcomes.length = (totalChunks rowCount options).toNat := by
      rw [← houtcomes.length_eq]
      simp [chunkIndices]
    have hlt := (totalChunks rowCount options).toNat_lt
    rw [addOutcomes_chunksExecuted, hlength]
    show (UInt64.ofNat (totalChunks rowCount options).toNat).toNat = _
    rw [UInt64.ofNat_toNat]
  · have hsum := processedRows hchunk hwrap hreports houtcomes
    have hlt := rowCount.toNat_lt
    apply UInt64.toNat_inj.mp
    show (addOutcomes _ outcomes).processedRows.toNat = _
    rw [addOutcomes_processedRows]
    · show (0 : UInt64).toNat + _ = _
      rw [hsum]
      exact Nat.zero_add _
    · show (0 : UInt64).toNat + _ < _
      rw [hsum]
      exact Nat.lt_of_le_of_lt (Nat.le_of_eq (Nat.zero_add _)) hlt
  · -- the options with concurrency 1 have the same chunks
    have hchunk' : 1 ≤ ({ options with concurrency := 1 } : BulkBaseOptions).chunkSize := hchunk
    have hsequential : Completed rowCount { options with concurrency := 1 } executeChunk calls'
        result' := hrun.completed hmax hchunk' (UInt64.le_refl 1) hsize hreturned
    obtain ⟨hcalls, outcomes', hresult', houtcomes'⟩ := hsequential
    have hsame : outcomes.map ChunkOutcome.untimed = outcomes'.map ChunkOutcome.untimed := by
      have hindices : chunkIndices rowCount { options with concurrency := 1 } =
          chunkIndices rowCount options := rfl
      rw [hindices] at houtcomes'
      clear hcalls hresult hresult'
      generalize chunkIndices rowCount options = indices at houtcomes houtcomes'
      induction houtcomes generalizing outcomes' with
      | nil =>
        cases houtcomes'
        rfl
      | cons houtcome _ ih =>
        cases houtcomes' with
        | cons houtcome' houtcomes' =>
          have hhead : _ = _ := houtcome.untimed_eq rfl houtcome'
          rw [List.map_cons, List.map_cons, hhead, ih _ houtcomes']
    exact ⟨h.calls.trans hcalls.symm, outcomes', hresult', hsame,
      fun timing strategy dialect => aggregate_untimed hsame timing strategy dialect⟩

end Completed

/-- In every interleaving in which no chunk throws, the chunks partition the rows and the outcomes
    are those of concurrency 1, if and only if the sum of the rounding-up division does not wrap
    around and the outcomes fit into a vector. Then every interleaving ends. -/
theorem run_chunks_partition {maxSize : Nat} (hmax : maxSize < 2 ^ 63)
    (hchunk : 1 ≤ options.chunkSize) (hworkers : 1 ≤ options.concurrency)
    (executeChunk : ExecuteChunk) :
    ((∀ calls result, RunChunks maxSize rowCount options executeChunk calls result →
        (∀ call ∈ calls, call.returned = true) →
        Partitions maxSize rowCount options executeChunk calls result) ↔
      NoWrap rowCount options ∧ (totalChunks rowCount options).toNat ≤ maxSize) ∧
    (NoWrap rowCount options ∧ (totalChunks rowCount options).toNat ≤ maxSize →
      totalChunks rowCount options ≠ 0 → Ends rowCount options executeChunk) := by
  have hoptions := validateBaseOptions_ok hchunk hworkers
  refine ⟨⟨fun h => ⟨?_, ?_⟩, fun h calls result hrun hreturned => ?_⟩, fun h hsome => ?_⟩
  · by_contra hwrap
    obtain ⟨n, bounds, outcomes, hzero, hall, -, hperm, -⟩ :=
      h [] (.ok []) (.none hoptions (totalChunks_wrapped hwrap)) nofun
    have hn : n = 0 := by
      have hlength := hperm.length_eq
      simpa using hlength.symm
    rw [hn, hzero] at hall
    exact hwrap (.inl (UInt64.toNat_inj.mp hall.symm))
  · by_contra hsize
    obtain ⟨_, _, outcomes, _, _, _, _, hresult, _⟩ :=
      h [] (.error lengthError) (.tooMany hoptions (Nat.lt_of_not_le hsize)) nofun
    cases hresult
  · exact (hrun.completed hmax hchunk hworkers h.2 hreturned).partitions hmax hchunk h.1 h.2
  · obtain ⟨hroom, -⟩ := workers_room hmax hworkers h.2 hsome
    refine ⟨_, fun events halong => ⟨(events_end counted_init hroom).1 events halong, ?_⟩⟩
    have hcounted : Counted rowCount options
        (runEvents (ChunkWorkers.step rowCount options executeChunk)
          (ChunkWorkers.init rowCount options) events) :=
      runEvents_invariant (Counted rowCount options) (fun s event _ hs => hs.step hroom event)
        counted_init
    obtain ⟨more, hmore, hdone⟩ := (events_end hcounted hroom).2
    refine ⟨more, halong.append hmore, ?_⟩
    rw [runEvents_append]
    exact hdone

/-- A chunk that returns no rows. -/
def countRows : ExecuteChunk := fun _ first last => .ok { processedRows := last - first }

/-- Five rows in chunks of two, for two workers. -/
theorem run_chunks_partition_five :
    (∀ calls result, RunChunks 1000 5 { chunkSize := 2, concurrency := 2 } countRows calls result →
      (∀ call ∈ calls, call.returned = true) →
      Partitions 1000 5 { chunkSize := 2, concurrency := 2 } countRows calls result) ∧
    Ends 5 { chunkSize := 2, concurrency := 2 } countRows := by
  have hfits : NoWrap 5 { chunkSize := 2, concurrency := 2 } ∧
      (totalChunks 5 { chunkSize := 2, concurrency := 2 }).toNat ≤ 1000 :=
    ⟨.inr (by decide), by decide⟩
  have h : _ ∧ (_ → totalChunks 5 { chunkSize := 2, concurrency := 2 } ≠ 0 →
      Ends 5 { chunkSize := 2, concurrency := 2 } countRows) :=
    run_chunks_partition (by decide : 1000 < 2 ^ 63) (by decide) (by decide) countRows
  exact ⟨h.1.mpr hfits, h.2 hfits (by decide)⟩

/-- Two rows in a chunk of the largest size: nothing is executed. -/
theorem not_run_chunks_partition :
    ∃ calls result, RunChunks 1000 2 { chunkSize := 0xffffffffffffffff } countRows calls result ∧
      (∀ call ∈ calls, call.returned = true) ∧
      ¬ Partitions 1000 2 { chunkSize := 0xffffffffffffffff } countRows calls result := by
  refine ⟨[], .ok [], .none rfl (by decide), nofun, ?_⟩
  rintro ⟨n, bounds, outcomes, hzero, hall, -, hperm, -⟩
  have hn : n = 0 := by
    have hlength := hperm.length_eq
    simpa using hlength.symm
  rw [hn, hzero] at hall
  exact absurd hall (by decide)

end MetalOrm.Native.Bulk
