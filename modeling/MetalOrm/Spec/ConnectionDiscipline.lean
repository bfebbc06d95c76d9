import Mathlib.Data.Fintype.Sum
import MetalOrm.Native.PooledExecutor
import MetalOrm.Spec.PoolSafety

/-!
# Connections of pooled executors

Executors share a pool, and their connections have transactions. An executor with an
active transaction holds a lease, its calls go to that connection, and a connection
whose transaction is open or unknown is not given back to the idle list.

## Key results

- `doomed_next`: a connection that is to be destroyed is destroyed
- `Disciplined.update`: what a step of one executor has to show
- `disciplined_next`: every event keeps the invariant
- `connection_discipline`: what holds in every state that is reached
-/

namespace MetalOrm.Native

open ForStd

/-! ## Connections on their way out -/

/-- A thread with this section is going to hand the resource to `adapter.destroy`. -/
def PoolSection.dooms (r : Resource) : PoolSection → Prop
  | .discard r' _ | .destroyLease r' => r' = r
  | .dispose rs _ => r ∈ rs
  | .validate _ | .grantIdle _ | .grantNew _ | .release _ | .reserve | .create | .abort | .reap
  | .destroyPool => False

theorem PoolSection.dooms_held {r : Resource} {current : PoolSection} (h : current.dooms r) :
    r ∈ current.held := by
  cases current with
  | discard r' retry => exact Multiset.mem_singleton.mpr (Eq.symm h)
  | destroyLease r' => exact Multiset.mem_singleton.mpr (Eq.symm h)
  | dispose rs retry => exact Multiset.mem_coe.mpr h
  | validate | grantIdle | grantNew | release | reserve | create | abort | reap | destroyPool =>
    exact h.elim

/-- What was handed to `adapter.destroy` stays so. -/
theorem run_handed {pool : Pool} {r : Resource} (h : r ∈ pool.handed) (options : PoolOptions)
    (now : Int) (outcome : Outcome) (current : PoolSection) :
    r ∈ (current.run options now outcome pool).1.handed := by
  cases current with
  | reserve =>
    simp only [PoolSection.run]
    split
    · exact h
    · split
      · exact h
      · split
        · exact h
        · split <;> exact h
  | validate r' => cases outcome <;> exact h
  | create => cases outcome <;> exact h
  | dispose rs retry =>
    cases rs with
    | nil => exact h
    | cons r' rs => exact List.mem_cons_of_mem r' h
  | grantIdle | grantNew | release | reap | destroyPool =>
    simp only [PoolSection.run]
    split <;> exact h
  | discard | abort | destroyLease => exact h

/-- A resource that a section is to hand over is handed over, or the next section is to. -/
theorem run_dooms {pool : Pool} {r : Resource} {current : PoolSection} (h : current.dooms r)
    (options : PoolOptions) (now : Int) (outcome : Outcome) :
    r ∈ (current.run options now outcome pool).1.handed ∨
      ∃ current', (current.run options now outcome pool).2 = .next current' ∧
        current'.dooms r := by
  cases current with
  | discard r' retry => exact Or.inr ⟨_, rfl, List.mem_singleton.mpr (Eq.symm h)⟩
  | destroyLease r' => exact Or.inr ⟨_, rfl, List.mem_singleton.mpr (Eq.symm h)⟩
  | dispose rs retry =>
    cases rs with
    | nil => exact absurd h List.not_mem_nil
    | cons r' rs =>
      cases List.mem_cons.mp h with
      | inl h => exact Or.inl (h ▸ List.mem_cons_self)
      | inr h =>
        -- there is more to dispose of, so the loop goes on
        have hne : rs ≠ [] := List.ne_nil_of_mem h
        apply Or.inr
        refine ⟨.dispose rs false, ?_, h⟩
        simp [PoolSection.run, Progress.disposeAll, hne]
  | validate | grantIdle | grantNew | release | reserve | create | abort | reap | destroyPool =>
    exact h.elim

/-- `acquire` returns a resource that its thread held. -/
theorem run_lease {pool : Pool} {r : Resource} {current : PoolSection} {options : PoolOptions}
    {now : Int} {outcome : Outcome} (h : (current.run options now outcome pool).2 = .lease r) :
    r ∈ current.held := by
  have hall : ∀ rs, Progress.disposeAll rs ≠ .lease r := by
    intro rs
    unfold Progress.disposeAll
    split <;> simp
  cases current with
  | grantIdle r' =>
    simp only [PoolSection.run] at h
    split at h
    · simp at h
    · simp only [Progress.lease.injEq] at h
      simp [h]
  | grantNew r' =>
    simp only [PoolSection.run] at h
    split at h
    · simp at h
    · simp only [Progress.lease.injEq] at h
      simp [h]
  | reserve =>
    simp only [PoolSection.run] at h
    split at h
    · simp at h
    · split at h
      · simp at h
      · split at h
        · simp at h
        · split at h <;> simp at h
  | validate r' => cases outcome <;> simp [PoolSection.run] at h
  | create => cases outcome <;> simp [PoolSection.run] at h
  | dispose rs retry =>
    cases rs with
    | nil => simp [PoolSection.run] at h
    | cons r' rs =>
      simp only [PoolSection.run] at h
      split at h
      · simp at h
      · exact absurd h (hall rs)
  | release r' =>
    simp only [PoolSection.run] at h
    split at h <;> simp at h
  | reap =>
    simp only [PoolSection.run] at h
    split at h
    · simp at h
    · exact absurd h (hall _)
  | destroyPool =>
    simp only [PoolSection.run] at h
    split at h
    · simp at h
    · exact absurd h (hall _)
  | discard | abort | destroyLease => simp [PoolSection.run] at h

namespace PoolThreads

variable {τ : Type} {options : PoolOptions} {s : PoolThreads τ}

/-- The resource was handed to `adapter.destroy`, or a thread is going to. -/
def Doomed (s : PoolThreads τ) (r : Resource) : Prop :=
  r ∈ s.pool.handed ∨ ∃ j current, s.pending j = some current ∧ current.dooms r

section Places

variable [Fintype τ]

/-- No resource is in two places. -/
theorem Safe.nodup (h : s.Safe options) :
    ((s.pool.idleResources : Multiset Resource) + s.pool.handed + s.leases +
      ∑ i, heldBy (s.pending i)).Nodup := by
  have hplaces : (s.pool.idleResources : Multiset Resource) + s.pool.handed + s.leases +
      ∑ i, heldBy (s.pending i) = Multiset.range s.pool.created := h.places
  rw [hplaces]
  exact Multiset.nodup_range _

theorem mem_sum_heldBy {r : Resource} {j : τ} (h : r ∈ heldBy (s.pending j)) :
    r ∈ ∑ i, heldBy (s.pending i) :=
  Multiset.mem_sum.mpr ⟨j, Finset.mem_univ j, h⟩

theorem Doomed.mem {r : Resource} (h : s.Doomed r) :
    r ∈ s.pool.handed ∨ r ∈ ∑ i, heldBy (s.pending i) := by
  apply h.imp_right
  intro hdoom
  obtain ⟨j, current, hj, hdoom⟩ := hdoom
  apply mem_sum_heldBy (j := j)
  rw [hj]
  exact PoolSection.dooms_held hdoom

/-- A leased resource is not about to be destroyed, and no thread holds it. -/
theorem Safe.lease_apart (h : s.Safe options) {r : Resource} (hr : r ∈ s.leases) :
    ¬ s.Doomed r ∧ ∀ j, r ∉ heldBy (s.pending j) := by
  have hnodup := h.nodup
  rw [Multiset.nodup_add, Multiset.nodup_add] at hnodup
  obtain ⟨⟨_, _, hstored⟩, _, hheld⟩ := hnodup
  have hsum : r ∉ ∑ i, heldBy (s.pending i) :=
    Multiset.disjoint_left.mp hheld (Multiset.mem_add.mpr (Or.inr (Multiset.mem_coe.mpr hr)))
  constructor
  · intro hdoom
    cases hdoom.mem with
    | inl hhanded =>
      exact Multiset.disjoint_left.mp hstored
        (Multiset.mem_add.mpr (Or.inr (Multiset.mem_coe.mpr hhanded))) (Multiset.mem_coe.mpr hr)
    | inr hheld => exact hsum hheld
  · exact fun j hj => hsum (mem_sum_heldBy hj)

/-- An idle resource is not leased and not about to be destroyed. -/
theorem Safe.idle_apart (h : s.Safe options) {r : Resource} (hr : r ∈ s.pool.idleResources) :
    ¬ s.Doomed r ∧ r ∉ s.leases := by
  have hnodup := h.nodup
  rw [Multiset.nodup_add, Multiset.nodup_add, Multiset.nodup_add] at hnodup
  obtain ⟨⟨⟨_, _, hhanded⟩, _, hleases⟩, _, hheld⟩ := hnodup
  have hidle : r ∈ (s.pool.idleResources : Multiset Resource) := Multiset.mem_coe.mpr hr
  have hstored : r ∈ (s.pool.idleResources : Multiset Resource) + s.pool.handed :=
    Multiset.mem_add.mpr (Or.inl hidle)
  constructor
  · intro hdoom
    cases hdoom.mem with
    | inl hdoom => exact Multiset.disjoint_left.mp hhanded hidle (Multiset.mem_coe.mpr hdoom)
    | inr hdoom =>
      exact Multiset.disjoint_left.mp hheld (Multiset.mem_add.mpr (Or.inl hstored)) hdoom
  · exact fun hl => Multiset.disjoint_left.mp hleases hstored (Multiset.mem_coe.mpr hl)

end Places

variable [DecidableEq τ]

theorem doomed_next {r : Resource} (h : s.Doomed r) (e : PoolEvent τ) :
    (s.next options e).Doomed r := by
  obtain hs | ⟨i, current, leases, hi, hs, _⟩ | ⟨i, current, outcome, now, hi, hs⟩ :=
    next_cases options s e
  · rwa [hs]
  · rw [hs]
    apply h.imp_right
    intro hdoom
    obtain ⟨j, current', hj, hdoom⟩ := hdoom
    -- the thread that begins held nothing
    have hne : j ≠ i := by
      intro hji
      rw [hji, hi] at hj
      simp at hj
    exact ⟨j, current', by simpa [Function.update_of_ne hne] using hj, hdoom⟩
  · rw [hs, advance_eq]
    cases h with
    | inl h => exact Or.inl (run_handed h options now outcome current)
    | inr h =>
      obtain ⟨j, current', hj, hdoom⟩ := h
      by_cases hji : j = i
      · subst hji
        rw [hi, Option.some.injEq] at hj
        subst hj
        apply (run_dooms hdoom options now outcome).imp_right
        intro hnext
        obtain ⟨current', hprogress, hdoom'⟩ := hnext
        refine ⟨j, current', ?_, hdoom'⟩
        simp [hprogress, Progress.pending]
      · exact Or.inr ⟨j, current', by simpa [Function.update_of_ne hji] using hj, hdoom⟩

/-- The threads that do not act keep their sections. -/
theorem next_pending_other {e : PoolEvent τ} {i j : τ} (hj : j ≠ i)
    (he : (∃ poolCall, e = .call i poolCall) ∨ ∃ outcome now, e = .step i outcome now) :
    (s.next options e).pending j = s.pending j := by
  obtain ⟨poolCall, rfl⟩ | ⟨outcome, now, rfl⟩ := he
  · cases hi : s.pending i with
    | some current => simp [next, hi]
    | none =>
      cases poolCall <;> simp only [next, hi, begin] <;> (try split) <;>
        simp [Function.update_of_ne hj]
  · cases hi : s.pending i with
    | none => simp [next, hi]
    | some current =>
      simp only [next, hi, advance_eq]
      exact Function.update_of_ne hj _ _

/-- Only giving a lease back removes one. -/
theorem next_leases {r : Resource} (h : r ∈ s.leases) {e : PoolEvent τ}
    (he : ∀ i r', e ≠ .call i (.release r') ∧ e ≠ .call i (.destroyLease r')) :
    r ∈ (s.next options e).leases := by
  cases e with
  | call i poolCall =>
    cases hi : s.pending i with
    | some current => simpa [next, hi] using h
    | none =>
      cases poolCall with
      | acquire | reap | destroy => simpa [next, hi, begin] using h
      | release r' => exact absurd rfl (he i r').1
      | destroyLease r' => exact absurd rfl (he i r').2
  | step i outcome now =>
    cases hi : s.pending i with
    | none => simpa [next, hi] using h
    | some current =>
      rw [next, hi]
      simp only [advance_eq]
      exact List.mem_append_right _ h

end PoolThreads

/-! ## One executor -/

/-- The connection of the transaction that is active after some calls. -/
def transactionOf (log : List ExecutedCall) : Option Resource :=
  log.foldl (fun current call =>
    match call.dbCall with
    | .beginTransaction => if call.returned then some call.connection else none
    | .commitTransaction | .rollbackTransaction => none
    | .execute _ _ | .savepoint _ | .releaseSavepoint _ | .rollbackToSavepoint _ => current) none

@[simp] theorem transactionOf_append (log : List ExecutedCall) (c : Resource) (dbCall : DbCall)
    (returned : Bool) : transactionOf (log ++ [⟨c, dbCall, returned⟩]) =
      match dbCall with
      | .beginTransaction => if returned then some c else none
      | .commitTransaction | .rollbackTransaction => none
      | .execute _ _ | .savepoint _ | .releaseSavepoint _ | .rollbackToSavepoint _ =>
        transactionOf log := by
  simp only [transactionOf, List.foldl_append]
  cases dbCall <;> rfl

/-- Every call inside a transaction goes to the connection that began it. -/
def OneConnection (log : List ExecutedCall) : Prop :=
  ∀ before call after, log = before ++ call :: after →
    ∀ connection, transactionOf before = some connection → call.connection = connection

theorem OneConnection.append {log : List ExecutedCall} {call : ExecutedCall}
    (h : OneConnection log)
    (hcall : ∀ connection, transactionOf log = some connection → call.connection = connection) :
    OneConnection (log ++ [call]) := by
  intro before call' after hlog connection hcurrent
  cases List.eq_nil_or_concat after with
  | inl hnil =>
    subst hnil
    obtain ⟨hbefore, hlast⟩ := List.append_inj' hlog rfl
    simp only [List.cons.injEq, and_true] at hlast
    rw [← hlast]
    exact hcall connection (hbefore ▸ hcurrent)
  | inr hconcat =>
    obtain ⟨after', last, rfl⟩ := hconcat
    have hsplit : log ++ [call] = (before ++ call' :: after') ++ [last] := by
      rw [hlog]
      simp
    exact h before call' after' (List.append_inj' hsplit rfl).1 connection hcurrent

/-- The connection that a method of the executor works on. -/
def PooledExecutor.holds (executor : PooledExecutor) : Option Resource :=
  match executor.running with
  | some (.call connection true _) => some connection
  | _ => executor.lease

/-- A call that needs no transaction. -/
def DbCall.isExecute : DbCall → Prop
  | .execute _ _ => True
  | _ => False

/-- What a running method knows. -/
def ExecutorSection.Fits (executor : PooledExecutor) : ExecutorSection → Prop
  | .acquire true dbCall => executor.lease = none ∧ dbCall.isExecute
  | .acquire false _ => executor.lease = none
  | .call _ true dbCall => executor.lease = none ∧ dbCall.isExecute
  | .call connection false _ => executor.lease = some connection
  | .giveBack => executor.lease = none

/-- An executor by itself: an active transaction has a lease, and it is the one that the
    log shows. -/
structure PooledExecutor.Coherent (executor : PooledExecutor) : Prop where
  active : executor.transactionActive = true → executor.lease.isSome = true
  running : ∀ current, executor.running = some current → current.Fits executor
  logged : transactionOf executor.log =
    if executor.transactionActive then executor.lease else none
  oneConnection : OneConnection executor.log

namespace PooledExecutor

/-- A lease of the executor is the connection that it works on. -/
theorem Coherent.holds_of_lease {executor : PooledExecutor} (h : executor.Coherent)
    {r : Resource} (hr : executor.lease = some r) : executor.holds = some r := by
  unfold holds
  split
  · rename_i connection dbCall hrunning
    have hnone : executor.lease = none := (h.running _ hrunning).1
    rw [hr] at hnone
    simp at hnone
  · exact hr

/-- The method that runs is in a call of the pool. -/
def InPool (executor : PooledExecutor) : Prop :=
  match executor.running with
  | some (.acquire _ _) | some .giveBack => True
  | some (.call _ _ _) | none => False

/-- A method that calls a connection works on it, and any active transaction is there. -/
theorem Coherent.onConnection {executor : PooledExecutor} (h : executor.Coherent)
    {connection : Resource} {isLocal : Bool} {dbCall : DbCall}
    (hrunning : executor.running = some (.call connection isLocal dbCall)) :
    executor.holds = some connection ∧ ¬ executor.InPool ∧
      ∀ c, transactionOf executor.log = some c → connection = c := by
  have hfits := h.running _ hrunning
  refine ⟨?_, by simp [InPool, hrunning], fun c hc => ?_⟩
  · cases isLocal with
    | true => simp [holds, hrunning]
    | false =>
      have hsome : executor.lease = some connection := hfits
      simpa [holds, hrunning] using hsome
  · rw [h.logged] at hc
    split at hc
    · cases isLocal with
      | true =>
        have hnone : executor.lease = none := hfits.1
        rw [hnone] at hc
        simp at hc
      | false =>
        have hsome : executor.lease = some connection := hfits
        rw [hsome] at hc
        exact Option.some.inj hc
    · simp at hc

theorem Coherent.inactive {executor : PooledExecutor} (h : executor.Coherent)
    (hlease : executor.lease = none) : executor.transactionActive = false := by
  by_contra hactive
  have hsome := h.active (by simpa using hactive)
  simp [hlease] at hsome

/-- The executor has given its lease back. -/
theorem Coherent.givenBack {executor : PooledExecutor} (hactive : executor.transactionActive = false)
    (hlease : executor.lease = none) (hlogged : transactionOf executor.log = none)
    (hone : OneConnection executor.log) :
    Coherent { executor with running := some .giveBack } where
  active h := by simp [hactive] at h
  running current hcurrent := by
    simp only [Option.some.injEq] at hcurrent
    subst hcurrent
    exact hlease
  logged := by simpa [hactive] using hlogged
  oneConnection := hone

end PooledExecutor

/-! ## All executors -/

namespace PooledExecutors

variable {ι κ : Type}

/-- The connection's transaction is closed, or the connection is on its way to
    `adapter.destroy`, or an executor has the transaction active on its lease. -/
def Clean (s : PooledExecutors ι κ) (r : Resource) : Prop :=
  s.transaction r = .closed ∨ s.threads.Doomed r ∨
    ∃ i, (s.executor i).lease = some r ∧ (s.executor i).transactionActive = true

variable [DecidableEq ι] [DecidableEq κ] [Fintype ι] [Fintype κ]

/-- The invariant of the executors. -/
structure Disciplined (options : PoolOptions) (s : PooledExecutors ι κ) : Prop where
  safe : s.threads.Safe options
  coherent : ∀ i, (s.executor i).Coherent
  held : ∀ i r, (s.executor i).holds = some r → r ∈ s.threads.leases
  apart : ∀ i j r, (s.executor i).holds = some r → (s.executor j).holds = some r → i = j
  free : ∀ i, ¬ (s.executor i).InPool → s.threads.pending (.inl i) = none
  clean : ∀ r, s.Clean r

variable {options : PoolOptions} {s s' : PooledExecutors ι κ}

omit [DecidableEq ι] [DecidableEq κ] in
/-- The connection of an executor has no transaction, if the executor has none active. -/
theorem Disciplined.closed (h : s.Disciplined options) {i : ι} {r : Resource}
    (hr : (s.executor i).holds = some r)
    (hactive : (s.executor i).lease = some r → (s.executor i).transactionActive = false) :
    s.transaction r = .closed := by
  obtain hclosed | hdoomed | ⟨j, hlease, hj⟩ := h.clean r
  · exact hclosed
  · exact absurd hdoomed (h.safe.lease_apart (h.held i r hr)).1
  · have hij : i = j := h.apart i j r hr ((h.coherent j).holds_of_lease hlease)
    subst hij
    rw [hactive hlease] at hj
    simp at hj

omit [DecidableEq κ] in
/-- What a step of executor `i` has to show: for itself, and that it leaves the leases and
    the threads of the others alone. -/
theorem Disciplined.update (h : s.Disciplined options) (i : ι)
    (hsafe : s'.threads.Safe options)
    (hothers : ∀ j, j ≠ i → s'.executor j = s.executor j)
    (hcoherent : (s'.executor i).Coherent)
    (hleases : ∀ j, j ≠ i → ∀ r, (s.executor j).holds = some r → r ∈ s'.threads.leases)
    (hheld : ∀ r, (s'.executor i).holds = some r →
      r ∈ s'.threads.leases ∧ ∀ j, j ≠ i → (s.executor j).holds ≠ some r)
    (hpending : ∀ j, j ≠ i → s'.threads.pending (.inl j) = s.threads.pending (.inl j))
    (hfree : ¬ (s'.executor i).InPool → s'.threads.pending (.inl i) = none)
    (hdoomed : ∀ r, s.threads.Doomed r → s'.threads.Doomed r)
    (hclean : ∀ r, s'.Clean r ∨ s'.transaction r = s.transaction r ∧
      ((s.executor i).lease = some r → (s.executor i).transactionActive = true → s'.Clean r)) :
    s'.Disciplined options := by
  constructor
  · exact hsafe
  · intro j
    by_cases hj : j = i
    · exact hj ▸ hcoherent
    · exact hothers j hj ▸ h.coherent j
  · intro j r hr
    by_cases hj : j = i
    · subst hj
      exact (hheld r hr).1
    · rw [hothers j hj] at hr
      exact hleases j hj r hr
  · intro j k r hj hk
    by_cases hji : j = i
    · subst hji
      by_contra hne
      rw [hothers k (Ne.symm hne)] at hk
      exact (hheld r hj).2 k (Ne.symm hne) hk
    · rw [hothers j hji] at hj
      by_cases hki : k = i
      · subst hki
        exact absurd hj ((hheld r hk).2 j hji)
      · rw [hothers k hki] at hk
        exact h.apart j k r hj hk
  · intro j hj
    by_cases hji : j = i
    · subst hji
      exact hfree hj
    · rw [hothers j hji] at hj
      rw [hpending j hji]
      exact h.free j hj
  · intro r
    cases hclean r with
    | inl hclean => exact hclean
    | inr hkept =>
      obtain hclosed | hdoom | ⟨j, hlease, hj⟩ := h.clean r
      · exact Or.inl (hkept.1.trans hclosed)
      · exact Or.inr (Or.inl (hdoomed r hdoom))
      · by_cases hji : j = i
        · subst hji
          exact hkept.2 hlease hj
        · rw [← hothers j hji] at hlease hj
          exact Or.inr (Or.inr ⟨j, hlease, hj⟩)

/-- The method of an executor that works on a connection `c` gives it back: to the idle
    list when its transaction is closed, and else to be destroyed. -/
theorem Disciplined.giveBack (h : s.Disciplined options) {i : ι} {c : Resource}
    {transaction : Resource → TransactionState} {executor : PooledExecutor} {poolCall : PoolCall}
    (hc : (s.executor i).holds = some c) (hpool : ¬ (s.executor i).InPool)
    (hactive : executor.transactionActive = false) (hlease : executor.lease = none)
    (hlogged : transactionOf executor.log = none) (hone : OneConnection executor.log)
    (htransaction : ∀ r, r ≠ c → transaction r = s.transaction r)
    (hcall : poolCall = .release c ∧ transaction c = .closed ∨ poolCall = .destroyLease c) :
    (PooledExecutors.giveBack options { s with transaction } i executor poolCall).Disciplined
      options := by
  have hleased := h.held i c hc
  have hfree := h.free i hpool
  -- the pool section that the thread of the executor now has
  obtain ⟨current, hcurrent, hthreads⟩ : ∃ current : PoolSection,
      (poolCall = .destroyLease c → current.dooms c) ∧
      s.threads.next options (.call (.inl i) poolCall) = ⟨s.threads.pool, s.threads.leases.erase c,
        Function.update s.threads.pending (.inl i) (some current)⟩ := by
    obtain ⟨hrelease, _⟩ | hdestroy := hcall
    · exact ⟨.release c, fun hne => by simp [hrelease] at hne, by
        simp [hrelease, PoolThreads.next, PoolThreads.begin, hfree, hleased]⟩
    · exact ⟨.destroyLease c, fun _ => rfl, by
        simp [hdestroy, PoolThreads.next, PoolThreads.begin, hfree, hleased]⟩
  have hother : ∀ j, j ≠ i → ∀ r, (s.executor j).holds = some r → r ≠ c := by
    intro j hj r hr hrc
    subst hrc
    exact hj (h.apart j i r hr hc)
  have hgiven : PooledExecutors.giveBack options { s with transaction } i executor poolCall =
      ⟨s.threads.next options (.call (.inl i) poolCall),
        Function.update s.executor i { executor with running := some .giveBack },
        transaction⟩ := rfl
  rw [hgiven]
  apply h.update i
  · show (s.threads.next options (.call (.inl i) poolCall)).Safe options
    exact PoolThreads.safe_next h.safe _
  · intro j hj
    exact Function.update_of_ne hj _ _
  · show (Function.update s.executor i { executor with running := some .giveBack } i).Coherent
    rw [Function.update_self]
    exact PooledExecutor.Coherent.givenBack hactive hlease hlogged hone
  · intro j hj r hr
    rw [hthreads]
    exact (List.mem_erase_of_ne (hother j hj r hr)).mpr (h.held j r hr)
  · intro r hr
    have hnone : (Function.update s.executor i { executor with running := some .giveBack } i).holds
        = none := by
      rw [Function.update_self]
      exact hlease
    rw [hnone] at hr
    simp at hr
  · intro j hj
    exact PoolThreads.next_pending_other (by simpa using hj) (Or.inl ⟨poolCall, rfl⟩)
  · intro hnot
    apply absurd _ hnot
    show (Function.update s.executor i { executor with running := some .giveBack } i).InPool
    rw [Function.update_self]
    trivial
  · intro r hdoom
    exact PoolThreads.doomed_next hdoom _
  · intro r
    by_cases hrc : r = c
    · subst hrc
      apply Or.inl
      obtain ⟨_, hclosed⟩ | hdestroy := hcall
      · exact Or.inl hclosed
      · apply Or.inr ∘ Or.inl
        rw [hthreads]
        exact Or.inr ⟨.inl i, current, Function.update_self _ _ _, hcurrent hdestroy⟩
    · apply Or.inr
      constructor
      · exact htransaction r hrc
      · intro hl _
        have hholds := (h.coherent i).holds_of_lease hl
        rw [hc, Option.some.injEq] at hholds
        exact absurd hholds.symm hrc

/-- The pool moves, and no executor. -/
theorem Disciplined.moved (h : s.Disciplined options) {e : PoolEvent (ι ⊕ κ)}
    (hleases : ∀ i r, e ≠ .call i (.release r) ∧ e ≠ .call i (.destroyLease r))
    (hfree : ∀ i, ¬ (s.executor i).InPool →
      (s.threads.next options e).pending (.inl i) = s.threads.pending (.inl i)) :
    Disciplined options { s with threads := s.threads.next options e } := by
  constructor
  · exact PoolThreads.safe_next h.safe e
  · exact h.coherent
  · exact fun i r hr => PoolThreads.next_leases (h.held i r hr) hleases
  · exact h.apart
  · intro i hi
    exact (hfree i hi).trans (h.free i hi)
  · intro r
    obtain hclosed | hdoom | hactive := h.clean r
    · exact Or.inl hclosed
    · exact Or.inr (Or.inl (PoolThreads.doomed_next hdoom e))
    · exact Or.inr (Or.inr hactive)

omit [DecidableEq κ] in
/-- An executor moves outside the pool and keeps its connection. -/
theorem Disciplined.kept (h : s.Disciplined options) {i : ι} {executor : PooledExecutor}
    {transaction : Resource → TransactionState} (hcoherent : executor.Coherent)
    (hholds : executor.holds = (s.executor i).holds)
    (hpool : ¬ executor.InPool → ¬ (s.executor i).InPool)
    (hclean : ∀ r, executor.lease = some r ∧ executor.transactionActive = true ∨
      transaction r = s.transaction r ∧ ((s.executor i).lease = some r →
        (s.executor i).transactionActive = true →
          executor.lease = some r ∧ executor.transactionActive = true)) :
    Disciplined options
      ⟨s.threads, Function.update s.executor i executor, transaction⟩ := by
  have hself : Function.update s.executor i executor i = executor := Function.update_self _ _ _
  have hown : ∀ r, executor.lease = some r ∧ executor.transactionActive = true →
      Clean ⟨s.threads, Function.update s.executor i executor, transaction⟩ r := by
    intro r hr
    exact Or.inr (Or.inr ⟨i, by simpa using hr⟩)
  apply h.update i
  · exact h.safe
  · intro j hj
    exact Function.update_of_ne hj _ _
  · show (Function.update s.executor i executor i).Coherent
    rw [hself]
    exact hcoherent
  · exact fun j _ r hr => h.held j r hr
  · intro r hr
    have hr' : (s.executor i).holds = some r := by
      rw [← hholds, ← hself]
      exact hr
    exact ⟨h.held i r hr', fun j hj hjr => hj (h.apart j i r hjr hr')⟩
  · exact fun j _ => rfl
  · intro hnot
    apply h.free i
    apply hpool
    rwa [← hself]
  · exact fun r hdoom => hdoom
  · intro r
    cases hclean r with
    | inl hr => exact Or.inl (hown r hr)
    | inr hr => exact Or.inr ⟨hr.1, fun hl ha => hown r (hr.2 hl ha)⟩

/-- The method of an executor calls or leaves the pool without a lease. -/
theorem Disciplined.between (h : s.Disciplined options) {i : ι} {executor : PooledExecutor}
    {e : PoolEvent (ι ⊕ κ)} (hcoherent : executor.Coherent)
    (hholds : executor.holds = none) (hidle : (s.executor i).lease = none)
    (he : e = .call (.inl i) .acquire ∨ ∃ outcome now, e = .step (.inl i) outcome now)
    (hfree : ¬ executor.InPool → (s.threads.next options e).pending (.inl i) = none) :
    Disciplined options
      ⟨s.threads.next options e, Function.update s.executor i executor, s.transaction⟩ := by
  have hself : Function.update s.executor i executor i = executor := Function.update_self _ _ _
  have hleases : ∀ j r, e ≠ .call j (.release r) ∧ e ≠ .call j (.destroyLease r) := by
    obtain rfl | ⟨outcome, now, rfl⟩ := he <;> simp
  apply h.update i
  · show (s.threads.next options e).Safe options
    exact PoolThreads.safe_next h.safe e
  · intro j hj
    exact Function.update_of_ne hj _ _
  · show (Function.update s.executor i executor i).Coherent
    rw [hself]
    exact hcoherent
  · exact fun j _ r hr => PoolThreads.next_leases (h.held j r hr) hleases
  · intro r hr
    have hr' : executor.holds = some r := by
      rw [← hself]
      exact hr
    rw [hholds] at hr'
    simp at hr'
  · intro j hj
    apply PoolThreads.next_pending_other (i := .inl i) (by simpa using hj)
    obtain rfl | ⟨outcome, now, rfl⟩ := he
    · exact Or.inl ⟨_, rfl⟩
    · exact Or.inr ⟨_, _, rfl⟩
  · intro hnot
    apply hfree
    rwa [← hself]
  · exact fun r hdoom => PoolThreads.doomed_next hdoom e
  · intro r
    apply Or.inr
    constructor
    · rfl
    · intro hl
      rw [hidle] at hl
      simp at hl

/-- `acquire` returns a lease to the method of an executor. -/
theorem Disciplined.granted (h : s.Disciplined options) {i : ι} {executor : PooledExecutor}
    {current : PoolSection} {outcome : Outcome} {now : Int} {r : Resource}
    (hcoherent : executor.Coherent) (hholds : executor.holds = some r)
    (hidle : (s.executor i).lease = none) (hcurrent : s.threads.pending (.inl i) = some current)
    (hlease : (current.run options now outcome s.threads.pool).2 = .lease r) :
    Disciplined options ⟨s.threads.next options (.step (.inl i) outcome now),
      Function.update s.executor i executor, s.transaction⟩ := by
  have hself : Function.update s.executor i executor i = executor := Function.update_self _ _ _
  have hnext : s.threads.next options (.step (.inl i) outcome now) =
      ⟨(current.run options now outcome s.threads.pool).1, r :: s.threads.leases,
        Function.update s.threads.pending (.inl i) none⟩ := by
    simp [PoolThreads.next, hcurrent, PoolThreads.advance, hlease]
  -- the thread held the resource, so it was no lease of another executor
  have hnew : r ∉ s.threads.leases := by
    intro hr
    apply (h.safe.lease_apart hr).2 (.inl i)
    rw [hcurrent]
    exact run_lease hlease
  apply h.update i
  · show (s.threads.next options (.step (.inl i) outcome now)).Safe options
    exact PoolThreads.safe_next h.safe _
  · intro j hj
    exact Function.update_of_ne hj _ _
  · show (Function.update s.executor i executor i).Coherent
    rw [hself]
    exact hcoherent
  · intro j _ r' hr'
    rw [hnext]
    exact List.mem_cons_of_mem r (h.held j r' hr')
  · intro r' hr'
    have hr : executor.holds = some r' := by
      rw [← hself]
      exact hr'
    rw [hholds, Option.some.injEq] at hr
    subst hr
    rw [hnext]
    exact ⟨List.mem_cons_self, fun j _ hj => hnew (h.held j r hj)⟩
  · intro j hj
    exact PoolThreads.next_pending_other (by simpa using hj) (Or.inr ⟨_, _, rfl⟩)
  · intro _
    rw [hnext]
    exact Function.update_self _ _ _
  · exact fun r hdoom => PoolThreads.doomed_next hdoom _
  · intro r
    apply Or.inr
    constructor
    · rfl
    · intro hl
      rw [hidle] at hl
      simp at hl

/-! ### Methods -/

/-- A method of an executor begins: it asks the pool for a lease, or it calls on the lease
    that it has. -/
theorem Disciplined.enter (h : s.Disciplined options) {i : ι} {executor : PooledExecutor}
    {first : ExecutorSection} (hcoherent : executor.Coherent)
    (hlease : executor.lease = (s.executor i).lease)
    (hactive : executor.transactionActive = (s.executor i).transactionActive)
    (hidle : (s.executor i).running = none) (hfits : first.Fits executor)
    (hfirst : (∃ isLocal dbCall, first = .acquire isLocal dbCall) ∨
      ∃ c dbCall, first = .call c false dbCall) :
    (s.enter options i executor first).Disciplined options := by
  have hcoherent' : PooledExecutor.Coherent { executor with running := some first } := by
    constructor
    · exact hcoherent.active
    · intro current hcurrent
      simp only [Option.some.injEq] at hcurrent
      subst hcurrent
      cases first <;> exact hfits
    · exact hcoherent.logged
    · exact hcoherent.oneConnection
  have hholds : (s.executor i).holds = (s.executor i).lease := by
    simp [PooledExecutor.holds, hidle]
  obtain ⟨isLocal, dbCall, rfl⟩ | ⟨c, dbCall, rfl⟩ := hfirst
  · have hnone : executor.lease = none := by
      cases isLocal with
      | true => exact hfits.1
      | false => exact hfits
    apply h.between hcoherent' hnone (hlease ▸ hnone) (Or.inl rfl)
    exact fun hnot => absurd trivial hnot
  · apply h.kept hcoherent' (hlease.trans hholds.symm)
    · intro _
      simp [PooledExecutor.InPool, hidle]
    · intro r
      apply Or.inr
      constructor
      · rfl
      · intro hl ha
        exact ⟨hlease.trans hl, hactive.trans ha⟩

end PooledExecutors

/-- The first section of a method fits the executor. -/
theorem PooledExecutor.start_fits {config : PooledExecutorConfig} {executor : PooledExecutor}
    {dbCall : DbCall} {first : ExecutorSection} (h : executor.start config dbCall = some first) :
    first.Fits executor ∧ ((∃ isLocal dbCall', first = .acquire isLocal dbCall') ∨
      ∃ c dbCall', first = .call c false dbCall') := by
  have hpersistent : ∀ dbCall', executor.onPersistent dbCall' = first →
      first.Fits executor ∧ ((∃ isLocal dbCall', first = .acquire isLocal dbCall') ∨
        ∃ c dbCall', first = .call c false dbCall') := by
    intro dbCall' hfirst
    subst hfirst
    unfold onPersistent
    split
    · rename_i c hc
      exact ⟨hc, Or.inr ⟨c, dbCall', rfl⟩⟩
    · rename_i hnone
      exact ⟨hnone, Or.inl ⟨false, dbCall', rfl⟩⟩
  have htransaction : ∀ dbCall', executor.inTransaction dbCall' = some first →
      first.Fits executor ∧ ((∃ isLocal dbCall', first = .acquire isLocal dbCall') ∨
        ∃ c dbCall', first = .call c false dbCall') := by
    intro dbCall' hfirst
    unfold inTransaction at hfirst
    split at hfirst
    · obtain ⟨c, hc, rfl⟩ := Option.map_eq_some_iff.mp hfirst
      exact ⟨hc, Or.inr ⟨c, dbCall', rfl⟩⟩
    · simp at hfirst
  cases dbCall with
  | execute sql params =>
    simp only [start] at h
    split at h
    · exact hpersistent _ (Option.some.inj h)
    · rename_i hsession
      have hnone : executor.lease = none := by
        cases hl : executor.lease with
        | none => rfl
        | some c => simp [hl] at hsession
      rw [Option.some.injEq] at h
      subst h
      exact ⟨⟨hnone, trivial⟩, Or.inl ⟨true, _, rfl⟩⟩
  | beginTransaction =>
    simp only [start] at h
    split at h
    · simp at h
    · split at h
      · simp at h
      · exact hpersistent _ (Option.some.inj h)
  | commitTransaction | rollbackTransaction | savepoint | releaseSavepoint |
    rollbackToSavepoint =>
    simp only [start] at h
    split at h
    · exact htransaction _ h
    · simp at h

namespace PooledExecutors

variable {ι κ : Type} [DecidableEq ι] [DecidableEq κ] [Fintype ι] [Fintype κ]
  {options : PoolOptions} {s : PooledExecutors ι κ}

/-- A call that leaves the transaction alone is followed by the release of a local lease. -/
theorem Disciplined.neutralCall (h : s.Disciplined options) {i : ι} {c : Resource}
    {isLocal : Bool} {dbCall : DbCall} {log : List ExecutedCall}
    (hrunning : (s.executor i).running = some (.call c isLocal dbCall))
    (hlogged : transactionOf log = transactionOf (s.executor i).log) (hone : OneConnection log) :
    Disciplined options
      (if isLocal then
        PooledExecutors.giveBack options s i { s.executor i with log } (.release c)
      else s.setExecutor i { s.executor i with log, running := none }) := by
  have hcoherent := h.coherent i
  obtain ⟨hholds, hpool, _⟩ := hcoherent.onConnection hrunning
  have hfits := hcoherent.running _ hrunning
  cases isLocal with
  | true =>
    have hnone : (s.executor i).lease = none := hfits.1
    have hinactive := hcoherent.inactive hnone
    have hlogged' : transactionOf log = none := by
      rw [hlogged, hcoherent.logged, hinactive]
      simp
    have hclosed : s.transaction c = .closed := by
      apply h.closed hholds
      intro hl
      simp [hnone] at hl
    let executor : PooledExecutor := { s.executor i with log }
    have hinactive' : executor.transactionActive = false := hinactive
    rw [if_pos rfl]
    exact h.giveBack hholds hpool hinactive' hnone hlogged' hone (fun _ _ => rfl)
      (Or.inl ⟨rfl, hclosed⟩)
  | false =>
    have hlease : (s.executor i).lease = some c := hfits
    rw [if_neg (by simp)]
    apply h.kept
    · exact ⟨hcoherent.active, by simp, hlogged.trans hcoherent.logged, hone⟩
    · rw [hholds]
      exact hlease
    · exact fun _ => hpool
    · exact fun r => Or.inr ⟨rfl, fun hl ha => ⟨hl, ha⟩⟩

/-- A call on a connection, and what follows it. -/
theorem Disciplined.runCall (h : s.Disciplined options) {i : ι} {c : Resource} {isLocal : Bool}
    {dbCall : DbCall} (hrunning : (s.executor i).running = some (.call c isLocal dbCall))
    (returned : Bool) : (s.runCall options i c isLocal dbCall returned).Disciplined options := by
  have hcoherent := h.coherent i
  obtain ⟨hholds, hpool, hsame⟩ := hcoherent.onConnection hrunning
  have hfits := hcoherent.running _ hrunning
  have hone : OneConnection ((s.executor i).log ++ [⟨c, dbCall, returned⟩]) :=
    hcoherent.oneConnection.append fun c' hc' => hsame c' hc'
  have hother : ∀ state r, r ≠ c → Function.update s.transaction c state r = s.transaction r :=
    fun state r hr => Function.update_of_ne hr _ _
  have hneutral : dbCall.after returned (s.transaction c) = s.transaction c →
      Function.update s.transaction c (dbCall.after returned (s.transaction c)) =
        s.transaction := by
    intro hsame
    rw [hsame, Function.update_eq_self]
  unfold PooledExecutors.runCall
  cases dbCall with
  | execute sql params =>
    simp only [hneutral rfl]
    exact h.neutralCall hrunning (by simp) hone
  | savepoint name | releaseSavepoint name | rollbackToSavepoint name =>
    simp only [hneutral rfl]
    exact h.neutralCall hrunning (by simp) hone
  | beginTransaction =>
    cases isLocal with
    | true => exact hfits.2.elim
    | false =>
      have hlease : (s.executor i).lease = some c := hfits
      cases returned with
      | true =>
        apply h.kept
        · constructor
          · exact fun _ => by simp [hlease]
          · simp
          · simp [hlease]
          · exact hone
        · rw [hholds]
          exact hlease
        · exact fun _ => hpool
        · intro r
          by_cases hr : r = c
          · exact Or.inl ⟨hr ▸ hlease, rfl⟩
          · exact Or.inr ⟨hother _ r hr, fun hl _ => ⟨hl, rfl⟩⟩
      | false =>
        exact h.giveBack hholds hpool rfl rfl (by simp) hone (hother _) (Or.inr rfl)
  | commitTransaction | rollbackTransaction =>
    cases returned with
    | true =>
      exact h.giveBack hholds hpool rfl rfl (by simp) hone (hother _)
        (Or.inl ⟨rfl, Function.update_self _ _ _⟩)
    | false => exact h.giveBack hholds hpool rfl rfl (by simp) hone (hother _) (Or.inr rfl)

/-- A section of the pool in a method of an executor. -/
theorem Disciplined.runPool (h : s.Disciplined options) {i : ι} {running : ExecutorSection}
    (hrunning : (s.executor i).running = some running) (hpool : (s.executor i).InPool)
    (outcome : Outcome) (now : Int) : (s.runPool options i outcome now).Disciplined options := by
  have hcoherent := h.coherent i
  have hfits := hcoherent.running _ hrunning
  -- the pool moves without the executor
  have hmoved : Disciplined options
      { s with threads := s.threads.next options (.step (.inl i) outcome now) } := by
    apply h.moved (by simp)
    intro j hj
    apply PoolThreads.next_pending_other (i := .inl i)
    · intro hji
      rw [Sum.inl.inj hji] at hj
      exact hj hpool
    · exact Or.inr ⟨_, _, rfl⟩
  -- in a call of the pool, the executor has no lease
  have hnone : (s.executor i).lease = none := by
    cases running with
    | acquire isLocal dbCall =>
      cases isLocal with
      | true => exact hfits.1
      | false => exact hfits
    | call c isLocal dbCall => simp [PooledExecutor.InPool, hrunning] at hpool
    | giveBack => exact hfits
  have hinactive := hcoherent.inactive hnone
  cases hcurrent : s.threads.pending (.inl i) with
  | none => simpa only [PooledExecutors.runPool, hcurrent] using hmoved
  | some current =>
    cases hprogress : (current.run options now outcome s.threads.pool).2 with
    | next current' => simpa only [PooledExecutors.runPool, hcurrent, hprogress] using hmoved
    | lease c =>
      cases running with
      | acquire isLocal dbCall =>
        simp only [PooledExecutors.runPool, hcurrent, hprogress, hrunning]
        apply h.granted _ _ hnone hcurrent hprogress
        · constructor
          · simp [hinactive]
          · intro first hfirst
            simp only [Option.some.injEq] at hfirst
            subst hfirst
            cases isLocal with
            | true => exact ⟨rfl, hfits.2⟩
            | false => exact rfl
          · simpa [hinactive] using hcoherent.logged
          · exact hcoherent.oneConnection
        · cases isLocal <;> rfl
      | call c isLocal dbCall => simp [PooledExecutor.InPool, hrunning] at hpool
      | giveBack =>
        simpa only [PooledExecutors.runPool, hcurrent, hprogress, hrunning] using hmoved
    | done =>
      simp only [PooledExecutors.runPool, hcurrent, hprogress]
      apply h.between _ _ hnone (Or.inr ⟨outcome, now, rfl⟩)
      · intro _
        simp [PoolThreads.next, hcurrent, PoolThreads.advance, hprogress]
      · exact ⟨hcoherent.active, by simp, hcoherent.logged, hcoherent.oneConnection⟩
      · exact hnone

/-- The destructor of an executor. -/
theorem Disciplined.dispose (h : s.Disciplined options) {i : ι}
    (hidle : (s.executor i).running = none) : (s.dispose options i).Disciplined options := by
  have hcoherent := h.coherent i
  have hcoherent' : PooledExecutor.Coherent { s.executor i with disposed := true } := by
    constructor
    · exact hcoherent.active
    · intro current hcurrent
      exact absurd hcurrent (by simp [hidle])
    · exact hcoherent.logged
    · exact hcoherent.oneConnection
  have hholds : (s.executor i).holds = (s.executor i).lease := by
    simp [PooledExecutor.holds, hidle]
  have hpool : ¬ (s.executor i).InPool := by simp [PooledExecutor.InPool, hidle]
  unfold PooledExecutors.dispose
  dsimp only
  split
  · apply h.kept hcoherent'
    · rw [hholds]
      simp [PooledExecutor.holds, hidle]
    · exact fun _ => hpool
    · exact fun r => Or.inr ⟨rfl, fun hl ha => ⟨hl, ha⟩⟩
  · rename_i c hlease
    split
    · exact h.enter hcoherent' rfl rfl hidle hlease (Or.inr ⟨c, _, rfl⟩)
    · rename_i hactive
      have hinactive : (s.executor i).transactionActive = false := by simpa using hactive
      have hc : (s.executor i).holds = some c := hholds.trans hlease
      let executor : PooledExecutor := { s.executor i with disposed := true, lease := none }
      have hinactive' : executor.transactionActive = false := hinactive
      have hlogged : transactionOf executor.log = none := by
        have hlog := hcoherent.logged
        rw [hinactive] at hlog
        simpa using hlog
      exact h.giveBack hc hpool hinactive' rfl hlogged hcoherent.oneConnection (fun _ _ => rfl)
        (Or.inl ⟨rfl, h.closed hc fun _ => hinactive⟩)

/-- Every event keeps the invariant. -/
theorem disciplined_next (config : ι → PooledExecutorConfig) (h : s.Disciplined options)
    (e : ExecutorEvent ι κ) : (s.next config options e).Disciplined options := by
  have hother : ∀ e : PoolEvent (ι ⊕ κ), (∀ i r, e ≠ .call i (.release r) ∧
      e ≠ .call i (.destroyLease r)) → (∃ k, (∃ poolCall, e = .call (.inr k) poolCall) ∨
        ∃ outcome now, e = .step (.inr k) outcome now) →
      Disciplined options { s with threads := s.threads.next options e } := by
    intro e hleases hthread
    obtain ⟨k, hthread⟩ := hthread
    exact h.moved hleases fun i _ => PoolThreads.next_pending_other (by simp) hthread
  cases e with
  | call i dbCall =>
    simp only [PooledExecutors.next]
    split
    · exact h
    · rename_i hidle
      have hnone : (s.executor i).running = none := by
        cases hrunning : (s.executor i).running with
        | none => rfl
        | some running => simp [hrunning] at hidle
      split
      · rename_i first hfirst
        obtain ⟨hfits, hkind⟩ := PooledExecutor.start_fits hfirst
        exact h.enter (h.coherent i) rfl rfl hnone hfits hkind
      · exact h
  | dispose i =>
    simp only [PooledExecutors.next]
    split
    · exact h
    · rename_i hidle
      apply h.dispose
      cases hrunning : (s.executor i).running with
      | none => rfl
      | some running => simp [hrunning] at hidle
  | step i outcome now =>
    simp only [PooledExecutors.next]
    split
    · exact h
    · rename_i hrunning
      exact h.runCall hrunning _
    · rename_i hrunning
      exact h.runPool hrunning (by simp [PooledExecutor.InPool, hrunning]) outcome now
    · rename_i hrunning
      exact h.runPool hrunning (by simp [PooledExecutor.InPool, hrunning]) outcome now
  | reap k => exact hother _ (by simp) ⟨k, Or.inl ⟨_, rfl⟩⟩
  | destroyPool k => exact hother _ (by simp) ⟨k, Or.inl ⟨_, rfl⟩⟩
  | poolStep k outcome now => exact hother _ (by simp) ⟨k, Or.inr ⟨_, _, rfl⟩⟩

omit [DecidableEq ι] [DecidableEq κ] in
/-- Executors that have just been constructed, over a pool that was. -/
theorem disciplined_init {n : Nat} (hn : n ≤ options.max) (now : Int) :
    (init (Pool.warmed n now) : PooledExecutors ι κ).Disciplined options where
  safe := PoolThreads.safe_init hn now
  coherent i := by
    constructor
    · simp [init, PooledExecutor.init]
    · simp [init, PooledExecutor.init]
    · rfl
    · intro before call after hlog
      simp [init, PooledExecutor.init] at hlog
  held i r hr := by simp [init, PooledExecutor.init, PooledExecutor.holds] at hr
  apart i j r hr := by simp [init, PooledExecutor.init, PooledExecutor.holds] at hr
  free i _ := rfl
  clean r := Or.inl rfl

end PooledExecutors

end MetalOrm.Native
