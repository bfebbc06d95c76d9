import Mathlib.Algebra.Order.BigOperators.Group.Finset
import MetalOrm.Native.PoolWaiters
import MetalOrm.Spec.PoolSafety

/-!
# Wakeups of the resource pool

While a thread waits in `acquire`, each place in the pool that is free has a thread that
will notify or that is at the top of the loop of `acquire` itself, or some thread is about
to notify all. `Lease::destroy` breaks this when `adapter.destroy` throws: it frees the
place before the call and would notify after it.

## Key results

- `follow_covers`: what a section frees, its thread will notify
- `Watched.next`: every event but `LosesWakeup` keeps the invariant
- `no_lost_wakeup`: the runs without `LosesWakeup`
- `destroy_loses_wakeup`: one with it
-/

namespace MetalOrm.Native

open ForStd

/-! ## What a thread owes -/

namespace PoolThread

/-- The thread will notify all waiters. -/
def announces : PoolThread → Bool
  | blocked => false
  | active actions _ => actions.contains .notifyAll

/-- How many places the thread takes care of: it will notify one waiter for each, or it
    looks for a place itself. -/
def due : PoolThread → Int
  | blocked => 0
  | active [] (.next .reserve) => 1
  | active actions _ => actions.count .notifyOne

/-- What an exception of `adapter.destroy` may cut off: nothing, or one `notify_one`. -/
def Orderly : PoolThread → Prop
  | blocked => True
  | active actions _ => ∀ r rest, .destroyOne r false :: rest <:+ actions →
      rest = [] ∨ rest = [.notifyOne]

@[simp] theorem announces_blocked : announces blocked = false := rfl

@[simp] theorem announces_active (actions : List PoolAction) (last : Progress) :
    (active actions last).announces = actions.contains .notifyAll := rfl

@[simp] theorem due_blocked : due blocked = 0 := rfl

@[simp] theorem due_reserve : due (active [] (.next .reserve)) = 1 := rfl

@[simp] theorem due_cons (action : PoolAction) (rest : List PoolAction) (last : Progress) :
    due (active (action :: rest) last) = (action :: rest).count .notifyOne := rfl

@[simp] theorem isBlocked_active (actions : List PoolAction) (last : Progress) :
    (active actions last).isBlocked = false := rfl

theorem isBlocked_iff {thread : PoolThread} : thread.isBlocked = true ↔ thread = blocked := by
  cases thread <;> simp [isBlocked]

theorem isFinished_iff {thread : PoolThread} : thread.isFinished = true ↔ thread = finished := by
  cases thread with
  | blocked => simp [isFinished, finished]
  | active actions last =>
    cases actions with
    | nil => cases last <;> simp [isFinished, finished]
    | cons action rest => simp [isFinished, finished]

theorem count_le_due (actions : List PoolAction) (last : Progress) :
    (actions.count .notifyOne : Int) ≤ due (active actions last) := by
  cases actions with
  | nil =>
    unfold due
    split <;> simp_all
  | cons action rest => exact Int.le_refl _

theorem due_nonneg (thread : PoolThread) : 0 ≤ thread.due := by
  cases thread with
  | blocked => exact Int.le_refl 0
  | active actions last =>
    have hcount := count_le_due actions last
    omega

theorem Orderly.rest {action : PoolAction} {rest : List PoolAction} {last : Progress}
    (h : Orderly (active (action :: rest) last)) : Orderly (active rest last) :=
  fun r rest' hrest => h r rest' (hrest.trans (List.suffix_cons action rest))

theorem orderly_nil (last : Progress) : Orderly (active [] last) := by
  intro r rest h
  exact absurd (List.suffix_nil.mp h) (by simp)

/-- An action that cannot throw is harmless. -/
theorem Orderly.cons {action : PoolAction} (haction : ∀ r, action ≠ .destroyOne r false)
    {rest : List PoolAction} {last : Progress} (h : Orderly (active rest last)) :
    Orderly (active (action :: rest) last) := by
  intro r rest' hsuffix
  cases List.suffix_cons_iff.mp hsuffix with
  | inl heq =>
    injection heq with hhead
    exact absurd hhead.symm (haction r)
  | inr hrest => exact h r rest' hrest

/-- `destroy_one` and nothing else, or with one `notify_one` after it. -/
theorem orderly_destroyOne (r : Resource) {rest : List PoolAction}
    (hrest : rest = [] ∨ rest = [.notifyOne]) (last : Progress) :
    Orderly (active (.destroyOne r false :: rest) last) := by
  have htail : Orderly (active rest last) := by
    cases hrest with
    | inl h => exact h ▸ orderly_nil last
    | inr h => exact h ▸ Orderly.cons (by simp) (orderly_nil last)
  intro r' rest' hsuffix
  cases List.suffix_cons_iff.mp hsuffix with
  | inl heq =>
    injection heq with _ heq
    exact heq ▸ hrest
  | inr h => exact htail r' rest' h

theorem orderly_caught (rs : List Resource) {rest : List PoolAction} {last : Progress}
    (h : Orderly (active rest last)) :
    Orderly (active (rs.map (.destroyOne · true) ++ rest) last) := by
  induction rs with
  | nil => exact h
  | cons r rs ih => exact Orderly.cons (by simp) ih

theorem Orderly.wake {thread : PoolThread} (h : thread.Orderly) : thread.wake.Orderly := by
  cases thread with
  | blocked => exact orderly_nil _
  | active actions last => exact h

@[simp] theorem isBlocked_wake (thread : PoolThread) : thread.wake.isBlocked = false := by
  cases thread <;> rfl

end PoolThread

/-! ## Sections -/

/-- The places of the pool that no thread and no lease takes. -/
def Pool.free (options : PoolOptions) (pool : Pool) : Int :=
  options.max - pool.leased - pool.creating

/-- The condition of `cv.wait` in `acquire`. -/
def Pool.Ready (options : PoolOptions) (pool : Pool) : Prop :=
  pool.destroyed = true ∨ pool.idle ≠ [] ∨ pool.totalLive < options.max

/-- In an open pool a waiter's condition is that a place is free. -/
theorem Pool.ready_iff {options : PoolOptions} {pool : Pool} (hopen : pool.destroyed = false)
    (hlive : pool.totalLive ≤ options.max) : pool.Ready options ↔ 0 < pool.free options := by
  unfold Pool.totalLive at hlive
  unfold Pool.Ready Pool.free Pool.totalLive
  rw [hopen, ← List.length_pos_iff]
  simp only [Bool.false_eq_true, false_or]
  omega

open PoolThread

/-- A section lets its thread wait only when no place is free. -/
theorem follow_blocked {options : PoolOptions} {pool : Pool} {now : Int} {outcome : Outcome}
    {current : PoolSection} (h : current.follow options now outcome pool = blocked) :
    (current.run options now outcome pool).1 = pool ∧ ¬ pool.Ready options := by
  cases current with
  | reserve =>
    simp only [PoolSection.follow] at h
    split at h
    · cases h
    · rename_i hdestroyed
      split at h
      · cases h
      · rename_i hidle
        have hnil : pool.idle = [] := List.getLast?_eq_none_iff.mp hidle
        split at h
        · cases h
        · rename_i hfull
          split at h
          · cases h
          · rename_i htime
            constructor
            · simp [PoolSection.run, hdestroyed, hidle, hfull, htime]
            · simp [Pool.Ready, hdestroyed, hnil, hfull]
  | validate r => cases outcome <;> cases h
  | discard r retry => cases retry <;> cases h
  | create => cases outcome <;> cases h
  | abort | destroyLease | dispose => cases h
  | grantIdle | grantNew | release | reap | destroyPool =>
    simp only [PoolSection.follow] at h
    split at h <;> cases h

/-- A section of an open pool whose thread does not wait. Where it frees a place, its thread
    will notify for it; where its thread gives up its own search, no place is free. -/
theorem follow_covers {options : PoolOptions} {pool : Pool} (hopen : pool.destroyed = false)
    (now : Int) (outcome : Outcome) (current : PoolSection) :
    (current.follow options now outcome pool).announces = true ∨
    (current.run options now outcome pool).1.destroyed = false ∧
      ((current.run options now outcome pool).1.free options ≤ 0 ∨
        (current.run options now outcome pool).1.free options + (before current).due ≤
          pool.free options + (current.follow options now outcome pool).due) := by
  cases current with
  | reserve =>
    right
    cases hidle : pool.idle.getLast? with
    | some entry =>
      -- a place is taken, and the thread stops its search
      simp [PoolSection.run, PoolSection.follow, hopen, hidle, Pool.free, before, due]
        <;> omega
    | none =>
      have hnil : pool.idle = [] := List.getLast?_eq_none_iff.mp hidle
      by_cases hfull : pool.totalLive < options.max
      · simp [PoolSection.run, PoolSection.follow, hopen, hidle, hfull, Pool.free, before, due]
          <;> omega
      · have hfree : pool.free options ≤ 0 := by
          simp only [Pool.totalLive, hnil, List.length_nil] at hfull
          unfold Pool.free
          omega
        simp only [PoolSection.run, hopen, hidle, hfull, Bool.false_eq_true, if_false]
        split <;> exact ⟨hopen, .inl hfree⟩
  | validate r => cases outcome <;> exact .inr ⟨hopen, .inr (Int.le_refl _)⟩
  | discard r retry =>
    cases retry <;> simp [PoolSection.run, PoolSection.follow, hopen, Pool.free, before, due] <;>
      omega
  | grantIdle r =>
    simp only [PoolSection.run, PoolSection.follow, hopen]
    exact .inr ⟨hopen, .inr (Int.le_refl _)⟩
  | create => cases outcome <;> exact .inr ⟨hopen, .inr (Int.le_refl _)⟩
  | abort => exact .inl rfl
  | grantNew r =>
    left
    simp [PoolSection.follow, hopen]
  | dispose rs retry =>
    cases rs <;> exact .inr ⟨hopen, .inr (Int.le_refl _)⟩
  | release r =>
    simp [PoolSection.run, PoolSection.follow, hopen, Pool.free, before, due]
    omega
  | destroyLease r =>
    simp [PoolSection.run, PoolSection.follow, hopen, Pool.free, before, due]
    omega
  | reap =>
    right
    simp only [PoolSection.run, PoolSection.follow]
    split
    · exact ⟨hopen, .inr (Int.le_refl _)⟩
    · -- what is removed from the idle list was free before
      exact ⟨hopen, .inr (Int.add_le_add (Int.le_refl _) (due_nonneg _))⟩
  | destroyPool =>
    left
    simp [PoolSection.follow, hopen]

/-- What a section leaves ahead of its thread. -/
theorem follow_orderly (options : PoolOptions) (now : Int) (outcome : Outcome) (pool : Pool)
    (current : PoolSection) : (current.follow options now outcome pool).Orderly := by
  have hnotify : Orderly (active [.notifyOne] .done) := Orderly.cons (by simp) (orderly_nil _)
  cases current with
  | reserve =>
    simp only [PoolSection.follow]
    split
    · exact orderly_nil _
    · split
      · exact orderly_nil _
      · split
        · exact orderly_nil _
        · split
          · exact orderly_nil _
          · trivial
  | validate r => cases outcome <;> exact orderly_nil _
  | discard r retry =>
    cases retry with
    | false => exact Orderly.cons (by simp) hnotify
    | true => exact Orderly.cons (by simp) (orderly_destroyOne r (.inl rfl) _)
  | create => cases outcome <;> exact orderly_nil _
  | abort => exact Orderly.cons (by simp) (orderly_nil _)
  | grantIdle r =>
    simp only [PoolSection.follow]
    split
    · exact Orderly.cons (by simp) (orderly_destroyOne r (.inl rfl) _)
    · exact orderly_nil _
  | grantNew r =>
    simp only [PoolSection.follow]
    split
    · exact Orderly.cons (by simp) (orderly_destroyOne r (.inl rfl) _)
    · exact Orderly.cons (by simp) (orderly_nil _)
  | dispose rs retry => exact orderly_nil _
  | release r =>
    simp only [PoolSection.follow]
    split
    · exact orderly_destroyOne r (.inr rfl) _
    · exact hnotify
  | destroyLease r => exact orderly_destroyOne r (.inr rfl) _
  | reap =>
    simp only [PoolSection.follow]
    split
    · exact orderly_nil _
    · apply orderly_caught
      split
      · exact orderly_nil _
      · exact Orderly.cons (by simp) (orderly_nil _)
  | destroyPool =>
    simp only [PoolSection.follow]
    split
    · exact orderly_nil _
    · have hcaught := orderly_caught pool.idleResources (orderly_nil .done)
      rw [List.append_nil] at hcaught
      exact Orderly.cons (by simp) hcaught

namespace PoolWaiters

variable {ι : Type} [DecidableEq ι] [Fintype ι] {options : PoolOptions}

/-! ## The invariant -/

/-- Whenever a thread waits, another will notify all, or the pool is open and each free
    place has a thread that takes care of it. -/
structure Watched (options : PoolOptions) (s : PoolWaiters ι) : Prop where
  live : s.pool.totalLive ≤ options.max
  orderly : ∀ i, (s.threads i).Orderly
  covered : ∀ i, s.threads i = blocked → (∃ j, (s.threads j).announces = true) ∨
    s.pool.destroyed = false ∧ s.pool.free options ≤ ∑ j, (s.threads j).due

/-- `adapter.destroy` throws in a `Lease::destroy` of the open pool while a thread waits;
    the thread would have notified one waiter. -/
def LosesWakeup (s : PoolWaiters ι) : WaiterEvent ι → Prop
  | .step i .throws _ _ => s.pool.destroyed = false ∧ (∃ j, s.threads j = blocked) ∧
      ∃ r last, s.threads i = active [.destroyOne r false, .notifyOne] last
  | _ => False

/-- No thread has anything ahead of it but the wait in `acquire`. -/
def Quiet (s : PoolWaiters ι) : Prop := ∀ i, s.threads i = finished ∨ s.threads i = blocked

omit [DecidableEq ι] in
theorem sum_due_nonneg (s : PoolWaiters ι) : 0 ≤ ∑ j, (s.threads j).due :=
  Finset.sum_nonneg fun j _ => due_nonneg (s.threads j)

/-- The change of the sum when one thread moves. -/
theorem sum_due_set (s : PoolWaiters ι) (i : ι) (thread : PoolThread) :
    ∑ j, ((s.set i thread).threads j).due + (s.threads i).due =
      ∑ j, (s.threads j).due + thread.due :=
  sum_update_add due s.threads i thread

omit [Fintype ι] in
theorem set_self (s : PoolWaiters ι) (i : ι) (thread : PoolThread) :
    (s.set i thread).threads i = thread := by
  simp [PoolWaiters.set]

omit [Fintype ι] in
theorem set_of_ne (s : PoolWaiters ι) {i j : ι} (h : j ≠ i) (thread : PoolThread) :
    (s.set i thread).threads j = s.threads j := by
  simp [PoolWaiters.set, h]

omit [Fintype ι] in
/-- What holds of the thread that moves and of the others. -/
theorem forall_set {P : PoolThread → Prop} {s : PoolWaiters ι} {i : ι} {thread : PoolThread}
    (hi : P thread) (hs : ∀ j, P (s.threads j)) (j : ι) : P ((s.set i thread).threads j) := by
  by_cases h : j = i
  · rw [h, set_self]
    exact hi
  · rw [set_of_ne s h]
    exact hs j

/-- A thread that did not wait and does not wait moves, and none of what it owes is lost. -/
theorem Watched.set {s : PoolWaiters ι} (h : s.Watched options) {i : ι} {thread : PoolThread}
    (horderly : thread.Orderly) (hblocked : thread ≠ blocked)
    (hannounces : (s.threads i).announces = true → thread.announces = true)
    (hdue : s.pool.destroyed = false → (s.threads i).due ≤ thread.due) :
    (s.set i thread).Watched options where
  live := h.live
  orderly := forall_set horderly h.orderly
  covered := by
    intro j hj
    have hne : j ≠ i := by
      intro heq
      rw [heq, set_self] at hj
      exact hblocked hj
    rw [set_of_ne s hne] at hj
    cases h.covered j hj with
    | inl hall =>
      obtain ⟨k, hk⟩ := hall
      left
      by_cases hki : k = i
      · exact ⟨i, by rw [set_self]; exact hannounces (hki ▸ hk)⟩
      · exact ⟨k, by rw [set_of_ne s hki]; exact hk⟩
    | inr hopen =>
      have hsum := sum_due_set s i thread
      have hkept := hdue hopen.1
      exact .inr ⟨hopen.1, by show s.pool.free options ≤ _; omega⟩

omit [DecidableEq ι] in
/-- A state in which nobody waits. -/
theorem watched_of_awake {s : PoolWaiters ι} (hlive : s.pool.totalLive ≤ options.max)
    (horderly : ∀ i, (s.threads i).Orderly) (hawake : ∀ i, s.threads i ≠ blocked) :
    s.Watched options :=
  ⟨hlive, horderly, fun i hi => absurd hi (hawake i)⟩

omit [DecidableEq ι] [Fintype ι] in
theorem ne_of_blocked {s : PoolWaiters ι} {i j : ι} {actions : List PoolAction}
    {last : Progress} (hi : s.threads i = active actions last) (hj : s.threads j = blocked) :
    j ≠ i := by
  intro h
  rw [h, hi] at hj
  cases hj

/-! ## Events -/

/-- A call begins at a section, so it owes nothing yet. -/
theorem Watched.begin {s : PoolWaiters ι} (h : s.Watched options) {i : ι}
    (hi : s.threads i = finished) (poolCall : PoolCall) : (s.begin i poolCall).Watched options := by
  have hset : ∀ current, (s.set i (before current)).Watched options := by
    intro current
    apply h.set (orderly_nil _) (by simp)
    · simp [hi, finished]
    · intro _
      rw [hi]
      exact due_nonneg (before current)
  cases poolCall with
  | acquire => exact hset .reserve
  | reap => exact hset .reap
  | destroy => exact hset .destroyPool
  | release r =>
    simp only [PoolWaiters.begin]
    split
    · have hr := hset (.release r)
      exact ⟨hr.live, hr.orderly, hr.covered⟩
    · exact h
  | destroyLease r =>
    simp only [PoolWaiters.begin]
    split
    · have hr := hset (.destroyLease r)
      exact ⟨hr.live, hr.orderly, hr.covered⟩
    · exact h

/-- A section keeps the invariant: what it frees, its thread will notify. -/
theorem Watched.section {s : PoolWaiters ι} (h : s.Watched options) {i : ι}
    {current : PoolSection} (hi : s.threads i = before current) (outcome : Outcome) (now : Int) :
    (s.finish options i outcome now (.next current)).Watched options where
  live := run_totalLive h.live now outcome current
  orderly := forall_set (follow_orderly options now outcome s.pool current) h.orderly
  covered := by
    intro j hj
    have hsum := sum_due_set s i (current.follow options now outcome s.pool)
    have hnonneg := sum_due_nonneg (s.set i (current.follow options now outcome s.pool))
    rw [hi] at hsum
    show _ ∨ (current.run options now outcome s.pool).1.destroyed = false ∧
      (current.run options now outcome s.pool).1.free options ≤ _
    by_cases hblocked : current.follow options now outcome s.pool = blocked
    · -- the thread itself waits now: no place is free
      obtain ⟨hpool, hready⟩ := follow_blocked hblocked
      have hopen : s.pool.destroyed = false := by
        cases hd : s.pool.destroyed with
        | false => rfl
        | true => exact absurd (.inl hd) hready
      rw [Pool.ready_iff hopen h.live] at hready
      rw [hpool]
      exact .inr ⟨hopen, le_trans (not_lt.mp hready) hnonneg⟩
    · have hne : j ≠ i := by
        intro heq
        rw [heq] at hj
        exact hblocked ((set_self s i _).symm.trans hj)
      have hwaits : s.threads j = blocked := (set_of_ne s hne _).symm.trans hj
      cases h.covered j hwaits with
      | inl hall =>
        obtain ⟨k, hk⟩ := hall
        have hki : k ≠ i := by
          intro heq
          rw [heq, hi] at hk
          cases hk
        exact .inl ⟨k, (congrArg announces (set_of_ne s hki _)).trans hk⟩
      | inr hopen =>
        have hcovers := @follow_covers options s.pool hopen.1 now outcome current
        cases hcovers with
        | inl hall => exact .inl ⟨i, (congrArg announces (set_self s i _)).trans hall⟩
        | inr hfree =>
          refine .inr ⟨hfree.1, ?_⟩
          show _ ≤ ∑ j, ((s.set i (current.follow options now outcome s.pool)).threads j).due
          omega

/-- A thread notifies one waiter. -/
theorem Watched.notifyOne {s : PoolWaiters ι} (h : s.Watched options) {i : ι}
    {rest : List PoolAction} {last : Progress}
    (hi : s.threads i = active (.notifyOne :: rest) last) (outcome : Outcome) (woken : ι) :
    (s.act i outcome woken rest last .notifyOne).Watched options := by
  have horderly : Orderly (active rest last) := Orderly.rest (hi ▸ h.orderly i)
  simp only [act]
  split
  · rename_i hwoken
    rw [isBlocked_iff] at hwoken
    have hne : woken ≠ i := ne_of_blocked hi hwoken
    have hi' : (s.set woken (before .reserve)).threads i = active (.notifyOne :: rest) last := by
      rw [set_of_ne s hne.symm, hi]
    -- the place that the thread took care of is now taken care of by the woken thread
    constructor
    · exact h.live
    · exact forall_set horderly (forall_set (orderly_nil _) h.orderly)
    · intro j hj
      have hji : j ≠ i := by
        intro heq
        rw [heq, set_self] at hj
        cases hj
      rw [set_of_ne _ hji] at hj
      have hjw : j ≠ woken := by
        intro heq
        rw [heq, set_self] at hj
        cases hj
      rw [set_of_ne s hjw] at hj
      cases h.covered j hj with
      | inl hall =>
        obtain ⟨k, hk⟩ := hall
        left
        by_cases hki : k = i
        · rw [hki, hi] at hk
          exact ⟨i, by rw [set_self]; simpa using hk⟩
        · have hkw : k ≠ woken := by
            intro heq
            rw [heq, hwoken] at hk
            cases hk
          exact ⟨k, by rw [set_of_ne _ hki, set_of_ne s hkw]; exact hk⟩
      | inr hopen =>
        have hsum := sum_due_set s woken (before .reserve)
        have hsum' := sum_due_set (s.set woken (before .reserve)) i (active rest last)
        have hrest := count_le_due rest last
        rw [hi'] at hsum'
        simp only [hwoken, before, due_blocked, due_reserve, due_cons, List.count_cons_self,
          Int.natCast_add, Int.natCast_one] at hsum hsum'
        refine .inr ⟨hopen.1, ?_⟩
        show s.pool.free options ≤ _
        simp only [before]
        omega
  · split
    · exact h
    · rename_i hnone
      have hawake : ∀ j, s.threads j ≠ blocked := fun j hj => hnone ⟨j, isBlocked_iff.mpr hj⟩
      apply watched_of_awake
      · exact h.live
      · exact forall_set horderly h.orderly
      · exact forall_set (P := (· ≠ blocked)) (by simp) hawake

/-- A thread notifies all waiters, so that nobody waits. -/
theorem Watched.notifyAll {s : PoolWaiters ι} (h : s.Watched options) {i : ι}
    {rest : List PoolAction} {last : Progress}
    (hi : s.threads i = active (.notifyAll :: rest) last) (outcome : Outcome) (woken : ι) :
    (s.act i outcome woken rest last .notifyAll).Watched options := by
  let awake : PoolWaiters ι := { s with threads := fun j => (s.threads j).wake }
  show (awake.set i (active rest last)).Watched options
  apply watched_of_awake
  · exact h.live
  · exact forall_set (Orderly.rest (hi ▸ h.orderly i)) fun j => (h.orderly j).wake
  · apply forall_set (P := (· ≠ blocked)) (by simp)
    intro j hj
    have hwake := isBlocked_wake (s.threads j)
    rw [isBlocked_iff.mpr hj] at hwake
    cases hwake

/-- A call of `adapter.destroy`. Its exception may cut off a `notify_one`: then the pool is
    destroyed, or nobody waits. -/
theorem Watched.destroyOne {s : PoolWaiters ι} (h : s.Watched options) {i : ι} {r : Resource}
    {caught : Bool} {rest : List PoolAction} {last : Progress}
    (hi : s.threads i = active (.destroyOne r caught :: rest) last) {outcome : Outcome}
    {now : Int} {woken : ι} (hkeeps : ¬ s.LosesWakeup (.step i outcome now woken)) :
    (s.act i outcome woken rest last (.destroyOne r caught)).Watched options := by
  have horderly : Orderly (active (.destroyOne r caught :: rest) last) := hi ▸ h.orderly i
  simp only [act]
  split
  · rename_i hthrows
    obtain ⟨rfl, rfl⟩ := hthrows
    have hrest : rest = [] ∨ rest = [.notifyOne] := horderly r rest (List.suffix_refl _)
    by_cases hwaits : ∃ j, s.threads j = blocked
    · have hset : (s.set i finished).Watched options := by
        apply h.set (orderly_nil _) nofun
        · intro hall
          rw [hi] at hall
          cases hrest with
          | inl hnil => simp [hnil] at hall
          | inr hone => simp [hone] at hall
        · intro hopen
          cases hrest with
          | inl hnil =>
            rw [hi, hnil]
            exact Int.le_refl 0
          | inr hone => exact absurd ⟨hopen, hwaits, r, last, hone ▸ hi⟩ hkeeps
      exact ⟨hset.live, hset.orderly, hset.covered⟩
    · apply watched_of_awake
      · exact h.live
      · exact forall_set (orderly_nil _) h.orderly
      · exact forall_set (P := (· ≠ blocked)) (by simp [finished]) fun j hj => hwaits ⟨j, hj⟩
  · have hset : (s.set i (active rest last)).Watched options := by
      apply h.set horderly.rest (by simp)
      · rw [hi]
        simp
      · intro _
        rw [hi, due_cons, List.count_cons_of_ne (by simp)]
        exact count_le_due rest last
    exact ⟨hset.live, hset.orderly, hset.covered⟩

/-- Every event but `LosesWakeup` keeps the invariant. -/
theorem Watched.next {s : PoolWaiters ι} (h : s.Watched options) {e : WaiterEvent ι}
    (he : ¬ s.LosesWakeup e) : (s.next options e).Watched options := by
  cases e with
  | call i poolCall =>
    simp only [PoolWaiters.next]
    split
    · rename_i hi
      exact h.begin (isFinished_iff.mp hi) poolCall
    · exact h
  | wake i =>
    simp only [PoolWaiters.next]
    cases hi : s.threads i with
    | blocked =>
      apply h.set (orderly_nil _) (by simp)
      · simp [hi]
      · simp [hi]
    | active actions last =>
      show (s.set i (active actions last)).Watched options
      have horderly : Orderly (active actions last) := hi ▸ h.orderly i
      apply h.set horderly (by simp)
      · rw [hi]
        exact id
      · rw [hi]
        exact fun _ => Int.le_refl _
  | step i outcome now woken =>
    simp only [PoolWaiters.next]
    cases hi : s.threads i with
    | blocked => exact h
    | active actions last =>
      cases actions with
      | nil =>
        cases last with
        | next current => exact h.section hi outcome now
        | done => exact h
        | lease r =>
          have hset : (s.set i finished).Watched options := by
            apply h.set (orderly_nil _) nofun
            · simp [hi]
            · intro _
              rw [hi]
              exact Int.le_refl 0
          exact ⟨hset.live, hset.orderly, hset.covered⟩
      | cons action rest =>
        cases action with
        | destroyOne r caught => exact h.destroyOne hi he
        | notifyOne => exact h.notifyOne hi outcome woken
        | notifyAll => exact h.notifyAll hi outcome woken

omit [DecidableEq ι] in
/-- Where the invariant holds and no thread acts any more, no waiter's condition is true. -/
theorem Watched.not_ready {s : PoolWaiters ι} (h : s.Watched options) (hquiet : s.Quiet)
    {i : ι} (hi : s.threads i = blocked) : ¬ s.pool.Ready options := by
  have hsilent : ∀ j, (s.threads j).announces = false ∧ (s.threads j).due = 0 := by
    intro j
    cases hquiet j with
    | inl hj => simp [hj, finished, due]
    | inr hj => simp [hj]
  cases h.covered i hi with
  | inl hall =>
    obtain ⟨j, hj⟩ := hall
    rw [(hsilent j).1] at hj
    cases hj
  | inr hopen =>
    have hfree : s.pool.free options ≤ 0 := by
      have hsum : ∑ j, (s.threads j).due = 0 := Finset.sum_eq_zero fun j _ => (hsilent j).2
      rw [← hsum]
      exact hopen.2
    rw [Pool.ready_iff hopen.1 h.live]
    omega

/-- In every interleaving in which no `LosesWakeup` happens: where every thread is outside
    the pool or waits, no waiter's condition is true. -/
theorem no_lost_wakeup {n : Nat} (hn : n ≤ options.max) (now : Int)
    (events : List (WaiterEvent ι))
    (hevents : AlongEvents (next options) (fun s e => ¬ s.LosesWakeup e)
      (init (Pool.warmed n now)) events)
    (hquiet : (runEvents (next options) (init (Pool.warmed n now)) events).Quiet) (i : ι)
    (hi : (runEvents (next options) (init (Pool.warmed n now)) events).threads i = blocked) :
    ¬ (runEvents (next options) (init (Pool.warmed n now)) events).pool.Ready options := by
  have hinit : (init (Pool.warmed n now) : PoolWaiters ι).Watched options := by
    apply watched_of_awake
    · simp [init, Pool.warmed, Pool.totalLive, hn]
    · exact fun _ => orderly_nil _
    · simp [init, finished]
  have hrun := hevents.invariant (I := Watched options) (fun s e hs he => hs.next he) hinit
  exact hrun.not_ready hquiet hi

/-- One resource at most, no minimum, no timeouts. -/
private def onePlace : PoolOptions := ⟨1, 0, 0, 0⟩

/-- One thread gets the only resource; another waits for it. -/
private def waits : List (WaiterEvent (Fin 2)) :=
  [.call 0 .acquire, .step 0 .returns 0 0, .step 0 .returns 0 0, .step 0 .returns 0 0,
    .step 0 .returns 0 0, .step 0 .returns 0 0, .call 1 .acquire, .step 1 .returns 0 0]

theorem no_lost_wakeup_waits :
    ¬ (runEvents (next onePlace) (init (Pool.warmed 0 0)) waits).pool.Ready onePlace :=
  no_lost_wakeup (Nat.zero_le 1) 0 waits (by simp [waits, AlongEvents, LosesWakeup])
    (Fin.forall_fin_two.mpr ⟨.inl rfl, .inr rfl⟩) 1 rfl

/-- The thread calls `Lease::destroy`, and `adapter.destroy` throws: the other thread waits,
    although the pool is empty and may create a resource. -/
theorem destroy_loses_wakeup :
    let s := runEvents (next onePlace) (init (Pool.warmed 0 0))
      (waits ++ [.call 0 (.destroyLease 0), .step 0 .returns 0 0, .step 0 .throws 0 0])
    s.Quiet ∧ s.threads 1 = blocked ∧ s.pool.Ready onePlace :=
  ⟨Fin.forall_fin_two.mpr ⟨.inl rfl, .inr rfl⟩, rfl, .inr (.inr (by decide))⟩

end PoolWaiters

end MetalOrm.Native
