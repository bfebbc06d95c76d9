import Mathlib.Algebra.Order.BigOperators.Group.Finset
import MetalOrm.ForStd.Events
import MetalOrm.Native.Pool

/-!
# Safety of the resource pool

Whatever the threads do, every resource is in one place: the idle list, a lease, a
thread that validates, creates or disposes of it, or handed to `adapter.destroy`. The
counters are what the threads hold.

## Key results

- `run_moves`: what one section moves between the pool and its thread
- `safe_next`: every event keeps the invariant
- `pool_safety`: what holds in every state that is reached
-/

namespace MetalOrm.Native

open ForStd

/-! ## What a thread holds -/

/-- The resources that a thread holds before a section. -/
def PoolSection.held : PoolSection → Multiset Resource
  | .validate r | .discard r _ | .grantIdle r | .grantNew r | .release r | .destroyLease r => {r}
  | .dispose rs _ => rs
  | .reserve | .create | .abort | .reap | .destroyPool => 0

/-- The part of `leased` that a thread stands for. -/
def PoolSection.leasing : PoolSection → Int
  | .validate _ | .discard _ _ | .grantIdle _ | .release _ | .destroyLease _ => 1
  | .grantNew _ | .dispose _ _ | .reserve | .create | .abort | .reap | .destroyPool => 0

/-- The part of `creating` that a thread stands for. -/
def PoolSection.creating : PoolSection → Int
  | .create | .abort | .grantNew _ => 1
  | .validate _ | .discard _ _ | .grantIdle _ | .release _ | .destroyLease _ | .dispose _ _
  | .reserve | .reap | .destroyPool => 0

namespace Progress

/-- The resources that a section leaves to its thread, or to the caller as a lease. -/
def held : Progress → Multiset Resource
  | next current => current.held
  | lease r => {r}
  | done => 0

/-- The part of `leased` that is left to the thread or the caller. -/
def leasing : Progress → Int
  | next current => current.leasing
  | lease _ => 1
  | done => 0

/-- The part of `creating` that is left to the thread. -/
def creating : Progress → Int
  | next current => current.creating
  | lease _ | done => 0

@[simp] theorem held_next (current : PoolSection) : (next current).held = current.held := rfl

@[simp] theorem held_lease (r : Resource) : (lease r).held = {r} := rfl

@[simp] theorem held_done : done.held = 0 := rfl

@[simp] theorem leasing_next (current : PoolSection) :
    (next current).leasing = current.leasing := rfl

@[simp] theorem leasing_lease (r : Resource) : (lease r).leasing = 1 := rfl

@[simp] theorem leasing_done : done.leasing = 0 := rfl

@[simp] theorem creating_next (current : PoolSection) :
    (next current).creating = current.creating := rfl

@[simp] theorem creating_lease (r : Resource) : (lease r).creating = 0 := rfl

@[simp] theorem creating_done : done.creating = 0 := rfl

@[simp] theorem held_disposeAll (rs : List Resource) : (disposeAll rs).held = rs := by
  cases rs <;> rfl

@[simp] theorem leasing_disposeAll (rs : List Resource) : (disposeAll rs).leasing = 0 := by
  cases rs <;> rfl

@[simp] theorem creating_disposeAll (rs : List Resource) : (disposeAll rs).creating = 0 := by
  cases rs <;> rfl

end Progress

/-- The resources that no thread and no lease holds. -/
def Pool.stored (pool : Pool) : Multiset Resource := pool.idleResources + pool.handed

/-! ## The reaper -/

namespace Pool

variable {timeout now : Int}

theorem reapLoop_old {entry : IdleEntry} (h : timeout ≤ now - entry.lastUsedAt) (removable : Nat)
    (entries : List IdleEntry) :
    reapLoop timeout now (removable + 1) (entry :: entries) =
      (entry.resource :: (reapLoop timeout now removable entries).1,
        (reapLoop timeout now removable entries).2) := by
  simp [reapLoop, h]

theorem reapLoop_recent {entry : IdleEntry} (h : ¬ timeout ≤ now - entry.lastUsedAt)
    (removable : Nat) (entries : List IdleEntry) :
    reapLoop timeout now (removable + 1) (entry :: entries) =
      ((reapLoop timeout now (removable + 1) entries).1,
        entry :: (reapLoop timeout now (removable + 1) entries).2) := by
  simp [reapLoop, h]

@[simp] theorem reapLoop_nil (removable : Nat) : reapLoop timeout now removable [] = ([], []) := by
  cases removable <;> rfl

@[simp] theorem reapLoop_zero (entries : List IdleEntry) :
    reapLoop timeout now 0 entries = ([], entries) := by
  cases entries <;> rfl

variable (timeout now) in
/-- The reaper splits the idle list. -/
theorem reapLoop_split (removable : Nat) (entries : List IdleEntry) :
    ((reapLoop timeout now removable entries).1 : Multiset Resource) +
        (reapLoop timeout now removable entries).2.map IdleEntry.resource =
      entries.map IdleEntry.resource := by
  induction entries generalizing removable with
  | nil => simp
  | cons entry entries ih =>
    cases removable with
    | zero => simp
    | succ removable =>
      by_cases hold : timeout ≤ now - entry.lastUsedAt
      · rw [reapLoop_old hold]
        simp only [List.map_cons, ← Multiset.cons_coe, Multiset.cons_add, ih]
      · rw [reapLoop_recent hold]
        simp only [List.map_cons, ← Multiset.cons_coe, Multiset.add_cons, ih]

/-- The reaper keeps what has been used recently. -/
theorem reapLoop_keeps {entry : IdleEntry} (hrecent : ¬ timeout ≤ now - entry.lastUsedAt)
    {removable : Nat} {entries : List IdleEntry} (h : entry ∈ entries) :
    entry ∈ (reapLoop timeout now removable entries).2 := by
  induction entries generalizing removable with
  | nil => simp at h
  | cons entry' entries ih =>
    cases removable with
    | zero => simpa using h
    | succ removable =>
      by_cases hold : timeout ≤ now - entry'.lastUsedAt
      · rw [reapLoop_old hold]
        cases List.mem_cons.mp h with
        | inl h => exact absurd hold (h ▸ hrecent)
        | inr h => exact ih h
      · rw [reapLoop_recent hold]
        cases List.mem_cons.mp h with
        | inl h => exact h ▸ List.mem_cons_self
        | inr h => exact List.mem_cons_of_mem _ (ih h)

theorem reapLoop_length (removable : Nat) (entries : List IdleEntry) :
    (reapLoop timeout now removable entries).2.length ≤ entries.length := by
  have hsplit := congrArg Multiset.card (reapLoop_split timeout now removable entries)
  simp at hsplit
  omega

end Pool

/-! ## Sections -/

/-- What one section moves. -/
structure SectionMoves (pool pool' : Pool) (current : PoolSection) (progress : Progress) : Prop where
  leased : pool'.leased + current.leasing = pool.leased + progress.leasing
  creating : pool'.creating + current.creating = pool.creating + progress.creating
  places : pool'.stored + progress.held + Multiset.range pool.created =
    pool.stored + current.held + Multiset.range pool'.created

attribute [simp] PoolSection.held PoolSection.leasing PoolSection.creating

/-- The last idle entry leaves the idle list. -/
theorem Pool.stored_dropLast {pool : Pool} {entry : IdleEntry}
    (h : pool.idle.getLast? = some entry) :
    pool.stored = {entry.resource} + { pool with idle := pool.idle.dropLast }.stored := by
  have hidle : pool.idle = pool.idle.dropLast ++ [entry] :=
    (List.dropLast_append_getLast? entry h).symm
  have hresources : (pool.idle.map IdleEntry.resource : Multiset Resource) =
      {entry.resource} + pool.idle.dropLast.map IdleEntry.resource := by
    rw [hidle]
    simp
  simp only [Pool.stored, Pool.idleResources, hresources]
  exact add_assoc _ _ _

theorem run_moves (options : PoolOptions) (now : Int) (outcome : Outcome) (pool : Pool)
    (current : PoolSection) :
    SectionMoves pool (current.run options now outcome pool).1 current
      (current.run options now outcome pool).2 := by
  cases current with
  | reserve =>
    simp only [PoolSection.run]
    split
    · constructor <;> rfl
    · split
      · rename_i entry hlast
        constructor
        · simp
        · simp
        · rw [Pool.stored_dropLast hlast]
          simp [Pool.stored, Pool.idleResources, add_comm]
      · split
        · constructor <;> simp [Pool.stored, Pool.idleResources]
        · split <;> constructor <;> rfl
  | validate r =>
    cases outcome <;> constructor <;> rfl
  | discard r retry => constructor <;> simp [PoolSection.run, Pool.stored, Pool.idleResources]
  | grantIdle r =>
    simp only [PoolSection.run]
    split <;> constructor <;> simp [Pool.stored, Pool.idleResources]
  | create =>
    cases outcome with
    | returns =>
      constructor
      · simp [PoolSection.run]
      · simp [PoolSection.run]
      · simp only [PoolSection.run, PoolSection.held, Progress.held_next, Multiset.range_succ,
          ← Multiset.singleton_add]
        ac_rfl
    | refuses | throws => constructor <;> rfl
  | abort => constructor <;> simp [PoolSection.run, Pool.stored, Pool.idleResources]
  | grantNew r =>
    simp only [PoolSection.run]
    split <;> constructor <;> simp [Pool.stored, Pool.idleResources]
  | dispose rs retry =>
    cases rs with
    | nil => constructor <;> simp [PoolSection.run]
    | cons r rs =>
      -- the head of the list is handed over, the rest stays with the thread
      have hhanded : { pool with handed := r :: pool.handed }.stored + (rs : Multiset Resource) =
          pool.stored + ((r :: rs : List Resource) : Multiset Resource) := by
        simp only [Pool.stored, Pool.idleResources, ← Multiset.cons_coe, ← Multiset.singleton_add]
        ac_rfl
      simp only [PoolSection.run]
      split
      · rename_i hretry
        rw [hretry.2.1] at hhanded
        constructor
        · simp
        · simp
        · simpa [hretry.2.1] using hhanded
      · constructor
        · simp
        · simp
        · simpa using hhanded
  | release r =>
    simp only [PoolSection.run]
    split
    · constructor <;> simp [Pool.stored, Pool.idleResources]
    · constructor
      · simp
      · simp
      · simp only [Pool.stored, Pool.idleResources, List.map_append, ← Multiset.coe_add,
          PoolSection.held, Progress.held_done, List.map_cons, List.map_nil, Multiset.coe_singleton]
        ac_rfl
  | destroyLease r => constructor <;> simp [PoolSection.run, Pool.stored, Pool.idleResources]
  | reap =>
    simp only [PoolSection.run]
    split
    · constructor <;> rfl
    · have hsplit := Pool.reapLoop_split options.idleTimeout now
        (pool.idle.length - options.min) pool.idle
      constructor
      · simp
      · simp
      · simp only [Pool.stored, Pool.idleResources, ← hsplit, PoolSection.held,
          Progress.held_disposeAll]
        ac_rfl
  | destroyPool =>
    simp only [PoolSection.run]
    split
    · constructor <;> rfl
    · constructor
      · simp
      · simp
      · simp only [Pool.stored, Pool.idleResources, PoolSection.held, Progress.held_disposeAll]
        simp [add_comm]

/-- No section makes the pool larger than it may be. -/
theorem run_totalLive {options : PoolOptions} {pool : Pool} (h : pool.totalLive ≤ options.max)
    (now : Int) (outcome : Outcome) (current : PoolSection) :
    (current.run options now outcome pool).1.totalLive ≤ options.max := by
  unfold Pool.totalLive at h ⊢
  cases current with
  | reserve =>
    simp only [PoolSection.run]
    split
    · exact h
    · split
      · rename_i entry hlast
        have hne : pool.idle ≠ [] := by
          intro hnil
          simp [hnil] at hlast
        have hlength := List.length_pos_iff.mpr hne
        simp only [List.length_dropLast]
        omega
      · split
        · rename_i hlive
          unfold Pool.totalLive at hlive
          show (pool.idle.length : Int) + pool.leased + (pool.creating + 1) ≤ options.max
          omega
        · split <;> exact h
  | validate r => cases outcome <;> exact h
  | discard r retry =>
    show (pool.idle.length : Int) + (pool.leased - 1) + pool.creating ≤ options.max
    omega
  | grantIdle r =>
    simp only [PoolSection.run]
    split
    · show (pool.idle.length : Int) + (pool.leased - 1) + pool.creating ≤ options.max
      omega
    · exact h
  | create => cases outcome <;> exact h
  | abort =>
    show (pool.idle.length : Int) + pool.leased + (pool.creating - 1) ≤ options.max
    omega
  | grantNew r =>
    simp only [PoolSection.run]
    split
    · show (pool.idle.length : Int) + pool.leased + (pool.creating - 1) ≤ options.max
      omega
    · show (pool.idle.length : Int) + (pool.leased + 1) + (pool.creating - 1) ≤ options.max
      omega
  | dispose rs retry =>
    cases rs with
    | nil => exact h
    | cons r rs => exact h
  | release r =>
    simp only [PoolSection.run]
    split
    · show (pool.idle.length : Int) + (pool.leased - 1) + pool.creating ≤ options.max
      omega
    · simp only [List.length_append, List.length_singleton]
      omega
  | destroyLease r =>
    show (pool.idle.length : Int) + (pool.leased - 1) + pool.creating ≤ options.max
    omega
  | reap =>
    simp only [PoolSection.run]
    split
    · exact h
    · have hkeep : (Pool.reapLoop options.idleTimeout now (pool.idle.length - options.min)
          pool.idle).2.length ≤ pool.idle.length := Pool.reapLoop_length _ _
      simp only
      omega
  | destroyPool =>
    simp only [PoolSection.run]
    split
    · exact h
    · simp only [List.length_nil]
      omega

/-- A destroyed pool stays destroyed, keeps nothing idle and grants nothing. -/
theorem run_destroyed {pool : Pool} (hdestroyed : pool.destroyed = true) (hidle : pool.idle = [])
    (options : PoolOptions) (now : Int) (outcome : Outcome) (current : PoolSection) :
    (current.run options now outcome pool).1.destroyed = true ∧
    (current.run options now outcome pool).1.idle = [] ∧
    ∀ r, (current.run options now outcome pool).2 ≠ .lease r := by
  cases current with
  | reserve => simp [PoolSection.run, hdestroyed, hidle]
  | validate r => cases outcome <;> simp [PoolSection.run, hdestroyed, hidle]
  | create => cases outcome <;> simp [PoolSection.run, hdestroyed, hidle]
  | dispose rs retry =>
    have hall : ∀ rs r, Progress.disposeAll rs ≠ .lease r := by
      intro rs r
      unfold Progress.disposeAll
      split <;> simp
    cases rs with
    | nil => simp [PoolSection.run, hdestroyed, hidle]
    | cons r rs =>
      simp only [PoolSection.run, hdestroyed, hidle, true_and]
      split
      · simp
      · exact hall rs
  | discard | grantIdle | abort | grantNew | release | destroyLease | reap | destroyPool =>
    simp [PoolSection.run, hdestroyed, hidle]

/-- Only `destroy` destroys the pool, and it empties the idle list. -/
theorem run_closed {pool : Pool} (hpool : pool.destroyed = true → pool.idle = [])
    (options : PoolOptions) (now : Int) (outcome : Outcome) (current : PoolSection)
    (h : (current.run options now outcome pool).1.destroyed = true) :
    (current.run options now outcome pool).1.idle = [] := by
  cases hdestroyed : pool.destroyed with
  | true => exact (run_destroyed hdestroyed (hpool hdestroyed) options now outcome current).2.1
  | false =>
    cases current with
    | destroyPool => simp [PoolSection.run, hdestroyed]
    | reserve =>
      simp only [PoolSection.run, hdestroyed, Bool.false_eq_true, if_false] at h
      split at h
      · simp at h
      · split at h
        · simp at h
        · split at h <;> simp [hdestroyed] at h
    | validate r => cases outcome <;> simp [PoolSection.run, hdestroyed] at h
    | create => cases outcome <;> simp [PoolSection.run, hdestroyed] at h
    | dispose rs retry => cases rs <;> simp [PoolSection.run, hdestroyed] at h
    | reap =>
      simp only [PoolSection.run, hdestroyed] at h
      split at h <;> simp [hdestroyed] at h
    | discard | grantIdle | abort | grantNew | release | destroyLease =>
      simp [PoolSection.run, hdestroyed] at h

theorem PoolSection.reap_keeps {options : PoolOptions} {pool : Pool} {now : Int}
    (outcome : Outcome) {entry : IdleEntry} (h : entry ∈ pool.idle)
    (hrecent : ¬ options.idleTimeout ≤ now - entry.lastUsedAt) :
    entry ∈ (PoolSection.reap.run options now outcome pool).1.idle := by
  simp only [PoolSection.run]
  split
  · exact h
  · exact Pool.reapLoop_keeps hrecent h

/-! ## Threads -/

/-- The section that a call goes on with. -/
def Progress.pending : Progress → Option PoolSection
  | .next current => some current
  | .lease _ | .done => none

/-- The lease that `acquire` returns. -/
def Progress.granted : Progress → List Resource
  | .lease r => [r]
  | .next _ | .done => []

/-- The resources of a thread. -/
def heldBy (pending : Option PoolSection) : Multiset Resource := pending.elim 0 PoolSection.held

/-- The part of `leased` of a thread. -/
def leasingBy (pending : Option PoolSection) : Int := pending.elim 0 PoolSection.leasing

/-- The part of `creating` of a thread. -/
def creatingBy (pending : Option PoolSection) : Int := pending.elim 0 PoolSection.creating

@[simp] theorem heldBy_none : heldBy none = 0 := rfl

@[simp] theorem heldBy_some (current : PoolSection) : heldBy (some current) = current.held := rfl

@[simp] theorem leasingBy_none : leasingBy none = 0 := rfl

@[simp] theorem leasingBy_some (current : PoolSection) :
    leasingBy (some current) = current.leasing := rfl

@[simp] theorem creatingBy_none : creatingBy none = 0 := rfl

@[simp] theorem creatingBy_some (current : PoolSection) :
    creatingBy (some current) = current.creating := rfl

theorem Progress.held_eq (progress : Progress) :
    progress.held = heldBy progress.pending + progress.granted := by
  cases progress <;> simp [pending, granted, heldBy]

theorem Progress.leasing_eq (progress : Progress) :
    progress.leasing = leasingBy progress.pending + progress.granted.length := by
  cases progress <;> simp [pending, granted, leasingBy]

theorem Progress.creating_eq (progress : Progress) :
    progress.creating = creatingBy progress.pending := by
  cases progress <;> rfl

namespace PoolThreads

variable {ι : Type} [DecidableEq ι]

theorem advance_eq (s : PoolThreads ι) (i : ι) (result : Pool × Progress) :
    s.advance i result = ⟨result.1, result.2.granted ++ s.leases,
      Function.update s.pending i result.2.pending⟩ := by
  unfold advance
  cases result.2 <;> rfl

/-- What the start of a call does: nothing, or it moves a lease to the thread. -/
theorem begin_cases (s : PoolThreads ι) (i : ι) (poolCall : PoolCall) :
    s.begin i poolCall = s ∨
    ∃ current leases, s.begin i poolCall = ⟨s.pool, leases,
        Function.update s.pending i (some current)⟩ ∧
      (s.leases : Multiset Resource) = leases + current.held ∧
      (s.leases.length : Int) = leases.length + current.leasing ∧ current.creating = 0 := by
  have hgive : ∀ r ∈ s.leases, ∀ current : PoolSection, current.held = {r} → current.leasing = 1 →
      (s.leases : Multiset Resource) = (s.leases.erase r : List Resource) + current.held ∧
      (s.leases.length : Int) = (s.leases.erase r).length + current.leasing := by
    intro r hr current hheld hleasing
    have hcons : (s.leases : Multiset Resource) = r ::ₘ (s.leases.erase r : List Resource) := by
      rw [← Multiset.coe_erase, Multiset.cons_erase (Multiset.mem_coe.mpr hr)]
    constructor
    · rw [hheld, hcons, ← Multiset.singleton_add, add_comm]
    · have hcard := congrArg Multiset.card hcons
      simp only [Multiset.coe_card, Multiset.card_cons] at hcard
      omega
  cases poolCall with
  | acquire => exact Or.inr ⟨.reserve, s.leases, rfl, by simp, by simp, rfl⟩
  | reap => exact Or.inr ⟨.reap, s.leases, rfl, by simp, by simp, rfl⟩
  | destroy => exact Or.inr ⟨.destroyPool, s.leases, rfl, by simp, by simp, rfl⟩
  | release r =>
    by_cases hr : r ∈ s.leases
    · obtain ⟨hheld, hleasing⟩ := hgive r hr (.release r) rfl rfl
      exact Or.inr ⟨.release r, _, if_pos hr, hheld, hleasing, rfl⟩
    · exact Or.inl (if_neg hr)
  | destroyLease r =>
    by_cases hr : r ∈ s.leases
    · obtain ⟨hheld, hleasing⟩ := hgive r hr (.destroyLease r) rfl rfl
      exact Or.inr ⟨.destroyLease r, _, if_pos hr, hheld, hleasing, rfl⟩
    · exact Or.inl (if_neg hr)

/-- What an event does: nothing, the start of a call, or a section. -/
theorem next_cases (options : PoolOptions) (s : PoolThreads ι) (e : PoolEvent ι) :
    s.next options e = s ∨
    (∃ i current leases, s.pending i = none ∧
      s.next options e = ⟨s.pool, leases, Function.update s.pending i (some current)⟩ ∧
      (s.leases : Multiset Resource) = leases + current.held ∧
      (s.leases.length : Int) = leases.length + current.leasing ∧ current.creating = 0) ∨
    ∃ i current outcome now, s.pending i = some current ∧
      s.next options e = s.advance i (current.run options now outcome s.pool) := by
  cases e with
  | call i poolCall =>
    cases hi : s.pending i with
    | some current => exact Or.inl (by simp [next, hi])
    | none =>
      have hnext : s.next options (.call i poolCall) = s.begin i poolCall := by simp [next, hi]
      rw [hnext]
      cases begin_cases s i poolCall with
      | inl h => exact Or.inl h
      | inr h =>
        obtain ⟨current, leases, h⟩ := h
        exact Or.inr (Or.inl ⟨i, current, leases, hi, h⟩)
  | step i outcome now =>
    cases hi : s.pending i with
    | none => exact Or.inl (by simp [next, hi])
    | some current =>
      exact Or.inr (Or.inr ⟨i, current, outcome, now, hi, by simp [next, hi]⟩)

variable [Fintype ι]

/-- The invariant of the pool and its threads. -/
structure Safe (options : PoolOptions) (s : PoolThreads ι) : Prop where
  leased : s.pool.leased = s.leases.length + ∑ i, leasingBy (s.pending i)
  creating : s.pool.creating = ∑ i, creatingBy (s.pending i)
  places : s.pool.stored + s.leases + ∑ i, heldBy (s.pending i) = Multiset.range s.pool.created
  live : s.pool.totalLive ≤ options.max
  closed : s.pool.destroyed = true → s.pool.idle = []

/-- A call that begins moves a lease to its thread. -/
theorem Safe.begin {options : PoolOptions} {s : PoolThreads ι} (h : s.Safe options) {i : ι}
    {current : PoolSection} {leases : List Resource} (hi : s.pending i = none)
    (hheld : (s.leases : Multiset Resource) = leases + current.held)
    (hleasing : (s.leases.length : Int) = leases.length + current.leasing)
    (hcreating : current.creating = 0) :
    Safe options ⟨s.pool, leases, Function.update s.pending i (some current)⟩ := by
  have hl := sum_update_add leasingBy s.pending i (some current)
  have hc := sum_update_add creatingBy s.pending i (some current)
  have hp := sum_update_add heldBy s.pending i (some current)
  rw [hi, leasingBy_none, leasingBy_some] at hl
  rw [hi, creatingBy_none, creatingBy_some] at hc
  rw [hi, heldBy_none, heldBy_some] at hp
  have hleased := h.leased
  have hcreate := h.creating
  constructor
  · show s.pool.leased = leases.length +
      ∑ j, leasingBy (Function.update s.pending i (some current) j)
    omega
  · show s.pool.creating = ∑ j, creatingBy (Function.update s.pending i (some current) j)
    omega
  · show s.pool.stored + leases + ∑ j, heldBy (Function.update s.pending i (some current) j) = _
    rw [add_zero] at hp
    rw [hp, ← h.places, hheld]
    ac_rfl
  · exact h.live
  · exact h.closed

/-- A section keeps the invariant. -/
theorem Safe.advance {options : PoolOptions} {s : PoolThreads ι} (h : s.Safe options) {i : ι}
    {current : PoolSection} (hi : s.pending i = some current) (outcome : Outcome) (now : Int) :
    (s.advance i (current.run options now outcome s.pool)).Safe options := by
  have hrun := run_moves options now outcome s.pool current
  rcases hresult : current.run options now outcome s.pool with ⟨pool', progress⟩
  rw [hresult] at hrun
  rw [advance_eq]
  have hl := sum_update_add leasingBy s.pending i progress.pending
  have hc := sum_update_add creatingBy s.pending i progress.pending
  have hp := sum_update_add heldBy s.pending i progress.pending
  rw [hi, leasingBy_some] at hl
  rw [hi, creatingBy_some] at hc
  rw [hi, heldBy_some] at hp
  have hleased := h.leased
  have hcreate := h.creating
  constructor
  · have hmove : pool'.leased + current.leasing = s.pool.leased + progress.leasing := hrun.leased
    have hparts := progress.leasing_eq
    show pool'.leased = (progress.granted ++ s.leases).length +
      ∑ j, leasingBy (Function.update s.pending i progress.pending j)
    rw [List.length_append]
    omega
  · have hmove : pool'.creating + current.creating = s.pool.creating + progress.creating :=
      hrun.creating
    have hparts := progress.creating_eq
    show pool'.creating = ∑ j, creatingBy (Function.update s.pending i progress.pending j)
    omega
  · have hmove := hrun.places
    rw [progress.held_eq] at hmove
    show pool'.stored + ((progress.granted ++ s.leases : List Resource) : Multiset Resource) +
      ∑ j, heldBy (Function.update s.pending i progress.pending j) = _
    -- what the thread held before the section is on both sides
    apply add_right_cancel (b := current.held + Multiset.range s.pool.created)
    calc pool'.stored + ((progress.granted ++ s.leases : List Resource) : Multiset Resource) +
          ∑ j, heldBy (Function.update s.pending i progress.pending j) +
          (current.held + Multiset.range s.pool.created)
        = pool'.stored + progress.granted + s.leases + Multiset.range s.pool.created +
          (∑ j, heldBy (Function.update s.pending i progress.pending j) + current.held) := by
          rw [← Multiset.coe_add]
          ac_rfl
      _ = pool'.stored + (heldBy progress.pending + progress.granted) +
          Multiset.range s.pool.created + s.leases + ∑ j, heldBy (s.pending j) := by
          rw [hp]
          ac_rfl
      _ = s.pool.stored + s.leases + ∑ j, heldBy (s.pending j) +
          (current.held + Multiset.range pool'.created) := by
          rw [hmove]
          ac_rfl
      _ = Multiset.range pool'.created + (current.held + Multiset.range s.pool.created) := by
          rw [h.places]
          ac_rfl
  · have hlive := run_totalLive h.live now outcome current
    rwa [hresult] at hlive
  · intro hdestroyed
    have hidle := run_closed h.closed options now outcome current
    rw [hresult] at hidle
    exact hidle hdestroyed

/-- Every event keeps the invariant. -/
theorem safe_next {options : PoolOptions} {s : PoolThreads ι} (h : s.Safe options)
    (e : PoolEvent ι) : (s.next options e).Safe options := by
  obtain hs | ⟨i, current, leases, hi, hs, hheld, hleasing, hcreating⟩ |
    ⟨i, current, outcome, now, hi, hs⟩ := next_cases options s e
  · rwa [hs]
  · rw [hs]
    exact h.begin hi hheld hleasing hcreating
  · rw [hs]
    exact h.advance hi outcome now

omit [DecidableEq ι] in
/-- A pool that its constructor has warmed is safe. -/
theorem safe_init {options : PoolOptions} {n : Nat} (hn : n ≤ options.max) (now : Int) :
    (init (Pool.warmed n now) : PoolThreads ι).Safe options := by
  have hstored : (Pool.warmed n now).stored = Multiset.range n := by
    simp [Pool.stored, Pool.idleResources, Pool.warmed, Function.comp_def, Multiset.range]
  constructor
  · simp [init, Pool.warmed]
  · simp [init, Pool.warmed]
  · simp only [init, hstored, heldBy_none, Finset.sum_const_zero]
    simp [Pool.warmed]
  · simpa [init, Pool.totalLive, Pool.warmed] using hn
  · simp [init, Pool.warmed]

/-! ## What the invariant says -/

omit [DecidableEq ι] in
theorem Safe.leased_nonneg {options : PoolOptions} {s : PoolThreads ι} (h : s.Safe options) :
    0 ≤ s.pool.leased ∧ 0 ≤ s.pool.creating := by
  have hleasing : ∀ pending : Option PoolSection, 0 ≤ leasingBy pending := by
    intro pending
    cases pending with
    | none => exact Int.le_refl 0
    | some current => cases current <;> simp
  have hcreating : ∀ pending : Option PoolSection, 0 ≤ creatingBy pending := by
    intro pending
    cases pending with
    | none => exact Int.le_refl 0
    | some current => cases current <;> simp
  have hl := Finset.sum_nonneg fun i (_ : i ∈ Finset.univ) => hleasing (s.pending i)
  have hc := Finset.sum_nonneg fun i (_ : i ∈ Finset.univ) => hcreating (s.pending i)
  rw [h.leased, h.creating]
  constructor <;> omega

/-- A destroyed pool stays destroyed and empty, and its leases only become fewer. -/
theorem Safe.next_destroyed {options : PoolOptions} {s : PoolThreads ι} (h : s.Safe options)
    (hdestroyed : s.pool.destroyed = true) (e : PoolEvent ι) :
    (s.next options e).pool.destroyed = true ∧ (s.next options e).pool.idle = [] ∧
    ∀ r ∈ (s.next options e).leases, r ∈ s.leases := by
  have hidle := h.closed hdestroyed
  obtain hs | ⟨i, current, leases, hi, hs, hheld, _, _⟩ |
    ⟨i, current, outcome, now, hi, hs⟩ := next_cases options s e
  · rw [hs]
    exact ⟨hdestroyed, hidle, fun r hr => hr⟩
  · rw [hs]
    refine ⟨hdestroyed, hidle, fun r hr => ?_⟩
    rw [← Multiset.mem_coe, hheld, Multiset.mem_add]
    exact Or.inl (Multiset.mem_coe.mpr hr)
  · obtain ⟨hd, hempty, hgrant⟩ := run_destroyed hdestroyed hidle options now outcome current
    rw [hs, advance_eq]
    refine ⟨hd, hempty, fun r hr => ?_⟩
    cases hprogress : (current.run options now outcome s.pool).2 with
    | lease r' => exact absurd hprogress (hgrant r')
    | next current' =>
      rw [hprogress] at hr
      exact hr
    | done =>
      rw [hprogress] at hr
      exact hr

/-- What a pool promises in a state. -/
structure PoolContract (options : PoolOptions) (s : PoolThreads ι) : Prop where
  /-- The pool is never larger than `max`. -/
  live : s.pool.idle.length + s.pool.leased + s.pool.creating ≤ options.max
  /-- No counter was decremented below zero. -/
  counters : 0 ≤ s.pool.leased ∧ 0 ≤ s.pool.creating
  /-- `leased` counts the leases and what threads took from the idle list or give back. -/
  leased : s.pool.leased = s.leases.length + ∑ i, leasingBy (s.pending i)
  /-- Every resource is in exactly one place. -/
  places : (s.pool.idleResources : Multiset Resource) + s.pool.handed + s.leases +
    ∑ i, heldBy (s.pending i) = Multiset.range s.pool.created
  /-- At the end every resource was handed to `adapter.destroy`, once. -/
  disposed : s.pool.destroyed = true → s.leases = [] → (∀ i, s.pending i = none) →
    (s.pool.handed : Multiset Resource) = Multiset.range s.pool.created
  /-- A destroyed pool keeps nothing idle and grants no lease. -/
  destroyed : s.pool.destroyed = true → s.pool.idle = [] ∧
    ∀ e, (s.next options e).pool.destroyed = true ∧ (s.next options e).pool.idle = [] ∧
      ∀ r ∈ (s.next options e).leases, r ∈ s.leases
  /-- The reaper only removes what has been idle long enough. -/
  reaper : ∀ now outcome, ∀ entry ∈ s.pool.idle,
    entry ∉ (PoolSection.reap.run options now outcome s.pool).1.idle →
      options.idleTimeout ≤ now - entry.lastUsedAt

theorem Safe.contract {options : PoolOptions} {s : PoolThreads ι} (h : s.Safe options) :
    s.PoolContract options := by
  constructor
  · exact h.live
  · exact h.leased_nonneg
  · exact h.leased
  · exact h.places
  · intro hdestroyed hleases hpending
    have hplaces := h.places
    simpa [Pool.stored, Pool.idleResources, h.closed hdestroyed, hleases, hpending] using hplaces
  · exact fun hdestroyed => ⟨h.closed hdestroyed, h.next_destroyed hdestroyed⟩
  · intro now outcome entry hentry hremoved
    by_contra hrecent
    exact hremoved (PoolSection.reap_keeps outcome hentry hrecent)

/-- In every interleaving of calls and sections, by any number of threads, the pool keeps
    its contract. -/
theorem pool_safety {options : PoolOptions} {n : Nat} (hn : n ≤ options.max) (now : Int)
    (events : List (PoolEvent ι)) :
    (runEvents (next options) (init (Pool.warmed n now)) events).PoolContract options := by
  have hsafe : (runEvents (next options) (init (Pool.warmed n now)) events).Safe options :=
    runEvents_invariant (Safe options) (fun _ e _ hs => safe_next hs e) (safe_init hn now)
  exact hsafe.contract

/-- One resource, no minimum, no timeouts. -/
private def oneResource : PoolOptions := ⟨1, 1, 0, 0⟩

theorem pool_safety_one :
    (runEvents (next oneResource) (init (Pool.warmed 1 0))
      [.call (0 : Fin 2) .acquire, .step 0 .returns 0]).PoolContract oneResource :=
  pool_safety (Nat.le_refl 1) 0 _

/-- `destroy` returns while another thread validates the only resource: no lease is
    outstanding, and the resource has not been handed to `adapter.destroy`. -/
theorem not_pool_safety :
    let s := runEvents (next oneResource) (init (Pool.warmed 1 0))
      [.call (0 : Fin 2) .acquire, .step 0 .returns 0, .call 1 .destroy, .step 1 .returns 0]
    s.pool.destroyed = true ∧ s.pending 1 = none ∧ s.leases = [] ∧ s.pool.created = 1 ∧
      s.pool.handed = [] :=
  ⟨rfl, rfl, rfl, rfl, rfl⟩

end PoolThreads

end MetalOrm.Native
