import Mathlib

/-!
# What a database keeps of a connection

A journal follows one connection: the transactions and savepoints that it opens and closes, and its
writes. A write inside a transaction is pending until the transaction ends; one outside of any
transaction is kept at once.

Calls that failed change nothing, so the journal is only told of those that succeeded, and of all
writes that were attempted outside a transaction.
-/

namespace MetalOrm.ForStd

variable {ν ω : Type}

/-- What an open transaction has. -/
inductive Pending (ν ω : Type) where
  | savepoint (name : ν)
  | write (w : ω)
deriving DecidableEq

/-- `pending` has the newest entry first; `kept` are the writes that the database keeps, and
    `outside` those that were attempted outside of any transaction. -/
structure Journal (ν ω : Type) where
  isOpen : Bool := false
  pending : List (Pending ν ω) := []
  kept : List ω := []
  outside : List ω := []
deriving DecidableEq

namespace Pending

/-- The write, if the entry is one. -/
def write? : Pending ν ω → Option ω
  | savepoint _ => none
  | write w => some w

/-- The entry is the savepoint with this name. -/
def isSavepoint [DecidableEq ν] (name : ν) : Pending ν ω → Bool
  | savepoint n => n = name
  | write _ => false

end Pending

namespace Journal

/-- The writes of the open transaction, the oldest first. -/
def writes (j : Journal ν ω) : List ω := (j.pending.filterMap Pending.write?).reverse

def begin (j : Journal ν ω) : Journal ν ω := { j with isOpen := true, pending := [] }

/-- The pending writes are kept, if a transaction is open. -/
def commit (j : Journal ν ω) : Journal ν ω :=
  { j with
    isOpen := false
    pending := []
    kept := if j.isOpen then j.kept ++ j.writes else j.kept }

def rollback (j : Journal ν ω) : Journal ν ω := { j with isOpen := false, pending := [] }

def savepoint (name : ν) (j : Journal ν ω) : Journal ν ω :=
  { j with pending := .savepoint name :: j.pending }

variable [DecidableEq ν]

/-- The savepoint goes, with those set after it, and the writes stay. -/
def release (name : ν) (j : Journal ν ω) : Journal ν ω :=
  if j.pending.any (Pending.isSavepoint name) then
    { j with pending :=
        (j.pending.takeWhile fun p => !p.isSavepoint name).filter (·.write?.isSome) ++
          (j.pending.dropWhile fun p => !p.isSavepoint name).tail }
  else j

/-- What was done since the savepoint goes, and the savepoint stays. -/
def rollbackTo (name : ν) (j : Journal ν ω) : Journal ν ω :=
  if j.pending.any (Pending.isSavepoint name) then
    { j with pending := j.pending.dropWhile fun p => !p.isSavepoint name }
  else j

omit [DecidableEq ν]

/-- A write, and whether it succeeded. -/
def write (w : ω) (ok : Bool) (j : Journal ν ω) : Journal ν ω :=
  if j.isOpen then
    if ok then { j with pending := .write w :: j.pending } else j
  else
    { j with
      kept := if ok then j.kept ++ [w] else j.kept
      outside := j.outside ++ [w] }

/-- Forget the writes so far. -/
def watch (j : Journal ν ω) : Journal ν ω :=
  { j with pending := j.pending.filter (·.write?.isNone), kept := [], outside := [] }

/-- Nothing was written outside of a transaction, and nothing was kept. -/
def Clear (j : Journal ν ω) : Prop := j.outside = [] ∧ j.kept = []

instance [DecidableEq ω] (j : Journal ν ω) : Decidable j.Clear :=
  inferInstanceAs (Decidable (_ ∧ _))

theorem clear_watch (j : Journal ν ω) : j.watch.Clear := ⟨rfl, rfl⟩

namespace Clear

variable {j : Journal ν ω}

/-- A transaction without writes may be committed. -/
theorem commit (h : j.Clear) (hwrites : j.isOpen = true → j.writes = []) : j.commit.Clear := by
  refine ⟨h.1, ?_⟩
  show (if j.isOpen then j.kept ++ j.writes else j.kept) = []
  split
  · rename_i hopen
    rw [h.2, hwrites hopen, List.append_nil]
  · exact h.2

/-- Writes inside a transaction are pending. -/
theorem write (h : j.Clear) (hopen : j.isOpen = true) (w : ω) (ok : Bool) :
    (j.write w ok).Clear ∧ (j.write w ok).isOpen = true := by
  rw [Journal.write, if_pos hopen]
  cases ok with
  | true => exact ⟨h, hopen⟩
  | false => exact ⟨h, hopen⟩

variable [DecidableEq ν]

theorem release (h : j.Clear) (name : ν) : (j.release name).Clear := by
  unfold Journal.release
  split
  · exact h
  · exact h

theorem rollbackTo (h : j.Clear) (name : ν) : (j.rollbackTo name).Clear := by
  unfold Journal.rollbackTo
  split
  · exact h
  · exact h

end Clear

/-- A write outside of any transaction is never clear. -/
theorem not_clear_write {j : Journal ν ω} (hopen : j.isOpen = false) (w : ω) (ok : Bool) :
    ¬ (j.write w ok).Clear := by
  intro h
  have houtside : (j.write w ok).outside = j.outside ++ [w] := by simp [Journal.write, hopen]
  rw [h.1] at houtside
  exact List.cons_ne_nil _ _ (List.append_eq_nil_iff.mp houtside.symm).2

end Journal

end MetalOrm.ForStd
