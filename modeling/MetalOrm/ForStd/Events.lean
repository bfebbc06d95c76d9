import Mathlib

/-!
# Systems that take events

A system is a state and a function that takes one event after the other; events that
are not enabled leave the state as it is. An interleaving of threads is such a list of
events, with the thread that acts as a part of the event.

## Key results

- `runEvents_append`: a run is the run of its parts
- `runEvents_invariant`: what every event keeps holds along a run
- `AlongEvents.invariant`: the same for events that meet a condition
- `sum_update_add`: a sum over the threads when one of them moves
-/

namespace MetalOrm.ForStd

variable {σ ε : Type}

/-- The state after some events. -/
def runEvents (next : σ → ε → σ) (s : σ) (events : List ε) : σ := events.foldl next s

@[simp] theorem runEvents_nil (next : σ → ε → σ) (s : σ) : runEvents next s [] = s := rfl

@[simp] theorem runEvents_cons (next : σ → ε → σ) (s : σ) (e : ε) (events : List ε) :
    runEvents next s (e :: events) = runEvents next (next s e) events := rfl

theorem runEvents_append (next : σ → ε → σ) (s : σ) (events events' : List ε) :
    runEvents next s (events ++ events') = runEvents next (runEvents next s events) events' :=
  List.foldl_append

/-- What every event of a run keeps holds after the run. -/
theorem runEvents_invariant {next : σ → ε → σ} (I : σ → Prop) {events : List ε}
    (step : ∀ s, ∀ e ∈ events, I s → I (next s e)) {s : σ} (hs : I s) :
    I (runEvents next s events) := by
  induction events generalizing s with
  | nil => exact hs
  | cons e events ih =>
    apply ih fun s e' he' => step s e' (List.mem_cons_of_mem e he')
    exact step s e List.mem_cons_self hs

/-- Every event of a run meets a condition, in the state in which it happens. -/
def AlongEvents (next : σ → ε → σ) (cond : σ → ε → Prop) : σ → List ε → Prop
  | _, [] => True
  | s, e :: events => cond s e ∧ AlongEvents next cond (next s e) events

/-- What the events that meet a condition keep holds after a run of them. -/
theorem AlongEvents.invariant {next : σ → ε → σ} {cond : σ → ε → Prop} {I : σ → Prop}
    (step : ∀ s e, I s → cond s e → I (next s e)) {s : σ} {events : List ε}
    (h : AlongEvents next cond s events) (hs : I s) : I (runEvents next s events) := by
  induction events generalizing s with
  | nil => exact hs
  | cons e events ih => exact ih h.2 (step s e hs h.1)

/-- Along a run that keeps an invariant, a condition may be replaced by what it means there. -/
theorem AlongEvents.imp_of_invariant {next : σ → ε → σ} {cond cond' : σ → ε → Prop} {I : σ → Prop}
    (step : ∀ s e, I s → cond s e → I (next s e)) (himp : ∀ s e, I s → cond s e → cond' s e)
    {s : σ} {events : List ε} (h : AlongEvents next cond s events) (hs : I s) :
    AlongEvents next cond' s events := by
  induction events generalizing s with
  | nil => trivial
  | cons e events ih => exact ⟨himp s e hs h.1, ih h.2 (step s e hs h.1)⟩

theorem AlongEvents.append {next : σ → ε → σ} {cond : σ → ε → Prop} {s : σ} {events more : List ε}
    (h : AlongEvents next cond s events)
    (hmore : AlongEvents next cond (runEvents next s events) more) :
    AlongEvents next cond s (events ++ more) := by
  induction events generalizing s with
  | nil => exact hmore
  | cons e events ih => exact ⟨h.1, ih h.2 hmore⟩

/-! ## Sums over threads -/

/-- When one thread moves, a sum over the threads changes by its part. -/
theorem sum_update_add {ι α M : Type} [Fintype ι] [DecidableEq ι] [AddCommMonoid M] (f : α → M)
    (p : ι → α) (i : ι) (a : α) :
    ∑ j, f (Function.update p i a j) + f (p i) = ∑ j, f (p j) + f a := by
  have hother : ∑ j ∈ Finset.univ.erase i, f (Function.update p i a j) =
      ∑ j ∈ Finset.univ.erase i, f (p j) := by
    apply Finset.sum_congr rfl
    intro j hj
    rw [Function.update_of_ne (Finset.ne_of_mem_erase hj)]
  rw [← Finset.add_sum_erase _ (fun j => f (Function.update p i a j)) (Finset.mem_univ i),
    ← Finset.add_sum_erase _ (fun j => f (p j)) (Finset.mem_univ i), hother,
    Function.update_self]
  ac_rfl

end MetalOrm.ForStd
