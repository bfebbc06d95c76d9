import Mathlib

/-!
# Graphs that change at one node

What the nodes of a heap point to is a relation; it is well-founded when every node is
accessible. A write to one node keeps that, as long as what the node then points to does not
lead back to it.

## Key results

- `not_reaches_of_acc`: an accessible node is on no cycle
- `acc_redirect`: the nodes stay accessible when one of them is redirected
-/

namespace MetalOrm.ForStd

open Relation

variable {ι : Type} {R R' : ι → ι → Prop}

/-- A node from which no infinite path begins is on no cycle. -/
theorem not_reaches_of_acc {a : ι} (ha : Acc (fun b a => R a b) a) {b : ι} (hab : R a b) :
    ¬ ReflTransGen R b a := by
  have hcycle : ∀ a, Acc (TransGen fun b a => R a b) a → ¬ TransGen (fun b a => R a b) a a := by
    intro a ha
    induction ha with
    | intro a _ ih => exact fun h => ih a h h
  intro h
  apply hcycle a ha.transGen
  apply transGen_swap.mp
  exact TransGen.head' hab h

/-- What does not lead to the node that changes stays accessible. -/
theorem acc_of_not_reaches {r : ι} (hother : ∀ a b, a ≠ r → R' a b → R a b) {a : ι}
    (ha : Acc (fun b a => R a b) a) (hr : ¬ ReflTransGen R a r) :
    Acc (fun b a => R' a b) a := by
  induction ha with
  | intro a _ ih =>
    have hne : a ≠ r := fun h => hr (h ▸ .refl)
    constructor
    intro b hab
    have hR : R a b := hother a b hne hab
    exact ih b hR fun h => hr (.head hR h)

/-- The node `r` is redirected to nodes that do not lead to it. -/
theorem acc_redirect {r : ι} (hother : ∀ a b, a ≠ r → R' a b → R a b)
    (hnew : ∀ b, R' r b → ¬ ReflTransGen R b r) (hacc : ∀ a, Acc (fun b a => R a b) a) (a : ι) :
    Acc (fun b a => R' a b) a := by
  have hr : Acc (fun b a => R' a b) r :=
    ⟨r, fun b hb => acc_of_not_reaches hother (hacc b) (hnew b hb)⟩
  induction hacc a with
  | intro a _ ih =>
    by_cases h : a = r
    · exact h ▸ hr
    · exact ⟨a, fun b hab => ih b (hother a b h hab)⟩

end MetalOrm.ForStd
