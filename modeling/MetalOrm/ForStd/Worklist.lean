import MetalOrm.ForStd.Program
import Mathlib.Logic.Relation

/-!
# Worklists

A list that is kept in the state of a program and grows at its end while its items are handled one
by one. Handling an item adds those next to it that are not in the list yet.

## Key results

- `Adds.forM`: what a loop adds to the list
- `mem_iff_reached`: a list whose items are all handled has what can be reached
-/

namespace MetalOrm.ForStd.Worklist

open Prog
open Relation (ReflTransGen)

variable {ε σ α β : Type} {I : σ → Prop} {order : σ → List α}

/-- The program returns, keeps `I`, and appends to the list what is missing of the new items. -/
def Adds (I : σ → Prop) (order : σ → List α) (p : Prog ε σ PUnit) (new : List α) : Prop :=
  ∀ s, I s → ∃ s' added, exec p s = (.ok ⟨⟩, s') ∧ I s' ∧ order s' = order s ++ added ∧
    ∀ b, b ∈ order s' ↔ b ∈ order s ∨ b ∈ new

/-- A loop over two lists, the first of which it runs to the end of. -/
theorem exec_forM_append_ok {f : α → Prog ε σ PUnit} {l₁ : List α} (l₂ : List α) {s s' : σ}
    (h : exec (l₁.forM f) s = (.ok ⟨⟩, s')) :
    exec ((l₁ ++ l₂).forM f) s = exec (l₂.forM f) s' := by
  induction l₁ generalizing s with
  | nil =>
    cases h
    rfl
  | cons a l₁ ih =>
    obtain ⟨s₁, ha, hl⟩ := exec_forM_cons h
    rw [List.cons_append, forM_cons, exec_bind_ok ha]
    exact ih hl

/-- A loop adds what its rounds add. -/
theorem Adds.forM {f : β → Prog ε σ PUnit} {next : β → List α} {l : List β}
    (h : ∀ a ∈ l, Adds I order (f a) (next a)) : Adds I order (l.forM f) (l.flatMap next) := by
  induction l with
  | nil => exact fun s hs => ⟨s, [], rfl, hs, (List.append_nil _).symm, by simp⟩
  | cons a l ih =>
    intro s hs
    obtain ⟨s₁, added₁, ha, hs₁, horder₁, hmem₁⟩ := h a List.mem_cons_self s hs
    obtain ⟨s₂, added₂, hrest, hs₂, horder₂, hmem₂⟩ :=
      ih (fun b hb => h b (List.mem_cons_of_mem a hb)) s₁ hs₁
    refine ⟨s₂, added₁ ++ added₂, ?_, hs₂, ?_, fun b => ?_⟩
    · rw [forM_cons, exec_bind_ok ha]
      exact hrest
    · rw [horder₂, horder₁, List.append_assoc]
    · rw [hmem₂, hmem₁, List.flatMap_cons, List.mem_append, or_assoc]

/-- A list that has the roots, what is next to each of its items, and nothing that cannot be
    reached from a root. -/
theorem mem_iff_reached {next : α → List α} {roots l : List α} (hroots : roots ⊆ l)
    (hclosed : ∀ a ∈ l, next a ⊆ l)
    (hreached : ∀ b ∈ l, ∃ root ∈ roots, ReflTransGen (fun a b => b ∈ next a) root b) (b : α) :
    b ∈ l ↔ ∃ root ∈ roots, ReflTransGen (fun a b => b ∈ next a) root b := by
  refine ⟨hreached b, ?_⟩
  rintro ⟨root, hroot, hpath⟩
  induction hpath with
  | refl => exact hroots hroot
  | tail _ hnext ih => exact hclosed _ ih hnext

end MetalOrm.ForStd.Worklist
