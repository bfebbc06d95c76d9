import Mathlib

/-!
# A register and its last write

A list of steps, each of which may write a value to a register. What the register
holds in the end is decided by the last step that writes.

## Key results

- `lastWrite_of_none`: no step writes
- `lastWrite_append_cons`: the value that the last write gives
- `lastWrite_const`: all steps that write give one value
- `mem_after_iff`: which steps come after a write
-/

namespace MetalOrm.ForStd

variable {α β : Type}

/-- The register after the steps of a list. -/
def lastWrite (write : α → Option β) (l : List α) (b : β) : β :=
  l.foldl (fun b a => (write a).getD b) b

@[simp] theorem lastWrite_nil (write : α → Option β) (b : β) : lastWrite write [] b = b := rfl

theorem lastWrite_cons (write : α → Option β) (a : α) (l : List α) (b : β) :
    lastWrite write (a :: l) b = lastWrite write l ((write a).getD b) := rfl

theorem lastWrite_append (write : α → Option β) (l₁ l₂ : List α) (b : β) :
    lastWrite write (l₁ ++ l₂) b = lastWrite write l₂ (lastWrite write l₁ b) := by
  simp [lastWrite]

theorem lastWrite_of_none {write : α → Option β} {l : List α} (h : ∀ a ∈ l, write a = none)
    (b : β) : lastWrite write l b = b := by
  induction l with
  | nil => rfl
  | cons a l ih =>
    rw [lastWrite_cons, h a List.mem_cons_self]
    exact ih fun a' ha' => h a' (List.mem_cons_of_mem a ha')

/-- After a write, the register only depends on the steps that follow. -/
theorem lastWrite_append_cons {write : α → Option β} {a : α} {x : β} (ha : write a = some x)
    (l₁ l₂ : List α) (b : β) : lastWrite write (l₁ ++ a :: l₂) b = lastWrite write l₂ x := by
  rw [lastWrite_append, lastWrite_cons, ha]
  rfl

/-- If there is a write, the register does not depend on what it held before. -/
theorem lastWrite_eq_of_exists {write : α → Option β} {l : List α} (h : ∃ a ∈ l, write a ≠ none)
    (b b' : β) : lastWrite write l b = lastWrite write l b' := by
  obtain ⟨a, ha, hne⟩ := h
  obtain ⟨x, hx⟩ := Option.ne_none_iff_exists'.mp hne
  obtain ⟨l₁, l₂, rfl⟩ := List.append_of_mem ha
  rw [lastWrite_append_cons hx, lastWrite_append_cons hx]

/-- If every write gives `x` and there is one, the register holds `x`. -/
theorem lastWrite_const {write : α → Option β} {l : List α} {x : β}
    (h : ∀ a ∈ l, ∀ y, write a = some y → y = x) (hsome : ∃ a ∈ l, write a ≠ none) (b : β) :
    lastWrite write l b = x := by
  induction l generalizing b with
  | nil =>
    obtain ⟨a, ha, _⟩ := hsome
    cases ha
  | cons a l ih =>
    rw [lastWrite_cons]
    have htail : ∀ a' ∈ l, ∀ y, write a' = some y → y = x :=
      fun a' ha' => h a' (List.mem_cons_of_mem a ha')
    by_cases hl : ∃ a' ∈ l, write a' ≠ none
    · exact ih htail hl _
    · -- the first step is the only one that writes
      have hnone : ∀ a' ∈ l, write a' = none := fun a' ha' => by
        by_contra hne
        exact hl ⟨a', ha', hne⟩
      rw [lastWrite_of_none hnone]
      obtain ⟨a', ha', hne⟩ := hsome
      rcases List.mem_cons.mp ha' with rfl | ha'
      · obtain ⟨y, hy⟩ := Option.ne_none_iff_exists'.mp hne
        rw [hy, Option.getD_some]
        exact h a' List.mem_cons_self y hy
      · exact absurd (hnone a' ha') hne

/-- In a list without duplicates, the steps after `a` are those with a larger index. -/
theorem mem_after_iff [DecidableEq α] {l₁ l₂ : List α} {a b : α}
    (hnodup : (l₁ ++ a :: l₂).Nodup) (hb : b ∈ l₁ ++ a :: l₂) (hne : b ≠ a) :
    b ∈ l₂ ↔ ¬(l₁ ++ a :: l₂).idxOf b < (l₁ ++ a :: l₂).idxOf a := by
  rw [List.nodup_append] at hnodup
  obtain ⟨_, hnodup₂, hdisjoint⟩ := hnodup
  have ha : a ∉ l₁ := fun ha => hdisjoint a ha a List.mem_cons_self rfl
  have hidx : (l₁ ++ a :: l₂).idxOf a = l₁.length := by
    rw [List.idxOf_append_of_notMem ha, List.idxOf_cons_self, Nat.add_zero]
  rw [hidx]
  by_cases hb₁ : b ∈ l₁
  · have hb₂ : b ∉ l₂ := fun hb₂ => hdisjoint b hb₁ b (List.mem_cons_of_mem a hb₂) rfl
    have hlt : (l₁ ++ a :: l₂).idxOf b < l₁.length := by
      rw [List.idxOf_append_of_mem hb₁]
      exact List.idxOf_lt_length_of_mem hb₁
    simp [hb₂, hlt]
  · have hb₂ : b ∈ l₂ := by
      rcases List.mem_append.mp hb with hb | hb
      · exact absurd hb hb₁
      · exact (List.mem_cons.mp hb).resolve_left hne
    have hge : l₁.length ≤ (l₁ ++ a :: l₂).idxOf b := by
      rw [List.idxOf_append_of_notMem hb₁]
      omega
    simp [hb₂, hge]

end MetalOrm.ForStd
