import Mathlib

/-!
# Texts with numbered slots

A writer emits a text with slots and pushes one parameter for each slot.
`slot k p` tells that `p` is how the slot of the `k`-th parameter is written,
counted from one. `Numbered slot n slots new` says that the slots, from left to
right, are those of the parameters `new` that were pushed behind `n` others.

A `Fragment` is a part of such a text. It may lose or reorder slots; `placed` is
the condition under which it does not, and `apart` one under which it cannot look
as if it did not.

## Key results

- `Numbered.append`, `Numbered.nodup`: numbered texts compose, and name each
  parameter once where slots tell their numbers
- `Fragment.append`, `Fragment.swap`, `Fragment.drop`: how fragments compose
-/

namespace MetalOrm.ForStd

variable {π α : Type} {slot : Nat → π → Prop}

/-- The slots, each with what it stands for, are those of the parameters pushed behind `n`. -/
inductive Numbered (slot : Nat → π → Prop) : Nat → List (π × α) → List α → Prop
  | nil (n : Nat) : Numbered slot n [] []
  | cons {n : Nat} {p : π} {a : α} {slots : List (π × α)} {new : List α}
      (head : slot (n + 1) p) (tail : Numbered slot (n + 1) slots new) :
      Numbered slot n ((p, a) :: slots) (a :: new)

namespace Numbered

theorem snd {n : Nat} {slots : List (π × α)} {new : List α} (h : Numbered slot n slots new) :
    slots.map Prod.snd = new := by
  induction h with
  | nil => rfl
  | cons _ _ ih => simp [ih]

theorem length {n : Nat} {slots : List (π × α)} {new : List α} (h : Numbered slot n slots new) :
    slots.length = new.length := by
  rw [← h.snd, List.length_map]

theorem append {n : Nat} {slots slots' : List (π × α)} {new new' : List α}
    (h : Numbered slot n slots new) (h' : Numbered slot (n + new.length) slots' new') :
    Numbered slot n (slots ++ slots') (new ++ new') := by
  induction h with
  | nil n => simpa using h'
  | @cons n p a slots new head tail ih =>
    have hn : n + (a :: new).length = n + 1 + new.length := by simp; omega
    exact .cons head (ih (hn ▸ h'))

/-- What stands behind a numbered part is numbered behind it. -/
theorem of_append {n : Nat} {slots slots' : List (π × α)} {new all : List α}
    (h : Numbered slot n slots new) (hall : Numbered slot n (slots ++ slots') all) :
    ∃ new', all = new ++ new' ∧ Numbered slot (n + new.length) slots' new' := by
  induction h generalizing all with
  | nil n => exact ⟨all, rfl, hall⟩
  | @cons n p a slots new head tail ih =>
    obtain _ | ⟨_, hrest⟩ := hall
    obtain ⟨new', rfl, hnew⟩ := ih hrest
    have hn : n + (a :: new).length = n + 1 + new.length := by simp; omega
    exact ⟨new', rfl, hn ▸ hnew⟩

/-- The writer of a nested text counts from zero behind `k` parameters of its own. -/
theorem shift {k n : Nat} {slots : List (π × α)} {new : List α}
    (h : Numbered (fun i p => slot (k + i) p) n slots new) : Numbered slot (k + n) slots new := by
  induction h with
  | nil => exact .nil _
  | cons head _ ih => exact .cons head ih

/-- The slot at a position is the slot of the parameter at that position. -/
theorem get {n : Nat} {slots : List (π × α)} {new : List α} (h : Numbered slot n slots new) :
    ∀ i p a, slots[i]? = some (p, a) → slot (n + i + 1) p ∧ new[i]? = some a := by
  induction h with
  | nil => simp
  | @cons n p a slots new head tail ih =>
    intro i q b hi
    cases i with
    | zero =>
      simp only [List.getElem?_cons_zero, Option.some.injEq, Prod.mk.injEq] at hi
      exact ⟨by simpa [← hi.1] using head, by simp [hi.2]⟩
    | succ i =>
      have := ih i q b (by simpa using hi)
      rw [show n + (i + 1) + 1 = n + 1 + i + 1 by omega]
      exact ⟨this.1, by simpa using this.2⟩

/-- Every slot is the slot of one of the parameters pushed here. -/
theorem mem {n : Nat} {slots : List (π × α)} {new : List α} (h : Numbered slot n slots new)
    {p : π} (hp : p ∈ slots.map Prod.fst) : ∃ k, n < k ∧ k ≤ n + new.length ∧ slot k p := by
  induction h with
  | nil => simp at hp
  | @cons n q a slots new head tail ih =>
    simp only [List.map_cons, List.mem_cons] at hp
    cases hp with
    | inl hp => exact ⟨n + 1, by omega, by simp, hp ▸ head⟩
    | inr hp =>
      obtain ⟨k, hlt, hle, hk⟩ := ih hp
      exact ⟨k, by omega, by simp only [List.length_cons]; omega, hk⟩

/-- Where slots tell their numbers, no two slots are the same. -/
theorem nodup (hslot : ∀ i j p, slot i p → slot j p → i = j) {n : Nat} {slots : List (π × α)}
    {new : List α} (h : Numbered slot n slots new) : (slots.map Prod.fst).Nodup := by
  induction h with
  | nil => simp
  | @cons n p a slots new head tail ih =>
    simp only [List.map_cons, List.nodup_cons]
    refine ⟨?_, ih⟩
    intro hp
    obtain ⟨k, hlt, _, hk⟩ := tail.mem hp
    have := hslot _ _ _ head hk
    omega

end Numbered

/-! ## Fragments -/

/-- A part of a text, written behind `n` parameters, that pushes `new`. -/
structure Fragment (slot : Nat → π → Prop) (n : Nat) (slots : List (π × α)) (new : List α)
    (placed apart : Prop) : Prop where
  mem : ∀ a ∈ slots.map Prod.snd, a ∈ new
  length_le : slots.length ≤ new.length
  numbered : placed → Numbered slot n slots new
  exact : apart → slots.map Prod.snd = new → placed

namespace Fragment

variable {n : Nat} {slots slots' : List (π × α)} {new new' : List α} {P P' D D' : Prop}

theorem empty : Fragment slot n ([] : List (π × α)) [] True True :=
  ⟨by simp, Nat.le_refl _, fun _ => .nil n, fun _ _ => trivial⟩

theorem single {p : π} {a : α} (h : slot (n + 1) p) : Fragment slot n [(p, a)] [a] True True :=
  ⟨by simp, Nat.le_refl _, fun _ => .cons h (.nil _), fun _ _ => trivial⟩

theorem congr (h : Fragment slot n slots new P D) (hnew : new = new') (hP : P ↔ P')
    (hD : D' → D) : Fragment slot n slots new' P' D' := by
  subst hnew
  exact ⟨h.mem, h.length_le, fun p => h.numbered (hP.mpr p), fun d e => hP.mp (h.exact (hD d) e)⟩

theorem shift {k : Nat} (h : Fragment (fun i p => slot (k + i) p) n slots new P D) :
    Fragment slot (k + n) slots new P D :=
  ⟨h.mem, h.length_le, fun p => (h.numbered p).shift, h.exact⟩

/-- A fragment without parameters has no slots, and nothing is out of place. -/
theorem of_nil (h : Fragment slot n slots ([] : List α) P D) (d : D) : slots = [] ∧ P := by
  have hnil : slots = [] := List.eq_nil_of_length_eq_zero (by simpa using h.length_le)
  exact ⟨hnil, h.exact d (by simp [hnil])⟩

theorem append (h : Fragment slot n slots new P D)
    (h' : Fragment slot (n + new.length) slots' new' P' D') :
    Fragment slot n (slots ++ slots') (new ++ new') (P ∧ P') (D ∧ D') where
  mem a ha := by
    simp only [List.map_append, List.mem_append] at ha ⊢
    exact ha.imp (h.mem a) (h'.mem a)
  length_le := by
    have h₁ := h.length_le
    have h₂ := h'.length_le
    simp only [List.length_append]
    omega
  numbered p := (h.numbered p.1).append (h'.numbered p.2)
  exact d e := by
    -- both parts have as many slots as parameters, so the lists split at one place
    have h₁ := h.length_le
    have h₂ := h'.length_le
    have hlen := congrArg List.length e
    simp only [List.length_map, List.length_append] at hlen
    rw [List.map_append] at e
    obtain ⟨e₁, e₂⟩ := List.append_inj e (by simp only [List.length_map]; omega)
    exact ⟨h.exact d.1 e₁, h'.exact d.2 e₂⟩

/-- Two fragments that are written in the other order than they push. -/
theorem swap (h : Fragment slot n slots new P D)
    (h' : Fragment slot (n + new.length) slots' new' P' D') :
    Fragment slot n (slots' ++ slots) (new ++ new') (P ∧ P' ∧ (new = [] ∨ new' = []))
      (D ∧ D' ∧ new.Disjoint new') where
  mem a ha := by
    simp only [List.map_append, List.mem_append] at ha ⊢
    exact ha.symm.imp (h.mem a) (h'.mem a)
  length_le := by
    have h₁ := h.length_le
    have h₂ := h'.length_le
    simp only [List.length_append]
    omega
  numbered p := by
    obtain ⟨p₁, p₂, hnil | hnil⟩ := p
    · subst hnil
      have hslots : slots = [] := by simpa using (h.numbered p₁).length
      simpa [hslots] using h'.numbered p₂
    · subst hnil
      have hslots : slots' = [] := by simpa using (h'.numbered p₂).length
      simpa [hslots] using h.numbered p₁
  exact d e := by
    obtain ⟨d₁, d₂, hdisjoint⟩ := d
    have h₁ := h.length_le
    have h₂ := h'.length_le
    have hlen := congrArg List.length e
    simp only [List.length_map, List.length_append] at hlen
    rw [List.map_append] at e
    cases slots' with
    | nil =>
      have hnew' : new' = [] := List.eq_nil_of_length_eq_zero (by simp at hlen; omega)
      subst hnew'
      exact ⟨h.exact d₁ (by simpa using e), h'.exact d₂ rfl, .inr rfl⟩
    | cons s rest =>
      cases new with
      | nil =>
        have hslots : slots = [] := List.eq_nil_of_length_eq_zero (by simpa using h₁)
        subst hslots
        exact ⟨h.exact d₁ rfl, h'.exact d₂ (by simpa using e), .inl rfl⟩
      | cons a new =>
        -- the first slot would stand for a parameter of both sides
        have hs : s.2 = a := by simpa using (List.cons.inj e).1
        have hmem : s.2 ∈ new' := h'.mem s.2 (by simp)
        exact absurd hmem (hdisjoint (hs ▸ List.mem_cons_self))

/-- A fragment whose text is thrown away. -/
theorem drop (h : Fragment slot n slots new P D) :
    Fragment slot n ([] : List (π × α)) new (P ∧ new = []) D where
  mem := by simp
  length_le := by simp
  numbered p := by
    rw [p.2]
    exact .nil n
  exact d e := by
    have hnew : new = [] := by simpa using e.symm
    subst hnew
    exact ⟨(h.of_nil d).2, rfl⟩

end Fragment

end MetalOrm.ForStd
