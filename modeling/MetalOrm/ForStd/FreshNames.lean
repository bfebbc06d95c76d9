import Mathlib

/-!
# Names that are not in use

`firstFree` tries numbered names until one is not in use; more of them than there are names in use
are never tried. `assignFresh` gives a name to each member of a list, which is then in use.

## Key results

- `firstFree_not_mem`: the search finds a name that is not in use
- `nodup_assignFresh`, `assignFresh_covers`: the names are distinct, and each first choice is in use
- `mem_assignFresh_freeName`: where no numbered name is a first choice, the numbers count
-/

namespace MetalOrm.ForStd

variable {α β : Type}

section

variable [DecidableEq β]

/-- The first numbered name from `n` on that is not in use; with a bound on the tries. -/
def firstFree (used : List β) (numbered : Nat → β) : (fuel n : Nat) → β
  | 0, n => numbered n
  | fuel + 1, n => if numbered n ∈ used then firstFree used numbered fuel (n + 1) else numbered n

/-- A name, or the first numbered one from 2 on that is not in use. -/
def freeName (used : List β) (name : β) (numbered : Nat → β) : β :=
  if name ∈ used then firstFree used numbered used.length 2 else name

variable {used : List β} {name : β} {numbered : Nat → β}

/-- The names before the one that is found are in use. -/
theorem firstFree_eq (fuel n : Nat) : ∃ k, n ≤ k ∧ firstFree used numbered fuel n = numbered k ∧
    ∀ i, n ≤ i → i < k → numbered i ∈ used := by
  induction fuel generalizing n with
  | zero => exact ⟨n, Nat.le_refl n, rfl, fun i hi hlt => absurd hlt (by omega)⟩
  | succ fuel ih =>
    rw [firstFree]
    split
    · rename_i hused
      obtain ⟨k, hk, h, hbefore⟩ := ih (n + 1)
      refine ⟨k, by omega, h, fun i hi hlt => ?_⟩
      obtain rfl | hi := Nat.eq_or_lt_of_le hi
      · exact hused
      · exact hbefore i hi hlt
    · exact ⟨n, Nat.le_refl n, rfl, fun i hi hlt => absurd hlt (by omega)⟩

/-- If the search fails, all names that were tried are in use. -/
theorem tried_of_firstFree_mem {fuel n : Nat} (h : firstFree used numbered fuel n ∈ used) :
    ∀ i ≤ fuel, numbered (n + i) ∈ used := by
  induction fuel generalizing n with
  | zero =>
    intro i hi
    obtain rfl : i = 0 := Nat.le_zero.mp hi
    exact h
  | succ fuel ih =>
    rw [firstFree] at h
    split at h
    · rename_i hused
      intro i hi
      cases i with
      | zero => exact hused
      | succ i =>
        have htried := ih h i (by omega)
        rwa [show n + (i + 1) = n + 1 + i by omega]
    · rename_i hfree
      exact absurd h hfree

theorem firstFree_not_mem (hinj : Function.Injective numbered) (n : Nat) :
    firstFree used numbered used.length n ∉ used := by
  intro h
  have htried := tried_of_firstFree_mem h
  -- one more name was tried than there are names in use
  have hnodup : ((List.range (used.length + 1)).map fun i => numbered (n + i)).Nodup := by
    refine List.Nodup.map (fun i j hij => ?_) List.nodup_range
    have := hinj hij
    omega
  have hsubset : ((List.range (used.length + 1)).map fun i => numbered (n + i)) ⊆ used := by
    intro b hb
    obtain ⟨i, hi, rfl⟩ := List.mem_map.mp hb
    exact htried i (by have := List.mem_range.mp hi; omega)
  have hlength := (List.subperm_of_subset hnodup hsubset).length_le
  rw [List.length_map, List.length_range] at hlength
  omega

theorem freeName_not_mem (hinj : Function.Injective numbered) : freeName used name numbered ∉ used := by
  unfold freeName
  split
  · exact firstFree_not_mem hinj 2
  · assumption

/-- The name itself, or the first numbered one. -/
theorem freeName_eq : freeName used name numbered = name ∧ name ∉ used ∨
    name ∈ used ∧ ∃ k, 2 ≤ k ∧ freeName used name numbered = numbered k ∧
      ∀ i, 2 ≤ i → i < k → numbered i ∈ used := by
  unfold freeName
  split
  · rename_i hused
    exact .inr ⟨hused, firstFree_eq used.length 2⟩
  · rename_i hfree
    exact .inl ⟨rfl, hfree⟩

end

/-- Each member of a list gets a name, given the names in use. -/
def assignFresh (fresh : List β → α → β) (used : List β) : List α → List β
  | [] => []
  | a :: as => fresh used a :: assignFresh fresh (used ++ [fresh used a]) as

section

variable {fresh : List β → α → β}

@[simp] theorem length_assignFresh (used : List β) (as : List α) :
    (assignFresh fresh used as).length = as.length := by
  induction as generalizing used with
  | nil => rfl
  | cons a as ih => rw [assignFresh, List.length_cons, ih, List.length_cons]

theorem not_mem_of_mem_assignFresh (h : ∀ used a, fresh used a ∉ used) {used : List β}
    {as : List α} {b : β} (hb : b ∈ assignFresh fresh used as) : b ∉ used := by
  induction as generalizing used with
  | nil => cases hb
  | cons a as ih =>
    obtain rfl | hb := List.mem_cons.mp hb
    · exact h used a
    · exact fun hused => ih hb (List.mem_append_left _ hused)

theorem nodup_assignFresh (h : ∀ used a, fresh used a ∉ used) (used : List β) (as : List α) :
    (assignFresh fresh used as).Nodup := by
  induction as generalizing used with
  | nil => exact List.nodup_nil
  | cons a as ih =>
    refine List.nodup_cons.mpr ⟨fun hmem => ?_, ih _⟩
    exact not_mem_of_mem_assignFresh h hmem (List.mem_append_right _ (List.mem_singleton.mpr rfl))

/-- Every name was given to a member. -/
theorem of_mem_assignFresh {used : List β} {as : List α} {b : β}
    (hb : b ∈ assignFresh fresh used as) : ∃ a ∈ as, ∃ used, b = fresh used a := by
  induction as generalizing used with
  | nil => cases hb
  | cons a as ih =>
    obtain rfl | hb := List.mem_cons.mp hb
    · exact ⟨a, List.mem_cons_self, used, rfl⟩
    · obtain ⟨a', ha', h⟩ := ih hb
      exact ⟨a', List.mem_cons_of_mem _ ha', h⟩

/-- The first choice of a member is in use in the end. -/
theorem assignFresh_covers {first : α → β} (h : ∀ used a, first a ∈ used ∨ fresh used a = first a)
    {used : List β} {as : List α} {a : α} (ha : a ∈ as) :
    first a ∈ used ++ assignFresh fresh used as := by
  induction as generalizing used with
  | nil => cases ha
  | cons a' as ih =>
    rw [assignFresh, ← List.singleton_append, ← List.append_assoc]
    obtain rfl | ha := List.mem_cons.mp ha
    · refine List.mem_append_left _ (List.mem_append.mpr ((h used a).imp_right fun heq => ?_))
      rw [heq]
      exact List.mem_singleton.mpr rfl
    · exact ih ha

end

section

variable [DecidableEq β] {numbered : β → Nat → β}

/-- How often a name is in a list. -/
def copies (bases : List β) (name : β) : Nat := bases.countP (· = name)

/-- The names in use are those of a list: each member, and as many numbers as it has copies. -/
def Counted (numbered : β → Nat → β) (bases used : List β) : Prop :=
  ∀ b, b ∈ used ↔ b ∈ bases ∨ ∃ a k, 2 ≤ k ∧ k ≤ copies bases a ∧ b = numbered a k

/-- No numbered name of a list is a first choice, and no two of them are the same. -/
structure Apart (numbered : β → Nat → β) (bases : List β) : Prop where
  base : ∀ a ∈ bases, ∀ b ∈ bases, ∀ k, numbered a k ≠ b
  inj : ∀ a ∈ bases, ∀ b ∈ bases, ∀ k l, numbered a k = numbered b l → a = b ∧ k = l

variable {bases used : List β} {name : β}

theorem copies_pos_iff {a : β} : 0 < copies bases a ↔ a ∈ bases := by
  simp [copies, List.countP_pos_iff]

theorem copies_concat (bases : List β) (name a : β) :
    copies (bases ++ [name]) a = copies bases a + if name = a then 1 else 0 := by
  simp [copies, List.countP_append, List.countP_singleton]

theorem mem_of_copies {a : β} {k : Nat} (hk : 2 ≤ k) (h : k ≤ copies bases a) : a ∈ bases :=
  copies_pos_iff.mp (by omega)

/-- One more name is counted. -/
theorem Counted.step (hapart : Apart numbered (bases ++ [name])) (h : Counted numbered bases used)
    (hinj : Function.Injective (numbered name)) :
    Counted numbered (bases ++ [name]) (used ++ [freeName used name (numbered name)]) := by
  have hname : name ∈ bases ++ [name] := List.mem_append_right _ (List.mem_singleton.mpr rfl)
  have hmem : ∀ {a}, a ∈ bases → a ∈ bases ++ [name] := List.mem_append_left _
  -- the name is in use if and only if it was counted
  have hused : name ∈ used ↔ name ∈ bases := by
    refine ⟨fun hmem' => ((h name).mp hmem').resolve_right ?_, fun hmem' => (h name).mpr (.inl hmem')⟩
    rintro ⟨a, k, hk, hle, heq⟩
    exact hapart.base a (hmem (mem_of_copies hk hle)) name hname k heq.symm
  -- and a number of it if and only if there are so many copies
  have hnumbers : ∀ k, 2 ≤ k → (numbered name k ∈ used ↔ k ≤ copies bases name) := by
    intro k hk
    refine ⟨fun hmem' => ?_, fun hle => (h _).mpr (.inr ⟨name, k, hk, hle, rfl⟩)⟩
    obtain hbase | ⟨a, l, hl, hle, heq⟩ := (h _).mp hmem'
    · exact absurd rfl (hapart.base name hname _ (hmem hbase) k)
    · obtain ⟨rfl, rfl⟩ := hapart.inj name hname a (hmem (mem_of_copies hl hle)) k l heq
      exact hle
  have hchoice : freeName used name (numbered name) = name ∧ name ∉ used ∨
      name ∈ used ∧ ∃ n, 2 ≤ n ∧ freeName used name (numbered name) = numbered name n ∧
        ∀ i, 2 ≤ i → i < n → numbered name i ∈ used := freeName_eq
  obtain ⟨heq, hfree⟩ | ⟨hin, n, hn, heq, hbefore⟩ := hchoice
  · -- the first copy
    have hnone : copies bases name = 0 :=
      Nat.eq_zero_of_not_pos fun hpos => hfree (hused.mpr (copies_pos_iff.mp hpos))
    intro b
    rw [heq, List.mem_append, List.mem_append, h b, or_right_comm]
    refine or_congr_right (exists_congr fun a => exists_congr fun k => ?_)
    rw [copies_concat bases name a]
    split
    · rename_i hsame
      subst hsame
      exact ⟨fun ⟨hk, hle, _⟩ => absurd hle (by omega), fun ⟨hk, hle, _⟩ => absurd hle (by omega)⟩
    · rw [Nat.add_zero]
  · -- the next number
    have hnot : freeName used name (numbered name) ∉ used := freeName_not_mem hinj
    rw [heq] at hnot
    have hlast : n = copies bases name + 1 := by
      have hpos : 0 < copies bases name := copies_pos_iff.mpr (hused.mp hin)
      have hgt : ¬n ≤ copies bases name := fun hle => hnot ((hnumbers n hn).mpr hle)
      by_contra hne
      have hmem' := hbefore (copies bases name + 1) (by omega) (by omega)
      have := (hnumbers _ (by omega)).mp hmem'
      omega
    intro b
    rw [heq, List.mem_append, List.mem_append, h b, List.mem_singleton, List.mem_singleton]
    constructor
    · rintro ((hbase | ⟨a, k, hk, hle, rfl⟩) | rfl)
      · exact .inl (.inl hbase)
      · exact .inr ⟨a, k, hk, by rw [copies_concat bases name a]; omega, rfl⟩
      · exact .inr ⟨name, n, hn, by rw [copies_concat bases name name, if_pos rfl]; omega, rfl⟩
    · rintro ((hbase | rfl) | ⟨a, k, hk, hle, rfl⟩)
      · exact .inl (.inl hbase)
      · exact .inl (.inl (hused.mp hin))
      · rw [copies_concat bases name a] at hle
        split at hle
        · rename_i hsame
          subst hsame
          obtain hle | rfl : k ≤ copies bases name ∨ k = n := by omega
          · exact .inl (.inr ⟨name, k, hk, hle, rfl⟩)
          · exact .inr rfl
        · exact .inl (.inr ⟨a, k, hk, hle, rfl⟩)

/-- Where no numbered name is a first choice, the names are the first choices and the numbers up to
    the number of copies. -/
theorem mem_assignFresh_freeName (hapart : Apart numbered bases)
    (hinj : ∀ a, Function.Injective (numbered a)) (b : β) :
    b ∈ assignFresh (fun used a => freeName used a (numbered a)) [] bases ↔
      b ∈ bases ∨ ∃ a k, 2 ≤ k ∧ k ≤ copies bases a ∧ b = numbered a k := by
  have hrun : ∀ rest done used, done ++ rest = bases → Counted numbered done used →
      Counted numbered bases
        (used ++ assignFresh (fun used a => freeName used a (numbered a)) used rest) := by
    intro rest
    induction rest with
    | nil =>
      intro done used hbases hcounted
      rw [List.append_nil] at hbases
      subst hbases
      rwa [assignFresh, List.append_nil]
    | cons a rest ih =>
      intro done used hbases hcounted
      have hsplit : done ++ [a] ++ rest = bases := by rw [List.append_assoc]; exact hbases
      have hpart : Apart numbered (done ++ [a]) := by
        have hsub : ∀ {b}, b ∈ done ++ [a] → b ∈ bases :=
          fun hb => hsplit ▸ List.mem_append_left _ hb
        exact ⟨fun a ha b hb => hapart.base a (hsub ha) b (hsub hb),
          fun a ha b hb => hapart.inj a (hsub ha) b (hsub hb)⟩
      have hnext := ih (done ++ [a]) _ hsplit (hcounted.step hpart (hinj a))
      rwa [List.append_assoc, List.singleton_append] at hnext
  have hstart : Counted numbered [] [] := by
    intro b
    simp only [List.not_mem_nil, copies, List.countP_nil, false_or, false_iff]
    rintro ⟨a, k, hk, hle, -⟩
    omega
  exact hrun bases [] [] rfl hstart b

end

end MetalOrm.ForStd
