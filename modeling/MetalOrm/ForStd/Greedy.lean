import Mathlib

/-!
# Taking the first of a key

`takeByKey key ks xs` lets each key of `ks`, in order, take the first element of `xs` that has it.
When the keys suffice, all elements are taken, and the outcome depends on the order of neither list.

## Key results

- `takeByKey_perm`: all elements are taken, the other keys take nothing
- `filter_eraseP_comm`, `filter_eraseP_of_not`: erasing inside and outside of a part
- `exists_front`: an order of a list that begins with given elements
-/

namespace MetalOrm.ForStd

variable {α κ : Type} {p q : α → Bool} {l : List α}

/-- Erasing outside of a part leaves it as it is. -/
theorem filter_eraseP_of_not (h : ∀ a ∈ l, q a = true → p a = false) :
    (l.eraseP q).filter p = l.filter p := by
  induction l with
  | nil => rfl
  | cons a l ih =>
    obtain ⟨hhead, htail⟩ := List.forall_mem_cons.mp h
    by_cases hq : q a = true
    · rw [List.eraseP_cons_of_pos hq, List.filter_cons_of_neg (by simp [hhead hq])]
    · rw [List.eraseP_cons_of_neg hq, List.filter_cons, List.filter_cons, ih htail]

/-- Erasing in a part. -/
theorem filter_eraseP_comm (h : ∀ a ∈ l, q a = true → p a = true) :
    (l.eraseP q).filter p = (l.filter p).eraseP q := by
  induction l with
  | nil => rfl
  | cons a l ih =>
    obtain ⟨hhead, htail⟩ := List.forall_mem_cons.mp h
    by_cases hq : q a = true
    · rw [List.eraseP_cons_of_pos hq, List.filter_cons_of_pos (hhead hq),
        List.eraseP_cons_of_pos hq]
    · rw [List.eraseP_cons_of_neg hq]
      by_cases hp : p a = true
      · rw [List.filter_cons_of_pos hp, List.filter_cons_of_pos hp, List.eraseP_cons_of_neg hq,
          ih htail]
      · rw [List.filter_cons_of_neg hp, List.filter_cons_of_neg hp, ih htail]

/-- Looking for an element in the part in which it is. -/
theorem find?_filter_of_imp (h : ∀ a ∈ l, q a = true → p a = true) :
    (l.filter p).find? q = l.find? q := by
  induction l with
  | nil => rfl
  | cons a l ih =>
    obtain ⟨hhead, htail⟩ := List.forall_mem_cons.mp h
    by_cases hq : q a = true
    · rw [List.filter_cons_of_pos (hhead hq), List.find?_cons_of_pos hq, List.find?_cons_of_pos hq]
    · rw [List.find?_cons_of_neg hq, ← ih htail]
      by_cases hp : p a = true
      · rw [List.filter_cons_of_pos hp, List.find?_cons_of_neg hq]
      · rw [List.filter_cons_of_neg hp]

/-- Some order of a list begins with given elements of it. -/
theorem exists_front {front : List α} (hnodup : front.Nodup) (h : front ⊆ l) :
    ∃ rest, (front ++ rest).Perm l := by
  obtain ⟨picked, hperm, hsublist⟩ := List.subperm_of_subset hnodup h
  obtain ⟨rest, hrest⟩ := hsublist.exists_perm_append
  exact ⟨rest, (hperm.symm.append_right rest).trans hrest.symm⟩

variable [DecidableEq κ] {key : α → κ} {ks : List κ} {xs : List α}

/-- What each key takes. -/
def takeByKey (key : α → κ) : List κ → List α → List (Option α × κ)
  | [], _ => []
  | k :: ks, xs =>
    (xs.find? (key · = k), k) :: takeByKey key ks (xs.eraseP (key · = k))

/-- Where the keys suffice, all elements are taken, and the keys that are left take nothing. -/
theorem takeByKey_perm (h : (xs.map key).Subperm ks) :
    ∃ extra, (xs.map key ++ extra).Perm ks ∧ (takeByKey key ks xs).Perm
      (xs.map (fun x => (some x, key x)) ++ extra.map fun k => (none, k)) := by
  induction ks generalizing xs with
  | nil =>
    have hnil : xs = [] := by simpa using List.subperm_nil.mp h
    subst hnil
    exact ⟨[], .nil, .nil⟩
  | cons k ks ih =>
    cases hfind : xs.find? (key · = k) with
    | some x =>
      -- The key takes `x`.
      obtain ⟨hx, before, after, rfl, hbefore⟩ := List.find?_eq_some_iff_append.mp hfind
      have hkey : key x = k := by simpa using hx
      have herase : (before ++ x :: after).eraseP (key · = k) = before ++ after := by
        rw [List.eraseP_append_right _ (by simpa using hbefore),
          List.eraseP_cons_of_pos (by simpa using hkey)]
      have hrest : ((before ++ after).map key).Subperm ks := by
        have hperm : ((before ++ x :: after).map key).Perm (k :: (before ++ after).map key) := by
          rw [← hkey]
          exact List.perm_middle.map key
        exact (List.subperm_cons k).mp (hperm.subperm_right.mp h)
      obtain ⟨extra, hkeys, htake⟩ := ih hrest
      refine ⟨extra, ?_, ?_⟩
      · have hperm : ((before ++ x :: after).map key ++ extra).Perm
            (k :: ((before ++ after).map key ++ extra)) := by
          rw [← hkey]
          exact (List.perm_middle.map key).append_right extra
        exact hperm.trans (hkeys.cons k)
      · rw [takeByKey, hfind, herase]
        have hperm : ((before ++ x :: after).map fun x => (some x, key x)).Perm
            ((some x, k) :: (before ++ after).map fun x => (some x, key x)) := by
          rw [← hkey]
          exact List.perm_middle.map _
        exact (htake.cons _).trans (hperm.append_right _).symm
    | none =>
      have hnone := List.find?_eq_none.mp hfind
      have hnot : k ∉ xs.map key := by
        intro hmem
        obtain ⟨x, hx, hkey⟩ := List.mem_map.mp hmem
        exact hnone x hx (by simpa using hkey)
      have hrest : (xs.map key).Subperm ks := by
        have herase := h.erase k
        rwa [List.erase_of_not_mem hnot, List.erase_cons_head] at herase
      obtain ⟨extra, hkeys, htake⟩ := ih hrest
      refine ⟨k :: extra, ?_, ?_⟩
      · exact List.perm_middle.trans (hkeys.cons k)
      · have herase : xs.eraseP (key · = k) = xs := List.eraseP_of_forall_not hnone
        rw [takeByKey, hfind, herase, List.map_cons]
        exact (htake.cons _).trans List.perm_middle.symm

end MetalOrm.ForStd
