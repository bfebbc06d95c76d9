import Mathlib

/-!
# Looking for a word in a list

`findWord word text` is the first position at which `word` begins in `text`. A letter that the word
does not have cuts the text in two: an occurrence is on one side of it.

## Key results

- `findWord_isSome`: the word is found where it occurs
- `findWord_behind`, `findWord_inside`: the position that is found
- `infix_append_cons`: occurrences beside a foreign letter
-/

namespace MetalOrm.ForStd

variable {α : Type} [DecidableEq α]

/-- The first position at which the word begins. -/
def findWord (word : List α) : List α → Option Nat
  | [] => if word = [] then some 0 else none
  | a :: text => if word.isPrefixOf (a :: text) then some 0 else (findWord word text).map (· + 1)

variable {word before after text : List α} {a : α}

omit [DecidableEq α] in
/-- A word does not reach over a letter that it does not have. -/
theorem prefix_append_cons (ha : a ∉ word) : word <+: before ++ a :: after ↔ word <+: before := by
  induction before generalizing word with
  | nil =>
    cases word with
    | nil => simp
    | cons first word =>
      have hne : ¬ first = a := fun h => ha (h ▸ List.mem_cons_self)
      simp [List.cons_prefix_cons, hne]
  | cons b before ih =>
    cases word with
    | nil => simp
    | cons first word =>
      rw [List.cons_append, List.cons_prefix_cons, List.cons_prefix_cons,
        ih (fun h => ha (List.mem_cons_of_mem _ h))]

omit [DecidableEq α] in
/-- An occurrence is on one side of a letter that the word does not have. -/
theorem infix_append_cons (ha : a ∉ word) :
    word <:+: before ++ a :: after ↔ word <:+: before ∨ word <:+: after := by
  induction before with
  | nil =>
    have hbegins : word <+: a :: after ↔ word <+: [] := @prefix_append_cons _ word [] after a ha
    rw [List.nil_append, List.infix_cons_iff, hbegins, List.prefix_nil, List.infix_nil]
  | cons b before ih =>
    rw [List.cons_append, List.infix_cons_iff, List.infix_cons_iff, ih, ← List.cons_append,
      prefix_append_cons ha, or_assoc]

theorem findWord_isSome : (findWord word text).isSome ↔ word <:+: text := by
  induction text with
  | nil => by_cases h : word = [] <;> simp [findWord, h]
  | cons a text ih =>
    rw [findWord, List.infix_cons_iff, ← ih, ← List.isPrefixOf_iff_prefix]
    by_cases h : word.isPrefixOf (a :: text) <;> simp [h]

/-- The word that stands behind a foreign letter, where it does not stand before it. -/
theorem findWord_behind (ha : a ∉ word) (h : ¬ word <:+: before) :
    findWord word (before ++ a :: (word ++ after)) = some (before.length + 1) := by
  have hword : word ≠ [] := fun hnil => h (hnil ▸ List.nil_infix)
  induction before with
  | nil =>
    have hno : ¬ word.isPrefixOf (a :: (word ++ after)) = true := by
      rw [ List.isPrefixOf_iff_prefix, ← List.nil_append (a :: _), prefix_append_cons ha,
        List.prefix_nil]
      exact hword
    have hyes : findWord word (word ++ after) = some 0 := by
      cases hcons : word ++ after with
      | nil => exact absurd (List.append_eq_nil_iff.mp hcons).1 hword
      | cons b rest =>
        rw [findWord, if_pos]
        rw [ List.isPrefixOf_iff_prefix, ← hcons]
        exact List.prefix_append _ _
    rw [List.nil_append, findWord, if_neg hno, hyes]
    rfl
  | cons b before ih =>
    have hno : ¬ word.isPrefixOf (b :: before ++ a :: (word ++ after)) = true := by
      rw [ List.isPrefixOf_iff_prefix, prefix_append_cons ha]
      exact fun hbegins => h hbegins.isInfix
    rw [List.cons_append] at hno ⊢
    rw [findWord, if_neg hno, ih fun hinfix => h (List.infix_cons hinfix)]
    rfl

/-- The word is found where it stands first. -/
theorem findWord_inside (h : word <:+: before) :
    ∃ i, findWord word (before ++ after) = some i ∧ i + word.length ≤ before.length := by
  induction before with
  | nil =>
    obtain rfl := List.infix_nil.mp h
    cases after with
    | nil => exact ⟨0, by simp [findWord], by simp⟩
    | cons b after => exact ⟨0, by simp [findWord], by simp⟩
  | cons b before ih =>
    by_cases hbegins : word.isPrefixOf (b :: (before ++ after)) = true
    · refine ⟨0, by rw [List.cons_append, findWord, if_pos hbegins], ?_⟩
      rw [Nat.zero_add]
      exact h.length_le
    · obtain hstart | hrest := List.infix_cons_iff.mp h
      · rw [ List.isPrefixOf_iff_prefix, ← List.cons_append] at hbegins
        exact absurd (hstart.trans (List.prefix_append _ _)) hbegins
      · obtain ⟨i, hi, hle⟩ := ih hrest
        refine ⟨i + 1, by rw [List.cons_append, findWord, if_neg hbegins, hi]; rfl, ?_⟩
        rw [List.length_cons]
        omega

end MetalOrm.ForStd
