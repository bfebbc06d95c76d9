import Mathlib

/-!
# Matching patterns with two wildcards

One wildcard stands for any text and the other for any character; every other character of a
pattern stands for itself. The matcher backtracks.

## Key results

- `matches_around`, `matches_before`, `matches_behind`: a text with wildcards around it, where it has
  none itself, is matched where it occurs
- `exists_matches_not_infix`: a pattern with wildcards is matched by a text in which it does not occur
-/

namespace MetalOrm.ForStd.Like

variable {α : Type} [DecidableEq α]

/-- The wildcards of a pattern language. -/
structure Wildcards (α : Type) where
  any : α
  one : α
  any_ne_one : any ≠ one

variable (w : Wildcards α)

/-- Whether the text matches the pattern. -/
def run : (pattern text : List α) → Bool
  | [], text => text.isEmpty
  | p :: pattern, text =>
    -- the rest of the pattern is tried on every rest of the text
    if p = w.any then text.tails.any (run pattern)
    else match text with
      | [] => false
      | c :: text => (p = w.one || p = c) && run pattern text

/-- No character of the text is a wildcard. -/
def Literal (text : List α) : Prop := ∀ c ∈ text, c ≠ w.any ∧ c ≠ w.one

instance (text : List α) : Decidable (Literal w text) :=
  inferInstanceAs (Decidable (∀ c ∈ text, c ≠ w.any ∧ c ≠ w.one))

variable {w}

/-! ## Steps of the matcher -/

@[simp] theorem run_nil (text : List α) : run w [] text = text.isEmpty := by rw [run]

theorem run_any_eq (pattern text : List α) :
    run w (w.any :: pattern) text = text.tails.any (run w pattern) := by
  cases text <;> simp [run]

theorem run_cons_nil {p : α} (hp : p ≠ w.any) (pattern : List α) :
    run w (p :: pattern) [] = false := by
  simp [run, hp]

theorem run_cons_cons {p : α} (hp : p ≠ w.any) (c : α) (pattern text : List α) :
    run w (p :: pattern) (c :: text) = ((p = w.one || p = c) && run w pattern text) := by
  rw [run, if_neg hp]

@[simp] theorem run_any_cons (pattern text : List α) :
    run w (w.any :: pattern) text = true ↔ ∃ rest, rest <:+ text ∧ run w pattern rest = true := by
  rw [run_any_eq, List.any_eq_true]
  simp only [List.mem_tails]

@[simp] theorem run_one_cons (c : α) (pattern text : List α) :
    run w (w.one :: pattern) (c :: text) = run w pattern text := by
  rw [run_cons_cons w.any_ne_one.symm]
  simp

theorem run_self_cons {p : α} (hp : p ≠ w.any) (pattern text : List α) :
    run w (p :: pattern) (p :: text) = run w pattern text := by
  rw [run_cons_cons hp]
  simp

theorem run_literal_cons {p : α} (hp : p ≠ w.any ∧ p ≠ w.one) (pattern text : List α) :
    run w (p :: pattern) text = true ↔ ∃ rest, text = p :: rest ∧ run w pattern rest = true := by
  cases text with
  | nil => simp [run_cons_nil hp.1]
  | cons c text =>
    rw [run_cons_cons hp.1]
    constructor
    · intro h
      simp only [hp.2, decide_false, Bool.false_or, Bool.and_eq_true, decide_eq_true_eq] at h
      exact ⟨text, by rw [h.1], h.2⟩
    · rintro ⟨rest, heq, hrest⟩
      cases heq
      simp [hrest]

/-! ## Texts without wildcards -/

theorem run_append {text : List α} (h : Literal w text) (pattern value : List α) :
    run w (text ++ pattern) value = true ↔
      ∃ rest, value = text ++ rest ∧ run w pattern rest = true := by
  induction text generalizing value with
  | nil => simp
  | cons c text ih =>
    have hc : c ≠ w.any ∧ c ≠ w.one := h c List.mem_cons_self
    have htext : Literal w text := fun d hd => h d (List.mem_cons_of_mem c hd)
    rw [List.cons_append, run_literal_cons hc]
    constructor
    · rintro ⟨rest, rfl, hrest⟩
      obtain ⟨rest', rfl, hrest'⟩ := (ih htext rest).mp hrest
      exact ⟨rest', rfl, hrest'⟩
    · rintro ⟨rest, rfl, hrest⟩
      exact ⟨text ++ rest, rfl, (ih htext _).mpr ⟨rest, rfl, hrest⟩⟩

theorem run_any (value : List α) : run w [w.any] value = true :=
  (run_any_cons [] value).mpr ⟨[], List.nil_suffix, rfl⟩

/-- Only the text itself matches it. -/
theorem matches_exactly {text : List α} (h : Literal w text) (value : List α) :
    run w text value = true ↔ value = text := by
  have happend := run_append h [] value
  rw [List.append_nil] at happend
  rw [happend]
  constructor
  · rintro ⟨rest, rfl, hrest⟩
    rw [run_nil, List.isEmpty_iff] at hrest
    rw [hrest, List.append_nil]
  · rintro rfl
    exact ⟨[], by rw [List.append_nil], rfl⟩

theorem matches_before {text : List α} (h : Literal w text) (value : List α) :
    run w (text ++ [w.any]) value = true ↔ text <+: value := by
  rw [run_append h]
  constructor
  · rintro ⟨rest, rfl, -⟩
    exact List.prefix_append text rest
  · rintro ⟨rest, rfl⟩
    exact ⟨rest, rfl, run_any rest⟩

theorem matches_behind {text : List α} (h : Literal w text) (value : List α) :
    run w (w.any :: text) value = true ↔ text <:+ value := by
  rw [run_any_cons]
  constructor
  · rintro ⟨rest, hrest, hrun⟩
    rwa [(matches_exactly h rest).mp hrun] at hrest
  · intro hsuffix
    exact ⟨text, hsuffix, (matches_exactly h text).mpr rfl⟩

theorem matches_around {text : List α} (h : Literal w text) (value : List α) :
    run w (w.any :: (text ++ [w.any])) value = true ↔ text <:+: value := by
  rw [run_any_cons]
  constructor
  · rintro ⟨rest, hrest, hrun⟩
    exact ((matches_before h rest).mp hrun).isInfix.trans hrest.isInfix
  · rintro ⟨before, after, rfl⟩
    refine ⟨text ++ after, ⟨before, by rw [List.append_assoc]⟩, ?_⟩
    exact (matches_before h _).mpr (List.prefix_append text after)

/-! ## Texts with wildcards -/

/-- A wildcard behind a pattern may stand for nothing. -/
theorem run_before {pattern value : List α} (h : run w pattern value = true) :
    run w (pattern ++ [w.any]) value = true := by
  induction pattern generalizing value with
  | nil => exact run_any value
  | cons p pattern ih =>
    by_cases hp : p = w.any
    · subst hp
      obtain ⟨rest, hrest, hrun⟩ := (run_any_cons pattern value).mp h
      exact (run_any_cons _ value).mpr ⟨rest, hrest, ih hrun⟩
    · cases value with
      | nil => simp [run_cons_nil hp] at h
      | cons c value =>
        rw [run_cons_cons hp, Bool.and_eq_true] at h
        rw [List.cons_append, run_cons_cons hp, Bool.and_eq_true]
        exact ⟨h.1, ih h.2⟩

theorem run_behind {pattern value : List α} (h : run w pattern value = true) :
    run w (w.any :: pattern) value = true :=
  (run_any_cons pattern value).mpr ⟨value, List.suffix_rfl, h⟩

/-- Without the wildcards that stand for any text, the pattern matches itself. -/
theorem run_filter (text : List α) : run w text (text.filter (· ≠ w.any)) = true := by
  induction text with
  | nil => rfl
  | cons c text ih =>
    by_cases hc : c = w.any
    · subst hc
      rw [List.filter_cons_of_neg (by simp)]
      exact run_behind ih
    · rw [List.filter_cons_of_pos (by simpa using hc), run_self_cons hc]
      exact ih

/-- A wildcard that stands for one character matches any other. -/
theorem run_map {text : List α} (hany : w.any ∉ text) (d : α) :
    run w text (text.map fun c => if c = w.one then d else c) = true := by
  induction text with
  | nil => rfl
  | cons c text ih =>
    rw [List.mem_cons, not_or] at hany
    rw [List.map_cons]
    by_cases hc : c = w.one
    · rw [if_pos hc, hc, run_one_cons]
      exact ih hany.2
    · rw [if_neg hc, run_self_cons (Ne.symm hany.1)]
      exact ih hany.2

/-- A pattern with wildcards is matched by a text in which it does not occur. The text is made of
    characters of the pattern and of `d`, and it is not larger than the pattern. -/
theorem exists_matches_not_infix {text : List α} (h : ¬Literal w text) {d : α} (hd : d ≠ w.one)
    (size : α → Nat) (hsize : size d ≤ size w.one) :
    ∃ value, run w text value = true ∧ ¬text <:+: value ∧ (∀ c ∈ value, c ∈ text ∨ c = d) ∧
      (value.map size).sum ≤ (text.map size).sum := by
  by_cases hany : w.any ∈ text
  · refine ⟨text.filter (· ≠ w.any), run_filter text, ?_, ?_, ?_⟩
    · intro hinfix
      have hlt : (text.filter (· ≠ w.any)).length < text.length :=
        List.length_filter_lt_length_iff_exists.mpr ⟨w.any, hany, by simp⟩
      have hle := hinfix.length_le
      omega
    · intro c hc
      exact .inl (List.mem_of_mem_filter hc)
    · exact (List.filter_sublist.map size).sum_le_sum fun _ _ => Nat.zero_le _
  · have hone : w.one ∈ text := by
      by_contra hone
      exact h fun c hc => ⟨fun heq => hany (heq ▸ hc), fun heq => hone (heq ▸ hc)⟩
    refine ⟨text.map fun c => if c = w.one then d else c, run_map hany d, ?_, ?_, ?_⟩
    · intro hinfix
      have heq := hinfix.eq_of_length (by rw [List.length_map])
      have hmem := heq ▸ hone
      rw [List.mem_map] at hmem
      obtain ⟨c, -, hc⟩ := hmem
      split at hc
      · exact hd hc
      · rename_i hne
        exact hne hc
    · intro c hc
      obtain ⟨b, hb, rfl⟩ := List.mem_map.mp hc
      split
      · exact .inr rfl
      · exact .inl hb
    · rw [List.map_map]
      apply List.sum_le_sum
      intro c _
      rw [Function.comp_apply]
      split
      · rename_i heq
        exact heq ▸ hsize
      · exact Nat.le_refl _

end MetalOrm.ForStd.Like
