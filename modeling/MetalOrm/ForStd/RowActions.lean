import Mathlib

/-!
# Statements that act on the rows of a table one by one

An action changes or deletes the rows that satisfy its condition. A table that actions run over one
after the other is changed row by row, so what happens to a row does not depend on the other rows.

## Key results

- `runAll_eq`: a table is changed row by row
- `runAll_apart`: actions that meet no common row have one result in every order
- `runAll_same`: actions that make the same, final change have one result in every order
-/

namespace MetalOrm.ForStd

variable {ρ : Type}

/-- A change of the rows that satisfy a condition; `none` deletes. -/
structure RowAction (ρ : Type) where
  guard : ρ → Bool
  act : ρ → Option ρ

namespace RowAction

/-- What becomes of a row. -/
def onRow (a : RowAction ρ) (row : ρ) : Option ρ := if a.guard row then a.act row else some row

/-- What becomes of a table. -/
def run (a : RowAction ρ) (rows : List ρ) : List ρ := rows.filterMap a.onRow

/-- The rows that the action meets, as it leaves them. -/
def returned (a : RowAction ρ) (rows : List ρ) : List ρ := (rows.filter a.guard).filterMap a.act

/-- The actions one after the other. -/
def runAll (actions : List (RowAction ρ)) (rows : List ρ) : List ρ :=
  actions.foldl (fun rows a => a.run rows) rows

/-- What becomes of a row under actions one after the other. -/
def onRowAll (actions : List (RowAction ρ)) (row : ρ) : Option ρ :=
  actions.foldl (fun row a => row.bind a.onRow) (some row)

@[simp] theorem onRowAll_nil (row : ρ) : onRowAll [] row = some row := rfl

theorem onRowAll_cons (a : RowAction ρ) (actions : List (RowAction ρ)) (row : ρ) :
    onRowAll (a :: actions) row = (a.onRow row).bind (onRowAll actions) := by
  have hnone : ∀ l : List (RowAction ρ), l.foldl (fun row a => row.bind a.onRow) none = none := by
    intro l
    induction l with
    | nil => rfl
    | cons b l ih => exact ih
  rw [onRowAll, List.foldl_cons, Option.bind_some]
  cases a.onRow row with
  | none => exact hnone actions
  | some row' => rfl

/-- A table is changed row by row. -/
theorem runAll_eq (actions : List (RowAction ρ)) (rows : List ρ) :
    runAll actions rows = rows.filterMap (onRowAll actions) := by
  induction actions generalizing rows with
  | nil => exact List.filterMap_some.symm
  | cons a actions ih =>
    rw [runAll, List.foldl_cons, ← runAll, ih, run, List.filterMap_filterMap]
    exact congrArg (rows.filterMap ·) (funext fun row => (onRowAll_cons a actions row).symm)

theorem runAll_append (before after : List (RowAction ρ)) (rows : List ρ) :
    runAll (before ++ after) rows = runAll after (runAll before rows) :=
  List.foldl_append

/-! ## Actions that meet no common row -/

/-- No row that one of the actions meets, or leaves, is met by the other. -/
structure Apart (a b : RowAction ρ) : Prop where
  left : ∀ row, a.guard row = true → b.guard row = false
  right : ∀ row, b.guard row = true → a.guard row = false
  leftActed : ∀ row row', a.guard row = true → a.act row = some row' → b.guard row' = false
  rightActed : ∀ row row', b.guard row = true → b.act row = some row' → a.guard row' = false

theorem Apart.symm {a b : RowAction ρ} (h : Apart a b) : Apart b a :=
  ⟨h.right, h.left, h.rightActed, h.leftActed⟩

instance : Std.Symm (Apart : RowAction ρ → RowAction ρ → Prop) := ⟨fun _ _ => Apart.symm⟩

/-- What becomes of a row is what the action that meets it does. -/
def met (actions : List (RowAction ρ)) (row : ρ) : Option ρ :=
  match actions.find? (·.guard row) with
  | none => some row
  | some a => a.act row

/-- A row that no action meets stays as it is. -/
theorem onRowAll_of_not {actions : List (RowAction ρ)} {row : ρ}
    (h : ∀ a ∈ actions, a.guard row = false) : onRowAll actions row = some row := by
  induction actions with
  | nil => rfl
  | cons a actions ih =>
    obtain ⟨ha, hactions⟩ := List.forall_mem_cons.mp h
    rw [onRowAll_cons, onRow, if_neg (by simp [ha]), Option.bind_some]
    exact ih hactions

theorem onRowAll_apart {actions : List (RowAction ρ)} (h : actions.Pairwise Apart) (row : ρ) :
    onRowAll actions row = met actions row := by
  induction actions with
  | nil => rfl
  | cons a actions ih =>
    obtain ⟨ha, hactions⟩ := List.pairwise_cons.mp h
    rw [onRowAll_cons, onRow, met, List.find?_cons]
    cases hguard : a.guard row with
    | false =>
      rw [if_neg (by simp), Option.bind_some, ih hactions]
      rfl
    | true =>
      rw [if_pos rfl]
      cases hact : a.act row with
      | none => exact hact.symm
      | some row' =>
        -- the row as the action leaves it is met by no other action
        have hrest := fun b hb => (ha b hb).leftActed row row' hguard hact
        rw [Option.bind_some, onRowAll_of_not hrest]
        exact hact.symm

/-- At most one of the actions meets a row, so their order does not matter. -/
theorem met_perm {actions order : List (RowAction ρ)} (hperm : order.Perm actions)
    (h : actions.Pairwise Apart) (row : ρ) : met order row = met actions row := by
  have hunique : ∀ a ∈ actions, ∀ b ∈ actions, a.guard row = true → b.guard row = true → a = b := by
    intro a ha b hb hga hgb
    by_contra hne
    have happart := h.forall ha hb hne
    rw [happart.left row hga] at hgb
    cases hgb
  have hfind : order.find? (·.guard row) = actions.find? (·.guard row) := by
    cases horder : order.find? (·.guard row) with
    | none =>
      have hnone := List.find?_eq_none.mp horder
      exact (List.find?_eq_none.mpr fun a ha => hnone a (hperm.mem_iff.mpr ha)).symm
    | some a =>
      have hga : a.guard row = true := by simpa using List.find?_some horder
      have ha : a ∈ actions := hperm.mem_iff.mp (List.mem_of_find?_eq_some horder)
      cases hactions : actions.find? (·.guard row) with
      | none => exact absurd hga (List.find?_eq_none.mp hactions a ha)
      | some b =>
        have hgb : b.guard row = true := by simpa using List.find?_some hactions
        rw [hunique a ha b (List.mem_of_find?_eq_some hactions) hga hgb]
  rw [met, met, hfind]

/-- Actions that meet no common row, in any order. -/
theorem runAll_apart {actions order : List (RowAction ρ)} (hperm : order.Perm actions)
    (h : actions.Pairwise Apart) (rows : List ρ) :
    runAll order rows = rows.filterMap (met actions) := by
  have horder : order.Pairwise Apart := hperm.symm.pairwise h Apart.symm
  rw [runAll_eq]
  exact congrArg (rows.filterMap ·)
    (funext fun row => (onRowAll_apart horder row).trans (met_perm hperm h row))

/-- What an action returns does not depend on the actions that ran before. -/
theorem returned_apart {a : RowAction ρ} {before : List (RowAction ρ)}
    (h : ∀ b ∈ before, Apart a b) (rows : List ρ) :
    a.returned (runAll before rows) = a.returned rows := by
  induction before generalizing rows with
  | nil => rfl
  | cons b before ih =>
    obtain ⟨hb, hbefore⟩ := List.forall_mem_cons.mp h
    rw [runAll, List.foldl_cons, ← runAll, ih hbefore, returned, returned]
    congr 1
    induction rows with
    | nil => rfl
    | cons row rows ih =>
      rw [run, List.filterMap_cons, ← run, onRow]
      cases hguard : b.guard row with
      | false =>
        rw [if_neg (by simp), List.filter_cons, List.filter_cons, ih]
      | true =>
        rw [if_pos rfl, List.filter_cons, if_neg (by simp [hb.right row hguard])]
        cases hact : b.act row with
        | none => exact ih
        | some row' =>
          rw [List.filter_cons, if_neg (by simp [hb.rightActed row row' hguard hact])]
          exact ih

/-! ## Actions that make the same change -/

/-- Actions that make the same change, which leaves a row that it has changed as it is. -/
structure Same (act : ρ → Option ρ) (actions : List (RowAction ρ)) : Prop where
  act_eq : ∀ a ∈ actions, a.act = act
  final : ∀ row row', act row = some row' → act row' = some row'

theorem Same.perm {act : ρ → Option ρ} {actions order : List (RowAction ρ)}
    (h : Same act actions) (hperm : order.Perm actions) : Same act order :=
  ⟨fun a ha => h.act_eq a (hperm.mem_iff.mp ha), h.final⟩

/-- A row that has been changed stays as it is. -/
theorem onRowAll_changed {act : ρ → Option ρ} {actions : List (RowAction ρ)} (h : Same act actions)
    {row : ρ} (hrow : act row = some row) : onRowAll actions row = some row := by
  induction actions with
  | nil => rfl
  | cons a actions ih =>
    have ha : a.onRow row = some row := by
      rw [onRow, h.act_eq a List.mem_cons_self, hrow, ite_self]
    rw [onRowAll_cons, ha, Option.bind_some]
    exact ih ⟨fun b hb => h.act_eq b (List.mem_cons_of_mem a hb), h.final⟩

/-- The rows that one of the actions meets are changed. -/
theorem runAll_same {act : ρ → Option ρ} {actions order : List (RowAction ρ)}
    (hperm : order.Perm actions) (h : Same act actions) (rows : List ρ) :
    runAll order rows =
      rows.filterMap fun row => if actions.any (·.guard row) then act row else some row := by
  have hrow : ∀ (l : List (RowAction ρ)) (row : ρ), Same act l →
      onRowAll l row = if l.any (·.guard row) then act row else some row := by
    intro l row hl
    induction l with
    | nil => rfl
    | cons a l ih =>
      have hrest : Same act l := ⟨fun b hb => hl.act_eq b (List.mem_cons_of_mem a hb), hl.final⟩
      rw [onRowAll_cons, onRow, List.any_cons]
      cases hguard : a.guard row with
      | false =>
        rw [if_neg (by simp), Option.bind_some, Bool.false_or]
        exact ih hrest
      | true =>
        rw [if_pos rfl, Bool.true_or, if_pos rfl, hl.act_eq a List.mem_cons_self]
        cases hact : act row with
        | none => rfl
        | some row' => exact onRowAll_changed hrest (h.final row row' hact)
  have hany : ∀ row, order.any (·.guard row) = actions.any (·.guard row) := fun row => by
    rw [Bool.eq_iff_iff]
    simp only [List.any_eq_true, hperm.mem_iff]
  rw [runAll_eq]
  exact congrArg (rows.filterMap ·) (funext fun row => by rw [hrow order row (h.perm hperm), hany])

end RowAction

end MetalOrm.ForStd
