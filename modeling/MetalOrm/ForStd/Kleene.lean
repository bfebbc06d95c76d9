import Mathlib

/-!
# Three-valued logic

Truth values of SQL: `some true`, `some false`, and `none` for unknown. A condition
selects a row when it is `some true`.
-/

namespace MetalOrm.ForStd

/-- A truth value; `none` is unknown. -/
abbrev Truth := Option Bool

namespace Truth

/-- Conjunction: false if one side is false, unknown if it depends on an unknown side. -/
def and : Truth → Truth → Truth
  | some false, _ => some false
  | _, some false => some false
  | some true, b => b
  | a, some true => a
  | none, none => none

/-- Disjunction. -/
def or : Truth → Truth → Truth
  | some true, _ => some true
  | _, some true => some true
  | some false, b => b
  | a, some false => a
  | none, none => none

/-- Negation leaves unknown as it is. -/
def not : Truth → Truth := Option.map (!·)

/-- Negation if asked for. -/
def negate (negated : Bool) (a : Truth) : Truth := if negated then a.not else a

/-- The disjunction of a list. -/
def any {α : Type} (p : α → Truth) : List α → Truth
  | [] => some false
  | a :: as => (p a).or (any p as)

/-- A condition holds if it is true, and not if it is unknown. -/
def holds (a : Truth) : Bool := a == some true

@[simp] theorem holds_some (b : Bool) : holds (some b) = b := by
  cases b <;> rfl

@[simp] theorem holds_none : holds none = false := rfl

@[simp] theorem holds_and (a b : Truth) : (a.and b).holds = (a.holds && b.holds) := by
  rcases a with _ | _ | _ <;> rcases b with _ | _ | _ <;> rfl

@[simp] theorem holds_or (a b : Truth) : (a.or b).holds = (a.holds || b.holds) := by
  rcases a with _ | _ | _ <;> rcases b with _ | _ | _ <;> rfl

@[simp] theorem holds_negate_some (negated b : Bool) :
    (negate negated (some b)).holds = (b != negated) := by
  cases negated <;> cases b <;> rfl

/-- What is not true holds under negation only if it is known to be false. -/
theorem holds_not (a : Truth) : a.not.holds = (a == some false) := by
  rcases a with _ | _ | _ <;> rfl

theorem holds_any {α : Type} (p : α → Truth) (as : List α) :
    (any p as).holds = as.any fun a => (p a).holds := by
  induction as with
  | nil => rfl
  | cons a as ih => simp [any, ih]

/-- A disjunction is false when all its members are. -/
theorem any_eq_false {α : Type} (p : α → Truth) (as : List α) :
    (any p as == some false) = as.all fun a => p a == some false := by
  induction as with
  | nil => rfl
  | cons a as ih =>
    rw [List.all_cons, ← ih, any]
    generalize any p as = b
    rcases p a with _ | _ | _ <;> rcases b with _ | _ | _ <;> rfl

end Truth

end MetalOrm.ForStd
