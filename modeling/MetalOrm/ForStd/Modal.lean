import Mathlib

/-!
# Modal formulas over sorted frames

States have sorts, labelled steps lead from a state to the list of its successors, and
atoms are tests of a state. A formula asks for successors that satisfy a formula.

## Key results

- `Frame.sat_eq_of_bisimilar`: states that are matched by a bisimulation for the atoms and
  labels a formula uses satisfy it both or neither
- `Frame.sat_some_self`: a step that leads to the state itself asks nothing new
-/

namespace MetalOrm.ForStd

/-- A formula about a state. -/
inductive Formula (Atom Label : Type) where
  | top
  | atom (a : Atom)
  | and (left right : Formula Atom Label)
  | not (inner : Formula Atom Label)
  | some (label : Label) (inner : Formula Atom Label)

/-- What atoms say of a state, and which states a label leads to. -/
structure Frame (Srt State Atom Label : Type) where
  test : Srt → State → Atom → Bool
  successors : Srt → State → Label → List State

variable {Srt State State' Atom Label : Type}

namespace Formula

/-- Negation if asked for. -/
def negate (negated : Bool) (φ : Formula Atom Label) : Formula Atom Label :=
  if negated then φ.not else φ

/-- Every successor satisfies the formula. -/
def all (label : Label) (φ : Formula Atom Label) : Formula Atom Label := not (some label φ.not)

/-- The formula uses only atoms and labels that are allowed at the sort where they stand. -/
def Within (target : Srt → Label → Srt) (atoms : Srt → Atom → Prop) (labels : Srt → Label → Prop) :
    Formula Atom Label → Srt → Prop
  | top, _ => True
  | atom a, s => atoms s a
  | and left right, s => left.Within target atoms labels s ∧ right.Within target atoms labels s
  | not inner, s => inner.Within target atoms labels s
  | some label inner, s => labels s label ∧ inner.Within target atoms labels (target s label)

end Formula

namespace Frame

variable (target : Srt → Label → Srt)

/-- A state satisfies a formula. -/
def sat (frame : Frame Srt State Atom Label) : Formula Atom Label → Srt → State → Bool
  | .top, _, _ => true
  | .atom a, s, x => frame.test s x a
  | .and left right, s, x => frame.sat left s x && frame.sat right s x
  | .not inner, s, x => !frame.sat inner s x
  | .some label inner, s, x =>
    (frame.successors s x label).any fun y => frame.sat inner (target s label) y

variable {target} {frame : Frame Srt State Atom Label} {frame' : Frame Srt State' Atom Label}

theorem sat_negate (negated : Bool) (φ : Formula Atom Label) (s : Srt) (x : State) :
    frame.sat target (φ.negate negated) s x = (frame.sat target φ s x != negated) := by
  cases negated <;> simp [Formula.negate, sat]

theorem sat_all (label : Label) (φ : Formula Atom Label) (s : Srt) (x : State) :
    frame.sat target (.all label φ) s x =
      (frame.successors s x label).all fun y => frame.sat target φ (target s label) y := by
  simp [Formula.all, sat, List.all_eq_not_any_not]

/-- A relation between the states of two frames that respects the given atoms, and can match
    each step of the given labels on either side. -/
structure Bisimulation (target : Srt → Label → Srt) (atoms : Srt → Atom → Prop)
    (labels : Srt → Label → Prop) (frame : Frame Srt State Atom Label)
    (frame' : Frame Srt State' Atom Label) (R : Srt → State → State' → Prop) : Prop where
  test : ∀ s x y, R s x y → ∀ a, atoms s a → frame.test s x a = frame'.test s y a
  forth : ∀ s x y, R s x y → ∀ label, labels s label → ∀ x' ∈ frame.successors s x label,
    ∃ y' ∈ frame'.successors s y label, R (target s label) x' y'
  back : ∀ s x y, R s x y → ∀ label, labels s label → ∀ y' ∈ frame'.successors s y label,
    ∃ x' ∈ frame.successors s x label, R (target s label) x' y'

/-- Formulas cannot tell matched states apart. -/
theorem sat_eq_of_bisimilar {atoms : Srt → Atom → Prop} {labels : Srt → Label → Prop}
    {R : Srt → State → State' → Prop} (h : Bisimulation target atoms labels frame frame' R)
    {φ : Formula Atom Label} {s : Srt} (hφ : φ.Within target atoms labels s) {x : State} {y : State'}
    (hxy : R s x y) : frame.sat target φ s x = frame'.sat target φ s y := by
  induction φ generalizing s x y with
  | top => rfl
  | atom a => exact h.test s x y hxy a hφ
  | and left right ihleft ihright => simp only [sat, ihleft hφ.1 hxy, ihright hφ.2 hxy]
  | not inner ih => simp only [sat, ih hφ hxy]
  | some label inner ih =>
    obtain ⟨hlabel, hinner⟩ := hφ
    simp only [sat]
    rw [Bool.eq_iff_iff, List.any_eq_true, List.any_eq_true]
    constructor
    · rintro ⟨x', hx', hsat⟩
      obtain ⟨y', hy', hmatch⟩ := h.forth s x y hxy label hlabel x' hx'
      exact ⟨y', hy', ih hinner hmatch ▸ hsat⟩
    · rintro ⟨y', hy', hsat⟩
      obtain ⟨x', hx', hmatch⟩ := h.back s x y hxy label hlabel y' hy'
      exact ⟨x', hx', (ih hinner hmatch).symm ▸ hsat⟩

/-- A step whose only successor is the state itself. -/
theorem sat_some_self {label : Label} {φ : Formula Atom Label} {s : Srt} {x : State}
    (hself : ∀ y, y ∈ frame.successors s x label ↔ y = x) :
    frame.sat target (.some label φ) s x = frame.sat target φ (target s label) x := by
  rw [Bool.eq_iff_iff, sat, List.any_eq_true]
  constructor
  · rintro ⟨y, hy, hsat⟩
    rw [(hself y).mp hy] at hsat
    exact hsat
  · intro hsat
    exact ⟨x, (hself x).mpr rfl, hsat⟩

end Frame

end MetalOrm.ForStd
