import MetalOrm.Native.ValueKey
import MetalOrm.Spec.PivotTidy

/-!
# Attaching and detaching

`detach` takes the item out and leaves behind what `attach` stored at its address. Which targets
the collection holds is not changed by the pair; that the collection counts as dirty, and what a
later `attach` of the object finds at its address, is.

## Key results

- `distinct_of_reachable`: no two items are equivalent, whatever was called
- `attach_detach_eq`: what is left of an `attach` after the `detach`
- `attach_detach_undone_iff`: when nothing is left
-/

namespace MetalOrm.Native.PivotCollection

open RelationChange

variable {κ : Type} [DecidableEq κ] {env : Binding κ}

/-- A collection to which nothing has happened. -/
def Collection.fresh : Collection where
  items := []
  baseline := []
  pivots := fun _ => none
  pivotPatches := ∅

/-- The collections that the calls of the interface, loads and flushes lead to. -/
inductive Reachable (env : Binding κ) : Collection → Prop
  | fresh : Reachable env .fresh
  | call {c} (call : LinkCall) : Reachable env c → Reachable env (call.run env c)
  | hydrate {c} (values : List (Target × Option (Name → Value))) :
    Reachable env c → Reachable env (hydrate env c values)
  | acceptChanges {c} : Reachable env c → Reachable env (acceptChanges c)

/-! ## Items -/

/-- No two items are equivalent. -/
def Distinct (env : Binding κ) (items : List Target) : Prop :=
  items.Pairwise fun left right => sameEntity env left right = false

theorem findEquivalent_eq_none {c : Collection} {value : Target} :
    findEquivalent env c value = none ↔ ∀ item ∈ c.items, sameEntity env item value = false := by
  simp [findEquivalent]

/-- An item that is not there yet can be put at the end. -/
theorem Distinct.append {items : List Target} (h : Distinct env items) {value : Target}
    (hnew : ∀ item ∈ items, sameEntity env item value = false) :
    Distinct env (items ++ [value]) :=
  List.pairwise_append.mpr ⟨h, List.pairwise_singleton _ _, fun item hitem v hv => by
    rw [List.mem_singleton.mp hv]
    exact hnew item hitem⟩

theorem distinct_attachImpl {c : Collection} (h : Distinct env c.items) (value : Target)
    (patch : Patch) : Distinct env (attachImpl env c value patch).items := by
  unfold attachImpl
  cases hfind : findEquivalent env c value with
  | some existing => rwa [applyPatch_items]
  | none =>
    dsimp only
    rw [applyPatch_items]
    exact h.append (findEquivalent_eq_none.mp hfind)

theorem distinct_attachIdValue {c c' : Collection} (h : Distinct env c.items) {key : Value}
    {made : Except Exn Target} {patch : Patch} (hok : attachIdValue env c key made patch = .ok c') :
    Distinct env c'.items := by
  unfold attachIdValue at hok
  obtain ⟨_, _, hok⟩ := except_bind_ok hok
  cases hfind : findByKey env c (env.valueKey key) with
  | some item =>
    rw [hfind] at hok
    cases hok
    rwa [applyPatch_items]
  | none =>
    rw [hfind] at hok
    obtain ⟨value, _, hok⟩ := except_bind_ok hok
    cases hok
    exact distinct_attachImpl h value patch

theorem distinct_attachMissing (ids : List (Value × Except Exn Target)) {c : Collection}
    (h : Distinct env c.items) : Distinct env (attachMissing env ids c).2.items := by
  induction ids generalizing c with
  | nil => exact h
  | cons id ids ih =>
    unfold attachMissing
    split
    · exact ih h
    · split
      · rename_i c' hok
        exact ih (distinct_attachIdValue h hok)
      · exact h

/-- Every call keeps the items distinct. -/
theorem distinct_run {c : Collection} (h : Distinct env c.items) (call : LinkCall) :
    Distinct env (call.run env c).items := by
  cases call with
  | attach value patch => exact distinct_attachImpl h value patch
  | attachKey key made patch =>
    unfold LinkCall.run
    dsimp only
    split
    · rename_i c' hok
      exact distinct_attachIdValue h hok
    · exact h
  | detach value => exact h.sublist List.eraseP_sublist
  | detachKey key =>
    unfold LinkCall.run detachKey
    cases ensureIdentityBinding env with
    | error e => exact h
    | ok _ => exact h.sublist List.eraseP_sublist
  | syncByIds ids =>
    unfold LinkCall.run syncByIds
    cases ensureIdentityBinding env with
    | error e => exact h
    | ok _ =>
      have hloop := distinct_attachMissing ids h
      revert hloop
      dsimp only
      generalize attachMissing env ids c = result
      intro hloop
      obtain ⟨result, c'⟩ := result
      cases result with
      | error e => exact hloop
      | ok _ => exact hloop.sublist List.filter_sublist

theorem distinct_hydrateItems (values : List (Target × Option (Name → Value))) {c : Collection}
    (h : Distinct env c.items) : Distinct env (hydrateItems env values c).items := by
  induction values generalizing c with
  | nil => exact h
  | cons value values ih =>
    obtain ⟨entity, pivot⟩ := value
    unfold hydrateItems
    split
    · exact ih h
    · rename_i hfind
      exact ih (h.append (findEquivalent_eq_none.mp (by simpa using hfind)))

/-- No two items of a reachable collection are equivalent. -/
theorem distinct_of_reachable {c : Collection} (h : Reachable env c) : Distinct env c.items := by
  induction h with
  | fresh => exact .nil
  | call call _ ih => exact distinct_run ih call
  | hydrate values _ _ => exact distinct_hydrateItems values .nil
  | acceptChanges _ ih => exact ih

/-! ## What is left behind -/

/-- The pair leaves what `apply_patch` stored. -/
theorem attach_detach_eq {c : Collection} {value : Target} (patch : Patch)
    (habsent : findEquivalent env c value = none) :
    (detach env (attachImpl env c value patch) value).2 = applyPatch env c value patch := by
  have hitems := findEquivalent_eq_none.mp habsent
  have herase : [value].eraseP (fun item => sameEntity env item value) = [] :=
    List.eraseP_cons_of_pos (sameEntity_self value)
  unfold attachImpl detach
  rw [habsent]
  dsimp only
  have hkept : (applyPatch env c value patch).items = c.items := applyPatch_items c value patch
  rw [hkept, List.eraseP_append_right _ (by simpa using hitems), herase, List.append_nil, ← hkept]

/-- What an `attach` without a patch finds for the object. -/
theorem pivotPatch_attach_empty {c : Collection} {value : Target}
    (habsent : findEquivalent env c value = none) :
    pivotPatch env (attachImpl env c value .empty) value = c.pivotPatches.lookup value.address ∧
      pivot env (attachImpl env c value .empty) value = c.pivots value.address := by
  have hfind : (c.items ++ [value]).find? (fun item => sameEntity env item value) = some value := by
    rw [List.find?_append, show c.items.find? _ = none from habsent]
    simp [sameEntity_self]
  unfold pivotPatch pivot attachImpl
  rw [habsent]
  unfold findEquivalent
  dsimp only
  rw [applyPatch_items, hfind]
  exact ⟨rfl, rfl⟩

/-- Nothing of the patch is left when the target is detached again. -/
structure Undone (env : Binding κ) (c : Collection) (value : Target) (patch : Patch) : Prop where
  added : added env (detach env (attachImpl env c value patch) value).2 = added env c
  removed : removed env (detach env (attachImpl env c value patch) value).2 = removed env c
  pivotUpdates :
    pivotUpdates env (detach env (attachImpl env c value patch) value).2 = pivotUpdates env c
  dirty : dirty env (detach env (attachImpl env c value patch) value).2 = dirty env c
  pending : pivotPatch env (detach env (attachImpl env c value patch) value).2 value = none ∧
    pivot env (detach env (attachImpl env c value patch) value).2 value = none
  /-- A later `attach` without a patch finds what it would have found without the pair. -/
  later : let c' := (detach env (attachImpl env c value patch) value).2
    pivotPatch env (attachImpl env c' value .empty) value =
        pivotPatch env (attachImpl env c value .empty) value ∧
      pivot env (attachImpl env c' value .empty) value =
        pivot env (attachImpl env c value .empty) value

/-- Earlier calls have left a patch and pivot values at the address that this one does not
    change. -/
def Absorbed (env : Binding κ) (c : Collection) (value : Target) (patch : Patch) : Prop :=
  c.pivotPatches.lookup value.address =
      some (((c.pivotPatches.lookup value.address).getD .empty).merge patch) ∧
    c.pivots value.address =
      some (applyTo env patch ((c.pivots value.address).getD env.pivotDefault))

theorem findEquivalent_applyPatch (c : Collection) (value other : Target) (patch : Patch) :
    findEquivalent env (applyPatch env c value patch) other = findEquivalent env c other := by
  unfold findEquivalent
  rw [applyPatch_items]

omit [DecidableEq κ] in
/-- A patch that is not empty is stored at the address of the target. -/
theorem applyPatch_of_ne {c : Collection} {value : Target} {patch : Patch}
    (hpatch : patch.entries ≠ []) :
    applyPatch env c value patch = { c with
      pivots := Function.update c.pivots value.address
        (some (applyTo env patch ((c.pivots value.address).getD env.pivotDefault)))
      pivotPatches := c.pivotPatches.insert value.address
        (((c.pivotPatches.lookup value.address).getD .empty).merge patch) } := by
  unfold applyPatch
  rw [if_neg (by simpa using hpatch)]

/-- The pair changes neither the items nor the patches at their addresses. -/
theorem pivotUpdates_applyPatch {c : Collection} {value : Target} (patch : Patch)
    (habsent : findEquivalent env c value = none) :
    pivotUpdates env (applyPatch env c value patch) = pivotUpdates env c := by
  by_cases hpatch : patch.entries = []
  · unfold applyPatch
    rw [hpatch]
    rfl
  · rw [applyPatch_of_ne hpatch]
    refine List.filter_congr fun item hitem => ?_
    -- an item with the address would be equivalent to the target
    have haddress : item.address ≠ value.address := by
      intro haddress
      have hsame := findEquivalent_eq_none.mp habsent item hitem
      simp [sameEntity, haddress] at hsame
    rw [AList.lookup_insert_ne haddress]

omit [DecidableEq κ] in
/-- A patch that is empty or was there before changes nothing at the address of the target. -/
theorem applyPatch_absorbed {c : Collection} {value : Target} {patch : Patch}
    (h : patch.entries = [] ∨ Absorbed env c value patch) :
    (applyPatch env c value patch).pivotPatches.lookup value.address =
        c.pivotPatches.lookup value.address ∧
      (applyPatch env c value patch).pivots value.address = c.pivots value.address ∧
      (applyPatch env c value patch).pivotPatches.entries.isEmpty =
        c.pivotPatches.entries.isEmpty := by
  by_cases hpatch : patch.entries = []
  · unfold applyPatch
    rw [hpatch]
    exact ⟨rfl, rfl, rfl⟩
  · obtain ⟨hlookup, hpivot⟩ := h.resolve_left hpatch
    have hsome : c.pivotPatches.entries ≠ [] := by
      intro hnil
      have hnone : c.pivotPatches.lookup value.address = none := by
        rw [AList.lookup, hnil]
        rfl
      rw [hnone] at hlookup
      cases hlookup
    rw [applyPatch_of_ne hpatch]
    refine ⟨?_, ?_, ?_⟩
    · rw [AList.lookup_insert]
      exact hlookup.symm
    · dsimp only
      rw [Function.update_self]
      exact hpivot.symm
    · rw [List.isEmpty_eq_false_iff.mpr hsome]
      rfl

/-- The pair leaves nothing just when the patch is empty or was there before. -/
theorem undone_iff {c : Collection} {value : Target} (patch : Patch)
    (habsent : findEquivalent env c value = none) :
    Undone env c value patch ↔ patch.entries = [] ∨ Absorbed env c value patch := by
  have hafter := attach_detach_eq patch habsent
  have habsent' : findEquivalent env (applyPatch env c value patch) value = none := by
    rw [findEquivalent_applyPatch, habsent]
  constructor
  · intro h
    obtain ⟨hpatch', hpivot⟩ := h.later
    rw [hafter, (pivotPatch_attach_empty habsent').1, (pivotPatch_attach_empty habsent).1] at hpatch'
    rw [hafter, (pivotPatch_attach_empty habsent').2, (pivotPatch_attach_empty habsent).2] at hpivot
    by_cases hpatch : patch.entries = []
    · exact .inl hpatch
    · rw [applyPatch_of_ne hpatch] at hpatch' hpivot
      rw [AList.lookup_insert] at hpatch'
      dsimp only at hpivot
      rw [Function.update_self] at hpivot
      exact .inr ⟨hpatch'.symm, hpivot.symm⟩
  · intro h
    obtain ⟨hpatch, hpivot, hempty⟩ := applyPatch_absorbed h
    constructor
    · rw [hafter]
      unfold PivotCollection.added
      rw [applyPatch_items, applyPatch_baseline]
    · rw [hafter]
      unfold PivotCollection.removed
      rw [applyPatch_items, applyPatch_baseline]
    · rw [hafter, pivotUpdates_applyPatch patch habsent]
    · rw [hafter]
      unfold PivotCollection.dirty PivotCollection.added PivotCollection.removed
      rw [applyPatch_items, applyPatch_baseline, hempty]
    · rw [hafter]
      unfold PivotCollection.pivotPatch PivotCollection.pivot
      rw [habsent']
      exact ⟨rfl, rfl⟩
    · rw [hafter]
      dsimp only
      rw [(pivotPatch_attach_empty habsent').1, (pivotPatch_attach_empty habsent').2,
        (pivotPatch_attach_empty habsent).1, (pivotPatch_attach_empty habsent).2]
      exact ⟨hpatch, hpivot⟩

/-- In every collection that can be reached the items are distinct, and the pair of an `attach` and
    a `detach` of an absent target leaves nothing just when the patch is empty, or earlier calls have
    left at the address of the target what this patch does not change. -/
theorem attach_detach_undone_iff {c : Collection} (h : Reachable env c) :
    Distinct env c.items ∧ ∀ value, findEquivalent env c value = none → ∀ patch : Patch,
      Undone env c value patch ↔ patch.entries = [] ∨ Absorbed env c value patch :=
  ⟨distinct_of_reachable h, fun _ habsent patch => undone_iff patch habsent⟩

/-- The links of posts and tags. -/
def postTags : Binding (List UInt8) where
  relation :=
    { index := 0, cascade := .none, pivot := .ofAscii "post_tags",
      pivotRootForeignKey := .ofAscii "post_id", pivotTargetForeignKey := .ofAscii "tag_id",
      localKey := .ofAscii "id", targetKey := .ofAscii "id" }
  root := ⟨0, .ofAscii "posts", .ofAscii "id", true, [.ofAscii "id"], by decide, by decide⟩
  target := ⟨1, .ofAscii "tags", .ofAscii "id", true, [.ofAscii "id"], by decide, by decide⟩
  bound := true
  valueKey := valueKey
  pivotDefault _ := .null
  fromValue _ value := value

theorem attach_detach_undone_iff_fresh :
    Distinct postTags Collection.fresh.items ∧
      ∀ value, findEquivalent postTags .fresh value = none → ∀ patch : Patch,
        Undone postTags .fresh value patch ↔
          patch.entries = [] ∨ Absorbed postTags .fresh value patch :=
  attach_detach_undone_iff .fresh

/-- A patch with the position 3. -/
def thirdPlace : Patch := ⟨[(.ofAscii "position", .int64 3)], by decide⟩

/-- A tag that was attached at a position and detached again: the collection is dirty, and a later
    `attach` without a patch has the position pending. -/
theorem detach_leaves_patch :
    let tag : Target := ⟨7, .int64 1⟩
    let detached := (detach postTags (attachImpl postTags .fresh tag thirdPlace) tag).2
    dirty postTags .fresh = false ∧ dirty postTags detached = true ∧
      pivotPatch postTags (attachImpl postTags detached tag .empty) tag = some thirdPlace ∧
      pivotPatch postTags (attachImpl postTags .fresh tag .empty) tag = none := by
  decide

end MetalOrm.Native.PivotCollection
