import MetalOrm.Native.RelationChange

/-!
# many_to_many collections

`metal/collection.hpp`: `pivot_patch` and `many_to_many_collection`, with the identity binding that
`Session::bind_relation_collections` installs, and the statements that `flush_many_to_many` sends
for a collection.

The items are found by address or by the text of their key; pivot values and pending patches are
kept by address alone. What the id factory returns is an argument of the calls that may need it.
-/

namespace MetalOrm.Native.PivotCollection

open RelationChange

/-- A target object: where it lies, and the value of its target key. -/
structure Target where
  address : Nat
  key : Value
deriving DecidableEq

/-! ## Patches -/

/-- `pivot_patch`: a value for each of some columns. -/
structure Patch where
  entries : PivotPatch
  nodup : (entries.map Prod.fst).Nodup
deriving DecidableEq

namespace Patch

/-- `pivot_patch{}`. -/
def empty : Patch := ⟨[], List.nodup_nil⟩

/-- Put an entry in the place of the one for its column, or at the end. -/
def setEntry (entries : PivotPatch) (entry : Name × Value) : PivotPatch :=
  if entry.1 ∈ entries.map Prod.fst then
    entries.map fun current => if current.1 = entry.1 then entry else current
  else entries ++ [entry]

theorem nodup_setEntry {entries : PivotPatch} (h : (entries.map Prod.fst).Nodup)
    (entry : Name × Value) : ((setEntry entries entry).map Prod.fst).Nodup := by
  unfold setEntry
  split
  · have hkeys : (entries.map fun current => if current.1 = entry.1 then entry else current).map
        Prod.fst = entries.map Prod.fst := by
      rw [List.map_map]
      apply List.map_congr_left
      intro current _
      rw [Function.comp_apply]
      split
      · rename_i hsame
        exact hsame.symm
      · rfl
    rwa [hkeys]
  · rename_i hnew
    rw [List.map_append]
    exact List.nodup_append.mpr ⟨h, by simp, by simpa using fun a b hab hea => hnew (by
      rw [← hea]
      exact List.mem_map.mpr ⟨_, hab, rfl⟩)⟩

/-- `pivot_patch::set`. -/
def set (patch : Patch) (entry : Name × Value) : Patch :=
  ⟨setEntry patch.entries entry, nodup_setEntry patch.nodup entry⟩

/-- `pivot_patch::merge`. -/
def merge (patch other : Patch) : Patch := other.entries.foldl set patch

end Patch

/-! ## The collection -/

/-- What is fixed for the collection of a root: the annotation, the classes of both sides, whether
    `_metal_bind_identity` was called, and the members of a pivot object. -/
structure Binding (κ : Type) where
  relation : ManyToMany
  root : EntityClass
  target : EntityClass
  bound : Bool
  valueKey : Value → κ
  pivotDefault : Name → Value
  fromValue : Name → Value → Value

/-- `many_to_many_collection`. -/
structure Collection where
  items : List Target
  baseline : List Target
  pivots : Nat → Option (Name → Value)
  pivotPatches : AList fun _ : Nat => Patch

variable {κ : Type} [DecidableEq κ] (env : Binding κ)

/-- `identity_key_`. -/
def identityKey (value : Target) : Option κ :=
  if missingRelationKey env.target env.relation.targetKey value.key then none
  else some (env.valueKey value.key)

/-- `same_entity`. -/
def sameEntity (left right : Target) : Bool :=
  left.address == right.address ||
    (env.bound && (identityKey env left).isSome && identityKey env left == identityKey env right)

/-- The item with an identity key. -/
def findByKey (c : Collection) (wanted : κ) : Option Target :=
  c.items.find? fun item => identityKey env item == some wanted

/-- `find_equivalent`. -/
def findEquivalent (c : Collection) (value : Target) : Option Target :=
  c.items.find? fun item => sameEntity env item value

/-- `contains_equivalent`. -/
def containsEquivalent (values : List Target) (value : Target) : Bool :=
  values.any fun candidate => sameEntity env candidate value

/-- `pivot_patch::apply_to`. -/
def applyTo (patch : Patch) (pivot : Name → Value) : Name → Value :=
  patch.entries.foldl (fun pivot entry =>
    Function.update pivot entry.1 (env.fromValue entry.1 entry.2)) pivot

/-- `apply_patch`. -/
def applyPatch (c : Collection) (value : Target) (patch : Patch) : Collection :=
  if patch.entries.isEmpty then c
  else
    { c with
      pivots := Function.update c.pivots value.address
        (some (applyTo env patch ((c.pivots value.address).getD env.pivotDefault)))
      pivotPatches := c.pivotPatches.insert value.address
        (((c.pivotPatches.lookup value.address).getD .empty).merge patch) }

/-- `attach_impl`, for a target that is not null. No pivot filter is bound, so `sanitize` leaves
    every patch as it is. -/
def attachImpl (c : Collection) (value : Target) (patch : Patch) : Collection :=
  match findEquivalent env c value with
  | some existing => applyPatch env c existing patch
  | none =>
    let patched := applyPatch env c value patch
    { patched with items := patched.items ++ [value] }

/-- `ensure_identity_binding`. -/
def ensureIdentityBinding : Except Exn Unit :=
  if env.bound then .ok ()
  else .error (.ofText
    "MetalORM: ID-based collection operation requires a Session-bound relation")

/-- `attach_id_value`. -/
def attachIdValue (c : Collection) (key : Value) (made : Except Exn Target) (patch : Patch) :
    Except Exn Collection := do
  ensureIdentityBinding env
  match findByKey env c (env.valueKey key) with
  | some item => return applyPatch env c item patch
  | none => return attachImpl env c (← made) patch

/-- `detach`, for a target that is not null: whether it was there, and the collection. -/
def detach (c : Collection) (value : Target) : Bool × Collection :=
  ((findEquivalent env c value).isSome,
    { c with items := c.items.eraseP fun item => sameEntity env item value })

/-- `detach` by a key. -/
def detachKey (c : Collection) (key : Value) : Except Exn (Bool × Collection) := do
  ensureIdentityBinding env
  return ((findByKey env c (env.valueKey key)).isSome,
    { c with items := c.items.eraseP fun item => identityKey env item == some (env.valueKey key) })

/-- The loop of `sync_by_ids`, and what is left of the collection where the factory throws. -/
def attachMissing : List (Value × Except Exn Target) → Collection → Except Exn Unit × Collection
  | [], c => (.ok (), c)
  | (id, made) :: ids, c =>
    if (findByKey env c (env.valueKey id)).isSome then attachMissing ids c
    else
      match attachIdValue env c id made .empty with
      | .ok c => attachMissing ids c
      | .error e => (.error e, c)

/-- `items_.erase(std::remove_if(…))`: keep the items without a key, and those with one of `keys`. -/
def retain (keys : List κ) (c : Collection) : Collection :=
  { c with items := c.items.filter fun item => (identityKey env item).all fun key => key ∈ keys }

/-- `sync_by_ids`, of a collection that is loaded. -/
def syncByIds (ids : List (Value × Except Exn Target)) (c : Collection) :
    Except Exn Unit × Collection :=
  match ensureIdentityBinding env with
  | .error e => (.error e, c)
  | .ok () =>
    match attachMissing env ids c with
    | (.ok (), c) => (.ok (), retain env (ids.map fun id => env.valueKey id.1) c)
    | failed => failed

/-- The loop of `_metal_hydrate`. -/
def hydrateItems : List (Target × Option (Name → Value)) → Collection → Collection
  | [], c => c
  | (entity, pivot) :: values, c =>
    if (findEquivalent env c entity).isSome then hydrateItems values c
    else hydrateItems values
      { c with
        items := c.items ++ [entity]
        -- `emplace` leaves a pivot that is there already.
        pivots := Function.update c.pivots entity.address
          ((c.pivots entity.address).or pivot) }

/-- `_metal_hydrate`. -/
def hydrate (c : Collection) (values : List (Target × Option (Name → Value))) : Collection :=
  let filled := hydrateItems env values { c with items := [], pivots := fun _ => none }
  { filled with baseline := filled.items, pivotPatches := ∅ }

/-- `_metal_added`. -/
def added (c : Collection) : List Target :=
  c.items.filter fun value => !containsEquivalent env c.baseline value

/-- `_metal_removed`. -/
def removed (c : Collection) : List Target :=
  c.baseline.filter fun value => !containsEquivalent env c.items value

/-- `_metal_pivot_updates`. -/
def pivotUpdates (c : Collection) : List Target :=
  c.items.filter fun value => (c.pivotPatches.lookup value.address).isSome &&
    containsEquivalent env c.baseline value

/-- `_metal_pivot_patch`. -/
def pivotPatch (c : Collection) (value : Target) : Option Patch :=
  (findEquivalent env c value).bind fun item => c.pivotPatches.lookup item.address

/-- `pivot`. -/
def pivot (c : Collection) (value : Target) : Option (Name → Value) :=
  (findEquivalent env c value).bind fun item => c.pivots item.address

/-- `dirty`. -/
def dirty (c : Collection) : Bool :=
  !(added env c).isEmpty || !(removed env c).isEmpty || !c.pivotPatches.entries.isEmpty

/-- `_metal_accept_changes`. -/
def acceptChanges (c : Collection) : Collection where
  items := c.items
  baseline := c.items
  pivots address := if c.items.any fun item => item.address == address then c.pivots address
    else none
  pivotPatches := ∅

/-! ## `flush_many_to_many` -/

/-- The body of the first loop. -/
def insertPivot (c : Collection) (rootKey : Value) (target : Target) : Except Exn Statement :=
  if missingRelationKey env.target env.relation.targetKey target.key then
    .error (.ofText "MetalORM: attached many_to_many target does not have a relation target key")
  else
    .ok (.insert env.relation.pivot (pivotWheres env.relation rootKey target.key ++
      pivotPayload env.relation ((pivotPatch env c target).getD .empty).entries) [])

/-- The body of the second loop. -/
def updatePivot (c : Collection) (rootKey : Value) (target : Target) : Option Statement :=
  let assignments := pivotPayload env.relation ((pivotPatch env c target).getD .empty).entries
  if assignments.isEmpty then none
  else some (.update env.relation.pivot assignments (pivotWheres env.relation rootKey target.key))

/-- The body of the third loop. A tracked target that the relation cascades to is marked as
    removed, another one deleted at once. -/
def deletePivot (tracked : Target → Bool) (rootKey : Value) (target : Target) : List Statement :=
  .delete env.relation.pivot (pivotWheres env.relation rootKey target.key) ::
    if env.relation.cascade.cascadesRemove && !tracked target then
      [.delete env.target.table [(env.relation.targetKey, target.key)]]
    else []

/-- `flush_many_to_many`: the statements that it sends. -/
def flush (tracked : Target → Bool) (rootKey : Value) (c : Collection) :
    Except Exn (List Statement) := do
  if missingRelationKey env.root env.relation.localKey rootKey &&
      (!(added env c).isEmpty || !(removed env c).isEmpty) then
    throw (.ofText "MetalORM: cannot flush many_to_many for a root without a persisted key")
  let inserts ← (added env c).mapM (insertPivot env c rootKey)
  return inserts ++ (pivotUpdates env c).filterMap (updatePivot env c rootKey) ++
    (removed env c).flatMap (deletePivot env tracked rootKey)

end MetalOrm.Native.PivotCollection
