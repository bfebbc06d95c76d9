import MetalOrm.Native.Session

/-!
# Relation changes

`metal/relation_change_processor.hpp`, with the relation members of
`metal/collection.hpp`, `metal/reference.hpp` and `metal/polymorphic.hpp` and the
attach hooks that `Session::bind_relation_collections` installs.

A relation member is known by its `index` among the relation members of its class;
`Members` holds the relation members of one object. The class that a template
argument `Root` or `Target` names is the class of the object at hand.
-/

namespace MetalOrm.Native

open ForStd

/-- `mapping::cascade_mode`. -/
inductive CascadeMode where
  | none
  | all
  | persist
  | remove
  | link
deriving DecidableEq

/-- `mapping::cascades_persist`. -/
def CascadeMode.cascadesPersist (mode : CascadeMode) : Bool := mode = .persist || mode = .all

/-- `mapping::cascades_remove`. -/
def CascadeMode.cascadesRemove (mode : CascadeMode) : Bool := mode = .remove || mode = .all

/-- A mapped member of type `M`: its column, `is_optional_v<M>`, and
    `to_value(from_value<M>(value))`, where `none` is the conversion that throws. -/
structure Member where
  column : Name
  optional : Bool
  fromValue : Value → Option Value

/-- `belongs_to`. -/
structure BelongsTo where
  index : Nat
  cascade : CascadeMode
  foreignKey : Member
  targetKey : Name

/-- `has_one` and `has_many`. -/
structure HasTargets where
  index : Nat
  cascade : CascadeMode
  targetForeignKey : Member
  localKey : Name

/-- `many_to_many`. -/
structure ManyToMany where
  index : Nat
  cascade : CascadeMode
  pivot : Name
  pivotRootForeignKey : Name
  pivotTargetForeignKey : Name
  localKey : Name
  targetKey : Name

/-- `morph_one` and `morph_many`. -/
structure MorphTargets where
  index : Nat
  cascade : CascadeMode
  typeField : Member
  idField : Member
  typeValue : ByteString
  localKey : Name

/-- `morph_target`: the class it is for, and what `morph_to` writes for it. -/
structure MorphCase where
  type : Nat
  typeValue : ByteString
  targetKey : Name

/-- `morph_to`. -/
structure MorphTo where
  index : Nat
  cascade : CascadeMode
  typeField : Member
  idField : Member
  targets : List MorphCase

/-- A relation annotation. -/
inductive Relation where
  | belongsTo (r : BelongsTo)
  | hasOne (r : HasTargets)
  | hasMany (r : HasTargets)
  | manyToMany (r : ManyToMany)
  | morphOne (r : MorphTargets)
  | morphMany (r : MorphTargets)
  | morphTo (r : MorphTo)

/-! ## The relation members of an object -/

/-- `relation_reference`, `morph_one_reference` and `morph_to_reference`. -/
structure Reference where
  current : Option Key
  baseline : Option Key
deriving DecidableEq

/-- `has_many_collection`, and the members of a `many_to_many_collection`. -/
structure Collection where
  items : List Key
  baseline : List Key
deriving DecidableEq

/-- `pivot_patch`, less the closures that apply it to a pivot object. -/
abbrev PivotPatch := List (Name × Value)

/-- The relation members of an object. `bound` says that its hooks are installed. -/
structure Members where
  references : Nat → Reference
  collections : Nat → Collection
  pivotPatches : Nat → Key → Option PivotPatch
  bound : Bool

namespace Reference

/-- `dirty()`. -/
def dirty (r : Reference) : Bool := r.current != r.baseline

/-- `_metal_added()`. -/
def added (r : Reference) : Option Key := if r.dirty then r.current else none

/-- `_metal_removed()`. -/
def removed (r : Reference) : Option Key := if r.dirty then r.baseline else none

/-- `_metal_accept_changes()`. -/
def acceptChanges (r : Reference) : Reference := { r with baseline := r.current }

end Reference

namespace Collection

/-- `_metal_added()`. -/
def added (c : Collection) : List Key := c.items.filter (· ∉ c.baseline)

/-- `_metal_removed()`. -/
def removed (c : Collection) : List Key := c.baseline.filter (· ∉ c.items)

/-- `_metal_accept_changes()`. -/
def acceptChanges (c : Collection) : Collection := { c with baseline := c.items }

end Collection

namespace Members

/-- Replace one reference member. -/
def setReference (m : Members) (index : Nat) (r : Reference) : Members :=
  { m with references := Function.update m.references index r }

/-- Replace one collection member. -/
def setCollection (m : Members) (index : Nat) (c : Collection) : Members :=
  { m with collections := Function.update m.collections index c }

/-- `_metal_accept_changes()` of one relation member. -/
def acceptRelation (m : Members) : Relation → Members
  | .belongsTo ⟨index, _, _, _⟩ | .hasOne ⟨index, _, _, _⟩ | .morphOne ⟨index, _, _, _, _, _⟩
  | .morphTo ⟨index, _, _, _, _⟩ => m.setReference index (m.references index).acceptChanges
  | .hasMany ⟨index, _, _, _⟩ | .morphMany ⟨index, _, _, _, _, _⟩ =>
    m.setCollection index (m.collections index).acceptChanges
  | .manyToMany ⟨index, _, _, _, _, _, _⟩ =>
    { m.setCollection index (m.collections index).acceptChanges with
      pivotPatches := Function.update m.pivotPatches index fun _ => none }

end Members

variable {D : Type}

namespace RelationChange

open SessionM Session

/-- The relation members of an object. -/
def getMembers (key : Key) : SessionM D Members Members :=
  return ((← get).uow.heap key).runtime

/-- One mapped column of an object. -/
def getColumn (key : Key) (column : Name) : SessionM D Members Value :=
  return ((← get).uow.heap key).columns column

/-- Assign a value to a mapped member. -/
def setColumn (key : Key) (column : Name) (value : Value) : SessionM D Members Unit :=
  assign key fun columns => Function.update columns column value

/-- `object.[:member:] = from_value<M>(value)`. -/
def assignMember (key : Key) (member : Member) (value : Value) : SessionM D Members Unit :=
  match member.fromValue value with
  | some converted => setColumn key member.column converted
  | none => throw (.ofText "MetalORM: incompatible database value conversion")

/-- `unit_of_work_.contains(key)`. -/
def contains (key : Key) : SessionM D Members Bool := return ((← get).uow.tracked key).isSome

/-- `missing_relation_key`. -/
def missingRelationKey (owner : EntityClass) (key : Name) (value : Value) : Bool :=
  if value = .null then true
  else key == owner.primaryKey && owner.generatedPk && value.isEmptyGenerated

/-- `if (…) throw std::runtime_error(…)`. -/
def throwIf (condition : Bool) (text : String) : SessionM D Members Unit :=
  if condition then throw (.ofText text) else return

variable (env : Env D Members)

/-- `clear_nullable_member`. -/
def clearNullableMember (owner : Key) (member : Member) (relationName : String) :
    SessionM D Members Unit :=
  if member.optional then setColumn owner member.column .null
  else throw (.ofText ("MetalORM: detaching " ++ relationName ++
    " requires nullable relation fields or cascade remove"))

/-! ### Relations with a foreign key -/

/-- `flush_belongs_to`. -/
def flushBelongsTo (r : BelongsTo) (root : Key) : SessionM D Members Unit := do
  let reference := (← getMembers root).references r.index
  if reference.dirty then
    match reference.added with
    | some target =>
      let key ← getColumn target r.targetKey
      throwIf (missingRelationKey (env.classOf target) r.targetKey key)
        "MetalORM: belongs_to target does not have a persisted relation key"
      assignMember root r.foreignKey key
    | none =>
      if reference.removed.isSome then clearNullableMember root r.foreignKey "belongs_to"

/-- The foreign key of a target in memory, in its row, and in its snapshot: the
    last three statements of the loops of `flush_has_one` and `flush_has_many`. -/
def writeForeignKey (target : Key) (column : Name) (targetKey member value : Value) :
    SessionM D Members Unit := do
  let cls := env.classOf target
  setColumn target column member
  let _ ← execute env (.update cls.table [(column, value)] [(cls.primaryKey, targetKey)])
  modifyUow (·.refreshSnapshot env.classOf target)

/-- Link a target to the root with this key. -/
def linkTarget (r : HasTargets) (targetKey rootKey : Value) (target : Key) :
    SessionM D Members Unit :=
  match r.targetForeignKey.fromValue rootKey with
  | some member => writeForeignKey env target r.targetForeignKey.column targetKey member rootKey
  | none => throw (.ofText "MetalORM: incompatible database value conversion")

/-- What becomes of a target that was removed from a `has_one` or a `has_many`. -/
def detachTarget (r : HasTargets) (kind : String) (target : Key) : SessionM D Members Unit := do
  if r.cascade.cascadesRemove then
    remove target
  else if r.targetForeignKey.optional then
    let targetKey ← getPk env target
    writeForeignKey env target r.targetForeignKey.column targetKey .null .null
  else
    throw (.ofText ("MetalORM: detaching from a non-nullable " ++ kind ++
      " requires cascade remove"))

/-- The part of `flush_has_one` about the target that was set. -/
def linkHasOne (r : HasTargets) (root : Key) (rootKey : Value) (target : Key) :
    SessionM D Members Unit := do
  throwIf (missingRelationKey (env.classOf root) r.localKey rootKey)
    "MetalORM: cannot flush has_one for a root without a persisted key"
  throwIf (!(← contains target))
    ("MetalORM: attached has_one target is not persisted; enable cascade persist or " ++
      "persist it explicitly")
  let targetKey ← getPk env target
  throwIf (missingRelationKey (env.classOf target) (env.classOf target).primaryKey targetKey)
    "MetalORM: attached has_one target does not have a persisted primary key"
  linkTarget env r targetKey rootKey target

/-- `flush_has_one`. -/
def flushHasOne (r : HasTargets) (root : Key) : SessionM D Members Unit := do
  let reference := (← getMembers root).references r.index
  if reference.dirty then
    let rootKey ← getColumn root r.localKey
    reference.added.toList.forM (linkHasOne env r root rootKey)
    reference.removed.toList.forM (detachTarget env r "has_one")

/-- The body of the first loop of `flush_has_many`. -/
def linkHasMany (r : HasTargets) (rootKey : Value) (target : Key) : SessionM D Members Unit := do
  let targetKey ← getPk env target
  throwIf (missingRelationKey (env.classOf target) (env.classOf target).primaryKey targetKey)
    ("MetalORM: attached has_many target is not persisted; enable cascade persist or " ++
      "persist it explicitly")
  linkTarget env r targetKey rootKey target

/-- `flush_has_many`. -/
def flushHasMany (r : HasTargets) (root : Key) : SessionM D Members Unit := do
  let values := (← getMembers root).collections r.index
  let rootKey ← getColumn root r.localKey
  throwIf (missingRelationKey (env.classOf root) r.localKey rootKey &&
      (!values.added.isEmpty || !values.removed.isEmpty))
    "MetalORM: cannot flush has_many for a root without a persisted key"
  values.added.forM (linkHasMany env r rootKey)
  values.removed.forM (detachTarget env r "has_many")

/-! ### Relations with a pivot table -/

/-- The identity key that `Session` binds to a `many_to_many_collection`. -/
def identityKey (r : ManyToMany) (s : UowState Members) (target : Key) : Option (List UInt8) :=
  let key := (s.heap target).columns r.targetKey
  if missingRelationKey (env.classOf target) r.targetKey key then none
  else some (env.valueKey key)

/-- `same_entity`, in the collection of an object with the members `m`. -/
def sameEntity (r : ManyToMany) (s : UowState Members) (m : Members) (left right : Key) : Bool :=
  let key := identityKey env r s left
  left == right || (m.bound && key.isSome && key == identityKey env r s right)

/-- The `values` without an equivalent in `others`: `_metal_added()` and
    `_metal_removed()` of a `many_to_many_collection`. -/
def withoutEquivalent (r : ManyToMany) (s : UowState Members) (m : Members)
    (values others : List Key) : List Key :=
  values.filter fun value => !(others.any fun candidate => sameEntity env r s m candidate value)

/-- `_metal_pivot_updates()`. -/
def pivotUpdates (r : ManyToMany) (s : UowState Members) (m : Members) : List Key :=
  let values := m.collections r.index
  values.items.filter fun value => (m.pivotPatches r.index value).isSome &&
    values.baseline.any fun candidate => sameEntity env r s m candidate value

/-- `_metal_pivot_patch`. -/
def pivotPatch (r : ManyToMany) (s : UowState Members) (m : Members) (value : Key) :
    Option PivotPatch :=
  ((m.collections r.index).items.find? fun item => sameEntity env r s m item value).bind
    (m.pivotPatches r.index)

/-- `pivot_payload`. -/
def pivotPayload (r : ManyToMany) (patch : PivotPatch) : List (Name × Value) :=
  patch.filter fun (column, _) =>
    !(column == r.pivotRootForeignKey || column == r.pivotTargetForeignKey)

/-- The predicates that select the pivot row of a root and a target. -/
def pivotWheres (r : ManyToMany) (rootKey targetKey : Value) : List (Name × Value) :=
  [(r.pivotRootForeignKey, rootKey), (r.pivotTargetForeignKey, targetKey)]

/-- The body of the first loop of `flush_many_to_many`. -/
def insertPivot (r : ManyToMany) (m : Members) (rootKey : Value) (target : Key) :
    SessionM D Members Unit := do
  let targetKey ← getColumn target r.targetKey
  throwIf (missingRelationKey (env.classOf target) r.targetKey targetKey)
    "MetalORM: attached many_to_many target does not have a relation target key"
  let patch := pivotPatch env r (← get).uow m target
  let _ ← execute env (.insert r.pivot
    (pivotWheres r rootKey targetKey ++ pivotPayload r (patch.getD [])) [])

/-- The body of the second loop of `flush_many_to_many`. -/
def updatePivot (r : ManyToMany) (m : Members) (rootKey : Value) (target : Key) :
    SessionM D Members Unit := do
  let assignments := pivotPayload r ((pivotPatch env r (← get).uow m target).getD [])
  if !assignments.isEmpty then
    let targetKey ← getColumn target r.targetKey
    let _ ← execute env (.update r.pivot assignments (pivotWheres r rootKey targetKey))

/-- The `if constexpr (mapping::cascades_remove(…))` of the third loop of
    `flush_many_to_many`. -/
def removePivotTarget (r : ManyToMany) (targetKey : Value) (target : Key) :
    SessionM D Members Unit := do
  if r.cascade.cascadesRemove then
    if ← contains target then
      remove target
    else
      let _ ← execute env (.delete (env.classOf target).table [(r.targetKey, targetKey)])

/-- The body of the third loop of `flush_many_to_many`. -/
def deletePivot (r : ManyToMany) (rootKey : Value) (target : Key) : SessionM D Members Unit := do
  let targetKey ← getColumn target r.targetKey
  let _ ← execute env (.delete r.pivot (pivotWheres r rootKey targetKey))
  removePivotTarget env r targetKey target

/-- `flush_many_to_many`. -/
def flushManyToMany (r : ManyToMany) (root : Key) : SessionM D Members Unit := do
  let m ← getMembers root
  let values := m.collections r.index
  let rootKey ← getColumn root r.localKey
  let added := withoutEquivalent env r (← get).uow m values.items values.baseline
  let removed := withoutEquivalent env r (← get).uow m values.baseline values.items
  throwIf (missingRelationKey (env.classOf root) r.localKey rootKey &&
      (!added.isEmpty || !removed.isEmpty))
    "MetalORM: cannot flush many_to_many for a root without a persisted key"
  added.forM (insertPivot env r m rootKey)
  (pivotUpdates env r (← get).uow m).forM (updatePivot env r m rootKey)
  (withoutEquivalent env r (← get).uow m values.baseline values.items).forM
    (deletePivot env r rootKey)

/-! ### Polymorphic relations -/

/-- Link a polymorphic target: its id field, then its type field. -/
def linkMorph (r : MorphTargets) (kind : String) (rootKey : Value) (target : Key) :
    SessionM D Members Unit := do
  throwIf (!(← contains target))
    ("MetalORM: attached " ++ kind ++ " target is not persisted; enable cascade persist or " ++
      "persist it explicitly")
  assignMember target r.idField rootKey
  assignMember target r.typeField (.string r.typeValue)

/-- What becomes of a target that was removed from a polymorphic relation. -/
def detachMorph (r : MorphTargets) (kind : String) (target : Key) : SessionM D Members Unit := do
  if r.cascade.cascadesRemove then
    remove target
  else
    clearNullableMember target r.idField kind
    clearNullableMember target r.typeField kind

/-- `flush_morph_one`. -/
def flushMorphOne (r : MorphTargets) (root : Key) : SessionM D Members Unit := do
  let reference := (← getMembers root).references r.index
  let rootKey ← getColumn root r.localKey
  reference.added.toList.forM fun target => do
    throwIf (missingRelationKey (env.classOf root) r.localKey rootKey)
      "MetalORM: cannot flush morph_one for a root without a persisted key"
    linkMorph r "morph_one" rootKey target
  reference.removed.toList.forM (detachMorph r "morph_one")

/-- `flush_morph_many`. -/
def flushMorphMany (r : MorphTargets) (root : Key) : SessionM D Members Unit := do
  let values := (← getMembers root).collections r.index
  let rootKey ← getColumn root r.localKey
  throwIf (missingRelationKey (env.classOf root) r.localKey rootKey &&
      (!values.added.isEmpty || !values.removed.isEmpty))
    "MetalORM: cannot flush morph_many for a root without a persisted key"
  values.added.forM (linkMorph r "morph_many" rootKey)
  values.removed.forM (detachMorph r "morph_many")

/-- `flush_morph_to_value`, for a target: the case of its class. -/
def linkMorphTo (r : MorphTo) (root target : Key) : SessionM D Members Unit := do
  let cases := r.targets.filter fun c => c.type == (env.classOf target).type
  cases.forM fun c => do
    let key ← getColumn target c.targetKey
    throwIf (missingRelationKey (env.classOf target) c.targetKey key)
      "MetalORM: morph_to target does not have a persisted relation key"
    assignMember root r.typeField (.string c.typeValue)
    assignMember root r.idField key
  throwIf cases.isEmpty "MetalORM: morph_to target type is not declared by the relation"

/-- `flush_morph_to`. -/
def flushMorphTo (r : MorphTo) (root : Key) : SessionM D Members Unit := do
  let reference := (← getMembers root).references r.index
  if reference.dirty then
    match reference.current with
    | some target => linkMorphTo env r root target
    | none =>
      clearNullableMember root r.typeField "morph_to"
      clearNullableMember root r.idField "morph_to"

/-! ### The relations of one object -/

/-- The body of the loop of `process_entity`. -/
def flushRelation (root : Key) : Relation → SessionM D Members Unit
  | .belongsTo r => flushBelongsTo env r root
  | .hasOne r => flushHasOne env r root
  | .hasMany r => flushHasMany env r root
  | .manyToMany r => flushManyToMany env r root
  | .morphOne r => flushMorphOne env r root
  | .morphMany r => flushMorphMany env r root
  | .morphTo r => flushMorphTo env r root

/-- `RelationChangeProcessor::process_entity`. -/
def processEntity (relations : List Relation) (root : Key) : SessionM D Members Unit :=
  relations.forM (flushRelation env root)

/-- `if (target && !unit_of_work_.contains(target.get())) persist(target)`. -/
def persistUntracked (target : Key) : SessionM D Members Unit := do
  if !(← contains target) then persist env target

/-- The targets that `prepare_entity` persists for one relation. -/
def preparedTargets (s : UowState Members) (m : Members) : Relation → List Key
  | .hasMany ⟨index, cascade, _, _⟩ | .morphMany ⟨index, cascade, _, _, _, _⟩ =>
    if cascade.cascadesPersist then (m.collections index).added else []
  | .manyToMany r =>
    if r.cascade.cascadesPersist then
      withoutEquivalent env r s m (m.collections r.index).items (m.collections r.index).baseline
    else []
  | .belongsTo ⟨index, cascade, _, _⟩ | .hasOne ⟨index, cascade, _, _⟩
  | .morphOne ⟨index, cascade, _, _, _, _⟩ =>
    if cascade.cascadesPersist then (m.references index).added.toList else []
  | .morphTo ⟨index, cascade, _, _, _⟩ =>
    if cascade.cascadesPersist then (m.references index).current.toList else []

/-- `RelationChangeProcessor::prepare_entity`. -/
def prepareEntity (relations : List Relation) (root : Key) : SessionM D Members Unit :=
  relations.forM fun relation => do
    let m ← getMembers root
    (preparedTargets env (← get).uow m relation).forM (persistUntracked env)

/-- `RelationChangeProcessor::accept_entity`. -/
def acceptEntity (relations : List Relation) (m : Members) : Members :=
  relations.foldl Members.acceptRelation m

/-! ### Changing a relation -/

/-- The attach hook of a `has_one` or a `has_many`, once it is bound. -/
def attachHook (r : HasTargets) (root target : Key) : SessionM D Members Unit := do
  if (← getMembers root).bound then
    let key ← getColumn root r.localKey
    assignMember target r.targetForeignKey key

/-- `has_many_collection::attach`, for a target that is not null. -/
def attach (r : HasTargets) (root target : Key) : SessionM D Members Unit := do
  attachHook r root target
  assignRuntime root fun m =>
    let values := m.collections r.index
    m.setCollection r.index { values with items := values.items ++ [target] }

/-- `has_many_collection::remove`. -/
def removeTarget (r : HasTargets) (root target : Key) : SessionM D Members Unit :=
  assignRuntime root fun m =>
    let values := m.collections r.index
    m.setCollection r.index { values with items := values.items.erase target }

/-- `relation_reference::set` of a `has_one`, for a target that is not null. -/
def setTarget (r : HasTargets) (root target : Key) : SessionM D Members Unit := do
  attachHook r root target
  assignRuntime root fun m =>
    m.setReference r.index { m.references r.index with current := some target }

/-- `relation_reference::reset` of a `has_one`, which binds no reset hook. -/
def resetTarget (r : HasTargets) (root : Key) : SessionM D Members Unit :=
  assignRuntime root fun m =>
    m.setReference r.index { m.references r.index with current := none }

end RelationChange

/-- The callbacks that `Session::track` and `bind_relation_collections` install for
    the relations of each object. -/
def Env.withRelations (env : Env D Members) (relationsOf : Key → List Relation) : Env D Members :=
  let bound := { env with bindRelations := fun _ (m : Members) => { m with bound := true } }
  { bound with
    prepareRelations := fun key => RelationChange.prepareEntity bound (relationsOf key) key
    flushRelations := fun key => RelationChange.processEntity env (relationsOf key) key
    acceptRelations := fun key => RelationChange.acceptEntity (relationsOf key) }

end MetalOrm.Native
