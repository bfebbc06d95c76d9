import MetalOrm.Native.Hydration
import MetalOrm.Native.PivotCollection

/-!
# Graph persistence

`metal/graph_persistence.hpp`: payloads, `materialize`, and `apply_collection` for a `has_many` or
a `many_to_many` collection that is loaded.

The relation actions of a payload are closures that get the session, in the source as here. The
class that a template argument `Target` names is that of a type, or of the object at hand.
-/

namespace MetalOrm.Native.Graph

open ForStd ForStd.Prog RelationChange SessionM
open Session (persist flush track)

/-- `GraphOptions`. -/
structure GraphOptions where
  pruneMissing : Bool := false
  transactional : Bool := true
  flush : Bool := false
deriving DecidableEq

/-- `relation_action`. -/
abbrev RelationAction (D : Type) := Key → GraphOptions → SessionM D Members Unit

/-- `graph_payload`. A scalar action assigns a value to a member. -/
structure GraphPayload (D : Type) where
  type : Nat
  primaryKey : Option Value := none
  scalars : List (Name × Value) := []
  pre : List (RelationAction D) := []
  post : List (RelationAction D) := []

/-- The content of `graph_collection_input::item`, of which `add` and `add_id` set one. -/
inductive GraphContent (D : Type) where
  | payload (payload : GraphPayload D)
  | entity (entity : Key)
  | key (key : Value)

/-- `graph_collection_input::item`. -/
structure GraphItem (D : Type) where
  content : GraphContent D
  pivot : Option PivotPatch := none

/-- A relation whose member is a collection. -/
inductive CollectionRelation where
  | hasMany (r : HasTargets)
  | manyToMany (r : ManyToMany)

/-- The collection of one root, and the type of its targets. -/
structure Site where
  root : Key
  target : Nat
  relation : CollectionRelation

/-- The index of the collection among the relation members of the root. -/
def Site.index (site : Site) : Nat :=
  match site.relation with
  | .hasMany r => r.index
  | .manyToMany r => r.index

variable {D Q : Type}

namespace GraphPayload

/-- `graph_payload::set`, in a class with this primary key. -/
def set (payload : GraphPayload D) (primaryKey member : Name) (value : Value) : GraphPayload D :=
  { payload with
    scalars := payload.scalars ++ [(member, value)]
    primaryKey := if member = primaryKey then some value else payload.primaryKey }

/-- `has_post_relations`. -/
def hasPostRelations (payload : GraphPayload D) : Bool := !payload.post.isEmpty

/-- `apply_scalars`. -/
def applyScalars (payload : GraphPayload D) (entity : Key) : SessionM D Members Unit :=
  payload.scalars.forM fun (member, value) => setColumn entity member value

/-- `apply_pre`. -/
def applyPre (payload : GraphPayload D) (entity : Key) (options : GraphOptions) :
    SessionM D Members Unit :=
  payload.pre.forM fun action => action entity options

/-- `apply_post`. -/
def applyPost (payload : GraphPayload D) (entity : Key) (options : GraphOptions) :
    SessionM D Members Unit :=
  payload.post.forM fun action => action entity options

end GraphPayload

/-! ## Keys -/

/-- The key of an object as a text, unless `key_missing`. -/
def keyText (env : Env D Members) (name : Name) (s : UowState Members) (object : Key) :
    Option (List UInt8) :=
  let key := (s.heap object).columns name
  if missingRelationKey (env.classOf object) name key then none else some (env.valueKey key)

variable (loader : Loader D Members Q)

/-- `relation_info::target_key`. -/
def Site.keyMember (site : Site) : Name :=
  match site.relation with
  | .hasMany _ => (loader.classes site.target).primaryKey
  | .manyToMany r => r.targetKey

/-- `from_value<K>(key)`, for the type `K` of a member. -/
def convertKey (type : Nat) (member : Name) (key : Value) : SessionM D Members Value :=
  Loader.orThrow ((loader.members type member).fromValue key)

/-- `find_by_key`, for the primary key. -/
def findByKey (type : Nat) (key : Value) : SessionM D Members (Option Key) := do
  let typed ← convertKey loader type (loader.classes type).primaryKey key
  return (← loader.find type typed).head?.map LoadedObject.object

/-- `std::make_shared<T>()`, and the assignment of a key to one of its members. -/
def makeKeyed (type : Nat) (member : Name) (key : Value) : SessionM D Members Key := do
  let object ← loader.construct type ∅
  setColumn object member (← convertKey loader type member key)
  return object

/-- `stub_by_key`, for the primary key of a target that is to be tracked. -/
def stubByKey (type : Nat) (key : Value) : SessionM D Members Key := do
  match ← findByKey loader type key with
  | some found => return found
  | none =>
    let target ← makeKeyed loader type (loader.classes type).primaryKey key
    persist loader.env target
    return target

/-! ## Payloads -/

/-- The object that `materialize` starts with. -/
def payloadEntity (payload : GraphPayload D) : SessionM D Members Key := do
  match payload.primaryKey with
  | none => loader.construct payload.type ∅
  | some key =>
    match ← findByKey loader payload.type key with
    | some found => return found
    | none => makeKeyed loader payload.type (loader.classes payload.type).primaryKey key

/-- `needs_root_key`. -/
def needsRootKey (payload : GraphPayload D) (entity : Key) : SessionM D Members Bool := do
  match (← get).uow.tracked entity with
  | none => return false
  | some tracked => return tracked.status = .new &&
      (loader.classes payload.type).generatedPk && payload.hasPostRelations

/-- `materialize`. -/
def materialize (payload : GraphPayload D) (options : GraphOptions) : SessionM D Members Key := do
  let entity ← payloadEntity loader payload
  payload.applyScalars entity
  payload.applyPre entity options
  if !(← contains entity) then persist loader.env entity
  -- the flush gives keys to all entities that are `New`, not to this one only
  if ← needsRootKey loader payload entity then flush loader.env
  payload.applyPost entity options
  return entity

/-! ## many_to_many collections -/

/-- `apply_patch`. -/
def applyPatch (r : ManyToMany) (root value : Key) (patch : PivotPatch) :
    SessionM D Members Unit :=
  if patch.isEmpty then return
  else
    assignRuntime root fun m =>
      let merged := patch.foldl PivotCollection.Patch.setEntry
        ((m.pivotPatches r.index value).getD [])
      let patches := Function.update (m.pivotPatches r.index) value (some merged)
      { m with pivotPatches := Function.update m.pivotPatches r.index patches }

/-- `attach_impl`. -/
def attachImpl (r : ManyToMany) (root value : Key) (patch : PivotPatch) :
    SessionM D Members Unit := do
  let s := (← get).uow
  let m ← getMembers root
  match (m.collections r.index).items.find? fun item => sameEntity loader.env r s m item value with
  | some existing => applyPatch r root existing patch
  | none =>
    applyPatch r root value patch
    assignRuntime root fun m =>
      let values := m.collections r.index
      m.setCollection r.index { values with items := values.items ++ [value] }

/-- `id_factory_`. -/
def idFactory (r : ManyToMany) (type : Nat) (key : Value) : SessionM D Members Key := do
  if r.targetKey = (loader.classes type).primaryKey then
    match ← loader.identityGet type key with
    | some existing => return existing
    | none =>
      let target ← makeKeyed loader type r.targetKey key
      track loader.env target .managed
      return target
  else
    makeKeyed loader type r.targetKey key

/-- The item whose identity is the text of a key. -/
def identityItem (r : ManyToMany) (root : Key) (key : Value) :
    SessionM D Members (Option Key) := do
  let s := (← get).uow
  let m ← getMembers root
  throwIf (!m.bound)
    "MetalORM: ID-based collection operation requires a Session-bound relation"
  return (m.collections r.index).items.find? fun item =>
    identityKey loader.env r s item == some (loader.env.valueKey key)

/-- `attach_id_value`. -/
def attachIdValue (r : ManyToMany) (root : Key) (type : Nat) (key : Value) (patch : PivotPatch) :
    SessionM D Members Unit := do
  match ← identityItem loader r root key with
  | some item => applyPatch r root item patch
  | none =>
    let entity ← idFactory loader r type key
    attachImpl loader r root entity patch

/-- `many_to_many_collection::detach`, of an entity. -/
def detach (r : ManyToMany) (root value : Key) : SessionM D Members Unit := do
  let s := (← get).uow
  assignRuntime root fun m =>
    let values := m.collections r.index
    m.setCollection r.index { values with
      items := values.items.eraseP fun item => sameEntity loader.env r s m item value }

/-! ## apply_collection -/

variable (site : Site)

/-- The target of an item, but for a bare key of a `many_to_many`. -/
def itemTarget (options : GraphOptions) : GraphContent D → SessionM D Members Key
  | .payload payload => materialize loader payload options
  | .entity entity => do
    if !(← contains entity) then persist loader.env entity
    return entity
  | .key key => stubByKey loader site.target key

/-- The loop that looks for a target among the items of a `has_many`. -/
def present (s : UowState Members) (items : List Key) (target : Key) : Bool :=
  let key := keyText loader.env (site.keyMember loader) s
  items.any fun current =>
    current == target || ((key current).isSome && key current == key target)

/-- Put a target into the collection. -/
def attachItem (target : Key) (pivot : Option PivotPatch) : SessionM D Members Unit := do
  match site.relation with
  | .hasMany r =>
    let s := (← get).uow
    let m ← getMembers site.root
    if !present loader site s (m.collections r.index).items target then
      attach r site.root target
  | .manyToMany r => attachImpl loader r site.root target (pivot.getD [])

/-- The body of the loop of `apply_collection`: the key that it remembers. -/
def applyItem (options : GraphOptions) (item : GraphItem D) :
    SessionM D Members (Option (List UInt8)) := do
  match item.content, site.relation with
  | .key key, .manyToMany r =>
    let typed ← convertKey loader site.target r.targetKey key
    attachIdValue loader r site.root site.target typed (item.pivot.getD [])
    return some (loader.env.valueKey key)
  | content, _ =>
    let target ← itemTarget loader site options content
    attachItem loader site target item.pivot
    return keyText loader.env (site.keyMember loader) (← get).uow target

/-- The loop of `apply_collection`: `seen` in the end. -/
def applyItems (options : GraphOptions) : List (GraphItem D) → SessionM D Members (List (List UInt8))
  | [] => return []
  | item :: items => do
    let remembered ← applyItem loader site options item
    let seen ← applyItems options items
    return remembered.toList ++ seen

/-- The body of the loop that prunes. -/
def pruneTarget (seen : List (List UInt8)) (target : Key) : SessionM D Members Unit := do
  match keyText loader.env (site.keyMember loader) (← get).uow target with
  | none => return
  | some key =>
    if key ∈ seen then return
    else
      match site.relation with
      | .hasMany r => removeTarget r site.root target
      | .manyToMany r => detach loader r site.root target

/-- `apply_collection`, of a collection that is loaded. -/
def applyCollection (items : List (GraphItem D)) (options : GraphOptions) :
    SessionM D Members Unit := do
  let seen ← applyItems loader site options items
  if options.pruneMissing then
    ((← getMembers site.root).collections site.index).items.forM (pruneTarget loader site seen)

end MetalOrm.Native.Graph
