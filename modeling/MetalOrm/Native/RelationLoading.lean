import MetalOrm.Native.Value

/-!
# Loading relations

`metal/orm.hpp`: the batch loaders behind `include<>` and `load()`, one for each kind of relation,
over a database that answers their statements. A new object is known by the row that it was made
from, so that two loads can be compared.
-/

namespace MetalOrm.Native.Loading

variable {κ α β γ : Type}

/-- A root object. -/
abbrev RootRef := Nat

/-- The name of a column, a member or a table. -/
abbrev Name := ByteString

/-- A target object: one that the session holds, or a new one. -/
inductive TargetRef where
  | held (n : Nat)
  | made (row : Row)
deriving DecidableEq

/-- The value in a column of a table row. -/
def valueOf (row : Row) (column : Name) : Value := (row.lookup column).getD .null

/-- A row of a result: the columns of the target, those of the pivot, and `__metal_root_key`. -/
structure LoadedRow where
  target : Row
  pivot : Row := ∅
  rootKey : Value := .null
deriving DecidableEq

/-- What reflection gives about a target entity. -/
structure TargetInfo where
  type : Nat
  table : Name
  primaryKey : Name
  primaryKeyGenerated : Bool

/-- `IdentityMap`, by the type and the text of the key. -/
abbrev IdentityMap (κ : Type) := Nat → κ → Option TargetRef

/-- The session and its database: the texts of keys, `=` of the database, the rows of the tables
    in the order in which they are returned, and the members of objects in memory. -/
structure LoadEnv (κ : Type) where
  valueKey : Value → κ
  equal : Value → Value → Bool
  rows : Name → List Row
  identity : IdentityMap κ
  rootMember : RootRef → Name → Value
  targetMember : TargetRef → Name → Value

/-! ## Hydration -/

/-- `has_identity_key`. -/
def hasIdentityKey (target : TargetInfo) (pk : Value) : Bool :=
  pk ≠ .null && !(target.primaryKeyGenerated && pk.isEmptyGenerated)

variable [DecidableEq κ]

/-- `hydrate`. -/
def hydrate (env : LoadEnv κ) (target : TargetInfo) (row : Row) (identity : IdentityMap κ) :
    TargetRef × IdentityMap κ :=
  let pk := valueOf row target.primaryKey
  match identity target.type (env.valueKey pk) with
  | some existing => (existing, identity)
  | none =>
    (.made row,
      if hasIdentityKey target pk then
        Function.update identity target.type
          (Function.update (identity target.type) (env.valueKey pk) (some (.made row)))
      else identity)

/-! ## Statements -/

/-- `IN (…)`. -/
def isIn (env : LoadEnv κ) (v : Value) (keys : List Value) : Bool := keys.any (env.equal v)

/-- `SELECT t.*, t.column AS "__metal_root_key" FROM table t WHERE t.column IN (…)`. -/
def selectByColumn (env : LoadEnv κ) (table column : Name) (keys : List Value) : List LoadedRow :=
  ((env.rows table).filter fun row => isIn env (valueOf row column) keys).map fun row =>
    { target := row, rootKey := valueOf row column }

/-- The same with `AND t.type = ?`. -/
def selectByType (env : LoadEnv κ) (table column typeColumn : Name) (typeValue : Value)
    (keys : List Value) : List LoadedRow :=
  (selectByColumn env table column keys).filter fun row =>
    env.equal (valueOf row.target typeColumn) typeValue

/-- `SELECT t.*, p.*, p.root AS "__metal_root_key" FROM target t JOIN pivot p ON p.target = t.key
    WHERE p.root IN (…)`. -/
def selectThroughPivot (env : LoadEnv κ) (table pivot targetKey pivotTarget pivotRoot : Name)
    (keys : List Value) : List LoadedRow :=
  ((env.rows table).flatMap fun row =>
    ((env.rows pivot).filter fun link =>
      env.equal (valueOf link pivotTarget) (valueOf row targetKey)).map fun link =>
        { target := row, pivot := link, rootKey := valueOf link pivotRoot : LoadedRow }).filter
    fun row => isIn env row.rootKey keys

/-! ## Loaders that group by the key of the root -/

/-- `roots_by_key[value_key(key)] = root`, for each root. -/
def rootsByKey (env : LoadEnv κ) (localKey : Name) :
    List RootRef → (κ → Option RootRef) → κ → Option RootRef
  | [], index => index
  | root :: roots, index =>
    rootsByKey env localKey roots
      (Function.update index (env.valueKey (env.rootMember root localKey)) (some root))

/-- The loop over the result: a row whose key has a root is hydrated and stored for that root. -/
def gather (env : LoadEnv κ) (target : TargetInfo) (store : β → TargetRef → LoadedRow → β)
    (roots : κ → Option RootRef) :
    List LoadedRow → (RootRef → β) → IdentityMap κ → RootRef → β
  | [], loaded, _ => loaded
  | row :: rows, loaded, identity =>
    match roots (env.valueKey row.rootKey) with
    | none => gather env target store roots rows loaded identity
    | some root =>
      let (object, identity) := hydrate env target row.target identity
      gather env target store roots rows
        (Function.update loaded root (store (loaded root) object row)) identity

/-- `for (auto& root : roots) relation._metal_hydrate(std::move(loaded[root]))`. What was moved
    from is `moved`. -/
def hydrateRoots (assign : β → γ) (moved : β → β) :
    List RootRef → (RootRef → β) → (RootRef → γ) → RootRef → γ
  | [], _, relations => relations
  | root :: roots, loaded, relations =>
    hydrateRoots assign moved roots (Function.update loaded root (moved (loaded root)))
      (Function.update relations root (assign (loaded root)))

/-- What the five loaders that group by the key of the root have in common. -/
def loadByKey (env : LoadEnv κ) (target : TargetInfo) (localKey : Name)
    (select : List Value → List LoadedRow) (store : β → TargetRef → LoadedRow → β) (none : β)
    (assign : β → γ) (roots : List RootRef) (relations : RootRef → γ) : RootRef → γ :=
  let rows := select (roots.map fun root => env.rootMember root localKey)
  let loaded := gather env target store (rootsByKey env localKey roots fun _ => .none) rows
    (fun _ => none) env.identity
  hydrateRoots assign (fun _ => none) roots loaded relations

/-- `loaded[root].push_back(hydrate(row))`. -/
def pushTarget (items : List TargetRef) (object : TargetRef) (_ : LoadedRow) : List TargetRef :=
  items ++ [object]

/-- `loaded[root] = hydrate(row)`. -/
def setTarget (_ : Option TargetRef) (object : TargetRef) (_ : LoadedRow) : Option TargetRef :=
  some object

/-- `loaded[root].push_back({hydrate(row), pivot})`. -/
def pushPair (items : List (TargetRef × Row)) (object : TargetRef) (row : LoadedRow) :
    List (TargetRef × Row) :=
  items ++ [(object, row.pivot)]

/-- What the annotation of a relation gives: has_many and has_one. -/
structure HasTraits where
  target : TargetInfo
  targetForeignKey : Name
  localKey : Name

/-- What the annotation of a relation gives: morph_many and morph_one. -/
structure MorphTraits where
  target : TargetInfo
  typeField : Name
  idField : Name
  typeValue : Value
  localKey : Name

/-- What the annotation of a relation gives: many_to_many. -/
structure ManyToManyTraits where
  target : TargetInfo
  pivotTable : Name
  pivotRootForeignKey : Name
  pivotTargetForeignKey : Name
  localKey : Name
  targetKey : Name

/-- `load_has_many_batch`. -/
def loadHasManyBatch (env : LoadEnv κ) (traits : HasTraits) (roots : List RootRef)
    (relations : RootRef → List TargetRef) : RootRef → List TargetRef :=
  loadByKey env traits.target traits.localKey
    (selectByColumn env traits.target.table traits.targetForeignKey) pushTarget [] id roots
    relations

/-- `load_has_one_batch`. -/
def loadHasOneBatch (env : LoadEnv κ) (traits : HasTraits) (roots : List RootRef)
    (relations : RootRef → Option TargetRef) : RootRef → Option TargetRef :=
  loadByKey env traits.target traits.localKey
    (selectByColumn env traits.target.table traits.targetForeignKey) setTarget none id roots
    relations

/-- `load_morph_many_batch`. -/
def loadMorphManyBatch (env : LoadEnv κ) (traits : MorphTraits) (roots : List RootRef)
    (relations : RootRef → List TargetRef) : RootRef → List TargetRef :=
  loadByKey env traits.target traits.localKey
    (selectByType env traits.target.table traits.idField traits.typeField traits.typeValue)
    pushTarget [] id roots relations

/-- `load_morph_one_batch`. -/
def loadMorphOneBatch (env : LoadEnv κ) (traits : MorphTraits) (roots : List RootRef)
    (relations : RootRef → Option TargetRef) : RootRef → Option TargetRef :=
  loadByKey env traits.target traits.localKey
    (selectByType env traits.target.table traits.idField traits.typeField traits.typeValue)
    setTarget none id roots relations

/-- `identity_key_` of a many_to_many collection. -/
def identityKey (env : LoadEnv κ) (traits : ManyToManyTraits) (object : TargetRef) : Option κ :=
  let key := env.targetMember object traits.targetKey
  if key = .null then none
  else if traits.targetKey = traits.target.primaryKey && traits.target.primaryKeyGenerated &&
    key.isEmptyGenerated then none
  else some (env.valueKey key)

/-- The two objects of two rows are one: the identity map gave it out. -/
def samePointer (target : TargetInfo) (left right : TargetRef) : Bool :=
  left = right && match left with
    | .held _ => true
    | .made row => hasIdentityKey target (valueOf row target.primaryKey)

/-- `same_entity`. -/
def sameEntity (env : LoadEnv κ) (traits : ManyToManyTraits) (left right : TargetRef) : Bool :=
  samePointer traits.target left right ||
    match identityKey env traits left, identityKey env traits right with
    | some l, some r => l = r
    | _, _ => false

/-- `_metal_hydrate` of a many_to_many collection: an object that is there already is left out. -/
def hydratePairs (env : LoadEnv κ) (traits : ManyToManyTraits)
    (items : List (TargetRef × Row)) : List (TargetRef × Row) → List (TargetRef × Row)
  | [] => items
  | pair :: pairs =>
    if items.any fun item => sameEntity env traits item.1 pair.1 then
      hydratePairs env traits items pairs
    else hydratePairs env traits (items ++ [pair]) pairs

/-- `load_many_to_many_batch`. -/
def loadManyToManyBatch (env : LoadEnv κ) (traits : ManyToManyTraits) (roots : List RootRef)
    (relations : RootRef → List (TargetRef × Row)) : RootRef → List (TargetRef × Row) :=
  loadByKey env traits.target traits.localKey
    (selectThroughPivot env traits.target.table traits.pivotTable traits.targetKey
      traits.pivotTargetForeignKey traits.pivotRootForeignKey) pushPair []
    (hydratePairs env traits []) roots relations

/-! ## belongs_to -/

/-- What the annotation of a relation gives: belongs_to. -/
structure BelongsToTraits where
  target : TargetInfo
  foreignKey : Name
  targetKey : Name

/-- The loop over the result: `targets_by_key[value_key(target.key)] = target`. -/
def targetsByKey (env : LoadEnv κ) (target : TargetInfo) (targetKey : Name) :
    List LoadedRow → (κ → Option TargetRef) → IdentityMap κ → κ → Option TargetRef
  | [], index, _ => index
  | row :: rows, index, identity =>
    let (object, identity) := hydrate env target row.target identity
    targetsByKey env target targetKey rows
      (Function.update index (env.valueKey (env.targetMember object targetKey)) (some object))
      identity

/-- The loop over the roots. -/
def assignTargets (env : LoadEnv κ) (foreignKey : Name) (targets : κ → Option TargetRef) :
    List RootRef → (RootRef → Option TargetRef) → RootRef → Option TargetRef
  | [], relations => relations
  | root :: roots, relations =>
    let raw := env.rootMember root foreignKey
    assignTargets env foreignKey targets roots
      (Function.update relations root (if raw = .null then none else targets (env.valueKey raw)))

/-- `load_belongs_to_batch`. -/
def loadBelongsToBatch (env : LoadEnv κ) (traits : BelongsToTraits) (roots : List RootRef)
    (relations : RootRef → Option TargetRef) : RootRef → Option TargetRef :=
  let keys := (roots.map fun root => env.rootMember root traits.foreignKey).filter (· ≠ .null)
  let targets := if keys.isEmpty then fun _ => none
    else targetsByKey env traits.target traits.targetKey
      (selectByColumn env traits.target.table traits.targetKey keys) (fun _ => none) env.identity
  assignTargets env traits.foreignKey targets roots relations

/-! ## morph_to -/

/-- `morph_target_traits`. -/
structure MorphCase where
  target : TargetInfo
  typeValue : Value
  targetKey : Name

/-- What the annotation of a relation gives: morph_to. -/
structure MorphToTraits where
  typeField : Name
  idField : Name
  cases : List MorphCase

/-- The `std::variant` of a morph_to reference: nothing, or a pointer to the target of a case. -/
abbrev Variant := Option (Nat × Option TargetRef)

/-- `std::move` from a variant leaves the pointer empty. -/
def movedVariant (v : Variant) : Variant := v.map fun p => (p.1, none)

/-- A root names a target of this case. -/
def namesCase (env : LoadEnv κ) (traits : MorphToTraits) (case_ : MorphCase) (root : RootRef) :
    Bool :=
  env.rootMember root traits.typeField ≠ .null && env.rootMember root traits.idField ≠ .null &&
    env.rootMember root traits.typeField = case_.typeValue

/-- The first loop of `load_case`: the keys, one for each text. -/
def caseKeys (env : LoadEnv κ) (traits : MorphToTraits) : List RootRef → List κ → List Value
  | [], _ => []
  | root :: roots, seen =>
    let id := env.rootMember root traits.idField
    if env.valueKey id ∈ seen then caseKeys env traits roots seen
    else id :: caseKeys env traits roots (env.valueKey id :: seen)

/-- The loop of `load_case` over the result: every root of the key gets the target. -/
def gatherCase (env : LoadEnv κ) (traits : MorphToTraits) (index : Nat) (case_ : MorphCase)
    (named : List RootRef) :
    List LoadedRow → (RootRef → Variant) × IdentityMap κ → (RootRef → Variant) × IdentityMap κ
  | [], state => state
  | row :: rows, (loaded, identity) =>
    let (object, identity) := hydrate env case_.target row.target identity
    let key := env.valueKey (env.targetMember object case_.targetKey)
    gatherCase env traits index case_ named rows
      (fun root =>
        if root ∈ named ∧ env.valueKey (env.rootMember root traits.idField) = key then
          some (index, some object)
        else loaded root, identity)

/-- `load_case`. -/
def loadCase (env : LoadEnv κ) (traits : MorphToTraits) (roots : List RootRef) (index : Nat)
    (case_ : MorphCase) (state : (RootRef → Variant) × IdentityMap κ) :
    (RootRef → Variant) × IdentityMap κ :=
  let named := roots.filter (namesCase env traits case_)
  gatherCase env traits index case_ named
    (selectByColumn env case_.target.table case_.targetKey (caseKeys env traits named [])) state

/-- The cases, one after the other. -/
def loadCases (env : LoadEnv κ) (traits : MorphToTraits) (roots : List RootRef) :
    Nat → List MorphCase → (RootRef → Variant) × IdentityMap κ →
      (RootRef → Variant) × IdentityMap κ
  | _, [], state => state
  | index, case_ :: cases, state =>
    loadCases env traits roots (index + 1) cases (loadCase env traits roots index case_ state)

/-- `load_morph_to_batch`. -/
def loadMorphToBatch (env : LoadEnv κ) (traits : MorphToTraits) (roots : List RootRef)
    (relations : RootRef → Variant) : RootRef → Variant :=
  hydrateRoots id movedVariant roots
    (loadCases env traits roots 0 traits.cases (fun _ => none, env.identity)).1 relations

/-! ## `load()` -/

/-- `load()`: the loader runs with this root alone, unless the relation is loaded. -/
def load (loader : List RootRef → (RootRef → γ) → RootRef → γ) (loaded : RootRef → Bool)
    (relations : RootRef → γ) (root : RootRef) : γ :=
  if loaded root then relations root else loader [root] relations root

end MetalOrm.Native.Loading
