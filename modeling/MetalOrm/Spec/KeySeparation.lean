import MetalOrm.Native.IdentityMap
import MetalOrm.Native.RelationLoading
import MetalOrm.Native.PivotCollection
import MetalOrm.Native.NestedSet
import MetalOrm.Spec.OffsetPages

/-!
# Keys that are kept apart

Maps and loops that know a key by its `value_key` do what they would do with the key itself: of the
values that are no doubles, no two have the same text.

## Key results

- `run_get`: an identity map, after any calls
- `value_key_separates`: the users of `value_key`
-/

namespace MetalOrm.Native

open ForStd

theorem valueKey_inj (a b : KeyValue) : valueKey a = valueKey b ↔ a = b := by
  constructor
  · intro h
    exact Subtype.ext (valueKey_injective a.2 b.2 h)
  · rintro rfl
    rfl

/-! ## The identity map -/

section

variable {τ ε : Type} [DecidableEq τ]

/-- What is held for a type and a key: the entities, by the keys themselves. -/
abbrev Held (τ ε : Type) := τ → KeyValue → Option ε

/-- A call, on entities that are held by their keys. -/
def Held.apply (held : Held τ ε) : IdentityCall τ ε → Held τ ε
  | .put type pk entity => Function.update held type (Function.update (held type) pk (some entity))
  | .erase type pk => Function.update held type (Function.update (held type) pk none)
  | .clear => fun _ _ => none

/-- The map holds the entities. -/
def IdentityMap.Holds (map : IdentityMap τ ε) (held : Held τ ε) : Prop :=
  ∀ type pk, (map.buckets.lookup type).bind (AList.lookup (valueKey pk.1)) = held type pk

theorem IdentityMap.Holds.apply {map : IdentityMap τ ε} {held : Held τ ε} (h : map.Holds held)
    (call : IdentityCall τ ε) : (map.apply call).Holds (held.apply call) := by
  intro type pk
  cases call with
  | put type' pk' entity =>
    show ((map.buckets.insert type' _).lookup type).bind _ = Function.update held type' _ type pk
    by_cases htype : type = type'
    · subst htype
      rw [AList.lookup_insert, Option.bind_some, Function.update_self]
      by_cases hpk : pk = pk'
      · subst hpk
        rw [AList.lookup_insert, Function.update_self]
      · rw [AList.lookup_insert_ne (mt (valueKey_inj pk pk').mp hpk), Function.update_of_ne hpk,
          ← h type pk]
        cases map.buckets.lookup type <;> rfl
    · rw [AList.lookup_insert_ne htype, Function.update_of_ne htype]
      exact h type pk
  | erase type' pk' =>
    have hheld := h type pk
    show ((map.erase type' pk').buckets.lookup type).bind _ = Function.update held type' _ type pk
    unfold IdentityMap.erase
    by_cases htype : type = type'
    · subst htype
      rw [Function.update_self]
      cases hbucket : map.buckets.lookup type with
      | none =>
        rw [hbucket] at hheld
        show (map.buckets.lookup type).bind _ = _
        rw [hbucket, hheld]
        by_cases hpk : pk = pk'
        · subst hpk
          rw [Function.update_self, ← hheld]
          rfl
        · rw [Function.update_of_ne hpk]
      | some bucket =>
        rw [hbucket] at hheld
        show ((map.buckets.insert type _).lookup type).bind _ = _
        rw [AList.lookup_insert, Option.bind_some]
        by_cases hpk : pk = pk'
        · subst hpk
          rw [AList.lookup_erase, Function.update_self]
        · rw [AList.lookup_erase_ne (mt (valueKey_inj pk pk').mp hpk), Function.update_of_ne hpk]
          exact hheld
    · rw [Function.update_of_ne htype]
      cases map.buckets.lookup type' with
      | none => exact hheld
      | some bucket =>
        show ((map.buckets.insert type' _).lookup type).bind _ = _
        rw [AList.lookup_insert_ne htype]
        exact hheld
  | clear => rfl

/-- An identity map gives what was put for the type and the key, after any calls. -/
theorem run_get (calls : List (IdentityCall τ ε)) (lock : ε → Option ε) (type : τ)
    (pk : KeyValue) :
    (calls.foldl IdentityMap.apply .empty).get lock type pk =
      (calls.foldl Held.apply (fun _ _ => none) type pk).bind lock := by
  have hrun : ∀ (map : IdentityMap τ ε) (held : Held τ ε), map.Holds held →
      (calls.foldl IdentityMap.apply map).Holds (calls.foldl Held.apply held) := by
    induction calls with
    | nil => exact fun _ _ h => h
    | cons call calls ih => exact fun map held h => ih _ _ (h.apply call)
  rw [← hrun .empty (fun _ _ => none) (fun _ _ => rfl) type pk, IdentityMap.get]
  cases (calls.foldl IdentityMap.apply .empty).buckets.lookup type with
  | none => rfl
  | some bucket =>
    rw [Option.bind_some]
    dsimp only
    cases bucket.lookup (valueKey pk.1) <;> rfl

end

/-! ## Rows of roots -/

/-- The loop over the rows of a page keeps the first row of each primary key. -/
theorem distinctRootRows_firstBy {primaryKey : Name} {rows : List Row}
    (h : ∀ row ∈ rows, ∃ pk : KeyValue, row.lookup primaryKey = some pk.1) :
    Loader.distinctRootRows primaryKey rows [] =
      .ok (firstBy (fun row => row.lookup primaryKey) rows) := by
  have hkeys : ∀ row ∈ rows, (row.lookup primaryKey).isSome := by
    intro row hrow
    obtain ⟨pk, hpk⟩ := h row hrow
    rw [hpk]
    rfl
  rw [Paging.distinctRootRows_eq hkeys [], List.map_nil, firstUnseen_of_nil]
  refine congrArg Except.ok (firstBy_congr fun a ha b hb => ?_)
  obtain ⟨pk, hpk⟩ := h a ha
  obtain ⟨pk', hpk'⟩ := h b hb
  rw [Paging.rootText, Paging.rootText, hpk, hpk', Option.map_some, Option.map_some,
    Option.some_inj, Option.some_inj, valueKey_inj, Subtype.ext_iff]

/-! ## Loaders -/

section

open Loading

variable {env : LoadEnv (List UInt8)}

/-- A loader finds a root by its own key. -/
theorem rootsByKey_some (henv : env.valueKey = valueKey) {localKey : Name} {roots : List RootRef}
    (hroots : ∀ root ∈ roots, (env.rootMember root localKey).isDouble = false) {key : KeyValue}
    {index : List UInt8 → Option RootRef} {root : RootRef}
    (h : rootsByKey env localKey roots index (env.valueKey key) = some root) :
    (root ∈ roots ∧ env.rootMember root localKey = key) ∨
      index (env.valueKey key) = some root := by
  induction roots generalizing index with
  | nil => exact .inr h
  | cons first roots ih =>
    obtain ⟨hfirst, hroots⟩ := List.forall_mem_cons.mp hroots
    obtain ⟨hmem, hkey⟩ | hindex := ih hroots h
    · exact .inl ⟨List.mem_cons_of_mem first hmem, hkey⟩
    · by_cases hsame : env.valueKey key = env.valueKey (env.rootMember first localKey)
      · rw [hsame, Function.update_self] at hindex
        cases hindex
        rw [henv] at hsame
        exact .inl ⟨List.mem_cons_self, (valueKey_injective key.2 hfirst hsame).symm⟩
      · rw [Function.update_of_ne hsame] at hindex
        exact .inr hindex

/-- A loader finds a target by its own key. -/
theorem targetsByKey_some (henv : env.valueKey = valueKey) {target : TargetInfo} {targetKey : Name}
    (htargets : ∀ object, (env.targetMember object targetKey).isDouble = false) {key : KeyValue}
    {rows : List LoadedRow} {index : List UInt8 → Option TargetRef}
    {identity : Loading.IdentityMap (List UInt8)} {object : TargetRef}
    (h : targetsByKey env target targetKey rows index identity (env.valueKey key) = some object) :
    env.targetMember object targetKey = key ∨ index (env.valueKey key) = some object := by
  induction rows generalizing index identity with
  | nil => exact .inr h
  | cons row rows ih =>
    rw [targetsByKey] at h
    generalize hydrate env target row.target identity = made at h
    obtain ⟨first, identity⟩ := made
    obtain hkey | hindex := ih h
    · exact .inl hkey
    · by_cases hsame : env.valueKey key = env.valueKey (env.targetMember first targetKey)
      · rw [hsame, Function.update_self] at hindex
        cases hindex
        rw [henv] at hsame
        exact .inl (valueKey_injective key.2 (htargets _) hsame).symm
      · rw [Function.update_of_ne hsame] at hindex
        exact .inr hindex

end

/-! ## Collections -/

section

open RelationChange (missingRelationKey)

variable {env : PivotCollection.Binding (List UInt8)}

/-- The item of a key has that key. -/
theorem findByKey_some (henv : env.valueKey = valueKey) {c : PivotCollection.Collection}
    (hitems : ∀ item ∈ c.items, item.key.isDouble = false) {key : KeyValue} {item : PivotCollection.Target}
    (h : PivotCollection.findByKey env c (env.valueKey key) = some item) : item ∈ c.items ∧ item.key = key := by
  have hmem := List.mem_of_find?_eq_some h
  have hkey : PivotCollection.identityKey env item = some (env.valueKey key) := by
    simpa using List.find?_some h
  refine ⟨hmem, ?_⟩
  rw [PivotCollection.identityKey] at hkey
  split at hkey
  · cases hkey
  · rw [henv, Option.some_inj] at hkey
    exact valueKey_injective (hitems item hmem) key.2 hkey

/-- `sync_by_ids` keeps the items without a key and those whose key is asked for. -/
theorem items_retain (henv : env.valueKey = valueKey) {c : PivotCollection.Collection}
    (hitems : ∀ item ∈ c.items, item.key.isDouble = false) (keys : List KeyValue) :
    (PivotCollection.retain env (keys.map fun key : KeyValue => env.valueKey key) c).items = c.items.filter fun item =>
      missingRelationKey env.target env.relation.targetKey item.key ||
        item.key ∈ keys.map Subtype.val := by
  refine List.filter_congr fun item hitem => ?_
  unfold PivotCollection.identityKey
  cases missingRelationKey env.target env.relation.targetKey item.key with
  | true => rfl
  | false =>
    rw [if_neg Bool.false_ne_true, Option.all_some, Bool.false_or, decide_eq_decide, henv]
    constructor
    · intro h
      obtain ⟨key, hkey, heq⟩ := List.mem_map.mp h
      exact List.mem_map.mpr ⟨key, hkey, valueKey_injective key.2 (hitems item hitem) heq⟩
    · intro h
      obtain ⟨key, hkey, heq⟩ := List.mem_map.mp h
      exact List.mem_map.mpr ⟨key, hkey, congrArg valueKey heq⟩

end

/-! ## Trees -/

/-- The children of a key name it as their parent. -/
theorem mem_childrenUnder_key {less : Tree.RecoverNode → Tree.RecoverNode → Bool}
    (sort : StdSort less) {nodes : List Tree.RecoverNode}
    (hnodes : ∀ node ∈ nodes, node.parentId.isDouble = false) (key : KeyValue)
    (node : Tree.RecoverNode) :
    node ∈ Tree.childrenUnder sort nodes (valueKey key) ↔ node ∈ nodes ∧ node.parentId = key := by
  unfold Tree.childrenUnder
  rw [(sort.perm _).mem_iff, List.mem_filter, beq_iff_eq]
  refine and_congr_right fun hmem => ⟨valueKey_injective (hnodes node hmem) key.2, fun heq => ?_⟩
  rw [heq]

/-! ## All users -/

/-- Two values that are no doubles have the same text just if they are the same, so none of the users
    of the texts takes one key for another: the identity map gives what was put for the key; the rows
    of a page are those of different roots; the loaders find the root and the target that has the key;
    a collection finds and keeps the items of the keys; and a node is a child of the key that it
    names. -/
theorem value_key_separates :
    (∀ a b : KeyValue, valueKey a = valueKey b ↔ a = b) ∧
    (∀ {τ ε : Type} [DecidableEq τ] (calls : List (IdentityCall τ ε)) (lock : ε → Option ε)
      (type : τ) (pk : KeyValue),
      (calls.foldl IdentityMap.apply .empty).get lock type pk =
        (calls.foldl Held.apply (fun _ _ => none) type pk).bind lock) ∧
    (∀ (primaryKey : Name) (rows : List Row),
      (∀ row ∈ rows, ∃ pk : KeyValue, row.lookup primaryKey = some pk.1) →
      Loader.distinctRootRows primaryKey rows [] =
        .ok (firstBy (fun row => row.lookup primaryKey) rows)) ∧
    (∀ env : Loading.LoadEnv (List UInt8), env.valueKey = valueKey →
      (∀ (localKey : Name) (roots : List Loading.RootRef) (key : KeyValue) (root : Loading.RootRef),
        (∀ root ∈ roots, (env.rootMember root localKey).isDouble = false) →
        Loading.rootsByKey env localKey roots (fun _ => none) (env.valueKey key) = some root →
        root ∈ roots ∧ env.rootMember root localKey = key) ∧
      ∀ (target : Loading.TargetInfo) (targetKey : Name) (rows : List Loading.LoadedRow)
        (key : KeyValue) (object : Loading.TargetRef),
        (∀ object, (env.targetMember object targetKey).isDouble = false) →
        Loading.targetsByKey env target targetKey rows (fun _ => none) env.identity
          (env.valueKey key) = some object →
        env.targetMember object targetKey = key) ∧
    (∀ env : PivotCollection.Binding (List UInt8), env.valueKey = valueKey →
      ∀ c : PivotCollection.Collection, (∀ item ∈ c.items, item.key.isDouble = false) →
      (∀ (key : KeyValue) (item : PivotCollection.Target),
        PivotCollection.findByKey env c (env.valueKey key) = some item →
        item ∈ c.items ∧ item.key = key) ∧
      ∀ keys : List KeyValue,
        (PivotCollection.retain env (keys.map fun key : KeyValue => env.valueKey key) c).items =
          c.items.filter fun item =>
            RelationChange.missingRelationKey env.target env.relation.targetKey item.key ||
              item.key ∈ keys.map Subtype.val) ∧
    ∀ (less : Tree.RecoverNode → Tree.RecoverNode → Bool) (sort : StdSort less)
      (nodes : List Tree.RecoverNode), (∀ node ∈ nodes, node.parentId.isDouble = false) →
      ∀ (key : KeyValue) (node : Tree.RecoverNode),
        node ∈ Tree.childrenUnder sort nodes (valueKey key) ↔
          node ∈ nodes ∧ node.parentId = key := by
  refine ⟨valueKey_inj, fun calls lock type pk => run_get calls lock type pk,
    fun primaryKey rows h => distinctRootRows_firstBy h, fun env henv => ⟨?_, ?_⟩,
    fun env henv c hitems => ⟨?_, ?_⟩, fun less sort nodes h => mem_childrenUnder_key sort h⟩
  · intro localKey roots key root hroots h
    obtain hroot | hnone := rootsByKey_some henv hroots h
    · exact hroot
    · cases hnone
  · intro target targetKey rows key object htargets h
    obtain hkey | hnone := targetsByKey_some henv htargets h
    · exact hkey
    · cases hnone
  · exact fun key item h => findByKey_some henv hitems h
  · exact fun keys => items_retain henv hitems keys

end MetalOrm.Native
