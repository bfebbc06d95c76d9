import MetalOrm.ForStd.Events
import MetalOrm.Native.RedisCache

/-!
# Entries are reached through their tags

As long as an entry that was registered under a tag is in the backend, the set of the tag is
there and has its key, unless a prefix invalidation took the set and not the entry.

## Key results

- `KeySpace.next`: every call keeps sets under tag keys and entries under user keys
- `Tagged.next`: what keeps an entry in the set of its tag
- `redis_tag_reachability`: tag invalidation removes the entry
-/

namespace MetalOrm.Native

open ForStd

namespace RedisStore

variable {store : RedisStore} {key other : List UInt8}

@[simp] theorem lookup_deleteKey :
    (store.deleteKey other).entries.lookup key =
      if key = other then none else store.entries.lookup key := by
  unfold deleteKey
  split
  · rename_i h
    rw [h, AList.lookup_erase]
  · rename_i h
    exact AList.lookup_erase_ne h

@[simp] theorem lookup_deleteKeys (keys : List (List UInt8)) :
    (store.deleteKeys keys).entries.lookup key =
      if key ∈ keys then none else store.entries.lookup key := by
  induction keys generalizing store with
  | nil => rfl
  | cons first keys ih =>
    show ((store.deleteKey first).deleteKeys keys).entries.lookup key = _
    rw [ih, lookup_deleteKey]
    by_cases hfirst : key = first
    · simp [hfirst]
    · simp [hfirst]

theorem lookup_set (payload : List UInt8) :
    (store.set other payload).entries.lookup key =
      if key = other then some (.string payload) else store.entries.lookup key := by
  unfold set
  split
  · rename_i h
    rw [h, AList.lookup_insert]
  · rename_i h
    exact AList.lookup_insert_ne h

theorem mem_keysWithPrefix {text : List UInt8} :
    key ∈ store.keysWithPrefix text ↔ store.entries.lookup key ≠ none ∧ text <+: key := by
  unfold keysWithPrefix
  rw [List.mem_filter, List.isPrefixOf_iff_prefix, ← AList.mem_keys, ← AList.lookup_isSome,
    Option.isSome_iff_ne_none]

theorem lookup_addSetMembers_ne (h : key ≠ other) (members : List CacheKey) :
    (store.addSetMembers other members).entries.lookup key = store.entries.lookup key := by
  unfold addSetMembers
  split
  · exact AList.lookup_insert_ne h
  · exact AList.lookup_insert_ne h
  · rfl

end RedisStore

namespace RedisCacheAdapter

variable {options : RedisCacheAdapterOptions} {store : RedisStore}

theorem tagPrefix_tagKey (tag : Tag) : options.tagPrefix <+: tagKey options tag :=
  List.prefix_append _ _

theorem UserKey.ne_tagKey (key : UserKey options) (tag : Tag) : key.1 ≠ tagKey options tag :=
  fun h => key.2 (h ▸ tagPrefix_tagKey tag)

/-! ## The key space -/

/-- Under keys with the tag prefix there are sets of user keys, and nothing else is a set. -/
structure KeySpace (options : RedisCacheAdapterOptions) (store : RedisStore) : Prop where
  tags : ∀ key, options.tagPrefix <+: key → ∀ value, store.entries.lookup key = some value →
    ∃ members, value = .set members ∧ ∀ member ∈ members, ¬ options.tagPrefix <+: member
  users : ∀ key, ¬ options.tagPrefix <+: key → ∀ members,
    store.entries.lookup key ≠ some (.set members)

theorem keySpace_empty : KeySpace options RedisStore.empty where
  tags _ _ _ h := nomatch h
  users _ _ _ h := nomatch h

namespace KeySpace

theorem deleteKey (h : KeySpace options store) (key : List UInt8) :
    KeySpace options (store.deleteKey key) where
  tags other hother value hvalue := by
    rw [RedisStore.lookup_deleteKey] at hvalue
    split at hvalue
    · cases hvalue
    · exact h.tags other hother value hvalue
  users other hother members hvalue := by
    rw [RedisStore.lookup_deleteKey] at hvalue
    split at hvalue
    · cases hvalue
    · exact h.users other hother members hvalue

theorem deleteKeys (h : KeySpace options store) (keys : List (List UInt8)) :
    KeySpace options (store.deleteKeys keys) := by
  induction keys generalizing store with
  | nil => exact h
  | cons key keys ih => exact ih (h.deleteKey key)

theorem set (h : KeySpace options store) (key : UserKey options) (payload : List UInt8) :
    KeySpace options (store.set key payload) where
  tags other hother value hvalue := by
    rw [RedisStore.lookup_set] at hvalue
    split at hvalue
    · rename_i hkey
      exact absurd (hkey ▸ hother) key.2
    · exact h.tags other hother value hvalue
  users other hother members hvalue := by
    rw [RedisStore.lookup_set] at hvalue
    split at hvalue
    · cases hvalue
    · exact h.users other hother members hvalue

/-- What registering a key under a tag does to the set of the tag. -/
theorem lookup_addSetMembers (h : KeySpace options store) (key : UserKey options) (tag : Tag) :
    ∃ members, (store.addSetMembers (tagKey options tag) [key.1]).entries.lookup
        (tagKey options tag) = some (.set members) ∧
      ∀ member, member ∈ members ↔
        member = key.1 ∨ member ∈ store.setMembers (tagKey options tag) := by
  unfold RedisStore.addSetMembers RedisStore.setMembers
  cases hlookup : store.entries.lookup (tagKey options tag) with
  | none => exact ⟨_, AList.lookup_insert _, fun member => by simp⟩
  | some value =>
    obtain ⟨members, rfl, -⟩ := h.tags _ (tagPrefix_tagKey tag) value hlookup
    exact ⟨_, AList.lookup_insert _, fun member => by simp⟩

theorem registerTag (h : KeySpace options store) (key : UserKey options) (tag : Tag) :
    KeySpace options (registerTag options key store tag) := by
  unfold RedisCacheAdapter.registerTag
  split
  · exact h
  · constructor
    · intro other hother value hvalue
      by_cases hsame : other = tagKey options tag
      · subst hsame
        obtain ⟨members, hmembers, hiff⟩ := h.lookup_addSetMembers key tag
        rw [hmembers] at hvalue
        refine ⟨members, (Option.some.inj hvalue).symm, fun member hmember => ?_⟩
        obtain rfl | hold := (hiff member).mp hmember
        · exact key.2
        · unfold RedisStore.setMembers at hold
          split at hold
          · rename_i old hlookup
            obtain ⟨_, hset, huser⟩ := h.tags _ (tagPrefix_tagKey tag) _ hlookup
            cases hset
            exact huser member hold
          · cases hold
      · rw [RedisStore.lookup_addSetMembers_ne hsame] at hvalue
        exact h.tags other hother value hvalue
    · intro other hother members
      have hne : other ≠ tagKey options tag := fun heq => hother (heq ▸ tagPrefix_tagKey tag)
      rw [RedisStore.lookup_addSetMembers_ne hne]
      exact h.users other hother members

theorem registerTags (h : KeySpace options store) (key : UserKey options) (tags : List Tag) :
    KeySpace options (registerTags options store key tags) := by
  unfold RedisCacheAdapter.registerTags
  induction tags generalizing store with
  | nil => exact h
  | cons tag tags ih => exact ih (h.registerTag key tag)

/-- Every call keeps the key space in order. -/
theorem next (h : KeySpace options store) (call : Call options) :
    KeySpace options (next options store call) := by
  cases call with
  | set key value => exact h.set key _
  | registerTags key tags => exact h.registerTags key tags
  | get key =>
    show KeySpace options (RedisCacheAdapter.get store key).2
    unfold RedisCacheAdapter.get
    split
    · exact h
    · split
      · exact h
      · exact h.deleteKey key
  | deleteKey key => exact h.deleteKey key
  | invalidateTags tags => exact (h.deleteKeys _).deleteKeys _
  | invalidatePrefix text => exact h.deleteKeys _
  | expire key => exact h.deleteKey key

end KeySpace

/-! ## The set of a tag -/

/-- The backend has the entry. -/
def Present (store : RedisStore) (key : CacheKey) : Prop := store.entries.lookup key ≠ none

/-- The key is in the set of the tag. -/
def Tagged (options : RedisCacheAdapterOptions) (store : RedisStore) (key : CacheKey) (tag : Tag) :
    Prop :=
  key ∈ store.setMembers (tagKey options tag)

/-- The call does not take the set of the tag and leave the entry: a prefix of the tag key is one
    of the entry's key too. -/
def SparesTag (options : RedisCacheAdapterOptions) (key : CacheKey) (tag : Tag) :
    Call options → Prop
  | .invalidatePrefix text => text <+: tagKey options tag → text <+: key
  | _ => True

theorem Tagged.congr {store' : RedisStore} {key : CacheKey} {tag : Tag}
    (h : Tagged options store key tag)
    (hsame : store'.entries.lookup (tagKey options tag) =
      store.entries.lookup (tagKey options tag)) : Tagged options store' key tag := by
  unfold Tagged RedisStore.setMembers at h ⊢
  rw [hsame]
  exact h

theorem Tagged.registerTag (hspace : KeySpace options store) {key : CacheKey} {tag : Tag}
    (h : Tagged options store key tag) (other : UserKey options) (tag' : Tag) :
    Tagged options (registerTag options other store tag') key tag := by
  unfold RedisCacheAdapter.registerTag
  split
  · exact h
  · by_cases hsame : tag = tag'
    · subst hsame
      obtain ⟨members, hmembers, hiff⟩ := hspace.lookup_addSetMembers other tag
      unfold Tagged RedisStore.setMembers
      rw [hmembers]
      exact (hiff key).mpr (.inr h)
    · apply h.congr
      apply RedisStore.lookup_addSetMembers_ne
      exact fun heq => hsame (List.append_cancel_left heq)

theorem Tagged.registerTags (hspace : KeySpace options store) {key : CacheKey} {tag : Tag}
    (h : Tagged options store key tag) (other : UserKey options) (tags : List Tag) :
    Tagged options (registerTags options store other tags) key tag := by
  unfold RedisCacheAdapter.registerTags
  induction tags generalizing store with
  | nil => exact h
  | cons tag' tags ih => exact ih (hspace.registerTag other tag') (h.registerTag hspace other tag')

/-- Registering a key under tags puts it into the sets of those that are not empty. -/
theorem tagged_registerTags (hspace : KeySpace options store) (key : UserKey options) {tag : Tag}
    {tags : List Tag} (htag : tag ∈ tags) (hne : tag ≠ []) :
    Tagged options (registerTags options store key tags) key tag := by
  induction tags generalizing store with
  | nil => cases htag
  | cons first tags ih =>
    show Tagged options (registerTags options (registerTag options key store first) key tags) key tag
    obtain rfl | htag := List.mem_cons.mp htag
    · refine Tagged.registerTags (hspace.registerTag key tag) ?_ key tags
      unfold registerTag
      rw [if_neg (by simpa using hne)]
      obtain ⟨members, hmembers, hiff⟩ := hspace.lookup_addSetMembers key tag
      unfold Tagged RedisStore.setMembers
      rw [hmembers]
      exact (hiff key).mpr (.inl rfl)
    · exact ih (hspace.registerTag key first) htag

/-- What keeps an entry in the set of its tag: that it stays, and that no prefix invalidation
    takes the set alone. -/
theorem Tagged.next (hspace : KeySpace options store) {key : UserKey options} {tag : Tag}
    (h : Tagged options store key tag) {call : Call options}
    (hpresent : Present (next options store call) key) (hspares : SparesTag options key tag call) :
    Tagged options (next options store call) key tag := by
  -- a user key that is deleted is not the key of the set
  have hdelete : ∀ other : UserKey options,
      Tagged options (store.deleteKey other) key tag := by
    intro other
    apply h.congr
    rw [RedisStore.lookup_deleteKey, if_neg (other.ne_tagKey tag).symm]
  cases call with
  | set other value =>
    apply h.congr
    show (store.set other _).entries.lookup _ = _
    rw [RedisStore.lookup_set, if_neg (other.ne_tagKey tag).symm]
  | registerTags other tags => exact h.registerTags hspace other tags
  | get other =>
    show Tagged options (get store other).2 key tag
    unfold get
    split
    · exact h
    · split
      · exact h
      · exact hdelete other
  | deleteKey other => exact hdelete other
  | expire other => exact hdelete other
  | invalidateTags tags =>
    unfold Present RedisCacheAdapter.next invalidateTags at hpresent
    rw [RedisStore.lookup_deleteKeys] at hpresent
    have hkept : key.1 ∉ (((tags.filter (!·.isEmpty)).map (tagKey options)).flatMap
        store.setMembers).dedup := by
      intro hmem
      rw [if_pos hmem] at hpresent
      exact hpresent rfl
    rw [List.mem_dedup, List.mem_flatMap] at hkept
    apply h.congr
    show ((store.deleteKeys _).deleteKeys _).entries.lookup _ = _
    rw [RedisStore.lookup_deleteKeys, RedisStore.lookup_deleteKeys, if_neg, if_neg]
    · exact fun hmem => hkept ⟨_, hmem, h⟩
    · intro hmem
      rw [List.mem_dedup, List.mem_flatMap] at hmem
      obtain ⟨tagged, htagged, hmember⟩ := hmem
      obtain ⟨other, _, rfl⟩ := List.mem_map.mp htagged
      unfold RedisStore.setMembers at hmember
      split at hmember
      · rename_i members hlookup
        obtain ⟨_, hset, huser⟩ := hspace.tags _ (tagPrefix_tagKey other) _ hlookup
        cases hset
        exact huser _ hmember (tagPrefix_tagKey tag)
      · cases hmember
  | invalidatePrefix text =>
    unfold Present RedisCacheAdapter.next invalidatePrefix at hpresent
    rw [RedisStore.lookup_deleteKeys] at hpresent
    apply h.congr
    show (store.deleteKeys _).entries.lookup _ = _
    rw [RedisStore.lookup_deleteKeys, if_neg]
    intro hmem
    have htext := hspares (RedisStore.mem_keysWithPrefix.mp hmem).2
    split at hpresent
    · exact hpresent rfl
    · rename_i hkept
      exact hkept (RedisStore.mem_keysWithPrefix.mpr ⟨hpresent, htext⟩)

/-- Invalidating a tag removes what is in its set. -/
theorem Tagged.invalidateTags {key : CacheKey} {tag : Tag} (h : Tagged options store key tag)
    (hne : tag ≠ []) {tags : List Tag} (htag : tag ∈ tags) :
    (invalidateTags options store tags).entries.lookup key = none := by
  unfold RedisCacheAdapter.invalidateTags
  dsimp only
  rw [RedisStore.lookup_deleteKeys, if_pos]
  rw [List.mem_dedup, List.mem_flatMap]
  refine ⟨tagKey options tag, List.mem_map_of_mem ?_, h⟩
  rw [List.mem_filter]
  exact ⟨htag, by simpa using hne⟩

/-- The backend after some calls. -/
abbrev run (options : RedisCacheAdapterOptions) (store : RedisStore) (calls : List (Call options)) :
    RedisStore :=
  runEvents (next options) store calls

/-- An entry is registered under a tag that is not empty. As long as it is not removed after that,
    and no prefix invalidation takes the set of the tag without the entry, invalidating the tag
    removes the entry. -/
theorem redis_tag_reachability {before after : List (Call options)} {key : UserKey options}
    {tags tags' : List Tag} {tag : Tag} (hregister : tag ∈ tags) (hne : tag ≠ [])
    (hafter : AlongEvents (next options)
      (fun store call => Present (next options store call) key ∧ SparesTag options key tag call)
      (run options RedisStore.empty (before ++ [.registerTags key tags])) after)
    (hinvalidate : tag ∈ tags') :
    (get (run options RedisStore.empty
      (before ++ [.registerTags key tags] ++ after ++ [.invalidateTags tags'])) key).1 = none := by
  have hspace : KeySpace options (run options RedisStore.empty before) :=
    runEvents_invariant _ (fun store call _ h => h.next call) keySpace_empty
  have hinv : KeySpace options (run options RedisStore.empty
        (before ++ [.registerTags key tags] ++ after)) ∧
      Tagged options (run options RedisStore.empty (before ++ [.registerTags key tags] ++ after))
        key tag := by
    unfold run at hafter ⊢
    rw [runEvents_append _ _ (before ++ _)]
    refine hafter.invariant (I := fun store => KeySpace options store ∧ Tagged options store key tag)
      (fun store call h hcall => ⟨h.1.next call, h.2.next h.1 hcall.1 hcall.2⟩) ?_
    rw [runEvents_append]
    exact ⟨hspace.next (.registerTags key tags), tagged_registerTags hspace key hregister hne⟩
  have hremoved := hinv.2.invalidateTags hne hinvalidate
  unfold run
  rw [runEvents_append]
  show (get (invalidateTags options (run options RedisStore.empty _) tags') key).1 = none
  unfold get RedisStore.get
  rw [hremoved]

/-! ### The list of users -/

/-- The key `users:1`. -/
def userOne : UserKey {} := ⟨ByteString.ascii "users:1", by decide⟩

/-- The tag `list`. -/
def listTag : Tag := ByteString.ascii "list"

/-- An entry without rows. -/
def noRows : QueryResult where
  rows := []

/-- The entry is set, registered and read, and then the tag is invalidated. -/
theorem redis_tag_reachability_read :
    (get (run {} RedisStore.empty
      ([.set userOne noRows] ++ [.registerTags userOne [listTag]] ++ [.get userOne] ++
        [.invalidateTags [listTag]])) userOne).1 = none := by
  have hpresent : Present (next {} (run {} RedisStore.empty
      ([.set userOne noRows] ++ [.registerTags userOne [listTag]])) (.get userOne)) userOne := by
    unfold Present
    decide +kernel
  exact @redis_tag_reachability {} [.set userOne noRows] [.get userOne] userOne [listTag] [listTag]
    listTag List.mem_cons_self (by decide) ⟨⟨hpresent, trivial⟩, trivial⟩ List.mem_cons_self

/-- A prefix of the tag prefix is invalidated between registering the entry and invalidating
    its tag: the entry is still found. -/
theorem not_redis_tag_reachability :
    Present (run {} RedisStore.empty [.set userOne noRows, .registerTags userOne [listTag],
      .invalidatePrefix (ByteString.ascii "t")]) userOne ∧
    ((get (run {} RedisStore.empty [.set userOne noRows, .registerTags userOne [listTag],
      .invalidatePrefix (ByteString.ascii "t"), .invalidateTags [listTag]]) userOne).1).isSome =
        true := by
  constructor
  · unfold Present
    decide +kernel
  · decide +kernel

end RedisCacheAdapter

end MetalOrm.Native
