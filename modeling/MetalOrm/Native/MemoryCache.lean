import MetalOrm.Native.Value

/-!
# The cache in memory

`metal/cache_tag_index.hpp` (`TagIndex`) and `metal/cache_memory.hpp`
(`MemoryCacheAdapter`). The storage and the tag index have a mutex each; a method is
one or more critical sections, which are functions of their own here. The clock is an
argument of the sections that read it.
-/

namespace MetalOrm.Native

/-- A key of the cache provider. -/
abbrev CacheKey := List UInt8

/-- A tag of a cache entry. -/
abbrev Tag := List UInt8

/-! ## The tag index -/

/-- `TagIndex`. A hash map without an entry and one with an empty set are the same
    here: the source drops empty sets. -/
structure TagIndex where
  tagToKeys : Tag → List CacheKey
  keyToTags : CacheKey → List Tag

namespace TagIndex

/-- An index without keys; also what `clear` leaves. -/
def empty : TagIndex := ⟨fun _ => [], fun _ => []⟩

/-- The body of the loop of `register_key`. -/
def registerTag (index : TagIndex) (key : CacheKey) (tag : Tag) : TagIndex :=
  if tag.isEmpty then index
  else
    { tagToKeys := Function.update index.tagToKeys tag ((index.tagToKeys tag).insert key)
      keyToTags := Function.update index.keyToTags key ((index.keyToTags key).insert tag) }

/-- `register_key`. -/
def registerKey (index : TagIndex) (key : CacheKey) (tags : List Tag) : TagIndex :=
  tags.foldl (fun index tag => index.registerTag key tag) index

/-- `unregister_locked`. -/
def unregister (index : TagIndex) (key : CacheKey) : TagIndex where
  tagToKeys tag :=
    if tag ∈ index.keyToTags key then (index.tagToKeys tag).filter (· != key)
    else index.tagToKeys tag
  keyToTags := Function.update index.keyToTags key []

/-- The keys that `invalidate_tags` collects. -/
def keysOf (index : TagIndex) (tags : List Tag) : List CacheKey :=
  (tags.flatMap index.tagToKeys).dedup

/-- `invalidate_tags`. -/
def invalidateTags (index : TagIndex) (tags : List Tag) : List CacheKey × TagIndex :=
  (index.keysOf tags, (index.keysOf tags).foldl unregister index)

end TagIndex

/-! ## The adapter -/

/-- `CacheEntry`. `writer` is not in the source: it numbers the call of `set` that the
    entry comes from. -/
structure CacheEntry where
  value : QueryResult
  expiresAt : Option Int
  writer : Nat

/-- `expires_at && now > *expires_at`. -/
def CacheEntry.expired (entry : CacheEntry) (now : Int) : Bool :=
  entry.expiresAt.any (· < now)

/-- The entry that `set` builds before it takes the lock. -/
def CacheEntry.build (now : Int) (value : QueryResult) (ttl : Option Int) (writer : Nat) :
    CacheEntry where
  value := value
  expiresAt := ttl.bind fun ttl => if ttl = 0 then none else some (now + ttl)
  writer := writer

/-- `MemoryCacheAdapter`. -/
structure MemoryCacheAdapter where
  storage : AList fun _ : CacheKey => CacheEntry
  tagIndex : TagIndex

namespace MemoryCacheAdapter

/-- A cache without entries. -/
def empty : MemoryCacheAdapter := ⟨∅, .empty⟩

variable (cache : MemoryCacheAdapter)

/-! ### Critical sections -/

/-- The section of `get`: the value, and whether an expired entry was dropped. -/
def getSection (now : Int) (key : CacheKey) : (Option QueryResult × Bool) × MemoryCacheAdapter :=
  match cache.storage.lookup key with
  | none => ((none, false), cache)
  | some entry =>
    if entry.expired now then ((none, true), { cache with storage := cache.storage.erase key })
    else ((some entry.value, false), cache)

/-- `tag_index_.unregister(key)`. -/
def unregister (key : CacheKey) : MemoryCacheAdapter :=
  { cache with tagIndex := cache.tagIndex.unregister key }

/-- The section of `set`. -/
def store (key : CacheKey) (entry : CacheEntry) : MemoryCacheAdapter :=
  { cache with storage := cache.storage.insert key entry }

/-- `storage_.erase(key)`. -/
def erase (key : CacheKey) : MemoryCacheAdapter :=
  { cache with storage := cache.storage.erase key }

/-- `for (const auto& key : keys) storage_.erase(key)`. -/
def eraseAll (keys : List CacheKey) : MemoryCacheAdapter := keys.foldl erase cache

/-- `tag_index_.register_key(key, tags)`. -/
def registerTags (key : CacheKey) (tags : List Tag) : MemoryCacheAdapter :=
  { cache with tagIndex := cache.tagIndex.registerKey key tags }

/-- The section of `invalidate_prefix` that collects keys. -/
def keysWithPrefix (start : List UInt8) : List CacheKey :=
  cache.storage.keys.filter fun key => start.isPrefixOf key

/-- `storage_.clear()`. -/
def clearStorage : MemoryCacheAdapter := { cache with storage := ∅ }

/-- `tag_index_.clear()`. -/
def clearIndex : MemoryCacheAdapter := { cache with tagIndex := .empty }

section Storage

variable {cache} {key key' : CacheKey} {entry : CacheEntry}

/-- What is stored after `erase` was stored before. -/
theorem lookup_erase (h : (cache.erase key').storage.lookup key = some entry) :
    cache.storage.lookup key = some entry := by
  by_cases hk : key = key'
  · subst hk
    simp [erase] at h
  · rwa [erase, AList.lookup_erase_ne hk] at h

/-- What is stored after `eraseAll` was stored before, under another key. -/
theorem lookup_eraseAll {keys : List CacheKey}
    (h : (cache.eraseAll keys).storage.lookup key = some entry) :
    key ∉ keys ∧ cache.storage.lookup key = some entry := by
  unfold eraseAll at h
  induction keys generalizing cache with
  | nil => exact ⟨List.not_mem_nil, h⟩
  | cons key' keys ih =>
    obtain ⟨hkeys, herase⟩ := ih h
    have hne : key ≠ key' := by
      intro hk
      subst hk
      simp [erase] at herase
    exact ⟨by simp [hne, hkeys], lookup_erase herase⟩

/-- The value that `get` finds is stored. -/
theorem getSection_some {now : Int} {value : QueryResult}
    (h : (cache.getSection now key).1.1 = some value) :
    ∃ entry, cache.storage.lookup key = some entry ∧ entry.value = value := by
  cases hkey : cache.storage.lookup key with
  | none => simp [getSection, hkey] at h
  | some entry =>
    cases hexp : entry.expired now with
    | true => simp [getSection, hkey, hexp] at h
    | false => exact ⟨entry, rfl, by simpa [getSection, hkey, hexp] using h⟩

/-- What is stored after the section of `get` was stored before. -/
theorem lookup_getSection {now : Int}
    (h : (cache.getSection now key').2.storage.lookup key = some entry) :
    cache.storage.lookup key = some entry := by
  cases hkey : cache.storage.lookup key' with
  | none => simpa [getSection, hkey] using h
  | some entry' =>
    cases hexp : entry'.expired now with
    | true =>
      simp only [getSection, hkey, hexp, if_true] at h
      exact lookup_erase h
    | false => simpa [getSection, hkey, hexp] using h

end Storage

/-! ### Methods, when no other thread interferes -/

/-- `get`. -/
def get (now : Int) (key : CacheKey) : Option QueryResult × MemoryCacheAdapter :=
  let ((value, expired), cache) := cache.getSection now key
  (value, if expired then cache.unregister key else cache)

/-- `set`. -/
def set (now : Int) (key : CacheKey) (value : QueryResult) (ttl : Option Int) :
    MemoryCacheAdapter :=
  cache.store key (.build now value ttl 0)

/-- `delete_key`, and `invalidate`. -/
def deleteKey (key : CacheKey) : MemoryCacheAdapter := (cache.erase key).unregister key

/-- `invalidate_tags`. -/
def invalidateTags (tags : List Tag) : MemoryCacheAdapter :=
  let (keys, tagIndex) := cache.tagIndex.invalidateTags tags
  { cache with tagIndex }.eraseAll keys

/-- `invalidate_prefix`. -/
def invalidatePrefix (start : List UInt8) : MemoryCacheAdapter :=
  (cache.keysWithPrefix start).foldl deleteKey cache

/-- `clear_cache`. -/
def clearCache : MemoryCacheAdapter := cache.clearStorage.clearIndex

end MemoryCacheAdapter

end MetalOrm.Native
