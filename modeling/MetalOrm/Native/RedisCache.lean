import MetalOrm.Native.CacheCodec
import MetalOrm.Native.MemoryCache

/-!
# The Redis cache adapter

`metal/cache_remote.hpp`: `RedisCacheAdapter` keeps an entry under its key, and the keys that
are registered under a tag in a set under `tag_prefix` and the tag. Both live in the one key
space of the backend (`RedisStore`), which can list its keys by prefix.

A key of the other kind is an error reply of Redis; here the operation then does nothing.
-/

namespace MetalOrm.Native

/-- What the backend has under a key. -/
inductive RedisValue where
  | string (payload : List UInt8)
  | set (members : List CacheKey)
deriving DecidableEq

/-- `RedisBackend`: one key space. -/
structure RedisStore where
  entries : AList fun _ : List UInt8 => RedisValue

namespace RedisStore

/-- A backend without keys. -/
def empty : RedisStore := ⟨∅⟩

variable (store : RedisStore)

/-- `get`. -/
def get (key : List UInt8) : Option (List UInt8) :=
  match store.entries.lookup key with
  | some (.string payload) => some payload
  | _ => none

/-- `set`. Its time to live ends with an `expire` of the key. -/
def set (key payload : List UInt8) : RedisStore := ⟨store.entries.insert key (.string payload)⟩

/-- `delete_key`. -/
def deleteKey (key : List UInt8) : RedisStore := ⟨store.entries.erase key⟩

/-- `delete_keys`. -/
def deleteKeys (keys : List (List UInt8)) : RedisStore := keys.foldl deleteKey store

/-- `keys_with_prefix`. -/
def keysWithPrefix (text : List UInt8) : List (List UInt8) :=
  store.entries.keys.filter (text.isPrefixOf ·)

/-- `add_set_members`. -/
def addSetMembers (key : List UInt8) (members : List CacheKey) : RedisStore :=
  match store.entries.lookup key with
  | none => ⟨store.entries.insert key (.set members.dedup)⟩
  | some (.set old) => ⟨store.entries.insert key (.set (members ∪ old))⟩
  | some (.string _) => store

/-- `set_members`. -/
def setMembers (key : List UInt8) : List CacheKey :=
  match store.entries.lookup key with
  | some (.set members) => members
  | _ => []

end RedisStore

/-- `RedisCacheAdapterOptions`, less `dispose_backend`: the constructor refuses an empty
    prefix. -/
structure RedisCacheAdapterOptions where
  tagPrefix : List UInt8 := ByteString.ascii "tag:"
  tagPrefix_ne : tagPrefix ≠ [] := by decide

namespace RedisCacheAdapter

variable (options : RedisCacheAdapterOptions) (store : RedisStore)

/-- `tag_key`. -/
def tagKey (tag : Tag) : List UInt8 := options.tagPrefix ++ tag

/-- `get`, with `decode_or_evict`. -/
def get (key : CacheKey) : Option QueryResult × RedisStore :=
  match store.get key with
  | none => (none, store)
  | some payload =>
    match CacheCodec.decodeQueryResult payload with
    | .ok result => (some result, store)
    | .error _ => (none, store.deleteKey key)

/-- `set`. -/
def set (key : CacheKey) (value : QueryResult) : RedisStore :=
  store.set key (CacheCodec.encodeQueryResult value)

/-- `delete_key`. -/
def deleteKey (key : CacheKey) : RedisStore := store.deleteKey key

/-- The body of the loop of `register_tags`. -/
def registerTag (key : CacheKey) (store : RedisStore) (tag : Tag) : RedisStore :=
  if tag.isEmpty then store else store.addSetMembers (tagKey options tag) [key]

/-- `register_tags`. -/
def registerTags (key : CacheKey) (tags : List Tag) : RedisStore :=
  tags.foldl (registerTag options key) store

/-- `invalidate_tags`. -/
def invalidateTags (tags : List Tag) : RedisStore :=
  let tagKeys := (tags.filter (!·.isEmpty)).map (tagKey options)
  let uniqueKeys := (tagKeys.flatMap store.setMembers).dedup
  (store.deleteKeys tagKeys).deleteKeys uniqueKeys

/-- `invalidate_prefix`. -/
def invalidatePrefix (text : List UInt8) : RedisStore :=
  store.deleteKeys (store.keysWithPrefix text)

/-! ## Calls -/

/-- A key of the user: it does not start with the tag prefix. -/
abbrev UserKey := {key : CacheKey // ¬ options.tagPrefix <+: key}

/-- A call of the adapter, or a time to live that ends. -/
inductive Call where
  | set (key : UserKey options) (value : QueryResult)
  | registerTags (key : UserKey options) (tags : List Tag)
  | get (key : UserKey options)
  | deleteKey (key : UserKey options)
  | invalidateTags (tags : List Tag)
  | invalidatePrefix (text : List UInt8)
  | expire (key : UserKey options)

/-- The backend after a call. -/
def next (store : RedisStore) : Call options → RedisStore
  | .set key value => set store key value
  | .registerTags key tags => registerTags options store key tags
  | .get key => (get store key).2
  | .deleteKey key | .expire key => deleteKey store key
  | .invalidateTags tags => invalidateTags options store tags
  | .invalidatePrefix text => invalidatePrefix store text

end RedisCacheAdapter

end MetalOrm.Native
