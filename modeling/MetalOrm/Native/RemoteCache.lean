import MetalOrm.ForStd.Program
import MetalOrm.Native.RedisCache

/-!
# Remote cache adapters

`metal/cache_remote.hpp`: `KeyValueCacheAdapter` and `RedisCacheAdapter` keep an encoded result
under its key in a backend that the application brings along, and read it back with
`decode_or_evict`. The backend is a record of its operations on a state `σ`; each of them may
throw.
-/

namespace MetalOrm.Native

open ForStd ForStd.Prog

/-- `KeyValueBackend`, less `dispose`. A time to live is in milliseconds. -/
structure KeyValueBackend (ε σ : Type) where
  get : CacheKey → Prog ε σ (Option (List UInt8))
  set : CacheKey → List UInt8 → Option Int64 → Prog ε σ Unit
  deleteKey : CacheKey → Prog ε σ Unit

/-- `RedisBackend`, with `KeyValuePrefixBackend`. Its `delete_keys` is a loop over `delete_key`. -/
structure RedisBackend (ε σ : Type) extends KeyValueBackend ε σ where
  keysWithPrefix : List UInt8 → Prog ε σ (List (List UInt8))
  addSetMembers : List UInt8 → List CacheKey → Prog ε σ Unit
  setMembers : List UInt8 → Prog ε σ (List CacheKey)

variable {ε σ : Type}

/-- `decode_or_evict`: a payload that cannot be decoded is a miss, and the entry is deleted if the
    backend lets it. -/
def decodeOrEvict (backend : KeyValueBackend ε σ) (key : CacheKey) (payload : List UInt8) :
    Prog ε σ (Option QueryResult) :=
  match CacheCodec.decodeQueryResult payload with
  | .ok result => return some result
  | .error _ => do
    tryCatch (backend.deleteKey key) fun _ => return
    return none

/-- `normalize_ttl` of both adapters. -/
def normalizeTtl (ttl : Option Int64) : Option Int64 :=
  match ttl with
  | some count => if count = 0 then none else some count
  | none => none

/-- The body of `get` of both adapters. -/
def getEntry (backend : KeyValueBackend ε σ) (key : CacheKey) : Prog ε σ (Option QueryResult) := do
  let some payload ← backend.get key | return none
  decodeOrEvict backend key payload

/-- The body of `set` of both adapters. -/
def setEntry (backend : KeyValueBackend ε σ) (key : CacheKey) (value : QueryResult)
    (ttl : Option Int64) : Prog ε σ Unit :=
  backend.set key (CacheCodec.encodeQueryResult value) (normalizeTtl ttl)

/-- `KeyValueCacheAdapter` or `RedisCacheAdapter`, on its backend. -/
inductive RemoteCacheAdapter (ε σ : Type) where
  | keyValue (backend : KeyValueBackend ε σ)
  | redis (backend : RedisBackend ε σ)

namespace RemoteCacheAdapter

/-- The entries of the backend. -/
def backend : RemoteCacheAdapter ε σ → KeyValueBackend ε σ
  | .keyValue backend => backend
  | .redis backend => backend.toKeyValueBackend

/-- `get`. -/
def get : RemoteCacheAdapter ε σ → CacheKey → Prog ε σ (Option QueryResult)
  | .keyValue backend => getEntry backend
  | .redis backend => getEntry backend.toKeyValueBackend

/-- `set`. -/
def set : RemoteCacheAdapter ε σ → CacheKey → QueryResult → Option Int64 → Prog ε σ Unit
  | .keyValue backend => setEntry backend
  | .redis backend => setEntry backend.toKeyValueBackend

/-- `has`. -/
def has (adapter : RemoteCacheAdapter ε σ) (key : CacheKey) : Prog ε σ Bool :=
  return (← adapter.get key).isSome

theorem get_eq (adapter : RemoteCacheAdapter ε σ) : adapter.get = getEntry adapter.backend := by
  cases adapter <;> rfl

theorem set_eq (adapter : RemoteCacheAdapter ε σ) : adapter.set = setEntry adapter.backend := by
  cases adapter <;> rfl

end RemoteCacheAdapter

/-- The one key space of `RedisStore` as a backend. -/
def RedisStore.backend (ε : Type) : RedisBackend ε RedisStore where
  get key := return (← MonadState.get).get key
  set key payload _ := modify (·.set key payload)
  deleteKey key := modify (·.deleteKey key)
  keysWithPrefix text := return (← MonadState.get).keysWithPrefix text
  addSetMembers key members := modify (·.addSetMembers key members)
  setMembers key := return (← MonadState.get).setMembers key

/-- On it, `get` of the adapter is `RedisCacheAdapter.get`. -/
theorem exec_get_redisStore (store : RedisStore) (key : CacheKey) :
    exec ((RemoteCacheAdapter.redis (RedisStore.backend ε)).get key) store =
      (.ok (RedisCacheAdapter.get store key).1, (RedisCacheAdapter.get store key).2) := by
  have hget : exec ((RedisStore.backend ε).get key) store = (.ok (store.get key), store) := rfl
  rw [RemoteCacheAdapter.get_eq, getEntry, RemoteCacheAdapter.backend, exec_bind_ok hget]
  unfold RedisCacheAdapter.get
  cases store.get key with
  | none => rfl
  | some payload =>
    dsimp only
    unfold decodeOrEvict
    cases CacheCodec.decodeQueryResult payload <;> rfl

/-- On it, `set` of the adapter is `RedisCacheAdapter.set`. -/
theorem exec_set_redisStore (store : RedisStore) (key : CacheKey) (value : QueryResult)
    (ttl : Option Int64) :
    exec ((RemoteCacheAdapter.redis (RedisStore.backend ε)).set key value ttl) store =
      (.ok (), RedisCacheAdapter.set store key value) := rfl

end MetalOrm.Native
