import MetalOrm.ForStd.Decimal
import MetalOrm.ForStd.Program
import MetalOrm.Native.MemoryCache

/-!
# The query cache

`metal/cache_provider.hpp` (`CacheProvider`), `metal/cache_strategy.hpp`
(`DefaultCacheStrategy`) and `metal/query_cache_manager.hpp` (`QueryCacheManager`).
-/

namespace MetalOrm.Native

open ForStd

/-! ## Keys -/

/-- `CacheTenantId`. -/
inductive CacheTenantId where
  | int64 (id : Int64)
  | string (id : List UInt8)
deriving DecidableEq

/-- `std::to_string` of an `int64_t`. -/
def toString64 (value : Int64) : List UInt8 :=
  if value.toInt < 0 then ByteString.ascii "-" ++ decimal value.toInt.natAbs
  else decimal value.toInt.natAbs

/-- The text of a tenant in a key. -/
def CacheTenantId.text : CacheTenantId → List UInt8
  | .int64 id => toString64 id
  | .string id => id

/-- `DefaultCacheStrategy::generate_key`. -/
def generateKey (queryKey : List UInt8) (tenantId : Option CacheTenantId) : CacheKey :=
  match tenantId with
  | none => queryKey
  | some tenant => ByteString.ascii "tenant:" ++ tenant.text ++ ByteString.ascii ":" ++ queryKey

/-- `CacheOptions`, less `auto_invalidate`, which the manager does not read. The
    condition may throw. -/
structure CacheOptions where
  key : List UInt8
  ttl : Option Int
  tags : List Tag
  condition : Option (QueryResult → Except Exn Bool)

/-- `DefaultCacheStrategy::should_cache`. -/
def shouldCache (result : QueryResult) (options : CacheOptions) : Except Exn Bool :=
  match options.condition with
  | none => .ok true
  | some condition => condition result

/-! ## Providers -/

/-- `CacheProvider`, over a state `σ`. `registerTags` and `clearCache` are there when the
    provider is a `CacheTagRegistrar` and a `CacheClearable`. Every call may throw. -/
structure CacheProvider (σ : Type) where
  get : Int → CacheKey → Prog Exn σ (Option QueryResult)
  set : Int → CacheKey → QueryResult → Option Int → Prog Exn σ Unit
  invalidate : CacheKey → Prog Exn σ Unit
  invalidateTags : List Tag → Prog Exn σ Unit
  invalidatePrefix : List UInt8 → Prog Exn σ Unit
  registerTags : Option (CacheKey → List Tag → Prog Exn σ Unit)
  clearCache : Option (Prog Exn σ Unit)

/-- `MemoryCacheAdapter` as a provider. -/
def MemoryCacheAdapter.provider : CacheProvider MemoryCacheAdapter where
  get now key := do
    let (value, cache) := (← MonadState.get).get now key
    MonadState.set cache
    return value
  set now key value ttl := modify (·.set now key value ttl)
  invalidate key := modify (·.deleteKey key)
  invalidateTags tags := modify (·.invalidateTags tags)
  invalidatePrefix start := modify (·.invalidatePrefix start)
  registerTags := some fun key tags => modify (·.registerTags key tags)
  clearCache := some (modify (·.clearCache))

/-! ## The manager -/

/-- `QueryCacheManager`, with the default strategy. -/
structure QueryCacheManager (σ : Type) where
  provider : CacheProvider σ
  defaultTtl : Int

namespace QueryCacheManager

variable {σ : Type} (manager : QueryCacheManager σ)

/-- `register_tags`. -/
def registerTags (key : CacheKey) (tags : List Tag) : Prog Exn σ Unit :=
  match manager.provider.registerTags with
  | some register => register key tags
  | none => pure ()

/-- What a function of the caller returned or threw. -/
def ofExcept {α : Type} : Except Exn α → Prog Exn σ α
  | .ok a => pure a
  | .error e => throw e

/-- The part of `get_or_execute` after a miss. -/
def executeAndStore (now : Int) (options : CacheOptions) (key : CacheKey)
    (executor : Except Exn QueryResult) : Prog Exn σ QueryResult := do
  let result ← ofExcept executor
  if !(← ofExcept (shouldCache result options)) then return result
  manager.provider.set now key result (some (options.ttl.getD manager.defaultTtl))
  if !options.tags.isEmpty then manager.registerTags key options.tags
  return result

/-- `get_or_execute`. The executor is `none` when it is an empty function, and else what
    it returns or throws. -/
def getOrExecute (now : Int) (options : CacheOptions) (executor : Option (Except Exn QueryResult))
    (tenantId : Option CacheTenantId) : Prog Exn σ QueryResult := do
  if options.key.isEmpty then throw (.ofText "MetalORM: cache key cannot be empty")
  match executor with
  | none => throw (.ofText "MetalORM: cached query executor cannot be empty")
  | some executor =>
    let key := generateKey options.key tenantId
    match ← manager.provider.get now key with
    | some cached => return cached
    | none => manager.executeAndStore now options key executor

/-- `invalidate_key`. -/
def invalidateKey (key : List UInt8) (tenantId : Option CacheTenantId) : Prog Exn σ Unit :=
  manager.provider.invalidate (generateKey key tenantId)

/-- `invalidate_tags`. -/
def invalidateTags (tags : List Tag) : Prog Exn σ Unit := manager.provider.invalidateTags tags

/-- `invalidate_prefix`. -/
def invalidatePrefix (start : List UInt8) : Prog Exn σ Unit :=
  manager.provider.invalidatePrefix start

/-- `clear`. -/
def clear : Prog Exn σ Unit :=
  match manager.provider.clearCache with
  | some clearCache => clearCache
  | none => throw (.ofText "MetalORM: cache provider does not support clear operation")

end QueryCacheManager

end MetalOrm.Native
