import MetalOrm.ForStd.Events
import MetalOrm.Native.QueryCacheManager

/-!
# Clients of the query cache

The calls of `QueryCacheManager` over a `MemoryCacheAdapter` as the provider calls that they
consist of. A call of the provider is one step here, and so are the start and the end of an
executor; an interleaving of clients is a list of steps.

The state also has what the source does not: the executor runs in the order in which they
began, and what calls have returned.
-/

namespace MetalOrm.Native

/-- An executor run of a `get_or_execute`. -/
structure CacheRequest where
  key : CacheKey
  options : CacheOptions

/-- The argument of an invalidation. -/
inductive CacheTarget where
  | ofTags (tags : List Tag)
  | ofKey (key : CacheKey)

/-- The tags that are invalidated. -/
def CacheTarget.tagsOf : CacheTarget → List Tag
  | .ofTags tags => tags
  | .ofKey _ => []

/-- The keys whose entries are erased. -/
def CacheTarget.keysOf (cache : MemoryCacheAdapter) : CacheTarget → List CacheKey
  | .ofTags tags => cache.tagIndex.keysOf tags
  | .ofKey key => [key]

/-- The call of the provider. -/
def CacheTarget.run (cache : MemoryCacheAdapter) : CacheTarget → MemoryCacheAdapter
  | .ofTags tags => cache.invalidateTags tags
  | .ofKey key => cache.deleteKey key

/-- What a client is to do next. A `get_or_execute` has the number of its call, an executor run its
    place among the runs, and an invalidation the number of runs that had begun when it was
    called. -/
inductive ClientStep where
  /-- `provider_->get(key)`. -/
  | lookUp (call : Nat) (request : CacheRequest)
  /-- The executor is to begin. -/
  | execute (call : Nat) (request : CacheRequest)
  /-- The executor runs. -/
  | executing (call run : Nat) (request : CacheRequest)
  /-- `provider_->set(key, result, ttl)`. -/
  | store (call run : Nat) (request : CacheRequest) (result : QueryResult)
  /-- `register_tags(key, options.tags)`. -/
  | register (call run : Nat) (request : CacheRequest) (result : QueryResult)
  /-- `provider_->invalidate_tags(tags)` or `provider_->invalidate(key)`. -/
  | invalidate (runs : Nat) (target : CacheTarget)

/-- A result that `get_or_execute` returned: the number of the call and its key, and the executor
    run that the result comes from. -/
structure CacheReturn where
  call : Nat
  key : CacheKey
  run : Nat
  result : QueryResult

/-- An invalidation that has returned: its tags and the keys that it erased, how many executor runs
    had begun when it was called, and how many calls of `get_or_execute` had begun when it
    returned. -/
structure CacheInvalidation where
  tags : List Tag
  keys : List CacheKey
  runs : Nat
  calls : Nat

/-- The cache and its clients. -/
structure CacheClients where
  cache : MemoryCacheAdapter
  pending : Nat → Option ClientStep
  runs : List CacheRequest
  calls : Nat
  returned : List CacheReturn
  invalidated : List CacheInvalidation

/-- A client calls a method of the manager, or it takes the next step of its call. A step may read
    the clock, and the end of an executor is what it returned or threw. -/
inductive ClientEvent where
  | getOrExecute (client : Nat) (options : CacheOptions) (tenantId : Option CacheTenantId)
  | invalidateTags (client : Nat) (tags : List Tag)
  | invalidateKey (client : Nat) (key : List UInt8) (tenantId : Option CacheTenantId)
  | step (client : Nat) (now : Int) (outcome : Except Exn QueryResult)

/-- The executor run that the entry under a key comes from. -/
def MemoryCacheAdapter.runOf (cache : MemoryCacheAdapter) (key : CacheKey) : Nat :=
  ((cache.storage.lookup key).map CacheEntry.writer).getD 0

namespace CacheClients

/-- Clients that have not called anything, over an empty cache. -/
def init : CacheClients := ⟨.empty, fun _ => none, [], 0, [], []⟩

/-- The client is at another step. -/
def goto (s : CacheClients) (client : Nat) (next : Option ClientStep) : CacheClients :=
  { s with pending := Function.update s.pending client next }

/-- `get_or_execute` returns. -/
def finish (s : CacheClients) (client call : Nat) (key : CacheKey) (run : Nat)
    (result : QueryResult) : CacheClients :=
  { s.goto client none with returned := ⟨call, key, run, result⟩ :: s.returned }

/-- A client without a call begins one. -/
def begin (s : CacheClients) (client calls : Nat) (first : ClientStep) : CacheClients :=
  match s.pending client with
  | some _ => s
  | none => { s with calls }.goto client (some first)

/-- The step that a client takes. -/
def take (defaultTtl : Int) (s : CacheClients) (client : Nat) (now : Int)
    (outcome : Except Exn QueryResult) : ClientStep → CacheClients
  | .lookUp call request =>
    match s.cache.get now request.key with
    | (some cached, cache) =>
      { s with cache }.finish client call request.key (s.cache.runOf request.key) cached
    | (none, cache) => { s with cache }.goto client (some (.execute call request))
  | .execute call request =>
    { s with runs := s.runs ++ [request] }.goto client
      (some (.executing call s.runs.length request))
  | .executing call run request =>
    match outcome with
    | .error _ => s.goto client none
    | .ok result =>
      match shouldCache result request.options with
      | .error _ => s.goto client none
      | .ok false => s.finish client call request.key run result
      | .ok true => s.goto client (some (.store call run request result))
  | .store call run request result =>
    let ttl := request.options.ttl.getD defaultTtl
    let stored := { s with cache := s.cache.store request.key (.build now result (some ttl) run) }
    if request.options.tags.isEmpty then stored.finish client call request.key run result
    else stored.goto client (some (.register call run request result))
  | .register call run request result =>
    { s with cache := s.cache.registerTags request.key request.options.tags }.finish client call
      request.key run result
  | .invalidate runs target =>
    { s.goto client none with
      cache := target.run s.cache
      invalidated := ⟨target.tagsOf, target.keysOf s.cache, runs, s.calls⟩ :: s.invalidated }

/-- One event. A client inside a call cannot call, and one outside has no step. A
    `get_or_execute` with an empty key throws before it does anything. -/
def next (defaultTtl : Int) (s : CacheClients) : ClientEvent → CacheClients
  | .getOrExecute client options tenantId =>
    if options.key.isEmpty then s
    else
      s.begin client (s.calls + 1) (.lookUp s.calls ⟨generateKey options.key tenantId, options⟩)
  | .invalidateTags client tags => s.begin client s.calls (.invalidate s.runs.length (.ofTags tags))
  | .invalidateKey client key tenantId =>
    s.begin client s.calls (.invalidate s.runs.length (.ofKey (generateKey key tenantId)))
  | .step client now outcome =>
    match s.pending client with
    | none => s
    | some current => s.take defaultTtl client now outcome current

end CacheClients

end MetalOrm.Native
