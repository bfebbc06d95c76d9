import MetalOrm.ForStd.Events
import MetalOrm.Native.MemoryCache

/-!
# Threads on the cache in memory

The methods of `MemoryCacheAdapter` as the critical sections that they consist of. Each
call holds one mutex at a time, so an interleaving of calls is a list of sections. The
clock is read in the section of `get` and at the start of `set`.
-/

namespace MetalOrm.Native

/-- A method of `MemoryCacheAdapter` with its arguments. `has` is a `get`, and
    `invalidate` a `delete_key`. -/
inductive CacheOp where
  | get (key : CacheKey)
  | set (key : CacheKey) (value : QueryResult) (ttl : Option Int)
  | deleteKey (key : CacheKey)
  | invalidateTags (tags : List Tag)
  | invalidatePrefix (start : List UInt8)
  | registerTags (key : CacheKey) (tags : List Tag)
  | clearCache

/-- The critical section that a call is to enter next. -/
inductive CriticalSection where
  /-- `get`: look the key up, and drop an expired entry. -/
  | lookUp (key : CacheKey)
  /-- `get`, after it dropped an expired entry: `tag_index_.unregister(key)`. -/
  | evicted (key : CacheKey)
  /-- `set`. -/
  | store (key : CacheKey) (entry : CacheEntry)
  /-- `delete_key` for these keys: the storage section of the first one. -/
  | deleteKeys (keys : List CacheKey)
  /-- `delete_key`, after its storage section; the other keys follow. -/
  | deleted (key : CacheKey) (keys : List CacheKey)
  /-- `invalidate_tags`: the section of the index. -/
  | collect (tags : List Tag)
  /-- `invalidate_tags`, after the index gave these keys. -/
  | eraseAll (keys : List CacheKey)
  /-- `invalidate_prefix`: collect the keys. -/
  | scan (start : List UInt8)
  /-- `register_tags`. -/
  | register (key : CacheKey) (tags : List Tag)
  /-- `clear_cache`: the storage. -/
  | clearStorage
  /-- `clear_cache`: the index. -/
  | clearIndex

/-- The first section of a call. -/
def CacheOp.start (now : Int) (writer : Nat) : CacheOp → CriticalSection
  | .get key => .lookUp key
  | .set key value ttl => .store key (.build now value ttl writer)
  | .deleteKey key => .deleteKeys [key]
  | .invalidateTags tags => .collect tags
  | .invalidatePrefix start => .scan start
  | .registerTags key tags => .register key tags
  | .clearCache => .clearStorage

/-- The calls that are left of a loop of `delete_key`. -/
def CriticalSection.deleteRest (keys : List CacheKey) : Option CriticalSection :=
  if keys.isEmpty then none else some (.deleteKeys keys)

/-- What a section does to the cache, and the section that comes next in its call. -/
def CriticalSection.run (now : Int) (cache : MemoryCacheAdapter) :
    CriticalSection → MemoryCacheAdapter × Option CriticalSection
  | .lookUp key =>
    let ((_, expired), cache) := cache.getSection now key
    (cache, if expired then some (.evicted key) else none)
  | .evicted key => (cache.unregister key, none)
  | .store key entry => (cache.store key entry, none)
  | .deleteKeys [] => (cache, none)
  | .deleteKeys (key :: keys) => (cache.erase key, some (.deleted key keys))
  | .deleted key keys => (cache.unregister key, deleteRest keys)
  | .collect tags =>
    let (keys, tagIndex) := cache.tagIndex.invalidateTags tags
    ({ cache with tagIndex }, some (.eraseAll keys))
  | .eraseAll keys => (cache.eraseAll keys, none)
  | .scan start => (cache, deleteRest (cache.keysWithPrefix start))
  | .register key tags => (cache.registerTags key tags, none)
  | .clearStorage => (cache.clearStorage, some .clearIndex)
  | .clearIndex => (cache.clearIndex, none)

/-- The cache, the section that each thread is to enter, and how many calls of `set` have
    begun: their number is the `writer` of the next entry. -/
structure CacheThreads where
  cache : MemoryCacheAdapter
  pending : Nat → Option CriticalSection
  sets : Nat

/-- A thread calls a method, or it runs the next section of its call. -/
inductive CacheEvent where
  | call (thread : Nat) (now : Int) (op : CacheOp)
  | step (thread : Nat) (now : Int)

/-- The thread that acts. -/
def CacheEvent.thread : CacheEvent → Nat
  | .call thread _ _ => thread
  | .step thread _ => thread

/-- `set` takes a number. -/
def CacheOp.isSet : CacheOp → Bool
  | .set .. => true
  | _ => false

namespace CacheThreads

/-- Threads that have not called anything, over an empty cache. -/
def init : CacheThreads := ⟨.empty, fun _ => none, 0⟩

/-- One event. A thread inside a call cannot call, and one outside has no section. -/
def next (s : CacheThreads) : CacheEvent → CacheThreads
  | .call i now op =>
    match s.pending i with
    | some _ => s
    | none =>
      { s with
        pending := Function.update s.pending i (some (op.start now s.sets))
        sets := if op.isSet then s.sets + 1 else s.sets }
  | .step i now =>
    match s.pending i with
    | none => s
    | some current =>
      { s with
        cache := (current.run now s.cache).1
        pending := Function.update s.pending i (current.run now s.cache).2 }

end CacheThreads

end MetalOrm.Native
