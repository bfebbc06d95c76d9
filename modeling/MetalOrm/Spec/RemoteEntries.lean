import MetalOrm.Native.RemoteCache
import MetalOrm.Spec.CacheCodecCorrect

/-!
# What a remote cache gives back

The reader of a cached result refuses counts above `max_collection_size`, which the writer does not
look at. An entry above it is written, found to be corrupt by the first `get`, and deleted.

## Key results

- `get_of_within`, `get_of_not_within`: what `get` does with an entry that the adapter wrote
- `remote_set_get`: which results are given back
-/

namespace MetalOrm.Native

open ForStd ForStd.Prog CacheCodec

variable {ε σ : Type}

/-- A backend that stores bytes and returns them: `live s key` is what it has under a key. -/
structure KeyValueBackend.Faithful (backend : KeyValueBackend ε σ)
    (live : σ → CacheKey → Option (List UInt8)) : Prop where
  get : ∀ key s, ∃ s', exec (backend.get key) s = (.ok (live s key), s') ∧ live s' = live s
  set : ∀ {key payload ttl s s'}, exec (backend.set key payload ttl) s = (.ok (), s') →
    live s' key = some payload ∨ live s' key = none
  deleteKey : ∀ {key s s'}, exec (backend.deleteKey key) s = (.ok (), s') → live s' key = none

/-- Calls of `get(key)` with what they returned or threw. Between them the backend does whatever
    leaves the key alone: it neither expires nor is it deleted or set. -/
inductive Gets (adapter : RemoteCacheAdapter ε σ) (live : σ → CacheKey → Option (List UInt8))
    (key : CacheKey) : σ → List (Except ε (Option QueryResult)) → σ → Prop
  | done (s : σ) : Gets adapter live key s [] s
  | other {s s₁ s₂ results} : live s₁ key = live s key → Gets adapter live key s₁ results s₂ →
      Gets adapter live key s results s₂
  | get {s result s₁ results s₂} : exec (adapter.get key) s = (result, s₁) →
      Gets adapter live key s₁ results s₂ → Gets adapter live key s (result :: results) s₂

section

variable {adapter : RemoteCacheAdapter ε σ} {live : σ → CacheKey → Option (List UInt8)}
  {key : CacheKey} {r : QueryResult} {s : σ}

/-- An entry that can be read is returned and stays. -/
theorem get_of_within (hfaithful : adapter.backend.Faithful live) (hr : WithinLimits r)
    (hlive : live s key = some (encodeQueryResult r)) :
    ∃ r' s', exec (adapter.get key) s = (.ok (some r'), s') ∧ r'.same r ∧
      live s' key = some (encodeQueryResult r) := by
  obtain ⟨s', hget, hsame⟩ := hfaithful.get key s
  obtain ⟨r', hdecode, hr'⟩ := decode_encode r hr
  rw [hlive] at hget
  refine ⟨r', s', ?_, hr', by rw [hsame, hlive]⟩
  rw [adapter.get_eq, getEntry, exec_bind_ok hget]
  dsimp only
  rw [decodeOrEvict, hdecode]
  rfl

/-- Any other entry is a miss, and is gone unless the backend does not delete it. -/
theorem get_of_not_within (hfaithful : adapter.backend.Faithful live) (hsize : Sized r)
    (hr : ¬ WithinLimits r) (hlive : live s key = some (encodeQueryResult r)) :
    ∃ s₁ deleted s', exec (adapter.backend.deleteKey key) s₁ = (deleted, s') ∧
      exec (adapter.get key) s = (.ok none, s') ∧ (deleted = .ok () → live s' key = none) := by
  obtain ⟨s₁, hget, -⟩ := hfaithful.get key s
  obtain ⟨e, hdecode⟩ := decode_encode_error hsize hr
  rw [hlive] at hget
  rcases hdelete : exec (adapter.backend.deleteKey key) s₁ with ⟨deleted, s'⟩
  refine ⟨s₁, deleted, s', hdelete, ?_, ?_⟩
  · rw [adapter.get_eq, getEntry, exec_bind_ok hget]
    dsimp only
    rw [decodeOrEvict, hdecode]
    dsimp only
    -- an exception of the backend is swallowed
    have hcatch : exec (tryCatch (adapter.backend.deleteKey key) fun _ => return ()) s₁ =
        (.ok (), s') := by
      rw [exec_tryCatch, hdelete]
      cases deleted <;> rfl
    rw [exec_bind_ok hcatch]
    rfl
  · rintro rfl
    exact hfaithful.deleteKey hdelete

/-- Every `get` of a run returns an entry that can be read. -/
theorem Gets.of_within (hfaithful : adapter.backend.Faithful live) (hr : WithinLimits r)
    {results : List (Except ε (Option QueryResult))} {s' : σ}
    (hrun : Gets adapter live key s results s')
    (hlive : live s key = some (encodeQueryResult r)) :
    (∀ result ∈ results, ∃ r', result = .ok (some r') ∧ r'.same r) ∧
      live s' key = some (encodeQueryResult r) := by
  induction hrun with
  | done s => exact ⟨nofun, hlive⟩
  | other hkept _ ih => exact ih (by rw [hkept, hlive])
  | get hget _ ih =>
    obtain ⟨r', s₁, hrun, hsame, hstays⟩ := get_of_within hfaithful hr hlive
    rw [hget] at hrun
    cases hrun
    obtain ⟨hresults, hlive'⟩ := ih hstays
    exact ⟨List.forall_mem_cons.mpr ⟨⟨r', rfl, hsame⟩, hresults⟩, hlive'⟩

end

/-- Once `set` has returned and while the entry is there, every `get` of it returns the result and
    leaves the entry in place if and only if the result is within the limits of the reader. -/
theorem remote_set_get (adapter : RemoteCacheAdapter ε σ)
    (live : σ → CacheKey → Option (List UInt8)) (hfaithful : adapter.backend.Faithful live)
    (key : CacheKey) (r : QueryResult) (hsize : Sized r) (ttl : Option Int64) (s s' : σ)
    (hset : exec (adapter.set key r ttl) s = (.ok (), s')) (hlive : live s' key ≠ none) :
    (∀ results s₂, Gets adapter live key s' results s₂ →
      (∀ result ∈ results, ∃ r', result = .ok (some r') ∧ r'.same r) ∧
        live s₂ key = live s' key) ↔ WithinLimits r := by
  have hentry : live s' key = some (encodeQueryResult r) := by
    rw [adapter.set_eq] at hset
    exact (hfaithful.set hset).resolve_right hlive
  constructor
  · intro hall
    by_contra hr
    obtain ⟨-, -, s₂, -, hget, -⟩ := get_of_not_within hfaithful hsize hr hentry
    obtain ⟨hresults, -⟩ := hall [.ok none] s₂ (.get hget (.done s₂))
    obtain ⟨r', heq, -⟩ := hresults (.ok none) List.mem_cons_self
    cases heq
  · intro hr results s₂ hrun
    rw [hentry]
    exact Gets.of_within hfaithful hr hrun hentry

/-- The key space of Redis is faithful. -/
theorem faithful_redisStore :
    (RedisStore.backend ε).toKeyValueBackend.Faithful RedisStore.get where
  get _ s := ⟨s, rfl, rfl⟩
  set h := by
    cases h
    left
    simp [RedisStore.get, RedisStore.set]
  deleteKey h := by
    cases h
    simp [RedisStore.get, RedisStore.deleteKey]

/-- A row with one column. -/
def loneRow : QueryResult := ⟨[AList.insert ⟨[97], by decide⟩ (.int64 1) ∅], 0, 0⟩

theorem remote_set_get_lone_row :
    (∀ results s₂, Gets (.redis (RedisStore.backend Unit)) RedisStore.get [107]
        (RedisCacheAdapter.set .empty [107] loneRow) results s₂ →
      (∀ result ∈ results, ∃ r', result = .ok (some r') ∧ r'.same loneRow) ∧
        s₂.get [107] = (RedisCacheAdapter.set .empty [107] loneRow).get [107]) ↔
      WithinLimits loneRow := by
  refine remote_set_get (.redis (RedisStore.backend Unit)) RedisStore.get faithful_redisStore [107]
    loneRow ⟨by decide, ?_⟩ none
    .empty _ rfl ?_
  · intro row hrow
    rw [List.mem_singleton.mp hrow]
    decide
  · simp [RedisStore.get, RedisCacheAdapter.set, RedisStore.set]

/-- On Redis an entry that cannot be read is a miss, and gone. -/
theorem get_redisStore_of_not_within {r : QueryResult} (hsize : Sized r) (hr : ¬ WithinLimits r)
    (store : RedisStore) (key : CacheKey) :
    exec ((RemoteCacheAdapter.redis (RedisStore.backend ε)).get key)
        (RedisCacheAdapter.set store key r) =
      (.ok none, (RedisCacheAdapter.set store key r).deleteKey key) := by
  obtain ⟨e, hdecode⟩ := decode_encode_error hsize hr
  have hget : (RedisCacheAdapter.set store key r).get key = some (encodeQueryResult r) := by
    simp [RedisStore.get, RedisCacheAdapter.set, RedisStore.set]
  rw [exec_get_redisStore, RedisCacheAdapter.get, hget]
  dsimp only
  rw [hdecode]

/-- A result with so many rows without columns. -/
def bareRows (n : Nat) : QueryResult := ⟨List.replicate n ∅, 0, 0⟩

theorem sized_bareRows {n : Nat} (h : n < 2 ^ 64) : Sized (bareRows n) := by
  refine ⟨(List.length_replicate (n := n)).symm ▸ h, fun row hrow => ?_⟩
  rw [List.eq_of_mem_replicate hrow]
  decide

theorem withinLimits_bareRows {n : Nat} (h : WithinLimits (bareRows n)) : n ≤ 1000000 :=
  (List.length_replicate (n := n)) ▸ h.rows

/-- A million rows and one more are written, but a `get` does not find them and deletes the
    entry. -/
theorem remote_get_million_rows :
    let adapter := RemoteCacheAdapter.redis (RedisStore.backend Unit)
    ∃ store, exec (adapter.set [107] (bareRows 1000001) none) .empty = (.ok (), store) ∧
      exec (adapter.get [107]) store = (.ok none, store.deleteKey [107]) := by
  refine ⟨RedisCacheAdapter.set .empty [107] (bareRows 1000001), exec_set_redisStore _ _ _ _, ?_⟩
  exact get_redisStore_of_not_within (sized_bareRows (by omega))
    (fun h => absurd (withinLimits_bareRows h) (by omega)) .empty [107]

end MetalOrm.Native
