import MetalOrm.ForStd.Events
import MetalOrm.Native.QueryCacheManager

/-!
# Tenants in the query cache

Which keys of `generate_key` belong to one tenant only, and what that means for a run
of calls of one manager: a result comes from an executor of its own scope as long as no
two calls of different scopes have colliding keys.

## Key results

- `generateKey_eq_iff`: when two scopes share a provider key
- `not_collides_int64`: integer tenants are kept apart
- `tenant_isolation`: a provider key belongs to one scope exactly when the texts do not
  collide, and then results stay with their scope in every run
-/

namespace MetalOrm.Native

open ForStd

/-! ## When keys collide -/

/-- The text of tenant `t` continues, after a colon, in the text of tenant `u`, and the
    query key `k` continues likewise in `l`. -/
def Shifted (t k u l : List UInt8) : Prop :=
  ∃ rest, u = t ++ ByteString.ascii ":" ++ rest ∧ k = rest ++ ByteString.ascii ":" ++ l

/-- Query keys `k` of one scope and `l` of another that a text cannot tell apart. -/
def Collides : Option CacheTenantId → List UInt8 → Option CacheTenantId → List UInt8 → Prop
  | none, _, none, _ => False
  | none, k, some u, l => k = ByteString.ascii "tenant:" ++ u.text ++ ByteString.ascii ":" ++ l
  | some t, k, none, l => l = ByteString.ascii "tenant:" ++ t.text ++ ByteString.ascii ":" ++ k
  | some t, k, some u, l =>
    t.text = u.text ∧ k = l ∨ Shifted t.text k u.text l ∨ Shifted u.text l t.text k

/-- Two texts that are split at a colon each. -/
theorem append_colon_eq_iff (t k u l : List UInt8) :
    t ++ ByteString.ascii ":" ++ k = u ++ ByteString.ascii ":" ++ l ↔
      t = u ∧ k = l ∨ Shifted t k u l ∨ Shifted u l t k := by
  have hcolon : ByteString.ascii ":" = [58] := by decide
  simp only [Shifted, hcolon, List.append_assoc, List.singleton_append]
  constructor
  · intro h
    -- one of the texts begins with the other; what follows is empty or begins with the colon
    cases List.append_eq_append_iff.mp h with
    | inl hu =>
      obtain ⟨m, hu, hk⟩ := hu
      cases m with
      | nil =>
        simp only [List.nil_append, List.cons.injEq, true_and] at hk
        exact Or.inl ⟨by simpa using hu.symm, hk⟩
      | cons b rest =>
        simp only [List.cons_append, List.cons.injEq] at hk
        exact Or.inr (Or.inl ⟨rest, by rw [hu, ← hk.1], hk.2⟩)
    | inr ht =>
      obtain ⟨m, ht, hl⟩ := ht
      cases m with
      | nil =>
        simp only [List.nil_append, List.cons.injEq, true_and] at hl
        exact Or.inl ⟨by simpa using ht, hl.symm⟩
      | cons b rest =>
        simp only [List.cons_append, List.cons.injEq] at hl
        exact Or.inr (Or.inr ⟨rest, by rw [ht, ← hl.1], hl.2⟩)
  · intro h
    obtain ⟨rfl, rfl⟩ | ⟨rest, rfl, rfl⟩ | ⟨rest, rfl, rfl⟩ := h
    · rfl
    · simp
    · simp

/-- Two scopes share a provider key exactly when the query keys collide. -/
theorem generateKey_eq_iff {s s' : Option CacheTenantId} (hs : s ≠ s') (k l : List UInt8) :
    generateKey k s = generateKey l s' ↔ Collides s k s' l := by
  cases s with
  | none =>
    cases s' with
    | none => exact absurd rfl hs
    | some u => exact Iff.rfl
  | some t =>
    cases s' with
    | none => exact eq_comm
    | some u =>
      have htail := append_colon_eq_iff t.text k u.text l
      simp only [generateKey, List.append_assoc, List.append_cancel_left_eq] at htail ⊢
      exact htail

/-! ### Integer tenants -/

theorem toString64_ne_colon {v : Int64} {b : UInt8} (hb : b ∈ toString64 v) : b ≠ 58 := by
  have hdigit : ∀ b ∈ decimal v.toInt.natAbs, b ≠ 58 := by
    intro b hb h
    have := isDigit_of_mem_decimal hb
    rw [h] at this
    exact absurd this (by decide)
  have hminus : ByteString.ascii "-" = [45] := by decide
  unfold toString64 at hb
  split at hb
  · rw [hminus, List.singleton_append, List.mem_cons] at hb
    cases hb with
    | inl hb => rw [hb]; decide
    | inr hb => exact hdigit b hb
  · exact hdigit b hb

/-- The text of a number begins with a minus sign exactly when the number is negative. -/
private theorem decimal_ne_minus (m n : Nat) : decimal m ≠ ByteString.ascii "-" ++ decimal n := by
  intro h
  have hminus : (45 : UInt8) ∈ decimal m := by
    rw [h]
    exact List.mem_append_left _ (by decide)
  exact absurd (isDigit_of_mem_decimal hminus) (by decide)

theorem toString64_injective {v w : Int64} (h : toString64 v = toString64 w) : v = w := by
  apply Int64.toInt_inj.mp
  unfold toString64 at h
  split at h <;> split at h
  · have := decimal_injective (List.append_cancel_left h)
    omega
  · exact absurd h.symm (decimal_ne_minus _ _)
  · exact absurd h (decimal_ne_minus _ _)
  · have := decimal_injective h
    omega

theorem not_shifted_int64 (v : Int64) (t k l : List UInt8) : ¬ Shifted t k (toString64 v) l := by
  intro h
  obtain ⟨rest, hv, _⟩ := h
  have hcolon : (58 : UInt8) ∈ toString64 v := by
    rw [hv]
    exact List.mem_append_left _ (List.mem_append_right _ (by decide))
  exact toString64_ne_colon hcolon rfl

/-- Keys of different integer tenants never collide. -/
theorem not_collides_int64 {v w : Int64} (h : v ≠ w) (k l : List UInt8) :
    ¬ Collides (some (.int64 v)) k (some (.int64 w)) l := by
  intro hcol
  obtain ⟨ht, _⟩ | ht | ht := hcol
  · exact h (toString64_injective ht)
  · exact not_shifted_int64 w _ _ _ ht
  · exact not_shifted_int64 v _ _ _ ht

/-! ## Lawful providers -/

/-- What is stored after a step was stored before, or is `new`. -/
def Adds {σ : Type} (holds : σ → CacheKey → QueryResult → Prop)
    (new : CacheKey → QueryResult → Prop) (s s' : σ) : Prop :=
  ∀ key value, holds s' key value → holds s key value ∨ new key value

/-- A provider that returns what `set` stored under the key, and stores nothing else,
    also when a call throws. -/
structure LawfulProvider (σ : Type) extends CacheProvider σ where
  holds : σ → CacheKey → QueryResult → Prop
  get_holds : ∀ now key s s' value,
    (get now key).exec s = (.ok (some value), s') → holds s key value
  get_adds : ∀ now key, Prog.Preserves (Adds holds fun _ _ => False) (get now key)
  set_adds : ∀ now key value ttl,
    Prog.Preserves (Adds holds fun key' value' => key' = key ∧ value' = value)
      (set now key value ttl)
  invalidate_adds : ∀ key, Prog.Preserves (Adds holds fun _ _ => False) (invalidate key)
  invalidateTags_adds : ∀ tags, Prog.Preserves (Adds holds fun _ _ => False) (invalidateTags tags)
  invalidatePrefix_adds : ∀ start,
    Prog.Preserves (Adds holds fun _ _ => False) (invalidatePrefix start)
  registerTags_adds : ∀ register ∈ registerTags, ∀ key tags,
    Prog.Preserves (Adds holds fun _ _ => False) (register key tags)
  clearCache_adds : ∀ clear ∈ clearCache, Prog.Preserves (Adds holds fun _ _ => False) clear

/-! ### The cache in memory -/

namespace MemoryCacheAdapter

/-- An entry with this value is stored under the key. -/
def Holds (cache : MemoryCacheAdapter) (key : CacheKey) (value : QueryResult) : Prop :=
  ∃ entry, cache.storage.lookup key = some entry ∧ entry.value = value

/-- A step that leaves an entry alone or drops it. -/
def Shrinks (cache cache' : MemoryCacheAdapter) : Prop :=
  ∀ key entry, cache'.storage.lookup key = some entry → cache.storage.lookup key = some entry

theorem Shrinks.refl (cache : MemoryCacheAdapter) : Shrinks cache cache := fun _ _ h => h

theorem Shrinks.trans {c₁ c₂ c₃ : MemoryCacheAdapter} (h : Shrinks c₁ c₂) (h' : Shrinks c₂ c₃) :
    Shrinks c₁ c₃ := fun key entry he => h key entry (h' key entry he)

theorem Shrinks.adds {cache cache' : MemoryCacheAdapter} (h : Shrinks cache cache')
    (new : CacheKey → QueryResult → Prop) : Adds Holds new cache cache' := by
  intro key value hv
  obtain ⟨entry, he, hvalue⟩ := hv
  exact Or.inl ⟨entry, h key entry he, hvalue⟩

theorem shrinks_foldl {α : Type} {f : MemoryCacheAdapter → α → MemoryCacheAdapter}
    (step : ∀ cache a, Shrinks cache (f cache a)) (l : List α) (cache : MemoryCacheAdapter) :
    Shrinks cache (l.foldl f cache) := by
  induction l generalizing cache with
  | nil => exact Shrinks.refl cache
  | cons a l ih => exact (step cache a).trans (ih (f cache a))

theorem erase_shrinks (cache : MemoryCacheAdapter) (key : CacheKey) :
    Shrinks cache (cache.erase key) := fun _ _ h => lookup_erase h

theorem deleteKey_shrinks (cache : MemoryCacheAdapter) (key : CacheKey) :
    Shrinks cache (cache.deleteKey key) := erase_shrinks cache key

theorem invalidateTags_shrinks (cache : MemoryCacheAdapter) (tags : List Tag) :
    Shrinks cache (cache.invalidateTags tags) := by
  intro key entry h
  have h' : ({ cache with tagIndex := (cache.tagIndex.invalidateTags tags).2 }.eraseAll
      (cache.tagIndex.keysOf tags)).storage.lookup key = some entry := h
  exact (lookup_eraseAll h').2

theorem get_shrinks (cache : MemoryCacheAdapter) (now : Int) (key : CacheKey) :
    Shrinks cache (cache.get now key).2 := by
  intro key' entry h
  have hstorage : (cache.get now key).2.storage = (cache.getSection now key).2.storage := by
    rcases hget : cache.getSection now key with ⟨⟨value, expired⟩, cache'⟩
    cases expired <;> simp [get, hget, unregister]
  rw [hstorage] at h
  exact lookup_getSection h

theorem set_adds (cache : MemoryCacheAdapter) (now : Int) (key : CacheKey) (value : QueryResult)
    (ttl : Option Int) :
    Adds Holds (fun key' value' => key' = key ∧ value' = value) cache
      (cache.set now key value ttl) := by
  intro key' value' h
  obtain ⟨entry, he, hvalue⟩ := h
  by_cases hk : key' = key
  · subst hk
    rw [set, store, AList.lookup_insert, Option.some.injEq] at he
    exact Or.inr ⟨rfl, by rw [← hvalue, ← he]; rfl⟩
  · rw [set, store, AList.lookup_insert_ne hk] at he
    exact Or.inl ⟨entry, he, hvalue⟩

/-- The cache in memory is a lawful provider. -/
def lawful : LawfulProvider MemoryCacheAdapter where
  toCacheProvider := provider
  holds := Holds
  get_holds now key cache cache' value h := by
    have hget : (provider.get now key).exec cache =
      (.ok (cache.get now key).1, (cache.get now key).2) := rfl
    rw [hget, Prod.mk.injEq, Except.ok.injEq] at h
    exact getSection_some h.1
  get_adds now key cache := (get_shrinks cache now key).adds _
  set_adds now key value ttl cache := MemoryCacheAdapter.set_adds cache now key value ttl
  invalidate_adds key cache := (deleteKey_shrinks cache key).adds _
  invalidateTags_adds tags cache := (invalidateTags_shrinks cache tags).adds _
  invalidatePrefix_adds start cache := (shrinks_foldl deleteKey_shrinks _ cache).adds _
  registerTags_adds register hregister key tags cache := by
    cases hregister
    exact (Shrinks.refl cache).adds _
  clearCache_adds clear hclear cache := by
    cases hclear
    intro key value h
    obtain ⟨entry, he, _⟩ := h
    exact absurd he (by simp [clearCache, clearStorage, clearIndex])

end MemoryCacheAdapter

/-! ## Runs of the manager -/

/-- The arguments of a call of `get_or_execute`. -/
structure CachedCall where
  now : Int
  options : CacheOptions
  executor : Option (Except Exn QueryResult)
  tenantId : Option CacheTenantId

/-- A call of a method of the manager. -/
inductive ManagerCall where
  | getOrExecute (call : CachedCall)
  | invalidateKey (key : List UInt8) (tenantId : Option CacheTenantId)
  | invalidateTags (tags : List Tag)
  | invalidatePrefix (start : List UInt8)
  | clear

namespace QueryCacheManager

variable {σ : Type} (manager : QueryCacheManager σ)

/-- One call of `get_or_execute`. -/
def cached (call : CachedCall) : Prog Exn σ QueryResult :=
  manager.getOrExecute call.now call.options call.executor call.tenantId

/-- The state after a call, however it ends. -/
def next (s : σ) : ManagerCall → σ
  | .getOrExecute call => ((manager.cached call).exec s).2
  | .invalidateKey key tenantId => ((manager.invalidateKey key tenantId).exec s).2
  | .invalidateTags tags => ((manager.invalidateTags tags).exec s).2
  | .invalidatePrefix start => ((manager.invalidatePrefix start).exec s).2
  | .clear => (manager.clear.exec s).2

end QueryCacheManager

/-- The call of `get_or_execute` has this scope, and its executor returns this. -/
def CachedCall.Yields (call : CachedCall) (tenantId : Option CacheTenantId) (result : QueryResult) :
    Prop :=
  call.tenantId = tenantId ∧ call.executor = some (.ok result)

/-- The provider key of a call. -/
def CachedCall.providerKey (call : CachedCall) : CacheKey :=
  generateKey call.options.key call.tenantId

section Owned

variable {σ : Type} {holds : σ → CacheKey → QueryResult → Prop} {P : CacheKey → QueryResult → Prop}

/-- Everything stored satisfies `P`. -/
def Owned (holds : σ → CacheKey → QueryResult → Prop) (P : CacheKey → QueryResult → Prop) (s : σ) :
    Prop :=
  ∀ key value, holds s key value → P key value

/-- A step keeps `Owned`. -/
def KeepsOwned (holds : σ → CacheKey → QueryResult → Prop) (P : CacheKey → QueryResult → Prop)
    (s s' : σ) : Prop :=
  Owned holds P s → Owned holds P s'

instance : IsPreorder σ (KeepsOwned holds P) where
  refl _ := id
  trans _ _ _ h h' hs := h' (h hs)

theorem Adds.keepsOwned {new : CacheKey → QueryResult → Prop} {s s' : σ}
    (h : Adds holds new s s') (hnew : ∀ key value, new key value → P key value) :
    KeepsOwned holds P s s' := by
  intro hs key value hv
  cases h key value hv with
  | inl hv => exact hs key value hv
  | inr hv => exact hnew key value hv

theorem keepsOwned_of_adds {α : Type} {p : Prog Exn σ α}
    (h : Prog.Preserves (Adds holds fun _ _ => False) p) :
    Prog.Preserves (KeepsOwned holds P) p :=
  fun s => (h s).keepsOwned fun _ _ hnew => hnew.elim

end Owned

section Isolation

variable {σ : Type} (provider : LawfulProvider σ) (defaultTtl : Int)
  {P : CacheKey → QueryResult → Prop}

/-- The manager over a lawful provider. -/
def LawfulProvider.manager : QueryCacheManager σ := ⟨provider.toCacheProvider, defaultTtl⟩

theorem ofExcept_preserves {α : Type} (r : Except Exn α) :
    Prog.Preserves (KeepsOwned provider.holds P) (QueryCacheManager.ofExcept r : Prog Exn σ α) := by
  cases r with
  | ok a => exact Prog.Preserves.pure a
  | error e => exact Prog.Preserves.throw e

theorem registerTags_preserves (key : CacheKey) (tags : List Tag) :
    Prog.Preserves (KeepsOwned provider.holds P)
      ((provider.manager defaultTtl).registerTags key tags) := by
  unfold QueryCacheManager.registerTags
  split
  · rename_i register hregister
    exact keepsOwned_of_adds (provider.registerTags_adds register hregister key tags)
  · exact Prog.Preserves.pure ()

/-- What a miss does when the executor returns. -/
theorem executeAndStore_ok (now : Int) (options : CacheOptions) (key : CacheKey)
    (result : QueryResult) :
    (provider.manager defaultTtl).executeAndStore now options key (.ok result) =
      (QueryCacheManager.ofExcept (shouldCache result options) >>= fun cacheIt =>
        if !cacheIt then pure result
        else do
          provider.set now key result (some (options.ttl.getD defaultTtl))
          if !options.tags.isEmpty then
            (provider.manager defaultTtl).registerTags key options.tags
          return result) := rfl

/-- After a miss, only what the executor returned is stored. -/
theorem executeAndStore_preserves (now : Int) (options : CacheOptions) (key : CacheKey)
    (executor : Except Exn QueryResult) (hP : ∀ result, executor = .ok result → P key result) :
    Prog.Preserves (KeepsOwned provider.holds P)
      ((provider.manager defaultTtl).executeAndStore now options key executor) := by
  cases executor with
  | error e => exact fun s => id
  | ok result =>
    have hset : Prog.Preserves (KeepsOwned provider.holds P)
        (provider.set now key result (some (options.ttl.getD defaultTtl))) :=
      fun s => (provider.set_adds now key result _ s).keepsOwned
        fun key' value' hnew => hnew.1 ▸ hnew.2 ▸ hP result rfl
    have hregister : Prog.Preserves (KeepsOwned provider.holds P)
        ((provider.manager defaultTtl).registerTags key options.tags >>= fun _ => pure result) :=
      (registerTags_preserves provider defaultTtl key options.tags).bind
        fun _ => Prog.Preserves.pure result
    rw [executeAndStore_ok]
    refine Prog.Preserves.bind (ofExcept_preserves provider _) fun cacheIt => ?_
    refine Prog.Preserves.ite (fun _ => Prog.Preserves.pure result) fun _ => ?_
    refine Prog.Preserves.bind hset fun _ => ?_
    exact Prog.Preserves.ite (fun _ => hregister) fun _ => Prog.Preserves.pure result

/-- After a miss, the caller gets what the executor returned. -/
theorem executeAndStore_returns {now : Int} {options : CacheOptions} {key : CacheKey}
    {executor : Except Exn QueryResult} {result : QueryResult} {s s' : σ}
    (h : ((provider.manager defaultTtl).executeAndStore now options key executor).exec s =
      (.ok result, s')) : executor = .ok result := by
  cases executor with
  | error e =>
    have herror : Except.error e = Except.ok result := congrArg Prod.fst h
    simp at herror
  | ok value =>
    have hreturn : ∀ s s', Prog.exec (pure value : Prog Exn σ QueryResult) s = (.ok result, s') →
        value = result := by
      intro s s' h
      rw [Prog.exec_pure, Prod.mk.injEq, Except.ok.injEq] at h
      exact h.1
    rw [executeAndStore_ok] at h
    obtain ⟨cacheIt, s₁, _, h⟩ := Prog.exec_bind_eq_ok.mp h
    apply congrArg Except.ok
    split at h
    · exact hreturn _ _ h
    · obtain ⟨_, s₂, _, h⟩ := Prog.exec_bind_eq_ok.mp h
      split at h
      · obtain ⟨_, s₃, _, h⟩ := Prog.exec_bind_eq_ok.mp h
        exact hreturn _ _ h
      · exact hreturn _ _ h

/-- A call of `get_or_execute` with a key and an executor. -/
theorem cached_eq (call : CachedCall) {executor : Except Exn QueryResult}
    (hkey : call.options.key ≠ []) (hexecutor : call.executor = some executor) :
    (provider.manager defaultTtl).cached call =
      (provider.get call.now call.providerKey >>= fun cached =>
        match cached with
        | some cached => pure cached
        | none => (provider.manager defaultTtl).executeAndStore call.now call.options
            call.providerKey executor) := by
  have hempty : call.options.key.isEmpty = false := by simpa using hkey
  unfold QueryCacheManager.cached QueryCacheManager.getOrExecute
  rw [hempty, hexecutor]
  rfl

/-- A call without a key or without an executor throws at once. -/
theorem cached_throws {call : CachedCall}
    (h : call.options.key = [] ∨ call.executor = none) :
    ∃ e, (provider.manager defaultTtl).cached call = throw e := by
  unfold QueryCacheManager.cached QueryCacheManager.getOrExecute
  by_cases hkey : call.options.key = []
  · exact ⟨_, by rw [hkey]; rfl⟩
  · have hempty : call.options.key.isEmpty = false := by simpa using hkey
    have hnone : call.executor = none := h.resolve_left hkey
    exact ⟨_, by rw [hempty, hnone]; rfl⟩

/-- What a call does and needs, in one place: it throws at once, or it asks the provider
    and on a miss the executor. -/
theorem cached_cases (call : CachedCall) :
    (∃ e, (provider.manager defaultTtl).cached call = throw e) ∨
      ∃ executor, call.options.key ≠ [] ∧ call.executor = some executor ∧
        (provider.manager defaultTtl).cached call =
          (provider.get call.now call.providerKey >>= fun cached =>
            match cached with
            | some cached => pure cached
            | none => (provider.manager defaultTtl).executeAndStore call.now call.options
                call.providerKey executor) := by
  by_cases hkey : call.options.key = []
  · exact Or.inl (cached_throws provider defaultTtl (Or.inl hkey))
  · cases hexecutor : call.executor with
    | none => exact Or.inl (cached_throws provider defaultTtl (Or.inr hexecutor))
    | some executor =>
      exact Or.inr ⟨executor, hkey, rfl, cached_eq provider defaultTtl call hkey hexecutor⟩

/-- The values that the provider may hold in a run of these calls. -/
def Stored (calls : List CachedCall) (key : CacheKey) (result : QueryResult) : Prop :=
  ∃ call ∈ calls, call.options.key ≠ [] ∧ call.providerKey = key ∧
    call.executor = some (.ok result)

/-- The calls of `get_or_execute` among some calls. -/
def cachedCalls (calls : List ManagerCall) : List CachedCall :=
  calls.filterMap fun
    | .getOrExecute call => some call
    | _ => none

theorem next_keepsOwned {calls : List CachedCall} (s : σ) (call : ManagerCall)
    (hcall : ∀ c, call = .getOrExecute c → c ∈ calls) :
    KeepsOwned provider.holds (Stored calls) s ((provider.manager defaultTtl).next s call) := by
  cases call with
  | getOrExecute call =>
    show KeepsOwned _ _ s (((provider.manager defaultTtl).cached call).exec s).2
    cases cached_cases provider defaultTtl call with
    | inl h =>
      obtain ⟨e, h⟩ := h
      rw [h]
      exact fun hs => hs
    | inr h =>
      obtain ⟨executor, hkey, hexecutor, h⟩ := h
      rw [h]
      refine (keepsOwned_of_adds (provider.get_adds _ _)).bind (fun cached => ?_) s
      cases cached with
      | some cached => exact Prog.Preserves.pure cached
      | none =>
        apply executeAndStore_preserves
        intro result hresult
        exact ⟨call, hcall call rfl, hkey, rfl, by rw [hexecutor, hresult]⟩
  | invalidateKey key tenantId => exact keepsOwned_of_adds (provider.invalidate_adds _) s
  | invalidateTags tags => exact keepsOwned_of_adds (provider.invalidateTags_adds _) s
  | invalidatePrefix start => exact keepsOwned_of_adds (provider.invalidatePrefix_adds _) s
  | clear =>
    show KeepsOwned _ _ s ((provider.manager defaultTtl).clear.exec s).2
    unfold QueryCacheManager.clear
    split
    · rename_i clear hclear
      exact keepsOwned_of_adds (provider.clearCache_adds clear hclear) s
    · exact fun hs => hs

/-- What a call returns was stored under its key, or its executor returned it. -/
theorem cached_returns {call : CachedCall} {result : QueryResult} {s s' : σ}
    (h : ((provider.manager defaultTtl).cached call).exec s = (.ok result, s')) :
    call.options.key ≠ [] ∧
      (provider.holds s call.providerKey result ∨ call.executor = some (.ok result)) := by
  cases cached_cases provider defaultTtl call with
  | inl hthrow =>
    obtain ⟨e, hthrow⟩ := hthrow
    rw [hthrow, Prog.exec_throw] at h
    exact absurd (congrArg Prod.fst h) (by simp)
  | inr hcall =>
    obtain ⟨executor, hkey, hexecutor, hcall⟩ := hcall
    rw [hcall] at h
    obtain ⟨cached, s₁, hget, h⟩ := Prog.exec_bind_eq_ok.mp h
    cases cached with
    | some cached =>
      rw [Prog.exec_pure, Prod.mk.injEq, Except.ok.injEq] at h
      rw [h.1] at hget
      exact ⟨hkey, Or.inl (provider.get_holds _ _ _ _ _ hget)⟩
    | none =>
      have := executeAndStore_returns provider defaultTtl h
      exact ⟨hkey, Or.inr (by rw [hexecutor, this])⟩

/-- Calls of different scopes have keys that do not collide. -/
def CallsApart (calls : List CachedCall) : Prop :=
  ∀ c ∈ calls, ∀ c' ∈ calls, c.tenantId ≠ c'.tenantId →
    c.options.key ≠ [] → c'.options.key ≠ [] →
      ¬ Collides c.tenantId c.options.key c'.tenantId c'.options.key

/-- In a run of calls that are apart, a result stays with its scope. -/
theorem returned_of_scope {s₀ : σ} (hs₀ : ∀ key value, ¬ provider.holds s₀ key value)
    {calls : List ManagerCall} {call : CachedCall} (hapart : CallsApart (cachedCalls calls ++ [call]))
    {result : QueryResult} {s' : σ}
    (h : ((provider.manager defaultTtl).cached call).exec
      (runEvents (provider.manager defaultTtl).next s₀ calls) = (.ok result, s')) :
    ∃ c ∈ cachedCalls calls ++ [call], c.Yields call.tenantId result := by
  -- along the run, everything stored comes from a call of the run
  have howned : Owned provider.holds (Stored (cachedCalls calls))
      (runEvents (provider.manager defaultTtl).next s₀ calls) := by
    apply runEvents_invariant (Owned provider.holds (Stored (cachedCalls calls)))
    · intro s event hevent hs
      apply next_keepsOwned provider defaultTtl s event _ hs
      intro c hc
      subst hc
      exact List.mem_filterMap.mpr ⟨_, hevent, rfl⟩
    · exact fun key value hv => absurd hv (hs₀ key value)
  obtain ⟨hkey, hreturned⟩ := cached_returns provider defaultTtl h
  have hcall : call ∈ cachedCalls calls ++ [call] :=
    List.mem_append_right _ List.mem_cons_self
  cases hreturned with
  | inr hexecutor => exact ⟨call, hcall, rfl, hexecutor⟩
  | inl hholds =>
    obtain ⟨c, hc, hckey, hsame, hexecutor⟩ := howned _ _ hholds
    have hc' : c ∈ cachedCalls calls ++ [call] := List.mem_append_left _ hc
    refine ⟨c, hc', ?_, hexecutor⟩
    -- the call that stored it has the same provider key, so it has the same scope
    by_contra hscope
    exact hapart c hc' call hcall hscope hckey hkey ((generateKey_eq_iff hscope _ _).mp hsame)

end Isolation

/-- Two scopes have different provider keys exactly when their query keys do not collide;
    and in every run whose calls do not collide, over any provider that starts empty, a
    call returns what an executor of its own scope returned. -/
theorem tenant_isolation {σ : Type} (provider : LawfulProvider σ) (defaultTtl : Int) {s₀ : σ}
    (hs₀ : ∀ key value, ¬ provider.holds s₀ key value) :
    (∀ (s s' : Option CacheTenantId) (k l : List UInt8), s ≠ s' → k ≠ [] → l ≠ [] →
      (generateKey k s ≠ generateKey l s' ↔ ¬ Collides s k s' l)) ∧
    ∀ (calls : List ManagerCall) (call : CachedCall) (result : QueryResult) (s' : σ),
      CallsApart (cachedCalls calls ++ [call]) →
      ((provider.manager defaultTtl).cached call).exec
        (runEvents (provider.manager defaultTtl).next s₀ calls) = (.ok result, s') →
      ∃ c ∈ cachedCalls calls ++ [call], c.Yields call.tenantId result :=
  ⟨fun _ _ k l hs _ _ => not_congr (generateKey_eq_iff hs k l),
    fun _ _ _ _ hapart h => returned_of_scope provider defaultTtl hs₀ hapart h⟩

/-- A call of `get_or_execute` for this tenant. -/
private def tenantCall (tenant key : String) (affectedRows : Int64) : CachedCall where
  now := 0
  options := ⟨ByteString.ascii key, none, [], none⟩
  executor := some (.ok ⟨[], affectedRows, 0⟩)
  tenantId := some (.string (ByteString.ascii tenant))

private theorem acme_globex_apart :
    CallsApart [tenantCall "acme" "users" 1, tenantCall "globex" "users" 2] := by
  intro c hc c' hc' hscope _ _ hcol
  have hkey := (generateKey_eq_iff hscope _ _).mpr hcol
  simp only [List.mem_cons, List.not_mem_nil, or_false] at hc hc'
  obtain rfl | rfl := hc <;> obtain rfl | rfl := hc'
  · exact hscope rfl
  · exact absurd hkey (by decide)
  · exact absurd hkey (by decide)
  · exact hscope rfl

private theorem empty_holds (key : CacheKey) (value : QueryResult) :
    ¬ MemoryCacheAdapter.lawful.holds .empty key value := by
  intro h
  obtain ⟨entry, hentry, _⟩ := h
  exact absurd hentry (by simp [MemoryCacheAdapter.empty])

/-- Two tenants with the same query key on the cache in memory. -/
theorem tenant_isolation_two_tenants :
    generateKey (ByteString.ascii "users") (some (.int64 7)) ≠
      generateKey (ByteString.ascii "users") (some (.int64 8)) ∧
    ∃ c ∈ [tenantCall "acme" "users" 1, tenantCall "globex" "users" 2],
      c.Yields (some (.string (ByteString.ascii "globex"))) ⟨[], 2, 0⟩ := by
  have hcontract := tenant_isolation MemoryCacheAdapter.lawful 0 empty_holds
  constructor
  · exact (hcontract.1 _ _ _ _ (by decide) (by decide) (by decide)).mpr
      (not_collides_int64 (by decide) _ _)
  · exact hcontract.2 [.getOrExecute (tenantCall "acme" "users" 1)]
      (tenantCall "globex" "users" 2) ⟨[], 2, 0⟩ _ acme_globex_apart rfl

/-- Tenant `acme` with the key `eu:users` and tenant `acme:eu` with the key `users` share a
    provider key, and the second gets the result of the first. -/
theorem not_tenant_isolation :
    (((MemoryCacheAdapter.lawful.manager 0).cached (tenantCall "acme:eu" "users" 2)).exec
      (runEvents (MemoryCacheAdapter.lawful.manager 0).next .empty
        [.getOrExecute (tenantCall "acme" "eu:users" 1)])).1 = .ok ⟨[], 1, 0⟩ ∧
    ¬ ∀ (s s' : Option CacheTenantId) (k l : List UInt8), s ≠ s' → k ≠ [] → l ≠ [] →
      generateKey k s ≠ generateKey l s' := by
  constructor
  · rfl
  · intro h
    exact h (some (.string (ByteString.ascii "acme"))) (some (.string (ByteString.ascii "acme:eu")))
      (ByteString.ascii "eu:users") (ByteString.ascii "users") (by decide) (by decide) (by decide)
      (by decide)

end MetalOrm.Native
