import MetalOrm.Native.CacheClients
import MetalOrm.Spec.TagInvalidation

/-!
# Results from before an invalidation

After an invalidation has returned, a `get_or_execute` returns a result from before it only when a
`get_or_execute` had begun to execute before the invalidation was called, and stored its result or
registered its tags after the invalidation looked for them.

## Key results

- `Traced.next`: what the entries, the clients and the results come from
- `fresh_of_quiet`: no stale result, where no invalidation comes in between
- `not_fresh`: the run in which one does
-/

namespace MetalOrm.Native

open ForStd

/-! ## What an invalidation is about -/

/-- The request was cached under one of the tags. -/
def CacheRequest.TaggedBy (tags : List Tag) (request : CacheRequest) : Prop :=
  ∃ tag ∈ tags, tag ∈ request.options.tags ∧ tag ≠ []

/-- The request is for one of the keys, or it was cached under one of the tags. -/
def CacheRequest.About (tags : List Tag) (keys : List CacheKey) (request : CacheRequest) : Prop :=
  request.key ∈ keys ∨ request.TaggedBy tags

/-- The client does not hold up the invalidation: it is not about to store a result, or to register
    tags, that the invalidation is about and whose executor began before it was called. -/
def ClientStep.Quiet (runs : Nat) (tags : List Tag) (keys : List CacheKey) : ClientStep → Prop
  | .executing _ run request | .store _ run request _ => request.About tags keys → runs ≤ run
  | .register _ run request _ => request.TaggedBy tags → runs ≤ run
  | .lookUp .. | .execute .. | .invalidate .. => True

namespace CacheClients

/-- When an invalidation calls the provider, no client holds it up. -/
def QuietInvalidation (s : CacheClients) (e : ClientEvent) : Prop :=
  ∀ client now outcome runs target, e = .step client now outcome →
    s.pending client = some (.invalidate runs target) →
      ∀ other current, s.pending other = some current →
        current.Quiet runs target.tagsOf (target.keysOf s.cache)

/-- A result comes from an executor run for its key. When the call began after an invalidation of
    it had returned, that executor had not begun before the invalidation was called. -/
def FreshReturn (s : CacheClients) (ret : CacheReturn) : Prop :=
  ∃ request, s.runs[ret.run]? = some request ∧ request.key = ret.key ∧
    ∀ inv ∈ s.invalidated, inv.calls ≤ ret.call → request.About inv.tags inv.keys →
      inv.runs ≤ ret.run

/-- No result is stale. -/
def Fresh (s : CacheClients) : Prop := ∀ ret ∈ s.returned, s.FreshReturn ret

/-! ## The invariant -/

/-- A step of a client, as far as it is known. -/
def StepTraced (s : CacheClients) : ClientStep → Prop
  | .lookUp call _ | .execute call _ => call < s.calls
  | .executing call run request | .store call run request _ =>
    call < s.calls ∧ s.runs[run]? = some request ∧
      ∀ inv ∈ s.invalidated, inv.calls ≤ call ∨ request.About inv.tags inv.keys → inv.runs ≤ run
  | .register call run request _ =>
    call < s.calls ∧ s.runs[run]? = some request ∧
      ∀ inv ∈ s.invalidated, inv.calls ≤ call → inv.runs ≤ run
  | .invalidate runs _ => runs ≤ s.runs.length

/-- An entry comes from a run that no invalidation of it was called after. -/
def EntryTraced (s : CacheClients) (key : CacheKey) (entry : CacheEntry) : Prop :=
  ∃ request, s.runs[entry.writer]? = some request ∧ request.key = key ∧
    ∀ inv ∈ s.invalidated, request.About inv.tags inv.keys → inv.runs ≤ entry.writer

/-- The tags of an entry are in the index, or about to be registered. -/
def EntryTagged (s : CacheClients) (key : CacheKey) (entry : CacheEntry) : Prop :=
  ∀ request, s.runs[entry.writer]? = some request →
    (∃ client call result, s.pending client = some (.register call entry.writer request result)) ∨
      ∀ tag ∈ request.options.tags, tag ≠ [] → key ∈ s.cache.tagIndex.tagToKeys tag

/-- What holds in every state. -/
structure Traced (s : CacheClients) : Prop where
  steps : ∀ client current, s.pending client = some current → s.StepTraced current
  entries : ∀ key entry, s.cache.storage.lookup key = some entry → s.EntryTraced key entry
  tagged : ∀ key entry, s.cache.storage.lookup key = some entry → s.EntryTagged key entry
  invalidations : ∀ inv ∈ s.invalidated, inv.runs ≤ s.runs.length
  calls : ∀ ret ∈ s.returned, ret.call < s.calls
  fresh : s.Fresh

theorem traced_init : Traced init where
  steps _ _ h := nomatch h
  entries _ _ h := nomatch h
  tagged _ _ h := nomatch h
  invalidations _ h := nomatch h
  calls _ h := nomatch h
  fresh _ h := nomatch h

/-! ### More calls and more runs -/

/-- There are more calls and runs, and the invalidations are the same. -/
structure Grows (s s' : CacheClients) : Prop where
  calls : s.calls ≤ s'.calls
  runs : s.runs <+: s'.runs
  invalidated : s'.invalidated = s.invalidated

theorem Grows.getElem? {s s' : CacheClients} (h : Grows s s') {run : Nat} {request : CacheRequest}
    (hrun : s.runs[run]? = some request) : s'.runs[run]? = some request := by
  obtain ⟨more, hmore⟩ := h.runs
  rw [← hmore]
  exact List.getElem?_append_left (List.getElem?_eq_some_iff.mp hrun).1 |>.trans hrun

theorem StepTraced.grow {s s' : CacheClients} (h : Grows s s') {current : ClientStep}
    (hcurrent : s.StepTraced current) : s'.StepTraced current := by
  have hcalls := h.calls
  cases current with
  | lookUp | execute =>
    simp only [StepTraced] at hcurrent ⊢
    omega
  | executing | store | register =>
    obtain ⟨hcall, hrun, hinv⟩ := hcurrent
    refine ⟨by omega, h.getElem? hrun, ?_⟩
    rw [h.invalidated]
    exact hinv
  | invalidate =>
    have hlength := h.runs.length_le
    simp only [StepTraced] at hcurrent ⊢
    omega

theorem EntryTraced.grow {s s' : CacheClients} (h : Grows s s') {key : CacheKey}
    {entry : CacheEntry} (hentry : s.EntryTraced key entry) : s'.EntryTraced key entry := by
  obtain ⟨request, hrun, hkey, hinv⟩ := hentry
  refine ⟨request, h.getElem? hrun, hkey, ?_⟩
  rw [h.invalidated]
  exact hinv

theorem FreshReturn.grow {s s' : CacheClients} (h : Grows s s') {ret : CacheReturn}
    (hfresh : s.FreshReturn ret) : s'.FreshReturn ret := by
  obtain ⟨request, hrun, hkey, hinv⟩ := hfresh
  refine ⟨request, h.getElem? hrun, hkey, ?_⟩
  rw [h.invalidated]
  exact hinv

/-- A step that invalidates nothing keeps the invariant, if what it adds is as it should be. -/
theorem Traced.grow {s s' : CacheClients} (h : s.Traced) (hgrows : Grows s s')
    (hsteps : ∀ client current, s'.pending client = some current →
      s.pending client = some current ∨ s'.StepTraced current)
    (hentries : ∀ key entry, s'.cache.storage.lookup key = some entry →
      s.cache.storage.lookup key = some entry ∨ s'.EntryTraced key entry)
    (htagged : ∀ key entry, s'.cache.storage.lookup key = some entry → s'.EntryTagged key entry)
    (hreturned : ∀ ret ∈ s'.returned,
      ret ∈ s.returned ∨ ret.call < s'.calls ∧ s'.FreshReturn ret) : s'.Traced where
  steps client current hcurrent := by
    obtain hold | hnew := hsteps client current hcurrent
    · exact (h.steps client current hold).grow hgrows
    · exact hnew
  entries key entry hentry := by
    obtain hold | hnew := hentries key entry hentry
    · exact (h.entries key entry hold).grow hgrows
    · exact hnew
  tagged := htagged
  invalidations inv hinv := by
    rw [hgrows.invalidated] at hinv
    exact Nat.le_trans (h.invalidations inv hinv) hgrows.runs.length_le
  calls ret hret := by
    obtain hold | hnew := hreturned ret hret
    · exact Nat.lt_of_lt_of_le (h.calls ret hold) hgrows.calls
    · exact hnew.1
  fresh ret hret := by
    obtain hold | hnew := hreturned ret hret
    · exact (h.fresh ret hold).grow hgrows
    · exact hnew.2

/-! ### Caches with fewer entries -/

/-- The entries of `cache'` are entries of `cache`, and they have the tags they had. -/
def Kept (cache cache' : MemoryCacheAdapter) : Prop :=
  ∀ key entry, cache'.storage.lookup key = some entry → cache.storage.lookup key = some entry ∧
    ∀ tag, key ∈ cache.tagIndex.tagToKeys tag → key ∈ cache'.tagIndex.tagToKeys tag

theorem Kept.refl (cache : MemoryCacheAdapter) : Kept cache cache :=
  fun _ _ h => ⟨h, fun _ hmem => hmem⟩

theorem kept_deleteKey (cache : MemoryCacheAdapter) (key : CacheKey) :
    Kept cache (cache.deleteKey key) := by
  intro key' entry h
  have hne : key' ≠ key := by
    rintro rfl
    simp [MemoryCacheAdapter.deleteKey, MemoryCacheAdapter.unregister,
      MemoryCacheAdapter.erase] at h
  exact ⟨MemoryCacheAdapter.lookup_erase h, fun tag => TagIndex.unregister_other hne⟩

theorem kept_get (cache : MemoryCacheAdapter) (now : Int) (key : CacheKey) :
    Kept cache (cache.get now key).2 := by
  unfold MemoryCacheAdapter.get MemoryCacheAdapter.getSection
  cases cache.storage.lookup key with
  | none => exact Kept.refl cache
  | some entry =>
    cases hexpired : entry.expired now with
    | true =>
      simp only [hexpired, if_true]
      exact kept_deleteKey cache key
    | false =>
      simp only [hexpired]
      exact Kept.refl cache

theorem kept_registerTags (cache : MemoryCacheAdapter) (key : CacheKey) (tags : List Tag) :
    Kept cache (cache.registerTags key tags) :=
  fun _ _ h => ⟨h, fun _ hmem => TagIndex.registerKey_mono hmem tags⟩

theorem kept_invalidateTags (cache : MemoryCacheAdapter) (tags : List Tag) :
    Kept cache (cache.invalidateTags tags) := by
  intro key entry h
  obtain ⟨hkey, hlookup⟩ := MemoryCacheAdapter.lookup_eraseAll h
  refine ⟨hlookup, fun tag hmem => ?_⟩
  rw [MemoryCacheAdapter.invalidateTags, CriticalSection.eraseAll_tagIndex]
  exact TagIndex.foldl_unregister_other hkey hmem

theorem kept_run (cache : MemoryCacheAdapter) (target : CacheTarget) :
    Kept cache (target.run cache) := by
  cases target with
  | ofTags tags => exact kept_invalidateTags cache tags
  | ofKey key => exact kept_deleteKey cache key

/-- An entry that an invalidation leaves is under none of its keys, and none of its tags. -/
theorem not_mem_of_run {cache : MemoryCacheAdapter} {target : CacheTarget} {key : CacheKey}
    {entry : CacheEntry} (h : (target.run cache).storage.lookup key = some entry) :
    key ∉ target.keysOf cache ∧ ∀ tag ∈ target.tagsOf, key ∉ cache.tagIndex.tagToKeys tag := by
  cases target with
  | ofTags tags =>
    have hkey := (MemoryCacheAdapter.lookup_eraseAll h).1
    exact ⟨hkey, fun tag htag hmem => hkey (TagIndex.mem_keysOf htag hmem)⟩
  | ofKey key' =>
    refine ⟨?_, fun _ hmem => nomatch hmem⟩
    intro hmem
    obtain rfl := List.mem_singleton.mp hmem
    simp [CacheTarget.run, MemoryCacheAdapter.deleteKey, MemoryCacheAdapter.unregister,
      MemoryCacheAdapter.erase] at h

/-- A step that keeps the entries, and is no `register_tags`, leaves them tagged. -/
theorem Traced.tagged_of_kept {s : CacheClients} (h : s.Traced) (s' : CacheClients)
    (hruns : s.runs <+: s'.runs)
    (hkept : Kept s.cache s'.cache)
    (hpending : ∀ client call run request result,
      s.pending client = some (.register call run request result) →
        s'.pending client = some (.register call run request result))
    (key : CacheKey) (entry : CacheEntry) (hentry : s'.cache.storage.lookup key = some entry) :
    s'.EntryTagged key entry := by
  intro request hrequest
  obtain ⟨hlookup, htags⟩ := hkept key entry hentry
  obtain ⟨request', hrun, -, -⟩ := h.entries key entry hlookup
  obtain ⟨more, hmore⟩ := hruns
  have hsame : s'.runs[entry.writer]? = some request' := by
    rw [← hmore]
    exact List.getElem?_append_left (List.getElem?_eq_some_iff.mp hrun).1 |>.trans hrun
  obtain rfl : request' = request := Option.some.inj (hsame.symm.trans hrequest)
  obtain ⟨client, call, result, hclient⟩ | hindex := h.tagged key entry hlookup request' hrun
  · exact .inl ⟨client, call, result, hpending _ _ _ _ _ hclient⟩
  · exact .inr fun tag htag hne => htags tag (hindex tag htag hne)

/-! ### One step -/

section Take

variable {s : CacheClients} (h : s.Traced) {client : Nat} {now : Int} (defaultTtl : Int)
  (outcome : Except Exn QueryResult)

/-- Another client is where it was. -/
theorem pending_of_ne {other : Nat} {next : Option ClientStep} (hne : other ≠ client) :
    (s.goto client next).pending other = s.pending other := Function.update_of_ne hne _ _

/-- A client that is at a step after one client moved was there, or is the one that moved. -/
theorem pending_goto {other : Nat} {next : Option ClientStep} {current : ClientStep}
    (hcurrent : (s.goto client next).pending other = some current) :
    s.pending other = some current ∨ next = some current := by
  by_cases hne : other = client
  · subst hne
    have hself : (s.goto other next).pending other = next := Function.update_self _ _ _
    exact .inr (hself.symm.trans hcurrent)
  · exact .inl ((pending_of_ne hne).symm.trans hcurrent)

/-- A client that does not register stays out of the way of those that do. -/
theorem register_goto {next : Option ClientStep} {current : ClientStep}
    (hclient : s.pending client = some current)
    (hnot : ∀ call run request result, current ≠ .register call run request result)
    (other call run : Nat) (request : CacheRequest) (result : QueryResult)
    (hother : s.pending other = some (.register call run request result)) :
    (s.goto client next).pending other = some (.register call run request result) := by
  have hne : other ≠ client := by
    rintro rfl
    exact hnot _ _ _ _ (Option.some.inj (hclient.symm.trans hother))
  rw [pending_of_ne hne, hother]

include h in
/-- The client moves, and the cache changes. -/
theorem Traced.goto (cache : MemoryCacheAdapter) (next : Option ClientStep)
    (hnext : ∀ step ∈ next, s.StepTraced step)
    (hentries : ∀ key entry, cache.storage.lookup key = some entry →
      s.cache.storage.lookup key = some entry ∨ s.EntryTraced key entry)
    (htagged : ∀ key entry, cache.storage.lookup key = some entry →
      ({ s with cache }.goto client next).EntryTagged key entry) :
    ({ s with cache }.goto client next).Traced := by
  have hgrows : Grows s ({ s with cache }.goto client next) :=
    ⟨Nat.le_refl _, List.prefix_rfl, rfl⟩
  apply h.grow hgrows _ hentries htagged
  · exact fun ret hret => .inl hret
  · intro other step hstep
    exact (pending_goto hstep).imp_right fun hnew => hnext step hnew

include h in
/-- The client returns a result that is fresh. -/
theorem Traced.finish (cache : MemoryCacheAdapter) {call run : Nat} {key : CacheKey}
    {result : QueryResult} (hcall : call < s.calls)
    (hfresh : s.FreshReturn ⟨call, key, run, result⟩)
    (hentries : ∀ key entry, cache.storage.lookup key = some entry →
      s.cache.storage.lookup key = some entry ∨ s.EntryTraced key entry)
    (htagged : ∀ key entry, cache.storage.lookup key = some entry →
      ({ s with cache }.goto client none).EntryTagged key entry) :
    ({ s with cache }.finish client call key run result).Traced := by
  have hgrows : Grows s ({ s with cache }.finish client call key run result) :=
    ⟨Nat.le_refl _, List.prefix_rfl, rfl⟩
  apply h.grow hgrows _ hentries htagged
  · intro ret hret
    obtain rfl | hret := List.mem_cons.mp hret
    · exact .inr ⟨hcall, hfresh⟩
    · exact .inl hret
  · intro other step hstep
    exact (pending_goto (s := { s with cache }) hstep).imp_right fun hnew => nomatch hnew

include h in
/-- `provider_->get(key)`. -/
theorem traced_lookUp {call : Nat} {request : CacheRequest}
    (hclient : s.pending client = some (.lookUp call request)) :
    (s.take defaultTtl client now outcome (.lookUp call request)).Traced := by
  have hcall := h.steps client _ hclient
  have hkept := kept_get s.cache now request.key
  cases hget : s.cache.get now request.key with
  | mk value cache =>
    rw [hget] at hkept
    simp only [take, hget]
    have hentries : ∀ key entry, cache.storage.lookup key = some entry →
        s.cache.storage.lookup key = some entry ∨ s.EntryTraced key entry :=
      fun key entry hentry => .inl (hkept key entry hentry).1
    have htagged : ∀ next key entry, cache.storage.lookup key = some entry →
        ({ s with cache }.goto client next).EntryTagged key entry :=
      fun next => h.tagged_of_kept ({ s with cache }.goto client next) List.prefix_rfl hkept
        (register_goto hclient fun _ _ _ _ => nofun)
    cases value with
    | none =>
      apply h.goto cache _ _ hentries (htagged _)
      intro step hstep
      obtain rfl := Option.some.inj hstep
      exact hcall
    | some cached =>
      -- the result is as fresh as the entry
      apply h.finish cache hcall _ hentries (htagged none)
      have hsection : (s.cache.getSection now request.key).1.1 = some cached := congrArg Prod.fst hget
      obtain ⟨entry, hlookup, -⟩ := MemoryCacheAdapter.getSection_some hsection
      obtain ⟨request', hrun, hkey, hinv⟩ := h.entries request.key entry hlookup
      have hwriter : s.cache.runOf request.key = entry.writer := by
        rw [MemoryCacheAdapter.runOf, hlookup]
        rfl
      rw [hwriter]
      exact ⟨request', hrun, hkey, fun inv hmem _ habout => hinv inv hmem habout⟩

include h in
/-- The executor begins. -/
theorem traced_execute {call : Nat} {request : CacheRequest}
    (hclient : s.pending client = some (.execute call request)) :
    (s.take defaultTtl client now outcome (.execute call request)).Traced := by
  have hcall : call < s.calls := h.steps client _ hclient
  have hgrows : Grows s (s.take defaultTtl client now outcome (.execute call request)) :=
    ⟨Nat.le_refl _, List.prefix_append _ _, rfl⟩
  apply h.grow hgrows
  · intro other step hstep
    obtain hold | hnew := pending_goto (s := { s with runs := s.runs ++ [request] }) hstep
    · exact .inl hold
    · obtain rfl := Option.some.inj hnew
      refine .inr ⟨hcall, List.getElem?_concat_length, ?_⟩
      exact fun inv hinv _ => h.invalidations inv hinv
  · exact fun key entry hentry => .inl hentry
  · exact h.tagged_of_kept _ hgrows.runs (Kept.refl _)
      (register_goto hclient fun _ _ _ _ => nofun)
  · exact fun ret hret => .inl hret

include h in
/-- The executor ends. -/
theorem traced_executing {call run : Nat} {request : CacheRequest}
    (hclient : s.pending client = some (.executing call run request)) :
    (s.take defaultTtl client now outcome (.executing call run request)).Traced := by
  have hstep := h.steps client _ hclient
  have hentries : ∀ key entry, s.cache.storage.lookup key = some entry →
      s.cache.storage.lookup key = some entry ∨ s.EntryTraced key entry :=
    fun key entry hentry => .inl hentry
  have htagged : ∀ next key entry, s.cache.storage.lookup key = some entry →
      (s.goto client next).EntryTagged key entry :=
    fun next => h.tagged_of_kept (s.goto client next) List.prefix_rfl (Kept.refl _)
      (register_goto hclient fun _ _ _ _ => nofun)
  have hidle : (s.goto client none).Traced :=
    h.goto s.cache none (fun _ hnone => nomatch hnone) hentries (htagged none)
  cases outcome with
  | error error => exact hidle
  | ok result =>
    simp only [take]
    cases shouldCache result request.options with
    | error error => exact hidle
    | ok cached =>
      cases cached with
      | false =>
        apply h.finish s.cache hstep.1 _ hentries (htagged none)
        exact ⟨request, hstep.2.1, rfl, fun inv hinv hcall _ => hstep.2.2 inv hinv (.inl hcall)⟩
      | true =>
        apply h.goto s.cache _ _ hentries (htagged _)
        intro step hnext
        obtain rfl := Option.some.inj hnext
        exact hstep

include h in
/-- `provider_->set(key, result, ttl)`. -/
theorem traced_store {call run : Nat} {request : CacheRequest} {result : QueryResult}
    (hclient : s.pending client = some (.store call run request result)) :
    (s.take defaultTtl client now outcome (.store call run request result)).Traced := by
  obtain ⟨hcall, hrun, hinv⟩ := h.steps client _ hclient
  have hregister : ∀ next other call run request result,
      s.pending other = some (.register call run request result) →
        (s.goto client next).pending other = some (.register call run request result) :=
    fun next => register_goto hclient fun _ _ _ _ => nofun
  simp only [take]
  generalize hbuild : CacheEntry.build now result (some (request.options.ttl.getD defaultTtl)) run =
    new
  have hwriter : new.writer = run := by
    rw [← hbuild]
    rfl
  have hlookup : ∀ {key entry}, (s.cache.store request.key new).storage.lookup key = some entry →
      (key = request.key ∧ entry = new) ∨
        (key ≠ request.key ∧ s.cache.storage.lookup key = some entry) := by
    intro key entry hentry
    by_cases hkey : key = request.key
    · subst hkey
      rw [MemoryCacheAdapter.store, AList.lookup_insert, Option.some.injEq] at hentry
      exact .inl ⟨rfl, hentry.symm⟩
    · rw [MemoryCacheAdapter.store, AList.lookup_insert_ne hkey] at hentry
      exact .inr ⟨hkey, hentry⟩
  have hentries : ∀ key entry, (s.cache.store request.key new).storage.lookup key = some entry →
      s.cache.storage.lookup key = some entry ∨ s.EntryTraced key entry := by
    intro key entry hentry
    obtain ⟨rfl, rfl⟩ | ⟨-, hold⟩ := hlookup hentry
    · refine .inr ⟨request, hwriter ▸ hrun, rfl, fun inv hmem habout => ?_⟩
      rw [hwriter]
      exact hinv inv hmem (.inr habout)
    · exact .inl hold
  -- the tags of the new entry are none, or they are registered next
  have htagged : ∀ next, (request.options.tags = [] ∨
        next = some (.register call run request result)) →
      ∀ key entry, (s.cache.store request.key new).storage.lookup key = some entry →
        ({ s with cache := s.cache.store request.key new }.goto client next).EntryTagged key
          entry := by
    intro next hnext key entry hentry
    obtain ⟨rfl, rfl⟩ | ⟨-, hold⟩ := hlookup hentry
    · intro request' hrequest
      obtain rfl : request = request' := by
        rw [hwriter] at hrequest
        exact Option.some.inj (hrun.symm.trans hrequest)
      obtain hempty | rfl := hnext
      · rw [hempty]
        exact .inr fun _ hmem => absurd hmem List.not_mem_nil
      · rw [hwriter]
        exact .inl ⟨client, call, result, Function.update_self _ _ _⟩
    · intro request' hrequest
      obtain ⟨other, call', result', hother⟩ | hindex := h.tagged key entry hold request' hrequest
      · exact .inl ⟨other, call', result', hregister next _ _ _ _ _ hother⟩
      · exact .inr hindex
  cases hempty : request.options.tags.isEmpty with
  | true =>
    apply h.finish _ hcall _ hentries (htagged none (.inl (List.isEmpty_iff.mp hempty)))
    exact ⟨request, hrun, rfl, fun inv hmem hafter _ => hinv inv hmem (.inl hafter)⟩
  | false =>
    apply h.goto _ _ _ hentries (htagged _ (.inr rfl))
    intro step hstep
    obtain rfl := Option.some.inj hstep
    exact ⟨hcall, hrun, fun inv hmem hafter => hinv inv hmem (.inl hafter)⟩

include h in
/-- `register_tags(key, options.tags)`. -/
theorem traced_register {call run : Nat} {request : CacheRequest} {result : QueryResult}
    (hclient : s.pending client = some (.register call run request result)) :
    (s.take defaultTtl client now outcome (.register call run request result)).Traced := by
  obtain ⟨hcall, hrun, hinv⟩ := h.steps client _ hclient
  have hkept := kept_registerTags s.cache request.key request.options.tags
  apply h.finish _ hcall
  · exact ⟨request, hrun, rfl, fun inv hmem hafter _ => hinv inv hmem hafter⟩
  · exact fun key entry hentry => .inl hentry
  · intro key entry hentry request' hrequest
    obtain ⟨other, call', result', hother⟩ | hindex := h.tagged key entry hentry request' hrequest
    · by_cases hne : other = client
      · -- the entry is the one whose tags are registered now
        subst hne
        obtain ⟨-, rfl, rfl, -⟩ := ClientStep.register.inj
          (Option.some.inj (hclient.symm.trans hother))
        obtain ⟨request', hrun', hkey, -⟩ := h.entries key entry hentry
        obtain rfl : request' = request := Option.some.inj (hrun'.symm.trans hrun)
        subst hkey
        exact .inr fun tag htag hne => TagIndex.mem_registerKey htag hne
      · exact .inl ⟨other, call', result', (pending_of_ne hne).trans hother⟩
    · exact .inr fun tag htag hne => (hkept key entry hentry).2 tag (hindex tag htag hne)

include h in
/-- An invalidation calls the provider. -/
theorem traced_invalidate {runs : Nat} {target : CacheTarget}
    (hclient : s.pending client = some (.invalidate runs target))
    (hquiet : ∀ other current, s.pending other = some current →
      current.Quiet runs target.tagsOf (target.keysOf s.cache)) :
    (s.take defaultTtl client now outcome (.invalidate runs target)).Traced := by
  have hkept := kept_run s.cache target
  have hruns : runs ≤ s.runs.length := h.steps client _ hclient
  constructor
  case steps =>
    intro other current hcurrent
    obtain hold | hnew := pending_goto hcurrent
    · have htraced := h.steps other current hold
      have hquiet := hquiet other current hold
      cases current with
      | lookUp | execute | invalidate => exact htraced
      | executing call run request | store call run request =>
        obtain ⟨hcall, hrun, hinv⟩ := htraced
        refine ⟨hcall, hrun, List.forall_mem_cons.mpr ⟨?_, hinv⟩⟩
        rintro (hafter | habout)
        · exact absurd hafter (Nat.not_le.mpr hcall)
        · exact hquiet habout
      | register call run request =>
        obtain ⟨hcall, hrun, hinv⟩ := htraced
        refine ⟨hcall, hrun, List.forall_mem_cons.mpr ⟨?_, hinv⟩⟩
        exact fun hafter => absurd hafter (Nat.not_le.mpr hcall)
    · cases hnew
  case entries =>
    intro key entry hentry
    obtain ⟨hlookup, -⟩ := hkept key entry hentry
    obtain ⟨hkeys, htags⟩ := not_mem_of_run hentry
    obtain ⟨request, hrun, rfl, hinv⟩ := h.entries key entry hlookup
    refine ⟨request, hrun, rfl, List.forall_mem_cons.mpr ⟨?_, hinv⟩⟩
    rintro (hkey | ⟨tag, htag, hmem, hne⟩)
    · exact absurd hkey hkeys
    · -- an entry that was not found is about to be registered
      obtain ⟨other, call, result, hother⟩ | hindex := h.tagged _ entry hlookup request hrun
      · exact hquiet other _ hother ⟨tag, htag, hmem, hne⟩
      · exact absurd (hindex tag hmem hne) (htags tag htag)
  case tagged =>
    exact h.tagged_of_kept _ List.prefix_rfl hkept
      (register_goto hclient fun _ _ _ _ => nofun)
  case invalidations => exact List.forall_mem_cons.mpr ⟨hruns, h.invalidations⟩
  case calls => exact h.calls
  case fresh =>
    intro ret hret
    obtain ⟨request, hrun, hkey, hinv⟩ := h.fresh ret hret
    refine ⟨request, hrun, hkey, List.forall_mem_cons.mpr ⟨?_, hinv⟩⟩
    exact fun hafter => absurd hafter (Nat.not_le.mpr (h.calls ret hret))

include h in
/-- A client begins a call. -/
theorem traced_begin {calls : Nat} {first : ClientStep} (hcalls : s.calls ≤ calls)
    (hfirst : ({ s with calls } : CacheClients).StepTraced first) :
    (s.begin client calls first).Traced := by
  unfold begin
  split
  · exact h
  · rename_i hidle
    have hgrows : Grows s ({ s with calls }.goto client (some first)) :=
      ⟨hcalls, List.prefix_rfl, rfl⟩
    apply h.grow hgrows
    · intro other step hstep
      obtain hold | hnew := pending_goto (s := { s with calls }) hstep
      · exact .inl hold
      · obtain rfl := Option.some.inj hnew
        exact .inr hfirst
    · exact fun key entry hentry => .inl hentry
    · refine h.tagged_of_kept _ List.prefix_rfl (Kept.refl _) fun other _ _ _ _ hother => ?_
      have hne : other ≠ client := by
        rintro rfl
        rw [hidle] at hother
        cases hother
      exact (pending_of_ne (s := { s with calls }) hne).trans hother
    · exact fun ret hret => .inl hret

end Take

/-! ## Runs -/

/-- One event keeps the invariant, unless it is an invalidation that a client holds up. -/
theorem Traced.next {s : CacheClients} (h : s.Traced) (defaultTtl : Int) (e : ClientEvent)
    (hquiet : s.QuietInvalidation e) : (s.next defaultTtl e).Traced := by
  cases e with
  | getOrExecute client options tenantId =>
    simp only [CacheClients.next]
    split
    · exact h
    · exact traced_begin h (Nat.le_succ _) (Nat.lt_succ_self _)
  | invalidateTags client tags => exact traced_begin h (Nat.le_refl _) (Nat.le_refl _)
  | invalidateKey client key tenantId => exact traced_begin h (Nat.le_refl _) (Nat.le_refl _)
  | step client now outcome =>
    simp only [CacheClients.next]
    cases hclient : s.pending client with
    | none => exact h
    | some current =>
      cases current with
      | lookUp call request => exact traced_lookUp h defaultTtl outcome hclient
      | execute call request => exact traced_execute h defaultTtl outcome hclient
      | executing call run request => exact traced_executing h defaultTtl outcome hclient
      | store call run request result => exact traced_store h defaultTtl outcome hclient
      | register call run request result => exact traced_register h defaultTtl outcome hclient
      | invalidate runs target =>
        exact traced_invalidate h defaultTtl outcome hclient
          (hquiet client now outcome runs target rfl hclient)

/-- In every interleaving in which no client holds up an invalidation when it calls the provider:
    once an invalidation has returned, no `get_or_execute` for a key that was cached under one of
    its tags, or for its key, that begins afterwards returns the result of an executor that had
    begun before the invalidation was called. -/
theorem fresh_of_quiet (defaultTtl : Int) (events : List ClientEvent)
    (hquiet : AlongEvents (next defaultTtl) QuietInvalidation init events) :
    (runEvents (next defaultTtl) init events).Fresh :=
  (hquiet.invariant (fun _ e h hquiet => Traced.next h defaultTtl e hquiet) traced_init).fresh

/-! ### An invalidation between an executor and the store -/

private def userOptions : CacheOptions :=
  ⟨ByteString.ascii "users", none, [ByteString.ascii "user-list"], none⟩

private def oldUsers : QueryResult := ⟨[], 1, 0⟩

/-- Client 0 executes, stores and registers its tags. -/
private def cachedUsers : List ClientEvent :=
  [.getOrExecute 0 userOptions none, .step 0 0 (.ok oldUsers), .step 0 0 (.ok oldUsers),
    .step 0 0 (.ok oldUsers), .step 0 0 (.ok oldUsers), .step 0 0 (.ok oldUsers)]

private def isInvalidate : ClientStep → Bool
  | .invalidate .. => true
  | _ => false

private theorem quiet_of_not_invalidate {s : CacheClients} {client : Nat} {now : Int}
    {outcome : Except Exn QueryResult} (h : (s.pending client).any isInvalidate = false) :
    s.QuietInvalidation (.step client now outcome) := by
  intro _ _ _ runs target he hclient
  cases he
  rw [hclient] at h
  cases h

private theorem quiet_of_begin {s : CacheClients} {e : ClientEvent}
    (h : ∀ client now outcome, e ≠ .step client now outcome) : s.QuietInvalidation e :=
  fun client now outcome _ _ he => absurd he (h client now outcome)

/-- Client 1 invalidates the tag after client 0 has returned. -/
theorem fresh_of_quiet_users :
    (runEvents (next 3600000) init (cachedUsers ++
      [.invalidateTags 1 [ByteString.ascii "user-list"], .step 1 0 (.ok oldUsers)])).Fresh := by
  apply fresh_of_quiet
  refine ⟨quiet_of_begin fun _ _ _ => nofun, quiet_of_not_invalidate rfl,
    quiet_of_not_invalidate rfl, quiet_of_not_invalidate rfl, quiet_of_not_invalidate rfl,
    quiet_of_not_invalidate rfl, quiet_of_begin fun _ _ _ => nofun, ?_, trivial⟩
  -- no other client is inside a call
  intro client now outcome runs target he _ other current hother
  cases he
  match other, hother with
  | 0, hother => exact nomatch hother
  | 1, hother =>
    obtain rfl := Option.some.inj hother
    trivial
  | other + 2, hother => exact nomatch hother

/-- Client 1 invalidates the tag while the executor of client 0 runs. Client 2 then asks for the
    users. -/
private def staleUsers : List ClientEvent :=
  [.getOrExecute 0 userOptions none, .step 0 0 (.ok oldUsers), .step 0 0 (.ok oldUsers),
    .invalidateTags 1 [ByteString.ascii "user-list"], .step 1 0 (.ok oldUsers),
    .step 0 0 (.ok oldUsers), .step 0 0 (.ok oldUsers), .step 0 0 (.ok oldUsers),
    .getOrExecute 2 userOptions none, .step 2 0 (.ok oldUsers)]

/-- Client 2 gets the result of the executor of client 0. -/
theorem not_fresh : ¬ ∀ (defaultTtl : Int) (events : List ClientEvent),
    (runEvents (next defaultTtl) init events).Fresh := by
  intro hfresh
  obtain ⟨request, hrun, -, hinv⟩ := hfresh 3600000 staleUsers
    ⟨1, ByteString.ascii "users", 0, oldUsers⟩ List.mem_cons_self
  obtain rfl : ⟨ByteString.ascii "users", userOptions⟩ = request := Option.some.inj hrun
  have hle : 1 ≤ 0 := hinv ⟨[ByteString.ascii "user-list"], [], 1, 1⟩ List.mem_cons_self
    (Nat.le_refl 1) (.inr ⟨ByteString.ascii "user-list", List.mem_cons_self, List.mem_cons_self,
      by decide⟩)
  exact absurd hle (by decide)

end CacheClients

end MetalOrm.Native
