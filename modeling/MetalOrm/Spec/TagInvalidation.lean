import Mathlib.Data.List.Dedup
import MetalOrm.Native.CacheThreads

/-!
# Tag invalidation with many threads

An entry that was stored and tagged is gone after `invalidate_tags`, in every
interleaving in which no section takes the key out of the index while the entry is
stored or still to come. A `get` that drops an expired older entry is such a section:
it unregisters the key after it has let go of the storage.

## Key results

- `run_tagToKeys`: the sections that do not unregister a key leave its tags
- `gone_next`: an entry that is gone does not come back
- `tag_invalidation`: the invariant along a run of sections
- `not_tag_invalidation`: the run in which an eviction unregisters a new entry
-/

namespace MetalOrm.Native

open ForStd

/-! ## The index -/

namespace TagIndex

variable {index : TagIndex} {key key' : CacheKey} {tag tag' : Tag}

theorem registerTag_mono (h : key ∈ index.tagToKeys tag) :
    key ∈ (index.registerTag key' tag').tagToKeys tag := by
  unfold registerTag
  split
  · exact h
  · by_cases htag : tag = tag'
    · subst htag
      simpa using Or.inr h
    · simpa [Function.update_of_ne htag] using h

theorem registerKey_mono (h : key ∈ index.tagToKeys tag) (tags : List Tag) :
    key ∈ (index.registerKey key' tags).tagToKeys tag := by
  unfold registerKey
  induction tags generalizing index with
  | nil => exact h
  | cons tag' tags ih => exact ih (registerTag_mono h)

/-- After `register_key`, the key is found under each of its tags. -/
theorem mem_registerKey {tags : List Tag} (htag : tag ∈ tags) (hne : tag ≠ []) :
    key ∈ (index.registerKey key tags).tagToKeys tag := by
  induction tags generalizing index with
  | nil => simp at htag
  | cons tag' tags ih =>
    cases List.mem_cons.mp htag with
    | inl h =>
      subst h
      have hempty : tag.isEmpty = false := by simpa using hne
      have hmem : key ∈ (index.registerTag key tag).tagToKeys tag := by simp [registerTag, hempty]
      exact registerKey_mono hmem tags
    | inr h => exact ih h

/-- `unregister` of one key leaves the tags of the others. -/
theorem unregister_other (hkey : key ≠ key') (h : key ∈ index.tagToKeys tag) :
    key ∈ (index.unregister key').tagToKeys tag := by
  show key ∈ if tag ∈ index.keyToTags key' then (index.tagToKeys tag).filter (· != key')
    else index.tagToKeys tag
  split
  · exact List.mem_filter.mpr ⟨h, by simpa using hkey⟩
  · exact h

theorem foldl_unregister_other {keys : List CacheKey} (hkey : key ∉ keys)
    (h : key ∈ index.tagToKeys tag) : key ∈ (keys.foldl unregister index).tagToKeys tag := by
  induction keys generalizing index with
  | nil => exact h
  | cons key' keys ih =>
    rw [List.mem_cons, not_or] at hkey
    exact ih hkey.2 (unregister_other hkey.1 h)

/-- `invalidate_tags` collects every key that has one of the tags. -/
theorem mem_keysOf {tags : List Tag} (htag : tag ∈ tags) (h : key ∈ index.tagToKeys tag) :
    key ∈ index.keysOf tags :=
  List.mem_dedup.mpr (List.mem_flatMap.mpr ⟨tag, htag, h⟩)

end TagIndex

/-! ## Sections -/

/-- The section takes this key out of the index. -/
def CriticalSection.unregisters (index : TagIndex) (key : CacheKey) : CriticalSection → Bool
  | .evicted key' => key' == key
  | .deleted key' _ => key' == key
  | .collect tags => decide (key ∈ index.keysOf tags)
  | .clearIndex => true
  | _ => false

namespace CriticalSection

variable {cache : MemoryCacheAdapter} {now : Int} {current : CriticalSection}

@[simp] theorem eraseAll_tagIndex (cache : MemoryCacheAdapter) (keys : List CacheKey) :
    (cache.eraseAll keys).tagIndex = cache.tagIndex := by
  unfold MemoryCacheAdapter.eraseAll
  induction keys generalizing cache with
  | nil => rfl
  | cons key keys ih => exact ih (cache.erase key)

@[simp] theorem getSection_tagIndex (cache : MemoryCacheAdapter) (now : Int) (key : CacheKey) :
    (cache.getSection now key).2.tagIndex = cache.tagIndex := by
  unfold MemoryCacheAdapter.getSection
  split
  · rfl
  · split <;> rfl

/-- A section that does not unregister a key leaves its tags. -/
theorem run_tagToKeys {key : CacheKey} {tag : Tag}
    (hkeep : current.unregisters cache.tagIndex key = false)
    (h : key ∈ cache.tagIndex.tagToKeys tag) :
    key ∈ (current.run now cache).1.tagIndex.tagToKeys tag := by
  cases current with
  | lookUp key' => simpa [run] using h
  | evicted key' =>
    exact TagIndex.unregister_other (fun hk => by simp [unregisters, hk] at hkeep) h
  | store key' entry => exact h
  | deleteKeys keys =>
    cases keys with
    | nil => exact h
    | cons key' keys => exact h
  | deleted key' keys =>
    exact TagIndex.unregister_other (fun hk => by simp [unregisters, hk] at hkeep) h
  | collect tags =>
    exact TagIndex.foldl_unregister_other (by simpa [unregisters] using hkeep) h
  | eraseAll keys => simpa [run] using h
  | scan start => exact h
  | register key' tags => exact TagIndex.registerKey_mono h tags
  | clearStorage => exact h
  | clearIndex => simp [unregisters] at hkeep

/-- What is stored after a section was stored before, or it is the entry of `set`. -/
theorem run_lookup {key : CacheKey} {entry : CacheEntry}
    (h : (current.run now cache).1.storage.lookup key = some entry) :
    cache.storage.lookup key = some entry ∨ current = .store key entry := by
  cases current with
  | lookUp key' => exact Or.inl (MemoryCacheAdapter.lookup_getSection h)
  | store key' entry' =>
    by_cases hk : key = key'
    · subst hk
      rw [run, MemoryCacheAdapter.store, AList.lookup_insert, Option.some.injEq] at h
      exact Or.inr (by rw [h])
    · rw [run, MemoryCacheAdapter.store, AList.lookup_insert_ne hk] at h
      exact Or.inl h
  | deleteKeys keys =>
    cases keys with
    | nil => exact Or.inl h
    | cons key' keys => exact Or.inl (MemoryCacheAdapter.lookup_erase h)
  | eraseAll keys => exact Or.inl (MemoryCacheAdapter.lookup_eraseAll h).2
  | clearStorage => simp [run, MemoryCacheAdapter.clearStorage] at h
  | evicted | deleted | collect | scan | register | clearIndex => exact Or.inl h

/-- Only a call starts a section of `set`. -/
theorem run_ne_store (key : CacheKey) (entry : CacheEntry) :
    (current.run now cache).2 ≠ some (.store key entry) := by
  have hrest : ∀ keys, deleteRest keys ≠ some (.store key entry) := by
    intro keys
    unfold deleteRest
    split <;> simp
  cases current with
  | lookUp key' =>
    simp only [run]
    split <;> simp
  | deleteKeys keys => cases keys <;> simp [run]
  | deleted key' keys => exact hrest keys
  | scan start => exact hrest _
  | evicted | store | collect | eraseAll | register | clearStorage | clearIndex => simp [run]

end CriticalSection

/-! ## Events -/

namespace CacheThreads

/-- What an event can do. -/
theorem next_cases (s : CacheThreads) (e : CacheEvent) :
    s.next e = s ∨
    (∃ i now op, e = .call i now op ∧ s.pending i = none ∧
      s.next e = ⟨s.cache, Function.update s.pending i (some (op.start now s.sets)),
        if op.isSet then s.sets + 1 else s.sets⟩) ∨
    ∃ i now current, e = .step i now ∧ s.pending i = some current ∧
      s.next e = ⟨(current.run now s.cache).1,
        Function.update s.pending i (current.run now s.cache).2, s.sets⟩ := by
  cases e with
  | call i now op =>
    cases h : s.pending i with
    | some current => exact Or.inl (by simp [next, h])
    | none => exact Or.inr (Or.inl ⟨i, now, op, rfl, h, by simp [next, h]⟩)
  | step i now =>
    cases h : s.pending i with
    | none => exact Or.inl (by simp [next, h])
    | some current => exact Or.inr (Or.inr ⟨i, now, current, rfl, h, by simp [next, h]⟩)

theorem next_step {s : CacheThreads} {i : Nat} {current : CriticalSection}
    (h : s.pending i = some current) (now : Int) :
    s.next (.step i now) = ⟨(current.run now s.cache).1,
      Function.update s.pending i (current.run now s.cache).2, s.sets⟩ := by
  simp [next, h]

/-- A thread's section is the same as long as other threads act. -/
theorem next_pending_other {s : CacheThreads} {e : CacheEvent} {i : Nat} (h : e.thread ≠ i) :
    (s.next e).pending i = s.pending i := by
  obtain hs | ⟨i', now, op, rfl, _, hs⟩ | ⟨i', now, current, rfl, _, hs⟩ := next_cases s e
  · rw [hs]
  · rw [hs]
    exact Function.update_of_ne (Ne.symm h) _ _
  · rw [hs]
    exact Function.update_of_ne (Ne.symm h) _ _

/-! ### The entry of a call of `set` -/

/-- The entry is stored under the key, or a call of `set` is about to store it. -/
def Writes (s : CacheThreads) (key : CacheKey) (entry : CacheEntry) : Prop :=
  s.cache.storage.lookup key = some entry ∨ ∃ i, s.pending i = some (.store key entry)

/-- The entry of call `n` of `set` is stored under the key or still to come. -/
def Ahead (s : CacheThreads) (key : CacheKey) (n : Nat) : Prop :=
  s.sets ≤ n ∨ ∃ entry, entry.writer = n ∧ s.Writes key entry

/-- Call `n` of `set` has returned. -/
def SetDone (s : CacheThreads) (n : Nat) : Prop :=
  n < s.sets ∧ ∀ i key entry, s.pending i = some (.store key entry) → entry.writer ≠ n

theorem sets_le_next (s : CacheThreads) (e : CacheEvent) : s.sets ≤ (s.next e).sets := by
  obtain hs | ⟨i, now, op, _, _, hs⟩ | ⟨i, now, current, _, _, hs⟩ := next_cases s e
  · rw [hs]
  · rw [hs]
    show s.sets ≤ if op.isSet then s.sets + 1 else s.sets
    split <;> omega
  · rw [hs]

/-- A section of `set` that is pending after an event was pending before, or has the next
    number. -/
theorem next_pending_store {s : CacheThreads} {e : CacheEvent} {i : Nat} {key : CacheKey}
    {entry : CacheEntry} (h : (s.next e).pending i = some (.store key entry)) :
    s.pending i = some (.store key entry) ∨ entry.writer = s.sets := by
  obtain hs | ⟨i', now, op, _, _, hs⟩ | ⟨i', now, current, _, _, hs⟩ := next_cases s e
  · rw [hs] at h
    exact Or.inl h
  · rw [hs] at h
    by_cases hi : i = i'
    · subst hi
      apply Or.inr
      simp only [Function.update_self, Option.some.injEq] at h
      cases op <;> simp only [CacheOp.start, CriticalSection.store.injEq, reduceCtorEq] at h
      rw [← h.2]
      rfl
    · simp only [Function.update_of_ne hi] at h
      exact Or.inl h
  · rw [hs] at h
    by_cases hi : i = i'
    · subst hi
      simp only [Function.update_self] at h
      exact absurd h (CriticalSection.run_ne_store key entry)
    · simp only [Function.update_of_ne hi] at h
      exact Or.inl h

/-- What is written after an event was written before, or has the next number. -/
theorem next_writes {s : CacheThreads} {e : CacheEvent} {key : CacheKey} {entry : CacheEntry}
    (h : (s.next e).Writes key entry) : s.Writes key entry ∨ entry.writer = s.sets := by
  cases h with
  | inr h =>
    obtain ⟨i, hi⟩ := h
    exact (next_pending_store hi).imp_left fun hi => Or.inr ⟨i, hi⟩
  | inl h =>
    apply Or.inl
    obtain hs | ⟨i, now, op, _, _, hs⟩ | ⟨i, now, current, _, hi, hs⟩ := next_cases s e
    · exact Or.inl (by rwa [hs] at h)
    · exact Or.inl (by rwa [hs] at h)
    · rw [hs] at h
      exact (CriticalSection.run_lookup h).imp_right fun hstore => ⟨i, by rw [hi, hstore]⟩

/-- An entry that is gone does not come back. -/
theorem gone_next {s : CacheThreads} {key : CacheKey} {n : Nat} (h : ¬ s.Ahead key n)
    (e : CacheEvent) : ¬ (s.next e).Ahead key n := by
  have hn : n < s.sets := by
    by_contra hn
    exact h (Or.inl (by omega))
  intro hahead
  cases hahead with
  | inl hsets =>
    have := sets_le_next s e
    omega
  | inr hwrites =>
    obtain ⟨entry, hwriter, hwrites⟩ := hwrites
    cases next_writes hwrites with
    | inl hwrites => exact h (Or.inr ⟨entry, hwriter, hwrites⟩)
    | inr hnew => omega

theorem gone_run {s : CacheThreads} {key : CacheKey} {n : Nat} (h : ¬ s.Ahead key n)
    (events : List CacheEvent) : ¬ (runEvents CacheThreads.next s events).Ahead key n :=
  runEvents_invariant (fun s : CacheThreads => ¬ s.Ahead key n) (fun _ e _ hs => gone_next hs e) h

theorem SetDone.next {s : CacheThreads} {n : Nat} (h : s.SetDone n) (e : CacheEvent) :
    (s.next e).SetDone n := by
  constructor
  · exact Nat.lt_of_lt_of_le h.1 (sets_le_next s e)
  · intro i key entry hpending
    cases next_pending_store hpending with
    | inl hpending => exact h.2 i key entry hpending
    | inr hnew =>
      have := h.1
      omega

theorem SetDone.run {s : CacheThreads} {n : Nat} (h : s.SetDone n) (events : List CacheEvent) :
    (runEvents CacheThreads.next s events).SetDone n :=
  runEvents_invariant (fun s : CacheThreads => s.SetDone n) (fun _ e _ hs => hs.next e) h

/-- Once `set` has returned, its entry is ahead only as long as it is stored. -/
theorem SetDone.gone {s : CacheThreads} {n : Nat} {key : CacheKey} (h : s.SetDone n)
    (hlookup : ∀ entry, s.cache.storage.lookup key = some entry → entry.writer ≠ n) :
    ¬ s.Ahead key n := by
  intro hahead
  cases hahead with
  | inl hsets =>
    have := h.1
    omega
  | inr hwrites =>
    obtain ⟨entry, hwriter, hstored | ⟨i, hi⟩⟩ := hwrites
    · exact hlookup entry hstored hwriter
    · exact h.2 i key entry hi hwriter

/-! ## Invalidation -/

/-- A section that takes the key out of the index runs only when the entry of call `n` of
    `set` is gone. -/
def StillTagged (key : CacheKey) (n : Nat) (s : CacheThreads) (e : CacheEvent) : Prop :=
  ∀ i now current, e = .step i now → s.pending i = some current →
    current.unregisters s.cache.tagIndex key = true → ¬ s.Ahead key n

/-- The key has the tag, or the entry is gone. -/
def Reachable (key : CacheKey) (tag : Tag) (n : Nat) (s : CacheThreads) : Prop :=
  key ∈ s.cache.tagIndex.tagToKeys tag ∨ ¬ s.Ahead key n

theorem reachable_next {key : CacheKey} {tag : Tag} {n : Nat} (s : CacheThreads) (e : CacheEvent)
    (h : Reachable key tag n s) (htagged : StillTagged key n s e) :
    Reachable key tag n (s.next e) := by
  cases h with
  | inr hgone => exact Or.inr (gone_next hgone e)
  | inl hmem =>
    obtain hs | ⟨i, now, op, _, _, hs⟩ | ⟨i, now, current, he, hi, hs⟩ := next_cases s e
    · exact Or.inl (by rwa [hs])
    · exact Or.inl (by rwa [hs])
    · cases hun : current.unregisters s.cache.tagIndex key with
      | true => exact Or.inr (gone_next (htagged i now current he hi hun) e)
      | false =>
        rw [hs]
        exact Or.inl (CriticalSection.run_tagToKeys hun hmem)

/-- The two sections of `invalidate_tags` leave no entry under a key that the index had
    under one of the tags. -/
theorem invalidate_erases {s₁ s₂ : CacheThreads} {j : Nat} {tags : List Tag} {key : CacheKey}
    {tag : Tag} {now now' : Int} {during : List CacheEvent}
    (hcollect : s₁.pending j = some (.collect tags)) (htag : tag ∈ tags)
    (hmem : key ∈ s₁.cache.tagIndex.tagToKeys tag) (hduring : ∀ e ∈ during, e.thread ≠ j)
    (h₂ : runEvents next (s₁.next (.step j now)) during = s₂) :
    (s₂.next (.step j now')).cache.storage.lookup key = none := by
  have hpending : s₂.pending j = some (.eraseAll (s₁.cache.tagIndex.keysOf tags)) := by
    rw [← h₂]
    apply runEvents_invariant fun s : CacheThreads =>
      s.pending j = some (.eraseAll (s₁.cache.tagIndex.keysOf tags))
    · intro s e he hs
      rw [next_pending_other (hduring e he)]
      exact hs
    · rw [next_step hcollect]
      exact Function.update_self _ _ _
  rw [next_step hpending, Option.eq_none_iff_forall_ne_some]
  intro entry hentry
  exact (MemoryCacheAdapter.lookup_eraseAll hentry).1 (TagIndex.mem_keysOf htag hmem)

/-- From any state, thread `r` registers a tag for the key, and thread `j` invalidates the tag after that
    and after call `n` of `set` has returned. If in between a section unregisters the key
    only when the entry of call `n` is gone, that entry is never found again. -/
theorem tag_invalidation {between during after : List CacheEvent}
    {s₁ s₂ s₃ s₄ : CacheThreads} {r j n : Nat} {key : CacheKey} {tag : Tag} {ts tags : List Tag}
    {now₁ now₂ now₃ : Int}
    (hregister : s₁.pending r = some (.register key ts)) (hts : tag ∈ ts) (hne : tag ≠ [])
    (h₂ : runEvents next (s₁.next (.step r now₁)) between = s₂)
    (htagged : AlongEvents next (StillTagged key n) (s₁.next (.step r now₁)) between)
    (hcollect : s₂.pending j = some (.collect tags)) (htags : tag ∈ tags) (hset : s₂.SetDone n)
    (h₃ : runEvents next (s₂.next (.step j now₂)) during = s₃)
    (hduring : ∀ e ∈ during, e.thread ≠ j)
    (h₄ : runEvents next (s₃.next (.step j now₃)) after = s₄) :
    (∀ entry, s₄.cache.storage.lookup key = some entry → entry.writer ≠ n) ∧
    ∀ now value, (s₄.cache.getSection now key).1.1 = some value →
      ∃ entry, s₄.cache.storage.lookup key = some entry ∧ entry.value = value ∧
        entry.writer ≠ n := by
  -- the index has the key under the tag, up to the section that collects it
  have hregistered : Reachable key tag n (s₁.next (.step r now₁)) := by
    rw [next_step hregister]
    exact Or.inl (TagIndex.mem_registerKey hts hne)
  have hreach : Reachable key tag n s₂ := by
    rw [← h₂]
    exact htagged.invariant reachable_next hregistered
  have hgone : ¬ (s₃.next (.step j now₃)).Ahead key n := by
    cases hreach with
    | inl hmem =>
      have herased : (s₃.next (.step j now₃)).cache.storage.lookup key = none :=
        invalidate_erases hcollect htags hmem hduring h₃
      have hdone : s₃.SetDone n := by
        rw [← h₃]
        exact (hset.next _).run during
      apply (hdone.next (.step j now₃)).gone
      intro entry hentry
      rw [herased] at hentry
      exact absurd hentry (by simp)
    | inr hgone =>
      apply gone_next
      rw [← h₃]
      exact gone_run (gone_next hgone _) during
  have hafter : ¬ s₄.Ahead key n := by
    rw [← h₄]
    exact gone_run hgone after
  have hentries : ∀ entry, s₄.cache.storage.lookup key = some entry → entry.writer ≠ n :=
    fun entry hentry hwriter => hafter (Or.inr ⟨entry, hwriter, Or.inl hentry⟩)
  constructor
  · exact hentries
  · intro now value hget
    obtain ⟨entry, hentry, hvalue⟩ := MemoryCacheAdapter.getSection_some hget
    exact ⟨entry, hentry, hvalue, hentries entry hentry⟩

private def usersKey : CacheKey := ByteString.ascii "users"

private def usersTag : Tag := ByteString.ascii "user-list"

/-- Thread 0 stores and tags an entry, and thread 1 begins to invalidate the tag. -/
private def quietRun : List CacheEvent :=
  [.call 0 0 (.set usersKey ⟨[], 1, 0⟩ none), .step 0 0,
    .call 0 0 (.registerTags usersKey [usersTag])]

theorem tag_invalidation_quiet :
    ((runEvents next init (quietRun ++ [.step 0 0, .call 1 1 (.invalidateTags [usersTag]),
      .step 1 1, .step 1 1])).cache.storage.lookup usersKey).all (·.writer != 0) = true := by
  have hregister : (runEvents next init quietRun).pending 0 =
      some (.register usersKey [usersTag]) := rfl
  have htagged : AlongEvents next (StillTagged usersKey 0)
      ((runEvents next init quietRun).next (.step 0 0))
      [.call 1 1 (.invalidateTags [usersTag])] := by
    constructor
    · intro i now current he
      cases he
    · trivial
  have hset : (runEvents next ((runEvents next init quietRun).next (.step 0 0))
      [.call 1 1 (.invalidateTags [usersTag])]).SetDone 0 := by
    constructor
    · exact Nat.zero_lt_one
    · intro i key entry h
      have hnone : (none : Option CriticalSection) ≠ some (.store key entry) := by simp
      match i with
      | 0 => exact absurd h hnone
      | 1 =>
        have hcollect : CriticalSection.collect [usersTag] = .store key entry := Option.some.inj h
        cases hcollect
      | i + 2 => exact absurd h hnone
  rw [Option.all_eq_true]
  intro entry hentry
  have hwriter := (tag_invalidation (j := 1) hregister List.mem_cons_self (by decide) rfl htagged
    rfl List.mem_cons_self hset rfl (List.forall_mem_nil _) rfl).1 entry hentry
  simpa using hwriter

/-- Thread 1 drops the expired entry of call 0 of `set`. Before it unregisters the key,
    thread 0 stores the entry of call 1 and tags it. -/
private def evictionRace : List CacheEvent :=
  [.call 0 0 (.set usersKey ⟨[], 1, 0⟩ (some 1)), .step 0 0,
    .call 1 5 (.get usersKey), .step 1 5,
    .call 0 5 (.set usersKey ⟨[], 2, 0⟩ none), .step 0 5,
    .call 0 5 (.registerTags usersKey [usersTag]), .step 0 5,
    .step 1 5]

/-- After the race all calls have returned, none of them deletes, invalidates or clears,
    and an `invalidate_tags` that starts then does not remove the tagged entry. -/
theorem not_tag_invalidation :
    ((runEvents next init evictionRace).pending 0).isNone ∧
    ((runEvents next init evictionRace).pending 1).isNone ∧
    ((runEvents next init (evictionRace ++ [.call 2 6 (.invalidateTags [usersTag]), .step 2 6,
      .step 2 6])).pending 2).isNone ∧
    ((runEvents next init (evictionRace ++ [.call 2 6 (.invalidateTags [usersTag]), .step 2 6,
      .step 2 6])).cache.getSection 7 usersKey).1.1 = some ⟨[], 2, 0⟩ := by
  constructor
  · rfl
  constructor
  · rfl
  constructor <;> rfl

end CacheThreads

end MetalOrm.Native
