import MetalOrm.Native.TagMaps

/-!
# What the tag index associates

The two maps of a tag index are inverse to each other: both say which keys are registered under
which tags. Every call keeps this, and changes the associations as its name says.

## Key results

- `Holds.apply`: one call
- `tag_index_inverse`: any calls, and what an invalidation returns
-/

namespace MetalOrm.Native

/-! ## Maps of sets -/

namespace SetMap

variable {map : SetMap} {key key' x : List UInt8} {set pending : List (List UInt8)}

theorem bucket_insert : bucket (AList.insert key set map) key = set := by
  rw [bucket, AList.lookup_insert, Option.getD_some]

theorem bucket_insert_ne (h : key' ≠ key) : bucket (AList.insert key set map) key' = map.bucket key' := by
  rw [bucket, AList.lookup_insert_ne h, bucket]

theorem bucket_erase : bucket (AList.erase key map) key = [] := by
  rw [bucket, AList.lookup_erase, Option.getD_none]

theorem bucket_erase_ne (h : key' ≠ key) : bucket (AList.erase key map) key' = map.bucket key' := by
  rw [bucket, AList.lookup_erase_ne h, bucket]

/-- Sets have no repetitions, and just those of pending keys may be empty. -/
def Proper (pending : List (List UInt8)) (map : SetMap) : Prop :=
  ∀ key set, map.lookup key = some set → set.Nodup ∧ (set = [] → key ∈ pending)

theorem Proper.nodup_bucket (h : Proper pending map) (key : List UInt8) : (map.bucket key).Nodup := by
  unfold bucket
  cases hkey : map.lookup key with
  | none => exact .nil
  | some set => exact (h key set hkey).1

theorem Proper.insert (h : Proper pending map) (hset : set.Nodup) (hne : set = [] → key ∈ pending) :
    Proper pending (AList.insert key set map) := by
  intro key' set' hkey'
  by_cases heq : key' = key
  · subst heq
    rw [AList.lookup_insert] at hkey'
    cases hkey'
    exact ⟨hset, hne⟩
  · rw [AList.lookup_insert_ne heq] at hkey'
    exact h key' set' hkey'

theorem Proper.erase (h : Proper pending map) (key : List UInt8) :
    Proper pending (AList.erase key map) := by
  intro key' set' hkey'
  by_cases heq : key' = key
  · subst heq
    rw [AList.lookup_erase] at hkey'
    cases hkey'
  · rw [AList.lookup_erase_ne heq] at hkey'
    exact h key' set' hkey'

/-- A set that is not empty, or is dropped, is no longer pending. -/
theorem Proper.settle (h : Proper [key] map) (hne : map.lookup key ≠ some []) : Proper [] map := by
  intro key' set hkey'
  obtain ⟨hnodup, hempty⟩ := h key' set hkey'
  refine ⟨hnodup, fun hnil => absurd hkey' ?_⟩
  rw [List.mem_singleton.mp (hempty hnil), hnil]
  exact hne

end SetMap

/-! ## Associations -/

/-- Which tags every key is registered under. -/
abbrev Associations := CacheKey → Tag → Prop

/-- What a call makes of the associations. -/
def Associations.apply (assoc : Associations) : TagCall → Associations
  | .registerKey key tags => fun k t => assoc k t ∨ (k = key ∧ t ∈ tags ∧ t ≠ [])
  | .unregister key => fun k t => assoc k t ∧ k ≠ key
  | .invalidateTags tags => fun k t => assoc k t ∧ ¬∃ tag ∈ tags, assoc k tag
  | .invalidatePrefix start => fun k t => assoc k t ∧ ¬start <+: k
  | .clear => fun _ _ => False

/-- The associations after some calls. -/
def Associations.run (calls : List TagCall) : Associations :=
  calls.foldl Associations.apply fun _ _ => False

namespace TagMaps

/-- Both maps hold the associations, so they are inverse; just the sets of pending keys may be
    empty, and no tag is. -/
structure Holds (pending : List CacheKey) (assoc : Associations) (maps : TagMaps) : Prop where
  tags : ∀ k t, t ∈ maps.keyToTags.bucket k ↔ assoc k t
  keys : ∀ k t, k ∈ maps.tagToKeys.bucket t ↔ assoc k t
  proper_tags : maps.keyToTags.Proper pending
  proper_keys : maps.tagToKeys.Proper []
  tag_ne_nil : ∀ k t, assoc k t → t ≠ []

variable {maps : TagMaps} {assoc assoc' : Associations} {pending : List CacheKey}

theorem Holds.congr (h : Holds pending assoc maps) (hassoc : ∀ k t, assoc k t ↔ assoc' k t) :
    Holds pending assoc' maps where
  tags k t := (h.tags k t).trans (hassoc k t)
  keys k t := (h.keys k t).trans (hassoc k t)
  proper_tags := h.proper_tags
  proper_keys := h.proper_keys
  tag_ne_nil k t hkt := h.tag_ne_nil k t ((hassoc k t).mpr hkt)

theorem holds_empty : Holds [] (fun _ _ => False) empty where
  tags _ _ := iff_of_false List.not_mem_nil id
  keys _ _ := iff_of_false List.not_mem_nil id
  proper_tags _ _ h := nomatch h
  proper_keys _ _ h := nomatch h
  tag_ne_nil _ _ := False.elim

/-! ### Registering -/

theorem Holds.registerTag {key : CacheKey} (h : Holds pending assoc maps) (tag : Tag) :
    Holds pending (fun k t => assoc k t ∨ (k = key ∧ t = tag ∧ t ≠ []))
      (TagMaps.registerTag key maps tag) := by
  unfold TagMaps.registerTag
  split
  · rename_i hempty
    rw [List.isEmpty_iff] at hempty
    subst hempty
    refine h.congr fun k t => ?_
    rw [iff_self_or]
    rintro ⟨-, rfl, hne⟩
    exact absurd rfl hne
  · rename_i hempty
    rw [List.isEmpty_iff] at hempty
    refine ⟨fun k t => ?_, fun k t => ?_, ?_, ?_, ?_⟩
    · by_cases hk : k = key
      · subst hk
        rw [SetMap.bucket_insert, List.mem_insert_iff, h.tags]
        by_cases ht : t = tag
        · simp [ht, hempty]
        · simp [ht]
      · rw [SetMap.bucket_insert_ne hk, h.tags]
        simp [hk]
    · by_cases ht : t = tag
      · subst ht
        rw [SetMap.bucket_insert, List.mem_insert_iff, h.keys]
        by_cases hk : k = key
        · simp [hk, hempty]
        · simp [hk]
      · rw [SetMap.bucket_insert_ne ht, h.keys]
        simp [ht]
    · refine h.proper_tags.insert (List.Nodup.insert (h.proper_tags.nodup_bucket key)) fun hnil => ?_
      exact absurd (hnil ▸ List.mem_insert_self) List.not_mem_nil
    · refine h.proper_keys.insert (List.Nodup.insert (h.proper_keys.nodup_bucket tag)) fun hnil => ?_
      exact absurd (hnil ▸ List.mem_insert_self) List.not_mem_nil
    · rintro k t (hkt | ⟨-, -, hne⟩)
      · exact h.tag_ne_nil k t hkt
      · exact hne

theorem Holds.registerTags (h : Holds pending assoc maps) (key : CacheKey) (tags : List Tag) :
    Holds pending (fun k t => assoc k t ∨ (k = key ∧ t ∈ tags ∧ t ≠ []))
      (tags.foldl (TagMaps.registerTag key) maps) := by
  induction tags generalizing maps assoc with
  | nil => exact h.congr fun k t => by simp
  | cons tag tags ih =>
    refine (ih (h.registerTag tag)).congr fun k t => ?_
    rw [List.mem_cons]
    tauto

theorem Holds.registerKey (h : Holds [] assoc maps) (key : CacheKey) (tags : List Tag) :
    Holds [] (assoc.apply (.registerKey key tags)) (maps.registerKey key tags) := by
  -- the set of the key is made first, and dropped at the end if it got no tag
  have hstart : Holds [key] assoc
      { maps with keyToTags := maps.keyToTags.insert key (maps.keyToTags.bucket key) } := by
    refine ⟨fun k t => ?_, h.keys, ?_, h.proper_keys, h.tag_ne_nil⟩
    · by_cases hk : k = key
      · subst hk
        rw [SetMap.bucket_insert]
        exact h.tags k t
      · rw [SetMap.bucket_insert_ne hk]
        exact h.tags k t
    · have hproper : maps.keyToTags.Proper [key] := fun k set hk =>
        ⟨(h.proper_tags k set hk).1, fun hnil => nomatch (h.proper_tags k set hk).2 hnil⟩
      exact hproper.insert (h.proper_tags.nodup_bucket key) fun _ => List.mem_singleton_self key
  have hend := hstart.registerTags key tags
  unfold TagMaps.registerKey
  dsimp only
  split
  · rename_i hempty
    rw [List.isEmpty_iff] at hempty
    refine ⟨fun k t => ?_, hend.keys, ?_, hend.proper_keys, hend.tag_ne_nil⟩
    · by_cases hk : k = key
      · subst hk
        have hnone := hend.tags k t
        rw [hempty] at hnone
        rw [SetMap.bucket_erase]
        exact hnone
      · rw [SetMap.bucket_erase_ne hk]
        exact hend.tags k t
    · refine (hend.proper_tags.erase key).settle ?_
      rw [AList.lookup_erase]
      exact nofun
  · rename_i hempty
    refine ⟨hend.tags, hend.keys, hend.proper_tags.settle fun hnil => hempty ?_,
      hend.proper_keys, hend.tag_ne_nil⟩
    rw [SetMap.bucket, hnil]
    rfl

/-! ### Unregistering -/

theorem bucket_dropKey {key : CacheKey} {map : SetMap} (h : map.Proper []) (tag t : Tag) :
    (dropKey key map tag).bucket t =
      if t = tag then (map.bucket t).filter (· != key) else map.bucket t := by
  have hfilter : ∀ {keys : List CacheKey}, map.lookup tag = some keys →
      keys.erase key = keys.filter (· != key) := fun hkeys =>
    (h tag _ hkeys).1.erase_eq_filter key
  unfold dropKey
  split
  · rename_i htag
    split
    · rename_i heq
      rw [heq, SetMap.bucket, htag]
      rfl
    · rfl
  · rename_i keys htag
    have hbucket : map.bucket tag = keys := by rw [SetMap.bucket, htag, Option.getD_some]
    split
    · rename_i hempty
      rw [List.isEmpty_iff] at hempty
      split
      · rename_i heq
        rw [heq, SetMap.bucket_erase, hbucket, ← hfilter htag, hempty]
      · rename_i hne
        exact SetMap.bucket_erase_ne hne
    · split
      · rename_i heq
        rw [heq, SetMap.bucket_insert, hbucket, hfilter htag]
      · rename_i hne
        exact SetMap.bucket_insert_ne hne

theorem proper_dropKey {key : CacheKey} {map : SetMap} (h : map.Proper []) (tag : Tag) :
    (dropKey key map tag).Proper [] := by
  unfold dropKey
  cases htag : map.lookup tag with
  | none => exact h
  | some keys =>
    dsimp only
    split
    · exact h.erase tag
    · rename_i hempty
      rw [List.isEmpty_iff] at hempty
      exact h.insert ((h tag keys htag).1.erase key) fun hnil => absurd hnil hempty

theorem foldl_dropKey (key : CacheKey) {map : SetMap} (h : map.Proper []) (tags : List Tag) :
    (tags.foldl (dropKey key) map).Proper [] ∧ ∀ t, (tags.foldl (dropKey key) map).bucket t =
      if t ∈ tags then (map.bucket t).filter (· != key) else map.bucket t := by
  induction tags generalizing map with
  | nil => exact ⟨h, fun t => (if_neg List.not_mem_nil).symm⟩
  | cons tag tags ih =>
    obtain ⟨hproper, hbucket⟩ := ih (proper_dropKey h tag)
    refine ⟨hproper, fun t => (hbucket t).trans ?_⟩
    rw [bucket_dropKey h]
    by_cases ht : t = tag <;> by_cases hmem : t ∈ tags <;> simp [ht, hmem, List.filter_filter]

/-- A key that is unregistered has no tags. -/
theorem Holds.unregister (h : Holds [] assoc maps) (key : CacheKey) :
    Holds [] (fun k t => assoc k t ∧ k ≠ key) (maps.unregister key) := by
  unfold TagMaps.unregister
  cases hkey : maps.keyToTags.lookup key with
  | none =>
    refine h.congr fun k t => (and_iff_left_of_imp ?_).symm
    rintro hkt rfl
    rw [← h.tags, SetMap.bucket, hkey] at hkt
    exact absurd hkt List.not_mem_nil
  | some tags =>
    have hbucket : maps.keyToTags.bucket key = tags := by
      rw [SetMap.bucket, hkey, Option.getD_some]
    obtain ⟨hproper, hdrop⟩ := foldl_dropKey key h.proper_keys tags
    refine ⟨fun k t => ?_, fun k t => ?_, h.proper_tags.erase key, hproper, fun k t hkt =>
      h.tag_ne_nil k t hkt.1⟩
    · by_cases hk : k = key
      · subst hk
        rw [SetMap.bucket_erase]
        simp
      · rw [SetMap.bucket_erase_ne hk, h.tags]
        simp [hk]
    · have htag : t ∈ tags ↔ assoc key t := hbucket ▸ h.tags key t
      dsimp only
      rw [hdrop]
      split
      · rw [List.mem_filter, h.keys, bne_iff_ne]
      · rename_i hnot
        rw [h.keys]
        refine (and_iff_left_of_imp ?_).symm
        rintro hkt rfl
        exact hnot (htag.mpr hkt)

theorem Holds.foldl_unregister (h : Holds [] assoc maps) (keys : List CacheKey) :
    Holds [] (fun k t => assoc k t ∧ k ∉ keys) (keys.foldl TagMaps.unregister maps) := by
  induction keys generalizing maps assoc with
  | nil => exact h.congr fun k t => by simp
  | cons key keys ih =>
    refine (ih (h.unregister key)).congr fun k t => ?_
    rw [List.mem_cons]
    tauto

/-! ### Invalidating -/

theorem foldl_insert {found keys : List CacheKey} (h : keys.Nodup) :
    (found.foldl (fun keys key => keys.insert key) keys).Nodup ∧
      ∀ k, k ∈ found.foldl (fun keys key => keys.insert key) keys ↔ k ∈ keys ∨ k ∈ found := by
  induction found generalizing keys with
  | nil => exact ⟨h, fun k => by simp⟩
  | cons key found ih =>
    obtain ⟨hnodup, hmem⟩ := ih (List.Nodup.insert (a := key) h)
    refine ⟨hnodup, fun k => (hmem k).trans ?_⟩
    rw [List.mem_insert_iff, List.mem_cons]
    tauto

/-- The keys that are collected: those under one of the tags, without repetition. -/
theorem foldl_collect (maps : TagMaps) {keys : List CacheKey} (h : keys.Nodup) (tags : List Tag) :
    (tags.foldl maps.collect keys).Nodup ∧ ∀ k, k ∈ tags.foldl maps.collect keys ↔
      k ∈ keys ∨ ∃ tag ∈ tags, k ∈ maps.tagToKeys.bucket tag := by
  induction tags generalizing keys with
  | nil => exact ⟨h, fun k => by simp⟩
  | cons tag tags ih =>
    have hstep : (maps.collect keys tag).Nodup ∧
        ∀ k, k ∈ maps.collect keys tag ↔ k ∈ keys ∨ k ∈ maps.tagToKeys.bucket tag := by
      unfold collect SetMap.bucket
      cases maps.tagToKeys.lookup tag with
      | none => exact ⟨h, fun k => by simp⟩
      | some found => exact foldl_insert h
    obtain ⟨hnodup, hmem⟩ := ih hstep.1
    refine ⟨hnodup, fun k => (hmem k).trans ?_⟩
    rw [hstep.2, List.exists_mem_cons_iff, or_assoc]

/-- What an invalidation does: it returns the keys of which `taken` holds, each once, and their
    associations are gone while all others stay. -/
structure Invalidates (taken : CacheKey → Prop) (assoc : Associations) (keys : List CacheKey)
    (after : TagMaps) : Prop where
  nodup : keys.Nodup
  mem : ∀ key, key ∈ keys ↔ taken key
  gone : ∀ key ∈ keys, after.keyToTags.lookup key = none ∧
    ∀ tag, key ∉ after.tagToKeys.bucket tag
  kept : ∀ key tag, key ∉ keys →
    (tag ∈ after.keyToTags.bucket key ↔ assoc key tag) ∧
      (key ∈ after.tagToKeys.bucket tag ↔ assoc key tag)
  holds : Holds [] (fun key tag => assoc key tag ∧ ¬taken key) after

theorem Holds.invalidates {taken : CacheKey → Prop} (h : Holds [] assoc maps)
    {keys : List CacheKey} (hnodup : keys.Nodup) (hmem : ∀ key, key ∈ keys ↔ taken key) :
    Invalidates taken assoc keys (keys.foldl TagMaps.unregister maps) := by
  have hafter := h.foldl_unregister keys
  refine ⟨hnodup, hmem, fun key hkey => ⟨?_, fun tag htag => ?_⟩, fun key tag hkey => ⟨?_, ?_⟩,
    hafter.congr fun k t => and_congr_right fun _ => not_congr (hmem k)⟩
  · cases hlookup : (keys.foldl TagMaps.unregister maps).keyToTags.lookup key with
    | none => rfl
    | some tags =>
      -- a set that is stored has a tag, which would be an association of the key
      obtain ⟨-, hempty⟩ := hafter.proper_tags key tags hlookup
      obtain ⟨tag, htag⟩ := List.exists_mem_of_ne_nil tags fun hnil => nomatch hempty hnil
      have hassoc := (hafter.tags key tag).mp (by rwa [SetMap.bucket, hlookup, Option.getD_some])
      exact absurd hkey hassoc.2
  · exact ((hafter.keys key tag).mp htag).2 hkey
  · exact (hafter.tags key tag).trans (and_iff_left hkey)
  · exact (hafter.keys key tag).trans (and_iff_left hkey)

theorem Holds.invalidateTags (h : Holds [] assoc maps) (tags : List Tag) :
    Invalidates (fun key => ∃ tag ∈ tags, assoc key tag) assoc (maps.invalidateTags tags).1
      (maps.invalidateTags tags).2 := by
  obtain ⟨hnodup, hmem⟩ := foldl_collect maps List.nodup_nil tags
  refine h.invalidates hnodup fun key => (hmem key).trans ?_
  simp only [List.not_mem_nil, false_or, h.keys]

theorem Holds.mem_keys (h : Holds [] assoc maps) (key : CacheKey) :
    key ∈ maps.keyToTags.keys ↔ ∃ tag, assoc key tag := by
  rw [← AList.mem_keys, ← AList.lookup_isSome]
  simp only [← h.tags, SetMap.bucket]
  cases hlookup : maps.keyToTags.lookup key with
  | none => simp
  | some tags =>
    obtain ⟨-, hempty⟩ := h.proper_tags key tags hlookup
    obtain ⟨tag, htag⟩ := List.exists_mem_of_ne_nil tags fun hnil => nomatch hempty hnil
    exact iff_of_true rfl ⟨tag, htag⟩

theorem Holds.invalidatePrefix (h : Holds [] assoc maps) (start : List UInt8) :
    Invalidates (fun key => (∃ tag, assoc key tag) ∧ start <+: key) assoc
      (maps.invalidatePrefix start).1 (maps.invalidatePrefix start).2 := by
  refine h.invalidates (maps.keyToTags.keys_nodup.filter _) fun key => ?_
  show key ∈ maps.keyToTags.keys.filter _ ↔ _
  rw [List.mem_filter, h.mem_keys, List.isPrefixOf_iff_prefix]

/-! ### The index of the memory cache -/

/-- What is found in the maps. -/
def index (maps : TagMaps) : TagIndex := ⟨maps.tagToKeys.bucket, maps.keyToTags.bucket⟩

theorem bucket_insert_eq_update (map : SetMap) (key : List UInt8) (set : List (List UInt8)) :
    SetMap.bucket (AList.insert key set map) = Function.update map.bucket key set := by
  funext key'
  by_cases h : key' = key
  · rw [h, SetMap.bucket_insert, Function.update_self]
  · rw [SetMap.bucket_insert_ne h, Function.update_of_ne h]

theorem index_registerTag (maps : TagMaps) (key : CacheKey) (tag : Tag) :
    (registerTag key maps tag).index = maps.index.registerTag key tag := by
  unfold registerTag TagIndex.registerTag
  split
  · rfl
  · simp only [index, bucket_insert_eq_update]

/-- Registering finds the same, with the sets that are made and dropped. -/
theorem index_registerKey (maps : TagMaps) (key : CacheKey) (tags : List Tag) :
    (maps.registerKey key tags).index = maps.index.registerKey key tags := by
  have hfold : ∀ (maps : TagMaps), (tags.foldl (registerTag key) maps).index =
      tags.foldl (fun index tag => index.registerTag key tag) maps.index := by
    induction tags with
    | nil => exact fun _ => rfl
    | cons tag tags ih =>
      intro maps
      rw [List.foldl_cons, ih, index_registerTag, List.foldl_cons]
  have hstart : index ⟨maps.tagToKeys, maps.keyToTags.insert key (maps.keyToTags.bucket key)⟩ =
      maps.index := by
    simp only [index, bucket_insert_eq_update, Function.update_eq_self]
  rw [TagIndex.registerKey, ← hstart, ← hfold]
  unfold registerKey
  dsimp only
  split
  · rename_i hempty
    rw [List.isEmpty_iff] at hempty
    refine congrArg (TagIndex.mk _) ?_
    funext k
    by_cases hk : k = key
    · rw [hk, SetMap.bucket_erase, hempty]
    · exact SetMap.bucket_erase_ne hk
  · rfl

/-- Unregistering finds the same. -/
theorem index_unregister (h : Holds [] assoc maps) (key : CacheKey) :
    (maps.unregister key).index = maps.index.unregister key := by
  unfold unregister TagIndex.unregister
  split
  · rename_i hkey
    have hnone : maps.keyToTags.bucket key = [] := by rw [SetMap.bucket, hkey, Option.getD_none]
    simp only [index, hnone, List.not_mem_nil, if_false]
    rw [← hnone, Function.update_eq_self]
  · rename_i tags hkey
    have hsome : maps.keyToTags.bucket key = tags := by
      rw [SetMap.bucket, hkey, Option.getD_some]
    obtain ⟨-, hdrop⟩ := foldl_dropKey key h.proper_keys tags
    simp only [index, hsome]
    refine congrArg₂ TagIndex.mk (funext hdrop) (funext fun k => ?_)
    by_cases hk : k = key
    · rw [hk, SetMap.bucket_erase, Function.update_self]
    · rw [SetMap.bucket_erase_ne hk, Function.update_of_ne hk]

/-! ### Runs -/

theorem Holds.apply (h : Holds [] assoc maps) (call : TagCall) :
    Holds [] (assoc.apply call) (maps.apply call) := by
  cases call with
  | registerKey key tags => exact h.registerKey key tags
  | unregister key => exact h.unregister key
  | invalidateTags tags => exact (h.invalidateTags tags).holds
  | invalidatePrefix start =>
    refine (h.invalidatePrefix start).holds.congr fun k t => and_congr_right fun hkt => ?_
    exact not_congr (and_iff_right ⟨t, hkt⟩)
  | clear => exact holds_empty

theorem holds_run (calls : List TagCall) : Holds [] (Associations.run calls) (run calls) := by
  have hfrom : ∀ (maps : TagMaps) (assoc : Associations), Holds [] assoc maps →
      Holds [] (calls.foldl Associations.apply assoc) (calls.foldl TagMaps.apply maps) := by
    induction calls with
    | nil => exact fun _ _ h => h
    | cons call calls ih => exact fun maps assoc h => ih _ _ (h.apply call)
  exact hfrom .empty (fun _ _ => False) holds_empty

end TagMaps

/-- After any calls the two maps hold the associations that the calls have made, so they are inverse,
    and store no empty set and no empty tag; an invalidation by tags or by a prefix returns each key
    that it is about once, and takes just these out of both maps. -/
theorem tag_index_inverse (calls : List TagCall) :
    (∀ key tag, tag ∈ (TagMaps.run calls).keyToTags.bucket key ↔
      key ∈ (TagMaps.run calls).tagToKeys.bucket tag) ∧
    TagMaps.Holds [] (Associations.run calls) (TagMaps.run calls) ∧
    (∀ tags, TagMaps.Invalidates (fun key => ∃ tag ∈ tags, Associations.run calls key tag)
      (Associations.run calls) ((TagMaps.run calls).invalidateTags tags).1
      ((TagMaps.run calls).invalidateTags tags).2) ∧
    ∀ start, TagMaps.Invalidates
      (fun key => (∃ tag, Associations.run calls key tag) ∧ start <+: key)
      (Associations.run calls) ((TagMaps.run calls).invalidatePrefix start).1
      ((TagMaps.run calls).invalidatePrefix start).2 := by
  have h := TagMaps.holds_run calls
  exact ⟨fun key tag => (h.tags key tag).trans (h.keys key tag).symm, h, h.invalidateTags,
    h.invalidatePrefix⟩

end MetalOrm.Native
