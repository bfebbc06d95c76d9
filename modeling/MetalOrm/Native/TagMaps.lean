import MetalOrm.Native.MemoryCache

/-!
# The maps of the tag index

`TagIndex` of `metal/cache_tag_index.hpp` with its two hash maps, of which the model of the memory
cache keeps only what is found in them. A set is a list without repetitions; the order of a map and
of a set stands for that of the hash table.
-/

namespace MetalOrm.Native

/-- `std::unordered_map<std::string, std::unordered_set<std::string>>`. -/
abbrev SetMap := AList fun _ : List UInt8 => List (List UInt8)

/-- The set under a key; `operator[]` makes it where there is none. -/
def SetMap.bucket (map : SetMap) (key : List UInt8) : List (List UInt8) := (map.lookup key).getD []

/-- `TagIndex`. -/
structure TagMaps where
  tagToKeys : SetMap
  keyToTags : SetMap

namespace TagMaps

/-- An index without keys; also what `clear` leaves. -/
def empty : TagMaps := ⟨∅, ∅⟩

/-- The body of the loop of `register_key`. -/
def registerTag (key : CacheKey) (maps : TagMaps) (tag : Tag) : TagMaps :=
  if tag.isEmpty then maps
  else
    { tagToKeys := maps.tagToKeys.insert tag ((maps.tagToKeys.bucket tag).insert key)
      keyToTags := maps.keyToTags.insert key ((maps.keyToTags.bucket key).insert tag) }

/-- `register_key`. -/
def registerKey (maps : TagMaps) (key : CacheKey) (tags : List Tag) : TagMaps :=
  let maps := { maps with keyToTags := maps.keyToTags.insert key (maps.keyToTags.bucket key) }
  let maps := tags.foldl (registerTag key) maps
  if (maps.keyToTags.bucket key).isEmpty then { maps with keyToTags := maps.keyToTags.erase key }
  else maps

/-- The body of the loop of `unregister_locked`. -/
def dropKey (key : CacheKey) (tagToKeys : SetMap) (tag : Tag) : SetMap :=
  match tagToKeys.lookup tag with
  | none => tagToKeys
  | some keys =>
    if (keys.erase key).isEmpty then tagToKeys.erase tag
    else tagToKeys.insert tag (keys.erase key)

/-- `unregister_locked`, and `unregister`. -/
def unregister (maps : TagMaps) (key : CacheKey) : TagMaps :=
  match maps.keyToTags.lookup key with
  | none => maps
  | some tags =>
    { tagToKeys := tags.foldl (dropKey key) maps.tagToKeys
      keyToTags := maps.keyToTags.erase key }

/-- The keys that `invalidate_tags` collects. -/
def collect (maps : TagMaps) (keys : List CacheKey) (tag : Tag) : List CacheKey :=
  match maps.tagToKeys.lookup tag with
  | none => keys
  | some found => found.foldl (fun keys key => keys.insert key) keys

/-- `invalidate_tags`. -/
def invalidateTags (maps : TagMaps) (tags : List Tag) : List CacheKey × TagMaps :=
  let keys := tags.foldl maps.collect []
  (keys, keys.foldl unregister maps)

/-- `invalidate_prefix`. -/
def invalidatePrefix (maps : TagMaps) (start : List UInt8) : List CacheKey × TagMaps :=
  let keys := maps.keyToTags.keys.filter fun key => start.isPrefixOf key
  (keys, keys.foldl unregister maps)

end TagMaps

/-- A call that changes the tag index. -/
inductive TagCall where
  | registerKey (key : CacheKey) (tags : List Tag)
  | unregister (key : CacheKey)
  | invalidateTags (tags : List Tag)
  | invalidatePrefix (start : List UInt8)
  | clear

/-- A call. -/
def TagMaps.apply (maps : TagMaps) : TagCall → TagMaps
  | .registerKey key tags => maps.registerKey key tags
  | .unregister key => maps.unregister key
  | .invalidateTags tags => (maps.invalidateTags tags).2
  | .invalidatePrefix start => (maps.invalidatePrefix start).2
  | .clear => .empty

/-- The index after some calls. -/
def TagMaps.run (calls : List TagCall) : TagMaps := calls.foldl TagMaps.apply .empty

end MetalOrm.Native
