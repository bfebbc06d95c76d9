import MetalOrm.Native.PivotCollection

/-!
# Calls on a many_to_many collection

Which targets a collection holds and which patches are pending, after any sequence of calls. The
addresses that patches are kept under say as much as the keys of the targets, as long as equivalent
targets have one key, and as nothing is attached anew at an address that still has a patch.

## Key results

- `tidy_attachImpl`, `tidy_detach`, `tidy_retain`: what one call keeps
- `tidy_runCalls`: what a run keeps
-/

namespace MetalOrm.Native.PivotCollection

open RelationChange

/-! ## Patches -/

namespace Patch

@[simp] theorem merge_empty (patch : Patch) : patch.merge .empty = patch := rfl

theorem lookup_cons_ite (first : Name × Value) (entries : PivotPatch) (column : Name) :
    (first :: entries).lookup column =
      if column = first.1 then some first.2 else entries.lookup column := by
  obtain ⟨name, value⟩ := first
  rw [List.lookup_cons]
  by_cases hcolumn : column = name
  · simp [hcolumn]
  · have hne : (column == name) = false := beq_eq_false_iff_ne.mpr hcolumn
    simp [hne, hcolumn]

/-- Replacing the entry of a column changes the value of that column. -/
theorem lookup_replace (entries : PivotPatch) (entry : Name × Value) (column : Name) :
    (entries.map fun current => if current.1 = entry.1 then entry else current).lookup column =
      if column = entry.1 ∧ entry.1 ∈ entries.map Prod.fst then some entry.2
      else entries.lookup column := by
  induction entries with
  | nil => simp
  | cons first entries ih =>
    rw [List.map_cons, lookup_cons_ite, lookup_cons_ite, ih]
    by_cases hfirst : first.1 = entry.1
    · by_cases hcolumn : column = entry.1 <;> simp [hfirst, hcolumn]
    · by_cases hcolumn : column = first.1
      · simp [hcolumn, hfirst]
      · have hother : ¬entry.1 = first.1 := fun h => hfirst h.symm
        simp only [hfirst, if_false, hcolumn, List.map_cons, List.mem_cons, hother, false_or]

/-- The value of a column in a patch after an entry is put into it. -/
theorem lookup_setEntry (entries : PivotPatch) (entry : Name × Value) (column : Name) :
    (setEntry entries entry).lookup column =
      if column = entry.1 then some entry.2 else entries.lookup column := by
  unfold setEntry
  split
  · rename_i hthere
    rw [lookup_replace]
    simp only [hthere, and_true]
  · rename_i hnew
    rw [List.lookup_append, lookup_cons_ite, List.lookup_nil]
    by_cases hcolumn : column = entry.1
    · have hnone : entries.lookup column = none := by
        rw [List.lookup_eq_none_iff]
        intro p hp
        rw [hcolumn, bne_iff_ne]
        exact fun h => hnew (List.mem_map.mpr ⟨p, hp, h.symm⟩)
      rw [hnone, if_pos hcolumn, Option.none_or]
    · rw [if_neg hcolumn, if_neg hcolumn, Option.or_none]

/-- A merge takes the values of the second patch, and those of the first for its other columns. -/
theorem lookup_merge (patch other : Patch) (column : Name) :
    (patch.merge other).entries.lookup column =
      (other.entries.lookup column).or (patch.entries.lookup column) := by
  obtain ⟨entries, hnodup⟩ := other
  unfold merge
  dsimp only
  induction entries generalizing patch with
  | nil => simp
  | cons entry entries ih =>
    rw [List.map_cons, List.nodup_cons] at hnodup
    rw [List.foldl_cons, ih (patch.set entry) hnodup.2]
    unfold set
    rw [lookup_setEntry, lookup_cons_ite]
    by_cases hcolumn : column = entry.1
    · have hlast : entries.lookup column = none := by
        rw [List.lookup_eq_none_iff]
        intro p hp
        rw [hcolumn, bne_iff_ne]
        exact fun h => hnodup.1 (List.mem_map.mpr ⟨p, hp, h.symm⟩)
      rw [hlast, if_pos hcolumn, if_pos hcolumn, Option.none_or, Option.some_or]
    · rw [if_neg hcolumn, if_neg hcolumn]

end Patch

/-- The merge of patches in the order in which they were given. -/
def merged (patches : List Patch) : Patch := patches.foldl Patch.merge .empty

@[simp] theorem merged_nil : merged [] = .empty := rfl

/-! ## Equivalent targets -/

variable {κ : Type} [DecidableEq κ] {env : Binding κ}

/-- The key of a target is not missing. -/
def Present (env : Binding κ) (target : Target) : Prop :=
  missingRelationKey env.target env.relation.targetKey target.key = false

theorem sameEntity_self (target : Target) : sameEntity env target target = true := by
  simp [sameEntity]

theorem sameEntity_symm {left right : Target} (h : sameEntity env left right = true) :
    sameEntity env right left = true := by
  unfold sameEntity at h ⊢
  rw [Bool.or_eq_true, beq_iff_eq, Bool.and_eq_true, Bool.and_eq_true, beq_iff_eq] at h ⊢
  obtain haddress | ⟨⟨hbound, hsome⟩, hkey⟩ := h
  · exact .inl haddress.symm
  · exact .inr ⟨⟨hbound, hkey ▸ hsome⟩, hkey.symm⟩

omit [DecidableEq κ] in
theorem identityKey_of_present {target : Target} (h : Present env target) :
    identityKey env target = some (env.valueKey target.key) := by
  unfold identityKey
  rw [show missingRelationKey _ _ _ = false from h]
  rfl

/-- Targets with one key are equivalent. -/
theorem sameEntity_of_key (hbound : env.bound = true) {left right : Target}
    (hpresent : Present env left) (hkey : left.key = right.key) :
    sameEntity env left right = true := by
  have hright : Present env right := by
    unfold Present
    rw [← hkey]
    exact hpresent
  unfold sameEntity
  rw [identityKey_of_present hpresent, identityKey_of_present hright, hkey, hbound]
  simp

/-! ## Tidy collections -/

/-- Every target that is held has one key, and an equivalent one has the same. `given` are the
    patches that were given for a key since a target with it was attached. -/
structure Tidy (env : Binding κ) (c : Collection) (given : Value → List Patch) : Prop where
  present : ∀ t ∈ c.items ++ c.baseline, Present env t
  same : ∀ s ∈ c.items ++ c.baseline, ∀ t ∈ c.items ++ c.baseline,
    sameEntity env s t = true → s.key = t.key
  keys : (c.items.map Target.key).Nodup
  baselineKeys : (c.baseline.map Target.key).Nodup
  addresses : (c.items.map Target.address).Nodup
  patched : ∀ t ∈ c.items,
    (c.pivotPatches.lookup t.address).getD .empty = merged (given t.key)
  fresh : ∀ v, v ∉ c.items.map Target.key → given v = []

/-- An equivalent target that is held has the same key. -/
def KeyKept (env : Binding κ) (c : Collection) (value : Target) : Prop :=
  ∀ held ∈ c.items ++ c.baseline, sameEntity env held value = true → held.key = value.key

/-- The target has a key that it keeps, and its address has no patch unless it is there already. -/
structure Attachable (env : Binding κ) (c : Collection) (value : Target) : Prop where
  present : Present env value
  kept : KeyKept env c value
  clean : findEquivalent env c value = none → c.pivotPatches.lookup value.address = none

/-- A patch that sets nothing is not counted. -/
def give (given : Value → List Patch) (key : Value) (patch : Patch) : Value → List Patch :=
  if patch.entries.isEmpty then given else Function.update given key (given key ++ [patch])

omit [DecidableEq κ] in
@[simp] theorem applyPatch_items (c : Collection) (value : Target) (patch : Patch) :
    (applyPatch env c value patch).items = c.items := by
  unfold applyPatch
  split <;> rfl

omit [DecidableEq κ] in
@[simp] theorem applyPatch_baseline (c : Collection) (value : Target) (patch : Patch) :
    (applyPatch env c value patch).baseline = c.baseline := by
  unfold applyPatch
  split <;> rfl

omit [DecidableEq κ] in
/-- A patch is merged into that of its address. -/
theorem lookup_applyPatch (c : Collection) (value : Target) (patch : Patch) (address : Nat) :
    ((applyPatch env c value patch).pivotPatches.lookup address).getD .empty =
      if address = value.address then
        ((c.pivotPatches.lookup address).getD .empty).merge patch
      else (c.pivotPatches.lookup address).getD .empty := by
  unfold applyPatch
  split
  · rename_i hempty
    have hpatch : patch = .empty := by
      obtain ⟨entries, hnodup⟩ := patch
      have : entries = [] := by simpa using hempty
      subst this
      rfl
    rw [hpatch, Patch.merge_empty, ite_self]
  · by_cases haddress : address = value.address
    · subst haddress
      simp [AList.lookup_insert]
    · rw [if_neg haddress, AList.lookup_insert_ne haddress]

/-- What is pending for a key after a patch. -/
theorem merged_give (given : Value → List Patch) (key v : Value) (patch : Patch) :
    merged (give given key patch v) =
      if v = key then (merged (given v)).merge patch else merged (given v) := by
  unfold give
  split
  · rename_i hempty
    have hpatch : patch = .empty := by
      obtain ⟨entries, hnodup⟩ := patch
      have : entries = [] := by simpa using hempty
      subst this
      rfl
    rw [hpatch, Patch.merge_empty, ite_self]
  · by_cases hv : v = key
    · subst hv
      rw [Function.update_self, if_pos rfl]
      unfold merged
      rw [List.foldl_append, List.foldl_cons, List.foldl_nil]
    · rw [Function.update_of_ne hv, if_neg hv]

/-- A patch for a key leaves the others without patches. -/
theorem give_of_ne (given : Value → List Patch) {key v : Value} (patch : Patch) (h : v ≠ key) :
    give given key patch v = given v := by
  unfold give
  split
  · rfl
  · exact Function.update_of_ne h ..

/-- Items with one address are one. -/
theorem Tidy.eq_of_address {c : Collection} {given : Value → List Patch} (h : Tidy env c given)
    {s t : Target} (hs : s ∈ c.items) (ht : t ∈ c.items) (haddress : s.address = t.address) :
    s = t :=
  List.inj_on_of_nodup_map h.addresses hs ht haddress

/-- Items with one key are one. -/
theorem Tidy.eq_of_key {c : Collection} {given : Value → List Patch} (h : Tidy env c given)
    {s t : Target} (hs : s ∈ c.items) (ht : t ∈ c.items) (hkey : s.key = t.key) : s = t :=
  List.inj_on_of_nodup_map h.keys hs ht hkey

/-- A patch for an item. -/
theorem tidy_applyPatch {c : Collection} {given : Value → List Patch} (h : Tidy env c given)
    {value : Target} (hvalue : value ∈ c.items) (patch : Patch) :
    Tidy env (applyPatch env c value patch) (give given value.key patch) where
  present := by simpa using h.present
  same := by simpa using h.same
  keys := by simpa using h.keys
  baselineKeys := by simpa using h.baselineKeys
  addresses := by simpa using h.addresses
  patched t ht := by
    rw [applyPatch_items] at ht
    rw [lookup_applyPatch, merged_give, h.patched t ht]
    by_cases hkey : t.key = value.key
    · rw [h.eq_of_key ht hvalue hkey, if_pos rfl, if_pos rfl]
    · have haddress : t.address ≠ value.address := by
        intro heq
        rw [h.eq_of_address ht hvalue heq] at hkey
        exact hkey rfl
      rw [if_neg haddress, if_neg hkey]
  fresh v hv := by
    rw [applyPatch_items] at hv
    have hne : v ≠ value.key := fun heq => hv (heq ▸ List.mem_map_of_mem hvalue)
    rw [give_of_ne given patch hne]
    exact h.fresh v hv

/-- `attach_impl` keeps a collection tidy. -/
theorem tidy_attachImpl (hbound : env.bound = true) {c : Collection}
    {given : Value → List Patch} (h : Tidy env c given) {value : Target}
    (hattach : Attachable env c value) (patch : Patch) :
    Tidy env (attachImpl env c value patch) (give given value.key patch) := by
  unfold attachImpl
  cases hfind : findEquivalent env c value with
  | some existing =>
    have hmem : existing ∈ c.items := List.mem_of_find?_eq_some hfind
    have hsame : sameEntity env existing value = true := by
      unfold findEquivalent at hfind
      exact List.find?_some (p := fun item => sameEntity env item value) hfind
    have hkey := hattach.kept existing (List.mem_append_left _ hmem) hsame
    dsimp only
    rw [← hkey]
    exact tidy_applyPatch h hmem patch
  | none =>
    have hnone : ∀ t ∈ c.items, sameEntity env t value = false := by
      simpa [findEquivalent] using hfind
    -- Neither the key nor the address of the new item is there.
    have hkey : value.key ∉ c.items.map Target.key := by
      intro hmem
      obtain ⟨t, ht, htkey⟩ := List.mem_map.mp hmem
      have hpresent := h.present t (List.mem_append_left _ ht)
      have hfalse := hnone t ht
      rw [sameEntity_of_key hbound hpresent htkey] at hfalse
      cases hfalse
    have haddress : ∀ t ∈ c.items, t.address ≠ value.address := by
      intro t ht heq
      have hfalse := hnone t ht
      simp [sameEntity, heq] at hfalse
    dsimp only
    constructor
    · intro t ht
      simp only [applyPatch_items, applyPatch_baseline, List.mem_append, List.mem_singleton] at ht
      obtain (ht | rfl) | ht := ht
      · exact h.present t (List.mem_append_left _ ht)
      · exact hattach.present
      · exact h.present t (List.mem_append_right _ ht)
    · intro s hs t ht hst
      simp only [applyPatch_items, applyPatch_baseline, List.mem_append, List.mem_singleton] at hs ht
      have hold : ∀ u, (u ∈ c.items ∨ u = value) ∨ u ∈ c.baseline →
          u ∈ c.items ++ c.baseline ∨ u = value := by
        intro u hu
        simp only [List.mem_append]
        tauto
      obtain hs' | hs' := hold s hs
      · obtain ht' | ht' := hold t ht
        · exact h.same s hs' t ht' hst
        · rw [ht'] at hst ⊢
          exact hattach.kept s hs' hst
      · obtain ht' | ht' := hold t ht
        · rw [hs'] at hst ⊢
          exact (hattach.kept t ht' (sameEntity_symm hst)).symm
        · rw [hs', ht']
    · simp only [applyPatch_items, List.map_append, List.map_cons, List.map_nil]
      exact List.nodup_append.mpr ⟨h.keys, List.nodup_singleton _, by
        intro a ha b hb hab
        rw [List.mem_singleton] at hb
        exact hkey (hb ▸ hab ▸ ha)⟩
    · simpa using h.baselineKeys
    · simp only [applyPatch_items, List.map_append, List.map_cons, List.map_nil]
      exact List.nodup_append.mpr ⟨h.addresses, List.nodup_singleton _, by
        intro a ha b hb hab
        obtain ⟨t, ht, rfl⟩ := List.mem_map.mp ha
        rw [List.mem_singleton] at hb
        exact haddress t ht (hab.trans hb)⟩
    · intro t ht
      simp only [applyPatch_items, List.mem_append, List.mem_singleton] at ht
      rw [lookup_applyPatch, merged_give]
      obtain ht | rfl := ht
      · have hne : t.key ≠ value.key := fun heq => hkey (heq ▸ List.mem_map_of_mem ht)
        rw [if_neg (haddress t ht), if_neg hne]
        exact h.patched t ht
      · rw [if_pos rfl, if_pos rfl, hattach.clean hfind, h.fresh _ hkey]
        rfl
    · intro v hv
      simp only [applyPatch_items, List.map_append, List.map_cons, List.map_nil,
        List.mem_append, List.mem_singleton, not_or] at hv
      rw [give_of_ne given patch hv.2]
      exact h.fresh v hv.1

/-- Fewer items leave a collection tidy, when the patches of those that go are forgotten. -/
theorem tidy_sublist {c : Collection} {given given' : Value → List Patch} (h : Tidy env c given)
    {items : List Target} (hsub : List.Sublist items c.items)
    (hkept : ∀ t ∈ items, given' t.key = given t.key)
    (hgone : ∀ v, v ∉ items.map Target.key → given' v = []) :
    Tidy env { c with items := items } given' := by
  have hmem : ∀ t, t ∈ items ++ c.baseline → t ∈ c.items ++ c.baseline := by
    intro t ht
    rw [List.mem_append] at ht ⊢
    exact ht.imp_left fun hleft => hsub.subset hleft
  constructor
  · exact fun t ht => h.present t (hmem t ht)
  · exact fun s hs t ht => h.same s (hmem s hs) t (hmem t ht)
  · exact h.keys.sublist (hsub.map _)
  · exact h.baselineKeys
  · exact h.addresses.sublist (hsub.map _)
  · intro t ht
    rw [hkept t ht]
    exact h.patched t (hsub.subset ht)
  · exact hgone

/-- Erasing the first item that has a key erases all that have it, as there is only one. -/
theorem eraseP_eq_filter {items : List Target} (hkeys : (items.map Target.key).Nodup)
    {found : Target → Bool} {key : Value} (hfound : ∀ t ∈ items, found t = decide (t.key = key)) :
    items.eraseP found = items.filter fun t => t.key ≠ key := by
  induction items with
  | nil => rfl
  | cons first items ih =>
    rw [List.map_cons, List.nodup_cons] at hkeys
    have hrest : ∀ t ∈ items, found t = decide (t.key = key) :=
      fun t ht => hfound t (List.mem_cons_of_mem _ ht)
    have hfirst := hfound first (List.mem_cons_self ..)
    by_cases hkey : first.key = key
    · rw [List.eraseP_cons_of_pos (by simp [hfirst, hkey]), List.filter_cons_of_neg (by simp [hkey])]
      symm
      rw [List.filter_eq_self]
      intro t ht
      rw [decide_eq_true_eq]
      intro htkey
      exact hkeys.1 (hkey ▸ htkey ▸ List.mem_map_of_mem ht)
    · rw [List.eraseP_cons_of_neg (by simp [hfirst, hkey]), List.filter_cons_of_pos (by simp [hkey]),
        ih hkeys.2 hrest]

/-- Taking the item with a key out. -/
theorem tidy_erase {c : Collection} {given : Value → List Patch} (h : Tidy env c given)
    (key : Value) : Tidy env { c with items := c.items.filter fun t => t.key ≠ key }
      (Function.update given key []) := by
  apply tidy_sublist h List.filter_sublist
  · intro t ht
    have hne : t.key ≠ key := by simpa using (List.mem_filter.mp ht).2
    exact Function.update_of_ne hne ..
  · intro v hv
    by_cases hkey : v = key
    · rw [hkey]
      exact Function.update_self ..
    · rw [Function.update_of_ne hkey]
      apply h.fresh v
      intro hmem
      obtain ⟨t, ht, rfl⟩ := List.mem_map.mp hmem
      exact hv (List.mem_map.mpr ⟨t, List.mem_filter.mpr ⟨ht, by simpa using hkey⟩, rfl⟩)

/-- `detach` of a target that keeps its key. -/
theorem detach_eq (hbound : env.bound = true) {c : Collection} {given : Value → List Patch}
    (h : Tidy env c given) {value : Target} (hkept : KeyKept env c value) :
    (detach env c value).2 = { c with items := c.items.filter fun t => t.key ≠ value.key } := by
  unfold detach
  dsimp only
  rw [eraseP_eq_filter h.keys]
  intro t ht
  have hmem := List.mem_append_left c.baseline ht
  rw [Bool.eq_iff_iff, decide_eq_true_eq]
  exact ⟨hkept t hmem, sameEntity_of_key hbound (h.present t hmem)⟩

/-- The identity key of an item is the text of its key. -/
theorem Tidy.identityKey {c : Collection} {given : Value → List Patch} (h : Tidy env c given)
    {t : Target} (ht : t ∈ c.items) :
    PivotCollection.identityKey env t = some (env.valueKey t.key) :=
  identityKey_of_present (h.present t (List.mem_append_left _ ht))

/-- Items with the text of a key are one. -/
theorem Tidy.findByKey_eq_some (hbound : env.bound = true) {c : Collection}
    {given : Value → List Patch} (h : Tidy env c given) {text : κ} {item : Target}
    (hfind : findByKey env c text = some item) :
    item ∈ c.items ∧ ∀ t ∈ c.items,
      (PivotCollection.identityKey env t == some text) = decide (t.key = item.key) := by
  have hmem : item ∈ c.items := List.mem_of_find?_eq_some hfind
  have htext : PivotCollection.identityKey env item = some text := by
    unfold findByKey at hfind
    have := List.find?_some (p := fun item => PivotCollection.identityKey env item == some text)
      hfind
    simpa using this
  have hitem : env.valueKey item.key = text := by
    rw [h.identityKey hmem] at htext
    exact Option.some.inj htext
  constructor
  · exact hmem
  · intro t ht
    rw [Bool.eq_iff_iff, beq_iff_eq, decide_eq_true_eq, h.identityKey ht, Option.some.injEq]
    constructor
    · intro hsame
      apply h.same t (List.mem_append_left _ ht) item (List.mem_append_left _ hmem)
      unfold sameEntity
      rw [h.identityKey ht, h.identityKey hmem, hsame, hitem, hbound]
      simp
    · intro hkey
      rw [hkey, hitem]

/-- `detach` by a key that an item has. -/
theorem detachKey_eq (hbound : env.bound = true) {c : Collection} {given : Value → List Patch}
    (h : Tidy env c given) (key : Value) : detachKey env c key = .ok
      (match findByKey env c (env.valueKey key) with
      | some item => (true, { c with items := c.items.filter fun t => t.key ≠ item.key })
      | none => (false, c)) := by
  unfold detachKey ensureIdentityBinding
  rw [if_pos hbound]
  cases hfind : findByKey env c (env.valueKey key) with
  | some item =>
    obtain ⟨_, htexts⟩ := h.findByKey_eq_some hbound hfind
    rw [eraseP_eq_filter h.keys htexts]
    rfl
  | none =>
    have hnone : ∀ t ∈ c.items,
        ¬(identityKey env t == some (env.valueKey key)) = true := by
      simpa [findByKey] using hfind
    rw [List.eraseP_of_forall_not hnone]
    rfl

/-- Keeping the items with some keys. -/
theorem tidy_retain {c : Collection} {given : Value → List Patch} (h : Tidy env c given)
    (keys : List κ) : Tidy env (retain env keys c)
      (fun v => if env.valueKey v ∈ keys then given v else []) := by
  have hretained : ∀ t ∈ c.items, ((identityKey env t).all fun key => key ∈ keys) =
      decide (env.valueKey t.key ∈ keys) := by
    intro t ht
    rw [h.identityKey ht]
    rfl
  apply tidy_sublist h List.filter_sublist
  · intro t ht
    obtain ⟨hitem, htext⟩ := List.mem_filter.mp ht
    rw [hretained t hitem, decide_eq_true_eq] at htext
    exact if_pos htext
  · intro v hv
    split
    · rename_i htext
      apply h.fresh v
      intro hmem
      obtain ⟨t, ht, rfl⟩ := List.mem_map.mp hmem
      exact hv (List.mem_map.mpr ⟨t, List.mem_filter.mpr
        ⟨ht, by rw [hretained t ht]; simpa using htext⟩, rfl⟩)
    · rfl

/-! ## Calls -/

/-- A call of the interface. -/
inductive LinkCall where
  | attach (value : Target) (patch : Patch)
  | attachKey (key : Value) (made : Except Exn Target) (patch : Patch)
  | detach (value : Target)
  | detachKey (key : Value)
  | syncByIds (ids : List (Value × Except Exn Target))

variable (env) in
/-- The collection that a call leaves, also where it throws. -/
def LinkCall.run (c : Collection) : LinkCall → Collection
  | .attach value patch => attachImpl env c value patch
  | .attachKey key made patch =>
    match attachIdValue env c key made patch with
    | .ok c' => c'
    | .error _ => c
  | .detach value => (PivotCollection.detach env c value).2
  | .detachKey key =>
    match PivotCollection.detachKey env c key with
    | .ok (_, c') => c'
    | .error _ => c
  | .syncByIds ids => (PivotCollection.syncByIds env ids c).2

variable (env) in
/-- The patches that were given for the keys of the items, when a call returns: an attached target
    gets the patch of the call, and a target that is taken out loses those that it had. -/
def LinkCall.give (c : Collection) (given : Value → List Patch) :
    LinkCall → Value → List Patch
  | .attach value patch => PivotCollection.give given value.key patch
  | .attachKey key made patch =>
    match findByKey env c (env.valueKey key), made with
    | some item, _ => PivotCollection.give given item.key patch
    | none, .ok value => PivotCollection.give given value.key patch
    | none, .error _ => given
  | .detach value => Function.update given value.key []
  | .detachKey key =>
    match findByKey env c (env.valueKey key) with
    | some item => Function.update given item.key []
    | none => given
  | .syncByIds ids =>
    match (PivotCollection.syncByIds env ids c).1 with
    | .ok () => fun v => if env.valueKey v ∈ ids.map fun id => env.valueKey id.1 then given v else []
    | .error _ => given

variable (env) in
/-- Every target that the loop of `sync_by_ids` attaches can be attached when its turn comes. -/
def AllAttachable : List (Value × Except Exn Target) → Collection → Prop
  | [], _ => True
  | (id, made) :: ids, c =>
    if (findByKey env c (env.valueKey id)).isSome then AllAttachable ids c
    else ∀ value, made = .ok value →
      Attachable env c value ∧ AllAttachable ids (attachImpl env c value .empty)

variable (env) in
/-- What a call attaches can be attached, and what it detaches keeps its key. -/
def LinkCall.Clean (c : Collection) : LinkCall → Prop
  | .attach value _ => Attachable env c value
  | .attachKey key made _ => findByKey env c (env.valueKey key) = none →
      ∀ value, made = .ok value → Attachable env c value
  | .detach value => KeyKept env c value
  | .detachKey _ => True
  | .syncByIds ids => AllAttachable env ids c

/-- `attach_id_value`, where the collection is bound. -/
theorem attachIdValue_eq (hbound : env.bound = true) (c : Collection) (key : Value)
    (made : Except Exn Target) (patch : Patch) : attachIdValue env c key made patch =
      match findByKey env c (env.valueKey key) with
      | some item => .ok (applyPatch env c item patch)
      | none => made.map fun value => attachImpl env c value patch := by
  unfold attachIdValue ensureIdentityBinding
  rw [if_pos hbound]
  cases findByKey env c (env.valueKey key) with
  | some item => rfl
  | none => cases made <;> rfl

/-- The loop of `sync_by_ids` keeps a collection tidy. -/
theorem tidy_attachMissing (hbound : env.bound = true) {given : Value → List Patch}
    (ids : List (Value × Except Exn Target)) (c : Collection) (h : Tidy env c given)
    (hattach : AllAttachable env ids c) : Tidy env (attachMissing env ids c).2 given := by
  induction ids generalizing c with
  | nil => exact h
  | cons id ids ih =>
    obtain ⟨id, made⟩ := id
    unfold attachMissing
    unfold AllAttachable at hattach
    rw [attachIdValue_eq hbound]
    cases hfind : findByKey env c (env.valueKey id) with
    | some item =>
      rw [hfind] at hattach
      exact ih c h hattach
    | none =>
      rw [hfind, if_neg (by simp)] at hattach
      rw [if_neg (by simp)]
      cases made with
      | error e => exact h
      | ok value =>
        obtain ⟨hvalue, hrest⟩ := hattach value rfl
        exact ih _ (tidy_attachImpl hbound h hvalue .empty) hrest

/-- A clean call keeps a collection tidy. -/
theorem tidy_run (hbound : env.bound = true) {c : Collection} {given : Value → List Patch}
    (h : Tidy env c given) (call : LinkCall) (hclean : call.Clean env c) :
    Tidy env (call.run env c) (call.give env c given) := by
  cases call with
  | attach value patch => exact tidy_attachImpl hbound h hclean patch
  | attachKey key made patch =>
    unfold LinkCall.run LinkCall.give
    unfold LinkCall.Clean at hclean
    dsimp only
    rw [attachIdValue_eq hbound]
    cases hfind : findByKey env c (env.valueKey key) with
    | some item =>
      obtain ⟨hmem, _⟩ := h.findByKey_eq_some hbound hfind
      exact tidy_applyPatch h hmem patch
    | none =>
      cases made with
      | error e => exact h
      | ok value => exact tidy_attachImpl hbound h (hclean hfind value rfl) patch
  | detach value =>
    unfold LinkCall.run LinkCall.give
    dsimp only
    rw [detach_eq hbound h hclean]
    exact tidy_erase h value.key
  | detachKey key =>
    unfold LinkCall.run LinkCall.give
    dsimp only
    rw [detachKey_eq hbound h]
    cases findByKey env c (env.valueKey key) with
    | some item => exact tidy_erase h item.key
    | none => exact h
  | syncByIds ids =>
    unfold LinkCall.run LinkCall.give syncByIds ensureIdentityBinding
    rw [if_pos hbound]
    dsimp only
    have hloop := tidy_attachMissing hbound ids c h hclean
    revert hloop
    generalize attachMissing env ids c = result
    intro hloop
    obtain ⟨result, c'⟩ := result
    cases result with
    | error e => exact hloop
    | ok _ => exact tidy_retain hloop _

variable (env) in
/-- A sequence of calls: the collection, and the patches that were given. -/
def runCalls : List LinkCall → Collection × (Value → List Patch) →
    Collection × (Value → List Patch)
  | [], state => state
  | call :: calls, (c, given) => runCalls calls (call.run env c, call.give env c given)

variable (env) in
/-- Every call is clean when its turn comes. -/
def CleanCalls : List LinkCall → Collection → Prop
  | [], _ => True
  | call :: calls, c => call.Clean env c ∧ CleanCalls calls (call.run env c)

/-- Clean calls keep a collection tidy. -/
theorem tidy_runCalls (hbound : env.bound = true) (calls : List LinkCall) {c : Collection}
    {given : Value → List Patch} (h : Tidy env c given) (hclean : CleanCalls env calls c) :
    Tidy env (runCalls env calls (c, given)).1 (runCalls env calls (c, given)).2 := by
  induction calls generalizing c given with
  | nil => exact h
  | cons call calls ih => exact ih (tidy_run hbound h call hclean.1) hclean.2

/-! ## The baseline -/

theorem attachImpl_baseline (c : Collection) (value : Target) (patch : Patch) :
    (attachImpl env c value patch).baseline = c.baseline := by
  unfold attachImpl
  cases findEquivalent env c value <;> simp

theorem attachIdValue_baseline {c c' : Collection} {key : Value} {made : Except Exn Target}
    {patch : Patch} (hok : attachIdValue env c key made patch = .ok c') :
    c'.baseline = c.baseline := by
  unfold attachIdValue at hok
  obtain ⟨_, _, hok⟩ := except_bind_ok hok
  revert hok
  cases findByKey env c (env.valueKey key) with
  | some item =>
    intro hok
    cases hok
    exact applyPatch_baseline ..
  | none =>
    intro hok
    obtain ⟨value, _, hok⟩ := except_bind_ok hok
    cases hok
    exact attachImpl_baseline ..

theorem attachMissing_baseline (ids : List (Value × Except Exn Target)) (c : Collection) :
    (attachMissing env ids c).2.baseline = c.baseline := by
  induction ids generalizing c with
  | nil => rfl
  | cons id ids ih =>
    unfold attachMissing
    split
    · exact ih c
    · split
      · rename_i c' hok
        rw [ih c']
        exact attachIdValue_baseline hok
      · rfl

/-- A call leaves the baseline alone. -/
theorem run_baseline (call : LinkCall) (c : Collection) :
    (call.run env c).baseline = c.baseline := by
  cases call with
  | attach value patch => exact attachImpl_baseline ..
  | attachKey key made patch =>
    unfold LinkCall.run
    dsimp only
    split
    · rename_i c' hok
      exact attachIdValue_baseline hok
    · rfl
  | detach value => rfl
  | detachKey key =>
    unfold LinkCall.run detachKey
    cases ensureIdentityBinding env <;> rfl
  | syncByIds ids =>
    unfold LinkCall.run syncByIds
    cases ensureIdentityBinding env with
    | error e => rfl
    | ok _ =>
      have hloop : (attachMissing env ids c).2.baseline = c.baseline :=
        attachMissing_baseline ids c
      revert hloop
      dsimp only
      generalize attachMissing env ids c = result
      intro hloop
      obtain ⟨result, c'⟩ := result
      cases result <;> exact hloop

variable (env) in
/-- Calls leave the baseline alone. -/
theorem runCalls_baseline (calls : List LinkCall) (c : Collection)
    (given : Value → List Patch) :
    (runCalls env calls (c, given)).1.baseline = c.baseline := by
  induction calls generalizing c given with
  | nil => rfl
  | cons call calls ih =>
    unfold runCalls
    rw [ih]
    exact run_baseline call c

end MetalOrm.Native.PivotCollection
