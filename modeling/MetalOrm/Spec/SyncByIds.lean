import MetalOrm.ForStd.FirstBy
import MetalOrm.Spec.PivotFlush
import MetalOrm.Spec.PivotUndo

/-!
# Membership by ids

`sync_by_ids` attaches what is missing, one id after the other, and takes out in the end what was
not asked for. Ids and keys are compared as texts, and what is attached for an id is what the
factory makes for it.

## Key results

- `attachMissing_spec`: what the loop over the ids attaches
- `sync_sets_membership`: what the collection holds afterwards
-/

namespace MetalOrm.Native.PivotCollection

open ForStd RelationChange

variable {κ : Type} [DecidableEq κ] {env : Binding κ}

/-! ## Keys of items -/

/-- The item has an identity. -/
def hasIdentity (env : Binding κ) (item : Target) : Bool := (identityKey env item).isSome

/-- The keys of the items with an identity. -/
def identityKeys (env : Binding κ) (c : Collection) : List Value :=
  (c.items.filter (hasIdentity env)).map Target.key

omit [DecidableEq κ] in
theorem hasIdentity_iff {item : Target} : hasIdentity env item = true ↔ Present env item := by
  unfold hasIdentity identityKey Present
  cases missingRelationKey env.target env.relation.targetKey item.key <;> simp

omit [DecidableEq κ] in
theorem mem_identityKeys {c : Collection} {key : Value} :
    key ∈ identityKeys env c ↔ ∃ item ∈ c.items, Present env item ∧ item.key = key := by
  simp only [identityKeys, List.mem_map, List.mem_filter, hasIdentity_iff, and_assoc]

/-- An item with a key is found by its text. -/
theorem findByKey_of_mem {c : Collection} {key : Value} (h : key ∈ identityKeys env c) :
    (findByKey env c (env.valueKey key)).isSome = true := by
  obtain ⟨item, hitem, hpresent, rfl⟩ := mem_identityKeys.mp h
  unfold findByKey
  rw [List.find?_isSome]
  exact ⟨item, hitem, by rw [identityKey_of_present hpresent, beq_self_eq_true]⟩

/-- What the code and the factory need: different ids and keys have different texts, the factory
    makes a target with the id for its key, and an object has one key. -/
structure Syncable (env : Binding κ) (c : Collection) (ids : List (Value × Except Exn Target)) :
    Prop where
  texts : ∀ u ∈ ids.map Prod.fst, ∀ v ∈ ids.map Prod.fst ++ identityKeys env c,
    env.valueKey u = env.valueKey v → u = v
  made : ∀ id target, (id, .ok target) ∈ ids → Present env target ∧ target.key = id
  objects : ∀ item ∈ c.items, ∀ id target, (id, .ok target) ∈ ids →
    item.address = target.address → item.key = target.key
  madeObjects : ∀ id target, (id, .ok target) ∈ ids → ∀ id' target', (id', .ok target') ∈ ids →
    target.address = target'.address → target.key = target'.key

section

variable {c : Collection} {id : Value} {made : Except Exn Target} {target : Target}
  {ids : List (Value × Except Exn Target)}

omit [DecidableEq κ] in
theorem Syncable.tail (h : Syncable env c ((id, made) :: ids)) : Syncable env c ids where
  texts u hu v hv := by
    refine h.texts u (List.mem_cons_of_mem _ hu) v ?_
    rw [List.map_cons, List.cons_append]
    exact List.mem_cons_of_mem _ hv
  made id target hmem := h.made id target (List.mem_cons_of_mem _ hmem)
  objects item hitem id target hmem := h.objects item hitem id target (List.mem_cons_of_mem _ hmem)
  madeObjects id target hmem id' target' hmem' :=
    h.madeObjects id target (List.mem_cons_of_mem _ hmem) id' target' (List.mem_cons_of_mem _ hmem')

/-- An item has the text of an id just when it has the id for its key. -/
theorem Syncable.findByKey_isSome (h : Syncable env c ids) (hid : id ∈ ids.map Prod.fst) :
    (findByKey env c (env.valueKey id)).isSome = true ↔ id ∈ identityKeys env c := by
  refine ⟨fun hfound => ?_, findByKey_of_mem⟩
  unfold findByKey at hfound
  obtain ⟨item, hitem, htext⟩ := List.find?_isSome.mp hfound
  have hpresent : Present env item := by
    rw [← hasIdentity_iff, hasIdentity, beq_iff_eq.mp htext]
    rfl
  rw [identityKey_of_present hpresent, beq_iff_eq, Option.some.injEq] at htext
  have hkey : item.key ∈ identityKeys env c := mem_identityKeys.mpr ⟨item, hitem, hpresent, rfl⟩
  rwa [h.texts id hid _ (List.mem_append_right _ hkey) htext.symm]

/-- What the factory makes for an id that is missing is put at the end. -/
theorem Syncable.attachImpl_eq (h : Syncable env c ((id, .ok target) :: ids))
    (hmissing : id ∉ identityKeys env c) :
    attachImpl env c target .empty = { c with items := c.items ++ [target] } := by
  obtain ⟨hpresent, hkey⟩ := h.made id target List.mem_cons_self
  have hnone : findEquivalent env c target = none := by
    rw [findEquivalent_eq_none]
    intro item hitem
    by_contra hsame
    rw [Bool.not_eq_false, sameEntity, Bool.or_eq_true, beq_iff_eq] at hsame
    -- an equivalent item would have the id for its key
    have hsameKey : Present env item ∧ item.key = id := by
      obtain haddress | htext := hsame
      · have hitemKey := h.objects item hitem id target List.mem_cons_self haddress
        refine ⟨?_, hitemKey.trans hkey⟩
        unfold Present
        rw [hitemKey]
        exact hpresent
      · rw [Bool.and_eq_true, Bool.and_eq_true, beq_iff_eq] at htext
        obtain ⟨⟨-, hsome⟩, htext⟩ := htext
        have hitemPresent := hasIdentity_iff.mp hsome
        rw [identityKey_of_present hitemPresent, identityKey_of_present hpresent, hkey,
          Option.some.injEq] at htext
        have hmem : item.key ∈ identityKeys env c :=
          mem_identityKeys.mpr ⟨item, hitem, hitemPresent, rfl⟩
        exact ⟨hitemPresent,
          (h.texts id List.mem_cons_self _ (List.mem_append_right _ hmem) htext.symm).symm⟩
    exact hmissing (mem_identityKeys.mpr ⟨item, hitem, hsameKey⟩)
  unfold attachImpl
  rw [hnone]
  rfl

omit [DecidableEq κ] in
theorem identityKeys_append (c : Collection) {new : List Target}
    (hpresent : ∀ target ∈ new, Present env target) :
    identityKeys env { c with items := c.items ++ new } =
      identityKeys env c ++ new.map Target.key := by
  unfold identityKeys
  rw [List.filter_append, List.map_append, List.filter_eq_self.mpr fun target htarget =>
    hasIdentity_iff.mpr (hpresent target htarget)]

omit [DecidableEq κ] in
/-- What was made for the first id does not stand in the way of the others. -/
theorem Syncable.append (h : Syncable env c ((id, .ok target) :: ids)) :
    Syncable env { c with items := c.items ++ [target] } ids where
  texts u hu v hv := by
    obtain ⟨hpresent, hkey⟩ := h.made id target List.mem_cons_self
    rw [identityKeys_append c (by simpa using hpresent), List.map_singleton, hkey,
      ← List.append_assoc, List.mem_append, List.mem_singleton] at hv
    refine h.texts u (List.mem_cons_of_mem _ hu) v ?_
    obtain hv | rfl := hv
    · exact List.mem_cons_of_mem _ hv
    · exact List.mem_cons_self
  made := h.tail.made
  objects item hitem id' target' hmem := by
    obtain hitem | hitem := List.mem_append.mp hitem
    · exact h.tail.objects item hitem id' target' hmem
    · rw [List.mem_singleton.mp hitem]
      exact h.madeObjects id target List.mem_cons_self id' target' (List.mem_cons_of_mem _ hmem)
  madeObjects := h.tail.madeObjects

end

/-! ## The loop over the ids -/

/-- What was made for ids that were missing is put at the end, in the order of the ids. -/
structure Attaches (env : Binding κ) (c : Collection) (ids : List (Value × Except Exn Target))
    (new : List Target) (c' : Collection) : Prop where
  eq : c' = { c with items := c.items ++ new }
  keys : new.map Target.key = firstUnseen id (identityKeys env c) (ids.map Prod.fst)
  made : ∀ target ∈ new, (target.key, .ok target) ∈ ids

section

variable {c c' : Collection} {id : Value} {made : Except Exn Target} {target : Target}
  {ids : List (Value × Except Exn Target)} {new : List Target}

omit [DecidableEq κ] in
theorem Attaches.refl (c : Collection) : Attaches env c [] [] c where
  eq := by rw [List.append_nil]
  keys := rfl
  made := nofun

omit [DecidableEq κ] in
/-- An id that is there is passed over. -/
theorem Attaches.skip (h : Attaches env c ids new c') (hid : id ∈ identityKeys env c) :
    Attaches env c ((id, made) :: ids) new c' where
  eq := h.eq
  keys := by rw [List.map_cons, firstUnseen_cons, if_pos (by exact hid), h.keys]
  made target htarget := List.mem_cons_of_mem _ (h.made target htarget)

omit [DecidableEq κ] in
/-- A missing id comes first. -/
theorem Attaches.cons (h : Attaches env { c with items := c.items ++ [target] } ids new c')
    (hpresent : Present env target) (hmissing : target.key ∉ identityKeys env c) :
    Attaches env c ((target.key, .ok target) :: ids) (target :: new) c' where
  eq := by simp [h.eq]
  keys := by
    have hkeys := h.keys
    rw [identityKeys_append c (by simpa using hpresent)] at hkeys
    rw [List.map_cons, List.map_cons, firstUnseen_cons, if_neg (by exact hmissing), hkeys]
    refine congrArg _ (firstUnseen_congr (fun key => ?_) _)
    rw [List.map_singleton, List.mem_append, List.mem_singleton, List.mem_cons, or_comm]
    rfl
  made target' htarget := by
    obtain rfl | htarget := List.mem_cons.mp htarget
    · exact List.mem_cons_self
    · exact List.mem_cons_of_mem _ (h.made target' htarget)

end

/-- The loop attaches the targets of all ids that are missing, or of those before the id at which
    the factory throws. -/
theorem attachMissing_spec (hbound : env.bound = true) {c : Collection}
    {ids : List (Value × Except Exn Target)} (h : Syncable env c ids) :
    (∃ new c', attachMissing env ids c = (.ok (), c') ∧ Attaches env c ids new c') ∨
      ∃ before id e after new c', ids = before ++ (id, .error e) :: after ∧
        id ∉ identityKeys env c ∧ id ∉ before.map Prod.fst ∧
        attachMissing env ids c = (.error e, c') ∧ Attaches env c before new c' := by
  induction ids generalizing c with
  | nil => exact .inl ⟨[], c, rfl, .refl c⟩
  | cons first ids ih =>
    obtain ⟨id, made⟩ := first
    have hthere : (findByKey env c (env.valueKey id)).isSome = true ↔ id ∈ identityKeys env c :=
      h.findByKey_isSome List.mem_cons_self
    by_cases hid : id ∈ identityKeys env c
    · have hskip : attachMissing env ((id, made) :: ids) c = attachMissing env ids c := by
        rw [attachMissing, if_pos (hthere.mpr hid)]
      rw [hskip]
      obtain ⟨new, c', hrun, hnew⟩ | ⟨before, id', e, after, new, c', hids, hid', hbefore, hrun, hnew⟩ :=
        ih h.tail
      · exact .inl ⟨new, c', hrun, hnew.skip hid⟩
      · refine .inr ⟨(id, made) :: before, id', e, after, new, c', by rw [hids]; rfl, hid', ?_, hrun,
          hnew.skip hid⟩
        rw [List.map_cons, List.mem_cons, not_or]
        exact ⟨fun heq => hid' (heq ▸ hid), hbefore⟩
    · have hnone : findByKey env c (env.valueKey id) = none := by
        rw [← Option.not_isSome_iff_eq_none, hthere]
        exact hid
      cases made with
      | error e =>
        have hattach : attachMissing env ((id, .error e) :: ids) c = (.error e, c) := by
          rw [attachMissing, hnone, if_neg (by simp), attachIdValue_eq hbound, hnone] <;> rfl
        exact .inr ⟨[], id, e, ids, [], c, rfl, hid, List.not_mem_nil, hattach, .refl c⟩
      | ok target =>
        have hattach : attachMissing env ((id, .ok target) :: ids) c =
            attachMissing env ids (attachImpl env c target .empty) := by
          rw [attachMissing, hnone, if_neg (by simp), attachIdValue_eq hbound, hnone] <;> rfl
        rw [hattach, h.attachImpl_eq hid]
        obtain ⟨hpresent, rfl⟩ := h.made id target List.mem_cons_self
        obtain ⟨new, c', hrun, hnew⟩ | ⟨before, id', e, after, new, c', hids, hid', hbefore, hrun,
          hnew⟩ := ih h.append
        · exact .inl ⟨target :: new, c', hrun, hnew.cons hpresent hid⟩
        · rw [identityKeys_append c (by simpa using hpresent), List.map_singleton, List.mem_append,
            not_or] at hid'
          refine .inr ⟨(target.key, .ok target) :: before, id', e, after, target :: new, c',
            by rw [hids]; rfl, hid'.1, ?_, hrun, hnew.cons hpresent hid⟩
          rw [List.map_cons, List.mem_cons, not_or]
          exact ⟨fun heq => hid'.2 (List.mem_singleton.mpr heq), hbefore⟩

/-! ## What the collection holds -/

/-- The items that `sync_by_ids` keeps: those with one of the ids, and those without identity. -/
def keptItems (env : Binding κ) (c : Collection) (ids : List Value) : List Target :=
  c.items.filter fun item => !hasIdentity env item || item.key ∈ ids

/-- The collection holds what was asked for. -/
structure Synced (env : Binding κ) (c : Collection) (ids : List (Value × Except Exn Target))
    (c' : Collection) : Prop where
  /-- One item for each id. -/
  once : (identityKeys env c').Nodup
  identities : ∀ key, key ∈ identityKeys env c' ↔ key ∈ ids.map Prod.fst
  /-- The items that are kept, and behind them new ones in the order of their ids. -/
  items : ∃ new, c'.items = keptItems env c (ids.map Prod.fst) ++ new ∧
    new.map Target.key = firstUnseen id (identityKeys env c) (ids.map Prod.fst) ∧
    ∀ target ∈ new, (target.key, .ok target) ∈ ids
  pivots : c'.pivots = c.pivots ∧ c'.pivotPatches = c.pivotPatches ∧ c'.baseline = c.baseline
  again : ∀ ids' : List (Value × Except Exn Target), ids'.map Prod.fst = ids.map Prod.fst →
    syncByIds env ids' c' = (.ok (), c')

theorem syncByIds_eq (hbound : env.bound = true) (ids : List (Value × Except Exn Target))
    (c : Collection) : syncByIds env ids c =
      match attachMissing env ids c with
      | (.ok (), c) => (.ok (), retain env (ids.map fun id => env.valueKey id.1) c)
      | failed => failed := by
  unfold syncByIds ensureIdentityBinding
  rw [if_pos hbound] <;> rfl

/-- Items with different texts have different keys. -/
theorem Distinct.identityKeys_nodup (hbound : env.bound = true) {c : Collection}
    (h : Distinct env c.items) : (identityKeys env c).Nodup := by
  refine List.pairwise_map.mpr ((h.sublist List.filter_sublist).imp_of_mem ?_)
  intro left right hleft _ hdistinct hkey
  have hpresent := hasIdentity_iff.mp (List.mem_filter.mp hleft).2
  rw [sameEntity_of_key hbound hpresent hkey] at hdistinct
  cases hdistinct

/-- The texts that are asked for tell which items are kept. -/
theorem retain_items {c : Collection} {ids : List (Value × Except Exn Target)}
    (htexts : ∀ u ∈ ids.map Prod.fst, ∀ v ∈ identityKeys env c,
      env.valueKey u = env.valueKey v → u = v) :
    (retain env (ids.map fun id => env.valueKey id.1) c).items =
      keptItems env c (ids.map Prod.fst) := by
  unfold retain keptItems
  refine List.filter_congr fun item hitem => ?_
  cases hidentity : hasIdentity env item with
  | false =>
    have hnone : identityKey env item = none := by simpa [hasIdentity] using hidentity
    rw [hnone]
    rfl
  | true =>
    have hpresent := hasIdentity_iff.mp hidentity
    have hkey : item.key ∈ identityKeys env c := mem_identityKeys.mpr ⟨item, hitem, hpresent, rfl⟩
    rw [identityKey_of_present hpresent, Option.all_some, Bool.not_true, Bool.false_or,
      decide_eq_decide]
    constructor
    · intro htext
      obtain ⟨id, hid, heq⟩ := List.mem_map.mp htext
      have hmem := List.mem_map_of_mem (f := Prod.fst) hid
      rwa [← htexts id.1 hmem item.key hkey heq]
    · intro hmem
      obtain ⟨id, hid, heq⟩ := List.mem_map.mp hmem
      exact List.mem_map.mpr ⟨id, hid, by rw [heq]⟩

/-- Ids that are all there are passed over. -/
theorem attachMissing_eq_self {c : Collection} {ids : List (Value × Except Exn Target)}
    (h : ∀ id ∈ ids.map Prod.fst, id ∈ identityKeys env c) :
    attachMissing env ids c = (.ok (), c) := by
  induction ids with
  | nil => rfl
  | cons id ids ih =>
    rw [attachMissing, if_pos (findByKey_of_mem (h id.1 List.mem_cons_self))]
    exact ih fun id' hid' => h id' (List.mem_cons_of_mem _ hid')

/-- A collection that holds just the ids is left as it is. -/
theorem syncByIds_eq_self (hbound : env.bound = true) {c : Collection}
    {ids : List (Value × Except Exn Target)}
    (h : ∀ key, key ∈ identityKeys env c ↔ key ∈ ids.map Prod.fst) :
    syncByIds env ids c = (.ok (), c) := by
  have hretain : retain env (ids.map fun id => env.valueKey id.1) c = c := by
    have hitems : (c.items.filter fun item => (identityKey env item).all fun key =>
        key ∈ ids.map fun id => env.valueKey id.1) = c.items := by
      refine List.filter_eq_self.mpr fun item hitem => ?_
      cases hkey : identityKey env item with
      | none => rfl
      | some text =>
        have hpresent : Present env item := hasIdentity_iff.mp (by rw [hasIdentity, hkey]; rfl)
        obtain ⟨id, hid, heq⟩ := List.mem_map.mp
          ((h item.key).mp (mem_identityKeys.mpr ⟨item, hitem, hpresent, rfl⟩))
        rw [identityKey_of_present hpresent, Option.some.injEq] at hkey
        exact decide_eq_true (List.mem_map.mpr ⟨id, hid, by rw [heq, hkey]⟩)
    unfold retain
    rw [hitems]
  rw [syncByIds_eq hbound, attachMissing_eq_self fun id hid => (h id).mpr hid]
  dsimp only
  rw [hretain]

/-- What is held once the loop has come to its end. -/
theorem Attaches.synced (hbound : env.bound = true) {c c' : Collection} (hc : Reachable env c)
    {ids : List (Value × Except Exn Target)} (h : Syncable env c ids) {new : List Target}
    (hrun : attachMissing env ids c = (.ok (), c')) (hnew : Attaches env c ids new c') :
    Synced env c ids (retain env (ids.map fun id => env.valueKey id.1) c') := by
  have hsync : syncByIds env ids c =
      (.ok (), retain env (ids.map fun id => env.valueKey id.1) c') := by
    rw [syncByIds_eq hbound, hrun]
  have hpresent : ∀ target ∈ new, Present env target := fun target htarget =>
    (h.made _ target (hnew.made target htarget)).1
  have hmade : ∀ target ∈ new, target.key ∈ ids.map Prod.fst := fun target htarget =>
    List.mem_map_of_mem (f := Prod.fst) (hnew.made target htarget)
  have hitems : (retain env (ids.map fun id => env.valueKey id.1) c').items =
      keptItems env c (ids.map Prod.fst) ++ new := by
    rw [retain_items, hnew.eq, keptItems, List.filter_append]
    · -- what was attached was asked for
      have hall : (new.filter fun item => !hasIdentity env item || item.key ∈ ids.map Prod.fst) =
          new := List.filter_eq_self.mpr fun target htarget => by
        rw [decide_eq_true (hmade target htarget), Bool.or_true]
      rw [hall]
      rfl
    · intro u hu v hv
      refine h.texts u hu v ?_
      rw [hnew.eq, identityKeys_append c hpresent] at hv
      obtain hv | hv := List.mem_append.mp hv
      · exact List.mem_append_right _ hv
      · obtain ⟨target, htarget, rfl⟩ := List.mem_map.mp hv
        exact List.mem_append_left _ (hmade target htarget)
  have hkeys : ∀ key, key ∈ identityKeys env
      (retain env (ids.map fun id => env.valueKey id.1) c') ↔ key ∈ ids.map Prod.fst := by
    intro key
    rw [mem_identityKeys, hitems]
    constructor
    · rintro ⟨item, hitem, hitemPresent, rfl⟩
      obtain hitem | hitem := List.mem_append.mp hitem
      · simpa [hasIdentity_iff.mpr hitemPresent] using (List.mem_filter.mp hitem).2
      · exact hmade item hitem
    · intro hkey
      by_cases hthere : key ∈ identityKeys env c
      · obtain ⟨item, hitem, hitemPresent, rfl⟩ := mem_identityKeys.mp hthere
        refine ⟨item, List.mem_append_left _ (List.mem_filter.mpr ⟨hitem, ?_⟩), hitemPresent, rfl⟩
        rw [decide_eq_true hkey, Bool.or_true]
      · have hmissing : key ∈ new.map Target.key := by
          rw [hnew.keys]
          exact mem_firstUnseen_id.mpr ⟨hkey, hthere⟩
        obtain ⟨target, htarget, rfl⟩ := List.mem_map.mp hmissing
        exact ⟨target, List.mem_append_right _ htarget, hpresent target htarget, rfl⟩
  constructor
  · have hdistinct := distinct_run (distinct_of_reachable hc) (.syncByIds ids)
    rw [LinkCall.run, hsync] at hdistinct
    exact hdistinct.identityKeys_nodup hbound
  · exact hkeys
  · exact ⟨new, hitems, hnew.keys, hnew.made⟩
  · rw [hnew.eq]
    exact ⟨rfl, rfl, rfl⟩
  · intro ids' hids'
    exact syncByIds_eq_self hbound fun key => by rw [hids', hkeys]

/-- Where ids and keys have their own texts and the factory makes targets with the ids for their
    keys, the collection holds what was asked for; a second call changes nothing. If the factory
    throws at an id, nothing is taken out, and what was missing before that id is attached. -/
theorem sync_sets_membership (hbound : env.bound = true) {c : Collection} (hc : Reachable env c)
    {ids : List (Value × Except Exn Target)} (h : Syncable env c ids) :
    (∃ c', syncByIds env ids c = (.ok (), c') ∧ Synced env c ids c') ∨
      ∃ before id e after new c', ids = before ++ (id, .error e) :: after ∧
        id ∉ identityKeys env c ∧ id ∉ before.map Prod.fst ∧
        syncByIds env ids c = (.error e, c') ∧ Attaches env c before new c' := by
  obtain ⟨new, c', hrun, hnew⟩ | ⟨before, id, e, after, new, c', hids, hid, hbefore, hrun, hnew⟩ :=
    attachMissing_spec hbound h
  · exact .inl ⟨_, by rw [syncByIds_eq hbound, hrun], hnew.synced hbound hc h hrun⟩
  · exact .inr ⟨before, id, e, after, new, c', hids, hid, hbefore,
      by rw [syncByIds_eq hbound, hrun], hnew⟩

/-- A collection with tag 1, to which tags 2 and 1 are synchronised. -/
theorem sync_sets_membership_two :
    let c : Collection := attachImpl postTags .fresh ⟨7, .int64 1⟩ .empty
    let ids : List (Value × Except Exn Target) :=
      [(.int64 2, .ok ⟨8, .int64 2⟩), (.int64 1, .ok ⟨7, .int64 1⟩)]
    (∃ c', syncByIds postTags ids c = (.ok (), c') ∧ Synced postTags c ids c') ∨
      ∃ before id e after new c', ids = before ++ (id, .error e) :: after ∧
        id ∉ identityKeys postTags c ∧ id ∉ before.map Prod.fst ∧
        syncByIds postTags ids c = (.error e, c') ∧ Attaches postTags c before new c' := by
  intro c ids
  have hmade : ∀ id target, (id, .ok target) ∈ ids →
      (id, target) = (.int64 2, ⟨8, .int64 2⟩) ∨ (id, target) = (.int64 1, ⟨7, .int64 1⟩) := by
    intro id target hmem
    simpa [ids] using hmem
  refine sync_sets_membership (c := c) rfl (.call (.attach ⟨7, .int64 1⟩ .empty) .fresh) ?_
  constructor
  · decide
  · intro id target hmem
    obtain heq | heq := hmade id target hmem <;> cases heq <;> exact ⟨rfl, rfl⟩
  · intro item hitem id target hmem
    obtain rfl : item = ⟨7, .int64 1⟩ := List.mem_singleton.mp hitem
    obtain heq | heq := hmade id target hmem <;> cases heq <;> decide
  · intro id target hmem id' target' hmem'
    obtain heq | heq := hmade id target hmem <;> obtain heq' | heq' := hmade id' target' hmem' <;>
      cases heq <;> cases heq' <;> decide

/-- The factory throws for the second id when the target for the first is attached already; the id 0
    of a generated key stays without an item that has it; and of two ids with one text the first
    stands for both. -/
theorem sync_membership_fails :
    let thrown : Exn := .ofText "factory"
    syncByIds postTags [(.int64 1, .ok ⟨7, .int64 1⟩), (.int64 2, .error thrown)] .fresh =
        (.error thrown, { Collection.fresh with items := [⟨7, .int64 1⟩] }) ∧
      identityKeys postTags
        (syncByIds postTags [(.int64 0, .ok ⟨7, .int64 0⟩)] .fresh).2 = [] ∧
      identityKeys postTags (syncByIds postTags
        [(tenth, .ok ⟨7, tenth⟩), (overTenth, .ok ⟨8, overTenth⟩)] .fresh).2 = [tenth] := by
  exact ⟨rfl, by decide, by decide +kernel⟩

end MetalOrm.Native.PivotCollection
