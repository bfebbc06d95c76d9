import MetalOrm.Spec.TrackingOrder

/-!
# Moving targets between the roots of a relation

Targets are attached to and removed from the `has_many` (or `has_one`) relations of
loaded roots, and the pipeline flushes the changes. A target ends with the key of the
root that has it when no root that was tracked later clears it again.

## Key results

- `flushed_iff`: when the pipeline leaves a target as its relation says
- `callEffect`, `calls_attached`: what `attach` and `remove` change
- `relationFlush_iff`: the two together
-/

namespace MetalOrm.Native

open ForStd ForStd.Prog Session RelationChange

variable {engine : Engine}

namespace Side

variable (side : Side) (r : HasTargets) (t : Key) (m : Members)

/-- The relation members of an object with the target attached (or set). -/
def put : Members :=
  match side with
  | .one => m.setReference r.index { m.references r.index with current := some t }
  | .many =>
    let values := m.collections r.index
    m.setCollection r.index { values with items := values.items ++ [t] }

/-- The relation members of an object with the target removed (or reset). -/
def take : Members :=
  match side with
  | .one => m.setReference r.index { m.references r.index with current := none }
  | .many =>
    let values := m.collections r.index
    m.setCollection r.index { values with items := values.items.erase t }

/-- Members that differ in the items of one relation at most. -/
structure Rest (m' : Members) : Prop where
  references : ∀ index, index ≠ r.index → m'.references index = m.references index
  collections : ∀ index, index ≠ r.index → m'.collections index = m.collections index
  pivotPatches : m'.pivotPatches = m.pivotPatches
  bound : m'.bound = m.bound
  baseline : (side.members r m').baseline = (side.members r m).baseline

theorem rest_put : side.Rest r m (side.put r t m) := by
  cases side with
  | one =>
    exact ⟨fun _ h => Function.update_of_ne h _ _, fun _ _ => rfl, rfl, rfl,
      by simp [Side.members, put, Members.setReference]⟩
  | many =>
    exact ⟨fun _ _ => rfl, fun _ h => Function.update_of_ne h _ _, rfl, rfl,
      by simp [Side.members, put, Members.setCollection]⟩

theorem rest_take : side.Rest r m (side.take r t m) := by
  cases side with
  | one =>
    exact ⟨fun _ h => Function.update_of_ne h _ _, fun _ _ => rfl, rfl, rfl,
      by simp [Side.members, take, Members.setReference]⟩
  | many =>
    exact ⟨fun _ _ => rfl, fun _ h => Function.update_of_ne h _ _, rfl, rfl,
      by simp [Side.members, take, Members.setCollection]⟩

theorem items_put : ∀ k ∈ (side.members r (side.put r t m)).items,
    k ∈ (side.members r m).items ∨ k = t := by
  intro k hk
  cases side with
  | one => exact .inr (by simpa [Side.members, put, Members.setReference, eq_comm] using hk)
  | many => simpa [Side.members, put, Members.setCollection] using hk

theorem items_take : ∀ k ∈ (side.members r (side.take r t m)).items,
    k ∈ (side.members r m).items := by
  intro k hk
  cases side with
  | one => simp [Side.members, take, Members.setReference] at hk
  | many =>
    simp only [Side.members, take, Members.setCollection, Function.update_self] at hk
    exact List.mem_of_mem_erase hk

end Side

/-- A relation that is not the changed one looks the same. -/
theorem Relation.Unchanged.rest {side : Side} {r : HasTargets} {m m' : Members}
    {relation : Relation} (h : relation.Unchanged m) (hrest : side.Rest r m m')
    (hindex : relation.index ≠ r.index) :
    relation.Unchanged m' ∧ relation.prepared m' = relation.prepared m := by
  cases relation with
  | belongsTo _ | hasOne _ | morphOne _ | morphTo _ =>
    simp only [Relation.index] at hindex
    simp only [Relation.Unchanged, Relation.prepared, hrest.references _ hindex] at h ⊢
    exact ⟨h, trivial⟩
  | hasMany _ | morphMany _ =>
    simp only [Relation.index] at hindex
    simp only [Relation.Unchanged, Relation.prepared, hrest.collections _ hindex] at h ⊢
    exact ⟨h, trivial⟩
  | manyToMany _ =>
    simp only [Relation.index] at hindex
    simp only [Relation.Unchanged, Relation.prepared, hrest.collections _ hindex,
      hrest.pivotPatches] at h ⊢
    exact ⟨h, trivial⟩

namespace RootSet

variable (roots : RootSet)

/-! ## Whose key a target ends with -/

section Outcome

variable {roots} {env : Env engine.Db Members} {w w' : World engine.Db Members} {t root : Key}

theorem mem_added : t ∈ (roots.members w root).added ↔
    t ∈ (roots.members w root).items ∧ t ∉ (roots.members w root).baseline := by
  simp [Collection.added]

theorem mem_removed : t ∈ (roots.members w root).removed ↔
    t ∈ (roots.members w root).baseline ∧ t ∉ (roots.members w root).items := by
  simp [Collection.removed]

theorem Ready.mem_order (hready : roots.Ready env w) (hroot : root ∈ roots.keys) :
    root ∈ w.uow.trackedOrder := by
  rw [hready.inv.mem_order]
  cases hw : w.uow.tracked root with
  | none => simpa [hw] using hready.managed root hroot
  | some tracked => rfl

theorem any_drops (hready : roots.Ready env w) :
    w.uow.trackedOrder.any (roots.drops w t) = true ↔
      roots.cascade = true ∧ ∃ root ∈ roots.keys, t ∈ (roots.members w root).removed := by
  simp only [List.any_eq_true, drops, Bool.and_eq_true, decide_eq_true_eq]
  constructor
  · rintro ⟨root, _, hroot, hcascade, hremoved⟩
    exact ⟨hcascade, root, hroot, hremoved⟩
  · rintro ⟨hcascade, root, hroot, hremoved⟩
    exact ⟨root, hready.mem_order hroot, hroot, hcascade, hremoved⟩

theorem not_drops (hready : roots.Ready env w) :
    w.uow.trackedOrder.any (roots.drops w t) = false ↔
      ¬(roots.cascade = true ∧ ∃ root ∈ roots.keys, t ∈ (roots.members w root).removed) := by
  rw [← any_drops hready, Bool.not_eq_true]

/-- The key of a persisted root is not `null`. -/
theorem Ready.key_ne_null (hready : roots.Ready env w) (hroot : root ∈ roots.keys) :
    roots.key w root ≠ .null := fun hnull => by
  have hpersisted := hready.persisted root hroot
  simp [missingRelationKey, hnull] at hpersisted

theorem write_removed (hroot : root ∈ roots.keys) (hcascade : roots.cascade = false)
    (hremoved : t ∈ (roots.members w root).removed) : roots.write w t root = some .null := by
  rw [write, if_pos hroot, if_pos ⟨hcascade, hremoved⟩]

theorem write_added (hroot : root ∈ roots.keys) (hadded : t ∈ (roots.members w root).added) :
    roots.write w t root = some (roots.key w root) := by
  have hnot : t ∉ (roots.members w root).removed :=
    fun hremoved => (mem_removed.mp hremoved).2 (mem_added.mp hadded).1
  rw [write, if_pos hroot, if_neg fun h => hnot h.2, if_pos hadded]

/-- A root to which the target was not added can only clear its foreign key. -/
theorem write_of_not_added (hadded : root ∈ roots.keys → t ∉ (roots.members w root).added) :
    roots.write w t root = if root ∈ roots.keys ∧ roots.cascade = false ∧
      t ∈ (roots.members w root).removed then some .null else none := by
  unfold write
  by_cases hroot : root ∈ roots.keys
  · simp [hroot, hadded hroot]
  · simp [hroot]

/-- When only roots are left to which the target was not added, they clear its foreign
    key or leave it as it is. -/
theorem lastWrite_of_not_added {keys : List Key}
    (hadded : ∀ root ∈ keys, root ∈ roots.keys → t ∉ (roots.members w root).added) (x : Value) :
    lastWrite (roots.write w t) keys x =
      if ∃ root ∈ keys, root ∈ roots.keys ∧ roots.cascade = false ∧
        t ∈ (roots.members w root).removed then .null else x := by
  split
  · rename_i hsome
    obtain ⟨root, hmem, hroot, hcascade, hremoved⟩ := hsome
    refine lastWrite_const (fun root hmem y hy => ?_)
      ⟨root, hmem, by rw [write_removed hroot hcascade hremoved]; simp⟩ x
    rw [write_of_not_added (hadded root hmem)] at hy
    split at hy
    · cases hy
      rfl
    · cases hy
  · rename_i hnone
    refine lastWrite_of_none (fun root hmem => ?_) x
    rw [write_of_not_added (hadded root hmem), if_neg fun h => hnone ⟨root, hmem, h⟩]

variable (roots env w w' t)

/-- What the pipeline should leave of a target: the key of the root that has it, in the
    object and in its row; and of one that was removed from a relation and is in none, no
    foreign key, or no row under cascade remove. -/
structure Flushed (wasMember : Prop) : Prop where
  owned : ∀ root ∈ roots.keys, t ∈ (roots.members w root).items →
    ((w'.uow.heap t).columns roots.foreignKey).Same (roots.key w root) ∧
    ∃ row, storedRow env t w' = some row ∧ (row roots.foreignKey).Same (roots.key w root)
  detached : wasMember → (∀ root ∈ roots.keys, t ∉ (roots.members w root).items) →
    (roots.cascade = true ∧ storedRow env t w' = none) ∨
    ((w'.uow.heap t).columns roots.foreignKey = .null ∧
      ∃ row, storedRow env t w' = some row ∧ row roots.foreignKey = .null)

/-- When no root spoils the target: of the roots it was removed from, all come before the
    root it was added to, and none deletes it; a root that kept it still has its key in
    the object, and no other root removed it; and a root without it in the end had it when
    the relation was loaded. -/
structure Unspoiled (wasMember : Prop) : Prop where
  added : ∀ root ∈ roots.keys, t ∈ (roots.members w root).added →
    ∀ other ∈ roots.keys, t ∈ (roots.members w other).removed →
      roots.cascade = false ∧ w.uow.trackedOrder.idxOf other < w.uow.trackedOrder.idxOf root
  kept : ∀ root ∈ roots.keys, t ∈ (roots.members w root).items →
    t ∈ (roots.members w root).baseline →
      (∀ other ∈ roots.keys, t ∉ (roots.members w other).removed) ∧
      ((w.uow.heap t).columns roots.foreignKey).Same (roots.key w root)
  detached : wasMember → (∀ root ∈ roots.keys, t ∉ (roots.members w root).items) →
    ∃ root ∈ roots.keys, t ∈ (roots.members w root).baseline

variable {roots env w w' t}

variable {wasMember : Prop} (hready : roots.Ready env w)
  (hone : ∀ root ∈ roots.keys, ∀ other ∈ roots.keys, t ∈ (roots.members w root).items →
    t ∈ (roots.members w other).items → root = other)
  {x : Value} (hx : x = lastWrite (roots.write w t) w.uow.trackedOrder
    ((w.uow.heap t).columns roots.foreignKey))
  (hobject : ((w'.uow.heap t).columns roots.foreignKey).Same x)
  (hrow : if w.uow.trackedOrder.any (roots.drops w t) then storedRow env t w' = none
    else ∃ row, storedRow env t w' = some row ∧ (row roots.foreignKey).Same x)

include hobject hrow in
/-- The target has a key exactly when the last write gave it and no root deletes it. -/
theorem ends_with_iff (value : Value) :
    (((w'.uow.heap t).columns roots.foreignKey).Same value ∧
      ∃ row, storedRow env t w' = some row ∧ (row roots.foreignKey).Same value) ↔
    x.Same value ∧ w.uow.trackedOrder.any (roots.drops w t) = false := by
  cases hdrops : w.uow.trackedOrder.any (roots.drops w t) with
  | true =>
    rw [if_pos hdrops] at hrow
    simp [hrow]
  | false =>
    rw [if_neg (by simp [hdrops])] at hrow
    obtain ⟨row, hstored, hvalue⟩ := hrow
    constructor
    · rintro ⟨h, _⟩
      exact ⟨hobject.symm.trans h, rfl⟩
    · rintro ⟨h, _⟩
      exact ⟨hobject.trans h, row, hstored, hvalue.trans h⟩

include hready hone hx in
/-- A target that was added to a root keeps its key when the roots that removed it came
    first. -/
theorem ends_added_iff (hroot : root ∈ roots.keys) (hadded : t ∈ (roots.members w root).added) :
    (x.Same (roots.key w root) ∧ w.uow.trackedOrder.any (roots.drops w t) = false) ↔
      ∀ other ∈ roots.keys, t ∈ (roots.members w other).removed →
        roots.cascade = false ∧ w.uow.trackedOrder.idxOf other < w.uow.trackedOrder.idxOf root := by
  have hitem := (mem_added.mp hadded).1
  obtain ⟨before, after, horder⟩ := List.append_of_mem (hready.mem_order hroot)
  have hnodup : (before ++ root :: after).Nodup := horder ▸ hready.inv.order_nodup
  have hafter : root ∉ after :=
    (List.nodup_cons.mp (List.nodup_append.mp hnodup).2.1).1
  have hothers : ∀ other ∈ after, other ∈ roots.keys → t ∉ (roots.members w other).added :=
    fun other hmem hother hadded' =>
      hafter (hone root hroot other hother hitem (mem_added.mp hadded').1 ▸ hmem)
  have hlast : x = if ∃ other ∈ after, other ∈ roots.keys ∧ roots.cascade = false ∧
      t ∈ (roots.members w other).removed then .null else roots.key w root := by
    rw [hx, horder, lastWrite_append_cons (write_added hroot hadded),
      lastWrite_of_not_added hothers]
  rw [hlast, not_drops hready, horder]
  have hne : ∀ other, t ∈ (roots.members w other).removed → other ≠ root := by
    rintro other hremoved rfl
    exact (mem_removed.mp hremoved).2 hitem
  constructor
  · rintro ⟨hsame, hkept⟩ other hother hremoved
    have hcascade : roots.cascade = false := by
      by_contra hcascade
      exact hkept ⟨by simpa using hcascade, other, hother, hremoved⟩
    refine ⟨hcascade, ?_⟩
    by_contra hlate
    have hmem : other ∈ after := (mem_after_iff hnodup
      (horder ▸ hready.mem_order hother) (hne other hremoved)).mpr hlate
    rw [if_pos ⟨other, hmem, hother, hcascade, hremoved⟩] at hsame
    exact hready.key_ne_null hroot (Value.same_null.mp hsame.symm)
  · intro hearly
    constructor
    · rw [if_neg]
      · exact .refl _
      · rintro ⟨other, hmem, hother, _, hremoved⟩
        exact (mem_after_iff hnodup (horder ▸ hready.mem_order hother) (hne other hremoved)).mp
          hmem (hearly other hother hremoved).2
    · rintro ⟨hcascade, other, hother, hremoved⟩
      simpa [hcascade] using (hearly other hother hremoved).1

include hready hone hx in
/-- A target that a root kept has its key when no other root removed it, and the object
    had the key before. -/
theorem ends_kept_iff (hroot : root ∈ roots.keys) (hitem : t ∈ (roots.members w root).items)
    (hbaseline : t ∈ (roots.members w root).baseline) :
    (x.Same (roots.key w root) ∧ w.uow.trackedOrder.any (roots.drops w t) = false) ↔
      (∀ other ∈ roots.keys, t ∉ (roots.members w other).removed) ∧
      ((w.uow.heap t).columns roots.foreignKey).Same (roots.key w root) := by
  -- no root writes its key: the others do not have the target, and the root kept it
  have hnone : ∀ other ∈ w.uow.trackedOrder, other ∈ roots.keys →
      t ∉ (roots.members w other).added := by
    intro other _ hother hadded
    obtain ⟨hitem', hnot⟩ := mem_added.mp hadded
    rw [hone root hroot other hother hitem hitem'] at hbaseline
    exact hnot hbaseline
  rw [hx, lastWrite_of_not_added hnone, not_drops hready]
  constructor
  · rintro ⟨hsame, hkept⟩
    have hnot : ∀ other ∈ roots.keys, t ∉ (roots.members w other).removed := by
      intro other hother hremoved
      cases hcascade : roots.cascade with
      | true => exact hkept ⟨hcascade, other, hother, hremoved⟩
      | false =>
        rw [if_pos ⟨other, hready.mem_order hother, hother, hcascade, hremoved⟩] at hsame
        exact hready.key_ne_null hroot (Value.same_null.mp hsame.symm)
    rw [if_neg fun ⟨other, _, hother, _, hremoved⟩ => hnot other hother hremoved] at hsame
    exact ⟨hnot, hsame⟩
  · rintro ⟨hnot, hsame⟩
    rw [if_neg fun ⟨other, _, hother, _, hremoved⟩ => hnot other hother hremoved]
    exact ⟨hsame, fun ⟨_, other, hother, hremoved⟩ => hnot other hother hremoved⟩

include hready hx hobject hrow in
/-- A target that no root has any more loses its foreign key, or its row, when some root
    had it at first, or when it never had a key. -/
theorem ends_detached_iff (hnone : ∀ root ∈ roots.keys, t ∉ (roots.members w root).items) :
    ((roots.cascade = true ∧ storedRow env t w' = none) ∨
      ((w'.uow.heap t).columns roots.foreignKey = .null ∧
        ∃ row, storedRow env t w' = some row ∧ row roots.foreignKey = .null)) ↔
    (∃ root ∈ roots.keys, t ∈ (roots.members w root).baseline) ∨
      (w.uow.heap t).columns roots.foreignKey = .null := by
  have hadded : ∀ root ∈ w.uow.trackedOrder, root ∈ roots.keys →
      t ∉ (roots.members w root).added :=
    fun root _ hroot hadded => hnone root hroot (mem_added.mp hadded).1
  have hnull := ends_with_iff hobject hrow .null
  simp only [Value.same_null] at hnull
  rw [hnull, hx, lastWrite_of_not_added hadded, not_drops hready]
  have hremoved : ∀ root ∈ roots.keys, t ∈ (roots.members w root).baseline →
      t ∈ (roots.members w root).removed :=
    fun root hroot hbaseline => mem_removed.mpr ⟨hbaseline, hnone root hroot⟩
  constructor
  · rintro (⟨hcascade, hstored⟩ | ⟨hvalue, _⟩)
    · have hdrops : w.uow.trackedOrder.any (roots.drops w t) = true := by
        by_contra hdrops
        rw [if_neg hdrops] at hrow
        obtain ⟨row, hrow, _⟩ := hrow
        rw [hstored] at hrow
        cases hrow
      obtain ⟨_, root, hroot, hremoved⟩ := (any_drops hready).mp hdrops
      exact .inl ⟨root, hroot, (mem_removed.mp hremoved).1⟩
    · split at hvalue
      · rename_i hsome
        obtain ⟨root, _, hroot, _, hremoved⟩ := hsome
        exact .inl ⟨root, hroot, (mem_removed.mp hremoved).1⟩
      · exact .inr hvalue
  · intro h
    by_cases hsome : ∃ root ∈ roots.keys, t ∈ (roots.members w root).baseline
    · obtain ⟨root, hroot, hbaseline⟩ := hsome
      cases hcascade : roots.cascade with
      | true =>
        have hdrops := (any_drops hready).mpr
          ⟨hcascade, root, hroot, hremoved root hroot hbaseline⟩
        rw [if_pos hdrops] at hrow
        exact .inl ⟨rfl, hrow⟩
      | false =>
        refine .inr ⟨?_, by simp⟩
        rw [if_pos ⟨root, hready.mem_order hroot, hroot, rfl, hremoved root hroot hbaseline⟩]
    · have hvalue := h.resolve_left hsome
      refine .inr ⟨?_, ?_⟩
      · rw [hvalue, ite_self]
      · rintro ⟨_, root, hroot, hremoved⟩
        exact hsome ⟨root, hroot, (mem_removed.mp hremoved).1⟩

include hready hone hx hobject hrow in
theorem flushed_iff (hattached : wasMember →
      (∀ root ∈ roots.keys, t ∉ (roots.members w root).baseline) →
      (w.uow.heap t).columns roots.foreignKey ≠ .null) :
    roots.Flushed env w w' t wasMember ↔ roots.Unspoiled w t wasMember := by
  constructor
  · intro h
    refine ⟨fun root hroot hadded => ?_, fun root hroot hitem hbaseline => ?_,
      fun hmember hnone => ?_⟩
    · exact (ends_added_iff hready hone hx hroot hadded).mp
        ((ends_with_iff hobject hrow _).mp (h.owned root hroot (mem_added.mp hadded).1))
    · exact (ends_kept_iff hready hone hx hroot hitem hbaseline).mp
        ((ends_with_iff hobject hrow _).mp (h.owned root hroot hitem))
    · by_contra hbaseline
      have hnot : ∀ root ∈ roots.keys, t ∉ (roots.members w root).baseline :=
        fun root hroot hmem => hbaseline ⟨root, hroot, hmem⟩
      exact hattached hmember hnot (((ends_detached_iff hready hx hobject hrow hnone).mp
        (h.detached hmember hnone)).resolve_left hbaseline)
  · intro h
    refine ⟨fun root hroot hitem => (ends_with_iff hobject hrow _).mpr ?_,
      fun hmember hnone => (ends_detached_iff hready hx hobject hrow hnone).mpr
        (.inl (h.detached hmember hnone))⟩
    by_cases hbaseline : t ∈ (roots.members w root).baseline
    · exact (ends_kept_iff hready hone hx hroot hitem hbaseline).mpr
        (h.kept root hroot hitem hbaseline)
    · have hadded := mem_added.mpr ⟨hitem, hbaseline⟩
      exact (ends_added_iff hready hone hx hroot hadded).mpr (h.added root hroot hadded)

end Outcome

/-! ## The calls before the pipeline -/

/-- `attach` or `remove` (`set` or `reset`), on the relation of a root. -/
inductive RelationCall where
  | attach (root target : Key)
  | remove (root target : Key)

namespace RelationCall

/-- The object whose relation is changed. -/
def root : RelationCall → Key
  | .attach root _ | .remove root _ => root

/-- The argument of the call. -/
def target : RelationCall → Key
  | .attach _ target | .remove _ target => target

end RelationCall

/-- Make a call. -/
def call : RelationCall → SessionM engine.Db Members Unit
  | .attach root target => roots.side.attach roots.relation root target
  | .remove root target => roots.side.remove roots.relation root target

/-- The call is about one of the roots and one of their targets. -/
def Admits (c : RelationCall) : Prop := c.root ∈ roots.keys ∧ c.target ∈ roots.targets

/-- What a call changes. -/
structure CallEffect (c : RelationCall) (w w' : World engine.Db Members) : Prop where
  db : w'.db = w.db
  tracked : w'.uow.tracked = w.uow.tracked
  order : w'.uow.trackedOrder = w.uow.trackedOrder
  checkpoints : w'.uow.checkpoints = w.uow.checkpoints
  columns : ∀ k name, ¬(k ∈ roots.targets ∧ name = roots.foreignKey) →
    (w'.uow.heap k).columns name = (w.uow.heap k).columns name
  attached : ∀ root t, c = .attach root t →
    (w'.uow.heap t).columns roots.foreignKey = roots.key w root
  unattached : ∀ t, (∀ root, c ≠ .attach root t) →
    (w'.uow.heap t).columns roots.foreignKey = (w.uow.heap t).columns roots.foreignKey
  others : ∀ k ∉ roots.keys, (w'.uow.heap k).runtime = (w.uow.heap k).runtime
  rest : ∀ k, roots.side.Rest roots.relation (w.uow.heap k).runtime (w'.uow.heap k).runtime
  items : ∀ root, ∀ t ∈ (roots.members w' root).items,
    t ∈ (roots.members w root).items ∨ c = .attach root t

section Calls

variable {roots} {env : Env engine.Db Members} (hmapped : roots.Mapped env)
  {w w' : World engine.Db Members}

theorem exec_attachHook {root t : Key} (hbound : (w.uow.heap root).runtime.bound = true)
    (hconverts : roots.relation.targetForeignKey.fromValue (roots.key w root) =
      some (roots.key w root)) :
    exec (attachHook roots.relation root t) w = (.ok (), { w with
      uow := w.uow.setColumns t (Function.update (w.uow.heap t).columns roots.foreignKey
        (roots.key w root)) }) := by
  unfold attachHook
  rw [exec_bind_ok (by rfl), if_pos hbound, exec_bind_ok (by rfl)]
  unfold assignMember
  rw [show (w.uow.heap root).columns roots.relation.localKey = roots.key w root from rfl, hconverts]
  rfl

/-- What `attach` leaves: the hook sets the foreign key, and the members grow. -/
theorem exec_attach {root t : Key} (hbound : (w.uow.heap root).runtime.bound = true)
    (hconverts : roots.relation.targetForeignKey.fromValue (roots.key w root) =
      some (roots.key w root)) :
    ∃ w', exec (roots.call (.attach root t)) w = (.ok (), w') ∧ w'.db = w.db ∧
      w'.uow = (w.uow.setColumns t (Function.update (w.uow.heap t).columns roots.foreignKey
        (roots.key w root))).setRuntime root
          (roots.side.put roots.relation t (w.uow.heap root).runtime) := by
  have hruntime : ((w.uow.setColumns t (Function.update (w.uow.heap t).columns roots.foreignKey
      (roots.key w root))).heap root).runtime = (w.uow.heap root).runtime := by
    by_cases hroot : root = t
    · subst hroot
      simp [UowState.setColumns]
    · simp [UowState.setColumns, hroot]
  unfold call Side.attach
  cases hside : roots.side with
  | one =>
    simp only [setTarget]
    rw [exec_bind_ok (exec_attachHook hbound hconverts)]
    refine ⟨_, rfl, rfl, ?_⟩
    show UowState.setRuntime _ _ _ = _
    rw [hruntime]
    rfl
  | many =>
    simp only [RelationChange.attach]
    rw [exec_bind_ok (exec_attachHook hbound hconverts)]
    refine ⟨_, rfl, rfl, ?_⟩
    show UowState.setRuntime _ _ _ = _
    rw [hruntime]
    rfl

variable (roots) in
theorem exec_remove (root t : Key) (w : World engine.Db Members) :
    ∃ w', exec (roots.call (.remove root t)) w = (.ok (), w') ∧ w'.db = w.db ∧
      w'.uow = w.uow.setRuntime root
        (roots.side.take roots.relation t (w.uow.heap root).runtime) := by
  unfold call Side.remove
  cases hside : roots.side with
  | one => exact ⟨_, rfl, rfl, rfl⟩
  | many => exact ⟨_, rfl, rfl, rfl⟩

/-- The effect of a change to the members of one root, and to the foreign key of a
    target. -/
theorem heap_setRuntime {s : UowState Members} {root t k : Key} {columns : Name → Value}
    {m : Members} :
    (((s.setColumns t columns).setRuntime root m).heap k).columns =
      (if k = t then columns else (s.heap k).columns) ∧
    (((s.setColumns t columns).setRuntime root m).heap k).runtime =
      (if k = root then m else (s.heap k).runtime) := by
  constructor
  · by_cases hroot : k = root
    · subst hroot
      by_cases ht : k = t
      · simp [UowState.setRuntime, UowState.setColumns, ht]
      · simp [UowState.setRuntime, UowState.setColumns, ht]
    · by_cases ht : k = t
      · simp [UowState.setRuntime, UowState.setColumns, ht, ht ▸ hroot]
      · simp [UowState.setRuntime, UowState.setColumns, ht, hroot]
  · by_cases hroot : k = root
    · simp [UowState.setRuntime, hroot]
    · by_cases ht : k = t
      · simp [UowState.setRuntime, UowState.setColumns, ht, ht ▸ hroot]
      · simp [UowState.setRuntime, UowState.setColumns, ht, hroot]

theorem callEffect (hready : roots.Ready env w) {c : RelationCall} (hadmits : roots.Admits c)
    (h : exec (roots.call c) w = (.ok (), w')) : roots.CallEffect c w w' := by
  cases c with
  | attach root t =>
    obtain ⟨hroot, ht⟩ := hadmits
    obtain ⟨v, hexec, hdb, huow⟩ := exec_attach (t := t) (hready.bound root hroot)
      (hready.converts root hroot)
    rw [h] at hexec
    cases hexec
    exact {
      db := hdb
      tracked := by rw [huow]; rfl
      order := by rw [huow]; rfl
      checkpoints := by rw [huow]; rfl
      columns := fun k name hname => by
        rw [huow, heap_setRuntime.1]
        by_cases hk : k = t
        · subst hk
          rw [if_pos rfl, Function.update_of_ne fun heq => hname ⟨ht, heq⟩]
        · rw [if_neg hk]
      attached := fun root' t' hcall => by
        cases hcall
        rw [huow, heap_setRuntime.1, if_pos rfl, Function.update_self]
      unattached := fun t' hnot => by
        have hne : t' ≠ t := fun heq => hnot root (heq ▸ rfl)
        rw [huow, heap_setRuntime.1, if_neg hne]
      others := fun k hk => by
        have hne : k ≠ root := fun heq => hk (heq ▸ hroot)
        rw [huow, heap_setRuntime.2, if_neg hne]
      rest := fun k => by
        rw [huow, heap_setRuntime.2]
        split
        · rename_i hk
          subst hk
          exact roots.side.rest_put _ _ _
        · exact ⟨fun _ _ => rfl, fun _ _ => rfl, rfl, rfl, rfl⟩
      items := fun root' t' hmem => by
        rw [members, huow, heap_setRuntime.2] at hmem
        split at hmem
        · rename_i hk
          subst hk
          rcases roots.side.items_put _ _ _ t' hmem with hmem | rfl
          · exact .inl hmem
          · exact .inr rfl
        · exact .inl hmem }
  | remove root t =>
    obtain ⟨v, hexec, hdb, huow⟩ := exec_remove roots root t w
    rw [h] at hexec
    cases hexec
    have hruntime : ∀ k, (w'.uow.heap k).runtime =
        if k = root then roots.side.take roots.relation t (w.uow.heap root).runtime
        else (w.uow.heap k).runtime := fun k => by
      rw [huow]
      by_cases hk : k = root
      · simp [UowState.setRuntime, hk]
      · simp [UowState.setRuntime, hk]
    have hcolumns : ∀ k, (w'.uow.heap k).columns = (w.uow.heap k).columns := fun k => by
      rw [huow]
      by_cases hk : k = root
      · simp [UowState.setRuntime, hk]
      · simp [UowState.setRuntime, hk]
    exact {
      db := hdb
      tracked := by rw [huow]; rfl
      order := by rw [huow]; rfl
      checkpoints := by rw [huow]; rfl
      columns := fun k name _ => by rw [hcolumns]
      attached := fun _ _ hcall => by cases hcall
      unattached := fun t' _ => by rw [hcolumns]
      others := fun k hk => by
        have hne : k ≠ root := fun heq => hk (heq ▸ hadmits.1)
        rw [hruntime, if_neg hne]
      rest := fun k => by
        rw [hruntime]
        split
        · rename_i hk
          subst hk
          exact roots.side.rest_take _ _ _
        · exact ⟨fun _ _ => rfl, fun _ _ => rfl, rfl, rfl, rfl⟩
      items := fun root' t' hmem => by
        rw [members, hruntime] at hmem
        split at hmem
        · rename_i hk
          subst hk
          exact .inl (roots.side.items_take _ _ _ t' hmem)
        · exact .inl hmem }

include hmapped

theorem CallEffect.key {c : RelationCall} (heffect : roots.CallEffect c w w') {root : Key}
    (hroot : root ∈ roots.keys) : roots.key w' root = roots.key w root :=
  heffect.columns root _ fun h => hmapped.localKey_ne root hroot h.1 h.2

/-- A call leaves the unit of work ready for the pipeline. -/
theorem Ready.call (hready : roots.Ready env w) {c : RelationCall} (hadmits : roots.Admits c)
    (heffect : roots.CallEffect c w w') : roots.Ready env w' where
  inv := hready.inv.of_isSome_eq (fun k => by rw [heffect.tracked]) heffect.order
    heffect.checkpoints
  live := {
    synced := hready.live.synced.congr heffect.tracked (by rw [heffect.db])
    recorded := fun k original hk => by
      rw [heffect.tracked] at hk
      have hpk := heffect.columns k (env.classOf k).primaryKey fun h =>
        hmapped.foreignKey_ne k h.1 h.2.symm
      unfold PkRecorded
      rw [hpk]
      exact hready.live.recorded k original hk
    status := heffect.tracked ▸ hready.live.status }
  managed := heffect.tracked ▸ hready.managed
  persisted root hroot := by
    rw [heffect.key hmapped hroot]
    exact hready.persisted root hroot
  converts root hroot := by
    rw [heffect.key hmapped hroot]
    exact hready.converts root hroot
  bound root hroot := by
    rw [(heffect.rest root).bound]
    exact hready.bound root hroot
  tracked := heffect.tracked ▸ hready.tracked
  items root hroot t ht := by
    rcases heffect.items root t ht with ht | rfl
    · exact hready.items root hroot t ht
    · exact hadmits.2
  baseline root hroot t ht := hready.baseline root hroot t ((heffect.rest root).baseline ▸ ht)
  idle k hk other hother hindex := by
    rw [heffect.tracked] at hk
    obtain ⟨hunchanged, hprepared⟩ := hready.idle k hk other hother hindex
    by_cases hroot : k ∈ roots.keys
    · obtain ⟨hunchanged', hprepared'⟩ := hunchanged.rest (heffect.rest k) (hindex hroot)
      exact ⟨hunchanged', by rw [hprepared', heffect.tracked]; exact hprepared⟩
    · exact ⟨by rw [heffect.others k hroot]; exact hunchanged,
        by rw [heffect.others k hroot, heffect.tracked]; exact hprepared⟩

/-- What a sequence of calls leaves: a target was in the relation before or was attached,
    and one that was attached has the key of a root. -/
theorem calls_attached (hready : roots.Ready env w) {calls : List RelationCall}
    (hadmits : ∀ c ∈ calls, roots.Admits c)
    (h : exec (calls.forM roots.call) w = (.ok (), w')) :
    roots.Ready env w' ∧
    (∀ root, (roots.members w' root).baseline = (roots.members w root).baseline) ∧
    (∀ root, ∀ t ∈ (roots.members w' root).items,
      t ∈ (roots.members w root).items ∨ .attach root t ∈ calls) ∧
    ∀ t, ((∃ root, .attach root t ∈ calls) ∨
        ∃ root ∈ roots.keys, (w.uow.heap t).columns roots.foreignKey = roots.key w root) →
      ∃ root ∈ roots.keys, (w'.uow.heap t).columns roots.foreignKey = roots.key w' root := by
  induction calls generalizing w with
  | nil =>
    cases h
    exact ⟨hready, fun _ => rfl, fun _ _ ht => .inl ht, by simp⟩
  | cons c calls ih =>
    obtain ⟨u, hcall, hrest⟩ := exec_forM_cons h
    have hadmit := hadmits c List.mem_cons_self
    have heffect := callEffect hready hadmit hcall
    obtain ⟨hready', hbaseline, hitems, hkeys⟩ := ih (hready.call hmapped hadmit heffect)
      (fun c' hc' => hadmits c' (List.mem_cons_of_mem c hc')) hrest
    refine ⟨hready', fun root => (hbaseline root).trans (heffect.rest root).baseline,
      fun root t ht => ?_, fun t ht => hkeys t ?_⟩
    · rcases hitems root t ht with ht | ht
      · rcases heffect.items root t ht with ht | rfl
        · exact .inl ht
        · exact .inr List.mem_cons_self
      · exact .inr (List.mem_cons_of_mem c ht)
    · by_cases hattach : ∃ root, c = .attach root t
      · obtain ⟨root, rfl⟩ := hattach
        refine .inr ⟨root, hadmit.1, ?_⟩
        rw [heffect.attached root t rfl]
        exact (heffect.key hmapped hadmit.1).symm
      · rcases ht with ⟨root, hmem⟩ | ⟨root, hroot, hkey⟩
        · rcases List.mem_cons.mp hmem with rfl | hmem
          · exact absurd ⟨root, rfl⟩ hattach
          · exact .inl ⟨root, hmem⟩
        · refine .inr ⟨root, hroot, ?_⟩
          rw [heffect.unattached t fun root' hc => hattach ⟨root', hc⟩, hkey]
          exact (heffect.key hmapped hroot).symm

end Calls

/-! ## The result -/

/-- The relations of the roots are as they were loaded. -/
structure Loaded (env : Env engine.Db Members) (w : World engine.Db Members) : Prop
    extends roots.Ready env w where
  loaded : ∀ root ∈ roots.keys, (roots.members w root).items = (roots.members w root).baseline

/-- At some point of the calls, the target was in the relation of a root. -/
def WasMember (w : World engine.Db Members) (calls : List RelationCall) (t : Key) : Prop :=
  ∃ done u, done <+: calls ∧ exec (done.forM roots.call) w = (.ok (), u) ∧
    ∃ root ∈ roots.keys, t ∈ (roots.members u root).items

/-- After any calls on loaded relations that leave each target in one relation at most,
    the pipeline leaves a target as its relation says exactly when no root spoils it. -/
theorem relationFlush_iff {env : Env engine.Db Members} (hmapped : roots.Mapped env)
    (hexecutor : env.executor.execute = engine.execute)
    (hschema : ∀ k, engine.primaryKeyOf (env.classOf k).table = (env.classOf k).primaryKey)
    (hquiet : ∀ phase k, Observes (env.runTableHook phase k))
    (hinterceptors : ∀ i ∈ env.interceptors, Observes i.beforeFlush ∧ Observes i.afterFlush)
    {w₀ w w' : World engine.Db Members} (hloaded : roots.Loaded env w₀)
    {calls : List RelationCall} (hadmits : ∀ c ∈ calls, roots.Admits c)
    (hcalls : exec (calls.forM roots.call) w₀ = (.ok (), w))
    (hone : ∀ t ∈ roots.targets, ∀ root ∈ roots.keys, ∀ other ∈ roots.keys,
      t ∈ (roots.members w root).items → t ∈ (roots.members w other).items → root = other)
    (hpipeline : exec (flushPipeline (env.withRelations roots.relationsOf)) w = (.ok (), w'))
    {t : Key} (ht : t ∈ roots.targets) :
    roots.Flushed env w w' t (roots.WasMember w₀ calls t) ↔
      roots.Unspoiled w t (roots.WasMember w₀ calls t) := by
  obtain ⟨hready, hbaseline, _, hkeys⟩ :=
    calls_attached hmapped hloaded.toReady hadmits hcalls
  obtain ⟨hobject, hrow⟩ := pipeline_targets hmapped hexecutor hschema hquiet hinterceptors
    hready hpipeline ht
  refine flushed_iff hready (hone t ht) rfl hobject hrow ?_
  -- a member that was not loaded was attached, and has the key of a root since then
  rintro ⟨done, u, ⟨rest, hsplit⟩, hdone, root, hroot, hmem⟩ hnone
  have hdoneAdmits : ∀ c ∈ done, roots.Admits c :=
    fun c hc => hadmits c (hsplit ▸ List.mem_append_left rest hc)
  obtain ⟨_, _, hitems, _⟩ := calls_attached hmapped hloaded.toReady hdoneAdmits hdone
  have hattached : .attach root t ∈ calls := by
    rcases hitems root t hmem with hitem | hattach
    · rw [hloaded.loaded root hroot, ← hbaseline] at hitem
      exact absurd hitem (hnone root hroot)
    · exact hsplit ▸ List.mem_append_left rest hattach
  obtain ⟨owner, howner, hkey⟩ := hkeys t (.inl ⟨root, hattached⟩)
  rw [hkey]
  exact hready.key_ne_null howner

end RootSet

/-! ## A node that moves from one parent to another -/

/-- Nodes with an optional parent. -/
def nodeClass : EntityClass where
  type := 0
  table := .ofAscii "nodes"
  primaryKey := .ofAscii "id"
  generatedPk := true
  columns := [.ofAscii "id", .ofAscii "parent_id"]
  nodup := by decide
  primaryKey_mem := by decide

/-- The columns of the node of an object: node 3 is a child of node 1. -/
def nodeColumns (k : Key) (column : Name) : Value :=
  if column = .ofAscii "id" then .int64 (Int64.ofNat k)
  else if k = 3 then .int64 1 else .null

/-- The relation `children`. -/
def children : HasTargets where
  index := 0
  cascade := .none
  targetForeignKey := ⟨.ofAscii "parent_id", true, some⟩
  localKey := .ofAscii "id"

/-- The two parents and the child. -/
def parents : RootSet where
  side := .many
  relation := children
  keys := {1, 2}
  targets := {3}
  relationsOf _ := [.hasMany children]

/-- A server that stores the three nodes. -/
def threeNodes : Engine.single.Db where
  rows table pk :=
    if table = nodeClass.table then
      if pk = .int64 1 then some (nodeColumns 1)
      else if pk = .int64 2 then some (nodeColumns 2)
      else if pk = .int64 3 then some (nodeColumns 3)
      else none
    else none
  keyed table pk row h := by
    split at h
    · split at h
      · rename_i hpk
        cases h
        exact ⟨by rw [hpk]; rfl, by rw [hpk]; decide⟩
      · split at h
        · rename_i hpk
          cases h
          exact ⟨by rw [hpk]; rfl, by rw [hpk]; decide⟩
        · split at h
          · rename_i hpk
            cases h
            exact ⟨by rw [hpk]; rfl, by rw [hpk]; decide⟩
          · cases h
    · cases h
  executed := []

/-- The relation members of a node: node 1 has node 3. -/
def nodeMembers (k : Key) : Members where
  references _ := ⟨none, none⟩
  collections _ := if k = 1 then ⟨[3], [3]⟩ else ⟨[], []⟩
  pivotPatches _ _ := none
  bound := true

/-- The nodes were loaded, and tracked in this order. -/
def nodeWorld (order : List Key) : World Engine.single.Db Members :=
  { World.initial (fun k => ⟨nodeColumns k, nodeMembers k⟩) threeNodes with
    uow :=
      { UowState.initial (fun k => ⟨nodeColumns k, nodeMembers k⟩) with
        tracked := fun k =>
          if k ∈ [1, 2, 3] then some ⟨.managed, nodeClass.snapshotOf (nodeColumns k)⟩ else none
        trackedOrder := order } }

/-- A session over nodes. -/
def nodeSession : Env Engine.single.Db Members := .quiet (fun _ => nodeClass) Engine.single.executor

theorem mapped_parents : parents.Mapped nodeSession where
  foreignKey_ne _ _ := show parents.foreignKey ≠ nodeClass.primaryKey by decide
  foreignKey_mem _ _ := show parents.foreignKey ∈ nodeClass.columns by decide
  localKey_ne _ _ _ := by decide
  relations _ _ := ⟨[], [], rfl, by simp⟩

theorem managed_nodeWorld {order : List Key} {k : Key} {tracked : TrackedEntity}
    (h : (nodeWorld order).uow.tracked k = some tracked) :
    (k = 1 ∨ k = 2 ∨ k = 3) ∧ tracked = ⟨.managed, nodeClass.snapshotOf (nodeColumns k)⟩ := by
  by_cases hk : k ∈ [1, 2, 3]
  · simp only [nodeWorld, if_pos hk] at h
    cases h
    exact ⟨by simpa using hk, rfl⟩
  · simp only [nodeWorld, if_neg hk] at h
    cases h

theorem inv_nodeWorld {order : List Key} (horder : order.Perm [1, 2, 3]) :
    (nodeWorld order).uow.Inv where
  order_nodup := horder.nodup_iff.mpr (by decide)
  mem_order k := by
    show k ∈ order ↔ (if k ∈ [1, 2, 3] then _ else none).isSome
    rw [horder.mem_iff]
    by_cases hk : k ∈ [1, 2, 3]
    · rw [if_pos hk]
      exact iff_of_true hk rfl
    · rw [if_neg hk]
      exact iff_of_false hk (by simp)
  wellFormed := by simp [nodeWorld, UowState.initial]
  covered := by simp [nodeWorld, UowState.initial]
  nested := List.Pairwise.nil

theorem synced_nodeWorld (order : List Key) : Synced nodeSession (nodeWorld order) where
  recorded k original h := by
    obtain ⟨hk, heq⟩ := managed_nodeWorld h
    cases heq
    refine ⟨.int64 (Int64.ofNat k), nodeColumns k, rfl, ?_, fun name hname => ?_⟩
    · rcases hk with rfl | rfl | rfl
      · rfl
      · rfl
      · rfl
    · have hname' : name ∈ nodeClass.columns := hname
      exact ⟨nodeColumns k name, by simp [hname'], .refl _⟩
  distinct k₁ k₂ o₁ o₂ h₁ h₂ hsame := by
    obtain ⟨hk₁, heq₁⟩ := managed_nodeWorld h₁
    obtain ⟨hk₂, heq₂⟩ := managed_nodeWorld h₂
    cases heq₁
    cases heq₂
    have hpk : some (Value.int64 (Int64.ofNat k₁)) = some (.int64 (Int64.ofNat k₂)) := hsame.2
    rcases hk₁ with rfl | rfl | rfl <;> rcases hk₂ with rfl | rfl | rfl <;>
      first | rfl | exact absurd hpk (by decide)

theorem loaded_nodeWorld {order : List Key} (horder : order.Perm [1, 2, 3]) :
    parents.Loaded nodeSession (nodeWorld order) where
  inv := inv_nodeWorld horder
  live := {
    synced := synced_nodeWorld order
    recorded := fun k original h => by
      obtain ⟨_, heq⟩ := managed_nodeWorld h
      cases heq
      rfl
    status := fun k tracked h => by
      obtain ⟨_, rfl⟩ := managed_nodeWorld h
      exact .inr rfl }
  managed root hroot := by
    have hcases : root = 1 ∨ root = 2 := by simpa [parents] using hroot
    rcases hcases with rfl | rfl
    · rfl
    · rfl
  persisted := show ∀ root ∈ ({1, 2} : Finset Key), missingRelationKey nodeClass
    children.localKey (nodeColumns root children.localKey) = false by decide
  converts _ _ := rfl
  bound _ _ := rfl
  tracked t ht := by
    cases ht
    rfl
  items := show ∀ root ∈ ({1, 2} : Finset Key), ∀ t ∈ ((nodeMembers root).collections 0).items,
    t = 3 by decide
  baseline := show ∀ root ∈ ({1, 2} : Finset Key),
    ∀ t ∈ ((nodeMembers root).collections 0).baseline, t = 3 by decide
  idle k hk other hother hindex := by
    have heq : other = .hasMany children := by simpa [parents] using hother
    subst heq
    have hroot : k ∉ parents.keys := fun hmem => hindex hmem rfl
    have hne : k ≠ 1 := fun heq => hroot (heq ▸ by decide)
    have hunchanged : ((nodeMembers k).collections 0).items =
        ((nodeMembers k).collections 0).baseline := by simp [nodeMembers, hne]
    exact ⟨hunchanged, by simp [Relation.prepared]⟩
  loaded := show ∀ root ∈ ({1, 2} : Finset Key), ((nodeMembers root).collections 0).items =
    ((nodeMembers root).collections 0).baseline by decide

/-- The calls that move node 3 from node 1 to node 2. -/
def moveChild : List RootSet.RelationCall := [.remove 1 3, .attach 2 3]

/-- The session after the calls. -/
def movedWorld (order : List Key) : World Engine.single.Db Members :=
  (exec (moveChild.forM parents.call) (nodeWorld order)).2

/-- The session after the pipeline. -/
def flushedWorld (order : List Key) : World Engine.single.Db Members :=
  (exec (flushPipeline (nodeSession.withRelations parents.relationsOf)) (movedWorld order)).2

theorem moved_members (order : List Key) : ∀ root ∈ parents.keys,
    parents.members (movedWorld order) root = if root = 1 then ⟨[], [3]⟩ else ⟨[3], []⟩ := by
  intro root hroot
  have hcases : root = 1 ∨ root = 2 := by simpa [parents] using hroot
  rcases hcases with rfl | rfl
  · rfl
  · rfl

theorem moved_one (order : List Key) : ∀ t ∈ parents.targets, ∀ root ∈ parents.keys,
    ∀ other ∈ parents.keys, t ∈ (parents.members (movedWorld order) root).items →
      t ∈ (parents.members (movedWorld order) other).items → root = other := by
  intro t _ root hroot other hother ht ht'
  rw [moved_members order root hroot] at ht
  rw [moved_members order other hother] at ht'
  have hroot' : root = 1 ∨ root = 2 := by simpa [parents] using hroot
  have hother' : other = 1 ∨ other = 2 := by simpa [parents] using hother
  rcases hroot' with rfl | rfl <;> rcases hother' with rfl | rfl <;> simp_all

theorem admits_moveChild : ∀ c ∈ moveChild, parents.Admits c := by
  simp [moveChild, RootSet.Admits, RootSet.RelationCall.root, RootSet.RelationCall.target, parents]

namespace RootSet

theorem unspoiled_moved (wasMember : Prop) :
    parents.Unspoiled (movedWorld [1, 2, 3]) 3 wasMember where
  added root hroot hadded other hother hremoved := by
    rw [mem_added, moved_members _ root hroot] at hadded
    rw [mem_removed, moved_members _ other hother] at hremoved
    have hroot' : root = 2 := by
      by_contra hne
      have h₁ : root = 1 := by simpa [parents, hne] using hroot
      simp [h₁] at hadded
    have hother' : other = 1 := by
      by_contra hne
      simp [hne] at hremoved
    rw [hroot', hother']
    exact ⟨rfl, show [1, 2, 3].idxOf 1 < [1, 2, 3].idxOf 2 by decide⟩
  kept root hroot hitem hbaseline := by
    rw [moved_members _ root hroot] at hitem hbaseline
    by_cases hne : root = 1
    · simp [hne] at hitem
    · simp [hne] at hbaseline
  detached _ _ := ⟨1, by decide, by
    rw [moved_members _ 1 (by decide)]
    simp⟩

/-- The old parent was tracked before the new one: the child ends with the new key. -/
theorem relationFlush_moved :
    parents.Flushed nodeSession (movedWorld [1, 2, 3]) (flushedWorld [1, 2, 3]) 3
      (parents.WasMember (nodeWorld [1, 2, 3]) moveChild 3) := by
  have hcalls : exec (moveChild.forM parents.call) (nodeWorld [1, 2, 3]) =
      (.ok (), movedWorld [1, 2, 3]) := Prod.ext rfl rfl
  have hpipeline : exec (flushPipeline (nodeSession.withRelations parents.relationsOf))
      (movedWorld [1, 2, 3]) = (.ok (), flushedWorld [1, 2, 3]) := Prod.ext rfl rfl
  exact (relationFlush_iff parents mapped_parents rfl (fun _ => rfl) (fun _ _ _ => ⟨rfl, rfl⟩)
    (fun i hi => by cases hi) (loaded_nodeWorld (.refl _)) admits_moveChild hcalls (moved_one _)
    hpipeline rfl).mpr (unspoiled_moved _)

/-- The new parent was tracked before the old one: the child ends without a parent. -/
theorem not_relationFlush :
    ¬∀ (roots : RootSet) (env : Env Engine.single.Db Members)
      (w₀ w w' : World Engine.single.Db Members) (calls : List RelationCall) (t : Key),
      roots.Mapped env → env.executor.execute = Engine.single.execute →
      (∀ k, Engine.single.primaryKeyOf (env.classOf k).table = (env.classOf k).primaryKey) →
      (∀ phase k, Observes (env.runTableHook phase k)) →
      (∀ i ∈ env.interceptors, Observes i.beforeFlush ∧ Observes i.afterFlush) →
      roots.Loaded env w₀ → (∀ c ∈ calls, roots.Admits c) →
      exec (calls.forM roots.call) w₀ = (.ok (), w) →
      (∀ t ∈ roots.targets, ∀ root ∈ roots.keys, ∀ other ∈ roots.keys,
        t ∈ (roots.members w root).items → t ∈ (roots.members w other).items → root = other) →
      exec (flushPipeline (env.withRelations roots.relationsOf)) w = (.ok (), w') →
      t ∈ roots.targets → roots.Flushed env w w' t (roots.WasMember w₀ calls t) := by
  intro hclaim
  have hcalls : exec (moveChild.forM parents.call) (nodeWorld [2, 1, 3]) =
      (.ok (), movedWorld [2, 1, 3]) := Prod.ext rfl rfl
  have hpipeline : exec (flushPipeline (nodeSession.withRelations parents.relationsOf))
      (movedWorld [2, 1, 3]) = (.ok (), flushedWorld [2, 1, 3]) := Prod.ext rfl rfl
  have hflushed := hclaim parents nodeSession _ (movedWorld [2, 1, 3]) (flushedWorld [2, 1, 3])
    moveChild 3 mapped_parents rfl (fun _ => rfl) (fun _ _ _ => ⟨rfl, rfl⟩)
    (fun i hi => by cases hi) (loaded_nodeWorld (.swap _ _ _)) admits_moveChild
    hcalls (moved_one _) hpipeline rfl
  obtain ⟨hobject, _⟩ := hflushed.owned 2 (by decide) (by
    rw [moved_members _ 2 (by decide)]
    simp)
  have hnull : ((flushedWorld [2, 1, 3]).uow.heap 3).columns parents.foreignKey = .null := rfl
  have hkey : parents.key (movedWorld [2, 1, 3]) 2 = .int64 2 := rfl
  rw [hnull, hkey] at hobject
  exact absurd hobject (by decide)

end RootSet

end MetalOrm.Native
