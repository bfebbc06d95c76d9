import MetalOrm.Spec.RelationFlush
import Mathlib.Data.Finset.Basic

/-!
# The roots of a relation in the flush pipeline

Roots with one `has_many` (or `has_one`) relation in which targets are pending, and the
pipeline: a flush, the relation processor, a second flush. The processor treats the
roots one by one, in the order they were tracked, and none of them looks at the others:
the last write to a target decides.

## Key results

- `processKeys_targets`: the foreign keys that the processor leaves
- `pipeline_targets`: the rows that the pipeline leaves
-/

namespace MetalOrm.Native

open ForStd ForStd.Prog Session RelationChange

variable {engine : Engine}

/-- The place of a relation member among those of its class. -/
def Relation.index : Relation → Nat
  | .belongsTo ⟨index, _, _, _⟩ | .hasOne ⟨index, _, _, _⟩ | .hasMany ⟨index, _, _, _⟩
  | .manyToMany ⟨index, _, _, _, _, _, _⟩ | .morphOne ⟨index, _, _, _, _, _⟩
  | .morphMany ⟨index, _, _, _, _, _⟩ | .morphTo ⟨index, _, _, _, _⟩ => index

/-- The targets that `prepare_entity` persists for a relation that has not changed. -/
def Relation.prepared (m : Members) : Relation → List Key
  | .morphTo ⟨index, cascade, _, _, _⟩ =>
    if cascade.cascadesPersist then (m.references index).current.toList else []
  | _ => []

theorem preparedTargets_unchanged {D : Type} (env : Env D Members) (s : UowState Members)
    {m : Members} {relation : Relation} (h : relation.Unchanged m) :
    preparedTargets env s m relation = relation.prepared m := by
  cases relation with
  | belongsTo r | hasOne r | morphOne r =>
    have hadded := Reference.added_of_clean (Reference.dirty_of_eq h)
    simp [preparedTargets, Relation.prepared, hadded]
  | hasMany r | morphMany r =>
    simp [preparedTargets, Relation.prepared, Collection.added_of_eq h]
  | manyToMany r =>
    simp [preparedTargets, Relation.prepared, h.1, withoutEquivalent_self]
  | morphTo r => rfl

/-- The relation of a root asks to persist some of the added targets. -/
theorem preparedTargets_side {D : Type} (env : Env D Members) (s : UowState Members) (m : Members)
    (side : Side) (r : HasTargets) :
    ∀ t ∈ preparedTargets env s m (side.relation r), t ∈ (side.members r m).added := by
  intro t ht
  cases side with
  | one =>
    simp only [Side.relation, preparedTargets] at ht
    split at ht
    · rwa [Reference.added_toList] at ht
    · cases ht
  | many =>
    simp only [Side.relation, preparedTargets] at ht
    split at ht
    · exact ht
    · cases ht

/-- Roots with one relation, its possible targets, and the relations of every object. -/
structure RootSet where
  side : Side
  relation : HasTargets
  keys : Finset Key
  targets : Set Key
  relationsOf : Key → List Relation

namespace RootSet

variable (roots : RootSet)

/-- The foreign key column of the targets. -/
def foreignKey : Name := roots.relation.targetForeignKey.column

/-- Whether a removed target is deleted. -/
def cascade : Bool := roots.relation.cascade.cascadesRemove

/-- The members of the relation of a root. -/
def members (w : World engine.Db Members) (root : Key) : Collection :=
  roots.side.members roots.relation (w.uow.heap root).runtime

/-- The local key of a root. -/
def key (w : World engine.Db Members) (root : Key) : Value :=
  (w.uow.heap root).columns roots.relation.localKey

/-- What the mapping says about the relation. -/
structure Mapped (env : Env engine.Db Members) : Prop where
  foreignKey_ne : ∀ t ∈ roots.targets, roots.foreignKey ≠ (env.classOf t).primaryKey
  foreignKey_mem : ∀ t ∈ roots.targets, roots.foreignKey ∈ (env.classOf t).columns
  localKey_ne : ∀ root ∈ roots.keys, root ∈ roots.targets →
    roots.relation.localKey ≠ roots.foreignKey
  relations : ∀ root ∈ roots.keys, ∃ before after,
    roots.relationsOf root = before ++ roots.side.relation roots.relation :: after ∧
    ∀ other ∈ before ++ after, other.index ≠ roots.relation.index

/-- A relation of an object has nothing to persist and nothing to flush. -/
structure Idle (w : World engine.Db Members) (k : Key) (other : Relation) : Prop where
  unchanged : other.Unchanged (w.uow.heap k).runtime
  prepared : ∀ t ∈ other.prepared (w.uow.heap k).runtime, (w.uow.tracked t).isSome

/-- A unit of work in which nothing is pending but the relation of the roots. -/
structure Ready (env : Env engine.Db Members) (w : World engine.Db Members) : Prop where
  inv : w.uow.Inv
  live : Live env w
  managed : ∀ root ∈ roots.keys, (w.uow.tracked root).map (·.status) = some .managed
  persisted : ∀ root ∈ roots.keys,
    missingRelationKey (env.classOf root) roots.relation.localKey (roots.key w root) = false
  converts : ∀ root ∈ roots.keys,
    roots.relation.targetForeignKey.fromValue (roots.key w root) = some (roots.key w root)
  bound : ∀ root ∈ roots.keys, (w.uow.heap root).runtime.bound = true
  tracked : ∀ t ∈ roots.targets, (w.uow.tracked t).isSome
  items : ∀ root ∈ roots.keys, ∀ t ∈ (roots.members w root).items, t ∈ roots.targets
  baseline : ∀ root ∈ roots.keys, ∀ t ∈ (roots.members w root).baseline, t ∈ roots.targets
  idle : ∀ k, (w.uow.tracked k).isSome → ∀ other ∈ roots.relationsOf k,
    (k ∈ roots.keys → other.index ≠ roots.relation.index) → Idle w k other

/-! ## The relation processor -/

/-- What a root writes to the foreign key of a target. -/
def write (w : World engine.Db Members) (t root : Key) : Option Value :=
  if root ∈ roots.keys then
    if roots.cascade = false ∧ t ∈ (roots.members w root).removed then some .null
    else if t ∈ (roots.members w root).added then some (roots.key w root)
    else none
  else none

/-- Whether a root schedules a target for deletion. -/
def drops (w : World engine.Db Members) (t root : Key) : Bool :=
  decide (root ∈ roots.keys) && (roots.cascade && decide (t ∈ (roots.members w root).removed))

section Process

variable {roots} {env : Env engine.Db Members} (hmapped : roots.Mapped env)
  (hexecutor : env.executor.execute = engine.execute)
  (hschema : ∀ k, engine.primaryKeyOf (env.classOf k).table = (env.classOf k).primaryKey)
  {w u u' : World engine.Db Members}

/-- What the members and the key of a root are after the processor has been at work. -/
theorem members_of_kept (hkept : ProcessKept roots.targets roots.foreignKey w u) (root : Key) :
    roots.members u root = roots.members w root := by
  rw [members, members, hkept.runtime]

include hmapped in
theorem key_of_kept (hkept : ProcessKept roots.targets roots.foreignKey w u) {root : Key}
    (hroot : root ∈ roots.keys) : roots.key u root = roots.key w root :=
  hkept.columns root _ fun hmem => hmapped.localKey_ne root hroot hmem.1 hmem.2

/-- The foreign key of a target after the turn of a root. -/
theorem write_getD {root t : Key} {x : Value} (hroot : root ∈ roots.keys) :
    (roots.write w t root).getD x =
      if roots.cascade = false ∧ t ∈ (roots.members w root).removed then .null
      else if t ∈ (roots.members w root).added then roots.key w root else x := by
  rw [write, if_pos hroot]
  by_cases hremoved : roots.cascade = false ∧ t ∈ (roots.members w root).removed
  · rw [if_pos hremoved, if_pos hremoved, Option.getD_some]
  · rw [if_neg hremoved, if_neg hremoved]
    by_cases hadded : t ∈ (roots.members w root).added
    · rw [if_pos hadded, if_pos hadded, Option.getD_some]
    · rw [if_neg hadded, if_neg hadded, Option.getD_none]

include hmapped hexecutor hschema in
/-- One root writes to its targets what `write` and `drops` say. -/
theorem processRoot_targets (hready : roots.Ready env w)
    (hkept : ProcessKept roots.targets roots.foreignKey w u) (hapart : Apart env u) {root : Key}
    (hroot : root ∈ roots.keys)
    (h : exec (processEntity env (roots.relationsOf root) root) u = (.ok (), u')) :
    ProcessKept roots.targets roots.foreignKey u u' ∧
    ∀ t x removed, TargetAt env roots.foreignKey t x removed u →
      TargetAt env roots.foreignKey t ((roots.write w t root).getD x)
        (removed || roots.drops w t root) u' := by
  obtain ⟨before, after, hrelations, hothers⟩ := hmapped.relations root hroot
  have hmanaged : (w.uow.tracked root).isSome := by
    cases hw : w.uow.tracked root with
    | none => simpa [hw] using hready.managed root hroot
    | some tracked => rfl
  -- the other relations of the root change nothing
  have hidle : ∀ v, ProcessKept roots.targets roots.foreignKey w v →
      ∀ other ∈ before ++ after, exec (flushRelation env root other) v = (.ok (), v) := by
    intro v hv other hother
    have hmem : other ∈ roots.relationsOf root := by
      rw [hrelations]
      rcases List.mem_append.mp hother with hmem | hmem
      · exact List.mem_append_left _ hmem
      · exact List.mem_append_right _ (List.mem_cons_of_mem _ hmem)
    apply flushRelation_unchanged
    rw [hv.runtime]
    exact (hready.idle root hmanaged other hmem fun _ => hothers other hother).unchanged
  unfold processEntity at h
  rw [hrelations] at h
  obtain ⟨u₁, hbefore, hrest⟩ := exec_forM_append h
  rw [exec_forM_idle fun other hother => hidle u hkept other (List.mem_append_left _ hother)]
    at hbefore
  cases hbefore
  obtain ⟨u₂, hside, hafter⟩ := exec_forM_cons hrest
  obtain ⟨link, kind, u₃, hlink, hadded, hremoved⟩ := flushSide_ok hside
  have hmembers : roots.side.members roots.relation (u.uow.heap root).runtime =
      roots.members w root := members_of_kept hkept root
  have hkey : (u.uow.heap root).columns roots.relation.localKey = roots.key w root :=
    key_of_kept hmapped hkept hroot
  rw [hmembers] at hadded hremoved
  rw [hkey] at hlink
  obtain ⟨hkept₃, hat₃⟩ := addedLoop hexecutor hschema hmapped.foreignKey_ne hlink
    (hready.converts root hroot)
    (fun t ht => hready.items root hroot t (List.mem_of_mem_filter ht))
    (fun t ht => by rw [hkept.tracked]; exact hready.tracked t ht) hapart hadded
  have hapart₃ := hkept₃.apart hmapped.foreignKey_ne hapart
  obtain ⟨hkept₂, hat₂⟩ := removedLoop hexecutor hschema hmapped.foreignKey_ne
    (fun t ht => hready.baseline root hroot t (List.mem_of_mem_filter ht))
    (fun t ht => by rw [hkept₃.tracked, hkept.tracked]; exact hready.tracked t ht)
    hapart₃ hremoved
  have hkeptSide : ProcessKept roots.targets roots.foreignKey u u₂ := hkept₃.trans hkept₂
  rw [exec_forM_idle fun other hother =>
    hidle u₂ (hkept.trans hkeptSide) other (List.mem_append_right _ hother)] at hafter
  cases hafter
  refine ⟨hkeptSide, fun t x removed ht => ?_⟩
  have hfinal := hat₂ t _ _ (hat₃ t x removed ht)
  have hdrops : roots.drops w t root = (roots.relation.cascade.cascadesRemove &&
      decide (t ∈ (roots.members w root).removed)) := by simp [drops, cascade, hroot]
  rw [write_getD hroot, hdrops]
  exact hfinal

include hmapped hexecutor hschema in
theorem processKey_targets (hready : roots.Ready env w)
    (hkept : ProcessKept roots.targets roots.foreignKey w u) (hapart : Apart env u) {k : Key}
    (hk : (w.uow.tracked k).isSome)
    (h : exec (processKey (env.withRelations roots.relationsOf) k) u = (.ok (), u')) :
    ProcessKept roots.targets roots.foreignKey u u' ∧
    ∀ t x removed, TargetAt env roots.foreignKey t x removed u →
      TargetAt env roots.foreignKey t ((roots.write w t k).getD x)
        (removed || roots.drops w t k) u' := by
  unfold processKey at h
  rw [exec_bind_ok (exec_get u), if_pos (by rw [hkept.tracked]; exact hk)] at h
  have hprocess : exec (processEntity env (roots.relationsOf k) k) u = (.ok (), u') := h
  by_cases hroot : k ∈ roots.keys
  · exact processRoot_targets hmapped hexecutor hschema hready hkept hapart hroot hprocess
  · have hidle : exec (processEntity env (roots.relationsOf k) k) u = (.ok (), u) := by
      refine exec_forM_idle fun other hother => flushRelation_unchanged env k ?_
      rw [hkept.runtime]
      exact (hready.idle k hk other hother fun hmem => absurd hmem hroot).unchanged
    rw [hidle] at hprocess
    cases hprocess
    exact ⟨.refl _, fun t x removed ht => by simpa [write, drops, hroot] using ht⟩

include hmapped hexecutor hschema in
theorem processKeys_targets (hready : roots.Ready env w) (keys : List Key)
    (hkeys : ∀ k ∈ keys, (w.uow.tracked k).isSome)
    (hkept : ProcessKept roots.targets roots.foreignKey w u) (hapart : Apart env u)
    (h : exec (keys.forM (processKey (env.withRelations roots.relationsOf))) u = (.ok (), u')) :
    ProcessKept roots.targets roots.foreignKey u u' ∧
    ∀ t x removed, TargetAt env roots.foreignKey t x removed u →
      TargetAt env roots.foreignKey t (lastWrite (roots.write w t) keys x)
        (removed || keys.any (roots.drops w t)) u' := by
  induction keys generalizing u with
  | nil =>
    cases h
    exact ⟨.refl _, fun t x removed ht => by simpa using ht⟩
  | cons k keys ih =>
    obtain ⟨u₁, hstep, hrest⟩ := exec_forM_cons h
    obtain ⟨hkept₁, hat₁⟩ := processKey_targets hmapped hexecutor hschema hready hkept hapart
      (hkeys k List.mem_cons_self) hstep
    obtain ⟨hkept₂, hat₂⟩ := ih (fun k' hk' => hkeys k' (List.mem_cons_of_mem k hk'))
      (hkept.trans hkept₁) (hkept₁.apart hmapped.foreignKey_ne hapart) hrest
    refine ⟨hkept₁.trans hkept₂, fun t x removed ht => ?_⟩
    rw [lastWrite_cons, List.any_cons, ← Bool.or_assoc]
    exact hat₂ t _ _ (hat₁ t x removed ht)

end Process

/-! ## The pipeline -/

section Prepare

variable {roots} {env : Env engine.Db Members} (hmapped : roots.Mapped env)
  {w w' : World engine.Db Members}

theorem persistUntracked_idle {t : Key} (h : (w.uow.tracked t).isSome) :
    exec (persistUntracked env t) w = (.ok (), w) := by
  unfold persistUntracked
  rw [exec_bind_ok (by rfl)]
  simp [h]

include hmapped in
/-- The targets are tracked, so that preparing an object persists nothing. -/
theorem prepareEntity_idle (bound : Env engine.Db Members) (hready : roots.Ready env w) {k : Key}
    (hk : (w.uow.tracked k).isSome) :
    exec (prepareEntity bound (roots.relationsOf k) k) w = (.ok (), w) := by
  refine exec_forM_idle fun relation hrelation => ?_
  rw [exec_bind_ok (by rfl), exec_bind_ok (exec_get w)]
  refine exec_forM_idle fun t ht => persistUntracked_idle ?_
  have hidle : (k ∈ roots.keys → relation.index ≠ roots.relation.index) →
      (w.uow.tracked t).isSome := fun hother => by
    obtain ⟨hunchanged, hprepared⟩ := hready.idle k hk relation hrelation hother
    rw [preparedTargets_unchanged bound w.uow hunchanged] at ht
    exact hprepared t ht
  by_cases hroot : k ∈ roots.keys
  · obtain ⟨before, after, hrelations, hothers⟩ := hmapped.relations k hroot
    rw [hrelations, List.mem_append, List.mem_cons] at hrelation
    rcases hrelation with hbefore | rfl | hafter
    · exact hidle fun _ => hothers relation (List.mem_append_left _ hbefore)
    · have hadded := preparedTargets_side bound w.uow _ roots.side roots.relation t ht
      exact hready.tracked t (hready.items k hroot t (List.mem_of_mem_filter hadded))
    · exact hidle fun _ => hothers relation (List.mem_append_right _ hafter)
  · exact hidle fun hmem => absurd hmem hroot

theorem prepareRound_idle
    (hidle : ∀ k, (w.uow.tracked k).isSome → exec (env.prepareRelations k) w = (.ok (), w))
    {keys prepared prepared' : List Key}
    (h : exec (prepareRound env keys prepared) w = (.ok prepared', w')) : w' = w := by
  induction keys generalizing prepared with
  | nil =>
    cases h
    rfl
  | cons k keys ih =>
    unfold prepareRound at h
    rw [exec_bind_ok (exec_get w)] at h
    split at h
    · exact ih h
    · rename_i hk
      simp only [Bool.or_eq_true, not_or] at hk
      have htracked : (w.uow.tracked k).isSome := by simpa [Option.isNone_iff_eq_none,
        Option.isSome_iff_ne_none] using hk.2
      rw [exec_bind_ok (hidle k htracked)] at h
      exact ih h

theorem prepareRounds_idle
    (hidle : ∀ k, (w.uow.tracked k).isSome → exec (env.prepareRelations k) w = (.ok (), w))
    {rounds : Nat} {prepared : List Key}
    (h : exec (prepareRounds env rounds prepared) w = (.ok (), w')) : w' = w := by
  induction rounds generalizing prepared with
  | zero =>
    unfold prepareRounds at h
    rw [exec_bind_ok (exec_get w)] at h
    split at h
    · cases h
    · cases h
      rfl
  | succ rounds ih =>
    unfold prepareRounds at h
    rw [exec_bind_ok (exec_get w)] at h
    dsimp only at h
    split at h
    · obtain ⟨prepared', v, hround, h⟩ := exec_bind_eq_ok.mp h
      cases prepareRound_idle hidle hround
      split at h
      · cases h
        rfl
      · exact ih h
    · cases h
      rfl

end Prepare

variable {roots} in
theorem Ready.congr {env : Env engine.Db Members} {w v : World engine.Db Members}
    (h : roots.Ready env w) (huow : v.uow = w.uow) (hdb : v.db = w.db) : roots.Ready env v where
  inv := huow ▸ h.inv
  live := h.live.congr huow hdb
  managed := by simpa only [huow] using h.managed
  persisted := by simpa only [key, huow] using h.persisted
  converts := by simpa only [key, huow] using h.converts
  bound := by simpa only [huow] using h.bound
  tracked := by simpa only [huow] using h.tracked
  items := by simpa only [members, huow] using h.items
  baseline := by simpa only [members, huow] using h.baseline
  idle k hk other hother hindex := by
    obtain ⟨hunchanged, hprepared⟩ := h.idle k (huow ▸ hk) other hother hindex
    exact ⟨by rw [huow]; exact hunchanged, by simpa only [huow] using hprepared⟩

section Pipeline

variable {roots} {env : Env engine.Db Members} (hmapped : roots.Mapped env)
  (hexecutor : env.executor.execute = engine.execute)
  (hschema : ∀ k, engine.primaryKeyOf (env.classOf k).table = (env.classOf k).primaryKey)
  (hquiet : ∀ phase k, Observes (env.runTableHook phase k))
  {w w' : World engine.Db Members}

theorem forM_observes {D R α : Type} {f : α → SessionM D R Unit} {l : List α} {v v' : World D R}
    (hf : ∀ a ∈ l, Observes (f a)) (h : exec (l.forM f) v = (.ok (), v')) :
    v'.uow = v.uow ∧ v'.db = v.db := by
  induction l generalizing v with
  | nil =>
    cases h
    exact ⟨rfl, rfl⟩
  | cons a l ih =>
    obtain ⟨u, ha, hl⟩ := exec_forM_cons h
    obtain ⟨huow, hdb⟩ := (hf a List.mem_cons_self).of_ok ha
    obtain ⟨huow', hdb'⟩ := ih (fun a' ha' => hf a' (List.mem_cons_of_mem a ha')) hl
    exact ⟨huow'.trans huow, hdb'.trans hdb⟩

/-- The heap of the roots, as the first flush leaves it. -/
theorem members_of_flush (hflush : LiveFlush env w.uow.keys w w') (root : Key) :
    roots.members w' root = roots.members w root := by
  rw [members, members, hflush.runtime]

theorem key_of_flush (hready : roots.Ready env w) (hflush : LiveFlush env w.uow.keys w w')
    {root : Key} (hroot : root ∈ roots.keys) : roots.key w' root = roots.key w root := by
  rw [key, key, hflush.kept root (by rw [hready.managed root hroot]; simp)]

include hexecutor hschema hquiet in
/-- The first flush stores the objects, and leaves the relations of the roots pending. -/
theorem Ready.flush (hready : roots.Ready env w)
    (hflush : exec (Session.flush env) w = (.ok (), w')) :
    roots.Ready env w' ∧ LiveFlush env w.uow.keys w w' ∧
      ∀ k, (w'.uow.tracked k).isSome → Mirrored env w' k := by
  obtain ⟨hlive, hmirrored⟩ := hready.live.flush hexecutor hschema hquiet hready.inv hflush
  have htracked : ∀ k, (w.uow.tracked k).isSome → (w'.uow.tracked k).isSome := fun k hk => by
    rw [hlive.tracked]
    exact hk
  refine ⟨?_, hlive, hmirrored⟩
  exact {
    inv := flush_inv hquiet hready.inv hflush
    live := hlive.live
    managed := fun root hroot => by
      have hsome : (w.uow.tracked root).isSome := by
        cases hw : w.uow.tracked root with
        | none => simpa [hw] using hready.managed root hroot
        | some tracked => rfl
      obtain ⟨original, hmanaged, _⟩ := hmirrored root (htracked root hsome)
      simp [hmanaged]
    persisted := fun root hroot => by
      rw [key_of_flush hready hlive hroot]
      exact hready.persisted root hroot
    converts := fun root hroot => by
      rw [key_of_flush hready hlive hroot]
      exact hready.converts root hroot
    bound := fun root hroot => by
      rw [hlive.runtime]
      exact hready.bound root hroot
    tracked := fun t ht => htracked t (hready.tracked t ht)
    items := fun root hroot => by
      rw [members_of_flush hlive]
      exact hready.items root hroot
    baseline := fun root hroot => by
      rw [members_of_flush hlive]
      exact hready.baseline root hroot
    idle := fun k hk other hother hindex => by
      obtain ⟨hunchanged, hprepared⟩ := hready.idle k (by rw [← hlive.tracked]; exact hk) other
        hother hindex
      exact ⟨by rw [hlive.runtime]; exact hunchanged, fun t ht => by
        rw [hlive.runtime] at ht
        exact htracked t (hprepared t ht)⟩ }

include hexecutor hschema hquiet in
/-- The second flush stores what the processor left. -/
theorem flush_targetAt {t : Key} {x : Value} {removed : Bool}
    (hinv : w.uow.Inv) (hapart : Apart env w)
    (hold : ∀ k, (w.uow.tracked k).map (·.status) ≠ some .new)
    (ht : TargetAt env roots.foreignKey t x removed w)
    (hflush : exec (Session.flush env) w = (.ok (), w')) :
    ((w'.uow.heap t).columns roots.foreignKey).Same x ∧
    if removed then storedRow env t w' = none
    else ∃ row, storedRow env t w' = some row ∧ (row roots.foreignKey).Same x := by
  have hheap : w'.uow.heap = w.uow.heap := flushKeys_heap hexecutor hschema hquiet
    (hinv.order_nodup.filter _) (fun k _ => hold k)
    (show exec (w.uow.keys.forM (flushKey env)) w = (.ok (), w') from hflush)
  obtain ⟨tracked, htracked, hstatus⟩ := Option.map_eq_some_iff.mp ht.status
  have hsome : (w.uow.tracked t).isSome := by simp [htracked]
  obtain ⟨u, v, hstep, haround⟩ := flush_tracked hexecutor hschema hquiet
    (fun k hk hktracked htable hpk => by
      rw [hheap] at hpk
      exact hk (hapart k t hktracked hsome htable hpk)) hinv htracked hflush
  refine ⟨by rw [hheap]; exact ht.object, ?_⟩
  have hu : u.uow.tracked t = some tracked := haround.tracked.trans htracked
  obtain ⟨status, original⟩ := tracked
  unfold flushKey at hstep
  rw [exec_bind_ok (exec_get u), hu] at hstep
  cases removed with
  | true =>
    cases hstatus
    rw [if_pos rfl, haround.rowAfter]
    exact (flushDelete_entity hexecutor hschema hquiet hstep).2
  | false =>
    cases hstatus
    obtain ⟨_, hkept, hstored⟩ := flushUpdate_entity hexecutor hschema hquiet hstep
    obtain ⟨row, hrow, hvalue⟩ := ht.row
    rw [if_neg (by simp), haround.rowAfter, hstored, haround.storedRow_before hkept, hrow]
    refine ⟨_, rfl, ?_⟩
    unfold updatedRow
    split
    · rw [haround.before]
      exact ht.object
    · exact hvalue

include hmapped hexecutor hschema hquiet in
/-- The foreign key of a target after the pipeline: the last root that writes decides. -/
theorem pipeline_targets (hinterceptors : ∀ i ∈ env.interceptors,
      Observes i.beforeFlush ∧ Observes i.afterFlush)
    (hready : roots.Ready env w)
    (h : exec (flushPipeline (env.withRelations roots.relationsOf)) w = (.ok (), w')) {t : Key}
    (ht : t ∈ roots.targets) :
    let x := lastWrite (roots.write w t) w.uow.trackedOrder
      ((w.uow.heap t).columns roots.foreignKey)
    ((w'.uow.heap t).columns roots.foreignKey).Same x ∧
    if w.uow.trackedOrder.any (roots.drops w t) then storedRow env t w' = none
    else ∃ row, storedRow env t w' = some row ∧ (row roots.foreignKey).Same x := by
  intro x
  unfold flushPipeline at h
  obtain ⟨_, w₀, hbefore, h⟩ := exec_bind_eq_ok.mp h
  obtain ⟨_, w₁, hprepare, h⟩ := exec_bind_eq_ok.mp h
  obtain ⟨_, w₂, hflush₁, h⟩ := exec_bind_eq_ok.mp h
  obtain ⟨_, w₃, hprocess, h⟩ := exec_bind_eq_ok.mp h
  obtain ⟨_, w₄, hflush₂, hafter⟩ := exec_bind_eq_ok.mp h
  -- the interceptors and the first loop of the processor change nothing
  obtain ⟨huow₀, hdb₀⟩ := forM_observes (fun i hi => (hinterceptors i hi).1) hbefore
  have hready₀ : roots.Ready env w₀ := hready.congr huow₀ hdb₀
  obtain ⟨huow₄, hdb₄⟩ := forM_observes (fun i hi => (hinterceptors i hi).2) hafter
  have hidle : ∀ k, (w₀.uow.tracked k).isSome →
      exec ((env.withRelations roots.relationsOf).prepareRelations k) w₀ = (.ok (), w₀) :=
    fun k hk => prepareEntity_idle hmapped _ hready₀ hk
  cases prepareRounds_idle hidle hprepare
  -- the first flush
  obtain ⟨hready₂, hlive, hmirrored⟩ := hready₀.flush hexecutor hschema hquiet hflush₁
  have hapart₂ : Apart env w₂ := Mirrored.apart hlive.live.synced hmirrored
  have hat₂ : TargetAt env roots.foreignKey t ((w.uow.heap t).columns roots.foreignKey) false w₂ := by
    obtain ⟨original, hmanaged, _⟩ := hmirrored t (hready₂.tracked t ht)
    obtain ⟨row, hrow, hsame⟩ := (hmirrored t (hready₂.tracked t ht)).stored hlive.live.synced
    have hobject : (w₂.uow.heap t).columns roots.foreignKey =
        (w.uow.heap t).columns roots.foreignKey := by
      rw [hlive.columns t _ (hmapped.foreignKey_ne t ht), huow₀]
    have hstored := hsame roots.foreignKey (hmapped.foreignKey_mem t ht)
    refine ⟨by rw [hobject]; exact .refl _, ⟨row, hrow, ?_⟩, by simp [hmanaged]⟩
    rw [← hobject]
    exact hstored.symm
  -- the processor
  have horder : w₂.uow.keys = w.uow.trackedOrder := by
    have hall : w₂.uow.trackedOrder.filter (fun k => (w₂.uow.tracked k).isSome) =
        w₂.uow.trackedOrder :=
      List.filter_eq_self.mpr fun k hk => (hready₂.inv.mem_order k).mp hk
    rw [UowState.keys, hall, hlive.order, huow₀]
  obtain ⟨hkept, hat⟩ := processKeys_targets hmapped hexecutor hschema hready₂ w₂.uow.keys
    (fun k hk => mem_keys hk) (.refl _) hapart₂ hprocess
  have hat₃ := hat t _ false hat₂
  have hwrite : roots.write w₂ t = roots.write w t := by
    funext root
    unfold write
    by_cases hroot : root ∈ roots.keys
    · rw [members_of_flush hlive, key_of_flush hready₀ hlive hroot, members, key, huow₀]
      rfl
    · rw [if_neg hroot, if_neg hroot]
  have hdrops : roots.drops w₂ t = roots.drops w t := by
    funext root
    rw [drops, members_of_flush hlive, members, huow₀]
    rfl
  rw [horder, hwrite, hdrops, Bool.false_or] at hat₃
  -- the second flush
  have hold : ∀ k, (w₃.uow.tracked k).map (·.status) ≠ some .new := fun k => by
    apply hkept.status
    cases hk : w₂.uow.tracked k with
    | none => simp
    | some tracked =>
      obtain ⟨original, hmanaged, _⟩ := hmirrored k (by simp [hk])
      rw [hk] at hmanaged
      cases hmanaged
      simp
  have hfinal := flush_targetAt hexecutor hschema hquiet (hkept.inv hready₂.inv)
    (hkept.apart hmapped.foreignKey_ne hapart₂) hold hat₃ hflush₂
  have hstored : storedRow env t w' = storedRow env t w₄ := by
    rw [storedRow, storedRow, huow₄, hdb₄]
  rw [huow₄, hstored]
  exact hfinal

end Pipeline

end RootSet

end MetalOrm.Native
