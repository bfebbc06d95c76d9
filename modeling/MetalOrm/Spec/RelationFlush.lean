import MetalOrm.ForStd.LastWrite
import MetalOrm.Spec.FlushMirror
import MetalOrm.Spec.RelationRules

/-!
# The relation of one root

What the relation processor does to the targets of one `has_one` or `has_many`: the
added targets get the key of the root, and the removed ones lose their foreign key, or
are scheduled for deletion. A relation that has not changed is flushed without a trace.

## Key results

- `TargetAt.writeForeignKey`, `TargetAt.remove`: one write
- `addedLoop`, `removedLoop`: the loops of one root
- `flushRelation_unchanged`: the other relations
-/

namespace MetalOrm.Native

open ForStd ForStd.Prog Session RelationChange

variable {engine : Engine}

/-! ## The relation -/

/-- A `has_one` or a `has_many`. -/
inductive Side where
  | one
  | many

namespace Side

variable (side : Side) (r : HasTargets)

/-- The relation annotation. -/
def relation : Relation :=
  match side with
  | .one => .hasOne r
  | .many => .hasMany r

/-- The members of the relation: at most one for a `has_one`. -/
def members (m : Members) : Collection :=
  match side with
  | .one => ⟨(m.references r.index).current.toList, (m.references r.index).baseline.toList⟩
  | .many => m.collections r.index

/-- `attach`, or `set`. -/
def attach (root target : Key) : SessionM engine.Db Members Unit :=
  match side with
  | .one => setTarget r root target
  | .many => RelationChange.attach r root target

/-- `remove`, or `reset`. -/
def remove (root target : Key) : SessionM engine.Db Members Unit :=
  match side with
  | .one => resetTarget r root
  | .many => removeTarget r root target

end Side

theorem Reference.added_toList (reference : Reference) :
    reference.added.toList =
      Collection.added ⟨reference.current.toList, reference.baseline.toList⟩ := by
  obtain ⟨current, baseline⟩ := reference
  cases current <;> cases baseline <;>
    simp [Reference.added, Reference.dirty, Collection.added]
  split <;> simp_all

theorem Reference.removed_toList (reference : Reference) :
    reference.removed.toList =
      Collection.removed ⟨reference.current.toList, reference.baseline.toList⟩ := by
  obtain ⟨current, baseline⟩ := reference
  cases current <;> cases baseline <;>
    simp [Reference.removed, Reference.dirty, Collection.removed]
  split <;> simp_all [eq_comm]

section Flush

variable {env : Env engine.Db Members} {side : Side} {r : HasTargets}
  {w w' : World engine.Db Members} {root : Key}

/-- Both kinds link the added targets, and then detach the removed ones. -/
theorem flushSide_ok (h : exec (flushRelation env root (side.relation r)) w = (.ok (), w')) :
    ∃ (link : Key → SessionM engine.Db Members Unit) (kind : String) (w₁ : World engine.Db Members),
      (∀ t u u', exec (link t) u = (.ok (), u') →
        LinkRuns env r ((w.uow.heap root).columns r.localKey) t u u') ∧
      exec ((side.members r (w.uow.heap root).runtime).added.forM link) w = (.ok (), w₁) ∧
      exec ((side.members r (w.uow.heap root).runtime).removed.forM (detachTarget env r kind)) w₁ =
        (.ok (), w') := by
  cases side with
  | one =>
    obtain ⟨w₁, hadded, hremoved⟩ := flushHasOne_ok h
    rw [Reference.added_toList] at hadded
    rw [Reference.removed_toList] at hremoved
    exact ⟨_, _, w₁, fun t u u' hlink => (linkHasOne_ok hlink).2.2, hadded, hremoved⟩
  | many =>
    obtain ⟨_, w₁, hadded, hremoved⟩ := flushHasMany_ok h
    exact ⟨_, _, w₁, fun t u u' hlink => linkHasMany_ok hlink, hadded, hremoved⟩

end Flush

/-! ## What one write does -/

section Process

variable (env : Env engine.Db Members) (targets : Set Key) (fk : Name)

/-- What the processor leaves alone: everything but the foreign key of the targets, the
    rows, and the entries as far as status and snapshot go. -/
structure ProcessKept (w w' : World engine.Db Members) : Prop where
  tracked : ∀ k, (w'.uow.tracked k).isSome = (w.uow.tracked k).isSome
  status : ∀ k, (w.uow.tracked k).map (·.status) ≠ some .new →
    (w'.uow.tracked k).map (·.status) ≠ some .new
  order : w'.uow.trackedOrder = w.uow.trackedOrder
  checkpoints : w'.uow.checkpoints = w.uow.checkpoints
  columns : ∀ k name, ¬(k ∈ targets ∧ name = fk) →
    (w'.uow.heap k).columns name = (w.uow.heap k).columns name
  runtime : ∀ k, (w'.uow.heap k).runtime = (w.uow.heap k).runtime

/-- A target with this foreign key, in memory and in its row, and whether it is
    scheduled for deletion. -/
structure TargetAt (t : Key) (value : Value) (removed : Bool) (w : World engine.Db Members) :
    Prop where
  object : ((w.uow.heap t).columns fk).Same value
  row : ∃ row, storedRow env t w = some row ∧ (row fk).Same value
  status : (w.uow.tracked t).map (·.status) = some (if removed then .removed else .managed)

variable {env targets fk} {w w' : World engine.Db Members}

theorem ProcessKept.refl (w : World engine.Db Members) : ProcessKept targets fk w w :=
  ⟨fun _ => rfl, fun _ => id, rfl, rfl, fun _ _ _ => rfl, fun _ => rfl⟩

theorem ProcessKept.trans {u : World engine.Db Members} (huw : ProcessKept targets fk u w)
    (hww' : ProcessKept targets fk w w') : ProcessKept targets fk u w' where
  tracked k := (hww'.tracked k).trans (huw.tracked k)
  status k h := hww'.status k (huw.status k h)
  order := hww'.order.trans huw.order
  checkpoints := hww'.checkpoints.trans huw.checkpoints
  columns k name h := (hww'.columns k name h).trans (huw.columns k name h)
  runtime k := (hww'.runtime k).trans (huw.runtime k)

theorem ProcessKept.inv (h : ProcessKept targets fk w w') (hinv : w.uow.Inv) : w'.uow.Inv :=
  hinv.of_isSome_eq h.tracked h.order h.checkpoints

theorem ProcessKept.primaryKey (h : ProcessKept targets fk w w')
    (hfk : ∀ t ∈ targets, fk ≠ (env.classOf t).primaryKey) (k : Key) :
    (w'.uow.heap k).columns (env.classOf k).primaryKey =
      (w.uow.heap k).columns (env.classOf k).primaryKey :=
  h.columns k _ fun hk => hfk k hk.1 hk.2.symm

theorem ProcessKept.apart (h : ProcessKept targets fk w w')
    (hfk : ∀ t ∈ targets, fk ≠ (env.classOf t).primaryKey) (hapart : Apart env w) :
    Apart env w' := by
  intro k₁ k₂ h₁ h₂ htable hpk
  rw [h.primaryKey hfk, h.primaryKey hfk] at hpk
  exact hapart k₁ k₂ (h.tracked k₁ ▸ h₁) (h.tracked k₂ ▸ h₂) htable hpk

section Write

variable (hexecutor : env.executor.execute = engine.execute)
  (hschema : ∀ k, engine.primaryKeyOf (env.classOf k).table = (env.classOf k).primaryKey)
  {target : Key} {value : Value}

theorem writeForeignKey_kept (htarget : target ∈ targets)
    (h : exec (writeForeignKey env target fk
      ((w.uow.heap target).columns (env.classOf target).primaryKey) value value) w = (.ok (), w')) :
    ProcessKept targets fk w w' := by
  obtain ⟨result, db, _, rfl⟩ := writeForeignKey_ok h
  refine ⟨fun k => ?_, fun k hk => ?_, ?_, ?_, fun k name hk => ?_, fun k => ?_⟩
  · rw [linked_tracked]
    by_cases hk : k = target
    · simp [hk]
    · simp [hk]
  · rw [linked_tracked]
    by_cases hkt : k = target
    · subst hkt
      simpa [Function.comp_def] using hk
    · simpa [hkt] using hk
  · exact (UowState.updateTracked_frame _ target _).2.1
  · exact (UowState.updateTracked_frame _ target _).2.2.1
  · rw [linked_heap]
    by_cases hkt : k = target
    · subst hkt
      have hname : name ≠ fk := fun hname => hk ⟨htarget, hname⟩
      simp [UowState.setColumns, hname]
    · simp [UowState.setColumns, hkt]
  · rw [linked_heap]
    by_cases hkt : k = target
    · subst hkt
      simp [UowState.setColumns]
    · simp [UowState.setColumns, hkt]

include hexecutor hschema

/-- Writing a foreign key sets that of its target, and of no other. -/
theorem TargetAt.writeForeignKey (hapart : Apart env w) {t : Key} {x : Value} {removed : Bool}
    (ht : TargetAt env fk t x removed w) (htarget : (w.uow.tracked target).isSome)
    (h : exec (writeForeignKey env target fk
      ((w.uow.heap target).columns (env.classOf target).primaryKey) value value) w = (.ok (), w')) :
    TargetAt env fk t (if t = target then value else x) removed w' := by
  obtain ⟨result, db, hexecute, rfl⟩ := writeForeignKey_ok h
  rw [hexecutor] at hexecute
  obtain ⟨hfk, hrows⟩ := updateColumn_writes (hschema target) hexecute
  obtain ⟨row, hrow, hvalue⟩ := ht.row
  by_cases heq : t = target
  · subst heq
    rw [if_pos rfl]
    refine ⟨?_, ⟨Function.update row fk value, ?_, by simpa using .refl value⟩, ?_⟩
    · rw [linked_heap]
      simpa [UowState.setColumns] using .refl value
    · rw [storedRow, linked_heap]
      have hpk : Function.update (w.uow.heap t).columns fk value (env.classOf t).primaryKey =
          (w.uow.heap t).columns (env.classOf t).primaryKey := Function.update_of_ne hfk.symm _ _
      simp only [UowState.setColumns, Function.update_self, hpk]
      show db.rows _ _ = _
      rw [hrows, setRow_self, show w.db.rows _ _ = some row from hrow, Option.map_some]
    · rw [linked_tracked, if_pos rfl, ← ht.status, Option.map_map]
      rfl
  · rw [if_neg heq]
    have hsome : (w.uow.tracked t).isSome := by
      have hstatus := ht.status
      cases htracked : w.uow.tracked t with
      | none => simp [htracked] at hstatus
      | some tracked => rfl
    have hheap : (linked env target fk value db w).uow.heap t = w.uow.heap t := by
      rw [linked_heap]
      exact Function.update_of_ne heq _ _
    refine ⟨by rw [hheap]; exact ht.object, ⟨row, ?_, hvalue⟩, ?_⟩
    · rw [storedRow, hheap]
      show db.rows _ _ = _
      rw [hrows, setRow_of_ne, ← hrow]
      · rfl
      · rintro ⟨htable, hpk⟩
        exact heq (hapart t target hsome htarget htable hpk)
    · rw [linked_tracked, if_neg heq, ht.status]

end Write

theorem remove_kept {target : Key}
    (h : exec (Session.remove target) w = (.ok (), w')) : ProcessKept targets fk w w' := by
  cases h
  refine ⟨fun k => UowState.isSome_updateTracked _ _ _ _, fun k hk => ?_, ?_, ?_,
    fun k name _ => ?_, fun k => ?_⟩
  · show ((w.uow.updateTracked target _).tracked k).map _ ≠ _
    rw [UowState.updateTracked_tracked]
    by_cases hkt : k = target
    · simp [hkt]
    · simpa [hkt] using hk
  · exact (UowState.updateTracked_frame _ target _).2.1
  · exact (UowState.updateTracked_frame _ target _).2.2.1
  · exact congrArg (fun heap => (heap k).columns name) (w.uow.updateTracked_frame target _).1
  · exact congrArg (fun heap => (heap k).runtime) (w.uow.updateTracked_frame target _).1

theorem TargetAt.remove {target t : Key} {x : Value} {removed : Bool}
    (ht : TargetAt env fk t x removed w) (h : exec (Session.remove target) w = (.ok (), w')) :
    TargetAt env fk t x (removed || t == target) w' := by
  cases h
  have hheap := (w.uow.updateTracked_frame target
    fun tracked => { tracked with status := .removed }).1
  refine ⟨?_, ?_, ?_⟩
  · exact (congrArg (fun heap => ((heap t).columns fk).Same x) hheap) ▸ ht.object
  · obtain ⟨row, hrow, hvalue⟩ := ht.row
    refine ⟨row, ?_, hvalue⟩
    rw [← hrow, storedRow, storedRow]
    exact congrArg (fun heap : Key → Entity Members => w.db.rows (env.classOf t).table
      ((heap t).columns (env.classOf t).primaryKey)) hheap
  · show ((w.uow.updateTracked target _).tracked t).map _ = _
    rw [UowState.updateTracked_tracked]
    by_cases heq : t = target
    · subst heq
      have hstatus := ht.status
      cases htracked : w.uow.tracked t with
      | none => simp [htracked] at hstatus
      | some tracked => simp
    · rw [if_neg heq, ht.status]
      simp [heq]

/-! ## The loops of one root -/

section Loops

variable (hexecutor : env.executor.execute = engine.execute)
  (hschema : ∀ k, engine.primaryKeyOf (env.classOf k).table = (env.classOf k).primaryKey)
  {r : HasTargets} (hfk : ∀ t ∈ targets, r.targetForeignKey.column ≠ (env.classOf t).primaryKey)

include hexecutor hschema hfk

/-- The loop over the added targets gives each of them the key of the root. -/
theorem addedLoop {link : Key → SessionM engine.Db Members Unit} {key : Value}
    (hlink : ∀ t u u', exec (link t) u = (.ok (), u') → LinkRuns env r key t u u')
    (hkey : r.targetForeignKey.fromValue key = some key) {added : List Key}
    (hadded : ∀ t ∈ added, t ∈ targets) (htracked : ∀ t ∈ targets, (w.uow.tracked t).isSome)
    (hapart : Apart env w) (h : exec (added.forM link) w = (.ok (), w')) :
    ProcessKept targets r.targetForeignKey.column w w' ∧
    ∀ t x removed, TargetAt env r.targetForeignKey.column t x removed w →
      TargetAt env r.targetForeignKey.column t (if t ∈ added then key else x) removed w' := by
  induction added generalizing w with
  | nil =>
    cases h
    exact ⟨.refl _, fun t x removed ht => by simpa using ht⟩
  | cons target added ih =>
    obtain ⟨u, hstep, hrest⟩ := exec_forM_cons h
    obtain ⟨_, member, hmember, hwrite⟩ := hlink target w u hstep
    rw [hkey] at hmember
    cases hmember
    have htarget := hadded target List.mem_cons_self
    have hkept := writeForeignKey_kept htarget hwrite
    obtain ⟨hkept', hat⟩ := ih (fun t ht => hadded t (List.mem_cons_of_mem target ht))
      (fun t ht => by rw [hkept.tracked]; exact htracked t ht) (hkept.apart hfk hapart) hrest
    refine ⟨hkept.trans hkept', fun t x removed ht => ?_⟩
    have hfirst := ht.writeForeignKey hexecutor hschema hapart (htracked target htarget) hwrite
    have hrest := hat t _ removed hfirst
    by_cases hmem : t ∈ added
    · simpa [hmem] using hrest
    · simpa [hmem] using hrest

/-- The loop over the removed targets clears their foreign keys, or schedules them for
    deletion. -/
theorem removedLoop {kind : String} {gone : List Key} (hgone : ∀ t ∈ gone, t ∈ targets)
    (htracked : ∀ t ∈ targets, (w.uow.tracked t).isSome) (hapart : Apart env w)
    (h : exec (gone.forM (detachTarget env r kind)) w = (.ok (), w')) :
    ProcessKept targets r.targetForeignKey.column w w' ∧
    ∀ t x removed, TargetAt env r.targetForeignKey.column t x removed w →
      TargetAt env r.targetForeignKey.column t
        (if r.cascade.cascadesRemove = false ∧ t ∈ gone then .null else x)
        (removed || (r.cascade.cascadesRemove && decide (t ∈ gone))) w' := by
  induction gone generalizing w with
  | nil =>
    cases h
    exact ⟨.refl _, fun t x removed ht => by simpa using ht⟩
  | cons target gone ih =>
    obtain ⟨u, hstep, hrest⟩ := exec_forM_cons h
    have htarget := hgone target List.mem_cons_self
    have hrest' : ProcessKept targets r.targetForeignKey.column w u → _ := fun hkept =>
      ih (fun t ht => hgone t (List.mem_cons_of_mem target ht))
        (fun t ht => by rw [hkept.tracked]; exact htracked t ht) (hkept.apart hfk hapart) hrest
    rcases detachTarget_ok hstep with ⟨hcascade, hremove⟩ | ⟨hcascade, _, hwrite⟩
    · have hkept : ProcessKept targets r.targetForeignKey.column w u := remove_kept hremove
      obtain ⟨hkept', hat⟩ := hrest' hkept
      refine ⟨hkept.trans hkept', fun t x removed ht => ?_⟩
      have hall := hat t _ _ (ht.remove hremove)
      by_cases heq : t = target
      · simpa [hcascade, heq] using hall
      · have hbeq : (t == target) = false := beq_eq_false_iff_ne.mpr heq
        simpa [hcascade, heq, hbeq] using hall
    · have hkept := writeForeignKey_kept htarget hwrite
      obtain ⟨hkept', hat⟩ := hrest' hkept
      refine ⟨hkept.trans hkept', fun t x removed ht => ?_⟩
      have hall := hat t _ _
        (ht.writeForeignKey hexecutor hschema hapart (htracked target htarget) hwrite)
      by_cases hmem : t ∈ gone
      · simpa [hcascade, hmem] using hall
      · simpa [hcascade, hmem] using hall

end Loops

end Process

/-! ## Relations without changes -/

/-- A relation member that has not changed since it was loaded or accepted. -/
def Relation.Unchanged (m : Members) : Relation → Prop
  | .belongsTo ⟨index, _, _, _⟩ | .hasOne ⟨index, _, _, _⟩ | .morphOne ⟨index, _, _, _, _, _⟩
  | .morphTo ⟨index, _, _, _, _⟩ => (m.references index).current = (m.references index).baseline
  | .hasMany ⟨index, _, _, _⟩ | .morphMany ⟨index, _, _, _, _, _⟩ =>
    (m.collections index).items = (m.collections index).baseline
  | .manyToMany r =>
    (m.collections r.index).items = (m.collections r.index).baseline ∧
    ∀ target, m.pivotPatches r.index target = none

theorem Collection.added_of_eq {c : Collection} (h : c.items = c.baseline) : c.added = [] := by
  simp [Collection.added, h]

theorem Collection.removed_of_eq {c : Collection} (h : c.items = c.baseline) : c.removed = [] := by
  simp [Collection.removed, h]

theorem Reference.dirty_of_eq {reference : Reference} (h : reference.current = reference.baseline) :
    reference.dirty = false := by simp [Reference.dirty, h]

theorem withoutEquivalent_self {D : Type} (env : Env D Members) (r : ManyToMany)
    (s : UowState Members) (m : Members) (values : List Key) :
    withoutEquivalent env r s m values values = [] := by
  refine List.filter_eq_nil_iff.mpr fun value hvalue => ?_
  have hany : (values.any fun candidate => sameEntity env r s m candidate value) = true :=
    List.any_eq_true.mpr ⟨value, hvalue, by simp [sameEntity]⟩
  simp [hany]

/-- A relation without changes is flushed without a trace. -/
theorem flushRelation_unchanged {D : Type} (env : Env D Members) (root : Key)
    {relation : Relation} {w : World D Members}
    (h : relation.Unchanged (w.uow.heap root).runtime) :
    exec (flushRelation env root relation) w = (.ok (), w) := by
  cases relation with
  | belongsTo r =>
    have hclean := Reference.dirty_of_eq h
    show exec (flushBelongsTo env r root) w = _
    unfold flushBelongsTo
    rw [exec_bind_ok (by rfl)]
    simp only [hclean]
    rfl
  | hasOne r =>
    have hclean := Reference.dirty_of_eq h
    show exec (flushHasOne env r root) w = _
    unfold flushHasOne
    rw [exec_bind_ok (by rfl)]
    simp only [hclean]
    rfl
  | hasMany r =>
    have hadded := Collection.added_of_eq h
    have hremoved := Collection.removed_of_eq h
    show exec (flushHasMany env r root) w = _
    unfold flushHasMany
    rw [exec_bind_ok (by rfl)]
    simp only [hadded, hremoved]
    rw [exec_bind_ok (by rfl)]
    simp [throwIf]
  | manyToMany r =>
    obtain ⟨hitems, hpatches⟩ := h
    have hadded := withoutEquivalent_self env r w.uow (w.uow.heap root).runtime
      ((w.uow.heap root).runtime.collections r.index).baseline
    have hupdates : pivotUpdates env r w.uow (w.uow.heap root).runtime = [] := by
      simp [pivotUpdates, hpatches]
    show exec (flushManyToMany env r root) w = _
    unfold flushManyToMany
    rw [exec_bind_ok (by rfl), exec_bind_ok (by rfl), exec_bind_ok (exec_get w),
      exec_bind_ok (exec_get w)]
    simp only [hitems, hadded, List.isEmpty_nil, Bool.not_true, Bool.or_self, Bool.and_false]
    rw [exec_bind_ok (by rfl), exec_bind_ok (by rfl), exec_bind_ok (exec_get w),
      hupdates]
    rw [exec_bind_ok (by rfl), exec_bind_ok (exec_get w), hadded]
    rfl
  | morphOne r =>
    have hclean := Reference.dirty_of_eq h
    show exec (flushMorphOne env r root) w = _
    unfold flushMorphOne
    rw [exec_bind_ok (by rfl), exec_bind_ok (by rfl)]
    simp only [Reference.added_of_clean hclean, Reference.removed_of_clean hclean]
    rfl
  | morphMany r =>
    show exec (flushMorphMany env r root) w = _
    unfold flushMorphMany
    rw [exec_bind_ok (by rfl), exec_bind_ok (by rfl)]
    simp only [Collection.added_of_eq h, Collection.removed_of_eq h]
    simp [throwIf]
  | morphTo r =>
    have hclean := Reference.dirty_of_eq h
    show exec (flushMorphTo env r root) w = _
    unfold flushMorphTo
    rw [exec_bind_ok (by rfl)]
    simp only [hclean]
    rfl

end MetalOrm.Native
