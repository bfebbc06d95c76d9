import MetalOrm.Spec.FlushSnapshot
import MetalOrm.Spec.QuietFlush

/-!
# After a flush every object is its row

A unit of work whose entities are new, or managed with the row that their snapshot
says (`Live`), and whose table hooks only observe. After a flush each of its
entities is managed, and the object, its snapshot and its row agree.

## Key results

- `Live.flush`: the flush establishes `Mirrored`
- `Mirrored.stored`, `Mirrored.apart`: what that says about the rows
-/

namespace MetalOrm.Native

open ForStd ForStd.Prog Session

variable {R : Type} {engine : Engine}

section Definitions

variable (env : Env engine.Db R)

/-- A snapshot has the primary key that its object has now. -/
def PkRecorded (w : World engine.Db R) (k : Key) (original : Snapshot) : Prop :=
  original.lookup (env.classOf k).primaryKey =
    some ((w.uow.heap k).columns (env.classOf k).primaryKey)

/-- A snapshot has the columns that its object has now. -/
def Mirrors (w : World engine.Db R) (k : Key) (original : Snapshot) : Prop :=
  ∀ name ∈ (env.classOf k).columns,
    ∃ value, original.lookup name = some value ∧ value.Same ((w.uow.heap k).columns name)

/-- Every entity is new, or managed as the row that its snapshot says. -/
structure Live (w : World engine.Db R) : Prop where
  synced : Synced env w
  recorded : ∀ k original, w.uow.tracked k = some ⟨.managed, original⟩ →
    PkRecorded env w k original
  status : ∀ k tracked, w.uow.tracked k = some tracked →
    tracked.status = .new ∨ tracked.status = .managed

/-- The entity is managed, and its snapshot is what the object holds. -/
def Mirrored (w : World engine.Db R) (k : Key) : Prop :=
  ∃ original, w.uow.tracked k = some ⟨.managed, original⟩ ∧ PkRecorded env w k original ∧
    Mirrors env w k original

/-- No two tracked objects have one primary key of one table. -/
def Apart (w : World engine.Db R) : Prop :=
  ∀ k₁ k₂, (w.uow.tracked k₁).isSome → (w.uow.tracked k₂).isSome →
    (env.classOf k₁).table = (env.classOf k₂).table →
    (w.uow.heap k₁).columns (env.classOf k₁).primaryKey =
      (w.uow.heap k₂).columns (env.classOf k₂).primaryKey → k₁ = k₂

end Definitions

variable {env : Env engine.Db R} {w w' : World engine.Db R}

theorem Live.congr {v : World engine.Db R} (h : Live env w) (huow : v.uow = w.uow)
    (hdb : v.db = w.db) : Live env v where
  synced := h.synced.congr (by rw [huow]) (by rw [hdb])
  recorded k original hk := by
    unfold PkRecorded
    rw [huow] at hk ⊢
    exact h.recorded k original hk
  status := huow ▸ h.status

/-- A mirrored object is its row. -/
theorem Mirrored.stored {k : Key} (hsynced : Synced env w) (h : Mirrored env w k) :
    ∃ row, storedRow env k w = some row ∧
      ∀ name ∈ (env.classOf k).columns, ((w.uow.heap k).columns name).Same (row name) := by
  obtain ⟨original, hmanaged, hpk, hmirrors⟩ := h
  obtain ⟨pk, row, hpk', hrow, hsame⟩ := hsynced.recorded k original hmanaged
  rw [hpk] at hpk'
  cases hpk'
  refine ⟨row, hrow, fun name hname => ?_⟩
  obtain ⟨value, hvalue, hobject⟩ := hmirrors name hname
  obtain ⟨value', hvalue', hstored⟩ := hsame name hname
  rw [hvalue] at hvalue'
  cases hvalue'
  exact hobject.symm.trans hstored

theorem Mirrored.apart (hsynced : Synced env w)
    (h : ∀ k, (w.uow.tracked k).isSome → Mirrored env w k) : Apart env w := by
  intro k₁ k₂ h₁ h₂ htable hpk
  obtain ⟨o₁, hmanaged₁, hpk₁, _⟩ := h k₁ h₁
  obtain ⟨o₂, hmanaged₂, hpk₂, _⟩ := h k₂ h₂
  exact hsynced.distinct k₁ k₂ o₁ o₂ hmanaged₁ hmanaged₂ ⟨htable, by rw [hpk₁, hpk₂, hpk]⟩

theorem Observes.assignsOnly {p : SessionM engine.Db R Unit} (h : Observes p) : AssignsOnly p :=
  fun w => ⟨(h w).2, w.uow.heap, (h w).1⟩

theorem OwnStep.mirrored {k j : Key} (hown : OwnStep env k w w') (hj : j ≠ k) :
    Mirrored env w' j ↔ Mirrored env w j := by
  unfold Mirrored PkRecorded Mirrors
  rw [hown.tracked j hj, hown.heap j hj]

section Flush

variable (hexecutor : env.executor.execute = engine.execute)
  (hschema : ∀ k, engine.primaryKeyOf (env.classOf k).table = (env.classOf k).primaryKey)
  (hquiet : ∀ phase k, Observes (env.runTableHook phase k))

/-- The snapshot of a managed entity after its step is one that was just taken, or
    one that the step found unchanged. -/
theorem flushKey_entry (hquiet : ∀ phase k, Observes (env.runTableHook phase k)) {k : Key}
    {tracked : TrackedEntity} (htracked : w.uow.tracked k = some tracked)
    (hstatus : tracked.status = .new ∨ tracked.status = .managed)
    (h : exec (flushKey env k) w = (.ok (), w')) :
    ∃ original, w'.uow.tracked k = some ⟨.managed, original⟩ ∧
      (original = w'.uow.snapshot env.classOf k ∨
        (w.uow.tracked k = some ⟨.managed, original⟩ ∧ w'.uow.heap k = w.uow.heap k ∧
          changedColumns (env.classOf k) (w.uow.snapshot env.classOf k) original = [])) := by
  unfold flushKey at h
  rw [exec_bind_ok (exec_get w), htracked] at h
  obtain ⟨status, original⟩ := tracked
  rcases hstatus with hstatus | hstatus
  · cases hstatus
    obtain ⟨v, result, db, identity, columns, hbefore, _, _, hafter⟩ := flushInsert_ok h
    obtain ⟨huow, _⟩ := (hquiet _ _).of_ok hbefore
    obtain ⟨huow', _⟩ := (hquiet _ _).of_ok hafter
    have hentry : w'.uow.tracked k = some ⟨.managed, (env.classOf k).snapshotOf columns⟩ := by
      rw [huow', UowState.updateTracked_tracked, if_pos rfl, huow]
      exact congrArg _ htracked
    have hcolumns : (w'.uow.heap k).columns = columns := by
      rw [huow', (UowState.updateTracked_frame _ _ _).1]
      simp [UowState.setColumns]
    exact ⟨_, hentry, .inl (by rw [UowState.snapshot, hcolumns])⟩
  · cases hstatus
    rcases flushUpdateIfDirty_ok h with ⟨hclean, rfl⟩ | ⟨v, result, db, _, hbefore, _, hafter⟩
    · exact ⟨original, htracked, .inr ⟨htracked, rfl, hclean⟩⟩
    · obtain ⟨huow, _⟩ := (hquiet _ _).of_ok hbefore
      obtain ⟨huow', _⟩ := (hquiet _ _).of_ok hafter
      refine ⟨w.uow.snapshot env.classOf k, ?_, .inl ?_⟩
      · rw [huow', UowState.refreshSnapshot, UowState.updateTracked_tracked, if_pos rfl, huow,
          htracked]
        rfl
      · rw [huow', UowState.snapshot, UowState.snapshot, UowState.refreshSnapshot,
          (UowState.updateTracked_frame _ _ _).1, huow]

theorem mirrors_snapshot (k : Key) : Mirrors env w k (w.uow.snapshot env.classOf k) :=
  fun name hname => ⟨_, by simp [UowState.snapshot, hname], .refl _⟩

theorem pkRecorded_snapshot (k : Key) : PkRecorded env w k (w.uow.snapshot env.classOf k) := by
  simp [PkRecorded, UowState.snapshot, (env.classOf k).primaryKey_mem]

/-- What `flush_update_if_dirty` finds unchanged is what the object holds. -/
theorem mirrors_of_clean {k : Key} {original : Snapshot} (hpk : PkRecorded env w k original)
    (hclean : changedColumns (env.classOf k) (w.uow.snapshot env.classOf k) original = []) :
    Mirrors env w k original := by
  intro name hname
  by_cases hne : name = (env.classOf k).primaryKey
  · subst hne
    exact ⟨_, hpk, .refl _⟩
  · have hnot : name ∉ changedColumns (env.classOf k) (w.uow.snapshot env.classOf k) original := by
      rw [hclean]
      exact List.not_mem_nil
    have hany : (original.lookup name).any (·.eq ((w.uow.heap k).columns name)) = true := by
      simpa [UowState.snapshot, mem_changedColumns, hname, hne] using hnot
    cases hlookup : original.lookup name with
    | none => simp [hlookup] at hany
    | some value => exact ⟨value, rfl, .inr (by simpa [hlookup] using hany)⟩

include hexecutor hschema hquiet

/-- The step of an entity leaves it mirrored, and the unit of work live. -/
theorem Live.flushKey (h : Live env w) {k : Key} (hstep : exec (flushKey env k) w = (.ok (), w')) :
    Live env w' ∧ ((w.uow.tracked k).isSome → Mirrored env w' k) := by
  have hown := flushKey_own hexecutor hschema hquiet hstep
  have hassigns : ∀ phase j, AssignsOnly (env.runTableHook phase j) :=
    fun phase j => (hquiet phase j).assignsOnly
  have hok : FlushOk env k w := by
    refine ⟨fun original v hmanaged _ hhook => ?_, fun original v _ _ hhook name _ _ => ?_,
      fun original v hremoved => ?_⟩
    · rw [((hquiet _ _).of_ok hhook).1]
      exact h.recorded k original hmanaged
    · rw [((hquiet _ _).of_ok hhook).1]
      exact .refl _
    · rcases h.status k _ hremoved with hstatus | hstatus <;> cases hstatus
  have hsynced : Synced env w' := h.synced.effect hschema hassigns hok
    (flushKey_effect hexecutor hschema hassigns hstep)
  cases htracked : w.uow.tracked k with
  | none =>
    have hsame : w' = w := by
      unfold Session.flushKey at hstep
      rw [exec_bind_ok (exec_get w), htracked] at hstep
      cases hstep
      rfl
    exact ⟨hsame ▸ h, fun hsome => by cases hsome⟩
  | some tracked =>
    obtain ⟨original, hentry, hkind⟩ := flushKey_entry hquiet htracked (h.status k _ htracked) hstep
    have hmirrored : PkRecorded env w' k original ∧ Mirrors env w' k original := by
      rcases hkind with rfl | ⟨hmanaged, hheap, hclean⟩
      · exact ⟨pkRecorded_snapshot k, mirrors_snapshot k⟩
      · have hpk := h.recorded k original hmanaged
        have hmirrors := mirrors_of_clean hpk hclean
        unfold PkRecorded Mirrors
        rw [hheap]
        exact ⟨hpk, hmirrors⟩
    refine ⟨⟨hsynced, fun j o hj => ?_, fun j t hj => ?_⟩,
      fun _ => ⟨original, hentry, hmirrored⟩⟩
    · by_cases hjk : j = k
      · subst hjk
        rw [hentry] at hj
        cases hj
        exact hmirrored.1
      · rw [hown.tracked j hjk] at hj
        unfold PkRecorded
        rw [hown.heap j hjk]
        exact h.recorded j o hj
    · by_cases hjk : j = k
      · subst hjk
        rw [hentry] at hj
        cases hj
        exact .inr rfl
      · rw [hown.tracked j hjk] at hj
        exact h.status j t hj

/-- What flushing the entities `keys` establishes, and what it leaves alone. -/
structure LiveFlush (env : Env engine.Db R) (keys : List Key) (w w' : World engine.Db R) :
    Prop where
  live : Live env w'
  mirrored : ∀ k ∈ keys, (w.uow.tracked k).isSome → Mirrored env w' k
  tracked : ∀ k, (w'.uow.tracked k).isSome = (w.uow.tracked k).isSome
  order : w'.uow.trackedOrder = w.uow.trackedOrder
  columns : ∀ k name, name ≠ (env.classOf k).primaryKey →
    (w'.uow.heap k).columns name = (w.uow.heap k).columns name
  runtime : ∀ k, (w'.uow.heap k).runtime = (w.uow.heap k).runtime
  kept : ∀ k, (w.uow.tracked k).map (·.status) ≠ some .new → w'.uow.heap k = w.uow.heap k
  others : ∀ k, k ∉ keys → w'.uow.heap k = w.uow.heap k ∧ w'.uow.tracked k = w.uow.tracked k

theorem Live.flushKeys {keys : List Key} (hnodup : keys.Nodup) (h : Live env w)
    (hloop : exec (keys.forM (Session.flushKey env)) w = (.ok (), w')) :
    LiveFlush env keys w w' := by
  induction keys generalizing w with
  | nil =>
    cases hloop
    exact ⟨h, by simp, fun _ => rfl, rfl, fun _ _ _ => rfl, fun _ => rfl, fun _ _ => rfl,
      fun _ _ => ⟨rfl, rfl⟩⟩
  | cons k keys ih =>
    obtain ⟨hk, hnodup⟩ := List.nodup_cons.mp hnodup
    obtain ⟨u, hstep, hrest⟩ := exec_forM_cons hloop
    have hown := flushKey_own hexecutor hschema hquiet hstep
    obtain ⟨hlive, hmirrored⟩ := h.flushKey hexecutor hschema hquiet hstep
    have hflush := ih hnodup hlive hrest
    obtain ⟨hheapk, htrackedk⟩ := hflush.others k hk
    -- the entity stays tracked at its own step, and is not new after it
    have hkey : (u.uow.tracked k).isSome = (w.uow.tracked k).isSome ∧
        ((w.uow.tracked k).map (·.status) ≠ some .new →
          (u.uow.tracked k).map (·.status) ≠ some .new) := by
      cases htracked : w.uow.tracked k with
      | none =>
        unfold Session.flushKey at hstep
        rw [exec_bind_ok (exec_get w), htracked] at hstep
        cases hstep
        simp [htracked]
      | some tracked =>
        obtain ⟨original, hmanaged, _⟩ := hmirrored (by simp [htracked])
        simp [hmanaged]
    have hstatus : (w.uow.tracked k).map (·.status) ≠ some .removed := by
      intro hremoved
      obtain ⟨t, ht, hs⟩ := Option.map_eq_some_iff.mp hremoved
      rcases h.status k t ht with h' | h' <;> rw [h'] at hs <;> cases hs
    exact {
      live := hflush.live
      mirrored := fun j hj hsome => by
        rcases List.mem_cons.mp hj with rfl | hj
        · unfold Mirrored PkRecorded Mirrors
          rw [hheapk, htrackedk]
          exact hmirrored hsome
        · have hne : j ≠ k := fun heq => hk (heq ▸ hj)
          exact hflush.mirrored j hj (by rw [hown.tracked j hne]; exact hsome)
      tracked := fun j => by
        rw [hflush.tracked j]
        by_cases hjk : j = k
        · rw [hjk, hkey.1]
        · rw [hown.tracked j hjk]
      order := hflush.order.trans (hown.order hstatus)
      columns := fun j name hname => by
        rw [hflush.columns j name hname]
        by_cases hjk : j = k
        · subst hjk
          exact hown.columns name hname
        · rw [hown.heap j hjk]
      runtime := fun j => by
        rw [hflush.runtime j]
        by_cases hjk : j = k
        · subst hjk
          exact hown.runtime
        · rw [hown.heap j hjk]
      kept := fun j hj => by
        by_cases hjk : j = k
        · subst hjk
          rw [hheapk, hown.kept hj]
        · rw [hflush.kept j (by rwa [hown.tracked j hjk]), hown.heap j hjk]
      others := fun j hj => by
        obtain ⟨hne, hj⟩ := List.ne_and_not_mem_of_not_mem_cons hj
        exact ⟨(hflush.others j hj).1.trans (hown.heap j hne),
          (hflush.others j hj).2.trans (hown.tracked j hne)⟩ }

/-- After a flush every tracked object is its row. -/
theorem Live.flush (hinv : w.uow.Inv) (h : Live env w)
    (hflush : exec (Session.flush env) w = (.ok (), w')) :
    LiveFlush env w.uow.keys w w' ∧ ∀ k, (w'.uow.tracked k).isSome → Mirrored env w' k := by
  have hloop := h.flushKeys hexecutor hschema hquiet (hinv.order_nodup.filter _)
    (show exec (w.uow.keys.forM _) w = (.ok (), w') from hflush)
  refine ⟨hloop, fun k hk => ?_⟩
  have hsome : (w.uow.tracked k).isSome := by rw [← hloop.tracked k]; exact hk
  exact hloop.mirrored k (List.mem_filter.mpr ⟨(hinv.mem_order k).mpr hsome, hsome⟩) hsome

end Flush

end MetalOrm.Native
