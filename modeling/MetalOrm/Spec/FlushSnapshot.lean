import MetalOrm.Native.RelationChange
import MetalOrm.Spec.CheckpointRestore
import MetalOrm.Spec.FlushWrites

/-!
# What a flush records

After a flush the `original` snapshot of a managed entity should be the row that
the database stores for it. The code records the columns as they are after the
`before_update` hook, but writes those it had read before it: the snapshot is right
exactly when that hook leaves the columns of its object alone.

## Key results

- `flushKey_effect`: everything that flushing one entity can do
- `flush_synced`, `synced_flush`: when a flush records what the database stores
- `Synced.dirty`: what differs from the database is then seen by the next flush
-/

namespace MetalOrm.Native

open ForStd ForStd.Prog Session

/-! ## Snapshots and rows -/

namespace Value

/-- Two values that the runtime does not tell apart. -/
def Same (a b : Value) : Prop := a = b ∨ a.eq b = true

instance (a b : Value) : Decidable (Same a b) :=
  inferInstanceAs (Decidable (a = b ∨ a.eq b = true))

theorem Same.refl (a : Value) : Same a a := .inl rfl

/-- Beyond equal values only the two zeros are told to be equal. -/
theorem same_iff {a b : Value} :
    Same a b ↔ a = b ∨ ∃ x y, a = .double x ∧ b = .double y ∧ x <<< 1 = 0 ∧ y <<< 1 = 0 := by
  unfold Same Value.eq
  constructor
  · rintro (rfl | h)
    · exact .inl rfl
    · split at h
      · rename_i x y
        simp only [Bool.and_eq_true, Bool.or_eq_true, beq_iff_eq] at h
        rcases h.2 with rfl | ⟨hx, hy⟩
        · exact .inl rfl
        · exact .inr ⟨x, y, rfl, rfl, hx, hy⟩
      · exact .inl (of_decide_eq_true h)
  · rintro (rfl | ⟨x, y, rfl, rfl, hx, hy⟩)
    · exact .inl rfl
    · exact .inr (by simp [isNaN, hx, hy])

@[simp] theorem same_null {a : Value} : Same a .null ↔ a = .null := by simp [same_iff]

theorem Same.symm {a b : Value} (h : Same a b) : Same b a := by
  rw [same_iff] at h ⊢
  rcases h with rfl | ⟨x, y, ha, hb, hx, hy⟩
  · exact .inl rfl
  · exact .inr ⟨y, x, hb, ha, hy, hx⟩

theorem Same.trans {a b c : Value} (hab : Same a b) (hbc : Same b c) : Same a c := by
  rw [same_iff] at hab hbc ⊢
  rcases hab with rfl | ⟨x, y, ha, hb, hx, _⟩
  · exact hbc
  · rcases hbc with rfl | ⟨_, z, _, hc, _, hz⟩
    · exact .inr ⟨x, y, ha, hb, hx, by assumption⟩
    · exact .inr ⟨x, z, ha, hc, hx, hz⟩

end Value

section Flush

variable {R : Type} {engine : Engine} (env : Env engine.Db R)

/-- A snapshot is what the database stores for an object: every column of it is in
    the row of its primary key. -/
def Recorded (db : engine.Db) (key : Key) (original : Snapshot) : Prop :=
  ∃ pk row, original.lookup (env.classOf key).primaryKey = some pk ∧
    db.rows (env.classOf key).table pk = some row ∧
    ∀ name ∈ (env.classOf key).columns,
      ∃ value, original.lookup name = some value ∧ value.Same (row name)

/-- Two snapshots of objects name the same row. -/
def SameRow (k₁ k₂ : Key) (o₁ o₂ : Snapshot) : Prop :=
  (env.classOf k₁).table = (env.classOf k₂).table ∧
  o₁.lookup (env.classOf k₁).primaryKey = o₂.lookup (env.classOf k₂).primaryKey

/-- The snapshots of the managed entities are rows of the database, each another one. -/
structure Synced (w : World engine.Db R) : Prop where
  recorded : ∀ key original, w.uow.tracked key = some ⟨.managed, original⟩ →
    Recorded env w.db key original
  distinct : ∀ k₁ k₂ o₁ o₂, w.uow.tracked k₁ = some ⟨.managed, o₁⟩ →
    w.uow.tracked k₂ = some ⟨.managed, o₂⟩ → SameRow env k₁ k₂ o₁ o₂ → k₁ = k₂

/-- A hook that assigns to objects, and does nothing else. -/
def AssignsOnly (p : SessionM engine.Db R Unit) : Prop :=
  ∀ w, (exec p w).2.db = w.db ∧
    ∃ heap, (exec p w).2.uow = { w.uow with heap := heap }

/-- A statement selects no row of a managed entity. -/
def Spares (statement : Statement) (w : World engine.Db R) : Prop :=
  ∀ key original pk row, w.uow.tracked key = some ⟨.managed, original⟩ →
    statement.table = (env.classOf key).table →
    original.lookup (env.classOf key).primaryKey = some pk →
    w.db.rows (env.classOf key).table pk = some row → statement.selects row = false

/-- The `DELETE` of an object. -/
def deleteStatement (key : Key) (w : World engine.Db R) : Statement :=
  .delete (env.classOf key).table [((env.classOf key).primaryKey,
    (w.uow.heap key).columns (env.classOf key).primaryKey)]

/-- Whether `flush_update_if_dirty` finds the entity changed. -/
def Dirty (key : Key) (original : Snapshot) (w : World engine.Db R) : Prop :=
  changedColumns (env.classOf key) (w.uow.snapshot env.classOf key) original ≠ []

/-! ### What flushing one entity can do -/

/-- Everything that flushing one entity can do to the entries and to the rows. -/
inductive FlushEffect (key : Key) (w w' : World engine.Db R) : Prop where
  /-- Nothing: the entity is not tracked, detached, or managed and clean. -/
  | idle (tracked : w'.uow.tracked = w.uow.tracked) (rows : w'.db.rows = w.db.rows)
      (clean : ∀ original, w.uow.tracked key = some ⟨.managed, original⟩ →
        ¬Dirty env key original w)
      (kept : ∀ original, w.uow.tracked key ≠ some ⟨.removed, original⟩)
  | insert (original : Snapshot) (columns row : Name → Value)
      (new : w.uow.tracked key = some ⟨.new, original⟩)
      (fresh : w.db.rows (env.classOf key).table (columns (env.classOf key).primaryKey) = none)
      (rows : w'.db.rows = setRow w.db.rows (env.classOf key).table
        (columns (env.classOf key).primaryKey) (some row))
      (stored : ∀ name ∈ (env.classOf key).columns, row name = columns name)
      (tracked : w'.uow.tracked = Function.update w.uow.tracked key
        (some ⟨.managed, (env.classOf key).snapshotOf columns⟩))
  /-- `v` is the session after the `before_update` hook. -/
  | update (original : Snapshot) (v : World engine.Db R)
      (assign : (Name → Value) → Name → Value)
      (managed : w.uow.tracked key = some ⟨.managed, original⟩)
      (dirty : Dirty env key original w)
      (hook : exec (env.runTableHook .beforeUpdate key) w = (.ok (), v))
      (rows : w'.db.rows = setRow w.db.rows (env.classOf key).table
        ((v.uow.heap key).columns (env.classOf key).primaryKey)
        ((w.db.rows (env.classOf key).table
          ((v.uow.heap key).columns (env.classOf key).primaryKey)).map assign))
      (assigned : ∀ row name, assign row name =
        if name ∈ changedColumns (env.classOf key) (w.uow.snapshot env.classOf key) original
        then (w.uow.heap key).columns name else row name)
      (tracked : w'.uow.tracked = Function.update w.uow.tracked key
        (some ⟨.managed, v.uow.snapshot env.classOf key⟩))
  /-- `v` is the session after the `before_delete` hook. -/
  | delete (original : Snapshot) (v : World engine.Db R)
      (removed : w.uow.tracked key = some ⟨.removed, original⟩)
      (hook : exec (env.runTableHook .beforeDelete key) w = (.ok (), v))
      (rows : w'.db.rows = setRow w.db.rows (env.classOf key).table
        ((v.uow.heap key).columns (env.classOf key).primaryKey) none)
      (tracked : w'.uow.tracked = Function.update w.uow.tracked key none)

variable {env}

theorem AssignsOnly.of_ok {p : SessionM engine.Db R Unit} (h : AssignsOnly p)
    {w w' : World engine.Db R} (hok : exec p w = (.ok (), w')) :
    w'.db = w.db ∧ w'.uow.tracked = w.uow.tracked := by
  obtain ⟨hdb, heap, huow⟩ := h w
  rw [hok] at hdb huow
  exact ⟨hdb, by rw [huow]⟩

variable (hexecutor : env.executor.execute = engine.execute)
  (hschema : ∀ k, engine.primaryKeyOf (env.classOf k).table = (env.classOf k).primaryKey)
  (hhooks : ∀ phase k, AssignsOnly (env.runTableHook phase k))
  {key : Key} {w w' : World engine.Db R}

theorem updateTracked_some {s : UowState R} {t : TrackedEntity} (h : s.tracked key = some t)
    (f : TrackedEntity → TrackedEntity) :
    (s.updateTracked key f).tracked = Function.update s.tracked key (some (f t)) := by
  simp [UowState.updateTracked, h]

include hexecutor hschema hhooks

theorem flushInsert_effect {original : Snapshot}
    (hnew : w.uow.tracked key = some ⟨.new, original⟩)
    (h : exec (flushInsert env key) w = (.ok (), w')) : FlushEffect env key w w' := by
  obtain ⟨v, result, db, identity, columns, hbefore, hexecute, hinserted, hafter⟩ :=
    flushInsert_ok h
  obtain ⟨hdb, htracked⟩ := (hhooks .beforeInsert key).of_ok hbefore
  obtain ⟨hdb', htracked'⟩ := (hhooks .afterInsert key).of_ok hafter
  rw [hexecutor, hdb] at hexecute
  obtain ⟨row, hfresh, hrows, _, hstored, _⟩ :=
    insertStatement_writes (hschema key) hexecute hinserted
  refine .insert original columns row hnew hfresh (hdb' ▸ hrows) hstored ?_
  have hentry : (v.uow.setColumns key columns).tracked key = some ⟨.new, original⟩ := by
    rw [← hnew, ← htracked]
    rfl
  rw [htracked', ← htracked]
  exact updateTracked_some hentry _

theorem flushUpdateIfDirty_effect {original : Snapshot}
    (hmanaged : w.uow.tracked key = some ⟨.managed, original⟩)
    (h : exec (flushUpdateIfDirty env key ⟨.managed, original⟩) w = (.ok (), w')) :
    FlushEffect env key w w' := by
  rcases flushUpdateIfDirty_ok h with ⟨hclean, rfl⟩ |
    ⟨v, result, db, hdirty, hbefore, hexecute, hafter⟩
  · refine .idle rfl rfl (fun o ho hdirty => ?_) fun o ho => ?_
    · rw [hmanaged] at ho
      cases ho
      exact hdirty hclean
    · rw [hmanaged] at ho
      cases ho
  · obtain ⟨hdb, htracked⟩ := (hhooks .beforeUpdate key).of_ok hbefore
    obtain ⟨hdb', htracked'⟩ := (hhooks .afterUpdate key).of_ok hafter
    rw [hexecutor, hdb] at hexecute
    obtain ⟨assign, hrows, hassigned⟩ := updateStatement_writes (hschema key) hexecute
    refine .update original v assign hmanaged hdirty hbefore (hdb' ▸ hrows) hassigned ?_
    have hentry : v.uow.tracked key = some ⟨.managed, original⟩ := by rw [htracked, hmanaged]
    rw [htracked', ← htracked]
    exact updateTracked_some hentry _

theorem flushDelete_effect {original : Snapshot}
    (hremoved : w.uow.tracked key = some ⟨.removed, original⟩)
    (h : exec (flushDelete env key) w = (.ok (), w')) : FlushEffect env key w w' := by
  obtain ⟨v, result, db, identity, hbefore, hexecute, hafter⟩ := flushDelete_ok h
  obtain ⟨hdb, htracked⟩ := (hhooks .beforeDelete key).of_ok hbefore
  obtain ⟨hdb', htracked'⟩ := (hhooks .afterDelete key).of_ok hafter
  rw [hexecutor, hdb] at hexecute
  refine .delete original v hremoved hbefore
    (hdb' ▸ deleteStatement_writes (hschema key) hexecute) ?_
  rw [htracked', ← htracked]
  rfl

theorem flushKey_effect (h : exec (flushKey env key) w = (.ok (), w')) :
    FlushEffect env key w w' := by
  unfold flushKey at h
  rw [exec_bind_ok (exec_get w)] at h
  cases htracked : w.uow.tracked key with
  | none =>
    rw [htracked] at h
    cases h
    exact .idle rfl rfl (fun o ho => by simp [htracked] at ho) fun o ho => by simp [htracked] at ho
  | some tracked =>
    rw [htracked] at h
    obtain ⟨status, original⟩ := tracked
    cases status with
    | new => exact flushInsert_effect hexecutor hschema hhooks htracked h
    | managed => exact flushUpdateIfDirty_effect hexecutor hschema hhooks htracked h
    | removed => exact flushDelete_effect hexecutor hschema hhooks htracked h
    | detached =>
      cases h
      exact .idle rfl rfl (fun o ho => by simp [htracked] at ho)
        fun o ho => by simp [htracked] at ho

omit hexecutor hschema hhooks

/-! ### When a flush records what it wrote -/

section Conditions

variable (env) (key) (w)

/-- An `UPDATE` is addressed to the row that the snapshot was taken from. -/
def KeyKept : Prop :=
  ∀ original v, w.uow.tracked key = some ⟨.managed, original⟩ → Dirty env key original w →
    exec (env.runTableHook .beforeUpdate key) w = (.ok (), v) →
    original.lookup (env.classOf key).primaryKey =
      some ((v.uow.heap key).columns (env.classOf key).primaryKey)

/-- The `before_update` hook leaves the columns of its own object as they were. -/
def ColumnsKept : Prop :=
  ∀ original v, w.uow.tracked key = some ⟨.managed, original⟩ → Dirty env key original w →
    exec (env.runTableHook .beforeUpdate key) w = (.ok (), v) →
    ∀ name ∈ (env.classOf key).columns, name ≠ (env.classOf key).primaryKey →
      ((v.uow.heap key).columns name).Same ((w.uow.heap key).columns name)

/-- A `DELETE` is not addressed to the row of a managed entity. -/
def DeleteSpares : Prop :=
  ∀ original v, w.uow.tracked key = some ⟨.removed, original⟩ →
    exec (env.runTableHook .beforeDelete key) w = (.ok (), v) →
    Spares env (deleteStatement env key v) v

/-- The condition on flushing one entity. -/
structure FlushOk : Prop where
  keyKept : KeyKept env key w
  columnsKept : ColumnsKept env key w
  deleteSpares : DeleteSpares env key w

end Conditions

theorem Recorded.of_rows {db db' : engine.Db} {original : Snapshot}
    (h : Recorded env db key original)
    (hrows : ∀ pk row, original.lookup (env.classOf key).primaryKey = some pk →
      db.rows (env.classOf key).table pk = some row →
      db'.rows (env.classOf key).table pk = some row) : Recorded env db' key original := by
  obtain ⟨pk, row, hpk, hrow, hsame⟩ := h
  exact ⟨pk, row, hpk, hrows pk row hpk hrow, hsame⟩

/-- One entry and some rows change: what is left to show. -/
theorem Synced.replace (h : Synced env w) (key : Key)
    (hothers : ∀ k, k ≠ key → w'.uow.tracked k = w.uow.tracked k)
    (hrows : ∀ k original pk row, k ≠ key → w.uow.tracked k = some ⟨.managed, original⟩ →
      original.lookup (env.classOf k).primaryKey = some pk →
      w.db.rows (env.classOf k).table pk = some row →
      w'.db.rows (env.classOf k).table pk = some row)
    (hself : ∀ original, w'.uow.tracked key = some ⟨.managed, original⟩ →
      Recorded env w'.db key original ∧
      ∀ k o, k ≠ key → w.uow.tracked k = some ⟨.managed, o⟩ → ¬SameRow env k key o original) :
    Synced env w' where
  recorded k original hk := by
    by_cases heq : k = key
    · subst heq
      exact (hself original hk).1
    · rw [hothers k heq] at hk
      exact (h.recorded k original hk).of_rows fun pk row => hrows k original pk row heq hk
  distinct k₁ k₂ o₁ o₂ h₁ h₂ hsame := by
    by_cases heq₁ : k₁ = key <;> by_cases heq₂ : k₂ = key
    · rw [heq₁, heq₂]
    · subst heq₁
      rw [hothers k₂ heq₂] at h₂
      exact absurd ⟨hsame.1.symm, hsame.2.symm⟩ ((hself o₁ h₁).2 k₂ o₂ heq₂ h₂)
    · subst heq₂
      rw [hothers k₁ heq₁] at h₁
      exact absurd hsame ((hself o₂ h₂).2 k₁ o₁ heq₁ h₁)
    · rw [hothers k₁ heq₁] at h₁
      rw [hothers k₂ heq₂] at h₂
      exact h.distinct k₁ k₂ o₁ o₂ h₁ h₂ hsame

theorem Synced.congr (h : Synced env w) (htracked : w'.uow.tracked = w.uow.tracked)
    (hrows : w'.db.rows = w.db.rows) : Synced env w' where
  recorded k original hk :=
    (h.recorded k original (htracked ▸ hk)).of_rows fun _ _ _ hrow => by rwa [hrows]
  distinct k₁ k₂ o₁ o₂ h₁ h₂ hsame :=
    h.distinct k₁ k₂ o₁ o₂ (htracked ▸ h₁) (htracked ▸ h₂) hsame

/-- The row that an `UPDATE` of the changed columns leaves, when the snapshot was the row. -/
theorem assigned_same {original : Snapshot} {row : Name → Value}
    {assign : (Name → Value) → Name → Value}
    (hassigned : ∀ row name, assign row name =
      if name ∈ changedColumns (env.classOf key) (w.uow.snapshot env.classOf key) original
      then (w.uow.heap key).columns name else row name)
    {name : Name} (hname : name ∈ (env.classOf key).columns)
    (hne : name ≠ (env.classOf key).primaryKey)
    (hsame : ∃ value, original.lookup name = some value ∧ value.Same (row name)) :
    ((w.uow.heap key).columns name).Same (assign row name) := by
  rw [hassigned]
  split
  · exact .refl _
  · rename_i hclean
    obtain ⟨value, hvalue, hrow⟩ := hsame
    have heq : value.eq ((w.uow.heap key).columns name) = true := by
      simpa [UowState.snapshot, mem_changedColumns, hname, hne, hvalue] using hclean
    exact Value.Same.trans (.symm (.inr heq)) hrow

theorem Synced.effect (hschema : ∀ k, engine.primaryKeyOf (env.classOf k).table =
    (env.classOf k).primaryKey) (hhooks : ∀ phase k, AssignsOnly (env.runTableHook phase k))
    (h : Synced env w) (hok : FlushOk env key w) (heffect : FlushEffect env key w w') :
    Synced env w' := by
  cases heffect with
  | idle htracked hrows => exact h.congr htracked hrows
  | insert original columns row hnew hfresh hrows hstored htracked =>
    refine h.replace key (fun k hk => by rw [htracked, Function.update_of_ne hk])
      (fun k o pk r hk hmanaged hpk hr => ?_) fun o ho => ?_
    · -- the key was free, so it is not the key of a managed entity
      rw [hrows, setRow_of_ne]
      · exact hr
      · rintro ⟨ht, rfl⟩
        rw [ht, hfresh] at hr
        cases hr
    · rw [htracked, Function.update_self] at ho
      cases ho
      refine ⟨⟨columns (env.classOf key).primaryKey, row, ?_, ?_, fun name hname => ?_⟩,
        fun k o hk hmanaged hsame => ?_⟩
      · simp [(env.classOf key).primaryKey_mem]
      · rw [hrows, setRow_self]
      · exact ⟨columns name, by simp [hname], by rw [hstored name hname]; exact .refl _⟩
      · obtain ⟨pk, r, hpk, hr, _⟩ := h.recorded k o hmanaged
        have heq : some pk = some (columns (env.classOf key).primaryKey) := by
          simpa [(env.classOf key).primaryKey_mem, hpk] using hsame.2
        cases heq
        rw [hsame.1, hfresh] at hr
        cases hr
  | update original v assign hmanaged hdirty hhook hrows hassigned htracked =>
    have hkey := hok.keyKept original v hmanaged hdirty hhook
    have hcolumns := hok.columnsKept original v hmanaged hdirty hhook
    have hsnapshot : (v.uow.snapshot env.classOf key).lookup (env.classOf key).primaryKey =
        original.lookup (env.classOf key).primaryKey := by
      simp [UowState.snapshot, (env.classOf key).primaryKey_mem, hkey]
    refine h.replace key (fun k hk => by rw [htracked, Function.update_of_ne hk])
      (fun k o pk r hk hk' hpk hr => ?_) fun o ho => ?_
    · rw [hrows, setRow_of_ne]
      · exact hr
      · rintro ⟨ht, rfl⟩
        exact hk (h.distinct k key o original hk' hmanaged ⟨ht, by rw [hpk, hkey]⟩)
    · rw [htracked, Function.update_self] at ho
      cases ho
      refine ⟨?_, fun k o hk hk' hsame => ?_⟩
      · obtain ⟨pk, row, hpk, hrow, hsame⟩ := h.recorded key original hmanaged
        have hpkv : pk = (v.uow.heap key).columns (env.classOf key).primaryKey := by
          rw [hpk] at hkey
          exact Option.some.inj hkey
        refine ⟨pk, assign row, by rw [hsnapshot, hpk], ?_, fun name hname =>
          ⟨(v.uow.heap key).columns name, by simp [UowState.snapshot, hname], ?_⟩⟩
        · rw [hrows, ← hpkv, setRow_self, hrow, Option.map_some]
        · by_cases hne : name = (env.classOf key).primaryKey
          · subst hne
            -- the row stays under its key
            have hkeyed := (w'.db.keyed (env.classOf key).table pk (assign row)
              (by rw [hrows, ← hpkv, setRow_self, hrow, Option.map_some])).1
            rw [hschema] at hkeyed
            rw [hkeyed, ← hpkv]
            exact .refl _
          · exact (hcolumns name hname hne).trans
              (assigned_same hassigned hname hne (hsame name hname))
      · exact hk (h.distinct k key o original hk' hmanaged ⟨hsame.1, hsame.2.trans hsnapshot⟩)
  | delete original v hremoved hhook hrows htracked =>
    refine h.replace key (fun k hk => by rw [htracked, Function.update_of_ne hk])
      (fun k o pk r hk hk' hpk hr => ?_) fun o ho => ?_
    · obtain ⟨hdb, hvtracked⟩ := (hhooks .beforeDelete key).of_ok hhook
      have hspared := hok.deleteSpares original v hremoved hhook k o pk r (by rw [hvtracked, hk'])
      rw [hrows, setRow_of_ne]
      · exact hr
      · rintro ⟨ht, hpkv⟩
        have hselects := hspared ht.symm hpk (by rw [hdb, hr])
        have hmatch := Engine.matchesAll_key hr pk
        rw [ht, hschema] at hmatch
        simp [deleteStatement, Statement.selects, ← hpkv, hmatch] at hselects
    · rw [htracked, Function.update_self] at ho
      cases ho

/-! ### A snapshot that was recorded wrong stays wrong -/

variable (env) in
/-- What the rest of a flush cannot repair: two managed entities with one row, a
    managed entity without its row, or a wrong snapshot of one that is not `pending`. -/
inductive Lost (pending : List Key) (w : World engine.Db R) : Prop where
  | shared (k₁ k₂ : Key) (o₁ o₂ : Snapshot) (ne : k₁ ≠ k₂)
      (managed₁ : w.uow.tracked k₁ = some ⟨.managed, o₁⟩)
      (managed₂ : w.uow.tracked k₂ = some ⟨.managed, o₂⟩) (same : SameRow env k₁ k₂ o₁ o₂)
  | missing (k : Key) (o : Snapshot) (pk : Value)
      (managed : w.uow.tracked k = some ⟨.managed, o⟩)
      (lookup : o.lookup (env.classOf k).primaryKey = some pk)
      (none : w.db.rows (env.classOf k).table pk = none)
  | wrong (k : Key) (o : Snapshot) (done : k ∉ pending)
      (managed : w.uow.tracked k = some ⟨.managed, o⟩) (wrong : ¬Recorded env w.db k o)

theorem Lost.not_synced {pending : List Key} (h : Lost env pending w) : ¬Synced env w := by
  intro hsynced
  cases h with
  | shared k₁ k₂ o₁ o₂ ne managed₁ managed₂ same =>
    exact ne (hsynced.distinct k₁ k₂ o₁ o₂ managed₁ managed₂ same)
  | missing k o pk managed lookup none =>
    obtain ⟨pk', row, hpk, hrow, _⟩ := hsynced.recorded k o managed
    rw [lookup] at hpk
    cases hpk
    rw [none] at hrow
    cases hrow
  | wrong k o done managed wrong => exact wrong (hsynced.recorded k o managed)

/-- The entry of a managed entity after a step that keeps the primary keys. -/
theorem FlushEffect.managed (hkept : KeyKept env key w) (heffect : FlushEffect env key w w')
    {k : Key} {o : Snapshot} (hk : w.uow.tracked k = some ⟨.managed, o⟩) :
    ∃ o', w'.uow.tracked k = some ⟨.managed, o'⟩ ∧
      o'.lookup (env.classOf k).primaryKey = o.lookup (env.classOf k).primaryKey ∧
      (k ≠ key → o' = o) := by
  by_cases heq : k = key
  · subst heq
    cases heffect with
    | idle htracked _ => exact ⟨o, by rw [htracked, hk], rfl, fun _ => rfl⟩
    | insert original _ _ hnew => simp [hnew] at hk
    | update original v _ hmanaged hdirty hhook _ _ htracked =>
      have hkey := hkept original v hmanaged hdirty hhook
      rw [hmanaged] at hk
      cases hk
      refine ⟨_, by rw [htracked, Function.update_self], ?_, fun hne => absurd rfl hne⟩
      simp [UowState.snapshot, (env.classOf k).primaryKey_mem, hkey]
    | delete original _ hremoved => simp [hremoved] at hk
  · refine ⟨o, ?_, rfl, fun _ => rfl⟩
    rw [← hk]
    cases heffect with
    | idle htracked _ => rw [htracked]
    | insert _ _ _ _ _ _ _ htracked => rw [htracked, Function.update_of_ne heq]
    | update _ _ _ _ _ _ _ _ htracked => rw [htracked, Function.update_of_ne heq]
    | delete _ _ _ _ _ htracked => rw [htracked, Function.update_of_ne heq]

/-- A step on another entity leaves a managed row, or the loss of it, as it was. -/
theorem FlushEffect.row (hkept : KeyKept env key w) (heffect : FlushEffect env key w w')
    {pending : List Key} {k : Key} {o : Snapshot} {pk : Value} (hne : k ≠ key)
    (hk : w.uow.tracked k = some ⟨.managed, o⟩)
    (hpk : o.lookup (env.classOf k).primaryKey = some pk) :
    Lost env pending w' ∨ w'.db.rows (env.classOf k).table pk =
      w.db.rows (env.classOf k).table pk := by
  obtain ⟨o', hk', hpk', ho'⟩ := heffect.managed hkept hk
  obtain rfl := ho' hne
  cases heffect with
  | idle _ hrows => exact .inr (by rw [hrows])
  | insert original columns row _ _ hrows _ htracked =>
    by_cases hsame : (env.classOf k).table = (env.classOf key).table ∧
        pk = columns (env.classOf key).primaryKey
    · refine .inl (.shared k key o' _ hne hk' (by rw [htracked, Function.update_self]) ⟨hsame.1, ?_⟩)
      simp [(env.classOf key).primaryKey_mem, hpk, hsame.2]
    · exact .inr (by rw [hrows, setRow_of_ne hsame])
  | update original v assign hmanaged hdirty hhook hrows _ htracked =>
    by_cases hsame : (env.classOf k).table = (env.classOf key).table ∧
        pk = (v.uow.heap key).columns (env.classOf key).primaryKey
    · refine .inl (.shared k key o' _ hne hk' (by rw [htracked, Function.update_self]) ⟨hsame.1, ?_⟩)
      simp [UowState.snapshot, (env.classOf key).primaryKey_mem, hpk, hsame.2]
    · exact .inr (by rw [hrows, setRow_of_ne hsame])
  | delete original v _ _ hrows _ =>
    by_cases hsame : (env.classOf k).table = (env.classOf key).table ∧
        pk = (v.uow.heap key).columns (env.classOf key).primaryKey
    · exact .inl (.missing k o' pk hk' hpk (by rw [hrows, hsame.1, hsame.2, setRow_self]))
    · exact .inr (by rw [hrows, setRow_of_ne hsame])

/-- An `UPDATE` inserts no row. -/
theorem FlushEffect.missing (hkept : KeyKept env key w) (heffect : FlushEffect env key w w')
    {k : Key} {o : Snapshot} {pk : Value} {pending : List Key}
    (hk : w.uow.tracked k = some ⟨.managed, o⟩)
    (hpk : o.lookup (env.classOf k).primaryKey = some pk)
    (hnone : w.db.rows (env.classOf k).table pk = none) : Lost env pending w' := by
  obtain ⟨o', hk', hpk', _⟩ := heffect.managed hkept hk
  by_cases heq : k = key
  · refine .missing k o' pk hk' (hpk'.trans hpk) ?_
    subst heq
    cases heffect with
    | idle _ hrows => rw [hrows, hnone]
    | insert original _ _ hnew => simp [hnew] at hk
    | update original v assign hmanaged hdirty hhook hrows =>
      have hkey := hkept original v hmanaged hdirty hhook
      rw [hmanaged] at hk
      cases hk
      rw [hpk] at hkey
      cases hkey
      rw [hrows, setRow_self, hnone]
      rfl
    | delete original _ hremoved => simp [hremoved] at hk
  · rcases heffect.row hkept heq hk hpk with hlost | hrow
    · exact hlost
    · exact .missing k o' pk hk' (hpk'.trans hpk) (hrow.trans hnone)

theorem Lost.effect {rest : List Key} (h : Lost env (key :: rest) w)
    (hkept : KeyKept env key w) (heffect : FlushEffect env key w w') : Lost env rest w' := by
  cases h with
  | shared k₁ k₂ o₁ o₂ ne managed₁ managed₂ same =>
    obtain ⟨o₁', h₁, hpk₁, _⟩ := heffect.managed hkept managed₁
    obtain ⟨o₂', h₂, hpk₂, _⟩ := heffect.managed hkept managed₂
    exact .shared k₁ k₂ o₁' o₂' ne h₁ h₂ ⟨same.1, by rw [hpk₁, hpk₂, same.2]⟩
  | missing k o pk managed lookup none => exact heffect.missing hkept managed lookup none
  | wrong k o done managed wrong =>
    have hne : k ≠ key := fun heq => done (heq ▸ List.mem_cons_self)
    obtain ⟨o', hk', _, ho'⟩ := heffect.managed hkept managed
    obtain rfl := ho' hne
    cases hpk : o'.lookup (env.classOf k).primaryKey with
    | none =>
      refine .wrong k o' (fun hrest => done (List.mem_cons_of_mem key hrest)) hk' ?_
      rintro ⟨pk, row, hsome, _⟩
      rw [hpk] at hsome
      cases hsome
    | some pk =>
      have hrow : Lost env rest w' ∨ w'.db.rows (env.classOf k).table pk =
          w.db.rows (env.classOf k).table pk := heffect.row hkept hne managed hpk
      rcases hrow with hlost | hrow
      · exact hlost
      · refine .wrong k o' (fun hrest => done (List.mem_cons_of_mem key hrest)) hk' fun hrec => ?_
        refine wrong (hrec.of_rows fun pk' row hpk' hrow' => ?_)
        rw [hpk] at hpk'
        cases hpk'
        rw [← hrow, hrow']

/-- A step that does not meet its condition, and keeps the primary key, is one that
    the rest of the flush cannot repair. -/
theorem FlushEffect.lost (hschema : ∀ k, engine.primaryKeyOf (env.classOf k).table =
    (env.classOf k).primaryKey) (hhooks : ∀ phase k, AssignsOnly (env.runTableHook phase k))
    (h : Synced env w) (hkept : KeyKept env key w) (hbad : ¬FlushOk env key w)
    {rest : List Key} (hrest : key ∉ rest) (heffect : FlushEffect env key w w') :
    Lost env rest w' := by
  cases heffect with
  | idle htracked hrows hclean hnot =>
    refine absurd ⟨hkept, ?_, ?_⟩ hbad
    · exact fun original v hmanaged hdirty => absurd hdirty (hclean original hmanaged)
    · exact fun original v hremoved => absurd hremoved (hnot original)
  | insert original columns row hnew =>
    refine absurd ⟨hkept, ?_, ?_⟩ hbad
    · exact fun o v hmanaged => by simp [hnew] at hmanaged
    · exact fun o v hremoved => by simp [hnew] at hremoved
  | update original v assign hmanaged hdirty hhook hrows hassigned htracked =>
    refine .wrong key _ hrest (by rw [htracked, Function.update_self]) fun hrecorded => hbad ?_
    refine ⟨hkept, fun o u ho _ hu name hname hne => ?_, fun o u ho => by simp [hmanaged] at ho⟩
    rw [hmanaged] at ho
    cases ho
    rw [hhook] at hu
    cases hu
    -- the recorded snapshot is the row, and the row has what was there before the hook
    obtain ⟨pk, row, hpk, hrow, hsame⟩ := h.recorded key original hmanaged
    have hkey := hkept original v hmanaged hdirty hhook
    rw [hpk] at hkey
    cases hkey
    obtain ⟨pk', row', hpk', hrow', hsame'⟩ := hrecorded
    have heq : pk' = (v.uow.heap key).columns (env.classOf key).primaryKey := by
      simpa [UowState.snapshot, (env.classOf key).primaryKey_mem] using hpk'.symm
    rw [heq, hrows, setRow_self, hrow, Option.map_some] at hrow'
    cases hrow'
    obtain ⟨value, hvalue, hstored⟩ := hsame' name hname
    have hvalue' : value = (v.uow.heap key).columns name := by
      simpa [UowState.snapshot, hname] using hvalue.symm
    subst hvalue'
    exact hstored.trans (assigned_same hassigned hname hne (hsame name hname)).symm
  | delete original v hremoved hhook hrows htracked =>
    have hnot : ¬DeleteSpares env key w := fun hspares => hbad
      ⟨hkept, fun o u ho => by simp [hremoved] at ho, hspares⟩
    simp only [DeleteSpares, Spares, not_forall] at hnot
    obtain ⟨o, u, ho, hu, k, ok, pk, row, hk, htable, hpk, hrow, hselects⟩ := hnot
    rw [hhook] at hu
    cases hu
    obtain ⟨hdb, hvtracked⟩ := (hhooks .beforeDelete key).of_ok hhook
    rw [hvtracked] at hk
    have hne : k ≠ key := fun heq => by simp [heq, hremoved] at hk
    have hmatch := Engine.matchesAll_key hrow ((v.uow.heap key).columns (env.classOf key).primaryKey)
    have htable' : (env.classOf k).table = (env.classOf key).table := htable.symm
    rw [htable', hschema] at hmatch
    have hpkv : pk = (v.uow.heap key).columns (env.classOf key).primaryKey := by
      simpa [deleteStatement, Statement.selects, hmatch] using hselects
    exact .missing k ok pk (by rw [htracked, Function.update_of_ne hne, hk]) hpk
      (by rw [hrows, htable', hpkv, setRow_self])

/-! ### The whole flush -/

section Whole

variable (hexecutor : env.executor.execute = engine.execute)
  (hschema : ∀ k, engine.primaryKeyOf (env.classOf k).table = (env.classOf k).primaryKey)
  (hhooks : ∀ phase k, AssignsOnly (env.runTableHook phase k))

include hexecutor hschema hhooks

/-- A flush whose every step meets its condition records what the database stores. -/
theorem flush_synced (h : Synced env w) (hok : Along (FlushOk env) (flushKey env) w.uow.keys w)
    (hflush : exec (flush env) w = (.ok (), w')) : Synced env w' := by
  have hloop : exec (w.uow.keys.forM (flushKey env)) w = (.ok (), w') := hflush
  refine hok.invariant (fun key u u' hu hkey hexec => ?_) h hloop
  exact hu.effect hschema hhooks hkey (flushKey_effect hexecutor hschema hhooks hexec)

theorem Lost.flushLoop {keys : List Key} (h : Lost env keys w)
    (hkept : Along (KeyKept env) (flushKey env) keys w)
    (hloop : exec (keys.forM (flushKey env)) w = (.ok (), w')) : Lost env [] w' := by
  induction keys generalizing w with
  | nil =>
    cases hloop
    exact h
  | cons key keys ih =>
    obtain ⟨u, hkey, hrest⟩ := exec_forM_cons hloop
    have heffect := flushKey_effect hexecutor hschema hhooks hkey
    exact ih (h.effect hkept.1 heffect) (hkept.2 u hkey) hrest

theorem along_flushOk {keys : List Key} (hnodup : keys.Nodup) (h : Synced env w)
    (hkept : Along (KeyKept env) (flushKey env) keys w)
    (hloop : exec (keys.forM (flushKey env)) w = (.ok (), w')) (h' : Synced env w') :
    Along (FlushOk env) (flushKey env) keys w := by
  induction keys generalizing w with
  | nil => trivial
  | cons key keys ih =>
    obtain ⟨hnot, hnodup⟩ := List.nodup_cons.mp hnodup
    obtain ⟨u, hkey, hrest⟩ := exec_forM_cons hloop
    have heffect := flushKey_effect hexecutor hschema hhooks hkey
    by_cases hok : FlushOk env key w
    · refine ⟨hok, fun v hv => ?_⟩
      rw [hkey] at hv
      cases hv
      exact ih hnodup (h.effect hschema hhooks hok heffect) (hkept.2 u hkey) hrest
    · have hlost := heffect.lost hschema hhooks h hkept.1 hok hnot
      exact absurd h' (hlost.flushLoop hexecutor hschema hhooks (hkept.2 u hkey) hrest).not_synced

/-- As long as no primary key is changed, that is the only way to record it. -/
theorem synced_flush (hinv : w.uow.Inv) (h : Synced env w)
    (hkept : Along (KeyKept env) (flushKey env) w.uow.keys w)
    (hflush : exec (flush env) w = (.ok (), w')) :
    Synced env w' ↔ Along (FlushOk env) (flushKey env) w.uow.keys w :=
  ⟨along_flushOk hexecutor hschema hhooks (hinv.order_nodup.filter _) h hkept hflush,
    fun hok => flush_synced hexecutor hschema hhooks h hok hflush⟩

end Whole

/-- What differs from the database is seen as dirty by the next flush. -/
theorem Synced.dirty (h : Synced env w) {original : Snapshot}
    (hmanaged : w.uow.tracked key = some ⟨.managed, original⟩) {pk : Value} {row : Name → Value}
    (hpk : original.lookup (env.classOf key).primaryKey = some pk)
    (hrow : w.db.rows (env.classOf key).table pk = some row) {name : Name}
    (hname : name ∈ (env.classOf key).columns) (hne : name ≠ (env.classOf key).primaryKey)
    (hdiffers : ¬((w.uow.heap key).columns name).Same (row name)) :
    name ∈ changedColumns (env.classOf key) (w.uow.snapshot env.classOf key) original := by
  obtain ⟨pk', row', hpk', hrow', hsame⟩ := h.recorded key original hmanaged
  rw [hpk] at hpk'
  cases hpk'
  rw [hrow] at hrow'
  cases hrow'
  obtain ⟨value, hvalue, hstored⟩ := hsame name hname
  refine (mem_changedColumns _ _ _ _).mpr ⟨hname, hne, fun hequal => hdiffers ?_⟩
  have heq : value.eq ((w.uow.heap key).columns name) = true := by simpa [hvalue] using hequal
  exact Value.Same.trans (.symm (.inr heq)) hstored

end Flush

end MetalOrm.Native
