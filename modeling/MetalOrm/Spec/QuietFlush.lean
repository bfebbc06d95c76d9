import MetalOrm.Spec.CheckpointRestore
import MetalOrm.Spec.FlushWrites

/-!
# A flush under hooks that only observe

What `UnitOfWork::flush` does to one entity when the table hooks change neither the
unit of work nor the database: the step of the entity itself, what the steps of the
other entities leave alone, and the flush as a whole.

## Key results

- `flushInsert_entity`, `flushUpdate_entity`, `flushDelete_entity`: the step of an entity
- `flushKey_own`: what that step leaves alone
- `flushKeys_others`, `flush_tracked`, `flush_untracked`: the whole flush
-/

namespace MetalOrm.Native

open ForStd ForStd.Prog Session

/-- A program that changes neither the unit of work nor the database. -/
def Observes {D R : Type} (p : SessionM D R Unit) : Prop :=
  ∀ w, (exec p w).2.uow = w.uow ∧ (exec p w).2.db = w.db

theorem admits_keepsInv {D R : Type} (env : Env D R) :
    Admits env.classOf (OnUow KeepsInv : World D R → World D R → Prop) :=
  admits_onUow fun _ _ hstep hs => hs.unitStep hstep

/-- A flush keeps the invariant of the unit of work. -/
theorem flush_inv {D R : Type} {env : Env D R}
    (hquiet : ∀ phase k, Observes (env.runTableHook phase k)) {w w' : World D R}
    (hinv : w.uow.Inv) (h : exec (flush env) w = (.ok (), w')) : w'.uow.Inv := by
  have hhooks : ∀ phase k, Preserves (OnUow KeepsInv) (env.runTableHook phase k) :=
    fun phase k v hv => by
      rw [(hquiet phase k v).1]
      exact hv
  have hflush := flush_preserves env (admits_keepsInv env).flush hhooks w hinv
  rwa [h] at hflush

section Flush

variable {R : Type} {engine : Engine} (env : Env engine.Db R)
  (hexecutor : env.executor.execute = engine.execute)
  (hschema : ∀ k, engine.primaryKeyOf (env.classOf k).table = (env.classOf k).primaryKey)
  (hquiet : ∀ phase k, Observes (env.runTableHook phase k))

variable {env}

theorem Observes.of_ok {D : Type} {p : SessionM D R Unit} (h : Observes p) {w w' : World D R}
    (hok : exec p w = (.ok (), w')) : w'.uow = w.uow ∧ w'.db = w.db := by
  have hw := h w
  rwa [hok] at hw

/-- How many INSERTs into a table have succeeded. -/
def insertCount (table : Name) (db : engine.Db) : Nat :=
  (db.executed.filter fun
    | .insert t _ _ => t == table
    | _ => false).length

theorem insertCount_execute {table : Name} {statement : Statement} {s s' : engine.Db}
    {result : QueryResult} (h : engine.execute statement s = (.ok result, s')) :
    insertCount table s' = insertCount table s +
      (match statement with
        | .insert t _ _ => if t = table then 1 else 0
        | _ => 0) := by
  obtain ⟨s₁, happly, _, hexecuted⟩ := Engine.execute_ok h
  unfold insertCount
  rw [hexecuted, Engine.apply_executed happly, List.filter_append, List.length_append]
  cases statement with
  | insert t values returning =>
    by_cases ht : t = table
    · simp [ht]
    · simp [ht]
  | update t assignments wheres => simp
  | delete t wheres => simp

/-! ## The step of the entity -/

section Step

variable {key : Key} {w w' : World engine.Db R}

/-- The stored row of an object. -/
def storedRow (env : Env engine.Db R) (key : Key) (w : World engine.Db R) :
    Option (Name → Value) :=
  w.db.rows (env.classOf key).table ((w.uow.heap key).columns (env.classOf key).primaryKey)

/-- The INSERT count of the table of an object. -/
def insertsOf (env : Env engine.Db R) (key : Key) (w : World engine.Db R) : Nat :=
  insertCount (env.classOf key).table w.db

include hexecutor hschema hquiet in
theorem flushInsert_entity (h : exec (flushInsert env key) w = (.ok (), w')) :
    insertsOf env key w' = insertsOf env key w + 1 ∧
    ∃ row, storedRow env key w' = some row ∧ ∀ name ∈ (env.classOf key).columns,
      row name = (w'.uow.heap key).columns name ∧
      (name ≠ (env.classOf key).primaryKey →
        (w'.uow.heap key).columns name = (w.uow.heap key).columns name) := by
  obtain ⟨v, result, db, identity, columns, hbefore, hexecute, hinserted, hafter⟩ :=
    flushInsert_ok h
  obtain ⟨huow, hdb⟩ := (hquiet _ _).of_ok hbefore
  obtain ⟨huow', hdb'⟩ := (hquiet _ _).of_ok hafter
  rw [hexecutor, huow, hdb] at hexecute
  rw [huow] at hinserted
  obtain ⟨row, _, hrows, _, hrow, hsame⟩ := insertStatement_writes (hschema key) hexecute hinserted
  have hcolumns : (w'.uow.heap key).columns = columns := by
    rw [huow', (UowState.updateTracked_frame _ _ _).1]
    simp [UowState.setColumns]
  constructor
  · rw [insertsOf, hdb', insertCount_execute hexecute]
    simp [insertsOf, insertStatement]
  · refine ⟨row, ?_, fun name hname => ⟨?_, fun hne => ?_⟩⟩
    · rw [storedRow, hcolumns, hdb', hrows, setRow_self]
    · rw [hcolumns, hrow name hname]
    · rw [hcolumns, hsame name hname hne]

include hexecutor hschema hquiet in
theorem flushDelete_entity (h : exec (flushDelete env key) w = (.ok (), w')) :
    insertsOf env key w' = insertsOf env key w ∧ storedRow env key w' = none := by
  obtain ⟨v, result, db, identity, hbefore, hexecute, hafter⟩ := flushDelete_ok h
  obtain ⟨huow, hdb⟩ := (hquiet _ _).of_ok hbefore
  obtain ⟨huow', hdb'⟩ := (hquiet _ _).of_ok hafter
  rw [hexecutor, huow, hdb] at hexecute
  constructor
  · rw [insertsOf, hdb', insertCount_execute hexecute]
    rfl
  · rw [storedRow, huow', hdb', deleteStatement_writes (hschema key) hexecute]
    simp [UowState.erase, huow]

/-- The row of an existing object after the columns that `original` shows dirty
    were updated. -/
def updatedRow (cls : EntityClass) (columns : Name → Value) (original : Snapshot)
    (row : Name → Value) : Name → Value := fun name =>
  if name ∈ changedColumns cls (cls.snapshotOf columns) original then columns name else row name

include hexecutor hschema hquiet in
theorem flushUpdate_entity {tracked : TrackedEntity}
    (h : exec (flushUpdateIfDirty env key tracked) w = (.ok (), w')) :
    insertsOf env key w' = insertsOf env key w ∧ w'.uow.heap key = w.uow.heap key ∧
    storedRow env key w' = (storedRow env key w).map
      (updatedRow (env.classOf key) (w.uow.heap key).columns tracked.original) := by
  rcases flushUpdateIfDirty_ok h with ⟨hclean, rfl⟩ | ⟨v, result, db, _, hbefore, hexecute, hafter⟩
  · refine ⟨rfl, rfl, ?_⟩
    have hid : updatedRow (env.classOf key) (w'.uow.heap key).columns tracked.original = id := by
      funext row name
      rw [updatedRow, show (env.classOf key).snapshotOf (w'.uow.heap key).columns =
        w'.uow.snapshot env.classOf key from rfl, hclean]
      simp
    rw [hid, Option.map_id, id]
  · obtain ⟨huow, hdb⟩ := (hquiet _ _).of_ok hbefore
    obtain ⟨huow', hdb'⟩ := (hquiet _ _).of_ok hafter
    rw [hexecutor, huow, hdb] at hexecute
    obtain ⟨assign, hrows, hassign⟩ := updateStatement_writes (hschema key) hexecute
    have hassign' : assign = updatedRow (env.classOf key) (w.uow.heap key).columns
        tracked.original := funext fun row => funext fun name => hassign row name
    have hheap : w'.uow.heap key = w.uow.heap key := by
      rw [huow', UowState.refreshSnapshot, (UowState.updateTracked_frame _ _ _).1, huow]
    refine ⟨?_, hheap, ?_⟩
    · rw [insertsOf, hdb', insertCount_execute hexecute]
      rfl
    · rw [storedRow, hheap, hdb', hrows, setRow_self, hassign']
      rfl

end Step

/-! ## What the step leaves alone -/

/-- Whether an entity is new and maps to a table: the flush inserts it there. -/
def insertedInto (env : Env engine.Db R) (table : Name) (w : World engine.Db R) (k : Key) : Bool :=
  (env.classOf k).table == table && (w.uow.tracked k).map (·.status) == some .new

/-- What the flush of one entity leaves alone. -/
structure OwnStep (env : Env engine.Db R) (k : Key) (w w' : World engine.Db R) : Prop where
  heap : ∀ j, j ≠ k → w'.uow.heap j = w.uow.heap j
  tracked : ∀ j, j ≠ k → w'.uow.tracked j = w.uow.tracked j
  /-- Of the object itself an INSERT can change the primary key. -/
  columns : ∀ name, name ≠ (env.classOf k).primaryKey →
    (w'.uow.heap k).columns name = (w.uow.heap k).columns name
  runtime : (w'.uow.heap k).runtime = (w.uow.heap k).runtime
  kept : (w.uow.tracked k).map (·.status) ≠ some .new → w'.uow.heap k = w.uow.heap k
  order : (w.uow.tracked k).map (·.status) ≠ some .removed →
    w'.uow.trackedOrder = w.uow.trackedOrder
  /-- The row of the primary key that the object ends with is the only one written. -/
  rows : ∀ table pk, ¬(table = (env.classOf k).table ∧
    pk = (w'.uow.heap k).columns (env.classOf k).primaryKey) → w'.db.rows table pk = w.db.rows table pk
  inserts : ∀ table, insertCount table w'.db =
    insertCount table w.db + (if insertedInto env table w k then 1 else 0)

section OwnStep

variable {k : Key} {w w' : World engine.Db R}

theorem insertedInto_of_ne {table : Name} {t : TrackedEntity} (h : w.uow.tracked k = some t)
    (hne : t.status ≠ .new) : insertedInto env table w k = false := by
  simp [insertedInto, h, hne]

theorem OwnStep.idle (h : ∀ table, insertedInto env table w k = false) : OwnStep env k w w where
  heap _ _ := rfl
  tracked _ _ := rfl
  columns _ _ := rfl
  runtime := rfl
  kept _ := rfl
  order _ := rfl
  rows _ _ _ := rfl
  inserts table := by simp [h]

include hexecutor hschema hquiet

theorem flushInsert_own {original : Snapshot} (hnew : w.uow.tracked k = some ⟨.new, original⟩)
    (h : exec (flushInsert env k) w = (.ok (), w')) : OwnStep env k w w' := by
  obtain ⟨v, result, db, identity, columns, hbefore, hexecute, hinserted, hafter⟩ :=
    flushInsert_ok h
  obtain ⟨huow, hdb⟩ := (hquiet _ _).of_ok hbefore
  obtain ⟨huow', hdb'⟩ := (hquiet _ _).of_ok hafter
  rw [hexecutor, huow, hdb] at hexecute
  rw [huow] at hinserted
  obtain ⟨row, _, hrows, _⟩ := insertStatement_writes (hschema k) hexecute hinserted
  have hheap : w'.uow.heap = (w.uow.setColumns k columns).heap := by
    rw [huow', (UowState.updateTracked_frame _ _ _).1, huow]
  have hself : w'.uow.heap k = ⟨columns, (w.uow.heap k).runtime⟩ := by
    rw [hheap]
    exact Function.update_self _ _ _
  exact {
    heap := fun j hj => by
      rw [hheap]
      exact Function.update_of_ne hj _ _
    tracked := fun j hj => by
      rw [huow', UowState.updateTracked_tracked, if_neg hj, huow]
      rfl
    columns := fun name hname => by
      rw [hself]
      exact hinserted.of_ne hname
    runtime := by rw [hself]
    kept := fun hnot => absurd (by rw [hnew]; rfl) hnot
    order := fun _ => by
      rw [huow', (UowState.updateTracked_frame _ _ _).2.1, huow]
      rfl
    rows := fun table pk hpk => by
      rw [hself] at hpk
      rw [hdb', hrows, setRow_of_ne hpk]
    inserts := fun table => by
      rw [hdb', insertCount_execute hexecute]
      simp [insertedInto, hnew, insertStatement] }

theorem flushUpdateIfDirty_own {original : Snapshot}
    (hmanaged : w.uow.tracked k = some ⟨.managed, original⟩)
    (h : exec (flushUpdateIfDirty env k ⟨.managed, original⟩) w = (.ok (), w')) :
    OwnStep env k w w' := by
  have hnot : ∀ table, insertedInto env table w k = false :=
    fun table => insertedInto_of_ne hmanaged (by simp)
  rcases flushUpdateIfDirty_ok h with ⟨_, rfl⟩ | ⟨v, result, db, _, hbefore, hexecute, hafter⟩
  · exact .idle hnot
  · obtain ⟨huow, hdb⟩ := (hquiet _ _).of_ok hbefore
    obtain ⟨huow', hdb'⟩ := (hquiet _ _).of_ok hafter
    rw [hexecutor, huow, hdb] at hexecute
    obtain ⟨assign, hrows, _⟩ := updateStatement_writes (hschema k) hexecute
    have hheap : w'.uow.heap = w.uow.heap := by
      rw [huow', UowState.refreshSnapshot, (UowState.updateTracked_frame _ _ _).1, huow]
    exact {
      heap := fun j _ => by rw [hheap]
      tracked := fun j hj => by
        rw [huow', UowState.refreshSnapshot, UowState.updateTracked_tracked, if_neg hj, huow]
      columns := fun _ _ => by rw [hheap]
      runtime := by rw [hheap]
      kept := fun _ => by rw [hheap]
      order := fun _ => by
        rw [huow', UowState.refreshSnapshot, (UowState.updateTracked_frame _ _ _).2.1, huow]
      rows := fun table pk hpk => by
        rw [hheap] at hpk
        rw [hdb', hrows, setRow_of_ne hpk]
      inserts := fun table => by
        rw [hdb', insertCount_execute hexecute, hnot]
        simp [updateStatement] }

theorem flushDelete_own {original : Snapshot}
    (hremoved : w.uow.tracked k = some ⟨.removed, original⟩)
    (h : exec (flushDelete env k) w = (.ok (), w')) : OwnStep env k w w' := by
  obtain ⟨v, result, db, identity, hbefore, hexecute, hafter⟩ := flushDelete_ok h
  obtain ⟨huow, hdb⟩ := (hquiet _ _).of_ok hbefore
  obtain ⟨huow', hdb'⟩ := (hquiet _ _).of_ok hafter
  rw [hexecutor, huow, hdb] at hexecute
  have hheap : w'.uow.heap = w.uow.heap := by
    rw [huow', ← huow]
    rfl
  exact {
    heap := fun j _ => by rw [hheap]
    tracked := fun j hj => by
      rw [huow', ← huow]
      exact Function.update_of_ne hj _ _
    columns := fun _ _ => by rw [hheap]
    runtime := by rw [hheap]
    kept := fun _ => by rw [hheap]
    order := fun hnot => absurd (by rw [hremoved]; rfl) hnot
    rows := fun table pk hpk => by
      rw [hheap] at hpk
      rw [hdb', deleteStatement_writes (hschema k) hexecute, setRow_of_ne hpk]
    inserts := fun table => by
      rw [hdb', insertCount_execute hexecute, insertedInto_of_ne hremoved (by simp)]
      simp }

theorem flushKey_own (h : exec (flushKey env k) w = (.ok (), w')) : OwnStep env k w w' := by
  unfold flushKey at h
  rw [exec_bind_ok (exec_get w)] at h
  cases htracked : w.uow.tracked k with
  | none =>
    rw [htracked] at h
    cases h
    exact .idle fun table => by simp [insertedInto, htracked]
  | some tracked =>
    rw [htracked] at h
    obtain ⟨status, original⟩ := tracked
    cases status with
    | new => exact flushInsert_own hexecutor hschema hquiet htracked h
    | managed => exact flushUpdateIfDirty_own hexecutor hschema hquiet htracked h
    | removed => exact flushDelete_own hexecutor hschema hquiet htracked h
    | detached =>
      cases h
      exact .idle fun table => insertedInto_of_ne htracked (by simp)

/-- What the flush of the entities `keys` leaves alone. A row of `table` stays when
    none of them ends with its primary key. -/
theorem flushKeys_others (table : Name) {keys : List Key} (hnodup : keys.Nodup)
    (hloop : exec (keys.forM (flushKey env)) w = (.ok (), w')) :
    (∀ j, j ∉ keys → w'.uow.heap j = w.uow.heap j ∧ w'.uow.tracked j = w.uow.tracked j) ∧
    insertCount table w'.db =
      insertCount table w.db + keys.countP (insertedInto env table w) ∧
    ∀ pk, (∀ k ∈ keys, (env.classOf k).table = table →
      (w'.uow.heap k).columns (env.classOf k).primaryKey ≠ pk) →
      w'.db.rows table pk = w.db.rows table pk := by
  induction keys generalizing w with
  | nil =>
    cases hloop
    exact ⟨fun _ _ => ⟨rfl, rfl⟩, rfl, fun _ _ => rfl⟩
  | cons k keys ih =>
    obtain ⟨hk, hnodup⟩ := List.nodup_cons.mp hnodup
    obtain ⟨u, hstep, hrest⟩ := exec_forM_cons hloop
    have hown := flushKey_own hexecutor hschema hquiet hstep
    obtain ⟨hsame, hcount, hrows⟩ := ih hnodup hrest
    refine ⟨fun j hj => ?_, ?_, fun pk hpk => ?_⟩
    · obtain ⟨hne, hj⟩ := List.ne_and_not_mem_of_not_mem_cons hj
      exact ⟨(hsame j hj).1.trans (hown.heap j hne), (hsame j hj).2.trans (hown.tracked j hne)⟩
    · have hcongr : keys.countP (insertedInto env table u) =
          keys.countP (insertedInto env table w) := by
        refine List.countP_congr fun j hj => ?_
        rw [insertedInto, insertedInto, hown.tracked j fun heq => hk (heq ▸ hj)]
      rw [hcount, hown.inserts, List.countP_cons, hcongr]
      omega
    · rw [hrows pk fun j hj => hpk j (List.mem_cons_of_mem k hj), hown.rows]
      rintro ⟨htable, rfl⟩
      exact hpk k List.mem_cons_self htable.symm (by rw [(hsame k hk).1])

/-- A flush without INSERTs changes no object. -/
theorem flushKeys_heap {keys : List Key} (hnodup : keys.Nodup)
    (hold : ∀ j ∈ keys, (w.uow.tracked j).map (·.status) ≠ some .new)
    (hloop : exec (keys.forM (flushKey env)) w = (.ok (), w')) : w'.uow.heap = w.uow.heap := by
  induction keys generalizing w with
  | nil =>
    cases hloop
    rfl
  | cons j keys ih =>
    obtain ⟨hj, hnodup⟩ := List.nodup_cons.mp hnodup
    obtain ⟨u, hstep, hrest⟩ := exec_forM_cons hloop
    have hown := flushKey_own hexecutor hschema hquiet hstep
    have hheap : u.uow.heap = w.uow.heap := by
      funext i
      by_cases hi : i = j
      · subst hi
        exact hown.kept (hold i List.mem_cons_self)
      · exact hown.heap i hi
    rw [← hheap]
    refine ih hnodup (fun i hi => ?_) hrest
    rw [hown.tracked i fun heq => hj (heq ▸ hi)]
    exact hold i (List.mem_cons_of_mem j hi)

end OwnStep

/-! ## The whole flush -/

section Whole

variable {key : Key} {w w' : World engine.Db R}

theorem mem_keys {s : UowState R} {k : Key} (h : k ∈ s.keys) : (s.tracked k).isSome :=
  (List.mem_filter.mp h).2

/-- The INSERTs that a flush issues for the other new entities of the table. -/
def otherInserts (env : Env engine.Db R) (key : Key) (w : World engine.Db R) : Nat :=
  (w.uow.trackedOrder.filter (· != key)).countP (insertedInto env (env.classOf key).table w)

/-- Only tracked entities are inserted. -/
theorem countP_keys (keys : List Key) (h : w.uow.keys.filter (· != key) = keys) :
    keys.countP (insertedInto env (env.classOf key).table w) = otherInserts env key w := by
  rw [← h, otherInserts, UowState.keys, List.countP_filter, List.countP_filter, List.countP_filter]
  refine List.countP_congr fun k _ => ?_
  cases htracked : w.uow.tracked k <;> simp [insertedInto, htracked]

variable (hothers : ∀ k, k ≠ key → (w.uow.tracked k).isSome →
  (env.classOf k).table = (env.classOf key).table →
  (w'.uow.heap k).columns (env.classOf k).primaryKey ≠
    (w'.uow.heap key).columns (env.classOf key).primaryKey)

include hexecutor hschema hquiet hothers

/-- The flush of an entity that is not tracked does not touch its row. -/
theorem flush_untracked (hinv : w.uow.Inv) (htracked : w.uow.tracked key = none)
    (hflush : exec (flush env) w = (.ok (), w')) :
    storedRow env key w' = storedRow env key w ∧
    insertsOf env key w' = insertsOf env key w + otherInserts env key w := by
  have hkey : key ∉ w.uow.keys := fun hmem => by simpa [htracked] using mem_keys hmem
  have hloop : exec (w.uow.keys.forM (flushKey env)) w = (.ok (), w') := hflush
  have hnodup : w.uow.keys.Nodup := hinv.order_nodup.filter _
  obtain ⟨hsame, hcount, hrows⟩ :=
    flushKeys_others hexecutor hschema hquiet (env.classOf key).table hnodup hloop
  have hall : w.uow.keys.filter (· != key) = w.uow.keys :=
    List.filter_eq_self.mpr fun k hk => by simpa using fun heq : k = key => hkey (heq ▸ hk)
  constructor
  · rw [storedRow, storedRow, ← (hsame key hkey).1]
    exact hrows _ fun k hk => hothers k (fun heq => hkey (heq ▸ hk)) (mem_keys hk)
  · rw [insertsOf, hcount, countP_keys _ hall]
    rfl

/-- What the flush does before and after the step of the entity. -/
structure Around (env : Env engine.Db R) (key : Key) (w u v w' : World engine.Db R) : Prop where
  tracked : u.uow.tracked key = w.uow.tracked key
  before : u.uow.heap key = w.uow.heap key
  after : w'.uow.heap key = v.uow.heap key
  rowBefore : u.db.rows (env.classOf key).table
      ((w'.uow.heap key).columns (env.classOf key).primaryKey) =
    w.db.rows (env.classOf key).table ((w'.uow.heap key).columns (env.classOf key).primaryKey)
  rowAfter : storedRow env key w' = storedRow env key v
  inserts : insertsOf env key w' + insertsOf env key u =
    insertsOf env key w + insertsOf env key v + otherInserts env key w

omit hexecutor hschema hquiet hothers in
/-- The row of an entity that keeps its primary key is there at its step. -/
theorem Around.storedRow_before {u v : World engine.Db R} (h : Around env key w u v w')
    (hkept : v.uow.heap key = u.uow.heap key) : storedRow env key u = storedRow env key w := by
  have hheap : w'.uow.heap key = w.uow.heap key := by rw [h.after, hkept, h.before]
  have hrow := h.rowBefore
  rw [hheap] at hrow
  rw [storedRow, h.before, hrow]
  rfl

/-- The flush visits a tracked entity once. -/
theorem flush_tracked (hinv : w.uow.Inv) {tracked : TrackedEntity}
    (htracked : w.uow.tracked key = some tracked)
    (hflush : exec (flush env) w = (.ok (), w')) :
    ∃ u v, exec (flushKey env key) u = (.ok (), v) ∧ Around env key w u v w' := by
  have hmem : key ∈ w.uow.keys := by
    have hkey : (w.uow.tracked key).isSome := by simp [htracked]
    exact List.mem_filter.mpr ⟨(hinv.mem_order key).mpr hkey, hkey⟩
  have hnodup : w.uow.keys.Nodup := hinv.order_nodup.filter _
  obtain ⟨before, after, hsplit⟩ := List.append_of_mem hmem
  have htrackedKeys : ∀ k ∈ before ++ key :: after, (w.uow.tracked k).isSome :=
    fun k hk => mem_keys (hsplit ▸ hk)
  rw [hsplit, List.nodup_append] at hnodup
  obtain ⟨hnodup₁, hnodup₂, hdisjoint⟩ := hnodup
  obtain ⟨hkeyAfter, hnodupAfter⟩ := List.nodup_cons.mp hnodup₂
  have hkeyBefore : key ∉ before := fun hk => hdisjoint key hk key List.mem_cons_self rfl
  have hloop : exec ((before ++ key :: after).forM (flushKey env)) w = (.ok (), w') :=
    hsplit ▸ hflush
  obtain ⟨u, hbefore, hrest⟩ := exec_forM_append hloop
  obtain ⟨v, hkey, hafter⟩ := exec_forM_cons hrest
  obtain ⟨hsame₁, hcount₁, hrows₁⟩ :=
    flushKeys_others hexecutor hschema hquiet (env.classOf key).table hnodup₁ hbefore
  have hown := flushKey_own hexecutor hschema hquiet hkey
  obtain ⟨hsame₂, hcount₂, hrows₂⟩ :=
    flushKeys_others hexecutor hschema hquiet (env.classOf key).table hnodupAfter hafter
  have hpassed : ∀ k ∈ before, w'.uow.heap k = u.uow.heap k := by
    intro k hk
    have hne : k ≠ key := fun heq => hkeyBefore (heq ▸ hk)
    have hnot : k ∉ after := fun hk' => hdisjoint k hk k (List.mem_cons_of_mem key hk') rfl
    rw [(hsame₂ k hnot).1, hown.heap k hne]
  refine ⟨u, v, hkey, (hsame₁ key hkeyBefore).2, (hsame₁ key hkeyBefore).1,
    (hsame₂ key hkeyAfter).1, ?_, ?_, ?_⟩
  · refine hrows₁ _ fun k hk htable => ?_
    rw [← hpassed k hk]
    exact hothers k (fun heq => hkeyBefore (heq ▸ hk)) (htrackedKeys k (by simp [hk])) htable
  · rw [storedRow, storedRow, ← (hsame₂ key hkeyAfter).1]
    exact hrows₂ _ fun k hk htable =>
      hothers k (fun heq => hkeyAfter (heq ▸ hk)) (htrackedKeys k (by simp [hk])) htable
  · have hfilter : w.uow.keys.filter (· != key) = before ++ after := by
      rw [hsplit, List.filter_append, List.filter_cons_of_neg (by simp),
        List.filter_eq_self.mpr fun k hk => by simpa using fun heq : k = key => hkeyBefore (heq ▸ hk),
        List.filter_eq_self.mpr fun k hk => by simpa using fun heq : k = key => hkeyAfter (heq ▸ hk)]
    -- the entries of the entities after it are still those of the start
    have hcongr : after.countP (insertedInto env (env.classOf key).table v) =
        after.countP (insertedInto env (env.classOf key).table w) := by
      refine List.countP_congr fun k hk => ?_
      have hne : k ≠ key := fun heq => hkeyAfter (heq ▸ hk)
      have hnot : k ∉ before := fun hk' => hdisjoint k hk' k (List.mem_cons_of_mem key hk) rfl
      rw [insertedInto, insertedInto, hown.tracked k hne, (hsame₁ k hnot).2]
    have hsum : (before ++ after).countP (insertedInto env (env.classOf key).table w) =
        otherInserts env key w := countP_keys _ hfilter
    rw [List.countP_append, ← hcongr] at hsum
    simp only [insertsOf]
    omega

end Whole

end Flush

end MetalOrm.Native
