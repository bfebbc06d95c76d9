import MetalOrm.ForStd.Events
import MetalOrm.Native.ValueKey
import MetalOrm.Spec.TransactionProtocol

/-!
# The row of an entity

`original` has the primary key under which an entity was loaded or last written, the object has
the member that the statements of `flush` read, and the identity map has the text of the key that
the object had when it was registered. The three agree as long as the member is not changed.

## Key results

- `KeysMatch.next`: an event that leaves the keys alone keeps them in step
- `writes_own_row`: the statements of such a run, and what the identity map finds
- `writes_other_row`: an entity whose key was changed
- `transaction_keyed`: the functions of a session are runs of events
-/

namespace MetalOrm.Native

open ForStd ForStd.Prog Session

variable {D R α : Type}

/-! ## Events of a session -/

/-- What a session does to its objects, to the unit of work and to the identity map. The code that
    a session calls back, and the code between its functions, does it by these events. -/
inductive SessionEvent (D R : Type) where
  /-- The mapped members of an object are assigned. -/
  | assign (key : Key) (columns : Name → Value)
  | assignRuntime (key : Key) (runtime : R)
  | track (key : Key) (status : EntityStatus)
  | persist (key : Key)
  | remove (key : Key)
  | refreshSnapshot (key : Key)
  /-- `flush_insert` between its hooks. -/
  | insertWrite (key : Key)
  /-- `flush_update_if_dirty` between its hooks, for columns that were read before them. -/
  | updateWrite (key : Key) (current original : Snapshot)
  /-- `flush_delete` between its hooks. -/
  | deleteWrite (key : Key)
  | beginCheckpoint
  | commitCheckpoint
  /-- The objects and the unit of work after a scope failed, and the identity map for them. -/
  | rollbackCheckpoint
  | rollbackAllCheckpoints
  | forgetAll
  /-- A change of the connection, or of what a session counts. -/
  | other (change : World D R → World D R)
      (huow : ∀ w, (change w).uow = w.uow) (hidentity : ∀ w, (change w).identity = w.identity)

namespace SessionEvent

/-- `flush_insert` between its hooks. -/
def insertProgram (env : Env D R) (key : Key) : SessionM D R Unit := do
  let cls := env.classOf key
  let columns ← getColumns key
  let result ← execute env (insertStatement env cls columns)
  assignGeneratedKey env key (needsGeneratedKey cls (columns cls.primaryKey)) result
  SessionM.modifyUow fun s =>
    s.updateTracked key fun _ => ⟨.managed, s.snapshot env.classOf key⟩
  registerIdentity env key

/-- `flush_update_if_dirty` between its hooks. -/
def updateProgram (env : Env D R) (key : Key) (current original : Snapshot) :
    SessionM D R Unit := do
  let pk ← getPk env key
  let _ ← execute env (updateStatement (env.classOf key) current original pk)
  SessionM.modifyUow (·.refreshSnapshot env.classOf key)

/-- `flush_delete` between its hooks. -/
def deleteProgram (env : Env D R) (key : Key) : SessionM D R Unit := do
  let cls := env.classOf key
  let pk ← getPk env key
  let _ ← execute env (.delete cls.table [(cls.primaryKey, pk)])
  eraseIdentity env key pk
  SessionM.modifyUow (·.erase key)

/-- The code of an event. -/
def program (env : Env D R) : SessionEvent D R → SessionM D R Unit
  | .assign key columns => SessionM.assign key fun _ => columns
  | .assignRuntime key runtime => SessionM.assignRuntime key fun _ => runtime
  | .track key status => Session.track env key status
  | .persist key => Session.persist env key
  | .remove key => Session.remove key
  | .refreshSnapshot key => SessionM.modifyUow (·.refreshSnapshot env.classOf key)
  | .insertWrite key => insertProgram env key
  | .updateWrite key current original => updateProgram env key current original
  | .deleteWrite key => deleteProgram env key
  | .beginCheckpoint => SessionM.modifyUow (·.beginCheckpoint env.classOf)
  | .commitCheckpoint => Session.commitCheckpoint
  | .rollbackCheckpoint => do
    rollbackCheckpointIfOpen env
    rebuildIdentityMap env
  | .rollbackAllCheckpoints => do
    SessionM.modifyUow (·.rollbackAllCheckpoints env.classOf)
    rebuildIdentityMap env
  | .forgetAll => Session.forgetAll
  | .other change _ _ => modify change

/-- The state after an event. -/
def next (env : Env D R) (w : World D R) (e : SessionEvent D R) : World D R :=
  (exec (e.program env) w).2

end SessionEvent

/-! ## The three copies of a key -/

/-- The value of the primary key member. -/
def livePk (env : Env D R) (w : World D R) (key : Key) : Value :=
  (w.uow.heap key).columns (env.classOf key).primaryKey

/-- The primary key that an entry of the unit of work was loaded or last written under. -/
def recordedPk (env : Env D R) (key : Key) (tracked : TrackedEntity) : Option Value :=
  tracked.original.lookup (env.classOf key).primaryKey

/-- The primary key of the row of an entity. -/
def rowKey (env : Env D R) (w : World D R) (key : Key) : Option Value :=
  (w.uow.tracked key).bind (recordedPk env key)

/-- The identity map returns the object for some key. -/
def Registered (w : World D R) (key : Key) : Prop := ∃ type text, w.identity type text = some key

/-- The event does not change the primary key member of an object that has a row or is in the
    identity map. -/
def KeepsKeys (env : Env D R) (w : World D R) (e : SessionEvent D R) : Prop :=
  ∀ key columns, e = .assign key columns → (rowKey env w key).isSome ∨ Registered w key →
    columns (env.classOf key).primaryKey = livePk env w key

/-- The keys in a unit of work agree. -/
structure RowsMatch (env : Env D R) (s : UowState R) : Prop where
  tracked : ∀ key tracked k, s.tracked key = some tracked → recordedPk env key tracked = some k →
    (s.heap key).columns (env.classOf key).primaryKey = k
  checkpoints : ∀ c ∈ s.checkpoints, ∀ item ∈ c.entries, ∀ k,
    recordedPk env item.1 item.2.tracked = some k →
      item.2.current.lookup (env.classOf item.1).primaryKey = some k

/-- An object is registered under its own key. -/
def IdentityMatch (env : Env D R) (w : World D R) : Prop :=
  ∀ type text key, w.identity type text = some key → (env.classOf key).type = type ∧
    env.valueKey (livePk env w key) = text ∧
      (env.classOf key).hasIdentityKey (livePk env w key) = true

/-- The three copies agree. -/
structure KeysMatch (env : Env D R) (w : World D R) : Prop where
  rows : RowsMatch env w.uow
  identity : IdentityMatch env w

/-! ### The unit of work -/

namespace RowsMatch

variable {env : Env D R} {s : UowState R}

theorem initial (heap : Key → Entity R) : RowsMatch env (.initial heap) where
  tracked _ _ _ h := nomatch h
  checkpoints _ h := nomatch h

/-- The snapshot of an object has its key. -/
theorem lookup_snapshot (cls : EntityClass) (columns : Name → Value) :
    (cls.snapshotOf columns).lookup cls.primaryKey = some (columns cls.primaryKey) := by
  rw [EntityClass.lookup_snapshotOf, if_pos cls.primaryKey_mem]

theorem setObject (h : RowsMatch env s) (key : Key) (object : Entity R)
    (hkey : ∀ tracked k, s.tracked key = some tracked → recordedPk env key tracked = some k →
      object.columns (env.classOf key).primaryKey = k) :
    RowsMatch env { s with heap := Function.update s.heap key object } where
  tracked key' tracked k htracked hk := by
    by_cases heq : key' = key
    · subst heq
      simp only [Function.update_self]
      exact hkey tracked k htracked hk
    · simp only [Function.update_of_ne heq]
      exact h.tracked key' tracked k htracked hk
  checkpoints := h.checkpoints

theorem setTracked (h : RowsMatch env s) (key : Key) (entry : Option TrackedEntity)
    (order : List Key) (history : List (Key × CheckpointEntry R))
    (hentry : ∀ tracked k, entry = some tracked → recordedPk env key tracked = some k →
      (s.heap key).columns (env.classOf key).primaryKey = k) :
    RowsMatch env { s with
      tracked := Function.update s.tracked key entry, trackedOrder := order, history } where
  tracked key' tracked k htracked hk := by
    dsimp only at htracked ⊢
    by_cases heq : key' = key
    · subst heq
      rw [Function.update_self] at htracked
      exact hentry tracked k htracked hk
    · rw [Function.update_of_ne heq] at htracked
      exact h.tracked key' tracked k htracked hk
  checkpoints := h.checkpoints

theorem updateTracked (h : RowsMatch env s) (key : Key) (f : TrackedEntity → TrackedEntity)
    (hf : ∀ tracked k, s.tracked key = some tracked → recordedPk env key (f tracked) = some k →
      (s.heap key).columns (env.classOf key).primaryKey = k) :
    RowsMatch env (s.updateTracked key f) := by
  unfold UowState.updateTracked
  split
  · rename_i tracked htracked
    apply h.setTracked key (some (f tracked)) s.trackedOrder s.history
    intro tracked' k heq hk
    obtain rfl := Option.some.inj heq
    exact hf tracked k htracked hk
  · exact h

theorem mem_emplace {c : Checkpoint R} {item other : Key × CheckpointEntry R}
    (h : other ∈ (c.emplace item).entries) : other ∈ c.entries ∨ other = item := by
  unfold Checkpoint.emplace at h
  split at h
  · exact .inl h
  · exact (List.mem_append.mp h).imp_right List.mem_singleton.mp

/-- An entry that the unit of work takes up holds the key of its object. -/
theorem track (h : RowsMatch env s) (key : Key) (tracked : TrackedEntity)
    (htracked : ∀ k, recordedPk env key tracked = some k →
      (s.heap key).columns (env.classOf key).primaryKey = k) :
    RowsMatch env (s.track env.classOf key tracked) := by
  have hset := h.setTracked key (some tracked)
    (if (s.tracked key).isNone then s.trackedOrder ++ [key] else s.trackedOrder)
    (s.history ++ [(key, s.captureEntry env.classOf false key tracked)])
    (fun tracked' k heq hk => by
      obtain rfl := Option.some.inj heq
      exact htracked k hk)
  refine ⟨hset.tracked, ?_⟩
  intro c hc
  obtain ⟨c₀, hc₀, rfl⟩ := List.mem_map.mp hc
  intro item hitem k hk
  obtain hold | rfl := mem_emplace hitem
  · exact h.checkpoints c₀ hc₀ item hold k hk
  · dsimp only [UowState.captureEntry, UowState.snapshot] at hk ⊢
    rw [lookup_snapshot, htracked k hk]

theorem erase (h : RowsMatch env s) (key : Key) : RowsMatch env (s.erase key) :=
  h.setTracked key none _ s.history fun _ _ hnone => nomatch hnone

theorem clear (s : UowState R) : RowsMatch env s.clear where
  tracked _ _ _ h := nomatch h
  checkpoints _ h := nomatch h

theorem refreshSnapshot (h : RowsMatch env s) (key : Key) :
    RowsMatch env (s.refreshSnapshot env.classOf key) := by
  apply h.updateTracked
  intro tracked k _ hk
  rw [recordedPk, UowState.snapshot, lookup_snapshot] at hk
  exact Option.some.inj hk

theorem beginCheckpoint (h : RowsMatch env s) : RowsMatch env (s.beginCheckpoint env.classOf) where
  tracked := h.tracked
  checkpoints c hc := by
    obtain rfl | hc := List.mem_cons.mp hc
    · intro item hitem k hk
      obtain ⟨key, -, hkey⟩ := List.mem_filterMap.mp hitem
      obtain ⟨tracked, htracked, rfl⟩ := Option.map_eq_some_iff.mp hkey
      dsimp only [UowState.captureEntry, UowState.snapshot] at hk ⊢
      rw [lookup_snapshot, h.tracked key tracked k htracked hk]
    · exact h.checkpoints c hc

theorem dropCheckpoint (h : RowsMatch env s) {c : Checkpoint R} {rest : List (Checkpoint R)}
    (hs : s.checkpoints = c :: rest) : RowsMatch env { s with checkpoints := rest } where
  tracked := h.tracked
  checkpoints c' hc' := h.checkpoints c' (hs ▸ List.mem_cons_of_mem c hc')

theorem restoreEntry (h : RowsMatch env s) (item : Key × CheckpointEntry R)
    (hitem : ∀ k, recordedPk env item.1 item.2.tracked = some k →
      item.2.current.lookup (env.classOf item.1).primaryKey = some k) :
    RowsMatch env (s.restoreEntry env.classOf item) where
  tracked key tracked k htracked hk := by
    dsimp only [UowState.restoreEntry] at htracked ⊢
    by_cases heq : key = item.1
    · subst heq
      rw [Function.update_self] at htracked
      split at htracked
      · obtain rfl := Option.some.inj htracked
        rw [Function.update_self]
        simp [EntityClass.restoreSnapshot, (env.classOf item.1).primaryKey_mem, hitem k hk]
      · cases htracked
    · rw [Function.update_of_ne heq] at htracked
      rw [Function.update_of_ne heq]
      exact h.tracked key tracked k htracked hk
  checkpoints := h.checkpoints

theorem rollbackCheckpoint (h : RowsMatch env s) {s' : UowState R}
    (hs : s.rollbackCheckpoint env.classOf = some s') : RowsMatch env s' := by
  unfold UowState.rollbackCheckpoint at hs
  split at hs
  · cases hs
  · rename_i c rest hcheckpoints
    obtain rfl := Option.some.inj hs
    have hitems := h.checkpoints c (hcheckpoints ▸ List.mem_cons_self)
    -- entry by entry
    have hloop : ∀ (entries : List (Key × CheckpointEntry R)) (s : UowState R), RowsMatch env s →
        (∀ item ∈ entries, ∀ k, recordedPk env item.1 item.2.tracked = some k →
          item.2.current.lookup (env.classOf item.1).primaryKey = some k) →
        RowsMatch env (entries.foldl (UowState.restoreEntry env.classOf) s) := by
      intro entries
      induction entries with
      | nil => exact fun _ h _ => h
      | cons item entries ih =>
        intro s h hentries
        rw [List.forall_mem_cons] at hentries
        exact ih _ (h.restoreEntry item hentries.1) hentries.2
    have hrestored := hloop c.entries _ (h.dropCheckpoint hcheckpoints) hitems
    exact ⟨hrestored.tracked, hrestored.checkpoints⟩

theorem rollbackAllCheckpoints (h : RowsMatch env s) :
    RowsMatch env (s.rollbackAllCheckpoints env.classOf) := by
  unfold UowState.rollbackAllCheckpoints
  generalize s.checkpoints = rounds
  induction rounds generalizing s with
  | nil => exact h
  | cons _ rounds ih =>
    have hround : RowsMatch env ((s.rollbackCheckpoint env.classOf).getD s) := by
      cases hround : s.rollbackCheckpoint env.classOf with
      | none => exact h
      | some s' => exact h.rollbackCheckpoint hround
    exact ih hround

end RowsMatch

/-! ### The identity map -/

section Identity

variable {env : Env D R} {w w' : World D R}

theorem IdentityMatch.congr (h : IdentityMatch env w)
    (hsub : ∀ type text key, w'.identity type text = some key →
      w.identity type text = some key ∧ livePk env w' key = livePk env w key) :
    IdentityMatch env w' := by
  intro type text key hkey
  obtain ⟨hold, hlive⟩ := hsub type text key hkey
  rw [hlive]
  exact h type text key hold

theorem identityMatch_empty (w : World D R) :
    IdentityMatch env { w with identity := fun _ _ => none } :=
  fun _ _ _ h => nomatch h

theorem exec_registerIdentity_eq (key : Key) (w : World D R) :
    exec (registerIdentity env key) w =
      (.ok (), if (env.classOf key).hasIdentityKey (livePk env w key) then
        { w with
          identity := Function.update w.identity (env.classOf key).type
            (Function.update (w.identity (env.classOf key).type) (env.valueKey (livePk env w key))
              (some key)) }
        else w) := by
  unfold registerIdentity getPk
  rw [exec_bind_ok (by rfl)]
  by_cases h : (env.classOf key).hasIdentityKey (livePk env w key) = true
  · rw [if_pos h]
    exact congrArg (fun p => exec p w) (if_pos h)
  · rw [if_neg h]
    exact congrArg (fun p => exec p w) (if_neg h)

/-- Registering an object adds its own key. -/
theorem IdentityMatch.register (h : IdentityMatch env w) (key : Key) :
    ∃ identity, exec (registerIdentity env key) w = (.ok (), { w with identity := identity }) ∧
      IdentityMatch env { w with identity := identity } := by
  rw [exec_registerIdentity_eq]
  split
  · rename_i hkey
    refine ⟨_, rfl, ?_⟩
    intro type text key' hkey'
    dsimp only at hkey'
    by_cases htype : type = (env.classOf key).type
    · subst htype
      rw [Function.update_self] at hkey'
      by_cases htext : text = env.valueKey (livePk env w key)
      · subst htext
        rw [Function.update_self, Option.some.injEq] at hkey'
        subst hkey'
        exact ⟨rfl, rfl, hkey⟩
      · rw [Function.update_of_ne htext] at hkey'
        exact h _ _ _ hkey'
    · rw [Function.update_of_ne htype] at hkey'
      exact h _ _ _ hkey'
  · exact ⟨w.identity, rfl, h⟩

/-- The identity map after `rebuild_identity_map`, whatever it was before. -/
theorem identityMatch_rebuild (w : World D R) :
    ∃ identity, exec (rebuildIdentityMap env) w = (.ok (), { w with identity := identity }) ∧
      IdentityMatch env { w with identity := identity } := by
  have hloop : ∀ (keys : List Key) (w : World D R), IdentityMatch env w → ∃ identity,
      exec (keys.forM (registerIdentity env)) w = (.ok (), { w with identity := identity }) ∧
        IdentityMatch env { w with identity := identity } := by
    intro keys
    induction keys with
    | nil => exact fun w h => ⟨w.identity, rfl, h⟩
    | cons key keys ih =>
      intro w h
      obtain ⟨identity, hkey, hmatch⟩ := h.register key
      rw [Prog.forM_cons, exec_bind_ok hkey]
      exact ih _ hmatch
  exact hloop w.uow.keys _ (identityMatch_empty w)

/-- What happens to the identity map when one object changes. -/
theorem IdentityMatch.setObject (h : IdentityMatch env w) (key : Key) (object : Entity R)
    (s : UowState R) (hheap : s.heap = Function.update w.uow.heap key object)
    (hkey : Registered w key → object.columns (env.classOf key).primaryKey = livePk env w key) :
    IdentityMatch env { w with uow := s } := by
  apply h.congr
  intro type text key' hkey'
  refine ⟨hkey', ?_⟩
  unfold livePk
  rw [hheap]
  by_cases heq : key' = key
  · subst heq
    rw [Function.update_self]
    exact hkey ⟨type, text, hkey'⟩
  · rw [Function.update_of_ne heq]

theorem IdentityMatch.sameHeap (h : IdentityMatch env w) (s : UowState R)
    (hheap : s.heap = w.uow.heap) : IdentityMatch env { w with uow := s } := by
  apply h.congr
  intro type text key hkey
  refine ⟨hkey, ?_⟩
  unfold livePk
  rw [hheap]

end Identity

/-! ### What flushing one key does to the keys -/

section Flush

variable {env : Env D R} {w : World D R} {key : Key}

/-- The keys agree after, if they did before. -/
def Keeping (env : Env D R) (w w' : World D R) : Prop := KeysMatch env w → KeysMatch env w'

instance : IsPreorder (World D R) (Keeping env) where
  refl _ h := h
  trans _ _ _ h h' hw := h' (h hw)

theorem KeysMatch.setDb (h : KeysMatch env w) (db : D) : KeysMatch env { w with db := db } :=
  ⟨h.rows, h.identity⟩

/-- The object after its `INSERT`, with the generated key if there was none. -/
theorem KeysMatch.inserted (h : KeysMatch env w) (columns : Name → Value)
    (hcolumns : columns (env.classOf key).primaryKey = livePk env w key ∨
      (env.classOf key).hasIdentityKey (livePk env w key) = false) :
    KeysMatch env { w with uow := (w.uow.setColumns key columns).updateTracked key fun _ =>
      ⟨.managed, (w.uow.setColumns key columns).snapshot env.classOf key⟩ } where
  rows := by
    unfold UowState.updateTracked
    cases htracked : w.uow.tracked key with
    | none =>
      -- the object is not tracked any more
      have hset := h.rows.setObject key { w.uow.heap key with columns }
        (fun tracked _ h' => nomatch htracked.symm.trans h')
      simpa only [UowState.setColumns, htracked] using hset
    | some tracked =>
      -- forget the entry, change the object, enter the new entry
      have hforget := h.rows.setTracked key none w.uow.trackedOrder w.uow.history
        fun _ _ hnone => nomatch hnone
      have hset := hforget.setObject key { w.uow.heap key with columns } (fun tracked _ h' => by
        dsimp only at h'
        rw [Function.update_self] at h'
        cases h')
      have hentry := hset.setTracked key
        (some ⟨.managed, (w.uow.setColumns key columns).snapshot env.classOf key⟩)
        w.uow.trackedOrder w.uow.history (fun tracked k heq hk => by
          obtain rfl := Option.some.inj heq
          rw [recordedPk, UowState.snapshot, RowsMatch.lookup_snapshot] at hk
          exact Option.some.inj hk)
      simpa only [UowState.setColumns, htracked, Function.update_idem] using hentry
  identity := by
    have hset := h.identity.setObject key { w.uow.heap key with columns }
      (w.uow.setColumns key columns) rfl
      (by
        rintro ⟨type, text, hregistered⟩
        obtain hsame | hnone := hcolumns
        · exact hsame
        · rw [(h.identity type text key hregistered).2.2] at hnone
          cases hnone)
    exact hset.sameHeap _ (UowState.updateTracked_frame _ _ _).1

theorem KeysMatch.register (h : KeysMatch env w) (key : Key) :
    ∃ identity, exec (registerIdentity env key) w = (.ok (), { w with identity := identity }) ∧
      KeysMatch env { w with identity := identity } := by
  obtain ⟨identity, hexec, hmatch⟩ := h.identity.register key
  exact ⟨identity, hexec, h.rows, hmatch⟩

theorem insertProgram_keeping (key : Key) :
    Preserves (Keeping env) (SessionEvent.insertProgram env key) := by
  intro w h
  unfold SessionEvent.insertProgram
  have hcolumns : exec (getColumns key) w = (.ok (w.uow.heap key).columns, w) := rfl
  rw [exec_bind_ok hcolumns, exec_bind, exec_execute]
  generalize env.executor.execute (insertStatement env (env.classOf key) (w.uow.heap key).columns)
    w.db = executed
  obtain ⟨result, db⟩ := executed
  have hdb := h.setDb db
  cases result with
  | error e => exact hdb
  | ok result =>
    dsimp only
    -- the entry and the identity after the key was assigned
    have hrest : ∀ columns : Name → Value,
        (columns (env.classOf key).primaryKey = livePk env w key ∨
          (env.classOf key).hasIdentityKey (livePk env w key) = false) →
        KeysMatch env (exec (do
          SessionM.modifyUow fun s =>
            s.updateTracked key fun _ => ⟨.managed, s.snapshot env.classOf key⟩
          registerIdentity env key)
            { w with db := db, uow := w.uow.setColumns key columns }).2 := by
      intro columns hcolumns
      have hinserted := hdb.inserted columns hcolumns
      obtain ⟨identity, hexec, hmatch⟩ := hinserted.register key
      rw [exec_bind_ok (exec_modifyUow _ _), hexec]
      exact hmatch
    unfold assignGeneratedKey
    cases hneeds : needsGeneratedKey (env.classOf key)
        ((w.uow.heap key).columns (env.classOf key).primaryKey) with
    | false =>
      have hsame := hrest (w.uow.heap key).columns (.inl rfl)
      simpa [UowState.setColumns] using hsame
    | true =>
      simp only [if_true]
      cases generatedKey env (env.classOf key).primaryKey result with
      | error e => exact hdb
      | ok value =>
        refine hrest (Function.update (w.uow.heap key).columns (env.classOf key).primaryKey value)
          (.inr ?_)
        -- an object without a key is not registered
        simp only [needsGeneratedKey, Bool.and_eq_true] at hneeds
        unfold EntityClass.hasIdentityKey livePk
        rw [hneeds.1, hneeds.2]
        simp

theorem execute_keeping (statement : Statement) :
    Preserves (Keeping env) (execute env statement) := by
  intro w h
  rw [exec_execute]
  exact h.setDb _

/-- A change of the unit of work that leaves the objects alone. -/
theorem modifyUow_keeping {f : UowState R → UowState R}
    (hrows : ∀ s, RowsMatch env s → RowsMatch env (f s)) (hheap : ∀ s, (f s).heap = s.heap) :
    Preserves (Keeping env) (SessionM.modifyUow f : SessionM D R Unit) := by
  intro w h
  exact ⟨hrows w.uow h.rows, h.identity.sameHeap _ (hheap w.uow)⟩

theorem eraseIdentity_keeping (key : Key) (pk : Value) :
    Preserves (Keeping env) (eraseIdentity env key pk) := by
  intro w h
  refine ⟨h.rows, h.identity.congr ?_⟩
  intro type text key' hkey'
  refine ⟨?_, rfl⟩
  replace hkey' : Function.update w.identity (env.classOf key).type
    (Function.update (w.identity (env.classOf key).type) (env.valueKey pk) none) type text =
      some key' := hkey'
  by_cases htype : type = (env.classOf key).type
  · subst htype
    rw [Function.update_self] at hkey'
    by_cases htext : text = env.valueKey pk
    · subst htext
      rw [Function.update_self] at hkey'
      cases hkey'
    · rwa [Function.update_of_ne htext] at hkey'
  · rwa [Function.update_of_ne htype] at hkey'

theorem registerIdentity_keeping (key : Key) :
    Preserves (Keeping env) (registerIdentity env key) := by
  intro w h
  obtain ⟨identity, hexec, hmatch⟩ := h.register key
  rw [hexec]
  exact hmatch

theorem updateProgram_keeping (key : Key) (current original : Snapshot) :
    Preserves (Keeping env) (SessionEvent.updateProgram env key current original) := by
  have hrefresh : Preserves (Keeping env)
      (SessionM.modifyUow (·.refreshSnapshot env.classOf key) : SessionM D R Unit) :=
    modifyUow_keeping (fun _ h => h.refreshSnapshot key)
      fun s => (UowState.updateTracked_frame s key _).1
  exact (getPk_preserves env key).bind fun pk => (execute_keeping _).bind fun _ => hrefresh

theorem deleteProgram_keeping (key : Key) :
    Preserves (Keeping env) (SessionEvent.deleteProgram env key) := by
  have herase : Preserves (Keeping env)
      (SessionM.modifyUow (·.erase key) : SessionM D R Unit) :=
    modifyUow_keeping (fun _ h => h.erase key) fun _ => rfl
  exact (getPk_preserves env key).bind fun pk => (execute_keeping _).bind fun _ =>
    (eraseIdentity_keeping key pk).bind fun _ => herase

end Flush

/-! ### Events -/

section Events

variable {env : Env D R} {w : World D R}

/-- A rollback of checkpoints, and the identity map for what they leave. -/
theorem KeysMatch.rebuilt {s : UowState R} (h : RowsMatch env s) (w : World D R) :
    KeysMatch env (exec (rebuildIdentityMap env) { w with uow := s }).2 := by
  obtain ⟨identity, hexec, hmatch⟩ : ∃ identity, _ ∧ IdentityMatch env _ :=
    identityMatch_rebuild { w with uow := s }
  rw [hexec]
  exact ⟨h, hmatch⟩

theorem updateStatus_keeping (key : Key) (status : EntityStatus) :
    Preserves (Keeping env) (SessionM.modifyUow (·.updateTracked key
      fun tracked => { tracked with status }) : SessionM D R Unit) :=
  modifyUow_keeping
    (fun _ h => h.updateTracked key _ fun tracked k htracked hk =>
      h.tracked key tracked k htracked hk)
    fun s => (UowState.updateTracked_frame s key _).1

theorem track_keeping (key : Key) (status : EntityStatus) :
    Preserves (Keeping env) (track env key status) := by
  intro w h
  have hsnapshot : exec (snapshot env key) w = (.ok (w.uow.snapshot env.classOf key), w) := rfl
  unfold track
  rw [exec_bind_ok hsnapshot, exec_bind_ok (exec_modifyUow _ _)]
  -- the entry has the key of the object, or none
  have hrows := h.rows.track key
    ⟨status, if status = .new then [] else w.uow.snapshot env.classOf key⟩ (fun k hk => by
      unfold recordedPk at hk
      dsimp only at hk
      split at hk
      · cases hk
      · rw [UowState.snapshot, RowsMatch.lookup_snapshot] at hk
        exact Option.some.inj hk)
  have htracked := h.identity.sameHeap (w.uow.track env.classOf key
    ⟨status, if status = .new then [] else w.uow.snapshot env.classOf key⟩) rfl
  refine Preserves.bind (P := Keeping env) ?_ (fun _ => registerIdentity_keeping key) _
    ⟨hrows, htracked⟩
  intro w h
  refine ⟨h.rows.setObject key _ fun tracked k => h.rows.tracked key tracked k, ?_⟩
  exact h.identity.setObject key _ _ rfl fun _ => rfl

theorem persist_keeping (key : Key) : Preserves (Keeping env) (persist env key) := by
  refine Preserves.get.bind fun w => ?_
  split
  · exact .ite (fun _ => updateStatus_keeping key .managed) fun _ => .pure _
  · exact (getPk_preserves env key).bind fun _ => track_keeping key _

/-- An event that leaves the keys alone keeps them in step. -/
theorem KeysMatch.next (h : KeysMatch env w) (e : SessionEvent D R) (hkeeps : KeepsKeys env w e) :
    KeysMatch env (SessionEvent.next env w e) := by
  cases e with
  | assign key columns =>
    have hkey := hkeeps key columns rfl
    constructor
    · apply h.rows.setObject key
      intro tracked k htracked hk
      have hrow : rowKey env w key = some k := by
        rw [rowKey, htracked]
        exact hk
      rw [← h.rows.tracked key tracked k htracked hk]
      exact hkey (.inl (by rw [hrow]; rfl))
    · exact h.identity.setObject key _ _ rfl fun hregistered => hkey (.inr hregistered)
  | assignRuntime key runtime =>
    refine ⟨h.rows.setObject key _ fun tracked k => h.rows.tracked key tracked k, ?_⟩
    exact h.identity.setObject key _ _ rfl fun _ => rfl
  | track key status => exact track_keeping key status w h
  | persist key => exact persist_keeping key w h
  | remove key => exact updateStatus_keeping key .removed w h
  | refreshSnapshot key =>
    exact ⟨h.rows.refreshSnapshot key,
      h.identity.sameHeap _ (UowState.updateTracked_frame w.uow key _).1⟩
  | insertWrite key => exact insertProgram_keeping key w h
  | updateWrite key current original => exact updateProgram_keeping key current original w h
  | deleteWrite key => exact deleteProgram_keeping key w h
  | beginCheckpoint => exact ⟨h.rows.beginCheckpoint, h.identity.sameHeap _ rfl⟩
  | commitCheckpoint =>
    show KeysMatch env (exec commitCheckpoint w).2
    unfold commitCheckpoint
    rw [exec_bind_ok (exec_get w)]
    unfold UowState.commitCheckpoint
    cases hcheckpoints : w.uow.checkpoints with
    | nil => exact h
    | cons c rest => exact ⟨h.rows.dropCheckpoint hcheckpoints, h.identity.sameHeap _ rfl⟩
  | rollbackCheckpoint =>
    show KeysMatch env (exec (rollbackCheckpointIfOpen env >>= fun _ => rebuildIdentityMap env) w).2
    unfold rollbackCheckpointIfOpen
    rw [exec_bind, exec_bind_ok (exec_get w)]
    cases hs : w.uow.rollbackCheckpoint env.classOf with
    | none => exact KeysMatch.rebuilt h.rows w
    | some s => exact KeysMatch.rebuilt (h.rows.rollbackCheckpoint hs) w
  | rollbackAllCheckpoints =>
    exact KeysMatch.rebuilt h.rows.rollbackAllCheckpoints w
  | forgetAll => exact ⟨.clear w.uow, fun _ _ _ h => nomatch h⟩
  | other change huow hidentity =>
    show KeysMatch env (change w)
    refine ⟨by rw [huow]; exact h.rows, h.identity.congr ?_⟩
    intro type text key hkey
    rw [hidentity] at hkey
    exact ⟨hkey, by rw [livePk, huow]; rfl⟩

/-! ### Runs -/

/-- The rows that a statement addresses. -/
def Statement.wheres : Statement → List (Name × Value)
  | .insert .. => []
  | .update _ _ wheres | .delete _ wheres => wheres

/-- The UPDATE or DELETE that an event issues, and the entity it is about. -/
def SessionEvent.issued (env : Env D R) (w : World D R) :
    SessionEvent D R → Option (Key × Statement)
  | .updateWrite key current original =>
    some (key, updateStatement (env.classOf key) current original (livePk env w key))
  | .deleteWrite key =>
    some (key, .delete (env.classOf key).table [((env.classOf key).primaryKey, livePk env w key)])
  | _ => none

/-- The statement is what the event executes. -/
theorem SessionEvent.exec_issued {e : SessionEvent D R} {key : Key} {statement : Statement}
    (h : e.issued env w = some (key, statement)) :
    ∃ rest, exec (e.program env) w = exec (execute env statement >>= fun _ => rest) w := by
  cases e with
  | updateWrite key current original =>
    cases h
    exact ⟨_, rfl⟩
  | deleteWrite key =>
    cases h
    exact ⟨_, rfl⟩
  | _ => cases h

/-- An UPDATE or DELETE for an entity with a row is for that row. -/
def WritesOwnRow (env : Env D R) (w : World D R) (e : SessionEvent D R) : Prop :=
  ∀ key statement k, e.issued env w = some (key, statement) → rowKey env w key = some k →
    statement.table = (env.classOf key).table ∧
      statement.wheres = [((env.classOf key).primaryKey, k)]

/-- What the identity map has under a key has a row with that key. A `double` has a text of six
    digits, which is also that of other keys. -/
def FindsOwnRow (env : Env D R) (w : World D R) : Prop :=
  ∀ type v key k, w.identity type (env.valueKey v) = some key → rowKey env w key = some k →
    v.isDouble = false → k.isDouble = false → (env.classOf key).type = type ∧ k = v

theorem KeysMatch.livePk_eq (h : KeysMatch env w) {key : Key} {k : Value}
    (hrow : rowKey env w key = some k) : livePk env w key = k := by
  obtain ⟨tracked, htracked, hk⟩ := Option.bind_eq_some_iff.mp hrow
  exact h.rows.tracked key tracked k htracked hk

theorem KeysMatch.writesOwnRow (h : KeysMatch env w) (e : SessionEvent D R) :
    WritesOwnRow env w e := by
  intro key statement k hissued hrow
  cases e with
  | updateWrite key current original =>
    cases hissued
    exact ⟨rfl, by rw [← h.livePk_eq hrow]; rfl⟩
  | deleteWrite key =>
    cases hissued
    exact ⟨rfl, by rw [← h.livePk_eq hrow]; rfl⟩
  | _ => cases hissued

theorem KeysMatch.findsOwnRow (h : KeysMatch env w) (hkey : env.valueKey = valueKey) :
    FindsOwnRow env w := by
  intro type v key k hfound hrow hv hk
  obtain ⟨htype, htext, -⟩ := h.identity type _ key hfound
  rw [h.livePk_eq hrow, hkey] at htext
  exact ⟨htype, valueKey_injective hk hv htext⟩

theorem keysMatch_initial (heap : Key → Entity R) (db : D) :
    KeysMatch env (World.initial heap db) :=
  ⟨.initial heap, fun _ _ _ h => nomatch h⟩

/-- In a run that changes the primary key member of no entity while it has a row or is in the
    identity map: every UPDATE and DELETE of `flush` for an entity with a row addresses the row
    under whose key the entity was loaded or last written, and what the identity map finds for a
    key has that key in the database. -/
theorem writes_own_row (env : Env D R) (hkey : env.valueKey = valueKey) (heap : Key → Entity R)
    (db : D) (events : List (SessionEvent D R))
    (hkeeps : AlongEvents (SessionEvent.next env) (KeepsKeys env) (World.initial heap db) events) :
    AlongEvents (SessionEvent.next env) (WritesOwnRow env) (World.initial heap db) events ∧
      FindsOwnRow env (runEvents (SessionEvent.next env) (World.initial heap db) events) := by
  have hinitial : KeysMatch env (World.initial heap db) := keysMatch_initial heap db
  have hstep : ∀ w e, KeysMatch env w → KeepsKeys env w e →
      KeysMatch env (SessionEvent.next env w e) := fun _ e h hkeeps => h.next e hkeeps
  constructor
  · exact hkeeps.imp_of_invariant hstep (fun _ e h _ => h.writesOwnRow e) hinitial
  · exact (hkeeps.invariant hstep hinitial).findsOwnRow hkey

end Events

/-! ### A user whose key is changed -/

private def keyedEnv : Env Unit Unit := { quietEnv with valueKey := valueKey }

private def emptyWorld : World Unit Unit := World.initial (fun _ => ⟨fun _ => .null, ()⟩) ()

private def user (id : Int64) (name : String) : Name → Value := fun column =>
  if column = .ofAscii "id" then .int64 id else .string (.ofAscii name)

/-- User `1` is loaded, the members of the object are assigned, and `flush` finds it dirty. -/
private def loadAndUpdate (id : Int64) : List (SessionEvent Unit Unit) :=
  [.assign 0 (user 1 "Ann"), .track 0 .managed, .assign 0 (user id "Bob"),
    .updateWrite 0 (userClass.snapshotOf (user id "Bob")) (userClass.snapshotOf (user 1 "Ann"))]

private theorem keepsKeys_new : KeepsKeys keyedEnv emptyWorld (.assign 0 (user 1 "Ann")) := by
  intro key columns he h
  cases he
  obtain h | ⟨type, text, h⟩ := h
  · cases h
  · cases h

/-- The name is changed. -/
theorem writes_own_row_user :
    AlongEvents (SessionEvent.next keyedEnv) (WritesOwnRow keyedEnv) emptyWorld (loadAndUpdate 1) ∧
      FindsOwnRow keyedEnv
        (runEvents (SessionEvent.next keyedEnv) emptyWorld (loadAndUpdate 1)) := by
  apply writes_own_row keyedEnv rfl
  refine ⟨keepsKeys_new, fun _ _ => nofun, ?_, fun _ _ => nofun, trivial⟩
  intro key columns he _
  cases he
  rfl

/-- The key of user `1` is changed to `2`, and so the UPDATE is for the row of user `2`. -/
theorem writes_other_row : ¬ ∀ (env : Env Unit Unit), env.valueKey = valueKey →
    ∀ (heap : Key → Entity Unit) (db : Unit) (events : List (SessionEvent Unit Unit)),
      AlongEvents (SessionEvent.next env) (WritesOwnRow env) (World.initial heap db) events ∧
        FindsOwnRow env (runEvents (SessionEvent.next env) (World.initial heap db) events) := by
  intro hown
  obtain ⟨⟨-, -, -, hupdate, -⟩, -⟩ :=
    hown keyedEnv rfl (fun _ => ⟨fun _ => .null, ()⟩) () (loadAndUpdate 2)
  have hwheres := (hupdate 0 _ (.int64 1) rfl rfl).2
  exact absurd hwheres (by decide)

/-! ## The functions of a session -/

section Functions

variable {env : Env D R}

/-- What happens between two states are events that leave the keys alone. -/
def Keyed (env : Env D R) (w w' : World D R) : Prop :=
  ∃ events, AlongEvents (SessionEvent.next env) (KeepsKeys env) w events ∧
    runEvents (SessionEvent.next env) w events = w'

instance : IsPreorder (World D R) (Keyed env) where
  refl w := ⟨[], trivial, rfl⟩
  trans u v w := by
    rintro ⟨events, hkeeps, rfl⟩ ⟨events', hkeeps', rfl⟩
    exact ⟨events ++ events', hkeeps.append hkeeps', runEvents_append _ _ _ _⟩

theorem Keyed.event {w : World D R} (e : SessionEvent D R)
    (he : ∀ key columns, e ≠ .assign key columns) : Keyed env w (SessionEvent.next env w e) :=
  ⟨[e], ⟨fun key columns h => absurd h (he key columns), trivial⟩, rfl⟩

/-- The program of an event. -/
theorem keyed_program (e : SessionEvent D R) (he : ∀ key columns, e ≠ .assign key columns) :
    Preserves (Keyed env) (e.program env) := fun _ => .event e he

/-- A change of the connection or of what a session counts. -/
theorem Keyed.other {w w' : World D R} (huow : w'.uow = w.uow)
    (hidentity : w'.identity = w.identity) : Keyed env w w' := by
  have hevent : Keyed env w (SessionEvent.next env w (.other
      (fun v => { w' with uow := v.uow, identity := v.identity }) (fun _ => rfl) fun _ => rfl)) :=
    .event _ fun _ _ => nofun
  have heq : SessionEvent.next env w (.other
      (fun v => { w' with uow := v.uow, identity := v.identity }) (fun _ => rfl) fun _ => rfl) =
        w' := by
    show { w' with uow := w.uow, identity := w.identity } = w'
    rw [← huow, ← hidentity]
  rwa [heq] at hevent

theorem flushInsert_eq (key : Key) : flushInsert env key =
    (env.runTableHook .beforeInsert key >>= fun _ => SessionEvent.insertProgram env key >>= fun _ =>
      env.runTableHook .afterInsert key) := by
  simp only [flushInsert, SessionEvent.insertProgram, bind_assoc]

theorem flushUpdateIfDirty_eq (key : Key) (tracked : TrackedEntity) :
    flushUpdateIfDirty env key tracked = (snapshot env key >>= fun current =>
      if (changedColumns (env.classOf key) current tracked.original).isEmpty then pure () else
        env.runTableHook .beforeUpdate key >>= fun _ =>
          SessionEvent.updateProgram env key current tracked.original >>= fun _ =>
            env.runTableHook .afterUpdate key) := by
  simp only [flushUpdateIfDirty, SessionEvent.updateProgram, bind_assoc]

theorem flushDelete_eq (key : Key) : flushDelete env key =
    (env.runTableHook .beforeDelete key >>= fun _ => SessionEvent.deleteProgram env key >>= fun _ =>
      env.runTableHook .afterDelete key) := by
  simp only [flushDelete, SessionEvent.deleteProgram, bind_assoc]

variable (callbacks : ∀ p, env.Callback p → Preserves (Keyed env) p)

include callbacks

theorem flushKey_keyed (key : Key) : Preserves (Keyed env) (flushKey env key) := by
  refine Preserves.get.bind fun w => ?_
  split
  · exact .pure _
  · split
    · rw [flushInsert_eq]
      exact (callbacks _ (.hook _ key)).bind fun _ =>
        (keyed_program (.insertWrite key) fun _ _ => nofun).bind fun _ => callbacks _ (.hook _ key)
    · rename_i tracked _ _ _
      rw [flushUpdateIfDirty_eq]
      exact (snapshot_preserves env key).bind fun current => .ite (fun _ => .pure _) fun _ =>
        (callbacks _ (.hook _ key)).bind fun _ =>
        (keyed_program (.updateWrite key current tracked.original) fun _ _ => nofun).bind fun _ =>
        callbacks _ (.hook _ key)
    · rw [flushDelete_eq]
      exact (callbacks _ (.hook _ key)).bind fun _ =>
        (keyed_program (.deleteWrite key) fun _ _ => nofun).bind fun _ => callbacks _ (.hook _ key)
    · exact .pure _

theorem flush_keyed : Preserves (Keyed env) (flush env) :=
  Preserves.get.bind fun _ => .forM fun key _ => flushKey_keyed callbacks key

theorem flushPipeline_keyed : Preserves (Keyed env) (flushPipeline env) :=
  (Preserves.forM fun i hi => callbacks _ (.beforeFlush i hi)).bind fun _ =>
  (prepareRounds_preserves env (fun key => callbacks _ (.prepareRelations key)) _ _).bind fun _ =>
  (flush_keyed callbacks).bind fun _ => (processRelations_preserves env callbacks).bind fun _ =>
  (flush_keyed callbacks).bind fun _ => .forM fun i hi => callbacks _ (.afterFlush i hi)

omit callbacks

theorem acceptRelations_keyed : Preserves (Keyed env) (acceptRelations env) :=
  Preserves.get.bind fun _ => forM_keys_preserves
    (fun key w => .event (.assignRuntime key (env.acceptRelations key (w.uow.heap key).runtime))
      fun _ _ => nofun) _

theorem transactionCall_keyed (call : Bool → Call) (run : D → Except Exn Unit × D) :
    Preserves (Keyed env) (SessionM.transactionCall call run : SessionM D R Unit) := by
  intro w
  obtain ⟨db, h⟩ | ⟨e, db, h⟩ := exec_transactionCall call run w
  · rw [h]
    exact .other rfl rfl
  · rw [h]
    exact .other rfl rfl

theorem ignoreErrors_keyed {p : SessionM D R Unit} (h : Preserves (Keyed env) p) :
    Preserves (Keyed env) (ignoreErrors p) := h.tryCatch fun _ => .pure _

theorem throwIfRollbackOnly_keyed : Preserves (Keyed env) (throwIfRollbackOnly : SessionM D R Unit) :=
  Preserves.get.bind fun _ => .ite (fun _ => .throw _) fun _ => .pure _

/-- `rollback_checkpoint` and `rebuild_identity_map` are one event. -/
theorem rollbackCheckpoint_keyed {p : SessionM D R α} (hp : Preserves (Keyed env) p) :
    Preserves (Keyed env)
      (rollbackCheckpointIfOpen env >>= fun _ => rebuildIdentityMap env >>= fun _ => p) := by
  rw [← bind_assoc]
  exact (keyed_program .rollbackCheckpoint fun _ _ => nofun).bind fun _ => hp

theorem finishTransactionScope_keyed :
    Preserves (Keyed env) (finishTransactionScope : SessionM D R Unit) := by
  intro w
  apply Keyed.other
  · show (if w.transactionDepth - 1 = 0 then _ else _ : World D R).uow = w.uow
    split <;> rfl
  · show (if w.transactionDepth - 1 = 0 then _ else _ : World D R).identity = w.identity
    split <;> rfl

theorem rollbackTransactionScope_keyed (outermost : Bool) (name : List UInt8) :
    Preserves (Keyed env) (rollbackTransactionScope env outermost name) := by
  have hdatabase : Preserves (Keyed env) (rollbackDatabaseScope env outermost name) := by
    apply Preserves.ite
    · exact fun _ => ignoreErrors_keyed (transactionCall_keyed _ _)
    · intro _
      exact Preserves.bind (fun w => .other rfl rfl) fun _ =>
        ignoreErrors_keyed (transactionCall_keyed _ _)
  exact hdatabase.bind fun _ => rollbackCheckpoint_keyed finishTransactionScope_keyed

include callbacks

theorem commitBody_keyed : Preserves (Keyed env) (commitBody env) :=
  (transactionCall_keyed _ _).bind fun _ => (flushPipeline_keyed callbacks).bind fun _ =>
  acceptRelations_keyed.bind fun _ => (transactionCall_keyed _ _).bind fun _ =>
  keyed_program .commitCheckpoint fun _ _ => nofun

/-- A call of `commit` is a run of events that leave the keys alone, if its callbacks are. -/
theorem commit_keyed : Preserves (Keyed env) (commit env) := by
  have hhandler : ∀ e : Exn, Preserves (Keyed env) (do
      ignoreErrors (rollbackTransaction env)
      rollbackCheckpointIfOpen env
      rebuildIdentityMap env
      throw e : SessionM D R Unit) := fun e =>
    (ignoreErrors_keyed (transactionCall_keyed _ _)).bind fun _ =>
      rollbackCheckpoint_keyed (.throw e)
  refine Preserves.get.bind fun w => .ite (fun _ => .throw _) fun _ => .ite (fun _ => ?_) fun _ => ?_
  · exact (flushPipeline_keyed callbacks).bind fun _ => acceptRelations_keyed.bind fun _ =>
      dispatchDomainEvents_preserves env callbacks
  · exact (keyed_program .beginCheckpoint fun _ _ => nofun).bind fun _ =>
      ((commitBody_keyed callbacks).tryCatch hhandler).bind fun _ =>
      dispatchDomainEvents_preserves env callbacks

theorem transactionBody_keyed {fn : SessionM D R α} (hfn : Preserves (Keyed env) fn)
    (outermost : Bool) (name : List UInt8) :
    Preserves (Keyed env) (transactionBody env outermost name fn) := by
  have hclose : Preserves (Keyed env) (closeDatabaseScope env outermost name) :=
    .ite (fun _ => transactionCall_keyed _ _) fun _ => transactionCall_keyed _ _
  have hwork : Preserves (Keyed env) (transactionWork env fn) :=
    hfn.bind fun _ => throwIfRollbackOnly_keyed.bind fun _ =>
    (flushPipeline_keyed callbacks).bind fun _ => throwIfRollbackOnly_keyed.bind fun _ =>
    acceptRelations_keyed.bind fun _ => .pure _
  exact hwork.bind fun _ => hclose.bind fun _ =>
    (keyed_program .commitCheckpoint fun _ _ => nofun).bind fun _ => .pure _

theorem transactionScope_keyed {fn : SessionM D R α} (hfn : Preserves (Keyed env) fn)
    (outermost : Bool) (name : List UInt8) :
    Preserves (Keyed env) (transactionScope env outermost name fn) := by
  have hdepth : Preserves (Keyed env) (modify fun w : World D R =>
      { w with transactionDepth := w.transactionDepth + 1 } : SessionM D R Unit) :=
    fun w => .other rfl rfl
  have hdispatch : Preserves (Keyed env) (dispatchWhenOutermost env outermost) :=
    .ite (fun _ => dispatchDomainEvents_preserves env callbacks) fun _ => .pure _
  exact (keyed_program .beginCheckpoint fun _ _ => nofun).bind fun _ => hdepth.bind fun _ =>
    ((transactionBody_keyed callbacks hfn outermost name).tryCatch fun e =>
      (rollbackTransactionScope_keyed outermost name).bind fun _ => .throw e).bind fun _ =>
    finishTransactionScope_keyed.bind fun _ => hdispatch.bind fun _ => .pure _

/-- A call of `transaction` is a run of events that leave the keys alone, if its callbacks are. -/
theorem transaction_keyed {fn : SessionM D R α} (hfn : Preserves (Keyed env) fn) :
    Preserves (Keyed env) (transaction env fn) := by
  have hclean : Preserves (Keyed env)
      (modify fun w : World D R => { w with rollbackOnly := false } : SessionM D R Unit) :=
    fun w => .other rfl rfl
  have hcount : Preserves (Keyed env) (modify fun w : World D R =>
      { w with savepointCounter := w.savepointCounter + 1 } : SessionM D R Unit) :=
    fun w => .other rfl rfl
  refine .ite (fun _ => ?_) fun _ => Preserves.get.bind fun w => .ite (fun _ => ?_) fun _ => ?_
  · exact hfn.bind fun _ => (commit_keyed callbacks).bind fun _ => .pure _
  · exact hclean.bind fun _ => (transactionCall_keyed _ _).bind fun _ =>
      transactionScope_keyed callbacks hfn true []
  · have hsupport : Preserves (Keyed env) (assertSavepointSupport env) :=
      .ite (fun _ => .pure _) fun _ => .throw _
    have hname : Preserves (Keyed env) (nextSavepointName : SessionM D R (List UInt8)) :=
      hcount.bind fun _ => Preserves.get.bind fun _ => .pure _
    exact hsupport.bind fun _ => hname.bind fun name => (transactionCall_keyed _ _).bind fun _ =>
      transactionScope_keyed callbacks hfn false name

end Functions

end MetalOrm.Native
