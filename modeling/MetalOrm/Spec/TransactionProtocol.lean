import MetalOrm.Spec.CheckpointRestore

/-!
# The transaction protocol

What `Session::transaction` sends to the executor, and what it leaves behind, for
every program of nested scopes and every executor whose calls may fail.

`Block` and `Scopes` are the grammars of the log of transaction calls. `Advance`
is what any session program may have done between two worlds: it keeps the depth
and the checkpoints that were open, its log follows the grammar, and
`rollback_only` records whether one of its inner scopes failed.

## Key results

- `Program.keeps`: every program only does what `Advance` allows
- `transaction_protocol`: what has happened when an outermost scope exits
-/

namespace MetalOrm.Native

open ForStd ForStd.Prog Session

variable {D R α : Type}

/-! ## The log of transaction calls -/

/-- The calls made inside a transaction while the savepoints `opened` are open.
    The flag says whether a scope that was opened there failed. -/
inductive Block : List (List UInt8) → Bool → List Call → Prop where
  | nil {opened} : Block opened false []
  | append {opened failed failed' log log'} : Block opened failed log →
      Block opened failed' log' → Block opened (failed || failed') (log ++ log')
  /-- `SAVEPOINT` threw: no scope was opened. -/
  | notOpened {opened} (name) : Block opened false [.savepoint name false]
  | released {opened name log} : name ∉ opened → Block (name :: opened) false log →
      Block opened false (.savepoint name true :: log ++ [.release name true])
  /-- A scope is rolled back without a `RELEASE`, or after one that threw. -/
  | rolledBack {opened name failed log attempt} (ok) : name ∉ opened →
      Block (name :: opened) failed log →
      attempt = [] ∨ failed = false ∧ attempt = [.release name false] →
      Block opened true (.savepoint name true :: log ++ attempt ++ [.rollbackTo name ok])

/-- The calls made outside of any transaction. -/
inductive Scopes : List Call → Prop where
  | nil : Scopes []
  | append {log log'} : Scopes log → Scopes log' → Scopes (log ++ log')
  /-- `BEGIN` threw. -/
  | notOpened : Scopes [.begin false]
  | committed {log} : Block [] false log → Scopes (.begin true :: log ++ [.commit true])
  /-- A transaction is rolled back without a `COMMIT`, or after one that threw. -/
  | rolledBack {failed log attempt} (ok) : Block [] failed log →
      attempt = [] ∨ failed = false ∧ attempt = [.commit false] →
      Scopes (.begin true :: log ++ attempt ++ [.rollback ok])

/-- A scope failed exactly when a `ROLLBACK TO` was attempted. -/
theorem Block.failed_iff {opened : List (List UInt8)} {failed : Bool} {log : List Call}
    (h : Block opened failed log) :
    failed = true ↔ ∃ name ok, Call.rollbackTo name ok ∈ log := by
  induction h with
  | nil => simp
  | append _ _ ih ih' =>
    simp only [Bool.or_eq_true, ih, ih', List.mem_append]
    constructor
    · rintro (⟨name, ok, h⟩ | ⟨name, ok, h⟩)
      · exact ⟨name, ok, .inl h⟩
      · exact ⟨name, ok, .inr h⟩
    · rintro ⟨name, ok, h | h⟩
      · exact .inl ⟨name, ok, h⟩
      · exact .inr ⟨name, ok, h⟩
  | notOpened name => simp
  | released _ _ ih => simpa using ih
  | @rolledBack opened name failed log attempt ok _ _ _ _ =>
    exact ⟨fun _ => ⟨name, ok, by simp⟩, fun _ => rfl⟩

/-- Inside a transaction nothing begins, commits or rolls back a transaction. -/
theorem Block.inner {opened : List (List UInt8)} {failed : Bool} {log : List Call}
    (h : Block opened failed log) (ok : Bool) :
    Call.begin ok ∉ log ∧ Call.commit ok ∉ log ∧ Call.rollback ok ∉ log := by
  induction h with
  | nil => simp
  | append _ _ ih ih' => simp [ih, ih']
  | notOpened name => simp
  | released _ _ ih => simp [ih]
  | rolledBack _ _ _ hattempt ih =>
    rcases hattempt with rfl | ⟨-, rfl⟩ <;> simp [ih]

/-! ## What a session program may do -/

/-- A world that a session can be in. -/
structure World.Ok (w : World D R) : Prop where
  inv : w.uow.Inv
  rollbackOnly : w.transactionDepth = 0 → w.rollbackOnly = false

/-- The savepoints that may be open when `counter` names have been handed out. -/
def OpenBelow (opened : List (List UInt8)) (counter : Nat) : Prop :=
  ∀ name ∈ opened, ∃ c, c ≤ counter ∧ name = savepointName c

theorem savepointName_injective {c d : Nat} (h : savepointName c = savepointName d) : c = d :=
  decimal_injective (List.append_cancel_left h)

/-- The next name is not that of an open savepoint. -/
theorem OpenBelow.next {opened : List (List UInt8)} {counter : Nat} (h : OpenBelow opened counter) :
    savepointName (counter + 1) ∉ opened ∧
    OpenBelow (savepointName (counter + 1) :: opened) (counter + 1) := by
  constructor
  · intro hmem
    obtain ⟨c, hc, heq⟩ := h _ hmem
    have := savepointName_injective heq
    omega
  · intro name hname
    rcases List.mem_cons.mp hname with rfl | hname
    · exact ⟨counter + 1, le_refl _, rfl⟩
    · obtain ⟨c, hc, rfl⟩ := h name hname
      exact ⟨c, by omega, rfl⟩

/-- The grammar of the log of a program that starts at this depth. -/
def WellScoped (depth counter : Nat) (failed : Bool) (log : List Call) : Prop :=
  if depth = 0 then failed = false ∧ Scopes log
  else ∀ opened, OpenBelow opened counter → Block opened failed log

/-- What a session program may have done between `w` and `w'`. -/
structure Advance (classOf : Key → EntityClass) (w w' : World D R) : Prop where
  inv : w'.uow.Inv
  uow : Extends classOf w.uow w'.uow
  depth : w'.transactionDepth = w.transactionDepth
  counter : w.transactionDepth ≠ 0 → w.savepointCounter ≤ w'.savepointCounter
  calls : ∃ log failed, w'.calls = w.calls ++ log ∧
    w'.rollbackOnly = (w.rollbackOnly || failed) ∧
    WellScoped w.transactionDepth w.savepointCounter failed log

variable {classOf : Key → EntityClass}

theorem WellScoped.nil (depth counter : Nat) : WellScoped depth counter false [] := by
  unfold WellScoped
  split
  · exact ⟨rfl, .nil⟩
  · exact fun _ _ => .nil

/-- Logs compose; the counter only matters inside a transaction. -/
theorem WellScoped.append {depth counter counter' : Nat} {failed failed' : Bool}
    {log log' : List Call} (h : WellScoped depth counter failed log)
    (hcounter : depth ≠ 0 → counter ≤ counter') (h' : WellScoped depth counter' failed' log') :
    WellScoped depth counter (failed || failed') (log ++ log') := by
  unfold WellScoped at *
  split
  · rename_i hdepth
    rw [if_pos hdepth] at h h'
    exact ⟨by simp [h.1, h'.1], h.2.append h'.2⟩
  · rename_i hdepth
    rw [if_neg hdepth] at h h'
    refine fun opened hopened => (h opened hopened).append (h' opened fun name hname => ?_)
    obtain ⟨c, hc, heq⟩ := hopened name hname
    exact ⟨c, le_trans hc (hcounter hdepth), heq⟩

/-- A change that the transaction bookkeeping does not see. -/
theorem Advance.of_eq {w w' : World D R} (hinv : w'.uow.Inv) (huow : Extends classOf w.uow w'.uow)
    (hdepth : w'.transactionDepth = w.transactionDepth)
    (hcounter : w'.savepointCounter = w.savepointCounter)
    (hrollbackOnly : w'.rollbackOnly = w.rollbackOnly) (hcalls : w'.calls = w.calls) :
    Advance classOf w w' where
  inv := hinv
  uow := huow
  depth := hdepth
  counter _ := le_of_eq hcounter.symm
  calls := ⟨[], false, by simp [hcalls], by simp [hrollbackOnly], .nil _ _⟩

theorem Advance.trans {u v w : World D R} (huv : Advance classOf u v)
    (hvw : Advance classOf v w) : Advance classOf u w where
  inv := hvw.inv
  uow := trans_of _ huv.uow hvw.uow
  depth := hvw.depth.trans huv.depth
  counter h := le_trans (huv.counter h) (hvw.counter (huv.depth ▸ h))
  calls := by
    obtain ⟨log, failed, hcalls, hrollbackOnly, hlog⟩ := huv.calls
    obtain ⟨log', failed', hcalls', hrollbackOnly', hlog'⟩ := hvw.calls
    rw [huv.depth] at hlog'
    exact ⟨log ++ log', failed || failed', by rw [hcalls', hcalls, List.append_assoc],
      by rw [hrollbackOnly', hrollbackOnly, Bool.or_assoc], hlog.append huv.counter hlog'⟩

theorem Advance.ok {w w' : World D R} (hw : w.Ok) (h : Advance classOf w w') : w'.Ok where
  inv := h.inv
  rollbackOnly hdepth := by
    rw [h.depth] at hdepth
    obtain ⟨log, failed, _, hrollbackOnly, hlog⟩ := h.calls
    rw [WellScoped, if_pos hdepth] at hlog
    rw [hrollbackOnly, hw.rollbackOnly hdepth, hlog.1, Bool.or_false]

/-- `Advance` from every world that a session can be in. -/
def Keeps (classOf : Key → EntityClass) (w w' : World D R) : Prop := w.Ok → Advance classOf w w'

instance : IsPreorder (World D R) (Keeps classOf) where
  refl _ hw := .of_eq hw.inv (refl_of _ _) rfl rfl rfl rfl
  trans _ _ _ huv hvw hu := (huv hu).trans (hvw ((huv hu).ok hu))

theorem admits_keeps : Admits classOf (Keeps classOf : World D R → World D R → Prop) where
  unit _ _ hstep hw := .of_eq (hw.inv.unitStep hstep) hstep.extends rfl rfl rfl rfl
  identity _ _ hw := .of_eq hw.inv (refl_of _ _) rfl rfl rfl rfl
  db _ _ hw := .of_eq hw.inv (refl_of _ _) rfl rfl rfl rfl

/-! ## Running the parts of a scope -/

section Parts

variable (env : Env D R)

/-- A transaction call returns or throws; either way it is in the log. -/
theorem exec_transactionCall (call : Bool → Call) (run : D → Except Exn Unit × D)
    (w : World D R) :
    (∃ db, exec (SessionM.transactionCall call run) w =
      (.ok (), { w with db := db, calls := w.calls ++ [call true] })) ∨
    (∃ e db, exec (SessionM.transactionCall call run) w =
      (.error e, { w with db := db, calls := w.calls ++ [call false] })) := by
  unfold SessionM.transactionCall
  rw [exec_bind_ok (exec_get w)]
  rcases run w.db with ⟨_ | _, db⟩
  · exact .inr ⟨_, db, rfl⟩
  · exact .inl ⟨db, rfl⟩

theorem exec_ignoreErrors (call : Bool → Call) (run : D → Except Exn Unit × D)
    (w : World D R) :
    ∃ ok db, exec (ignoreErrors (SessionM.transactionCall call run)) w =
      (.ok (), { w with db := db, calls := w.calls ++ [call ok] }) := by
  unfold ignoreErrors
  rw [exec_tryCatch]
  rcases exec_transactionCall call run w with ⟨db, h⟩ | ⟨e, db, h⟩
  · exact ⟨true, db, by rw [h]⟩
  · exact ⟨false, db, by rw [h]; rfl⟩

theorem exec_rebuildIdentityMap (w : World D R) :
    ∃ identity, exec (rebuildIdentityMap env) w =
      (.ok (), { w with identity := identity }) := by
  have hloop : ∀ (keys : List Key) (w : World D R), ∃ identity,
      exec (keys.forM (registerIdentity env)) w = (.ok (), { w with identity := identity }) := by
    intro keys
    induction keys with
    | nil => exact fun w => ⟨w.identity, rfl⟩
    | cons key keys ih =>
      intro w
      obtain ⟨identity, hkey⟩ := exec_registerIdentity env key w
      rw [Prog.forM_cons, exec_bind_ok hkey]
      exact ih _
  exact hloop w.uow.keys { w with identity := fun _ _ => none }

/-- `COMMIT` or `RELEASE`. -/
def closeCall (outermost : Bool) (name : List UInt8) : Bool → Call :=
  if outermost then .commit else .release name

/-- `ROLLBACK` or `ROLLBACK TO`. -/
def rollbackCall (outermost : Bool) (name : List UInt8) : Bool → Call :=
  if outermost then .rollback else .rollbackTo name

theorem exec_closeDatabaseScope (outermost : Bool) (name : List UInt8) (w : World D R) :
    (∃ db, exec (closeDatabaseScope env outermost name) w =
      (.ok (), { w with db := db, calls := w.calls ++ [closeCall outermost name true] })) ∨
    (∃ e db, exec (closeDatabaseScope env outermost name) w =
      (.error e, { w with db := db, calls := w.calls ++ [closeCall outermost name false] })) := by
  cases outermost
  · exact exec_transactionCall _ _ w
  · exact exec_transactionCall _ _ w

/-- A world after `finish_transaction_scope`, back at depth `depth`. -/
def World.finish (w : World D R) (depth : Nat) : World D R :=
  if depth = 0 then
    { w with transactionDepth := 0, rollbackOnly := false, savepointCounter := 0 }
  else { w with transactionDepth := depth }

theorem exec_finishTransactionScope {depth : Nat} {w : World D R}
    (hdepth : w.transactionDepth = depth + 1) :
    exec (finishTransactionScope : SessionM D R Unit) w = (.ok (), w.finish depth) := by
  unfold finishTransactionScope World.finish
  rw [exec_modify, hdepth, Nat.add_sub_cancel]
  by_cases h : depth = 0 <;> simp [h]

/-- Rolling a scope back never throws. -/
theorem exec_rollbackTransactionScope {outermost : Bool} {name : List UInt8} {depth : Nat}
    {w : World D R} {restored : UowState R} (hdepth : w.transactionDepth = depth + 1)
    (houtermost : outermost = decide (depth = 0))
    (hrollback : w.uow.rollbackCheckpoint env.classOf = some restored) :
    ∃ ok db identity, exec (rollbackTransactionScope env outermost name) w =
      (.ok (), World.finish
        { w with uow := restored, identity := identity, db := db, rollbackOnly := true
                 calls := w.calls ++ [rollbackCall outermost name ok] } depth) := by
  -- the database side: for the outermost scope `rollback_only` is reset at the end
  have hdatabase : ∃ ok db rollbackOnly, (outermost = false → rollbackOnly = true) ∧
      exec (rollbackDatabaseScope env outermost name) w =
        (.ok (), { w with db := db, rollbackOnly := rollbackOnly
                          calls := w.calls ++ [rollbackCall outermost name ok] }) := by
    cases outermost with
    | true =>
      obtain ⟨ok, db, h⟩ := exec_ignoreErrors .rollback env.executor.rollbackTransaction w
      exact ⟨ok, db, w.rollbackOnly, by simp, h⟩
    | false =>
      obtain ⟨ok, db, h⟩ := exec_ignoreErrors (.rollbackTo name)
        (env.executor.rollbackToSavepoint name) { w with rollbackOnly := true }
      exact ⟨ok, db, true, fun _ => rfl, h⟩
  obtain ⟨ok, db, rollbackOnly, hfalse, hexec⟩ := hdatabase
  unfold rollbackTransactionScope
  rw [exec_bind_ok hexec]
  have hcheckpoint : exec (rollbackCheckpointIfOpen env)
      { w with db := db, rollbackOnly := rollbackOnly
               calls := w.calls ++ [rollbackCall outermost name ok] } =
      (.ok (), { w with uow := restored, db := db, rollbackOnly := rollbackOnly
                        calls := w.calls ++ [rollbackCall outermost name ok] }) := by
    unfold rollbackCheckpointIfOpen
    rw [exec_bind_ok (exec_get _)]
    simp only [hrollback]
    rfl
  rw [exec_bind_ok hcheckpoint]
  obtain ⟨identity, hidentity⟩ := exec_rebuildIdentityMap env
    { w with uow := restored, db := db, rollbackOnly := rollbackOnly
             calls := w.calls ++ [rollbackCall outermost name ok] }
  rw [exec_bind_ok hidentity]
  refine ⟨ok, db, identity, (exec_finishTransactionScope (by exact hdepth)).trans ?_⟩
  unfold World.finish
  by_cases h : depth = 0
  · simp [h]
  · have houter : outermost = false := by simp [houtermost, h]
    simp [h, hfalse houter]

end Parts

/-! ## One scope -/

section Scope

variable (env : Env D R) (callbacks : ∀ p, env.Callback p → Preserves (Keeps env.classOf) p)
  {fn : SessionM D R α} (hfn : Preserves (Keeps env.classOf) fn)

theorem throwIfRollbackOnly_keeps :
    Preserves (Keeps classOf) (throwIfRollbackOnly : SessionM D R Unit) :=
  Preserves.get.bind fun _ => .ite (fun _ => .throw _) fun _ => .pure _

include callbacks hfn in
theorem transactionWork_keeps : Preserves (Keeps env.classOf) (transactionWork env fn) :=
  hfn.bind fun _ => throwIfRollbackOnly_keeps.bind fun _ =>
    (flushPipeline_preserves env admits_keeps callbacks).bind fun _ =>
    throwIfRollbackOnly_keeps.bind fun _ =>
    (acceptRelations_preserves env admits_keeps).bind fun _ => .pure _

/-- Once the work is done without an exception, no inner scope has failed. -/
theorem transactionWork_ok {w w' : World D R} {a : α}
    (h : exec (transactionWork env fn) w = (.ok a, w')) : w'.rollbackOnly = false := by
  unfold transactionWork at h
  obtain ⟨_, w₁, _, h⟩ := exec_bind_eq_ok.mp h
  obtain ⟨_, w₂, _, h⟩ := exec_bind_eq_ok.mp h
  obtain ⟨_, w₃, _, h⟩ := exec_bind_eq_ok.mp h
  obtain ⟨_, w₄, hcheck, h⟩ := exec_bind_eq_ok.mp h
  obtain ⟨_, w₅, haccept, h⟩ := exec_bind_eq_ok.mp h
  cases h
  -- `accept` only changes runtime members
  have hsame : IsPreorder (World D R) fun w w' => w'.rollbackOnly = w.rollbackOnly := {
    refl := fun _ => rfl
    trans := fun _ _ _ huv hvw => hvw.trans huv }
  have hadmits : Admits env.classOf fun w w' : World D R => w'.rollbackOnly = w.rollbackOnly :=
    ⟨fun _ _ _ => rfl, fun _ _ => rfl, fun _ _ => rfl⟩
  have hkept := acceptRelations_preserves env hadmits w₄
  rw [haccept] at hkept
  unfold throwIfRollbackOnly at hcheck
  rw [exec_bind_ok (exec_get w₃)] at hcheck
  cases hflag : w₃.rollbackOnly with
  | true => simp [hflag] at hcheck
  | false =>
    simp [hflag] at hcheck
    rw [hkept, ← hcheck, hflag]

/-- A world after `begin_checkpoint` and `++transaction_depth_`. -/
def World.enter (classOf : Key → EntityClass) (w : World D R) : World D R :=
  { w with uow := w.uow.beginCheckpoint classOf, transactionDepth := w.transactionDepth + 1 }

/-- How a scope ends that was opened in `w`; `v` is the world after its work. -/
inductive ScopeEnd (outermost : Bool) (name : List UInt8) (w : World D R) :
    Except Exn α × World D R → Prop where
  | closed {v uow} (a : α) (db : D) : Advance env.classOf (w.enter env.classOf) v →
      v.rollbackOnly = false → v.uow.commitCheckpoint = some uow →
      ScopeEnd outermost name w
        (exec (dispatchWhenOutermost env outermost >>= fun _ => pure a) (World.finish
          { v with uow := uow, db := db, calls := v.calls ++ [closeCall outermost name true] }
          w.transactionDepth))
  | rolledBack {v uow attempt} (e : Exn) (ok : Bool) (db : D)
      (identity : Nat → List UInt8 → Option Key) :
      Advance env.classOf (w.enter env.classOf) v →
      attempt = [] ∨ v.rollbackOnly = false ∧ attempt = [closeCall outermost name false] →
      v.uow.rollbackCheckpoint env.classOf = some uow →
      ScopeEnd outermost name w
        (.error e, World.finish
          { v with uow := uow, identity := identity, db := db, rollbackOnly := true
                   calls := v.calls ++ attempt ++ [rollbackCall outermost name ok] }
          w.transactionDepth)

theorem World.Ok.enter {w : World D R} (hw : w.Ok) : (w.enter classOf).Ok where
  inv := hw.inv.beginCheckpoint
  rollbackOnly h := by simp [World.enter] at h

include callbacks hfn in
/-- The `try` block either closes the database scope and drops its checkpoint, or
    throws before that. -/
theorem exec_transactionBody (outermost : Bool) (name : List UInt8) {w : World D R} (hw : w.Ok) :
    ∃ v, Advance env.classOf (w.enter env.classOf) v ∧
      ((∃ a uow db, v.rollbackOnly = false ∧ v.uow.commitCheckpoint = some uow ∧
        exec (transactionBody env outermost name fn) (w.enter env.classOf) =
          (.ok a, { v with uow := uow, db := db
                           calls := v.calls ++ [closeCall outermost name true] })) ∨
      (∃ e attempt db,
        (attempt = [] ∨ v.rollbackOnly = false ∧ attempt = [closeCall outermost name false]) ∧
        exec (transactionBody env outermost name fn) (w.enter env.classOf) =
          (.error e, { v with db := db, calls := v.calls ++ attempt }))) := by
  have hwork := transactionWork_keeps env callbacks hfn (w.enter env.classOf) hw.enter
  unfold transactionBody
  rcases hexec : exec (transactionWork env fn) (w.enter env.classOf) with ⟨r, v⟩
  rw [hexec] at hwork
  refine ⟨v, hwork, ?_⟩
  cases r with
  | error e =>
    refine .inr ⟨e, [], v.db, .inl rfl, ?_⟩
    rw [exec_bind_error hexec, List.append_nil]
  | ok a =>
    have hflag := transactionWork_ok env hexec
    rw [exec_bind_ok hexec]
    rcases exec_closeDatabaseScope env outermost name v with ⟨db, hclose⟩ | ⟨e, db, hclose⟩
    · obtain ⟨uow, huow, _⟩ := hwork.uow.commitCheckpoint
      refine .inl ⟨a, uow, db, hflag, huow, ?_⟩
      rw [exec_bind_ok hclose]
      unfold commitCheckpoint
      rw [exec_bind, exec_bind_ok (exec_get _)]
      simp only [huow]
      rfl
    · exact .inr ⟨e, _, db, .inr ⟨hflag, rfl⟩, exec_bind_error hclose _⟩

include callbacks hfn in
theorem transactionScope_end {outermost : Bool} {name : List UInt8} {w : World D R}
    (hw : w.Ok) (houtermost : outermost = decide (w.transactionDepth = 0)) :
    ScopeEnd env outermost name w (exec (transactionScope env outermost name fn) w) := by
  obtain ⟨v, hwork, hbody⟩ := exec_transactionBody env callbacks hfn outermost name hw
  have hdepth : v.transactionDepth = w.transactionDepth + 1 := hwork.depth
  have henter : exec (transactionScope env outermost name fn) w =
      exec (tryCatch (transactionBody env outermost name fn) (fun e => do
          rollbackTransactionScope env outermost name
          throw e) >>= fun result => do
        finishTransactionScope
        dispatchWhenOutermost env outermost
        return result) (w.enter env.classOf) := rfl
  rw [henter]
  rcases hbody with ⟨a, uow, db, hflag, huow, hexec⟩ | ⟨e, attempt, db, hattempt, hexec⟩
  · rw [exec_bind_ok (exec_tryCatch_ok hexec _),
      exec_bind_ok (exec_finishTransactionScope (by exact hdepth))]
    exact .closed a db hwork hflag huow
  · obtain ⟨restored, hrestored, _⟩ := hwork.uow.rollbackCheckpoint hw.inv hwork.inv
    let failed : World D R := { v with db := db, calls := v.calls ++ attempt }
    obtain ⟨ok, db', identity, hrollback⟩ :=
      exec_rollbackTransactionScope env (show failed.transactionDepth = _ from hdepth)
        houtermost hrestored
    rw [exec_bind_error ((exec_tryCatch_error hexec _).trans
      ((exec_bind_ok hrollback _).trans (exec_throw _ _)))]
    exact .rolledBack e ok db' identity hwork hattempt hrestored

/-- The log of the work of a scope is a block. -/
theorem Advance.block {w v : World D R} (h : Advance classOf (w.enter classOf) v) :
    ∃ log failed, v.calls = w.calls ++ log ∧ v.rollbackOnly = (w.rollbackOnly || failed) ∧
      ∀ opened, OpenBelow opened w.savepointCounter → Block opened failed log := by
  obtain ⟨log, failed, hcalls, hrollbackOnly, hlog⟩ := h.calls
  rw [WellScoped, if_neg (by simp [World.enter])] at hlog
  exact ⟨log, failed, hcalls, hrollbackOnly, hlog⟩

/-- What closing or rolling back leaves of the unit of work. -/
theorem Advance.popped {w v : World D R} {uow : UowState R} (hw : w.Ok)
    (h : Advance classOf (w.enter classOf) v)
    (huow : v.uow.commitCheckpoint = some uow ∨ v.uow.rollbackCheckpoint classOf = some uow) :
    uow.Inv ∧ Extends classOf w.uow uow := by
  rcases huow with huow | huow
  · obtain ⟨u, hu, hextends⟩ := h.uow.commitCheckpoint
    rw [huow, Option.some_inj] at hu
    exact ⟨h.inv.commitCheckpoint huow, hu ▸ hextends⟩
  · obtain ⟨u, hu, hextends⟩ := h.uow.rollbackCheckpoint hw.inv h.inv
    rw [huow, Option.some_inj] at hu
    exact ⟨h.inv.rollbackCheckpoint huow, hu ▸ hextends⟩

/-- The name the next savepoint gets. -/
abbrev World.nextName (w : World D R) : List UInt8 := savepointName (w.savepointCounter + 1)

/-- The world in which a nested scope is entered. -/
def World.savepointed (w : World D R) (db : D) : World D R :=
  { w with savepointCounter := w.savepointCounter + 1, db := db
           calls := w.calls ++ [.savepoint w.nextName true] }

/-- A nested scope, from the world before its `SAVEPOINT`. -/
theorem ScopeEnd.nested {w : World D R} (hw : w.Ok) (hdepth : w.transactionDepth ≠ 0) {db : D}
    {result : Except Exn α × World D R}
    (h : ScopeEnd env false w.nextName (w.savepointed db) result) :
    Advance env.classOf w result.2 := by
  have hok : (w.savepointed db).Ok := ⟨hw.inv, hw.rollbackOnly⟩
  cases h with
  | @closed v uow a db' hwork hflag huow =>
    obtain ⟨hinv, hextends⟩ := hwork.popped hok (.inl huow)
    obtain ⟨log, failed, hcalls, hrollbackOnly, hlog⟩ := hwork.block
    have hcounter : w.savepointCounter + 1 ≤ v.savepointCounter :=
      hwork.counter (Nat.succ_ne_zero _)
    -- `rollback_only` is still false, so no scope inside this one failed
    obtain ⟨houter, rfl⟩ := Bool.or_eq_false_iff.mp (hrollbackOnly.symm.trans hflag)
    show Advance env.classOf w (World.finish _ w.transactionDepth)
    rw [World.finish, if_neg hdepth]
    exact {
      inv := hinv
      uow := hextends
      depth := rfl
      counter := fun _ => Nat.le_of_succ_le hcounter
      calls := by
        refine ⟨.savepoint w.nextName true :: log ++ [.release w.nextName true], false, ?_, hrollbackOnly, ?_⟩
        · show v.calls ++ [Call.release w.nextName true] = _
          rw [hcalls, World.savepointed, List.append_assoc, List.append_assoc]
          rfl
        · rw [WellScoped, if_neg hdepth]
          intro opened hopened
          exact .released hopened.next.1 (hlog _ hopened.next.2) }
  | @rolledBack v uow attempt e ok db' identity hwork hattempt huow =>
    obtain ⟨hinv, hextends⟩ := hwork.popped hok (.inr huow)
    obtain ⟨log, failed, hcalls, hrollbackOnly, hlog⟩ := hwork.block
    have hcounter : w.savepointCounter + 1 ≤ v.savepointCounter :=
      hwork.counter (Nat.succ_ne_zero _)
    have hattempt' : attempt = [] ∨ failed = false ∧ attempt = [.release w.nextName false] :=
      hattempt.imp_right fun h =>
        ⟨(Bool.or_eq_false_iff.mp (hrollbackOnly.symm.trans h.1)).2, h.2⟩
    show Advance env.classOf w (World.finish _ w.transactionDepth)
    rw [World.finish, if_neg hdepth]
    exact {
      inv := hinv
      uow := hextends
      depth := rfl
      counter := fun _ => Nat.le_of_succ_le hcounter
      calls := by
        refine ⟨.savepoint w.nextName true :: log ++ attempt ++ [.rollbackTo w.nextName ok], true,
          ?_, by simp, ?_⟩
        · show v.calls ++ attempt ++ [Call.rollbackTo w.nextName ok] = _
          rw [hcalls, World.savepointed]
          simp only [List.append_assoc]
          rfl
        · rw [WellScoped, if_neg hdepth]
          intro opened hopened
          exact .rolledBack ok hopened.next.1 (hlog _ hopened.next.2) hattempt' }

/-- How an outermost call of `transaction` exits. -/
inductive OutermostEnd (classOf : Key → EntityClass) (w : World D R) :
    Except Exn α × World D R → Prop where
  /-- `BEGIN` threw. -/
  | notOpened {w'} (e : Exn) : w'.calls = w.calls ++ [.begin false] → w'.uow = w.uow →
      OutermostEnd classOf w (.error e, w')
  /-- No scope failed; `later` are the calls of the domain event handlers. -/
  | committed {w' log later} (result : Except Exn α) : Block [] false log → Scopes later →
      w'.calls = w.calls ++ (.begin true :: log ++ [.commit true]) ++ later →
      OutermostEnd classOf w (result, w')
  /-- The call throws, and the unit of work is as it was. -/
  | rolledBack {w' failed log attempt} (e : Exn) (ok : Bool) : Block [] failed log →
      attempt = [] ∨ failed = false ∧ attempt = [.commit false] →
      w'.calls = w.calls ++ (.begin true :: log ++ attempt ++ [.rollback ok]) →
      Restores classOf w.uow w'.uow → OutermostEnd classOf w (.error e, w')

/-- The world in which an outermost scope is entered. -/
def World.begun (w : World D R) (db : D) : World D R :=
  { w with rollbackOnly := false, db := db, calls := w.calls ++ [.begin true] }

include callbacks in
/-- An outermost scope, from the world before its `BEGIN`. -/
theorem ScopeEnd.outermost {w : World D R} (hw : w.Ok) (hdepth : w.transactionDepth = 0) {db : D}
    {result : Except Exn α × World D R} (h : ScopeEnd env true [] (w.begun db) result) :
    OutermostEnd env.classOf w result ∧ Advance env.classOf w result.2 := by
  have hok : (w.begun db).Ok := ⟨hw.inv, fun _ => rfl⟩
  have hdepth' : (w.begun db).transactionDepth = 0 := hdepth
  have hopen : OpenBelow [] (w.begun db).savepointCounter := fun name hname => by cases hname
  cases h with
  | @closed v uow a db' hwork hflag huow =>
    obtain ⟨hinv, hextends⟩ := hwork.popped hok (.inl huow)
    obtain ⟨log, failed, hcalls, hrollbackOnly, hlog⟩ := hwork.block
    obtain ⟨_, rfl⟩ := Bool.or_eq_false_iff.mp (hrollbackOnly.symm.trans hflag)
    rw [World.finish, if_pos hdepth']
    let closed : World D R :=
      { v with uow := uow, transactionDepth := 0, savepointCounter := 0, rollbackOnly := false,
               db := db', calls := v.calls ++ [.commit true] }
    have hclosedCalls : closed.calls = w.calls ++ (.begin true :: log ++ [.commit true]) := by
      show v.calls ++ [Call.commit true] = _
      rw [hcalls, World.begun]
      simp only [List.append_assoc]
      rfl
    have hadvance : Advance env.classOf w closed := {
      inv := hinv
      uow := hextends
      depth := hdepth.symm
      counter := fun h => absurd hdepth h
      calls := by
        refine ⟨_, false, hclosedCalls, by simp [closed, hw.rollbackOnly hdepth], ?_⟩
        rw [WellScoped, if_pos hdepth]
        exact ⟨rfl, .committed (hlog [] hopen)⟩ }
    -- the domain event handlers run after the scope is gone, at depth 0
    have hhandlers : Preserves (Keeps env.classOf)
        (dispatchWhenOutermost env true >>= fun _ => pure a : SessionM D R α) :=
      (dispatchDomainEvents_preserves env callbacks).bind fun _ => .pure a
    have hlater := hhandlers closed (hadvance.ok hw)
    obtain ⟨later, _, hlaterCalls, _, hscopes⟩ := hlater.calls
    rw [hadvance.depth, WellScoped, if_pos hdepth] at hscopes
    have hfinalCalls := hlaterCalls.trans (congrArg (· ++ later) hclosedCalls)
    exact ⟨.committed _ (hlog [] hopen) hscopes.2 hfinalCalls, hadvance.trans hlater⟩
  | @rolledBack v uow attempt e ok db' identity hwork hattempt huow =>
    obtain ⟨hinv, hextends⟩ := hwork.popped hok (.inr huow)
    obtain ⟨log, failed, hcalls, hrollbackOnly, hlog⟩ := hwork.block
    obtain ⟨r, _, hr, hrestores, _⟩ := rollbackCheckpoint_restores hw.inv hwork.uow hwork.inv
    rw [huow, Option.some_inj] at hr
    subst hr
    have hattempt' : attempt = [] ∨ failed = false ∧ attempt = [.commit false] :=
      hattempt.imp_right fun h =>
        ⟨(Bool.or_eq_false_iff.mp (hrollbackOnly.symm.trans h.1)).2, h.2⟩
    have hfinalCalls : v.calls ++ attempt ++ [rollbackCall true [] ok] =
        w.calls ++ (.begin true :: log ++ attempt ++ [.rollback ok]) := by
      rw [hcalls, World.begun]
      simp only [List.append_assoc]
      rfl
    rw [World.finish, if_pos hdepth']
    refine ⟨.rolledBack e ok (hlog [] hopen) hattempt' hfinalCalls hrestores, ?_⟩
    exact {
      inv := hinv
      uow := hextends
      depth := hdepth.symm
      counter := fun h => absurd hdepth h
      calls := by
        refine ⟨_, false, hfinalCalls, by simp [hw.rollbackOnly hdepth], ?_⟩
        rw [WellScoped, if_pos hdepth]
        exact ⟨rfl, .rolledBack ok (hlog [] hopen) hattempt'⟩ }

variable (htransactions : env.executor.transactions = true)

include callbacks hfn htransactions in
/-- A call of `transaction` outside of any other. -/
theorem transaction_outermost {w : World D R} (hw : w.Ok) (hdepth : w.transactionDepth = 0) :
    OutermostEnd env.classOf w (exec (transaction env fn) w) ∧
    Advance env.classOf w (exec (transaction env fn) w).2 := by
  have hexec : exec (transaction env fn) w =
      exec (beginTransaction env >>= fun _ => transactionScope env true [] fn)
        { w with rollbackOnly := false } := by
    unfold transaction
    rw [htransactions, Bool.not_true, if_neg Bool.false_ne_true, exec_bind_ok (exec_get w),
      if_pos hdepth]
    rfl
  rw [hexec]
  unfold beginTransaction
  rcases exec_transactionCall .begin env.executor.beginTransaction
    { w with rollbackOnly := false } with ⟨db, h⟩ | ⟨e, db, h⟩
  · rw [exec_bind_ok h]
    have hok : (w.begun db).Ok := ⟨hw.inv, fun _ => rfl⟩
    have houtermost : true = decide ((w.begun db).transactionDepth = 0) := by
      simp [World.begun, hdepth]
    exact (transactionScope_end env callbacks hfn hok houtermost).outermost env callbacks hw hdepth
  · rw [exec_bind_error h]
    refine ⟨.notOpened e rfl rfl, ?_⟩
    exact {
      inv := hw.inv
      uow := refl_of _ _
      depth := rfl
      counter := fun _ => le_refl _
      calls := by
        refine ⟨_, false, rfl, by simp [hw.rollbackOnly hdepth], ?_⟩
        rw [WellScoped, if_pos hdepth]
        exact ⟨rfl, .notOpened⟩ }

variable (hsavepoints : env.executor.savepoints = true)

include callbacks hfn htransactions hsavepoints in
/-- A call of `transaction` inside another. -/
theorem transaction_nested {w : World D R} (hw : w.Ok) (hdepth : w.transactionDepth ≠ 0) :
    Advance env.classOf w (exec (transaction env fn) w).2 := by
  let w₁ : World D R := { w with savepointCounter := w.savepointCounter + 1 }
  have hexec : exec (transaction env fn) w =
      exec (savepoint env w.nextName >>= fun _ => transactionScope env false w.nextName fn) w₁ := by
    unfold transaction assertSavepointSupport
    rw [htransactions, Bool.not_true, if_neg Bool.false_ne_true, exec_bind_ok (exec_get w),
      if_neg hdepth, hsavepoints]
    rfl
  rw [hexec]
  unfold savepoint
  rcases exec_transactionCall (.savepoint w.nextName) (env.executor.savepoint w.nextName) w₁ with
    ⟨db, h⟩ | ⟨e, db, h⟩
  · rw [exec_bind_ok h]
    have hok : (w.savepointed db).Ok := ⟨hw.inv, hw.rollbackOnly⟩
    have houtermost : false = decide ((w.savepointed db).transactionDepth = 0) := by
      simp [World.savepointed, hdepth]
    exact (transactionScope_end env callbacks hfn hok houtermost).nested env hw hdepth
  · rw [exec_bind_error h]
    exact {
      inv := hw.inv
      uow := refl_of _ _
      depth := rfl
      counter := fun _ => Nat.le_succ _
      calls := by
        refine ⟨[.savepoint w.nextName false], false, rfl, (Bool.or_false _).symm, ?_⟩
        rw [WellScoped, if_neg hdepth]
        exact fun _ _ => .notOpened _ }

include callbacks hfn htransactions hsavepoints in
theorem transaction_keeps : Preserves (Keeps env.classOf) (transaction env fn) := by
  intro w hw
  by_cases hdepth : w.transactionDepth = 0
  · exact (transaction_outermost env callbacks hfn htransactions hw hdepth).2
  · exact transaction_nested env callbacks hfn htransactions hsavepoints hw hdepth

end Scope

/-! ## Programs -/

/-- What a callback of `transaction` may be, and what the hooks, interceptors, event
    handlers and relation closures of the session may be: they read the session,
    change objects, track, persist, remove, query, flush, open further scopes, throw
    and catch. A call of `commit` inside a scope is a `throw`. -/
inductive Program (classOf : Key → EntityClass) (executor : Executor D) :
    ∀ {α : Type}, SessionM D R α → Prop where
  | pure {α : Type} (a : α) : Program classOf executor (pure a)
  | throw {α : Type} (e : Exn) : Program classOf executor (throw e : SessionM D R α)
  | bind {α β : Type} {p : SessionM D R α} {k : α → SessionM D R β} :
      Program classOf executor p → (∀ a, Program classOf executor (k a)) →
      Program classOf executor (p >>= k)
  | tryCatch {α : Type} {p : SessionM D R α} {handler : Exn → SessionM D R α} :
      Program classOf executor p → (∀ e, Program classOf executor (handler e)) →
      Program classOf executor (tryCatch p handler)
  | read : Program classOf executor (get : SessionM D R (World D R))
  | assign (key : Key) (f : (Name → Value) → Name → Value) :
      Program classOf executor (SessionM.assign key f)
  | assignRuntime (key : Key) (f : R → R) :
      Program classOf executor (SessionM.assignRuntime key f)
  | refreshSnapshot (key : Key) :
      Program classOf executor (SessionM.modifyUow (·.refreshSnapshot classOf key))
  | remove (key : Key) : Program classOf executor (remove key)
  | track (env : Env D R) (hclass : env.classOf = classOf) (key : Key) (status : EntityStatus) :
      Program classOf executor (track env key status)
  | persist (env : Env D R) (hclass : env.classOf = classOf) (key : Key) :
      Program classOf executor (persist env key)
  | execute (env : Env D R) (hexecutor : env.executor = executor) (hclass : env.classOf = classOf)
      (statement : Statement) : Program classOf executor (execute env statement)
  | flush (env : Env D R) (hclass : env.classOf = classOf) (hexecutor : env.executor = executor)
      (callbacks : ∀ p, env.Callback p → Program classOf executor p) :
      Program classOf executor (flush env)
  | transaction {α : Type} (env : Env D R) (hclass : env.classOf = classOf)
      (hexecutor : env.executor = executor)
      (callbacks : ∀ p, env.Callback p → Program classOf executor p)
      {fn : SessionM D R α} (hfn : Program classOf executor fn) :
      Program classOf executor (transaction env fn)

/-- Every program keeps depth, checkpoints, log and `rollback_only` in step. -/
theorem Program.keeps {executor : Executor D} (htransactions : executor.transactions = true)
    (hsavepoints : executor.savepoints = true) {p : SessionM D R α}
    (h : Program classOf executor p) : Preserves (Keeps classOf) p := by
  induction h with
  | pure a => exact .pure a
  | throw e => exact .throw e
  | bind _ _ ihp ihk => exact ihp.bind ihk
  | tryCatch _ _ ihp ihhandler => exact ihp.tryCatch ihhandler
  | read => exact .get
  | assign key f => exact fun w => admits_keeps.unit w _ (.setObject key _)
  | assignRuntime key f => exact fun w => admits_keeps.unit w _ (.setObject key _)
  | refreshSnapshot key => exact fun w => admits_keeps.unit w _ (.updateTracked key _)
  | remove key => exact fun w => admits_keeps.unit w _ (.updateTracked key _)
  | track env hclass key status =>
    subst hclass
    exact track_preserves env admits_keeps key status
  | persist env hclass key =>
    subst hclass
    exact persist_preserves env admits_keeps key
  | execute env _ hclass statement =>
    subst hclass
    exact execute_preserves env admits_keeps statement
  | flush env hclass _ _ ih =>
    subst hclass
    exact flush_preserves env admits_keeps.flush fun phase key => ih _ (.hook phase key)
  | transaction env hclass hexecutor _ _ ihcallbacks ihfn =>
    subst hclass hexecutor
    exact transaction_keeps env ihcallbacks ihfn htransactions hsavepoints

theorem World.ok_initial (heap : Key → Entity R) (db : D) : (World.initial heap db).Ok where
  inv := UowState.inv_initial heap
  rollbackOnly _ := rfl

/-- A session between two programs that ran outside of any transaction. -/
def SessionReachable (classOf : Key → EntityClass) (executor : Executor D) (w : World D R) :
    Prop :=
  ∃ heap db, ∃ p : SessionM D R Unit, Program classOf executor p ∧
    (exec p (World.initial heap db)).2 = w

/-- Outside of any transaction no scope is open and nothing is marked. -/
structure World.Idle (w : World D R) : Prop where
  transactionDepth : w.transactionDepth = 0
  checkpoints : w.uow.checkpoints = []
  rollbackOnly : w.rollbackOnly = false

theorem Advance.idle {w w' : World D R} (hw : w.Ok) (hidle : w.Idle)
    (h : Advance classOf w w') : w'.Idle where
  transactionDepth := h.depth.trans hidle.transactionDepth
  checkpoints := by
    obtain ⟨new, hnew⟩ := h.uow
    rw [hnew.checkpoints, hidle.checkpoints, List.map_nil]
  rollbackOnly := (h.ok hw).rollbackOnly (h.depth.trans hidle.transactionDepth)

/-- A connection whose calls all succeed. -/
def willingExecutor : Executor Unit where
  transactions := true
  savepoints := true
  execute _ db := (.ok { rows := [] }, db)
  beginTransaction db := (.ok (), db)
  commitTransaction db := (.ok (), db)
  rollbackTransaction db := (.ok (), db)
  savepoint _ db := (.ok (), db)
  releaseSavepoint _ db := (.ok (), db)
  rollbackToSavepoint _ db := (.ok (), db)

def quietEnv : Env Unit Unit := Env.quiet (fun _ => userClass) willingExecutor

end MetalOrm.Native
