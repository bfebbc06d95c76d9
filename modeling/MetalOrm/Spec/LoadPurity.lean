import MetalOrm.ForStd.Events
import MetalOrm.Native.Hydration
import MetalOrm.Spec.FlushWrites
import MetalOrm.Spec.TransactionProtocol
import Mathlib.Algebra.Order.BigOperators.Group.List
import Mathlib.Algebra.Order.Group.Nat
import Mathlib.Data.Nat.Pairing

/-!
# Loads leave nothing to write

The objects of a session in which entities were loaded and nothing else happened: each is tracked
as `Managed` with its columns as the snapshot, and the identity map finds it for the key of its row.
So a second load of a row returns the object of the first, and a flush finds nothing to write.

The identity map is asked for the key in the row, and told the key in the object; and what
`persist` makes of a new object depends on that key. The rows with a key that `from_value` changes,
and those with the key of an object that was not inserted yet, are left out (`KeepsKey`).

## Key results

- `hydrate_settles`, `hydrateCompleteEntityRow_settles`: a row becomes an object
- `Load.settles`: a load
- `loads_pure`: a run of loads
- `loads_insert`: a row with the key `0`
-/

namespace MetalOrm.Native

open ForStd ForStd.Prog Session Loader

variable {D R Q α : Type}

/-! ## Rows to load -/

/-- An integer, a string or a bool. -/
def Value.isKey : Value → Bool
  | .int64 _ | .string _ | .bool _ => true
  | _ => false

/-- The member is no `float` and no `double`. -/
def Query.MemberType.isFloating : Query.MemberType → Bool
  | .floating _ => true
  | _ => false

/-- The rows that a load makes objects of, or finds them for. -/
def Load.rows (loader : Loader D R Q) (w : World D R) : Load D R Q → List Row
  | .find type pk =>
    match w.identity type (valueKey pk) with
    | some _ => []
    | none => (answer (loader.findQuery type pk)).take 1
  | .query _ q | .cursor _ q | .cached _ q => answer q
  | .relation _ batch => (answer (batch.query w)).filter (batch.wanted w)
  | .paged type q options =>
    match distinctRootRows (loader.classes type).primaryKey (answer q) [] >>= pageRows options with
    | .ok page => page
    | .error _ => []
where
  /-- The rows that the database has for a query. -/
  answer (q : Q) : List Row :=
    match (loader.select q w.db).1 with
    | .ok rows => rows
    | .error _ => []

/-- A row with all columns of the class, and an integer, a string or a bool as its key. -/
structure CompleteRow (loader : Loader D R Q) (type : Nat) (row : Row) : Prop where
  complete : ∀ name ∈ (loader.classes type).columns, (row.lookup name).isSome
  key : (loader.rowKey type row).isKey = true

/-- A load of complete rows of a class without double columns. -/
structure LoadsCompleteRows (loader : Loader D R Q) (w : World D R) (load : Load D R Q) : Prop where
  members : ∀ name ∈ (loader.classes load.type).columns,
    (loader.members load.type name).type.isFloating = false
  rows : ∀ row ∈ load.rows loader w, CompleteRow loader load.type row

/-- The key of the row is the key of the object that it becomes, and not that of an object which
    was not inserted yet. -/
def KeepsKey (loader : Loader D R Q) (type : Nat) (row : Row) : Prop :=
  ∀ pk, (loader.members type (loader.classes type).primaryKey).fromValue (loader.rowKey type row) =
    .ok pk → pk = loader.rowKey type row ∧ (loader.classes type).hasIdentityKey pk = true

/-- What a run of loads leaves: `loaded` is what the loads returned. -/
structure LoadsPure (env : Env D R) (loaded : List LoadedObject) (w : World D R) : Prop where
  /-- The loads of a row return the same object. -/
  same : ∀ a ∈ loaded, ∀ b ∈ loaded, a.type = b.type → a.key = b.key → a.object = b.object
  managed : ∀ a ∈ loaded,
    w.uow.tracked a.object = some ⟨.managed, w.uow.snapshot env.classOf a.object⟩
  /-- No load leaves an entity behind that is to be written, not even one that throws. -/
  tracked : ∀ key tracked, w.uow.tracked key = some tracked →
    tracked = ⟨.managed, w.uow.snapshot env.classOf key⟩
  /-- A flush issues no statement, and changes nothing else. -/
  quiet : exec (flush env) w = (.ok (), w)

/-! ## Conversions -/

/-- The value of a member that is no floating point number is no double. -/
theorem isDouble_fromValue {member : MemberInfo} (hmember : member.type.isFloating = false)
    {value v : Value} (h : member.fromValue value = .ok v) : v.isDouble = false := by
  unfold MemberInfo.fromValue at h
  split at h
  · cases h
    rfl
  · unfold Query.fromValue at h
    split at h
    all_goals first
      | (cases h; rfl)
      | (cases h; done)
      | simp_all [Query.MemberType.isFloating]

section Columns

variable {loader : Loader D R Q} {type : Nat} {row : Row} {columns columns' : Name → Value}

theorem readColumn_ok {n : Name} (h : loader.readColumn type row columns n = .ok columns') :
    (∀ name, name ≠ n → columns' name = columns name) ∧
    ∀ value, row.lookup n = some value →
      (loader.members type n).fromValue value = .ok (columns' n) := by
  unfold readColumn at h
  split at h
  · rename_i hnone
    cases h
    exact ⟨fun _ _ => rfl, fun value hvalue => by simp [hnone] at hvalue⟩
  · rename_i value hvalue
    obtain ⟨member, hmember, h⟩ := except_bind_ok h
    cases h
    refine ⟨fun name hne => Function.update_of_ne hne _ _, fun v hv => ?_⟩
    rw [hvalue] at hv
    cases hv
    rw [Function.update_self]
    exact hmember

/-- Every column that the row has is read from it. -/
theorem readColumns_ok (h : loader.readColumns type row = .ok columns) :
    ∀ name ∈ (loader.classes type).columns, ∀ value, row.lookup name = some value →
      (loader.members type name).fromValue value = .ok (columns name) := by
  have hloop : ∀ (names : List Name), names.Nodup → ∀ acc : Name → Value,
      names.foldlM (loader.readColumn type row) acc = .ok columns →
      (∀ name, name ∉ names → columns name = acc name) ∧
      ∀ name ∈ names, ∀ value, row.lookup name = some value →
        (loader.members type name).fromValue value = .ok (columns name) := by
    intro names
    induction names with
    | nil =>
      intro _ acc h
      cases h
      exact ⟨fun _ _ => rfl, fun _ hname => absurd hname List.not_mem_nil⟩
    | cons n names ih =>
      intro hnodup acc h
      obtain ⟨hn, hnodup⟩ := List.nodup_cons.mp hnodup
      rw [List.foldlM_cons] at h
      obtain ⟨acc', hstep, h⟩ := except_bind_ok h
      obtain ⟨hkept, hread⟩ := ih hnodup acc' h
      obtain ⟨hother, hself⟩ := readColumn_ok hstep
      constructor
      · intro name hname
        rw [List.mem_cons, not_or] at hname
        rw [hkept name hname.2, hother name hname.1]
      · intro name hname value hvalue
        obtain rfl | hname := List.mem_cons.mp hname
        · rw [hkept name hn]
          exact hself value hvalue
        · exact hread name hname value hvalue
  exact (hloop _ (loader.classes type).nodup _ h).2

end Columns

/-! ## A session of loaded objects -/

/-- The objects of a session that only loaded: they are tracked as `Managed`, as they are. -/
structure OnlyLoaded (env : Env D R) (w : World D R) : Prop where
  order : ∀ key tracked, w.uow.tracked key = some tracked → key ∈ w.uow.trackedOrder
  managed : ∀ key tracked, w.uow.tracked key = some tracked →
    tracked = ⟨.managed, w.uow.snapshot env.classOf key⟩
  noDouble : ∀ key tracked, w.uow.tracked key = some tracked →
    ∀ name ∈ (env.classOf key).columns, ((w.uow.heap key).columns name).isDouble = false
  registered : ∀ type text key, w.identity type text = some key → (w.uow.tracked key).isSome

/-- The identity map finds the object for the key that the load returned it for. -/
def Stands (w : World D R) (a : LoadedObject) : Prop :=
  w.identity a.type (valueKey a.key) = some a.object

/-- What the identity map finds stays found. -/
def StaysFound (w w' : World D R) : Prop :=
  ∀ type text key, w.identity type text = some key → w'.identity type text = some key

/-- How a load of a session that only loaded ends: in such a session, where what was found is found
    still, and where the objects that it returns are found for their keys. -/
structure Settles (env : Env D R) (objects : α → List LoadedObject) (w : World D R)
    (outcome : Except Exn α × World D R) : Prop where
  onlyLoaded : OnlyLoaded env outcome.2
  found : StaysFound w outcome.2
  stands : ∀ a, outcome.1 = .ok a → ∀ object ∈ objects a, Stands outcome.2 object

/-! ## Tracking a new object -/

section Track

variable (env : Env D R)

/-- The identity map after an object was registered. -/
def identityWith (env : Env D R) (w : World D R) (key : Key) (pk : Value) :
    Nat → List UInt8 → Option Key :=
  if (env.classOf key).hasIdentityKey pk then
    Function.update w.identity (env.classOf key).type
      (Function.update (w.identity (env.classOf key).type) (env.valueKey pk) (some key))
  else w.identity

theorem exec_registerIdentity_with (key : Key) (w : World D R) :
    exec (registerIdentity env key) w = (.ok (), { w with
      identity := identityWith env w key
        ((w.uow.heap key).columns (env.classOf key).primaryKey) }) := by
  unfold registerIdentity getPk identityWith
  rw [exec_bind_ok (by rfl)]
  split
  · rfl
  · rfl

theorem exec_track (key : Key) (status : EntityStatus) (w : World D R) :
    exec (track env key status) w = (.ok (), { w with
      uow := (w.uow.track env.classOf key ⟨status,
        if status = .new then [] else w.uow.snapshot env.classOf key⟩).setRuntime key
          (env.bindRelations key (w.uow.heap key).runtime)
      identity := identityWith env w key
        ((w.uow.heap key).columns (env.classOf key).primaryKey) }) := by
  unfold track
  rw [exec_bind_ok (by rfl), exec_bind_ok (by rfl), exec_bind_ok (by rfl),
    exec_registerIdentity_with]
  simp [identityWith, UowState.setRuntime, UowState.track]

variable {env}

/-- The session with a new object in memory. -/
def withObject (w : World D R) (object : Key) (entity : Entity R) : World D R :=
  { w with uow := { w.uow with heap := Function.update w.uow.heap object entity } }

theorem OnlyLoaded.tracked_eq_none {w : World D R} (h : OnlyLoaded env w) {object : Key}
    (hnew : object ∉ w.uow.trackedOrder) : w.uow.tracked object = none := by
  cases htracked : w.uow.tracked object with
  | none => rfl
  | some tracked => exact absurd (h.order object tracked htracked) hnew

/-- The session after a new object was tracked as `Managed`. -/
structure AddedTo (env : Env D R) (w : World D R) (object : Key) (columns : Name → Value)
    (w' : World D R) : Prop where
  tracked : w'.uow.tracked = Function.update w.uow.tracked object
    (some ⟨.managed, (env.classOf object).snapshotOf columns⟩)
  order : w'.uow.trackedOrder = w.uow.trackedOrder ++ [object]
  others : ∀ key, key ≠ object → w'.uow.heap key = w.uow.heap key
  own : (w'.uow.heap object).columns = columns
  identity : w'.identity = identityWith env w object (columns (env.classOf object).primaryKey)

theorem OnlyLoaded.exec_track {w : World D R} (h : OnlyLoaded env w) {object : Key}
    {entity : Entity R} (hnew : object ∉ w.uow.trackedOrder) :
    ∃ w', exec (Session.track env object .managed) (withObject w object entity) = (.ok (), w') ∧
      AddedTo env w object entity.columns w' := by
  have hnone : w.uow.tracked object = none := h.tracked_eq_none hnew
  rw [Native.exec_track]
  refine ⟨_, rfl, ?_, ?_, fun key hne => ?_, ?_, ?_⟩
  · simp [withObject, UowState.track, UowState.setRuntime, UowState.snapshot]
  · simp [withObject, UowState.track, UowState.setRuntime, hnone]
  · simp [withObject, UowState.track, UowState.setRuntime, hne]
  · simp [withObject, UowState.track, UowState.setRuntime]
  · simp [withObject, identityWith]

theorem AddedTo.identity_cases {w w' : World D R} {object : Key} {columns : Name → Value}
    (hadded : AddedTo env w object columns w') {type : Nat} {text : List UInt8} {key : Key}
    (hkey : w'.identity type text = some key) : key = object ∨ w.identity type text = some key := by
  rw [hadded.identity, identityWith] at hkey
  split at hkey
  · by_cases htype : type = (env.classOf object).type
    · subst htype
      rw [Function.update_self] at hkey
      by_cases htext : text = env.valueKey (columns (env.classOf object).primaryKey)
      · subst htext
        rw [Function.update_self] at hkey
        exact .inl (Option.some.inj hkey).symm
      · rw [Function.update_of_ne htext] at hkey
        exact .inr hkey
    · rw [Function.update_of_ne htype] at hkey
      exact .inr hkey
  · exact .inr hkey

/-- A new object leaves a session of loaded objects, if it has no doubles. -/
theorem AddedTo.onlyLoaded {w w' : World D R} {object : Key} {columns : Name → Value}
    (hadded : AddedTo env w object columns w') (h : OnlyLoaded env w)
    (hdouble : ∀ name ∈ (env.classOf object).columns, (columns name).isDouble = false) :
    OnlyLoaded env w' where
  order key tracked htracked := by
    rw [hadded.order]
    by_cases hkey : key = object
    · simp [hkey]
    · rw [hadded.tracked, Function.update_of_ne hkey] at htracked
      exact List.mem_append_left _ (h.order key tracked htracked)
  managed key tracked htracked := by
    rw [hadded.tracked] at htracked
    by_cases hkey : key = object
    · subst hkey
      rw [Function.update_self] at htracked
      rw [← Option.some.inj htracked, UowState.snapshot, hadded.own]
    · rw [Function.update_of_ne hkey] at htracked
      rw [h.managed key tracked htracked, UowState.snapshot, UowState.snapshot,
        hadded.others key hkey]
  noDouble key tracked htracked := by
    rw [hadded.tracked] at htracked
    by_cases hkey : key = object
    · subst hkey
      rw [hadded.own]
      exact hdouble
    · rw [Function.update_of_ne hkey] at htracked
      rw [hadded.others key hkey]
      exact h.noDouble key tracked htracked
  registered type text key hkey := by
    rw [hadded.tracked]
    obtain rfl | hkey := hadded.identity_cases hkey
    · simp
    · by_cases heq : key = object
      · simp [heq]
      · rw [Function.update_of_ne heq]
        exact h.registered type text key hkey

/-- A new object whose key was not found is found for it, and the others stay found. -/
theorem AddedTo.found {w w' : World D R} {object : Key} {columns : Name → Value}
    (hadded : AddedTo env w object columns w')
    (hkey : (env.classOf object).hasIdentityKey (columns (env.classOf object).primaryKey) = true)
    (hunknown : w.identity (env.classOf object).type
      (env.valueKey (columns (env.classOf object).primaryKey)) = none) :
    StaysFound w w' ∧ w'.identity (env.classOf object).type
      (env.valueKey (columns (env.classOf object).primaryKey)) = some object := by
  rw [StaysFound, hadded.identity, identityWith, if_pos hkey]
  constructor
  · intro type text key hfound
    by_cases htype : type = (env.classOf object).type
    · subst htype
      rw [Function.update_self, Function.update_of_ne]
      · exact hfound
      · rintro rfl
        rw [hunknown] at hfound
        cases hfound
    · rw [Function.update_of_ne htype]
      exact hfound
  · rw [Function.update_self, Function.update_self]

/-- A new object with a key is persisted as `Managed`. -/
theorem OnlyLoaded.exec_persist {w : World D R} (h : OnlyLoaded env w) {object : Key}
    {entity : Entity R} (hnew : object ∉ w.uow.trackedOrder)
    (hkey : (env.classOf object).hasIdentityKey
      (entity.columns (env.classOf object).primaryKey) = true) :
    exec (persist env object) (withObject w object entity) =
      exec (Session.track env object .managed) (withObject w object entity) := by
  unfold persist getPk
  rw [exec_bind_ok (exec_get _),
    show (withObject w object entity).uow.tracked object = none from h.tracked_eq_none hnew]
  have hself : ((withObject w object entity).uow.heap object).columns = entity.columns := by
    simp [withObject]
  dsimp only
  rw [exec_bind_ok (by rfl), hself, if_pos hkey]

end Track

/-! ## Rows become objects -/

section Rows

variable {loader : Loader D R Q} {w : World D R} {type : Nat} {row : Row}

/-- A row that a load may make an object of. -/
structure SoundRow (loader : Loader D R Q) (type : Nat) (row : Row) : Prop where
  members : ∀ name ∈ (loader.classes type).columns,
    (loader.members type name).type.isFloating = false
  complete : CompleteRow loader type row
  keepsKey : KeepsKey loader type row

theorem CompleteRow.lookup_primaryKey (h : CompleteRow loader type row) :
    row.lookup (loader.classes type).primaryKey = some (loader.rowKey type row) := by
  have hsome := h.complete _ (loader.classes type).primaryKey_mem
  obtain ⟨pk, hpk⟩ := Option.isSome_iff_exists.mp hsome
  rw [rowKey, hpk, Option.getD_some]

theorem exec_construct (w : World D R) : exec (loader.construct type row) w =
    match loader.readColumns type row with
    | .error e => (.error e, w)
    | .ok columns => (.ok (loader.allocate type w.uow),
        withObject w (loader.allocate type w.uow) { loader.defaults type with columns }) := by
  unfold construct
  rw [exec_bind_ok (exec_get w)]
  cases loader.readColumns type row with
  | error e => rfl
  | ok columns => rfl

/-- The columns of an object that a sound row becomes. -/
theorem SoundRow.columns_ok (h : SoundRow loader type row) {columns : Name → Value}
    (hcolumns : loader.readColumns type row = .ok columns) :
    (∀ name ∈ (loader.classes type).columns, (columns name).isDouble = false) ∧
    columns (loader.classes type).primaryKey = loader.rowKey type row ∧
    (loader.classes type).hasIdentityKey (columns (loader.classes type).primaryKey) = true := by
  have hread := readColumns_ok hcolumns
  have hpk := hread _ (loader.classes type).primaryKey_mem _ h.complete.lookup_primaryKey
  refine ⟨fun name hname => ?_, h.keepsKey _ hpk⟩
  obtain ⟨value, hvalue⟩ := Option.isSome_iff_exists.mp (h.complete.complete name hname)
  exact isDouble_fromValue (h.members name hname) (hread name hname value hvalue)

theorem StaysFound.refl (w : World D R) : StaysFound w w := fun _ _ _ h => h

theorem Settles.error {env : Env D R} {objects : α → List LoadedObject} {w' : World D R}
    (h : OnlyLoaded env w') (hfound : StaysFound w w') (e : Exn) :
    Settles env objects w (.error e, w') := ⟨h, hfound, fun _ ha => nomatch ha⟩

theorem Settles.ok {env : Env D R} {objects : α → List LoadedObject} {a : α} {w' : World D R}
    (h : OnlyLoaded env w') (hfound : StaysFound w w')
    (hstands : ∀ object ∈ objects a, Stands w' object) : Settles env objects w (.ok a, w') := by
  refine ⟨h, hfound, ?_⟩
  intro b hb
  cases hb
  exact hstands

/-- What follows a load starts where the load ended, and keeps what was found. -/
theorem Settles.bind {β : Type} {env : Env D R} {objects : α → List LoadedObject}
    {objects' : β → List LoadedObject} {p : SessionM D R α} {k : α → SessionM D R β}
    (hp : Settles env objects w (exec p w))
    (hk : ∀ a w', OnlyLoaded env w' → StaysFound w w' →
      (∀ object ∈ objects a, Stands w' object) → Settles env objects' w' (exec (k a) w')) :
    Settles env objects' w (exec (p >>= k) w) := by
  rw [exec_bind]
  generalize exec p w = outcome at hp
  obtain ⟨e | a, w'⟩ := outcome
  · exact .error hp.onlyLoaded hp.found e
  · have hrest := hk a w' hp.onlyLoaded hp.found (hp.stands a rfl)
    exact ⟨hrest.onlyLoaded, fun type text key hkey => hrest.found type text key
      (hp.found type text key hkey), hrest.stands⟩

/-- A row that no object stands for, when the session tracks the new object as `Managed`. -/
theorem hydrateNew_settles (h : OnlyLoaded loader.env w) (hrow : SoundRow loader type row)
    (hunknown : w.identity type (valueKey (loader.rowKey type row)) = none)
    {enter : Key → SessionM D R Unit}
    (henter : ∀ object entity, object ∉ w.uow.trackedOrder →
      (loader.env.classOf object).hasIdentityKey
        (entity.columns (loader.env.classOf object).primaryKey) = true →
      exec (enter object) (withObject w object entity) =
        exec (track loader.env object .managed) (withObject w object entity)) :
    Settles loader.env (fun a => [a]) w (exec (loader.hydrateNew enter type row) w) := by
  have hconstruct : exec (loader.construct type row) w = _ := exec_construct w
  cases hcolumns : loader.readColumns type row with
  | error e =>
    rw [hcolumns] at hconstruct
    rw [hydrateNew, exec_bind_error hconstruct]
    exact .error h (.refl w) e
  | ok columns =>
    rw [hcolumns] at hconstruct
    obtain ⟨hdouble, hpk, hkey⟩ := hrow.columns_ok hcolumns
    have hclass := loader.classOf_allocate type w.uow
    have hnew := loader.allocate_not_mem type w.uow
    rw [← hclass] at hdouble hkey
    obtain ⟨w', htrack, hadded⟩ : ∃ w',
        exec (track loader.env (loader.allocate type w.uow) .managed)
          (withObject w (loader.allocate type w.uow) { loader.defaults type with columns }) =
            (.ok (), w') ∧
        AddedTo loader.env w (loader.allocate type w.uow) columns w' := h.exec_track hnew
    have hexec : exec (loader.hydrateNew enter type row) w = (.ok
        { type, key := loader.rowKey type row, object := loader.allocate type w.uow }, w') := by
      unfold hydrateNew
      rw [exec_bind_ok hconstruct, exec_bind, henter _ _ hnew hkey, htrack]
      rfl
    have hunknown' : w.identity (loader.env.classOf (loader.allocate type w.uow)).type
        (loader.env.valueKey
          (columns (loader.env.classOf (loader.allocate type w.uow)).primaryKey)) = none := by
      rw [hclass, loader.classes_type, loader.valueKey_eq, hpk]
      exact hunknown
    obtain ⟨hfound, hstands⟩ := hadded.found hkey hunknown'
    rw [hexec]
    refine .ok (hadded.onlyLoaded h hdouble) hfound fun a ha => ?_
    obtain rfl := List.mem_singleton.mp ha
    rw [hclass, loader.classes_type, loader.valueKey_eq, hpk] at hstands
    exact hstands

/-- What looks for the object of a row, and makes a new one if there is none. -/
theorem settles_of_lookup (h : OnlyLoaded loader.env w) (hrow : SoundRow loader type row)
    {p : SessionM D R LoadedObject} {enter : Key → SessionM D R Unit}
    (hsome : ∀ object, w.identity type (valueKey (loader.rowKey type row)) = some object →
      exec p w = (.ok { type, key := loader.rowKey type row, object }, w))
    (hnone : w.identity type (valueKey (loader.rowKey type row)) = none →
      exec p w = exec (loader.hydrateNew enter type row) w)
    (henter : ∀ object entity, object ∉ w.uow.trackedOrder →
      (loader.env.classOf object).hasIdentityKey
        (entity.columns (loader.env.classOf object).primaryKey) = true →
      exec (enter object) (withObject w object entity) =
        exec (track loader.env object .managed) (withObject w object entity)) :
    Settles loader.env (fun a => [a]) w (exec p w) := by
  cases hfound : w.identity type (valueKey (loader.rowKey type row)) with
  | some object =>
    rw [hsome object hfound]
    refine .ok h (.refl w) fun a ha => ?_
    obtain rfl := List.mem_singleton.mp ha
    exact hfound
  | none =>
    rw [hnone hfound]
    exact hydrateNew_settles h hrow hfound henter

theorem exec_identityGet (pk : Value) (w : World D R) :
    exec (loader.identityGet type pk) w = (.ok (w.identity type (valueKey pk)), w) := by
  rw [← loader.valueKey_eq]
  rfl

/-- `hydrate` for a row. -/
theorem hydrate_settles (h : OnlyLoaded loader.env w) (hrow : SoundRow loader type row) :
    Settles loader.env (fun a => [a]) w (exec (loader.hydrate type row) w) := by
  have hexec : exec (loader.hydrate type row) w =
      match w.identity type (valueKey (loader.rowKey type row)) with
      | some object => (.ok { type, key := loader.rowKey type row, object }, w)
      | none => exec (loader.hydrateNew (track loader.env · .managed) type row) w := by
    unfold hydrate
    rw [hrow.complete.lookup_primaryKey]
    dsimp only
    rw [exec_bind_ok (exec_identityGet _ w)]
    cases w.identity type (valueKey (loader.rowKey type row)) with
    | some object => rfl
    | none => rfl
  refine settles_of_lookup h hrow (fun object hsome => ?_) (fun hnone => ?_) fun _ _ _ _ => rfl
  · rw [hexec, hsome]
  · rw [hexec, hnone]

/-- `hydrate_complete_entity_row` for a row. -/
theorem hydrateCompleteEntityRow_settles (h : OnlyLoaded loader.env w)
    (hrow : SoundRow loader type row) :
    Settles loader.env (fun a => [a]) w (exec (loader.hydrateCompleteEntityRow type row) w) := by
  have hcomplete : ((loader.classes type).columns.all fun name => (row.lookup name).isSome) =
      true := List.all_eq_true.mpr hrow.complete.complete
  have hexec : exec (loader.hydrateCompleteEntityRow type row) w =
      match w.identity type (valueKey (loader.rowKey type row)) with
      | some object => (.ok { type, key := loader.rowKey type row, object }, w)
      | none => exec (loader.hydrateNew (persist loader.env) type row) w := by
    unfold hydrateCompleteEntityRow
    rw [hrow.complete.lookup_primaryKey]
    dsimp only
    rw [exec_bind_ok (exec_identityGet _ w), if_pos hcomplete]
    cases w.identity type (valueKey (loader.rowKey type row)) with
    | some object => rfl
    | none => rfl
  refine settles_of_lookup h hrow (fun object hsome => ?_) (fun hnone => ?_)
    fun object entity hnew hkey => h.exec_persist hnew hkey
  · rw [hexec, hsome]
  · rw [hexec, hnone]

/-- The loop over the rows of a result. -/
theorem hydrateRows_settles {hydrate : Row → SessionM D R LoadedObject} {rows : List Row}
    (hhydrate : ∀ row ∈ rows, ∀ w, OnlyLoaded loader.env w →
      Settles loader.env (fun a => [a]) w (exec (hydrate row) w)) (h : OnlyLoaded loader.env w) :
    Settles loader.env id w (exec (hydrateRows hydrate rows) w) := by
  induction rows generalizing w with
  | nil => exact .ok h (.refl w) fun a ha => absurd ha List.not_mem_nil
  | cons row rows ih =>
    apply (hhydrate row List.mem_cons_self w h).bind
    intro a w₁ h₁ _ hfirst
    apply (ih (fun r hr => hhydrate r (List.mem_cons_of_mem row hr)) h₁).bind
    intro rest w₂ h₂ hfound hrest
    refine .ok h₂ (.refl w₂) fun b hb => ?_
    obtain rfl | hb := List.mem_cons.mp hb
    · exact hfound _ _ _ (hfirst b List.mem_cons_self)
    · exact hrest b hb

end Rows

/-! ## Loads -/

section Loads

variable {loader : Loader D R Q} {w : World D R}

theorem OnlyLoaded.setDb {env : Env D R} (h : OnlyLoaded env w) (db : D) :
    OnlyLoaded env { w with db := db } := ⟨h.order, h.managed, h.noDouble, h.registered⟩

/-- What is done with the answer of a query. -/
theorem settles_of_execute {query : Q} {k : List Row → SessionM D R (List LoadedObject)}
    (h : OnlyLoaded loader.env w)
    (hk : ∀ rows w', (loader.select query w.db).1 = .ok rows → OnlyLoaded loader.env w' →
      Settles loader.env id w' (exec (k rows) w')) :
    Settles loader.env id w (exec (loader.execute query >>= k) w) := by
  have hexec : exec (loader.execute query) w =
      ((loader.select query w.db).1, { w with db := (loader.select query w.db).2 }) := by
    unfold Loader.execute
    rw [exec_bind_ok (exec_get w)]
    rcases loader.select query w.db with ⟨_ | _, db⟩ <;> rfl
  rw [exec_bind, hexec]
  cases hrows : (loader.select query w.db).1 with
  | error e => exact .error (h.setDb (loader.select query w.db).2) (.refl w) e
  | ok rows =>
    have hrest := hk rows _ hrows (h.setDb (loader.select query w.db).2)
    exact ⟨hrest.onlyLoaded, hrest.found, hrest.stands⟩

theorem settles_of_query {query : Q} {hydrate : Row → SessionM D R LoadedObject}
    (h : OnlyLoaded loader.env w)
    (hhydrate : ∀ rows, (loader.select query w.db).1 = .ok rows → ∀ row ∈ rows, ∀ w,
      OnlyLoaded loader.env w → Settles loader.env (fun a => [a]) w (exec (hydrate row) w)) :
    Settles loader.env id w (exec (loader.execute query >>= hydrateRows hydrate) w) :=
  settles_of_execute h fun rows _ hrows hw => hydrateRows_settles (hhydrate rows hrows) hw

/-- The relation members of the roots are assigned. -/
theorem exec_assignRuntimes (changes : List (Key × (R → R))) {env : Env D R}
    (h : OnlyLoaded env w) : ∃ w',
      exec (changes.forM fun (root, f) => SessionM.assignRuntime root f) w = (.ok (), w') ∧
        OnlyLoaded env w' ∧ w'.identity = w.identity := by
  induction changes generalizing w with
  | nil => exact ⟨w, rfl, h, rfl⟩
  | cons change changes ih =>
    obtain ⟨root, f⟩ := change
    have hcolumns : ∀ key,
        ((w.uow.setRuntime root (f (w.uow.heap root).runtime)).heap key).columns =
        (w.uow.heap key).columns := by
      intro key
      by_cases hkey : key = root
      · simp [UowState.setRuntime, hkey]
      · simp [UowState.setRuntime, hkey]
    have hassigned : OnlyLoaded env
        { w with uow := w.uow.setRuntime root (f (w.uow.heap root).runtime) } := by
      refine ⟨h.order, fun key tracked htracked => ?_, fun key tracked htracked => ?_,
        h.registered⟩
      · rw [h.managed key tracked htracked, UowState.snapshot, UowState.snapshot, hcolumns]
      · rw [hcolumns]
        exact h.noDouble key tracked htracked
    obtain ⟨w', hexec, hw', hidentity⟩ := ih hassigned
    exact ⟨w', by rw [forM_cons]; exact hexec, hw', hidentity⟩

/-- Every load of sound rows. -/
theorem Load.settles (load : Load D R Q) (h : OnlyLoaded loader.env w)
    (hrows : ∀ row ∈ load.rows loader w, SoundRow loader load.type row) :
    Settles loader.env id w (exec (load.program loader) w) := by
  have hanswer : ∀ {q : Q} {rows : List Row}, (loader.select q w.db).1 = .ok rows →
      Load.rows.answer loader w q = rows := by
    intro q rows hrows
    rw [Load.rows.answer, hrows]
  cases load with
  | find type pk =>
    show Settles loader.env id w (exec (loader.find type pk) w)
    unfold Loader.find
    rw [exec_bind_ok (exec_identityGet pk w)]
    simp only [Load.rows] at hrows
    cases hfound : w.identity type (valueKey pk) with
    | some object =>
      refine .ok h (.refl w) fun a ha => ?_
      obtain rfl := List.mem_singleton.mp ha
      exact hfound
    | none =>
      rw [hfound] at hrows
      refine settles_of_execute h fun rows w' hselect hw' => ?_
      rw [hanswer hselect] at hrows
      cases rows with
      | nil => exact .ok hw' (.refl w') fun a ha => absurd ha List.not_mem_nil
      | cons row rows =>
        apply (hydrate_settles hw' (hrows row (by simp))).bind
        exact fun a w₁ h₁ _ hstands => .ok h₁ (.refl w₁) hstands
  | query type q =>
    refine settles_of_query h fun rows hselect row hrow w' hw' => hydrate_settles hw' ?_
    exact hrows row (by rwa [Load.rows, hanswer hselect])
  | relation type batch =>
    show Settles loader.env id w (exec (loader.loadBatch type batch) w)
    unfold Loader.loadBatch
    rw [exec_bind_ok (exec_get w)]
    refine settles_of_execute h fun rows w₁ hselect h₁ => ?_
    have hsound : ∀ row ∈ rows.filter (batch.wanted w), SoundRow loader type row := by
      intro row hrow
      exact hrows row (by rwa [Load.rows, hanswer hselect])
    apply (hydrateRows_settles
      (fun row hrow w' hw' => hydrate_settles hw' (hsound row hrow)) h₁).bind
    intro loaded w₂ h₂ _ hstands
    obtain ⟨w₃, hexec, h₃, hidentity⟩ := exec_assignRuntimes (batch.assign w loaded) h₂
    rw [exec_bind_ok hexec]
    refine .ok h₃ (fun type text key hkey => ?_) fun a ha => ?_
    · rw [hidentity]
      exact hkey
    · rw [Stands, hidentity]
      exact hstands a ha
  | paged type q options =>
    show Settles loader.env id w (exec (loader.executePaged type q options) w)
    unfold Loader.executePaged
    split
    · exact .error h (.refl w) _
    split
    · exact .error h (.refl w) _
    refine settles_of_execute h fun rows w₁ hselect h₁ => ?_
    simp only [Load.rows, hanswer hselect] at hrows
    cases hunique : distinctRootRows (loader.classes type).primaryKey rows [] with
    | error e => exact .error h₁ (.refl w₁) e
    | ok unique =>
      rw [hunique] at hrows
      rw [exec_bind_ok (by rfl)]
      change ∀ row ∈ (match pageRows options unique with
        | .ok page => page
        | .error _ => []), SoundRow loader type row at hrows
      cases hpage : pageRows options unique with
      | error e => exact .error h₁ (.refl w₁) e
      | ok page =>
        rw [hpage] at hrows
        rw [exec_bind_ok (by rfl)]
        exact hydrateRows_settles
          (fun row hrow w' hw' => hydrateCompleteEntityRow_settles hw' (hrows row hrow)) h₁
  | cursor type q =>
    refine settles_of_query h fun rows hselect row hrow w' hw' =>
      hydrateCompleteEntityRow_settles hw' ?_
    exact hrows row (by rwa [Load.rows, hanswer hselect])
  | cached type q =>
    refine settles_of_query h fun rows hselect row hrow w' hw' =>
      hydrateCompleteEntityRow_settles hw' ?_
    exact hrows row (by rwa [Load.rows, hanswer hselect])

end Loads

/-! ## Runs -/

section Runs

variable {env : Env D R} {w : World D R}

theorem Value.eq_self {v : Value} (h : v.isDouble = false) : v.eq v = true := by
  cases v with
  | double bits => cases h
  | null | int64 | string | bool | blob => simp [Value.eq]

/-- An entity that is as it was loaded needs no UPDATE. -/
theorem changedColumns_self {cls : EntityClass} {columns : Name → Value}
    (h : ∀ name ∈ cls.columns, (columns name).isDouble = false) :
    changedColumns cls (cls.snapshotOf columns) (cls.snapshotOf columns) = [] := by
  rw [changedColumns, List.map_eq_nil_iff, List.filter_eq_nil_iff]
  rintro ⟨name, value⟩ hmem
  obtain ⟨n, hn, heq⟩ := List.mem_map.mp hmem
  cases heq
  simp [hn, Value.eq_self (h name hn)]

/-- A flush has nothing to do. -/
theorem OnlyLoaded.exec_flush (h : OnlyLoaded env w) : exec (flush env) w = (.ok (), w) := by
  unfold flush
  rw [exec_bind_ok (exec_get w)]
  apply exec_forM_idle
  intro key _
  unfold flushKey
  rw [exec_bind_ok (exec_get w)]
  cases htracked : w.uow.tracked key with
  | none => rfl
  | some tracked =>
    obtain rfl := h.managed key tracked htracked
    have hclean : changedColumns (env.classOf key) (w.uow.snapshot env.classOf key)
        (w.uow.snapshot env.classOf key) = [] :=
      changedColumns_self (h.noDouble key _ htracked)
    show exec (flushUpdateIfDirty env key _) w = _
    unfold flushUpdateIfDirty
    rw [exec_bind_ok (by rfl)]
    dsimp only
    rw [hclean]
    rfl

theorem onlyLoaded_initial (heap : Key → Entity R) (db : D) :
    OnlyLoaded env (World.initial heap db) where
  order _ _ h := nomatch h
  managed _ _ h := nomatch h
  noDouble _ _ h := nomatch h
  registered _ _ _ h := nomatch h

variable {loader : Loader D R Q}

/-- A load of complete rows with keys of their own. -/
def KeepsKeysOfRows (loader : Loader D R Q) (w : World D R) (load : Load D R Q) : Prop :=
  ∀ row ∈ load.rows loader w, KeepsKey loader load.type row

/-- A run of loads: the session has only loaded, and finds what the loads returned. -/
theorem runReturned_stands {loads : List (Load D R Q)} (h : OnlyLoaded loader.env w)
    (hcomplete : AlongEvents (Load.next loader) (LoadsCompleteRows loader) w loads)
    (hkeys : AlongEvents (Load.next loader) (KeepsKeysOfRows loader) w loads) :
    OnlyLoaded loader.env (runEvents (Load.next loader) w loads) ∧
    StaysFound w (runEvents (Load.next loader) w loads) ∧
    ∀ a ∈ Load.runReturned loader w loads, Stands (runEvents (Load.next loader) w loads) a := by
  induction loads generalizing w with
  | nil => exact ⟨h, .refl w, fun a ha => absurd ha List.not_mem_nil⟩
  | cons load loads ih =>
    have hload := load.settles h fun row hrow =>
      ⟨hcomplete.1.members, hcomplete.1.rows row hrow, hkeys.1 row hrow⟩
    obtain ⟨hend, hfound, hstands⟩ := ih hload.onlyLoaded hcomplete.2 hkeys.2
    refine ⟨hend, fun type text key hkey => hfound _ _ _ (hload.found _ _ _ hkey), ?_⟩
    intro a ha
    obtain ha | ha := List.mem_append.mp ha
    · apply hfound
      unfold Load.returned at ha
      split at ha
      · rename_i loaded hloaded
        exact hload.stands loaded hloaded a ha
      · exact absurd ha List.not_mem_nil
    · exact hstands a ha

/-- In a run of loads of complete rows without doubles, from a new session, where the keys of the
    rows are integers, strings and bools that `from_value` does not change and that no object
    without a row has: the loads of a row return one object, every object is tracked as `Managed`
    as it is, and a flush does nothing. -/
theorem loads_pure (loader : Loader D R Q) (heap : Key → Entity R) (db : D)
    (loads : List (Load D R Q))
    (hcomplete : AlongEvents (Load.next loader) (LoadsCompleteRows loader) (World.initial heap db)
      loads)
    (hkeys : AlongEvents (Load.next loader) (KeepsKeysOfRows loader) (World.initial heap db)
      loads) :
    LoadsPure loader.env (Load.runReturned loader (World.initial heap db) loads)
      (runEvents (Load.next loader) (World.initial heap db) loads) := by
  obtain ⟨hend, -, hstands⟩ := runReturned_stands (onlyLoaded_initial heap db) hcomplete hkeys
  refine ⟨?_, ?_, hend.managed, hend.exec_flush⟩
  · intro a ha b hb htype hkey
    have hsame := hstands a ha
    rw [Stands, htype, hkey, hstands b hb] at hsame
    exact (Option.some.inj hsame).symm
  · intro a ha
    obtain ⟨tracked, htracked⟩ := Option.isSome_iff_exists.mp
      (hend.registered _ _ _ (hstands a ha))
    rw [htracked, hend.managed _ _ htracked]

end Runs

/-! ### A table of users -/

private def userRow (id : Int64) : Row :=
  AList.insert (.ofAscii "id") (.int64 id)
    (AList.insert (.ofAscii "name") (.string (.ofAscii "Ann")) ∅)

/-- Users in a database that answers every query with one row. An address has the type of its
    object. -/
private def userLoader (row : Row) : Loader Unit Unit Unit where
  env := { Env.quiet (fun key => { userClass with type := key.unpair.1 }) willingExecutor with
    valueKey := valueKey }
  valueKey_eq := rfl
  classes type := { userClass with type }
  classes_type _ := rfl
  members _ name := ⟨if name = .ofAscii "id" then .integral 64 true else .string, false⟩
  defaults _ := ⟨fun _ => .null, ()⟩
  allocate type s := Nat.pair type (s.trackedOrder.sum + 1)
  classOf_allocate type s := by simp [Env.quiet]
  allocate_not_mem type s hmem := by
    have hle : Nat.pair type (s.trackedOrder.sum + 1) ≤ s.trackedOrder.sum :=
      List.le_sum_of_mem hmem
    exact Nat.not_succ_le_self _ ((Nat.right_le_pair type (s.trackedOrder.sum + 1)).trans hle)
  select _ db := (.ok [row], db)
  findQuery _ _ := ()

private def emptySession : World Unit Unit := World.initial (fun _ => ⟨fun _ => .null, ()⟩) ()

private theorem userRow_complete (id : Int64) :
    CompleteRow (userLoader (userRow id)) 0 (userRow id) := by
  have hid : (userRow id).lookup (.ofAscii "id") = some (.int64 id) := AList.lookup_insert _
  constructor
  · intro name hname
    obtain rfl | rfl : name = .ofAscii "id" ∨ name = .ofAscii "name" := by
      simpa [userLoader, userClass] using hname
    · rw [hid]
      rfl
    · rw [userRow, AList.lookup_insert_ne (by decide), AList.lookup_insert]
      rfl
  · show (((userRow id).lookup (.ofAscii "id")).getD .null).isKey = true
    rw [hid]
    rfl

private theorem userMembers (id : Int64) : ∀ name ∈ ((userLoader (userRow id)).classes 0).columns,
    ((userLoader (userRow id)).members 0 name).type.isFloating = false := by
  intro name _
  show (if name = .ofAscii "id" then _ else _ : Query.MemberType).isFloating = false
  split
  · rfl
  · rfl

/-- The loads below get no other row. -/
private def LoadsOne (id : Int64) (load : Load Unit Unit Unit) : Prop :=
  load.type = 0 ∧ ∀ w, ∀ row ∈ load.rows (userLoader (userRow id)) w, row = userRow id

private theorem LoadsOne.complete {id : Int64} {load : Load Unit Unit Unit} (h : LoadsOne id load)
    (w : World Unit Unit) : LoadsCompleteRows (userLoader (userRow id)) w load := by
  constructor
  · rw [h.1]
    exact userMembers id
  · intro row hrow
    rw [h.1, h.2 w row hrow]
    exact userRow_complete id

private theorem loadsOne_query (id : Int64) : LoadsOne id (.query 0 ()) :=
  ⟨rfl, fun _ _ hrow => List.mem_singleton.mp hrow⟩

private theorem loadsOne_cached (id : Int64) : LoadsOne id (.cached 0 ()) :=
  ⟨rfl, fun _ _ hrow => List.mem_singleton.mp hrow⟩

private theorem loadsOne_find (id : Int64) (pk : Value) : LoadsOne id (.find 0 pk) := by
  refine ⟨rfl, fun w row hrow => ?_⟩
  simp only [Load.rows] at hrow
  split at hrow
  · exact absurd hrow List.not_mem_nil
  · exact List.mem_singleton.mp hrow

private theorem LoadsOne.keepsKeys {load : Load Unit Unit Unit} (h : LoadsOne 1 load)
    (w : World Unit Unit) : KeepsKeysOfRows (userLoader (userRow 1)) w load := by
  intro row hrow pk hpk
  rw [h.1, h.2 w row hrow] at hpk ⊢
  have hvalue : (.ok pk : Except Exn Value) = .ok (.int64 1) := by
    rw [← hpk]
    decide
  cases hvalue
  decide

/-- User `1` is loaded three times. -/
theorem loads_pure_user : LoadsPure (userLoader (userRow 1)).env
    (Load.runReturned (userLoader (userRow 1)) emptySession
      [.query 0 (), .cached 0 (), .find 0 (.int64 1)])
    (runEvents (Load.next (userLoader (userRow 1))) emptySession
      [.query 0 (), .cached 0 (), .find 0 (.int64 1)]) := by
  apply loads_pure
  · exact ⟨(loadsOne_query 1).complete _, (loadsOne_cached 1).complete _,
      (loadsOne_find 1 _).complete _, trivial⟩
  · exact ⟨(loadsOne_query 1).keepsKeys _, (loadsOne_cached 1).keepsKeys _,
      (loadsOne_find 1 _).keepsKeys _, trivial⟩

/-- A user with the key `0` that `execute_cached` loads is tracked as `New`, and so a flush inserts
    it. -/
theorem loads_insert : ¬ ∀ (loader : Loader Unit Unit Unit) (heap : Key → Entity Unit)
    (loads : List (Load Unit Unit Unit)),
    AlongEvents (Load.next loader) (LoadsCompleteRows loader) (World.initial heap ()) loads →
      LoadsPure loader.env (Load.runReturned loader (World.initial heap ()) loads)
        (runEvents (Load.next loader) (World.initial heap ()) loads) := by
  intro hpure
  have h := hpure (userLoader (userRow 0)) (fun _ => ⟨fun _ => .null, ()⟩) [.cached 0 ()]
    ⟨(loadsOne_cached 0).complete _, trivial⟩
  have htracked : (Load.next (userLoader (userRow 0)) emptySession (.cached 0 ())).uow.tracked 1 =
    some ⟨.new, []⟩ := by decide
  cases congrArg TrackedEntity.status (h.tracked 1 _ htracked)

end MetalOrm.Native
