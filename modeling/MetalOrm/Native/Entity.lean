import MetalOrm.Native.Value

/-!
# Mapped classes, objects and tracked entries

What static reflection knows about a mapped class (`EntityClass`), the part of
an object the runtime reads and writes (`Entity`), and the bookkeeping record of
`metal/runtime_types.hpp` (`TrackedEntity`).

An object is identified by its address (`Key`). Its class never changes, so the
class is a function of the key; the closures that `Session::track` stores in a
`TrackedEntity` are functions of the key as well and are not fields here.
-/

namespace MetalOrm.Native

/-- The name of a table or a column. -/
abbrev Name := ByteString

/-- The address of an object (`void*`). -/
abbrev Key := Nat

/-- `std::unordered_map<std::string, Value>` as filled by `snapshot_of`. -/
abbrev Snapshot := List (Name × Value)

/-- A mapped class with exactly one primary key, as `validate_mapping` accepts
    it: column names are pairwise distinct. -/
structure EntityClass where
  type : Nat
  table : Name
  primaryKey : Name
  generatedPk : Bool
  columns : List Name
  nodup : columns.Nodup
  primaryKey_mem : primaryKey ∈ columns

/-- An object: its persistent columns (as the `Value`s `to_value` gives for
    them) and its runtime members (relations and event queues) of type `R`. -/
structure Entity (R : Type) where
  columns : Name → Value
  runtime : R

/-- `EntityStatus`. -/
inductive EntityStatus where
  | new
  | managed
  | removed
  | detached
deriving DecidableEq, Repr

/-- `TrackedEntity`, less what is a function of the key. -/
structure TrackedEntity where
  status : EntityStatus
  original : Snapshot
deriving DecidableEq

namespace EntityClass

/-- `Session::snapshot_of`. -/
def snapshotOf (cls : EntityClass) (columns : Name → Value) : Snapshot :=
  cls.columns.map fun name => (name, columns name)

/-- `restore_snapshot`: assign every column that the snapshot has. -/
def restoreSnapshot (cls : EntityClass) (values : Snapshot) (columns : Name → Value) :
    Name → Value :=
  fun name =>
    if name ∈ cls.columns then (values.lookup name).getD (columns name) else columns name

/-- `Session::has_identity_key`. -/
def hasIdentityKey (cls : EntityClass) (pk : Value) : Bool :=
  if pk = .null then false
  else if cls.generatedPk then !pk.isEmptyGenerated
  else true

theorem lookup_map_pair (names : List Name) (columns : Name → Value) (name : Name) :
    (names.map fun n => (n, columns n)).lookup name =
      if name ∈ names then some (columns name) else none := by
  induction names with
  | nil => rfl
  | cons n names ih =>
    rw [List.map_cons, List.lookup_cons, ih]
    by_cases h : name = n
    · simp [h]
    · simp [h, beq_eq_false_iff_ne.mpr h]

@[simp] theorem lookup_snapshotOf (cls : EntityClass) (columns : Name → Value) (name : Name) :
    (cls.snapshotOf columns).lookup name =
      if name ∈ cls.columns then some (columns name) else none :=
  lookup_map_pair cls.columns columns name

/-- Two objects with the same snapshot agree on every mapped column. -/
theorem snapshotOf_eq_iff (cls : EntityClass) (a b : Name → Value) :
    cls.snapshotOf a = cls.snapshotOf b ↔ ∀ name ∈ cls.columns, a name = b name := by
  simp [snapshotOf, List.map_inj_left]

/-- Restoring a snapshot makes the columns those the snapshot was taken of. -/
theorem restoreSnapshot_snapshotOf (cls : EntityClass) (saved current : Name → Value) (name : Name)
    (h : name ∈ cls.columns) :
    cls.restoreSnapshot (cls.snapshotOf saved) current name = saved name := by
  simp [restoreSnapshot, h]

@[simp] theorem snapshotOf_restoreSnapshot (cls : EntityClass) (saved current : Name → Value) :
    cls.snapshotOf (cls.restoreSnapshot (cls.snapshotOf saved) current) = cls.snapshotOf saved :=
  (cls.snapshotOf_eq_iff _ _).mpr fun name h => cls.restoreSnapshot_snapshotOf saved current name h

end EntityClass

end MetalOrm.Native
