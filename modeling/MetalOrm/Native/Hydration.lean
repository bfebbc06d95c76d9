import MetalOrm.Native.Session
import MetalOrm.Native.ValueKey
import MetalOrm.Native.WhereInput

/-!
# Loading entities

`metal/orm.hpp` (`find`, `hydrate`, `execute_query` and what the relation loaders do to a session),
`metal/runtime_pagination.hpp` and the entity overload of `execute_cached`: rows of a result become
objects that the session tracks.

The database that answers the queries, reflection and `make_shared` are a `Loader`. A load returns
its rows with the objects that they became.
-/

namespace MetalOrm.Native

open ForStd ForStd.Prog
open Query (MemberType)

/-- A persistent member, less its name. -/
structure MemberInfo where
  type : MemberType
  isOptional : Bool

/-- `to_value(from_value<M>(value))` for the type `M` of a member. -/
def MemberInfo.fromValue (member : MemberInfo) (value : Value) : Except Exn Value :=
  if member.isOptional && value = .null then .ok .null else Query.fromValue member.type value

/-- Where the entities of a session come from. `classes` gives the mapped class with a
    `type_index`; `defaults` are the members of `T{}`; `allocate` is the address of a new object,
    which no tracked object has. `select` sends a query, for `find` that with
    `WHERE primary_key = key LIMIT 1`. -/
structure Loader (D R Q : Type) where
  env : Env D R
  valueKey_eq : env.valueKey = valueKey
  classes : Nat → EntityClass
  classes_type : ∀ type, (classes type).type = type
  members : Nat → Name → MemberInfo
  defaults : Nat → Entity R
  allocate : Nat → UowState R → Key
  classOf_allocate : ∀ type s, env.classOf (allocate type s) = classes type
  allocate_not_mem : ∀ type s, allocate type s ∉ s.trackedOrder
  select : Q → D → Except Exn (List Row) × D
  findQuery : Nat → Value → Q

/-- An object that a load returned, with the type and the key of the row that it stands for. -/
structure LoadedObject where
  type : Nat
  key : Value
  object : Key
deriving DecidableEq

namespace Loader

variable {D R Q : Type} (loader : Loader D R Q)

/-! ## Rows -/

/-- `identity_map_.get<T>(pk)`. The objects that the map has are alive: the unit of work holds
    them. -/
def identityGet (type : Nat) (pk : Value) : SessionM D R (Option Key) :=
  return (← get).identity type (loader.env.valueKey pk)

/-- Assign a column that the row has to its member. -/
def readColumn (type : Nat) (row : Row) (columns : Name → Value) (name : Name) :
    Except Exn (Name → Value) :=
  match row.lookup name with
  | none => .ok columns
  | some value => do
    let member ← (loader.members type name).fromValue value
    return Function.update columns name member

/-- The members of a new object, with the columns of the row assigned to them. -/
def readColumns (type : Nat) (row : Row) : Except Exn (Name → Value) :=
  (loader.classes type).columns.foldlM (loader.readColumn type row) (loader.defaults type).columns

/-- `std::make_shared<T>()`, and the assignments to its members. One that throws ends the life of
    the object. -/
def construct (type : Nat) (row : Row) : SessionM D R Key := do
  let s := (← get).uow
  match loader.readColumns type row with
  | .error e => throw e
  | .ok columns =>
    let object := loader.allocate type s
    SessionM.modifyUow fun s =>
      { s with heap := Function.update s.heap object { loader.defaults type with columns } }
    return object

/-- The key of a row, as it is logged for a load. -/
def rowKey (type : Nat) (row : Row) : Value :=
  (row.lookup (loader.classes type).primaryKey).getD .null

/-- A new object for a row that no object stands for, entered into the session by `enter`. -/
def hydrateNew (enter : Key → SessionM D R Unit) (type : Nat) (row : Row) :
    SessionM D R LoadedObject := do
  let object ← loader.construct type row
  enter object
  return { type, key := loader.rowKey type row, object }

/-- `Session::hydrate`. -/
def hydrate (type : Nat) (row : Row) : SessionM D R LoadedObject := do
  match row.lookup (loader.classes type).primaryKey with
  | some pk =>
    match ← loader.identityGet type pk with
    | some object => return { type, key := pk, object }
    | none => loader.hydrateNew (Session.track loader.env · .managed) type row
  | none => loader.hydrateNew (Session.track loader.env · .managed) type row

/-- `hydrate_complete_entity_row`. -/
def hydrateCompleteEntityRow (type : Nat) (row : Row) : SessionM D R LoadedObject := do
  match row.lookup (loader.classes type).primaryKey with
  | none => throw (.ofText
      "MetalORM: tracked pagination requires the root primary key in the projection")
  | some pk =>
    match ← loader.identityGet type pk with
    | some object => return { type, key := pk, object }
    | none =>
      if (loader.classes type).columns.all fun name => (row.lookup name).isSome then
        loader.hydrateNew (Session.persist loader.env) type row
      else
        throw (.ofText ("MetalORM: tracked pagination requires a complete root-entity " ++
          "projection; use the row pagination overload for DTO projections"))

/-- The loop over the rows of a result. -/
def hydrateRows (hydrate : Row → SessionM D R LoadedObject) :
    List Row → SessionM D R (List LoadedObject)
  | [] => return []
  | row :: rows => do
    let loaded ← hydrate row
    return loaded :: (← hydrateRows hydrate rows)

/-! ## Queries -/

/-- `executor_.execute` for a query. -/
def execute (query : Q) : SessionM D R (List Row) := do
  let w ← get
  let (result, db) := loader.select query w.db
  set { w with db := db }
  match result with
  | .ok rows => return rows
  | .error e => throw e

/-- `Session::find`. -/
def find (type : Nat) (pk : Value) : SessionM D R (List LoadedObject) := do
  match ← loader.identityGet type pk with
  | some object => return [{ type, key := pk, object }]
  | none =>
    match ← loader.execute (loader.findQuery type pk) with
    | [] => return []
    | row :: _ => return [← loader.hydrate type row]

/-- `Session::execute_query`. -/
def executeQuery (type : Nat) (query : Q) : SessionM D R (List LoadedObject) := do
  hydrateRows (loader.hydrate type) (← loader.execute query)

/-- What sets a batch loader of relations apart, from the session that it starts in: the rows that
    it hydrates (those of its roots), and the relation members that it assigns in the end. -/
structure Batch (D R Q : Type) where
  query : World D R → Q
  wanted : World D R → Row → Bool
  assign : World D R → List LoadedObject → List (Key × (R → R))

/-- `load_has_many_batch` and its siblings. That of `morph_to` has such a batch for each type, of
    which the last one assigns the members. -/
def loadBatch (type : Nat) (batch : Batch D R Q) : SessionM D R (List LoadedObject) := do
  let w ← get
  let rows ← loader.execute (batch.query w)
  let loaded ← hydrateRows (loader.hydrate type) (rows.filter (batch.wanted w))
  (batch.assign w loaded).forM fun (root, f) => SessionM.assignRuntime root f
  return loaded

/-! ## Pages -/

/-- `PageOptions`. -/
structure PageOptions where
  page : UInt64 := 1
  pageSize : UInt64 := 20

/-- `distinct_root_rows`: the first row of each key. -/
def distinctRootRows (primaryKey : Name) :
    List Row → List (List UInt8) → Except Exn (List Row)
  | [], _ => .ok []
  | row :: rows, seen =>
    match row.lookup primaryKey with
    | none => .error (.ofText
        "MetalORM: root-aware pagination requires the root primary key in the projection")
    | some pk =>
      if valueKey pk ∈ seen then distinctRootRows primaryKey rows seen
      else do
        let unique ← distinctRootRows primaryKey rows (valueKey pk :: seen)
        return row :: unique

/-- The rows of a page: `offset` and `end` wrap around, and `reserve` throws for a negative
    size. -/
def pageRows (options : PageOptions) (rows : List Row) : Except Exn (List Row) :=
  let offset := ((options.page - 1) * options.pageSize).toNat
  if rows.length ≤ offset then .ok []
  else
    let stop := min rows.length ((options.page - 1) * options.pageSize + options.pageSize).toNat
    if stop < offset then .error (.ofText "vector::reserve")
    else .ok ((rows.take stop).drop offset)

/-- `throw`, for a value that a pure function may not have. -/
def orThrow {α : Type} : Except Exn α → SessionM D R α
  | .ok a => return a
  | .error e => throw e

/-- `execute_paged`. -/
def executePaged (type : Nat) (query : Q) (options : PageOptions) :
    SessionM D R (List LoadedObject) := do
  if options.page < 1 then
    throw (.ofText "MetalORM: page must be >= 1")
  else if options.pageSize < 1 then
    throw (.ofText "MetalORM: page_size must be >= 1")
  else
    let rows ← loader.execute query
    let unique ← orThrow (distinctRootRows (loader.classes type).primaryKey rows [])
    let page ← orThrow (pageRows options unique)
    hydrateRows (loader.hydrateCompleteEntityRow type) page

/-- `execute_cursor`, for the query that `execute_cursor_impl` sends and trims to a page. -/
def executeCursor (type : Nat) (query : Q) : SessionM D R (List LoadedObject) := do
  hydrateRows (loader.hydrateCompleteEntityRow type) (← loader.execute query)

/-- `execute_cached`, for the query that `execute_cached_result` answers from the cache or from the
    database. -/
def executeCached (type : Nat) (query : Q) : SessionM D R (List LoadedObject) := do
  hydrateRows (loader.hydrateCompleteEntityRow type) (← loader.execute query)

end Loader

/-! ## Runs of loads -/

/-- A load of entities of one type. -/
inductive Load (D R Q : Type) where
  | find (type : Nat) (pk : Value)
  | query (type : Nat) (query : Q)
  | relation (type : Nat) (batch : Loader.Batch D R Q)
  | paged (type : Nat) (query : Q) (options : Loader.PageOptions)
  | cursor (type : Nat) (query : Q)
  | cached (type : Nat) (query : Q)

namespace Load

variable {D R Q : Type}

/-- The type of the entities. -/
def type : Load D R Q → Nat
  | .find type _ | .query type _ | .relation type _ | .paged type _ _ | .cursor type _
  | .cached type _ => type

/-- The code of a load. -/
def program (loader : Loader D R Q) : Load D R Q → SessionM D R (List LoadedObject)
  | .find type pk => loader.find type pk
  | .query type q => loader.executeQuery type q
  | .relation type batch => loader.loadBatch type batch
  | .paged type q options => loader.executePaged type q options
  | .cursor type q => loader.executeCursor type q
  | .cached type q => loader.executeCached type q

/-- The state after a load, whether it returned or threw. -/
def next (loader : Loader D R Q) (w : World D R) (load : Load D R Q) : World D R :=
  (exec (load.program loader) w).2

/-- What a load returns: nothing if it throws. -/
def returned (loader : Loader D R Q) (w : World D R) (load : Load D R Q) : List LoadedObject :=
  match (exec (load.program loader) w).1 with
  | .ok loaded => loaded
  | .error _ => []

/-- What the loads of a run return, one after the other. -/
def runReturned (loader : Loader D R Q) : World D R → List (Load D R Q) → List LoadedObject
  | _, [] => []
  | w, load :: loads => load.returned loader w ++ runReturned loader (load.next loader w) loads

end Load

end MetalOrm.Native
