import MetalOrm.ForStd.Events
import MetalOrm.Native.RelationQueries

/-!
# Query objects and their shared state

A `BasicSelectQuery` points to its `SelectState`; its copies point to the same one, and the
closures that compile a subquery hold such copies. Here are the states that a program has
made, the builder calls, and what a query is when it is compiled: the tree of the states that
its closures lead to, which `SelectQuery.compile` takes.
-/

namespace MetalOrm.Native.Query

variable {V : Type}

/-- `BasicSelectQuery<Root, Scope...>`: its root entity, and the state that it points to. -/
structure QueryHandle where
  root : EntityInfo
  state : Nat
deriving DecidableEq

/-! ## Values that hold queries -/

/-- A value whose closures hold query objects: these, and the value for the queries that they
    are when it is compiled. -/
structure Capturing (V α : Type) where
  count : Nat
  queries : Fin count → QueryHandle
  build : (Fin count → SelectQuery V) → α

namespace Capturing

variable {α β γ : Type}

/-- The query objects that a value holds. -/
def handles (value : Capturing V α) : List QueryHandle := List.ofFn value.queries

/-- A value without closures. -/
def pure (a : α) : Capturing V α := ⟨0, Fin.elim0, fun _ => a⟩

/-- A closure that holds one query object. -/
def query (handle : QueryHandle) (build : SelectQuery V → α) : Capturing V α :=
  ⟨1, fun _ => handle, fun queries => build (queries 0)⟩

/-- A value made of two others. -/
def map₂ (f : α → β → γ) (a : Capturing V α) (b : Capturing V β) : Capturing V γ :=
  ⟨a.count + b.count, Fin.addCases a.queries b.queries, fun queries =>
    f (a.build fun i => queries (i.castAdd b.count)) (b.build fun i => queries (i.natAdd a.count))⟩

/-- The value for the queries that `find` gives, if it gives them all. -/
def resolve (find : QueryHandle → Option (SelectQuery V)) (value : Capturing V α) : Option α :=
  if h : ∀ i, (find (value.queries i)).isSome then
    some (value.build fun i => (find (value.queries i)).get (h i))
  else none

end Capturing

/-- `in` and `not_in` of a subquery. -/
def inQuery (operand : ScalarNode V) (query : QueryHandle) (negated : Bool) :
    Capturing V (ExprNode V) :=
  .query query fun query => .inSubquery operand query negated

/-- `exists` and `not_exists`. -/
def existsQuery (query : QueryHandle) (negated : Bool) : Capturing V (ExprNode V) :=
  .query query fun query => .exists query negated

/-- `where_has` and `where_has_not` of a plain query, for the query `child` that the callback
    has configured. -/
def whereHas (relation : RelationInfo V) (base : QueryHandle)
    (child : Capturing V (CorrelatedQuery V)) (negated : Bool) : Capturing V (CorrelatedQuery V) :=
  .map₂ (fun base child => .filtered base [.related relation child negated]) (.query base id) child

/-! ## States -/

/-- `DerivedSourceSpec`. -/
structure DerivedSourceRef where
  aliasName : String
  query : QueryHandle

/-- `CteSpec`. -/
structure CteRef where
  name : String
  columns : List String
  recursive : Bool
  query : QueryHandle

/-- `SetOperationSpec`. -/
structure SetOperationRef where
  kind : SetOperationKind
  query : QueryHandle

/-- A derived source for the query that `find` gives. -/
def DerivedSourceRef.resolve (find : QueryHandle → Option (SelectQuery V))
    (derived : DerivedSourceRef) : Option (DerivedSourceSpec V) :=
  (find derived.query).map fun query => { aliasName := derived.aliasName, query }

/-- A CTE for the query that `find` gives. -/
def CteRef.resolve (find : QueryHandle → Option (SelectQuery V)) (cte : CteRef) :
    Option (CteSpec V) :=
  (find cte.query).map fun query =>
    { name := cte.name, columns := cte.columns, recursive := cte.recursive, query }

/-- A set operation for the query that `find` gives. -/
def SetOperationRef.resolve (find : QueryHandle → Option (SelectQuery V))
    (operation : SetOperationRef) : Option (SetOperationSpec V) :=
  (find operation.query).map fun query => { kind := operation.kind, query }

/-- `SelectState`. -/
structure SelectState (V : Type) where
  distinct : Bool := false
  projections : List (Capturing V (ProjectionSpec V)) := []
  joins : List JoinSpec := []
  cteJoins : List CteJoinSpec := []
  where_ : Option (Capturing V (ExprNode V)) := none
  groupBy : List ColumnRef := []
  having : Option (Capturing V (ExprNode V)) := none
  orderBy : List OrderSpec := []
  limit : Option Nat := none
  offset : Option Nat := none
  fromName : Option String := none
  derivedSource : Option DerivedSourceRef := none
  ctes : List CteRef := []
  setOperations : List SetOperationRef := []

namespace SelectState

/-- The query objects that the closures of a state hold. -/
def captures (state : SelectState V) : List QueryHandle :=
  state.projections.flatMap Capturing.handles ++ state.where_.toList.flatMap Capturing.handles ++
    state.having.toList.flatMap Capturing.handles ++ state.derivedSource.toList.map (·.query) ++
    state.ctes.map (·.query) ++ state.setOperations.map (·.query)

/-- `projection_arity`. -/
def projectionArity (state : SelectState V) (root : EntityInfo) : Nat :=
  if state.projections.isEmpty then root.columns.length else state.projections.length

/-- What a state is when it is compiled, given what its closures lead to. -/
def resolve (find : QueryHandle → Option (SelectQuery V)) (root : EntityInfo)
    (state : SelectState V) : Option (SelectQuery V) := do
  let projections ← state.projections.mapM (·.resolve find)
  let where_ ← state.where_.mapM (·.resolve find)
  let having ← state.having.mapM (·.resolve find)
  let derivedSource ← state.derivedSource.mapM (·.resolve find)
  let ctes ← state.ctes.mapM (·.resolve find)
  let setOperations ← state.setOperations.mapM (·.resolve find)
  return {
    root, distinct := state.distinct, projections, joins := state.joins,
    cteJoins := state.cteJoins, where_, groupBy := state.groupBy, having,
    orderBy := state.orderBy, limit := state.limit, offset := state.offset,
    fromName := state.fromName, derivedSource, ctes, setOperations }

end SelectState

/-- The states that a program has made; those from `count` on are not in use. -/
structure QueryHeap (V : Type) where
  states : Nat → SelectState V
  count : Nat

namespace QueryHeap

/-- No query has been made yet. -/
def empty : QueryHeap V := ⟨fun _ => {}, 0⟩

/-- What a query is when it is compiled, as far as `depth` nested closures give it. -/
def resolve (heap : QueryHeap V) : (depth : Nat) → QueryHandle → Option (SelectQuery V)
  | 0, _ => none
  | depth + 1, query => (heap.states query.state).resolve (heap.resolve depth) query.root

/-- `BasicSelectQuery::compile`; without a result, the closures are nested deeper than
    `depth`. -/
def compile (heap : QueryHeap V) (depth : Nat) (query : QueryHandle) (dialect : Dialect) :
    Option (Except Exn (CompiledQuery V)) :=
  (heap.resolve depth query).map (·.compile dialect)

/-- `compile` of a `RelationFilteredQuery`, and of any other value that holds queries. -/
def compileCapturing (heap : QueryHeap V) (depth : Nat)
    (value : Capturing V (CorrelatedQuery V)) (dialect : Dialect) :
    Option (Except Exn (CompiledQuery V)) :=
  (value.resolve (heap.resolve depth)).map (·.compile dialect)

/-- `std::make_shared<SelectState>`. -/
def alloc (heap : QueryHeap V) (state : SelectState V) : QueryHeap V :=
  ⟨Function.update heap.states heap.count state, heap.count + 1⟩

/-- A builder method: it changes the state that its query points to, or it throws. -/
def update (heap : QueryHeap V) (query : QueryHandle)
    (method : SelectState V → Except Exn (SelectState V)) : Except Exn (QueryHeap V) := do
  let state ← method (heap.states query.state)
  return { heap with states := Function.update heap.states query.state state }

end QueryHeap

/-! ## Builder calls -/

/-- A call of the query builder. `select`, `join` and `without_pagination` make a new query,
    which points to the state of the number `count` of the heap before the call. -/
inductive BuilderCall (V : Type) where
  | select
  | distinct (query : QueryHandle) (enabled : Bool)
  | where_ (query : QueryHandle) (expression : Capturing V (ExprNode V))
  | having (query : QueryHandle) (expression : Capturing V (ExprNode V))
  | groupBy (query : QueryHandle) (column : ColumnRef)
  | orderBy (query : QueryHandle) (order : OrderSpec)
  | limit (query : QueryHandle) (value : Nat)
  | offset (query : QueryHandle) (value : Nat)
  | withoutPagination (query : QueryHandle)
  | from_ (query : QueryHandle) (sourceName : String)
  | fromSubquery (query sub : QueryHandle) (aliasName : String) (columnAliases : List String)
  | clearProjection (query : QueryHandle)
  | project (query : QueryHandle) (projection : Capturing V (ProjectionSpec V))
  | join (query : QueryHandle) (spec : JoinSpec)
  | joinCte (query : QueryHandle) (spec : CteJoinSpec)
  | with_ (query : QueryHandle) (name : String) (cte : QueryHandle) (columns : List String)
      (recursive : Bool)
  | setOperation (query : QueryHandle) (kind : SetOperationKind) (operand : QueryHandle)

namespace BuilderCall

/-- The query that a call changes. -/
def receiver : BuilderCall V → Option QueryHandle
  | select | withoutPagination _ | join _ _ => none
  | distinct query _ | where_ query _ | having query _ | groupBy query _ | orderBy query _
  | limit query _ | offset query _ | from_ query _ | fromSubquery query _ _ _
  | clearProjection query | project query _ | joinCte query _ | with_ query _ _ _ _
  | setOperation query _ _ => some query

/-- The query whose state a call copies. -/
def original : BuilderCall V → Option QueryHandle
  | withoutPagination query | join query _ => some query
  | _ => none

/-- The queries that a call puts into closures. -/
def captured : BuilderCall V → List QueryHandle
  | where_ _ expression | having _ expression => expression.handles
  | project _ projection => projection.handles
  | fromSubquery _ sub _ _ => [sub]
  | with_ _ _ cte _ _ => [cte]
  | setOperation _ _ operand => [operand]
  | _ => []

/-- `with` and `with_recursive`: `add_cte`. -/
def addCte (name : String) (cte : QueryHandle) (columns : List String) (recursive : Bool)
    (arity : Nat) (state : SelectState V) : Except Exn (SelectState V) :=
  if name = "" then .error (.ofText "MetalORM: CTE name cannot be empty")
  else if columns ≠ [] ∧ columns.length ≠ arity then
    .error (.ofText "MetalORM: CTE column list must match query projection arity")
  else .ok { state with ctes := state.ctes ++ [⟨name, columns, recursive, cte⟩] }

/-- `union_with`, `union_all`, `intersect` and `except_with`: `add_set_operation`. -/
def addSetOperation (root : EntityInfo) (kind : SetOperationKind) (operand : QueryHandle)
    (arity : Nat) (state : SelectState V) : Except Exn (SelectState V) :=
  if state.projectionArity root ≠ arity then
    .error (.ofText "MetalORM: set-operation operands must project the same number of columns")
  else .ok { state with setOperations := state.setOperations ++ [⟨kind, operand⟩] }

/-- `from_subquery`. -/
def fromDerived (sub : QueryHandle) (aliasName : String) (columnAliases : List String)
    (state : SelectState V) : Except Exn (SelectState V) :=
  if aliasName = "" then
    .error (.ofText "MetalORM: derived table requires a non-empty alias")
  else if columnAliases ≠ [] then
    .error (.ofText ("MetalORM: SQLite derived tables do not support column alias lists; " ++
      "alias the subquery projections instead"))
  else .ok { state with fromName := none, derivedSource := some ⟨aliasName, sub⟩ }

/-- What a call does. -/
def run (heap : QueryHeap V) : BuilderCall V → Except Exn (QueryHeap V)
  | select => .ok (heap.alloc {})
  | distinct query enabled => heap.update query fun state => .ok { state with distinct := enabled }
  | where_ query expression =>
    heap.update query fun state => .ok { state with where_ := some expression }
  | having query expression =>
    heap.update query fun state => .ok { state with having := some expression }
  | groupBy query column =>
    heap.update query fun state => .ok { state with groupBy := state.groupBy ++ [column] }
  | orderBy query order =>
    heap.update query fun state => .ok { state with orderBy := state.orderBy ++ [order] }
  | limit query value => heap.update query fun state => .ok { state with limit := some value }
  | offset query value => heap.update query fun state => .ok { state with offset := some value }
  | withoutPagination query =>
    .ok (heap.alloc { heap.states query.state with limit := none, offset := none })
  | from_ query sourceName =>
    if sourceName = "" then .error (.ofText "MetalORM: FROM source name cannot be empty")
    else heap.update query fun state =>
      .ok { state with fromName := some sourceName, derivedSource := none }
  | fromSubquery query sub aliasName columnAliases =>
    heap.update query (fromDerived sub aliasName columnAliases)
  | clearProjection query => heap.update query fun state => .ok { state with projections := [] }
  | project query projection =>
    heap.update query fun state => .ok { state with projections := state.projections ++ [projection] }
  | join query spec =>
    .ok (heap.alloc { heap.states query.state with
      joins := (heap.states query.state).joins ++ [spec] })
  | joinCte query spec =>
    if spec.cteName = "" ∨ spec.cteColumn = "" then
      .error (.ofText "MetalORM: CTE join requires non-empty CTE and column names")
    else heap.update query fun state => .ok { state with cteJoins := state.cteJoins ++ [spec] }
  | with_ query name cte columns recursive =>
    heap.update query (addCte name cte columns recursive
      ((heap.states cte.state).projectionArity cte.root))
  | setOperation query kind operand =>
    heap.update query (addSetOperation query.root kind operand
      ((heap.states operand.state).projectionArity operand.root))

/-- The queries that a call is made with have been made before. -/
def Known (heap : QueryHeap V) (call : BuilderCall V) : Prop :=
  ∀ query ∈ call.receiver.toList ++ call.original.toList ++ call.captured,
    query.state < heap.count

instance (heap : QueryHeap V) (call : BuilderCall V) : Decidable (call.Known heap) :=
  inferInstanceAs (Decidable (∀ _ ∈ _, _))

/-- One call; a call that throws changes nothing. -/
def next (heap : QueryHeap V) (call : BuilderCall V) : QueryHeap V :=
  if call.Known heap then
    match call.run heap with
    | .ok heap' => heap'
    | .error _ => heap
  else heap

end BuilderCall

/-- The calls of `apply_filter`, for the expression that its filter stands for, if it has a
    clause. The query that it is passed points to the same state as the caller's. -/
def applyFilterCalls (query : QueryHandle) (expression : Option (ExprNode V)) :
    List (BuilderCall V) :=
  expression.toList.map fun node => .where_ query (.pure node)

end MetalOrm.Native.Query
