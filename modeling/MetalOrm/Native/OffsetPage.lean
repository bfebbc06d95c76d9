import MetalOrm.Native.CursorPage
import MetalOrm.Native.Hydration

/-!
# Pages by offsets

`execute_paged` of `metal/query/pagination.hpp`, which has the database cut out the rows of a page,
and that of `metal/runtime_pagination.hpp`, which reads all rows and cuts out the roots of a page.
What sends a statement and what makes an object of a row are arguments.
-/

namespace MetalOrm.Native.Paging

open ForStd ForStd.Prog
open ForStd (decimal)
open Loader (PageOptions distinctRootRows pageRows)
open Cursor (BoundSql)

variable {σ Entity : Type}

/-- `PageResult` and `EntityPageResult`. -/
structure PageResult (Item : Type) where
  items : List Item
  totalItems : UInt64
  page : UInt64
  pageSize : UInt64
deriving DecidableEq

/-- `throw`, for a value that a pure function may not have. -/
def orThrow {α : Type} : Except Exn α → Prog Exn σ α
  | .ok a => return a
  | .error e => throw e

/-- The checks of both. -/
def validate (options : PageOptions) : Except Exn Unit :=
  if options.page < 1 then .error (.ofText "MetalORM: page must be >= 1")
  else if options.pageSize < 1 then .error (.ofText "MetalORM: page_size must be >= 1")
  else .ok ()

/-! ## Rows -/

/-- `count_sql`. -/
def countSql (base : BoundSql) : List UInt8 :=
  ByteString.ascii "SELECT COUNT(*) AS \"total\" FROM (" ++ base.1 ++
    ByteString.ascii ") AS \"__metal_count\";"

/-- The text that asks for so many rows behind an offset. -/
def sliceSql (base : BoundSql) (size offset : Nat) : List UInt8 :=
  ByteString.ascii "SELECT * FROM (" ++ base.1 ++ ByteString.ascii ") AS \"__metal_page\" LIMIT " ++
    decimal size ++ ByteString.ascii " OFFSET " ++ decimal offset ++ [59]

/-- `page_sql`. -/
def pageSql (base : BoundSql) (options : PageOptions) : List UInt8 :=
  let offset := (options.page - 1) * options.pageSize
  sliceSql base options.pageSize.toNat offset.toNat

/-- The total that a count returned. -/
def totalOf (rows : List Row) : Except Exn UInt64 :=
  match rows.head?.bind (·.lookup (.ofAscii "total")) with
  | none => .ok 0
  | some found => do
    let total ← fromInt64 found
    return total.toUInt64

/-- `execute_paged` of rows. -/
def executePaged (compileSubquery : Except Exn BoundSql)
    (execute : List UInt8 → List Value → Prog Exn σ (List Row)) (options : PageOptions) :
    Prog Exn σ (PageResult Row) := do
  orThrow (validate options)
  let base ← orThrow compileSubquery
  let counted ← execute (countSql base) base.2
  let total ← orThrow (totalOf counted)
  let rows ← execute (pageSql base options) base.2
  return { items := rows, totalItems := total, page := options.page, pageSize := options.pageSize }

/-! ## Entities -/

/-- `execute_paged` of entities. -/
def executePagedEntities (primaryKey : Name) (execute : Prog Exn σ (List Row))
    (hydrate : Row → Prog Exn σ Entity) (options : PageOptions) :
    Prog Exn σ (PageResult Entity) := do
  orThrow (validate options)
  let rows ← execute
  let unique ← orThrow (distinctRootRows primaryKey rows [])
  let page ← orThrow (pageRows options unique)
  let items ← page.mapM hydrate
  return {
    items
    totalItems := UInt64.ofNat unique.length
    page := options.page
    pageSize := options.pageSize }

theorem hydrateRows_eq_mapM {D R : Type} (hydrate : Row → SessionM D R LoadedObject)
    (rows : List Row) : Loader.hydrateRows hydrate rows = rows.mapM hydrate := by
  induction rows with
  | nil => rfl
  | cons row rows ih => rw [Loader.hydrateRows, List.mapM_cons, ih]

/-- The load of a page in a session returns the items of it. -/
theorem executePaged_loader {D R Q : Type} (loader : Loader D R Q) (type : Nat) (query : Q)
    (options : PageOptions) :
    loader.executePaged type query options =
      (executePagedEntities (loader.classes type).primaryKey (loader.execute query)
        (loader.hydrateCompleteEntityRow type) options >>= fun page => return page.items) := by
  have horThrow : ∀ {α : Type} (e : Except Exn α),
      (Loader.orThrow e : SessionM D R α) = orThrow e := fun e => by cases e <;> rfl
  unfold Loader.executePaged executePagedEntities validate
  split
  · rfl
  · split
    · rfl
    · simp only [horThrow, hydrateRows_eq_mapM, orThrow, pure_bind, bind_assoc, bind_pure]

end MetalOrm.Native.Paging
