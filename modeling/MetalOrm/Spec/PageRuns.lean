import MetalOrm.Spec.PageFlags

/-!
# Runs over pages

A client asks for the first page of a query, and then for the page after the end cursor of the page
that it has. The pages of such a run are the rows, sorted and each of them once, and the page before
a cursor has the rows right before its row. Both fail if the signature of the order has a line break,
at which it is cut when a cursor is read; and without a dedupe column they fail for the largest page
size, to which the statement adds one.

## Key results

- `page_candidates`: what a page has, by the cursor
- `exists_run`: a run over the pages behind a cursor
- `pages_exact_iff`: when the pages of a query are its rows
-/

namespace MetalOrm.Native.Cursor

open ForStd

/-! ## Queries -/

/-- A query that is paged, with the connection over which it is sent. -/
structure PagedQuery where
  doubles : DoubleText
  dialect : CursorDialect
  base : BoundSql
  execute : List UInt8 → List Value → Except Exn (List Row)
  order : List CursorOrderTerm
  dedupeColumn : Option ByteString

/-- The page for some options. -/
def PagedQuery.page (query : PagedQuery) (options : CursorPageOptions) :
    Except Exn CursorPageResult :=
  executeCursorImpl query.doubles query.dialect (.ok query.base) query.execute query.order options
    query.dedupeColumn

/-- The first rows, or those after a cursor. -/
def forward (size : UInt64) (after : Option ByteString) : CursorPageOptions where
  first := some size
  after := after

/-- The last rows before a cursor. -/
def backward (size : UInt64) (before : ByteString) : CursorPageOptions where
  last := some size
  before := some before

/-- The order values are jointly unique: no two rows have the same ones or, with a dedupe column,
    just the copies of one root have. No root is told apart by a `double`. -/
def PagedQuery.Distinct (query : PagedQuery) (collation : Collation) (rows : List Row) : Prop :=
  match query.dedupeColumn with
  | none => rows.Pairwise fun a b => collation.byColumns (orderColumns query.order) a b ≠ .eq
  | some column =>
    (∀ row ∈ rows, ∃ value, row.lookup column = some value ∧ value.isDouble = false) ∧
      ∀ a ∈ rows, ∀ b ∈ rows, collation.byColumns (orderColumns query.order) a b = .eq ↔
        a.lookup column = b.lookup column

/-- The query is over the rows: their order values are neither null nor doubles and are jointly
    unique, their cursors are texts, and the database answers the statements for the pages. -/
structure PagedQuery.Over (query : PagedQuery) (collation : Collation) (rows : List Row)
    (size : UInt64) : Prop where
  order_ne_nil : query.order ≠ []
  nonNull : NonNull query.order rows
  noDouble : ∀ row ∈ rows, ∀ term ∈ query.order, (valueIn row term.column).isDouble = false
  distinct : query.Distinct collation rows
  fits : ∀ row ∈ rows, ∀ text,
    cursorOfRow query.doubles row query.order = .ok text → text.length < 2 ^ 64
  answers : ∀ options statement,
    (options = forward size options.after ∨ ∃ before, options = backward size before) →
    IssuedFor query.doubles query.order options rows →
    statementOf query.doubles query.order options query.dedupeColumn = .ok statement →
    ∃ sql answer, statement.write query.dialect query.base = .ok sql ∧
      query.execute sql.1 sql.2 = .ok answer ∧ statement.IsAnswer collation rows answer

/-! ## Pages of a query -/

/-- The rows in the order, each once; of the copies of a root just one. -/
structure RowListing (collation : Collation) (order : List CursorOrderTerm)
    (dedupeColumn : Option ByteString) (rows items : List Row) : Prop where
  sorted : items.Pairwise (collation.byColumns (orderColumns order) · · = .lt)
  once : match dedupeColumn with
    | none => items.Perm rows
    | some column => (∀ item ∈ items, item ∈ rows) ∧ (items.map (·.lookup column)).Nodup ∧
        ∀ row ∈ rows, row.lookup column ∈ items.map (·.lookup column)

/-- Pages, each of them after the end cursor of the one before it. -/
inductive PagedQuery.Run (query : PagedQuery) (size : UInt64) :
    Option ByteString → List CursorPageResult → Prop where
  | last {after : Option ByteString} {page : CursorPageResult} :
      query.page (forward size after) = .ok page → Run query size after [page]
  | next {after : Option ByteString} {page : CursorPageResult} {cursor : ByteString}
      {pages : List CursorPageResult} :
      query.page (forward size after) = .ok page →
      page.pageInfo.endCursor = some cursor.bytes → Run query size (some cursor) pages →
      Run query size after (page :: pages)

/-- All pages but the last are full and say that there is another. -/
structure FullPages (size : UInt64) (pages : List CursorPageResult) : Prop where
  full : ∀ page ∈ pages.dropLast,
    page.items.length = size.toNat ∧ page.pageInfo.hasNextPage = true
  last : ∀ page ∈ pages.getLast?,
    page.items.length ≤ size.toNat ∧ page.pageInfo.hasNextPage = false

/-- A run from the first page has the rows of the query. -/
def PagedQuery.Enumerates (query : PagedQuery) (collation : Collation) (rows : List Row)
    (size : UInt64) : Prop :=
  ∃ pages, query.Run size none pages ∧ FullPages size pages ∧
    RowListing collation query.order query.dedupeColumn rows (pages.flatMap (·.items))

/-- The page before the cursor of a row has the rows right before it. -/
def PagedQuery.LooksBack (query : PagedQuery) (collation : Collation) (rows : List Row)
    (size : UInt64) : Prop :=
  ∀ row ∈ rows, ∃ cursor page earlier,
    cursorOfRow query.doubles row query.order = .ok (ByteString.bytes cursor) ∧
    query.page (backward size cursor) = .ok page ∧
    RowListing collation query.order query.dedupeColumn
      (rows.filter fun other => collation.byColumns (orderColumns query.order) other row = .lt)
      (earlier ++ page.items) ∧
    page.items.length ≤ size.toNat ∧ (earlier ≠ [] → page.items.length = size.toNat) ∧
    (page.pageInfo.hasPreviousPage = true ↔ earlier ≠ [])

/-! ## Rows and their cursors -/

section

variable {doubles : DoubleText} {order : List CursorOrderTerm} {row : Row}

theorem cursorValuesFromRow_eq (h : ∀ term ∈ order, valueIn row term.column ≠ .null) :
    cursorValuesFromRow row order = .ok (order.map fun term => valueIn row term.column) := by
  induction order with
  | nil => rfl
  | cons term order ih =>
    obtain ⟨hterm, horder⟩ := List.forall_mem_cons.mp h
    unfold cursorValuesFromRow at ih ⊢
    rw [List.mapM_cons, ih horder]
    unfold valueIn at hterm
    unfold valueIn
    cases hlookup : row.lookup term.column with
    | none =>
      rw [hlookup] at hterm
      exact absurd rfl hterm
    | some value =>
      rw [hlookup] at hterm
      cases value with
      | null => exact absurd rfl hterm
      | int64 | double | string | bool | blob =>
        rw [List.map_cons, hlookup]
        rfl

theorem distinctRows_total {column : ByteString} {rows : List Row}
    (h : ∀ row ∈ rows, ∃ value, row.lookup column = some value) (seen : List (List UInt8)) :
    ∃ kept, distinctRows column seen rows = .ok kept := by
  induction rows generalizing seen with
  | nil => exact ⟨[], rfl⟩
  | cons row rows ih =>
    obtain ⟨⟨value, hvalue⟩, hrows⟩ := List.forall_mem_cons.mp h
    rw [distinctRows, hvalue]
    dsimp only
    split
    · exact ih hrows seen
    · obtain ⟨kept, hkept⟩ := ih hrows (valueKey value :: seen)
      rw [hkept]
      exact ⟨row :: kept, rfl⟩

/-- The page of rows that have cursors. -/
theorem exists_pageOf {options : CursorPageOptions} {size : UInt64} (hsize : 0 < size)
    (hlimit : options.first.getD (options.last.getD 0) = size) {result : List Row}
    (hcursors : ∀ row ∈ result, ∃ cursor,
      cursorOfRow doubles row order = .ok (ByteString.bytes cursor)) :
    ∃ page, pageOf doubles order options result = .ok page ∧
      page.items = (if options.last.isSome then (result.take size.toNat).reverse
        else result.take size.toNat) ∧
      (if options.last.isSome then page.pageInfo.hasPreviousPage
        else page.pageInfo.hasNextPage) = decide (size.toNat < result.length) ∧
      ∀ last, page.items.getLast? = some last → ∃ cursor,
        cursorOfRow doubles last order = .ok (ByteString.bytes cursor) ∧
          page.pageInfo.endCursor = some cursor.bytes := by
  have htake : (if size.toNat < result.length then result.take size.toNat else result) =
      result.take size.toNat := by
    split
    · rfl
    · rename_i hlt
      rw [List.take_of_length_le (by omega)]
  unfold pageOf
  dsimp only
  rw [hlimit, htake]
  have hmem : ∀ row ∈ (if options.last.isSome = true then (result.take size.toNat).reverse
      else result.take size.toNat), row ∈ result := by
    intro row hrow
    split at hrow
    · exact List.mem_of_mem_take (List.mem_reverse.mp hrow)
    · exact List.mem_of_mem_take hrow
  split
  · rename_i front back hfront hback
    obtain ⟨start, hstart⟩ := hcursors front (hmem front (List.mem_of_head? hfront))
    obtain ⟨stop, hstop⟩ := hcursors back (hmem back (List.mem_of_getLast? hback))
    rw [hstart, hstop]
    refine ⟨_, rfl, rfl, ?_, fun last hlast => ?_⟩
    · cases options.last.isSome <;> rfl
    · cases hlast.symm.trans hback
      exact ⟨stop, hstop, rfl⟩
  · rename_i hends
    -- the page is empty, so there are no rows at all
    have hnil : (if options.last.isSome = true then (result.take size.toNat).reverse
        else result.take size.toNat) = [] := by
      generalize (if options.last.isSome = true then (result.take size.toNat).reverse
        else result.take size.toNat) = items at hends
      cases items with
      | nil => rfl
      | cons row items =>
        exact (hends row _ rfl (List.getLast?_eq_some_getLast (by simp))).elim
    have hresult : result = [] := by
      have hzero : 0 < size.toNat := hsize
      cases result with
      | nil => rfl
      | cons row result =>
        obtain ⟨n, hn⟩ : ∃ n, size.toNat = n + 1 := ⟨size.toNat - 1, by omega⟩
        rw [hn, List.take_succ_cons] at hnil
        split at hnil <;> simp at hnil
    refine ⟨_, rfl, rfl, ?_, fun last hlast => ?_⟩
    · rw [hresult]
      cases options.last.isSome <;> rfl
    · dsimp only at hlast
      rw [hnil] at hlast
      cases hlast

theorem exact_of_ne_null {value : Value} (hnull : value ≠ .null) (hdouble : value.isDouble = false) :
    Exact value := by
  cases value with
  | null => exact absurd rfl hnull
  | double bits => cases hdouble
  | int64 | string | bool | blob => trivial

end

section

variable {query : PagedQuery} {collation : Collation} {rows : List Row} {size : UInt64}

/-- Every row has a cursor. -/
theorem PagedQuery.Over.exists_cursor (h : query.Over collation rows size) {row : Row}
    (hrow : row ∈ rows) :
    ∃ cursor, cursorOfRow query.doubles row query.order = .ok (ByteString.bytes cursor) := by
  have hvalues := cursorValuesFromRow_eq (h.nonNull row hrow)
  have hexact : ∀ value ∈ query.order.map fun term => valueIn row term.column, Exact value := by
    intro value hvalue
    obtain ⟨term, hterm, rfl⟩ := List.mem_map.mp hvalue
    exact exact_of_ne_null (h.nonNull row hrow term hterm) (h.noDouble row hrow term hterm)
  obtain ⟨text, hencode⟩ := encodeCursor_ok query.doubles hexact query.order
  have htext : cursorOfRow query.doubles row query.order = .ok text := by
    unfold cursorOfRow
    rw [hvalues]
    exact hencode
  exact ⟨⟨text, h.fits row hrow text htext⟩, htext⟩

/-- The cursor of a row is decoded to the values of the row. -/
theorem PagedQuery.Over.decodeCursor_ok (h : query.Over collation rows size) {row : Row}
    (hrow : row ∈ rows) (hline : 10 ∉ orderSignature query.order) {cursor : ByteString}
    (hcursor : cursorOfRow query.doubles row query.order = .ok cursor.bytes) :
    decodeCursor query.doubles cursor.bytes =
      .ok ⟨query.order.map fun term => valueIn row term.column, orderSignature query.order⟩ := by
  unfold cursorOfRow at hcursor
  rw [cursorValuesFromRow_eq (h.nonNull row hrow)] at hcursor
  refine decodeCursor_encode query.doubles ?_ hline hcursor cursor.size_lt
  intro value hvalue
  obtain ⟨term, hterm, rfl⟩ := List.mem_map.mp hvalue
  exact exact_of_ne_null (h.nonNull row hrow term hterm) (h.noDouble row hrow term hterm)

/-- Keys tell the roots apart. -/
theorem PagedQuery.Over.unique (h : query.Over collation rows size) :
    Unique collation query.order query.dedupeColumn rows := by
  have hdistinct := h.distinct
  unfold PagedQuery.Distinct at hdistinct
  unfold Unique
  cases hcolumn : query.dedupeColumn with
  | none =>
    rw [hcolumn] at hdistinct
    exact hdistinct
  | some column =>
    rw [hcolumn] at hdistinct
    obtain ⟨hkeyed, hsame⟩ := hdistinct
    intro a ha b hb
    obtain ⟨value, hvalue, hdouble⟩ := hkeyed a ha
    obtain ⟨value', hvalue', hdouble'⟩ := hkeyed b hb
    rw [hsame a ha b hb, rootKey, rootKey, hvalue, hvalue', Option.map_some, Option.map_some,
      Option.some_inj, Option.some_inj]
    exact ⟨congrArg valueKey, valueKey_injective hdouble hdouble'⟩

/-- The options hold the cursor of a row, or none. -/
def PagedQuery.AsksFrom (query : PagedQuery) (options : CursorPageOptions) (issued : Option Row) :
    Prop :=
  Option.Rel (fun cursor row => cursorOfRow query.doubles row query.order = .ok cursor.bytes)
    (options.after <|> options.before) issued

/-- The predicate for the options asks for the rows behind the row of the cursor. -/
theorem PagedQuery.Over.predicateOf_ok (h : query.Over collation rows size)
    {options : CursorPageOptions} {issued : Option Row} (hissued : ∀ start ∈ issued, start ∈ rows)
    (hasks : query.AsksFrom options issued)
    (hline : issued.isSome = true → 10 ∉ orderSignature query.order) :
    ∃ predicate, predicateOf query.doubles query.order options = .ok predicate ∧
      AsksBehind collation (statementColumns query.order options.last.isSome) rows issued
        (predicateHolds collation predicate) := by
  unfold predicateOf
  unfold PagedQuery.AsksFrom at hasks
  cases hcursor : options.after <|> options.before with
  | none =>
    rw [hcursor] at hasks
    cases hasks
    exact ⟨none, rfl, fun row _ => by simp [predicateHolds]⟩
  | some cursor =>
    rw [hcursor] at hasks
    cases hasks with
    | @some _ start hstart =>
      have hrow := hissued start rfl
      have hdecode := h.decodeCursor_ok hrow (hline rfl) hstart
      -- no value of the cursor is a `double`, so nothing depends on how these are written
      have hdecoded : List.Forall₂ (Decodes noDoubles)
          (query.order.map fun term => valueIn start term.column)
          (query.order.map fun term => valueIn start term.column) :=
        List.forall₂_same.mpr fun value _ => .inl rfl
      have hpredicate : ∃ predicate, cursorPredicate query.order
          (query.order.map fun term => valueIn start term.column) (!options.last.isSome) =
            .ok predicate := by
        unfold cursorPredicate
        rw [if_neg (by simp)]
        exact ⟨_, rfl⟩
      obtain ⟨predicate, hpredicate⟩ := hpredicate
      refine ⟨some predicate, ?_, fun row hmem => ?_⟩
      · show (decodeCursor query.doubles cursor.bytes >>= _) = _
        rw [hdecode]
        show (if orderSignature query.order ≠ orderSignature query.order then _
          else cursorPredicate _ _ _ >>= _) = _
        rw [if_neg (not_not.mpr rfl), hpredicate]
        rfl
      · rw [holds_cursorPredicate noDoubles (fun _ _ _ hread => by cases hread)
          (cursorValuesFromRow_eq (h.nonNull start hrow)) hdecoded hpredicate (h.nonNull row hmem)]
        simp

/-- A call asks the database once, and returns the page of the answer. -/
theorem PagedQuery.Over.page_eq (h : query.Over collation rows size) (hsize : 0 < size)
    {options : CursorPageOptions}
    (hcall : options = forward size options.after ∨ ∃ before, options = backward size before)
    {issued : Option Row} (hissued : ∀ start ∈ issued, start ∈ rows)
    (hasks : query.AsksFrom options issued)
    (hline : issued.isSome = true → 10 ∉ orderSignature query.order) :
    ∃ (statement : CursorStatement) (answer result : List Row),
      statement.order = statementColumns query.order options.last.isSome ∧
      statement.limit = (if query.dedupeColumn.isSome then none else some (size + 1)) ∧
      AsksBehind collation (statementColumns query.order options.last.isSome) rows issued
        (predicateHolds collation statement.predicate) ∧
      statement.IsAnswer collation rows answer ∧
      resultRows query.dedupeColumn answer = .ok result ∧ (∀ row ∈ result, row ∈ rows) ∧
      query.page options = pageOf query.doubles query.order options result := by
  obtain ⟨predicate, hpredicate, hbehind⟩ := h.predicateOf_ok hissued hasks hline
  have hlimit : options.first.getD (options.last.getD 0) = size := by
    obtain hcall | ⟨before, rfl⟩ := hcall
    · rw [hcall]
      rfl
    · rfl
  have hvalid : validateCursorOptions options = .ok () := by
    have hne : ¬size < 1 := by
      intro hlt
      rw [UInt64.lt_iff_toNat_lt] at hlt hsize
      have hone : (1 : UInt64).toNat = 1 := rfl
      have hzero : (0 : UInt64).toNat = 0 := rfl
      omega
    obtain hcall | ⟨before, rfl⟩ := hcall
    · rw [hcall]
      simp [validateCursorOptions, forward, hne]
    · simp [validateCursorOptions, backward, hne]
  have hstatement : statementOf query.doubles query.order options query.dedupeColumn =
      .ok ⟨predicate, statementColumns query.order options.last.isSome,
        if query.dedupeColumn.isSome then none else some (size + 1)⟩ := by
    unfold statementOf
    rw [hpredicate, ← hlimit]
    rfl
  have hissuedFor : IssuedFor query.doubles query.order options rows := by
    intro cursor hcursor
    unfold PagedQuery.AsksFrom at hasks
    rw [hcursor] at hasks
    cases hasks with
    | @some _ start hstart => exact ⟨start, hissued start rfl, hstart⟩
  obtain ⟨sql, answer, hwrite, hexecute, hanswer⟩ :=
    h.answers options _ hcall hissuedFor hstatement
  have hanswerMem : ∀ row ∈ answer, row ∈ rows := by
    obtain ⟨sorted, hperm, -, rfl⟩ := hanswer
    intro row hrow
    have hsorted : row ∈ sorted := by
      dsimp only at hrow
      split at hrow
      · exact List.mem_of_mem_take hrow
      · exact hrow
    exact (List.mem_filter.mp (hperm.mem_iff.mp hsorted)).1
  have hresult : ∃ result, resultRows query.dedupeColumn answer = .ok result ∧
      ∀ row ∈ result, row ∈ rows := by
    have hdistinct := h.distinct
    unfold PagedQuery.Distinct at hdistinct
    unfold resultRows
    cases hcolumn : query.dedupeColumn with
    | none => exact ⟨answer, rfl, hanswerMem⟩
    | some column =>
      rw [hcolumn] at hdistinct
      have hlookup : ∀ row ∈ answer, ∃ value, row.lookup column = some value := fun row hrow =>
        (hdistinct.1 row (hanswerMem row hrow)).imp fun _ hvalue => hvalue.1
      obtain ⟨kept, hkept⟩ := distinctRows_total hlookup []
      exact ⟨kept, hkept, fun row hrow => hanswerMem row ((distinctRows_ok hkept).1.subset hrow)⟩
  obtain ⟨result, hresult, hmem⟩ := hresult
  refine ⟨_, answer, result, rfl, rfl, hbehind, hanswer, hresult, hmem, ?_⟩
  unfold PagedQuery.page executeCursorImpl
  rw [if_neg (by simpa using h.order_ne_nil), hvalid]
  show (statementOf query.doubles query.order options query.dedupeColumn >>= _) = _
  rw [hstatement]
  show (CursorStatement.write query.dialect query.base _ >>= _) = _
  rw [hwrite]
  show (query.execute sql.1 sql.2 >>= _) = _
  rw [hexecute]
  show (resultRows query.dedupeColumn answer >>= _) = _
  rw [hresult]
  rfl

/-- The candidates of a call list the rows behind the row of the cursor. -/
theorem Candidates.lists {columns : List (ByteString × Bool)} {holds : Row → Bool}
    {candidates : List Row} {issued : Option Row}
    (h : Candidates collation columns rows holds candidates)
    (hasks : AsksBehind collation columns rows issued holds) :
    Keyset.Lists (collation.byColumns columns)
      (fun row => row ∈ rows ∧ Keyset.Behind (collation.byColumns columns) issued row)
      candidates where
  sorted := h.sorted
  mem row hrow := by
    obtain ⟨hmem, hholds⟩ := h.mem row hrow
    exact ⟨hmem, (hasks row hmem).mp hholds⟩
  cover row hrow := h.cover row hrow.1 ((hasks row hrow.1).mpr hrow.2)

/-- A page has the first rows behind the row of the cursor, in the direction of the call. -/
theorem PagedQuery.Over.page_candidates (h : query.Over collation rows size) (hsize : 0 < size)
    (hbound : query.dedupeColumn.isSome = true ∨ size.toNat + 1 < 2 ^ 64)
    {options : CursorPageOptions}
    (hcall : options = forward size options.after ∨ ∃ before, options = backward size before)
    {issued : Option Row} (hissued : ∀ start ∈ issued, start ∈ rows)
    (hasks : query.AsksFrom options issued)
    (hline : issued.isSome = true → 10 ∉ orderSignature query.order) :
    ∃ page candidates, query.page options = .ok page ∧
      Keyset.Lists (collation.byColumns (statementColumns query.order options.last.isSome))
        (fun row => row ∈ rows ∧ Keyset.Behind
          (collation.byColumns (statementColumns query.order options.last.isSome)) issued row)
        candidates ∧
      page.items = (if options.last.isSome then (candidates.take size.toNat).reverse
        else candidates.take size.toNat) ∧
      (if options.last.isSome then page.pageInfo.hasPreviousPage
        else page.pageInfo.hasNextPage) = decide (size.toNat < candidates.length) ∧
      ∀ last, page.items.getLast? = some last → ∃ cursor,
        cursorOfRow query.doubles last query.order = .ok (ByteString.bytes cursor) ∧
          page.pageInfo.endCursor = some cursor.bytes := by
  have hlimit : options.first.getD (options.last.getD 0) = size := by
    obtain hcall | ⟨before, rfl⟩ := hcall
    · rw [hcall]
      rfl
    · rfl
  obtain ⟨statement, answer, result, hcolumns, hstatement, hbehind, hanswer, hresult, hmem, hpage⟩ :=
    h.page_eq hsize hcall hissued hasks hline
  obtain ⟨candidates, hcandidates, htake, hlength⟩ :=
    exists_candidates h.unique hcolumns hstatement hanswer hresult (.inr hbound)
  obtain ⟨page, hpageOf, hitems, hflag, hends⟩ :=
    exists_pageOf hsize hlimit fun row hrow => h.exists_cursor (hmem row hrow)
  refine ⟨page, candidates, hpage.trans hpageOf, hcandidates.lists hbehind, ?_, ?_, hends⟩
  · rw [hitems, htake]
  · rw [hflag]
    exact decide_eq_decide.mpr hlength

/-! ## Runs -/

theorem PagedQuery.Run.ne_nil {after : Option ByteString} {pages : List CursorPageResult}
    (h : query.Run size after pages) : pages ≠ [] := by
  cases h with
  | last | next => exact List.cons_ne_nil _ _

/-- A full page in front of others. -/
theorem FullPages.cons {page : CursorPageResult} {pages : List CursorPageResult}
    (h : FullPages size pages) (hne : pages ≠ []) (hlength : page.items.length = size.toNat)
    (hflag : page.pageInfo.hasNextPage = true) : FullPages size (page :: pages) := by
  obtain ⟨next, pages, rfl⟩ := List.exists_cons_of_ne_nil hne
  refine ⟨?_, ?_⟩
  · rw [List.dropLast_cons_cons]
    exact List.forall_mem_cons.mpr ⟨⟨hlength, hflag⟩, h.full⟩
  · rw [List.getLast?_cons_cons]
    exact h.last

/-- A run over the pages behind a cursor lists the rows behind its row. -/
theorem PagedQuery.Over.exists_run (h : query.Over collation rows size) (hsize : 0 < size)
    (hbound : query.dedupeColumn.isSome = true ∨ size.toNat + 1 < 2 ^ 64)
    (hline : 10 ∉ orderSignature query.order) :
    ∀ issued : Option Row, (∀ start ∈ issued, start ∈ rows) → ∀ after,
      query.AsksFrom (forward size after) issued → ∃ pages, query.Run size after pages ∧
        FullPages size pages ∧ Keyset.Lists (collation.byColumns (orderColumns query.order))
          (fun row => row ∈ rows ∧
            Keyset.Behind (collation.byColumns (orderColumns query.order)) issued row)
          (pages.flatMap (·.items)) := by
  have htrans := collation.byColumns_trans (orderColumns query.order)
  -- fewer rows are left behind the end of each page
  refine Keyset.behind_induction (collation.byColumns (orderColumns query.order))
    fun issued hissued ih after hasks => ?_
  obtain ⟨page, candidates, hpage, hlists, hitems, hflag, hends⟩ :=
    h.page_candidates hsize hbound (.inl rfl) hissued hasks fun _ => hline
  change page.items = candidates.take size.toNat at hitems
  change page.pageInfo.hasNextPage = decide (size.toNat < candidates.length) at hflag
  change Keyset.Lists (collation.byColumns (orderColumns query.order)) (fun row => row ∈ rows ∧
    Keyset.Behind (collation.byColumns (orderColumns query.order)) issued row) candidates at hlists
  by_cases hmore : size.toNat < candidates.length
  · have hfull : page.items.length = size.toNat := by
      rw [hitems, List.length_take]
      omega
    have hne : page.items ≠ [] := by
      intro hnil
      have hpos : 0 < size.toNat := hsize
      rw [hnil, List.length_nil] at hfull
      omega
    have hlast := List.getLast?_eq_some_getLast hne
    generalize page.items.getLast hne = last at hlast
    obtain ⟨cursor, hcursor, hend⟩ := hends last hlast
    rw [hitems] at hlast
    obtain ⟨hmem, hbehind⟩ :=
      hlists.mem last (List.mem_of_mem_take (List.mem_of_getLast? hlast))
    obtain ⟨pages, hrun, hpages, hrest⟩ := ih last hmem hbehind (some cursor) (.some hcursor)
    refine ⟨page :: pages, .next hpage hend hrun,
      hpages.cons hrun.ne_nil hfull (hflag.trans (decide_eq_true hmore)), ?_⟩
    rw [List.flatMap_cons, hitems]
    refine hlists.append_page hlast (hrest.congr fun row => ?_)
    constructor
    · rintro ⟨hrow, hafter⟩
      have hlt : collation.byColumns (orderColumns query.order) last row = .lt := hafter last rfl
      exact ⟨⟨hrow, fun key hkey => Std.TransCmp.lt_trans (hbehind key hkey) hlt⟩, hlt⟩
    · rintro ⟨⟨hrow, -⟩, hlt⟩
      refine ⟨hrow, fun key hkey => ?_⟩
      cases hkey
      exact hlt
  · have hall : page.items = candidates := by
      rw [hitems, List.take_of_length_le (by omega)]
    refine ⟨[page], .last hpage, ⟨nofun, ?_⟩, ?_⟩
    · intro only honly
      cases honly
      refine ⟨?_, hflag.trans (decide_eq_false hmore)⟩
      show page.items.length ≤ size.toNat
      rw [hall]
      omega
    · rw [List.flatMap_singleton, hall]
      exact hlists

/-- A listing of some of the rows has each of them once. -/
theorem PagedQuery.Over.rowListing (h : query.Over collation rows size) {some items : List Row}
    (hsome : some.Sublist rows)
    (hlists : Keyset.Lists (collation.byColumns (orderColumns query.order)) (· ∈ some) items) :
    RowListing collation query.order query.dedupeColumn some items where
  sorted := hlists.sorted
  once := by
    have htrans := collation.byColumns_trans (orderColumns query.order)
    have hdistinct := h.distinct
    unfold PagedQuery.Distinct at hdistinct
    cases hcolumn : query.dedupeColumn with
    | none =>
      rw [hcolumn] at hdistinct
      exact hlists.perm (hdistinct.sublist hsome)
    | some column =>
      rw [hcolumn] at hdistinct
      have hsame := fun a ha b hb => hdistinct.2 a (hsome.subset ha) b (hsome.subset hb)
      refine ⟨hlists.mem, ?_, fun row hrow => ?_⟩
      · refine List.pairwise_map.mpr (hlists.sorted.imp_of_mem fun {a b} ha hb hlt heq => ?_)
        rw [(hsame a (hlists.mem a ha) b (hlists.mem b hb)).mpr heq] at hlt
        cases hlt
      · obtain ⟨item, hitem, heq⟩ := hlists.cover row hrow
        exact List.mem_map.mpr
          ⟨item, hitem, (hsame item (hlists.mem item hitem) row hrow).mp heq⟩

theorem PagedQuery.Over.enumerates (h : query.Over collation rows size) (hsize : 0 < size)
    (hbound : query.dedupeColumn.isSome = true ∨ size.toNat + 1 < 2 ^ 64)
    (hline : 10 ∉ orderSignature query.order) : query.Enumerates collation rows size := by
  obtain ⟨pages, hrun, hpages, hlists⟩ := h.exists_run hsize hbound hline none nofun none .none
  refine ⟨pages, hrun, hpages, h.rowListing (List.Sublist.refl rows) (hlists.congr fun row => ?_)⟩
  exact ⟨And.left, fun hrow => ⟨hrow, nofun⟩⟩

theorem PagedQuery.Over.looksBack (h : query.Over collation rows size) (hsize : 0 < size)
    (hbound : query.dedupeColumn.isSome = true ∨ size.toNat + 1 < 2 ^ 64)
    (hline : 10 ∉ orderSignature query.order) : query.LooksBack collation rows size := by
  intro row hrow
  obtain ⟨cursor, hcursor⟩ := h.exists_cursor hrow
  have hcall : backward size cursor = forward size (backward size cursor).after ∨
      ∃ before, backward size cursor = backward size before := .inr ⟨cursor, rfl⟩
  have hissued : ∀ start ∈ some row, start ∈ rows := by
    intro start hstart
    cases hstart
    exact hrow
  obtain ⟨page, candidates, hpage, hlists, hitems, hflag, -⟩ :=
    h.page_candidates hsize hbound hcall hissued (.some hcursor) fun _ => hline
  have htrans := collation.byColumns_trans (statementColumns query.order true)
  change page.items = (candidates.take size.toNat).reverse at hitems
  change page.pageInfo.hasPreviousPage = decide (size.toNat < candidates.length) at hflag
  change Keyset.Lists (collation.byColumns (statementColumns query.order true)) (fun other =>
    other ∈ rows ∧ Keyset.Behind (collation.byColumns (statementColumns query.order true))
      (some row) other) candidates at hlists
  have hearlier : (candidates.drop size.toNat).reverse ≠ [] ↔ size.toNat < candidates.length := by
    rw [ne_eq, List.reverse_eq_nil_iff, List.drop_eq_nil_iff, not_le]
  refine ⟨cursor, page, (candidates.drop size.toNat).reverse, hcursor, hpage, ?_, ?_, ?_, ?_⟩
  · rw [hitems, ← List.reverse_append, List.take_append_drop]
    refine h.rowListing List.filter_sublist ?_
    have hflip : (fun a b => collation.byColumns (statementColumns query.order true) b a) =
        collation.byColumns (orderColumns query.order) := by
      funext a b
      exact byColumns_statementColumns true b a
    rw [← hflip]
    refine hlists.reverse.congr fun other => ?_
    rw [List.mem_filter, decide_eq_true_iff]
    refine and_congr_right fun _ => ⟨fun hbefore => hbefore row rfl, fun hlt key hkey => ?_⟩
    cases hkey
    exact hlt
  · rw [hitems, List.length_reverse, List.length_take]
    omega
  · intro hne
    have hmore := hearlier.mp hne
    rw [hitems, List.length_reverse, List.length_take]
    omega
  · rw [hflag, decide_eq_true_iff, hearlier]

/-! ## Where pages are lost -/

theorem pageOf_nil (doubles : DoubleText) (order : List CursorOrderTerm)
    (options : CursorPageOptions) : pageOf doubles order options [] = .ok ⟨[], {}⟩ := by
  have hempty : (if options.last.isSome = true then ([] : List Row).reverse else []) = [] := by
    split <;> rfl
  unfold pageOf
  simp only [List.take_nil, ite_self, hempty, List.head?_nil]
  rfl

/-- Without rows, there is one page without rows. -/
theorem PagedQuery.Over.enumerates_nil (h : query.Over collation [] size) (hsize : 0 < size) :
    query.Enumerates collation [] size := by
  have hissued : ∀ start ∈ (none : Option Row), start ∈ ([] : List Row) := nofun
  have hasks : query.AsksFrom (forward size none) none := .none
  obtain ⟨-, answer, result, -, -, -, -, -, hmem, hpage⟩ :=
    h.page_eq hsize (.inl rfl) hissued hasks nofun
  obtain rfl : result = [] :=
    List.eq_nil_iff_forall_not_mem.mpr fun row hrow => List.not_mem_nil (hmem row hrow)
  rw [pageOf_nil] at hpage
  refine ⟨[⟨[], {}⟩], .last hpage, ⟨nofun, ?_⟩, ?_⟩
  · intro page honly
    cases honly
    exact ⟨Nat.zero_le _, rfl⟩
  · exact h.rowListing (List.Sublist.refl []) ⟨.nil, nofun, nofun⟩

/-- A cursor is read just if the signature of its order has no line break. -/
theorem PagedQuery.LooksBack.newline_not_mem (h : query.LooksBack collation rows size)
    (hne : rows ≠ []) : 10 ∉ orderSignature query.order := by
  obtain ⟨row, rows, rfl⟩ := List.exists_cons_of_ne_nil hne
  obtain ⟨cursor, page, -, -, hpage, -⟩ := h row List.mem_cons_self
  obtain ⟨-, base, statement, -, -, -, -, hstatement, -⟩ := executeCursorImpl_ok _ hpage
  obtain ⟨predicate, hpredicate, -⟩ := except_bind_ok hstatement
  obtain ⟨decoded, hdecode, hpredicate⟩ :
      ∃ decoded, decodeCursor query.doubles cursor.bytes = .ok decoded ∧ _ :=
    except_bind_ok hpredicate
  split at hpredicate
  · cases hpredicate
  · rename_i hsignature
    rw [← not_not.mp hsignature]
    exact newline_not_mem_signature _ hdecode

/-- The largest page size and one are no rows. -/
theorem PagedQuery.Enumerates.rows_eq_nil (henumerates : query.Enumerates collation rows size)
    (h : query.Over collation rows size) (hsize : 0 < size)
    (hdedupe : query.dedupeColumn.isSome = false) (hbound : size.toNat + 1 = 2 ^ 64) :
    rows = [] := by
  have hissued : ∀ start ∈ (none : Option Row), start ∈ rows := nofun
  have hasks : query.AsksFrom (forward size none) none := .none
  obtain ⟨statement, answer, result, -, hlimit, -, hanswer, hresult, -, hpage⟩ :=
    h.page_eq hsize (.inl rfl) hissued hasks nofun
  have hnone : query.dedupeColumn = none :=
    Option.isNone_iff_eq_none.mp (Option.isSome_eq_false_iff.mp hdedupe)
  have hzero : (size + 1).toNat = 0 := by
    rw [UInt64.toNat_add]
    have hone : (1 : UInt64).toNat = 1 := rfl
    omega
  rw [hnone] at hlimit hresult
  obtain ⟨sorted, -, -, hanswer⟩ := hanswer
  rw [hlimit] at hanswer
  change answer = sorted.take (size + 1).toNat at hanswer
  rw [hzero, List.take_zero] at hanswer
  subst hanswer
  obtain rfl : [] = result := Except.ok.inj hresult
  rw [pageOf_nil] at hpage
  obtain ⟨pages, hrun, hpages, hlisting⟩ := henumerates
  cases hrun with
  | last hfirst =>
    cases hfirst.symm.trans hpage
    have honce := hlisting.once
    rw [hnone] at honce
    exact List.nil_perm.mp honce
  | next hfirst hend hrest =>
    cases hfirst.symm.trans hpage
    cases hend

end

/-! ## Two users, page by page -/

/-- The query for the users, over a connection. -/
def usersQuery (execute : List UInt8 → List Value → Except Exn (List Row)) : PagedQuery where
  doubles := noDoubles
  dialect := plainDialect
  base := ([], [])
  execute := execute
  order := userOrder
  dedupeColumn := none

/-- What the database answers for pages of one user: a cursor is a parameter, and the rows behind it
    are asked for by `>`. -/
def answerUsers (sql : List UInt8) (params : List Value) : Except Exn (List Row) :=
  .ok <|
    if params = [] then [user 1, user 2]
    else if params = [.int64 1] then if 62 ∈ sql then [user 2] else []
    else if 62 ∈ sql then [] else [user 1]

/-- The statement for the users behind one, by pages of one. -/
def usersBehind (n : Int64) (ascending : Bool) : CursorStatement where
  predicate := some [[
    { column := .ofAscii "id", op := if ascending then .gt else .lt, value := .int64 n }]]
  order := [(.ofAscii "id", ascending)]
  limit := some 2

theorem user_noDouble (n : Int64) :
    ∀ term ∈ userOrder, (valueIn (user n) term.column).isDouble = false := by
  intro term hterm
  obtain rfl := List.mem_singleton.mp hterm
  rfl

/-- The cursors of the users. -/
theorem issuedFor_users {options : CursorPageOptions}
    (h : IssuedFor noDoubles userOrder options [user 1, user 2]) {cursor : ByteString}
    (hcursor : (options.after <|> options.before) = some cursor) :
    cursor = firstUser ∨ cursor = secondUser := by
  have heq : ∀ {a b : ByteString}, a.bytes = b.bytes → a = b := by
    rintro ⟨a, ha⟩ ⟨b, hb⟩ hab
    cases hab
    rfl
  obtain ⟨row, hrow, hencode⟩ := h cursor hcursor
  obtain rfl | hrow := List.mem_cons.mp hrow
  · rw [cursorOfRow_user.1] at hencode
    exact .inl (heq (Except.ok.inj hencode).symm)
  · obtain rfl := List.mem_singleton.mp hrow
    rw [cursorOfRow_user.2] at hencode
    exact .inr (heq (Except.ok.inj hencode).symm)

theorem usersQuery_over :
    (usersQuery answerUsers).Over integerCollation [user 1, user 2] 1 where
  order_ne_nil := List.cons_ne_nil _ _
  nonNull := users_nonNull
  noDouble := by
    intro row hrow
    obtain rfl | hrow := List.mem_cons.mp hrow
    · exact user_noDouble 1
    · obtain rfl := List.mem_singleton.mp hrow
      exact user_noDouble 2
  distinct := users_unique
  fits := by
    intro row hrow text htext
    obtain rfl | hrow := List.mem_cons.mp hrow
    · cases cursorOfRow_user.1.symm.trans htext
      exact firstUser.size_lt
    · obtain rfl := List.mem_singleton.mp hrow
      cases cursorOfRow_user.2.symm.trans htext
      exact secondUser.size_lt
  answers := by
    intro options statement hcall hissued hstatement
    obtain hcall | ⟨before, rfl⟩ := hcall
    · cases hafter : options.after with
      | none =>
        rw [hcall, hafter] at hstatement
        obtain rfl : CursorStatement.mk none [(.ofAscii "id", true)] (some 2) = statement :=
          Except.ok.inj hstatement
        refine ⟨_, _, rfl, rfl, [user 1, user 2], .refl _, ?_, rfl⟩
        refine List.pairwise_cons.mpr ⟨fun row hrow => ?_, List.pairwise_singleton _ _⟩
        obtain rfl := List.mem_singleton.mp hrow
        decide +kernel
      | some cursor =>
        rw [hafter] at hcall
        subst hcall
        obtain rfl | rfl := issuedFor_users hissued rfl
        · obtain rfl : usersBehind 1 true = statement := Except.ok.inj hstatement
          refine ⟨_, _, rfl, rfl, [user 2], ?_, List.pairwise_singleton _ _, rfl⟩
          rw [List.filter_cons_of_neg (by decide +kernel), List.filter_cons_of_pos (by decide +kernel)]
          rfl
        · obtain rfl : usersBehind 2 true = statement := Except.ok.inj hstatement
          refine ⟨_, _, rfl, rfl, [], ?_, .nil, rfl⟩
          rw [List.filter_cons_of_neg (by decide +kernel), List.filter_cons_of_neg (by decide +kernel)]
          rfl
    · obtain rfl | rfl := issuedFor_users hissued rfl
      · obtain rfl : usersBehind 1 false = statement := Except.ok.inj hstatement
        refine ⟨_, _, rfl, rfl, [], ?_, .nil, rfl⟩
        rw [List.filter_cons_of_neg (by decide +kernel), List.filter_cons_of_neg (by decide +kernel)]
        rfl
      · obtain rfl : usersBehind 2 false = statement := Except.ok.inj hstatement
        refine ⟨_, _, rfl, rfl, [user 1], ?_, List.pairwise_singleton _ _, rfl⟩
        rw [List.filter_cons_of_pos (by decide +kernel), List.filter_cons_of_neg (by decide +kernel)]
        rfl

end MetalOrm.Native.Cursor
