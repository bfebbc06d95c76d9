import MetalOrm.Native.CursorPage
import MetalOrm.Spec.CursorBounds

/-!
# Flags of pages

A page by a cursor has two flags: whether there is a page behind it and one before it. The flag on
the side where the page ends is read off the row that is fetched beyond the page; the one on the side
of the cursor is the presence of one of the two cursor fields, while the direction is chosen by the
mode alone.

## Key results

- `decodeCursor_issued`: what is decoded from the cursor of a row
- `holds_cursorPredicate`: the predicate of a cursor asks for the rows behind it
- `page_flags_truthful_iff`: when both flags are right
-/

namespace MetalOrm.Native.Cursor

open ForStd

/-! ## The database -/

/-- How the database compares the values of each column. -/
structure Collation where
  compare : ByteString → Value → Value → Ordering
  trans : ∀ column, Std.TransCmp (compare column)

/-- The value of a row in a column. -/
def valueIn (row : Row) (column : ByteString) : Value := (row.lookup column).getD .null

/-- The comparison of two rows by a column and its direction. -/
def Collation.byColumn (collation : Collation) (term : ByteString × Bool) (a b : Row) : Ordering :=
  if term.2 then collation.compare term.1 (valueIn a term.1) (valueIn b term.1)
  else collation.compare term.1 (valueIn b term.1) (valueIn a term.1)

/-- `ORDER BY`. -/
def Collation.byColumns (collation : Collation) : List (ByteString × Bool) → Row → Row → Ordering :=
  Keyset.lexicographic collation.byColumn

/-- A comparison holds of a row; null compares with nothing. -/
def KeyComparison.holds (collation : Collation) (comparison : KeyComparison) (row : Row) : Bool :=
  valueIn row comparison.column ≠ .null && comparison.value ≠ .null &&
    collation.compare comparison.column (valueIn row comparison.column) comparison.value =
      match comparison.op with
      | .eq => .eq
      | .gt => .gt
      | .lt => .lt

/-- The predicate of a statement holds of a row. -/
def predicateHolds (collation : Collation) (predicate : Option (List (List KeyComparison)))
    (row : Row) : Bool :=
  predicate.all fun disjuncts => disjuncts.any fun disjunct => disjunct.all (·.holds collation row)

/-- What the database may answer to a statement over the rows: those of which the predicate holds,
    in some order that the statement allows, up to the limit. -/
def CursorStatement.IsAnswer (collation : Collation) (rows : List Row)
    (statement : CursorStatement) (answer : List Row) : Prop :=
  ∃ sorted : List Row, sorted.Perm (rows.filter (predicateHolds collation statement.predicate)) ∧
    sorted.Pairwise (fun a b => collation.byColumns statement.order a b ≠ .gt) ∧
    answer = match statement.limit with
      | some limit => sorted.take limit.toNat
      | none => sorted

/-- The database answers the statement, when it does not throw. -/
def Answers (collation : Collation) (rows : List Row) (dialect : CursorDialect) (base : BoundSql)
    (execute : List UInt8 → List Value → Except Exn (List Row)) (statement : CursorStatement) :
    Prop :=
  ∀ sql answer, statement.write dialect base = .ok sql → execute sql.1 sql.2 = .ok answer →
    statement.IsAnswer collation rows answer

/-- The columns of the order, with their directions. -/
def orderColumns (order : List CursorOrderTerm) : List (ByteString × Bool) :=
  order.map fun term => (term.column, term.ascending)

/-- The key by which joined rows are told apart. -/
def rootKey (column : ByteString) (row : Row) : Option (List UInt8) :=
  (row.lookup column).map valueKey

/-- The order values are jointly unique: no two rows have the same ones, or, for rows that a join
    repeats, just those of the same root. -/
def Unique (collation : Collation) (order : List CursorOrderTerm)
    (dedupeColumn : Option ByteString) (rows : List Row) : Prop :=
  match dedupeColumn with
  | none => rows.Pairwise fun a b => collation.byColumns (orderColumns order) a b ≠ .eq
  | some column => ∀ a ∈ rows, ∀ b ∈ rows,
      collation.byColumns (orderColumns order) a b = .eq ↔ rootKey column a = rootKey column b

/-- No row has a null in the order. -/
def NonNull (order : List CursorOrderTerm) (rows : List Row) : Prop :=
  ∀ row ∈ rows, ∀ term ∈ order, valueIn row term.column ≠ .null

/-- What `std::stod` reads from 17 digits is the number that was printed. -/
def DoubleText.ReadsBack (doubles : DoubleText) (collation : Collation) : Prop :=
  ∀ column bits bits', doubles.read (doubles.print bits) = .ok bits' →
    collation.compare column (.double bits') (.double bits) = .eq

/-- The flags of a page say whether a row sorts after its last row and before its first. -/
structure Truthful (collation : Collation) (order : List CursorOrderTerm) (rows : List Row)
    (page : CursorPageResult) : Prop where
  next : ∀ last, page.items.getLast? = some last → (page.pageInfo.hasNextPage = true ↔
    ∃ row ∈ rows, collation.byColumns (orderColumns order) last row = .lt)
  previous : ∀ first, page.items.head? = some first → (page.pageInfo.hasPreviousPage = true ↔
    ∃ row ∈ rows, collation.byColumns (orderColumns order) row first = .lt)

/-! ## Cursors of rows -/

/-- A value is decoded to itself; a `double` goes through its text. -/
def Decodes (doubles : DoubleText) (decoded value : Value) : Prop :=
  decoded = value ∨ ∃ bits bits', value = .double bits ∧ decoded = .double bits' ∧
    doubles.read (doubles.print bits) = .ok bits'

variable (doubles : DoubleText)

/-- The text of a value is parsed to the value, or not at all. -/
theorem parseCursorValue_decodes {value decoded : Value} {tag : UInt8} {text : List UInt8}
    (hencode : cursorValueText doubles value = .ok (tag, text))
    (hparse : parseCursorValue doubles tag text = .ok decoded) : Decodes doubles decoded value := by
  by_cases hexact : Exact value
  · obtain ⟨tag', text', hencode', hparse'⟩ := parseCursorValue_encode doubles hexact
    rw [hencode] at hencode'
    cases hencode'
    rw [hparse] at hparse'
    cases hparse'
    exact .inl rfl
  · cases value with
    | null => cases hencode
    | double bits =>
      cases hencode
      change (doubles.read (doubles.print bits)).map Value.double = _ at hparse
      cases hread : doubles.read (doubles.print bits) with
      | error e =>
        rw [hread] at hparse
        cases hparse
      | ok bits' =>
        rw [hread] at hparse
        cases hparse
        exact .inr ⟨bits, bits', rfl, rfl, hread⟩
    | int64 | string | bool | blob => exact absurd trivial hexact

/-- The fields of a cursor. -/
theorem decodeValues_issued {plain : List UInt8} (hplain : plain.length < 2 ^ 64)
    (values : List Value) :
    ∀ {texts : List (List UInt8)} {pos : Nat} {decoded : List Value},
      values.mapM (encodeValue doubles) = .ok texts → plain.drop pos = texts.flatten →
      decodeValues doubles plain values.length pos = .ok decoded →
      List.Forall₂ (Decodes doubles) decoded values := by
  induction values with
  | nil =>
    intro texts pos decoded _ _ hdecode
    cases hdecode
    exact .nil
  | cons value values ih =>
    intro texts pos decoded htexts hpos hdecode
    rw [List.mapM_cons] at htexts
    obtain ⟨first, hfirst, htexts⟩ := except_bind_ok htexts
    obtain ⟨rest, hrest, htexts⟩ := except_bind_ok htexts
    obtain rfl := Except.ok.inj htexts
    obtain ⟨⟨tag, text⟩, hencode, hfield⟩ := except_bind_ok hfirst
    obtain rfl := Except.ok.inj hfield
    have hcolon : 58 ∉ decimal text.length := fun hmem =>
      (isDigit_facts (isDigit_of_mem_decimal hmem)).2.2.2.1 rfl
    have hopens : Reads.Opens plain pos tag (decimal text.length) (text ++ 10 :: rest.flatten) := by
      refine ⟨?_, hcolon⟩
      rw [hpos]
      simp
    have hlength := hopens.length_eq
    simp only [List.length_append, List.length_cons] at hlength
    rw [List.length_cons, Reads.decodeValues_of_opens doubles hopens] at hdecode
    rw [stoull_decimal (by omega)] at hdecode
    obtain ⟨length, hlength', hdecode⟩ := except_bind_ok hdecode
    cases hlength'
    rw [Nat.mod_eq_of_lt (by omega), if_neg (by omega), List.take_left] at hdecode
    obtain ⟨parsed, hparse, hdecode⟩ := except_bind_ok hdecode
    split at hdecode
    · obtain ⟨others, hothers, hdecode⟩ := except_bind_ok hdecode
      cases hdecode
      refine .cons (parseCursorValue_decodes doubles hencode hparse) (ih hrest ?_ hothers)
      have hend : plain.drop pos = (tag :: (decimal text.length ++ 58 :: text)) ++
          10 :: rest.flatten := by
        rw [hopens.text]
        simp
      have hnext := drop_succ_of_drop (drop_add_of_drop hend)
      rw [← hnext]
      congr 1
      simp only [List.length_cons, List.length_append]
      omega
    · cases hdecode

/-- A signature is read up to a line break. -/
theorem newline_not_mem_signature {cursor : ByteString} {decoded : DecodedCursor}
    (hdecode : decodeCursor doubles cursor.bytes = .ok decoded) : 10 ∉ decoded.signature := by
  cases hpayload : base64urlDecode cursor.bytes with
  | error e =>
    unfold decodeCursor at hdecode
    rw [hpayload] at hdecode
    cases hdecode
  | ok plain =>
    rw [Reads.decodeCursor_of_payload doubles hpayload] at hdecode
    obtain ⟨header, hread, hdecode⟩ := except_bind_ok hdecode
    obtain ⟨values, -, hdecode⟩ := except_bind_ok hdecode
    cases hdecode
    obtain ⟨signature, line, rest, hheader⟩ | ⟨e, hrejected, -⟩ := Reads.header_or_rejected plain
    · rw [Reads.readHeader_of_hasHeader hheader] at hread
      cases hstoull : Reads.stoull line with
      | error e =>
        rw [hstoull] at hread
        cases hread
      | ok count =>
        rw [hstoull] at hread
        cases hread
        exact hheader.signature_line
    · rw [hrejected] at hread
      cases hread

/-- What is decoded from the cursor of a row, if its signature is that of the order. -/
theorem decodeCursor_issued {values : List Value} {order : List CursorOrderTerm}
    {cursor : ByteString} (hencode : encodeCursor doubles values order = .ok cursor.bytes)
    {decoded : DecodedCursor} (hdecode : decodeCursor doubles cursor.bytes = .ok decoded)
    (hsignature : decoded.signature = orderSignature order) :
    List.Forall₂ (Decodes doubles) decoded.values values := by
  -- a signature with a line break would not be read as a whole
  have hline : 10 ∉ orderSignature order := hsignature ▸ newline_not_mem_signature doubles hdecode
  obtain ⟨texts, htexts, hcursor⟩ := except_bind_ok hencode
  generalize hplain : ByteString.ascii "2\n" ++ orderSignature order ++ [10] ++
    decimal values.length ++ [10] ++ texts.flatten = plain at hcursor
  have htext : plain = 50 :: 10 :: (orderSignature order ++
      10 :: (decimal values.length ++ 10 :: texts.flatten)) := by
    rw [← hplain, show ByteString.ascii "2\n" = [50, 10] by decide]
    simp
  have hpayload : base64urlDecode cursor.bytes = .ok plain := by
    rw [← Except.ok.inj hcursor, base64url_round_trip]
  have hlength := Reads.payload_lt hpayload
  rw [Reads.decodeCursor_of_payload doubles hpayload] at hdecode
  obtain ⟨header, hread, hdecode⟩ := except_bind_ok hdecode
  obtain ⟨others, hothers, hdecode⟩ := except_bind_ok hdecode
  have hread : Reads.readHeader plain = .ok header := by
    cases hheader : Reads.readHeader plain with
    | error e =>
      rw [hheader] at hread
      cases hread
    | ok header' =>
      rw [hheader] at hread
      cases hread
      rfl
  cases hdecode
  have hcount : 10 ∉ decimal values.length := fun hmem =>
    (isDigit_facts (isDigit_of_mem_decimal hmem)).2.2.2.2 rfl
  have hheader : Reads.HasHeader plain (orderSignature order) (decimal values.length)
      texts.flatten := ⟨htext, hline, hcount⟩
  have hvalues : values.length < 2 ^ 64 := by
    have hle := length_le_fields doubles htexts
    have htotal := congrArg List.length htext
    simp only [List.length_append, List.length_cons] at htotal
    omega
  rw [Reads.readHeader_of_hasHeader hheader, Reads.stoull, readNumber_decimal] at hread
  dsimp only at hread
  rw [if_pos hvalues] at hread
  cases hread
  refine decodeValues_issued doubles hlength values htexts ?_ hothers
  have hsecond := drop_line (show plain.drop 0 = [50] ++ 10 :: _ from htext)
  have hthird := drop_line (drop_line hsecond)
  rw [← hthird]
  congr 1
  simp only [List.length_cons, List.length_nil]
  omega

/-! ## Predicates of cursors -/

section

variable {collation : Collation} {order : List CursorOrderTerm} {options : CursorPageOptions}
  {rows : List Row}

/-- The columns of the statement, with their directions. -/
def statementColumns (order : List CursorOrderTerm) (backward : Bool) : List (ByteString × Bool) :=
  order.map fun term => (term.column, if backward then !term.ascending else term.ascending)

theorem Collation.byColumns_trans (collation : Collation) (columns : List (ByteString × Bool)) :
    Std.TransCmp (collation.byColumns columns) := by
  apply Keyset.lexicographic_trans
  rintro ⟨column, ascending⟩
  have htrans := collation.trans column
  cases ascending with
  | true => exact { eq_swap := htrans.eq_swap, isLE_trans := htrans.isLE_trans }
  | false =>
    exact { eq_swap := htrans.eq_swap, isLE_trans := fun hab hbc => htrans.isLE_trans hbc hab }

/-- Backward, the statement has the order the other way. -/
theorem byColumns_statementColumns (backward : Bool) (a b : Row) :
    collation.byColumns (statementColumns order backward) a b =
      if backward then collation.byColumns (orderColumns order) b a
      else collation.byColumns (orderColumns order) a b := by
  cases backward with
  | false => rfl
  | true =>
    rw [if_pos rfl]
    induction order with
    | nil => rfl
    | cons term order ih =>
      have hterm : collation.byColumn (term.column, !term.ascending) a b =
          collation.byColumn (term.column, term.ascending) b a := by
        cases hascending : term.ascending <;> simp [Collation.byColumn]
      show Ordering.then _ (collation.byColumns (statementColumns order true) a b) =
        Ordering.then _ (collation.byColumns (orderColumns order) b a)
      rw [ih]
      exact congrArg (Ordering.then · _) hterm

/-- What is decoded compares as the value of the row. -/
theorem compare_of_decodes (hdoubles : doubles.ReadsBack collation) {column : ByteString}
    {decoded value : Value} (h : Decodes doubles decoded value) (hvalue : value ≠ .null) :
    decoded ≠ .null ∧ collation.compare column decoded value = .eq := by
  have htrans := collation.trans column
  obtain rfl | ⟨bits, bits', rfl, rfl, hread⟩ := h
  · exact ⟨hvalue, Std.ReflCmp.compare_self⟩
  · exact ⟨nofun, hdoubles column bits bits' hread⟩

/-- The values of a cursor, each with its term. -/
theorem zip_issued (hdoubles : doubles.ReadsBack collation) {issued : Row}
    {values decoded : List Value} (hvalues : cursorValuesFromRow issued order = .ok values)
    (hdecoded : List.Forall₂ (Decodes doubles) decoded values) :
    ∀ pair ∈ order.zip decoded, pair.1 ∈ order ∧ pair.2 ≠ .null ∧
      collation.compare pair.1.column pair.2 (valueIn issued pair.1.column) = .eq := by
  induction order generalizing values decoded with
  | nil => simp
  | cons term order ih =>
    unfold cursorValuesFromRow at hvalues
    rw [List.mapM_cons] at hvalues
    obtain ⟨value, hvalue, hvalues⟩ := except_bind_ok hvalues
    obtain ⟨rest, hrest, hvalues⟩ := except_bind_ok hvalues
    cases hvalues
    cases hdecoded with
    | cons hfirst hothers =>
      have hlookup : valueIn issued term.column = value ∧ value ≠ .null := by
        unfold valueIn
        cases hrow : issued.lookup term.column with
        | none =>
          rw [hrow] at hvalue
          cases hvalue
        | some stored =>
          rw [hrow] at hvalue
          cases stored <;> cases hvalue <;> exact ⟨rfl, nofun⟩
      intro pair hpair
      obtain rfl | hpair := List.mem_cons.mp hpair
      · rw [hlookup.1]
        obtain ⟨hnull, hcompare⟩ := compare_of_decodes doubles hdoubles hfirst hlookup.2
        exact ⟨List.mem_cons_self, hnull, hcompare⟩
      · obtain ⟨hmem, hrest'⟩ := ih hrest hothers pair hpair
        exact ⟨List.mem_cons_of_mem term hmem, hrest'⟩

/-- The comparisons of a predicate, in terms of the row of the cursor. -/
theorem holds_iff_compare {issued row : Row} {column : ByteString} {value : Value}
    (hvalue : value ≠ .null) (hrow : valueIn row column ≠ .null)
    (hcompare : collation.compare column value (valueIn issued column) = .eq) (op : KeyOperator) :
    KeyComparison.holds collation { column, op, value } row = true ↔
      collation.compare column (valueIn row column) (valueIn issued column) =
        match op with
        | .eq => .eq
        | .gt => .gt
        | .lt => .lt := by
  have htrans := collation.trans column
  have hcongr : collation.compare column (valueIn row column) value =
      collation.compare column (valueIn row column) (valueIn issued column) :=
    Std.TransCmp.congr_right hcompare
  simp [KeyComparison.holds, hvalue, hrow, hcongr]

/-- The predicate of a cursor asks for the rows behind the row of the cursor. -/
theorem holds_cursorPredicate (hdoubles : doubles.ReadsBack collation) {issued row : Row}
    {values decoded : List Value} (hvalues : cursorValuesFromRow issued order = .ok values)
    (hdecoded : List.Forall₂ (Decodes doubles) decoded values) {backward : Bool}
    {predicate : List (List KeyComparison)}
    (hpredicate : cursorPredicate order decoded (!backward) = .ok predicate)
    (hrow : ∀ term ∈ order, valueIn row term.column ≠ .null) :
    predicateHolds collation (some predicate) row = true ↔
      collation.byColumns (statementColumns order backward) issued row = .lt := by
  unfold cursorPredicate at hpredicate
  split at hpredicate
  · cases hpredicate
  · rename_i hlength
    obtain rfl := Except.ok.inj hpredicate
    have hpairs := zip_issued doubles hdoubles hvalues hdecoded
    have hcolumns : statementColumns order backward = (order.zip decoded).map fun pair =>
        (pair.1.column, if backward then !pair.1.ascending else pair.1.ascending) := by
      have hfst : (order.zip decoded).map Prod.fst = order :=
        List.map_fst_zip (by omega)
      conv_lhs => rw [← hfst]
      rw [statementColumns, List.map_map]
      rfl
    unfold Collation.byColumns
    rw [hcolumns, Keyset.lexicographic_lt_iff, Keyset.splits_map]
    simp only [predicateHolds, Option.all_some, List.any_map, List.any_eq_true, List.mem_map,
      exists_exists_and_eq_and, Function.comp_apply, List.all_append, Bool.and_eq_true,
      List.all_eq_true, List.all_cons, List.all_nil, Bool.and_true, forall_exists_index, and_imp,
      forall_apply_eq_imp_iff₂]
    refine exists_congr fun split => and_congr_right fun hsplit => ?_
    obtain ⟨hlast, hbefore⟩ := Keyset.mem_of_mem_splits hsplit
    have htrans := collation.trans
    have hcomm : ∀ column a b, collation.compare column a b = .eq ↔
        collation.compare column b a = .eq := fun column a b => Std.OrientedCmp.eq_comm
    refine and_congr (forall₂_congr fun pair hpair => ?_) ?_
    · obtain ⟨hterm, hnull, hcompare⟩ := hpairs pair (hbefore pair hpair)
      rw [holds_iff_compare hnull (hrow _ hterm) hcompare]
      cases backward <;> cases hascending : pair.1.ascending <;>
        simp [Collation.byColumn, hcomm _ (valueIn issued _)]
    · obtain ⟨hterm, hnull, hcompare⟩ := hpairs split.2 hlast
      rw [holds_iff_compare hnull (hrow _ hterm) hcompare, Collation.byColumn]
      cases backward <;> cases split.2.1.ascending <;>
        simp [Std.OrientedCmp.gt_iff_lt]

/-! ## The rows of a result -/

/-- The loop keeps the first row of every root. -/
theorem distinctRows_ok {column : ByteString} :
    ∀ {rows : List Row} {seen : List (List UInt8)} {kept : List Row},
      distinctRows column seen rows = .ok kept →
      kept.Sublist rows ∧
      kept.Pairwise (fun a b => rootKey column a ≠ rootKey column b) ∧
      (∀ row ∈ kept, ∀ key ∈ seen, rootKey column row ≠ some key) ∧
      ∀ row ∈ rows, (∃ key ∈ seen, rootKey column row = some key) ∨
        ∃ first ∈ kept, rootKey column first = rootKey column row := by
  intro rows
  induction rows with
  | nil =>
    intro seen kept h
    cases h
    exact ⟨.slnil, .nil, nofun, nofun⟩
  | cons row rows ih =>
    intro seen kept h
    rw [distinctRows] at h
    cases hlookup : row.lookup column with
    | none =>
      rw [hlookup] at h
      cases h
    | some value =>
      rw [hlookup] at h
      have hkey : rootKey column row = some (valueKey value) := by
        rw [rootKey, hlookup]
        rfl
      dsimp only at h
      split at h
      · rename_i hseen
        obtain ⟨hsublist, hpairwise, hnew, hcover⟩ := ih h
        refine ⟨hsublist.cons row, hpairwise, hnew, ?_⟩
        intro other hother
        obtain rfl | hmem := List.mem_cons.mp hother
        · exact .inl ⟨valueKey value, hseen, hkey⟩
        · exact hcover other hmem
      · rename_i hseen
        obtain ⟨rest, hrest, h⟩ := except_bind_ok h
        cases h
        obtain ⟨hsublist, hpairwise, hnew, hcover⟩ := ih hrest
        refine ⟨hsublist.cons_cons row, List.pairwise_cons.mpr ⟨?_, hpairwise⟩, ?_, ?_⟩
        · intro other hother heq
          rw [hkey] at heq
          exact hnew other hother _ List.mem_cons_self heq.symm
        · intro other hother key hmem heq
          obtain rfl | hother := List.mem_cons.mp hother
          · rw [hkey] at heq
            cases heq
            exact hseen hmem
          · exact hnew other hother key (List.mem_cons_of_mem _ hmem) heq
        · intro other hother
          obtain rfl | hmem := List.mem_cons.mp hother
          · exact .inr ⟨other, List.mem_cons_self, rfl⟩
          · obtain ⟨key, hkeys, heq⟩ | ⟨first, hfirst, heq⟩ := hcover other hmem
            · obtain rfl | hkeys := List.mem_cons.mp hkeys
              · exact .inr ⟨row, List.mem_cons_self, hkey.trans heq.symm⟩
              · exact .inl ⟨key, hkeys, heq⟩
            · exact .inr ⟨first, List.mem_cons_of_mem row hfirst, heq⟩

theorem byColumns_eq_iff (backward : Bool) (a b : Row) :
    collation.byColumns (statementColumns order backward) a b = .eq ↔
      collation.byColumns (orderColumns order) a b = .eq := by
  have htrans := collation.byColumns_trans (orderColumns order)
  rw [byColumns_statementColumns]
  cases backward with
  | false => exact Iff.rfl
  | true =>
    have hcomm : collation.byColumns (orderColumns order) b a = .eq ↔
        collation.byColumns (orderColumns order) a b = .eq := Std.OrientedCmp.eq_comm
    exact hcomm

/-- The rows that a page is taken from: each row of which the predicate holds, or one that a join
    repeats it as, in the strict order of the statement. -/
structure Candidates (collation : Collation) (columns : List (ByteString × Bool)) (rows : List Row)
    (holds : Row → Bool) (candidates : List Row) : Prop where
  sorted : candidates.Pairwise (collation.byColumns columns · · = .lt)
  mem : ∀ row ∈ candidates, row ∈ rows ∧ holds row = true
  cover : ∀ row ∈ rows, holds row = true →
    ∃ candidate ∈ candidates, collation.byColumns columns candidate row = .eq

/-- The rows of the result are the first candidates, one more than a page has. -/
theorem exists_candidates {dedupeColumn : Option ByteString}
    (hunique : Unique collation order dedupeColumn rows) {backward : Bool} {limit : UInt64}
    {statement : CursorStatement} (hcolumns : statement.order = statementColumns order backward)
    (hlimit : statement.limit = if dedupeColumn.isSome then none else some (limit + 1))
    {answer result : List Row} (hanswer : statement.IsAnswer collation rows answer)
    (hresult : resultRows dedupeColumn answer = .ok result)
    (hne : result ≠ [] ∨ dedupeColumn.isSome = true ∨ limit.toNat + 1 < 2 ^ 64) :
    ∃ candidates, Candidates collation (statementColumns order backward) rows
        (predicateHolds collation statement.predicate) candidates ∧
      result.take limit.toNat = candidates.take limit.toNat ∧
      (limit.toNat < result.length ↔ limit.toNat < candidates.length) := by
  obtain ⟨sorted, hperm, hsorted, hanswer⟩ := hanswer
  rw [hcolumns] at hsorted
  have hmem : ∀ row, row ∈ sorted ↔
      row ∈ rows ∧ predicateHolds collation statement.predicate row = true := by
    intro row
    rw [hperm.mem_iff, List.mem_filter]
  have hstrict : ∀ {a b : Row}, collation.byColumns (statementColumns order backward) a b ≠ .gt →
      collation.byColumns (orderColumns order) a b ≠ .eq →
      collation.byColumns (statementColumns order backward) a b = .lt := by
    intro a b hgt heq
    rw [ne_eq, ← byColumns_eq_iff backward] at heq
    cases hcompare : collation.byColumns (statementColumns order backward) a b with
    | lt => rfl
    | eq => exact absurd hcompare heq
    | gt => exact absurd hcompare hgt
  cases dedupeColumn with
  | none =>
    rw [hlimit] at hanswer
    obtain rfl : answer = result := Except.ok.inj hresult
    change answer = sorted.take (limit + 1).toNat at hanswer
    refine ⟨sorted, ⟨?_, fun row hrow => (hmem row).mp hrow, ?_⟩, ?_⟩
    · have hsymm : ∀ {a b : Row}, collation.byColumns (orderColumns order) a b ≠ .eq →
          collation.byColumns (orderColumns order) b a ≠ .eq := by
        intro a b hab hba
        have htrans := collation.byColumns_trans (orderColumns order)
        exact hab (Std.OrientedCmp.eq_symm hba)
      have hdistinct : sorted.Pairwise fun a b =>
          collation.byColumns (orderColumns order) a b ≠ .eq :=
        (hperm.pairwise_iff hsymm).mpr (List.Pairwise.filter _ hunique)
      exact (hsorted.and hdistinct).imp fun h => hstrict h.1 h.2
    · intro row hrow hholds
      have htrans := collation.byColumns_trans (statementColumns order backward)
      exact ⟨row, (hmem row).mpr ⟨hrow, hholds⟩, Std.ReflCmp.compare_self⟩
    · -- the limit of the statement wraps only if no row is asked for
      have hsucc : (limit + 1).toNat = limit.toNat + 1 := by
        rw [UInt64.toNat_add] at hanswer ⊢
        by_contra hwrap
        have hlt := limit.toNat_lt
        have hone : (1 : UInt64).toNat = 1 := rfl
        have hzero : (limit.toNat + (1 : UInt64).toNat) % 2 ^ 64 = 0 := by omega
        rw [hzero] at hanswer
        obtain hne | hdedupe | hbound := hne
        · exact hne hanswer
        · cases hdedupe
        · omega
      rw [hsucc] at hanswer
      subst hanswer
      rw [List.take_take, Nat.min_eq_left (by omega), List.length_take]
      exact ⟨rfl, by omega⟩
  | some column =>
    rw [hlimit] at hanswer
    obtain rfl : answer = sorted := hanswer
    obtain ⟨hsublist, hpairwise, -, hcover⟩ := distinctRows_ok hresult
    have hrows : ∀ row ∈ result, row ∈ rows ∧
        predicateHolds collation statement.predicate row = true :=
      fun row hrow => (hmem row).mp (hsublist.subset hrow)
    refine ⟨result, ⟨?_, hrows, ?_⟩, rfl, Iff.rfl⟩
    · refine ((hsorted.sublist hsublist).and hpairwise).imp_of_mem fun ha hb h => ?_
      refine hstrict h.1 fun heq => h.2 ?_
      exact (hunique _ (hrows _ ha).1 _ (hrows _ hb).1).mp heq
    · intro row hrow hholds
      obtain ⟨key, hkey, -⟩ | ⟨first, hfirst, heq⟩ := hcover row ((hmem row).mpr ⟨hrow, hholds⟩)
      · cases hkey
      · refine ⟨first, hfirst, ?_⟩
        rw [byColumns_eq_iff]
        exact (hunique _ (hrows first hfirst).1 _ hrow).mpr heq

/-! ## Both sides of a page -/

/-- The predicate asks for the rows behind the row of the cursor, if there is one. -/
def AsksBehind (collation : Collation) (columns : List (ByteString × Bool)) (rows : List Row)
    (issued : Option Row) (holds : Row → Bool) : Prop :=
  ∀ row ∈ rows, holds row = true ↔ ∀ start ∈ issued, collation.byColumns columns start row = .lt

section

variable {columns : List (ByteString × Bool)} {holds : Row → Bool} {issued : Option Row}
  {candidates : List Row} {limit : Nat}

/-- On the side where a page ends, a row follows if there is one more candidate. -/
theorem exists_after_iff (hcandidates : Candidates collation columns rows holds candidates)
    (hasks : AsksBehind collation columns rows issued holds) {last : Row}
    (hlast : (candidates.take limit).getLast? = some last) :
    (∃ row ∈ rows, collation.byColumns columns last row = .lt) ↔ limit < candidates.length := by
  have htrans := collation.byColumns_trans columns
  rw [← Keyset.exists_lt_iff_length hcandidates.sorted hlast]
  have hmem : last ∈ candidates := List.mem_of_mem_take (List.mem_of_getLast? hlast)
  obtain ⟨hlastRow, hlastHolds⟩ := hcandidates.mem last hmem
  constructor
  · rintro ⟨row, hrow, hlt⟩
    have hholds : holds row = true := (hasks row hrow).mpr fun start hstart =>
      Std.TransCmp.lt_trans ((hasks last hlastRow).mp hlastHolds start hstart) hlt
    obtain ⟨candidate, hcandidate, heq⟩ := hcandidates.cover row hrow hholds
    exact ⟨candidate, hcandidate,
      Std.TransCmp.lt_of_lt_of_eq hlt (Std.OrientedCmp.eq_symm heq)⟩
  · rintro ⟨row, hrow, hlt⟩
    exact ⟨row, (hcandidates.mem row hrow).1, hlt⟩

/-- On the side where a page starts, a row comes before it if there is a cursor. -/
theorem exists_before_iff (hcandidates : Candidates collation columns rows holds candidates)
    (hasks : AsksBehind collation columns rows issued holds)
    (hissued : ∀ start ∈ issued, start ∈ rows) {first : Row} (hfirst : candidates.head? = some first) :
    (∃ row ∈ rows, collation.byColumns columns row first = .lt) ↔ issued.isSome = true := by
  have htrans := collation.byColumns_trans columns
  obtain ⟨hfirstRow, hfirstHolds⟩ := hcandidates.mem first (List.mem_of_head? hfirst)
  constructor
  · rintro ⟨row, hrow, hlt⟩
    by_contra hnone
    rw [Bool.not_eq_true, Option.isSome_eq_false_iff, Option.isNone_iff_eq_none] at hnone
    subst hnone
    obtain ⟨candidate, hcandidate, heq⟩ :=
      hcandidates.cover row hrow ((hasks row hrow).mpr nofun)
    exact Keyset.not_lt_head hcandidates.sorted hfirst candidate hcandidate
      (Std.TransCmp.lt_of_eq_of_lt heq hlt)
  · intro hsome
    obtain ⟨start, hstart⟩ := Option.isSome_iff_exists.mp hsome
    exact ⟨start, hissued start hstart, (hasks first hfirstRow).mp hfirstHolds start hstart⟩

end

/-! ## Flags -/

/-- The cursor, if there is one, is on the side where the mode starts. -/
def CursorOnItsSide (options : CursorPageOptions) : Prop :=
  (options.after = none ∧ options.before = none) ∨
    (options.first.isSome ∧ options.after.isSome) ∨ (options.last.isSome ∧ options.before.isSome)

instance (options : CursorPageOptions) : Decidable (CursorOnItsSide options) := by
  unfold CursorOnItsSide
  infer_instance

/-- The cursor of the options was issued for a row that is still there. -/
def IssuedFor (order : List CursorOrderTerm) (options : CursorPageOptions) (rows : List Row) :
    Prop :=
  ∀ cursor, (options.after <|> options.before) = some cursor →
    ∃ row ∈ rows, cursorOfRow doubles row order = .ok cursor.bytes

/-- The rows and the flags of a page that is not empty. -/
theorem pageOf_ok {result : List Row} {page : CursorPageResult}
    (h : pageOf doubles order options result = .ok page) (hne : page.items ≠ []) :
    page.items = (if options.last.isSome then
        (result.take (options.first.getD (options.last.getD 0)).toNat).reverse
      else result.take (options.first.getD (options.last.getD 0)).toNat) ∧
      page.pageInfo.hasNextPage = (if options.last.isSome then options.before.isSome
        else decide ((options.first.getD (options.last.getD 0)).toNat < result.length)) ∧
      page.pageInfo.hasPreviousPage = (if options.last.isSome then
        decide ((options.first.getD (options.last.getD 0)).toNat < result.length)
        else options.after.isSome) := by
  unfold pageOf at h
  dsimp only at h
  generalize (options.first.getD (options.last.getD 0)).toNat = limit at h ⊢
  have htake : (if limit < result.length then result.take limit else result) =
      result.take limit := by
    split
    · rfl
    · rename_i hlt
      rw [List.take_of_length_le (by omega)]
  rw [htake] at h
  split at h
  · obtain ⟨startCursor, -, h⟩ := except_bind_ok h
    obtain ⟨endCursor, -, h⟩ := except_bind_ok h
    cases h
    exact ⟨rfl, rfl, rfl⟩
  · rename_i hends
    cases h
    generalize (if options.last.isSome = true then (result.take limit).reverse
      else result.take limit) = items at hne hends
    cases items with
    | nil => exact absurd rfl hne
    | cons row items =>
      exact (hends row _ rfl (List.getLast?_eq_some_getLast (by simp))).elim

/-- What a call that returns has done. -/
theorem executeCursorImpl_ok {dialect : CursorDialect} {compileSubquery : Except Exn BoundSql}
    {execute : List UInt8 → List Value → Except Exn (List Row)} {dedupeColumn : Option ByteString}
    {page : CursorPageResult}
    (h : executeCursorImpl doubles dialect compileSubquery execute order options dedupeColumn =
      .ok page) :
    validateCursorOptions options = .ok () ∧ ∃ base statement sql answer result,
      compileSubquery = .ok base ∧
      statementOf doubles order options dedupeColumn = .ok statement ∧
      statement.write dialect base = .ok sql ∧ execute sql.1 sql.2 = .ok answer ∧
      resultRows dedupeColumn answer = .ok result ∧
      pageOf doubles order options result = .ok page := by
  unfold executeCursorImpl at h
  split at h
  · cases h
  · obtain ⟨⟨⟩, hvalid, h⟩ := except_bind_ok h
    obtain ⟨base, hbase, h⟩ := except_bind_ok h
    obtain ⟨statement, hstatement, h⟩ := except_bind_ok h
    obtain ⟨sql, hsql, h⟩ := except_bind_ok h
    obtain ⟨answer, hanswer, h⟩ := except_bind_ok h
    obtain ⟨result, hresult, h⟩ := except_bind_ok h
    exact ⟨hvalid, base, statement, sql, answer, result, hbase, hstatement, hsql, hanswer, hresult, h⟩

/-- One mode and at most one cursor. -/
theorem validateCursorOptions_ok (h : validateCursorOptions options = .ok ()) :
    (options.first.isSome = !options.last.isSome) ∧
      (options.after = none ∨ options.before = none) := by
  unfold validateCursorOptions at h
  split at h
  · cases h
  · rename_i hmodes
    split at h
    · cases h
    · rename_i hcursors
      split at h
      · cases h
      · rename_i hmode
        cases hfirst : options.first <;> cases hlast : options.last <;>
          cases hafter : options.after <;> cases hbefore : options.before <;>
          simp_all

/-- The predicate of the statement asks for the rows behind the row of the cursor. -/
theorem predicate_asksBehind (hdoubles : doubles.ReadsBack collation) (hnull : NonNull order rows)
    (hissued : IssuedFor doubles order options rows)
    {predicate : Option (List (List KeyComparison))}
    (hpredicate : predicateOf doubles order options = .ok predicate) :
    ∃ issued : Option Row, issued.isSome = (options.after <|> options.before).isSome ∧
      (∀ start ∈ issued, start ∈ rows) ∧
      AsksBehind collation (statementColumns order options.last.isSome) rows issued
        (predicateHolds collation predicate) := by
  unfold predicateOf at hpredicate
  cases hcursor : options.after <|> options.before with
  | none =>
    rw [hcursor] at hpredicate
    cases hpredicate
    refine ⟨none, rfl, nofun, fun row _ => ?_⟩
    simp [predicateHolds]
  | some cursor =>
    obtain ⟨start, hstart, hencode⟩ := hissued cursor hcursor
    obtain ⟨values, hvalues, hencode⟩ := except_bind_ok hencode
    rw [hcursor] at hpredicate
    obtain ⟨decoded, hdecode, hpredicate⟩ := except_bind_ok hpredicate
    split at hpredicate
    · cases hpredicate
    · rename_i hsignature
      obtain ⟨disjuncts, hdisjuncts, hpredicate⟩ := except_bind_ok hpredicate
      cases hpredicate
      have hdecoded := decodeCursor_issued doubles hencode hdecode (by simpa using hsignature)
      refine ⟨some start, rfl, ?_, fun row hrow => ?_⟩
      · intro row hrow
        cases hrow
        exact hstart
      · rw [holds_cursorPredicate doubles hdoubles hvalues hdecoded hdisjuncts (hnull row hrow)]
        simp

/-- The flag on the side of the cursor says whether there is a cursor just if the cursor is on the
    side where the mode starts. -/
theorem cursorOnItsSide_iff (hmode : options.first.isSome = !options.last.isSome)
    (hcursors : options.after = none ∨ options.before = none) :
    CursorOnItsSide options ↔
      (if options.last.isSome then options.before.isSome else options.after.isSome) =
        (options.after <|> options.before).isSome := by
  unfold CursorOnItsSide
  cases hlast : options.last <;> cases hafter : options.after <;>
    cases hbefore : options.before <;> simp_all

/-- On pages that are not empty, the flags are right if and only if there is no cursor, or the
    cursor is on the side where the mode starts. -/
theorem page_flags_truthful_iff {dialect : CursorDialect} {compileSubquery : Except Exn BoundSql}
    {execute : List UInt8 → List Value → Except Exn (List Row)} {dedupeColumn : Option ByteString}
    {page : CursorPageResult} (hdoubles : doubles.ReadsBack collation)
    (hanswers : ∀ base statement, compileSubquery = .ok base →
      statementOf doubles order options dedupeColumn = .ok statement →
      Answers collation rows dialect base execute statement)
    (hnull : NonNull order rows) (hunique : Unique collation order dedupeColumn rows)
    (hissued : IssuedFor doubles order options rows)
    (hpage : executeCursorImpl doubles dialect compileSubquery execute order options dedupeColumn =
      .ok page)
    (hne : page.items ≠ []) :
    Truthful collation order rows page ↔ CursorOnItsSide options := by
  obtain ⟨hvalid, base, statement, sql, answer, result, hbase, hstatement, hsql, hexecute, hresult,
    hpageOf⟩ := executeCursorImpl_ok doubles hpage
  obtain ⟨hmode, hcursors⟩ := validateCursorOptions_ok hvalid
  obtain ⟨predicate, hpredicate, hstatement'⟩ := except_bind_ok hstatement
  obtain ⟨issued, hsome, hstart, hasks⟩ :=
    predicate_asksBehind doubles hdoubles hnull hissued hpredicate
  obtain ⟨hitems, hnext, hprevious⟩ := pageOf_ok doubles hpageOf hne
  have hanswer := hanswers base statement hbase hstatement sql answer hsql hexecute
  cases hstatement'
  generalize hlimit : options.first.getD (options.last.getD 0) = limit at *
  have hresultNe : result ≠ [] := by
    rintro rfl
    apply hne
    rw [hitems]
    simp
  have hcolumns : (CursorStatement.mk predicate (order.map fun term => (term.column,
      if options.last.isSome then !term.ascending else term.ascending))
      (if dedupeColumn.isSome then none else some (limit + 1))).order =
        statementColumns order options.last.isSome := rfl
  obtain ⟨candidates, hcandidates, htake, hlength⟩ :=
    exists_candidates hunique hcolumns rfl hanswer hresult (.inl hresultNe)
  rw [htake] at hitems
  have hraw : candidates.take limit.toNat ≠ [] := by
    intro hnil
    apply hne
    rw [hitems, hnil]
    simp
  have hhead : (candidates.take limit.toNat).head? =
      some ((candidates.take limit.toNat).head hraw) := List.head?_eq_some_head hraw
  have hlast : (candidates.take limit.toNat).getLast? =
      some ((candidates.take limit.toNat).getLast hraw) := List.getLast?_eq_some_getLast hraw
  generalize (candidates.take limit.toNat).head hraw = front at hhead
  generalize (candidates.take limit.toNat).getLast hraw = back at hlast
  have hfront : candidates.head? = some front := by
    cases candidates with
    | nil => exact absurd List.take_nil hraw
    | cons row candidates =>
      cases hn : limit.toNat with
      | zero =>
        rw [hn] at hraw
        exact absurd rfl hraw
      | succ n =>
        rw [hn] at hhead
        exact hhead
  have hafter := exists_after_iff hcandidates hasks hlast
  have hbefore := exists_before_iff hcandidates hasks hstart hfront
  simp only [byColumns_statementColumns] at hafter hbefore
  rw [cursorOnItsSide_iff hmode hcursors, ← hsome]
  cases hbackward : options.last.isSome with
  | false =>
    rw [hbackward] at hitems hnext hprevious hafter hbefore
    simp only [Bool.false_eq_true, if_false] at hitems hnext hprevious hafter hbefore ⊢
    constructor
    · intro htruthful
      have hflag := htruthful.previous front (by rw [hitems, hhead])
      rw [hprevious, hbefore] at hflag
      exact Bool.eq_iff_iff.mpr hflag
    · intro hside
      refine ⟨fun last hlast' => ?_, fun first hfirst => ?_⟩
      · rw [hitems, hlast] at hlast'
        cases hlast'
        rw [hnext, decide_eq_true_iff, hafter]
        exact hlength
      · rw [hitems, hhead] at hfirst
        cases hfirst
        rw [hprevious, hbefore, hside]
  | true =>
    rw [hbackward] at hitems hnext hprevious hafter hbefore
    simp only [if_true] at hitems hnext hprevious hafter hbefore ⊢
    constructor
    · intro htruthful
      have hflag := htruthful.next front (by rw [hitems, List.getLast?_reverse, hhead])
      rw [hnext, hbefore] at hflag
      exact Bool.eq_iff_iff.mpr hflag
    · intro hside
      refine ⟨fun last hlast' => ?_, fun first hfirst => ?_⟩
      · rw [hitems, List.getLast?_reverse, hhead] at hlast'
        cases hlast'
        rw [hnext, hbefore, hside]
      · rw [hitems, List.head?_reverse, hlast] at hfirst
        cases hfirst
        rw [hprevious, decide_eq_true_iff, hafter]
        exact hlength

end

/-! ## Two users -/

/-- The number of an integer. -/
def integerOf : Value → Int
  | .int64 n => n.toInt
  | _ => 0

/-- Integers are compared as numbers. -/
def integerCollation : Collation where
  compare _ a b := compare (integerOf a) (integerOf b)
  trans _ := inferInstanceAs (Std.TransCmp (compareOn integerOf))

/-- No order has a `double` here. -/
def noDoubles : DoubleText where
  print := fun _ => []
  read := fun _ => .error invalidPayload

/-- The dialect of the users. -/
def plainDialect : CursorDialect where
  quoteIdentifier := id
  placeholder := fun _ => .ok [63]

/-- A user. -/
def user (n : Int64) : Row := AList.singleton (.ofAscii "id") (.int64 n)

/-- Users are ordered by their keys. -/
def userOrder : List CursorOrderTerm := [⟨.ofAscii "users", .ofAscii "id", true⟩]

/-- The cursor of the first user. -/
def firstUser : ByteString := .ofAscii "Mgp1c2Vycy5pZDpBU0MKMQppMToxCg"

/-- The cursor of the second user. -/
def secondUser : ByteString := .ofAscii "Mgp1c2Vycy5pZDpBU0MKMQppMToyCg"

/-- The page behind the first user. -/
def secondPage (previous : Bool) : CursorPageResult where
  items := [user 2]
  pageInfo := {
    hasPreviousPage := previous
    startCursor := some secondUser.bytes
    endCursor := some secondUser.bytes }

/-- The characters of one byte, as many bits as are held before it. -/
theorem drain_byte (buffer : UInt32) :
    drain buffer 8 = ([sextetChar (buffer >>> UInt32.ofNat 2)], 2) ∧
      drain buffer 10 = ([sextetChar (buffer >>> UInt32.ofNat 4)], 4) ∧
      drain buffer 12 =
        ([sextetChar (buffer >>> UInt32.ofNat 6), sextetChar (buffer >>> UInt32.ofNat 0)], 0) := by
  refine ⟨?_, ?_, ?_⟩
  · rw [drain, if_pos (by decide), drain, if_neg (by decide)]
  · rw [drain, if_pos (by decide), drain, if_neg (by decide)]
  · rw [drain, if_pos (by decide), drain, if_pos (by decide), drain, if_neg (by decide)]

theorem cursorOfRow_user :
    cursorOfRow noDoubles (user 1) userOrder = .ok firstUser.bytes ∧
      cursorOfRow noDoubles (user 2) userOrder = .ok secondUser.bytes := by
  have hencode : ∀ n : UInt8, base64urlEncode
      [50, 10, 117, 115, 101, 114, 115, 46, 105, 100, 58, 65, 83, 67, 10, 49, 10, 105, 49, 58, n,
        10] = base64urlEncode (ByteString.ascii "2\nusers.id:ASC\n1\ni1:" ++ [n, 10]) := by
    intro n
    rfl
  constructor
  · show Except.ok (base64urlEncode (ByteString.ascii "2\nusers.id:ASC\n1\ni1:" ++ [49, 10])) = _
    rw [← hencode]
    simp only [base64urlEncode, encodeFrom, (drain_byte _).1, (drain_byte _).2.1,
      (drain_byte _).2.2, Nat.reduceAdd]
    rfl
  · show Except.ok (base64urlEncode (ByteString.ascii "2\nusers.id:ASC\n1\ni1:" ++ [50, 10])) = _
    rw [← hencode]
    simp only [base64urlEncode, encodeFrom, (drain_byte _).1, (drain_byte _).2.1,
      (drain_byte _).2.2, Nat.reduceAdd]
    rfl

/-- The statement for the users behind the first. -/
def behindFirst : CursorStatement where
  predicate := some [[{ column := .ofAscii "id", op := .gt, value := .int64 1 }]]
  order := [(.ofAscii "id", true)]
  limit := some 2

theorem behindFirst_answers : Answers integerCollation [user 1, user 2] plainDialect ([], [])
    (fun _ _ => .ok [user 2]) behindFirst := by
  intro sql answer _ hanswer
  cases hanswer
  refine ⟨[user 2], ?_, List.pairwise_singleton _ _, rfl⟩
  rw [List.filter_cons_of_neg (by decide +kernel), List.filter_cons_of_pos (by decide +kernel)]
  rfl

theorem users_nonNull : NonNull userOrder [user 1, user 2] := by
  simp only [NonNull, userOrder, List.forall_mem_cons, List.not_mem_nil, false_implies,
    implies_true, and_true]
  decide +kernel

theorem users_unique : Unique integerCollation userOrder none [user 1, user 2] := by
  refine List.pairwise_cons.mpr ⟨?_, List.pairwise_singleton _ _⟩
  intro row hrow
  obtain rfl := List.mem_singleton.mp hrow
  decide +kernel

theorem users_issued (options : CursorPageOptions)
    (h : (options.after <|> options.before) = some firstUser) :
    IssuedFor noDoubles userOrder options [user 1, user 2] := by
  intro cursor hcursor
  rw [h] at hcursor
  cases hcursor
  exact ⟨user 1, by simp, cursorOfRow_user.1⟩

/-- The call for the users behind the first. -/
theorem executeCursorImpl_users {options : CursorPageOptions}
    (h : options = { first := some 1, after := some firstUser } ∨
      options = { first := some 1, before := some firstUser }) :
    executeCursorImpl noDoubles plainDialect (.ok ([], [])) (fun _ _ => .ok [user 2]) userOrder
      options none = .ok (secondPage options.after.isSome) := by
  have hpage : pageOf noDoubles userOrder options [user 2] =
      .ok (secondPage options.after.isSome) := by
    obtain rfl | rfl := h <;>
    · unfold pageOf
      show (cursorOfRow noDoubles (user 2) userOrder >>= fun _ =>
        cursorOfRow noDoubles (user 2) userOrder >>= _) = _
      rw [cursorOfRow_user.2]
      rfl
  rw [← hpage]
  obtain rfl | rfl := h <;> rfl

theorem page_flags_truthful_iff_after :
    Truthful integerCollation userOrder [user 1, user 2] (secondPage true) ↔
      CursorOnItsSide { first := some 1, after := some firstUser } :=
  page_flags_truthful_iff noDoubles nofun
    (by
      intro base statement hbase hstatement
      cases hbase
      obtain rfl : behindFirst = statement := Except.ok.inj hstatement
      exact behindFirst_answers)
    users_nonNull users_unique (users_issued _ rfl) (executeCursorImpl_users (.inl rfl)) nofun

/-- The page behind the first user, asked for by `before`: the flag denies the first user. -/
theorem first_before_flag :
    executeCursorImpl noDoubles plainDialect (.ok ([], [])) (fun _ _ => .ok [user 2]) userOrder
        { first := some 1, before := some firstUser } none = .ok (secondPage false) ∧
      Answers integerCollation [user 1, user 2] plainDialect ([], []) (fun _ _ => .ok [user 2])
        behindFirst ∧
      statementOf noDoubles userOrder { first := some 1, before := some firstUser } none =
        .ok behindFirst ∧
      ¬Truthful integerCollation userOrder [user 1, user 2] (secondPage false) := by
  refine ⟨executeCursorImpl_users (.inr rfl), behindFirst_answers, by rfl, fun htruthful => ?_⟩
  have hflag := (htruthful.previous (user 2) rfl).mpr ⟨user 1, by simp, by decide +kernel⟩
  cases hflag

end MetalOrm.Native.Cursor
