import MetalOrm.ForStd.Consumes
import MetalOrm.ForStd.LittleEndian
import MetalOrm.Native.CacheCodec

/-!
# Cache codec round trip

Every `Reader` operation consumes exactly what the `Writer` operation of the
same name wrote, and therefore `decodeQueryResult` undoes `encodeQueryResult`.

## Key results

- `u64_consumes`, `sized_consumes`, `value_consumes`: the primitive operations
- `encodeRow_eq_of_same`: the bytes of a row do not depend on the iteration order
- `decodeQueryResult_encodeQueryResult`: the round trip
-/

namespace MetalOrm.Native.CacheCodec

open MetalOrm.ForStd

/-- What a reader still has in front of it. -/
def Reader.rest (r : Reader) : List UInt8 := r.input.drop r.position

/-- `p` consumes what the writer wrote and returns `a`. -/
abbrev Reads {α : Type} (p : ReadM α) (written : List UInt8) (a : α) : Prop :=
  Consumes Reader.rest p written a

/-! ### Primitive operations -/

theorem length_rest (r : Reader) : r.rest.length = r.remaining := by
  simp [Reader.rest, Reader.remaining]

private theorem require_ok (r : Reader) (size : Nat) (h : size ≤ r.remaining) :
    r.require size = .ok ⟨h⟩ := by
  simp [Reader.require, Nat.not_lt_of_ge h]

theorem rest_advance (r : Reader) (size : Nat) (h : size ≤ r.remaining) :
    (r.advance size h).rest = r.rest.drop size := by
  simp [Reader.rest, Reader.advance, List.drop_drop]

/-- A word in front of the reader can be required. -/
private theorem length_le_remaining {r : Reader} {w rest : List UInt8} (h : r.rest = w ++ rest) :
    w.length ≤ r.remaining := by
  rw [← length_rest, h, List.length_append]; omega

theorem byte_consumes (b : UInt8) : Reads Reader.byte (Writer.byte b) b := by
  intro r rest h
  have hle : 1 ≤ r.remaining := length_le_remaining h
  refine ⟨r.advance 1 hle, ?_, by rw [rest_advance, h]; rfl⟩
  have hlt : r.position < r.input.length := by unfold Reader.remaining at hle; omega
  have hb : r.input[r.position] = b := by
    have hhead : r.rest[0]? = some b := by rw [h]; rfl
    rw [Reader.rest, List.getElem?_drop, Nat.add_zero] at hhead
    exact (List.getElem?_eq_some_iff.mp hhead).2
  simp only [StateT.run, Reader.byte, require_ok r 1 hle, bind, Except.bind, pure, Except.pure, hb]

private theorem u64_eq_flatMap (v : UInt64) :
    Writer.u64 v = u64Shifts.flatMap fun shift => Writer.byte (byteOf v shift) := rfl

/-- The reading loop of `u64` reassembles the word its bytes were cut from. -/
private theorem u64Loop_consumes (v : UInt64) :
    Reads (u64Shifts.foldlM (fun value shift => do
        let b ← Reader.byte
        return value ||| (b.toUInt64 <<< shift)) 0) (Writer.u64 v) v := by
  have hstep : ∀ acc shift : UInt64, Reads (do
      let b ← Reader.byte
      return acc ||| (b.toUInt64 <<< shift))
      (Writer.byte (byteOf v shift)) (acc ||| ((byteOf v shift).toUInt64 <<< shift)) := by
    intro acc shift
    have h := Consumes.map (fun b : UInt8 => acc ||| (b.toUInt64 <<< shift))
      (byte_consumes (byteOf v shift))
    exact h
  have hloop := Consumes.foldlM hstep u64Shifts 0
  have hv : u64Shifts.foldl (fun acc k => acc ||| ((byteOf v k).toUInt64 <<< k)) 0 = v :=
    foldl_or_byteOf v
  rw [hv] at hloop
  rw [u64_eq_flatMap]
  exact hloop

/-- `Writer::u64` then `Reader::u64` is the identity on every 64-bit word. -/
theorem u64_consumes (v : UInt64) : Reads Reader.u64 (Writer.u64 v) v := by
  unfold Reader.u64
  apply Consumes.get_bind
  intro r rest h
  have hle : 8 ≤ r.remaining := by
    have hlen := length_le_remaining h
    simpa [Writer.u64, u64Shifts, Writer.byte] using hlen
  obtain ⟨r', hr', hrest⟩ := u64Loop_consumes v r rest h
  refine ⟨r', ?_, hrest⟩
  rw [require_ok r 8 hle]
  exact hr'

theorem i64_consumes (v : Int64) : Reads Reader.i64 (Writer.i64 v) v := by
  have h := (u64_consumes v.toUInt64).map UInt64.toInt64
  rwa [Int64.toInt64_toUInt64] at h

theorem f64_consumes (bits : UInt64) : Reads Reader.f64 (Writer.f64 bits) bits := u64_consumes bits

theorem narrowSize_eq (raw : UInt64) (what : String) :
    Reader.narrowSize raw what = pure raw := by
  have hle : ¬ raw > sizeMax := by
    rw [gt_iff_lt, UInt64.lt_iff_toNat_lt]
    have := raw.toNat_lt
    rw [show sizeMax.toNat = 2 ^ 64 - 1 from rfl]
    omega
  simp [Reader.narrowSize, hle]

/-- A length-prefixed byte string is read back whole, empty or not. -/
theorem sized_consumes (s : ByteString) (what : String) :
    Reads (Reader.sized what) (Writer.u64 s.size64 ++ s.bytes) s := by
  unfold Reader.sized
  refine (u64_consumes s.size64).bind ?_
  simp only [narrowSize_eq, pure_bind]
  intro r rest h
  have hle : s.size64.toNat ≤ r.remaining := by
    rw [ByteString.toNat_size64]; exact length_le_remaining h
  refine ⟨r.advance s.size64.toNat hle, ?_, ?_⟩
  · have htake : (r.input.drop r.position).take s.size64.toNat = s.bytes := by
      rw [ByteString.toNat_size64, ← Reader.rest, h, List.take_left]
    simp only [StateT.run, require_ok r _ hle, bind, Except.bind, pure, Except.pure]
    congr 2
    exact ByteString.ext htake
  · rw [rest_advance, h, ByteString.toNat_size64, List.drop_left]

theorem bytes_consumes (s : ByteString) (what : String) :
    Reads (Reader.bytes what) (Writer.bytes s) s := sized_consumes s what

/-- Every value kind survives the round trip. -/
theorem value_consumes (v : Value) : Reads Reader.value (Writer.value v) v := by
  unfold Reader.value
  cases v with
  | null => exact (byte_consumes 0).bind (Consumes.pure _)
  | int64 n =>
    refine (byte_consumes 1).bind ?_
    exact (i64_consumes n).map Value.int64
  | double bits =>
    refine (byte_consumes 2).bind ?_
    exact (f64_consumes bits).map Value.double
  | string s =>
    refine (byte_consumes 3).bind ?_
    exact (bytes_consumes s "string").map Value.string
  | bool b =>
    refine (byte_consumes 4).bind ?_
    have hpayload : Reads (do
        let raw ← Reader.byte
        if raw > 1 then throw ⟨"MetalORM: cached boolean has invalid payload"⟩
        return Value.bool (raw == 1)) (Writer.byte (if b then 1 else 0) ++ []) (.bool b) := by
      refine (byte_consumes _).bind ?_
      cases b <;> exact Consumes.pure _
    rwa [List.append_nil] at hpayload
  | blob s =>
    refine (byte_consumes 5).bind ?_
    exact (sized_consumes s "blob").map Value.blob

/-- `Reader::count` accepts every count up to the safety limit. -/
theorem count_consumes (n : Nat) (what : String) (h : n ≤ 1000000) :
    Reads (Reader.count what) (Writer.u64 (UInt64.ofNat n)) (UInt64.ofNat n) := by
  unfold Reader.count
  have hle : ¬ UInt64.ofNat n > maxCollectionSize := by
    rw [gt_iff_lt, UInt64.lt_iff_toNat_lt, UInt64.toNat_ofNat']
    rw [show maxCollectionSize.toNat = 1000000 from rfl]
    omega
  have hlimit : Reads (if UInt64.ofNat n > maxCollectionSize then
        throw ⟨"MetalORM: cached " ++ what ++ " count exceeds safety limit"⟩
      else Reader.narrowSize (UInt64.ofNat n) what) [] (UInt64.ofNat n) := by
    rw [if_neg hle, narrowSize_eq]
    exact Consumes.pure _
  rw [← List.append_nil (Writer.u64 _)]
  exact (u64_consumes (UInt64.ofNat n)).bind hlimit

/-- `Reader::count` throws on every other count. -/
theorem count_refuses {n : Nat} (what : String) (h : 1000000 < n) (hsize : n < 2 ^ 64) :
    Refuses Reader.rest (Reader.count what) (Writer.u64 (UInt64.ofNat n)) := by
  have hgt : UInt64.ofNat n > maxCollectionSize := by
    rw [gt_iff_lt, UInt64.lt_iff_toNat_lt, UInt64.toNat_ofNat', Nat.mod_eq_of_lt hsize]
    exact h
  unfold Reader.count
  rw [← List.append_nil (Writer.u64 _)]
  refine (u64_consumes (UInt64.ofNat n)).bind_refuses ?_
  rw [if_pos hgt]
  exact Refuses.throw _ _

/-! ### Rows -/

/-- The bytes of one field. -/
def encodeField (field : Sigma fun _ : ByteString => Value) : List UInt8 :=
  Writer.bytes field.1 ++ Writer.value field.2

/-- The field loop reads the fields in the order they were written, provided no
    name occurs twice or is already in the row. -/
theorem decodeFields_consumes :
    ∀ (fields : List (Sigma fun _ : ByteString => Value)) (row : Row),
      (fields.map (·.1)).Nodup → (∀ f ∈ fields, f.1 ∉ row) →
      Reads (decodeFields fields.length row) (fields.flatMap encodeField)
        (fields.foldl (fun acc f => acc.insert f.1 f.2) row)
  | [], row, _, _ => Consumes.pure row
  | f :: fields, row, hnd, hout => by
    simp only [List.map_cons, List.nodup_cons] at hnd
    rw [List.length_cons, List.flatMap_cons, List.foldl_cons, decodeFields, encodeField,
      List.append_assoc]
    refine (bytes_consumes f.1 "column name").bind ((value_consumes f.2).bind ?_)
    simp only [hout f List.mem_cons_self, if_false]
    apply decodeFields_consumes fields (row.insert f.1 f.2) hnd.2
    intro g hg
    rw [AList.mem_insert, not_or]
    refine ⟨fun heq => hnd.1 ?_, hout g (List.mem_cons_of_mem f hg)⟩
    exact heq ▸ List.mem_map_of_mem hg

/-- Inserting a list of fields with distinct names gives the map with those entries. -/
theorem lookup_foldl_insert (column : ByteString) :
    ∀ (fields : List (Sigma fun _ : ByteString => Value)) (row : Row),
      (fields.map (·.1)).Nodup →
      (fields.foldl (fun acc f => acc.insert f.1 f.2) row).lookup column =
        (fields.dlookup column).or (row.lookup column)
  | [], row, _ => by simp
  | f :: fields, row, hnd => by
    simp only [List.map_cons, List.nodup_cons] at hnd
    rw [List.foldl_cons, lookup_foldl_insert column fields _ hnd.2]
    by_cases h : column = f.1
    · subst h
      have hnone : fields.dlookup f.1 = none := by
        rw [List.dlookup_eq_none]; exact hnd.1
      rw [hnone, AList.lookup_insert, List.dlookup_cons_eq]
      rfl
    · rw [AList.lookup_insert_ne h, List.dlookup_cons_ne _ _ h]

theorem sortedFields_perm (row : Row) : (sortedFields row).Perm row.entries :=
  List.mergeSort_perm _ _

private theorem sortedFields_nodup (row : Row) : ((sortedFields row).map (·.1)).Nodup :=
  ((sortedFields_perm row).map _).nodup_iff.mpr row.nodupKeys

theorem sortedFields_pairwise (row : Row) :
    (sortedFields row).Pairwise fun left right => left.1.le right.1 = true :=
  List.pairwise_mergeSort (fun left middle right =>
      @ByteString.le_trans left.1 middle.1 right.1)
    (fun left right => ByteString.le_total left.1 right.1) row.entries

/-- Reading a row back gives a map with the same content. -/
private theorem decodeRow_same (row : Row) :
    Row.same ((sortedFields row).foldl (fun acc f => acc.insert f.1 f.2) ∅) row := by
  intro column
  rw [lookup_foldl_insert column _ _ (sortedFields_nodup row), AList.lookup_empty, Option.or_none]
  exact List.perm_dlookup column (sortedFields_nodup row) (sortedFields_perm row)

/-- The bytes of a row do not depend on the iteration order of its hash map. -/
theorem encodeRow_eq_of_same {a b : Row} (h : Row.same a b) : encodeRow a = encodeRow b := by
  have hperm : a.entries.Perm b.entries := by
    apply List.lookup_ext a.nodupKeys b.nodupKeys
    intro x y
    have hx : a.entries.dlookup x = b.entries.dlookup x := h x
    rw [hx]
  have hsorted : sortedFields a = sortedFields b := by
    -- both are sorted by name, and the names of a row are pairwise different
    refine List.Perm.eq_of_pairwise ?_ (sortedFields_pairwise a) (sortedFields_pairwise b)
      (((sortedFields_perm a).trans hperm).trans (sortedFields_perm b).symm)
    · intro f g hf hg hfg hgf
      have hname : f.1 = g.1 := ByteString.le_antisymm hfg hgf
      have hf' : f ∈ a.entries := (sortedFields_perm a).mem_iff.mp hf
      have hg' : g ∈ a.entries := hperm.mem_iff.mpr ((sortedFields_perm b).mem_iff.mp hg)
      exact List.NodupKeys.eq_of_fst_eq a.nodupKeys hf' hg' hname
  rw [encodeRow, encodeRow, hsorted]

/-- The row loop reads back every row, up to its iteration order. -/
private theorem decodeRows_consumes :
    ∀ rows : List Row, (∀ row ∈ rows, row.size ≤ 1000000) →
      ∃ rows', Reads (decodeRows rows.length) (rows.flatMap encodeRow) rows' ∧
        List.Forall₂ Row.same rows' rows
  | [], _ => ⟨[], Consumes.pure _, .nil⟩
  | row :: rows, h => by
    obtain ⟨rows', hrows, hsame⟩ :=
      decodeRows_consumes rows fun r hr => h r (List.mem_cons_of_mem row hr)
    refine ⟨_ :: rows', ?_, .cons (decodeRow_same row) hsame⟩
    have hlen : (sortedFields row).length ≤ 1000000 := by
      rw [(sortedFields_perm row).length_eq]; exact h row List.mem_cons_self
    have hcount : (UInt64.ofNat (sortedFields row).length).toNat = (sortedFields row).length := by
      rw [UInt64.toNat_ofNat']; omega
    rw [List.length_cons, List.flatMap_cons, decodeRows, encodeRow, List.append_assoc]
    refine (count_consumes _ "field" hlen).bind ?_
    rw [hcount]
    exact (decodeFields_consumes _ ∅ (sortedFields_nodup row) (fun f _ => AList.notMem_empty _)).bind
      (hrows.map _)

/-! ### Query results -/

theorem decodeMagic_consumes :
    ∀ expected : List UInt8, Reads (decodeMagic expected) (expected.flatMap Writer.byte) ()
  | [] => Consumes.pure ()
  | b :: rest => by
    rw [decodeMagic, List.flatMap_cons]
    refine (byte_consumes b).bind ?_
    simp only [bne_self_eq_false, Bool.false_eq_true, if_false]
    exact decodeMagic_consumes rest

/-- A `QueryResult` within the safety limits of the reader: `Reader::count`
    refuses more rows, or more fields in a row, than `max_collection_size`. -/
structure WithinLimits (r : QueryResult) : Prop where
  rows : r.rows.length ≤ 1000000
  fields : ∀ row ∈ r.rows, row.size ≤ 1000000

/-- The reader of a whole result consumes the whole encoding. -/
private theorem readQueryResult_consumes (r : QueryResult) (h : WithinLimits r) :
    ∃ r' : QueryResult, Reads readQueryResult (encodeQueryResult r) r' ∧ r'.same r := by
  obtain ⟨rows', hrows, hsame⟩ := decodeRows_consumes r.rows h.fields
  have hcount : (UInt64.ofNat r.rows.length).toNat = r.rows.length := by
    have := h.rows
    rw [UInt64.toNat_ofNat']; omega
  refine ⟨⟨rows', r.affectedRows, r.lastInsertId⟩, ?_, ⟨hsame, rfl, rfl⟩⟩
  rw [encodeQueryResult, readQueryResult]
  simp only [List.append_assoc]
  refine (decodeMagic_consumes magic).bind ((count_consumes _ "row" h.rows).bind ?_)
  rw [hcount]
  exact hrows.bind ((i64_consumes _).bind ((i64_consumes _).map _))

/-- A reader with nothing in front of it is done. -/
theorem done_of_rest_nil {r : Reader} (h : r.rest = []) : r.done = true := by
  have hle := List.drop_eq_nil_iff.mp h
  exact beq_iff_eq.mpr (Nat.le_antisymm r.position_le hle)

/-- What is encoded is decoded, up to the iteration order of the rows. -/
theorem decode_encode (r : QueryResult) (h : WithinLimits r) :
    ∃ r', decodeQueryResult (encodeQueryResult r) = .ok r' ∧ r'.same r := by
  obtain ⟨r', hread, hsame⟩ := readQueryResult_consumes r h
  obtain ⟨s, hs, hrest⟩ := hread
    { input := encodeQueryResult r, position_le := Nat.zero_le _ } [] (by simp [Reader.rest])
  refine ⟨r', ?_, hsame⟩
  simp only [decodeQueryResult, hs, bind, Except.bind, done_of_rest_nil hrest, Bool.not_true,
    Bool.false_eq_true, if_false, pure, Except.pure]

/-- The sizes of a result are of type `size_t`. -/
structure Sized (r : QueryResult) : Prop where
  rows : r.rows.length < 2 ^ 64
  fields : ∀ row ∈ r.rows, row.size < 2 ^ 64

/-- The row loop throws at the first row that is too large. -/
private theorem decodeRows_refuses :
    ∀ rows : List Row, (∀ row ∈ rows, row.size < 2 ^ 64) →
      (∃ row ∈ rows, ¬ row.size ≤ 1000000) →
      Refuses Reader.rest (decodeRows rows.length) (rows.flatMap encodeRow)
  | [], _, h => by simp at h
  | row :: rows, hsize, h => by
    have hlen := (sortedFields_perm row).length_eq
    rw [List.length_cons, List.flatMap_cons, decodeRows, encodeRow, List.append_assoc]
    by_cases hrow : row.size ≤ 1000000
    · -- this row is read, so that a later one is too large
      have hrest : ∃ row' ∈ rows, ¬ row'.size ≤ 1000000 := by
        obtain ⟨row', hmem, hlarge⟩ := h
        obtain rfl | hmem := List.mem_cons.mp hmem
        · exact absurd hrow hlarge
        · exact ⟨row', hmem, hlarge⟩
      have hle : (sortedFields row).length ≤ 1000000 := hlen ▸ hrow
      have hcount : (UInt64.ofNat (sortedFields row).length).toNat = (sortedFields row).length := by
        rw [UInt64.toNat_ofNat']
        omega
      refine (count_consumes _ "field" hle).bind_refuses ?_
      rw [hcount]
      have hfields := decodeFields_consumes _ ∅ (sortedFields_nodup row)
        (fun f _ => AList.notMem_empty _)
      exact hfields.bind_refuses
        ((decodeRows_refuses rows (fun r hr => hsize r (List.mem_cons_of_mem row hr)) hrest).bind _)
    · have hlarge : 1000000 < (sortedFields row).length := by
        rw [hlen]
        exact Nat.lt_of_not_le hrow
      have hfits : (sortedFields row).length < 2 ^ 64 := by
        rw [hlen]
        exact hsize row List.mem_cons_self
      exact ((count_refuses "field" hlarge hfits).bind _).append _

/-- The reader refuses what the writer wrote of any other result. -/
theorem decode_encode_error {r : QueryResult} (hsize : Sized r) (h : ¬ WithinLimits r) :
    ∃ e, decodeQueryResult (encodeQueryResult r) = .error e := by
  have hrefuses : Refuses Reader.rest readQueryResult (encodeQueryResult r) := by
    rw [encodeQueryResult, readQueryResult]
    simp only [List.append_assoc]
    refine (decodeMagic_consumes magic).bind_refuses ?_
    by_cases hrows : r.rows.length ≤ 1000000
    · have hcount : (UInt64.ofNat r.rows.length).toNat = r.rows.length := by
        rw [UInt64.toNat_ofNat']
        omega
      have hlarge : ∃ row ∈ r.rows, ¬ row.size ≤ 1000000 := by
        by_contra hall
        push Not at hall
        exact h ⟨hrows, hall⟩
      refine (count_consumes _ "row" hrows).bind_refuses ?_
      rw [hcount]
      exact ((decodeRows_refuses r.rows hsize.fields hlarge).bind _).append _
    · exact ((count_refuses "row" (Nat.lt_of_not_le hrows) hsize.rows).bind _).append _
  obtain ⟨e, he⟩ := hrefuses { input := encodeQueryResult r, position_le := Nat.zero_le _ } []
    (by simp [Reader.rest])
  exact ⟨e, by simp only [decodeQueryResult, he, bind, Except.bind]⟩

/-- Decoding an encoded result gives the result back, up to the iteration order
    of the rows, and the encoding itself does not depend on that order. -/
theorem decodeQueryResult_encodeQueryResult (r : QueryResult) (h : WithinLimits r) :
    (∃ r', decodeQueryResult (encodeQueryResult r) = .ok r' ∧ r'.same r) ∧
      ∀ r' : QueryResult, r'.same r → encodeQueryResult r' = encodeQueryResult r := by
  constructor
  · exact decode_encode r h
  · intro r' hsame
    have hrows : r'.rows.flatMap encodeRow = r.rows.flatMap encodeRow := by
      have hmap : r'.rows.map encodeRow = r.rows.map encodeRow :=
        List.forall₂_eq_eq_eq ▸ (List.forall₂_map_left_iff.mpr (List.forall₂_map_right_iff.mpr
          (hsame.rows.imp fun _ _ => encodeRow_eq_of_same)))
      rw [List.flatMap_def, List.flatMap_def, hmap]
    rw [encodeQueryResult, encodeQueryResult, hrows, hsame.rows.length_eq, hsame.affectedRows,
      hsame.lastInsertId]

/-- The round trip on a row with an empty string and a null under two names. -/
theorem decodeQueryResult_encodeQueryResult_two_fields :
    let row : Row := (AList.insert ⟨[97], by decide⟩ (.string ⟨[], by decide⟩)
      (AList.insert ⟨[98], by decide⟩ .null ∅))
    let r : QueryResult := ⟨[row], -1, 7⟩
    (∃ r', decodeQueryResult (encodeQueryResult r) = .ok r' ∧ r'.same r) ∧
      ∀ r' : QueryResult, r'.same r → encodeQueryResult r' = encodeQueryResult r := by
  intro row r
  apply decodeQueryResult_encodeQueryResult
  exact ⟨by decide, by
    intro x hx
    rw [List.mem_singleton.mp hx]
    decide⟩

end MetalOrm.Native.CacheCodec
