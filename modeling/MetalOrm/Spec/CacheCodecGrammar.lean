import MetalOrm.Spec.CacheCodecCorrect

/-!
# What the cache codec accepts

The payloads that `decode_query_result` accepts are described by a grammar: `Payload` is the
contents of one, in its own order. Whatever the reader returns for, it took a word of the
grammar off the input (`value_produces` and the lemmas around it), and it returns for every
word of the grammar.

A read is only made with the evidence that the bytes are there (`Reader::require`), so no
reader action leaves the payload.

## Key results

- `decodeQueryResult_eq_ok_iff`: the accepted payloads, and what they are decoded to
- `decode_malformed`: rejection, stability, canonical payloads and prefix freedom
-/

namespace MetalOrm.Native.CacheCodec

open MetalOrm.ForStd

/-- Whenever `p` returns, it took off a word that `G` allows. -/
abbrev Takes {α : Type} (p : ReadM α) (G : α → List UInt8 → Prop) : Prop :=
  Produces Reader.rest p G

/-! ### Primitive operations -/

theorem byte_produces : Takes Reader.byte fun b w => w = Writer.byte b := by
  intro r b r' hrun
  unfold Reader.byte Reader.require at hrun
  simp only [StateT.run, bind, Except.bind] at hrun
  split at hrun
  · cases hrun
  · rename_i _ h heq
    split at heq
    · cases heq
    · cases hrun
      have hlt : r.position < r.input.length := by
        unfold Reader.remaining at *
        omega
      refine ⟨[r.input[r.position]], ?_, rfl⟩
      rw [rest_advance]
      unfold Reader.rest
      rw [List.drop_drop, List.drop_eq_getElem_cons hlt]
      rfl

/-- The reading loop of `u64` takes one byte for each shift. -/
theorem u64Loop_produces : ∀ (shifts : List UInt64) (acc : UInt64),
    Takes (shifts.foldlM (fun value shift => do
        let b ← Reader.byte
        return value ||| (b.toUInt64 <<< shift)) acc)
      fun v w => w.length = shifts.length ∧
        v = (w.zip shifts).foldl (fun value p => value ||| (p.1.toUInt64 <<< p.2)) acc
  | [], acc => Produces.pure ⟨rfl, rfl⟩
  | shift :: shifts, acc => by
    rw [List.foldlM_cons, bind_assoc]
    refine byte_produces.bind fun b u hu => ?_
    rw [pure_bind]
    refine (u64Loop_produces shifts _).mono fun v w hw => ?_
    rw [hu]
    exact ⟨congrArg (· + 1) hw.1, hw.2⟩

/-- `Reader::u64` takes the bytes that `Writer::u64` writes for its result. -/
theorem u64_produces : Takes Reader.u64 fun v w => w = Writer.u64 v := by
  unfold Reader.u64
  refine Produces.get_bind fun r => ?_
  have hrequire : Takes (liftM (r.require 8)) fun _ w => w = [] := by
    intro s a s' hrun
    cases hr : r.require 8 with
    | error e =>
      rw [hr] at hrun
      cases hrun
    | ok h =>
      rw [hr] at hrun
      cases hrun
      exact ⟨[], rfl, rfl⟩
  refine hrequire.bind fun _ u hu => ?_
  subst hu
  refine (u64Loop_produces u64Shifts 0).mono fun v w hw => ?_
  obtain ⟨hlen, hv⟩ := hw
  match w, hlen with
  | [b0, b1, b2, b3, b4, b5, b6, b7], _ =>
    subst hv
    have hbytes := map_byteOf_foldl b0 b1 b2 b3 b4 b5 b6 b7
    exact hbytes.symm

theorem i64_produces : Takes Reader.i64 fun v w => w = Writer.i64 v := by
  refine u64_produces.bind fun v u hu => Produces.pure ?_
  rw [List.append_nil, hu]
  show Writer.u64 v = Writer.u64 v.toInt64.toUInt64
  rw [UInt64.toUInt64_toInt64]

theorem sized_produces (what : String) :
    Takes (Reader.sized what) fun s w => w = Writer.u64 s.size64 ++ s.bytes := by
  unfold Reader.sized
  refine u64_produces.bind fun size u hu => ?_
  simp only [narrowSize_eq, pure_bind]
  intro r s r' hrun
  simp only [StateT.run, Reader.require, bind, Except.bind] at hrun
  split at hrun
  · cases hrun
  · rename_i _ h heq
    split at heq
    · cases heq
    · rename_i hsize
      cases hrun
      have hlength : size.toNat ≤ r.rest.length := by
        rw [length_rest]
        omega
      refine ⟨r.rest.take size.toNat, ?_, ?_⟩
      · rw [rest_advance, List.take_append_drop]
      · rw [hu]
        have hsize64 : ∀ hlt : (r.rest.take size.toNat).length < 2 ^ 64,
            size = (ByteString.mk (r.rest.take size.toNat) hlt).size64 := by
          intro hlt
          apply UInt64.toNat_inj.mp
          rw [ByteString.toNat_size64, List.length_take]
          omega
        exact congrArg (Writer.u64 · ++ r.rest.take size.toNat) (hsize64 _)

/-- `Reader::count` refuses what is above the safety limit. -/
theorem count_produces (what : String) :
    Takes (Reader.count what) fun n w => w = Writer.u64 n ∧ n.toNat ≤ 1000000 := by
  unfold Reader.count
  refine u64_produces.bind fun n u hu => Produces.ite (fun _ => Produces.throw _ _) fun hle => ?_
  rw [narrowSize_eq]
  refine Produces.pure ⟨by rw [List.append_nil, hu], ?_⟩
  rw [gt_iff_lt, UInt64.lt_iff_toNat_lt] at hle
  exact Nat.le_of_not_lt hle

/-- `Reader::value` takes the bytes that `Writer::value` writes for its result. -/
theorem value_produces : Takes Reader.value fun v w => w = Writer.value v := by
  unfold Reader.value
  refine byte_produces.bind fun tag u hu => ?_
  subst hu
  split
  · exact Produces.pure rfl
  · exact i64_produces.bind fun n u hu => Produces.pure (by rw [hu, List.append_nil]; rfl)
  · exact u64_produces.bind fun bits u hu => Produces.pure (by rw [hu, List.append_nil]; rfl)
  · exact (sized_produces "string").bind fun s u hu =>
      Produces.pure (by rw [hu, List.append_nil]; rfl)
  · refine byte_produces.bind fun raw u hu => ?_
    refine Produces.ite (fun _ => Produces.throw _ _) fun hle => Produces.pure ?_
    subst hu
    -- the payload of a boolean is 0 or 1
    have hraw : raw = 0 ∨ raw = 1 := by
      rw [gt_iff_lt, UInt8.lt_iff_toNat_lt] at hle
      have hsmall : raw.toNat = 0 ∨ raw.toNat = 1 := by
        have h1 : (1 : UInt8).toNat = 1 := rfl
        omega
      exact hsmall.imp UInt8.toNat_inj.mp UInt8.toNat_inj.mp
    obtain rfl | rfl := hraw <;> rfl
  · exact (sized_produces "blob").bind fun s u hu =>
      Produces.pure (by rw [hu, List.append_nil]; rfl)
  · exact Produces.throw _ _

/-! ### Payloads -/

/-- A field of a row. -/
abbrev Field := Sigma fun _ : ByteString => Value

/-- The contents of a payload: the fields of each row in the order of the payload. -/
structure Payload where
  rows : List (List Field)
  affectedRows : Int64
  lastInsertId : Int64

/-- The bytes of one row. -/
def rowBytes (fields : List Field) : List UInt8 :=
  Writer.u64 (UInt64.ofNat fields.length) ++ fields.flatMap encodeField

/-- The map that one row is read into. -/
def rowOf (fields : List Field) : Row := fields.foldl (fun acc f => acc.insert f.1 f.2) ∅

namespace Payload

/-- The bytes of the payload. -/
def bytes (payload : Payload) : List UInt8 :=
  magic.flatMap Writer.byte ++ (Writer.u64 (UInt64.ofNat payload.rows.length) ++
    (payload.rows.flatMap rowBytes ++ (Writer.i64 payload.affectedRows ++
      Writer.i64 payload.lastInsertId)))

/-- The result that the payload stands for. -/
def result (payload : Payload) : QueryResult where
  rows := payload.rows.map rowOf
  affectedRows := payload.affectedRows
  lastInsertId := payload.lastInsertId

/-- Counts within the safety limit, and no name twice in a row. -/
structure Valid (payload : Payload) : Prop where
  rows : payload.rows.length ≤ 1000000
  fields : ∀ fields ∈ payload.rows, fields.length ≤ 1000000
  nodup : ∀ fields ∈ payload.rows, (fields.map (·.1)).Nodup

/-- In each row the column names are strictly increasing. -/
def Increasing (payload : Payload) : Prop :=
  ∀ fields ∈ payload.rows,
    fields.Pairwise fun left right => left.1.le right.1 = true ∧ left.1 ≠ right.1

end Payload

/-! ### Accepted payloads are words of the grammar -/

theorem decodeMagic_produces : ∀ expected : List UInt8,
    Takes (decodeMagic expected) fun _ w => w = expected.flatMap Writer.byte
  | [] => Produces.pure rfl
  | b :: expected => by
    rw [decodeMagic, List.flatMap_cons]
    refine byte_produces.bind fun b' u hu => ?_
    refine Produces.ite (fun _ => Produces.throw _ _) fun hb => ?_
    refine (decodeMagic_produces expected).mono fun _ w hw => ?_
    have heq : b' = b := by simpa using hb
    rw [hu, hw, heq]

theorem decodeFields_produces : ∀ (n : Nat) (row : Row),
    Takes (decodeFields n row) fun row' w => ∃ fields : List Field, fields.length = n ∧
      w = fields.flatMap encodeField ∧ (fields.map (·.1)).Nodup ∧ (∀ f ∈ fields, f.1 ∉ row) ∧
        row' = fields.foldl (fun acc f => acc.insert f.1 f.2) row
  | 0, row => Produces.pure ⟨[], rfl, rfl, List.nodup_nil, by simp, rfl⟩
  | n + 1, row => by
    unfold decodeFields
    refine (sized_produces "column name").bind fun name u hu => ?_
    refine value_produces.bind fun current v hv => ?_
    refine Produces.ite (fun _ => Produces.throw _ _) fun hfresh => ?_
    refine (decodeFields_produces n (row.insert name current)).mono fun row' w hw => ?_
    obtain ⟨fields, hlength, hbytes, hnodup, hout, hrow⟩ := hw
    refine ⟨⟨name, current⟩ :: fields, by rw [List.length_cons, hlength], ?_, ?_, ?_, hrow⟩
    · rw [List.flatMap_cons, hbytes, hu, hv, encodeField, Writer.bytes]
      simp only [List.append_assoc]
    · rw [List.map_cons, List.nodup_cons]
      refine ⟨fun hmem => ?_, hnodup⟩
      obtain ⟨f, hf, hname⟩ := List.mem_map.mp hmem
      exact hout f hf ((AList.mem_insert _).mpr (.inl hname))
    · intro f hf
      obtain rfl | hf := List.mem_cons.mp hf
      · exact hfresh
      · exact fun hmem => hout f hf ((AList.mem_insert _).mpr (.inr hmem))

theorem toNat_ofNat_length {α : Type} {l : List α} (h : l.length ≤ 1000000) :
    (UInt64.ofNat l.length).toNat = l.length := by
  rw [UInt64.toNat_ofNat']
  omega

theorem decodeRows_produces : ∀ n : Nat,
    Takes (decodeRows n) fun rows w => ∃ contents : List (List Field), contents.length = n ∧
      w = contents.flatMap rowBytes ∧ rows = contents.map rowOf ∧
        ∀ fields ∈ contents, fields.length ≤ 1000000 ∧ (fields.map (·.1)).Nodup
  | 0 => Produces.pure ⟨[], rfl, rfl, rfl, by simp⟩
  | n + 1 => by
    unfold decodeRows
    refine (count_produces "field").bind fun count u hu => ?_
    refine (decodeFields_produces count.toNat ∅).bind fun row v hv => ?_
    refine (decodeRows_produces n).bind fun rows w hw => Produces.pure ?_
    obtain ⟨fields, hlength, hbytes, hnodup, -, hrow⟩ := hv
    obtain ⟨contents, hcount, hrest, hrows, hall⟩ := hw
    have hlimit : fields.length ≤ 1000000 := hlength ▸ hu.2
    have hofNat : UInt64.ofNat fields.length = count := by
      apply UInt64.toNat_inj.mp
      rw [toNat_ofNat_length hlimit, hlength]
    refine ⟨fields :: contents, by rw [List.length_cons, hcount], ?_, by rw [hrow, hrows]; rfl, ?_⟩
    · rw [List.flatMap_cons, rowBytes, hofNat, hu.1, hbytes, hrest, List.append_nil,
        List.append_assoc]
    · exact List.forall_mem_cons.mpr ⟨⟨hlimit, hnodup⟩, hall⟩

/-- What `decode_query_result` reads is a payload of the grammar. -/
theorem readQueryResult_produces : Takes readQueryResult fun result w =>
    ∃ payload : Payload, payload.Valid ∧ payload.bytes = w ∧ payload.result = result := by
  unfold readQueryResult
  refine (decodeMagic_produces magic).bind fun _ m hm => ?_
  refine (count_produces "row").bind fun count u hu => ?_
  refine (decodeRows_produces count.toNat).bind fun rows v hv => ?_
  refine i64_produces.bind fun affectedRows a ha => ?_
  refine i64_produces.bind fun lastInsertId l hl => Produces.pure ?_
  obtain ⟨contents, hcount, hbytes, hrows, hall⟩ := hv
  have hlimit : contents.length ≤ 1000000 := hcount ▸ hu.2
  have hofNat : UInt64.ofNat contents.length = count := by
    apply UInt64.toNat_inj.mp
    rw [toNat_ofNat_length hlimit, hcount]
  refine ⟨⟨contents, affectedRows, lastInsertId⟩,
    ⟨hlimit, fun fields hf => (hall fields hf).1, fun fields hf => (hall fields hf).2⟩, ?_, ?_⟩
  · unfold Payload.bytes
    rw [hofNat, hm, hu.1, hbytes, ha, hl, List.append_nil]
  · unfold Payload.result
    rw [hrows]

/-! ### Words of the grammar are accepted -/

theorem decodeRows_payload : ∀ contents : List (List Field),
    (∀ fields ∈ contents, fields.length ≤ 1000000) →
    (∀ fields ∈ contents, (fields.map (·.1)).Nodup) →
    Reads (decodeRows contents.length) (contents.flatMap rowBytes) (contents.map rowOf)
  | [], _, _ => Consumes.pure _
  | fields :: contents, hlimit, hnodup => by
    rw [List.forall_mem_cons] at hlimit hnodup
    rw [List.length_cons, List.flatMap_cons, decodeRows, rowBytes, List.append_assoc]
    refine (count_consumes _ "field" hlimit.1).bind ?_
    rw [toNat_ofNat_length hlimit.1]
    exact (decodeFields_consumes fields ∅ hnodup.1 fun f _ => AList.notMem_empty _).bind
      ((decodeRows_payload contents hlimit.2 hnodup.2).map _)

theorem readQueryResult_payload {payload : Payload} (h : payload.Valid) :
    Reads readQueryResult payload.bytes payload.result := by
  unfold readQueryResult Payload.bytes
  refine (decodeMagic_consumes magic).bind ((count_consumes _ "row" h.rows).bind ?_)
  rw [toNat_ofNat_length h.rows]
  exact (decodeRows_payload payload.rows h.fields h.nodup).bind
    ((i64_consumes _).bind ((i64_consumes _).map _))

/-! ### The accepted payloads -/

theorem Reader.rest_start (p : List UInt8) : (Reader.start p).rest = p := rfl

theorem decodeQueryResult_of_run {p : List UInt8} {result : QueryResult} {r : Reader}
    (h : readQueryResult.run (Reader.start p) = .ok (result, r)) :
    decodeQueryResult p = if r.rest = [] then .ok result
      else .error ⟨"MetalORM: cache payload contains trailing bytes"⟩ := by
  have hrun : readQueryResult.run { input := p, position_le := Nat.zero_le _ } = _ := h
  simp only [decodeQueryResult, hrun, bind, Except.bind]
  by_cases hrest : r.rest = []
  · simp [hrest, done_of_rest_nil hrest, pure, Except.pure]
  · have hdone : r.done = false := by
      rw [← Bool.not_eq_true]
      intro hdone
      apply hrest
      rw [Reader.rest, List.drop_eq_nil_iff]
      exact Nat.le_of_eq (beq_iff_eq.mp hdone).symm
    simp [hrest, hdone, throw, throwThe, MonadExceptOf.throw]

/-- A payload of the grammar is decoded, unless something follows it. -/
theorem decodeQueryResult_payload {payload : Payload} (h : payload.Valid) (rest : List UInt8) :
    decodeQueryResult (payload.bytes ++ rest) = if rest = [] then .ok payload.result
      else .error ⟨"MetalORM: cache payload contains trailing bytes"⟩ := by
  obtain ⟨r, hrun, hrest⟩ := readQueryResult_payload h (Reader.start (payload.bytes ++ rest)) rest
    (Reader.rest_start _)
  rw [decodeQueryResult_of_run hrun, hrest]

/-- The accepted payloads, and what they are decoded to. -/
theorem decodeQueryResult_eq_ok_iff {p : List UInt8} {result : QueryResult} :
    decodeQueryResult p = .ok result ↔
      ∃ payload : Payload, payload.Valid ∧ payload.bytes = p ∧ payload.result = result := by
  constructor
  · intro h
    cases hrun : readQueryResult.run (Reader.start p) with
    | error e =>
      have hrun' : readQueryResult.run { input := p, position_le := Nat.zero_le _ } = _ := hrun
      simp [decodeQueryResult, hrun', bind, Except.bind] at h
    | ok out =>
      obtain ⟨result', r⟩ := out
      rw [decodeQueryResult_of_run hrun] at h
      obtain ⟨w, hw, payload, hvalid, hbytes, hresult⟩ :=
        readQueryResult_produces _ _ _ hrun
      rw [Reader.rest_start] at hw
      by_cases hrest : r.rest = []
      · rw [if_pos hrest] at h
        rw [hrest, List.append_nil] at hw
        exact ⟨payload, hvalid, hbytes.trans hw.symm, hresult.trans (Except.ok.inj h)⟩
      · rw [if_neg hrest] at h
        cases h
  · rintro ⟨payload, hvalid, rfl, rfl⟩
    have h := decodeQueryResult_payload hvalid []
    rwa [List.append_nil] at h

/-! ### Rows that are read back -/

theorem entries_rowOf_perm {fields : List Field} (h : (fields.map (·.1)).Nodup) :
    (rowOf fields).entries.Perm fields := by
  apply List.lookup_ext (rowOf fields).nodupKeys h
  intro x y
  have hx := lookup_foldl_insert x fields ∅ h
  rw [AList.lookup_empty, Option.or_none] at hx
  have hlookup : (rowOf fields).entries.dlookup x = fields.dlookup x := hx
  rw [hlookup]

/-- A row whose names are strictly increasing is written as it was read. -/
theorem encodeRow_rowOf {fields : List Field}
    (h : fields.Pairwise fun left right => left.1.le right.1 = true ∧ left.1 ≠ right.1) :
    encodeRow (rowOf fields) = rowBytes fields := by
  have hnodup : (fields.map (·.1)).Nodup :=
    List.pairwise_map.mpr (h.imp fun hlt => hlt.2)
  have hsorted : sortedFields (rowOf fields) = fields := by
    refine List.Perm.eq_of_pairwise ?_ (sortedFields_pairwise _) (h.imp fun hlt => hlt.1)
      ((sortedFields_perm _).trans (entries_rowOf_perm hnodup))
    intro f g hf hg hfg hgf
    have hf' : f ∈ fields := ((sortedFields_perm _).trans (entries_rowOf_perm hnodup)).mem_iff.mp hf
    exact List.NodupKeys.eq_of_fst_eq hnodup hf' hg (ByteString.le_antisymm hfg hgf)
  rw [encodeRow, hsorted]
  rfl

namespace Payload

variable {payload : Payload}

theorem Valid.withinLimits (h : payload.Valid) : WithinLimits payload.result where
  rows := by
    show (payload.rows.map rowOf).length ≤ 1000000
    rw [List.length_map]
    exact h.rows
  fields row hrow := by
    obtain ⟨fields, hfields, rfl⟩ := List.mem_map.mp hrow
    show (rowOf fields).entries.length ≤ 1000000
    rw [(entries_rowOf_perm (h.nodup fields hfields)).length_eq]
    exact h.fields fields hfields

theorem Increasing.encode (h : payload.Increasing) :
    encodeQueryResult payload.result = payload.bytes := by
  have hrows : (payload.rows.map rowOf).flatMap encodeRow = payload.rows.flatMap rowBytes := by
    rw [List.flatMap_map]
    exact List.flatMap_congr fun fields hfields => encodeRow_rowOf (h fields hfields)
  unfold encodeQueryResult Payload.bytes Payload.result
  dsimp only
  rw [hrows, List.length_map]
  simp only [List.append_assoc]

end Payload

/-- Decoding returns or throws `CacheCodecError`; what it returns is the contents of the whole
    payload, survives encoding, and is encoded as the payload itself if the names in its rows
    are strictly increasing; nothing shorter and nothing longer is accepted. -/
theorem decode_malformed (p : List UInt8) :
    (∃ error : CacheCodecError, decodeQueryResult p = .error error) ∨
      ∃ result, decodeQueryResult p = .ok result ∧
        (∃ payload : Payload, payload.bytes = p ∧ payload.Valid ∧ payload.result = result) ∧
        (∃ result', decodeQueryResult (encodeQueryResult result) = .ok result' ∧
          result'.same result) ∧
        (∀ payload : Payload, payload.bytes = p → payload.Valid → payload.Increasing →
          encodeQueryResult result = p) ∧
        (∀ q, q <+: p → q ≠ p → ∃ error, decodeQueryResult q = .error error) ∧
        ∀ q, p <+: q → q ≠ p → ∃ error, decodeQueryResult q = .error error := by
  -- an accepted payload with something behind it is refused
  have hextend : ∀ {p q : List UInt8} {result}, decodeQueryResult p = .ok result → p <+: q →
      q ≠ p → decodeQueryResult q =
        .error ⟨"MetalORM: cache payload contains trailing bytes"⟩ := by
    intro p q result hp hprefix hne
    obtain ⟨payload, hvalid, rfl, -⟩ := decodeQueryResult_eq_ok_iff.mp hp
    obtain ⟨rest, rfl⟩ := hprefix
    have hrest : rest ≠ [] := fun hnil => hne (by rw [hnil, List.append_nil])
    rw [decodeQueryResult_payload hvalid, if_neg hrest]
  cases hp : decodeQueryResult p with
  | error error => exact .inl ⟨error, rfl⟩
  | ok result =>
    obtain ⟨payload, hvalid, hbytes, hresult⟩ := decodeQueryResult_eq_ok_iff.mp hp
    refine .inr ⟨result, rfl, ⟨payload, hbytes, hvalid, hresult⟩, ?_, ?_, ?_, ?_⟩
    · rw [← hresult]
      exact decode_encode _ hvalid.withinLimits
    · intro payload' hbytes' hvalid' hincreasing
      have hsame : decodeQueryResult p = .ok payload'.result :=
        decodeQueryResult_eq_ok_iff.mpr ⟨payload', hvalid', hbytes', rfl⟩
      rw [Except.ok.inj (hp.symm.trans hsame), hincreasing.encode, hbytes']
    · intro q hprefix hne
      cases hq : decodeQueryResult q with
      | error error => exact ⟨error, rfl⟩
      | ok result' =>
        have hrefused := hextend hq hprefix (Ne.symm hne)
        rw [hp] at hrefused
        cases hrefused
    · exact fun q hprefix hne => ⟨_, hextend hp hprefix hne⟩

end MetalOrm.Native.CacheCodec
