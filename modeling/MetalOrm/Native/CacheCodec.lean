import MetalOrm.Native.Value

/-!
# Binary codec of cached query results

`metal/cache_codec.hpp`: `Writer` appends to a byte string, `Reader` walks over
one with a position that never passes its end (`position_le`).

Integers are eight little-endian bytes, strings and blobs are prefixed with
their length, and every value starts with a type tag.
-/

namespace MetalOrm.Native.CacheCodec

/-- `CacheCodecError`. -/
structure CacheCodecError where
  what : String
deriving DecidableEq, Repr

/-- `cache_codec_detail::magic`. -/
def magic : List UInt8 := ByteString.ascii "MORMC001"

/-- `cache_codec_detail::max_collection_size`. -/
def maxCollectionSize : UInt64 := 1000000

/-- `std::numeric_limits<std::size_t>::max()` on a 64-bit target. -/
def sizeMax : UInt64 := 0xffffffffffffffff

/-- The values of `shift` in `for (unsigned shift = 0; shift != 64; shift += 8)`. -/
def u64Shifts : List UInt64 := [0, 8, 16, 24, 32, 40, 48, 56]

/-! ## Writer -/

namespace Writer

/-- `Writer::byte`. -/
def byte (value : UInt8) : List UInt8 := [value]

/-- `Writer::u64`. -/
def u64 (value : UInt64) : List UInt8 :=
  u64Shifts.flatMap fun shift => byte ((value >>> shift) &&& 0xff).toUInt8

/-- `Writer::i64`. -/
def i64 (value : Int64) : List UInt8 := u64 value.toUInt64

/-- `Writer::f64`, on the bit pattern of the double. -/
def f64 (bits : UInt64) : List UInt8 := u64 bits

/-- `Writer::bytes`. -/
def bytes (value : ByteString) : List UInt8 := u64 value.size64 ++ value.bytes

/-- `Writer::blob`. -/
def blob (value : ByteString) : List UInt8 := u64 value.size64 ++ value.bytes

/-- `Writer::value`. -/
def value : Value → List UInt8
  | .null => byte 0
  | .int64 current => byte 1 ++ i64 current
  | .double current => byte 2 ++ f64 current
  | .string current => byte 3 ++ bytes current
  | .bool current => byte 4 ++ byte (if current then 1 else 0)
  | .blob current => byte 5 ++ blob current

end Writer

/-! ## Reader -/

/-- `Reader`: the payload and the current position in it. -/
structure Reader where
  input : List UInt8
  position : Nat := 0
  position_le : position ≤ input.length

/-- A reader action: it may throw, and otherwise moves the position. -/
abbrev ReadM := StateT Reader (Except CacheCodecError)

namespace Reader

/-- `Reader::done`. -/
def done (r : Reader) : Bool := r.position == r.input.length

/-- `Reader::remaining`. -/
def remaining (r : Reader) : Nat := r.input.length - r.position

/-- Move the position over bytes that are known to be there. -/
def advance (r : Reader) (size : Nat) (h : size ≤ r.remaining) : Reader :=
  ⟨r.input, r.position + size, by have := r.position_le; unfold remaining at h; omega⟩

/-- `Reader::require`: the evidence that `size` more bytes can be read. -/
def require (r : Reader) (size : Nat) : Except CacheCodecError (PLift (size ≤ r.remaining)) :=
  if h : size > r.remaining then
    .error ⟨"MetalORM: truncated cache payload"⟩
  else
    .ok ⟨Nat.le_of_not_lt h⟩

/-- `Reader::byte`. -/
def byte : ReadM UInt8 := fun r => do
  let ⟨h⟩ ← r.require 1
  have hlt : r.position < r.input.length := by unfold remaining at h; omega
  return (r.input[r.position], r.advance 1 h)

/-- `Reader::u64`. -/
def u64 : ReadM UInt64 := do
  let r ← get
  let _ ← r.require 8
  u64Shifts.foldlM (fun value shift => do
    let b ← byte
    return value ||| (b.toUInt64 <<< shift)) 0

/-- `Reader::i64`. -/
def i64 : ReadM Int64 := return (← u64).toInt64

/-- `Reader::f64`, as a bit pattern. -/
def f64 : ReadM UInt64 := u64

/-- `Reader::narrow_size`. -/
def narrowSize (raw : UInt64) (what : String) : ReadM UInt64 :=
  if raw > sizeMax then
    throw ⟨"MetalORM: cached " ++ what ++ " length is not representable"⟩
  else
    return raw

/-- `Reader::count`. -/
def count (what : String) : ReadM UInt64 := do
  let raw ← u64
  if raw > maxCollectionSize then
    throw ⟨"MetalORM: cached " ++ what ++ " count exceeds safety limit"⟩
  narrowSize raw what

/-- The body shared by `Reader::bytes` and `Reader::blob`: read a length
    (`sized_length`) and then that many bytes. -/
def sized (what : String) : ReadM ByteString := do
  let size ← narrowSize (← u64) what
  fun r => do
    let ⟨h⟩ ← r.require size.toNat
    return (⟨(r.input.drop r.position).take size.toNat, by
      have := size.toNat_lt
      simp only [List.length_take]
      omega⟩, r.advance size.toNat h)

/-- `Reader::bytes`. -/
def bytes (what : String) : ReadM ByteString := sized what

/-- `Reader::blob`. -/
def blob : ReadM ByteString := sized "blob"

/-- `Reader::value`. -/
def value : ReadM Value := do
  match ← byte with
  | 0 => return .null
  | 1 => return .int64 (← i64)
  | 2 => return .double (← f64)
  | 3 => return .string (← bytes "string")
  | 4 =>
    let raw ← byte
    if raw > 1 then
      throw ⟨"MetalORM: cached boolean has invalid payload"⟩
    return .bool (raw == 1)
  | 5 => return .blob (← blob)
  | _ => throw ⟨"MetalORM: cached value has unknown type tag"⟩

end Reader

/-! ## Query results -/

/-- The fields of a row in the order `std::sort` puts them. -/
def sortedFields (row : Row) : List (Sigma fun _ : ByteString => Value) :=
  row.entries.mergeSort fun left right => left.1.le right.1

/-- The part of `encode_query_result` that writes one row. -/
def encodeRow (row : Row) : List UInt8 :=
  let fields := sortedFields row
  Writer.u64 (UInt64.ofNat fields.length) ++
    fields.flatMap fun field => Writer.bytes field.1 ++ Writer.value field.2

/-- `encode_query_result`. -/
def encodeQueryResult (result : QueryResult) : List UInt8 :=
  magic.flatMap Writer.byte ++
    Writer.u64 (UInt64.ofNat result.rows.length) ++
    result.rows.flatMap encodeRow ++
    Writer.i64 result.affectedRows ++
    Writer.i64 result.lastInsertId

/-- The loop over `magic` at the start of `decode_query_result`. -/
def decodeMagic : List UInt8 → ReadM Unit
  | [] => return
  | expected :: rest => do
    if (← Reader.byte) != expected then
      throw ⟨"MetalORM: cache payload has unsupported format or version"⟩
    decodeMagic rest

/-- The loop over the fields of one row. -/
def decodeFields : Nat → Row → ReadM Row
  | 0, row => return row
  | n + 1, row => do
    let name ← Reader.bytes "column name"
    let current ← Reader.value
    if name ∈ row then
      throw ⟨"MetalORM: cache payload contains a duplicate column name"⟩
    decodeFields n (row.insert name current)

/-- The loop over the rows. -/
def decodeRows : Nat → ReadM (List Row)
  | 0 => return []
  | n + 1 => do
    let fieldCount ← Reader.count "field"
    let row ← decodeFields fieldCount.toNat ∅
    return row :: (← decodeRows n)

/-- The reading part of `decode_query_result`. -/
def readQueryResult : ReadM QueryResult := do
  decodeMagic magic
  let rowCount ← Reader.count "row"
  let rows ← decodeRows rowCount.toNat
  let affectedRows ← Reader.i64
  let lastInsertId ← Reader.i64
  return { rows, affectedRows, lastInsertId }

/-- `decode_query_result`. -/
def decodeQueryResult (payload : List UInt8) : Except CacheCodecError QueryResult := do
  let (result, reader) ← readQueryResult.run { input := payload, position_le := Nat.zero_le _ }
  if !reader.done then
    throw ⟨"MetalORM: cache payload contains trailing bytes"⟩
  return result

/-- The reader at the start of a payload. -/
def Reader.start (p : List UInt8) : Reader := { input := p, position_le := Nat.zero_le _ }

end MetalOrm.Native.CacheCodec
