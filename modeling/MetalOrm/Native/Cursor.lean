import MetalOrm.Native.Value
import MetalOrm.ForStd.Decimal

/-!
# Cursors

`metal/query/pagination.hpp`: the text of a cursor, which is the base64url form of the values of a
row in the columns of an order. Positions in a text are `size_t`, so their sums wrap.
-/

namespace MetalOrm.Native.Cursor

open ForStd (decimal decimalValue isDigit)

/-! ## `base64url` -/

/-- `base64url_alphabet`. -/
def base64urlAlphabet : List UInt8 :=
  ByteString.ascii "ABCDEFGHIJKLMNOPQRSTUVWXYZabcdefghijklmnopqrstuvwxyz0123456789-_"

/-- The character for the lowest six bits. -/
def sextetChar (buffer : UInt32) : UInt8 := base64urlAlphabet.getD (buffer &&& 0x3f).toNat 0

/-- The inner loop of `base64url_encode`: the characters, and the bits that are left. -/
def drain (buffer : UInt32) (bits : Nat) : List UInt8 × Nat :=
  if 6 ≤ bits then
    let (out, left) := drain buffer (bits - 6)
    (sextetChar (buffer >>> UInt32.ofNat (bits - 6)) :: out, left)
  else ([], bits)
termination_by bits

/-- The outer loop of `base64url_encode`, and what follows it. -/
def encodeFrom (buffer : UInt32) (bits : Nat) : List UInt8 → List UInt8
  | [] => if bits > 0 then [sextetChar (buffer <<< UInt32.ofNat (6 - bits))] else []
  | c :: input =>
    let buffer := (buffer <<< 8) ||| c.toUInt32
    let (out, left) := drain buffer (bits + 8)
    out ++ encodeFrom buffer left input

/-- `base64url_encode`. -/
def base64urlEncode (input : List UInt8) : List UInt8 := encodeFrom 0 0 input

/-- `base64url_value`, `none` for a negative result. -/
def base64urlValue (c : UInt8) : Option Nat :=
  if 65 ≤ c && c ≤ 90 then some (c.toNat - 65)
  else if 97 ≤ c && c ≤ 122 then some (c.toNat - 97 + 26)
  else if 48 ≤ c && c ≤ 57 then some (c.toNat - 48 + 52)
  else if c = 45 then some 62
  else if c = 95 then some 63
  else none

/-- The loop of `base64url_decode`. -/
def decodeFrom (buffer : UInt32) (bits : Nat) : List UInt8 → Except Exn (List UInt8)
  | [] => .ok []
  | c :: input =>
    match base64urlValue c with
    | none => .error (.ofText "MetalORM: invalid cursor format")
    | some value =>
      let buffer := (buffer <<< 6) ||| UInt32.ofNat value
      if bits + 6 ≥ 8 then do
        let rest ← decodeFrom buffer (bits + 6 - 8) input
        return ((buffer >>> UInt32.ofNat (bits + 6 - 8)) &&& 0xff).toUInt8 :: rest
      else decodeFrom buffer (bits + 6) input

/-- `base64url_decode`. -/
def base64urlDecode (input : List UInt8) : Except Exn (List UInt8) := decodeFrom 0 0 input

/-! ## Numbers -/

/-- `std::to_string` of an `int64_t`. -/
def intText (v : Int64) : List UInt8 :=
  if v.toInt < 0 then 45 :: decimal v.toInt.natAbs else decimal v.toInt.natAbs

/-- `std::isspace` of a byte. -/
def isSpaceByte (b : UInt8) : Bool := b = 32 || (9 ≤ b && b ≤ 13)

/-- The sign of a number: whether it is a minus, and what follows it. -/
def readSign : List UInt8 → Bool × List UInt8
  | [] => (false, [])
  | b :: text => if b = 45 then (true, text) else if b = 43 then (false, text) else (false, b :: text)

/-- What `std::stoll` and `std::stoull` read: a sign and digits, after blanks. -/
def readNumber (text : List UInt8) : Option (Bool × Nat) :=
  let (negative, rest) := readSign (text.dropWhile isSpaceByte)
  let digits := rest.takeWhile isDigit
  if digits.isEmpty then none else some (negative, decimalValue digits)

/-- `std::stoll`. -/
def stoll (text : List UInt8) : Except Exn Int64 :=
  match readNumber text with
  | none => .error (.ofText "stoll")
  | some (negative, value) =>
    let value : Int := if negative then -value else value
    if -2 ^ 63 ≤ value && value < 2 ^ 63 then .ok (Int64.ofInt value) else .error (.ofText "stoll")

/-- `std::stoull`: a negative number is taken modulo `2 ^ 64`. -/
def stoull (text : List UInt8) : Except Exn Nat :=
  match readNumber text with
  | none => .error (.ofText "stoull")
  | some (negative, value) =>
    if value < 2 ^ 64 then .ok (if negative then (2 ^ 64 - value) % 2 ^ 64 else value)
    else .error (.ofText "stoull")

/-! ## Values -/

/-- How a `double` is written with 17 digits, and what `std::stod` reads. -/
structure DoubleText where
  print : UInt64 → List UInt8
  read : List UInt8 → Except Exn UInt64

variable (doubles : DoubleText)

/-- `cursor_value_text`: the tag and the text. -/
def cursorValueText : Value → Except Exn (UInt8 × List UInt8)
  | .null => .error (.ofText "MetalORM: cursor pagination requires non-null ORDER BY values")
  | .int64 v => .ok (105, intText v)
  | .double bits => .ok (100, doubles.print bits)
  | .string s => .ok (115, s.bytes)
  | .bool b => .ok (98, if b then [49] else [48])
  | .blob b => .ok (120, b.bytes)

/-- The payload is not one that `encode_cursor` writes. -/
def invalidPayload : Exn := .ofText "MetalORM: invalid cursor payload"

/-- A text as a `std::string`. -/
def stringOf (text : List UInt8) : Except Exn ByteString :=
  if h : text.length < 2 ^ 64 then .ok ⟨text, h⟩ else .error (.ofText "basic_string::_M_create")

/-- `parse_cursor_value`. -/
def parseCursorValue (tag : UInt8) (text : List UInt8) : Except Exn Value :=
  if tag = 105 then (stoll text).map .int64
  else if tag = 100 then (doubles.read text).map .double
  else if tag = 115 then (stringOf text).map .string
  else if tag = 98 then
    if text = [49] then .ok (.bool true)
    else if text = [48] then .ok (.bool false)
    else .error invalidPayload
  else if tag = 120 then (stringOf text).map .blob
  else .error invalidPayload

/-! ## Orders -/

/-- `CursorOrderTerm`, less the type of its owner. -/
structure CursorOrderTerm where
  table : ByteString
  column : ByteString
  ascending : Bool

/-- The text of one term. -/
def termSignature (term : CursorOrderTerm) : List UInt8 :=
  term.table.bytes ++ [46] ++ term.column.bytes ++
    ByteString.ascii (if term.ascending then ":ASC" else ":DESC")

/-- `order_signature`. -/
def orderSignature (order : List CursorOrderTerm) : List UInt8 :=
  [44].intercalate (order.map termSignature)

/-! ## `encode_cursor` -/

/-- The text of a value in a cursor. -/
def encodeValue (value : Value) : Except Exn (List UInt8) := do
  let (tag, text) ← cursorValueText doubles value
  return [tag] ++ decimal text.length ++ [58] ++ text ++ [10]

/-- `encode_cursor`. -/
def encodeCursor (values : List Value) (order : List CursorOrderTerm) :
    Except Exn (List UInt8) := do
  let texts ← values.mapM (encodeValue doubles)
  return base64urlEncode (ByteString.ascii "2\n" ++ orderSignature order ++ [10] ++
    decimal values.length ++ [10] ++ texts.flatten)

/-! ## `decode_cursor` -/

/-- `find`, from a position. -/
def findByte (plain : List UInt8) (b : UInt8) (pos : Nat) : Option Nat :=
  ((plain.drop pos).findIdx? (· = b)).map (pos + ·)

/-- `substr`. -/
def substr (plain : List UInt8) (pos count : Nat) : List UInt8 := (plain.drop pos).take count

/-- `read_line`: the line and the position after it. -/
def readLine (plain : List UInt8) (pos : Nat) : Except Exn (List UInt8 × Nat) :=
  match findByte plain 10 pos with
  | none => .error invalidPayload
  | some stop => .ok (substr plain pos (stop - pos), stop + 1)

/-- The loop of `decode_cursor`. -/
def decodeValues (plain : List UInt8) : Nat → Nat → Except Exn (List Value)
  | 0, _ => .ok []
  | count + 1, pos =>
    match plain[pos]? with
    | none => .error invalidPayload
    | some tag =>
      match findByte plain 58 (pos + 1) with
      | none => .error invalidPayload
      | some colon => do
        let length ← stoull (substr plain (pos + 1) (colon - (pos + 1)))
        if (colon + 1 + length) % 2 ^ 64 > plain.length then .error invalidPayload
        else
          let value ← parseCursorValue doubles tag (substr plain (colon + 1) length)
          let pos := (colon + 1 + length) % 2 ^ 64
          if plain[pos]? = some 10 then
            let values ← decodeValues plain count (pos + 1)
            return value :: values
          else .error invalidPayload

/-- `DecodedCursor`. -/
structure DecodedCursor where
  values : List Value
  signature : List UInt8
deriving DecidableEq

/-- `decode_cursor`. -/
def decodeCursor (cursor : List UInt8) : Except Exn DecodedCursor := do
  let plain ← base64urlDecode cursor
  let (version, pos) ← readLine plain 0
  if version = [50] then
    let (signature, pos) ← readLine plain pos
    let (line, pos) ← readLine plain pos
    let count ← stoull line
    let values ← decodeValues doubles plain count pos
    return { values, signature }
  else .error (.ofText "MetalORM: invalid cursor payload version")

end MetalOrm.Native.Cursor
