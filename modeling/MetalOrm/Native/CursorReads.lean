import MetalOrm.Native.Cursor

/-!
# Reads of `decode_cursor`

`decode_cursor` once more, with the classes of its exceptions, the memory that it reserves, and the
records that its loop reads before it returns or throws.
-/

namespace MetalOrm.Native.Cursor.Reads

/-! ## Exceptions -/

/-- The class of an exception. A read outside a string throws nothing: it is undefined. -/
inductive ExceptionClass where
  | invalidArgument | outOfRange | lengthError | badAlloc | undefined
deriving DecidableEq

/-- What a call throws. -/
structure Thrown where
  type : ExceptionClass
  exn : Exn
deriving DecidableEq

/-- The payload is not one that `encode_cursor` writes. -/
def invalidPayload : Thrown := ⟨.invalidArgument, Cursor.invalidPayload⟩

/-- Why a text is not converted to a number. -/
inductive NumberError where
  | invalid | range
deriving DecidableEq

/-- What `std::stoll` and its kind throw. -/
def NumberError.thrown (function : String) : NumberError → Thrown
  | .invalid => ⟨.invalidArgument, .ofText function⟩
  | .range => ⟨.outOfRange, .ofText function⟩

/-- What `decode_cursor` takes from its platform: `std::stod`, and whether there is memory for a
    vector of so many values. -/
structure Platform where
  stod : List UInt8 → Except NumberError UInt64
  available : Nat → Bool

/-! ## Reads -/

/-- `plain[pos]`. -/
def byteAt (plain : List UInt8) (pos : Nat) : Except Thrown UInt8 :=
  match plain[pos]? with
  | some b => .ok b
  | none => .error ⟨.undefined, .ofText ""⟩

/-- `substr`. -/
def substrAt (plain : List UInt8) (pos count : Nat) : Except Thrown (List UInt8) :=
  if pos ≤ plain.length then .ok (substr plain pos count)
  else .error ⟨.outOfRange, .ofText "basic_string::substr"⟩

/-- `read_line`: the line and the position after it. -/
def readLine (plain : List UInt8) (pos : Nat) : Except Thrown (List UInt8 × Nat) :=
  match findByte plain 10 pos with
  | none => .error invalidPayload
  | some stop => do
    let line ← substrAt plain pos (stop - pos)
    return (line, stop + 1)

/-! ## Numbers and values -/

/-- `std::stoll`. -/
def stoll (text : List UInt8) : Except NumberError Int64 :=
  match readNumber text with
  | none => .error .invalid
  | some (negative, value) =>
    let value : Int := if negative then -value else value
    if -2 ^ 63 ≤ value && value < 2 ^ 63 then .ok (Int64.ofInt value) else .error .range

/-- `std::stoull`. -/
def stoull (text : List UInt8) : Except NumberError Nat :=
  match readNumber text with
  | none => .error .invalid
  | some (negative, value) =>
    if value < 2 ^ 64 then .ok (if negative then (2 ^ 64 - value) % 2 ^ 64 else value)
    else .error .range

/-- A text as a `std::string`. -/
def stringOf (text : List UInt8) : Except Thrown ByteString :=
  if h : text.length < 2 ^ 64 then .ok ⟨text, h⟩
  else .error ⟨.lengthError, .ofText "basic_string::_M_create"⟩

/-- `parse_cursor_value`. -/
def parseCursorValue (platform : Platform) (tag : UInt8) (text : List UInt8) :
    Except Thrown Value :=
  if tag = 105 then ((stoll text).mapError (·.thrown "stoll")).map .int64
  else if tag = 100 then ((platform.stod text).mapError (·.thrown "stod")).map .double
  else if tag = 115 then (stringOf text).map .string
  else if tag = 98 then
    if text = [49] then .ok (.bool true)
    else if text = [48] then .ok (.bool false)
    else .error invalidPayload
  else if tag = 120 then (stringOf text).map .blob
  else .error invalidPayload

/-! ## The loop -/

/-- What a round of the loop reads: where its tag stands, the length that is announced, the text
    that is read behind the colon, and the position of the next round. -/
structure Record where
  start : Nat
  length : Nat
  body : Nat
  text : List UInt8
  value : Value
  next : Nat
deriving DecidableEq

/-- A round of the loop. Sums of positions wrap. -/
def readRecord (platform : Platform) (plain : List UInt8) (pos : Nat) : Except Thrown Record :=
  if pos ≥ plain.length then .error invalidPayload
  else do
    let tag ← byteAt plain pos
    match findByte plain 58 (pos + 1) with
    | none => .error invalidPayload
    | some colon =>
      let field ← substrAt plain (pos + 1) (colon - (pos + 1))
      let length ← (stoull field).mapError (·.thrown "stoull")
      if (colon + 1 + length) % 2 ^ 64 > plain.length then .error invalidPayload
      else
        let text ← substrAt plain (colon + 1) length
        let value ← parseCursorValue platform tag text
        let stop := (colon + 1 + length) % 2 ^ 64
        if stop ≥ plain.length then .error invalidPayload
        else
          let b ← byteAt plain stop
          if b = 10 then
            return { start := pos, length, body := colon + 1, text, value, next := stop + 1 }
          else .error invalidPayload

/-- The loop of `decode_cursor`: the records that it reads, and what it throws. -/
def readRecords (platform : Platform) (plain : List UInt8) :
    Nat → Nat → List Record × Except Thrown Unit
  | 0, _ => ([], .ok ())
  | count + 1, pos =>
    match readRecord platform plain pos with
    | .error e => ([], .error e)
    | .ok record =>
      let (records, outcome) := readRecords platform plain count record.next
      (record :: records, outcome)

/-! ## `decode_cursor` -/

/-- The greatest size of a `std::vector<Value>`, whose values have 40 bytes. -/
def maxValues : Nat := (2 ^ 63 - 1) / 40

/-- `reserve`. -/
def reserve (platform : Platform) (count : Nat) : Except Thrown Unit :=
  if count > maxValues then .error ⟨.lengthError, .ofText "vector::reserve"⟩
  else if platform.available count then .ok ()
  else .error ⟨.badAlloc, .ofText "std::bad_alloc"⟩

/-- The lines before the values: the signature, the number of values and their position. -/
def readHeader (plain : List UInt8) : Except Thrown (List UInt8 × Nat × Nat) := do
  let (version, pos) ← readLine plain 0
  if version = [50] then
    let (signature, pos) ← readLine plain pos
    let (line, pos) ← readLine plain pos
    let count ← (stoull line).mapError (·.thrown "stoull")
    return (signature, count, pos)
  else .error ⟨.invalidArgument, .ofText "MetalORM: invalid cursor payload version"⟩

/-- A call of `decode_cursor`: the payload, the number of values that it announces, the records
    that are read, and what is returned or thrown. -/
structure Decoding where
  plain : List UInt8 := []
  count : Nat := 0
  records : List Record := []
  outcome : Except Thrown DecodedCursor

/-- `decode_cursor`. -/
def decodeCursor (platform : Platform) (cursor : List UInt8) : Decoding :=
  match base64urlDecode cursor with
  | .error e => { outcome := .error ⟨.invalidArgument, e⟩ }
  | .ok plain =>
    match readHeader plain with
    | .error e => { plain, outcome := .error e }
    | .ok (signature, count, pos) =>
      match reserve platform count with
      | .error e => { plain, count, outcome := .error e }
      | .ok () =>
        let (records, outcome) := readRecords platform plain count pos
        { plain, count, records,
          outcome := outcome.map fun _ => { values := records.map (·.value), signature } }

end MetalOrm.Native.Cursor.Reads
