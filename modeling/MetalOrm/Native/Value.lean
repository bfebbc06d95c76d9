import Mathlib

/-!
# Database values, rows and query results

The value type shared by every subsystem (`metal/value.hpp`) and the result
type of an executor (`metal/execution.hpp`).

`std::string` and `Blob` are byte strings of a `size_t` length; the bound is
carried by `ByteString`, so no later statement has to assume it. A `double` is
kept as its 64-bit pattern.
-/

namespace MetalOrm.Native

/-- Texts are compared byte by byte. -/
instance lawfulBEqText : LawfulBEq (List UInt8) := inferInstance

/-- A C++ byte container (`std::string`, `Blob`): its length fits in `size_t`. -/
structure ByteString where
  bytes : List UInt8
  size_lt : bytes.length < 2 ^ 64
deriving DecidableEq

namespace ByteString

/-- The bytes of an ASCII text of the source. -/
def ascii (text : String) : List UInt8 := text.toList.map fun c => c.toNat.toUInt8

/-- An ASCII text of the source as a byte string. -/
def ofAscii (text : String) : ByteString :=
  if h : (ascii text).length < 2 ^ 64 then ⟨ascii text, h⟩ else ⟨[], by decide⟩

/-- `size()`. -/
def size (s : ByteString) : Nat := s.bytes.length

/-- `size()` as the `uint64_t` it is cast to. -/
def size64 (s : ByteString) : UInt64 := UInt64.ofNatLT s.bytes.length s.size_lt

@[simp] theorem toNat_size64 (s : ByteString) : s.size64.toNat = s.bytes.length := by
  simp [size64]

@[ext] theorem ext {s t : ByteString} (h : s.bytes = t.bytes) : s = t := by
  cases s; cases t; simp_all

/-- `std::string::operator<`: bytes are compared as `unsigned char`. -/
def le (s t : ByteString) : Bool := decide (s.bytes ≤ t.bytes)

theorem le_trans {s t u : ByteString} (h₁ : s.le t = true) (h₂ : t.le u = true) :
    s.le u = true :=
  decide_eq_true (List.le_trans (of_decide_eq_true h₁) (of_decide_eq_true h₂))

theorem le_total (s t : ByteString) : (s.le t || t.le s) = true := by
  simpa [le] using List.le_total s.bytes t.bytes

theorem le_antisymm {s t : ByteString} (h₁ : s.le t = true) (h₂ : t.le s = true) : s = t :=
  ext (List.le_antisymm (of_decide_eq_true h₁) (of_decide_eq_true h₂))

end ByteString

/-- An exception, with the text `what()` gives. -/
structure Exn where
  what : List UInt8
deriving DecidableEq

/-- An exception of the source with a fixed text. -/
def Exn.ofText (text : String) : Exn := ⟨ByteString.ascii text⟩

/-- A block that returns has got past its first step. -/
theorem except_bind_ok {α β : Type} {x : Except Exn α} {f : α → Except Exn β} {b : β}
    (h : x >>= f = .ok b) : ∃ a, x = .ok a ∧ f a = .ok b := by
  cases x with
  | error e => cases h
  | ok a => exact ⟨a, rfl, h⟩

/-- `Value`: the variant of everything a column can hold. -/
inductive Value where
  | null
  | int64 (v : Int64)
  | double (bits : UInt64)
  | string (s : ByteString)
  | bool (b : Bool)
  | blob (b : ByteString)
deriving DecidableEq

namespace Value

/-- A bit pattern is a NaN: exponent all ones, mantissa not zero. -/
def isNaN (bits : UInt64) : Bool := (bits <<< 1) > 0xffe0000000000000

/-- `operator==` of the variant: same alternative and equal content, where
    doubles compare as IEEE numbers (no NaN is equal to anything, `-0.0 == 0.0`). -/
def eq : Value → Value → Bool
  | .double a, .double b => !isNaN a && !isNaN b && (a == b || (a <<< 1 == 0 && b <<< 1 == 0))
  | a, b => decide (a = b)

/-- `is_empty_generated_value`: a generated key that has not been assigned yet. -/
def isEmptyGenerated : Value → Bool
  | .null => true
  | .int64 v => v == 0
  | _ => false

end Value

/-- `Row = std::unordered_map<std::string, Value>`, together with the order in
    which iterating over it visits the entries. -/
abbrev Row := AList fun _ : ByteString => Value

namespace Row

/-- Two hash maps with the same content, whatever their iteration orders. -/
def same (a b : Row) : Prop := ∀ column, a.lookup column = b.lookup column

/-- `size()`. -/
def size (row : Row) : Nat := row.entries.length

end Row

/-- `QueryResult`. -/
structure QueryResult where
  rows : List Row
  affectedRows : Int64 := 0
  lastInsertId : Int64 := 0

namespace QueryResult

/-- Equality of query results: same row sequence with the same column-to-value
    maps, and the same counters. -/
structure same (a b : QueryResult) : Prop where
  rows : List.Forall₂ Row.same a.rows b.rows
  affectedRows : a.affectedRows = b.affectedRows
  lastInsertId : a.lastInsertId = b.lastInsertId

end QueryResult

end MetalOrm.Native
