import MetalOrm.Native.Value
import MetalOrm.ForStd.GeneralFormat

/-!
# Keys and conversions of values

`value_key` and `from_value` of `metal/value.hpp`. Maps that are keyed by a value are keyed by its
`value_key`, a text.
-/

namespace MetalOrm.Native

open ForStd (decimal formatGeneral)

/-- The text of an `int64_t` on a stream. -/
def int64Text (v : Int64) : List UInt8 :=
  if v.toInt < 0 then 45 :: decimal v.toInt.natAbs else decimal v.toInt.natAbs

/-- `hex[n]`, for a value of four bits. -/
def hexDigit (n : UInt8) : UInt8 := if n < 10 then 48 + n else 87 + n

/-- The two digits of every byte. -/
def hexText : List UInt8 → List UInt8
  | [] => []
  | byte :: bytes => hexDigit (byte >>> 4 &&& 0x0f) :: hexDigit (byte &&& 0x0f) :: hexText bytes

/-- `value_key`. -/
def valueKey : Value → List UInt8
  | .null => ByteString.ascii "null"
  | .int64 v => int64Text v
  | .double bits => formatGeneral bits
  | .string s => ByteString.ascii "s:" ++ s.bytes
  | .bool b => ByteString.ascii (if b then "b:1" else "b:0")
  | .blob b => ByteString.ascii "x:" ++ hexText b.bytes

/-- `from_value<std::int64_t>`. -/
def fromInt64 : Value → Except Exn Int64
  | .int64 v => .ok v
  | .bool b => .ok (if b then 1 else 0)
  | .double bits => .ok (Float.ofBits bits).toInt64
  | _ => .error (.ofText "MetalORM: incompatible database value conversion")

@[simp] theorem fromInt64_int64 (v : Int64) : fromInt64 (.int64 v) = .ok v := rfl

/-! ## Keys of null -/

private theorem numberChar_int64Text {v : Int64} {b : UInt8} (hb : b ∈ int64Text v) :
    ForStd.NumberChar b := by
  unfold int64Text at hb
  split at hb
  · obtain rfl | hb := List.mem_cons.mp hb
    · exact .inr (by simp)
    · exact .inl (ForStd.isDigit_of_mem_decimal hb)
  · exact .inl (ForStd.isDigit_of_mem_decimal hb)

/-- The key of null is the key of no other value. -/
theorem valueKey_eq_null {v : Value} : valueKey v = ByteString.ascii "null" ↔ v = .null := by
  constructor
  · intro h
    -- the letter `u` occurs in no number
    have hnumber : ∀ text : List UInt8, (∀ b ∈ text, ForStd.NumberChar b) →
        text ≠ ByteString.ascii "null" := by
      intro text htext heq
      have := htext 117 (heq ▸ by decide)
      simp [ForStd.NumberChar, ForStd.isDigit] at this
    cases v with
    | null => rfl
    | int64 v => exact absurd h (hnumber _ fun b hb => numberChar_int64Text hb)
    | double bits => exact absurd h (hnumber _ fun b hb => ForStd.numberChar_formatGeneral hb)
    | string s => simp [valueKey, ByteString.ascii] at h
    | bool b => cases b <;> simp [valueKey, ByteString.ascii] at h
    | blob b => simp [valueKey, ByteString.ascii] at h
  · intro h
    rw [h]
    rfl

/-! ## Values with their own keys -/

/-- The value holds a `double`. -/
def Value.isDouble : Value → Bool
  | .double _ => true
  | _ => false

theorem int64Text_injective {v w : Int64} (h : int64Text v = int64Text w) : v = w := by
  have hsign : ∀ {m n : Nat}, decimal m ≠ 45 :: decimal n := by
    intro m n heq
    have := ForStd.isDigit_of_mem_decimal (heq ▸ List.mem_cons_self : (45 : UInt8) ∈ decimal m)
    simp [ForStd.isDigit] at this
  rw [← Int64.toInt_inj]
  unfold int64Text at h
  split at h <;> split at h
  · have := ForStd.decimal_injective (List.cons.inj h).2
    omega
  · exact absurd h.symm hsign
  · exact absurd h hsign
  · have := ForStd.decimal_injective h
    omega

theorem hexDigit_injective {m n : UInt8} (hm : m < 16) (hn : n < 16)
    (h : hexDigit m = hexDigit n) : m = n := by
  unfold hexDigit at h
  simp only [UInt8.lt_iff_toNat_lt, ← UInt8.toNat_inj] at hm hn h ⊢
  split at h <;> split at h <;> simp only [UInt8.toNat_add] at h <;> simp at * <;> omega

theorem toNat_highDigit (b : UInt8) : (b >>> 4 &&& 0x0f).toNat = b.toNat / 16 := by
  have hlt := b.toNat_lt
  have hand : ∀ n : Nat, n &&& 15 = n % 16 := fun n => Nat.and_two_pow_sub_one_eq_mod n 4
  simp [UInt8.toNat_and, UInt8.toNat_shiftRight, Nat.shiftRight_eq_div_pow, hand]
  omega

theorem toNat_lowDigit (b : UInt8) : (b &&& 0x0f).toNat = b.toNat % 16 := by
  have hand : ∀ n : Nat, n &&& 15 = n % 16 := fun n => Nat.and_two_pow_sub_one_eq_mod n 4
  simp [UInt8.toNat_and, hand]

theorem hexText_injective {bs cs : List UInt8} (h : hexText bs = hexText cs) : bs = cs := by
  induction bs generalizing cs with
  | nil =>
    cases cs with
    | nil => rfl
    | cons c cs => cases h
  | cons b bs ih =>
    cases cs with
    | nil => cases h
    | cons c cs =>
      simp only [hexText, List.cons.injEq] at h
      obtain ⟨hhigh, hlow, htail⟩ := h
      have hsmall : ∀ b : UInt8, (b >>> 4 &&& 0x0f) < 16 ∧ (b &&& 0x0f) < 16 := by
        intro b
        have hlt := b.toNat_lt
        simp only [UInt8.lt_iff_toNat_lt, toNat_lowDigit]
        have : (16 : UInt8).toNat = 16 := rfl
        omega
      have hhigh := congrArg UInt8.toNat (hexDigit_injective (hsmall b).1 (hsmall c).1 hhigh)
      have hlow := congrArg UInt8.toNat (hexDigit_injective (hsmall b).2 (hsmall c).2 hlow)
      rw [toNat_highDigit, toNat_highDigit] at hhigh
      rw [toNat_lowDigit, toNat_lowDigit] at hlow
      have hbyte : b = c := by
        rw [← UInt8.toNat_inj]
        omega
      rw [hbyte, ih htail]

/-- The type of a value, by the first byte of its key. -/
private def kindOfByte (b : UInt8) : Nat :=
  if b = 110 then 0 else if b = 115 then 2 else if b = 98 then 3 else if b = 120 then 4 else 1

private def keyKind : Value → Nat
  | .null => 0
  | .int64 _ | .double _ => 1
  | .string _ => 2
  | .bool _ => 3
  | .blob _ => 4

private theorem kindOfByte_of_isDigit {b : UInt8} (h : ForStd.isDigit b = true) : kindOfByte b = 1 := by
  have hne : ∀ c : UInt8, ForStd.isDigit c = false → b ≠ c := by
    rintro c hc rfl
    rw [h] at hc
    cases hc
  rw [kindOfByte, if_neg (hne _ rfl), if_neg (hne _ rfl), if_neg (hne _ rfl), if_neg (hne _ rfl)]

private theorem keyKind_of_head {v : Value} (hv : v.isDouble = false) :
    (valueKey v).head?.map kindOfByte = some (keyKind v) := by
  cases v with
  | null => rfl
  | int64 v =>
    rw [valueKey, int64Text]
    split
    · rfl
    · obtain ⟨b, bs, hdecimal⟩ := List.exists_cons_of_ne_nil (ForStd.decimal_ne_nil v.toInt.natAbs)
      have hdigit := ForStd.isDigit_of_mem_decimal (hdecimal ▸ List.mem_cons_self : b ∈ decimal _)
      rw [hdecimal, List.head?_cons, Option.map_some, kindOfByte_of_isDigit hdigit]
      rfl
  | double bits => cases hv
  | string s => rfl
  | bool b => cases b <;> rfl
  | blob b => rfl

/-- Values that are no doubles have their own texts. -/
theorem valueKey_injective {v w : Value} (hv : v.isDouble = false) (hw : w.isDouble = false)
    (h : valueKey v = valueKey w) : v = w := by
  have hkind : keyKind v = keyKind w := by
    rw [← Option.some_inj, ← keyKind_of_head hv, ← keyKind_of_head hw, h]
  cases v with
  | null =>
    cases w with
    | null => rfl
    | int64 | double | string | bool | blob => cases hkind
  | int64 v =>
    cases w with
    | int64 w => rw [int64Text_injective h]
    | double bits => cases hw
    | null | string | bool | blob => cases hkind
  | double bits => cases hv
  | string s =>
    cases w with
    | null | int64 | double | bool | blob => cases hkind
    | string t =>
      have hbytes : s.bytes = t.bytes := List.append_cancel_left h
      cases s
      cases t
      cases hbytes
      rfl
  | bool b =>
    cases w with
    | null | int64 | double | string | blob => cases hkind
    | bool c =>
      cases b <;> cases c <;> first | rfl | simp [valueKey, ByteString.ascii] at h
  | blob b =>
    cases w with
    | null | int64 | double | string | bool => cases hkind
    | blob c =>
      have hbytes : b.bytes = c.bytes := hexText_injective (List.append_cancel_left h)
      cases b
      cases c
      cases hbytes
      rfl

end MetalOrm.Native
