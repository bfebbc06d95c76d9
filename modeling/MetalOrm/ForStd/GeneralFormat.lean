import MetalOrm.ForStd.Decimal

/-!
# The default text of a `double`

What `std::ostream << double` prints with its default flags, which is `%g`: six significant digits,
rounded to nearest, without trailing zeros. A `double` is given by its 64-bit pattern.

## Key results

- `numberChar_formatGeneral`: the characters a number is written with
-/

namespace MetalOrm.ForStd

/-- The magnitude of a finite `double` as a fraction. -/
def fraction (bits : UInt64) : Nat × Nat :=
  let exponent := (bits >>> 52 &&& 0x7ff).toNat
  let mantissa := (bits &&& 0xfffffffffffff).toNat
  let significand := if exponent = 0 then mantissa else mantissa + 2 ^ 52
  -- subnormal numbers have the exponent of the smallest normal ones
  let exponent := max exponent 1
  if 1075 ≤ exponent then (significand * 2 ^ (exponent - 1075), 1)
  else (significand, 2 ^ (1075 - exponent))

/-- The decimal exponent of a positive `double`. -/
def decimalExponent (num den : Nat) : Int :=
  let atMost (x : Int) : Bool :=
    if 0 ≤ x then den * 10 ^ x.toNat ≤ num else den ≤ num * 10 ^ (-x).toNat
  (((List.range 633).map fun i => 308 - (i : Int)).find? atMost).getD 0

/-- A quotient, rounded to nearest, halves to even. -/
def divRound (a b : Nat) : Nat :=
  let q := a / b
  let r := a % b
  if b < 2 * r || (2 * r == b && q % 2 == 1) then q + 1 else q

/-- The six significant digits of a positive fraction as a number, and its decimal exponent. -/
def significant (num den : Nat) : Nat × Int :=
  let x := decimalExponent num den
  let d := if 5 ≤ x then divRound num (den * 10 ^ (x - 5).toNat)
    else divRound (num * 10 ^ (5 - x).toNat) den
  if d = 10 ^ 6 then (10 ^ 5, x + 1) else (d, x)

/-- Trailing zeros are left out. -/
def stripZeros (digits : List UInt8) : List UInt8 :=
  (digits.reverse.dropWhile (· == 48)).reverse

/-- Digits behind a decimal point, which is left out with them. -/
def fractionPart (digits : List UInt8) : List UInt8 :=
  if stripZeros digits = [] then [] else 46 :: stripZeros digits

/-- The digits with the exponent behind them. -/
def scientific (digits : List UInt8) (x : Int) : List UInt8 :=
  digits.take 1 ++ (fractionPart (digits.drop 1) ++ ([101, if x < 0 then 45 else 43] ++
    ((if x.natAbs < 10 then [48] else []) ++ decimal x.natAbs)))

/-- The digits with the point among or before them. -/
def positional (digits : List UInt8) (x : Int) : List UInt8 :=
  if 0 ≤ x then digits.take (x.toNat + 1) ++ fractionPart (digits.drop (x.toNat + 1))
  else 48 :: fractionPart (List.replicate (-x - 1).toNat 48 ++ digits)

/-- `%g` of a positive fraction. -/
def formatFraction (num den : Nat) : List UInt8 :=
  let rounded := significant num den
  if rounded.2 < -4 || 6 ≤ rounded.2 then scientific (decimal rounded.1) rounded.2
  else positional (decimal rounded.1) rounded.2

/-- The sign that is written. -/
def signText (bits : UInt64) : List UInt8 := if bits >>> 63 = 0 then [] else [45]

/-- `%g` of the magnitude of a `double`. -/
def formatMagnitude (bits : UInt64) : List UInt8 :=
  if bits >>> 52 &&& 0x7ff = 0x7ff then
    if bits &&& 0xfffffffffffff = 0 then [105, 110, 102] else [110, 97, 110]
  else if bits <<< 1 = 0 then [48]
  else formatFraction (fraction bits).1 (fraction bits).2

/-- `%g` of a `double`. -/
def formatGeneral (bits : UInt64) : List UInt8 := signText bits ++ formatMagnitude bits

example : formatGeneral 0x3ff8000000000000 = [49, 46, 53] := by decide +kernel

/-! ## The characters of a number -/

private theorem mem_stripZeros {digits : List UInt8} {b : UInt8} (hb : b ∈ stripZeros digits) :
    b ∈ digits := by
  have hmem := List.mem_reverse.mp hb
  exact List.mem_reverse.mp ((List.dropWhile_sublist _).mem hmem)

private theorem mem_fractionPart {digits : List UInt8} {b : UInt8}
    (hb : b ∈ fractionPart digits) : b = 46 ∨ b ∈ digits := by
  unfold fractionPart at hb
  split at hb
  · cases hb
  · exact (List.mem_cons.mp hb).imp id mem_stripZeros

/-- The characters of a number: digits, signs, a point, and the letters of `e`, `inf` and `nan`. -/
def NumberChar (b : UInt8) : Prop :=
  isDigit b = true ∨ b ∈ ([43, 45, 46, 97, 101, 102, 105, 110] : List UInt8)

private theorem numberChar_decimal {n : Nat} {b : UInt8} (hb : b ∈ decimal n) : NumberChar b :=
  .inl (isDigit_of_mem_decimal hb)

private theorem numberChar_fractionPart {ds : List UInt8} (hds : ∀ b ∈ ds, NumberChar b)
    {b : UInt8} (hb : b ∈ fractionPart ds) : NumberChar b := by
  obtain rfl | hmem := mem_fractionPart hb
  · exact .inr (by simp)
  · exact hds b hmem

private theorem numberChar_scientific {ds : List UInt8} {x : Int} (hds : ∀ b ∈ ds, NumberChar b)
    {b : UInt8} (hb : b ∈ scientific ds x) : NumberChar b := by
  simp only [scientific, List.mem_append] at hb
  obtain hb | hb | hb | hb | hb := hb
  · exact hds b (List.mem_of_mem_take hb)
  · exact numberChar_fractionPart (fun c hc => hds c (List.mem_of_mem_drop hc)) hb
  · simp only [List.mem_cons, List.not_mem_nil, or_false] at hb
    obtain rfl | rfl := hb
    · exact .inr (by simp)
    · split
      · exact .inr (by simp)
      · exact .inr (by simp)
  · split at hb
    · obtain rfl := List.mem_singleton.mp hb
      exact .inl (by simp [isDigit])
    · cases hb
  · exact numberChar_decimal hb

private theorem numberChar_positional {ds : List UInt8} {x : Int} (hds : ∀ b ∈ ds, NumberChar b)
    {b : UInt8} (hb : b ∈ positional ds x) : NumberChar b := by
  unfold positional at hb
  split at hb
  · obtain hb | hb := List.mem_append.mp hb
    · exact hds b (List.mem_of_mem_take hb)
    · exact numberChar_fractionPart (fun c hc => hds c (List.mem_of_mem_drop hc)) hb
  · obtain rfl | hb := List.mem_cons.mp hb
    · exact .inl (by simp [isDigit])
    · apply numberChar_fractionPart _ hb
      intro c hc
      obtain hc | hc := List.mem_append.mp hc
      · exact .inl (by simp [List.eq_of_mem_replicate hc, isDigit])
      · exact hds c hc

theorem numberChar_formatGeneral {bits : UInt64} {b : UInt8} (hb : b ∈ formatGeneral bits) :
    NumberChar b := by
  obtain hb | hb := List.mem_append.mp hb
  · unfold signText at hb
    split at hb
    · cases hb
    · exact .inr (by simp [List.mem_singleton.mp hb])
  · unfold formatMagnitude at hb
    split at hb
    · split at hb
      · exact .inr (by simp at hb ⊢; tauto)
      · exact .inr (by simp at hb ⊢; tauto)
    · split at hb
      · exact .inl (by simp [List.mem_singleton.mp hb, isDigit])
      · simp only [formatFraction] at hb
        split at hb
        · exact numberChar_scientific (fun c hc => numberChar_decimal hc) hb
        · exact numberChar_positional (fun c hc => numberChar_decimal hc) hb

end MetalOrm.ForStd
