import Mathlib

/-!
# Decimal text of natural numbers

`decimal n` is the text that `std::to_string` prints, as ASCII bytes, and
`decimalValue` reads a list of digits back. Reading a printed number gives the
number (`decimalValue_decimal`), so different numbers print differently.
-/

namespace MetalOrm.ForStd

/-- The ASCII digit of `d < 10`. -/
def digit (d : Nat) : UInt8 := UInt8.ofNat (48 + d)

/-- `decimal`, with a bound on the number of digits. -/
def decimalAux : Nat → Nat → List UInt8
  | 0, _ => []
  | fuel + 1, n => if n < 10 then [digit n] else decimalAux fuel (n / 10) ++ [digit (n % 10)]

/-- The decimal digits of `n`, most significant first. -/
def decimal (n : Nat) : List UInt8 := decimalAux (n + 1) n

/-- The number a list of ASCII digits denotes. -/
def decimalValue (digits : List UInt8) : Nat :=
  digits.foldl (fun acc d => 10 * acc + (d.toNat - 48)) 0

/-- `isdigit`. -/
def isDigit (b : UInt8) : Bool := 48 ≤ b && b ≤ 57

/-! ### The bound does not matter -/

private theorem decimalAux_eq (n : Nat) :
    ∀ fuel, n < fuel → decimalAux fuel n = decimalAux (n + 1) n := by
  induction n using Nat.strongRecOn with
  | _ n ih =>
    intro fuel h
    cases fuel with
    | zero => omega
    | succ fuel =>
      simp only [decimalAux]
      split
      · rfl
      · -- both bounds are above `n / 10`
        rw [ih (n / 10) (by omega) fuel (by omega), ih (n / 10) (by omega) n (by omega)]

theorem decimal_of_lt {n : Nat} (h : n < 10) : decimal n = [digit n] := by
  simp [decimal, decimalAux, h]

theorem decimal_of_ge {n : Nat} (h : 10 ≤ n) :
    decimal n = decimal (n / 10) ++ [digit (n % 10)] := by
  have hlt : ¬ n < 10 := by omega
  simp only [decimal, decimalAux, hlt, if_false]
  rw [decimalAux_eq (n / 10) n (by omega)]
  simp only [decimalAux]

private theorem toNat_digit {d : Nat} (h : d < 10) : (digit d).toNat = 48 + d := by
  simp only [digit, UInt8.toNat_ofNat']
  omega

/-! ### Reading back -/

private theorem decimalValue_append (ds : List UInt8) (d : UInt8) :
    decimalValue (ds ++ [d]) = 10 * decimalValue ds + (d.toNat - 48) := by
  simp [decimalValue]

@[simp] theorem decimalValue_decimal (n : Nat) : decimalValue (decimal n) = n := by
  induction n using Nat.strongRecOn with
  | _ n ih =>
    by_cases h : n < 10
    · rw [decimal_of_lt h]
      simp [decimalValue, toNat_digit h]
    · rw [decimal_of_ge (by omega), decimalValue_append, ih (n / 10) (by omega),
        toNat_digit (Nat.mod_lt n (by decide))]
      omega

/-- Different numbers have different texts. -/
theorem decimal_injective {m n : Nat} (h : decimal m = decimal n) : m = n := by
  rw [← decimalValue_decimal m, h, decimalValue_decimal]

/-! ### The text of a number -/

theorem decimal_ne_nil (n : Nat) : decimal n ≠ [] := by
  by_cases h : n < 10
  · simp [decimal_of_lt h]
  · simp [decimal_of_ge (show 10 ≤ n by omega)]

theorem isDigit_of_mem_decimal {n : Nat} {b : UInt8} (hb : b ∈ decimal n) : isDigit b = true := by
  have hdigit : ∀ d, d < 10 → isDigit (digit d) = true := by decide
  induction n using Nat.strongRecOn with
  | _ n ih =>
    by_cases h : n < 10
    · rw [decimal_of_lt h, List.mem_singleton] at hb
      exact hb ▸ hdigit n h
    · rw [decimal_of_ge (by omega), List.mem_append, List.mem_singleton] at hb
      cases hb with
      | inl hb => exact ih (n / 10) (by omega) hb
      | inr hb => exact hb ▸ hdigit (n % 10) (Nat.mod_lt n (by decide))

end MetalOrm.ForStd
