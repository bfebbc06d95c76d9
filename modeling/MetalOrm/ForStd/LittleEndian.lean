import Mathlib

/-!
# Little-endian bytes of a 64-bit word

The eight bytes `(v >>> k) &&& 0xff`, `k = 0, 8, …, 56`, shifted back into
place and combined with `|||`, give `v` again. The proof looks at one bit at a
time: bit `i` lives in exactly the byte `i / 8`.
-/

namespace MetalOrm.ForStd

/-- The byte of `v` at bit offset `k`. -/
def byteOf (v k : UInt64) : UInt8 := ((v >>> k) &&& 0xff).toUInt8

/-- The byte at offset `k`, put back there, holds the bits `k ..< k + 8` of `v`. -/
theorem testBit_byteOf_shiftLeft (v k : UInt64) (hk : k.toNat ≤ 56) (i : Nat) :
    ((byteOf v k).toUInt64 <<< k).toNat.testBit i =
      (decide (k.toNat ≤ i ∧ i < k.toNat + 8) && v.toNat.testBit i) := by
  have hmod : k.toNat % 64 = k.toNat := Nat.mod_eq_of_lt (by omega)
  have hff : (255 : UInt64).toNat = 2 ^ 8 - 1 := rfl
  simp only [byteOf, UInt64.toNat_shiftLeft, UInt8.toNat_toUInt64, UInt64.toNat_toUInt8,
    UInt64.toNat_and, UInt64.toNat_shiftRight, hmod, hff, Nat.testBit_mod_two_pow,
    Nat.testBit_shiftLeft, Nat.testBit_and, Nat.testBit_two_pow_sub_one, Nat.testBit_shiftRight]
  by_cases h : k.toNat ≤ i
  · have hlt : i - k.toNat < 8 ↔ i < k.toNat + 8 := by omega
    have hback : k.toNat + (i - k.toNat) = i := by omega
    have h64 : i < k.toNat + 8 → i < 64 := by omega
    by_cases h8 : i < k.toNat + 8
    · simp [h, h8, hlt, hback, h64 h8]
    · simp [h8, hlt]
  · simp [h]

/-- Putting the eight bytes of `v` back into place gives `v`. -/
theorem foldl_or_byteOf (v : UInt64) :
    [0, 8, 16, 24, 32, 40, 48, 56].foldl
      (fun acc k => acc ||| ((byteOf v k).toUInt64 <<< k)) 0 = v := by
  apply UInt64.toNat_inj.mp
  apply Nat.eq_of_testBit_eq
  intro i
  simp only [List.foldl_cons, List.foldl_nil, UInt64.toNat_or, Nat.testBit_or]
  repeat rw [testBit_byteOf_shiftLeft _ _ (by decide)]
  by_cases hi : i < 64
  · cases hb : v.toNat.testBit i with
    | false => simp
    | true =>
      -- one of the eight bytes covers bit `i`
      simp only [Bool.and_true, UInt64.toNat_zero, Nat.zero_testBit, Bool.false_or,
        ← Bool.decide_or, decide_eq_true_eq, UInt64.reduceToNat]
      omega
  · have hv : v.toNat.testBit i = false :=
      Nat.testBit_lt_two_pow
        (Nat.lt_of_lt_of_le v.toNat_lt (Nat.pow_le_pow_right (by decide) (by omega)))
    simp [hv]

/-! ### The other direction -/

/-- Putting a byte above the bits of a smaller word adds it there. -/
theorem toNat_or_shiftLeft (acc k : UInt64) (b : UInt8) (hk : k.toNat ≤ 56)
    (hacc : acc.toNat < 2 ^ k.toNat) :
    (acc ||| (b.toUInt64 <<< k)).toNat = acc.toNat + b.toNat * 2 ^ k.toNat ∧
      (acc ||| (b.toUInt64 <<< k)).toNat < 2 ^ (k.toNat + 8) := by
  have hb : b.toNat * 2 ^ k.toNat < 2 ^ (k.toNat + 8) := by
    have hlt := Nat.mul_lt_mul_of_pos_right b.toNat_lt (Nat.two_pow_pos k.toNat)
    rw [← Nat.pow_add, Nat.add_comm 8] at hlt
    exact hlt
  have hpow : 2 ^ (k.toNat + 8) ≤ 2 ^ 64 := Nat.pow_le_pow_right (by decide) (by omega)
  have hshift : (b.toUInt64 <<< k).toNat = b.toNat <<< k.toNat := by
    rw [UInt64.toNat_shiftLeft, UInt8.toNat_toUInt64, Nat.mod_eq_of_lt (by omega : k.toNat < 64),
      Nat.shiftLeft_eq, Nat.mod_eq_of_lt (by omega)]
  have hadd : (acc ||| (b.toUInt64 <<< k)).toNat = acc.toNat + b.toNat * 2 ^ k.toNat := by
    rw [UInt64.toNat_or, hshift, Nat.or_comm, ← Nat.shiftLeft_add_eq_or_of_lt hacc,
      Nat.shiftLeft_eq, Nat.add_comm]
  refine ⟨hadd, ?_⟩
  rw [hadd]
  have hstep : b.toNat * 2 ^ k.toNat + 2 ^ k.toNat ≤ 256 * 2 ^ k.toNat := by
    rw [← Nat.succ_mul]
    exact Nat.mul_le_mul_right _ b.toNat_lt
  have h256 : 256 * 2 ^ k.toNat = 2 ^ (k.toNat + 8) := by
    rw [Nat.pow_add, Nat.mul_comm]
  omega

theorem toNat_byteOf (v k : UInt64) (hk : k.toNat ≤ 56) :
    (byteOf v k).toNat = v.toNat / 2 ^ k.toNat % 256 := by
  have hmod : k.toNat % 64 = k.toNat := Nat.mod_eq_of_lt (by omega)
  have hff : (255 : UInt64).toNat = 2 ^ 8 - 1 := rfl
  simp only [byteOf, UInt64.toNat_toUInt8, UInt64.toNat_and, UInt64.toNat_shiftRight, hmod, hff,
    Nat.and_two_pow_sub_one_eq_mod, Nat.shiftRight_eq_div_pow]
  omega

/-- The bytes of the word that eight bytes are put together to are those bytes. -/
theorem map_byteOf_foldl (b0 b1 b2 b3 b4 b5 b6 b7 : UInt8) :
    ([0, 8, 16, 24, 32, 40, 48, 56] : List UInt64).map (byteOf
      (((((((((0 : UInt64) ||| (b0.toUInt64 <<< 0)) ||| (b1.toUInt64 <<< 8)) |||
        (b2.toUInt64 <<< 16)) ||| (b3.toUInt64 <<< 24)) ||| (b4.toUInt64 <<< 32)) |||
        (b5.toUInt64 <<< 40)) ||| (b6.toUInt64 <<< 48)) ||| (b7.toUInt64 <<< 56))) =
      [b0, b1, b2, b3, b4, b5, b6, b7] := by
  obtain ⟨h0, l0⟩ := toNat_or_shiftLeft 0 0 b0 (by decide) (by decide)
  obtain ⟨h1, l1⟩ := toNat_or_shiftLeft _ 8 b1 (by decide) l0
  obtain ⟨h2, l2⟩ := toNat_or_shiftLeft _ 16 b2 (by decide) l1
  obtain ⟨h3, l3⟩ := toNat_or_shiftLeft _ 24 b3 (by decide) l2
  obtain ⟨h4, l4⟩ := toNat_or_shiftLeft _ 32 b4 (by decide) l3
  obtain ⟨h5, l5⟩ := toNat_or_shiftLeft _ 40 b5 (by decide) l4
  obtain ⟨h6, l6⟩ := toNat_or_shiftLeft _ 48 b6 (by decide) l5
  obtain ⟨h7, -⟩ := toNat_or_shiftLeft _ 56 b7 (by decide) l6
  simp only [UInt64.reduceToNat, Nat.reducePow] at h0 h1 h2 h3 h4 h5 h6 h7
  have hlt : ∀ b : UInt8, b.toNat < 256 := UInt8.toNat_lt
  have := hlt b0; have := hlt b1; have := hlt b2; have := hlt b3
  have := hlt b4; have := hlt b5; have := hlt b6; have := hlt b7
  simp only [List.map_cons, List.map_nil, List.cons.injEq, and_true, ← UInt8.toNat_inj]
  refine ⟨?_, ?_, ?_, ?_, ?_, ?_, ?_, ?_⟩ <;>
  · rw [toNat_byteOf _ _ (by decide), h7, h6, h5, h4, h3, h2, h1, h0]
    simp only [UInt64.reduceToNat, Nat.reducePow]
    omega

end MetalOrm.ForStd
