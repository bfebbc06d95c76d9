import MetalOrm.Native.CacheDuration

/-!
# Lifetimes of cache entries

A duration is parsed exactly, or is refused for its form or its size in milliseconds. The bound is
one of milliseconds, and the clock counts nanoseconds: an entry lives as long as it was given if and
only if the end of its life is a time of the clock.

## Key results

- `parseDuration_exact`: what is parsed, and what is thrown
- `cache_lifetimes_iff`: when an entry lives for its duration
-/

namespace MetalOrm.Native

open ForStd (isDigit decimalValue)

/-! ## Durations -/

/-- A text is a duration of so many units. -/
structure IsDuration (s digits : List UInt8) (unit : UInt8) : Prop where
  text : s = digits ++ [unit]
  nonempty : digits ≠ []
  digit : ∀ d ∈ digits, isDigit d = true
  unit : isDurationUnit unit = true

/-- The milliseconds of a unit. -/
def unitMilliseconds (unit : UInt8) : Nat :=
  if unit = 115 then 1000
  else if unit = 109 then 60 * 1000
  else if unit = 104 then 60 * 60 * 1000
  else if unit = 100 then 24 * 60 * 60 * 1000
  else 7 * 24 * 60 * 60 * 1000

/-- The number that is read behind another one. -/
def appended (amount : Nat) (digits : List UInt8) : Nat :=
  digits.foldl (fun acc d => 10 * acc + (d.toNat - 48)) amount

theorem le_appended (amount : Nat) (digits : List UInt8) : amount ≤ appended amount digits := by
  induction digits generalizing amount with
  | nil => exact Nat.le_refl _
  | cons d digits ih =>
    have hrest := ih (10 * amount + (d.toNat - 48))
    show amount ≤ appended (10 * amount + (d.toNat - 48)) digits
    omega

theorem isDigit_iff {d : UInt8} : isDigit d = true ↔ 48 ≤ d.toNat ∧ d.toNat ≤ 57 := by
  simp [isDigit, UInt8.le_iff_toNat_le]

theorem toNat_digit {d : UInt8} (hd : isDigit d = true) :
    (d - 48).toUInt64.toNat = d.toNat - 48 := by
  have hle : (48 : UInt8) ≤ d := UInt8.le_iff_toNat_le.mpr (isDigit_iff.mp hd).1
  rw [UInt8.toNat_toUInt64, UInt8.toNat_sub_of_le _ _ hle]
  rfl

/-- The guard of the loop is about the number that comes next. -/
theorem guard_iff {d : UInt8} (hd : isDigit d = true) (amount : UInt64) :
    amount > (18446744073709551615 - (d - 48).toUInt64) / 10 ↔
      2 ^ 64 ≤ 10 * amount.toNat + (d.toNat - 48) := by
  obtain ⟨hlow, hhigh⟩ := isDigit_iff.mp hd
  have hdigit := toNat_digit hd
  have hmax : (18446744073709551615 : UInt64).toNat = 2 ^ 64 - 1 := by decide
  have hten : (10 : UInt64).toNat = 10 := rfl
  have hle : (d - 48).toUInt64 ≤ 18446744073709551615 := by
    rw [UInt64.le_iff_toNat_le, hdigit, hmax]
    omega
  rw [gt_iff_lt, UInt64.lt_iff_toNat_lt, UInt64.toNat_div, UInt64.toNat_sub_of_le _ _ hle, hdigit,
    hmax, hten]
  omega

/-- The loop reads the number, or throws if it has more than 64 bits. -/
theorem accumulate_eq {digits : List UInt8} (h : ∀ d ∈ digits, isDigit d = true) (amount : UInt64) :
    (appended amount.toNat digits < 2 ^ 64 → ∃ total : UInt64,
      accumulate amount digits = .ok total ∧ total.toNat = appended amount.toNat digits) ∧
    (2 ^ 64 ≤ appended amount.toNat digits → accumulate amount digits = .error tooLarge) := by
  induction digits generalizing amount with
  | nil =>
    refine ⟨fun _ => ⟨amount, rfl, rfl⟩, fun hlarge => ?_⟩
    have hlt := amount.toNat_lt
    change 2 ^ 64 ≤ amount.toNat at hlarge
    omega
  | cons d digits ih =>
    obtain ⟨hd, hdigits⟩ := List.forall_mem_cons.mp h
    have hguard := guard_iff hd amount
    have hmono := le_appended (10 * amount.toNat + (d.toNat - 48)) digits
    have hnumber : appended amount.toNat (d :: digits) =
        appended (10 * amount.toNat + (d.toNat - 48)) digits := rfl
    rw [accumulate, hnumber]
    by_cases hlarge : 2 ^ 64 ≤ 10 * amount.toNat + (d.toNat - 48)
    · -- the next number has too many bits, and the whole number is at least as large
      rw [if_pos (hguard.mpr hlarge)]
      exact ⟨fun hlt => by omega, fun _ => rfl⟩
    · rw [if_neg (mt hguard.mp hlarge)]
      have hnext : (amount * 10 + (d - 48).toUInt64).toNat =
          10 * amount.toNat + (d.toNat - 48) := by
        have hten : (10 : UInt64).toNat = 10 := rfl
        rw [UInt64.toNat_add, UInt64.toNat_mul, toNat_digit hd, hten]
        omega
      rw [← hnext]
      exact ih hdigits _

/-- The text is a duration, or it is refused. -/
theorem isValidDuration_iff (s : List UInt8) :
    isValidDuration s = true ↔ ∃ digits unit, IsDuration s digits unit := by
  unfold isValidDuration
  constructor
  · intro h
    split at h
    · cases h
    · rename_i hlength
      split at h
      · cases h
      · rename_i hunit
        have hne : s ≠ [] := by
          rintro rfl
          exact hlength (by decide)
        rw [List.getLast?_eq_some_getLast hne, Option.all_some, Bool.not_eq_true,
          Bool.not_eq_false'] at hunit
        refine ⟨s.dropLast, s.getLast hne, (List.dropLast_append_getLast hne).symm, ?_,
          List.all_eq_true.mp h, hunit⟩
        intro hnil
        have hcount := congrArg List.length hnil
        rw [List.length_dropLast, List.length_nil] at hcount
        omega
  · rintro ⟨digits, unit, rfl, hne, hdigits, hunit⟩
    have hpos := List.length_pos_of_ne_nil hne
    rw [if_neg (by simp; omega), List.getLast?_concat, Option.all_some, hunit,
      List.dropLast_concat]
    exact List.all_eq_true.mpr hdigits

theorem toNat_durationMultiplier {unit : UInt8} (h : isDurationUnit unit = true) :
    (durationMultiplier unit).toNat = unitMilliseconds unit := by
  simp only [isDurationUnit, Bool.or_eq_true, decide_eq_true_eq] at h
  obtain (((rfl | rfl) | rfl) | rfl) | rfl := h <;> decide

/-- The milliseconds of a duration, where there are fewer than `2 ^ 63`; otherwise it is too large,
    and other texts are no durations. -/
structure ParsesExactly (s : List UInt8) : Prop where
  accepts : ∀ digits unit, IsDuration s digits unit →
    decimalValue digits * unitMilliseconds unit < 2 ^ 63 →
    ∃ ttl : Int64, parseDuration s = .ok ttl ∧
      ttl.toInt = decimalValue digits * unitMilliseconds unit
  outOfRange : ∀ digits unit, IsDuration s digits unit →
    2 ^ 63 ≤ decimalValue digits * unitMilliseconds unit →
    ∃ what, parseDuration s = .error (.outOfRange what)
  invalid : (¬∃ digits unit, IsDuration s digits unit) →
    ∃ what, parseDuration s = .error (.invalidArgument what)

/-- What `parse_duration` does with a duration. -/
theorem parseDuration_of_isDuration {s digits : List UInt8} {unit : UInt8}
    (h : IsDuration s digits unit) :
    parseDuration s = (do
      let amount ← accumulate 0 digits
      if amount > 9223372036854775807 / durationMultiplier unit then .error tooLarge
      else return (amount * durationMultiplier unit).toInt64) := by
  have hvalid : isValidDuration s = true := (isValidDuration_iff s).mpr ⟨digits, unit, h⟩
  obtain rfl := h.text
  rw [parseDuration, if_neg (by simp [hvalid]), List.dropLast_concat, List.getLast?_concat,
    Option.getD_some]

theorem unitMilliseconds_bounds (unit : UInt8) :
    0 < unitMilliseconds unit ∧ unitMilliseconds unit ≤ 604800000 := by
  unfold unitMilliseconds
  split_ifs <;> decide

/-- The second guard is about the milliseconds. -/
theorem guard_milliseconds_iff {unit : UInt8} (h : isDurationUnit unit = true) (amount : UInt64) :
    amount > 9223372036854775807 / durationMultiplier unit ↔
      2 ^ 63 ≤ amount.toNat * unitMilliseconds unit := by
  have hmax : (9223372036854775807 : UInt64).toNat = 2 ^ 63 - 1 := by decide
  obtain ⟨hpos, -⟩ := unitMilliseconds_bounds unit
  rw [gt_iff_lt, UInt64.lt_iff_toNat_lt, UInt64.toNat_div, toNat_durationMultiplier h, hmax,
    Nat.div_lt_iff_lt_mul hpos]
  omega

/-- A product that passes the second guard is that number of milliseconds. -/
theorem toInt_milliseconds {unit : UInt8} (h : isDurationUnit unit = true) {amount : UInt64}
    (hlt : amount.toNat * unitMilliseconds unit < 2 ^ 63) :
    (amount * durationMultiplier unit).toInt64.toInt = amount.toNat * unitMilliseconds unit := by
  have hnat : (amount * durationMultiplier unit).toNat = amount.toNat * unitMilliseconds unit := by
    rw [UInt64.toNat_mul, toNat_durationMultiplier h]
    exact Nat.mod_eq_of_lt (by omega)
  rw [Int64.toInt, UInt64.toBitVec_toInt64, BitVec.toInt_eq_toNat_of_lt, UInt64.toNat_toBitVec, hnat]
  · exact Int.natCast_mul _ _
  · rw [UInt64.toNat_toBitVec, hnat]
    omega

theorem parseDuration_exact (s : List UInt8) : ParsesExactly s where
  accepts := by
    intro digits unit h hlt
    have hpos := (unitMilliseconds_bounds unit).1
    -- the number itself is at most the number of milliseconds
    have hle : decimalValue digits ≤ decimalValue digits * unitMilliseconds unit :=
      Nat.le_mul_of_pos_right _ hpos
    obtain ⟨total, htotal, hvalue⟩ := (accumulate_eq h.digit 0).1
      (show decimalValue digits < 2 ^ 64 by omega)
    change total.toNat = decimalValue digits at hvalue
    rw [← hvalue] at hlt
    refine ⟨(total * durationMultiplier unit).toInt64, ?_, ?_⟩
    · rw [parseDuration_of_isDuration h, htotal]
      exact if_neg (mt (guard_milliseconds_iff h.unit total).mp (by omega))
    · rw [toInt_milliseconds h.unit hlt, hvalue]
  outOfRange := by
    intro digits unit h hlarge
    suffices herror : parseDuration s = .error tooLarge from ⟨_, herror⟩
    rw [parseDuration_of_isDuration h]
    by_cases hbits : decimalValue digits < 2 ^ 64
    · obtain ⟨total, htotal, hvalue⟩ := (accumulate_eq h.digit 0).1 hbits
      change total.toNat = decimalValue digits at hvalue
      rw [htotal]
      exact if_pos ((guard_milliseconds_iff h.unit total).mpr (by rw [hvalue]; exact hlarge))
    · rw [(accumulate_eq h.digit 0).2 (show 2 ^ 64 ≤ decimalValue digits by omega)]
      rfl
  invalid := by
    intro h
    rw [← isValidDuration_iff, Bool.not_eq_true] at h
    exact ⟨_, by rw [parseDuration, h]; rfl⟩

/-! ## Lifetimes -/

/-- An entry that is stored at the time `now` for so many milliseconds lives that long: the end of
    its life is a time of the clock, and the entry is there until then and no longer. -/
structure LivesFor (cache : MemoryCacheAdapter) (key : CacheKey) (value : QueryResult)
    (now ttl : Int64) : Prop where
  representable : ttl ≠ 0 → (expiryTime now ttl).toInt = now.toInt + ttl.toInt * 1000000
  present : ∀ time : Int64, (ttl = 0 ∨ time.toInt ≤ now.toInt + ttl.toInt * 1000000) →
    ((cache.setFor now key value (some ttl)).getSection time.toInt key).1.1 = some value
  absent : ∀ time : Int64, ttl ≠ 0 → now.toInt + ttl.toInt * 1000000 < time.toInt →
    ((cache.setFor now key value (some ttl)).getSection time.toInt key).1.1 = none

/-- A lifetime that the clock can count to its end. -/
def FitsClock (now ttl : Int64) : Prop :=
  ttl = 0 ∨ now.toInt + ttl.toInt * 1000000 < 2 ^ 63

instance (now ttl : Int64) : Decidable (FitsClock now ttl) := inferInstanceAs (Decidable (_ ∨ _))

theorem toInt_expiryTime {now ttl : Int64} (hnow : 0 ≤ now.toInt) (httl : 0 ≤ ttl.toInt)
    (h : now.toInt + ttl.toInt * 1000000 < 2 ^ 63) :
    (expiryTime now ttl).toInt = now.toInt + ttl.toInt * 1000000 := by
  have hscale : (1000000 : Int64).toInt = 1000000 := by decide
  have hproduct : (ttl * 1000000).toInt = ttl.toInt * 1000000 := by
    rw [Int64.toInt_mul, hscale]
    exact Int.bmod_eq_of_le (by omega) (by omega)
  rw [expiryTime, Int64.toInt_add, hproduct]
  exact Int.bmod_eq_of_le (by omega) (by omega)

/-- What `get` finds at a later time. -/
theorem getSection_setFor (cache : MemoryCacheAdapter) (now : Int64) (key : CacheKey)
    (value : QueryResult) (ttl : Int64) (time : Int) :
    ((cache.setFor now key value (some ttl)).getSection time key).1.1 =
      if ttl = 0 ∨ time ≤ (expiryTime now ttl).toInt then some value else none := by
  rw [MemoryCacheAdapter.getSection, MemoryCacheAdapter.setFor, MemoryCacheAdapter.store,
    AList.lookup_insert]
  by_cases hzero : ttl = 0
  · simp [CacheEntry.expired, hzero]
  · by_cases htime : time ≤ (expiryTime now ttl).toInt
    · simp [CacheEntry.expired, hzero, htime, Int.not_lt.mpr htime]
    · simp [CacheEntry.expired, hzero, htime, Int.not_le.mp htime]

theorem livesFor_iff (cache : MemoryCacheAdapter) (key : CacheKey) (value : QueryResult)
    {now ttl : Int64} (hnow : 0 ≤ now.toInt) (httl : 0 ≤ ttl.toInt) :
    LivesFor cache key value now ttl ↔ FitsClock now ttl := by
  constructor
  · intro h
    by_cases hzero : ttl = 0
    · exact .inl hzero
    · exact .inr (h.representable hzero ▸ Int64.toInt_lt _)
  · intro h
    -- a lifetime that is not zero ends at the time that is stored
    have hend : ttl ≠ 0 → (expiryTime now ttl).toInt = now.toInt + ttl.toInt * 1000000 :=
      fun hzero => toInt_expiryTime hnow httl (h.resolve_left hzero)
    refine ⟨hend, fun time htime => ?_, fun time hzero htime => ?_⟩
    · rw [getSection_setFor, if_pos]
      by_cases hzero : ttl = 0
      · exact .inl hzero
      · exact .inr (hend hzero ▸ htime.resolve_left hzero)
    · rw [getSection_setFor, if_neg]
      rintro (heq | hle)
      · exact hzero heq
      · rw [hend hzero] at hle
        omega

/-- What is parsed is no negative number. -/
theorem parseDuration_nonneg {s : List UInt8} {ttl : Int64} (h : parseDuration s = .ok ttl) :
    0 ≤ ttl.toInt := by
  have hexact := parseDuration_exact s
  by_cases hduration : ∃ digits unit, IsDuration s digits unit
  · obtain ⟨digits, unit, hduration⟩ := hduration
    by_cases hlt : decimalValue digits * unitMilliseconds unit < 2 ^ 63
    · obtain ⟨ttl', hok, hvalue⟩ := hexact.accepts digits unit hduration hlt
      obtain rfl : ttl' = ttl := by
        rw [hok] at h
        exact Except.ok.inj h
      rw [hvalue]
      exact_mod_cast Nat.zero_le _
    · obtain ⟨what, herror⟩ := hexact.outOfRange digits unit hduration (by omega)
      rw [herror] at h
      cases h
  · obtain ⟨what, herror⟩ := hexact.invalid hduration
    rw [herror] at h
    cases h

/-- An entry that the clock can count to its end is stored as `set` does without a bound. -/
theorem setFor_eq_build (cache : MemoryCacheAdapter) (key : CacheKey) (value : QueryResult)
    {now ttl : Int64} (hnow : 0 ≤ now.toInt) (httl : 0 ≤ ttl.toInt) (h : FitsClock now ttl) :
    cache.setFor now key value (some ttl) =
      cache.store key (.build now.toInt value (some (ttl.toInt * 1000000)) 0) := by
  unfold MemoryCacheAdapter.setFor CacheEntry.build
  by_cases hzero : ttl = 0
  · subst hzero
    rfl
  · have hne : ttl.toInt * 1000000 ≠ 0 := by
      intro heq
      exact hzero (Int64.toInt_inj.mp (show ttl.toInt = 0 by omega))
    simp [hzero, hne, toInt_expiryTime hnow httl (h.resolve_left hzero)]

/-- Every duration is parsed exactly, and an entry lives for it if and only if the clock can count
    to the end. -/
theorem cache_lifetimes_iff (s : List UInt8) :
    ParsesExactly s ∧ ∀ ttl, parseDuration s = .ok ttl → ∀ now : Int64, 0 ≤ now.toInt →
      ∀ cache key value, LivesFor cache key value now ttl ↔ FitsClock now ttl := by
  refine ⟨parseDuration_exact s, fun ttl hok now hnow cache key value => ?_⟩
  exact livesFor_iff cache key value hnow (parseDuration_nonneg hok)

/-- An entry for 15251 weeks is gone at once. -/
theorem long_lifetime_expires :
    ¬(ParsesExactly (ByteString.ascii "15251w") ∧
      ∀ ttl, parseDuration (ByteString.ascii "15251w") = .ok ttl → ∀ now : Int64, 0 ≤ now.toInt →
        ∀ cache key value, LivesFor cache key value now ttl) := by
  rintro ⟨-, h⟩
  have hok : parseDuration (ByteString.ascii "15251w") = .ok 9223804800000 := by decide
  have hlives := h _ hok 0 (by decide) .empty [] ⟨[], 0, 0⟩
  have hpresent := hlives.present 0 (.inr (by decide))
  -- the end of its life is a time before the start of the clock
  rw [getSection_setFor, if_neg (by decide)] at hpresent
  cases hpresent

end MetalOrm.Native
