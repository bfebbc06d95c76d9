import MetalOrm.Spec.LikeFilters
import Mathlib.Algebra.Order.Ring.Rat
import Mathlib.Tactic.NormNum
import Mathlib.Tactic.Push

/-!
# Values of integral filters

A filter on an integral member converts its value to the type of the member and back. The value is
the same number afterwards just if the type of the member and `int64_t` can both hold it; only
then does the filter select the rows whose column compares that way with the value it was given.

## Key results

- `toInt_castIntegral_iff`, `toInt_castDouble_iff`: the two conversions
- `filter_keeps_values_iff`: the comparisons and the list filters
-/

namespace MetalOrm.Native.Query

open ForStd

/-! ## Numbers -/

/-- The number that a value stands for; an infinity or a NaN is none. -/
def number : Value → Option ℚ
  | .int64 n => some n.toInt
  | .bool b => some (if b then 1 else 0)
  | .double d => Binary64.number d
  | _ => none

/-- The value is an `int64_t`, a `double` or a `bool`. -/
def IsNumeric : Value → Prop
  | .int64 _ | .double _ | .bool _ => True
  | _ => False

/-- The value is a `double`. -/
def IsDouble : Value → Prop
  | .double _ => True
  | _ => False

/-- The type of the member and `int64_t` can hold the number. The 64-bit types also give back what
    they cannot hold, unless it comes from a `double`. -/
def Fits (bits : Nat) (signed : Bool) (v : Value) : Prop :=
  ∃ n : ℤ, number v = some (n : ℚ) ∧ (-2 ^ 63 ≤ n ∧ n < 2 ^ 63) ∧
    (Representable bits signed n ∨ bits = 64 ∧ ¬IsDouble v)

/-- Integers are 8, 16, 32 or 64 bits wide. -/
def IsWidth (bits : Nat) : Prop := bits = 8 ∨ bits = 16 ∨ bits = 32 ∨ bits = 64

instance (bits : Nat) : Decidable (IsWidth bits) := by
  unfold IsWidth
  infer_instance

/-- The comparison of two numbers. -/
def CompareOp.Holds : CompareOp → ℚ → ℚ → Prop
  | .eq, x, y => x = y
  | .ne, x, y => x ≠ y
  | .lt, x, y => x < y
  | .le, x, y => x ≤ y
  | .gt, x, y => y < x
  | .ge, x, y => y ≤ x

instance (op : CompareOp) (x y : ℚ) : Decidable (op.Holds x y) := by
  cases op <;> unfold CompareOp.Holds <;> infer_instance

/-! ## Conversions -/

section

variable {bits : Nat} {signed : Bool}

theorem toInt_ofInt_of_range {n : ℤ} (h : -2 ^ 63 ≤ n ∧ n < 2 ^ 63) : (Int64.ofInt n).toInt = n := by
  rw [Int64.toInt_ofInt]
  show n.bmod 18446744073709551616 = n
  rw [Int.bmod_def]
  split <;> omega

theorem toInt_range (v : Int64) : -2 ^ 63 ≤ v.toInt ∧ v.toInt < 2 ^ 63 :=
  ⟨v.le_toInt, v.toInt_lt⟩

/-- A conversion between integers keeps the number if the narrower type can hold it. -/
theorem toInt_castIntegral_iff (hbits : IsWidth bits) (v : Int64) :
    (castIntegral bits signed v).toInt = v.toInt ↔
      Representable bits signed v.toInt ∨ bits = 64 := by
  have hrange := toInt_range v
  unfold castIntegral Representable
  rw [Int64.toInt_ofInt]
  show Int.bmod _ 18446744073709551616 = v.toInt ↔ _
  generalize v.toInt = n at *
  obtain rfl | rfl | rfl | rfl := hbits <;> cases signed <;>
    simp only [Int.bmod_def, Bool.false_eq_true, if_true, if_false, Nat.reducePow,
      Nat.cast_ofNat, or_true, iff_true] <;> split_ifs <;> omega

theorem representable_zero (hbits : IsWidth bits) : Representable bits signed 0 := by
  unfold Representable
  obtain rfl | rfl | rfl | rfl := hbits <;> cases signed <;> simp

theorem representable_one (hbits : IsWidth bits) : Representable bits signed 1 := by
  unfold Representable
  obtain rfl | rfl | rfl | rfl := hbits <;> cases signed <;> simp

/-- What the type of the member cannot hold does not come back. -/
theorem castDouble_eq {d : UInt64} {n : ℤ} (hn : Binary64.number d = some (n : ℚ)) :
    castDouble bits signed d = if Representable bits signed n then Int64.ofInt n else 0 := by
  unfold castDouble
  simp only [hn, Binary64.truncate_intCast]

/-- A `double` is kept if it is an integer that both types can hold. -/
theorem toInt_castDouble_iff (hbits : IsWidth bits) (d : UInt64) :
    Binary64.number d = some ((castDouble bits signed d).toInt : ℚ) ↔
      ∃ n : ℤ, Binary64.number d = some (n : ℚ) ∧ (-2 ^ 63 ≤ n ∧ n < 2 ^ 63) ∧
        Representable bits signed n := by
  constructor
  · intro h
    refine ⟨_, h, toInt_range _, ?_⟩
    generalize hx : castDouble bits signed d = x at h ⊢
    rw [castDouble_eq h] at hx
    split at hx
    · assumption
    · -- the number would be zero, which every type can hold
      rename_i hrep
      subst hx
      exact absurd (representable_zero hbits) hrep
  · rintro ⟨n, hn, hrange, hrep⟩
    rw [castDouble_eq hn, if_pos hrep, toInt_ofInt_of_range hrange]
    exact hn

/-- An integral member takes every number. -/
theorem fromValue_integral (bits : Nat) (signed : Bool) {v : Value} (hv : IsNumeric v) :
    ∃ x, normalizeFilterValue (.integral bits signed) v = .ok (.int64 x) := by
  cases v with
  | int64 n => exact ⟨_, rfl⟩
  | bool b => exact ⟨_, rfl⟩
  | double d => exact ⟨_, rfl⟩
  | null | string | blob => exact absurd hv id

/-- The value that comes back is the same number just if it fits. -/
theorem number_normalized_iff (hbits : IsWidth bits) {v : Value} {x : Int64}
    (h : normalizeFilterValue (.integral bits signed) v = .ok (.int64 x)) :
    number v = some (x.toInt : ℚ) ↔ Fits bits signed v := by
  cases v with
  | int64 n =>
    cases h
    show some ((n.toInt : ℤ) : ℚ) = some _ ↔ _
    rw [Option.some_inj, Int.cast_inj, eq_comm, toInt_castIntegral_iff hbits]
    constructor
    · exact fun hfits => ⟨n.toInt, rfl, toInt_range n, hfits.imp_right fun h64 => ⟨h64, id⟩⟩
    · rintro ⟨m, hm, -, hfits⟩
      have hmn : n.toInt = m := by simpa [number] using hm
      subst hmn
      exact hfits.imp_right And.left
  | bool b =>
    cases h
    have hrep : Representable bits signed (if b then (1 : Int64) else 0).toInt := by
      cases b with
      | true => exact representable_one hbits
      | false => exact representable_zero hbits
    have hnumber : number (.bool b) = some (((if b then (1 : Int64) else 0).toInt : ℤ) : ℚ) := by
      cases b <;> simp [number]
    rw [(toInt_castIntegral_iff hbits _).mpr (.inl hrep)]
    exact ⟨fun _ => ⟨_, hnumber, toInt_range _, .inl hrep⟩, fun _ => hnumber⟩
  | double d =>
    cases h
    show Binary64.number d = _ ↔ _
    rw [toInt_castDouble_iff hbits]
    constructor
    · rintro ⟨n, hn, hrange, hrep⟩
      exact ⟨n, hn, hrange, .inl hrep⟩
    · rintro ⟨n, hn, hrange, hrep | hrep⟩
      · exact ⟨n, hn, hrange, hrep⟩
      · exact absurd trivial hrep.2
  | null | string | blob => cases h

end

/-! ## What a filter asks for -/

/-- The comparison of a clause with one value. -/
def FilterOperator.comparison? : FilterOperator → Option CompareOp
  | .equals => some .eq
  | .notEquals => some .ne
  | .lt => some .lt
  | .lte => some .le
  | .gt => some .gt
  | .gte => some .ge
  | _ => none

/-- The clause compares numbers. -/
def FilterOperator.comparesNumbers (op : FilterOperator) : Bool :=
  op.comparison?.isSome || op = .isIn || op = .notIn

/-- The values that a clause compares with. -/
def FilterClause.operands (clause : FilterClause) : List Value :=
  match clause.op with
  | .isIn | .notIn => clause.values
  | _ => [clause.value]

/-- What a clause asks of a number. -/
def FilterClause.Asks (clause : FilterClause) (x : ℚ) : Prop :=
  match clause.op.comparison? with
  | some op => ∃ y, number clause.value = some y ∧ op.Holds x y
  | none =>
    if clause.op = .isIn then ∃ v ∈ clause.values, number v = some x
    else ∀ v ∈ clause.values, number v ≠ some x

/-- The database compares integers as numbers, and nulls with nothing. -/
structure Engine.StandardCompare (engine : Engine) : Prop where
  compare_int64 : ∀ {op : CompareOp} {a b : Cell} {x y : Int64}, a.value = .int64 x →
    b.value = .int64 y → engine.compare op a b = some (decide (op.Holds x.toInt y.toInt))
  compare_null : ∀ {op : CompareOp} {a b : Cell}, a.value = .null → engine.compare op a b = none

/-- The values of a clause are the same numbers after the conversion. -/
def FilterClause.KeepsValues (clause : FilterClause) (type : MemberType) : Prop :=
  ∀ v ∈ clause.operands, ∀ w, normalizeFilterValue type v = .ok w →
    ∃ x, w = .int64 x ∧ number v = some (x.toInt : ℚ)

/-- The predicate of the clause accepts the rows whose column is as the clause asks. -/
def FilterClause.Selects (clause : FilterClause) (T : TypeIndex) (member : ColumnMember) : Prop :=
  ∀ e, buildMemberFilter T member clause = .ok e → ∀ engine : Engine, engine.StandardCompare →
    ∀ table row,
      (row member.column = .null → clause.operands ≠ [] → e.accepts T engine table row = false) ∧
      ∀ x, row member.column = .int64 x →
        (e.accepts T engine table row = true ↔ clause.Asks x.toInt)

section

variable {bits : Nat} {signed : Bool} {T : TypeIndex} {member : ColumnMember}
  {clause : FilterClause} {engine : Engine}

/-- The literal of a value that fits is the value. -/
theorem literalOf_fits (hbits : IsWidth bits) {v : Value} (hv : IsNumeric v)
    (hfits : Fits bits signed v) :
    ∃ y, literalOf (.integral bits signed) v = { value := .int64 y } ∧
      number v = some (y.toInt : ℚ) := by
  obtain ⟨y, hy⟩ := fromValue_integral bits signed hv
  exact ⟨y, literalOf_normalized hy, (number_normalized_iff hbits hy).mpr hfits⟩

/-- What a comparison asks of a row. -/
theorem satisfied_comparison {op : CompareOp} (hop : clause.op.comparison? = some op)
    (hv : IsNumeric clause.value) (table : String) (row : Tuple) :
    clause.satisfied engine table member row =
      (engine.compare op (cellOf table row member.column)
        (literalOf member.type clause.value)).holds := by
  have hnull : clause.value ≠ .null := by
    intro hnull
    simp [hnull, IsNumeric] at hv
  unfold FilterClause.satisfied
  cases hclause : clause.op <;> simp only [hclause, FilterOperator.comparison?, reduceCtorEq] at hop
  all_goals
    cases hop
    simp [hnull]

theorem selects_comparison (hbits : IsWidth bits) (htype : member.type = .integral bits signed)
    {op : CompareOp} (hop : clause.op.comparison? = some op) (hv : IsNumeric clause.value)
    (hfits : Fits bits signed clause.value) : clause.Selects T member := by
  intro e hbuild engine hengine table row
  obtain ⟨y, hliteral, hnumber⟩ := literalOf_fits hbits hv hfits
  have haccepts : e.accepts T engine table row =
      (engine.compare op (cellOf table row member.column) { value := .int64 y }).holds := by
    rw [accepts_of_expresses (expresses_buildMemberFilter hbuild),
      satisfied_comparison hop hv, htype, hliteral]
  rw [haccepts]
  constructor
  · intro hnull _
    have hcell : (cellOf table row member.column).value = .null := hnull
    simp [hengine.compare_null hcell]
  · intro x hx
    have hcell : (cellOf table row member.column).value = .int64 x := hx
    rw [hengine.compare_int64 hcell rfl, Truth.holds_some, decide_eq_true_iff]
    simp [FilterClause.Asks, hop, hnumber]

/-- Two integers are equal if they are the same number. -/
theorem compare_eq_iff (hengine : engine.StandardCompare) {a b : Cell} {x y : Int64}
    (ha : a.value = .int64 x) (hb : b.value = .int64 y) {z : Option ℚ}
    (hz : z = some (y.toInt : ℚ)) :
    engine.compare .eq a b = some (decide (z = some (x.toInt : ℚ))) := by
  rw [hengine.compare_int64 ha hb, hz]
  simp [CompareOp.Holds, eq_comm]

theorem selects_list (hbits : IsWidth bits) (htype : member.type = .integral bits signed)
    (hop : clause.op = .isIn ∨ clause.op = .notIn) (hv : ∀ v ∈ clause.values, IsNumeric v)
    (hfits : ∀ v ∈ clause.values, Fits bits signed v) : clause.Selects T member := by
  intro e hbuild engine hengine table row
  rw [accepts_of_expresses (expresses_buildMemberFilter hbuild)]
  unfold FilterClause.satisfied
  constructor
  · intro hnull hoperands
    have hcell : (cellOf table row member.column).value = .null := hnull
    obtain hclause | hclause := hop
    · simp [hclause, Engine.equal, hengine.compare_null hcell]
    · have hne : clause.values ≠ [] := by simpa [FilterClause.operands, hclause] using hoperands
      obtain ⟨v, hv⟩ := List.exists_mem_of_ne_nil _ hne
      simp only [hclause, hengine.compare_null hcell]
      rw [List.all_eq_false]
      exact ⟨v, hv, by simp⟩
  · intro x hx
    have hcell : (cellOf table row member.column).value = .int64 x := hx
    have hcompare : ∀ v ∈ clause.values, engine.compare .eq (cellOf table row member.column)
        (literalOf member.type v) = some (decide (number v = some (x.toInt : ℚ))) := by
      intro v hmem
      obtain ⟨y, hliteral, hnumber⟩ := literalOf_fits hbits (hv v hmem) (hfits v hmem)
      rw [htype, hliteral]
      exact compare_eq_iff hengine hcell rfl hnumber
    obtain hclause | hclause := hop
    · simp only [hclause, FilterClause.Asks, FilterOperator.comparison?, if_true,
        List.any_eq_true]
      refine exists_congr fun v => and_congr_right fun hmem => ?_
      simp [Engine.equal, hcompare v hmem]
    · simp only [hclause, FilterClause.Asks, FilterOperator.comparison?, reduceCtorEq, if_false,
        List.all_eq_true]
      refine forall₂_congr fun v hmem => ?_
      simp [hcompare v hmem]

/-- The filters on an integral member that compare numbers keep the values they are given, and
    select the rows whose column compares that way with them, if and only if all values fit. -/
theorem filter_keeps_values_iff (hbits : IsWidth bits)
    (htype : member.type = .integral bits signed) (hop : clause.op.comparesNumbers = true)
    (hv : ∀ v ∈ clause.operands, IsNumeric v) :
    clause.KeepsValues member.type ∧ clause.Selects T member ↔
      ∀ v ∈ clause.operands, Fits bits signed v := by
  constructor
  · rintro ⟨hkeeps, -⟩ v hmem
    obtain ⟨x, hx⟩ := fromValue_integral bits signed (hv v hmem)
    obtain ⟨y, hy, hnumber⟩ := hkeeps v hmem _ (htype ▸ hx)
    cases hy
    exact (number_normalized_iff hbits hx).mp hnumber
  · intro hfits
    constructor
    · intro v hmem w hw
      rw [htype] at hw
      obtain ⟨x, hx⟩ := fromValue_integral bits signed (hv v hmem)
      rw [hx] at hw
      cases hw
      exact ⟨x, rfl, (number_normalized_iff hbits hx).mpr (hfits v hmem)⟩
    · cases hcomparison : clause.op.comparison? with
      | some op =>
        have hmem : clause.value ∈ clause.operands := by
          cases hclause : clause.op <;>
            simp_all [FilterClause.operands, FilterOperator.comparison?]
        exact selects_comparison hbits htype hcomparison (hv _ hmem) (hfits _ hmem)
      | none =>
        have hlist : clause.op = .isIn ∨ clause.op = .notIn := by
          simpa [FilterOperator.comparesNumbers, hcomparison] using hop
        have hoperands : clause.operands = clause.values := by
          obtain hclause | hclause := hlist <;> simp [FilterClause.operands, hclause]
        rw [hoperands] at hv hfits
        exact selects_list hbits htype hlist hv hfits

end

/-! ## A database that compares numbers -/

/-- The database; it has no `LIKE`. -/
def numberEngine : Engine where
  compare op a b :=
    match a.value, b.value with
    | .int64 x, .int64 y => some (decide (op.Holds x.toInt y.toInt))
    | _, _ => none
  like := fun _ _ => none
  lower a := a.value

theorem numberEngine_standard : numberEngine.StandardCompare where
  compare_int64 := by
    intro op a b x y ha hb
    simp [numberEngine, ha, hb]
  compare_null := by
    intro op a b ha
    simp [numberEngine, ha]

/-- The age of a user, a `uint8_t`. -/
def ageMember : ColumnMember where
  name := "age"
  column := "age"
  type := .integral 8 false

/-- A search for the users of an age. -/
def ageEquals (age : Int64) : FilterClause where
  field := "age"
  value := .int64 age

theorem filter_keeps_values_iff_44 :
    (ageEquals 44).KeepsValues ageMember.type ∧ (ageEquals 44).Selects 0 ageMember ↔
      ∀ v ∈ (ageEquals 44).operands, Fits 8 false v :=
  filter_keeps_values_iff (.inl rfl) rfl rfl (by simp [ageEquals, FilterClause.operands, IsNumeric])

/-- The search for age 300 finds a user of age 44. -/
theorem equals_wraps :
    normalizeFilterValue ageMember.type (.int64 300) = .ok (.int64 44) ∧
      ¬(ageEquals 300).KeepsValues ageMember.type ∧ ¬(ageEquals 300).Selects 0 ageMember := by
  have hnormalized : normalizeFilterValue ageMember.type (.int64 300) = .ok (.int64 44) := by
    decide
  refine ⟨hnormalized, ?_, ?_⟩
  · intro h
    obtain ⟨x, hx, hnumber⟩ := h (.int64 300) (by simp [ageEquals, FilterClause.operands]) _
      hnormalized
    cases hx
    revert hnumber
    decide
  · intro h
    have hbuild : buildMemberFilter 0 ageMember (ageEquals 300) =
        .ok (.comparison (.column ⟨0, "age"⟩) .eq (.value (.int64 44))) := rfl
    have hiff := (h _ hbuild numberEngine numberEngine_standard "users" fun _ => .int64 44).2 44 rfl
    have hasks := hiff.mp (by decide)
    obtain ⟨y, hy, hholds⟩ : ∃ y, number (.int64 300) = some y ∧ CompareOp.eq.Holds 44 y := hasks
    cases hy
    revert hholds
    decide

end MetalOrm.Native.Query
