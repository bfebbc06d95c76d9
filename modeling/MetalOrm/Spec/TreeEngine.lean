import MetalOrm.Native.TreeManager

/-!
# A server for trees

An `Engine` that computes with integers and generates keys: the first row of a table gets the key
`1`, every other row without a key gets one more than the largest.
-/

namespace MetalOrm.Native.Tree

open Query (CompareOp)

/-- Comparisons; values that are not both integers are compared by their keys. -/
def exactCompare (op : CompareOp) : Value → Value → Bool
  | .null, _ => false
  | _, .null => false
  | .int64 a, .int64 b =>
    match op with
    | .eq => decide (a = b)
    | .ne => decide (a ≠ b)
    | .gt => decide (a > b)
    | .ge => decide (a ≥ b)
    | .lt => decide (a < b)
    | .le => decide (a ≤ b)
  | a, b =>
    match op with
    | .eq => decide (a = b)
    | .ne => decide (a ≠ b)
    | .gt => decide (valueKey b < valueKey a)
    | .ge => !decide (valueKey a < valueKey b)
    | .lt => decide (valueKey a < valueKey b)
    | .le => !decide (valueKey b < valueKey a)

/-- Arithmetic on integers. -/
def exactArith (f : Int64 → Int64 → Int64) : Value → Value → Value
  | .int64 a, .int64 b => .int64 (f a b)
  | _, _ => .null

/-- The larger of two integers; `NULL` does not count. -/
def larger : Value → Value → Value
  | .int64 a, .int64 b => .int64 (if a < b then b else a)
  | .null, m => m
  | v, _ => v

/-- `MAX`. -/
def exactMax : List Value → Value
  | [] => .null
  | v :: values => larger v (exactMax values)

/-- The integer of a value. -/
def asInt64 : Value → Option Int64
  | .int64 v => some v
  | _ => none

/-- The order of an `ORDER BY`: integers behind everything else. -/
def exactLe (ascending : Bool) (a b : Value) : Bool :=
  match asInt64 a, asInt64 b with
  | none, _ => true
  | some _, none => false
  | some a, some b => if ascending then decide (a ≤ b) else decide (b ≤ a)

/-- The key that a row without one gets. -/
def nextKey (pk : Name) (rows : List TableRow) : Value :=
  match exactMax (rows.map fun row => row pk) with
  | .int64 v => .int64 (v + 1)
  | _ => .int64 1

theorem exactArith_int64 {f : Int64 → Int64 → Int64} {g : Int → Int → Int}
    (hf : ∀ a b : Int64, (f a b).toInt = (g a.toInt b.toInt).bmod 18446744073709551616)
    {a b c : Int64}
    (h : g a.toInt b.toInt = c.toInt) : exactArith f (.int64 a) (.int64 b) = .int64 c := by
  rw [exactArith, Value.int64.injEq, ← Int64.toInt_inj, hf, h, Int64.toInt_bmod]

theorem exactLe_trans {ascending : Bool} (a b c : Value) (h : exactLe ascending a b = true)
    (h' : exactLe ascending b c = true) : exactLe ascending a c = true := by
  unfold exactLe at h h' ⊢
  generalize asInt64 a = x at *
  generalize asInt64 b = y at *
  generalize asInt64 c = z at *
  cases x with
  | none => rfl
  | some x =>
    cases y with
    | none => cases h
    | some y =>
      cases z with
      | none => cases h'
      | some z =>
        cases ascending with
        | true => exact decide_eq_true (Int64.le_trans (of_decide_eq_true h) (of_decide_eq_true h'))
        | false => exact decide_eq_true (Int64.le_trans (of_decide_eq_true h') (of_decide_eq_true h))

theorem exactLe_total (ascending : Bool) (a b : Value) :
    (exactLe ascending a b || exactLe ascending b a) = true := by
  unfold exactLe
  generalize asInt64 a = x
  generalize asInt64 b = y
  cases x with
  | none => rfl
  | some x =>
    cases y with
    | none => rfl
    | some y =>
      cases ascending with
      | true => simpa using Int64.le_total x y
      | false => simpa using Int64.le_total y x

theorem pairwise_exactLe (ascending : Bool) (column : Name) (rows : List TableRow) :
    (rows.mergeSort fun row row' => exactLe ascending (row column) (row' column)).Pairwise
      fun row row' => exactLe ascending (row column) (row' column) = true :=
  List.pairwise_mergeSort
    (fun row row' row'' => exactLe_trans (row column) (row' column) (row'' column))
    (fun row row' => exactLe_total ascending (row column) (row' column)) rows

theorem exactMax_int64 (v : Int64) (values : List Int64) :
    ∃ m ∈ v :: values, exactMax ((v :: values).map .int64) = .int64 m ∧
      ∀ w ∈ v :: values, w ≤ m := by
  induction values generalizing v with
  | nil => exact ⟨v, by simp, rfl, by simp⟩
  | cons w values ih =>
    obtain ⟨m, hm, hmax, hle⟩ := ih w
    rw [List.map_cons, exactMax, hmax, larger]
    by_cases hlt : v < m
    · refine ⟨m, List.mem_cons_of_mem v hm, by simp [hlt], List.forall_mem_cons.mpr ⟨?_, hle⟩⟩
      exact Int64.le_of_lt hlt
    · have hmv : m ≤ v := Int64.not_lt.mp hlt
      refine ⟨v, List.mem_cons_self, by simp [hlt], List.forall_mem_cons.mpr ⟨?_, ?_⟩⟩
      · exact Int64.le_refl v
      · exact fun x hx => Int64.le_trans (hle x hx) hmv

/-- The server. -/
def exactEngine (pk : Name) : Engine where
  compare := exactCompare
  add := exactArith (· + ·)
  sub := exactArith (· - ·)
  max := exactMax
  orderBy ascending column rows :=
    rows.mergeSort fun row row' => exactLe ascending (row column) (row' column)
  newRow rows assignments := .ok fun column =>
    match assignments.lookup column with
    | some value => value
    | none => if column = pk then nextKey pk rows else .null
  compare_null op value := rfl
  compare_eq_self value hvalue := by
    cases value with
    | null => exact absurd rfl hvalue
    | int64 v => exact decide_eq_true rfl
    | double bits => exact decide_eq_true rfl
    | string s => exact decide_eq_true rfl
    | bool b => exact decide_eq_true rfl
    | blob b => exact decide_eq_true rfl
  compare_eq_comm a b := by
    cases a <;> cases b <;> simp [exactCompare, eq_comm]
  compare_int64 op a b := rfl
  add_int64 a b c h := exactArith_int64 (g := (· + ·)) Int64.toInt_add h
  sub_int64 a b c h := exactArith_int64 (g := (· - ·)) Int64.toInt_sub h
  max_nil := rfl
  max_int64 values v hv hle := by
    cases values with
    | nil => cases hv
    | cons w values =>
      obtain ⟨m, hm, hmax, hbound⟩ := exactMax_int64 w values
      rw [hmax, Int64.le_antisymm (hle m hm) (hbound v hv)]
  orderBy_perm ascending column rows := List.mergeSort_perm rows _
  orderBy_sorted ascending column rows := by
    apply (pairwise_exactLe ascending column rows).imp
    intro r r' hle v v' hv hv'
    rw [hv, hv'] at hle
    cases ascending with
    | true => exact of_decide_eq_true hle
    | false => exact of_decide_eq_true hle
  newRow_assigned rows assignments row h column value hlookup := by
    cases h
    simp only [hlookup]

/-! ## Categories of tenants -/

/-- A table of trees, one for each tenant. -/
def categories : TreeMapping where
  table := .ofAscii "categories"
  columns := ["id", "parent_id", "lft", "rght", "depth", "tenant_id"].map .ofAscii
  nodup := by decide
  pk := .ofAscii "id"
  parent := .ofAscii "parent_id"
  left := .ofAscii "lft"
  right := .ofAscii "rght"
  depth := some (.ofAscii "depth")
  pk_mem := by decide
  parent_mem := by decide
  left_mem := by decide
  right_mem := by decide
  depth_mem := by decide

/-- The trees of one tenant. -/
def tenantTree (tenant : Int64) : TreeManager where
  engine := exactEngine (.ofAscii "id")
  mapping := categories
  scope := [(.ofAscii "tenant_id", .int64 tenant)]
  scope_nodup := List.nodup_singleton _

/-- A row of the table. -/
def category (id : Int64) (parentId : Value) (lft rght depth tenant : Int64) : TableRow :=
  fun column =>
    (([(ByteString.ofAscii "id", .int64 id), (.ofAscii "parent_id", parentId),
      (.ofAscii "lft", .int64 lft), (.ofAscii "rght", .int64 rght),
      (.ofAscii "depth", .int64 depth), (.ofAscii "tenant_id", .int64 tenant)] :
        List (Name × Value)).lookup column).getD .null

end MetalOrm.Native.Tree
