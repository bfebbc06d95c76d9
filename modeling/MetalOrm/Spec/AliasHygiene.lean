import MetalOrm.Spec.QueryBlocks

/-!
# Alias hygiene

The aliases that the compiler makes up are apart from each other: those of the joins are numbered,
and those of a relation filter are longer than the ones outside. The names of CTE joins and of
derived tables are taken as they are.

## Key results

- `fromNames_nodup_iff`: when the names of a FROM list are distinct
- `alias_hygiene_iff`: when every qualified column of a query finds its table
-/

namespace MetalOrm.Native.Query

open ForStd

variable {V : Type}

/-! ## Aliases of joins -/

theorem toString_number_injective {m n : Nat} (h : toString m = toString n) : m = n := by
  have hdigits : Nat.toDigits 10 m = Nat.toDigits 10 n := by
    rw [← Nat.toList_repr, ← Nat.toList_repr]
    exact congrArg String.toList h
  have hvalue := congrArg (Nat.ofDigitChars 10 · 0) hdigits
  simpa only [Nat.ofDigitChars_ten_toDigits] using hvalue

theorem number_cancel {start : String} {m n : Nat}
    (h : start ++ toString m = start ++ toString n) : m = n := by
  have hlist := congrArg String.toList h
  rw [String.toList_append, String.toList_append] at hlist
  exact toString_number_injective (String.toList_inj.mp (List.append_cancel_left hlist))

/-- Two beginnings of aliases that no number makes equal. -/
def Unlike (entities pivots : String) : Prop :=
  ∀ m n : Nat, entities ++ toString m ≠ pivots ++ toString n

theorem unlike_aliases (rootAlias : String) (correlatedScope : Bool) :
    Unlike (entityAlias rootAlias correlatedScope) (pivotAlias rootAlias correlatedScope) := by
  intro m n h
  have hlist := congrArg String.toList h
  rw [String.toList_append, String.toList_append] at hlist
  cases correlatedScope with
  | false =>
    have hentity : (entityAlias rootAlias false).toList = ['t'] := by simp [entityAlias]
    have hpivot : (pivotAlias rootAlias false).toList = ['p'] := by simp [pivotAlias]
    rw [hentity, hpivot] at hlist
    cases (List.cons.inj hlist).1
  | true =>
    have hentity : (entityAlias rootAlias true).toList = rootAlias.toList ++ ['_', 'j'] :=
      String.toList_append
    have hpivot : (pivotAlias rootAlias true).toList = rootAlias.toList ++ ['_', 'p'] :=
      String.toList_append
    rw [hentity, hpivot, List.append_assoc, List.append_assoc] at hlist
    have hrest := List.append_cancel_left hlist
    cases (List.cons.inj (List.cons.inj hrest).2).1

section

variable {entities pivots name : String}

/-- The aliases of the joins are the numbers in order. -/
theorem mem_joinAliases_iff {joins : List JoinSpec} {entity pivot : Nat} :
    name ∈ joinAliases entities pivots joins entity pivot ↔
      (∃ i < joins.length, name = entities ++ toString (entity + i)) ∨
        ∃ k < (joins.filter (·.pivot.isSome)).length, name = pivots ++ toString (pivot + k) := by
  induction joins generalizing entity pivot with
  | nil => simp [joinAliases]
  | cons join joins ih =>
    have hshift : ∀ {n m : Nat} {start : String},
        (∃ i < m + 1, name = start ++ toString (n + i)) ↔
          name = start ++ toString n ∨ ∃ i < m, name = start ++ toString (n + 1 + i) := by
      intro n m start
      rw [Nat.exists_lt_succ_left]
      simp only [Nat.add_zero, Nat.add_right_comm n 1, Nat.add_assoc]
    rw [joinAliases, List.length_cons, hshift]
    cases hpivot : join.pivot with
    | none =>
      rw [List.filter_cons_of_neg (by simp [hpivot]), List.mem_cons, ih, or_assoc]
    | some spec =>
      rw [List.filter_cons_of_pos (by simp [hpivot]), List.length_cons, hshift, List.mem_cons,
        List.mem_cons, ih]
      exact (or_left_comm.trans (or_congr_right or_assoc)).symm

theorem nodup_joinAliases (h : Unlike entities pivots) (joins : List JoinSpec)
    (entity pivot : Nat) : (joinAliases entities pivots joins entity pivot).Nodup := by
  induction joins generalizing entity pivot with
  | nil => exact List.nodup_nil
  | cons join joins ih =>
    -- the numbers behind are greater
    have hentity : ∀ {pivot : Nat},
        entities ++ toString entity ∉ joinAliases entities pivots joins (entity + 1) pivot := by
      intro pivot hmem
      obtain ⟨i, -, heq⟩ | ⟨k, -, heq⟩ := mem_joinAliases_iff.mp hmem
      · have := number_cancel heq
        omega
      · exact h _ _ heq
    rw [joinAliases]
    split
    · refine List.nodup_cons.mpr ⟨?_, List.nodup_cons.mpr ⟨hentity, ih _ _⟩⟩
      rw [List.mem_cons, not_or]
      refine ⟨fun heq => h _ _ heq.symm, fun hmem => ?_⟩
      obtain ⟨i, -, heq⟩ | ⟨k, -, heq⟩ := mem_joinAliases_iff.mp hmem
      · exact h _ _ heq.symm
      · have := number_cancel heq
        omega
    · exact List.nodup_cons.mpr ⟨hentity, ih _ _⟩

end

/-! ## Names of a user -/

/-- An alias that is given to a join: `t1`, `t2`, ... and `p0`, `p1`, ..., or the same behind the
    alias of the root. -/
def Given (rootAlias : String) (correlatedScope : Bool) (joins : List JoinSpec) (name : String) :
    Prop :=
  (∃ i < joins.length, name = entityAlias rootAlias correlatedScope ++ toString (1 + i)) ∨
    ∃ k < (joins.filter (·.pivot.isSome)).length,
      name = pivotAlias rootAlias correlatedScope ++ toString (0 + k)

/-- The names of a user in a FROM list are apart from each other and from the aliases given in it. -/
structure SelectQuery.NamesApart (query : SelectQuery V) (hasExtraWhere : Bool)
    (override : String) : Prop where
  ctes : query.cteNames.Nodup
  root : rootAliasOf query hasExtraWhere override ∉ query.cteNames
  joined : ∀ name ∈ query.cteNames,
    ¬Given (rootAliasOf query hasExtraWhere override) (override ≠ "") query.joins name
  derived : override = "" → ∀ derived, query.derivedSource = some derived →
    ¬Given derived.aliasName false query.joins derived.aliasName

/-- A longer alias is made of that of the root. -/
theorem not_given_of_length {rootAlias name : String} {joins : List JoinSpec}
    (h : name.length ≤ rootAlias.length) : ¬Given rootAlias true joins name := by
  have hlong : ∀ (start : String) (n : Nat), start.length ≠ 0 →
      name ≠ rootAlias ++ start ++ toString n := by
    rintro start n hstart rfl
    rw [String.length_append, String.length_append] at h
    omega
  rintro (⟨i, -, heq⟩ | ⟨k, -, heq⟩)
  · exact hlong "_j" _ (by decide) heq
  · exact hlong "_p" _ (by decide) heq

theorem not_given_nil {rootAlias name : String} {correlatedScope : Bool} :
    ¬Given rootAlias correlatedScope [] name := by
  rintro (⟨i, hi, -⟩ | ⟨k, hk, -⟩)
  · exact Nat.not_lt_zero i hi
  · exact Nat.not_lt_zero k hk

/-- No join is given the alias of the root. -/
theorem not_given_t0 (joins : List JoinSpec) : ¬Given "t0" false joins "t0" := by
  rintro (⟨i, -, heq⟩ | ⟨k, -, heq⟩)
  · have hzero : "t" ++ toString 0 = "t" ++ toString (1 + i) := heq
    have := number_cancel hzero
    omega
  · exact unlike_aliases "t0" false 0 _ heq

/-! ## Names of a FROM list -/

theorem rootAliasOf_eq (query : SelectQuery V) (hasExtraWhere : Bool) :
    rootAliasOf query hasExtraWhere "" = match query.derivedSource with
      | some derived => derived.aliasName
      | none => if !query.joins.isEmpty || !query.cteJoins.isEmpty || hasExtraWhere then "t0"
        else "" := rfl

/-- The alias of the root is apart from those of the joins. -/
theorem root_given_iff (query : SelectQuery V) (hasExtraWhere : Bool) (override : String) :
    ¬(Given (rootAliasOf query hasExtraWhere override) (override ≠ "") query.joins
        (rootAliasOf query hasExtraWhere override)) ↔
      (override = "" → ∀ derived, query.derivedSource = some derived →
        ¬Given derived.aliasName false query.joins derived.aliasName) := by
  by_cases hoverride : override = ""
  · subst hoverride
    rw [rootAliasOf_eq, forall_prop_of_true rfl]
    cases hderived : query.derivedSource with
    | some derived =>
      refine ⟨fun h other hother => ?_, fun h => h derived rfl⟩
      obtain rfl := Option.some.inj hother
      exact h
    | none =>
      refine iff_of_true ?_ nofun
      dsimp only
      split
      · exact not_given_t0 query.joins
      · rename_i hnone
        have hjoins : query.joins = [] := by
          rw [Bool.not_eq_true, Bool.or_eq_false_iff, Bool.or_eq_false_iff] at hnone
          simpa using hnone.1.1
        rw [hjoins]
        exact not_given_nil
  · rw [rootAliasOf_override hoverride, decide_eq_true hoverride]
    exact iff_of_true (not_given_of_length (Nat.le_refl _)) fun h => absurd h hoverride

theorem mem_joined_iff {joins : List JoinSpec} {rootAlias name : String} {correlatedScope : Bool} :
    name ∈ joinAliases (entityAlias rootAlias correlatedScope)
        (pivotAlias rootAlias correlatedScope) joins 1 0 ↔
      Given rootAlias correlatedScope joins name := mem_joinAliases_iff

/-- A table that is queried without an alias is the only one. -/
theorem plain_of_rootAlias {query : SelectQuery V} {hasExtraWhere : Bool} {override : String}
    (hroot : rootAliasOf query hasExtraWhere override = "")
    (hderived : query.derivedSource.isNone = true) :
    override = "" ∧ query.joins = [] ∧ query.cteJoins = [] ∧ hasExtraWhere = false := by
  have hoverride : override = "" := by
    by_contra h
    exact h ((rootAliasOf_override h query hasExtraWhere).symm.trans hroot)
  subst hoverride
  rw [rootAliasOf_eq, Option.isNone_iff_eq_none.mp hderived] at hroot
  dsimp only at hroot
  split at hroot
  · exact absurd hroot (by decide)
  · rename_i hnone
    simpa only [Bool.not_eq_true, Bool.or_eq_false_iff, Bool.not_eq_false', List.isEmpty_iff,
      and_assoc, true_and] using hnone

/-- The names of a FROM list are distinct if and only if those of a user are apart. -/
theorem fromNames_nodup_iff (query : SelectQuery V) (hasExtraWhere : Bool) (override : String) :
    (query.fromNames hasExtraWhere override).Nodup ↔ query.NamesApart hasExtraWhere override := by
  have hjoined := nodup_joinAliases (unlike_aliases (rootAliasOf query hasExtraWhere override)
    (override ≠ "")) query.joins 1 0
  have hroot := root_given_iff query hasExtraWhere override
  unfold SelectQuery.fromNames
  dsimp only
  split
  · rename_i hnone
    rw [Bool.and_eq_true, decide_eq_true_eq] at hnone
    obtain ⟨-, hjoins, hctes, -⟩ := plain_of_rootAlias hnone.1 hnone.2
    have hnames : query.cteNames = [] := by rw [SelectQuery.cteNames, hctes, List.map_nil]
    have hgiven : ¬Given (rootAliasOf query hasExtraWhere override) (override ≠ "") query.joins
        (rootAliasOf query hasExtraWhere override) := by
      rw [hjoins]
      exact not_given_nil
    rw [hjoins, hnames]
    refine iff_of_true List.nodup_nil ⟨?_, ?_, ?_, hroot.mp hgiven⟩ <;> rw [hnames]
    · exact List.nodup_nil
    · exact List.not_mem_nil
    · exact fun name hname => absurd hname List.not_mem_nil
  · rw [List.nodup_append, List.nodup_append]
    constructor
    · rintro ⟨⟨-, -, hfirst⟩, hctes, hother⟩
      refine ⟨hctes, fun hmem => ?_, fun name hname hgiven => ?_, hroot.mp fun hgiven => ?_⟩
      · exact hother _ (List.mem_append_left _ List.mem_cons_self) _ hmem rfl
      · exact hother _ (List.mem_append_right _ (mem_joined_iff.mpr hgiven)) _ hname rfl
      · exact hfirst _ List.mem_cons_self _ (mem_joined_iff.mpr hgiven) rfl
    · rintro ⟨hctes, hnotroot, hnotjoined, hderived⟩
      refine ⟨⟨List.nodup_singleton _, hjoined, ?_⟩, hctes, ?_⟩
      · rintro name hname _ hmem rfl
        obtain rfl := List.mem_singleton.mp hname
        exact hroot.mpr hderived (mem_joined_iff.mp hmem)
      · rintro name hname _ hmem rfl
        obtain hname | hname := List.mem_append.mp hname
        · obtain rfl := List.mem_singleton.mp hname
          exact hnotroot hmem
        · exact hnotjoined name hmem (mem_joined_iff.mp hname)

/-! ## Relation filters -/

/-- The query itself, without its filters. -/
def CorrelatedQuery.base : CorrelatedQuery V → SelectQuery V
  | .basic query => query
  | .filtered base _ => base

mutual

/-- The names of a user are apart in a query and in its filters. -/
def CorrelatedQuery.NamesApart : CorrelatedQuery V → (hasExtraWhere : Bool) →
    (override : String) → Prop
  | .basic query, hasExtraWhere, override => query.NamesApart hasExtraWhere override
  | .filtered base filters, _, override =>
    base.NamesApart true override ∧ filtersApart (rootAliasOf base true override) filters

def filtersApart (outerAlias : String) : List (RelationFilter V) → Prop
  | [] => True
  | filter :: filters => filter.NamesApart outerAlias ∧ filtersApart outerAlias filters

/-- They are in a filter, and no CTE join inside has the alias that the filter refers to. -/
def RelationFilter.NamesApart (outerAlias : String) : RelationFilter V → Prop
  | .related _ child _ =>
    child.NamesApart true (outerAlias ++ "_rel") ∧ outerAlias ∉ child.base.cteNames
  | .every _ predicate =>
    predicate.NamesApart true (outerAlias ++ "_rel" ++ "_every") ∧
      outerAlias ++ "_rel" ∉ predicate.base.cteNames

end

/-- The names that a condition refers to are found. -/
def Correlation.Found (condition : Correlation) (blocks : List (List String)) : Prop :=
  (∀ reference ∈ condition.references, resolve reference.2 blocks = some reference.1) ∧
    hygienicAll blocks condition.inner

theorem block_hygienic_iff {query : SelectQuery V} {hasExtraWhere : Bool} {override : String}
    {condition : Correlation} {outer : List (List String)} :
    (query.block hasExtraWhere override condition).Hygienic outer ↔
      query.NamesApart hasExtraWhere override ∧
        condition.Found (query.fromNames hasExtraWhere override :: outer) := by
  unfold SelectQuery.block
  dsimp only
  rw [Block.hygienic_iff, fromNames_nodup_iff]
  rfl

section

variable {query : SelectQuery V} {hasExtraWhere : Bool} {override outerAlias : String}
  {names : List String} {outer : List (List String)}

/-- The alias of the root is one of the names. -/
theorem override_mem_fromNames (h : override ≠ "") :
    override ∈ query.fromNames hasExtraWhere override := by
  unfold SelectQuery.fromNames
  dsimp only
  rw [rootAliasOf_override h, if_neg (by simp [h])]
  exact List.mem_append_left _ (List.mem_append_left _ List.mem_cons_self)

/-- A shorter alias of the outside is hidden by CTE joins only. -/
theorem mem_fromNames_iff (h : outerAlias.length < override.length) :
    outerAlias ∈ query.fromNames hasExtraWhere override ↔ outerAlias ∈ query.cteNames := by
  have hne : override ≠ "" := by
    rintro rfl
    exact Nat.not_lt_zero _ h
  unfold SelectQuery.fromNames
  dsimp only
  rw [rootAliasOf_override hne, if_neg (by simp [hne]), decide_eq_true hne, List.mem_append,
    List.mem_append, mem_joined_iff, List.mem_singleton]
  refine or_iff_right fun hmem => ?_
  obtain rfl | hgiven := hmem
  · exact Nat.lt_irrefl _ h
  · exact not_given_of_length (Nat.le_of_lt h) hgiven

/-- The condition of a relation filter is right if its names are not hidden. -/
theorem correlation_found_iff (relation : RelationInfo V) (hchild : override ∈ names)
    (houter : ∃ outerNames rest, outer = outerNames :: rest ∧ outerAlias ∈ outerNames)
    (h : outerAlias.length < override.length) :
    (relationCorrelation relation override outerAlias).Found (names :: outer) ↔
      outerAlias ∉ names := by
  obtain ⟨outerNames, rest, rfl, hmem⟩ := houter
  have hsimple : (⟨[(0, override), (1, outerAlias)], []⟩ : Correlation).Found
      (names :: outerNames :: rest) ↔ outerAlias ∉ names := by
    refine ⟨fun hfound => ?_, fun hnot => ⟨fun reference hreference => ?_, trivial⟩⟩
    · exact (resolve_succ_iff.mp (hfound.1 (1, outerAlias) (by simp))).1
    · simp only [List.mem_cons, List.not_mem_nil, or_false] at hreference
      obtain rfl | rfl := hreference
      · exact resolve_of_mem hchild
      · exact resolve_succ_iff.mpr ⟨hnot, resolve_of_mem hmem⟩
  -- the alias of the pivot is longer than the others
  have hpivot : ∀ {name : String}, name.length ≤ override.length →
      name ∉ [override ++ "_pivot"] := by
    intro name hname hmem
    have hlength := congrArg String.length (List.mem_singleton.mp hmem)
    rw [String.length_append] at hlength
    have : "_pivot".length = 6 := rfl
    omega
  unfold relationCorrelation
  split
  · unfold Correlation.Found
    dsimp only
    rw [hygienicAll_singleton, Block.hygienic_iff]
    refine ⟨fun hfound => ?_, fun hnot => ⟨nofun, List.nodup_singleton _,
      fun reference hreference => ?_, trivial⟩⟩
    · have hresolve := hfound.2.2.1 (2, outerAlias) (by simp)
      exact (resolve_succ_iff.mp (resolve_succ_iff.mp hresolve).2).1
    · simp only [List.mem_cons, List.not_mem_nil, or_false] at hreference
      obtain rfl | rfl := hreference
      · exact resolve_succ_iff.mpr ⟨hpivot (Nat.le_refl _), resolve_of_mem hchild⟩
      · exact resolve_succ_iff.mpr ⟨hpivot (Nat.le_of_lt h),
          resolve_succ_iff.mpr ⟨hnot, resolve_of_mem hmem⟩⟩
  · exact hsimple

/-- The condition that two rows are the same. -/
theorem sameRow_found_iff (hchild : override ∈ names)
    (houter : ∃ outerNames rest, outer = outerNames :: rest ∧ outerAlias ∈ outerNames) :
    (sameRowCorrelation override outerAlias).Found (names :: outer) ↔ outerAlias ∉ names := by
  obtain ⟨outerNames, rest, rfl, hmem⟩ := houter
  refine ⟨fun hfound => ?_, fun hnot => ⟨fun reference hreference => ?_, trivial⟩⟩
  · exact (resolve_succ_iff.mp (hfound.1 (1, outerAlias) (by simp [sameRowCorrelation]))).1
  · simp only [sameRowCorrelation, List.mem_cons, List.not_mem_nil, or_false] at hreference
    obtain rfl | rfl := hreference
    · exact resolve_of_mem hchild
    · exact resolve_succ_iff.mpr ⟨hnot, resolve_of_mem hmem⟩

end

/-! ## Queries -/

/-- An alias with a suffix is longer. -/
theorem length_rel (outerAlias : String) : outerAlias.length < (outerAlias ++ "_rel").length := by
  rw [String.length_append]
  have : "_rel".length = 4 := rfl
  omega

theorem length_every (childAlias : String) :
    childAlias.length < (childAlias ++ "_every").length := by
  rw [String.length_append]
  have : "_every".length = 6 := rfl
  omega

theorem ne_empty_of_length {outerAlias override : String}
    (h : outerAlias.length < override.length) : override ≠ "" := by
  rintro rfl
  exact Nat.not_lt_zero _ h

/-- The FROM list of a query without joins. -/
theorem fromNames_selectTarget (relation : RelationInfo V) {override : String}
    (h : override ≠ "") : (selectTarget relation).fromNames true override = [override] := by
  unfold SelectQuery.fromNames
  dsimp only
  rw [rootAliasOf_override h, if_neg (by simp [h])]
  rfl

theorem namesApart_selectTarget (relation : RelationInfo V) {override : String}
    (h : override ≠ "") : (selectTarget relation).NamesApart true override := by
  rw [← fromNames_nodup_iff, fromNames_selectTarget relation h]
  exact List.nodup_singleton _

mutual

/-- A query that a filter is about: its names, and those of its condition. -/
theorem CorrelatedQuery.hygienic_iff {override : String} (hoverride : override ≠ "")
    {outer : List (List String)} {condition : Correlation} : (query : CorrelatedQuery V) →
      ((query.block (some condition) override).Hygienic outer ↔
        query.NamesApart true override ∧
          condition.Found (query.base.fromNames true override :: outer))
  | .basic query => by
    unfold CorrelatedQuery.block CorrelatedQuery.NamesApart CorrelatedQuery.base
    exact block_hygienic_iff
  | .filtered base filters => by
    have hfilters : hygienicAll (base.fromNames true override :: outer)
        (filterBlocks override filters) ↔ filtersApart override filters :=
      filters_hygienic_iff (override_mem_fromNames hoverride) filters
    unfold CorrelatedQuery.block CorrelatedQuery.NamesApart CorrelatedQuery.base
    rw [block_hygienic_iff, rootAliasOf_override hoverride, ← hfilters]
    unfold Correlation.Found
    dsimp only [Option.getD_some]
    rw [hygienicAll_append]
    exact ⟨fun ⟨hnames, hreferences, hinner, hcondition⟩ =>
        ⟨⟨hnames, hinner⟩, hreferences, hcondition⟩,
      fun ⟨⟨hnames, hinner⟩, hreferences, hcondition⟩ =>
        ⟨hnames, hreferences, hinner, hcondition⟩⟩
termination_by query => sizeOf query

theorem filters_hygienic_iff {outerAlias : String} {names : List String}
    {outer : List (List String)} (houter : outerAlias ∈ names) :
    (filters : List (RelationFilter V)) →
      (hygienicAll (names :: outer) (filterBlocks outerAlias filters) ↔
        filtersApart outerAlias filters)
  | [] => by
    unfold filterBlocks filtersApart
    exact Iff.rfl
  | filter :: filters => by
    unfold filterBlocks filtersApart
    rw [hygienicAll, filter.hygienic_iff houter, filters_hygienic_iff houter filters]
termination_by filters => sizeOf filters

/-- A relation filter under an alias of the SELECT around it. -/
theorem RelationFilter.hygienic_iff {outerAlias : String} {names : List String}
    {outer : List (List String)} (houter : outerAlias ∈ names) : (filter : RelationFilter V) →
      ((filter.block outerAlias).Hygienic (names :: outer) ↔ filter.NamesApart outerAlias)
  | .related relation child negated => by
    have hlength := length_rel outerAlias
    have hne := ne_empty_of_length hlength
    unfold RelationFilter.block RelationFilter.NamesApart
    rw [child.hygienic_iff hne, correlation_found_iff relation (override_mem_fromNames hne)
      ⟨names, outer, rfl, houter⟩ hlength, mem_fromNames_iff hlength]
  | .every relation predicate => by
    have hlength := length_rel outerAlias
    have hne := ne_empty_of_length hlength
    have hevery := length_every (outerAlias ++ "_rel")
    have hneEvery := ne_empty_of_length hevery
    have hchild : outerAlias ++ "_rel" ∈ [outerAlias ++ "_rel"] := List.mem_cons_self
    have houterNot : outerAlias ∉ [outerAlias ++ "_rel"] := by
      intro hmem
      have := congrArg String.length (List.mem_singleton.mp hmem)
      omega
    -- the SELECT of all related rows has only the alias that the compiler gives it
    have hcorrelation : (relationCorrelation relation (outerAlias ++ "_rel") outerAlias).Found
        ([outerAlias ++ "_rel"] :: names :: outer) :=
      (correlation_found_iff relation hchild ⟨names, outer, rfl, houter⟩ hlength).mpr houterNot
    unfold RelationFilter.block RelationFilter.NamesApart
    dsimp only
    rw [block_hygienic_iff, fromNames_selectTarget relation hne]
    unfold Correlation.Found
    dsimp only
    rw [hygienicAll_append, hygienicAll_singleton, predicate.hygienic_iff hneEvery,
      sameRow_found_iff (override_mem_fromNames hneEvery) ⟨_, names :: outer, rfl, hchild⟩,
      mem_fromNames_iff hevery]
    exact ⟨fun h => h.2.2.2,
      fun h => ⟨namesApart_selectTarget relation hne, hcorrelation.1, hcorrelation.2, h⟩⟩
termination_by filter => sizeOf filter

end

/-- The alias of the root is one of the names if there is a condition. -/
theorem rootAlias_mem_fromNames (query : SelectQuery V) :
    rootAliasOf query true "" ∈ query.fromNames true "" := by
  unfold SelectQuery.fromNames
  dsimp only
  rw [if_neg]
  · exact List.mem_append_left _ (List.mem_append_left _ List.mem_cons_self)
  · intro hnone
    rw [Bool.and_eq_true, decide_eq_true_eq] at hnone
    cases (plain_of_rootAlias hnone.1 hnone.2).2.2.2

/-- A table of users. -/
def usersTable : EntityInfo := { type := 0, table := "users", columns := ["id"] }

/-- A derived table with an alias, and a join. -/
def joinedDerived (aliasName : String) : SelectQuery Nat where
  root := usersTable
  derivedSource := some { aliasName, query := { root := usersTable } }
  joins := [{ ownerType := 0, targetType := 1, targetTable := "posts", ownerColumn := "id"
              targetColumn := "user_id" }]

/-- A derived table and a join of one alias. -/
example : ((joinedDerived "t1").compile sqliteDialect).toOption.map (·.sql.render) =
    some ("SELECT \"t1\".\"id\" AS \"id\" FROM (SELECT \"id\" FROM \"users\") AS \"t1\" " ++
      "INNER JOIN \"posts\" AS \"t1\" ON \"t1\".\"id\" = \"t1\".\"user_id\";") := by decide

end MetalOrm.Native.Query
