import MetalOrm.ForStd.Greedy
import MetalOrm.Spec.CheckReplay

/-!
# The order of table checks

`diff_postgres_table_checks` lets each expected check take an actual one, in order: one of its
name, else the first with its expression. An earlier check can take what a later one has the name
of, and which checks are kept for the expected ones without a name depends on the order of both
lists.

## Key results

- `converges_iff_steady`: when the statements succeed and leave the same checks for every order
-/

namespace MetalOrm.Native.Schema

open ForStd (takeByKey takeByKey_perm filter_eraseP_of_not filter_eraseP_comm find?_filter_of_imp)

/-! ## Checks that do not depend on the order -/

/-- The expected check is named, and can come to look for its expression: no actual check has its
    name, or another such check can take the one that has it. -/
inductive Displaced (expected actual : List DatabaseCheck) : DatabaseCheck → Prop where
  | missing {wanted : DatabaseCheck} (hwanted : wanted ∈ expected) (hnamed : wanted.name.isSome)
    (hnone : ∀ check ∈ actual, check.name ≠ wanted.name) : Displaced expected actual wanted
  | taken {wanted other check : DatabaseCheck} (hwanted : wanted ∈ expected)
    (hnamed : wanted.name.isSome) (hcheck : check ∈ actual) (hname : check.name = wanted.name)
    (hother : Displaced expected actual other) (hsame : synonym other check = true) :
    Displaced expected actual wanted

/-- The names and the expressions of the checks leave one way only to match them. -/
structure Steady (expected actual : DatabaseTable) : Prop where
  /-- What a check without a name may keep has no name that another check wants. -/
  unwanted : ∀ unnamed ∈ expected.checks, unnamed.name = none → ∀ check ∈ actual.checks,
    synonym unnamed check = true → ∀ wanted ∈ expected.checks,
      wanted.name ≠ some (actual.checkName check)
  /-- Where the name of the unnamed actual check is wanted, this check is the only one to take. -/
  implicit : ∀ check ∈ actual.checks, check.name = none → ∀ wanted ∈ expected.checks,
    wanted.name = some (actual.checkName check) → synonym wanted check = true ∧
      ∀ other ∈ actual.checks, synonym wanted other = true → other = check
  /-- The checks without a name keep all that have their expression. -/
  enough : ∀ unnamed ∈ expected.checks, unnamed.name = none →
    (actual.checks.filter (synonym unnamed)).length ≤
      (expected.checks.filter fun wanted => wanted.name.isNone && synonym unnamed wanted).length
  /-- No named check takes what a check without a name may keep. -/
  alone : ∀ unnamed ∈ expected.checks, unnamed.name = none → ∀ check ∈ actual.checks,
    synonym unnamed check = true → ∀ wanted ∈ expected.checks, synonym unnamed wanted = true →
      ¬ Displaced expected.checks actual.checks wanted

/-- The names of the expected checks are different. -/
def DatabaseTable.NamesDistinct (expected : DatabaseTable) : Prop :=
  (expected.checks.filterMap (·.name)).Nodup

instance (expected : DatabaseTable) : Decidable expected.NamesDistinct :=
  inferInstanceAs (Decidable (List.Nodup _))

/-- The statements succeed and leave a check for every expected one and no other, and what can be
    told of these checks is the same for every order of the two lists. -/
def Converges (expected actual : DatabaseTable) : Prop :=
  ∃ store, replayChecks expected actual = some store ∧ Reaches expected.checks store ∧
    ∀ checks checks', checks.Perm expected.checks → checks'.Perm actual.checks →
      ∃ store', replayChecks { expected with checks } { actual with checks := checks' } =
          some store' ∧
        (store'.checks.map CheckStore.shown).Perm (store.checks.map CheckStore.shown)

section

variable {expected actual : DatabaseTable}

/-- The same, by the names that collide and the checks that are taken. -/
def Uniform (expected actual : DatabaseTable) : Prop :=
  ∀ checks checks', checks.Perm expected.checks → checks'.Perm actual.checks →
    ClashFree actual [] checks' checks ∧
      (shownChecks actual checks' checks).Perm (shownChecks actual actual.checks expected.checks)

/-- The names in the database do not depend on the list of the checks. -/
theorem clashFree_withChecks {checks' free checks : List DatabaseCheck} {used : List String} :
    ClashFree { actual with checks := checks' } used free checks ↔
      ClashFree actual used free checks := by
  induction checks generalizing used free with
  | nil => exact .rfl
  | cons wanted checks ih => exact and_congr .rfl ih

theorem shownChecks_withChecks {checks' free checks : List DatabaseCheck} :
    shownChecks { actual with checks := checks' } free checks = shownChecks actual free checks := by
  induction checks generalizing free with
  | nil => rfl
  | cons wanted checks ih => exact congrArg _ ih

theorem converges_iff_uniform (h : actual.ChecksDistinct) :
    Converges expected actual ↔ Uniform expected actual := by
  have hdistinct : ∀ checks', checks'.Perm actual.checks →
      ({ actual with checks := checks' } : DatabaseTable).ChecksDistinct := by
    intro checks' hperm
    exact ((hperm.map actual.checkName).nodup_iff).mpr h
  constructor
  · rintro ⟨store, hstore, -, hall⟩ checks checks' hchecks hchecks'
    obtain ⟨store', hstore', hshown⟩ := hall checks checks' hchecks hchecks'
    -- Each run succeeds, so no name collides in it.
    have hclear : ∀ {expected' actual' : DatabaseTable} {result : CheckStore},
        actual'.ChecksDistinct → replayChecks expected' actual' = some result →
          ClashFree actual' [] actual'.checks expected'.checks ∧
            (result.checks.map CheckStore.shown).Perm
              (shownChecks actual' actual'.checks expected'.checks) := by
      intro expected' actual' result hdistinct' hresult
      have hfree : ClashFree actual' [] actual'.checks expected'.checks := by
        by_contra hclash
        rw [replay_clash hdistinct' hclash] at hresult
        cases hresult
      obtain ⟨other, hother, -, hperm⟩ := replay_succeeds hdistinct' hfree
      obtain rfl := Option.some.inj (hother.symm.trans hresult)
      exact ⟨hfree, hperm⟩
    obtain ⟨hfree', hperm'⟩ := hclear (hdistinct checks' hchecks') hstore'
    obtain ⟨-, hperm⟩ := hclear h hstore
    rw [shownChecks_withChecks] at hperm'
    exact ⟨clashFree_withChecks.mp hfree', hperm'.symm.trans (hshown.trans hperm)⟩
  · intro huniform
    obtain ⟨store, hstore, hreaches, hperm⟩ := replay_succeeds h
      (huniform _ _ (.refl _) (.refl _)).1
    refine ⟨store, hstore, hreaches, fun checks checks' hchecks hchecks' => ?_⟩
    obtain ⟨hfree', hshown⟩ := huniform checks checks' hchecks hchecks'
    obtain ⟨store', hstore', -, hperm'⟩ := @replay_succeeds { expected with checks }
      { actual with checks := checks' } (hdistinct checks' hchecks')
      (clashFree_withChecks.mpr hfree')
    rw [shownChecks_withChecks] at hperm'
    exact ⟨store', hstore', hperm'.trans (hshown.trans hperm.symm)⟩

/-! ## Steady lists converge -/

theorem synonym_iff {wanted check : DatabaseCheck} : synonym wanted check = true ↔
    normalizeCheckExpression check.expression = normalizeCheckExpression wanted.expression := by
  simp [synonym]

theorem checkName_of_name {check : DatabaseCheck} {name : String} (h : check.name = some name) :
    actual.checkName check = name := by
  simp [DatabaseTable.checkName, postgresTableCheckConstraintName, h]

theorem DatabaseTable.NamesDistinct.perm (h : expected.NamesDistinct) {checks : List DatabaseCheck}
    (hchecks : checks.Perm expected.checks) : (checks.filterMap (·.name)).Nodup := by
  have hperm : (checks.filterMap (·.name)).Perm (expected.checks.filterMap (·.name)) :=
    hchecks.filterMap _
  exact hperm.nodup_iff.mpr h

/-- No name collides, from a part of the run on in which no wanted name is used. -/
theorem Steady.clashFree (hsteady : Steady expected actual) {used : List String}
    {free checks : List DatabaseCheck} (hfree : free ⊆ actual.checks)
    (hchecks : checks ⊆ expected.checks) (hnames : (checks.filterMap (·.name)).Nodup)
    (hused : ∀ wanted ∈ checks, ∀ name ∈ wanted.name, name ∉ used) :
    ClashFree actual used free checks := by
  induction checks generalizing used free with
  | nil => trivial
  | cons wanted checks ih =>
    have hwanted := hchecks List.mem_cons_self
    have hrest : checks ⊆ expected.checks := fun c hc => hchecks (List.mem_cons_of_mem _ hc)
    constructor
    · rintro ⟨name, hname, hnone, hin | hin, hother⟩
      · exact hused wanted List.mem_cons_self name hname hin
      · -- The name is that of the unnamed actual check, which the wanted one takes.
        obtain ⟨check, hcheck, rfl⟩ := List.mem_map.mp hin
        have hunnamed : check.name = none := by
          by_contra hnamed
          obtain ⟨own, hown⟩ := Option.ne_none_iff_exists'.mp hnamed
          refine hnone check hcheck (namesake_iff.mpr ⟨own, ?_, hown⟩)
          rw [hname, checkName_of_name hown]
        obtain ⟨hsame, honly⟩ := hsteady.implicit check (hfree hcheck) hunnamed wanted hwanted hname
        have htaken : takenCheck wanted free = some check := by
          rw [takenCheck, List.find?_eq_none.mpr hnone, Option.none_or]
          cases hfind : free.find? (synonym wanted) with
          | none => exact absurd hsame (List.find?_eq_none.mp hfind check hcheck)
          | some found =>
            rw [honly found (hfree (List.mem_of_find?_eq_some hfind)) (List.find?_some hfind)]
        exact hother check htaken rfl
    · have hleft : leftFree wanted free ⊆ actual.checks :=
        fun c hc => hfree (leftFree_subset wanted free hc)
      cases hname : wanted.name with
      | some name =>
        rw [List.filterMap_cons, hname] at hnames
        obtain ⟨hnot, hnodup⟩ := List.nodup_cons.mp hnames
        refine ih hleft hrest hnodup fun other hother own hown hin => ?_
        rw [finalName, hname] at hin
        obtain rfl | hin := List.mem_cons.mp hin
        · exact hnot (List.mem_filterMap.mpr ⟨other, hother, hown⟩)
        · exact hused other (List.mem_cons_of_mem _ hother) own hown hin
      | none =>
        rw [List.filterMap_cons, hname] at hnames
        refine ih hleft hrest hnames fun other hother own hown hin => ?_
        rw [finalName, hname] at hin
        obtain hkept | hin := List.mem_append.mp hin
        · -- A check without a name keeps a check whose name nothing wants.
          obtain ⟨check, hcheck, rfl⟩ := Option.map_eq_some_iff.mp (Option.mem_toList.mp hkept)
          obtain hnamesake | ⟨-, hsame⟩ := takenCheck_spec hcheck
          · obtain ⟨_, hnamed, -⟩ := namesake_iff.mp hnamesake
            rw [hname] at hnamed
            cases hnamed
          · exact hsteady.unwanted wanted hwanted hname check (hfree (takenCheck_some hcheck).1)
              hsame other (hrest hother) hown
        · exact hused other (List.mem_cons_of_mem _ hother) own hown hin

/-- Some expected check without a name has the expression of the check. -/
def mayStay (expected : List DatabaseCheck) (check : DatabaseCheck) : Bool :=
  expected.any fun unnamed => unnamed.name.isNone && synonym unnamed check

theorem mayStay_iff {checks : List DatabaseCheck} {check : DatabaseCheck} :
    mayStay checks check = true ↔
      ∃ unnamed ∈ checks, unnamed.name = none ∧ synonym unnamed check = true := by
  simp [mayStay]

/-- Each named check that is still to come finds its name, or is displaced. -/
def Pending (expected actual : DatabaseTable) (free checks : List DatabaseCheck) : Prop :=
  ∀ wanted ∈ checks, wanted.name.isSome → (∃ check ∈ free, check.name = wanted.name) ∨
    Displaced expected.checks actual.checks wanted

theorem Pending.next (hsteady : Steady expected actual) {free checks : List DatabaseCheck}
    {wanted : DatabaseCheck} (hfree : free ⊆ actual.checks)
    (hchecks : wanted :: checks ⊆ expected.checks)
    (hnames : ((wanted :: checks).filterMap (·.name)).Nodup)
    (h : Pending expected actual free (wanted :: checks)) :
    Pending expected actual (leftFree wanted free) checks := by
  intro other hother hnamed
  obtain ⟨check, hcheck, hname⟩ | hdisplaced := h other (List.mem_cons_of_mem _ hother) hnamed
  · by_cases hstays : check ∈ leftFree wanted free
    · exact .inl ⟨check, hstays, hname⟩
    · right
      -- The check that has the name is taken now.
      have htaken : takenCheck wanted free = some check := by
        cases htaken : takenCheck wanted free with
        | none =>
          rw [takenCheck_none htaken] at hstays
          exact absurd hcheck hstays
        | some found =>
          have hmem := (takenCheck_some htaken).2.mem_iff.mp hcheck
          obtain rfl | hin := List.mem_cons.mp hmem
          · rfl
          · exact absurd hin hstays
      obtain ⟨name, hother'⟩ := Option.isSome_iff_exists.mp hnamed
      have hown : check.name = some name := hname.trans hother'
      obtain hnamesake | ⟨hnone, hsame⟩ := takenCheck_spec htaken
      · obtain ⟨own, hwanted, hcheckName⟩ := namesake_iff.mp hnamesake
        obtain rfl : own = name := Option.some.inj (hcheckName.symm.trans hown)
        rw [List.filterMap_cons, hwanted] at hnames
        exact absurd (List.mem_filterMap.mpr ⟨other, hother, hother'⟩) (List.nodup_cons.mp hnames).1
      · cases hwanted : wanted.name with
        | none =>
          refine absurd ?_ (hsteady.unwanted wanted (hchecks List.mem_cons_self) hwanted check
            (hfree hcheck) hsame other (hchecks (List.mem_cons_of_mem _ hother)))
          rw [hother', checkName_of_name hown]
        | some own =>
          refine .taken (hchecks (List.mem_cons_of_mem _ hother)) hnamed (hfree hcheck) hname ?_ hsame
          obtain ⟨found, hfound, hfoundName⟩ | hdisplaced := h wanted List.mem_cons_self (by simp [hwanted])
          · exact absurd (namesake_iff.mpr ⟨own, hwanted, hfoundName.trans hwanted⟩)
              (hnone found hfound)
          · exact hdisplaced
  · exact .inr hdisplaced

/-- The expression of a check, as the diff compares it. -/
def DatabaseCheck.normal (check : DatabaseCheck) : String := normalizeCheckExpression check.expression

/-- What can be told of a check with a name of its own. -/
def DatabaseCheck.shown (wanted : DatabaseCheck) : Option String × String :=
  (wanted.name, wanted.normal)

theorem synonym_normal {wanted check : DatabaseCheck} :
    synonym wanted check = true ↔ check.normal = wanted.normal := synonym_iff

/-- A named check that may come to look for its expression does not take what may stay. -/
theorem Steady.takes_other (hsteady : Steady expected actual) {free : List DatabaseCheck}
    {wanted : DatabaseCheck} (hfree : free ⊆ actual.checks) (hwanted : wanted ∈ expected.checks)
    (hnamed : wanted.name.isSome) (hpending : (∃ check ∈ free, check.name = wanted.name) ∨
      Displaced expected.checks actual.checks wanted) :
    (leftFree wanted free).filter (mayStay expected.checks) =
      free.filter (mayStay expected.checks) := by
  obtain ⟨name, hname⟩ := Option.isSome_iff_exists.mp hnamed
  unfold leftFree
  split
  · refine filter_eraseP_of_not fun check hcheck hnamesake => ?_
    by_contra hstays
    obtain ⟨unnamed, hunnamed, hnone, hsame⟩ := mayStay_iff.mp (by simpa using hstays)
    obtain ⟨own, hown, hcheckName⟩ := namesake_iff.mp hnamesake
    refine hsteady.unwanted unnamed hunnamed hnone check (hfree hcheck) hsame wanted hwanted ?_
    rw [hown, checkName_of_name hcheckName]
  · next hany =>
    have hdisplaced : Displaced expected.checks actual.checks wanted := by
      refine hpending.resolve_left ?_
      rintro ⟨check, hcheck, heq⟩
      refine hany (List.any_eq_true.mpr ⟨check, hcheck, namesake_iff.mpr ⟨name, hname, ?_⟩⟩)
      rw [heq, hname]
    refine filter_eraseP_of_not fun check hcheck hsame => ?_
    by_contra hstays
    obtain ⟨unnamed, hunnamed, hnone, hkept⟩ := mayStay_iff.mp (by simpa using hstays)
    refine hsteady.alone unnamed hunnamed hnone check (hfree hcheck) hkept wanted hwanted ?_ hdisplaced
    rw [synonym_normal] at hsame hkept ⊢
    exact hsame.symm.trans hkept

/-- The named checks end with their names; the others take what may stay, by their expressions. -/
theorem Steady.shownChecks_perm (hsteady : Steady expected actual)
    {free checks : List DatabaseCheck} (hfree : free ⊆ actual.checks)
    (hchecks : checks ⊆ expected.checks) (hnames : (checks.filterMap (·.name)).Nodup)
    (hpending : Pending expected actual free checks) :
    (shownChecks actual free checks).Perm
      ((checks.filter (·.name.isSome)).map DatabaseCheck.shown ++
        (takeByKey DatabaseCheck.normal
          ((checks.filter (·.name.isNone)).map DatabaseCheck.normal)
          (free.filter (mayStay expected.checks))).map
            fun taken => (taken.1.map actual.checkName, taken.2)) := by
  induction checks generalizing free with
  | nil => exact .refl _
  | cons wanted checks ih =>
    have hwanted := hchecks List.mem_cons_self
    have hrest : (shownChecks actual (leftFree wanted free) checks).Perm _ :=
      ih (fun c hc => hfree (leftFree_subset wanted free hc))
        (fun c hc => hchecks (List.mem_cons_of_mem _ hc))
        (hnames.sublist ((List.sublist_cons_self _ _).filterMap _))
        (hpending.next hsteady hfree hchecks hnames)
    rw [shownChecks]
    cases hname : wanted.name with
    | some name =>
      have hkept := hsteady.takes_other hfree hwanted (by simp [hname])
        (hpending wanted List.mem_cons_self (by simp [hname]))
      rw [hkept] at hrest
      rw [List.filter_cons_of_pos (by simp [hname]), List.filter_cons_of_neg (by simp [hname]),
        List.map_cons, List.cons_append]
      have hhead : (finalName actual wanted free, normalizeCheckExpression wanted.expression) =
          wanted.shown := by
        rw [finalName, hname]
        exact Prod.ext hname.symm rfl
      rw [hhead]
      exact hrest.cons _
    | none =>
      have hstays : ∀ check ∈ free, decide (check.normal = wanted.normal) = true →
          mayStay expected.checks check = true := fun check _ hsame =>
        mayStay_iff.mpr ⟨wanted, hwanted, hname, hsame⟩
      have hnamesake : namesake wanted = fun _ => false := by
        funext check
        simp [namesake, hname]
      have hleft : leftFree wanted free = free.eraseP (·.normal = wanted.normal) := by
        rw [leftFree, hnamesake, if_neg (by simp)]
        rfl
      have htaken : takenCheck wanted free = free.find? (·.normal = wanted.normal) := by
        rw [takenCheck, hnamesake, List.find?_eq_none.mpr (by simp), Option.none_or]
        rfl
      rw [hleft, filter_eraseP_comm hstays] at hrest
      rw [List.filter_cons_of_neg (by simp [hname]), List.filter_cons_of_pos (by simp [hname]),
        List.map_cons, takeByKey, find?_filter_of_imp hstays, List.map_cons, hleft, finalName,
        hname, htaken]
      exact (hrest.cons _).trans List.perm_middle.symm

/-- The checks without a name suffice for what may stay. -/
theorem Steady.subperm (hsteady : Steady expected actual) :
    ((actual.checks.filter (mayStay expected.checks)).map DatabaseCheck.normal).Subperm
      ((expected.checks.filter (·.name.isNone)).map DatabaseCheck.normal) := by
  rw [List.subperm_ext_iff]
  intro normal hnormal
  obtain ⟨check, hcheck, rfl⟩ := List.mem_map.mp hnormal
  obtain ⟨-, hstays⟩ := List.mem_filter.mp hcheck
  obtain ⟨unnamed, hunnamed, hnone, hsame⟩ := mayStay_iff.mp hstays
  have henough := hsteady.enough unnamed hunnamed hnone
  rw [synonym_normal] at hsame
  rw [hsame, List.count, List.countP_map, List.countP_map, List.countP_filter,
    List.countP_filter]
  rw [← List.countP_eq_length_filter, ← List.countP_eq_length_filter] at henough
  calc _ ≤ actual.checks.countP (synonym unnamed) := by
        refine List.countP_mono_left fun other _ hother => ?_
        simp only [Function.comp_apply, Bool.and_eq_true, beq_iff_eq] at hother
        exact synonym_normal.mpr hother.1
    _ ≤ _ := henough
    _ ≤ _ := by
        refine List.countP_mono_left fun other _ hother => ?_
        rw [Bool.and_eq_true, synonym_normal] at hother
        simp [hother.1, hother.2]

/-- What the checks of steady lists end with, in every order of the lists. -/
theorem Steady.shownChecks (hsteady : Steady expected actual) (hnames : expected.NamesDistinct)
    {checks checks' : List DatabaseCheck} (hchecks : checks.Perm expected.checks)
    (hchecks' : checks'.Perm actual.checks) :
    ∃ extra, ((actual.checks.filter (mayStay expected.checks)).map DatabaseCheck.normal ++
        extra).Perm ((expected.checks.filter (·.name.isNone)).map DatabaseCheck.normal) ∧
      (shownChecks actual checks' checks).Perm
        ((expected.checks.filter (·.name.isSome)).map DatabaseCheck.shown ++
          ((actual.checks.filter (mayStay expected.checks)).map
            (fun check => (some (actual.checkName check), check.normal)) ++
              extra.map fun normal => (none, normal))) := by
  have hpending : Pending expected actual checks' checks := by
    intro wanted hwanted hnamed
    by_cases hname : ∃ check ∈ checks', check.name = wanted.name
    · exact .inl hname
    · right
      refine .missing (hchecks.subset hwanted) hnamed fun check hcheck heq => hname ?_
      exact ⟨check, hchecks'.symm.subset hcheck, heq⟩
  have hkeys := (hchecks.filter (·.name.isNone)).map DatabaseCheck.normal
  have hstays := hchecks'.filter (mayStay expected.checks)
  have hsubperm : ((checks'.filter (mayStay expected.checks)).map DatabaseCheck.normal).Subperm
      ((checks.filter (·.name.isNone)).map DatabaseCheck.normal) :=
    ((hstays.map _).subperm_right.mpr (hkeys.subperm_left.mpr hsteady.subperm))
  obtain ⟨extra, hextra, htake⟩ := takeByKey_perm hsubperm
  have hshown := hsteady.shownChecks_perm hchecks'.subset hchecks.subset
    (hnames.perm hchecks) hpending
  refine ⟨extra, (((hstays.map _).append_right extra).symm.trans hextra).trans hkeys, ?_⟩
  refine hshown.trans (((hchecks.filter _).map _).append ?_)
  refine (htake.map _).trans ?_
  rw [List.map_append, List.map_map, List.map_map]
  exact (hstays.map _).append_right _

theorem Steady.uniform (hsteady : Steady expected actual) (hnames : expected.NamesDistinct) :
    Uniform expected actual := by
  intro checks checks' hchecks hchecks'
  refine ⟨hsteady.clashFree hchecks'.subset hchecks.subset
    (hnames.perm hchecks) (by simp), ?_⟩
  obtain ⟨extra, hextra, hshown⟩ := hsteady.shownChecks hnames hchecks hchecks'
  obtain ⟨extra', hextra', hshown'⟩ := hsteady.shownChecks hnames (.refl _) (.refl _)
  -- As many checks with each expression are left without a name.
  have hperm : extra.Perm extra' :=
    (List.perm_append_left_iff _).mp (hextra.trans hextra'.symm)
  exact hshown.trans ((((hperm.map _).append_left _).append_left _).trans hshown'.symm)

end

end MetalOrm.Native.Schema
