import MetalOrm.Spec.CheckOrder

/-!
# Table checks that converge

Where the names and the expressions of the checks leave another way to match them, an order of the
two lists is given in which a name collides, or in which another check is kept.

## Key results

- `converges_iff_steady`: when the statements succeed and leave the same checks for every order
-/

namespace MetalOrm.Native.Schema

open ForStd (exists_front)

section

variable {expected actual : DatabaseTable} {free checks : List DatabaseCheck}
  {wanted unnamed check : DatabaseCheck}

/-! ## Names that tell the checks -/

theorem DatabaseTable.ChecksDistinct.perm (h : actual.ChecksDistinct)
    (hchecks : checks.Perm actual.checks) : (checks.map actual.checkName).Nodup :=
  (hchecks.map actual.checkName).nodup_iff.mpr h

theorem DatabaseTable.ChecksDistinct.inj (h : actual.ChecksDistinct) {other : DatabaseCheck}
    (hcheck : check ∈ actual.checks) (hother : other ∈ actual.checks)
    (heq : actual.checkName check = actual.checkName other) : check = other :=
  List.inj_on_of_nodup_map h hcheck hother heq

theorem DatabaseTable.NamesDistinct.inj (h : expected.NamesDistinct) {other : DatabaseCheck}
    {name : String} (hwanted : wanted ∈ expected.checks) (hother : other ∈ expected.checks)
    (hname : wanted.name = some name) (hname' : other.name = some name) : wanted = other := by
  by_contra hne
  have hpairwise := List.pairwise_filterMap.mp h
  have hsymm : Std.Symm fun a b : DatabaseCheck =>
      ∀ n, a.name = some n → ∀ n', b.name = some n' → n ≠ n' :=
    ⟨fun a b hab n hn n' hn' heq => hab n' hn' n hn heq.symm⟩
  exact hpairwise.forall hwanted hother hne name hname name hname' rfl

theorem not_namesake (hname : wanted.name = none) (check : DatabaseCheck) :
    ¬ namesake wanted check = true := by
  simp [namesake, hname]

/-- Without a namesake the first check with the wanted expression is taken. -/
theorem takes_first (hnone : ∀ other ∈ check :: free, ¬ namesake wanted other = true)
    (hsame : synonym wanted check = true) :
    takenCheck wanted (check :: free) = some check ∧ leftFree wanted (check :: free) = free := by
  constructor
  · rw [takenCheck, List.find?_eq_none.mpr hnone, Option.none_or, List.find?_cons_of_pos hsame]
  · have hany : ¬ (check :: free).any (namesake wanted) = true := by
      rw [List.any_eq_true]
      rintro ⟨other, hother, hnamesake⟩
      exact hnone other hother hnamesake
    rw [leftFree, if_neg hany, List.eraseP_cons_of_pos hsame]

/-! ## What is shown in the end -/

/-- The checks that are free behind some expected ones. -/
def freeAfter (free checks : List DatabaseCheck) : List DatabaseCheck :=
  checks.foldl (fun free wanted => leftFree wanted free) free

theorem shownChecks_append (first second : List DatabaseCheck) :
    shownChecks actual free (first ++ second) =
      shownChecks actual free first ++ shownChecks actual (freeAfter free first) second := by
  induction first generalizing free with
  | nil => rfl
  | cons wanted first ih =>
    rw [List.cons_append, shownChecks, shownChecks, ih]
    rfl

/-- A name in the end is wanted, or it is that of a check which an unnamed one keeps. -/
theorem name_of_mem_shownChecks {name expression : String}
    (h : (some name, expression) ∈ shownChecks actual free checks) :
    (∃ wanted ∈ checks, wanted.name = some name) ∨
      (∃ unnamed ∈ checks, unnamed.name = none) ∧
        ∃ check ∈ free, actual.checkName check = name := by
  induction checks generalizing free with
  | nil => cases h
  | cons wanted checks ih =>
    obtain heq | hin := List.mem_cons.mp h
    · have hfinal : finalName actual wanted free = some name := (congrArg Prod.fst heq).symm
      unfold finalName at hfinal
      split at hfinal
      · next own hown => exact .inl ⟨wanted, List.mem_cons_self, hown.trans hfinal⟩
      · next hnone =>
        obtain ⟨check, htaken, hname⟩ := Option.map_eq_some_iff.mp hfinal
        exact .inr ⟨⟨wanted, List.mem_cons_self, hnone⟩, check, (takenCheck_some htaken).1, hname⟩
    · obtain ⟨other, hother, hname⟩ | ⟨⟨unnamed, hunnamed, hnone⟩, check, hcheck, hname⟩ := ih hin
      · exact .inl ⟨other, List.mem_cons_of_mem _ hother, hname⟩
      · exact .inr ⟨⟨unnamed, List.mem_cons_of_mem _ hunnamed, hnone⟩, check,
          leftFree_subset wanted free hcheck, hname⟩

/-- Entries of one expression whose names nothing wants are those of checks without a name. -/
theorem countP_shownChecks {p : Option String × String → Bool} {q : DatabaseCheck → Bool}
    (hnamed : ∀ wanted ∈ checks, wanted.name.isSome → p wanted.shown = false)
    (hunnamed : ∀ unnamed ∈ checks, unnamed.name = none → ∀ name,
      p (name, unnamed.normal) = true → q unnamed = true) :
    (shownChecks actual free checks).countP p ≤ checks.countP q := by
  induction checks generalizing free with
  | nil => exact Nat.le_refl 0
  | cons wanted checks ih =>
    have hrest : (shownChecks actual (leftFree wanted free) checks).countP p ≤ checks.countP q :=
      ih (fun c hc => hnamed c (List.mem_cons_of_mem _ hc))
        (fun c hc => hunnamed c (List.mem_cons_of_mem _ hc))
    rw [shownChecks, List.countP_cons, List.countP_cons]
    refine Nat.add_le_add hrest ?_
    split
    · next hp =>
      cases hname : wanted.name with
      | some name =>
        have hshown : finalName actual wanted free = wanted.name := by rw [finalName, hname]
        rw [hshown] at hp
        have hnot : p wanted.shown = false := hnamed wanted List.mem_cons_self (by simp [hname])
        exact absurd hp (Bool.not_eq_true _ |>.mpr hnot)
      | none => rw [if_pos (hunnamed wanted List.mem_cons_self hname _ hp)]
    · exact Nat.zero_le _

/-! ## Where the order would matter -/

/-- A check that an unnamed one can keep is kept in every order. -/
theorem Uniform.keeps (huniform : Uniform expected actual) (hunnamed : unnamed ∈ expected.checks)
    (hnone : unnamed.name = none) (hcheck : check ∈ actual.checks)
    (hsame : synonym unnamed check = true) :
    (some (actual.checkName check), unnamed.normal) ∈
      shownChecks actual actual.checks expected.checks := by
  obtain ⟨rest, hrest⟩ := @exists_front _ expected.checks [unnamed] (by simp) (by simp [hunnamed])
  obtain ⟨rest', hrest'⟩ := @exists_front _ actual.checks [check] (by simp) (by simp [hcheck])
  have htaken := (@takes_first rest' unnamed check (fun _ _ => not_namesake hnone _) hsame).1
  refine (huniform _ _ hrest hrest').2.subset (List.mem_cons.mpr (.inl ?_))
  have hfinal : finalName actual unnamed (check :: rest') = some (actual.checkName check) := by
    rw [finalName, hnone, htaken]
    rfl
  exact Prod.ext hfinal.symm rfl

variable (h : actual.ChecksDistinct) (huniform : Uniform expected actual)

include h huniform

theorem Uniform.unwanted (hunnamed : unnamed ∈ expected.checks) (hnone : unnamed.name = none)
    (hcheck : check ∈ actual.checks) (hsame : synonym unnamed check = true)
    (hwanted : wanted ∈ expected.checks) : wanted.name ≠ some (actual.checkName check) := by
  intro hname
  -- The unnamed check keeps the name, and then the named one comes.
  have hne : unnamed ≠ wanted := by
    rintro rfl
    rw [hnone] at hname
    cases hname
  obtain ⟨rest, hrest⟩ := @exists_front _ expected.checks [unnamed, wanted] (by simpa using hne)
    (by simp [hunnamed, hwanted])
  obtain ⟨rest', hrest'⟩ := @exists_front _ actual.checks [check] (by simp) (by simp [hcheck])
  have hothers := (List.nodup_cons.mp (h.perm hrest')).1
  have hother : ∀ other ∈ rest', actual.checkName other ≠ actual.checkName check :=
    fun other hother heq => hothers (List.mem_map.mpr ⟨other, hother, heq⟩)
  obtain ⟨htaken, hleft⟩ := @takes_first rest' unnamed check (fun _ _ => not_namesake hnone _) hsame
  have hclear : ¬ Clash actual ((finalName actual unnamed (check :: rest')).toList ++ [])
      (leftFree unnamed (check :: rest')) wanted := (huniform _ _ hrest hrest').1.2.1
  rw [hleft, finalName, hnone, htaken] at hclear
  refine hclear ⟨_, hname, ?_, .inl (by simp), ?_⟩
  · intro other hin hnamesake
    obtain ⟨own, hown, hname'⟩ := namesake_iff.mp hnamesake
    refine hother other hin ?_
    rw [checkName_of_name hname']
    exact Option.some.inj (hown.symm.trans hname)
  · exact fun other hin => hother other (takenCheck_some hin).1

theorem Uniform.implicit (hcheck : check ∈ actual.checks) (hunnamed : check.name = none)
    (hwanted : wanted ∈ expected.checks) (hname : wanted.name = some (actual.checkName check)) :
    synonym wanted check = true ∧
      ∀ other ∈ actual.checks, synonym wanted other = true → other = check := by
  obtain ⟨rest, hrest⟩ := @exists_front _ expected.checks [wanted] (by simp) (by simp [hwanted])
  -- No actual check has the name for its own.
  have hnone : ∀ other ∈ actual.checks, ¬ namesake wanted other = true := by
    intro other hother hnamesake
    obtain ⟨own, hown, hname'⟩ := namesake_iff.mp hnamesake
    have heq : other = check := by
      refine h.inj hother hcheck ?_
      rw [checkName_of_name hname']
      exact Option.some.inj (hown.symm.trans hname)
    rw [heq, hunnamed] at hname'
    cases hname'
  have htakes : ∀ checks', checks'.Perm actual.checks → takenCheck wanted checks' = some check := by
    intro checks' hchecks'
    have hclear : ¬ Clash actual [] checks' wanted := (huniform _ _ hrest hchecks').1.1
    by_contra htaken
    refine hclear ⟨_, hname, fun other hother => hnone other (hchecks'.subset hother),
      .inr (List.mem_map_of_mem (hchecks'.symm.subset hcheck)), fun other hother heq => htaken ?_⟩
    rw [← h.inj (hchecks'.subset (takenCheck_some hother).1) hcheck heq]
    exact hother
  have hsynonym : ∀ {checks'}, checks'.Perm actual.checks → takenCheck wanted checks' = some check →
      synonym wanted check = true := by
    intro checks' hchecks' htaken
    obtain hnamesake | ⟨-, hsame⟩ := takenCheck_spec htaken
    · exact absurd hnamesake (hnone check hcheck)
    · exact hsame
  refine ⟨hsynonym (.refl _) (htakes _ (.refl _)), fun other hother hsame => ?_⟩
  -- Another check with the expression is taken when it comes first.
  obtain ⟨rest', hrest'⟩ := @exists_front _ actual.checks [other] (by simp) (by simp [hother])
  have hfirst := (@takes_first rest' wanted other
    (fun c hc => hnone c (hrest'.subset hc)) hsame).1
  exact Option.some.inj (hfirst.symm.trans (htakes _ hrest'))

theorem Uniform.enough (hunnamed : unnamed ∈ expected.checks) (hnone : unnamed.name = none) :
    (actual.checks.filter (synonym unnamed)).length ≤
      (expected.checks.filter fun wanted => wanted.name.isNone && synonym unnamed wanted).length := by
  let p : Option String × String → Bool := fun entry => entry.2 = unnamed.normal &&
    !expected.checks.any fun wanted => wanted.name.isSome && wanted.name = entry.1
  let kept := ((actual.checks.filter (synonym unnamed)).map actual.checkName).map
    fun name => (some name, unnamed.normal)
  have hnodup : kept.Nodup := by
    have hnames : ((actual.checks.filter (synonym unnamed)).map actual.checkName).Nodup :=
      h.sublist (List.filter_sublist.map _)
    exact hnames.map fun _ _ heq => Option.some.inj (congrArg Prod.fst heq)
  have hsubset : kept ⊆ (shownChecks actual actual.checks expected.checks).filter p := by
    intro entry hentry
    obtain ⟨_, hname, rfl⟩ := List.mem_map.mp hentry
    obtain ⟨check, hin, rfl⟩ := List.mem_map.mp hname
    obtain ⟨hcheck, hsame⟩ := List.mem_filter.mp hin
    refine List.mem_filter.mpr ⟨huniform.keeps hunnamed hnone hcheck hsame, ?_⟩
    simp only [p, decide_true, Bool.true_and, Bool.not_eq_true', List.any_eq_false,
      Bool.and_eq_true, decide_eq_true_eq, not_and]
    exact fun wanted hwanted _ =>
      huniform.unwanted h hunnamed hnone hcheck hsame hwanted
  have hlength : kept.length = (actual.checks.filter (synonym unnamed)).length := by
    simp [kept]
  calc _ = kept.length := hlength.symm
    _ ≤ ((shownChecks actual actual.checks expected.checks).filter p).length :=
        (List.subperm_of_subset hnodup hsubset).length_le
    _ = (shownChecks actual actual.checks expected.checks).countP p :=
        List.countP_eq_length_filter.symm
    _ ≤ expected.checks.countP fun wanted => wanted.name.isNone && synonym unnamed wanted := by
        refine countP_shownChecks ?_ ?_
        · intro wanted hwanted hnamed
          have hany : (expected.checks.any fun other =>
              other.name.isSome && other.name = wanted.shown.1) = true :=
            List.any_eq_true.mpr ⟨wanted, hwanted, by simp [hnamed, DatabaseCheck.shown]⟩
          simp only [p, hany, Bool.not_true, Bool.and_false]
        · intro other _ hother name hp
          have hnormal : other.normal = unnamed.normal := by
            simpa using (Bool.and_eq_true_iff.mp hp).1
          rw [hother, synonym_normal.mpr hnormal]
          rfl
    _ = _ := List.countP_eq_length_filter

omit h huniform

/-! ## Checks that displace each other -/

/-- Expected checks with the actual ones that they take by their expressions, the last ones first:
    each takes what the next one has the name of, and the given check comes behind them. -/
inductive Line (expected actual : List DatabaseCheck) :
    List (DatabaseCheck × DatabaseCheck) → DatabaseCheck → Prop where
  | missing {wanted : DatabaseCheck} (hwanted : wanted ∈ expected) (hnamed : wanted.name.isSome)
    (hnone : ∀ check ∈ actual, check.name ≠ wanted.name) : Line expected actual [] wanted
  | taken {wanted other check : DatabaseCheck} {steps : List (DatabaseCheck × DatabaseCheck)}
    (hwanted : wanted ∈ expected) (hnamed : wanted.name.isSome) (hcheck : check ∈ actual)
    (hname : check.name = wanted.name) (hother : Line expected actual steps other)
    (hsame : synonym other check = true) : Line expected actual ((other, check) :: steps) wanted

section

variable {steps : List (DatabaseCheck × DatabaseCheck)}

theorem Line.named (hline : Line expected.checks actual.checks steps wanted) :
    ∀ other ∈ wanted :: steps.map Prod.fst, other ∈ expected.checks ∧ other.name.isSome := by
  induction hline with
  | missing hwanted hnamed _ =>
    intro other hother
    rw [List.mem_singleton.mp hother]
    exact ⟨hwanted, hnamed⟩
  | taken hwanted hnamed _ _ _ _ ih =>
    intro other hother
    obtain rfl | hin := List.mem_cons.mp hother
    · exact ⟨hwanted, hnamed⟩
    · exact ih other hin

/-- What is taken has the name of the check that comes next. -/
theorem Line.names (hline : Line expected.checks actual.checks steps wanted) :
    (∀ check ∈ steps.map Prod.snd, check ∈ actual.checks) ∧
      (steps.map Prod.snd).map (·.name) = ((wanted :: steps.map Prod.fst).map (·.name)).dropLast := by
  induction hline with
  | missing _ _ _ => exact ⟨by simp, rfl⟩
  | taken _ _ hcheck hname _ _ ih =>
    refine ⟨List.forall_mem_cons.mpr ⟨hcheck, ih.1⟩, ?_⟩
    simp only [List.map_cons, List.dropLast_cons_cons, hname] at ih ⊢
    rw [ih.2]

/-- A check on the line ends a part of it. -/
theorem Line.part (hline : Line expected.checks actual.checks steps wanted)
    {other : DatabaseCheck} (hother : other ∈ steps.map Prod.fst) :
    ∃ part, Line expected.checks actual.checks part other ∧
      (other :: part.map Prod.fst).Sublist (steps.map Prod.fst) := by
  induction hline with
  | missing _ _ _ => cases hother
  | @taken wanted last check steps _ _ _ _ hlast _ ih =>
    obtain rfl | hin := List.mem_cons.mp hother
    · exact ⟨steps, hlast, .refl _⟩
    · obtain ⟨part, hpart, hsublist⟩ := ih hin
      exact ⟨part, hpart, hsublist.cons _⟩

/-- A displaced check ends a line on which no check comes twice. -/
theorem Displaced.line (hdisplaced : Displaced expected.checks actual.checks wanted) :
    ∃ steps, Line expected.checks actual.checks steps wanted ∧
      (wanted :: steps.map Prod.fst).Nodup := by
  induction hdisplaced with
  | missing hwanted hnamed hnone => exact ⟨[], .missing hwanted hnamed hnone, by simp⟩
  | @taken wanted other check hwanted hnamed hcheck hname _ hsame ih =>
    obtain ⟨steps, hline, hnodup⟩ := ih
    by_cases hin : wanted ∈ other :: steps.map Prod.fst
    · -- The line has come by the check before: the part up to there will do.
      obtain rfl | hin := List.mem_cons.mp hin
      · exact ⟨steps, hline, hnodup⟩
      · obtain ⟨part, hpart, hsublist⟩ := hline.part hin
        exact ⟨part, hpart, (List.nodup_cons.mp hnodup).2.sublist hsublist⟩
    · exact ⟨(other, check) :: steps, .taken hwanted hnamed hcheck hname hline hsame,
        List.nodup_cons.mpr ⟨hin, hnodup⟩⟩

/-- The checks on the line take theirs, and no check is left with the name that comes next. -/
theorem Line.run (hline : Line expected.checks actual.checks steps wanted)
    (h : actual.ChecksDistinct) {rest : List DatabaseCheck}
    (hperm : ((steps.map Prod.snd).reverse ++ rest).Perm actual.checks) :
    freeAfter ((steps.map Prod.snd).reverse ++ rest) (steps.map Prod.fst).reverse = rest ∧
      ∀ check ∈ rest, check.name ≠ wanted.name := by
  induction hline generalizing rest with
  | missing _ _ hnone => exact ⟨rfl, fun check hcheck => hnone check (hperm.subset hcheck)⟩
  | @taken wanted other check steps _ hnamed _ hname _ hsame ih =>
    simp only [List.map_cons, List.reverse_cons, List.append_assoc, List.singleton_append] at hperm ⊢
    obtain ⟨hfree, hnone⟩ := ih hperm
    have hfirst := @takes_first rest other check
      (fun c hc hnamesake => by
        obtain ⟨name, hown, hname'⟩ := namesake_iff.mp hnamesake
        exact hnone c hc (hname'.trans hown.symm)) hsame
    constructor
    · unfold freeAfter at hfree ⊢
      rw [List.foldl_append, hfree]
      exact hfirst.2
    · intro c hc heq
      -- The name is that of the check which is taken.
      obtain ⟨name, hwanted⟩ := Option.isSome_iff_exists.mp hnamed
      have hnodup : ((check :: rest).map actual.checkName).Nodup :=
        (h.perm hperm).sublist ((List.sublist_append_right _ _).map _)
      refine (List.nodup_cons.mp hnodup).1 (List.mem_map.mpr ⟨c, hc, ?_⟩)
      rw [checkName_of_name (heq.trans hwanted), checkName_of_name (hname.trans hwanted)]

end

theorem Uniform.alone (h : actual.ChecksDistinct) (hnames : expected.NamesDistinct)
    (huniform : Uniform expected actual) (hunnamed : unnamed ∈ expected.checks)
    (hnone : unnamed.name = none) (hcheck : check ∈ actual.checks)
    (hsame : synonym unnamed check = true) (hwanted : synonym unnamed wanted = true) :
    ¬ Displaced expected.checks actual.checks wanted := by
  intro hdisplaced
  obtain ⟨steps, hline, hnodup⟩ := hdisplaced.line
  have hnamed := hline.named
  obtain ⟨htaken, hdrop⟩ := hline.names
  have hunwanted : ∀ other ∈ expected.checks, other.name ≠ some (actual.checkName check) :=
    fun other hother => huniform.unwanted h hunnamed hnone hcheck hsame hother
  -- The expected checks come along the line, and the actual ones as they are taken.
  obtain ⟨rest, hrest⟩ := @exists_front _ expected.checks (wanted :: steps.map Prod.fst) hnodup
    fun other hother => (hnamed other hother).1
  have hfront : (check :: steps.map Prod.snd).Nodup := by
    have hname : ∀ other ∈ steps.map Prod.snd,
        ∃ named ∈ wanted :: steps.map Prod.fst, named.name = other.name := by
      intro other hother
      have hin := @List.mem_map_of_mem _ _ _ _ DatabaseCheck.name hother
      rw [hdrop] at hin
      exact List.mem_map.mp ((List.dropLast_sublist _).subset hin)
    refine List.nodup_cons.mpr ⟨fun hin => ?_, List.Nodup.of_map DatabaseCheck.name ?_⟩
    · obtain ⟨named, hin', heq⟩ := hname check hin
      obtain ⟨hexpected, hsome⟩ := hnamed named hin'
      obtain ⟨name, hown⟩ := Option.isSome_iff_exists.mp hsome
      exact hunwanted named hexpected (by rw [checkName_of_name (heq.symm.trans hown), hown])
    · rw [hdrop]
      refine List.Nodup.sublist (List.dropLast_sublist _) (hnodup.map_on ?_)
      intro first hfirst second hsecond heq
      obtain ⟨hin, hsome⟩ := hnamed first hfirst
      obtain ⟨name, hown⟩ := Option.isSome_iff_exists.mp hsome
      exact hnames.inj hin (hnamed second hsecond).1 hown (heq ▸ hown)
  obtain ⟨rest', hrest'⟩ := @exists_front _ actual.checks (check :: steps.map Prod.snd) hfront
    (List.cons_subset.mpr ⟨hcheck, htaken⟩)
  have hchecks : ((steps.map Prod.fst).reverse ++ wanted :: rest).Perm expected.checks :=
    List.perm_middle.trans ((((List.reverse_perm _).append_right rest).cons wanted).trans hrest)
  have hchecks' : ((steps.map Prod.snd).reverse ++ check :: rest').Perm actual.checks :=
    List.perm_middle.trans ((((List.reverse_perm _).append_right rest').cons check).trans hrest')
  obtain ⟨hfree, hleft⟩ := hline.run h hchecks'
  have hkept : (some (actual.checkName check), unnamed.normal) ∈ shownChecks actual
      ((steps.map Prod.snd).reverse ++ check :: rest')
      ((steps.map Prod.fst).reverse ++ wanted :: rest) :=
    (huniform _ _ hchecks hchecks').2.symm.subset (huniform.keeps hunnamed hnone hcheck hsame)
  have hfirst := @takes_first rest' wanted check
    (fun c hc hnamesake => by
      obtain ⟨name, hown, hname'⟩ := namesake_iff.mp hnamesake
      exact hleft c hc (hname'.trans hown.symm))
    (by rw [synonym_normal] at hsame hwanted ⊢; exact hsame.trans hwanted.symm)
  rw [shownChecks_append, hfree, shownChecks, hfirst.2] at hkept
  obtain hin | hin := List.mem_append.mp hkept
  · -- The checks on the line are named.
    obtain ⟨other, hother, hname⟩ | ⟨⟨other, hother, hname⟩, -⟩ := name_of_mem_shownChecks hin
    · exact hunwanted other (hnamed other (List.mem_cons_of_mem _ (List.mem_reverse.mp hother))).1
        hname
    · have := (hnamed other (List.mem_cons_of_mem _ (List.mem_reverse.mp hother))).2
      rw [hname] at this
      cases this
  · obtain heq | hin := List.mem_cons.mp hin
    · obtain ⟨hwantedIn, hsome⟩ := hnamed wanted List.mem_cons_self
      obtain ⟨name, hname⟩ := Option.isSome_iff_exists.mp hsome
      refine hunwanted wanted hwantedIn ?_
      have hfinal := congrArg Prod.fst heq
      rw [finalName, hname] at hfinal
      exact hname.trans hfinal.symm
    · -- The check is taken, and no other has its name.
      obtain ⟨other, hother, hname⟩ | ⟨-, other, hother, hname⟩ := name_of_mem_shownChecks hin
      · exact hunwanted other (hchecks.subset
          (List.mem_append_right _ (List.mem_cons_of_mem _ hother))) hname
      · have hnodup' : ((check :: rest').map actual.checkName).Nodup :=
          (h.perm hchecks').sublist ((List.sublist_append_right _ _).map _)
        exact (List.nodup_cons.mp hnodup').1 (List.mem_map.mpr ⟨other, hother, hname⟩)

/-- The statements converge for every order exactly where the names and the expressions of the
    checks leave one way only to match them. -/
theorem converges_iff_steady (hnames : expected.NamesDistinct) (h : actual.ChecksDistinct) :
    Converges expected actual ↔ Steady expected actual := by
  rw [converges_iff_uniform h]
  constructor
  · intro huniform
    exact {
      unwanted := fun _ hunnamed hnone _ hcheck hsame _ hwanted =>
        huniform.unwanted h hunnamed hnone hcheck hsame hwanted
      implicit := fun _ hcheck hunnamed _ hwanted hname =>
        huniform.implicit h hcheck hunnamed hwanted hname
      enough := fun _ hunnamed hnone => huniform.enough h hunnamed hnone
      alone := fun _ hunnamed hnone _ hcheck hsame _ _ hwanted =>
        huniform.alone h hnames hunnamed hnone hcheck hsame hwanted }
  · exact fun hsteady => hsteady.uniform hnames

/-- A named and an unnamed check. -/
def samplePair : DatabaseTable where
  name := "t"
  checks := [{ name := some "a", expression := "x > 0" }, { name := none, expression := "x < 9" }]

/-- The same checks, under another name and in the other order. -/
def sampleRenamed : DatabaseTable where
  name := "t"
  checks := [{ name := none, expression := " x < 9 " }, { name := some "b", expression := "x > 0" }]

theorem samplePair_converges : Converges samplePair sampleRenamed := by
  refine (converges_iff_steady (by decide) (by decide)).mpr ⟨by decide, by decide, by decide, ?_⟩
  intro unnamed hunnamed hnone check _ _ wanted hwanted hsame hdisplaced
  have hnamed : wanted.name.isSome := by cases hdisplaced <;> assumption
  have hother : ∀ unnamed ∈ samplePair.checks, unnamed.name = none →
      ∀ wanted ∈ samplePair.checks, synonym unnamed wanted = true → ¬ wanted.name.isSome := by
    decide
  exact hother unnamed hunnamed hnone wanted hwanted hsame hnamed

/-- An expected check without a name, and a named one with another expression. -/
def displacingChecks : DatabaseTable where
  name := "t"
  checks := [{ name := none, expression := "x > 0" }, { name := some "a", expression := "x > 1" }]

/-- The actual check has the expression of the one and the name of the other. -/
def displacedCheck : DatabaseTable where
  name := "t"
  checks := [{ name := some "a", expression := "x > 0" }]

/-- The check without a name keeps the actual one, and the named one is added under a name that is
    in use. -/
theorem displacingChecks_fail : displacingChecks.NamesDistinct ∧ displacedCheck.ChecksDistinct ∧
    replayChecks displacingChecks displacedCheck = none ∧
      ¬ Converges displacingChecks displacedCheck := by
  have hfails : replayChecks displacingChecks displacedCheck = none := by decide
  refine ⟨by decide, by decide, hfails, ?_⟩
  rintro ⟨store, hstore, -⟩
  rw [hfails] at hstore
  cases hstore

end

end MetalOrm.Native.Schema
