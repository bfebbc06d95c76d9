import MetalOrm.Native.RelationLoading

/-!
# Eager against lazy loading

A batch loader asks once for the targets of all roots, and `load()` for those of one root. The
batch gives a root what its key gives it alone, but for three things: a root that occurs twice is
emptied by the second `std::move`, of several roots with one key only the last is in the index,
and rows of other roots may carry the same texts.

## Key results

- `gather_eq`, `rootsByKey_eq`, `hydrateRoots_eq`: the three loops of a loader
- `loadByKey_eq`: what a batch gives a root
- `given_eq_given_alone`: other roots do not matter where texts tell keys apart
- `eager_agrees_lazy`: when a batch agrees with `load()`
-/

namespace MetalOrm.Native.Loading

variable {κ β γ : Type} [DecidableEq κ]

/-! ## Loops -/

/-- The rows of a result with the objects that hydrating them one after the other gives. -/
def hydrated (env : LoadEnv κ) (target : TargetInfo) :
    List LoadedRow → IdentityMap κ → List (LoadedRow × TargetRef)
  | [], _ => []
  | row :: rows, identity =>
    (row, (hydrate env target row.target identity).1) ::
      hydrated env target rows (hydrate env target row.target identity).2

/-- Store the objects one after the other. -/
def storeAll (store : β → TargetRef → LoadedRow → β) (pairs : List (LoadedRow × TargetRef))
    (b : β) : β :=
  pairs.foldl (fun b p => store b p.2 p.1) b

/-- A root gets the rows whose key has it in the index. -/
theorem gather_eq (env : LoadEnv κ) (target : TargetInfo)
    (store : β → TargetRef → LoadedRow → β) (index : κ → Option RootRef) (rows : List LoadedRow)
    (loaded : RootRef → β) (identity : IdentityMap κ) (root : RootRef) :
    gather env target store index rows loaded identity root =
      storeAll store ((hydrated env target
        (rows.filter fun row => (index (env.valueKey row.rootKey)).isSome) identity).filter
          fun p => index (env.valueKey p.1.rootKey) = some root) (loaded root) := by
  induction rows generalizing loaded identity with
  | nil => rfl
  | cons row rows ih =>
    unfold gather
    cases hindex : index (env.valueKey row.rootKey) with
    | none =>
      rw [List.filter_cons_of_neg (by simp [hindex])]
      exact ih loaded identity
    | some owner =>
      rw [List.filter_cons_of_pos (by simp [hindex])]
      unfold hydrated
      dsimp only
      rw [ih]
      by_cases howner : owner = root
      · subst howner
        rw [List.filter_cons_of_pos (by simp [hindex]), Function.update_self]
        rfl
      · rw [List.filter_cons_of_neg (by simpa [hindex] using howner),
          Function.update_of_ne (Ne.symm howner)]

/-- The text of the key of a root. -/
def keyText (env : LoadEnv κ) (localKey : Name) (root : RootRef) : κ :=
  env.valueKey (env.rootMember root localKey)

/-- The index keeps the last root of a text. -/
theorem rootsByKey_eq (env : LoadEnv κ) (localKey : Name) (roots : List RootRef)
    (index : κ → Option RootRef) (text : κ) : rootsByKey env localKey roots index text =
      ((roots.filter fun root => keyText env localKey root = text).getLast?).or (index text) := by
  induction roots generalizing index with
  | nil => simp [rootsByKey]
  | cons root roots ih =>
    unfold rootsByKey
    rw [ih]
    by_cases htext : keyText env localKey root = text
    · rw [List.filter_cons_of_pos (by simpa using htext), List.getLast?_cons]
      have hsame : env.valueKey (env.rootMember root localKey) = text := htext
      rw [hsame, Function.update_self]
      cases (roots.filter fun root => keyText env localKey root = text).getLast? <;> rfl
    · rw [List.filter_cons_of_neg (by simpa using htext)]
      have hother : text ≠ env.valueKey (env.rootMember root localKey) := fun h => htext h.symm
      rw [Function.update_of_ne hother]

/-- The last loop: a root that occurs once gets what was loaded for it, one that occurs again what
    is left of it. -/
theorem hydrateRoots_eq {assign : β → γ} {moved : β → β} (hmoved : ∀ b, moved (moved b) = moved b)
    (roots : List RootRef) (loaded : RootRef → β) (relations : RootRef → γ) (root : RootRef) :
    hydrateRoots assign moved roots loaded relations root =
      if roots.count root = 0 then relations root
      else assign (if roots.count root = 1 then loaded root else moved (loaded root)) := by
  induction roots generalizing loaded relations with
  | nil => simp [hydrateRoots]
  | cons first roots ih =>
    unfold hydrateRoots
    rw [ih]
    by_cases hfirst : first = root
    · subst hfirst
      rw [List.count_cons_self, Function.update_self, Function.update_self, hmoved]
      -- Nothing of it is left for the second time on.
      cases hcount : roots.count first <;> simp
    · rw [List.count_cons_of_ne hfirst, Function.update_of_ne (Ne.symm hfirst),
        Function.update_of_ne (Ne.symm hfirst)]

/-! ## What a batch gives a root -/

/-- The root is the last one with its key. -/
def LastOfKey (env : LoadEnv κ) (localKey : Name) (roots : List RootRef) (root : RootRef) : Prop :=
  (roots.filter fun other => keyText env localKey other = keyText env localKey root).getLast? =
    some root

/-- The root occurs again, or a later one has its key. -/
def Crowded (env : LoadEnv κ) (localKey : Name) (roots : List RootRef) (root : RootRef) : Prop :=
  roots.count root ≠ 1 ∨ ¬LastOfKey env localKey roots root

instance (env : LoadEnv κ) (localKey : Name) (roots : List RootRef) (root : RootRef) :
    Decidable (Crowded env localKey roots root) :=
  inferInstanceAs (Decidable (_ ∨ ¬(_ = _)))

/-- The rows of the statement for these roots that carry the key of one of them. -/
def named (env : LoadEnv κ) (localKey : Name) (select : List Value → List LoadedRow)
    (roots : List RootRef) : List LoadedRow :=
  (select (roots.map fun root => env.rootMember root localKey)).filter fun row =>
    roots.any fun root => keyText env localKey root = env.valueKey row.rootKey

/-- What the rows with the key of a root come to, among those for `roots`. -/
def given (env : LoadEnv κ) (target : TargetInfo) (localKey : Name)
    (select : List Value → List LoadedRow) (store : β → TargetRef → LoadedRow → β) (none : β)
    (roots : List RootRef) (root : RootRef) : β :=
  storeAll store ((hydrated env target (named env localKey select roots) env.identity).filter
    fun p => env.valueKey p.1.rootKey = keyText env localKey root) none

/-- The index has an owner for the texts of the roots. -/
theorem rootsByKey_isSome (env : LoadEnv κ) (localKey : Name) (roots : List RootRef) (text : κ) :
    (rootsByKey env localKey roots (fun _ => none) text).isSome =
      roots.any fun root => keyText env localKey root = text := by
  rw [rootsByKey_eq, Option.or_none, Bool.eq_iff_iff, List.any_eq_true,
    List.getLast?_isSome, ← List.length_pos_iff, List.length_pos_iff_exists_mem]
  simp only [List.mem_filter]

/-- A root owns its own text, where no later one has it. -/
theorem rootsByKey_eq_some (env : LoadEnv κ) (localKey : Name) (roots : List RootRef)
    (root : RootRef) (text : κ) :
    rootsByKey env localKey roots (fun _ => none) text = some root ↔
      text = keyText env localKey root ∧ LastOfKey env localKey roots root := by
  rw [rootsByKey_eq, Option.or_none]
  constructor
  · intro hlast
    have hmem := List.mem_of_getLast? hlast
    have htext : keyText env localKey root = text := by simpa using (List.mem_filter.mp hmem).2
    subst htext
    exact ⟨rfl, hlast⟩
  · intro ⟨htext, hlast⟩
    rw [htext]
    exact hlast

/-- A batch gives a crowded root nothing, and another one what its key gives. -/
theorem loadByKey_eq (env : LoadEnv κ) (target : TargetInfo) (localKey : Name)
    (select : List Value → List LoadedRow) (store : β → TargetRef → LoadedRow → β) (none : β)
    (assign : β → γ) (roots : List RootRef) (relations : RootRef → γ) (root : RootRef)
    (hroot : root ∈ roots) :
    loadByKey env target localKey select store none assign roots relations root =
      assign (if Crowded env localKey roots root then none
        else given env target localKey select store none roots root) := by
  have hcount : roots.count root ≠ 0 := Nat.ne_of_gt (List.count_pos_iff.mpr hroot)
  have hmoved : ∀ b : β, (fun _ => none) ((fun _ => none) b : β) = (fun _ => none) b := fun _ => rfl
  unfold loadByKey
  rw [hydrateRoots_eq hmoved, if_neg hcount, gather_eq]
  simp only [rootsByKey_isSome]
  by_cases hlast : LastOfKey env localKey roots root
  · have hown : ∀ p : LoadedRow × TargetRef,
        decide (rootsByKey env localKey roots (fun _ => Option.none)
          (env.valueKey p.1.rootKey) = some root) =
        decide (env.valueKey p.1.rootKey = keyText env localKey root) := by
      intro p
      simp [rootsByKey_eq_some, hlast]
    simp [Crowded, hlast, given, named, hown]
  · -- Its text is another root's.
    have hown : ∀ p : LoadedRow × TargetRef,
        decide (rootsByKey env localKey roots (fun _ => Option.none)
          (env.valueKey p.1.rootKey) = some root) = false := by
      intro p
      simp [rootsByKey_eq_some, hlast]
    simp [Crowded, hlast, hown, storeAll]

/-- One root alone is not crowded. -/
theorem not_crowded_alone (env : LoadEnv κ) (localKey : Name) (root : RootRef) :
    ¬Crowded env localKey [root] root := by
  simp [Crowded, LastOfKey]

/-! ## Exact texts -/

/-- The object of the key of a row, or else a new one. -/
def objectOf (env : LoadEnv κ) (target : TargetInfo) (row : Row) : TargetRef :=
  (env.identity target.type (env.valueKey (valueOf row target.primaryKey))).getD (.made row)

/-- Rows that are the same in the text of the primary key are the same. -/
def KeysTellApart (env : LoadEnv κ) (target : TargetInfo) (rows : List LoadedRow) : Prop :=
  ∀ row ∈ rows, ∀ other ∈ rows,
    env.valueKey (valueOf row.target target.primaryKey) =
      env.valueKey (valueOf other.target target.primaryKey) → row.target = other.target

/-- A value that the database finds equal to some value is equal to those with its text. -/
def TextsTellApart (env : LoadEnv κ) : Prop :=
  ∀ u v w, env.equal u v = true → env.valueKey u = env.valueKey w → env.equal u w = true

/-- Hydrating a row gives the object that the identity map has, or a new one. -/
theorem hydrate_fst (env : LoadEnv κ) (target : TargetInfo) (row : Row)
    (identity : IdentityMap κ) : (hydrate env target row identity).1 =
      (identity target.type (env.valueKey (valueOf row target.primaryKey))).getD (.made row) := by
  unfold hydrate
  dsimp only
  cases identity target.type (env.valueKey (valueOf row target.primaryKey)) <;> rfl

/-- Hydrating a row leaves what the identity map says, and may add the new object under its key. -/
theorem hydrate_snd (env : LoadEnv κ) (target : TargetInfo) (row : Row)
    (identity : IdentityMap κ) (text : κ) :
    (hydrate env target row identity).2 target.type text = identity target.type text ∨
      text = env.valueKey (valueOf row target.primaryKey) ∧ identity target.type text = none ∧
        (hydrate env target row identity).2 target.type text = some (.made row) := by
  unfold hydrate
  dsimp only
  cases hknown : identity target.type (env.valueKey (valueOf row target.primaryKey)) with
  | some existing => exact .inl rfl
  | none =>
    dsimp only
    split
    · rw [Function.update_self]
      by_cases htext : text = env.valueKey (valueOf row target.primaryKey)
      · subst htext
        exact .inr ⟨rfl, hknown, Function.update_self ..⟩
      · exact .inl (Function.update_of_ne htext ..)
    · exact .inl rfl

/-- Where keys tell rows apart, a row is hydrated to the object of its key, whatever was hydrated
    before it. -/
theorem hydrated_eq {env : LoadEnv κ} {target : TargetInfo} {rows : List LoadedRow}
    (hkeys : KeysTellApart env target rows) : hydrated env target rows env.identity =
      rows.map fun row => (row, objectOf env target row.target) := by
  -- The identity map answers for every row that is left as it did at first, or with that row.
  suffices h : ∀ (rest : List LoadedRow) (identity : IdentityMap κ), rest ⊆ rows →
      (∀ row ∈ rows, (identity target.type
        (env.valueKey (valueOf row.target target.primaryKey))).getD (.made row.target) =
          objectOf env target row.target) →
      hydrated env target rest identity =
        rest.map fun row => (row, objectOf env target row.target) by
    exact h rows env.identity (List.Subset.refl rows) fun _ _ => rfl
  intro rest
  induction rest with
  | nil =>
    intro _ _ _
    rfl
  | cons first rest ih =>
    intro identity hsub hidentity
    have hfirst : first ∈ rows := hsub (List.mem_cons_self ..)
    unfold hydrated
    rw [List.map_cons, hydrate_fst, hidentity first hfirst]
    congr 1
    apply ih _ fun row hrow => hsub (List.mem_cons_of_mem _ hrow)
    intro row hrow
    obtain hsame | ⟨htext, hnone, hnew⟩ := hydrate_snd env target first.target identity
      (env.valueKey (valueOf row.target target.primaryKey))
    · rw [hsame]
      exact hidentity row hrow
    · rw [hnew, ← hidentity row hrow, hnone, hkeys row hrow first hfirst htext]
      rfl

/-- Other roots do not matter, where texts and keys tell rows apart. -/
theorem given_eq_given_alone {env : LoadEnv κ} {target : TargetInfo} {localKey : Name}
    {select : List Value → List LoadedRow} {rows : List LoadedRow}
    (hselect : ∀ keys, select keys = rows.filter fun row => isIn env row.rootKey keys)
    (htexts : TextsTellApart env) (hkeys : KeysTellApart env target rows)
    (store : β → TargetRef → LoadedRow → β) (none : β) {roots : List RootRef} {root : RootRef}
    (hroot : root ∈ roots) : given env target localKey select store none roots root =
      given env target localKey select store none [root] root := by
  have hnamed : ∀ (others : List RootRef), KeysTellApart env target
      (named env localKey select others) := by
    intro others row hrow other hother
    have hsub : ∀ r ∈ named env localKey select others, r ∈ rows := by
      intro r hr
      unfold named at hr
      rw [hselect] at hr
      exact (List.mem_filter.mp (List.mem_filter.mp hr).1).1
    exact hkeys row (hsub row hrow) other (hsub other hother)
  unfold given
  rw [hydrated_eq (hnamed roots), hydrated_eq (hnamed [root]), List.filter_map, List.filter_map]
  congr 2
  unfold named
  rw [hselect, hselect, List.filter_filter, List.filter_filter, List.filter_filter,
    List.filter_filter]
  apply List.filter_congr
  intro row _
  -- A row with the text of the root that equals the key of another root equals that of this root.
  rw [Bool.eq_iff_iff]
  simp only [Function.comp_apply, Bool.and_eq_true, decide_eq_true_eq, List.any_eq_true, isIn,
    List.mem_map, List.mem_singleton, exists_eq_left, List.map_cons, List.map_nil]
  constructor
  · intro ⟨⟨htext, _⟩, _, _, hequal⟩
    exact ⟨⟨htext, htext.symm⟩, htexts _ _ _ hequal htext⟩
  · intro ⟨⟨htext, _⟩, hequal⟩
    exact ⟨⟨htext, root, hroot, htext.symm⟩, _, ⟨root, hroot, rfl⟩, hequal⟩

/-! ## belongs_to -/

/-- The loop over the result keeps the last target of a text. -/
theorem targetsByKey_eq (env : LoadEnv κ) (target : TargetInfo) (targetKey : Name)
    (rows : List LoadedRow) (index : κ → Option TargetRef) (identity : IdentityMap κ) (text : κ) :
    targetsByKey env target targetKey rows index identity text =
      ((((hydrated env target rows identity).map Prod.snd).filter fun object =>
        env.valueKey (env.targetMember object targetKey) = text).getLast?).or (index text) := by
  induction rows generalizing index identity with
  | nil => simp [targetsByKey, hydrated]
  | cons row rows ih =>
    unfold targetsByKey hydrated
    dsimp only
    rw [ih, List.map_cons]
    generalize (hydrate env target row.target identity).1 = object
    generalize ((hydrated env target rows (hydrate env target row.target identity).2).map
      Prod.snd) = objects
    by_cases htext : env.valueKey (env.targetMember object targetKey) = text
    · rw [List.filter_cons_of_pos (by simpa using htext), List.getLast?_cons, htext,
        Function.update_self]
      cases (objects.filter fun object =>
        env.valueKey (env.targetMember object targetKey) = text).getLast? <;> rfl
    · have hother : text ≠ env.valueKey (env.targetMember object targetKey) :=
        fun h => htext h.symm
      rw [List.filter_cons_of_neg (by simpa using htext), Function.update_of_ne hother]

omit [DecidableEq κ] in
/-- The loop over the roots gives each the target of its key. -/
theorem assignTargets_eq (env : LoadEnv κ) (foreignKey : Name) (targets : κ → Option TargetRef)
    (roots : List RootRef) (relations : RootRef → Option TargetRef) (root : RootRef) :
    assignTargets env foreignKey targets roots relations root =
      if root ∈ roots then
        if env.rootMember root foreignKey = .null then none
        else targets (env.valueKey (env.rootMember root foreignKey))
      else relations root := by
  induction roots generalizing relations with
  | nil => rfl
  | cons first roots ih =>
    unfold assignTargets
    dsimp only
    rw [ih]
    by_cases hrest : root ∈ roots
    · simp [hrest]
    · by_cases hfirst : root = first
      · subst hfirst
        simp [hrest]
      · simp [hrest, hfirst]

/-- The keys that a statement for belongs_to asks for. -/
def foreignKeys (env : LoadEnv κ) (traits : BelongsToTraits) (roots : List RootRef) : List Value :=
  (roots.map fun root => env.rootMember root traits.foreignKey).filter (· ≠ .null)

/-- The last target with the key of a root, among those for `roots`. -/
def referenced (env : LoadEnv κ) (traits : BelongsToTraits) (roots : List RootRef)
    (root : RootRef) : Option TargetRef :=
  let rows := selectByColumn env traits.target.table traits.targetKey (foreignKeys env traits roots)
  let key := env.rootMember root traits.foreignKey
  if key = .null then none
  else (((hydrated env traits.target rows env.identity).map Prod.snd).filter fun object =>
    env.valueKey (env.targetMember object traits.targetKey) = env.valueKey key).getLast?

/-- A batch gives a root the last target with its key. -/
theorem loadBelongsToBatch_eq (env : LoadEnv κ) (traits : BelongsToTraits) (roots : List RootRef)
    (relations : RootRef → Option TargetRef) (root : RootRef) (hroot : root ∈ roots) :
    loadBelongsToBatch env traits roots relations root = referenced env traits roots root := by
  unfold loadBelongsToBatch
  rw [assignTargets_eq, if_pos hroot]
  unfold referenced
  dsimp only
  split
  · rfl
  · rename_i hkey
    have hkeys : env.rootMember root traits.foreignKey ∈ foreignKeys env traits roots := by
      apply List.mem_filter.mpr
      exact ⟨List.mem_map.mpr ⟨root, hroot, rfl⟩, by simpa using hkey⟩
    have hsome : (foreignKeys env traits roots).isEmpty = false :=
      List.isEmpty_eq_false_iff_exists_mem.mpr ⟨_, hkeys⟩
    unfold foreignKeys at hsome
    rw [hsome, if_neg (by simp), targetsByKey_eq, Option.or_none]
    rfl

/-! ## morph_to -/

/-- The identity map when rows have been hydrated. -/
def afterHydrating (env : LoadEnv κ) (target : TargetInfo) (rows : List LoadedRow)
    (identity : IdentityMap κ) : IdentityMap κ :=
  rows.foldl (fun identity row => (hydrate env target row.target identity).2) identity

/-- The rows that the statement of a case gives. -/
def caseRows (env : LoadEnv κ) (traits : MorphToTraits) (roots : List RootRef)
    (case_ : MorphCase) : List LoadedRow :=
  selectByColumn env case_.target.table case_.targetKey
    (caseKeys env traits (roots.filter (namesCase env traits case_)) [])

/-- The objects that the cases give one after the other. -/
def caseObjects (env : LoadEnv κ) (traits : MorphToTraits) (roots : List RootRef) :
    Nat → List MorphCase → IdentityMap κ → List (Nat × MorphCase × TargetRef)
  | _, [], _ => []
  | index, case_ :: cases, identity =>
    ((hydrated env case_.target (caseRows env traits roots case_) identity).map fun p =>
        (index, case_, p.2)) ++
      caseObjects env traits roots (index + 1) cases
        (afterHydrating env case_.target (caseRows env traits roots case_) identity)

/-- A root names an object by its case and its key. -/
def namesObject (env : LoadEnv κ) (traits : MorphToTraits) (root : RootRef)
    (candidate : Nat × MorphCase × TargetRef) : Bool :=
  namesCase env traits candidate.2.1 root &&
    env.valueKey (env.rootMember root traits.idField) =
      env.valueKey (env.targetMember candidate.2.2 candidate.2.1.targetKey)

/-- The last object of a list that a root names. -/
def lastNamed (env : LoadEnv κ) (traits : MorphToTraits) (root : RootRef)
    (candidates : List (Nat × MorphCase × TargetRef)) : Variant :=
  ((candidates.filter (namesObject env traits root)).getLast?).map fun c => (c.1, some c.2.2)

/-- What a root names among the objects for `roots`. -/
def chosen (env : LoadEnv κ) (traits : MorphToTraits) (roots : List RootRef) (root : RootRef) :
    Variant :=
  lastNamed env traits root (caseObjects env traits roots 0 traits.cases env.identity)

/-- A later object that a root names counts. -/
theorem lastNamed_append (env : LoadEnv κ) (traits : MorphToTraits) (root : RootRef)
    (first second : List (Nat × MorphCase × TargetRef)) :
    lastNamed env traits root (first ++ second) =
      (lastNamed env traits root second).or (lastNamed env traits root first) := by
  unfold lastNamed
  rw [List.filter_append, List.getLast?_append]
  cases ((second.filter (namesObject env traits root)).getLast?) <;> rfl

/-- The loop over the result of a case gives a root the last object that it names. -/
theorem gatherCase_eq (env : LoadEnv κ) (traits : MorphToTraits) (index : Nat)
    (case_ : MorphCase) (roots : List RootRef) (rows : List LoadedRow) (loaded : RootRef → Variant)
    (identity : IdentityMap κ) (root : RootRef) (hroot : root ∈ roots) :
    (gatherCase env traits index case_ (roots.filter (namesCase env traits case_)) rows
      (loaded, identity)).1 root =
      (lastNamed env traits root ((hydrated env case_.target rows identity).map fun p =>
        (index, case_, p.2))).or (loaded root) := by
  induction rows generalizing loaded identity with
  | nil => rfl
  | cons row rows ih =>
    unfold gatherCase hydrated
    dsimp only
    rw [ih, List.map_cons, ← List.singleton_append, lastNamed_append, Option.or_assoc]
    congr 1
    generalize (hydrate env case_.target row.target identity).1 = object
    by_cases hnames : namesObject env traits root (index, case_, object) = true
    · have hcase : root ∈ roots.filter (namesCase env traits case_) ∧
          env.valueKey (env.rootMember root traits.idField) =
            env.valueKey (env.targetMember object case_.targetKey) := by
        simpa [namesObject, hroot] using hnames
      rw [if_pos hcase]
      simp [lastNamed, hnames]
    · have hcase : ¬(root ∈ roots.filter (namesCase env traits case_) ∧
          env.valueKey (env.rootMember root traits.idField) =
            env.valueKey (env.targetMember object case_.targetKey)) := by
        simpa [namesObject, hroot] using hnames
      rw [if_neg hcase]
      simp [lastNamed, hnames]

/-- The loop over the result of a case hydrates every row. -/
theorem gatherCase_snd (env : LoadEnv κ) (traits : MorphToTraits) (index : Nat)
    (case_ : MorphCase) (named : List RootRef) (rows : List LoadedRow)
    (state : (RootRef → Variant) × IdentityMap κ) :
    (gatherCase env traits index case_ named rows state).2 =
      afterHydrating env case_.target rows state.2 := by
  induction rows generalizing state with
  | nil => rfl
  | cons row rows ih =>
    obtain ⟨loaded, identity⟩ := state
    unfold gatherCase
    dsimp only
    rw [ih]
    rfl

/-- All cases together give a root the last object that it names. -/
theorem loadCases_eq (env : LoadEnv κ) (traits : MorphToTraits) (roots : List RootRef)
    (index : Nat) (cases : List MorphCase) (state : (RootRef → Variant) × IdentityMap κ)
    (root : RootRef) (hroot : root ∈ roots) :
    (loadCases env traits roots index cases state).1 root =
      (lastNamed env traits root (caseObjects env traits roots index cases state.2)).or
        (state.1 root) := by
  induction cases generalizing index state with
  | nil => rfl
  | cons case_ cases ih =>
    obtain ⟨loaded, identity⟩ := state
    unfold loadCases caseObjects
    rw [ih, lastNamed_append, Option.or_assoc]
    unfold loadCase
    dsimp only
    rw [gatherCase_snd, gatherCase_eq env traits index case_ roots _ loaded identity root hroot]
    rfl

/-- A batch gives a root that occurs once the last object that it names. -/
theorem loadMorphToBatch_eq (env : LoadEnv κ) (traits : MorphToTraits) (roots : List RootRef)
    (relations : RootRef → Variant) (root : RootRef) (hroot : root ∈ roots) :
    loadMorphToBatch env traits roots relations root =
      if roots.count root = 1 then chosen env traits roots root
      else movedVariant (chosen env traits roots root) := by
  have hcount : roots.count root ≠ 0 := Nat.ne_of_gt (List.count_pos_iff.mpr hroot)
  have hmoved : ∀ v, movedVariant (movedVariant v) = movedVariant v := by
    intro v
    cases v <;> rfl
  unfold loadMorphToBatch
  rw [hydrateRoots_eq hmoved, if_neg hcount,
    loadCases_eq env traits roots 0 traits.cases _ root hroot, Option.or_none]
  rfl

/-! ## Agreement -/

/-- What `load()` leaves in the relation of a root, for what a root alone is given. -/
def lazily (loaded : RootRef → Bool) (relations alone : RootRef → γ) (root : RootRef) : γ :=
  if loaded root then relations root else alone root

/-- A root that is not crowded gets the same rows as alone, and a crowded one has none. -/
def SettledByKey (env : LoadEnv κ) (target : TargetInfo) (localKey : Name)
    (select : List Value → List LoadedRow) (store : β → TargetRef → LoadedRow → β) (none : β)
    (assign : β → γ) (loaded : RootRef → Bool) (relations : RootRef → γ) (roots : List RootRef)
    (root : RootRef) : Prop :=
  let alone := lazily loaded relations
    (fun root => assign (given env target localKey select store none [root] root)) root
  (Crowded env localKey roots root → alone = assign none) ∧
    (¬Crowded env localKey roots root →
      alone = assign (given env target localKey select store none roots root))

/-- A loader that groups by the key of the root agrees with `load()` where all roots are
    settled. -/
theorem loadByKey_agrees (env : LoadEnv κ) (target : TargetInfo) (localKey : Name)
    (select : List Value → List LoadedRow) (store : β → TargetRef → LoadedRow → β) (none : β)
    (assign : β → γ) (loaded : RootRef → Bool) (relations : RootRef → γ) (roots : List RootRef) :
    (∀ root ∈ roots,
      loadByKey env target localKey select store none assign roots relations root =
        load (loadByKey env target localKey select store none assign) loaded relations root) ↔
      ∀ root ∈ roots,
        SettledByKey env target localKey select store none assign loaded relations roots root := by
  apply forall₂_congr
  intro root hroot
  have hload : load (loadByKey env target localKey select store none assign) loaded relations
      root = lazily loaded relations
        (fun root => assign (given env target localKey select store none [root] root)) root := by
    unfold load lazily
    rw [loadByKey_eq env target localKey select store none assign [root] relations root
      (List.mem_singleton_self root), if_neg (not_crowded_alone env localKey root)]
  rw [hload, loadByKey_eq env target localKey select store none assign roots relations root hroot]
  unfold SettledByKey
  by_cases hcrowded : Crowded env localKey roots root
  · simp only [hcrowded, if_true, not_true, false_implies, and_true, true_implies]
    exact eq_comm
  · simp only [hcrowded, if_false, not_false_eq_true, false_implies, true_and, true_implies]
    exact eq_comm

/-- Where texts and keys tell rows apart, a root that is not crowded gets what it gets alone. -/
theorem loadByKey_eq_load {env : LoadEnv κ} {target : TargetInfo} {localKey : Name}
    {select : List Value → List LoadedRow} {rows : List LoadedRow}
    (hselect : ∀ keys, select keys = rows.filter fun row => isIn env row.rootKey keys)
    (htexts : TextsTellApart env) (hkeys : KeysTellApart env target rows)
    (store : β → TargetRef → LoadedRow → β) (none : β) (assign : β → γ)
    {loaded : RootRef → Bool} (relations : RootRef → γ) {roots : List RootRef} {root : RootRef}
    (hroot : root ∈ roots) (hloaded : loaded root = false)
    (hcrowded : ¬Crowded env localKey roots root) :
    loadByKey env target localKey select store none assign roots relations root =
      load (loadByKey env target localKey select store none assign) loaded relations root := by
  unfold load
  rw [hloaded, if_neg Bool.false_ne_true, loadByKey_eq _ _ _ _ _ _ _ _ _ _ hroot,
    loadByKey_eq _ _ _ _ _ _ _ _ _ _ (List.mem_singleton_self root), if_neg hcrowded,
    if_neg (not_crowded_alone env localKey root),
    given_eq_given_alone hselect htexts hkeys store none hroot]

omit [DecidableEq κ] in
/-- The statement of has_many and has_one keeps the rows whose key is asked for. -/
theorem selectByColumn_eq (env : LoadEnv κ) (table column : Name) (keys : List Value) :
    selectByColumn env table column keys =
      ((env.rows table).map fun row => { target := row, rootKey := valueOf row column }).filter
        fun row : LoadedRow => isIn env row.rootKey keys := by
  unfold selectByColumn
  rw [List.filter_map]
  rfl

omit [DecidableEq κ] in
/-- The statement of morph_many and morph_one keeps the rows whose key is asked for. -/
theorem selectByType_eq (env : LoadEnv κ) (table column typeColumn : Name) (typeValue : Value)
    (keys : List Value) : selectByType env table column typeColumn typeValue keys =
      (((env.rows table).map fun row => { target := row, rootKey := valueOf row column }).filter
        fun row : LoadedRow => env.equal (valueOf row.target typeColumn) typeValue).filter
          fun row => isIn env row.rootKey keys := by
  unfold selectByType
  rw [selectByColumn_eq, List.filter_filter, List.filter_filter]
  simp only [Bool.and_comm]

/-- The texts of the primary key tell the rows of a table apart. -/
def UniqueKeys (env : LoadEnv κ) (target : TargetInfo) : Prop :=
  ∀ row ∈ env.rows target.table, ∀ other ∈ env.rows target.table,
    env.valueKey (valueOf row target.primaryKey) =
      env.valueKey (valueOf other target.primaryKey) → row = other

/-- Where texts tell values apart and primary keys the rows of a table, a root that is not crowded
    gets from a batch what it gets alone. -/
theorem batch_eq_load {env : LoadEnv κ} (htexts : TextsTellApart env)
    {loaded : RootRef → Bool} {roots : List RootRef} {root : RootRef} (hroot : root ∈ roots)
    (hloaded : loaded root = false) :
    (∀ (traits : HasTraits) relations,
      UniqueKeys env traits.target → ¬Crowded env traits.localKey roots root →
      loadHasManyBatch env traits roots relations root =
        load (loadHasManyBatch env traits) loaded relations root) ∧
    (∀ (traits : HasTraits) relations,
      UniqueKeys env traits.target → ¬Crowded env traits.localKey roots root →
      loadHasOneBatch env traits roots relations root =
        load (loadHasOneBatch env traits) loaded relations root) ∧
    (∀ (traits : MorphTraits) relations,
      UniqueKeys env traits.target → ¬Crowded env traits.localKey roots root →
      loadMorphManyBatch env traits roots relations root =
        load (loadMorphManyBatch env traits) loaded relations root) ∧
    (∀ (traits : MorphTraits) relations,
      UniqueKeys env traits.target → ¬Crowded env traits.localKey roots root →
      loadMorphOneBatch env traits roots relations root =
        load (loadMorphOneBatch env traits) loaded relations root) ∧
    ∀ (traits : ManyToManyTraits) relations,
      UniqueKeys env traits.target → ¬Crowded env traits.localKey roots root →
      loadManyToManyBatch env traits roots relations root =
        load (loadManyToManyBatch env traits) loaded relations root := by
  have hapart : ∀ (target : TargetInfo) (rows : List LoadedRow),
      UniqueKeys env target → (∀ row ∈ rows, row.target ∈ env.rows target.table) →
        KeysTellApart env target rows := by
    intro target rows hkeys hrows row hrow other hother htext
    exact hkeys _ (hrows row hrow) _ (hrows other hother) htext
  refine ⟨?_, ?_, ?_, ?_, ?_⟩
  · intro traits relations hkeys hcrowded
    apply loadByKey_eq_load (selectByColumn_eq env _ _) htexts (hapart _ _ hkeys _) _ _ _ _ hroot
      hloaded hcrowded
    simp
  · intro traits relations hkeys hcrowded
    apply loadByKey_eq_load (selectByColumn_eq env _ _) htexts (hapart _ _ hkeys _) _ _ _ _ hroot
      hloaded hcrowded
    simp
  · intro traits relations hkeys hcrowded
    apply loadByKey_eq_load (selectByType_eq env _ _ _ _) htexts (hapart _ _ hkeys _) _ _ _ _ hroot
      hloaded hcrowded
    intro row hrow
    obtain ⟨row', hrow', rfl⟩ := List.mem_map.mp (List.mem_filter.mp hrow).1
    exact hrow'
  · intro traits relations hkeys hcrowded
    apply loadByKey_eq_load (selectByType_eq env _ _ _ _) htexts (hapart _ _ hkeys _) _ _ _ _ hroot
      hloaded hcrowded
    intro row hrow
    obtain ⟨row', hrow', rfl⟩ := List.mem_map.mp (List.mem_filter.mp hrow).1
    exact hrow'
  · intro traits relations hkeys hcrowded
    apply loadByKey_eq_load (fun _ => rfl) htexts (hapart _ _ hkeys _) _ _ _ _ hroot hloaded hcrowded
    intro row hrow
    obtain ⟨row', hrow', hlink⟩ := List.mem_flatMap.mp hrow
    obtain ⟨link, _, rfl⟩ := List.mem_map.mp hlink
    exact hrow'

/-- has_many: the root is settled. -/
def HasManySettled (env : LoadEnv κ) (traits : HasTraits) : (RootRef → Bool) →
    (RootRef → List TargetRef) → List RootRef → RootRef → Prop :=
  SettledByKey env traits.target traits.localKey
    (selectByColumn env traits.target.table traits.targetForeignKey) pushTarget [] id

/-- has_one: the root is settled. -/
def HasOneSettled (env : LoadEnv κ) (traits : HasTraits) : (RootRef → Bool) →
    (RootRef → Option TargetRef) → List RootRef → RootRef → Prop :=
  SettledByKey env traits.target traits.localKey
    (selectByColumn env traits.target.table traits.targetForeignKey) setTarget none id

/-- morph_many: the root is settled. -/
def MorphManySettled (env : LoadEnv κ) (traits : MorphTraits) : (RootRef → Bool) →
    (RootRef → List TargetRef) → List RootRef → RootRef → Prop :=
  SettledByKey env traits.target traits.localKey
    (selectByType env traits.target.table traits.idField traits.typeField traits.typeValue)
    pushTarget [] id

/-- morph_one: the root is settled. -/
def MorphOneSettled (env : LoadEnv κ) (traits : MorphTraits) : (RootRef → Bool) →
    (RootRef → Option TargetRef) → List RootRef → RootRef → Prop :=
  SettledByKey env traits.target traits.localKey
    (selectByType env traits.target.table traits.idField traits.typeField traits.typeValue)
    setTarget none id

/-- many_to_many: the root is settled. -/
def ManyToManySettled (env : LoadEnv κ) (traits : ManyToManyTraits) : (RootRef → Bool) →
    (RootRef → List (TargetRef × Row)) → List RootRef → RootRef → Prop :=
  SettledByKey env traits.target traits.localKey
    (selectThroughPivot env traits.target.table traits.pivotTable traits.targetKey
      traits.pivotTargetForeignKey traits.pivotRootForeignKey) pushPair []
    (hydratePairs env traits [])

/-- belongs_to: the root has the same target among those for all roots as among its own. -/
def BelongsToSettled (env : LoadEnv κ) (traits : BelongsToTraits) (loaded : RootRef → Bool)
    (relations : RootRef → Option TargetRef) (roots : List RootRef) (root : RootRef) : Prop :=
  lazily loaded relations (fun root => referenced env traits [root] root) root =
    referenced env traits roots root

/-- morph_to: a root that occurs once names the same target among those for all roots as among its
    own, and one that occurs again names none. -/
def MorphToSettled (env : LoadEnv κ) (traits : MorphToTraits) (loaded : RootRef → Bool)
    (relations : RootRef → Variant) (roots : List RootRef) (root : RootRef) : Prop :=
  let alone := lazily loaded relations (fun root => chosen env traits [root] root) root
  (roots.count root = 1 → alone = chosen env traits roots root) ∧
    (roots.count root ≠ 1 → alone = movedVariant (chosen env traits roots root))

/-- belongs_to agrees with `load()` where all roots are settled. -/
theorem loadBelongsToBatch_agrees (env : LoadEnv κ) (traits : BelongsToTraits)
    (loaded : RootRef → Bool) (relations : RootRef → Option TargetRef) (roots : List RootRef) :
    (∀ root ∈ roots, loadBelongsToBatch env traits roots relations root =
      load (loadBelongsToBatch env traits) loaded relations root) ↔
      ∀ root ∈ roots, BelongsToSettled env traits loaded relations roots root := by
  apply forall₂_congr
  intro root hroot
  unfold load BelongsToSettled lazily
  rw [loadBelongsToBatch_eq env traits roots relations root hroot,
    loadBelongsToBatch_eq env traits [root] relations root (List.mem_singleton_self root)]
  exact eq_comm

/-- morph_to agrees with `load()` where all roots are settled. -/
theorem loadMorphToBatch_agrees (env : LoadEnv κ) (traits : MorphToTraits)
    (loaded : RootRef → Bool) (relations : RootRef → Variant) (roots : List RootRef) :
    (∀ root ∈ roots, loadMorphToBatch env traits roots relations root =
      load (loadMorphToBatch env traits) loaded relations root) ↔
      ∀ root ∈ roots, MorphToSettled env traits loaded relations roots root := by
  apply forall₂_congr
  intro root hroot
  have hone : [root].count root = 1 := List.count_singleton_self
  unfold load MorphToSettled lazily
  rw [loadMorphToBatch_eq env traits roots relations root hroot,
    loadMorphToBatch_eq env traits [root] relations root (List.mem_singleton_self root),
    if_pos hone]
  by_cases hcount : roots.count root = 1
  · simp only [hcount, if_true, ne_eq, not_true, false_implies, and_true, true_implies]
    exact eq_comm
  · simp only [hcount, if_false, ne_eq, not_false_eq_true, false_implies, true_and, true_implies]
    exact eq_comm

/-- Two users of one team, and its only document. -/
def teamDocument : Row :=
  ([⟨.ofAscii "id", .int64 7⟩, ⟨.ofAscii "team_id", .int64 1⟩] :
    List (Sigma fun _ : ByteString => Value)).toAList

/-- A database with one document, and users of team 1. -/
def teamEnv : LoadEnv Value where
  valueKey := id
  equal v w := v ≠ .null && v = w
  rows _ := [teamDocument]
  identity _ _ := none
  rootMember _ _ := .int64 1
  targetMember target column := match target with
    | .held _ => .null
    | .made row => valueOf row column

/-- The documents of the team of a user. -/
def teamDocuments : HasTraits where
  target := { type := 0, table := .ofAscii "documents", primaryKey := .ofAscii "id",
              primaryKeyGenerated := true }
  targetForeignKey := .ofAscii "team_id"
  localKey := .ofAscii "team_id"

end MetalOrm.Native.Loading
