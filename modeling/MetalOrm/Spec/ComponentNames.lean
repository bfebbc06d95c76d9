import MetalOrm.Native.OpenApiSchema

/-!
# Names of components

Two maps keep which name was given for a hash, and which hash a name was given for. A name stands for
one canonical form as long as no two forms share a hash, and no name that is made up from a base name
and a hash was given before.

## Key results

- `Naming.Consistent.call`: what the maps say after a call
- `component_names_bijective_iff`: when names and canonical forms correspond
-/

namespace MetalOrm.Native.OpenApi

/-! ## Calls -/

/-- The arguments of `get_deterministic_component_name`. -/
structure NamingCall where
  base : Text
  schema : OpenApiSchema

/-- A state, with the canonical forms that were named so far and their names. -/
structure Naming where
  state : DeterministicNamingState
  given : List (Text × Text)

namespace Naming

/-- The state that was not used yet. -/
def start : Naming := ⟨createDeterministicNamingState, []⟩

/-- A name is taken. -/
def Taken (naming : Naming) (name : Text) : Prop :=
  (naming.state.nameToContentHash.lookup name).isSome

variable (text : DoubleText)

/-- One call. -/
def call (naming : Naming) (c : NamingCall) : Naming where
  state := (getDeterministicComponentName text c.base c.schema naming.state).2
  given := naming.given ++ [(canonicalizeSchema text c.schema,
    (getDeterministicComponentName text c.base c.schema naming.state).1)]

/-- Any calls. -/
def calls (naming : Naming) (cs : List NamingCall) : Naming := cs.foldl (call text) naming

/-- The hash of the schema is that of no other canonical form, and a name that has to be made up is
    not taken. -/
structure Fresh (naming : Naming) (c : NamingCall) : Prop where
  hash : ∀ p ∈ naming.given, canonicalHash p.1 = computeSchemaHash text c.schema →
    p.1 = canonicalizeSchema text c.schema
  name : naming.state.contentHashToName.lookup (computeSchemaHash text c.schema) = none →
    naming.Taken (baseOrSchema c.base) →
    ¬naming.Taken (baseOrSchema c.base ++ lit "_" ++ computeSchemaHash text c.schema)

/-- Every call of a run is fresh where it is made. -/
def EveryFresh (naming : Naming) : List NamingCall → Prop
  | [] => True
  | c :: cs => naming.Fresh text c ∧ (naming.call text c).EveryFresh cs

end Naming

/-- Names stand for canonical forms: calls have the same name just if they have the same form. -/
def NamesBijective (given : List (Text × Text)) : Prop :=
  ∀ a ∈ given, ∀ b ∈ given, a.2 = b.2 ↔ a.1 = b.1

theorem NamesBijective.mono {given given' : List (Text × Text)} (h : NamesBijective given')
    (hsub : given ⊆ given') : NamesBijective given :=
  fun a ha b hb => h a (hsub ha) b (hsub hb)

theorem namesBijective_concat {given : List (Text × Text)} {canonical name : Text}
    (h : NamesBijective given) : NamesBijective (given ++ [(canonical, name)]) ↔
      ∀ p ∈ given, p.2 = name ↔ p.1 = canonical := by
  have hlast : (canonical, name) ∈ given ++ [(canonical, name)] :=
    List.mem_append_right _ (List.mem_singleton.mpr rfl)
  constructor
  · intro hall p hp
    exact hall p (List.mem_append_left _ hp) _ hlast
  · intro hnew a ha b hb
    obtain ha | ha := List.mem_append.mp ha <;> obtain hb | hb := List.mem_append.mp hb
    · exact h a ha b hb
    · rw [List.mem_singleton.mp hb]
      exact hnew a ha
    · rw [List.mem_singleton.mp ha, eq_comm, hnew b hb, eq_comm]
    · rw [List.mem_singleton.mp ha, List.mem_singleton.mp hb]
      exact iff_of_true rfl rfl

/-! ## Maps -/

theorem lookup_emplace {map : AList fun _ : Text => Text} {key value : Text} (key' : Text) :
    (emplace key value map).lookup key' =
      if key' = key ∧ map.lookup key = none then some value else map.lookup key' := by
  unfold emplace
  cases hkey : map.lookup key with
  | some v => simp
  | none =>
    by_cases heq : key' = key
    · subst heq
      simp
    · simp [heq, AList.lookup_insert_ne heq]

namespace Naming

variable {text : DoubleText} {naming : Naming}

/-- What the two maps say: the first has the names that were given, the second has them too, each
    with the hash it was first given for. -/
structure Consistent (naming : Naming) : Prop where
  recorded : ∀ p ∈ naming.given,
    naming.state.contentHashToName.lookup (canonicalHash p.1) = some p.2
  known : ∀ hash name, naming.state.contentHashToName.lookup hash = some name →
    ∃ p ∈ naming.given, canonicalHash p.1 = hash ∧ p.2 = name
  taken : ∀ hash name, naming.state.contentHashToName.lookup hash = some name → naming.Taken name
  owner : ∀ name hash, naming.state.nameToContentHash.lookup name = some hash →
    naming.state.contentHashToName.lookup hash = some name

theorem Consistent.start : Consistent start :=
  ⟨nofun, nofun, nofun, nofun⟩

/-- What a call does: it finds the name of the hash, or records a new one. -/
theorem Consistent.componentName_cases (h : naming.Consistent) (base hash : Text) :
    (∃ name, naming.state.contentHashToName.lookup hash = some name ∧
      componentName base hash naming.state = (name, naming.state)) ∨
    (naming.state.contentHashToName.lookup hash = none ∧ ∃ name,
      ((name = baseOrSchema base ∧ ¬naming.Taken (baseOrSchema base)) ∨
        (name = baseOrSchema base ++ lit "_" ++ hash ∧ naming.Taken (baseOrSchema base))) ∧
      componentName base hash naming.state = (name, {
        contentHashToName := emplace hash name naming.state.contentHashToName
        nameToContentHash := emplace name hash naming.state.nameToContentHash })) := by
  unfold componentName Taken
  cases hhash : naming.state.contentHashToName.lookup hash with
  | some name => exact .inl ⟨name, rfl, rfl⟩
  | none =>
    refine .inr ⟨rfl, ?_⟩
    dsimp only
    cases hbase : naming.state.nameToContentHash.lookup (baseOrSchema base) with
    | none => exact ⟨_, .inl ⟨rfl, by simp⟩, rfl⟩
    | some found =>
      -- the base name cannot have been given for this hash, which has no name
      have hne : found ≠ hash := by
        rintro rfl
        rw [h.owner _ _ hbase] at hhash
        cases hhash
      exact ⟨_, .inr ⟨rfl, rfl⟩, if_neg hne⟩

/-- Every call keeps this, whether or not it is fresh. -/
theorem Consistent.call (h : naming.Consistent) (c : NamingCall) :
    (naming.call text c).Consistent := by
  obtain ⟨name, hfound, hcall⟩ | ⟨hnone, name, -, hcall⟩ :=
    h.componentName_cases c.base (computeSchemaHash text c.schema)
  · -- nothing is recorded
    have hnaming : naming.call text c =
        ⟨naming.state, naming.given ++ [(canonicalizeSchema text c.schema, name)]⟩ := by
      rw [Naming.call, getDeterministicComponentName, hcall]
    rw [hnaming]
    refine ⟨?_, fun hash other hother => ?_, h.taken, h.owner⟩
    · intro p hp
      obtain hp | hp := List.mem_append.mp hp
      · exact h.recorded p hp
      · rw [List.mem_singleton.mp hp]
        exact hfound
    · obtain ⟨p, hp, hpair⟩ := h.known hash other hother
      exact ⟨p, List.mem_append_left _ hp, hpair⟩
  · have hnaming : naming.call text c = ⟨{
        contentHashToName := emplace (computeSchemaHash text c.schema) name
          naming.state.contentHashToName
        nameToContentHash := emplace name (computeSchemaHash text c.schema)
          naming.state.nameToContentHash },
        naming.given ++ [(canonicalizeSchema text c.schema, name)]⟩ := by
      rw [Naming.call, getDeterministicComponentName, hcall]
    have hnew : ∀ hash other, (emplace (computeSchemaHash text c.schema) name
        naming.state.contentHashToName).lookup hash = some other ↔
        hash = computeSchemaHash text c.schema ∧ other = name ∨
          naming.state.contentHashToName.lookup hash = some other := by
      intro hash other
      rw [lookup_emplace]
      by_cases heq : hash = computeSchemaHash text c.schema
      · subst heq
        simp [hnone, eq_comm]
      · simp [heq]
    rw [hnaming]
    refine ⟨?_, fun hash other hother => ?_, fun hash other hother => ?_, fun other hash hother => ?_⟩
    · intro p hp
      rw [hnew]
      obtain hp | hp := List.mem_append.mp hp
      · exact .inr (h.recorded p hp)
      · rw [List.mem_singleton.mp hp]
        exact .inl ⟨rfl, rfl⟩
    · obtain ⟨rfl, rfl⟩ | hother := (hnew hash other).mp hother
      · exact ⟨_, List.mem_append_right _ (List.mem_singleton.mpr rfl), rfl, rfl⟩
      · obtain ⟨p, hp, hpair⟩ := h.known hash other hother
        exact ⟨p, List.mem_append_left _ hp, hpair⟩
    · show (AList.lookup other (emplace _ _ _)).isSome
      rw [lookup_emplace]
      obtain ⟨-, rfl⟩ | hother := (hnew hash other).mp hother
      · split
        · rfl
        · rename_i hsome
          exact Option.isSome_iff_ne_none.mpr fun hnil => hsome ⟨rfl, hnil⟩
      · split
        · rfl
        · exact h.taken hash other hother
    · rw [lookup_emplace] at hother
      rw [hnew]
      split at hother
      · rename_i hsome
        exact .inl ⟨(Option.some.inj hother).symm, hsome.1⟩
      · exact .inr (h.owner other hash hother)

/-- A call that keeps names and canonical forms in correspondence is just a fresh one. -/
theorem Consistent.bijective_call_iff (h : naming.Consistent) (hnames : NamesBijective naming.given)
    (c : NamingCall) : NamesBijective (naming.call text c).given ↔ naming.Fresh text c := by
  rw [Naming.call, namesBijective_concat hnames, getDeterministicComponentName]
  obtain ⟨name, hfound, hcall⟩ | ⟨hnone, name, hname, hcall⟩ :=
    h.componentName_cases c.base (computeSchemaHash text c.schema)
  · -- the hash was seen before, and the name is the one of its first form
    rw [hcall]
    obtain ⟨q, hq, hhash, rfl⟩ := h.known _ _ hfound
    constructor
    · intro hall
      refine ⟨fun p hp heq => (hall p hp).mp ?_, fun hnone => ?_⟩
      · have hp := h.recorded p hp
        rw [heq, hfound] at hp
        exact (Option.some.inj hp).symm
      · rw [hfound] at hnone
        cases hnone
    · intro hfresh p hp
      have hform := hfresh.hash q hq hhash
      rw [hnames p hp q hq, hform]
  · rw [hcall]
    constructor
    · intro hall
      refine ⟨fun p hp heq => ?_, fun _ htaken hunique => ?_⟩
      · have hp := h.recorded p hp
        rw [heq, hnone] at hp
        cases hp
      · -- the made-up name has an owner, whose form is another one
        obtain ⟨-, hfree⟩ | ⟨rfl, -⟩ := hname
        · exact hfree htaken
        · obtain ⟨hash, hhash⟩ := Option.isSome_iff_exists.mp hunique
          obtain ⟨p, hp, rfl, hpname⟩ := h.known _ _ (h.owner _ _ hhash)
          have hform := (hall p hp).mp hpname
          have hp := h.recorded p hp
          rw [hform] at hp
          exact absurd hnone (by rw [computeSchemaHash, hp]; nofun)
    · intro hfresh p hp
      have hfree : ¬naming.Taken name := by
        obtain ⟨rfl, hfree⟩ | ⟨rfl, htaken⟩ := hname
        · exact hfree
        · exact hfresh.name hnone htaken
      have hrecorded := h.recorded p hp
      constructor
      · rintro rfl
        exact absurd (h.taken _ _ hrecorded) hfree
      · intro hform
        rw [hform] at hrecorded
        exact absurd hnone (by rw [computeSchemaHash, hrecorded]; nofun)

theorem given_subset_calls (cs : List NamingCall) :
    naming.given ⊆ (naming.calls text cs).given := by
  induction cs generalizing naming with
  | nil => exact fun _ h => h
  | cons c cs ih => exact fun p hp => ih (List.mem_append_left _ hp)

/-- From any state that was reached, a run keeps the correspondence just if all its calls are
    fresh. -/
theorem Consistent.bijective_calls_iff (h : naming.Consistent)
    (hnames : NamesBijective naming.given) (cs : List NamingCall) :
    NamesBijective (naming.calls text cs).given ↔ naming.EveryFresh text cs := by
  induction cs generalizing naming with
  | nil => exact iff_of_true hnames trivial
  | cons c cs ih =>
    have hstep : NamesBijective (naming.call text c).given ↔ naming.Fresh text c :=
      h.bijective_call_iff hnames c
    constructor
    · intro hall
      have hcall : NamesBijective (naming.call text c).given := hall.mono (given_subset_calls cs)
      exact ⟨hstep.mp hcall, (ih (h.call c) hcall).mp hall⟩
    · rintro ⟨hfresh, hrest⟩
      exact (ih (h.call c) (hstep.mpr hfresh)).mpr hrest

end Naming

/-- In every sequence of calls, names and canonical forms correspond, and a form keeps its name, if
    and only if no two forms share a truncated hash and no made-up name was taken. -/
theorem component_names_bijective_iff (text : DoubleText) (cs : List NamingCall) :
    NamesBijective (Naming.start.calls text cs).given ↔ Naming.start.EveryFresh text cs :=
  Naming.Consistent.start.bijective_calls_iff nofun cs

/-- Two schemas, and the texts of doubles, which they do not have. -/
def formatAa : NamingCall := ⟨lit "User", { format := some (lit "Aa") }⟩

def formatBB : NamingCall := ⟨lit "Post", { format := some (lit "BB") }⟩

def noDoubles : DoubleText := ⟨fun _ => [], fun _ => []⟩

/-- The formats `Aa` and `BB` have one hash, and the second schema gets the name of the first. -/
theorem formats_share_name :
    ¬NamesBijective (Naming.start.calls noDoubles [formatAa, formatBB]).given := by
  intro h
  have hgiven : (Naming.start.calls noDoubles [formatAa, formatBB]).given =
      [(canonicalizeSchema noDoubles formatAa.schema, lit "User"),
        (canonicalizeSchema noDoubles formatBB.schema, lit "User")] := by decide +kernel
  rw [hgiven] at h
  have hform := (h _ (.head _) _ (.tail _ (.head _))).mp rfl
  exact absurd hform (by decide +kernel)

end MetalOrm.Native.OpenApi
