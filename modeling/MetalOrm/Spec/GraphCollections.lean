import Mathlib.Algebra.Order.BigOperators.Group.List
import Mathlib.Data.Nat.Pairing
import MetalOrm.Native.GraphPersistence
import MetalOrm.Spec.TransactionProtocol

/-!
# The members of a graph collection

`apply_collection` obtains a target for each entry, puts it into the collection, and remembers the
key that it has then. What an entry obtains may flush the session, which gives keys to the targets
of earlier entries; the pruning compares the keys of the end with those that were remembered.

## Key results

- `applyCollection_iff`: when the members in the end are those of the entries
-/

namespace MetalOrm.Native.Graph

open ForStd ForStd.Prog RelationChange SessionM

variable {D Q : Type} (loader : Loader D Members Q) (site : Site)

/-! ## Members and their keys -/

/-- The members of the collection. -/
def Site.members (w : World D Members) : List Key :=
  ((w.uow.heap site.root).runtime.collections site.index).items

/-- The key of an object as a text, if it has one. -/
def Site.text (w : World D Members) (object : Key) : Option (List UInt8) :=
  keyText loader.env (site.keyMember loader) w.uow object

/-- The objects are one, or they have one key. -/
def Same (w : World D Members) (a b : Key) : Prop :=
  a = b ∨ ∃ key, site.text loader w a = some key ∧ site.text loader w b = some key

/-- The collection as a load leaves it: its hooks are bound, and no two members are the same or
    have the same key. -/
structure Loaded (w : World D Members) : Prop where
  bound : (w.uow.heap site.root).runtime.bound = true
  distinct : (site.members w).Pairwise fun a b => ¬ Same loader site w a b

/-- The foreign key of a target is another member than its key. -/
def Site.Regular : Prop :=
  match site.relation with
  | .hasMany r => r.targetForeignKey.column ≠ site.keyMember loader
  | .manyToMany _ => True

/-! ## Rounds -/

/-- The target of an item, before it is put into the collection. -/
def acquire (options : GraphOptions) (item : GraphItem D) : SessionM D Members Key := do
  match item.content, site.relation with
  | .key key, .manyToMany r =>
    let typed ← convertKey loader site.target r.targetKey key
    match ← identityItem loader r site.root typed with
    | some item => return item
    | none => idFactory loader r site.target typed
  | content, _ => itemTarget loader site options content

/-- The key that is remembered for an item. -/
def remembered (item : GraphItem D) (target : Key) (w : World D Members) : Option (List UInt8) :=
  match item.content, site.relation with
  | .key key, .manyToMany _ => some (loader.env.valueKey key)
  | _, _ => site.text loader w target

/-- A round of the loop: the session before it, when the target is acquired, and when it is put
    into the collection. -/
structure Round (D : Type) where
  item : GraphItem D
  target : Key
  before : World D Members
  acquired : World D Members
  after : World D Members

/-- The rounds of the loop over the items. -/
inductive Rounds (options : GraphOptions) :
    List (GraphItem D) → World D Members → List (Round D) → World D Members → Prop where
  | nil (w : World D Members) : Rounds options [] w [] w
  | cons {item : GraphItem D} {items : List (GraphItem D)} {target : Key}
    {w acquired after w' : World D Members} {rounds : List (Round D)}
    (hacquire : exec (acquire loader site options item) w = (.ok target, acquired))
    (hput : exec (attachItem loader site target item.pivot) acquired = (.ok (), after))
    (hrest : Rounds options items after rounds w') :
    Rounds options (item :: items) w ({ item, target, before := w, acquired, after } :: rounds) w'

/-- What obtaining a target may do to the members and to the targets of earlier items: members may
    be added, and keys may be given to those without one, as long as no two members get the same. -/
structure Undisturbed (targets : List Key) (w w' : World D Members) : Prop where
  kept : site.members w ⊆ site.members w'
  texts : ∀ object ∈ site.members w ++ targets, ∀ key, site.text loader w object = some key →
    site.text loader w' object = some key
  loaded : Loaded loader site w'

/-- In each round the target is acquired without a disturbance. -/
def Calm : List Key → List (Round D) → Prop
  | _, [] => True
  | targets, round :: rounds =>
    Undisturbed loader site targets round.before round.acquired ∧
      Calm (targets ++ [round.target]) rounds

/-- Every earlier member is there, every item is represented, and no key is there twice. -/
structure Gathered (members : List Key) (targets : List Key) (w : World D Members) : Prop where
  earlier : members ⊆ site.members w
  represented : ∀ target ∈ targets, ∃ member ∈ site.members w, Same loader site w member target
  loaded : Loaded loader site w

/-- The members are the targets of the items and the earlier members without a key, and no key is
    there twice. -/
structure Pruned (members : List Key) (targets : List Key) (w : World D Members) : Prop where
  keyless : ∀ member ∈ members, site.text loader w member = none → member ∈ site.members w
  represented : ∀ target ∈ targets, ∃ member ∈ site.members w, Same loader site w member target
  exact : ∀ member ∈ site.members w, (∃ target ∈ targets, Same loader site w member target) ∨
    member ∈ members ∧ site.text loader w member = none
  loaded : Loaded loader site w

/-- The keys that members have when the pruning starts are remembered just where they are keys of
    targets, and a member without a key is an earlier one or a target. -/
structure Remembered (members : List Key) (rounds : List (Round D)) (w : World D Members) :
    Prop where
  keyed : ∀ member ∈ site.members w, ∀ key, site.text loader w member = some key →
    ((∃ round ∈ rounds, remembered loader site round.item round.target round.after = some key) ↔
      ∃ round ∈ rounds, site.text loader w round.target = some key)
  keyless : ∀ member ∈ site.members w, site.text loader w member = none →
    member ∈ members ∨ ∃ round ∈ rounds, round.target = member

section

variable {loader site} {w w' : World D Members} {a b target : Key}

theorem Same.symm (h : Same loader site w a b) : Same loader site w b a := by
  obtain rfl | ⟨key, ha, hb⟩ := h
  · exact .inl rfl
  · exact .inr ⟨key, hb, ha⟩

theorem same_congr (h : ∀ object, site.text loader w' object = site.text loader w object) :
    Same loader site w' a b ↔ Same loader site w a b := by
  simp only [Same, h]

/-! ## Putting a target into the collection -/

/-- What `attachItem` does: the target becomes a member unless it is represented. -/
structure Put (loader : Loader D Members Q) (site : Site) (target : Key)
    (w w' : World D Members) : Prop where
  texts : ∀ object, site.text loader w' object = site.text loader w object
  bound : (w'.uow.heap site.root).runtime.bound = (w.uow.heap site.root).runtime.bound
  members : (site.members w' = site.members w ∧
      ∃ member ∈ site.members w, Same loader site w member target) ∨
    (site.members w' = site.members w ++ [target] ∧
      ∀ member ∈ site.members w, ¬ Same loader site w member target)

/-- The session after an assignment to the relation members of the root. -/
def withMembers (site : Site) (w : World D Members) (f : Members → Members) : World D Members :=
  { w with uow := w.uow.setRuntime site.root (f (w.uow.heap site.root).runtime) }

theorem exec_assignRuntime (f : Members → Members) :
    exec (assignRuntime site.root f) w = (.ok (), withMembers site w f) := rfl

@[simp] theorem runtime_withMembers (f : Members → Members) :
    ((withMembers site w f).uow.heap site.root).runtime = f (w.uow.heap site.root).runtime := by
  simp [withMembers, UowState.setRuntime]

@[simp] theorem text_withMembers (f : Members → Members) (object : Key) :
    site.text loader (withMembers site w f) object = site.text loader w object := by
  have hcolumns : ((withMembers site w f).uow.heap object).columns =
      (w.uow.heap object).columns := by
    by_cases h : object = site.root <;> simp [withMembers, UowState.setRuntime, h]
  simp only [Site.text, keyText, hcolumns]

theorem members_withMembers (f : Members → Members) : site.members (withMembers site w f) =
    ((f (w.uow.heap site.root).runtime).collections site.index).items := by
  rw [Site.members, runtime_withMembers]

/-- A change to another column of an object changes no key. -/
theorem text_setColumn {column : Name} (hcolumn : column ≠ site.keyMember loader) {object : Key}
    {value : Value} (h : exec (setColumn object column value) w = (.ok (), w')) (other : Key) :
    site.text loader w' other = site.text loader w other := by
  cases h
  have hkey : ((w.uow.setColumns object (Function.update (w.uow.heap object).columns column
      value)).heap other).columns (site.keyMember loader) =
        (w.uow.heap other).columns (site.keyMember loader) := by
    by_cases heq : other = object
    · subst heq
      simp [UowState.setColumns, Function.update_of_ne hcolumn.symm]
    · simp [UowState.setColumns, heq]
  simp only [Site.text, keyText, hkey]

theorem present_iff : present loader site w.uow (site.members w) target = true ↔
    ∃ member ∈ site.members w, Same loader site w member target := by
  unfold present Same Site.text
  rw [List.any_eq_true]
  refine exists_congr fun member => and_congr_right fun _ => ?_
  rw [Bool.or_eq_true, Bool.and_eq_true, beq_iff_eq, beq_iff_eq, Option.isSome_iff_exists]
  refine or_congr_right ⟨?_, ?_⟩
  · rintro ⟨⟨key, hkey⟩, heq⟩
    exact ⟨key, hkey, heq ▸ hkey⟩
  · rintro ⟨key, hmember, htarget⟩
    exact ⟨⟨key, hmember⟩, hmember.trans htarget.symm⟩

/-- The hook of a `has_many` assigns a foreign key, which is no key of a target. -/
theorem attachHook_keeps {r : HasTargets} (hregular : r.targetForeignKey.column ≠ site.keyMember loader)
    (h : exec (attachHook r site.root target) w = (.ok (), w')) :
    (∀ object, site.text loader w' object = site.text loader w object) ∧
      ∀ object, (w'.uow.heap object).runtime = (w.uow.heap object).runtime := by
  unfold attachHook at h
  obtain ⟨m, v, hm, h⟩ := exec_bind_eq_ok.mp h
  cases hm
  split at h
  · obtain ⟨key, v, hkey, h⟩ := exec_bind_eq_ok.mp h
    cases hkey
    unfold assignMember at h
    split at h
    · refine ⟨text_setColumn hregular h, fun object => ?_⟩
      cases h
      by_cases heq : object = target <;> simp [UowState.setColumns, heq]
    · cases h
  · cases h
    exact ⟨fun _ => rfl, fun _ => rfl⟩

theorem put_hasMany {r : HasTargets} {pivot : Option PivotPatch} (hrelation : site.relation = .hasMany r)
    (hregular : site.Regular loader)
    (h : exec (attachItem loader site target pivot) w = (.ok (), w')) :
    Put loader site target w w' := by
  unfold Site.Regular at hregular
  have hindex : site.index = r.index := by rw [Site.index, hrelation]
  unfold attachItem at h
  rw [hrelation] at h hregular
  obtain ⟨s, v, hs, h⟩ := exec_bind_eq_ok.mp h
  cases hs
  obtain ⟨m, v, hm, h⟩ := exec_bind_eq_ok.mp h
  cases hm
  have hmembers : ((w.uow.heap site.root).runtime.collections r.index).items = site.members w := by
    rw [Site.members, hindex]
  rw [hmembers] at h
  by_cases hpresent : present loader site w.uow (site.members w) target = true
  · rw [hpresent] at h
    cases h
    exact ⟨fun _ => rfl, rfl, .inl ⟨rfl, present_iff.mp hpresent⟩⟩
  · rw [Bool.not_eq_true] at hpresent
    rw [hpresent] at h
    obtain ⟨_, hooked, hhook, h⟩ := exec_bind_eq_ok.mp h
    obtain ⟨htexts, hruntime⟩ := attachHook_keeps hregular hhook
    rw [exec_assignRuntime] at h
    cases h
    refine ⟨fun object => (text_withMembers _ object).trans (htexts object), ?_, .inr ⟨?_, ?_⟩⟩
    · rw [runtime_withMembers, hruntime]
      rfl
    · rw [members_withMembers, hruntime, hindex]
      simp [Members.setCollection, Site.members, hindex]
    · intro member hmember hsame
      have := present_iff.mpr ⟨member, hmember, hsame⟩
      rw [hpresent] at this
      cases this

/-- A patch changes no member. -/
theorem applyPatch_keeps {r : ManyToMany} {patch : PivotPatch} {value : Key}
    (h : exec (applyPatch r site.root value patch) w = (.ok (), w')) :
    (∀ object, site.text loader w' object = site.text loader w object) ∧
      (w'.uow.heap site.root).runtime.bound = (w.uow.heap site.root).runtime.bound ∧
        site.members w' = site.members w := by
  unfold applyPatch at h
  split at h
  · cases h
    exact ⟨fun _ => rfl, rfl, rfl⟩
  · rw [exec_assignRuntime] at h
    cases h
    refine ⟨text_withMembers _, ?_, ?_⟩
    · rw [runtime_withMembers]
    · rw [members_withMembers]
      rfl

/-- In a bound `many_to_many`, equivalent targets are the same or have the same key. -/
theorem sameEntity_iff {r : ManyToMany} (hrelation : site.relation = .manyToMany r)
    (hbound : (w.uow.heap site.root).runtime.bound = true) :
    sameEntity loader.env r w.uow (w.uow.heap site.root).runtime a b = true ↔
      Same loader site w a b := by
  have htext : ∀ object, identityKey loader.env r w.uow object = site.text loader w object := by
    intro object
    simp only [identityKey, Site.text, keyText, Site.keyMember, hrelation]
  simp only [sameEntity, hbound, htext, Same, Bool.true_and, Bool.or_eq_true, Bool.and_eq_true,
    beq_iff_eq, Option.isSome_iff_exists]
  refine or_congr_right ⟨?_, ?_⟩
  · rintro ⟨⟨key, hkey⟩, heq⟩
    exact ⟨key, hkey, heq ▸ hkey⟩
  · rintro ⟨key, ha, hb⟩
    exact ⟨⟨key, ha⟩, ha.trans hb.symm⟩

theorem put_manyToMany {r : ManyToMany} {pivot : Option PivotPatch}
    (hrelation : site.relation = .manyToMany r)
    (hbound : (w.uow.heap site.root).runtime.bound = true)
    (h : exec (attachItem loader site target pivot) w = (.ok (), w')) :
    Put loader site target w w' := by
  have hindex : site.index = r.index := by rw [Site.index, hrelation]
  have hmembers : ((w.uow.heap site.root).runtime.collections r.index).items = site.members w := by
    rw [Site.members, hindex]
  unfold attachItem at h
  rw [hrelation] at h
  unfold attachImpl at h
  obtain ⟨s, v, hs, h⟩ := exec_bind_eq_ok.mp h
  cases hs
  obtain ⟨m, v, hm, h⟩ := exec_bind_eq_ok.mp h
  cases hm
  rw [hmembers] at h
  split at h
  · next existing hfind =>
    obtain ⟨htexts, hsame, hitems⟩ := @applyPatch_keeps _ _ loader _ _ _ _ _ _ h
    refine ⟨htexts, hsame, .inl ⟨hitems, existing, List.mem_of_find?_eq_some hfind, ?_⟩⟩
    have hequivalent := List.find?_some hfind
    exact (sameEntity_iff hrelation hbound).mp hequivalent
  · next hnone =>
    obtain ⟨_, patched, hpatch, h⟩ := exec_bind_eq_ok.mp h
    obtain ⟨htexts, hsame, hitems⟩ := @applyPatch_keeps _ _ loader _ _ _ _ _ _ hpatch
    rw [exec_assignRuntime] at h
    cases h
    refine ⟨fun object => (text_withMembers _ object).trans (htexts object), ?_, .inr ⟨?_, ?_⟩⟩
    · rw [runtime_withMembers]
      exact hsame
    · rw [members_withMembers, hindex, ← hitems]
      simp [Members.setCollection, Site.members, hindex]
    · intro member hmember hrepresented
      exact List.find?_eq_none.mp hnone member hmember
        ((sameEntity_iff hrelation hbound).mpr hrepresented)

theorem attachItem_put {pivot : Option PivotPatch} (hregular : site.Regular loader)
    (hbound : (w.uow.heap site.root).runtime.bound = true)
    (h : exec (attachItem loader site target pivot) w = (.ok (), w')) :
    Put loader site target w w' := by
  cases hrelation : site.relation with
  | hasMany r => exact put_hasMany hrelation hregular h
  | manyToMany r => exact put_manyToMany hrelation hbound h

/-! ## The rounds of the loop -/

/-- For an item that has the identity, `attach_impl` does what `attach_id_value` does. -/
theorem attachImpl_found {r : ManyToMany} {key : Value} {patch : PivotPatch} {item : Key}
    (hbound : (w.uow.heap site.root).runtime.bound = true)
    (hfind : ((w.uow.heap site.root).runtime.collections r.index).items.find? (fun item =>
      identityKey loader.env r w.uow item == some (loader.env.valueKey key)) = some item) :
    exec (attachImpl loader r site.root item patch) w =
      exec (applyPatch r site.root item patch) w := by
  have hitem : identityKey loader.env r w.uow item = some (loader.env.valueKey key) := by
    simpa using List.find?_some hfind
  have hsame : (fun candidate => sameEntity loader.env r w.uow (w.uow.heap site.root).runtime
      candidate item) = fun candidate =>
        identityKey loader.env r w.uow candidate == some (loader.env.valueKey key) := by
    funext candidate
    rw [Bool.eq_iff_iff]
    simp only [sameEntity, hbound, hitem, Bool.true_and, Bool.or_eq_true, Bool.and_eq_true,
      beq_iff_eq]
    constructor
    · rintro (rfl | ⟨-, hcandidate⟩)
      · exact hitem
      · exact hcandidate
    · exact fun hcandidate => .inr ⟨by rw [hcandidate]; rfl, hcandidate⟩
  unfold attachImpl
  rw [exec_bind_ok (by rfl), exec_bind_ok (by rfl)]
  simp only [hsame, hfind]

/-- The search for an identity needs a bound collection, and changes nothing. -/
theorem exec_identityItem {r : ManyToMany} {key : Value} {found : Option Key}
    (h : exec (identityItem loader r site.root key) w = (.ok found, w')) :
    w' = w ∧ (w.uow.heap site.root).runtime.bound = true ∧
      ((w.uow.heap site.root).runtime.collections r.index).items.find? (fun item =>
        identityKey loader.env r w.uow item == some (loader.env.valueKey key)) = found := by
  unfold identityItem at h
  obtain ⟨s, v, hs, h⟩ := exec_bind_eq_ok.mp h
  cases hs
  obtain ⟨m, v, hm, h⟩ := exec_bind_eq_ok.mp h
  cases hm
  obtain ⟨_, v, hthrow, h⟩ := exec_bind_eq_ok.mp h
  cases hbound : (w.uow.heap site.root).runtime.bound with
  | false =>
    rw [hbound] at hthrow
    cases hthrow
  | true =>
    rw [hbound] at hthrow
    cases hthrow
    cases h
    exact ⟨rfl, rfl, rfl⟩

/-- A round obtains a target, puts it into the collection and remembers its key. -/
theorem exec_applyItem {options : GraphOptions} {item : GraphItem D}
    {seen : Option (List UInt8)} (h : exec (applyItem loader site options item) w = (.ok seen, w')) :
    ∃ target acquired, exec (acquire loader site options item) w = (.ok target, acquired) ∧
      exec (attachItem loader site target item.pivot) acquired = (.ok (), w') ∧
        seen = remembered loader site item target w' := by
  have hother : ∀ content, exec (do
      let target ← itemTarget loader site options content
      attachItem loader site target item.pivot
      return keyText loader.env (site.keyMember loader) (← get).uow target) w = (.ok seen, w') →
      ∃ target acquired, exec (itemTarget loader site options content) w = (.ok target, acquired) ∧
        exec (attachItem loader site target item.pivot) acquired = (.ok (), w') ∧
          seen = site.text loader w' target := by
    intro content h
    obtain ⟨target, acquired, htarget, h⟩ := exec_bind_eq_ok.mp h
    obtain ⟨_, after, hput, h⟩ := exec_bind_eq_ok.mp h
    obtain ⟨_, _, hget, h⟩ := exec_bind_eq_ok.mp h
    cases hget
    cases h
    exact ⟨target, acquired, htarget, hput, rfl⟩
  unfold applyItem at h
  unfold acquire remembered
  cases hcontent : item.content with
  | payload payload =>
    rw [hcontent] at h
    exact hother _ h
  | entity entity =>
    rw [hcontent] at h
    exact hother _ h
  | key key =>
    cases hrelation : site.relation with
    | hasMany r =>
      rw [hcontent, hrelation] at h
      exact hother _ h
    | manyToMany r =>
      rw [hcontent, hrelation] at h
      obtain ⟨typed, converted, hconvert, h⟩ := exec_bind_eq_ok.mp h
      obtain ⟨_, after, hattach, h⟩ := exec_bind_eq_ok.mp h
      cases h
      obtain ⟨found, searched, hfound, hattach⟩ := exec_bind_eq_ok.mp hattach
      obtain ⟨rfl, hbound, hfind⟩ := exec_identityItem hfound
      have hput : ∀ target w, exec (attachItem loader site target item.pivot) w =
          exec (attachImpl loader r site.root target (item.pivot.getD [])) w := by
        intro target w
        unfold attachItem
        rw [hrelation]
      simp only [hput]
      rw [exec_bind_ok hconvert, exec_bind_ok hfound]
      cases found with
      | some member =>
        exact ⟨member, searched, rfl, by rw [attachImpl_found hbound hfind]; exact hattach, by simp⟩
      | none =>
        obtain ⟨target, acquired, hmake, hattach⟩ := exec_bind_eq_ok.mp hattach
        exact ⟨target, acquired, hmake, hattach, by simp⟩

/-- The keys that a round remembers. -/
def Round.remembered (loader : Loader D Members Q) (site : Site) (round : Round D) :
    Option (List UInt8) :=
  Graph.remembered loader site round.item round.target round.after

/-- The loop that returns went through rounds, and has seen what they remembered. -/
theorem exec_applyItems {options : GraphOptions} {items : List (GraphItem D)}
    {seen : List (List UInt8)}
    (h : exec (applyItems loader site options items) w = (.ok seen, w')) :
    ∃ rounds, Rounds loader site options items w rounds w' ∧
      ∀ key, key ∈ seen ↔ ∃ round ∈ rounds, round.remembered loader site = some key := by
  induction items generalizing w seen with
  | nil =>
    cases h
    exact ⟨[], .nil _, by simp⟩
  | cons item items ih =>
    unfold applyItems at h
    obtain ⟨text, after, hitem, h⟩ := exec_bind_eq_ok.mp h
    obtain ⟨rest, final, hrest, h⟩ := exec_bind_eq_ok.mp h
    cases h
    obtain ⟨target, acquired, hacquire, hput, rfl⟩ := exec_applyItem hitem
    obtain ⟨rounds, hrounds, hseen⟩ := ih hrest
    refine ⟨_, .cons hacquire hput hrounds, fun key => ?_⟩
    rw [List.mem_append, Option.mem_toList, hseen, List.exists_mem_cons_iff]
    rfl

/-! ## What the rounds gather -/

theorem Loaded.put (hput : Put loader site target w w') (h : Loaded loader site w) :
    Loaded loader site w' where
  bound := hput.bound.trans h.bound
  distinct := by
    have hdistinct : (site.members w).Pairwise fun a b => ¬ Same loader site w' a b :=
      h.distinct.imp fun hdifferent hsame => hdifferent ((same_congr hput.texts).mp hsame)
    obtain ⟨hmembers, -⟩ | ⟨hmembers, hnone⟩ := hput.members
    · rwa [hmembers]
    · rw [hmembers, List.pairwise_append]
      refine ⟨hdistinct, List.pairwise_singleton _ _, fun member hmember last hlast hsame => ?_⟩
      rw [List.mem_singleton.mp hlast] at hsame
      exact hnone member hmember ((same_congr hput.texts).mp hsame)

theorem Put.kept (hput : Put loader site target w w') : site.members w ⊆ site.members w' := by
  obtain ⟨hmembers, -⟩ | ⟨hmembers, -⟩ := hput.members
  · rw [hmembers]
    exact List.Subset.refl _
  · rw [hmembers]
    exact List.subset_append_left _ _

/-- The target is represented when it has been put into the collection. -/
theorem Put.represented (hput : Put loader site target w w') :
    ∃ member ∈ site.members w', Same loader site w' member target := by
  obtain ⟨hmembers, member, hmember, hsame⟩ | ⟨hmembers, -⟩ := hput.members
  · exact ⟨member, hmembers ▸ hmember, (same_congr hput.texts).mpr hsame⟩
  · exact ⟨target, by rw [hmembers]; simp, .inl rfl⟩

/-- A round keeps what was gathered, and gathers its target. -/
theorem Gathered.round {earlier targets : List Key} {acquired : World D Members}
    (hcalm : Undisturbed loader site targets w acquired)
    (hput : Put loader site target acquired w') (h : Gathered loader site earlier targets w) :
    Gathered loader site earlier (targets ++ [target]) w' where
  earlier := fun member hmember => hput.kept (hcalm.kept (h.earlier hmember))
  represented := by
    intro wanted hwanted
    obtain hwanted | hlast := List.mem_append.mp hwanted
    · obtain ⟨member, hmember, hsame⟩ := h.represented wanted hwanted
      refine ⟨member, hput.kept (hcalm.kept hmember), (same_congr hput.texts).mpr ?_⟩
      -- Keys that are there stay.
      obtain rfl | ⟨key, hkey, hkey'⟩ := hsame
      · exact .inl rfl
      · exact .inr ⟨key, hcalm.texts member (List.mem_append_left _ hmember) key hkey,
          hcalm.texts wanted (List.mem_append_right _ hwanted) key hkey'⟩
    · rw [List.mem_singleton.mp hlast]
      exact hput.represented
  loaded := .put hput hcalm.loaded

/-- The rounds gather their targets. -/
theorem Rounds.gathered {options : GraphOptions} {items : List (GraphItem D)}
    {rounds : List (Round D)} (hregular : site.Regular loader)
    (hrounds : Rounds loader site options items w rounds w') {earlier targets : List Key}
    (hcalm : Calm loader site targets rounds) (h : Gathered loader site earlier targets w) :
    Gathered loader site earlier (targets ++ rounds.map Round.target) w' := by
  induction hrounds generalizing targets with
  | nil w => simpa using h
  | cons hacquire hput hrest ih =>
    obtain ⟨hfirst, hcalm⟩ := hcalm
    have hround := h.round hfirst (attachItem_put hregular hfirst.loaded.bound hput)
    have hgathered := ih hcalm hround
    rwa [List.append_assoc] at hgathered

/-! ## Rounds without a disturbance -/

/-- Of the objects, only some are touched. -/
structure Apart (touched : Key → Prop) (w w' : World D Members) : Prop where
  columns : ∀ object, ¬ touched object →
    (w'.uow.heap object).columns = (w.uow.heap object).columns
  collections : ∀ object, ¬ touched object →
    (w'.uow.heap object).runtime.collections = (w.uow.heap object).runtime.collections
  bound : ∀ object, ¬ touched object → (w.uow.heap object).runtime.bound = true →
    (w'.uow.heap object).runtime.bound = true

variable {touched : Key → Prop}

instance : IsPreorder (World D Members) (Apart touched) where
  refl _ := ⟨fun _ _ => rfl, fun _ _ => rfl, fun _ _ h => h⟩
  trans _ _ _ h h' :=
    ⟨fun object ho => (h'.columns object ho).trans (h.columns object ho),
      fun object ho => (h'.collections object ho).trans (h.collections object ho),
      fun object ho hbound => h'.bound object ho (h.bound object ho hbound)⟩

/-- The objects stay as they are. -/
theorem Apart.of_heap (h : w'.uow.heap = w.uow.heap) : Apart touched w w' := by
  refine ⟨fun object _ => ?_, fun object _ => ?_, fun object _ hbound => ?_⟩
  · rw [h]
  · rw [h]
  · rwa [h]

/-- `Session::persist` changes no column and no collection. -/
theorem persist_apart {env : Env D Members}
    (hcollections : ∀ key m, (env.bindRelations key m).collections = m.collections)
    (hbound : ∀ key m, m.bound = true → (env.bindRelations key m).bound = true) (object : Key) :
    Preserves (Apart touched) (Session.persist env object) := by
  refine Preserves.get_bind fun w => ?_
  cases htracked : w.uow.tracked object with
  | some tracked =>
    dsimp only
    split
    · exact .of_heap (w.uow.updateTracked_frame object _).1
    · exact refl_of (Apart touched) w
  | none =>
    have hbind : Preserves (Apart touched)
        (assignRuntime object (env.bindRelations object) : SessionM D Members Unit) := by
      intro w
      refine ⟨fun other _ => ?_, fun other _ => ?_, fun other _ h => ?_⟩
      · by_cases heq : other = object <;>
          simp [assignRuntime, modifyUow, UowState.setRuntime, heq]
      · by_cases heq : other = object
        · subst heq
          simpa [assignRuntime, modifyUow, UowState.setRuntime] using hcollections _ _
        · simp [assignRuntime, modifyUow, UowState.setRuntime, heq]
      · by_cases heq : other = object
        · subst heq
          simpa [assignRuntime, modifyUow, UowState.setRuntime] using hbound _ _ h
        · simpa [assignRuntime, modifyUow, UowState.setRuntime, heq] using h
    have htrack : ∀ status, Preserves (Apart touched) (Session.track env object status) :=
      fun status => (Session.snapshot_preserves env object).bind fun current =>
        Preserves.bind (fun w => .of_heap rfl) fun _ => hbind.bind fun _ =>
          Session.registerIdentity_preserves env (fun w identity => .of_heap rfl) object
    exact (Session.getPk_preserves env object).bind (fun pk => htrack _) w

/-- What touches neither the root nor a member nor an earlier target disturbs nothing. -/
theorem Undisturbed.of_apart {targets : List Key} (h : Apart touched w w')
    (hloaded : Loaded loader site w) (hroot : ¬ touched site.root)
    (hobjects : ∀ object ∈ site.members w ++ targets, ¬ touched object) :
    Undisturbed loader site targets w w' := by
  have hmembers : site.members w' = site.members w := by
    rw [Site.members, h.collections _ hroot]
    rfl
  have htexts : ∀ object ∈ site.members w ++ targets,
      site.text loader w' object = site.text loader w object := by
    intro object hobject
    simp only [Site.text, keyText, h.columns _ (hobjects object hobject)]
  refine ⟨by rw [hmembers]; exact List.Subset.refl _, fun object hobject key hkey => ?_,
    h.bound _ hroot hloaded.bound, ?_⟩
  · rw [htexts object hobject, hkey]
  · rw [hmembers]
    refine hloaded.distinct.imp_of_mem fun {a b} ha hb hdifferent hsame => hdifferent ?_
    unfold Same at hsame ⊢
    rwa [htexts a (List.mem_append_left _ ha), htexts b (List.mem_append_left _ hb)] at hsame

/-- An entity is put in as it is: nothing is disturbed. -/
theorem undisturbed_entity {options : GraphOptions} {entity : Key} {pivot : Option PivotPatch}
    {targets : List Key}
    (hcollections : ∀ key m, (loader.env.bindRelations key m).collections = m.collections)
    (hbound : ∀ key m, m.bound = true → (loader.env.bindRelations key m).bound = true)
    (hloaded : Loaded loader site w)
    (h : exec (acquire loader site options ⟨.entity entity, pivot⟩) w = (.ok target, w')) :
    target = entity ∧ Undisturbed loader site targets w w' := by
  have hacquire : exec (do
      if !(← contains entity) then Session.persist loader.env entity
      return entity) w = (.ok target, w') := h
  have hpreserves : Preserves (Apart fun _ => False) (do
      if !(← contains entity) then Session.persist loader.env entity
      return entity : SessionM D Members Key) := by
    refine Preserves.bind (.of_refl fun _ => rfl) fun tracked => ?_
    exact .ite (fun _ => (persist_apart hcollections hbound entity).bind fun _ => .pure _)
      fun _ => .pure _
  have hapart := hpreserves w
  rw [hacquire] at hapart
  refine ⟨?_, .of_apart hapart hloaded (fun h => h) fun _ _ h => h⟩
  obtain ⟨_, _, -, hreturn⟩ := exec_bind_eq_ok.mp hacquire
  dsimp only at hreturn
  split at hreturn
  · obtain ⟨_, _, -, hreturn⟩ := exec_bind_eq_ok.mp hreturn
    cases hreturn
    rfl
  · cases hreturn
    rfl

/-- A payload without a key starts with a new object. -/
theorem exec_payloadEntity {payload : GraphPayload D} (hkey : payload.primaryKey = none)
    (h : exec (payloadEntity loader payload) w = (.ok target, w')) :
    target = loader.allocate payload.type w.uow ∧ Apart (· = target) w w' := by
  unfold payloadEntity Loader.construct at h
  rw [hkey] at h
  obtain ⟨s, v, hs, h⟩ := exec_bind_eq_ok.mp h
  cases hs
  dsimp only at h
  split at h
  · cases h
  · obtain ⟨_, made, hmade, h⟩ := exec_bind_eq_ok.mp h
    cases h
    cases hmade
    refine ⟨rfl, fun object ho => ?_, fun object ho => ?_, fun object ho hbound => ?_⟩
    · simp [Function.update_of_ne ho]
    · simp [Function.update_of_ne ho]
    · simpa [Function.update_of_ne ho] using hbound

theorem applyScalars_apart (payload : GraphPayload D) (entity : Key) :
    Preserves (Apart (· = entity)) (payload.applyScalars entity) := by
  refine Preserves.forM fun (member, value) _ w => ?_
  refine ⟨fun object ho => ?_, fun object ho => ?_, fun object ho hbound => ?_⟩
  · simp [setColumn, assign, modifyUow, UowState.setColumns, Function.update_of_ne ho]
  · simp [setColumn, assign, modifyUow, UowState.setColumns, Function.update_of_ne ho]
  · simpa [setColumn, assign, modifyUow, UowState.setColumns, Function.update_of_ne ho] using hbound

/-- Only a payload with relations of its own needs the key of its entity. -/
theorem exec_needsRootKey {payload : GraphPayload D} (hpost : payload.post = []) (entity : Key)
    (w : World D Members) : exec (needsRootKey loader payload entity) w = (.ok false, w) := by
  unfold needsRootKey
  rw [exec_bind_ok (exec_get w)]
  cases w.uow.tracked entity with
  | none => rfl
  | some tracked => simp [GraphPayload.hasPostRelations, hpost]

/-- A payload without a key and without relations makes a new object, at an address of its own, and
    does not flush: nothing is disturbed. -/
theorem undisturbed_plain {options : GraphOptions} {payload : GraphPayload D}
    {pivot : Option PivotPatch} {targets : List Key}
    (hcollections : ∀ key m, (loader.env.bindRelations key m).collections = m.collections)
    (hbound : ∀ key m, m.bound = true → (loader.env.bindRelations key m).bound = true)
    (hkey : payload.primaryKey = none) (hpre : payload.pre = []) (hpost : payload.post = [])
    (hnew : loader.allocate payload.type w.uow ∉ site.root :: (site.members w ++ targets))
    (hloaded : Loaded loader site w)
    (h : exec (acquire loader site options ⟨.payload payload, pivot⟩) w = (.ok target, w')) :
    Undisturbed loader site targets w w' := by
  have hmaterialize : exec (materialize loader payload options) w = (.ok target, w') := h
  unfold materialize at hmaterialize
  obtain ⟨entity, made, hmade, hmaterialize⟩ := exec_bind_eq_ok.mp hmaterialize
  obtain ⟨rfl, hmade⟩ := exec_payloadEntity hkey hmade
  suffices hapart : Apart (· = loader.allocate payload.type w.uow) w w' from
    .of_apart hapart hloaded (fun heq => hnew (List.mem_cons.mpr (.inl heq.symm)))
      fun object hobject heq => hnew (List.mem_cons_of_mem _ (heq ▸ hobject))
  generalize loader.allocate payload.type w.uow = entity at hmade hmaterialize ⊢
  obtain ⟨_, assigned, hscalars, hmaterialize⟩ := exec_bind_eq_ok.mp hmaterialize
  have hassigned : Apart (· = entity) w assigned := by
    have hapart := applyScalars_apart payload entity made
    rw [hscalars] at hapart
    exact trans_of (Apart (· = entity)) hmade hapart
  unfold GraphPayload.applyPre at hmaterialize
  rw [hpre] at hmaterialize
  obtain ⟨_, _, hnone, hmaterialize⟩ := exec_bind_eq_ok.mp hmaterialize
  cases hnone
  obtain ⟨tracked, _, hcontains, hmaterialize⟩ := exec_bind_eq_ok.mp hmaterialize
  cases hcontains
  -- Without relations of its own there is no flush, and the persisting is the last thing done.
  have hlast : ∀ v, exec (do
      if ← needsRootKey loader payload entity then Session.flush loader.env
      payload.applyPost entity options
      return entity) v = (.ok entity, v) := by
    intro v
    rw [exec_bind_ok (exec_needsRootKey hpost entity v)]
    unfold GraphPayload.applyPost
    rw [hpost]
    rfl
  dsimp only at hmaterialize
  split at hmaterialize
  · obtain ⟨_, persisted, hpersist, hmaterialize⟩ := exec_bind_eq_ok.mp hmaterialize
    obtain rfl : persisted = w' := congrArg Prod.snd ((hlast persisted).symm.trans hmaterialize)
    have hapart := @persist_apart _ (· = entity) _ hcollections hbound entity assigned
    rw [hpersist] at hapart
    exact trans_of (Apart (· = entity)) hassigned hapart
  · obtain rfl : assigned = w' := congrArg Prod.snd ((hlast assigned).symm.trans hmaterialize)
    exact hassigned

/-! ## Pruning -/

/-- A member is kept if it has no key, or one that was remembered. -/
def Kept (loader : Loader D Members Q) (site : Site) (seen : List (List UInt8))
    (w : World D Members) (member : Key) : Prop :=
  ∀ key, site.text loader w member = some key → key ∈ seen

/-- Of a list in which a predicate holds for one element only, that element is erased. -/
theorem eraseP_eq_filter {p : Key → Bool} {l : List Key} {a : Key} (hnodup : l.Nodup)
    (hp : ∀ b ∈ l, p b = true ↔ b = a) : l.eraseP p = l.filter (· ≠ a) := by
  induction l with
  | nil => rfl
  | cons b l ih =>
    obtain ⟨hnot, hnodup⟩ := List.nodup_cons.mp hnodup
    obtain ⟨hhead, htail⟩ := List.forall_mem_cons.mp hp
    by_cases hb : b = a
    · have hrest : l.filter (· ≠ a) = l := List.filter_eq_self.mpr fun c hc => by
        have hne : c ≠ a := by
          rintro rfl
          exact hnot (hb ▸ hc)
        simpa using hne
      rw [List.eraseP_cons_of_pos (hhead.mpr hb), List.filter_cons_of_neg (by simpa using hb), hrest]
    · rw [List.eraseP_cons_of_neg (mt hhead.mp hb), List.filter_cons_of_pos (by simpa using hb),
        ih hnodup htail]

theorem Loaded.nodup (h : Loaded loader site w) : (site.members w).Nodup :=
  h.distinct.imp fun hdifferent heq => hdifferent (.inl heq)

/-- What a round of the pruning does to a member. -/
structure PruneStep (loader : Loader D Members Q) (site : Site) (seen : List (List UInt8))
    (target : Key) (w w' : World D Members) : Prop where
  texts : ∀ object, site.text loader w' object = site.text loader w object
  bound : (w'.uow.heap site.root).runtime.bound = (w.uow.heap site.root).runtime.bound
  kept : Kept loader site seen w target → site.members w' = site.members w
  removed : ¬ Kept loader site seen w target →
    site.members w' = (site.members w).filter (· ≠ target)

theorem PruneStep.idle {seen : List (List UInt8)} (h : Kept loader site seen w target) :
    PruneStep loader site seen target w w :=
  ⟨fun _ => rfl, rfl, fun _ => rfl, fun hnot => absurd h hnot⟩

theorem PruneStep.removal {seen : List (List UInt8)} {f : Members → Members}
    (hbound : ∀ m, (f m).bound = m.bound)
    (hitems : ((f (w.uow.heap site.root).runtime).collections site.index).items =
      (site.members w).filter (· ≠ target)) (hnot : ¬ Kept loader site seen w target) :
    PruneStep loader site seen target w (withMembers site w f) where
  texts := text_withMembers f
  bound := by rw [runtime_withMembers, hbound]
  kept := fun hkept => absurd hkept hnot
  removed := fun _ => by rw [members_withMembers, hitems]

/-- A member that is not kept is taken out, and nothing else changes. -/
theorem exec_pruneTarget {seen : List (List UInt8)} (hloaded : Loaded loader site w)
    (htarget : target ∈ site.members w)
    (h : exec (pruneTarget loader site seen target) w = (.ok (), w')) :
    PruneStep loader site seen target w w' := by
  unfold pruneTarget at h
  obtain ⟨s, v, hs, h⟩ := exec_bind_eq_ok.mp h
  cases hs
  cases hkey : site.text loader w target with
  | none =>
    have hnone : keyText loader.env (site.keyMember loader) w.uow target = none := hkey
    rw [hnone] at h
    cases h
    refine .idle fun key heq => ?_
    rw [hkey] at heq
    cases heq
  | some key =>
    have hsome : keyText loader.env (site.keyMember loader) w.uow target = some key := hkey
    rw [hsome] at h
    dsimp only at h
    by_cases hseen : key ∈ seen
    · rw [if_pos hseen] at h
      cases h
      refine .idle fun other heq => ?_
      rw [hkey] at heq
      cases heq
      exact hseen
    · rw [if_neg hseen] at h
      have hnot : ¬ Kept loader site seen w target := fun hkept => hseen (hkept key hkey)
      cases hrelation : site.relation with
      | hasMany r =>
        have hindex : site.index = r.index := by rw [Site.index, hrelation]
        rw [hrelation] at h
        unfold removeTarget at h
        rw [exec_assignRuntime] at h
        cases h
        refine .removal (fun _ => rfl) ?_ hnot
        have hitems : ((w.uow.heap site.root).runtime.collections r.index).items.erase target =
            (site.members w).filter (· ≠ target) := by
          rw [← hindex, ← Site.members, hloaded.nodup.erase_eq_filter]
          exact List.filter_congr fun a _ => by simp [bne, beq_eq_decide]
        rw [hindex, ← hitems]
        simp [Members.setCollection]
      | manyToMany r =>
        have hindex : site.index = r.index := by rw [Site.index, hrelation]
        rw [hrelation] at h
        unfold detach at h
        obtain ⟨s, v, hs, h⟩ := exec_bind_eq_ok.mp h
        cases hs
        rw [exec_assignRuntime] at h
        cases h
        refine .removal (fun _ => rfl) ?_ hnot
        have hitems : ((w.uow.heap site.root).runtime.collections r.index).items.eraseP
            (fun item => sameEntity loader.env r w.uow (w.uow.heap site.root).runtime item target) =
              (site.members w).filter (· ≠ target) := by
          rw [← hindex, ← Site.members]
          refine eraseP_eq_filter hloaded.nodup fun member hmember => ?_
          rw [sameEntity_iff hrelation hloaded.bound]
          -- No other member has its key.
          refine ⟨fun hsame => ?_, fun heq => .inl heq⟩
          by_contra hne
          have hsymm : Std.Symm fun a b => ¬ Same loader site w a b :=
            ⟨fun a b hdifferent hsame => hdifferent hsame.symm⟩
          exact hloaded.distinct.forall hmember htarget hne hsame
        rw [hindex, ← hitems]
        simp [Members.setCollection]

theorem Loaded.prune {seen : List (List UInt8)} (hstep : PruneStep loader site seen target w w')
    (h : Loaded loader site w) : Loaded loader site w' where
  bound := hstep.bound.trans h.bound
  distinct := by
    have hdistinct : (site.members w).Pairwise fun a b => ¬ Same loader site w' a b :=
      h.distinct.imp fun hdifferent hsame => hdifferent ((same_congr hstep.texts).mp hsame)
    by_cases hkept : Kept loader site seen w target
    · rwa [hstep.kept hkept]
    · rw [hstep.removed hkept]
      exact hdistinct.sublist List.filter_sublist

/-- The pruning takes out the members that are not kept. -/
theorem exec_prune {seen : List (List UInt8)} {current : List Key} (hloaded : Loaded loader site w)
    (hcurrent : current ⊆ site.members w) (hnodup : current.Nodup)
    (h : exec (current.forM (pruneTarget loader site seen)) w = (.ok (), w')) :
    (∀ object, site.text loader w' object = site.text loader w object) ∧
      Loaded loader site w' ∧ ∀ member, member ∈ site.members w' ↔
        member ∈ site.members w ∧ (member ∈ current → Kept loader site seen w member) := by
  induction current generalizing w with
  | nil =>
    cases h
    exact ⟨fun _ => rfl, hloaded, fun member => by simp⟩
  | cons target current ih =>
    obtain ⟨after, htarget, hrest⟩ := exec_forM_cons h
    obtain ⟨hhead, htail⟩ := List.cons_subset.mp hcurrent
    obtain ⟨hnot, hnodup⟩ := List.nodup_cons.mp hnodup
    have hstep := exec_pruneTarget hloaded hhead htarget
    have hkept : ∀ member, Kept loader site seen after member ↔ Kept loader site seen w member :=
      fun member => by rw [Kept, Kept, hstep.texts]
    have hafter : ∀ member, member ∈ site.members after ↔
        member ∈ site.members w ∧ (member = target → Kept loader site seen w member) := by
      intro member
      by_cases htarget : Kept loader site seen w target
      · rw [hstep.kept htarget]
        refine ⟨fun hmember => ⟨hmember, ?_⟩, And.left⟩
        rintro rfl
        exact htarget
      · rw [hstep.removed htarget, List.mem_filter, decide_eq_true_iff]
        refine and_congr_right fun _ => ⟨fun hne heq => absurd heq hne, fun h heq => ?_⟩
        exact htarget (heq ▸ h heq)
    have hcurrent' : current ⊆ site.members after := by
      intro member hmember
      refine (hafter member).mpr ⟨htail hmember, ?_⟩
      rintro rfl
      exact absurd hmember hnot
    obtain ⟨htexts, hloaded', hmembers⟩ := ih (hloaded.prune hstep) hcurrent' hnodup hrest
    refine ⟨fun object => (htexts object).trans (hstep.texts object), hloaded', fun member => ?_⟩
    rw [hmembers, hafter, hkept, List.mem_cons, and_assoc]
    refine and_congr_right fun _ => ?_
    constructor
    · rintro ⟨hfirst, hothers⟩ (heq | hin)
      · exact hfirst heq
      · exact hothers hin
    · exact fun hall => ⟨fun heq => hall (.inl heq), fun hin => hall (.inr hin)⟩

/-! ## The members in the end -/

/-- The members are pruned to those of the items exactly where the remembered keys are those of the
    targets. -/
theorem pruned_iff {earlier : List Key} {rounds : List (Round D)} {seen : List (List UInt8)}
    {final : World D Members}
    (hgathered : Gathered loader site earlier (rounds.map Round.target) w)
    (hseen : ∀ key, key ∈ seen ↔ ∃ round ∈ rounds, round.remembered loader site = some key)
    (htexts : ∀ object, site.text loader final object = site.text loader w object)
    (hloaded : Loaded loader site final)
    (hmembers : ∀ member, member ∈ site.members final ↔
      member ∈ site.members w ∧ Kept loader site seen w member) :
    Pruned loader site earlier (rounds.map Round.target) final ↔
      Remembered loader site earlier rounds w := by
  have hkeyed : ∀ {member key}, site.text loader w member = some key →
      (Kept loader site seen w member ↔ key ∈ seen) := by
    intro member key hkey
    refine ⟨fun hkept => hkept key hkey, fun hin other heq => ?_⟩
    rw [hkey] at heq
    cases heq
    exact hin
  have hkeyless : ∀ {member}, site.text loader w member = none → Kept loader site seen w member := by
    intro member hnone key hkey
    rw [hnone] at hkey
    cases hkey
  constructor
  · intro hpruned
    refine ⟨fun member hmember key hkey => ?_, fun member hmember hnone => ?_⟩
    · change (∃ round ∈ rounds, round.remembered loader site = some key) ↔ _
      rw [← hseen]
      constructor
      · intro hin
        -- The member is kept, so it is that of an item.
        have hfinal := (hmembers member).mpr ⟨hmember, (hkeyed hkey).mpr hin⟩
        obtain ⟨target, htarget, hsame⟩ | ⟨-, hnone⟩ := hpruned.exact member hfinal
        · obtain ⟨round, hround, rfl⟩ := List.mem_map.mp htarget
          refine ⟨round, hround, ?_⟩
          obtain rfl | ⟨other, hother, hother'⟩ := (same_congr htexts).mp hsame
          · exact hkey
          · rw [hkey] at hother
            cases hother
            exact hother'
        · rw [htexts, hkey] at hnone
          cases hnone
      · rintro ⟨round, hround, htext⟩
        -- The item is represented, so its key was remembered.
        obtain ⟨kept, hkept, hsame⟩ := hpruned.represented _ (List.mem_map_of_mem hround)
        have htextKept : site.text loader w kept = some key := by
          obtain rfl | ⟨other, hother, hother'⟩ := (same_congr htexts).mp hsame
          · exact htext
          · rw [htext] at hother'
            cases hother'
            exact hother
        exact (hkeyed htextKept).mp ((hmembers kept).mp hkept).2
    · have hfinal := (hmembers member).mpr ⟨hmember, hkeyless hnone⟩
      obtain ⟨target, htarget, hsame⟩ | ⟨hearlier, -⟩ := hpruned.exact member hfinal
      · obtain ⟨round, hround, rfl⟩ := List.mem_map.mp htarget
        obtain heq | ⟨other, hother, -⟩ := (same_congr htexts).mp hsame
        · exact .inr ⟨round, hround, heq.symm⟩
        · rw [hnone] at hother
          cases hother
      · exact .inl hearlier
  · intro hremembered
    have hkeys : ∀ {member key}, member ∈ site.members w → site.text loader w member = some key →
        (key ∈ seen ↔ ∃ round ∈ rounds, site.text loader w round.target = some key) :=
      fun hmember hkey => (hseen _).trans (hremembered.keyed _ hmember _ hkey)
    constructor
    · intro member hmember hnone
      rw [htexts] at hnone
      exact (hmembers member).mpr ⟨hgathered.earlier hmember, hkeyless hnone⟩
    · intro target htarget
      obtain ⟨member, hmember, hsame⟩ := hgathered.represented target htarget
      refine ⟨member, (hmembers member).mpr ⟨hmember, ?_⟩, (same_congr htexts).mpr hsame⟩
      cases hkey : site.text loader w member with
      | none => exact hkeyless hkey
      | some key =>
        obtain ⟨round, hround, rfl⟩ := List.mem_map.mp htarget
        rw [hkeyed hkey, hkeys hmember hkey]
        refine ⟨round, hround, ?_⟩
        obtain heq | ⟨other, hother, hother'⟩ := hsame
        · rw [← heq, hkey]
        · rw [hkey] at hother
          cases hother
          exact hother'
    · intro member hmember
      obtain ⟨hin, hkept⟩ := (hmembers member).mp hmember
      cases hkey : site.text loader w member with
      | none =>
        obtain hearlier | ⟨round, hround, heq⟩ := hremembered.keyless member hin hkey
        · exact .inr ⟨hearlier, by rw [htexts, hkey]⟩
        · exact .inl ⟨round.target, List.mem_map_of_mem hround, .inl heq.symm⟩
      | some key =>
        rw [hkeyed hkey, hkeys hin hkey] at hkept
        obtain ⟨round, hround, htext⟩ := hkept
        refine .inl ⟨round.target, List.mem_map_of_mem hround, .inr ⟨key, ?_, ?_⟩⟩
        · rw [htexts, hkey]
        · rw [htexts, htext]
    · exact hloaded

/-- The key that a target has when it has been put into the collection stays. -/
theorem Rounds.texts {options : GraphOptions} {items : List (GraphItem D)}
    {rounds : List (Round D)} (hregular : site.Regular loader)
    (hrounds : Rounds loader site options items w rounds w') {targets : List Key}
    (hcalm : Calm loader site targets rounds) :
    (∀ target ∈ targets, ∀ key, site.text loader w target = some key →
        site.text loader w' target = some key) ∧
      ∀ round ∈ rounds, ∀ key, site.text loader round.after round.target = some key →
        site.text loader w' round.target = some key := by
  induction hrounds generalizing targets with
  | nil w => exact ⟨fun _ _ _ h => h, by simp⟩
  | cons hacquire hput hrest ih =>
    obtain ⟨hfirst, hcalm⟩ := hcalm
    obtain ⟨htargets, hothers⟩ := ih hcalm
    have hput := attachItem_put hregular hfirst.loaded.bound hput
    refine ⟨fun target htarget key hkey => ?_, List.forall_mem_cons.mpr ⟨?_, hothers⟩⟩
    · refine htargets target (List.mem_append_left _ htarget) key ?_
      rw [hput.texts]
      exact hfirst.texts target (List.mem_append_right _ htarget) key hkey
    · exact htargets _ (by simp)

/-- Where every item is remembered with the key of its target, and only targets become members, it
    comes down to the keys that targets get later: such a key is one that a target had when it was
    put into the collection. -/
theorem remembered_iff {options : GraphOptions} {items : List (GraphItem D)}
    {rounds : List (Round D)} (hregular : site.Regular loader)
    (hrounds : Rounds loader site options items w rounds w') (hcalm : Calm loader site [] rounds)
    (hloaded : Loaded loader site w)
    (hown : ∀ round ∈ rounds, round.remembered loader site = site.text loader round.after round.target)
    (honly : ∀ member ∈ site.members w', member ∈ site.members w ∨
      ∃ round ∈ rounds, round.target = member) :
    Remembered loader site (site.members w) rounds w' ↔
      ∀ round ∈ rounds, ∀ key, site.text loader w' round.target = some key →
        ∃ other ∈ rounds, site.text loader other.after other.target = some key := by
  have hgathered : Gathered loader site (site.members w) (rounds.map Round.target) w' :=
    hrounds.gathered hregular hcalm ⟨List.Subset.refl _, by simp, hloaded⟩
  have hstays := (hrounds.texts hregular hcalm).2
  constructor
  · intro hremembered round hround key hkey
    obtain ⟨member, hmember, hsame⟩ := hgathered.represented _ (List.mem_map_of_mem hround)
    have hmemberKey : site.text loader w' member = some key := by
      obtain rfl | ⟨other, hother, hother'⟩ := hsame
      · exact hkey
      · rw [hkey] at hother'
        cases hother'
        exact hother
    obtain ⟨other, hother, htext⟩ :=
      (hremembered.keyed member hmember key hmemberKey).mpr ⟨round, hround, hkey⟩
    exact ⟨other, hother, (hown other hother).symm.trans htext⟩
  · intro hkeys
    refine ⟨fun member hmember key hkey => ⟨?_, ?_⟩, fun member hmember _ => honly member hmember⟩
    · rintro ⟨round, hround, htext⟩
      exact ⟨round, hround, hstays round hround key ((hown round hround).symm.trans htext)⟩
    · rintro ⟨round, hround, htext⟩
      obtain ⟨other, hother, hafter⟩ := hkeys round hround key htext
      exact ⟨other, hother, (hown other hother).trans hafter⟩

end

/-! ### A user with posts -/

/-- Posts with a generated key, and the foreign key of their user. -/
def postClass (type : Nat) : EntityClass where
  type := type
  table := .ofAscii "posts"
  primaryKey := .ofAscii "id"
  generatedPk := true
  columns := [.ofAscii "id", .ofAscii "user_id"]
  nodup := by decide
  primaryKey_mem := by decide

/-- The class of users has the type zero. -/
def graphClass (type : Nat) : EntityClass := if type = 0 then userClass else postClass type

theorem type_graphClass (type : Nat) : (graphClass type).type = type := by
  unfold graphClass
  split
  · next h => exact h.symm
  · rfl

/-- A database that numbers the rows which are inserted, and answers no query. -/
def numberingExecutor : Executor Int64 where
  transactions := true
  savepoints := true
  execute _ db := (.ok { rows := [], lastInsertId := db + 1 }, db + 1)
  beginTransaction db := (.ok (), db)
  commitTransaction db := (.ok (), db)
  rollbackTransaction db := (.ok (), db)
  savepoint _ db := (.ok (), db)
  releaseSavepoint _ db := (.ok (), db)
  rollbackToSavepoint _ db := (.ok (), db)

/-- A new object. -/
def newObject : Entity Members where
  columns _ := .int64 0
  runtime :=
    { references := fun _ => ⟨none, none⟩
      collections := fun _ => ⟨[], []⟩
      pivotPatches := fun _ _ => none
      bound := false }

/-- An address has the type of its object. -/
def graphLoader : Loader Int64 Members Unit where
  env := { (Env.quiet (fun key => graphClass key.unpair.1) numberingExecutor).withRelations
      (fun _ => []) with valueKey := valueKey }
  valueKey_eq := rfl
  classes := graphClass
  classes_type := type_graphClass
  members _ _ := ⟨.integral 64 true, false⟩
  defaults _ := newObject
  allocate type s := Nat.pair type (s.trackedOrder.sum + 1)
  classOf_allocate type s := by simp [Env.quiet, Env.withRelations]
  allocate_not_mem type s hmem := by
    have hle : Nat.pair type (s.trackedOrder.sum + 1) ≤ s.trackedOrder.sum :=
      List.le_sum_of_mem hmem
    exact Nat.not_succ_le_self _ ((Nat.right_le_pair type (s.trackedOrder.sum + 1)).trans hle)
  select _ db := (.ok [], db)
  findQuery _ _ := ()

/-- The user `7`, who has no posts. -/
def graphWorld : World Int64 Members :=
  (exec (Session.track graphLoader.env 0 .managed) (World.initial (fun _ =>
    { newObject with columns := fun _ => .int64 7 }) 0)).2

/-- The collection of targets of this type at an object. -/
def childrenSite (target : Nat) (root : Key) : Site where
  root := root
  target := target
  relation := .hasMany
    { index := 0
      cascade := .remove
      targetForeignKey := { column := .ofAscii "user_id", optional := false, fromValue := some }
      localKey := .ofAscii "id" }

/-- A post without a key. -/
def postPayload : GraphPayload Int64 where
  type := 1

/-- A post without a key, and with comments. -/
def commentedPayload : GraphPayload Int64 where
  type := 1
  post := [fun root options => applyCollection graphLoader (childrenSite 2 root) [] options]

theorem loaded_graphWorld : Loaded graphLoader (childrenSite 1 0) graphWorld :=
  ⟨by decide, by
    have hnone : (childrenSite 1 0).members graphWorld = [] := by decide
    rw [hnone]
    exact .nil⟩

theorem regular_childrenSite : (childrenSite 1 0).Regular graphLoader := by
  show ByteString.ofAscii "user_id" ≠ ByteString.ofAscii "id"
  decide

/-- The round for an item. -/
def roundOf (options : GraphOptions) (w : World Int64 Members) (item : GraphItem Int64)
    (target : Key) : Round Int64 :=
  let acquired := (exec (acquire graphLoader (childrenSite 1 0) options item) w).2
  { item
    target
    before := w
    acquired
    after := (exec (attachItem graphLoader (childrenSite 1 0) target item.pivot) acquired).2 }

theorem rounds_roundOf {options : GraphOptions} {w w' : World Int64 Members}
    {item : GraphItem Int64} {items : List (GraphItem Int64)} {target : Key}
    {rounds : List (Round Int64)}
    (hacquire : (exec (acquire graphLoader (childrenSite 1 0) options item) w).1 = .ok target)
    (hput : (exec (attachItem graphLoader (childrenSite 1 0) target item.pivot)
      (roundOf options w item target).acquired).1 = .ok ())
    (hrest : Rounds graphLoader (childrenSite 1 0) options items
      (roundOf options w item target).after rounds w') :
    Rounds graphLoader (childrenSite 1 0) options (item :: items) w
      (roundOf options w item target :: rounds) w' :=
  .cons (Prod.ext hacquire rfl) (Prod.ext hput rfl) hrest

end MetalOrm.Native.Graph
