import MetalOrm.Spec.PivotTidy
import MetalOrm.Spec.TableStore

/-!
# Flushing a many_to_many collection

What the statements of `flush_many_to_many` do to the pivot table: after clean calls the pivot rows
of the root are those of the items, with the patches that were given for them.

## Key results

- `perform_inserts`, `perform_updates`, `perform_deletes`: the three loops
- `flush_converges`: what a flush leaves, after any sequence of clean calls
-/

namespace MetalOrm.Native.PivotCollection

open RelationChange

/-! ## Statements and tables -/

/-- The rows of the tables of a database. -/
abbrev Tables := Name → List (Name → Value)

/-- What a statement does. `fresh` are the values of the columns that an `INSERT` leaves out. -/
def perform (fresh : Tables → Name → Name → Value) : Statement → Tables → Tables
  | .insert table values _, tables =>
    Function.update tables table (tables table ++ [assignAll values (fresh tables table)])
  | .update table assignments wheres, tables =>
    Function.update tables table ((tables table).map fun row =>
      if matchesAll wheres row then assignAll assignments row else row)
  | .delete table wheres, tables =>
    Function.update tables table ((tables table).filter fun row => !matchesAll wheres row)

/-- Statements one after the other. -/
def performAll (fresh : Tables → Name → Name → Value) (statements : List Statement)
    (tables : Tables) : Tables :=
  statements.foldl (fun tables statement => perform fresh statement tables) tables

theorem performAll_append (fresh : Tables → Name → Name → Value) (first second : List Statement)
    (tables : Tables) : performAll fresh (first ++ second) tables =
      performAll fresh second (performAll fresh first tables) :=
  List.foldl_append ..

variable {κ : Type} [DecidableEq κ] {env : Binding κ}

/-! ## Payloads -/

section Payload

variable (r : ManyToMany)

/-- A payload leaves the foreign keys of the pivot out. -/
theorem lookup_pivotPayload (patch : PivotPatch) (column : Name) :
    (pivotPayload r patch).lookup column =
      if column = r.pivotRootForeignKey ∨ column = r.pivotTargetForeignKey then none
      else patch.lookup column := by
  unfold pivotPayload
  induction patch with
  | nil => simp
  | cons entry patch ih =>
    by_cases hkey : entry.1 = r.pivotRootForeignKey ∨ entry.1 = r.pivotTargetForeignKey
    · rw [List.filter_cons_of_neg (by cases hkey <;> simp_all), ih, Patch.lookup_cons_ite]
      by_cases hcolumn : column = entry.1
      · rw [hcolumn, if_pos hkey, if_pos hkey]
      · rw [if_neg hcolumn]
    · rw [List.filter_cons_of_pos (by simpa using hkey), Patch.lookup_cons_ite, ih,
        Patch.lookup_cons_ite]
      by_cases hcolumn : column = entry.1
      · rw [if_pos hcolumn, if_pos hcolumn, hcolumn, if_neg hkey]
      · rw [if_neg hcolumn, if_neg hcolumn]

/-- Assigning a payload leaves the foreign keys of a pivot row alone. -/
theorem assignAll_pivotPayload (patch : PivotPatch) (row : Name → Value) (column : Name) :
    assignAll (pivotPayload r patch) row column =
      if column = r.pivotRootForeignKey ∨ column = r.pivotTargetForeignKey then row column
      else (patch.lookup column).getD (row column) := by
  unfold assignAll
  rw [lookup_pivotPayload]
  split <;> rfl

end Payload

/-- A key that is not missing is not NULL. -/
theorem not_null_of_present {owner : EntityClass} {key : Name} {value : Value}
    (h : missingRelationKey owner key value = false) : value ≠ .null := by
  intro hnull
  rw [hnull] at h
  simp [missingRelationKey] at h

/-! ## The rows of a root -/

variable (env) in
/-- The pivot row belongs to the root with this key. -/
def ofRoot (rootKey : Value) (row : Name → Value) : Bool :=
  row env.relation.pivotRootForeignKey == rootKey

variable (env) in
/-- The target keys in the pivot rows of a root. -/
def linked (rootKey : Value) (rows : List (Name → Value)) : List Value :=
  (rows.filter (ofRoot env rootKey)).map fun row => row env.relation.pivotTargetForeignKey

variable (env) in
/-- The pivot rows of other roots. -/
def others (rootKey : Value) (rows : List (Name → Value)) : List (Name → Value) :=
  rows.filter fun row => !ofRoot env rootKey row

variable (env) in
/-- The pivot row links the root to the target with this key. -/
def links (rootKey key : Value) (row : Name → Value) : Bool :=
  ofRoot env rootKey row && row env.relation.pivotTargetForeignKey == key

omit [DecidableEq κ] in
theorem matchesAll_pivotWheres {rootKey key : Value} (hroot : rootKey ≠ .null)
    (hkey : key ≠ .null) (row : Name → Value) :
    matchesAll (pivotWheres env.relation rootKey key) row = links env rootKey key row := by
  have hroot' : (rootKey != Value.null) = true := bne_iff_ne.mpr hroot
  have hkey' : (key != Value.null) = true := bne_iff_ne.mpr hkey
  unfold matchesAll pivotWheres links ofRoot
  simp [hroot', hkey']

/-! ## The three loops -/

/-- The INSERT of the first loop. -/
def insertStatement (env : Binding κ) (c : Collection) (rootKey : Value) (target : Target) :
    Statement :=
  .insert env.relation.pivot (pivotWheres env.relation rootKey target.key ++
    pivotPayload env.relation ((pivotPatch env c target).getD .empty).entries) []

/-- The payload for a target. -/
def payloadOf (env : Binding κ) (c : Collection) (target : Target) : List (Name × Value) :=
  pivotPayload env.relation ((pivotPatch env c target).getD .empty).entries

theorem mapM_insertPivot {c : Collection} {rootKey : Value} {targets : List Target}
    (h : ∀ t ∈ targets, Present env t) : targets.mapM (insertPivot env c rootKey) =
      .ok (targets.map (insertStatement env c rootKey)) := by
  induction targets with
  | nil => rfl
  | cons t targets ih =>
    have hfirst : insertPivot env c rootKey t = .ok (insertStatement env c rootKey t) := by
      unfold insertPivot
      rw [show missingRelationKey _ _ _ = false from h t (List.mem_cons_self ..)]
      rfl
    rw [List.mapM_cons, hfirst, ih fun u hu => h u (List.mem_cons_of_mem _ hu)]
    rfl

variable (env) in
/-- The inserted rows stand after the others, one for each target. -/
theorem perform_inserts (fresh : Tables → Name → Name → Value) (c : Collection) (rootKey : Value)
    (targets : List Target) (tables : Tables) : ∃ new,
    performAll fresh (targets.map (insertStatement env c rootKey)) tables env.relation.pivot =
      tables env.relation.pivot ++ new ∧
    List.Forall₂ (fun t row => ∃ base, row = assignAll
      (pivotWheres env.relation rootKey t.key ++ payloadOf env c t) base) targets new := by
  induction targets generalizing tables with
  | nil => exact ⟨[], (List.append_nil _).symm, .nil⟩
  | cons t targets ih =>
    obtain ⟨new, hnew, hrows⟩ := ih (perform fresh (insertStatement env c rootKey t) tables)
    refine ⟨_ :: new, ?_, .cons ⟨fresh tables env.relation.pivot, rfl⟩ hrows⟩
    rw [List.map_cons]
    show performAll fresh _ (perform fresh (insertStatement env c rootKey t) tables) _ = _
    rw [hnew]
    show Function.update tables env.relation.pivot _ env.relation.pivot ++ new = _
    rw [Function.update_self, List.append_assoc]
    rfl

variable (env) in
/-- A pivot row after the second loop. -/
def updatedRow (c : Collection) (rootKey : Value) (targets : List Target) (row : Name → Value) :
    Name → Value :=
  targets.foldl (fun row t =>
    if links env rootKey t.key row then assignAll (payloadOf env c t) row else row) row

/-- Every row of the table is updated for itself. -/
theorem perform_updates (fresh : Tables → Name → Name → Value) {c : Collection} {rootKey : Value}
    (hroot : rootKey ≠ .null) (targets : List Target) (hpresent : ∀ t ∈ targets, Present env t)
    (tables : Tables) :
    performAll fresh (targets.filterMap (updatePivot env c rootKey)) tables env.relation.pivot =
      (tables env.relation.pivot).map (updatedRow env c rootKey targets) := by
  induction targets generalizing tables with
  | nil => exact (List.map_id _).symm
  | cons t targets ih =>
    have ht := hpresent t (List.mem_cons_self ..)
    have hrest := fun tables => ih (fun u hu => hpresent u (List.mem_cons_of_mem _ hu)) tables
    rw [List.filterMap_cons]
    by_cases hempty : (payloadOf env c t).isEmpty = true
    · have hnone : updatePivot env c rootKey t = none := if_pos hempty
      rw [hnone]
      dsimp only
      rw [hrest]
      apply List.map_congr_left
      intro row _
      have hsame : assignAll (payloadOf env c t) row = row := by
        rw [List.isEmpty_iff.mp hempty]
        rfl
      unfold updatedRow
      rw [List.foldl_cons, hsame, ite_self]
    · have hsome : updatePivot env c rootKey t = some (.update env.relation.pivot
          (payloadOf env c t) (pivotWheres env.relation rootKey t.key)) := if_neg hempty
      rw [hsome]
      show performAll fresh _ (perform fresh _ tables) _ = _
      rw [hrest]
      show (Function.update tables env.relation.pivot _ env.relation.pivot).map _ = _
      rw [Function.update_self, List.map_map]
      apply List.map_congr_left
      intro row _
      rw [Function.comp_apply, matchesAll_pivotWheres hroot (not_null_of_present ht)]
      rfl

omit [DecidableEq κ] in
/-- The rows that link the root to a removed target go. -/
theorem perform_deletes (fresh : Tables → Name → Name → Value) (tracked : Target → Bool)
    {rootKey : Value} (hroot : rootKey ≠ .null)
    (htable : env.relation.cascade.cascadesRemove = true → env.target.table ≠ env.relation.pivot)
    (targets : List Target) (hpresent : ∀ t ∈ targets, Present env t) (tables : Tables) :
    performAll fresh (targets.flatMap (deletePivot env tracked rootKey)) tables
        env.relation.pivot =
      (tables env.relation.pivot).filter fun row =>
        !(targets.any fun t => links env rootKey t.key row) := by
  induction targets generalizing tables with
  | nil => exact (List.filter_eq_self.mpr fun _ _ => rfl).symm
  | cons t targets ih =>
    have ht := hpresent t (List.mem_cons_self ..)
    rw [List.flatMap_cons, performAll_append,
      ih fun u hu => hpresent u (List.mem_cons_of_mem _ hu)]
    have hfirst : performAll fresh (deletePivot env tracked rootKey t) tables env.relation.pivot =
        (tables env.relation.pivot).filter fun row => !links env rootKey t.key row := by
      have hpivot : perform fresh (.delete env.relation.pivot
          (pivotWheres env.relation rootKey t.key)) tables env.relation.pivot =
          (tables env.relation.pivot).filter fun row => !links env rootKey t.key row := by
        show Function.update tables env.relation.pivot _ env.relation.pivot = _
        rw [Function.update_self]
        simp only [matchesAll_pivotWheres hroot (not_null_of_present ht)]
      unfold deletePivot
      split
      · -- The target's own row is in another table.
        rename_i hcascade
        have hother := htable (Bool.and_eq_true_iff.mp hcascade).1
        show Function.update (perform fresh _ tables) env.target.table _ env.relation.pivot = _
        rw [Function.update_of_ne (Ne.symm hother), hpivot]
      · exact hpivot
    rw [hfirst, List.filter_filter]
    apply List.filter_congr
    intro row _
    rw [List.any_cons, Bool.not_or, Bool.and_comm]

/-! ## Rows through the loops -/

theorem updatedRow_foreignKeys (c : Collection) (rootKey : Value) (targets : List Target)
    (row : Name → Value) :
    updatedRow env c rootKey targets row env.relation.pivotRootForeignKey =
        row env.relation.pivotRootForeignKey ∧
      updatedRow env c rootKey targets row env.relation.pivotTargetForeignKey =
        row env.relation.pivotTargetForeignKey := by
  unfold updatedRow
  induction targets generalizing row with
  | nil => exact ⟨rfl, rfl⟩
  | cons t targets ih =>
    rw [List.foldl_cons, (ih _).1, (ih _).2]
    split
    · unfold payloadOf
      rw [assignAll_pivotPayload, assignAll_pivotPayload, if_pos (.inl rfl), if_pos (.inr rfl)]
      exact ⟨rfl, rfl⟩
    · exact ⟨rfl, rfl⟩

@[simp] theorem ofRoot_updatedRow (c : Collection) (rootKey key : Value) (targets : List Target)
    (row : Name → Value) :
    ofRoot env key (updatedRow env c rootKey targets row) = ofRoot env key row := by
  unfold ofRoot
  rw [(updatedRow_foreignKeys c rootKey targets row).1]

@[simp] theorem links_updatedRow (c : Collection) (rootKey key : Value) (targets : List Target)
    (row : Name → Value) :
    links env rootKey key (updatedRow env c rootKey targets row) = links env rootKey key row := by
  unfold links
  rw [ofRoot_updatedRow, (updatedRow_foreignKeys c rootKey targets row).2]

/-- A row that no update is for stays as it is. -/
theorem updatedRow_eq_self {c : Collection} {rootKey : Value} {targets : List Target}
    {row : Name → Value} (h : ∀ t ∈ targets, links env rootKey t.key row = false) :
    updatedRow env c rootKey targets row = row := by
  unfold updatedRow
  induction targets with
  | nil => rfl
  | cons t targets ih =>
    rw [List.foldl_cons, h t (List.mem_cons_self ..), if_neg Bool.false_ne_true]
    exact ih fun u hu => h u (List.mem_cons_of_mem _ hu)

/-- A row that one update is for gets its payload. -/
theorem updatedRow_eq_assignAll {c : Collection} {rootKey : Value} {targets : List Target}
    (hkeys : (targets.map Target.key).Nodup) {target : Target} (htarget : target ∈ targets)
    {row : Name → Value} (hlinks : links env rootKey target.key row = true) :
    updatedRow env c rootKey targets row = assignAll (payloadOf env c target) row := by
  induction targets with
  | nil => cases htarget
  | cons t targets ih =>
    rw [List.map_cons, List.nodup_cons] at hkeys
    show updatedRow env c rootKey targets
      (if links env rootKey t.key row then assignAll (payloadOf env c t) row else row) = _
    have hkey : ∀ u : Target, links env rootKey u.key row = true → u.key = target.key := by
      intro u hu
      unfold links at hu hlinks
      simp only [Bool.and_eq_true, beq_iff_eq] at hu hlinks
      exact hu.2.symm.trans hlinks.2
    obtain rfl | hmem := List.mem_cons.mp htarget
    · rw [if_pos hlinks]
      apply updatedRow_eq_self
      intro u hu
      -- The row still links the root to this target, and no other update is for it.
      by_contra hother
      have hlinked : links env rootKey u.key (assignAll (payloadOf env c target) row) = true := by
        simpa using hother
      have hsame : links env rootKey u.key row = true := by
        unfold links ofRoot payloadOf at hlinked
        rw [assignAll_pivotPayload, assignAll_pivotPayload, if_pos (.inl rfl),
          if_pos (.inr rfl)] at hlinked
        exact hlinked
      exact hkeys.1 (hkey u hsame ▸ List.mem_map_of_mem hu)
    · have hne : links env rootKey t.key row ≠ true := by
        intro hsame
        exact hkeys.1 (hkey t hsame ▸ List.mem_map_of_mem hmem)
      rw [if_neg hne]
      exact ih hkeys.2 hmem

/-! ## Tidy collections before a flush -/

section Tidy

variable {c : Collection} {given : Value → List Patch}

/-- A target that is held is equivalent to one of some that are held just when they have its
    key. -/
theorem Tidy.containsEquivalent_eq (hbound : env.bound = true) (h : Tidy env c given)
    {values : List Target} (hvalues : values ⊆ c.items ++ c.baseline) {t : Target}
    (ht : t ∈ c.items ++ c.baseline) :
    containsEquivalent env values t = decide (t.key ∈ values.map Target.key) := by
  unfold containsEquivalent
  rw [Bool.eq_iff_iff, List.any_eq_true, decide_eq_true_eq, List.mem_map]
  constructor
  · intro ⟨s, hs, hst⟩
    exact ⟨s, hs, h.same s (hvalues hs) t ht hst⟩
  · intro ⟨s, hs, hkey⟩
    exact ⟨s, hs, sameEntity_of_key hbound (h.present s (hvalues hs)) hkey⟩

theorem Tidy.added_eq (hbound : env.bound = true) (h : Tidy env c given) :
    added env c = c.items.filter fun t => t.key ∉ c.baseline.map Target.key := by
  unfold added
  apply List.filter_congr
  intro t ht
  rw [h.containsEquivalent_eq hbound (List.subset_append_right ..) (List.mem_append_left _ ht)]
  exact decide_not.symm

theorem Tidy.removed_eq (hbound : env.bound = true) (h : Tidy env c given) :
    removed env c = c.baseline.filter fun t => t.key ∉ c.items.map Target.key := by
  unfold removed
  apply List.filter_congr
  intro t ht
  rw [h.containsEquivalent_eq hbound (List.subset_append_left ..) (List.mem_append_right _ ht)]
  exact decide_not.symm

/-- The pending patch of an item. -/
theorem Tidy.pivotPatch_eq (h : Tidy env c given) {t : Target} (ht : t ∈ c.items) :
    (pivotPatch env c t).getD .empty = merged (given t.key) := by
  have hfind : findEquivalent env c t = some t := by
    unfold findEquivalent
    cases hfound : c.items.find? fun item => sameEntity env item t with
    | none =>
      have hself := List.find?_eq_none.mp hfound t ht
      exact absurd (sameEntity_self t) hself
    | some s =>
      have hs : s ∈ c.items := List.mem_of_find?_eq_some hfound
      have hsame := List.find?_some (p := fun item => sameEntity env item t) hfound
      rw [h.eq_of_key hs ht (h.same s (List.mem_append_left _ hs) t (List.mem_append_left _ ht)
        hsame)]
  unfold pivotPatch
  rw [hfind]
  exact h.patched t ht

/-- An item without an update has no patch. -/
theorem Tidy.merged_of_not_mem_pivotUpdates (hbound : env.bound = true) (h : Tidy env c given)
    {t : Target} (ht : t ∈ c.items) (hbaseline : t.key ∈ c.baseline.map Target.key)
    (hupdate : t ∉ pivotUpdates env c) : merged (given t.key) = .empty := by
  rw [← h.patched t ht]
  have hcontains : containsEquivalent env c.baseline t = true := by
    rw [h.containsEquivalent_eq hbound (List.subset_append_right ..) (List.mem_append_left _ ht)]
    simpa using hbaseline
  cases hlookup : c.pivotPatches.lookup t.address with
  | none => rfl
  | some patch =>
    have hmem : t ∈ pivotUpdates env c := by
      unfold pivotUpdates
      rw [List.mem_filter, hlookup, hcontains]
      exact ⟨ht, rfl⟩
    exact absurd hmem hupdate

end Tidy

/-! ## A flush -/

/-- A collection as it is when it has been loaded or its changes were accepted: its targets are
    those of the pivot rows of the root, one for each target key. -/
structure Loaded (env : Binding κ) (rootKey : Value) (rows : List (Name → Value))
    (c : Collection) : Prop where
  items : c.items = c.baseline
  patches : c.pivotPatches = ∅
  present : ∀ t ∈ c.baseline, Present env t
  same : ∀ s ∈ c.baseline, ∀ t ∈ c.baseline, sameEntity env s t = true → s.key = t.key
  keys : (c.baseline.map Target.key).Nodup
  addresses : (c.baseline.map Target.address).Nodup
  rows : (linked env rootKey rows).Perm (c.baseline.map Target.key)

/-- What a flush makes of the pivot rows: the root is linked to the items, a row that was there has
    the columns of the patches for its target and keeps the others, and a new row has the columns
    of the patches. -/
structure Converged (env : Binding κ) (rootKey : Value) (rows rows' : List (Name → Value))
    (baseline items : List Target) (given : Value → List Patch) : Prop where
  linked : (linked env rootKey rows').Perm (items.map Target.key)
  distinct : (items.map Target.key).Nodup
  others : others env rootKey rows' = others env rootKey rows
  kept : ∀ item ∈ items, item.key ∈ baseline.map Target.key →
    ∀ row' ∈ rows', links env rootKey item.key row' = true →
      ∃ row ∈ rows, links env rootKey item.key row = true ∧ ∀ column, row' column =
        if column = env.relation.pivotRootForeignKey ∨
            column = env.relation.pivotTargetForeignKey then row column
        else ((merged (given item.key)).entries.lookup column).getD (row column)
  new : ∀ item ∈ items, item.key ∉ baseline.map Target.key →
    ∀ row' ∈ rows', links env rootKey item.key row' = true →
      ∀ column, column ≠ env.relation.pivotRootForeignKey →
        column ≠ env.relation.pivotTargetForeignKey →
        ∀ value, (merged (given item.key)).entries.lookup column = some value →
          row' column = value

/-- A loaded collection is tidy, and no patches have been given. -/
theorem Loaded.tidy {rootKey : Value} {rows : List (Name → Value)} {c : Collection}
    (h : Loaded env rootKey rows c) : Tidy env c fun _ => [] where
  present t ht := by
    rw [h.items, List.mem_append, or_self] at ht
    exact h.present t ht
  same s hs t ht := by
    rw [h.items, List.mem_append, or_self] at hs ht
    exact h.same s hs t ht
  keys := h.items ▸ h.keys
  baselineKeys := h.keys
  addresses := h.items ▸ h.addresses
  patched t _ := by
    rw [h.patches]
    rfl
  fresh _ _ := rfl

variable (env) in
/-- Changes that are accepted leave nothing to flush. -/
theorem acceptChanges_settled (tracked : Target → Bool) (rootKey : Value) (c : Collection) :
    dirty env (acceptChanges c) = false ∧ flush env tracked rootKey (acceptChanges c) = .ok [] := by
  have hcontains : ∀ t ∈ c.items, containsEquivalent env c.items t = true := by
    intro t ht
    exact List.any_eq_true.mpr ⟨t, ht, sameEntity_self t⟩
  have hadded : added env (acceptChanges c) = [] := by
    apply List.filter_eq_nil_iff.mpr
    intro t ht
    have hitem : containsEquivalent env (acceptChanges c).baseline t = true := hcontains t ht
    simp [hitem]
  have hremoved : removed env (acceptChanges c) = [] := by
    apply List.filter_eq_nil_iff.mpr
    intro t ht
    have hitem : containsEquivalent env (acceptChanges c).items t = true := hcontains t ht
    simp [hitem]
  have hupdates : pivotUpdates env (acceptChanges c) = [] := by
    apply List.filter_eq_nil_iff.mpr
    intro t _
    simp [acceptChanges]
  constructor
  · unfold dirty
    rw [hadded, hremoved]
    rfl
  · unfold flush
    rw [hadded, hremoved, hupdates]
    simp only [List.isEmpty_nil, Bool.not_true, Bool.or_self, Bool.and_false]
    rfl

section Rows

variable {c : Collection} {given : Value → List Patch} {rootKey : Value}
  {rows new rows' : List (Name → Value)}

/-- The rows that the first loop inserts are those of the root for the added targets. -/
theorem links_inserted (hcolumns : env.relation.pivotRootForeignKey ≠
      env.relation.pivotTargetForeignKey) {targets : List Target}
    (hnew : List.Forall₂ (fun t row => ∃ base, row = assignAll
      (pivotWheres env.relation rootKey t.key ++ payloadOf env c t) base) targets new) :
    (∀ row ∈ new, ofRoot env rootKey row = true) ∧
      new.map (fun row => row env.relation.pivotTargetForeignKey) = targets.map Target.key ∧
      ∀ row ∈ new, ∃ t ∈ targets, links env rootKey t.key row = true ∧ ∃ base, row = assignAll
        (pivotWheres env.relation rootKey t.key ++ payloadOf env c t) base := by
  induction hnew with
  | nil => exact ⟨by simp, rfl, by simp⟩
  | @cons t row targets new hrow _ ih =>
    obtain ⟨base, rfl⟩ := hrow
    have hroot : assignAll (pivotWheres env.relation rootKey t.key ++ payloadOf env c t) base
        env.relation.pivotRootForeignKey = rootKey := by
      simp [assignAll, pivotWheres]
    have htarget : assignAll (pivotWheres env.relation rootKey t.key ++ payloadOf env c t) base
        env.relation.pivotTargetForeignKey = t.key := by
      have hne : (env.relation.pivotTargetForeignKey == env.relation.pivotRootForeignKey) =
          false := beq_eq_false_iff_ne.mpr (Ne.symm hcolumns)
      simp [assignAll, pivotWheres, List.lookup_cons, hne]
    refine ⟨?_, ?_, ?_⟩
    · intro r hr
      obtain rfl | hr := List.mem_cons.mp hr
      · exact beq_iff_eq.mpr hroot
      · exact ih.1 r hr
    · rw [List.map_cons, List.map_cons, ih.2.1, htarget]
    · intro r hr
      obtain rfl | hr := List.mem_cons.mp hr
      · have hlinks : links env rootKey t.key (assignAll
            (pivotWheres env.relation rootKey t.key ++ payloadOf env c t) base) = true := by
          unfold links ofRoot
          rw [hroot, htarget, beq_self_eq_true, beq_self_eq_true]
          rfl
        exact ⟨t, List.mem_cons_self .., hlinks, base, rfl⟩
      · obtain ⟨u, hu, hbase⟩ := ih.2.2 r hr
        exact ⟨u, List.mem_cons_of_mem _ hu, hbase⟩

omit [DecidableEq κ] in
/-- A row links the root to one key. -/
theorem links_key {key key' : Value} {row : Name → Value}
    (hkey : links env rootKey key row = true) (hkey' : links env rootKey key' row = true) :
    key = key' := by
  unfold links at hkey hkey'
  simp only [Bool.and_eq_true, beq_iff_eq] at hkey hkey'
  exact hkey.2.symm.trans hkey'.2

omit [DecidableEq κ] in
/-- A row that links the root to a target is for a linked key. -/
theorem mem_linked {key : Value} {row : Name → Value} (hrow : row ∈ rows)
    (hlinks : links env rootKey key row = true) : key ∈ linked env rootKey rows := by
  unfold links at hlinks
  rw [Bool.and_eq_true, beq_iff_eq] at hlinks
  exact List.mem_map.mpr ⟨row, List.mem_filter.mpr ⟨hrow, hlinks.1⟩, hlinks.2⟩

/-- The keys that are linked after the three loops. -/
theorem linked_flushed (hnew : ∀ row ∈ new, ofRoot env rootKey row = true)
    (updates gone : List Target) :
    linked env rootKey (((rows ++ new).map (updatedRow env c rootKey updates)).filter fun row =>
      !(gone.any fun t => links env rootKey t.key row)) =
      (linked env rootKey rows ++
        new.map fun row => row env.relation.pivotTargetForeignKey).filter
          fun key => key ∉ gone.map Target.key := by
  have hall : new.filter (ofRoot env rootKey) = new := List.filter_eq_self.mpr hnew
  have hkeys : linked env rootKey rows ++ new.map (fun row =>
      row env.relation.pivotTargetForeignKey) = linked env rootKey (rows ++ new) := by
    unfold linked
    rw [List.filter_append, hall, List.map_append]
  rw [hkeys]
  generalize rows ++ new = all
  unfold linked
  rw [List.filter_filter, List.filter_map, List.map_map, List.filter_map, List.filter_filter]
  have hkept : ∀ row ∈ all, ((fun row => ofRoot env rootKey row &&
      !(gone.any fun t => links env rootKey t.key row)) ∘ updatedRow env c rootKey updates) row =
      (decide (row env.relation.pivotTargetForeignKey ∉ gone.map Target.key) &&
        ofRoot env rootKey row) := by
    intro row _
    rw [Function.comp_apply, ofRoot_updatedRow]
    simp only [links_updatedRow]
    unfold links
    cases hroot : ofRoot env rootKey row with
    | false => simp
    | true =>
      rw [Bool.eq_iff_iff]
      simp only [Bool.true_and, Bool.and_true, Bool.not_eq_true', List.any_eq_false,
        decide_eq_true_eq, List.mem_map, not_exists, not_and, beq_iff_eq]
      exact forall₂_congr fun _ _ => not_congr eq_comm
  rw [List.filter_congr hkept]
  apply List.map_congr_left
  intro row _
  exact (updatedRow_foreignKeys c rootKey updates row).2

/-- The pivot rows of other roots after the three loops. -/
theorem others_flushed (hnew : ∀ row ∈ new, ofRoot env rootKey row = true)
    (updates gone : List Target) :
    others env rootKey (((rows ++ new).map (updatedRow env c rootKey updates)).filter fun row =>
      !(gone.any fun t => links env rootKey t.key row)) = others env rootKey rows := by
  have hforeign : ∀ (row : Name → Value) (key : Value), ofRoot env rootKey row = false →
      links env rootKey key row = false := by
    intro row key hrow
    unfold links
    rw [hrow, Bool.false_and]
  have hkept : ∀ row ∈ rows ++ new, ((fun row => !ofRoot env rootKey row &&
      !(gone.any fun t => links env rootKey t.key row)) ∘ updatedRow env c rootKey updates) row =
      !ofRoot env rootKey row := by
    intro row _
    rw [Function.comp_apply, ofRoot_updatedRow]
    cases hrow : ofRoot env rootKey row with
    | true => rfl
    | false => simp [hforeign row _ hrow]
  have hnone : new.filter (fun row => !ofRoot env rootKey row) = [] := by
    apply List.filter_eq_nil_iff.mpr
    intro row hrow
    simp [hnew row hrow]
  unfold others
  rw [List.filter_filter, List.filter_map, List.filter_congr hkept, List.filter_append, hnone,
    List.append_nil]
  -- What is left are rows that no update is for.
  conv_rhs => rw [← List.map_id (rows.filter fun row => !ofRoot env rootKey row)]
  apply List.map_congr_left
  intro row hrow
  have hother : ofRoot env rootKey row = false := by simpa using (List.mem_filter.mp hrow).2
  exact updatedRow_eq_self fun t _ => hforeign row t.key hother

/-- Keys of the baseline and of added items, less those that are not items any more, are the keys
    of the items. -/
theorem keys_flushed (h : Tidy env c given) {keys : List Value}
    (hkeys : keys.Perm (c.baseline.map Target.key)) :
    ((keys ++ (c.items.filter fun t => t.key ∉ c.baseline.map Target.key).map Target.key).filter
      fun key => key ∉ (c.baseline.filter fun t => t.key ∉ c.items.map Target.key).map
        Target.key).Perm (c.items.map Target.key) := by
  have hnodup : (keys ++ (c.items.filter fun t => t.key ∉ c.baseline.map Target.key).map
      Target.key).Nodup := by
    rw [List.nodup_append]
    refine ⟨hkeys.nodup_iff.mpr h.baselineKeys, h.keys.sublist (List.filter_sublist.map _), ?_⟩
    intro a ha b hb hab
    obtain ⟨t, ht, rfl⟩ := List.mem_map.mp hb
    have hnot : t.key ∉ c.baseline.map Target.key := by
      simpa using (List.mem_filter.mp ht).2
    exact hnot (hab ▸ hkeys.subset ha)
  rw [List.perm_ext_iff_of_nodup (hnodup.filter _) h.keys]
  intro key
  rw [List.mem_filter, List.mem_append, decide_eq_true_eq, hkeys.mem_iff]
  simp only [List.mem_map, List.mem_filter, decide_eq_true_eq]
  constructor
  · intro ⟨hkey, hleft⟩
    obtain hbase | ⟨t, ⟨ht, _⟩, hkey⟩ := hkey
    · obtain ⟨t, ht, rfl⟩ := hbase
      by_contra hgone
      exact hleft ⟨t, ⟨ht, hgone⟩, rfl⟩
    · exact ⟨t, ht, hkey⟩
  · intro ⟨t, ht, hkey⟩
    constructor
    · by_cases hbase : ∃ s ∈ c.baseline, s.key = key
      · exact .inl hbase
      · exact .inr ⟨t, ⟨ht, hkey ▸ hbase⟩, hkey⟩
    · intro ⟨s, ⟨_, hgone⟩, hs⟩
      exact hgone ⟨t, ht, hkey.trans hs.symm⟩

/-- The row of an item that was linked before gets the patches for its key. -/
theorem updatedRow_kept (hbound : env.bound = true) (h : Tidy env c given) {item : Target}
    (hitem : item ∈ c.items) (hbase : item.key ∈ c.baseline.map Target.key) {row : Name → Value}
    (hlinks : links env rootKey item.key row = true) (column : Name) :
    updatedRow env c rootKey (pivotUpdates env c) row column =
      if column = env.relation.pivotRootForeignKey ∨
          column = env.relation.pivotTargetForeignKey then row column
      else ((merged (given item.key)).entries.lookup column).getD (row column) := by
  have hsub : List.Sublist (pivotUpdates env c) c.items := List.filter_sublist
  by_cases hupdate : item ∈ pivotUpdates env c
  · rw [updatedRow_eq_assignAll (h.keys.sublist (hsub.map _)) hupdate hlinks]
    unfold payloadOf
    rw [assignAll_pivotPayload, h.pivotPatch_eq hitem]
  · rw [h.merged_of_not_mem_pivotUpdates hbound hitem hbase hupdate, updatedRow_eq_self]
    · exact (ite_self _).symm
    · intro t ht
      by_contra hother
      have hkey := links_key hlinks (by simpa using hother)
      rw [h.eq_of_key hitem (hsub.subset ht) hkey] at hupdate
      exact hupdate ht

/-- No update is for an item that was not linked before. -/
theorem updatedRow_new (hbound : env.bound = true) (h : Tidy env c given) {item : Target}
    (hitem : item ∈ c.items) (hbase : item.key ∉ c.baseline.map Target.key) {row : Name → Value}
    (hlinks : links env rootKey item.key row = true) :
    updatedRow env c rootKey (pivotUpdates env c) row = row := by
  apply updatedRow_eq_self
  intro t ht
  by_contra hother
  obtain ⟨htitem, hcontains⟩ := List.mem_filter.mp ht
  have hkey := links_key hlinks (by simpa using hother)
  rw [← h.eq_of_key hitem htitem hkey, h.containsEquivalent_eq hbound
    (List.subset_append_right ..) (List.mem_append_left _ hitem)] at hcontains
  exact hbase (of_decide_eq_true (Bool.and_eq_true_iff.mp hcontains).2)

end Rows

/-- What a flush sends for a tidy collection of a persisted root, and what it makes of the pivot
    rows. -/
theorem Tidy.flush (hbound : env.bound = true) {rootKey : Value}
    (hroot : missingRelationKey env.root env.relation.localKey rootKey = false)
    (hcolumns : env.relation.pivotRootForeignKey ≠ env.relation.pivotTargetForeignKey)
    (htable : env.relation.cascade.cascadesRemove = true →
      env.target.table ≠ env.relation.pivot)
    {c : Collection} {given : Value → List Patch} (h : Tidy env c given)
    (tracked : Target → Bool) (fresh : Tables → Name → Name → Value) (tables : Tables)
    (hrows : (linked env rootKey (tables env.relation.pivot)).Perm
      (c.baseline.map Target.key)) :
    ∃ statements, PivotCollection.flush env tracked rootKey c = .ok statements ∧
      Converged env rootKey (tables env.relation.pivot)
        (performAll fresh statements tables env.relation.pivot) c.baseline c.items given := by
  have hnull := not_null_of_present hroot
  have hadded : ∀ t ∈ added env c, t ∈ c.items := fun t ht => (List.mem_filter.mp ht).1
  have hpresent : ∀ t ∈ c.items, Present env t :=
    fun t ht => h.present t (List.mem_append_left _ ht)
  have hupdates : ∀ t ∈ pivotUpdates env c, t ∈ c.items := fun t ht => (List.mem_filter.mp ht).1
  have hremoved : ∀ t ∈ removed env c, Present env t :=
    fun t ht => h.present t (List.mem_append_right _ (List.mem_filter.mp ht).1)
  refine ⟨(added env c).map (insertStatement env c rootKey) ++
    (pivotUpdates env c).filterMap (updatePivot env c rootKey) ++
    (removed env c).flatMap (deletePivot env tracked rootKey), ?_, ?_⟩
  · unfold PivotCollection.flush
    rw [hroot, Bool.false_and, mapM_insertPivot fun t ht => hpresent t (hadded t ht)]
    rfl
  · obtain ⟨new, hnew, hinserted⟩ := perform_inserts env fresh c rootKey (added env c) tables
    obtain ⟨hnewRoot, hnewKeys, hnewRows⟩ := links_inserted hcolumns hinserted
    rw [performAll_append, performAll_append,
      perform_deletes fresh tracked hnull htable _ hremoved,
      perform_updates fresh hnull _ fun t ht => hpresent t (hupdates t ht), hnew]
    have haddedKey : ∀ t ∈ added env c, t.key ∉ c.baseline.map Target.key := by
      intro t ht
      rw [h.added_eq hbound] at ht
      simpa using (List.mem_filter.mp ht).2
    constructor
    · rw [linked_flushed hnewRoot, hnewKeys, h.added_eq hbound, h.removed_eq hbound]
      exact keys_flushed h hrows
    · exact h.keys
    · exact others_flushed hnewRoot _ _
    · intro item hitem hbase row' hrow' hlinks
      obtain ⟨row, hrow, rfl⟩ := List.mem_map.mp (List.mem_filter.mp hrow').1
      rw [links_updatedRow] at hlinks
      obtain hold | hinsert := List.mem_append.mp hrow
      · exact ⟨row, hold, hlinks, updatedRow_kept hbound h hitem hbase hlinks⟩
      · -- The inserted rows are for other keys.
        obtain ⟨t, ht, htlinks, _⟩ := hnewRows row hinsert
        rw [links_key hlinks htlinks] at hbase
        exact absurd hbase (haddedKey t ht)
    · intro item hitem hbase row' hrow' hlinks column hcolumn hcolumn' value hvalue
      obtain ⟨row, hrow, rfl⟩ := List.mem_map.mp (List.mem_filter.mp hrow').1
      rw [links_updatedRow] at hlinks
      rw [updatedRow_new hbound h hitem hbase hlinks]
      obtain hold | hinsert := List.mem_append.mp hrow
      · exact absurd (hrows.subset (mem_linked hold hlinks)) hbase
      · obtain ⟨t, ht, htlinks, base, rfl⟩ := hnewRows row hinsert
        have hitemOf : t = item := h.eq_of_key (hadded t ht) hitem (links_key htlinks hlinks)
        subst hitemOf
        have hpayload : (payloadOf env c t).lookup column = some value := by
          unfold payloadOf
          rw [lookup_pivotPayload, if_neg (not_or.mpr ⟨hcolumn, hcolumn'⟩), h.pivotPatch_eq hitem,
            hvalue]
        unfold assignAll
        rw [List.lookup_append, hpayload]
        have hroot' : (column == env.relation.pivotRootForeignKey) = false :=
          beq_eq_false_iff_ne.mpr hcolumn
        have htarget' : (column == env.relation.pivotTargetForeignKey) = false :=
          beq_eq_false_iff_ne.mpr hcolumn'
        simp [pivotWheres, List.lookup_cons, hroot', htarget']

/-- A tidy collection is as if it had just been loaded, when its changes have been flushed and
    accepted. -/
theorem Tidy.loaded {c : Collection} {given : Value → List Patch} (h : Tidy env c given)
    {rootKey : Value} {rows : List (Name → Value)}
    (hrows : (linked env rootKey rows).Perm (c.items.map Target.key)) :
    Loaded env rootKey rows (acceptChanges c) where
  items := rfl
  patches := rfl
  present t ht := h.present t (List.mem_append_left _ ht)
  same s hs t ht := h.same s (List.mem_append_left _ hs) t (List.mem_append_left _ ht)
  keys := h.keys
  addresses := h.addresses
  rows := hrows

/-- Rounds of clean calls, each with a flush. -/
inductive Rounds (env : Binding κ) (rootKey : Value) (tracked : Target → Bool)
    (fresh : Tables → Name → Name → Value) (c : Collection) (tables : Tables) :
    Collection → Tables → Prop where
  | start : Rounds env rootKey tracked fresh c tables c tables
  | round {c' : Collection} {tables' : Tables} {calls : List LinkCall}
      {statements : List Statement} (hrounds : Rounds env rootKey tracked fresh c tables c' tables')
      (hclean : CleanCalls env calls c')
      (hflush : flush env tracked rootKey (runCalls env calls (c', fun _ => [])).1 =
        .ok statements) :
      Rounds env rootKey tracked fresh c tables
        (acceptChanges (runCalls env calls (c', fun _ => [])).1)
        (performAll fresh statements tables')

/-- After any rounds the collection is as if it had just been loaded. -/
theorem rounds_loaded (hbound : env.bound = true) {rootKey : Value}
    (hroot : missingRelationKey env.root env.relation.localKey rootKey = false)
    (hcolumns : env.relation.pivotRootForeignKey ≠ env.relation.pivotTargetForeignKey)
    (htable : env.relation.cascade.cascadesRemove = true →
      env.target.table ≠ env.relation.pivot)
    {tracked : Target → Bool} {fresh : Tables → Name → Name → Value} {c c' : Collection}
    {tables tables' : Tables} (hloaded : Loaded env rootKey (tables env.relation.pivot) c)
    (hrounds : Rounds env rootKey tracked fresh c tables c' tables') :
    Loaded env rootKey (tables' env.relation.pivot) c' := by
  induction hrounds with
  | start => exact hloaded
  | @round c' tables' calls statements _ hclean hflush ih =>
    have htidy := tidy_runCalls hbound calls ih.tidy hclean
    have hrows : (linked env rootKey (tables' env.relation.pivot)).Perm
        ((runCalls env calls (c', fun _ => [])).1.baseline.map Target.key) := by
      rw [runCalls_baseline]
      exact ih.rows
    obtain ⟨sent, hsent, hconverged⟩ :=
      htidy.flush hbound hroot hcolumns htable tracked fresh tables' hrows
    rw [hflush] at hsent
    cases hsent
    exact htidy.loaded hconverged.linked

/-! ## Keys with one text -/

theorem nodup_id : [ByteString.ofAscii "id"].Nodup := by decide

theorem mem_id : ByteString.ofAscii "id" ∈ [ByteString.ofAscii "id"] := by decide

/-- The values of products and of tags, where the key of a tag is a number. -/
def tagBinding (κ : Type) (valueKey : Value → κ) : Binding κ where
  relation :=
    { index := 0, cascade := .none, pivot := .ofAscii "product_tags",
      pivotRootForeignKey := .ofAscii "product_id", pivotTargetForeignKey := .ofAscii "tag_weight",
      localKey := .ofAscii "id", targetKey := .ofAscii "weight" }
  root := ⟨0, .ofAscii "products", .ofAscii "id", true, [.ofAscii "id"], nodup_id, mem_id⟩
  target := ⟨1, .ofAscii "tags", .ofAscii "id", true, [.ofAscii "id", .ofAscii "weight"],
    by decide, by decide⟩
  bound := true
  valueKey := valueKey
  pivotDefault _ := .null
  fromValue _ value := value

/-- `0.1`. -/
def tenth : Value := .double 0x3fb999999999999a

/-- `0.10000001`, which is written as `0.1` as well. -/
def overTenth : Value := .double 0x3fb99999c48cb75e

/-- A product that has the tag `0.1`. -/
def taggedProduct : Collection where
  items := [⟨0, tenth⟩]
  baseline := [⟨0, tenth⟩]
  pivots _ := none
  pivotPatches := ∅

/-- The pivot row of the product. -/
def productTag : Name → Value := fun column =>
  if column = .ofAscii "product_id" then .int64 1
  else if column = .ofAscii "tag_weight" then tenth
  else .null

/-- The tables with the pivot row of the product. -/
def productTables : Tables := fun _ => [productTag]

theorem taggedProduct_loaded (valueKey : Value → κ) :
    Loaded (tagBinding κ valueKey) (.int64 1) (productTables (.ofAscii "product_tags"))
      taggedProduct where
  items := rfl
  patches := rfl
  present t ht := by
    rw [List.mem_singleton.mp ht]
    exact rfl
  same s hs t ht _ := by
    rw [List.mem_singleton.mp hs, List.mem_singleton.mp ht]
  keys := List.nodup_singleton _
  addresses := List.nodup_singleton _
  rows := by
    have hrows : linked (tagBinding κ valueKey) (.int64 1)
        (productTables (.ofAscii "product_tags")) = [tenth] := by
      have hroot : ofRoot (tagBinding κ valueKey) (.int64 1) productTag = true := rfl
      unfold linked productTables
      rw [List.filter_cons_of_pos hroot]
      rfl
    rw [hrows]
    rfl

/-- The targets that a call is given. -/
def LinkCall.targets : LinkCall → List Target
  | .attach value _ | .detach value => [value]
  | .attachKey _ made _ => made.toOption.toList
  | .detachKey _ => []
  | .syncByIds ids => ids.filterMap fun id => id.2.toOption

/-- The targets have keys that are not missing, and an object keeps its key. -/
structure FixedKeys (env : Binding κ) (c : Collection) (calls : List LinkCall) : Prop where
  present : ∀ t ∈ c.baseline ++ calls.flatMap LinkCall.targets, Present env t
  fixed : ∀ s ∈ c.baseline ++ calls.flatMap LinkCall.targets,
    ∀ t ∈ c.baseline ++ calls.flatMap LinkCall.targets, s.address = t.address → s.key = t.key

end MetalOrm.Native.PivotCollection
