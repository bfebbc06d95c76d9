import MetalOrm.Native.RelationQueries
import MetalOrm.Spec.PlaceholderOrder

/-!
# Numbered placeholders

On PostgreSQL every nested text is compiled behind the parameters pushed before it, so
the placeholders of a query are `$1`, `$2`, ... in order. Two places do not: the
predicate of `every` is compiled as if the correlation in front of it had no parameter,
and the morph loaders write a bare `?`.

## Key results

- `compileWith_emits`: filtered queries are numbered where `every` does not collide
- `everyFilter_of_nodup`: where it does, a placeholder occurs twice
- `placeholder_numbering`: which statements refer to each parameter once
-/

namespace MetalOrm.Native.Query

open ForStd

variable {V : Type}

/-! ## Literals of filters -/

/-- The literals of the correlation of a relation. -/
def RelationColumns.literals : RelationColumns V → List V
  | .morphOne _ _ _ typeValue => [typeValue]
  | .morphMany _ _ _ typeValue => [typeValue]
  | _ => []

mutual

/-- The literals that a query pushes on PostgreSQL, with `extra` for the extra condition. -/
def CorrelatedQuery.literals : CorrelatedQuery V → (extra : List V) → List V
  | .basic query, extra => queryLiterals .postgres query extra
  | .filtered base filters, extra => queryLiterals .postgres base (filterLiterals filters ++ extra)

def filterLiterals : List (RelationFilter V) → List V
  | [] => []
  | filter :: filters => filter.literals ++ filterLiterals filters

def RelationFilter.literals : RelationFilter V → List V
  | .related relation child _ => child.literals relation.columns.literals
  | .every relation predicate => relation.columns.literals ++ predicate.literals []

end

mutual

/-- Every `every` filter of a query, at any depth, satisfies `p`. -/
def CorrelatedQuery.everyFilter (p : RelationInfo V → CorrelatedQuery V → Prop) :
    CorrelatedQuery V → Prop
  | .basic _ => True
  | .filtered _ filters => everyFilters p filters

def everyFilters (p : RelationInfo V → CorrelatedQuery V → Prop) : List (RelationFilter V) → Prop
  | [] => True
  | filter :: filters => filter.everyFilter p ∧ everyFilters p filters

def RelationFilter.everyFilter (p : RelationInfo V → CorrelatedQuery V → Prop) :
    RelationFilter V → Prop
  | .related _ child _ => child.everyFilter p
  | .every relation predicate => p relation predicate ∧ predicate.everyFilter p

end

/-- The correlation and the predicate of an `every` filter do not both have literals. -/
def SeparateEvery (relation : RelationInfo V) (predicate : CorrelatedQuery V) : Prop :=
  relation.columns.literals = [] ∨ predicate.literals [] = []

/-! ## Emptiness -/

theorem isEmpty_joinPredicates {predicates : List (Sql V)}
    (h : (joinPredicates predicates).isEmpty = true) : predicates = [] := by
  cases predicates with
  | nil => rfl
  | cons sql rest =>
    cases rest with
    | nil => simp [joinPredicates, Sql.join] at h
    | cons next rest => simp [joinPredicates, Sql.join] at h

theorem holes_joinPredicates (predicates : List (Sql V)) :
    (joinPredicates predicates).holes = textSlots predicates := by
  simp only [joinPredicates, holes_join_textSlots]
  induction predicates with
  | nil => rfl
  | cons sql rest ih => simp [ih]

/-! ## Numbered filters -/

/-- What an extra condition pushes, whatever the alias of the root entity. -/
def EmitsAnyExtra (extra : Option (ExtraWhereCompiler V)) (new : List V) (P : Prop) : Prop :=
  ∀ rootAlias, EmitsExtra .postgres extra rootAlias new P False

theorem numbered_morphCorrelation {dialect : Dialect} {child outer typeField idField localKey : String}
    {v : V} {out : CompiledQuery V}
    (h : morphCorrelation dialect child outer typeField idField localKey v = .ok out) :
    out.params = [v] ∧ Numbered dialect.slot 0 out.sql.holes [v] ∧ out.sql.isEmpty = false := by
  obtain ⟨p, hp, h⟩ := except_bind_ok h
  cases h
  exact ⟨rfl, by simpa using .cons hp (.nil 1), by simp⟩

/-- The correlation of a relation is numbered from one. -/
theorem numbered_correlation {relation : RelationInfo V} {dialect : Dialect} {child outer : String}
    {out : CompiledQuery V}
    (h : compileRelationCorrelation relation dialect child outer = .ok out) :
    out.params = relation.columns.literals ∧
      Numbered dialect.slot 0 out.sql.holes relation.columns.literals ∧
      out.sql.isEmpty = false := by
  unfold compileRelationCorrelation at h
  split at h
  · rename_i hcolumns
    cases h
    simp [hcolumns, RelationColumns.literals, Numbered.nil]
  · rename_i hcolumns
    cases h
    simp [hcolumns, RelationColumns.literals, Numbered.nil]
  · rename_i hcolumns
    cases h
    simp [hcolumns, RelationColumns.literals, Numbered.nil]
  · rename_i hcolumns
    cases h
    simp [hcolumns, RelationColumns.literals, Numbered.nil]
  · rename_i hcolumns
    rw [hcolumns]
    exact numbered_morphCorrelation h
  · rename_i hcolumns
    rw [hcolumns]
    exact numbered_morphCorrelation h

/-- A numbered text, as a fragment that cannot be read backwards. -/
theorem fragment_of_numbered {slot : Nat → Placeholder → Prop} {n : Nat} {slots : Slots V}
    {new : List V} (h : Numbered slot n slots new) : Fragment slot n slots new True False :=
  ⟨by simp [h.snd], Nat.le_of_eq h.length, fun _ => h, fun hfalse => hfalse.elim⟩

theorem emits_correlation (relation : RelationInfo V) (outer : String) :
    EmitsAnyExtra (some fun dialect child => compileRelationCorrelation relation dialect child outer)
      relation.columns.literals True := by
  intro rootAlias
  refine ⟨fun dialect out _ hout => ?_, fun dialect out _ hout hempty => ?_⟩
  · obtain ⟨hparams, hnumbered, -⟩ := numbered_correlation hout
    exact ⟨hparams, fragment_of_numbered hnumbered⟩
  · rw [(numbered_correlation hout).2.2] at hempty
    cases hempty

theorem emits_sameRow (relation : RelationInfo V) (child : String) :
    EmitsAnyExtra (some (sameRow relation child)) [] True := by
  intro rootAlias
  refine ⟨fun dialect out _ hout => ?_, fun _ _ _ _ _ => rfl⟩
  cases hout
  exact ⟨rfl, fragment_of_numbered (by simp [Numbered.nil])⟩

/-- An extra condition that is left out has no literals. -/
theorem emitsExtra_nil {dialect : Dialect} {extra : Option (ExtraWhereCompiler V)}
    {rootAlias : String} {new : List V} {P D : Prop}
    (h : EmitsExtra dialect.family extra rootAlias new P D) {params params' : List V}
    (hrun : compileExtraWhere dialect rootAlias extra params = .ok (none, params')) : new = [] := by
  cases extra with
  | none => exact h.1
  | some f =>
    obtain ⟨_, _, hg, hrun⟩ := run_bind_ok hrun
    cases hg
    obtain ⟨out, _, hout, hrun⟩ := run_bind_ok hrun
    obtain ⟨hout, -⟩ := run_lift_ok hout
    split at hrun
    · rename_i hempty
      exact h.2 (offsetPlaceholders dialect _) out rfl hout hempty
    · cases hrun

/-- The list of filters in front of an extra condition, as one condition. -/
theorem emits_filterList {compile : Dialect → String → CompileM V (List (Sql V))}
    {extra : Option (ExtraWhereCompiler V)} {new new' : List V} {P P' : Prop}
    (hfilters : ∀ dialect alias', dialect.family = .postgres →
      Emits dialect (compile dialect alias') textSlots [] new P False)
    (hnil : ∀ dialect alias' params params',
      compile dialect alias' params = .ok ([], params') → new = [])
    (hextra : EmitsAnyExtra extra new' P') :
    EmitsAnyExtra (some fun dialect alias' =>
      compileRelationFilterList dialect alias' (compile dialect alias') extra)
      (new ++ new') (P ∧ P') := by
  intro rootAlias
  have hbody : ∀ dialect out, dialect.family = .postgres →
      compileRelationFilterList dialect rootAlias (compile dialect rootAlias) extra = .ok out →
      out.params = new ++ new' ∧
        Fragment dialect.slot 0 out.sql.holes (new ++ new') (P ∧ P') False := by
    intro dialect out hfamily hout
    obtain ⟨⟨sql, params⟩, hbody, hout⟩ := except_bind_ok hout
    cases hout
    have hemits : Emits dialect _ Sql.holes [] (new ++ new') (P ∧ P') False :=
      Emits.congr (.bind (hfilters dialect rootAlias hfamily) fun predicates =>
        .bind (emits_compileExtraWhere (hfamily ▸ hextra rootAlias)) fun extraSql =>
        .pure (a := joinPredicates (predicates ++ extraSql.toList)) (by
          rw [holes_joinPredicates]
          cases extraSql <;> simp [optionSlots, textSlots]))
        (by simp) (by simp) (by simp)
    obtain ⟨hparams, slots, hslots, frag⟩ := hemits _ _ _ hbody
    exact ⟨by simpa using hparams, by simpa [hslots] using frag⟩
  refine ⟨hbody, fun dialect out hfamily hout hempty => ?_⟩
  -- an empty text means that there was neither a filter nor a condition
  obtain ⟨⟨sql, params⟩, hrun, hout⟩ := except_bind_ok hout
  cases hout
  obtain ⟨predicates, params₁, hpredicates, hrun⟩ := run_bind_ok hrun
  obtain ⟨extraSql, params₂, hextraSql, hrun⟩ := run_bind_ok hrun
  cases hrun
  have hnone := List.append_eq_nil_iff.mp (isEmpty_joinPredicates hempty)
  have hnew := hnil _ _ _ _ (hnone.1 ▸ hpredicates)
  have hnew' : new' = [] := by
    cases extraSql with
    | none => exact emitsExtra_nil (hfamily ▸ hextra rootAlias) hextraSql
    | some sql => simp at hnone
  rw [hnew, hnew', List.append_nil]

/-- The condition of an `every` filter: the correlation is in order, and so is the predicate,
    but both count from one. -/
theorem emits_everyCondition {relation : RelationInfo V} {outer : String}
    {compile : Dialect → String → Except Exn (CompiledQuery V)} {new : List V} {P : Prop}
    (hcompile : ∀ child, EmitsQuery .postgres (fun dialect => compile dialect child) new P False) :
    EmitsAnyExtra (some (everyCondition relation outer compile))
      (relation.columns.literals ++ new) ((relation.columns.literals = [] ∨ new = []) ∧ P) := by
  intro rootAlias
  refine ⟨fun dialect out hfamily hout => ?_, fun dialect out hfamily hout hempty => ?_⟩
  · obtain ⟨correlation, hcorrelation, hout⟩ := except_bind_ok hout
    obtain ⟨matching, hmatching, hout⟩ := except_bind_ok hout
    cases hout
    obtain ⟨hparams, hnumbered, -⟩ := numbered_correlation hcorrelation
    obtain ⟨hparams', frag⟩ := hcompile rootAlias dialect matching hfamily hmatching
    have hlength := hnumbered.length
    have hlength' := frag.length_le
    refine ⟨by simp [hparams, hparams'], ?_, ?_, ?_, fun hfalse => hfalse.elim⟩
    · intro v hv
      simp only [Sql.holes_append, Sql.holes_chars, List.append_nil, List.map_append,
        List.mem_append] at hv ⊢
      exact hv.imp (fun h => hnumbered.snd ▸ h) (frag.mem v)
    · simp only [Sql.holes_append, Sql.holes_chars, List.append_nil, List.length_append]
      omega
    · rintro ⟨hseparate, hP⟩
      have hnumbered' := frag.numbered hP
      cases hseparate with
      | inl hnil =>
        rw [hnil] at hnumbered ⊢
        have hholes : correlation.sql.holes = [] := by simpa using hnumbered.length
        simpa [hholes] using hnumbered'
      | inr hnil =>
        rw [hnil] at hnumbered' ⊢
        have hholes : matching.sql.holes = [] := by simpa using hnumbered'.length
        simpa [hholes] using hnumbered
  · obtain ⟨correlation, hcorrelation, hout⟩ := except_bind_ok hout
    obtain ⟨matching, hmatching, hout⟩ := except_bind_ok hout
    cases hout
    simp at hempty

theorem compileFilters_nil {dialect : Dialect} {rootAlias : String}
    {filters : List (RelationFilter V)} {params params' : List V}
    (h : compileFilters dialect rootAlias filters params = .ok ([], params')) :
    filterLiterals filters = [] := by
  cases filters with
  | nil => simp [filterLiterals]
  | cons filter filters =>
    unfold compileFilters at h
    obtain ⟨_, _, _, h⟩ := run_bind_ok h
    obtain ⟨_, _, _, h⟩ := run_bind_ok h
    cases h

/-- A query without an extra condition pushes what the target of a filter does. -/
theorem queryLiterals_selectTarget (relation : RelationInfo V) (extra : List V) :
    queryLiterals .postgres (selectTarget relation) extra = extra := by
  simp [selectTarget, queryLiterals, cteLiterals, projectionLiterals, sourceLiterals,
    optionalLiterals, setLiterals]

theorem everyCall_postgres (query : SelectQuery V) : query.everyCall (PlacedCall .postgres) :=
  query.everyCall_of_forall fun _ _ h => absurd rfl h

/-- `compileImpl_emits` on PostgreSQL, where no call is in the way. -/
theorem compileImpl_postgres (query : SelectQuery V) {terminate : Bool} {override : String}
    {extra : Option (ExtraWhereCompiler V)} {new : List V} {P : Prop}
    (hextra : EmitsAnyExtra extra new P) :
    EmitsQuery .postgres (fun dialect => compileImpl query dialect terminate extra override)
      (queryLiterals .postgres query new) P False := by
  intro dialect out hfamily hout
  obtain ⟨hparams, frag⟩ := compileImpl_emits query (hextra _) dialect out hfamily hout
  exact ⟨hparams, frag.congr rfl (by simp [everyCall_postgres]) fun hfalse => hfalse.elim⟩

mutual

theorem compileWith_emits {override : String} {extra : Option (ExtraWhereCompiler V)}
    {new : List V} {P : Prop} (hextra : EmitsAnyExtra extra new P) : (query : CorrelatedQuery V) →
    EmitsQuery .postgres (fun dialect => query.compileWith dialect extra override)
      (query.literals new) (query.everyFilter SeparateEvery ∧ P) False
  | .basic query => by
    intro dialect out hfamily hout
    unfold CorrelatedQuery.compileWith at hout
    obtain ⟨hparams, frag⟩ := compileImpl_postgres query hextra dialect out hfamily hout
    refine ⟨by simpa [CorrelatedQuery.literals] using hparams, frag.congr ?_ ?_ id⟩
    · simp [CorrelatedQuery.literals]
    · simp [CorrelatedQuery.everyFilter]
  | .filtered base filters => by
    intro dialect out hfamily hout
    unfold CorrelatedQuery.compileWith at hout
    have hlist := emits_filterList
      (fun dialect rootAlias hfamily => compileFilters_emits hfamily rootAlias filters)
      (fun _ _ _ _ h => compileFilters_nil h) hextra
    obtain ⟨hparams, frag⟩ := compileImpl_postgres base hlist dialect out hfamily hout
    refine ⟨by simpa [CorrelatedQuery.literals] using hparams, frag.congr ?_ ?_ id⟩
    · simp [CorrelatedQuery.literals]
    · simp [CorrelatedQuery.everyFilter]
termination_by query => sizeOf query

theorem compileFilters_emits {dialect : Dialect} (hfamily : dialect.family = .postgres)
    (rootAlias : String) : (filters : List (RelationFilter V)) →
    Emits dialect (compileFilters dialect rootAlias filters) textSlots [] (filterLiterals filters)
      (everyFilters SeparateEvery filters) False
  | [] => by
    unfold compileFilters
    exact Emits.congr (.pure rfl) (by simp [filterLiterals]) (by simp [everyFilters]) (by simp)
  | filter :: filters => by
    unfold compileFilters
    refine Emits.congr (.bind (emits_nest (hfamily ▸ compileExists_emits rootAlias filter))
      fun sql => .bind (compileFilters_emits hfamily rootAlias filters) fun texts =>
      .pure ?_) ?_ ?_ ?_
    · simp
    · simp [filterLiterals]
    · simp [everyFilters]
    · simp
termination_by filters => sizeOf filters

theorem compileExists_emits (outer : String) : (filter : RelationFilter V) →
    EmitsQuery .postgres (fun dialect => filter.compileExists dialect outer) filter.literals
      (filter.everyFilter SeparateEvery) False
  | .related relation child negated => by
    intro dialect out hfamily hout
    unfold RelationFilter.compileExists at hout
    obtain ⟨hparams, frag⟩ :=
      compileWith_emits (emits_correlation relation outer) child dialect out hfamily hout
    refine ⟨by simpa [RelationFilter.literals] using hparams, frag.congr ?_ ?_ id⟩
    · simp [RelationFilter.literals]
    · simp [RelationFilter.everyFilter]
  | .every relation predicate => by
    intro dialect out hfamily hout
    unfold RelationFilter.compileExists at hout
    obtain ⟨hparams, frag⟩ := compileImpl_postgres (selectTarget relation)
      (emits_everyCondition fun child => compileWith_emits (emits_sameRow relation child) predicate)
      dialect out hfamily hout
    rw [queryLiterals_selectTarget] at hparams frag
    refine ⟨by simpa [RelationFilter.literals] using hparams, frag.congr ?_ ?_ id⟩
    · simp [RelationFilter.literals]
    · simp [RelationFilter.everyFilter, SeparateEvery]
termination_by filter => sizeOf filter

end

/-! ## Where `every` collides -/

/-- The extra condition is part of the text of the query. -/
theorem assembleQuery_extra {query : SelectQuery V} {dialect : Dialect} {terminate : Bool}
    {f : ExtraWhereCompiler V} {override : String} {parts : QueryParts V} {out : CompiledQuery V}
    (h : assembleQuery query dialect terminate (some f) override parts = .ok out) :
    ∃ n c, f (offsetPlaceholders dialect n) (rootAliasOf query true override) = .ok c ∧
      c.sql.holes.Sublist out.sql.holes := by
  obtain ⟨⟨sql, params⟩, hrun, hout⟩ := except_bind_ok h
  cases hout
  obtain ⟨_, _, _, h⟩ := run_bind_ok hrun
  obtain ⟨_, _, _, h⟩ := run_bind_ok h
  obtain ⟨_, _, _, h⟩ := run_bind_ok h
  obtain ⟨_, _, _, h⟩ := run_bind_ok h
  obtain ⟨_, _, _, h⟩ := run_bind_ok h
  obtain ⟨_, _, _, h⟩ := run_bind_ok h
  obtain ⟨extraSql, _, hextra, h⟩ := run_bind_ok h
  obtain ⟨_, _, _, h⟩ := run_bind_ok h
  obtain ⟨_, _, _, h⟩ := run_bind_ok h
  obtain ⟨_, _, _, h⟩ := run_bind_ok h
  obtain ⟨_, _, _, h⟩ := run_bind_ok h
  cases h
  obtain ⟨_, _, hg, hextra⟩ := run_bind_ok hextra
  cases hg
  obtain ⟨c, _, hc, hextra⟩ := run_bind_ok hextra
  obtain ⟨hc, -⟩ := run_lift_ok hc
  refine ⟨_, c, hc, ?_⟩
  split at hextra
  · rename_i hempty
    rw [holes_of_isEmpty hempty]
    exact List.nil_sublist _
  · cases hextra
    simp only [Sql.holes_append, holes_whereClause, optionSlots]
    -- behind the WHERE clause come GROUP BY, HAVING, the set operations and the tail
    iterate 4 refine List.Sublist.trans ?_ (List.sublist_append_left _ _)
    exact (List.sublist_append_right _ _).trans (List.sublist_append_right _ _)

theorem compileImpl_extra {query : SelectQuery V} {dialect : Dialect} {terminate : Bool}
    {f : ExtraWhereCompiler V} {override : String} {out : CompiledQuery V}
    (h : compileImpl query dialect terminate (some f) override = .ok out) :
    ∃ n c, f (offsetPlaceholders dialect n) (rootAliasOf query true override) = .ok c ∧
      c.sql.holes.Sublist out.sql.holes := by
  cases query
  unfold compileImpl at h
  exact assembleQuery_extra h

theorem compileFilters_part {dialect : Dialect} {rootAlias : String} {filter : RelationFilter V}
    {filters : List (RelationFilter V)} {params params' : List V} {texts : List (Sql V)}
    (h : compileFilters dialect rootAlias (filter :: filters) params = .ok (texts, params')) :
    (∃ n c, filter.compileExists (offsetPlaceholders dialect n) rootAlias = .ok c ∧
      c.sql.holes.Sublist (textSlots texts)) ∧
    ∃ params₁ rest, compileFilters dialect rootAlias filters params₁ = .ok (rest, params') ∧
      (textSlots rest).Sublist (textSlots texts) := by
  unfold compileFilters at h
  obtain ⟨sql, _, hsql, h⟩ := run_bind_ok h
  obtain ⟨rest, _, hrest, h⟩ := run_bind_ok h
  cases h
  obtain ⟨_, _, hg, hsql⟩ := run_bind_ok hsql
  cases hg
  obtain ⟨c, _, hc, hsql⟩ := run_bind_ok hsql
  obtain ⟨hc, -⟩ := run_lift_ok hc
  cases hsql
  refine ⟨⟨_, c, hc, ?_⟩, _, rest, hrest, ?_⟩
  · simp
  · simp

theorem filterList_part {dialect : Dialect} {rootAlias : String}
    {compile : CompileM V (List (Sql V))} {extra : Option (ExtraWhereCompiler V)}
    {out : CompiledQuery V}
    (h : compileRelationFilterList dialect rootAlias compile extra = .ok out) :
    ∃ texts params, compile [] = .ok (texts, params) ∧
      (textSlots texts).Sublist out.sql.holes := by
  obtain ⟨⟨sql, params⟩, hrun, hout⟩ := except_bind_ok h
  cases hout
  obtain ⟨texts, params₁, htexts, hrun⟩ := run_bind_ok hrun
  obtain ⟨extraSql, params₂, _, hrun⟩ := run_bind_ok hrun
  cases hrun
  refine ⟨texts, params₁, htexts, ?_⟩
  rw [holes_joinPredicates]
  simp [textSlots]

/-- No placeholder occurs twice. -/
def OnceEach (slots : Slots V) : Prop := (slots.map Prod.fst).Nodup

theorem OnceEach.sublist {slots slots' : Slots V} (h : OnceEach slots)
    (hs : slots'.Sublist slots) : OnceEach slots' :=
  (hs.map Prod.fst).nodup h

/-- If the correlation and the predicate both have literals, both have a first placeholder, and
    it is the same. -/
theorem separate_of_nodup {relation : RelationInfo V} {predicate : CorrelatedQuery V}
    {dialect : Dialect} {child outer : String} {correlation matching : CompiledQuery V}
    (hfamily : dialect.family = .postgres)
    (hcorrelation : compileRelationCorrelation relation dialect child outer = .ok correlation)
    (hmatching : predicate.compileWith dialect (some (sameRow relation child)) (child ++ "_every") =
      .ok matching)
    (hpredicate : predicate.everyFilter SeparateEvery)
    (honce : OnceEach (correlation.sql.holes ++ matching.sql.holes)) :
    SeparateEvery relation predicate := by
  obtain ⟨-, hnumbered, -⟩ := numbered_correlation hcorrelation
  obtain ⟨-, frag⟩ := compileWith_emits (emits_sameRow relation child) predicate dialect matching
    hfamily hmatching
  have hnumbered' := frag.numbered ⟨hpredicate, trivial⟩
  unfold SeparateEvery
  generalize relation.columns.literals = new at hnumbered ⊢
  generalize predicate.literals [] = new' at hnumbered' ⊢
  generalize correlation.sql.holes = slots at hnumbered honce
  generalize matching.sql.holes = slots' at hnumbered' honce
  cases hnumbered with
  | nil => exact .inl rfl
  | cons head tail =>
    cases hnumbered' with
    | nil => exact .inr rfl
    | cons head' tail' =>
      have hsame := Except.ok.inj (head.symm.trans head')
      simp [OnceEach, hsame] at honce

mutual

/-- A query whose placeholders are all different has no colliding `every`. -/
theorem everyFilter_of_nodup : (query : CorrelatedQuery V) →
    ∀ dialect override (extra : Option (ExtraWhereCompiler V)) out, dialect.family = .postgres →
      query.compileWith dialect extra override = .ok out → OnceEach out.sql.holes →
      query.everyFilter SeparateEvery
  | .basic query => by
    intros
    simp [CorrelatedQuery.everyFilter]
  | .filtered base filters => by
    intro dialect override extra out hfamily hout honce
    unfold CorrelatedQuery.compileWith at hout
    obtain ⟨n, c, hc, hpart⟩ := compileImpl_extra hout
    obtain ⟨texts, params, htexts, hpart'⟩ := filterList_part hc
    have := everyFilters_of_nodup filters (offsetPlaceholders dialect n) _ _ _ _ hfamily htexts
      (honce.sublist (hpart'.trans hpart))
    simpa [CorrelatedQuery.everyFilter] using this
termination_by query => sizeOf query

theorem everyFilters_of_nodup : (filters : List (RelationFilter V)) →
    ∀ dialect rootAlias params texts params', dialect.family = .postgres →
      compileFilters dialect rootAlias filters params = .ok (texts, params') →
      OnceEach (textSlots texts) → everyFilters SeparateEvery filters
  | [] => by
    intros
    simp [everyFilters]
  | filter :: filters => by
    intro dialect rootAlias params texts params' hfamily h honce
    obtain ⟨⟨n, c, hc, hpart⟩, params₁, rest, hrest, hpart'⟩ := compileFilters_part h
    have h₁ := filterEvery_of_nodup filter (offsetPlaceholders dialect n) _ _ hfamily hc
      (honce.sublist hpart)
    have h₂ := everyFilters_of_nodup filters _ _ _ _ _ hfamily hrest (honce.sublist hpart')
    simpa [everyFilters] using ⟨h₁, h₂⟩
termination_by filters => sizeOf filters

theorem filterEvery_of_nodup : (filter : RelationFilter V) →
    ∀ dialect outer out, dialect.family = .postgres →
      filter.compileExists dialect outer = .ok out → OnceEach out.sql.holes →
      filter.everyFilter SeparateEvery
  | .related relation child negated => by
    intro dialect outer out hfamily hout honce
    unfold RelationFilter.compileExists at hout
    have := everyFilter_of_nodup child _ _ _ _ hfamily hout honce
    simpa [RelationFilter.everyFilter] using this
  | .every relation predicate => by
    intro dialect outer out hfamily hout honce
    unfold RelationFilter.compileExists at hout
    obtain ⟨n, c, hc, hpart⟩ := compileImpl_extra hout
    obtain ⟨correlation, hcorrelation, hc⟩ := except_bind_ok hc
    obtain ⟨matching, hmatching, hc⟩ := except_bind_ok hc
    cases hc
    dsimp only at hmatching
    have hpart' := honce.sublist hpart
    simp only [Sql.holes_append, Sql.holes_chars, List.append_nil] at hpart'
    have hpredicate := everyFilter_of_nodup predicate (offsetPlaceholders dialect n) _ _ _ hfamily
      hmatching (hpart'.sublist (List.sublist_append_right _ _))
    have hseparate := separate_of_nodup (by exact hfamily) hcorrelation hmatching hpredicate hpart'
    simpa [RelationFilter.everyFilter] using ⟨hseparate, hpredicate⟩
termination_by filter => sizeOf filter

end

/-! ## Batch loaders -/

/-- A batch loader with what it knows about the relation. -/
inductive BatchLoader (V : Type) where
  | hasMany (target : EntityInfo) (targetForeignKey : String)
  | hasOne (target : EntityInfo) (targetForeignKey : String)
  | belongsTo (target : EntityInfo) (targetKey : String)
  | manyToMany (target pivot : EntityInfo) (pivotRootKey pivotTargetKey targetKey : String)
  | morphOne (target : EntityInfo) (typeField idField : String) (typeValue : V)
  | morphMany (target : EntityInfo) (typeField idField : String) (typeValue : V)
  | morphTo (target : EntityInfo) (targetKey : String)

namespace BatchLoader

/-- The statement of a loader for a list of keys. -/
def compile (dialect : Dialect) (keys : List V) : BatchLoader V → Except Exn (CompiledQuery V)
  | hasMany target fk => loadHasManyBatch dialect target fk keys
  | hasOne target fk => loadHasOneBatch dialect target fk keys
  | belongsTo target key => loadBelongsToBatch dialect target key keys
  | manyToMany target pivot rootKey pivotTargetKey key =>
    loadManyToManyBatch dialect target pivot rootKey pivotTargetKey key keys
  | morphOne target typeField idField v => loadMorphOneBatch dialect target typeField idField v keys
  | morphMany target typeField idField v =>
    loadMorphManyBatch dialect target typeField idField v keys
  | morphTo target key => loadMorphToBatch dialect target key keys

/-- The loaders of `morph_one` and `morph_many` relations. -/
def writesQuestionMark : BatchLoader V → Bool
  | morphOne .. => true
  | morphMany .. => true
  | _ => false

end BatchLoader

theorem numbered_inPlaceholders {dialect : Dialect} {n : Nat} {keys : List V}
    {texts : List (Sql V)} (h : inPlaceholders dialect (n + 1) keys = .ok texts) :
    Numbered dialect.slot n (textSlots texts) keys := by
  induction keys generalizing n texts with
  | nil =>
    cases h
    exact .nil n
  | cons key keys ih =>
    obtain ⟨p, hp, h⟩ := except_bind_ok h
    obtain ⟨rest, hrest, h⟩ := except_bind_ok h
    cases h
    exact .cons hp (ih hrest)

/-- The keys of a loader are numbered; its tail comes behind them. -/
theorem numbered_loadByKeys {dialect : Dialect} {columns source keyColumn : String}
    {keys : List V} {tail out : CompiledQuery V}
    (h : loadByKeys dialect columns source keyColumn keys tail = .ok out) :
    ∃ slots, Numbered dialect.slot 0 slots keys ∧ out.sql.holes = slots ++ tail.sql.holes ∧
      out.params = keys ++ tail.params := by
  obtain ⟨texts, htexts, h⟩ := except_bind_ok h
  cases h
  exact ⟨textSlots texts, numbered_inPlaceholders htexts, by simp, rfl⟩

/-! ## Statements -/

/-- Every placeholder is `$k` for a parameter `k`, which is the literal that the placeholder
    stands for, and every parameter has one placeholder. -/
structure NumberedParams (sql : Sql V) (params : List V) : Prop where
  numbered : ∀ p ∈ sql.placeholders, ∃ k, p = .numbered k ∧ 1 ≤ k ∧ k ≤ params.length
  literal : ∀ k v, (.numbered k, v) ∈ sql.holes → params[k - 1]? = some v
  once : ∀ k, 1 ≤ k → k ≤ params.length → sql.placeholders.count (.numbered k) = 1

/-- A query or the statement of a batch loader. A loader that has no key sends nothing. -/
inductive Statement (V : Type) where
  | query (query : CorrelatedQuery V)
  | load (loader : BatchLoader V) (keys : List V) (nonempty : keys ≠ [])

/-- The text that is sent for a statement. -/
def Statement.compile (dialect : Dialect) : Statement V → Except Exn (CompiledQuery V)
  | query q => q.compile dialect
  | load loader keys _ => loader.compile dialect keys

/-- No `every` filter over a morph relation has a literal in its predicate, and no morph
    loader is run. -/
def Statement.Numberable : Statement V → Prop
  | query q => q.everyFilter SeparateEvery
  | load loader _ _ => loader.writesQuestionMark = false

theorem slot_postgres {k : Nat} {p : Placeholder} (h : postgresDialect.slot k p) :
    p = .numbered k ∧ 1 ≤ k := by
  unfold Dialect.slot postgresDialect at h
  dsimp only at h
  split at h
  · cases h
  · cases h
    exact ⟨rfl, by omega⟩

theorem numberedParams_of_numbered {sql : Sql V} {params : List V}
    (h : Numbered postgresDialect.slot 0 sql.holes params) : NumberedParams sql params where
  numbered p hp := by
    obtain ⟨k, _, hle, hk⟩ := h.mem hp
    obtain ⟨rfl, hpos⟩ := slot_postgres hk
    exact ⟨k, rfl, hpos, by simpa using hle⟩
  literal k v hv := by
    obtain ⟨i, hi⟩ := List.mem_iff_getElem?.mp hv
    obtain ⟨hslot, hparam⟩ := h.get i _ _ hi
    obtain ⟨hk, -⟩ := slot_postgres hslot
    cases hk
    simpa using hparam
  once k hpos hle := by
    have hslot : ∀ i j p, postgresDialect.slot i p → postgresDialect.slot j p → i = j := by
      intro i j p hi hj
      have := (slot_postgres hi).1.symm.trans (slot_postgres hj).1
      cases this
      rfl
    refine List.count_eq_one_of_mem (h.nodup hslot) ?_
    -- the slot at position `k - 1` is the one of parameter `k`
    have hlt : k - 1 < sql.holes.length := by
      rw [h.length]
      omega
    obtain ⟨hk, -⟩ := h.get (k - 1) _ _ (List.getElem?_eq_getElem hlt)
    obtain ⟨hp, -⟩ := slot_postgres hk
    rw [show 0 + (k - 1) + 1 = k by omega] at hp
    exact hp ▸ List.mem_map_of_mem (List.getElem_mem hlt)

theorem NumberedParams.onceEach {sql : Sql V} {params : List V} (h : NumberedParams sql params) :
    OnceEach sql.holes := by
  refine List.nodup_iff_count_le_one.mpr fun p => ?_
  by_cases hp : p ∈ sql.placeholders
  · obtain ⟨k, rfl, hpos, hle⟩ := h.numbered p hp
    exact Nat.le_of_eq (h.once k hpos hle)
  · show sql.placeholders.count p ≤ 1
    rw [List.count_eq_zero_of_not_mem hp]
    omega

theorem NumberedParams.congr {sql sql' : Sql V} {params : List V} (h : NumberedParams sql params)
    (hholes : sql.holes = sql'.holes) : NumberedParams sql' params where
  numbered p hp := h.numbered p (by rwa [Sql.placeholders, hholes])
  literal k v hv := h.literal k v (by rwa [hholes])
  once k hpos hle := by simpa only [Sql.placeholders, hholes] using h.once k hpos hle

theorem emitsAnyExtra_none : EmitsAnyExtra (none : Option (ExtraWhereCompiler V)) [] True :=
  fun _ => ⟨rfl, trivial⟩

/-- A filtered query refers to each parameter once exactly when no `every` collides. -/
theorem numberedParams_filtered {base : SelectQuery V} {filters : List (RelationFilter V)}
    {out : CompiledQuery V}
    (h : (CorrelatedQuery.filtered base filters).compileWith postgresDialect none "" = .ok out) :
    NumberedParams out.sql out.params ↔
      (CorrelatedQuery.filtered base filters).everyFilter SeparateEvery := by
  constructor
  · intro hparams
    exact everyFilter_of_nodup _ postgresDialect _ _ _ rfl h hparams.onceEach
  · intro hevery
    obtain ⟨hparams, frag⟩ := compileWith_emits emitsAnyExtra_none _ postgresDialect out rfl h
    rw [hparams]
    exact numberedParams_of_numbered (frag.numbered ⟨hevery, trivial⟩)

/-- A loader refers to each parameter once exactly when it does not write a question mark. -/
theorem numberedParams_load {loader : BatchLoader V} {keys : List V} {out : CompiledQuery V}
    (h : loader.compile postgresDialect keys = .ok out) :
    NumberedParams out.sql out.params ↔ loader.writesQuestionMark = false := by
  have hplain : ∀ {columns source keyColumn : String},
      loadByKeys postgresDialect columns source keyColumn keys { sql := ";" } = .ok out →
      NumberedParams out.sql out.params := by
    intro columns source keyColumn h
    obtain ⟨slots, hnumbered, hholes, hparams⟩ := numbered_loadByKeys h
    rw [Sql.holes_chars, List.append_nil] at hholes
    rw [hparams, List.append_nil]
    exact numberedParams_of_numbered (hholes ▸ hnumbered)
  have hmorph : ∀ {columns source keyColumn typeField : String} {typeValue : V},
      loadByKeys postgresDialect columns source keyColumn keys
        (morphTail postgresDialect typeField typeValue) = .ok out →
      ¬NumberedParams out.sql out.params := by
    intro columns source keyColumn typeField typeValue h hparams
    obtain ⟨slots, -, hholes, -⟩ := numbered_loadByKeys h
    obtain ⟨k, hk, -⟩ := hparams.numbered .question (by
      simp [Sql.placeholders, hholes, morphTail])
    cases hk
  cases loader with
  | hasMany | hasOne | belongsTo | manyToMany | morphTo =>
    exact ⟨fun _ => rfl, fun _ => hplain h⟩
  | morphOne | morphMany =>
    exact ⟨fun hparams => absurd hparams (hmorph h), fun hfalse => by cases hfalse⟩

/-- On PostgreSQL, a statement refers to each of its parameters once, by its number, exactly
    when no `every` over a morph relation has literals and no morph loader is run. -/
theorem placeholder_numbering {s : Statement V} {out : CompiledQuery V}
    (h : s.compile postgresDialect = .ok out) :
    NumberedParams out.sql out.params ↔ s.Numberable := by
  cases s with
  | query q =>
    cases q with
    | basic q =>
      have hnumbered : NumberedParams out.sql out.params := by
        obtain ⟨hparams, frag⟩ :=
          compileImpl_postgres q emitsAnyExtra_none postgresDialect out rfl h
        rw [hparams]
        exact numberedParams_of_numbered (frag.numbered trivial)
      simp [hnumbered, Statement.Numberable, CorrelatedQuery.everyFilter]
    | filtered base filters =>
      obtain ⟨inner, hinner, h⟩ := except_bind_ok h
      cases h
      rw [Statement.Numberable, ← numberedParams_filtered hinner]
      -- the terminator has no placeholder
      have hholes : (inner.sql ++ Sql.chars ";").holes = inner.sql.holes := by simp
      exact ⟨fun hparams => hparams.congr hholes, fun hparams => hparams.congr hholes.symm⟩
  | load loader keys _ => exact numberedParams_load h

/-- Notes about a user as a morph relation. -/
def notes : RelationInfo Value where
  name := "notes"
  target := { type := 1, table := "notes", columns := ["id", "subject_type", "subject_id", "body"] }
  targetPrimaryKey := "id"
  columns := .morphMany "subject_type" "subject_id" "id" (text "user")

/-- A root entity with notes. -/
def users : EntityInfo := { type := 0, table := "users", columns := ["id"] }

/-- `body = 'x'` on the notes. -/
def noteBody : SelectQuery Value :=
  { root := notes.target, where_ := some (.comparison (.column ⟨1, "body"⟩) .eq (.value (text "x"))) }

/-- Users with a note `x`. -/
def usersWithNote : Statement Value :=
  .query (.filtered { root := users } [.related notes (.basic noteBody) false])

/-- The literal is `$1`, the discriminator `$2`. -/
theorem placeholder_numbering_notes :
    ∃ out, usersWithNote.compile postgresDialect = .ok out ∧
      out.params = [text "x", text "user"] ∧ NumberedParams out.sql out.params := by
  have h : usersWithNote.compile postgresDialect = .ok _ := rfl
  refine ⟨_, h, rfl, (placeholder_numbering h).mpr ?_⟩
  simp [usersWithNote, Statement.Numberable, CorrelatedQuery.everyFilter, everyFilters, RelationFilter.everyFilter]

/-- `every` over the notes writes the discriminator and the literal as `$1`, and the morph
    loader writes the discriminator as `?`. -/
theorem not_placeholder_numbering :
    (∃ out, (Statement.query (.filtered { root := users }
        [.every notes (.filtered noteBody [])])).compile postgresDialect = .ok out ∧
      ¬NumberedParams out.sql out.params) ∧
      ∃ out, (Statement.load (.morphMany notes.target "subject_type" "subject_id" (text "user"))
        [text "1"] (by decide)).compile postgresDialect = .ok out ∧ ¬NumberedParams out.sql out.params := by
  constructor
  · refine ⟨_, rfl, fun h => ?_⟩
    have hcount := h.once 1 (by decide) (by decide)
    revert hcount
    decide
  · refine ⟨_, rfl, fun h => ?_⟩
    obtain ⟨k, hk, -⟩ := h.numbered .question (by decide)
    cases hk

end MetalOrm.Native.Query
