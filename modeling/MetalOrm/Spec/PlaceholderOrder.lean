import MetalOrm.Spec.EmissionRules

/-!
# The order of positional parameters

Which literals a query pushes, and when each placeholder of its text stands where the
AST has the literal that was pushed for it.

## Key results

- `compileScalar_emits`, `compileExpression_emits`, `compileImpl_emits`: what the
  compiler pushes and emits, over every AST
- `placeholder_order`: on SQLite, the `k`-th `?` is the place of the `k`-th parameter
  exactly when no call loses or swaps literals
-/

namespace MetalOrm.Native.Query

open ForStd

variable {V : Type}

/-! ## The literals that are pushed -/

mutual

/-- The literals that compiling a scalar pushes, in order. -/
def ScalarNode.literals (family : DialectFamily) : ScalarNode V → List V
  | .column _ => []
  | .value v => [v]
  | .arithmetic left _ right => left.literals family ++ right.literals family
  | .aggregate _ => []
  | .function name args =>
    if family ≠ .postgres ∧ upperAscii name = "TRUNCATE" then
      match args with
      | [value, digits] =>
        value.literals family ++ (digits.literals family ++ digits.literals family)
      | _ => []
    else argLiterals family args
  | .case branches elseValue => branchLiterals family branches ++ elseLiterals family elseValue
  | .window _ args _ _ => argLiterals family args

def argLiterals (family : DialectFamily) : List (ScalarNode V) → List V
  | [] => []
  | arg :: args => arg.literals family ++ argLiterals family args

def branchLiterals (family : DialectFamily) : List (CaseBranch V) → List V
  | [] => []
  | { when, thenValue } :: branches =>
    when.literals family ++ (thenValue.literals family ++ branchLiterals family branches)

def elseLiterals (family : DialectFamily) : Option (ScalarNode V) → List V
  | none => []
  | some value => value.literals family

/-- The literals that compiling a condition pushes, in order. The operand of an empty IN
    list is not compiled. -/
def ExprNode.literals (family : DialectFamily) : ExprNode V → List V
  | .comparison left _ right => left.literals family ++ right.literals family
  | .nullCheck operand _ => operand.literals family
  | .like operand pattern _ => operand.literals family ++ pattern.literals family
  | .between operand lower upper _ =>
    operand.literals family ++ (lower.literals family ++ upper.literals family)
  | .inValues operand values _ => if values.isEmpty then [] else operand.literals family ++ values
  | .inSubquery operand subquery _ =>
    operand.literals family ++ queryLiterals family subquery []
  | .exists subquery _ => queryLiterals family subquery []
  | .logical _ left right => left.literals family ++ right.literals family
  | .not operand => operand.literals family

def optionalLiterals (family : DialectFamily) : Option (ExprNode V) → List V
  | none => []
  | some expression => expression.literals family

def projectionLiterals (family : DialectFamily) : List (ProjectionSpec V) → List V
  | [] => []
  | { expression, aliasName := _ } :: projections =>
    expression.literals family ++ projectionLiterals family projections

def cteLiterals (family : DialectFamily) : List (CteSpec V) → List V
  | [] => []
  | { name := _, columns := _, recursive := _, query } :: ctes =>
    queryLiterals family query [] ++ cteLiterals family ctes

def setLiterals (family : DialectFamily) : List (SetOperationSpec V) → List V
  | [] => []
  | { kind := _, query } :: operations =>
    queryLiterals family query [] ++ setLiterals family operations

def sourceLiterals (family : DialectFamily) : Option (DerivedSourceSpec V) → List V
  | none => []
  | some { aliasName := _, query } => queryLiterals family query []

/-- The literals that compiling a query pushes, in order. `extra` are those of the extra
    condition. -/
def queryLiterals (family : DialectFamily) : SelectQuery V → (extra : List V) → List V
  | { projections, where_, having, derivedSource, ctes, setOperations, .. }, extra =>
    cteLiterals family ctes ++ (projectionLiterals family projections ++
      (sourceLiterals family derivedSource ++ (optionalLiterals family where_ ++ (extra ++
        (optionalLiterals family having ++ setLiterals family setOperations)))))

end

/-- A call whose arguments are compiled once each. -/
theorem literals_function {family : DialectFamily} {name : String} {args : List (ScalarNode V)}
    (h : ¬(family ≠ .postgres ∧ upperAscii name = "TRUNCATE")) :
    (ScalarNode.function name args).literals family = argLiterals family args := by
  unfold ScalarNode.literals
  exact if_neg h

/-! ## Conditions on the calls that are compiled -/

mutual

/-- Every function call that compiling a scalar reaches satisfies `p`. -/
def ScalarNode.everyCall (p : String → List (ScalarNode V) → Prop) : ScalarNode V → Prop
  | .column _ => True
  | .value _ => True
  | .arithmetic left _ right => left.everyCall p ∧ right.everyCall p
  | .aggregate _ => True
  | .function name args => p name args ∧ everyCallArgs p args
  | .case branches elseValue => everyCallBranches p branches ∧ everyCallElse p elseValue
  | .window _ args _ _ => everyCallArgs p args

def everyCallArgs (p : String → List (ScalarNode V) → Prop) : List (ScalarNode V) → Prop
  | [] => True
  | arg :: args => arg.everyCall p ∧ everyCallArgs p args

def everyCallBranches (p : String → List (ScalarNode V) → Prop) : List (CaseBranch V) → Prop
  | [] => True
  | { when, thenValue } :: branches =>
    when.everyCall p ∧ thenValue.everyCall p ∧ everyCallBranches p branches

def everyCallElse (p : String → List (ScalarNode V) → Prop) : Option (ScalarNode V) → Prop
  | none => True
  | some value => value.everyCall p

/-- Every function call that compiling a condition reaches satisfies `p`. -/
def ExprNode.everyCall (p : String → List (ScalarNode V) → Prop) : ExprNode V → Prop
  | .comparison left _ right => left.everyCall p ∧ right.everyCall p
  | .nullCheck operand _ => operand.everyCall p
  | .like operand pattern _ => operand.everyCall p ∧ pattern.everyCall p
  | .between operand lower upper _ =>
    operand.everyCall p ∧ lower.everyCall p ∧ upper.everyCall p
  | .inValues operand values _ => if values.isEmpty then True else operand.everyCall p
  | .inSubquery operand subquery _ => operand.everyCall p ∧ subquery.everyCall p
  | .exists subquery _ => subquery.everyCall p
  | .logical _ left right => left.everyCall p ∧ right.everyCall p
  | .not operand => operand.everyCall p

def everyCallOptional (p : String → List (ScalarNode V) → Prop) : Option (ExprNode V) → Prop
  | none => True
  | some expression => expression.everyCall p

def everyCallProjections (p : String → List (ScalarNode V) → Prop) :
    List (ProjectionSpec V) → Prop
  | [] => True
  | { expression, aliasName := _ } :: projections =>
    expression.everyCall p ∧ everyCallProjections p projections

def everyCallCtes (p : String → List (ScalarNode V) → Prop) : List (CteSpec V) → Prop
  | [] => True
  | { name := _, columns := _, recursive := _, query } :: ctes =>
    query.everyCall p ∧ everyCallCtes p ctes

def everyCallSet (p : String → List (ScalarNode V) → Prop) : List (SetOperationSpec V) → Prop
  | [] => True
  | { kind := _, query } :: operations => query.everyCall p ∧ everyCallSet p operations

def everyCallSource (p : String → List (ScalarNode V) → Prop) :
    Option (DerivedSourceSpec V) → Prop
  | none => True
  | some { aliasName := _, query } => query.everyCall p

/-- Every function call of a query satisfies `p`. -/
def SelectQuery.everyCall (p : String → List (ScalarNode V) → Prop) : SelectQuery V → Prop
  | { projections, where_, having, derivedSource, ctes, setOperations, .. } =>
    everyCallCtes p ctes ∧ everyCallProjections p projections ∧
      everyCallSource p derivedSource ∧ everyCallOptional p where_ ∧
      everyCallOptional p having ∧ everyCallSet p setOperations

end

mutual

/-- A condition that holds of all calls holds of those that are compiled. -/
theorem ScalarNode.everyCall_of_forall {p : String → List (ScalarNode V) → Prop}
    (hp : ∀ name args, p name args) : (e : ScalarNode V) → e.everyCall p
  | .column _ | .value _ | .aggregate _ => by simp [ScalarNode.everyCall]
  | .arithmetic left _ right => by
    simp [ScalarNode.everyCall, left.everyCall_of_forall hp, right.everyCall_of_forall hp]
  | .function name args => by simp [ScalarNode.everyCall, hp, everyCallArgs_of_forall hp args]
  | .case branches elseValue => by
    simp [ScalarNode.everyCall, everyCallBranches_of_forall hp branches,
      everyCallElse_of_forall hp elseValue]
  | .window _ args _ _ => by simp [ScalarNode.everyCall, everyCallArgs_of_forall hp args]
termination_by e => sizeOf e

theorem everyCallArgs_of_forall {p : String → List (ScalarNode V) → Prop}
    (hp : ∀ name args, p name args) : (args : List (ScalarNode V)) → everyCallArgs p args
  | [] => by simp [everyCallArgs]
  | arg :: args => by
    simp [everyCallArgs, arg.everyCall_of_forall hp, everyCallArgs_of_forall hp args]
termination_by args => sizeOf args

theorem everyCallBranches_of_forall {p : String → List (ScalarNode V) → Prop}
    (hp : ∀ name args, p name args) : (bs : List (CaseBranch V)) → everyCallBranches p bs
  | [] => by simp [everyCallBranches]
  | { when, thenValue } :: branches => by
    simp [everyCallBranches, when.everyCall_of_forall hp, thenValue.everyCall_of_forall hp,
      everyCallBranches_of_forall hp branches]
termination_by bs => sizeOf bs

theorem everyCallElse_of_forall {p : String → List (ScalarNode V) → Prop}
    (hp : ∀ name args, p name args) : (value : Option (ScalarNode V)) → everyCallElse p value
  | none => by simp [everyCallElse]
  | some value => by simp [everyCallElse, value.everyCall_of_forall hp]
termination_by value => sizeOf value

theorem ExprNode.everyCall_of_forall {p : String → List (ScalarNode V) → Prop}
    (hp : ∀ name args, p name args) : (e : ExprNode V) → e.everyCall p
  | .comparison left _ right => by
    simp [ExprNode.everyCall, left.everyCall_of_forall hp, right.everyCall_of_forall hp]
  | .nullCheck operand _ => by simp [ExprNode.everyCall, operand.everyCall_of_forall hp]
  | .like operand pattern _ => by
    simp [ExprNode.everyCall, operand.everyCall_of_forall hp, pattern.everyCall_of_forall hp]
  | .between operand lower upper _ => by
    simp [ExprNode.everyCall, operand.everyCall_of_forall hp, lower.everyCall_of_forall hp,
      upper.everyCall_of_forall hp]
  | .inValues operand values _ => by simp [ExprNode.everyCall, operand.everyCall_of_forall hp]
  | .inSubquery operand subquery _ => by
    simp [ExprNode.everyCall, operand.everyCall_of_forall hp, subquery.everyCall_of_forall hp]
  | .exists subquery _ => by simp [ExprNode.everyCall, subquery.everyCall_of_forall hp]
  | .logical _ left right => by
    simp [ExprNode.everyCall, left.everyCall_of_forall hp, right.everyCall_of_forall hp]
  | .not operand => by simp [ExprNode.everyCall, operand.everyCall_of_forall hp]
termination_by e => sizeOf e

theorem everyCallOptional_of_forall {p : String → List (ScalarNode V) → Prop}
    (hp : ∀ name args, p name args) : (e : Option (ExprNode V)) → everyCallOptional p e
  | none => by simp [everyCallOptional]
  | some e => by simp [everyCallOptional, e.everyCall_of_forall hp]
termination_by e => sizeOf e

theorem everyCallProjections_of_forall {p : String → List (ScalarNode V) → Prop}
    (hp : ∀ name args, p name args) : (ps : List (ProjectionSpec V)) → everyCallProjections p ps
  | [] => by simp [everyCallProjections]
  | { expression, aliasName } :: projections => by
    simp [everyCallProjections, expression.everyCall_of_forall hp,
      everyCallProjections_of_forall hp projections]
termination_by ps => sizeOf ps

theorem everyCallCtes_of_forall {p : String → List (ScalarNode V) → Prop}
    (hp : ∀ name args, p name args) : (ctes : List (CteSpec V)) → everyCallCtes p ctes
  | [] => by simp [everyCallCtes]
  | { name, columns, recursive, query } :: ctes => by
    simp [everyCallCtes, query.everyCall_of_forall hp, everyCallCtes_of_forall hp ctes]
termination_by ctes => sizeOf ctes

theorem everyCallSet_of_forall {p : String → List (ScalarNode V) → Prop}
    (hp : ∀ name args, p name args) : (ops : List (SetOperationSpec V)) → everyCallSet p ops
  | [] => by simp [everyCallSet]
  | { kind, query } :: operations => by
    simp [everyCallSet, query.everyCall_of_forall hp, everyCallSet_of_forall hp operations]
termination_by ops => sizeOf ops

theorem everyCallSource_of_forall {p : String → List (ScalarNode V) → Prop}
    (hp : ∀ name args, p name args) : (s : Option (DerivedSourceSpec V)) → everyCallSource p s
  | none => by simp [everyCallSource]
  | some { aliasName, query } => by simp [everyCallSource, query.everyCall_of_forall hp]
termination_by s => sizeOf s

theorem SelectQuery.everyCall_of_forall {p : String → List (ScalarNode V) → Prop}
    (hp : ∀ name args, p name args) : (query : SelectQuery V) → query.everyCall p
  | { root, distinct, projections, joins, cteJoins, where_, groupBy, having, orderBy, limit, offset,
      fromName, derivedSource, ctes, setOperations } => by
    simp [SelectQuery.everyCall, everyCallCtes_of_forall hp ctes,
      everyCallProjections_of_forall hp projections, everyCallSource_of_forall hp derivedSource,
      everyCallOptional_of_forall hp where_, everyCallOptional_of_forall hp having,
      everyCallSet_of_forall hp setOperations]
termination_by query => sizeOf query

end

/-- A call neither loses literals nor writes them in another order than it pushes them. -/
def PlacedCall (family : DialectFamily) (name : String) (args : List (ScalarNode V)) : Prop :=
  family ≠ .postgres →
    (upperAscii name ∈ constantFunctions → argLiterals family args = []) ∧
    (upperAscii name ∈ swappedFunctions → ∀ a b, args = [a, b] →
      a.literals family = [] ∨ b.literals family = [])

/-- The literals of the two arguments of a swapped call can be told apart. -/
def ApartCall (family : DialectFamily) (name : String) (args : List (ScalarNode V)) : Prop :=
  family ≠ .postgres → upperAscii name ∈ swappedFunctions → ∀ a b, args = [a, b] →
    (a.literals family).Disjoint (b.literals family)

/-! ## Parts of a query -/

/-- The texts of the arguments of a call, each with its fragment. -/
inductive ArgTexts (dialect : Dialect) : Nat → List (Sql V) → List (ScalarNode V) → Prop
  | nil (n : Nat) : ArgTexts dialect n [] []
  | cons {n : Nat} {sql : Sql V} {texts : List (Sql V)} {arg : ScalarNode V}
      {args : List (ScalarNode V)}
      (head : Fragment dialect.slot n sql.holes (arg.literals dialect.family)
        (arg.everyCall (PlacedCall dialect.family)) (arg.everyCall (ApartCall dialect.family)))
      (tail : ArgTexts dialect (n + (arg.literals dialect.family).length) texts args) :
      ArgTexts dialect n (sql :: texts) (arg :: args)

theorem ArgTexts.fragment {dialect : Dialect} {n : Nat} {texts : List (Sql V)}
    {args : List (ScalarNode V)} (h : ArgTexts dialect n texts args) :
    Fragment dialect.slot n (textSlots texts) (argLiterals dialect.family args)
      (everyCallArgs (PlacedCall dialect.family) args)
      (everyCallArgs (ApartCall dialect.family) args) := by
  induction h with
  | nil => exact .empty
  | cons head tail ih => exact head.append ih

/-- What a call emits, given the texts of its arguments. -/
theorem ArgTexts.renderFunction {dialect : Dialect} {n : Nat} {texts : List (Sql V)}
    {args : List (ScalarNode V)} (h : ArgTexts dialect n texts args)
    (hfamily : dialect.family ≠ .postgres) {name : String} {sql : Sql V}
    (hsql : renderFunction (upperAscii name) name texts = .ok sql) :
    Fragment dialect.slot n sql.holes (argLiterals dialect.family args)
      (PlacedCall dialect.family name args ∧ everyCallArgs (PlacedCall dialect.family) args)
      (ApartCall dialect.family name args ∧ everyCallArgs (ApartCall dialect.family) args) := by
  by_cases hconstant : upperAscii name ∈ constantFunctions
  · rw [renderFunction_constant hconstant hsql]
    have hswapped : upperAscii name ∉ swappedFunctions := by
      intro h'
      simp only [swappedFunctions, List.mem_cons, List.not_mem_nil, or_false] at h'
      rcases h' with h' | h' | h' <;> simp [h', constantFunctions] at hconstant
    refine h.fragment.drop.congr rfl ?_ fun d => d.2
    simp [PlacedCall, hfamily, hconstant, hswapped, and_comm]
  · by_cases hswapped : upperAscii name ∈ swappedFunctions
    · obtain ⟨a, b, hargs, hholes⟩ := renderFunction_swapped hswapped hsql
      subst hargs
      rw [hholes]
      cases h with
      | cons ha h =>
        cases h with
        | cons hb h =>
          cases h with
          | nil =>
            refine (ha.swap hb).congr (by simp [argLiterals]) ?_ ?_
            · simp [PlacedCall, hfamily, hconstant, hswapped, everyCallArgs, and_assoc, and_comm]
            · intro d
              exact ⟨d.2.1, d.2.2.1, d.1 hfamily hswapped _ _ rfl⟩
    · rw [renderFunction_inOrder hconstant hswapped sql hsql]
      refine h.fragment.congr rfl ?_ fun d => d.2
      simp [PlacedCall, hfamily, hconstant, hswapped]

theorem ArgTexts.renderPostgresFunction {dialect : Dialect} {n : Nat} {texts : List (Sql V)}
    {args : List (ScalarNode V)} (h : ArgTexts dialect n texts args)
    (hfamily : dialect.family = .postgres) {name fnName : String} {sql : Sql V}
    (hsql : renderPostgresFunction name fnName texts = .ok sql) :
    Fragment dialect.slot n sql.holes (argLiterals dialect.family args)
      (PlacedCall dialect.family fnName args ∧ everyCallArgs (PlacedCall dialect.family) args)
      (ApartCall dialect.family fnName args ∧ everyCallArgs (ApartCall dialect.family) args) := by
  rw [renderPostgresFunction_inOrder name fnName texts sql hsql]
  refine h.fragment.congr rfl ?_ fun d => d.2
  simp [PlacedCall, hfamily]

@[simp] theorem holes_whereClause (whereSql extraSql : Option (Sql V)) :
    (whereClause whereSql extraSql).holes = optionSlots whereSql ++ optionSlots extraSql := by
  cases whereSql <;> cases extraSql <;> simp [whereClause, optionSlots]

@[simp] theorem holes_havingClause (sql : Option (Sql V)) :
    (havingClause sql).holes = optionSlots sql := by
  cases sql <;> simp [havingClause, optionSlots]

theorem holes_of_isEmpty {sql : Sql V} (h : sql.isEmpty = true) : sql.holes = [] := by
  refine List.filterMap_eq_nil_iff.mpr fun piece hpiece => ?_
  have := List.all_eq_true.mp h piece hpiece
  cases piece with
  | chars s => rfl
  | hole p v => simp at this

/-- What the extra condition of a query pushes. One that is left out pushes nothing. -/
def EmitsExtra (family : DialectFamily) (extra : Option (ExtraWhereCompiler V))
    (rootAlias : String) (new : List V) (P D : Prop) : Prop :=
  match extra with
  | none => new = [] ∧ P
  | some f => EmitsQuery family (fun dialect => f dialect rootAlias) new P D ∧
      ∀ dialect out, dialect.family = family → f dialect rootAlias = .ok out →
        out.sql.isEmpty = true → new = []

theorem EmitsExtra.none {family : DialectFamily} {rootAlias : String} :
    EmitsExtra family (none : Option (ExtraWhereCompiler V)) rootAlias [] True True :=
  ⟨rfl, trivial⟩

theorem emits_compileExtraWhere {dialect : Dialect} {extra : Option (ExtraWhereCompiler V)}
    {rootAlias : String} {new : List V} {P D : Prop}
    (h : EmitsExtra dialect.family extra rootAlias new P D) :
    Emits dialect (compileExtraWhere dialect rootAlias extra) optionSlots [] new P D := by
  cases extra with
  | none =>
    obtain ⟨rfl, hP⟩ := h
    exact Emits.congr (.pure rfl) rfl (by simp [hP]) (by simp)
  | some f =>
    intro params sql params' hx
    obtain ⟨_, _, hg, hx⟩ := run_bind_ok hx
    cases hg
    obtain ⟨out, _, hc, hx⟩ := run_bind_ok hx
    obtain ⟨hc, hparams⟩ := run_lift_ok hc
    subst hparams
    obtain ⟨hnew, frag⟩ := h.1 (offsetPlaceholders dialect _) out rfl hc
    have hslots := fragment_offset frag
    split at hx
    · -- the text is empty, so nothing was pushed for it
      rename_i hempty
      have hnil := h.2 (offsetPlaceholders dialect _) out rfl hc hempty
      cases hx
      rw [holes_of_isEmpty hempty] at hslots
      exact ⟨by simp [hnil], [], rfl, hslots⟩
    · cases hx
      exact ⟨by rw [hnew], out.sql.holes, rfl, hslots⟩

/-- A call whose arguments are compiled and then rendered. -/
theorem emits_call {dialect : Dialect} {args : List (ScalarNode V)} {new : List V} {P D : Prop}
    {x : CompileM V (List (Sql V))} {render : List (Sql V) → Except Exn (Sql V)}
    (hx : ∀ params texts params', x params = .ok (texts, params') →
      params' = params ++ new ∧ ArgTexts dialect params.length texts args)
    (hrender : ∀ n texts sql, ArgTexts dialect n texts args → render texts = .ok sql →
      Fragment dialect.slot n sql.holes new P D) :
    Emits dialect (x >>= fun texts => liftM (render texts)) Sql.holes [] new P D := by
  intro params sql params' h
  obtain ⟨texts, _, htexts, h⟩ := run_bind_ok h
  obtain ⟨hparams, hargs⟩ := hx _ _ _ htexts
  obtain ⟨hsql, rfl⟩ := run_lift_ok h
  exact ⟨hparams, sql.holes, rfl, hrender _ _ _ hargs hsql⟩

/-- The arguments of a window function. -/
theorem emits_texts {dialect : Dialect} {args : List (ScalarNode V)} {x : CompileM V (List (Sql V))}
    (hx : ∀ params texts params', x params = .ok (texts, params') →
      params' = params ++ argLiterals dialect.family args ∧
      ArgTexts dialect params.length texts args) :
    Emits dialect x textSlots [] (argLiterals dialect.family args)
      (everyCallArgs (PlacedCall dialect.family) args)
      (everyCallArgs (ApartCall dialect.family) args) := by
  intro params texts params' h
  obtain ⟨hparams, hargs⟩ := hx _ _ _ h
  exact ⟨hparams, textSlots texts, rfl, hargs.fragment⟩

theorem EmitsQuery.guarded {family : DialectFamily} {e : Exn} {c : Prop} [Decidable c]
    {compile : Dialect → Except Exn (CompiledQuery V)} {new : List V} {P D : Prop}
    (h : EmitsQuery family compile new P D) :
    EmitsQuery family (fun dialect => if c then throw e else compile dialect) new P D := by
  intro dialect out hfamily hout
  dsimp only at hout
  split at hout
  · cases hout
  · exact h dialect out hfamily hout

theorem queryLiterals_eq (family : DialectFamily) (query : SelectQuery V) (extra : List V) :
    queryLiterals family query extra =
      cteLiterals family query.ctes ++ (projectionLiterals family query.projections ++
        (sourceLiterals family query.derivedSource ++ (optionalLiterals family query.where_ ++
          (extra ++ (optionalLiterals family query.having ++
            setLiterals family query.setOperations))))) := by
  cases query
  simp only [queryLiterals]

theorem everyCall_eq (p : String → List (ScalarNode V) → Prop) (query : SelectQuery V) :
    query.everyCall p ↔ everyCallCtes p query.ctes ∧ everyCallProjections p query.projections ∧
      everyCallSource p query.derivedSource ∧ everyCallOptional p query.where_ ∧
      everyCallOptional p query.having ∧ everyCallSet p query.setOperations := by
  cases query
  simp only [SelectQuery.everyCall]

/-- The compilers of the parts of a query push the literals of these parts. -/
structure PartsEmit (dialect : Dialect) (query : SelectQuery V) (parts : QueryParts V) : Prop where
  ctes : Emits dialect parts.ctes textSlots [] (cteLiterals dialect.family query.ctes)
    (everyCallCtes (PlacedCall dialect.family) query.ctes)
    (everyCallCtes (ApartCall dialect.family) query.ctes)
  projections : ∀ ctx, ctx.dialect = dialect → Emits dialect (parts.projections ctx) textSlots []
    (projectionLiterals dialect.family query.projections)
    (everyCallProjections (PlacedCall dialect.family) query.projections)
    (everyCallProjections (ApartCall dialect.family) query.projections)
  source : ∀ rootAlias, Emits dialect (parts.source rootAlias) Sql.holes []
    (sourceLiterals dialect.family query.derivedSource)
    (everyCallSource (PlacedCall dialect.family) query.derivedSource)
    (everyCallSource (ApartCall dialect.family) query.derivedSource)
  where_ : ∀ ctx, ctx.dialect = dialect → Emits dialect (parts.where_ ctx) optionSlots []
    (optionalLiterals dialect.family query.where_)
    (everyCallOptional (PlacedCall dialect.family) query.where_)
    (everyCallOptional (ApartCall dialect.family) query.where_)
  having : ∀ ctx, ctx.dialect = dialect → Emits dialect (parts.having ctx) optionSlots []
    (optionalLiterals dialect.family query.having)
    (everyCallOptional (PlacedCall dialect.family) query.having)
    (everyCallOptional (ApartCall dialect.family) query.having)
  setOperations : Emits dialect parts.setOperations Sql.holes []
    (setLiterals dialect.family query.setOperations)
    (everyCallSet (PlacedCall dialect.family) query.setOperations)
    (everyCallSet (ApartCall dialect.family) query.setOperations)
  noCtes : query.ctes = [] → parts.ctes = pure []
  noProjections : ∀ ctx, query.projections = [] → parts.projections ctx = pure []

/-- A list of texts that is left out when there is nothing to compile. -/
theorem emits_texts_unless {dialect : Dialect} {x : CompileM V (List (Sql V))} {new : List V}
    {P D : Prop} (h : Emits dialect x textSlots [] new P D) (c : Prop) [Decidable c]
    (hc : c → x = pure [] ∧ new = [] ∧ P) :
    Emits dialect x (fun texts => if c then [] else textSlots texts) [] new P D := by
  split
  · rename_i hc'
    obtain ⟨rfl, rfl, hP⟩ := hc hc'
    exact Emits.congr (.pure rfl) rfl (by simp [hP]) fun _ => trivial
  · exact h

theorem assembleSql_emits {dialect : Dialect} {query : SelectQuery V} {parts : QueryParts V}
    (h : PartsEmit dialect query parts) {terminate : Bool}
    {extra : Option (ExtraWhereCompiler V)} {override : String} {new : List V} {P D : Prop}
    (hextra : EmitsExtra dialect.family extra (rootAliasOf query extra.isSome override) new P D) :
    Emits dialect (assembleSql query dialect terminate extra override parts) Sql.holes []
      (queryLiterals dialect.family query new) (query.everyCall (PlacedCall dialect.family) ∧ P)
      (query.everyCall (ApartCall dialect.family) ∧ D) := by
  unfold assembleSql
  dsimp only
  have hctes := emits_texts_unless h.ctes (query.ctes.isEmpty = true) fun he => by
    rw [List.isEmpty_iff] at he
    exact ⟨h.noCtes he, by simp [he, cteLiterals], by simp [he, everyCallCtes]⟩
  have hprojections := fun ctx hctx =>
    emits_texts_unless (h.projections ctx hctx) (query.projections.isEmpty = true) fun he => by
      rw [List.isEmpty_iff] at he
      exact ⟨h.noProjections ctx he, by simp [he, projectionLiterals],
        by simp [he, everyCallProjections]⟩
  refine Emits.congr (.bind hctes fun cteTexts => .lift fun joins _ => .lift fun cteJoinSql _ =>
    .bind (hprojections _ rfl) fun projectionTexts => .bind (h.source _) fun source =>
    .bind (h.where_ _ rfl) fun whereSql => .bind (emits_compileExtraWhere hextra) fun extraSql =>
    .lift fun groupSql _ => .bind (h.having _ rfl) fun havingSql =>
    .bind h.setOperations fun setSql => .lift fun tail _ => .pure ?_) ?_ ?_ ?_
  · -- the two texts that are left out have no placeholders
    by_cases hc : query.ctes = [] <;> by_cases hp : query.projections = [] <;> simp [hc, hp]
  · simp [queryLiterals_eq]
  · simp [everyCall_eq]
    tauto
  · simp [everyCall_eq]
    tauto

/-- A query, from its parts. -/
theorem assembleQuery_emits {dialect : Dialect} {query : SelectQuery V} {parts : QueryParts V}
    (h : PartsEmit dialect query parts) {terminate : Bool}
    {extra : Option (ExtraWhereCompiler V)} {override : String} {new : List V} {P D : Prop}
    (hextra : EmitsExtra dialect.family extra (rootAliasOf query extra.isSome override) new P D)
    {out : CompiledQuery V}
    (hout : assembleQuery query dialect terminate extra override parts = .ok out) :
    out.params = queryLiterals dialect.family query new ∧
      Fragment dialect.slot 0 out.sql.holes (queryLiterals dialect.family query new)
        (query.everyCall (PlacedCall dialect.family) ∧ P)
        (query.everyCall (ApartCall dialect.family) ∧ D) := by
  obtain ⟨⟨sql, params⟩, hbody, hout⟩ := except_bind_ok hout
  cases hout
  obtain ⟨hparams, slots, hslots, frag⟩ := assembleSql_emits h hextra _ _ _ hbody
  exact ⟨by simpa using hparams, by simpa [hslots] using frag⟩

theorem compileCtes_nil (dialect : Dialect) :
    compileCtes dialect ([] : List (CteSpec V)) = pure [] := by
  unfold compileCtes
  rfl

theorem compileProjections_nil (ctx : CompileContext) :
    compileProjections ctx ([] : List (ProjectionSpec V)) = pure [] := by
  unfold compileProjections
  rfl

/-! ## The compiler -/

mutual

theorem compileScalar_emits (ctx : CompileContext) : (e : ScalarNode V) →
    Emits ctx.dialect (compileScalar ctx e) Sql.holes [] (e.literals ctx.dialect.family)
      (e.everyCall (PlacedCall ctx.dialect.family)) (e.everyCall (ApartCall ctx.dialect.family))
  | .column ref => by
    unfold compileScalar
    exact .lift fun _ _ => .pure rfl
  | .value v => by
    unfold compileScalar
    exact emits_bindLiteral ctx.dialect v
  | .arithmetic left op right => by
    unfold compileScalar
    refine Emits.congr (.bind (compileScalar_emits ctx left) fun l =>
      .bind (compileScalar_emits ctx right) fun r => .pure ?_) ?_ ?_ ?_
    · simp
    · simp [ScalarNode.literals]
    · simp [ScalarNode.everyCall]
    · simp [ScalarNode.everyCall]
  | .aggregate ref => by
    unfold compileScalar
    exact .lift fun _ _ => .pure rfl
  | .function name args => by
    unfold compileScalar
    refine .lift fun _ _ => ?_
    dsimp only
    split
    · rename_i hfamily
      refine Emits.congr (emits_call (compileScalars_texts ctx args) fun n texts sql h hsql =>
        h.renderPostgresFunction hfamily hsql) ?_ Iff.rfl id
      exact (literals_function fun h => h.1 hfamily).symm
    · rename_i hfamily
      split
      · rename_i htruncate
        split
        · refine Emits.congr (.bind (compileScalar_emits ctx _) fun a =>
            .bind (compileScalar_emits ctx _) fun b => .bind (compileScalar_emits ctx _) fun c =>
            .pure ?_) ?_ ?_ ?_
          · simp
          · simp [ScalarNode.literals, hfamily, htruncate]
          · simp [ScalarNode.everyCall, everyCallArgs, PlacedCall, htruncate, constantFunctions,
              swappedFunctions]
          · intro d
            exact ⟨d.2.1, d.2.2.1, d.2.2.1, trivial⟩
        · exact .throw
      · rename_i htruncate
        refine Emits.congr (emits_call (compileScalars_texts ctx args) fun n texts sql h hsql =>
          h.renderFunction hfamily hsql) ?_ Iff.rfl id
        exact (literals_function fun h => htruncate h.2).symm
  | .case branches elseValue => by
    unfold compileScalar
    split
    · exact .throw
    · refine Emits.congr (.bind (compileBranches_emits ctx branches) fun whens =>
        .bind (compileElse_emits ctx elseValue) fun otherwise => .pure ?_) ?_ ?_ ?_
      · simp
      · simp [ScalarNode.literals]
      · simp [ScalarNode.everyCall]
      · simp [ScalarNode.everyCall]
  | .window name args partitionBy orderBy => by
    unfold compileScalar
    refine .lift fun _ _ => ?_
    refine Emits.congr (.bind (emits_texts (compileScalars_texts ctx args)) fun texts =>
      .lift fun overClause _ => .pure ?_) ?_ ?_ ?_
    · simp
    · simp [ScalarNode.literals]
    · simp [ScalarNode.everyCall]
    · simp [ScalarNode.everyCall]
termination_by x => sizeOf x

theorem compileScalars_texts (ctx : CompileContext) : (args : List (ScalarNode V)) →
    ∀ params texts params', compileScalars ctx args params = .ok (texts, params') →
      params' = params ++ argLiterals ctx.dialect.family args ∧
      ArgTexts ctx.dialect params.length texts args
  | [] => by
    intro params texts params' h
    cases h
    exact ⟨by simp [argLiterals], .nil _⟩
  | arg :: args => by
    intro params texts params' h
    unfold compileScalars at h
    obtain ⟨sql, _, hsql, h⟩ := run_bind_ok h
    obtain ⟨rest, _, hrest, h⟩ := run_bind_ok h
    cases h
    obtain ⟨rfl, slots, hslots, frag⟩ := compileScalar_emits ctx arg _ _ _ hsql
    obtain ⟨rfl, tail⟩ := compileScalars_texts ctx args _ _ _ hrest
    rw [List.length_append] at tail
    rw [List.nil_append] at hslots
    exact ⟨by simp [argLiterals], .cons (hslots ▸ frag) tail⟩
termination_by args => sizeOf args

theorem compileBranches_emits (ctx : CompileContext) : (branches : List (CaseBranch V)) →
    Emits ctx.dialect (compileBranches ctx branches) Sql.holes []
      (branchLiterals ctx.dialect.family branches)
      (everyCallBranches (PlacedCall ctx.dialect.family) branches)
      (everyCallBranches (ApartCall ctx.dialect.family) branches)
  | [] => by
    unfold compileBranches
    exact .pure rfl
  | { when, thenValue } :: branches => by
    unfold compileBranches
    refine Emits.congr (.bind (compileExpression_emits ctx when) fun w =>
      .bind (compileScalar_emits ctx thenValue) fun t =>
      .bind (compileBranches_emits ctx branches) fun rest => .pure ?_) ?_ ?_ ?_
    · simp
    · simp [branchLiterals]
    · simp [everyCallBranches]
    · simp [everyCallBranches]
termination_by x => sizeOf x

theorem compileElse_emits (ctx : CompileContext) : (elseValue : Option (ScalarNode V)) →
    Emits ctx.dialect (compileElse ctx elseValue) Sql.holes []
      (elseLiterals ctx.dialect.family elseValue)
      (everyCallElse (PlacedCall ctx.dialect.family) elseValue)
      (everyCallElse (ApartCall ctx.dialect.family) elseValue)
  | none => by
    unfold compileElse
    exact .pure rfl
  | some value => by
    unfold compileElse
    refine Emits.congr (.bind (compileScalar_emits ctx value) fun text => .pure ?_) ?_ ?_ ?_
    · simp
    · simp [elseLiterals]
    · simp [everyCallElse]
    · simp [everyCallElse]
termination_by x => sizeOf x

theorem compileExpression_emits (ctx : CompileContext) : (e : ExprNode V) →
    Emits ctx.dialect (compileExpression ctx e) Sql.holes [] (e.literals ctx.dialect.family)
      (e.everyCall (PlacedCall ctx.dialect.family)) (e.everyCall (ApartCall ctx.dialect.family))
  | .comparison left op right => by
    unfold compileExpression
    refine Emits.congr (.bind (compileScalar_emits ctx left) fun l =>
      .bind (compileScalar_emits ctx right) fun r => .pure ?_) ?_ ?_ ?_
    · simp
    · simp [ExprNode.literals]
    · simp [ExprNode.everyCall]
    · simp [ExprNode.everyCall]
  | .nullCheck operand negated => by
    unfold compileExpression
    refine Emits.congr (.bind (compileScalar_emits ctx operand) fun o => .pure ?_) ?_ ?_ ?_
    · simp
    · simp [ExprNode.literals]
    · simp [ExprNode.everyCall]
    · simp [ExprNode.everyCall]
  | .like operand pattern negated => by
    unfold compileExpression
    refine Emits.congr (.bind (compileScalar_emits ctx operand) fun o =>
      .bind (compileScalar_emits ctx pattern) fun p => .pure ?_) ?_ ?_ ?_
    · simp
    · simp [ExprNode.literals]
    · simp [ExprNode.everyCall]
    · simp [ExprNode.everyCall]
  | .between operand lower upper negated => by
    unfold compileExpression
    refine Emits.congr (.bind (compileScalar_emits ctx operand) fun o =>
      .bind (compileScalar_emits ctx lower) fun l =>
      .bind (compileScalar_emits ctx upper) fun u => .pure ?_) ?_ ?_ ?_
    · simp
    · simp [ExprNode.literals]
    · simp [ExprNode.everyCall]
    · simp [ExprNode.everyCall]
  | .inValues operand values negated => by
    unfold compileExpression
    split
    · rename_i hempty
      exact Emits.congr (.pure rfl) (by simp [ExprNode.literals, hempty])
        (by simp [ExprNode.everyCall, hempty]) (by simp)
    · rename_i hempty
      refine Emits.congr (.bind (compileScalar_emits ctx operand) fun o =>
        .bind (emits_bindLiterals ctx.dialect values) fun texts => .pure ?_) ?_ ?_ ?_
      · simp
      · simp [ExprNode.literals, hempty]
      · simp [ExprNode.everyCall, hempty]
      · simp [ExprNode.everyCall, hempty]
  | .inSubquery operand subquery negated => by
    unfold compileExpression
    refine Emits.congr (.bind (compileScalar_emits ctx operand) fun o =>
      .bind (emits_nest (EmitsQuery.guarded (compileImpl_emits subquery .none))) fun sql =>
      .pure ?_) ?_ ?_ ?_
    · simp
    · simp [ExprNode.literals]
    · simp [ExprNode.everyCall]
    · simp [ExprNode.everyCall]
  | .exists subquery negated => by
    unfold compileExpression
    refine Emits.congr (.bind (emits_nest (compileImpl_emits subquery .none)) fun sql =>
      .pure ?_) ?_ ?_ ?_
    · simp
    · simp [ExprNode.literals]
    · simp [ExprNode.everyCall]
    · simp [ExprNode.everyCall]
  | .logical op left right => by
    unfold compileExpression
    refine Emits.congr (.bind (compileExpression_emits ctx left) fun l =>
      .bind (compileExpression_emits ctx right) fun r => .pure ?_) ?_ ?_ ?_
    · simp
    · simp [ExprNode.literals]
    · simp [ExprNode.everyCall]
    · simp [ExprNode.everyCall]
  | .not operand => by
    unfold compileExpression
    refine Emits.congr (.bind (compileExpression_emits ctx operand) fun o => .pure ?_) ?_ ?_ ?_
    · simp
    · simp [ExprNode.literals]
    · simp [ExprNode.everyCall]
    · simp [ExprNode.everyCall]
termination_by x => sizeOf x

theorem compileOptional_emits (ctx : CompileContext) : (e : Option (ExprNode V)) →
    Emits ctx.dialect (compileOptional ctx e) optionSlots []
      (optionalLiterals ctx.dialect.family e)
      (everyCallOptional (PlacedCall ctx.dialect.family) e)
      (everyCallOptional (ApartCall ctx.dialect.family) e)
  | none => by
    unfold compileOptional
    exact .pure rfl
  | some expression => by
    unfold compileOptional
    refine Emits.congr (.bind (compileExpression_emits ctx expression) fun text =>
      .pure ?_) ?_ ?_ ?_
    · simp [optionSlots]
    · simp [optionalLiterals]
    · simp [everyCallOptional]
    · simp [everyCallOptional]
termination_by x => sizeOf x

theorem compileProjections_emits (ctx : CompileContext) : (ps : List (ProjectionSpec V)) →
    Emits ctx.dialect (compileProjections ctx ps) textSlots []
      (projectionLiterals ctx.dialect.family ps)
      (everyCallProjections (PlacedCall ctx.dialect.family) ps)
      (everyCallProjections (ApartCall ctx.dialect.family) ps)
  | [] => by
    unfold compileProjections
    exact .pure rfl
  | { expression, aliasName } :: projections => by
    unfold compileProjections
    refine Emits.congr (.bind (compileScalar_emits ctx expression) fun text =>
      .bind (compileProjections_emits ctx projections) fun texts => .pure ?_) ?_ ?_ ?_
    · cases aliasName <;> simp
    · simp [projectionLiterals]
    · simp [everyCallProjections]
    · simp [everyCallProjections]
termination_by x => sizeOf x

theorem compileCtes_emits (dialect : Dialect) : (ctes : List (CteSpec V)) →
    Emits dialect (compileCtes dialect ctes) textSlots [] (cteLiterals dialect.family ctes)
      (everyCallCtes (PlacedCall dialect.family) ctes)
      (everyCallCtes (ApartCall dialect.family) ctes)
  | [] => by
    unfold compileCtes
    exact .pure rfl
  | { name, columns, recursive, query } :: ctes => by
    unfold compileCtes
    refine Emits.congr (.bind (emits_nest (compileImpl_emits query .none)) fun sql =>
      .bind (compileCtes_emits dialect ctes) fun texts => .pure ?_) ?_ ?_ ?_
    · simp
    · simp [cteLiterals]
    · simp [everyCallCtes]
    · simp [everyCallCtes]
termination_by x => sizeOf x

theorem compileSetOperations_emits (dialect : Dialect) : (ops : List (SetOperationSpec V)) →
    Emits dialect (compileSetOperations dialect ops) Sql.holes [] (setLiterals dialect.family ops)
      (everyCallSet (PlacedCall dialect.family) ops) (everyCallSet (ApartCall dialect.family) ops)
  | [] => by
    unfold compileSetOperations
    exact .pure rfl
  | { kind, query } :: operations => by
    unfold compileSetOperations
    refine Emits.congr (.bind (emits_nest (compileImpl_emits query .none)) fun sql =>
      .bind (compileSetOperations_emits dialect operations) fun rest => .pure ?_) ?_ ?_ ?_
    · simp
    · simp [setLiterals]
    · simp [everyCallSet]
    · simp [everyCallSet]
termination_by x => sizeOf x

theorem compileFromSource_emits (dialect : Dialect) (query : SelectQuery V) (rootAlias : String) :
    (source : Option (DerivedSourceSpec V)) →
    Emits dialect (compileFromSource dialect query rootAlias source) Sql.holes []
      (sourceLiterals dialect.family source)
      (everyCallSource (PlacedCall dialect.family) source)
      (everyCallSource (ApartCall dialect.family) source)
  | none => by
    unfold compileFromSource
    refine Emits.congr (.pure ?_) rfl Iff.rfl fun _ => trivial
    simp
  | some { aliasName, query := source } => by
    unfold compileFromSource
    refine Emits.congr (.bind (emits_nest (compileImpl_emits source .none)) fun sql =>
      .pure ?_) ?_ ?_ ?_
    · simp
    · simp [sourceLiterals]
    · simp [everyCallSource]
    · simp [everyCallSource]
termination_by x => sizeOf x

theorem compileImpl_emits {family : DialectFamily} {terminate : Bool} {override : String}
    {extra : Option (ExtraWhereCompiler V)} {new : List V} {P D : Prop} :
    (query : SelectQuery V) →
    EmitsExtra family extra (rootAliasOf query extra.isSome override) new P D →
    EmitsQuery family (fun dialect => compileImpl query dialect terminate extra override)
      (queryLiterals family query new) (query.everyCall (PlacedCall family) ∧ P)
      (query.everyCall (ApartCall family) ∧ D)
  | { root, distinct, projections, joins, cteJoins, where_, groupBy, having, orderBy, limit, offset,
      fromName, derivedSource, ctes, setOperations }, hextra => by
    intro dialect out hfamily hout
    subst hfamily
    dsimp only at hout
    unfold compileImpl at hout
    refine assembleQuery_emits ⟨compileCtes_emits dialect ctes, ?_, ?_, ?_, ?_,
      compileSetOperations_emits dialect setOperations, ?_, ?_⟩ hextra hout
    · rintro ctx rfl
      exact compileProjections_emits ctx projections
    · intro rootAlias
      exact compileFromSource_emits dialect _ rootAlias derivedSource
    · rintro ctx rfl
      exact compileOptional_emits ctx where_
    · rintro ctx rfl
      exact compileOptional_emits ctx having
    · intro hnil
      dsimp only at hnil
      subst hnil
      exact compileCtes_nil dialect
    · intro ctx hnil
      dsimp only at hnil
      subst hnil
      exact compileProjections_nil ctx
termination_by query _ => sizeOf query

end

/-! ## Positional parameters -/

/-- What `compile_scalar` and `compile_expression` are called with. -/
inductive Node (V : Type) where
  | scalar (e : ScalarNode V)
  | expression (e : ExprNode V)

namespace Node

/-- `compile_scalar` or `compile_expression`. -/
def compile (ctx : CompileContext) : Node V → CompileM V (Sql V)
  | scalar e => compileScalar ctx e
  | expression e => compileExpression ctx e

/-- The literals that compiling pushes, in order. -/
def literals (family : DialectFamily) : Node V → List V
  | scalar e => e.literals family
  | expression e => e.literals family

/-- Every function call that compiling reaches satisfies `p`. -/
def everyCall (p : String → List (ScalarNode V) → Prop) : Node V → Prop
  | scalar e => e.everyCall p
  | expression e => e.everyCall p

theorem compile_emits (ctx : CompileContext) (e : Node V) :
    Emits ctx.dialect (e.compile ctx) Sql.holes [] (e.literals ctx.dialect.family)
      (e.everyCall (PlacedCall ctx.dialect.family))
      (e.everyCall (ApartCall ctx.dialect.family)) := by
  cases e with
  | scalar e => exact compileScalar_emits ctx e
  | expression e => exact compileExpression_emits ctx e

end Node

/-- The text has a `?` for each parameter, and the `k`-th one stands where the AST has the
    literal that is the `k`-th parameter. -/
def PositionalOrder (sql : Sql V) (pushed : List V) : Prop :=
  sql.placeholders = List.replicate pushed.length .question ∧ sql.literals = pushed

instance [DecidableEq V] (sql : Sql V) (pushed : List V) : Decidable (PositionalOrder sql pushed) :=
  inferInstanceAs (Decidable (_ ∧ _))

/-- Numbered slots of SQLite are question marks in order. -/
theorem positionalOrder_of_numbered {n : Nat} {sql : Sql V} {pushed : List V}
    (h : Numbered sqliteDialect.slot n sql.holes pushed) : PositionalOrder sql pushed := by
  refine ⟨List.eq_replicate_iff.mpr ⟨?_, fun p hp => ?_⟩, h.snd⟩
  · simpa [Sql.placeholders] using h.length
  · obtain ⟨k, _, _, hk⟩ := h.mem hp
    simpa [Dialect.slot, sqliteDialect] using hk.symm

/-- On SQLite, compiling appends the literals of the AST. Each `?` stands for the parameter
    of its position if no call is in the way, and only then if the literals of the arguments
    that a call swaps can be told apart. -/
theorem placeholder_order {aliases : List (TypeIndex × String)} {e : Node V}
    {params params' : List V} {sql : Sql V}
    (h : e.compile { dialect := sqliteDialect, aliases } params = .ok (sql, params')) :
    params' = params ++ e.literals .sqlite ∧
      (e.everyCall (PlacedCall .sqlite) → PositionalOrder sql (e.literals .sqlite)) ∧
      (e.everyCall (ApartCall .sqlite) → PositionalOrder sql (e.literals .sqlite) →
        e.everyCall (PlacedCall .sqlite)) := by
  obtain ⟨hparams, slots, hslots, frag⟩ :=
    e.compile_emits { dialect := sqliteDialect, aliases } _ _ _ h
  rw [List.nil_append] at hslots
  subst hslots
  refine ⟨hparams, fun hplaced => ?_, fun hapart horder => ?_⟩
  · exact positionalOrder_of_numbered (frag.numbered hplaced)
  · exact frag.exact hapart horder.2

/-- `POSITION(name, 'x')` with a column in front: the literal is the only parameter. -/
theorem placeholder_order_position : PositionalOrder
    (Sql.chars "instr(" ++ Sql.hole .question (text "x") ++ Sql.chars ", " ++
      Sql.chars "\"t0\".\"name\"" ++ Sql.chars ")")
    [text "x"] := by
  have h : (Node.scalar (.function "POSITION" [.column ⟨0, "name"⟩, .value (text "x")])).compile
      { dialect := sqliteDialect, aliases := [(0, "t0")] } [] = .ok (_, [text "x"]) := rfl
  refine (placeholder_order h).2.1 ?_
  simp [Node.everyCall, ScalarNode.everyCall, everyCallArgs, PlacedCall, argLiterals,
    ScalarNode.literals]
  decide

/-- `LOCATE('a', 'b')` is written `instr(?, ?)` with the haystack in front, and the needle
    is the first parameter. -/
theorem not_placeholder_order :
    ∃ sql, (Node.scalar (.function "LOCATE" [.value (text "a"), .value (text "b")])).compile
        { dialect := sqliteDialect, aliases := [] } [] = .ok (sql, [text "a", text "b"]) ∧
      ¬PositionalOrder sql [text "a", text "b"] :=
  ⟨Sql.chars "instr(" ++ Sql.hole .question (text "b") ++ Sql.chars ", " ++
    Sql.hole .question (text "a") ++ Sql.chars ")", rfl, by decide⟩

end MetalOrm.Native.Query
