import MetalOrm.Native.DmlQuery
import MetalOrm.Spec.PlaceholderNumbering
import MetalOrm.Spec.SqlConditions

/-!
# The WHERE clause of UPDATE and DELETE

The conjuncts that `append_dml_where` writes, with their text, their type and their meaning. An IN
list without values is written as an integer, which SQLite takes for a truth value and PostgreSQL
refuses; all other conjuncts are conditions on both.

## Key results

- `appendDmlWhere_ok`: what is written, and with which placeholders
- `touched_iff`: when the clause is a condition
- `UpdateNode.means_iff`, `DeleteNode.means_iff`: when a statement touches just the rows of all
  predicates
-/

namespace MetalOrm.Native.Query

open ForStd

/-! ## Shapes -/

/-- A text where a placeholder is the literal it stands for. -/
abbrev Shape := List (String ⊕ Value)

/-- The shape of a text. -/
def Sql.shape (sql : Sql Value) : Shape :=
  List.map (fun
    | .chars s => .inl s
    | .hole _ v => .inr v) sql

/-- Shapes with a separator between them. -/
def separated (separator : String) : List Shape → Shape
  | [] => []
  | [shape] => shape
  | shape :: rest => shape ++ .inl separator :: separated separator rest

namespace Sql

@[simp] theorem shape_empty : (empty : Sql Value).shape = [] := rfl

@[simp] theorem shape_chars (s : String) : (chars s : Sql Value).shape = [.inl s] := rfl

@[simp] theorem shape_hole (p : Placeholder) (v : Value) : (hole p v).shape = [.inr v] := rfl

@[simp] theorem shape_append (a b : Sql Value) : (a ++ b).shape = a.shape ++ b.shape :=
  List.map_append

theorem append_assoc (a b c : Sql Value) : a ++ b ++ c = a ++ (b ++ c) := List.append_assoc a b c

theorem shape_join (separator : String) (parts : List (Sql Value)) :
    (join separator parts).shape = separated separator (parts.map shape) := by
  induction parts with
  | nil => rfl
  | cons sql rest ih =>
    cases rest with
    | nil => rfl
    | cons next rest =>
      simp only [join, shape_append, shape_chars, ih, List.map_cons, separated, List.singleton_append]

end Sql

/-! ## Syntax -/

/-- A conjunct of a WHERE clause. -/
inductive WhereTerm where
  | compare (column : String) (op : CompareOp) (value : Value)
  | inList (column : String) (values : List Value) (negated : Bool)
  | integer (one : Bool)
  | group (fragment : Shape)

namespace WhereTerm

/-- The text of a conjunct. -/
def shape (dialect : Dialect) : WhereTerm → Shape
  | compare column op value =>
    [.inl (dialect.quoteIdentifier column), .inl (" " ++ compareToken op ++ " "), .inr value]
  | inList column values negated =>
    .inl (dialect.quoteIdentifier column) :: .inl (if negated then " NOT IN (" else " IN (") ::
      (separated ", " (values.map fun v => [.inr v]) ++ [.inl ")"])
  | integer one => [.inl (if one then "1" else "0")]
  | group fragment => .inl "(" :: (fragment ++ [.inl ")"])

/-- A conjunct has a truth value: an integer has one on SQLite only. -/
def boolean (family : DialectFamily) : WhereTerm → Bool
  | integer _ => family = .sqlite
  | _ => true

end WhereTerm

/-- The conjunct of an IN predicate. -/
def DmlInPredicate.term (predicate : DmlInPredicate) : WhereTerm :=
  if predicate.values.isEmpty then .integer predicate.negated
  else .inList predicate.column predicate.values predicate.negated

/-- The conjuncts of a clause; `fragment` is the text of the extra condition. -/
def whereTerms (predicates : List DmlPredicate) (inPredicates : List DmlInPredicate)
    (fragment : Option Shape) : List WhereTerm :=
  predicates.map (fun p => .compare p.column p.op p.value) ++
    (inPredicates.map DmlInPredicate.term ++ fragment.toList.map .group)

/-- The text of a clause. -/
def whereShape (dialect : Dialect) (terms : List WhereTerm) : Shape :=
  if terms.isEmpty then []
  else .inl " WHERE " :: separated " AND " (terms.map (·.shape dialect))

/-- The literals of the predicates. -/
def predicateLiterals (predicates : List DmlPredicate) (inPredicates : List DmlInPredicate) :
    List Value :=
  predicates.map (·.value) ++ inPredicates.flatMap (·.values)

/-- The text of the extra condition, compiled behind these parameters. -/
def extraShape (dialect : Dialect) (extraWhere : Option DmlWhereCompiler) (params : List Value) :
    Option Shape :=
  extraWhere.bind fun compile => match compile dialect params with
    | .ok (sql, _) => some sql.shape
    | .error _ => none

/-! ## Meaning -/

/-- The comparisons of the database, and what it makes of a condition in parentheses. -/
structure DmlEngine extends Engine where
  fragment : Shape → Tuple → Truth

namespace WhereTerm

/-- The meaning of a conjunct for a row. -/
def eval (engine : DmlEngine) (table : String) (row : Tuple) : WhereTerm → Truth
  | compare column op value => engine.compare op (cellOf table row column) { value }
  | inList column values negated => Truth.negate negated
      (Truth.any (fun v => engine.compare .eq (cellOf table row column) { value := v }) values)
  | integer one => some one
  | group fragment => engine.fragment fragment row

end WhereTerm

/-- The conjunction of a clause. -/
def clauseTruth (engine : DmlEngine) (table : String) (row : Tuple) (terms : List WhereTerm) :
    Truth :=
  terms.foldr (fun term rest => (term.eval engine table row).and rest) (some true)

/-- The rows of the table that a statement touches. A clause with a conjunct that is no condition is
    refused. -/
def touched (family : DialectFamily) (engine : DmlEngine) (table : String)
    (terms : List WhereTerm) (rows : List Tuple) : Option (List Tuple) :=
  if terms.all (·.boolean family) then
    some (rows.filter fun row => (clauseTruth engine table row terms).holds)
  else none

/-- The row satisfies a comparison. -/
def DmlPredicate.holds (engine : DmlEngine) (table : String) (row : Tuple) (p : DmlPredicate) :
    Bool :=
  (engine.compare p.op (cellOf table row p.column) { value := p.value }).holds

/-- The row satisfies an IN predicate: no value is in the empty list. -/
def DmlInPredicate.holds (engine : DmlEngine) (table : String) (row : Tuple) (p : DmlInPredicate) :
    Bool :=
  (Truth.negate p.negated (Truth.any
    (fun v => engine.compare .eq (cellOf table row p.column) { value := v }) p.values)).holds

/-- The row satisfies the extra condition. -/
def extraHolds (engine : DmlEngine) (row : Tuple) (fragment : Option Shape) : Bool :=
  fragment.all fun fragment => (engine.fragment fragment row).holds

/-- The row satisfies all predicates. -/
def satisfies (engine : DmlEngine) (table : String) (predicates : List DmlPredicate)
    (inPredicates : List DmlInPredicate) (fragment : Option Shape) (row : Tuple) : Bool :=
  predicates.all (·.holds engine table row) && inPredicates.all (·.holds engine table row) &&
    extraHolds engine row fragment

section

variable {engine : DmlEngine} {table : String} {row : Tuple} {family : DialectFamily}
  {predicates : List DmlPredicate} {inPredicates : List DmlInPredicate} {fragment : Option Shape}

theorem holds_clauseTruth (terms : List WhereTerm) :
    (clauseTruth engine table row terms).holds =
      terms.all fun term => (term.eval engine table row).holds := by
  induction terms with
  | nil => rfl
  | cons term terms ih =>
    rw [List.all_cons, ← ih]
    exact Truth.holds_and _ _

theorem DmlInPredicate.holds_term (p : DmlInPredicate) :
    (p.term.eval engine table row).holds = p.holds engine table row := by
  unfold DmlInPredicate.term DmlInPredicate.holds
  cases hvalues : p.values with
  | nil =>
    -- the integer is the truth value of the empty list
    show Truth.holds (some p.negated) = (Truth.negate p.negated (some false)).holds
    rw [Truth.holds_negate_some, Truth.holds_some]
    cases p.negated <;> rfl
  | cons v vs => rfl

/-- The conjuncts hold for the rows that satisfy all predicates. -/
theorem holds_whereTerms :
    (clauseTruth engine table row (whereTerms predicates inPredicates fragment)).holds =
      satisfies engine table predicates inPredicates fragment row := by
  have hin : (fun p : DmlInPredicate => (p.term.eval engine table row).holds) =
      fun p => p.holds engine table row := funext DmlInPredicate.holds_term
  rw [holds_clauseTruth, whereTerms, satisfies, List.all_append, List.all_append, List.all_map,
    List.all_map, Bool.and_assoc]
  congr 1
  congr 1
  · exact congrArg (List.all inPredicates) hin
  · cases fragment <;> simp [extraHolds, WhereTerm.eval]

variable (predicates fragment) in
theorem boolean_whereTerms : (whereTerms predicates inPredicates fragment).all (·.boolean family) ↔
    family = .sqlite ∨ ∀ p ∈ inPredicates, p.values ≠ [] := by
  have hterm : ∀ p : DmlInPredicate, p.term.boolean family ↔ family = .sqlite ∨ p.values ≠ [] := by
    intro p
    unfold DmlInPredicate.term
    cases p.values <;> simp [WhereTerm.boolean]
  have hgroup : fragment.toList.all (fun f => (WhereTerm.group f).boolean family) = true := by
    cases fragment <;> rfl
  simp only [whereTerms, List.all_append, List.all_map, Bool.and_eq_true, List.all_eq_true,
    Function.comp_apply, hterm]
  constructor
  · rintro ⟨-, h, -⟩
    by_cases hfamily : family = .sqlite
    · exact .inl hfamily
    · exact .inr fun p hp => (h p hp).resolve_left hfamily
  · intro h
    exact ⟨fun _ _ => rfl, fun p hp => h.imp_right fun h => h p hp, List.all_eq_true.mp hgroup⟩

/-- The clause is a condition, and true for the rows that satisfy all predicates, just if no IN list
    is written as an integer that is none. -/
theorem touched_iff (table : String) : (∀ engine rows,
      touched family engine table (whereTerms predicates inPredicates fragment) rows =
        some (rows.filter (satisfies engine table predicates inPredicates fragment))) ↔
    family = .sqlite ∨ ∀ p ∈ inPredicates, p.values ≠ [] := by
  rw [← boolean_whereTerms predicates fragment]
  constructor
  · intro h
    by_contra hbool
    have hnone := h ⟨⟨fun _ _ _ => none, fun _ _ => none, fun _ => .null⟩, fun _ _ => none⟩ []
    rw [touched, if_neg hbool] at hnone
    cases hnone
  · intro h engine rows
    rw [touched, if_pos h]
    exact congrArg some (congrArg (rows.filter ·) (funext fun row => holds_whereTerms))

end

/-! ## What is written -/

section

variable {dialect : Dialect} {params params' : List Value}

theorem bindLiteral_ok {v : Value} {sql : Sql Value}
    (h : bindLiteral dialect v params = .ok (sql, params')) :
    sql.shape = [.inr v] ∧ params' = params ++ [v] ∧
      Numbered dialect.slot params.length sql.holes [v] := by
  obtain ⟨_, _, hmodify, h⟩ := run_bind_ok h
  obtain ⟨_, _, hget, h⟩ := run_bind_ok h
  cases hmodify
  cases hget
  obtain ⟨p, _, hp, h⟩ := run_bind_ok h
  obtain ⟨hplaceholder, rfl⟩ := run_lift_ok hp
  cases h
  have hslot : dialect.slot (params.length + 1) p := by simpa [Dialect.slot] using hplaceholder
  exact ⟨rfl, rfl, .cons hslot (.nil _)⟩

theorem bindLiterals_ok {values : List Value} {texts : List (Sql Value)}
    (h : bindLiterals dialect values params = .ok (texts, params')) :
    texts.map Sql.shape = values.map (fun v => [.inr v]) ∧ params' = params ++ values ∧
      Numbered dialect.slot params.length (textSlots texts) values := by
  induction values generalizing params texts params' with
  | nil =>
    cases h
    exact ⟨rfl, (List.append_nil _).symm, .nil _⟩
  | cons v values ih =>
    obtain ⟨text, params₁, htext, h⟩ := run_bind_ok h
    obtain ⟨hshape, rfl, hslot⟩ := bindLiteral_ok htext
    obtain ⟨rest, params₂, hrest, h⟩ := run_bind_ok h
    obtain ⟨hshapes, rfl, hslots⟩ := ih hrest
    cases h
    rw [List.length_append] at hslots
    exact ⟨by simp [hshape, hshapes], by simp, hslot.append hslots⟩

theorem compilePredicates_ok {predicates : List DmlPredicate} {texts : List (Sql Value)}
    (h : compilePredicates dialect predicates params = .ok (texts, params')) :
    texts.map Sql.shape =
        predicates.map (fun p => (WhereTerm.compare p.column p.op p.value).shape dialect) ∧
      params' = params ++ predicates.map (·.value) ∧
      Numbered dialect.slot params.length (textSlots texts) (predicates.map (·.value)) := by
  induction predicates generalizing params texts params' with
  | nil =>
    cases h
    exact ⟨rfl, (List.append_nil _).symm, .nil _⟩
  | cons p predicates ih =>
    obtain ⟨placeholder, params₁, hplaceholder, h⟩ := run_bind_ok h
    obtain ⟨hshape, rfl, hslot⟩ := bindLiteral_ok hplaceholder
    obtain ⟨rest, params₂, hrest, h⟩ := run_bind_ok h
    obtain ⟨hshapes, rfl, hslots⟩ := ih hrest
    cases h
    rw [List.length_append] at hslots
    exact ⟨by simp [quoted, hshape, hshapes, WhereTerm.shape], by simp,
      by simpa [quoted] using hslot.append hslots⟩

theorem compileInPredicate_ok {p : DmlInPredicate} {sql : Sql Value}
    (h : compileInPredicate dialect p params = .ok (sql, params')) :
    sql.shape = p.term.shape dialect ∧ params' = params ++ p.values ∧
      Numbered dialect.slot params.length sql.holes p.values := by
  unfold compileInPredicate at h
  unfold DmlInPredicate.term
  cases hvalues : p.values with
  | nil =>
    rw [hvalues] at h
    cases h
    exact ⟨rfl, (List.append_nil _).symm, .nil _⟩
  | cons v values =>
    rw [hvalues] at h
    obtain ⟨texts, params₁, htexts, h⟩ := run_bind_ok h
    obtain ⟨hshapes, rfl, hslots⟩ := bindLiterals_ok htexts
    cases h
    refine ⟨?_, rfl, by simpa [quoted] using hslots⟩
    simp [quoted, Sql.shape_join, hshapes, WhereTerm.shape]

theorem compileInPredicates_ok {inPredicates : List DmlInPredicate} {texts : List (Sql Value)}
    (h : compileInPredicates dialect inPredicates params = .ok (texts, params')) :
    texts.map Sql.shape = inPredicates.map (fun p => p.term.shape dialect) ∧
      params' = params ++ inPredicates.flatMap (·.values) ∧
      Numbered dialect.slot params.length (textSlots texts) (inPredicates.flatMap (·.values)) := by
  induction inPredicates generalizing params texts params' with
  | nil =>
    cases h
    exact ⟨rfl, (List.append_nil _).symm, .nil _⟩
  | cons p inPredicates ih =>
    obtain ⟨term, params₁, hterm, h⟩ := run_bind_ok h
    obtain ⟨hshape, rfl, hslot⟩ := compileInPredicate_ok hterm
    obtain ⟨rest, params₂, hrest, h⟩ := run_bind_ok h
    obtain ⟨hshapes, rfl, hslots⟩ := ih hrest
    cases h
    rw [List.length_append] at hslots
    exact ⟨by simp [hshape, hshapes], by simp, hslot.append hslots⟩

/-- The extra condition appends its parameters, with their placeholders in order. -/
def ExtraInOrder (dialect : Dialect) (extraWhere : Option DmlWhereCompiler) (params : List Value) :
    Prop :=
  ∀ compile ∈ extraWhere, ∀ sql params', compile dialect params = .ok (sql, params') →
    ∃ new, params' = params ++ new ∧ Numbered dialect.slot params.length sql.holes new

/-- The term of the extra condition, and what its placeholders say about the condition. -/
theorem compileExtraTerm_ok {extraWhere : Option DmlWhereCompiler} {texts : List (Sql Value)}
    (h : compileExtraTerm dialect extraWhere params = .ok (texts, params')) :
    texts.map Sql.shape =
        (extraShape dialect extraWhere params).toList.map (fun f => (WhereTerm.group f).shape dialect) ∧
      (extraShape dialect extraWhere params = none → extraWhere = none) ∧
      (ExtraInOrder dialect extraWhere params ↔ ∃ new, params' = params ++ new ∧
        Numbered dialect.slot params.length (textSlots texts) new) := by
  cases extraWhere with
  | none =>
    cases h
    refine ⟨rfl, fun _ => rfl, fun _ => ⟨[], (List.append_nil _).symm, .nil _⟩,
      fun _ compile hcompile => ?_⟩
    cases hcompile
  | some compile =>
    obtain ⟨fragment, params₁, hfragment, h⟩ := run_bind_ok h
    have hshape : extraShape dialect (some compile) params = some fragment.shape := by
      simp [extraShape, hfragment]
    have hterm : texts = [("(" ++ (fragment ++ ")") : Sql Value)] ∧ params' = params₁ := by
      dsimp only at h
      split at h
      · cases h
      · cases h
        exact ⟨rfl, rfl⟩
    obtain ⟨rfl, rfl⟩ := hterm
    rw [hshape]
    refine ⟨by simp [WhereTerm.shape], nofun, ?_⟩
    have hslots : textSlots [("(" ++ (fragment ++ ")") : Sql Value)] = fragment.holes := by simp
    rw [hslots]
    constructor
    · intro horder
      exact horder compile rfl fragment _ hfragment
    · rintro hnew _ ⟨⟩ sql params₂ hsql
      rw [hfragment] at hsql
      cases hsql
      exact hnew

/-- The conjuncts of a clause that is compiled behind these parameters. -/
def clauseTerms (dialect : Dialect) (predicates : List DmlPredicate)
    (inPredicates : List DmlInPredicate) (extraWhere : Option DmlWhereCompiler)
    (params : List Value) : List WhereTerm :=
  whereTerms predicates inPredicates
    (extraShape dialect extraWhere (params ++ predicateLiterals predicates inPredicates))

/-- The clause, and when its placeholders are numbered behind the parameters in front of it. -/
theorem appendDmlWhere_ok {predicates : List DmlPredicate} {inPredicates : List DmlInPredicate}
    {extraWhere : Option DmlWhereCompiler} {sql : Sql Value}
    (h : appendDmlWhere dialect predicates inPredicates extraWhere params = .ok (sql, params')) :
    sql.shape = whereShape dialect (clauseTerms dialect predicates inPredicates extraWhere params) ∧
      (ExtraInOrder dialect extraWhere (params ++ predicateLiterals predicates inPredicates) ↔
        ∃ new, params' = params ++ new ∧ Numbered dialect.slot params.length sql.holes new) := by
  unfold appendDmlWhere at h
  split at h
  · -- there is no clause
    rename_i hnone
    cases h
    simp only [Bool.and_eq_true, List.isEmpty_iff, Option.isNone_iff_eq_none] at hnone
    obtain ⟨⟨rfl, rfl⟩, rfl⟩ := hnone
    exact ⟨rfl, fun _ => ⟨[], (List.append_nil _).symm, .nil _⟩, fun _ compile hcompile => by
      cases hcompile⟩
  · rename_i hsome
    obtain ⟨terms, params₁, hterms, h⟩ := run_bind_ok h
    obtain ⟨hshape₁, rfl, hslots₁⟩ := compilePredicates_ok hterms
    obtain ⟨inTerms, params₂, hinTerms, h⟩ := run_bind_ok h
    obtain ⟨hshape₂, rfl, hslots₂⟩ := compileInPredicates_ok hinTerms
    obtain ⟨extraTerm, params₃, hextra, h⟩ := run_bind_ok h
    rw [List.append_assoc] at hextra
    change compileExtraTerm dialect extraWhere
      (params ++ predicateLiterals predicates inPredicates) = _ at hextra
    obtain ⟨hshape₃, hnone, horder⟩ := compileExtraTerm_ok hextra
    cases h
    rw [List.length_append] at hslots₂
    have hslots : Numbered dialect.slot params.length (textSlots terms ++ textSlots inTerms)
        (predicateLiterals predicates inPredicates) := hslots₁.append hslots₂
    constructor
    · have hne : (clauseTerms dialect predicates inPredicates extraWhere params).isEmpty = false := by
        rw [← Bool.not_eq_true, List.isEmpty_iff]
        intro hnil
        simp only [clauseTerms, whereTerms, List.append_eq_nil_iff, List.map_eq_nil_iff,
          Option.toList_eq_nil_iff] at hnil
        obtain ⟨rfl, rfl, hnil⟩ := hnil
        exact hsome (by simp [hnone hnil])
      rw [whereShape, hne]
      simp [Sql.shape_join, hshape₁, hshape₂, hshape₃, clauseTerms, whereTerms, Function.comp_def]
    · have hholes : Sql.holes (" WHERE " ++ Sql.join " AND " (terms ++ (inTerms ++ extraTerm)) :
          Sql Value) = (textSlots terms ++ textSlots inTerms) ++ textSlots extraTerm := by
        simp [textSlots]
      rw [horder, hholes]
      constructor
      · rintro ⟨new, rfl, hnew⟩
        rw [List.length_append] at hnew
        exact ⟨predicateLiterals predicates inPredicates ++ new, List.append_assoc _ _ _,
          hslots.append hnew⟩
      · rintro ⟨all, rfl, hall⟩
        obtain ⟨new, rfl, hnew⟩ := hslots.of_append hall
        refine ⟨new, (List.append_assoc _ _ _).symm, ?_⟩
        rwa [List.length_append]

end

/-! ## Statements -/

/-- What a statement is to mean: its text, with the placeholders in the order of the parameters, and
    a clause that is a condition on its database and touches the rows that are wanted. -/
structure StatementMeans (dialect : Dialect) (table : String) (shape : Shape)
    (terms : List WhereTerm) (wanted : DmlEngine → Tuple → Bool) (out : CompiledQuery Value) :
    Prop where
  text : out.sql.shape = shape
  numbered : Numbered dialect.slot 0 out.sql.holes out.params
  touches : ∀ engine rows,
    touched dialect.family engine table terms rows = some (rows.filter (wanted engine))

/-- A statement with a clause between a part that binds `params` and one that binds nothing. -/
theorem statementMeans_iff {dialect : Dialect} (table : String) {params : List Value}
    {predicates : List DmlPredicate} {inPredicates : List DmlInPredicate}
    {extraWhere : Option DmlWhereCompiler} {head whereSql tail : Sql Value}
    {out : CompiledQuery Value} (hsql : out.sql = head ++ (whereSql ++ tail))
    (hhead : Numbered dialect.slot 0 head.holes params) (htail : tail.holes = [])
    (hwhere : appendDmlWhere dialect predicates inPredicates extraWhere params =
      .ok (whereSql, out.params)) :
    StatementMeans dialect table
        (head.shape ++ (whereShape dialect
          (clauseTerms dialect predicates inPredicates extraWhere params) ++ tail.shape))
        (clauseTerms dialect predicates inPredicates extraWhere params)
        (fun engine => satisfies engine table predicates inPredicates
          (extraShape dialect extraWhere (params ++ predicateLiterals predicates inPredicates)))
        out ↔
      (dialect.family = .sqlite ∨ ∀ p ∈ inPredicates, p.values ≠ []) ∧
        ExtraInOrder dialect extraWhere (params ++ predicateLiterals predicates inPredicates) := by
  obtain ⟨hshape, horder⟩ := appendDmlWhere_ok hwhere
  have hholes : out.sql.holes = head.holes ++ whereSql.holes := by
    rw [hsql, Sql.holes_append, Sql.holes_append, htail, List.append_nil]
  have hnumbered : Numbered dialect.slot 0 out.sql.holes out.params ↔
      ExtraInOrder dialect extraWhere (params ++ predicateLiterals predicates inPredicates) := by
    rw [horder, hholes]
    constructor
    · intro h
      obtain ⟨new, hparams, hnew⟩ := hhead.of_append h
      exact ⟨new, hparams, by rwa [Nat.zero_add] at hnew⟩
    · rintro ⟨new, hparams, hnew⟩
      rw [hparams]
      exact hhead.append (by rwa [Nat.zero_add])
  constructor
  · intro h
    exact ⟨(touched_iff table).mp h.touches, hnumbered.mp h.numbered⟩
  · rintro ⟨hboolean, hextra⟩
    refine ⟨?_, hnumbered.mpr hextra, (touched_iff table).mpr hboolean⟩
    rw [hsql, Sql.shape_append, Sql.shape_append, hshape]

theorem holes_appendReturning (dialect : Dialect) (returning : List DmlReturning) :
    (appendReturning dialect returning ++ ";" : Sql Value).holes = [] := by
  unfold appendReturning
  split
  · rfl
  · simp only [Sql.holes_append, Sql.holes_chars, List.nil_append, List.append_nil,
      holes_join_textSlots, textSlots, List.flatMap_map]
    refine List.flatMap_eq_nil_iff.mpr fun item _ => ?_
    cases item.aliasName <;> simp [quoted]

/-- The value that an assignment binds. -/
def DmlOperand.values : DmlOperand → List Value
  | .value v => [v]
  | .excluded _ => []

namespace UpdateNode

variable {dialect : Dialect} {params params' : List Value}

/-- The parameters of the SET clause. -/
def setParams (node : UpdateNode) : List Value := node.assignments.flatMap (·.value.values)

/-- The text of an assignment. -/
def assignmentShape (dialect : Dialect) (assignment : DmlAssignment) : Shape :=
  .inl (dialect.quoteIdentifier assignment.column) :: .inl " = " ::
    assignment.value.values.map .inr

/-- The conjuncts of the statement. -/
def terms (node : UpdateNode) (dialect : Dialect) : List WhereTerm :=
  clauseTerms dialect node.predicates node.inPredicates node.extraWhere node.setParams

/-- The text of the statement. -/
def shape (node : UpdateNode) (dialect : Dialect) : Shape :=
  [.inl "UPDATE ", .inl (dialect.quoteIdentifier node.table), .inl " SET "] ++
    separated ", " (node.assignments.map (assignmentShape dialect)) ++
    (whereShape dialect (node.terms dialect) ++
      (appendReturning dialect node.returning ++ ";" : Sql Value).shape)

/-- The parameters in front of the extra condition. -/
def paramsBefore (node : UpdateNode) : List Value :=
  node.setParams ++ predicateLiterals node.predicates node.inPredicates

/-- The statement updates just the rows that satisfy all predicates. -/
def Means (node : UpdateNode) (dialect : Dialect) (out : CompiledQuery Value) : Prop :=
  StatementMeans dialect node.table (node.shape dialect) (node.terms dialect)
    (fun engine => satisfies engine node.table node.predicates node.inPredicates
      (extraShape dialect node.extraWhere node.paramsBefore)) out

theorem compileAssignments_ok {assignments : List DmlAssignment} {texts : List (Sql Value)}
    (h : compileAssignments dialect assignments params = .ok (texts, params')) :
    texts.map Sql.shape = assignments.map (assignmentShape dialect) ∧
      params' = params ++ assignments.flatMap (·.value.values) ∧
      Numbered dialect.slot params.length (textSlots texts)
        (assignments.flatMap (·.value.values)) := by
  induction assignments generalizing params texts params' with
  | nil =>
    cases h
    exact ⟨rfl, (List.append_nil _).symm, .nil _⟩
  | cons assignment assignments ih =>
    obtain ⟨operand, params₁, hoperand, h⟩ := run_bind_ok h
    -- an operand that compiles is a value
    obtain ⟨column, v | column'⟩ := assignment
    · obtain ⟨hshape, rfl, hslot⟩ := bindLiteral_ok hoperand
      obtain ⟨rest, params₂, hrest, h⟩ := run_bind_ok h
      obtain ⟨hshapes, rfl, hslots⟩ := ih hrest
      cases h
      rw [List.length_append] at hslots
      exact ⟨by simp [quoted, hshape, hshapes, assignmentShape, DmlOperand.values],
        by simp [DmlOperand.values],
        by simpa [quoted, DmlOperand.values] using hslot.append hslots⟩
    · cases hoperand

/-- The parts of a statement that compiles. -/
theorem compile_ok {node : UpdateNode} {out : CompiledQuery Value}
    (h : node.compile dialect = .ok out) : ∃ texts params₁ whereSql,
      compileAssignments dialect node.assignments [] = .ok (texts, params₁) ∧
      appendDmlWhere dialect node.predicates node.inPredicates node.extraWhere params₁ =
        .ok (whereSql, out.params) ∧
      out.sql = ("UPDATE " ++ (quoted dialect node.table ++ (" SET " ++ Sql.join ", " texts)) :
        Sql Value) ++ (whereSql ++ (appendReturning dialect node.returning ++ ";")) := by
  unfold compile at h
  split at h
  · cases h
  · obtain ⟨⟨sql, params⟩, hbody, h⟩ := except_bind_ok h
    cases h
    obtain ⟨texts, params₁, htexts, hbody⟩ := run_bind_ok hbody
    obtain ⟨whereSql, params₂, hwhere, hbody⟩ := run_bind_ok hbody
    cases hbody
    exact ⟨texts, params₁, whereSql, htexts, hwhere, by simp only [Sql.append_assoc]⟩

theorem means_iff {node : UpdateNode} {out : CompiledQuery Value}
    (h : node.compile dialect = .ok out) : node.Means dialect out ↔
      (dialect.family = .sqlite ∨ ∀ p ∈ node.inPredicates, p.values ≠ []) ∧
        ExtraInOrder dialect node.extraWhere node.paramsBefore := by
  obtain ⟨texts, params₁, whereSql, htexts, hwhere, hsql⟩ := compile_ok h
  obtain ⟨hshapes, rfl, hslots⟩ := compileAssignments_ok htexts
  have hhead : Numbered dialect.slot 0
      (Sql.holes ("UPDATE " ++ (quoted dialect node.table ++ (" SET " ++ Sql.join ", " texts)) :
        Sql Value)) (node.assignments.flatMap (·.value.values)) := by
    simpa [quoted] using hslots
  have hmeans := statementMeans_iff node.table hsql hhead
    (holes_appendReturning dialect node.returning) hwhere
  have hshape : Sql.shape ("UPDATE " ++ (quoted dialect node.table ++
      (" SET " ++ Sql.join ", " texts)) : Sql Value) =
      [.inl "UPDATE ", .inl (dialect.quoteIdentifier node.table), .inl " SET "] ++
        separated ", " (node.assignments.map (assignmentShape dialect)) := by
    simp [quoted, Sql.shape_join, hshapes]
  rw [hshape] at hmeans
  exact hmeans

end UpdateNode

namespace DeleteNode

variable {dialect : Dialect}

/-- The conjuncts of the statement. -/
def terms (node : DeleteNode) (dialect : Dialect) : List WhereTerm :=
  clauseTerms dialect node.predicates node.inPredicates node.extraWhere []

/-- The text of the statement. -/
def shape (node : DeleteNode) (dialect : Dialect) : Shape :=
  [.inl "DELETE FROM ", .inl (dialect.quoteIdentifier node.table)] ++
    (whereShape dialect (node.terms dialect) ++
      (appendReturning dialect node.returning ++ ";" : Sql Value).shape)

/-- The parameters in front of the extra condition. -/
def paramsBefore (node : DeleteNode) : List Value :=
  predicateLiterals node.predicates node.inPredicates

/-- The statement deletes just the rows that satisfy all predicates. -/
def Means (node : DeleteNode) (dialect : Dialect) (out : CompiledQuery Value) : Prop :=
  StatementMeans dialect node.table (node.shape dialect) (node.terms dialect)
    (fun engine => satisfies engine node.table node.predicates node.inPredicates
      (extraShape dialect node.extraWhere node.paramsBefore)) out

theorem means_iff {node : DeleteNode} {out : CompiledQuery Value}
    (h : node.compile dialect = .ok out) : node.Means dialect out ↔
      (dialect.family = .sqlite ∨ ∀ p ∈ node.inPredicates, p.values ≠ []) ∧
        ExtraInOrder dialect node.extraWhere node.paramsBefore := by
  obtain ⟨⟨sql, params⟩, hbody, h⟩ := except_bind_ok h
  cases h
  obtain ⟨whereSql, params₁, hwhere, hbody⟩ := run_bind_ok hbody
  cases hbody
  have hhead : Numbered dialect.slot 0
      (Sql.holes ("DELETE FROM " ++ quoted dialect node.table : Sql Value)) [] := .nil 0
  exact statementMeans_iff node.table (by simp only [Sql.append_assoc]) hhead
    (holes_appendReturning dialect node.returning) hwhere

end DeleteNode

/-! ## Extra conditions -/

/-- The placeholders of an expression are in order if every call places its arguments in order. -/
theorem extraInOrder_dmlWhere {dialect : Dialect} {type : TypeIndex} {e : ExprNode Value}
    (h : e.everyCall (PlacedCall dialect.family)) (params : List Value) :
    ExtraInOrder dialect (some (dmlWhere type e)) params := by
  rintro _ ⟨⟩ sql params' hsql
  obtain ⟨rfl, slots, hslots, frag⟩ := compileExpression_emits _ e _ _ _ hsql
  rw [List.nil_append] at hslots
  exact ⟨_, rfl, hslots ▸ frag.numbered h⟩

end MetalOrm.Native.Query
