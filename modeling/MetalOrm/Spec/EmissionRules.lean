import MetalOrm.ForStd.Slots
import MetalOrm.Native.SelectCompiler

/-!
# What a compiler step emits

`Emits dialect x slots before new P D`: when the step `x` returns, it has pushed the
literals `new`, and the placeholders of its result are those of the text `before`
followed by a `Fragment` for `new`. The rules follow the structure of the `do` blocks of
the compiler.

## Key results

- `Emits.bind`, `Emits.lift`, `Emits.pure`: rules of the monad
- `emits_bindLiteral`, `emits_nest`: pushing a literal, splicing in a nested query
- `emits_renderFunction`, `emits_renderPostgresFunction`: what a function call does with
  the slots of its arguments
-/

namespace MetalOrm.Native.Query

open ForStd

variable {V α β : Type}

/-- How a dialect writes the placeholder of the `k`-th parameter. -/
def Dialect.slot (dialect : Dialect) (k : Nat) (p : Placeholder) : Prop :=
  dialect.placeholder k = .ok p

/-- Placeholders from left to right, each with the literal it stands for. -/
abbrev Slots (V : Type) := List (Placeholder × V)

/-- What a step pushes, and how that stands in its result. -/
def Emits (dialect : Dialect) (x : CompileM V α) (slots : α → Slots V) (before : Slots V)
    (new : List V) (P D : Prop) : Prop :=
  ∀ params a params', x params = .ok (a, params') → params' = params ++ new ∧
    ∃ rest, slots a = before ++ rest ∧ Fragment dialect.slot params.length rest new P D

/-! ## Steps of the compiler -/

theorem run_bind_ok {x : CompileM V α} {f : α → CompileM V β} {params : List V}
    {r : β × List V} (h : (x >>= f) params = .ok r) :
    ∃ a params', x params = .ok (a, params') ∧ f a params' = .ok r := by
  cases hx : x params with
  | error e => simp [bind, StateT.bind, hx, Except.bind] at h
  | ok p => exact ⟨p.1, p.2, rfl, by simpa [bind, StateT.bind, hx, Except.bind] using h⟩

theorem run_lift_ok {e : Except Exn α} {params params' : List V} {a : α}
    (h : (liftM e : CompileM V α) params = .ok (a, params')) : e = .ok a ∧ params' = params := by
  cases e with
  | error e => simp [liftM, monadLift, MonadLift.monadLift, StateT.lift, bind, Except.bind] at h
  | ok b =>
    simp only [liftM, monadLift, MonadLift.monadLift, StateT.lift, bind, Except.bind, pure,
      Except.pure, Except.ok.injEq, Prod.mk.injEq] at h
    exact ⟨by rw [h.1], h.2.symm⟩

namespace Emits

variable {dialect : Dialect} {x : CompileM V α} {f : α → CompileM V β} {slots : α → Slots V}
  {slots' : β → Slots V} {before : Slots V} {new new' : List V} {P P' D D' : Prop}

theorem pure {a : α} (h : slots a = before) :
    Emits dialect (pure a : CompileM V α) slots before [] True True := by
  intro params b params' hx
  cases hx
  exact ⟨by simp, [], by simp [h], .empty⟩

theorem bind (hx : Emits dialect x slots [] new P D)
    (hf : ∀ a, Emits dialect (f a) slots' (before ++ slots a) new' P' D') :
    Emits dialect (x >>= f) slots' before (new ++ new') (P ∧ P') (D ∧ D') := by
  intro params b params' h
  obtain ⟨a, params₁, ha, hb⟩ := run_bind_ok h
  obtain ⟨rfl, rest₁, h₁, frag₁⟩ := hx _ _ _ ha
  obtain ⟨rfl, rest₂, h₂, frag₂⟩ := hf a _ _ _ hb
  rw [List.length_append] at frag₂
  refine ⟨by simp, rest₁ ++ rest₂, ?_, frag₁.append frag₂⟩
  rw [h₂, h₁, List.nil_append, List.append_assoc]

/-- A step that neither pushes nor emits. -/
theorem lift {e : Except Exn α}
    (hf : ∀ a, e = .ok a → Emits dialect (f a) slots' before new P D) :
    Emits dialect ((liftM e : CompileM V α) >>= f) slots' before new P D := by
  intro params b params' h
  obtain ⟨a, params₁, ha, hb⟩ := run_bind_ok h
  obtain ⟨he, rfl⟩ := run_lift_ok ha
  exact hf a he _ _ _ hb

theorem throw {e : Exn} : Emits dialect (throw e : CompileM V α) slots before new P D := by
  intro params b params' h
  cases h

theorem congr (h : Emits dialect x slots before new P D) (hnew : new = new') (hP : P ↔ P')
    (hD : D' → D) : Emits dialect x slots before new' P' D' := by
  intro params a params' hx
  obtain ⟨hp, rest, hslots, frag⟩ := h _ _ _ hx
  exact ⟨hnew ▸ hp, rest, hslots, frag.congr hnew hP hD⟩

/-- The last step of a block: its result is what the block returns. -/
theorem of_eq {slots₀ : α → Slots V} (h : Emits dialect x slots₀ [] new P D)
    (hslots : ∀ a, slots a = before ++ slots₀ a) : Emits dialect x slots before new P D := by
  intro params a params' hx
  obtain ⟨hp, rest, hrest, frag⟩ := h _ _ _ hx
  exact ⟨hp, rest, by rw [hslots, hrest, List.nil_append], frag⟩

end Emits

/-! ## Literals and nested queries -/

theorem emits_bindLiteral (dialect : Dialect) (v : V) :
    Emits dialect (bindLiteral dialect v) Sql.holes [] [v] True True := by
  intro params sql params' h
  obtain ⟨_, _, hm, h⟩ := run_bind_ok h
  obtain ⟨_, _, hg, h⟩ := run_bind_ok h
  cases hm; cases hg
  obtain ⟨p, _, hp, h⟩ := run_bind_ok h
  obtain ⟨hplaceholder, hparams⟩ := run_lift_ok hp
  subst hparams
  cases h
  have hslot : dialect.slot (params.length + 1) p := by simpa [Dialect.slot] using hplaceholder
  exact ⟨rfl, _, rfl, .single hslot⟩

/-- The placeholders of a list of texts. -/
def textSlots (texts : List (Sql V)) : Slots V := texts.flatMap Sql.holes

@[simp] theorem textSlots_nil : textSlots ([] : List (Sql V)) = [] := rfl

@[simp] theorem textSlots_cons (sql : Sql V) (texts : List (Sql V)) :
    textSlots (sql :: texts) = sql.holes ++ textSlots texts := rfl

@[simp] theorem holes_join_textSlots (separator : String) (texts : List (Sql V)) :
    (Sql.join separator texts).holes = textSlots texts := Sql.holes_join separator texts

theorem emits_bindLiterals (dialect : Dialect) (values : List V) :
    Emits dialect (bindLiterals dialect values) textSlots [] values True True := by
  induction values with
  | nil => exact .pure rfl
  | cons v values ih =>
    unfold bindLiterals
    refine Emits.congr (.bind (emits_bindLiteral dialect v) fun text =>
      .bind ih fun texts => .pure ?_) (by simp) (by simp) (by simp)
    simp

/-- The placeholders of the text that is left out or spliced in. -/
def optionSlots : Option (Sql V) → Slots V
  | none => []
  | some sql => sql.holes

/-- What a compiler of a nested query pushes, in any dialect of a family. -/
def EmitsQuery (family : DialectFamily) (compile : Dialect → Except Exn (CompiledQuery V))
    (new : List V) (P D : Prop) : Prop :=
  ∀ dialect out, dialect.family = family → compile dialect = .ok out →
    out.params = new ∧ Fragment dialect.slot 0 out.sql.holes new P D

/-- A query behind `k` parameters is written as one that counts from zero. -/
theorem fragment_offset {dialect : Dialect} {k : Nat} {slots : Slots V} {new : List V}
    {P D : Prop} (h : Fragment (offsetPlaceholders dialect k).slot 0 slots new P D) :
    Fragment dialect.slot k slots new P D :=
  Fragment.shift (n := 0) h

theorem emits_nest {dialect : Dialect} {compile : Dialect → Except Exn (CompiledQuery V)}
    {new : List V} {P D : Prop} (h : EmitsQuery dialect.family compile new P D) :
    Emits dialect (nest dialect compile) Sql.holes [] new P D := by
  intro params sql params' hx
  obtain ⟨_, _, hg, hx⟩ := run_bind_ok hx
  cases hg
  obtain ⟨out, _, hc, hx⟩ := run_bind_ok hx
  obtain ⟨hc, hparams⟩ := run_lift_ok hc
  subst hparams
  cases hx
  obtain ⟨rfl, frag⟩ := h (offsetPlaceholders dialect _) out rfl hc
  exact ⟨rfl, out.sql.holes, rfl, fragment_offset frag⟩

/-! ## Function calls -/

/-- The functions of SQLite whose text has no place for arguments. -/
def constantFunctions : List String :=
  ["NOW", "CURRENT_DATE", "CURRENT_TIME", "UTC_NOW", "LOCAL_TIME", "LOCAL_TIMESTAMP", "RANDOM",
    "RAND"]

/-- The functions of SQLite that are written with their arguments the other way round. -/
def swappedFunctions : List String := ["POSITION", "LOCATE", "DATE_FORMAT"]

/-- A renderer keeps the placeholders of its arguments, in order. -/
def InOrder (r : Except Exn (Sql V)) (args : List (Sql V)) : Prop :=
  ∀ sql, r = .ok sql → sql.holes = textSlots args

namespace InOrder

variable {args : List (Sql V)} {r r' : Except Exn (Sql V)}

theorem ite {c : Prop} [Decidable c] (h : c → InOrder r args) (h' : ¬c → InOrder r' args) :
    InOrder (if c then r else r') args := by
  split
  · rename_i hc
    exact h hc
  · rename_i hc
    exact h' hc

theorem ok {sql : Sql V} (h : sql.holes = textSlots args) : InOrder (.ok sql) args := by
  intro _ hsql
  cases hsql
  exact h

theorem error {e : Exn} : InOrder (.error e : Except Exn (Sql V)) args := by
  intro _ h
  cases h

theorem one {message : String} {text : Sql V → Sql V} (h : ∀ a, (text a).holes = a.holes) :
    InOrder (Query.one message args text) args := by
  intro sql hsql
  unfold Query.one at hsql
  split at hsql
  · cases hsql
    simp [h]
  · cases hsql

theorem two {message : String} {text : Sql V → Sql V → Sql V}
    (h : ∀ a b, (text a b).holes = a.holes ++ b.holes) :
    InOrder (Query.two message args text) args := by
  intro sql hsql
  unfold Query.two at hsql
  split at hsql
  · cases hsql
    simp [h]
  · cases hsql

/-- A renderer of one argument that looks at more than the count. -/
theorem one_bind {message : String} {f : Sql V → Except Exn (Sql V)}
    (h : ∀ a, InOrder (f a) [a]) : InOrder (Query.one message args id >>= f) args := by
  intro sql hsql
  unfold Query.one at hsql
  split at hsql
  · rename_i a
    exact h a sql hsql
  · cases hsql

end InOrder

theorem renderFunction_constant {name fnName : String} {args : List (Sql V)} {sql : Sql V}
    (hname : name ∈ constantFunctions) (h : renderFunction name fnName args = .ok sql) :
    sql.holes = [] := by
  simp only [constantFunctions, List.mem_cons, List.not_mem_nil, or_false] at hname
  rcases hname with rfl | rfl | rfl | rfl | rfl | rfl | rfl | rfl <;>
    simp [renderFunction] at h <;> simp [← h]

theorem renderFunction_swapped {name fnName : String} {args : List (Sql V)} {sql : Sql V}
    (hname : name ∈ swappedFunctions) (h : renderFunction name fnName args = .ok sql) :
    ∃ a b, args = [a, b] ∧ sql.holes = b.holes ++ a.holes := by
  simp only [swappedFunctions, List.mem_cons, List.not_mem_nil, or_false] at hname
  rcases hname with rfl | rfl | rfl <;> simp [renderFunction, two] at h <;> split at h <;>
    simp at h <;> simp [← h]

/-- Every other function of SQLite is written with its arguments in order. -/
theorem renderFunction_inOrder {name fnName : String} {args : List (Sql V)}
    (hconstant : name ∉ constantFunctions) (hswapped : name ∉ swappedFunctions) :
    InOrder (renderFunction name fnName args) args := by
  have constant : ∀ s ∈ constantFunctions, ∀ r : Except Exn (Sql V), name = s → InOrder r args :=
    fun s hs _ h => absurd (h ▸ hs) hconstant
  have swapped : ∀ s ∈ swappedFunctions, ∀ r : Except Exn (Sql V), name = s → InOrder r args :=
    fun s hs _ h => absurd (h ▸ hs) hswapped
  unfold renderFunction
  -- one step a name, in the order of the source
  iterate 6 refine .ite (constant _ (by simp [constantFunctions]) _) fun _ => ?_
  refine .ite (fun _ => .ite (fun h => ?_) fun _ => .ok (by simp)) fun _ => ?_
  · exact .ok (by simp [List.isEmpty_iff.mp h])
  iterate 2 refine .ite (fun _ => .two fun a b => by simp) fun _ => ?_
  iterate 4 refine .ite (fun _ => .one fun a => by simp) fun _ => ?_
  refine .ite (fun h => h.elim (swapped _ (by simp [swappedFunctions]) _)
    (swapped _ (by simp [swappedFunctions]) _)) fun _ => ?_
  iterate 3 refine .ite (fun _ => .ok (by simp)) fun _ => ?_
  refine .ite (fun h => h.elim (constant _ (by simp [constantFunctions]) _)
    (constant _ (by simp [constantFunctions]) _)) fun _ => ?_
  refine .ite (fun _ => .two fun a b => by simp) fun _ => ?_
  iterate 4 refine .ite (fun _ => .one fun a => by simp) fun _ => ?_
  refine .ite (fun _ => .two fun a b => by simp) fun _ => ?_
  refine .ite (swapped _ (by simp [swappedFunctions]) _) fun _ => ?_
  refine .ite (fun _ => .ite (fun h => ?_) fun _ => .one fun a => by simp) fun _ => ?_
  · exact .ok (by simp [List.isEmpty_iff.mp h])
  iterate 2 refine .ite (fun _ => .one fun a => by simp) fun _ => ?_
  refine .ite (fun _ => .two fun a b => by simp) fun _ => ?_
  refine .ite (fun _ => .one_bind fun a => ?_) fun _ => ?_
  · exact .ite (fun _ => .error) fun _ => .ite (fun _ => .ok (by simp)) fun _ => .ok (by simp)
  refine .ite (fun _ => .one_bind fun a => ?_) fun _ => ?_
  · split
    · exact .ok (by simp)
    · exact .error
  refine .ite (fun _ => .two fun a b => by simp) fun _ => ?_
  refine .ite (fun _ => .ite (fun _ => .error) fun _ => .ok (by simp)) fun _ => ?_
  refine .ite (fun _ => .one fun a => by simp) fun _ => ?_
  exact .ok (by simp)

theorem InOrder.none {functionName text : String} {args : List (Sql V)} :
    InOrder (expectNone functionName args text) args := by
  unfold expectNone
  split
  · exact .ok (by simp)
  · exact .error

/-- Every function of PostgreSQL is written with its arguments in order. -/
theorem renderPostgresFunction_inOrder (name fnName : String) (args : List (Sql V)) :
    InOrder (renderPostgresFunction name fnName args) args := by
  unfold renderPostgresFunction expectOne expectTwo
  iterate 6 refine .ite (fun _ => .none) fun _ => ?_
  iterate 2 refine .ite (fun _ => .two fun a b => by simp) fun _ => ?_
  refine .ite (fun _ => .ok (by simp)) fun _ => ?_
  refine .ite (fun _ => ?_) fun _ => ?_
  · split
    · exact .ok (by simp)
    · exact .ok (by simp)
    · exact .error
  refine .ite (fun _ => .none) fun _ => ?_
  refine .ite (fun _ => .two fun a b => by simp) fun _ => ?_
  refine .ite (fun _ => .one fun a => by simp) fun _ => ?_
  iterate 2 refine .ite (fun _ => .two fun a b => by simp) fun _ => ?_
  refine .ite (fun _ => .ite (fun h => ?_) fun _ => .one fun a => by simp) fun _ => ?_
  · exact .ok (by simp [List.isEmpty_iff.mp h])
  iterate 2 refine .ite (fun _ => .one fun a => by simp) fun _ => ?_
  refine .ite (fun _ => .two fun a b => by simp) fun _ => ?_
  iterate 2 refine .ite (fun _ => .one fun a => by simp) fun _ => ?_
  refine .ite (fun _ => .two fun a b => by simp) fun _ => ?_
  iterate 2 refine .ite (fun _ => .one fun a => by simp) fun _ => ?_
  exact .ok (by simp)

end MetalOrm.Native.Query
