import MetalOrm.ForStd.HeapGraph
import MetalOrm.Native.QueryHeap

/-!
# Aliases of query objects

A builder method changes the state that its query points to, so it changes every query from
which that state can be reached: the copies of its query, and those that hold it in a
closure. A query that is put into its own closures is never compiled to the end.

## Key results

- `next_cases`: what a builder call does to the heap
- `resolve_frame`: a query is what it was when the states it leads to are
- `compile_unchanged`: calls on states that a query does not lead to
- `compile_terminates`: calls that do not close a cycle
- `copy_changes_original`, `union_with_itself`: what happens otherwise
-/

open Relation (ReflTransGen)

namespace MetalOrm.Native.Query

open ForStd

variable {V : Type}

/-! ## Resolving captured queries -/

theorem mapM_congr {α β : Type} {f g : α → Option β} {l : List α} (h : ∀ a ∈ l, f a = g a) :
    l.mapM f = l.mapM g := by
  induction l with
  | nil => rfl
  | cons a l ih =>
    rw [List.mapM_cons, List.mapM_cons, h a List.mem_cons_self,
      ih fun b hb => h b (List.mem_cons_of_mem a hb)]

theorem mapM_isSome {α β : Type} {f : α → Option β} {l : List α} (h : ∀ a ∈ l, (f a).isSome) :
    (l.mapM f).isSome := by
  induction l with
  | nil => rfl
  | cons a l ih =>
    obtain ⟨b, hb⟩ := Option.isSome_iff_exists.mp (h a List.mem_cons_self)
    obtain ⟨bs, hbs⟩ :=
      Option.isSome_iff_exists.mp (ih fun b hb => h b (List.mem_cons_of_mem a hb))
    simp [List.mapM_cons, hb, hbs]

theorem optionMapM_congr {α β : Type} {f g : α → Option β} {o : Option α}
    (h : ∀ a ∈ o, f a = g a) : o.mapM f = o.mapM g := by
  cases o with
  | none => rfl
  | some a => simp [Option.mapM, h a rfl]

theorem optionMapM_isSome {α β : Type} {f : α → Option β} {o : Option α}
    (h : ∀ a ∈ o, (f a).isSome) : (o.mapM f).isSome := by
  cases o with
  | none => rfl
  | some a =>
    obtain ⟨b, hb⟩ := Option.isSome_iff_exists.mp (h a rfl)
    simp [Option.mapM, hb]

section Resolve

variable {α : Type} {find find' : QueryHandle → Option (SelectQuery V)}

theorem Capturing.mem_handles (value : Capturing V α) (i : Fin value.count) :
    value.queries i ∈ value.handles :=
  List.mem_ofFn.mpr ⟨i, rfl⟩

theorem Capturing.resolve_congr {value : Capturing V α}
    (h : ∀ query ∈ value.handles, find query = find' query) :
    value.resolve find = value.resolve find' := by
  have hfind : (fun i => find (value.queries i)) = fun i => find' (value.queries i) :=
    funext fun i => h _ (value.mem_handles i)
  have hget : ∀ g g' : Fin value.count → Option (SelectQuery V), g = g' →
      (if h : ∀ i, (g i).isSome then some (value.build fun i => (g i).get (h i)) else none) =
        if h : ∀ i, (g' i).isSome then some (value.build fun i => (g' i).get (h i)) else none := by
    rintro g _ rfl
    rfl
  exact hget _ _ hfind

theorem Capturing.resolve_isSome {value : Capturing V α}
    (h : ∀ query ∈ value.handles, (find query).isSome) : (value.resolve find).isSome := by
  have hall : ∀ i, (find (value.queries i)).isSome := fun i => h _ (value.mem_handles i)
  simp [Capturing.resolve, hall]

namespace SelectState

variable {state : SelectState V}

theorem mem_captures {query : QueryHandle} :
    query ∈ state.captures ↔
      (∃ projection ∈ state.projections, query ∈ projection.handles) ∨
      (∃ expression ∈ state.where_, query ∈ expression.handles) ∨
      (∃ expression ∈ state.having, query ∈ expression.handles) ∨
      (∃ derived ∈ state.derivedSource, derived.query = query) ∨
      (∃ cte ∈ state.ctes, cte.query = query) ∨
      ∃ operation ∈ state.setOperations, operation.query = query := by
  simp [captures]

/-- A state is what the queries that it holds are. -/
theorem resolve_congr (h : ∀ query ∈ state.captures, find query = find' query)
    (root : EntityInfo) : state.resolve find root = state.resolve find' root := by
  simp only [mem_captures] at h
  have hprojections : state.projections.mapM (·.resolve find) =
      state.projections.mapM (·.resolve find') :=
    mapM_congr fun a ha => Capturing.resolve_congr fun q hq => h q (.inl ⟨a, ha, hq⟩)
  have hwhere : state.where_.mapM (·.resolve find) = state.where_.mapM (·.resolve find') :=
    optionMapM_congr fun a ha => Capturing.resolve_congr fun q hq => h q (.inr (.inl ⟨a, ha, hq⟩))
  have hhaving : state.having.mapM (·.resolve find) = state.having.mapM (·.resolve find') :=
    optionMapM_congr fun a ha => Capturing.resolve_congr fun q hq =>
      h q (.inr (.inr (.inl ⟨a, ha, hq⟩)))
  have hderived : state.derivedSource.mapM (·.resolve find) =
      state.derivedSource.mapM (·.resolve find') :=
    optionMapM_congr fun a ha =>
      congrArg (Option.map _) (h a.query (.inr (.inr (.inr (.inl ⟨a, ha, rfl⟩)))))
  have hctes : state.ctes.mapM (·.resolve find) = state.ctes.mapM (·.resolve find') :=
    mapM_congr fun a ha =>
      congrArg (Option.map _) (h a.query (.inr (.inr (.inr (.inr (.inl ⟨a, ha, rfl⟩))))))
  have hoperations : state.setOperations.mapM (·.resolve find) =
      state.setOperations.mapM (·.resolve find') :=
    mapM_congr fun a ha =>
      congrArg (Option.map _) (h a.query (.inr (.inr (.inr (.inr (.inr ⟨a, ha, rfl⟩))))))
  simp only [resolve, hprojections, hwhere, hhaving, hderived, hctes, hoperations]

/-- A state is compiled to the end when the queries that it holds are. -/
theorem resolve_isSome (h : ∀ query ∈ state.captures, (find query).isSome) (root : EntityInfo) :
    (state.resolve find root).isSome := by
  simp only [mem_captures] at h
  have hprojections : (state.projections.mapM (Capturing.resolve find)).isSome :=
    mapM_isSome fun a ha => Capturing.resolve_isSome fun q hq => h q (.inl ⟨a, ha, hq⟩)
  have hwhere : (state.where_.mapM (Capturing.resolve find)).isSome :=
    optionMapM_isSome fun a ha =>
      Capturing.resolve_isSome fun q hq => h q (.inr (.inl ⟨a, ha, hq⟩))
  have hhaving : (state.having.mapM (Capturing.resolve find)).isSome :=
    optionMapM_isSome fun a ha =>
      Capturing.resolve_isSome fun q hq => h q (.inr (.inr (.inl ⟨a, ha, hq⟩)))
  have hderived : (state.derivedSource.mapM (DerivedSourceRef.resolve find)).isSome :=
    optionMapM_isSome fun a ha => by
      simpa [DerivedSourceRef.resolve] using h a.query (.inr (.inr (.inr (.inl ⟨a, ha, rfl⟩))))
  have hctes : (state.ctes.mapM (CteRef.resolve find)).isSome :=
    mapM_isSome fun a ha => by
      simpa [CteRef.resolve] using h a.query (.inr (.inr (.inr (.inr (.inl ⟨a, ha, rfl⟩)))))
  have hoperations : (state.setOperations.mapM (SetOperationRef.resolve find)).isSome :=
    mapM_isSome fun a ha => by
      simpa [SetOperationRef.resolve] using
        h a.query (.inr (.inr (.inr (.inr (.inr ⟨a, ha, rfl⟩)))))
  simp only [Option.isSome_iff_exists] at *
  obtain ⟨_, hprojections⟩ := hprojections
  obtain ⟨_, hwhere⟩ := hwhere
  obtain ⟨_, hhaving⟩ := hhaving
  obtain ⟨_, hderived⟩ := hderived
  obtain ⟨_, hctes⟩ := hctes
  obtain ⟨_, hoperations⟩ := hoperations
  simp [resolve, hprojections, hwhere, hhaving, hderived, hctes, hoperations]

end SelectState

end Resolve

/-! ## The graph of captured queries -/

namespace QueryHeap

/-- A closure of the state `a` holds a query that points to the state `b`. -/
def Captures (heap : QueryHeap V) (a b : Nat) : Prop :=
  ∃ query ∈ (heap.states a).captures, query.state = b

/-- The state `b` is looked at when a query that points to `a` is compiled. -/
def Reaches (heap : QueryHeap V) : Nat → Nat → Prop := ReflTransGen heap.Captures

/-- No closure holds a query that has not been made. -/
def Closed (heap : QueryHeap V) : Prop := ∀ a b, heap.Captures a b → b < heap.count

theorem Closed.reaches {heap : QueryHeap V} (h : heap.Closed) {a b : Nat} (ha : a < heap.count)
    (hab : heap.Reaches a b) : b < heap.count := by
  induction hab with
  | refl => exact ha
  | tail _ hb => exact h _ _ hb

/-- A query is what it was when the states that it leads to are what they were. -/
theorem resolve_frame {heap heap' : QueryHeap V} (depth : Nat) {query : QueryHandle}
    (h : ∀ a, heap.Reaches query.state a → heap'.states a = heap.states a) :
    heap'.resolve depth query = heap.resolve depth query := by
  induction depth generalizing query with
  | zero => rfl
  | succ depth ih =>
    simp only [resolve]
    rw [h query.state .refl]
    apply SelectState.resolve_congr
    intro sub hsub
    exact ih fun a ha => h a (.head ⟨sub, hsub, rfl⟩ ha)

end QueryHeap

/-! ## Builder calls -/

namespace BuilderCall

/-- A builder method that does not throw. -/
theorem update_eq_ok {heap heap' : QueryHeap V} {query : QueryHandle}
    {method : SelectState V → Except Exn (SelectState V)} :
    heap.update query method = .ok heap' ↔ ∃ state, method (heap.states query.state) = .ok state ∧
      heap' = { heap with states := Function.update heap.states query.state state } := by
  unfold QueryHeap.update
  cases method (heap.states query.state) with
  | error e => simp [bind, Except.bind]
  | ok state => simp [bind, Except.bind, pure, Except.pure, eq_comm]

/-- What a call does to the heap: the state of its receiver changes, and holds what it held and
    what the call puts into closures; or there is a new state, which holds what the original
    holds. -/
inductive Effect (heap : QueryHeap V) (call : BuilderCall V) : QueryHeap V → Prop where
  | changed (query : QueryHandle) (state : SelectState V) (hreceiver : call.receiver = some query)
      (hcaptures : state.captures ⊆ (heap.states query.state).captures ++ call.captured) :
      Effect heap call { heap with states := Function.update heap.states query.state state }
  | made (state : SelectState V) (hreceiver : call.receiver = none)
      (hcaptures : ∀ query ∈ state.captures, ∃ original, call.original = some original ∧
        query ∈ (heap.states original.state).captures) :
      Effect heap call (heap.alloc state)

theorem changed_of_update {heap heap' : QueryHeap V} {call : BuilderCall V} {query : QueryHandle}
    {method : SelectState V → Except Exn (SelectState V)} (h : heap.update query method = .ok heap')
    (hreceiver : call.receiver = some query)
    (hcaptures : ∀ state, method (heap.states query.state) = .ok state →
      state.captures ⊆ (heap.states query.state).captures ++ call.captured) :
    Effect heap call heap' := by
  obtain ⟨state, hstate, rfl⟩ := update_eq_ok.mp h
  exact .changed query state hreceiver (hcaptures state hstate)

theorem run_effect {heap heap' : QueryHeap V} {call : BuilderCall V}
    (h : call.run heap = .ok heap') : Effect heap call heap' := by
  cases call with
  | select =>
    cases h
    exact .made _ rfl (by simp [SelectState.captures])
  | withoutPagination query =>
    cases h
    exact .made _ rfl fun c hc => ⟨query, rfl, hc⟩
  | join query spec =>
    cases h
    exact .made _ rfl fun c hc => ⟨query, rfl, hc⟩
  | distinct query _ | groupBy query _ | orderBy query _ | limit query _ | offset query _ =>
    simp only [run] at h
    apply changed_of_update h rfl
    intro state hstate
    cases hstate
    exact List.subset_append_left _ _
  | clearProjection query =>
    simp only [run] at h
    apply changed_of_update h rfl
    intro state hstate
    cases hstate
    intro c
    simp only [SelectState.mem_captures, List.mem_append]
    grind
  | where_ query expression | having query expression | project query expression =>
    simp only [run] at h
    apply changed_of_update h rfl
    intro state hstate
    cases hstate
    intro c
    simp only [SelectState.mem_captures, List.mem_append, captured]
    grind
  | from_ query sourceName =>
    simp only [run] at h
    split at h
    · cases h
    · apply changed_of_update h rfl
      intro state hstate
      cases hstate
      intro c
      simp only [SelectState.mem_captures, List.mem_append]
      grind
  | joinCte query spec =>
    simp only [run] at h
    split at h
    · cases h
    · apply changed_of_update h rfl
      intro state hstate
      cases hstate
      exact List.subset_append_left _ _
  | fromSubquery query sub aliasName columnAliases =>
    simp only [run] at h
    apply changed_of_update h rfl
    intro state hstate
    unfold fromDerived at hstate
    split at hstate
    · cases hstate
    · split at hstate
      · cases hstate
      · cases hstate
        intro c
        simp only [SelectState.mem_captures, List.mem_append, captured]
        grind
  | with_ query name cte columns recursive =>
    simp only [run] at h
    apply changed_of_update h rfl
    intro state hstate
    unfold addCte at hstate
    split at hstate
    · cases hstate
    · split at hstate
      · cases hstate
      · cases hstate
        intro c
        simp only [SelectState.mem_captures, List.mem_append, captured]
        grind
  | setOperation query kind operand =>
    simp only [run] at h
    apply changed_of_update h rfl
    intro state hstate
    unfold addSetOperation at hstate
    split at hstate
    · cases hstate
    · cases hstate
      intro c
      simp only [SelectState.mem_captures, List.mem_append, captured]
      grind

/-- A call has an effect, or nothing happens. -/
theorem next_cases (heap : QueryHeap V) (call : BuilderCall V) :
    next heap call = heap ∨ call.Known heap ∧ Effect heap call (next heap call) := by
  unfold next
  split
  · rename_i hknown
    cases hrun : call.run heap with
    | error e => exact .inl rfl
    | ok heap' => exact .inr ⟨hknown, run_effect hrun⟩
  · exact .inl rfl

theorem closed_next {heap : QueryHeap V} (h : heap.Closed) (call : BuilderCall V) :
    (next heap call).Closed ∧ heap.count ≤ (next heap call).count := by
  cases next_cases heap call with
  | inl hsame =>
    rw [hsame]
    exact ⟨h, Nat.le_refl _⟩
  | inr heffect =>
    obtain ⟨hknown, heffect⟩ := heffect
    generalize next heap call = heap' at heffect ⊢
    cases heffect with
    | changed query state hreceiver hcaptures =>
      refine ⟨?_, Nat.le_refl _⟩
      rintro a b ⟨c, hc, rfl⟩
      by_cases ha : a = query.state
      · simp only [ha, Function.update_self] at hc
        cases List.mem_append.mp (hcaptures hc) with
        | inl hold => exact h _ _ ⟨c, hold, rfl⟩
        | inr hnew => exact hknown c (List.mem_append_right _ hnew)
      · simp only [Function.update_of_ne ha] at hc
        exact h _ _ ⟨c, hc, rfl⟩
    | made state hreceiver hcaptures =>
      refine ⟨?_, Nat.le_succ _⟩
      rintro a b ⟨c, hc, rfl⟩
      apply Nat.lt_succ_of_lt
      by_cases ha : a = heap.count
      · simp only [QueryHeap.alloc, ha, Function.update_self] at hc
        obtain ⟨original, -, hold⟩ := hcaptures c hc
        exact h _ _ ⟨c, hold, rfl⟩
      · simp only [QueryHeap.alloc, Function.update_of_ne ha] at hc
        exact h _ _ ⟨c, hc, rfl⟩

/-! ## Frames -/

/-- A call changes no state that a query leads to. -/
def Spares (query : QueryHandle) (heap : QueryHeap V) (call : BuilderCall V) : Prop :=
  ∀ receiver, call.receiver = some receiver → ¬ heap.Reaches query.state receiver.state

theorem resolve_next {heap : QueryHeap V} (hheap : heap.Closed) {query : QueryHandle}
    (hquery : query.state < heap.count) {call : BuilderCall V} (hcall : call.Spares query heap)
    (depth : Nat) : (next heap call).resolve depth query = heap.resolve depth query := by
  cases next_cases heap call with
  | inl hsame => rw [hsame]
  | inr heffect =>
    obtain ⟨hknown, heffect⟩ := heffect
    generalize next heap call = heap' at heffect ⊢
    apply QueryHeap.resolve_frame
    intro a ha
    cases heffect with
    | changed receiver state hreceiver hcaptures =>
      apply Function.update_of_ne
      intro heq
      exact hcall receiver hreceiver (heq ▸ ha)
    | made state hreceiver hcaptures =>
      apply Function.update_of_ne
      exact Nat.ne_of_lt (hheap.reaches hquery ha)

/-- Calls on states that the queries of a value do not lead to: the value (a query, or a query
    with relation filters) is compiled as it was before them. -/
theorem compile_unchanged {heap : QueryHeap V} (hheap : heap.Closed)
    {value : Capturing V (CorrelatedQuery V)}
    (hvalue : ∀ query ∈ value.handles, query.state < heap.count) {calls : List (BuilderCall V)}
    (hcalls : AlongEvents next
      (fun heap call => ∀ query ∈ value.handles, call.Spares query heap) heap calls)
    (depth : Nat) (dialect : Dialect) :
    (runEvents next heap calls).compileCapturing depth value dialect =
      heap.compileCapturing depth value dialect := by
  let same (s : QueryHeap V) : Prop := s.Closed ∧ heap.count ≤ s.count ∧
    ∀ query ∈ value.handles, s.resolve depth query = heap.resolve depth query
  have hstep : ∀ s call, same s → (∀ query ∈ value.handles, call.Spares query s) →
      same (next s call) := by
    intro s call hs hcall
    obtain ⟨hclosed, hcount⟩ := closed_next hs.1 call
    refine ⟨hclosed, Nat.le_trans hs.2.1 hcount, ?_⟩
    intro query hquery
    have hknown := Nat.lt_of_lt_of_le (hvalue query hquery) hs.2.1
    rw [resolve_next hs.1 hknown (hcall query hquery), hs.2.2 query hquery]
  have hrun : same (runEvents next heap calls) :=
    hcalls.invariant hstep ⟨hheap, Nat.le_refl _, fun _ _ => rfl⟩
  exact congrArg (Option.map _) (Capturing.resolve_congr hrun.2.2)

/-! ## Termination -/

/-- A call does not put a query into the closures of a state that it leads to. -/
def ClosesNoCycle (heap : QueryHeap V) (call : BuilderCall V) : Prop :=
  ∀ receiver, call.receiver = some receiver →
    ∀ query ∈ call.captured, ¬ heap.Reaches query.state receiver.state

theorem acc_next {heap : QueryHeap V} (hheap : heap.Closed)
    (hacc : ∀ a, Acc (fun b a => heap.Captures a b) a) {call : BuilderCall V}
    (hcall : call.ClosesNoCycle heap) (a : Nat) :
    Acc (fun b a => (next heap call).Captures a b) a := by
  cases next_cases heap call with
  | inl hsame =>
    rw [hsame]
    exact hacc a
  | inr heffect =>
    obtain ⟨hknown, heffect⟩ := heffect
    generalize next heap call = heap' at heffect ⊢
    cases heffect with
    | changed query state hreceiver hcaptures =>
      apply acc_redirect (R := heap.Captures) (r := query.state) ?_ ?_ hacc
      · rintro a b ha ⟨c, hc, rfl⟩
        simp only [Function.update_of_ne ha] at hc
        exact ⟨c, hc, rfl⟩
      · rintro b ⟨c, hc, rfl⟩
        simp only [Function.update_self] at hc
        cases List.mem_append.mp (hcaptures hc) with
        | inl hold => exact not_reaches_of_acc (hacc query.state) ⟨c, hold, rfl⟩
        | inr hnew => exact hcall query hreceiver c hnew
    | made state hreceiver hcaptures =>
      apply acc_redirect (R := heap.Captures) (r := heap.count) ?_ ?_ hacc
      · rintro a b ha ⟨c, hc, rfl⟩
        simp only [QueryHeap.alloc, Function.update_of_ne ha] at hc
        exact ⟨c, hc, rfl⟩
      · rintro b ⟨c, hc, rfl⟩ hreach
        simp only [QueryHeap.alloc, Function.update_self] at hc
        obtain ⟨original, -, hold⟩ := hcaptures c hc
        exact Nat.lt_irrefl _ (hheap.reaches (hheap _ _ ⟨c, hold, rfl⟩) hreach)

/-- From some depth on, a query is compiled to the end, and always to the same. -/
def Settles (heap : QueryHeap V) (query : QueryHandle) (depth : Nat) : Prop :=
  ∃ tree, ∀ deeper, depth ≤ deeper → heap.resolve deeper query = some tree

theorem Settles.mono {heap : QueryHeap V} {query : QueryHandle} {depth depth' : Nat}
    (h : Settles heap query depth) (hle : depth ≤ depth') : Settles heap query depth' := by
  obtain ⟨tree, htree⟩ := h
  exact ⟨tree, fun deeper hdeeper => htree deeper (Nat.le_trans hle hdeeper)⟩

theorem Settles.eq {heap : QueryHeap V} {query : QueryHandle} {depth : Nat}
    (h : Settles heap query depth) {deeper : Nat} (hdeeper : depth ≤ deeper) :
    heap.resolve deeper query = heap.resolve depth query := by
  obtain ⟨tree, htree⟩ := h
  rw [htree deeper hdeeper, htree depth (Nat.le_refl _)]

theorem Settles.isSome {heap : QueryHeap V} {query : QueryHandle} {depth : Nat}
    (h : Settles heap query depth) : (heap.resolve depth query).isSome := by
  obtain ⟨tree, htree⟩ := h
  rw [htree depth (Nat.le_refl _)]
  rfl

/-- Finitely many queries that settle do so at a common depth. -/
theorem exists_settles {heap : QueryHeap V} {queries : List QueryHandle}
    (h : ∀ query ∈ queries, ∃ depth, Settles heap query depth) :
    ∃ depth, ∀ query ∈ queries, Settles heap query depth := by
  induction queries with
  | nil => exact ⟨0, by simp⟩
  | cons query queries ih =>
    obtain ⟨depth, hdepth⟩ := h query List.mem_cons_self
    obtain ⟨depth', hdepth'⟩ := ih fun q hq => h q (List.mem_cons_of_mem _ hq)
    refine ⟨max depth depth', ?_⟩
    intro q hq
    cases List.mem_cons.mp hq with
    | inl heq => exact heq ▸ hdepth.mono (Nat.le_max_left _ _)
    | inr hmem => exact (hdepth' q hmem).mono (Nat.le_max_right _ _)

/-- A query from which no infinite path of closures begins settles. -/
theorem settles_of_acc {heap : QueryHeap V} {a : Nat}
    (h : Acc (fun b a => heap.Captures a b) a) (root : EntityInfo) :
    ∃ depth, Settles heap ⟨root, a⟩ depth := by
  induction h generalizing root with
  | intro a _ ih =>
    obtain ⟨depth, hdepth⟩ : ∃ depth, ∀ query ∈ (heap.states a).captures,
        Settles heap query depth := by
      apply exists_settles
      intro query hquery
      exact ih query.state ⟨query, hquery, rfl⟩ query.root
    have hsome : ((heap.states a).resolve (heap.resolve depth) root).isSome :=
      SelectState.resolve_isSome (fun query hquery => (hdepth query hquery).isSome) root
    obtain ⟨tree, htree⟩ := Option.isSome_iff_exists.mp hsome
    refine ⟨depth + 1, tree, ?_⟩
    intro deeper hdeeper
    obtain ⟨deeper, rfl⟩ := Nat.exists_eq_succ_of_ne_zero (Nat.ne_of_gt
      (Nat.lt_of_lt_of_le (Nat.succ_pos depth) hdeeper))
    rw [← htree]
    exact SelectState.resolve_congr
      (fun query hquery => (hdepth query hquery).eq (Nat.le_of_succ_le_succ hdeeper)) root

/-- The queries that a program has made close no cycle. -/
theorem acc_run {calls : List (BuilderCall V)}
    (hcalls : AlongEvents next (fun heap call => call.ClosesNoCycle heap) QueryHeap.empty calls)
    (a : Nat) :
    Acc (fun b a => (runEvents next QueryHeap.empty calls).Captures a b) a := by
  have hempty : ∀ a b, ¬ (QueryHeap.empty : QueryHeap V).Captures a b := by
    rintro a b ⟨c, hc, -⟩
    simp [QueryHeap.empty, SelectState.captures] at hc
  let sound (s : QueryHeap V) : Prop := s.Closed ∧ ∀ a, Acc (fun b a => s.Captures a b) a
  have hrun : sound (runEvents next QueryHeap.empty calls) := by
    apply hcalls.invariant (I := sound)
    · intro s call hs hcall
      exact ⟨(closed_next hs.1 call).1, acc_next hs.1 hs.2 hcall⟩
    · exact ⟨fun a b h => absurd h (hempty a b), fun a => ⟨a, fun b h => absurd h (hempty a b)⟩⟩
  exact hrun.2 a

/-- In every run of calls that close no cycle: whatever holds queries is compiled to the end,
    and deeper nesting makes no difference. -/
theorem compile_terminates {calls : List (BuilderCall V)}
    (hcalls : AlongEvents next (fun heap call => call.ClosesNoCycle heap) QueryHeap.empty calls)
    (value : Capturing V (CorrelatedQuery V)) (dialect : Dialect) :
    ∃ result depth, ∀ deeper, depth ≤ deeper →
      (runEvents next QueryHeap.empty calls).compileCapturing deeper value dialect =
        some result := by
  have hacc := acc_run hcalls
  generalize runEvents next QueryHeap.empty calls = heap at hacc ⊢
  obtain ⟨depth, hdepth⟩ : ∃ depth, ∀ query ∈ value.handles, Settles heap query depth :=
    exists_settles fun query _ => settles_of_acc (hacc query.state) query.root
  have hsome : (value.resolve (heap.resolve depth)).isSome :=
    Capturing.resolve_isSome fun query hquery => (hdepth query hquery).isSome
  obtain ⟨tree, htree⟩ := Option.isSome_iff_exists.mp hsome
  refine ⟨tree.compile dialect, depth, ?_⟩
  intro deeper hdeeper
  have hsame : value.resolve (heap.resolve deeper) = value.resolve (heap.resolve depth) :=
    Capturing.resolve_congr fun query hquery => (hdepth query hquery).eq hdeeper
  rw [QueryHeap.compileCapturing, hsame, htree]
  rfl

/-! ## Two queries -/

/-- `compile` of a plain query. -/
theorem compileCapturing_basic (heap : QueryHeap V) (depth : Nat) (query : QueryHandle)
    (dialect : Dialect) :
    heap.compileCapturing depth (.query query .basic) dialect =
      heap.compile depth query dialect := by
  unfold QueryHeap.compileCapturing QueryHeap.compile Capturing.resolve Capturing.query
  cases h : heap.resolve depth query with
  | none => simp [h]
  | some tree =>
    simp [h]
    rfl

private def users : EntityInfo := ⟨0, "users", ["id", "name"]⟩

private def usersQuery (state : Nat) : QueryHandle := ⟨users, state⟩

/-- The heap after two calls of `select`. -/
private def twoQueries : QueryHeap Value := runEvents next QueryHeap.empty [.select, .select]

private theorem twoQueries_closed : twoQueries.Closed := by
  have hempty : (QueryHeap.empty : QueryHeap Value).Closed := by
    rintro a b ⟨c, hc, -⟩
    simp [QueryHeap.empty, SelectState.captures] at hc
  exact (closed_next (closed_next hempty .select).1 .select).1

private theorem twoQueries_reaches {a b : Nat} (h : twoQueries.Reaches a b) : a = b := by
  have hnone : (twoQueries.states a).captures = [] := by
    rcases a with _ | _ | a <;> rfl
  cases h.cases_head with
  | inl heq => exact heq
  | inr hstep =>
    obtain ⟨_, ⟨c, hc, -⟩, -⟩ := hstep
    rw [hnone] at hc
    cases hc

theorem compile_unchanged_limit :
    (runEvents next twoQueries [.limit (usersQuery 1) 10]).compileCapturing 1
        (.query (usersQuery 0) .basic) sqliteDialect =
      twoQueries.compileCapturing 1 (.query (usersQuery 0) .basic) sqliteDialect := by
  apply compile_unchanged twoQueries_closed
  · intro query hquery
    cases List.mem_singleton.mp hquery
    decide
  · refine ⟨?_, trivial⟩
    intro query hquery receiver hreceiver
    cases List.mem_singleton.mp hquery
    cases hreceiver
    exact fun h => nomatch twoQueries_reaches h

theorem compile_terminates_union :
    ∃ result depth, ∀ deeper, depth ≤ deeper →
      (runEvents next (QueryHeap.empty : QueryHeap Value)
        [.select, .select, .setOperation (usersQuery 0) .union (usersQuery 1)]).compileCapturing
          deeper (.query (usersQuery 0) .basic) sqliteDialect = some result := by
  apply compile_terminates
  refine ⟨?_, ?_, ?_, trivial⟩
  · intro receiver hreceiver
    cases hreceiver
  · intro receiver hreceiver
    cases hreceiver
  · intro receiver hreceiver query hquery h
    cases hreceiver
    cases List.mem_singleton.mp hquery
    exact nomatch twoQueries_reaches h

private def oneQuery : QueryHeap Value := next QueryHeap.empty .select

/-- `"id" = 7`. -/
private def idIsSeven : ExprNode Value :=
  .comparison (.column ⟨0, "id"⟩) .eq (.value (.int64 7))

/-- `apply_filter` is passed a copy of the query. Afterwards the original has its filter. -/
theorem copy_changes_original :
    (∀ depth, (oneQuery.compile (depth + 1) (usersQuery 0) sqliteDialect).map
      (·.map CompiledQuery.params) = some (.ok [])) ∧
    ∀ depth, ((runEvents next oneQuery (applyFilterCalls (usersQuery 0) (some idIsSeven))).compile
      (depth + 1) (usersQuery 0) sqliteDialect).map (·.map CompiledQuery.params) =
        some (.ok [.int64 7]) :=
  ⟨fun _ => rfl, fun _ => rfl⟩

/-- `q.union_with(q)`: `compile` does not come to an end. -/
theorem union_with_itself :
    ¬ ∃ depth, ((runEvents next oneQuery
      [.setOperation (usersQuery 0) .union (usersQuery 0)]).compile depth (usersQuery 0)
        sqliteDialect).isSome := by
  have hstate : (runEvents next oneQuery
      [.setOperation (usersQuery 0) .union (usersQuery 0)]).states 0 =
        { setOperations := [⟨.union, usersQuery 0⟩] } := rfl
  generalize runEvents next oneQuery [.setOperation (usersQuery 0) .union (usersQuery 0)] = heap
    at hstate ⊢
  have hnone : ∀ depth, heap.resolve depth (usersQuery 0) = none := by
    intro depth
    induction depth with
    | zero => rfl
    | succ depth ih =>
      show (heap.states 0).resolve (heap.resolve depth) users = none
      rw [hstate]
      simp [SelectState.resolve, SetOperationRef.resolve, ih]
  simp [QueryHeap.compile, hnone]

end BuilderCall

end MetalOrm.Native.Query
