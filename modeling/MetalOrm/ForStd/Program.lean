import Mathlib

/-!
# Programs with state and exceptions

`Prog ε σ α` is a program over a state `σ` that may stop with an exception. What
it did before it stopped stays done, as in a language without transactional
memory. `Preserves P p` says that `P` relates the state before `p` to the state
after it, however `p` ends; its rules follow the structure of a program.

## Key results

- `exec_bind`, `exec_tryCatch`: how programs run
- `Preserves.bind`, `Preserves.tryCatch`, `Preserves.forM`: rules for a preorder `P`
- `Along.invariant`: the invariant rule of a loop whose rounds have a condition
-/

namespace MetalOrm.ForStd

abbrev Prog (ε σ : Type) := ExceptT ε (StateM σ)

namespace Prog

variable {ε σ α β : Type}

/-- Run a program: how it ended, and the state it left. -/
def exec (p : Prog ε σ α) (s : σ) : Except ε α × σ := StateT.run (ExceptT.run p) s

@[simp] theorem exec_pure (a : α) (s : σ) : exec (pure a : Prog ε σ α) s = (.ok a, s) := rfl

@[simp] theorem exec_throw (e : ε) (s : σ) :
    exec (throw e : Prog ε σ α) s = (.error e, s) := rfl

@[simp] theorem exec_get (s : σ) : exec (get : Prog ε σ σ) s = (.ok s, s) := rfl

@[simp] theorem exec_set (s' s : σ) : exec (set s' : Prog ε σ PUnit) s = (.ok ⟨⟩, s') := rfl

@[simp] theorem exec_modify (f : σ → σ) (s : σ) :
    exec (modify f : Prog ε σ PUnit) s = (.ok ⟨⟩, f s) := rfl

theorem exec_bind (p : Prog ε σ α) (k : α → Prog ε σ β) (s : σ) :
    exec (p >>= k) s =
      match exec p s with
      | (.ok a, s') => exec (k a) s'
      | (.error e, s') => (.error e, s') := by
  simp only [exec, ExceptT.run_bind, StateT.run_bind]
  rcases h : StateT.run (ExceptT.run p) s with ⟨r, s'⟩
  cases r <;> rfl

theorem exec_bind_ok {p : Prog ε σ α} {s s' : σ} {a : α} (h : exec p s = (.ok a, s'))
    (k : α → Prog ε σ β) : exec (p >>= k) s = exec (k a) s' := by
  rw [exec_bind, h]

theorem exec_bind_error {p : Prog ε σ α} {s s' : σ} {e : ε} (h : exec p s = (.error e, s'))
    (k : α → Prog ε σ β) : exec (p >>= k) s = (.error e, s') := by
  rw [exec_bind, h]

theorem forM_cons (f : α → Prog ε σ PUnit) (a : α) (l : List α) :
    (a :: l).forM f = f a >>= fun _ => l.forM f := rfl

/-- A loop over two lists that returns ran to the end of the first. -/
theorem exec_forM_append {f : α → Prog ε σ PUnit} {l₁ l₂ : List α} {s s'' : σ}
    (h : exec ((l₁ ++ l₂).forM f) s = (.ok ⟨⟩, s'')) :
    ∃ s', exec (l₁.forM f) s = (.ok ⟨⟩, s') ∧ exec (l₂.forM f) s' = (.ok ⟨⟩, s'') := by
  induction l₁ generalizing s with
  | nil => exact ⟨s, rfl, h⟩
  | cons a l₁ ih =>
    rw [List.cons_append, forM_cons, exec_bind] at h
    rcases ha : exec (f a) s with ⟨r, s₁⟩
    rw [ha] at h
    cases r with
    | error e => simp at h
    | ok u =>
      obtain ⟨s', h₁, h₂⟩ := ih h
      exact ⟨s', by rw [forM_cons, exec_bind_ok ha]; exact h₁, h₂⟩

/-- A sequence returns exactly when both parts do. -/
theorem exec_bind_eq_ok {p : Prog ε σ α} {k : α → Prog ε σ β} {s s'' : σ} {b : β} :
    exec (p >>= k) s = (.ok b, s'') ↔
      ∃ a s', exec p s = (.ok a, s') ∧ exec (k a) s' = (.ok b, s'') := by
  rw [exec_bind]
  rcases h : exec p s with ⟨r, s'⟩
  cases r with
  | error e => simp
  | ok a =>
    constructor
    · exact fun hk => ⟨a, s', rfl, hk⟩
    · rintro ⟨_, _, heq, hk⟩
      cases heq
      exact hk

theorem exec_tryCatch (p : Prog ε σ α) (handler : ε → Prog ε σ α) (s : σ) :
    exec (tryCatch p handler) s =
      match exec p s with
      | (.ok a, s') => (.ok a, s')
      | (.error e, s') => exec (handler e) s' := by
  have hrun : StateT.run (ExceptT.run (tryCatch p handler)) s =
      (StateT.run (ExceptT.run p) s >>= fun r : Except ε α × σ =>
        StateT.run (match r.1 with
          | .ok a => pure (.ok a)
          | .error e => ExceptT.run (handler e)) r.2 : Id _) := rfl
  simp only [exec, hrun]
  rcases h : StateT.run (ExceptT.run p) s with ⟨r, s'⟩
  cases r <;> rfl

theorem exec_tryCatch_ok {p : Prog ε σ α} {s s' : σ} {a : α} (h : exec p s = (.ok a, s'))
    (handler : ε → Prog ε σ α) : exec (tryCatch p handler) s = (.ok a, s') := by
  rw [exec_tryCatch, h]

theorem exec_tryCatch_error {p : Prog ε σ α} {s s' : σ} {e : ε} (h : exec p s = (.error e, s'))
    (handler : ε → Prog ε σ α) : exec (tryCatch p handler) s = exec (handler e) s' := by
  rw [exec_tryCatch, h]

/-! ### Loops -/

/-- Every round of the loop `l.forM f` starts in a state that `cond` accepts. -/
def Along (cond : α → σ → Prop) (f : α → Prog ε σ PUnit) : List α → σ → Prop
  | [], _ => True
  | a :: l, s => cond a s ∧ ∀ s', exec (f a) s = (.ok ⟨⟩, s') → Along cond f l s'

theorem Along.of_forall {cond : α → σ → Prop} {f : α → Prog ε σ PUnit}
    (h : ∀ a s, cond a s) (l : List α) (s : σ) : Along cond f l s := by
  induction l generalizing s with
  | nil => trivial
  | cons a l ih => exact ⟨h a s, fun s' _ => ih s'⟩

theorem Along.mono {cond cond' : α → σ → Prop} {f : α → Prog ε σ PUnit}
    (h : ∀ a s, cond a s → cond' a s) {l : List α} {s : σ} (hl : Along cond f l s) :
    Along cond' f l s := by
  induction l generalizing s with
  | nil => trivial
  | cons a l ih => exact ⟨h a s hl.1, fun s' hs' => ih (hl.2 s' hs')⟩

theorem exec_forM_cons {f : α → Prog ε σ PUnit} {a : α} {l : List α} {s s'' : σ}
    (h : exec ((a :: l).forM f) s = (.ok ⟨⟩, s'')) :
    ∃ s', exec (f a) s = (.ok ⟨⟩, s') ∧ exec (l.forM f) s' = (.ok ⟨⟩, s'') := by
  rw [forM_cons] at h
  obtain ⟨_, s', ha, hl⟩ := exec_bind_eq_ok.mp h
  exact ⟨s', ha, hl⟩

/-- A loop whose rounds all return without a trace. -/
theorem exec_forM_idle {f : α → Prog ε σ PUnit} {l : List α} {s : σ}
    (h : ∀ a ∈ l, exec (f a) s = (.ok ⟨⟩, s)) : exec (l.forM f) s = (.ok ⟨⟩, s) := by
  induction l with
  | nil => rfl
  | cons a l ih =>
    rw [forM_cons, exec_bind_ok (h a List.mem_cons_self)]
    exact ih fun a' ha' => h a' (List.mem_cons_of_mem a ha')

/-- What holds before a loop holds after it, if each round keeps it. -/
theorem Along.invariant {I : σ → Prop} {cond : α → σ → Prop} {f : α → Prog ε σ PUnit}
    (step : ∀ a s s', I s → cond a s → exec (f a) s = (.ok ⟨⟩, s') → I s')
    {l : List α} {s s' : σ} (h : Along cond f l s) (hs : I s)
    (hloop : exec (l.forM f) s = (.ok ⟨⟩, s')) : I s' := by
  induction l generalizing s with
  | nil =>
    cases hloop
    exact hs
  | cons a l ih =>
    obtain ⟨s₁, ha, hl⟩ := exec_forM_cons hloop
    exact ih (h.2 s₁ ha) (step a s s₁ hs h.1 ha) hl

/-! ### What a program preserves -/

/-- `P` relates the states before and after `p`, whether `p` returns or throws. -/
def Preserves (P : σ → σ → Prop) (p : Prog ε σ α) : Prop := ∀ s, P s (exec p s).2

namespace Preserves

variable {P : σ → σ → Prop}

theorem of_refl [Std.Refl P] {p : Prog ε σ α} (h : ∀ s, (exec p s).2 = s) : Preserves P p :=
  fun s => by rw [h s]; exact refl_of P s

theorem pure [Std.Refl P] (a : α) : Preserves P (pure a : Prog ε σ α) := of_refl fun _ => rfl

theorem throw [Std.Refl P] (e : ε) : Preserves P (throw e : Prog ε σ α) := of_refl fun _ => rfl

theorem get [Std.Refl P] : Preserves P (get : Prog ε σ σ) := of_refl fun _ => rfl

theorem modify {f : σ → σ} (h : ∀ s, P s (f s)) :
    Preserves P (modify f : Prog ε σ PUnit) := h

theorem bind [IsTrans σ P] {p : Prog ε σ α} {k : α → Prog ε σ β} (hp : Preserves P p)
    (hk : ∀ a, Preserves P (k a)) : Preserves P (p >>= k) := by
  intro s
  have hs := hp s
  rw [exec_bind]
  rcases h : exec p s with ⟨r, s'⟩
  rw [h] at hs
  cases r with
  | error e => exact hs
  | ok a => exact trans_of P hs (hk a s')

/-- A program that starts by reading the state may be judged state by state. -/
theorem get_bind {k : σ → Prog ε σ β} (hk : ∀ s, P s (exec (k s) s).2) :
    Preserves P (MonadState.get >>= k) := fun s => by
  rw [exec_bind_ok (exec_get s)]
  exact hk s

theorem tryCatch [IsTrans σ P] {p : Prog ε σ α} {handler : ε → Prog ε σ α}
    (hp : Preserves P p) (hh : ∀ e, Preserves P (handler e)) :
    Preserves P (tryCatch p handler) := by
  intro s
  have hs := hp s
  rw [exec_tryCatch]
  rcases h : exec p s with ⟨r, s'⟩
  rw [h] at hs
  cases r with
  | ok a => exact hs
  | error e => exact trans_of P hs (hh e s')

theorem ite {c : Prop} [Decidable c] {p q : Prog ε σ α} (hp : c → Preserves P p)
    (hq : ¬c → Preserves P q) : Preserves P (if c then p else q) := by
  split
  · exact hp ‹_›
  · exact hq ‹_›

theorem forM [IsPreorder σ P] {f : α → Prog ε σ PUnit} {l : List α}
    (hf : ∀ a ∈ l, Preserves P (f a)) : Preserves P (l.forM f) := by
  induction l with
  | nil => exact pure PUnit.unit
  | cons a l ih =>
    exact bind (hf a List.mem_cons_self) fun _ => ih fun b hb => hf b (List.mem_cons_of_mem a hb)

end Preserves

end Prog

end MetalOrm.ForStd
