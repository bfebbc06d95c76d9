import Mathlib

/-!
# Clients of a server

`Client ε ρ ω α` is code that talks to a server: it sends requests `ρ`, sees for each a response
`ω` or an error `ε`, and ends with a result or an error. What the server does with its state `σ`
is not a part of it, so one client can be run against different servers, and against a server that
fails in between.

## Key results

- `Sends`, `Direct`: every request that can be sent has a property, with a rule for each construct
- `run_invariant`, `run_twins`: what the requests preserve, the run preserves
- `run_faulty_of_some`: a run with a failing request is a run that was cut short
-/

namespace MetalOrm.ForStd

/-- Code that talks to a server. -/
inductive Client (ε ρ ω α : Type) where
  | done (result : Except ε α)
  | send (request : ρ) (next : Except ε ω → Client ε ρ ω α)

namespace Client

variable {ε ρ ω α β σ : Type}

/-- Go on with the result, unless there is an error. -/
protected def bind : Client ε ρ ω α → (α → Client ε ρ ω β) → Client ε ρ ω β
  | done (.ok a), f => f a
  | done (.error error), _ => done (.error error)
  | send request next, f => send request fun outcome => (next outcome).bind f

/-- Handle the errors, those of the server included. -/
protected def tryCatch : Client ε ρ ω α → (ε → Client ε ρ ω α) → Client ε ρ ω α
  | done (.ok a), _ => done (.ok a)
  | done (.error error), handler => handler error
  | send request next, handler => send request fun outcome => (next outcome).tryCatch handler

instance : Monad (Client ε ρ ω) where
  pure a := done (.ok a)
  bind := Client.bind

instance : MonadExceptOf ε (Client ε ρ ω) where
  throw error := done (.error error)
  tryCatch := Client.tryCatch

/-- Send a request and return the response. -/
def call (request : ρ) : Client ε ρ ω ω := send request done

/-- A step that sends nothing. -/
def lift (result : Except ε α) : Client ε ρ ω α := done result

theorem bind_error (error : ε) (f : α → Client ε ρ ω β) :
    (done (.error error) : Client ε ρ ω α) >>= f = done (.error error) := rfl

/-! ## Running -/

/-- Run against a server that starts in a state. -/
def run (serve : ρ → σ → Except ε ω × σ) : Client ε ρ ω α → σ → Except ε α × σ
  | done result, s => (result, s)
  | send request next, s => (next (serve request s).1).run serve (serve request s).2

section Run

variable (serve : ρ → σ → Except ε ω × σ)

@[simp] theorem run_pure (a : α) (s : σ) :
    (pure a : Client ε ρ ω α).run serve s = (.ok a, s) := rfl

@[simp] theorem run_throw (error : ε) (s : σ) :
    (throw error : Client ε ρ ω α).run serve s = (.error error, s) := rfl

@[simp] theorem run_lift (result : Except ε α) (s : σ) :
    (lift result : Client ε ρ ω α).run serve s = (result, s) := rfl

@[simp] theorem run_call (request : ρ) (s : σ) :
    (call request : Client ε ρ ω ω).run serve s = serve request s := rfl

theorem run_bind (p : Client ε ρ ω α) (f : α → Client ε ρ ω β) (s : σ) :
    (p >>= f).run serve s = match p.run serve s with
      | (.ok a, s') => (f a).run serve s'
      | (.error error, s') => (.error error, s') := by
  induction p generalizing s with
  | done result => cases result <;> rfl
  | send request next ih => exact ih _ _

theorem run_bind_ok {p : Client ε ρ ω α} {s s' : σ} {a : α} (h : p.run serve s = (.ok a, s'))
    (f : α → Client ε ρ ω β) : (p >>= f).run serve s = (f a).run serve s' := by
  rw [run_bind, h]

theorem run_bind_error {p : Client ε ρ ω α} {s s' : σ} {error : ε}
    (h : p.run serve s = (.error error, s')) (f : α → Client ε ρ ω β) :
    (p >>= f).run serve s = (.error error, s') := by
  rw [run_bind, h]

/-- A sequence returns exactly when both parts do. -/
theorem run_bind_eq_ok {p : Client ε ρ ω α} {f : α → Client ε ρ ω β} {s s'' : σ} {b : β} :
    (p >>= f).run serve s = (.ok b, s'') ↔
      ∃ a s', p.run serve s = (.ok a, s') ∧ (f a).run serve s' = (.ok b, s'') := by
  rw [run_bind]
  cases hp : p.run serve s with
  | mk result s' =>
    cases result with
    | error error => simp
    | ok a =>
      constructor
      · exact fun h => ⟨a, s', rfl, h⟩
      · rintro ⟨_, _, heq, h⟩
        cases heq
        exact h

theorem run_tryCatch (p : Client ε ρ ω α) (handler : ε → Client ε ρ ω α) (s : σ) :
    (tryCatch p handler).run serve s = match p.run serve s with
      | (.ok a, s') => (.ok a, s')
      | (.error error, s') => (handler error).run serve s' := by
  induction p generalizing s with
  | done result => cases result <;> rfl
  | send request next ih => exact ih _ _

end Run

/-! ## What is sent -/

/-- Every request that can be sent, whatever the responses, has the property. -/
def Sends (P : ρ → Prop) : Client ε ρ ω α → Prop
  | done _ => True
  | send request next => P request ∧ ∀ outcome, Sends P (next outcome)

theorem Sends.tryCatch {P : ρ → Prop} {p : Client ε ρ ω α} {handler : ε → Client ε ρ ω α}
    (hp : Sends P p) (hhandler : ∀ error, Sends P (handler error)) :
    Sends P (MonadExcept.tryCatch p handler) := by
  induction p with
  | done result =>
    cases result with
    | ok a => trivial
    | error error => exact hhandler error
  | send request next ih => exact ⟨hp.1, fun outcome => ih outcome (hp.2 outcome)⟩

/-- Every request has the property, and no error of the server is handled. -/
def Direct (P : ρ → Prop) : Client ε ρ ω α → Prop
  | done _ => True
  | send request next => P request ∧ (∀ error, next (.error error) = done (.error error)) ∧
      ∀ response, Direct P (next (.ok response))

namespace Direct

variable {P : ρ → Prop}

theorem pure (a : α) : Direct P (Pure.pure a : Client ε ρ ω α) := trivial

theorem throw (error : ε) : Direct P (MonadExcept.throw error : Client ε ρ ω α) := trivial

theorem lift (result : Except ε α) : Direct P (Client.lift result : Client ε ρ ω α) := trivial

theorem call {request : ρ} (h : P request) : Direct P (Client.call request : Client ε ρ ω ω) :=
  ⟨h, fun _ => rfl, fun _ => trivial⟩

theorem bind {p : Client ε ρ ω α} {f : α → Client ε ρ ω β} (hp : Direct P p)
    (hf : ∀ a, Direct P (f a)) : Direct P (p >>= f) := by
  induction p with
  | done result =>
    cases result with
    | ok a => exact hf a
    | error error => trivial
  | send request next ih =>
    obtain ⟨hrequest, herror, hnext⟩ := hp
    refine ⟨hrequest, ?_, fun response => ih (.ok response) (hnext response)⟩
    intro error
    change next (.error error) >>= f = _
    rw [herror error, bind_error]

theorem forM {f : β → Client ε ρ ω PUnit} {l : List β} (h : ∀ b ∈ l, Direct P (f b)) :
    Direct P (l.forM f) := by
  induction l with
  | nil => trivial
  | cons b l ih =>
    rw [List.forall_mem_cons] at h
    exact bind h.1 fun _ => ih h.2

theorem sends {p : Client ε ρ ω α} (h : Direct P p) : Sends P p := by
  induction p with
  | done => trivial
  | send request next ih =>
    obtain ⟨hrequest, herror, hnext⟩ := h
    refine ⟨hrequest, ?_⟩
    intro outcome
    cases outcome with
    | ok response => exact ih _ (hnext response)
    | error error =>
      rw [herror error]
      trivial

end Direct

/-- What every request keeps of the state, the run keeps. -/
theorem run_invariant {serve : ρ → σ → Except ε ω × σ} {P : ρ → Prop} {R : σ → σ → Prop}
    (hrefl : ∀ s, R s s) (htrans : ∀ {s₁ s₂ s₃}, R s₁ s₂ → R s₂ s₃ → R s₁ s₃)
    (hserve : ∀ request s, P request → R s (serve request s).2) {p : Client ε ρ ω α}
    (hp : Sends P p) (s : σ) : R s (p.run serve s).2 := by
  induction p generalizing s with
  | done => exact hrefl s
  | send request next ih => exact htrans (hserve request s hp.1) (ih _ (hp.2 _) _)

/-- Two states that no request tells apart are not told apart by the run. -/
theorem run_twins {serve : ρ → σ → Except ε ω × σ} {P : ρ → Prop} {R : σ → σ → Prop}
    (hserve : ∀ request s₁ s₂, P request → R s₁ s₂ →
      (serve request s₁).1 = (serve request s₂).1 ∧ R (serve request s₁).2 (serve request s₂).2)
    {p : Client ε ρ ω α} (hp : Sends P p) {s₁ s₂ : σ} (hs : R s₁ s₂) :
    (p.run serve s₁).1 = (p.run serve s₂).1 ∧ R (p.run serve s₁).2 (p.run serve s₂).2 := by
  induction p generalizing s₁ s₂ with
  | done => exact ⟨rfl, hs⟩
  | send request next ih =>
    obtain ⟨heq, hnext⟩ := hserve request s₁ s₂ hp.1 hs
    rw [run, run, heq]
    exact ih _ (hp.2 _) hnext

/-! ## Servers that fail in between -/

/-- The requests of a run, in order. -/
def requests (serve : ρ → σ → Except ε ω × σ) : Client ε ρ ω α → σ → List ρ
  | done _, _ => []
  | send request next, s =>
    request :: (next (serve request s).1).requests serve (serve request s).2

/-- The state after a list of requests. -/
def after (serve : ρ → σ → Except ε ω × σ) (requests : List ρ) (s : σ) : σ :=
  requests.foldl (fun s request => (serve request s).2) s

/-- The server, where the request with number `n` fails with `faults n` and does nothing. The
    requests are counted from one. -/
def faulty (serve : ρ → σ → Except ε ω × σ) (faults : Nat → Option ε) (request : ρ) (s : σ × Nat) :
    Except ε ω × (σ × Nat) :=
  match faults (s.2 + 1) with
  | some error => (.error error, (s.1, s.2 + 1))
  | none => ((serve request s.1).1, ((serve request s.1).2, s.2 + 1))

/-- A handler that sends nothing adds no request. -/
theorem requests_tryCatch (serve : ρ → σ → Except ε ω × σ) (p : Client ε ρ ω α)
    (handler : ε → Except ε α) (s : σ) :
    (tryCatch p fun error => lift (handler error)).requests serve s = p.requests serve s := by
  induction p generalizing s with
  | done result => cases result <;> rfl
  | send request next ih => exact congrArg (request :: ·) (ih _ _)

section Faults

variable {serve : ρ → σ → Except ε ω × σ} {faults : Nat → Option ε} {p : Client ε ρ ω α}

theorem faulty_none {n : Nat} (h : faults (n + 1) = none) (request : ρ) (s : σ) :
    faulty serve faults request (s, n) =
      ((serve request s).1, ((serve request s).2, n + 1)) := by
  simp only [faulty, h]

/-- A request that fails ends the run, and what the requests before it did stays done. -/
theorem run_faulty_of_some {P : ρ → Prop} (hp : Direct P p) {s : σ} {n i : Nat} {error : ε}
    (hi : i < (p.requests serve s).length) (hfault : faults (n + i + 1) = some error)
    (hbefore : ∀ k, n < k → k ≤ n + i → faults k = none) :
    p.run (faulty serve faults) (s, n) =
      (.error error, (after serve ((p.requests serve s).take i) s, n + i + 1)) := by
  induction p generalizing s n i with
  | done => simp [requests] at hi
  | send request next ih =>
    rw [requests] at hi ⊢
    cases i with
    | zero =>
      have hnow : faulty serve faults request (s, n) = (.error error, (s, n + 1)) := by
        simp only [faulty]
        rw [show n + 1 = n + 0 + 1 by omega, hfault]
      rw [run, hnow, hp.2.1 error]
      rfl
    | succ i =>
      have hnext : ∀ outcome, Direct P (next outcome) := by
        intro outcome
        cases outcome with
        | ok response => exact hp.2.2 response
        | error error =>
          rw [hp.2.1 error]
          trivial
      rw [run, faulty_none (hbefore (n + 1) (by omega) (by omega))]
      dsimp only
      rw [ih _ (hnext _) (by simpa using hi) (by rw [← hfault]; congr 1; omega)
        fun k hk hle => hbefore k (by omega) (by omega)]
      congr 2
      omega

end Faults

end Client

end MetalOrm.ForStd
