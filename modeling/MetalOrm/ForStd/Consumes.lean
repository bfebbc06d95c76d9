import Mathlib

/-!
# Reading back what was written

A library for round trips between a writer that appends to a list and a reader
that is a `StateT` action over `Except`. `Consumes view p w a` says that `p`,
started where the input still begins with `w`, returns `a` and leaves exactly
what follows `w`. Writers that concatenate correspond to readers that are bound
one after the other, so a round trip is proved by following the two programs in
parallel. `Produces view p G` is the other direction: whenever `p` returns, what
it took off the input is a word that `G` allows for the result.

`Refuses view p w` says that `p` throws wherever the input begins with `w`.

The state type is arbitrary: `view` says which part of the input a state still
has in front of it.
-/

namespace MetalOrm.ForStd

variable {σ ε α β γ : Type} (view : σ → List γ)

/-- `p` reads the word `w` off the input and returns `a`. -/
def Consumes (p : StateT σ (Except ε) α) (w : List γ) (a : α) : Prop :=
  ∀ s rest, view s = w ++ rest → ∃ s', p.run s = .ok (a, s') ∧ view s' = rest

variable {view}

namespace Consumes

theorem pure (a : α) : Consumes view (Pure.pure a : StateT σ (Except ε) α) [] a :=
  fun s rest h => ⟨s, rfl, by simpa using h⟩

/-- Sequencing two readers consumes the concatenation of their words. -/
theorem bind {p : StateT σ (Except ε) α} {f : α → StateT σ (Except ε) β} {w v : List γ} {a : α}
    {b : β} (hp : Consumes view p w a) (hf : Consumes view (f a) v b) :
    Consumes view (p >>= f) (w ++ v) b := by
  intro s rest h
  obtain ⟨s₁, h₁, hv₁⟩ := hp s (v ++ rest) (by rw [h, List.append_assoc])
  obtain ⟨s₂, h₂, hv₂⟩ := hf s₁ rest hv₁
  refine ⟨s₂, ?_, hv₂⟩
  rw [StateT.run_bind, h₁]
  exact h₂

/-- A reader followed by a pure function of its result. -/
theorem map {p : StateT σ (Except ε) α} {w : List γ} {a : α} (f : α → β)
    (hp : Consumes view p w a) :
    Consumes view (do let x ← p; return f x) w (f a) := by
  have h : Consumes view (p >>= fun x => Pure.pure (f x)) (w ++ []) (f a) := hp.bind (pure (f a))
  rwa [List.append_nil] at h

/-- A reader that only inspects the state and then goes on. -/
theorem get_bind {f : σ → StateT σ (Except ε) β} {w : List γ} {b : β}
    (hf : ∀ s rest, view s = w ++ rest → ∃ s', (f s).run s = .ok (b, s') ∧ view s' = rest) :
    Consumes view (get >>= f) w b := by
  intro s rest h
  obtain ⟨s', h', hv'⟩ := hf s rest h
  exact ⟨s', by rw [StateT.run_bind]; exact h', hv'⟩

/-- A loop whose every round reads one word consumes the words of all rounds. -/
theorem foldlM {ι : Type} {f : α → ι → StateT σ (Except ε) α} {word : ι → List γ}
    {next : α → ι → α} (hf : ∀ a i, Consumes view (f a i) (word i) (next a i)) :
    ∀ (is : List ι) (a : α), Consumes view (is.foldlM f a) (is.flatMap word) (is.foldl next a)
  | [], a => pure a
  | i :: is, a => by
    rw [List.foldlM_cons, List.flatMap_cons, List.foldl_cons]
    exact (hf a i).bind (foldlM hf is (next a i))

end Consumes

/-- `p` throws wherever the input begins with `w`. -/
def Refuses (view : σ → List γ) (p : StateT σ (Except ε) α) (w : List γ) : Prop :=
  ∀ s rest, view s = w ++ rest → ∃ e, p.run s = .error e

namespace Refuses

variable {w : List γ}

theorem throw (e : ε) (w : List γ) : Refuses view (throw e : StateT σ (Except ε) α) w :=
  fun _ _ _ => ⟨e, rfl⟩

/-- A program throws where its first part does. -/
theorem bind {p : StateT σ (Except ε) α} (hp : Refuses view p w)
    (f : α → StateT σ (Except ε) β) : Refuses view (p >>= f) w := by
  intro s rest h
  obtain ⟨e, he⟩ := hp s rest h
  exact ⟨e, by rw [StateT.run_bind, he]; rfl⟩

/-- What refuses a word refuses each one that begins with it. -/
theorem append {p : StateT σ (Except ε) α} (hp : Refuses view p w) (v : List γ) :
    Refuses view p (w ++ v) :=
  fun s rest h => hp s (v ++ rest) (by rw [h, List.append_assoc])

end Refuses

/-- A program throws where its second part does, behind what the first has read. -/
theorem Consumes.bind_refuses {p : StateT σ (Except ε) α} {f : α → StateT σ (Except ε) β}
    {w v : List γ} {a : α} (hp : Consumes view p w a) (hf : Refuses view (f a) v) :
    Refuses view (p >>= f) (w ++ v) := by
  intro s rest h
  obtain ⟨s₁, h₁, hv₁⟩ := hp s (v ++ rest) (by rw [h, List.append_assoc])
  obtain ⟨e, he⟩ := hf s₁ rest hv₁
  refine ⟨e, ?_⟩
  rw [StateT.run_bind, h₁]
  exact he

/-- Whenever `p` returns `a`, it took a word `w` with `G a w` off the input. -/
def Produces (view : σ → List γ) (p : StateT σ (Except ε) α) (G : α → List γ → Prop) : Prop :=
  ∀ s a s', p.run s = .ok (a, s') → ∃ w, view s = w ++ view s' ∧ G a w

namespace Produces

theorem pure {a : α} {G : α → List γ → Prop} (h : G a []) :
    Produces view (Pure.pure a : StateT σ (Except ε) α) G := by
  intro s b s' hrun
  cases hrun
  exact ⟨[], rfl, h⟩

theorem throw (e : ε) (G : α → List γ → Prop) :
    Produces view (throw e : StateT σ (Except ε) α) G :=
  fun _ _ _ hrun => nomatch hrun

/-- Sequencing two readers takes one word after the other. -/
theorem bind {p : StateT σ (Except ε) α} {f : α → StateT σ (Except ε) β}
    {G : α → List γ → Prop} {H : β → List γ → Prop} (hp : Produces view p G)
    (hf : ∀ a u, G a u → Produces view (f a) fun b v => H b (u ++ v)) :
    Produces view (p >>= f) H := by
  intro s b s₂ hrun
  rw [StateT.run_bind] at hrun
  cases hfirst : p.run s with
  | error e =>
    rw [hfirst] at hrun
    cases hrun
  | ok first =>
    obtain ⟨a, s₁⟩ := first
    rw [hfirst] at hrun
    obtain ⟨u, hu, ha⟩ := hp s a s₁ hfirst
    obtain ⟨v, hv, hb⟩ := hf a u ha s₁ b s₂ hrun
    exact ⟨u ++ v, by rw [hu, hv, List.append_assoc], hb⟩

theorem mono {p : StateT σ (Except ε) α} {G H : α → List γ → Prop} (hp : Produces view p G)
    (h : ∀ a w, G a w → H a w) : Produces view p H := by
  intro s a s' hrun
  obtain ⟨w, hw, hG⟩ := hp s a s' hrun
  exact ⟨w, hw, h a w hG⟩

/-- A reader that only inspects the state and then goes on. -/
theorem get_bind {f : σ → StateT σ (Except ε) β} {G : β → List γ → Prop}
    (hf : ∀ s, Produces view (f s) G) : Produces view (get >>= f) G := by
  intro s b s' hrun
  exact hf s s b s' hrun

/-- A test that throws, or goes on. -/
theorem ite {c : Prop} [Decidable c] {p q : StateT σ (Except ε) α} {G : α → List γ → Prop}
    (hp : c → Produces view p G) (hq : ¬ c → Produces view q G) :
    Produces view (if c then p else q) G := by
  split
  · exact hp ‹_›
  · exact hq ‹_›

end Produces

end MetalOrm.ForStd
