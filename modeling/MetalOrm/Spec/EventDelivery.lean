import Mathlib.Algebra.BigOperators.Group.List.Basic
import Mathlib.Algebra.Order.Group.Nat
import Mathlib.Data.List.Nodup
import MetalOrm.Native.EventDispatch

/-!
# Delivery of domain events

As long as no handler dispatches again, a dispatch returns, and each event that was queued
when it began is handed once to each of its handlers. A handler that commits breaks this:
its event is still in its queue, so the nested dispatch hands it once more.

## Key results

- `dispatchDomainEvents_grows`: what has been done is not forgotten
- `dispatchQueue_calm`: what the dispatch of one queue does
- `delivered_once`: the dispatches in which no handler dispatches again
- `commit_hands_twice`: one in which a handler commits
-/

namespace MetalOrm.Native

variable {Event : Type}

/-! ## What has been done -/

namespace Dispatched

@[simp] theorem andThen_returns (s : EventSession Event)
    (f : EventSession Event → Dispatched Event) : (returns s).andThen f = f s := rfl

@[simp] theorem andThen_stops (reason : DispatchStop) (s : EventSession Event)
    (f : EventSession Event → Dispatched Event) :
    (stops reason s).andThen f = stops reason s := rfl

@[simp] theorem session_returns (s : EventSession Event) : (returns s).session = s := rfl

@[simp] theorem session_stops (reason : DispatchStop) (s : EventSession Event) :
    (stops reason s).session = s := rfl

end Dispatched

/-- A part of a dispatch that only adds to what has been done. -/
def Grows (f : EventSession Event → Dispatched Event) : Prop :=
  ∀ s, s.steps <:+ (f s).session.steps

theorem Grows.andThen {f : EventSession Event → Dispatched Event} (hf : Grows f)
    (result : Dispatched Event) : result.session.steps <:+ (result.andThen f).session.steps := by
  cases result with
  | returns s => exact hf s
  | stops reason s => exact List.suffix_refl _

@[simp] theorem EventSession.push_steps (s : EventSession Event) (queue : EventQueue)
    (event : Event) : (s.push queue event).steps = s.steps := rfl

@[simp] theorem EventSession.clear_steps (s : EventSession Event) (queue : EventQueue) :
    (s.clear queue).steps = s.steps := rfl

@[simp] theorem EventSession.persist_steps (s : EventSession Event) (entity : Key) :
    (s.persist entity).steps = s.steps := by
  unfold EventSession.persist
  split <;> rfl

theorem EventSession.suffix_step (s : EventSession Event) (done : DispatchStep) :
    s.steps <:+ (s.step done).steps :=
  List.suffix_cons done s.steps

section Grows

variable {bus : EventBus Event}
  {nested : List EventQueue → EventSession Event → Dispatched Event}

theorem run_grows (hnested : ∀ outer, Grows (nested outer)) (own : EventQueue)
    (outer : List EventQueue) (code : HandlerCode Event) : Grows (code.run nested own outer) := by
  induction code with
  | done => exact fun s => List.suffix_refl _
  | look next ih => exact fun s => ih s s
  | raise queue event next ih =>
    intro s
    simp only [HandlerCode.run]
    split
    · exact s.suffix_step _
    · exact (s.suffix_step _).trans (ih ((s.step (.raises own queue)).push queue event))
  | persist entity next ih =>
    intro s
    have hnext := ih ((s.step (.persists entity)).persist entity)
    rw [EventSession.persist_steps] at hnext
    exact (s.suffix_step _).trans hnext
  | dispatch next ih =>
    intro s
    exact (s.suffix_step _).trans ((hnested _ _).trans (ih.andThen _))

theorem dispatch_grows (hnested : ∀ outer, Grows (nested outer)) (own : EventQueue)
    (outer : List EventQueue) (queued : QueuedEvent Event) (handlers : List Nat) :
    Grows (bus.dispatch nested own outer queued handlers) := by
  induction handlers with
  | nil => exact fun s => List.suffix_refl _
  | cons handler handlers ih =>
    intro s
    simp only [EventBus.dispatch]
    split
    · exact (s.suffix_step _).trans ((run_grows hnested own outer _ _).trans (ih.andThen _))
    · exact List.suffix_refl _

theorem forEach_grows (hnested : ∀ outer, Grows (nested outer)) (own : EventQueue)
    (outer : List EventQueue) (events : List (QueuedEvent Event)) :
    Grows (bus.forEach nested own outer events) := by
  induction events with
  | nil => exact fun s => List.suffix_refl _
  | cons queued rest ih =>
    intro s
    simp only [EventBus.forEach]
    split
    · exact (dispatch_grows hnested own outer queued _ s).trans (ih.andThen _)
    · exact List.suffix_refl _

theorem dispatchQueue_grows (hnested : ∀ outer, Grows (nested outer)) (own : EventQueue)
    (outer : List EventQueue) : Grows (bus.dispatchQueue nested own outer) := by
  intro s
  have hclear : Grows fun s : EventSession Event => .returns (s.clear own) :=
    fun s => List.suffix_refl _
  exact (forEach_grows hnested own outer _ s).trans (hclear.andThen _)

theorem dispatchQueues_grows (hnested : ∀ outer, Grows (nested outer)) (outer : List EventQueue)
    (queues : List EventQueue) : Grows (bus.dispatchQueues nested outer queues) := by
  induction queues with
  | nil => exact fun s => List.suffix_refl _
  | cons own queues ih =>
    exact fun s => (dispatchQueue_grows hnested own outer s).trans (ih.andThen _)

theorem dispatchQueues_append (outer queues queues' : List EventQueue) (s : EventSession Event) :
    bus.dispatchQueues nested outer (queues ++ queues') s =
      (bus.dispatchQueues nested outer queues s).andThen
        (bus.dispatchQueues nested outer queues') := by
  induction queues generalizing s with
  | nil => rfl
  | cons own queues ih =>
    simp only [List.cons_append, EventBus.dispatchQueues]
    cases bus.dispatchQueue nested own outer s with
    | returns s => exact ih s
    | stops reason s => rfl

/-- The entities are dispatched queue by queue. -/
theorem dispatchEntities_eq (outer : List EventQueue) (keys : List Key)
    (s : EventSession Event) :
    bus.dispatchEntities nested outer keys s =
      bus.dispatchQueues nested outer (keys.flatMap bus.queuesOf) s := by
  induction keys generalizing s with
  | nil => rfl
  | cons key keys ih =>
    rw [List.flatMap_cons, dispatchQueues_append, EventBus.dispatchEntities]
    cases bus.dispatchQueues nested outer (bus.queuesOf key) s with
    | returns s => exact ih s
    | stops reason s => rfl

theorem dispatchDomainEvents_grows (depth : Nat) (outer : List EventQueue) :
    Grows (bus.dispatchDomainEvents depth outer) := by
  induction depth generalizing outer with
  | zero => exact fun s => List.suffix_refl _
  | succ depth ih =>
    intro s
    rw [EventBus.dispatchDomainEvents, dispatchEntities_eq]
    exact dispatchQueues_grows ih outer _ s

end Grows

/-! ## Handlers that do not dispatch -/

/-- No handler dispatches again, and handlers raise events on other entities only. -/
structure Calm (steps : List DispatchStep) : Prop where
  quiet : .dispatches ∉ steps
  elsewhere : ∀ own target, .raises own target ∈ steps → target.entity ≠ own.entity

theorem Calm.of_suffix {steps steps' : List DispatchStep} (h : Calm steps')
    (hsuffix : steps <:+ steps') : Calm steps where
  quiet := fun hmem => h.quiet (hsuffix.subset hmem)
  elsewhere := fun own target hmem => h.elsewhere own target (hsuffix.subset hmem)

/-- How often an event has been handed to a handler. -/
def EventSession.handed (s : EventSession Event) (number handler : Nat) : Nat :=
  s.steps.count (.hands number handler)

/-- How often the events of a list with this number have to be handed to a handler. -/
def EventBus.owed (bus : EventBus Event) (number handler : Nat)
    (events : List (QueuedEvent Event)) : Nat :=
  (events.map fun queued =>
    if queued.number = number then (bus.handlers queued.event).count handler else 0).sum

theorem EventBus.owed_cons (bus : EventBus Event) (number handler : Nat)
    (queued : QueuedEvent Event) (events : List (QueuedEvent Event)) :
    bus.owed number handler (queued :: events) =
      (if queued.number = number then (bus.handlers queued.event).count handler else 0) +
        bus.owed number handler events := by
  simp [owed]

theorem EventBus.owed_append (bus : EventBus Event) (number handler : Nat)
    (events events' : List (QueuedEvent Event)) :
    bus.owed number handler (events ++ events') =
      bus.owed number handler events + bus.owed number handler events' := by
  simp [owed]

/-- Newer events owe nothing for a number that was given before. -/
theorem EventBus.owed_newer (bus : EventBus Event) {number bound : Nat} (hnumber : number < bound)
    (handler : Nat) {events : List (QueuedEvent Event)}
    (hnewer : ∀ queued ∈ events, bound ≤ queued.number) : bus.owed number handler events = 0 := by
  apply List.sum_eq_zero
  intro x hx
  obtain ⟨queued, hqueued, rfl⟩ := List.mem_map.mp hx
  have hbound := hnewer queued hqueued
  rw [if_neg (by omega)]

/-- What a part of a dispatch leaves of the queues other than `own`: they have only grown,
    by newer events. -/
structure Newer (own : EventQueue) (s s' : EventSession Event) : Prop where
  raised : s.raised ≤ s'.raised
  queues : ∀ q, q ≠ own → ∃ more, s'.queues q = s.queues q ++ more ∧
    ∀ queued ∈ more, s.raised ≤ queued.number

/-- A part of the loop over the queue `own`: it hands out so many events. -/
structure Serves (own : EventQueue) (extra : Nat → Nat → Nat) (s s' : EventSession Event) :
    Prop where
  newer : Newer own s s'
  kept : s'.queues own = s.queues own
  handed : ∀ number handler, s'.handed number handler = s.handed number handler +
    extra number handler

theorem Newer.refl (own : EventQueue) (s : EventSession Event) : Newer own s s where
  raised := Nat.le_refl _
  queues := fun q _ => ⟨[], by simp, by simp⟩

theorem Newer.trans {own : EventQueue} {s s' s'' : EventSession Event} (h : Newer own s s')
    (h' : Newer own s' s'') : Newer own s s'' where
  raised := Nat.le_trans h.raised h'.raised
  queues := by
    intro q hq
    obtain ⟨more, heq, hmore⟩ := h.queues q hq
    obtain ⟨more', heq', hmore'⟩ := h'.queues q hq
    refine ⟨more ++ more', by rw [heq', heq, List.append_assoc], ?_⟩
    intro queued hqueued
    cases List.mem_append.mp hqueued with
    | inl hmem => exact hmore queued hmem
    | inr hmem => exact Nat.le_trans h.raised (hmore' queued hmem)

theorem Serves.refl (own : EventQueue) (s : EventSession Event) :
    Serves own (fun _ _ => 0) s s :=
  ⟨Newer.refl own s, rfl, fun _ _ => rfl⟩

theorem Serves.trans {own : EventQueue} {extra extra' : Nat → Nat → Nat}
    {s s' s'' : EventSession Event} (h : Serves own extra s s') (h' : Serves own extra' s' s'') :
    Serves own (fun number handler => extra number handler + extra' number handler) s s'' where
  newer := h.newer.trans h'.newer
  kept := h'.kept.trans h.kept
  handed := by
    intro number handler
    rw [h'.handed, h.handed, Nat.add_assoc]

/-- Raising an event elsewhere. -/
theorem serves_raise {own queue : EventQueue} (hne : queue ≠ own) (s : EventSession Event)
    (event : Event) :
    Serves own (fun _ _ => 0) s ((s.step (.raises own queue)).push queue event) where
  newer := by
    constructor
    · exact Nat.le_succ _
    · intro q _
      by_cases hq : q = queue
      · exact ⟨[⟨s.raised, event⟩], by simp [EventSession.push, EventSession.step, hq], by simp⟩
      · exact ⟨[], by simp [EventSession.push, EventSession.step, hq], by simp⟩
  kept := by simp [EventSession.push, EventSession.step, hne.symm]
  handed := by simp [EventSession.handed, EventSession.step]

theorem serves_persist (own : EventQueue) (s : EventSession Event) (entity : Key) :
    Serves own (fun _ _ => 0) s ((s.step (.persists entity)).persist entity) := by
  unfold EventSession.persist
  split
  all_goals
    exact ⟨⟨Nat.le_refl _, fun q _ => ⟨[], by simp [EventSession.step], by simp⟩⟩, rfl,
      by simp [EventSession.handed, EventSession.step]⟩

theorem serves_hands (own : EventQueue) (s : EventSession Event) (number handler : Nat) :
    Serves own (fun n h => if number = n ∧ handler = h then 1 else 0) s
      (s.step (.hands number handler)) where
  newer := ⟨Nat.le_refl _, fun q _ => ⟨[], by simp [EventSession.step], by simp⟩⟩
  kept := rfl
  handed := by
    intro n h
    simp [EventSession.handed, EventSession.step, List.count_cons]

section Calm

variable {bus : EventBus Event}
  {nested : List EventQueue → EventSession Event → Dispatched Event}

/-- A handler that is calm returns, and what it does has nothing to do with nested
    dispatches. -/
theorem run_calm (hnested : ∀ outer, Grows (nested outer)) {own : EventQueue}
    {code : HandlerCode Event} {s : EventSession Event}
    (hcalm : Calm (code.run nested own [] s).session.steps) :
    ∃ s', (∀ nested, code.run nested own [] s = .returns s') ∧ Serves own (fun _ _ => 0) s s' := by
  induction code generalizing s with
  | done => exact ⟨s, fun _ => rfl, Serves.refl own s⟩
  | look next ih => exact ih s hcalm
  | raise queue event next ih =>
    have hne : queue ≠ own := by
      intro heq
      have hmem : .raises own queue ∈
          ((HandlerCode.raise queue event next).run nested own [] s).session.steps := by
        simp [HandlerCode.run, heq, EventSession.step]
      exact hcalm.elsewhere own queue hmem (congrArg EventQueue.entity heq)
    simp only [HandlerCode.run, List.mem_singleton, hne, if_false] at hcalm ⊢
    obtain ⟨s', hrun, hserves⟩ := ih hcalm
    exact ⟨s', hrun, (serves_raise hne s event).trans hserves⟩
  | persist entity next ih =>
    obtain ⟨s', hrun, hserves⟩ := ih hcalm
    exact ⟨s', hrun, (serves_persist own s entity).trans hserves⟩
  | dispatch next ih =>
    -- the step is recorded before the nested dispatch begins
    have hmem : DispatchStep.dispatches ∈ (s.step .dispatches).steps := List.mem_cons_self
    have hgrows : (s.step .dispatches).steps <:+
        ((HandlerCode.dispatch next).run nested own [] s).session.steps :=
      (hnested _ _).trans ((run_grows hnested own [] next).andThen _)
    exact absurd (hgrows.subset hmem) hcalm.quiet

/-- The handlers of one event. -/
theorem dispatch_calm (hnested : ∀ outer, Grows (nested outer)) {own : EventQueue}
    {queued : QueuedEvent Event} {handlers : List Nat} {s : EventSession Event}
    (hqueued : queued.number ∈ (s.queues own).map QueuedEvent.number)
    (hcalm : Calm (bus.dispatch nested own [] queued handlers s).session.steps) :
    ∃ s', (∀ nested, bus.dispatch nested own [] queued handlers s = .returns s') ∧
      Serves own (fun number handler =>
        if queued.number = number then handlers.count handler else 0) s s' := by
  induction handlers generalizing s with
  | nil => exact ⟨s, fun _ => rfl, by simpa using Serves.refl own s⟩
  | cons handler handlers ih =>
    simp only [EventBus.dispatch, hqueued, if_true] at hcalm ⊢
    have hhead := hcalm.of_suffix ((dispatch_grows hnested own [] queued handlers).andThen _)
    obtain ⟨s₁, hrun, hserves⟩ := run_calm hnested hhead
    rw [hrun nested] at hcalm
    have hkept : (s₁.queues own).map QueuedEvent.number = (s.queues own).map QueuedEvent.number :=
      congrArg _ hserves.kept
    obtain ⟨s', hrest, hserves'⟩ := ih (hkept ▸ hqueued) hcalm
    refine ⟨s', fun nested => by rw [hrun nested]; exact hrest nested, ?_⟩
    have htotal := ((serves_hands own s queued.number handler).trans hserves).trans hserves'
    refine ⟨htotal.newer, htotal.kept, ?_⟩
    intro number handler'
    rw [htotal.handed, List.count_cons]
    by_cases hnumber : queued.number = number
    · simp [hnumber]
      omega
    · simp [hnumber]

/-- The loop over a queue. -/
theorem forEach_calm (hnested : ∀ outer, Grows (nested outer)) {own : EventQueue}
    {events : List (QueuedEvent Event)} {s : EventSession Event}
    (hevents : ∀ queued ∈ events, queued.number ∈ (s.queues own).map QueuedEvent.number)
    (hcalm : Calm (bus.forEach nested own [] events s).session.steps) :
    ∃ s', (∀ nested, bus.forEach nested own [] events s = .returns s') ∧
      Serves own (fun number handler => bus.owed number handler events) s s' := by
  induction events generalizing s with
  | nil => exact ⟨s, fun _ => rfl, by simpa [EventBus.owed] using Serves.refl own s⟩
  | cons queued rest ih =>
    have hqueued := hevents queued List.mem_cons_self
    simp only [EventBus.forEach, hqueued, if_true] at hcalm ⊢
    have hhead := hcalm.of_suffix ((forEach_grows hnested own [] rest).andThen _)
    obtain ⟨s₁, hrun, hserves⟩ := dispatch_calm hnested hqueued hhead
    rw [hrun nested] at hcalm
    have hrest : ∀ x ∈ rest, x.number ∈ (s₁.queues own).map QueuedEvent.number := by
      intro x hx
      rw [hserves.kept]
      exact hevents x (List.mem_cons_of_mem _ hx)
    obtain ⟨s', hloop, hserves'⟩ := ih hrest hcalm
    refine ⟨s', fun nested => by rw [hrun nested]; exact hloop nested, ?_⟩
    simpa only [EventBus.owed_cons] using hserves.trans hserves'

/-- The dispatch of one queue hands out its events; the other queues only grow. -/
theorem dispatchQueue_calm (hnested : ∀ outer, Grows (nested outer)) {own : EventQueue}
    {s : EventSession Event}
    (hcalm : Calm (bus.dispatchQueue nested own [] s).session.steps) :
    ∃ s', (∀ nested, bus.dispatchQueue nested own [] s = .returns s') ∧ Newer own s s' ∧
      ∀ number handler, s'.handed number handler =
        s.handed number handler + bus.owed number handler (s.queues own) := by
  have hclear : Grows fun s : EventSession Event => .returns (s.clear own) :=
    fun s => List.suffix_refl _
  have hloop := hcalm.of_suffix (hclear.andThen _)
  obtain ⟨s₁, hrun, hserves⟩ := forEach_calm hnested
    (fun queued hqueued => List.mem_map_of_mem hqueued) hloop
  refine ⟨s₁.clear own, fun nested => by rw [EventBus.dispatchQueue, hrun nested]; rfl, ?_, ?_⟩
  · refine ⟨hserves.newer.raised, ?_⟩
    intro q hq
    simpa [EventSession.clear, hq] using hserves.newer.queues q hq
  · exact hserves.handed

/-- Queues that only grow owe for old numbers what they owed before. -/
theorem owed_flatMap_newer {own : EventQueue} {s s' : EventSession Event} (h : Newer own s s')
    {number : Nat} (hnumber : number < s.raised) (handler : Nat) {queues : List EventQueue}
    (hown : own ∉ queues) :
    bus.owed number handler (queues.flatMap s'.queues) =
      bus.owed number handler (queues.flatMap s.queues) := by
  induction queues with
  | nil => rfl
  | cons q queues ih =>
    rw [List.mem_cons, not_or] at hown
    obtain ⟨more, heq, hmore⟩ := h.queues q (Ne.symm hown.1)
    simp only [List.flatMap_cons, EventBus.owed_append, heq, ih hown.2,
      bus.owed_newer hnumber handler hmore]
    omega

theorem dispatchQueues_calm (hnested : ∀ outer, Grows (nested outer)) {queues : List EventQueue}
    (hnodup : queues.Nodup) {s : EventSession Event}
    (hcalm : Calm (bus.dispatchQueues nested [] queues s).session.steps) :
    ∃ s', (∀ nested, bus.dispatchQueues nested [] queues s = .returns s') ∧
      ∀ number handler, number < s.raised → s'.handed number handler =
        s.handed number handler + bus.owed number handler (queues.flatMap s.queues) := by
  induction queues generalizing s with
  | nil => exact ⟨s, fun _ => rfl, fun _ _ _ => rfl⟩
  | cons own queues ih =>
    rw [List.nodup_cons] at hnodup
    simp only [EventBus.dispatchQueues] at hcalm ⊢
    have hhead := hcalm.of_suffix ((dispatchQueues_grows hnested [] queues).andThen _)
    obtain ⟨s₁, hrun, hnewer, hhanded⟩ := dispatchQueue_calm hnested hhead
    rw [hrun nested] at hcalm
    obtain ⟨s', hrest, hhanded'⟩ := ih hnodup.2 hcalm
    refine ⟨s', fun nested => by rw [hrun nested]; exact hrest nested, ?_⟩
    intro number handler hnumber
    rw [hhanded' number handler (Nat.lt_of_lt_of_le hnumber hnewer.raised), hhanded,
      owed_flatMap_newer hnewer hnumber handler hnodup.1, List.flatMap_cons, EventBus.owed_append,
      Nat.add_assoc]

end Calm

/-! ## Delivery -/

/-- A session whose commit is about to dispatch: no entity is tracked twice, and each event
    has a number of its own. -/
structure EventSession.Committed (s : EventSession Event) : Prop where
  fresh : s.steps = []
  tracked : s.tracked.Nodup
  nodup : ∀ q, (s.queues q).Nodup
  numbered : ∀ q, ∀ queued ∈ s.queues q, queued.number < s.raised
  distinct : ∀ q q', ∀ queued ∈ s.queues q, ∀ queued' ∈ s.queues q',
    queued.number = queued'.number → q = q' ∧ queued = queued'

theorem queuesOf_nodup (bus : EventBus Event) {keys : List Key} (h : keys.Nodup) :
    (keys.flatMap bus.queuesOf).Nodup := by
  rw [List.nodup_flatMap]
  constructor
  · intro key _
    exact List.nodup_range.map fun m m' heq => congrArg EventQueue.member heq
  · apply h.imp
    intro key key' hne q hq hq'
    obtain ⟨m, -, rfl⟩ := List.mem_map.mp hq
    obtain ⟨m', -, heq⟩ := List.mem_map.mp hq'
    exact hne (congrArg EventQueue.entity heq).symm

/-- The queues of a commit owe an event of theirs once to each of its handlers. -/
theorem EventSession.Committed.owed {s : EventSession Event} (h : s.Committed)
    (bus : EventBus Event) {queues : List EventQueue} (hnodup : queues.Nodup) {q : EventQueue}
    (hq : q ∈ queues) {queued : QueuedEvent Event} (hqueued : queued ∈ s.queues q)
    (handler : Nat) :
    bus.owed queued.number handler (queues.flatMap s.queues) =
      (bus.handlers queued.event).count handler := by
  classical
  have hcount : (queues.flatMap s.queues).count queued = 1 := by
    apply List.count_eq_one_of_mem
    · rw [List.nodup_flatMap]
      refine ⟨fun q _ => h.nodup q, hnodup.imp ?_⟩
      intro q q' hne x hx hx'
      exact hne (h.distinct q q' x hx x hx' rfl).1
    · exact List.mem_flatMap.mpr ⟨q, hq, hqueued⟩
  unfold EventBus.owed
  rw [List.sum_map_eq_nsmul_single queued, hcount, one_nsmul, if_pos rfl]
  intro x hne hx
  obtain ⟨q', -, hx⟩ := List.mem_flatMap.mp hx
  rw [if_neg]
  intro hnumber
  exact hne (h.distinct q' q x hx queued hqueued hnumber).2

/-- When no handler dispatches again (and handlers raise events on other entities only), the
    dispatch returns, however deep it may be nested, and it hands each event that was queued
    to each of its handlers once. -/
theorem delivered_once {bus : EventBus Event} {s : EventSession Event} (hs : s.Committed)
    (helsewhere : ∀ depth own target,
      .raises own target ∈ (bus.dispatchDomainEvents depth [] s).session.steps →
        target.entity ≠ own.entity)
    (hquiet : ∀ depth, .dispatches ∉ (bus.dispatchDomainEvents depth [] s).session.steps) :
    ∃ s', (∀ depth, bus.dispatchDomainEvents (depth + 1) [] s = .returns s') ∧
      ∀ entity ∈ s.tracked, ∀ q ∈ bus.queuesOf entity, ∀ queued ∈ s.queues q, ∀ handler,
        s'.handed queued.number handler = (bus.handlers queued.event).count handler := by
  have hnodup := queuesOf_nodup bus hs.tracked
  have hcalm : Calm (bus.dispatchDomainEvents 1 [] s).session.steps := ⟨hquiet 1, helsewhere 1⟩
  rw [EventBus.dispatchDomainEvents, dispatchEntities_eq] at hcalm
  obtain ⟨s', hrun, hhanded⟩ := dispatchQueues_calm (dispatchDomainEvents_grows 0) hnodup hcalm
  refine ⟨s', ?_, ?_⟩
  · intro depth
    rw [EventBus.dispatchDomainEvents, dispatchEntities_eq]
    exact hrun _
  · intro entity hentity q hq queued hqueued handler
    have hmem : q ∈ s.tracked.flatMap bus.queuesOf := List.mem_flatMap.mpr ⟨entity, hentity, hq⟩
    have hbefore : s.handed queued.number handler = 0 := by
      simp [EventSession.handed, hs.fresh]
    rw [hhanded _ handler (hs.numbered q queued hqueued), hbefore, Nat.zero_add,
      hs.owed bus hnodup hmem hqueued]

/-- The end of an outermost transaction dispatches as a commit does. -/
theorem HandlerCode.transaction_outermost (transactions : Bool)
    (body flush : HandlerCode Event → HandlerCode Event) (next : HandlerCode Event) :
    transaction transactions true body flush next = body (commit flush next) := by
  cases transactions <;> rfl

/-- Two entities with one queue each, and an event on the first. -/
private def oneEvent : EventSession Unit where
  tracked := [1, 2]
  queues q := if q = ⟨1, 0⟩ then [⟨0, ()⟩] else []
  raised := 1
  steps := []

private theorem oneEvent_committed : oneEvent.Committed := by
  have hqueue : ∀ q, ∀ queued ∈ oneEvent.queues q, q = ⟨1, 0⟩ ∧ queued = ⟨0, ()⟩ := by
    intro q queued h
    by_cases hq : q = ⟨1, 0⟩
    · simpa [oneEvent, hq] using h
    · simp [oneEvent, hq] at h
  constructor
  · rfl
  · decide
  · intro q
    by_cases hq : q = ⟨1, 0⟩ <;> simp [oneEvent, hq]
  · intro q queued h
    rw [(hqueue q queued h).2]
    exact Nat.one_pos
  · intro q q' queued h queued' h' _
    rw [(hqueue q queued h).1, (hqueue q queued h).2, (hqueue q' queued' h').1,
      (hqueue q' queued' h').2]
    exact ⟨rfl, rfl⟩

/-- A handler that raises an event on the second entity when it gets the one of the first. -/
private def raisingBus : EventBus Unit where
  members _ := 1
  handlers _ := [0]
  code _ _ := .look fun s => if s.raised = 1 then .raise ⟨2, 0⟩ () .done else .done

theorem delivered_once_raising :
    ∃ s', (∀ depth, raisingBus.dispatchDomainEvents (depth + 1) [] oneEvent = .returns s') ∧
      ∀ entity ∈ oneEvent.tracked, ∀ q ∈ raisingBus.queuesOf entity,
        ∀ queued ∈ oneEvent.queues q, ∀ handler,
          s'.handed queued.number handler =
            (raisingBus.handlers queued.event).count handler := by
  have hsteps : ∀ depth, ∀ done ∈
      (raisingBus.dispatchDomainEvents depth [] oneEvent).session.steps,
      done = .hands 1 0 ∨ done = .raises ⟨1, 0⟩ ⟨2, 0⟩ ∨ done = .hands 0 0 := by
    intro depth done hdone
    cases depth with
    | zero => cases hdone
    | succ depth =>
      have heq : (raisingBus.dispatchDomainEvents (depth + 1) [] oneEvent).session.steps =
          [.hands 1 0, .raises ⟨1, 0⟩ ⟨2, 0⟩, .hands 0 0] := rfl
      rw [heq] at hdone
      simpa using hdone
  apply delivered_once oneEvent_committed
  · intro depth own target h
    have hraise := hsteps depth _ h
    simp at hraise
    simp [hraise]
  · intro depth h
    simpa using hsteps depth _ h

/-- A handler that commits when it gets an event for the first time. -/
private def committingBus : EventBus Unit where
  members _ := 1
  handlers _ := [0]
  code _ _ := .look fun s => if s.handed 0 0 = 1 then .commit id .done else .done

/-- The nested dispatch finds the event in its queue and hands it out again. -/
theorem commit_hands_twice :
    oneEvent.Committed ∧ ∃ s',
      (∀ depth, committingBus.dispatchDomainEvents (depth + 2) [] oneEvent = .returns s') ∧
        s'.handed 0 0 = 2 ∧ (committingBus.handlers ()).count 0 = 1 :=
  ⟨oneEvent_committed, _, fun _ => rfl, rfl, rfl⟩

end MetalOrm.Native
