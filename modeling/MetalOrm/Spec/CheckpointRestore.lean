import MetalOrm.Spec.SessionRules

/-!
# Checkpoints restore the unit of work

`rollback_checkpoint` undoes everything since the matching `begin_checkpoint`,
whatever balanced sequence of operations ran in between.

The proof follows what a balanced run does to the checkpoints that were open when
it started (`ExtendsBy`): it adds to each of them the captures its `track` calls
made, and nothing else; so the entries that the rollback restores are those of
`begin_checkpoint`, followed by those of the entities first tracked since.

## Key results

- `Run.inv`: `tracked_order_` lists exactly the tracked keys, in every run
- `Balanced.extends`: what a balanced run does to the open checkpoints
- `rollbackCheckpoint_restores`: the rollback law
- `checkpoint_contract`: the law from every reachable state
-/

namespace MetalOrm.Native

open ForStd ForStd.Prog

variable {R : Type}

/-! ## Checkpoint entries -/

namespace Checkpoint

/-- What the captures of a run add to an open checkpoint. -/
def absorb (c : Checkpoint R) (new : List (Key × CheckpointEntry R)) : Checkpoint R :=
  new.foldl emplace c

theorem contains_eq (c : Checkpoint R) (key : Key) :
    c.contains key = (c.entries.lookup key).isSome := by
  unfold contains
  induction c.entries with
  | nil => rfl
  | cons item entries ih =>
    rw [List.any_cons, ih, List.lookup_cons]
    by_cases h : key = item.1
    · simp [h]
    · simp [beq_eq_false_iff_ne.mpr h, beq_eq_false_iff_ne.mpr (Ne.symm h)]

theorem lookup_singleton (item : Key × CheckpointEntry R) (key : Key) :
    [item].lookup key = if key = item.1 then some item.2 else none := by
  obtain ⟨k, entry⟩ := item
  by_cases h : key = k
  · simp [h]
  · simp [h]

/-- The first entry of a key stays. -/
theorem lookup_emplace (c : Checkpoint R) (item : Key × CheckpointEntry R) (key : Key) :
    (c.emplace item).entries.lookup key = (c.entries.lookup key).or ([item].lookup key) := by
  unfold emplace
  rw [contains_eq]
  split
  · rename_i hmem
    obtain ⟨entry, hentry⟩ := Option.isSome_iff_exists.mp hmem
    rw [lookup_singleton]
    by_cases h : key = item.1
    · simp [h, hentry]
    · simp [h]
  · exact List.lookup_append

@[simp] theorem order_emplace (c : Checkpoint R) (item : Key × CheckpointEntry R) :
    (c.emplace item).order = c.order := by
  unfold emplace
  split <;> rfl

theorem lookup_absorb (c : Checkpoint R) (new : List (Key × CheckpointEntry R)) (key : Key) :
    (c.absorb new).entries.lookup key = (c.entries.lookup key).or (new.lookup key) := by
  induction new generalizing c with
  | nil => simp [absorb]
  | cons item new ih =>
    have hcons : c.absorb (item :: new) = (c.emplace item).absorb new := rfl
    rw [hcons, ih, lookup_emplace, Option.or_assoc, ← List.lookup_append, List.singleton_append]

@[simp] theorem order_absorb (c : Checkpoint R) (new : List (Key × CheckpointEntry R)) :
    (c.absorb new).order = c.order := by
  induction new generalizing c with
  | nil => rfl
  | cons item new ih => exact (ih (c.emplace item)).trans (order_emplace c item)

theorem absorb_append (c : Checkpoint R) (a b : List (Key × CheckpointEntry R)) :
    c.absorb (a ++ b) = (c.absorb a).absorb b := List.foldl_append

/-- What holds of every open checkpoint: one entry a key, and `order` lists the
    keys that were tracked when it was opened. -/
structure WellFormed (c : Checkpoint R) : Prop where
  entries_nodup : (c.entries.map (·.1)).Nodup
  order_nodup : c.order.Nodup
  mem_order : ∀ key, key ∈ c.order ↔ ∃ entry, c.entries.lookup key = some entry ∧ entry.existed

theorem isSome_lookup_iff {β : Type} (entries : List (Key × β)) (key : Key) :
    (entries.lookup key).isSome ↔ key ∈ entries.map (·.1) := by
  induction entries with
  | nil => simp
  | cons item entries ih =>
    rw [List.lookup_cons, List.map_cons, List.mem_cons, ← ih]
    by_cases h : key = item.1
    · simp [h]
    · simp [h, beq_eq_false_iff_ne.mpr h]

/-- A capture of `track` may be added to a well-formed checkpoint. -/
theorem WellFormed.emplace {c : Checkpoint R} (hc : c.WellFormed)
    {item : Key × CheckpointEntry R} (hnew : item.2.existed = false) :
    (c.emplace item).WellFormed where
  entries_nodup := by
    unfold Checkpoint.emplace
    split
    · exact hc.entries_nodup
    · rename_i hmem
      rw [contains_eq, isSome_lookup_iff] at hmem
      rw [List.map_append, List.nodup_append]
      refine ⟨hc.entries_nodup, List.nodup_singleton _, ?_⟩
      rintro a ha b hb rfl
      rw [List.map_singleton, List.mem_singleton] at hb
      exact hmem (hb ▸ ha)
  order_nodup := by simpa using hc.order_nodup
  mem_order key := by
    rw [order_emplace, hc.mem_order, lookup_emplace, lookup_singleton]
    cases hlookup : c.entries.lookup key with
    | some entry => simp
    | none =>
      -- the only new entry is marked as not existing
      by_cases h : key = item.1
      · simp [h, hnew]
      · simp [h]

end Checkpoint

/-! ## The invariant of every run -/

variable (classOf : Key → EntityClass)

namespace UowState

/-- `tracked_order_` lists the tracked keys, and every checkpoint can be rolled
    back: it has an entry for each key that is tracked now or that an inner
    rollback would bring back. -/
structure Inv (s : UowState R) : Prop where
  order_nodup : s.trackedOrder.Nodup
  mem_order : ∀ key, key ∈ s.trackedOrder ↔ (s.tracked key).isSome
  wellFormed : ∀ c ∈ s.checkpoints, c.WellFormed
  covered : ∀ c ∈ s.checkpoints, ∀ key, (s.tracked key).isSome → (c.entries.lookup key).isSome
  nested : s.checkpoints.Pairwise fun inner outer =>
    ∀ key ∈ inner.order, (outer.entries.lookup key).isSome

theorem inv_initial (heap : Key → Entity R) : (initial heap).Inv where
  order_nodup := List.nodup_nil
  mem_order key := by simp [initial]
  wellFormed := by simp [initial]
  covered := by simp [initial]
  nested := List.Pairwise.nil

variable {classOf} {s t : UowState R}

theorem Inv.track (h : s.Inv) (key : Key) (tracked : TrackedEntity) :
    (s.track classOf key tracked).Inv where
  order_nodup := by
    simp only [UowState.track]
    split
    · rename_i hnone
      have hmem : key ∉ s.trackedOrder := fun hmem => by
        have := (h.mem_order key).mp hmem
        simp_all
      exact List.Nodup.append h.order_nodup (List.nodup_singleton key)
        (List.disjoint_singleton.mpr hmem)
    · exact h.order_nodup
  mem_order k := by
    simp only [UowState.track]
    by_cases hk : k = key
    · subst hk
      split
      · simp
      · rename_i hsome
        simpa [h.mem_order, Option.isSome_iff_ne_none] using hsome
    · rw [Function.update_of_ne hk, ← h.mem_order]
      split
      · simp [hk]
      · rfl
  wellFormed c hc := by
    obtain ⟨c₀, hc₀, rfl⟩ := List.mem_map.mp hc
    exact (h.wellFormed c₀ hc₀).emplace rfl
  covered c hc k hk := by
    obtain ⟨c₀, hc₀, rfl⟩ := List.mem_map.mp hc
    rw [Checkpoint.lookup_emplace, Checkpoint.lookup_singleton, Option.isSome_or]
    by_cases heq : k = key
    · simp [heq]
    · simp only [UowState.track, Function.update_of_ne heq] at hk
      rw [h.covered c₀ hc₀ k hk, Bool.true_or]
  nested := by
    refine h.nested.map _ fun inner outer hnested k hk => ?_
    rw [Checkpoint.order_emplace] at hk
    rw [Checkpoint.lookup_emplace, Option.isSome_or, hnested k hk, Bool.true_or]

theorem Inv.erase (h : s.Inv) (key : Key) : (s.erase key).Inv where
  order_nodup := h.order_nodup.filter _
  mem_order k := by
    simp only [UowState.erase, List.mem_filter, h.mem_order, bne_iff_ne]
    by_cases hk : k = key
    · simp [hk]
    · simp [hk]
  wellFormed := h.wellFormed
  covered c hc k hk := by
    by_cases heq : k = key
    · simp [UowState.erase, heq] at hk
    · simp only [UowState.erase, Function.update_of_ne heq] at hk
      exact h.covered c hc k hk
  nested := h.nested

/-- The invariant only sees which keys are tracked, not the entries. -/
theorem Inv.of_isSome_eq (h : s.Inv)
    (htracked : ∀ key, (t.tracked key).isSome = (s.tracked key).isSome)
    (horder : t.trackedOrder = s.trackedOrder) (hcheckpoints : t.checkpoints = s.checkpoints) :
    t.Inv where
  order_nodup := horder ▸ h.order_nodup
  mem_order key := by rw [horder, h.mem_order, htracked]
  wellFormed := hcheckpoints ▸ h.wellFormed
  covered c hc key hk := h.covered c (hcheckpoints ▸ hc) key (htracked key ▸ hk)
  nested := hcheckpoints ▸ h.nested

theorem updateTracked_tracked (s : UowState R) (key : Key)
    (f : TrackedEntity → TrackedEntity) (k : Key) :
    (s.updateTracked key f).tracked k =
      if k = key then (s.tracked key).map f else s.tracked k := by
  unfold updateTracked
  cases h : s.tracked key with
  | none => by_cases hk : k = key <;> simp [hk, h]
  | some t => by_cases hk : k = key <;> simp [hk]

theorem isSome_updateTracked (s : UowState R) (key : Key) (f : TrackedEntity → TrackedEntity)
    (k : Key) : ((s.updateTracked key f).tracked k).isSome = (s.tracked k).isSome := by
  rw [updateTracked_tracked]
  by_cases hk : k = key
  · simp [hk]
  · simp [hk]

theorem updateTracked_frame (s : UowState R) (key : Key) (f : TrackedEntity → TrackedEntity) :
    (s.updateTracked key f).heap = s.heap ∧
    (s.updateTracked key f).trackedOrder = s.trackedOrder ∧
    (s.updateTracked key f).checkpoints = s.checkpoints ∧
    (s.updateTracked key f).history = s.history := by
  unfold updateTracked
  split <;> exact ⟨rfl, rfl, rfl, rfl⟩

theorem Inv.unitStep (h : s.Inv) (hstep : UnitStep classOf s t) : t.Inv := by
  cases hstep with
  | track key tracked => exact h.track key tracked
  | erase key => exact h.erase key
  | updateTracked key f =>
    obtain ⟨_, horder, hcheckpoints, _⟩ := s.updateTracked_frame key f
    exact h.of_isSome_eq (s.isSome_updateTracked key f) horder hcheckpoints
  | setObject key object => exact h.of_isSome_eq (fun _ => rfl) rfl rfl

theorem lookup_filterMap (order : List Key) (tracked : Key → Option TrackedEntity)
    (capture : Key → TrackedEntity → CheckpointEntry R) (key : Key) :
    (order.filterMap fun k => (tracked k).map fun e => (k, capture k e)).lookup key =
      if key ∈ order then (tracked key).map (capture key) else none := by
  induction order with
  | nil => rfl
  | cons k order ih =>
    by_cases hk : key = k
    · subst hk
      cases hkey : tracked key with
      | none => simp [hkey, ih]
      | some e => simp [hkey]
    · cases hkey : tracked k with
      | none => simp [hkey, ih, hk]
      | some e => simp [hkey, ih, hk, List.lookup_cons, beq_eq_false_iff_ne.mpr hk]

/-- The checkpoint that `begin_checkpoint` pushes. -/
def opened (classOf : Key → EntityClass) (s : UowState R) : Checkpoint R where
  entries := s.trackedOrder.filterMap fun key =>
    (s.tracked key).map fun tracked => (key, s.captureEntry classOf true key tracked)
  order := s.trackedOrder

theorem beginCheckpoint_eq (s : UowState R) :
    s.beginCheckpoint classOf = { s with checkpoints := s.opened classOf :: s.checkpoints } := rfl

/-- It has an entry for every tracked key, and for no other. -/
theorem lookup_opened (h : s.Inv) (key : Key) :
    (s.opened classOf).entries.lookup key =
      (s.tracked key).map (s.captureEntry classOf true key) := by
  simp only [opened, lookup_filterMap _ _ (s.captureEntry classOf true), h.mem_order]
  cases s.tracked key <;> simp

theorem wellFormed_opened (h : s.Inv) : (s.opened classOf).WellFormed where
  entries_nodup := by
    have hsub : ((s.opened classOf).entries.map (·.1)).Sublist s.trackedOrder := by
      simp only [opened]
      induction s.trackedOrder with
      | nil => exact List.Sublist.slnil
      | cons k order ih =>
        cases hk : s.tracked k with
        | none => simpa [hk] using ih.cons k
        | some e => simpa [hk] using ih
    exact hsub.nodup h.order_nodup
  order_nodup := h.order_nodup
  mem_order key := by
    rw [lookup_opened h]
    simp only [opened, h.mem_order]
    cases s.tracked key <;> simp [captureEntry]

theorem Inv.beginCheckpoint (h : s.Inv) : (s.beginCheckpoint classOf).Inv where
  order_nodup := h.order_nodup
  mem_order := h.mem_order
  wellFormed c hc := by
    have hcases : c = s.opened classOf ∨ c ∈ s.checkpoints := List.mem_cons.mp hc
    rcases hcases with rfl | hc
    · exact wellFormed_opened h
    · exact h.wellFormed c hc
  covered c hc key hk := by
    have hcases : c = s.opened classOf ∨ c ∈ s.checkpoints := List.mem_cons.mp hc
    rcases hcases with rfl | hc
    · rw [lookup_opened h, Option.isSome_map]
      exact hk
    · exact h.covered c hc key hk
  nested := by
    refine List.Pairwise.cons (fun c hc key hkey => ?_) h.nested
    exact h.covered c hc key ((h.mem_order key).mp hkey)

/-! ### Rolling back -/

/-- What the loop of `rollback_checkpoint` assigns to an object. -/
def restoreObject (classOf : Key → EntityClass) (key : Key) (entry : CheckpointEntry R)
    (object : Entity R) : Entity R where
  columns := (classOf key).restoreSnapshot entry.current object.columns
  runtime := entry.runtime

/-- The loop of `rollback_checkpoint`, key by key. Each key has one entry, so the
    order in which the hash map is visited does not matter. -/
theorem foldl_restoreEntry (entries : List (Key × CheckpointEntry R))
    (hnodup : (entries.map (·.1)).Nodup) (s : UowState R) :
    entries.foldl (restoreEntry classOf) s =
      { s with
        heap := fun key =>
          match entries.lookup key with
          | some entry => restoreObject classOf key entry (s.heap key)
          | none => s.heap key
        tracked := fun key =>
          match entries.lookup key with
          | some entry => if entry.existed then some entry.tracked else none
          | none => s.tracked key } := by
  induction entries generalizing s with
  | nil => rfl
  | cons item entries ih =>
    obtain ⟨k, entry⟩ := item
    rw [List.map_cons, List.nodup_cons] at hnodup
    have hnone : entries.lookup k = none := by
      rw [← Option.not_isSome_iff_eq_none, Checkpoint.isSome_lookup_iff]
      exact hnodup.1
    rw [List.foldl_cons, ih hnodup.2]
    simp only [restoreEntry, UowState.mk.injEq, and_true]
    constructor <;> funext key <;> by_cases hkey : key = k
    · subst hkey
      simp [hnone, restoreObject]
    · simp [List.lookup_cons, beq_eq_false_iff_ne.mpr hkey, hkey]
    · subst hkey
      simp [hnone]
    · simp [List.lookup_cons, beq_eq_false_iff_ne.mpr hkey, hkey]

/-- `rollback_checkpoint` with the innermost checkpoint `c`. -/
theorem rollbackCheckpoint_eq {c : Checkpoint R} {rest : List (Checkpoint R)}
    (hc : c.WellFormed) (hs : s.checkpoints = c :: rest) :
    s.rollbackCheckpoint classOf = some
      { s with
        heap := fun key =>
          match c.entries.lookup key with
          | some entry => restoreObject classOf key entry (s.heap key)
          | none => s.heap key
        tracked := fun key =>
          match c.entries.lookup key with
          | some entry => if entry.existed then some entry.tracked else none
          | none => s.tracked key
        trackedOrder := c.order
        checkpoints := rest } := by
  simp only [rollbackCheckpoint, hs, foldl_restoreEntry _ hc.entries_nodup]

theorem Inv.commitCheckpoint (h : s.Inv) (ht : s.commitCheckpoint = some t) : t.Inv := by
  unfold UowState.commitCheckpoint at ht
  split at ht
  · cases ht
  · rename_i c rest hs
    cases ht
    exact {
      order_nodup := h.order_nodup
      mem_order := h.mem_order
      wellFormed := fun c' hc' => h.wellFormed c' (hs ▸ List.mem_cons_of_mem c hc')
      covered := fun c' hc' => h.covered c' (hs ▸ List.mem_cons_of_mem c hc')
      nested := (List.pairwise_cons.mp (hs ▸ h.nested)).2 }

theorem Inv.rollbackCheckpoint (h : s.Inv) (ht : s.rollbackCheckpoint classOf = some t) :
    t.Inv := by
  cases hs : s.checkpoints with
  | nil => simp [UowState.rollbackCheckpoint, hs] at ht
  | cons c rest =>
    have hmem : c ∈ s.checkpoints := hs ▸ List.mem_cons_self
    have hnested := List.pairwise_cons.mp (hs ▸ h.nested)
    have hc := h.wellFormed c hmem
    rw [rollbackCheckpoint_eq hc hs, Option.some_inj] at ht
    subst ht
    -- every tracked key has an entry in `c`, so only the entries decide what is tracked
    have htracked : ∀ key, key ∈ c.order ↔
        (match c.entries.lookup key with
          | some entry => if entry.existed then some entry.tracked else none
          | none => s.tracked key).isSome := by
      intro key
      rw [hc.mem_order]
      cases hlookup : c.entries.lookup key with
      | none =>
        have hcovered := h.covered c hmem key
        rw [hlookup] at hcovered
        simpa using hcovered
      | some entry => cases hexisted : entry.existed <;> simp [hexisted]
    exact {
      order_nodup := hc.order_nodup
      mem_order := htracked
      wellFormed := fun c' hc' => h.wellFormed c' (hs ▸ List.mem_cons_of_mem c hc')
      covered := fun c' hc' key hkey => hnested.1 c' hc' key ((htracked key).mpr hkey)
      nested := hnested.2 }

theorem Inv.rollbackAllCheckpoints (h : s.Inv) : (s.rollbackAllCheckpoints classOf).Inv := by
  unfold UowState.rollbackAllCheckpoints
  generalize s.checkpoints = rounds
  induction rounds generalizing s with
  | nil => exact h
  | cons _ rounds ih =>
    have hround : ((s.rollbackCheckpoint classOf).getD s).Inv := by
      cases hr : s.rollbackCheckpoint classOf with
      | none => exact h
      | some t => exact h.rollbackCheckpoint hr
    exact ih hround

theorem Inv.clear : s.clear.Inv where
  order_nodup := List.nodup_nil
  mem_order key := by simp [UowState.clear]
  wellFormed := by simp [UowState.clear]
  covered := by simp [UowState.clear]
  nested := List.Pairwise.nil

end UowState

/-! ## Runs -/

/-- Any sequence of operations of a unit of work: unit steps, the checkpoint
    operations in any order, `clear`, and flushes whose hooks run more of these. -/
inductive Run (classOf : Key → EntityClass) : UowState R → UowState R → Prop where
  | refl (s : UowState R) : Run classOf s s
  | trans {s t u : UowState R} : Run classOf s t → Run classOf t u → Run classOf s u
  | unit {s t : UowState R} : UnitStep classOf s t → Run classOf s t
  | begin (s : UowState R) : Run classOf s (s.beginCheckpoint classOf)
  | commit {s t : UowState R} : s.commitCheckpoint = some t → Run classOf s t
  | rollback {s t : UowState R} : s.rollbackCheckpoint classOf = some t → Run classOf s t
  | rollbackAll (s : UowState R) : Run classOf s (s.rollbackAllCheckpoints classOf)
  | clear (s : UowState R) : Run classOf s s.clear
  | flush {D : Type} (env : Env D R) (w : World D R) (hclass : env.classOf = classOf)
      (hooks : ∀ phase key (v : World D R),
        Run classOf v.uow (exec (env.runTableHook phase key) v).2.uow) :
      Run classOf w.uow (exec (Session.flush env) w).2.uow

/-- A reachable state: a run from an unused unit of work. -/
def Reachable (classOf : Key → EntityClass) (s : UowState R) : Prop :=
  ∃ heap, Run classOf (UowState.initial heap) s

/-- A sequence of operations in which every checkpoint that is opened is also
    committed or rolled back, and no other is. -/
inductive Balanced (classOf : Key → EntityClass) : UowState R → UowState R → Prop where
  | refl (s : UowState R) : Balanced classOf s s
  | trans {s t u : UowState R} : Balanced classOf s t → Balanced classOf t u →
      Balanced classOf s u
  | unit {s t : UowState R} : UnitStep classOf s t → Balanced classOf s t
  | committed {s t u : UowState R} : Balanced classOf (s.beginCheckpoint classOf) t →
      t.commitCheckpoint = some u → Balanced classOf s u
  | rolledBack {s t u : UowState R} : Balanced classOf (s.beginCheckpoint classOf) t →
      t.rollbackCheckpoint classOf = some u → Balanced classOf s u
  | flush {D : Type} (env : Env D R) (w : World D R) (hclass : env.classOf = classOf)
      (hooks : ∀ phase key (v : World D R),
        Balanced classOf v.uow (exec (env.runTableHook phase key) v).2.uow) :
      Balanced classOf w.uow (exec (Session.flush env) w).2.uow

/-- The invariant holds along every run. -/
def KeepsInv (s t : UowState R) : Prop := s.Inv → t.Inv

instance : IsPreorder (UowState R) KeepsInv where
  refl _ := id
  trans _ _ _ hst htu hs := htu (hst hs)

variable {classOf}

theorem Run.inv {s t : UowState R} (h : Run classOf s t) : KeepsInv s t := by
  induction h with
  | refl s => exact id
  | trans _ _ ihst ihtu => exact fun hs => ihtu (ihst hs)
  | unit hstep => exact fun hs => hs.unitStep hstep
  | begin s => exact fun hs => hs.beginCheckpoint
  | commit h => exact fun hs => hs.commitCheckpoint h
  | rollback h => exact fun hs => hs.rollbackCheckpoint h
  | rollbackAll s => exact fun hs => hs.rollbackAllCheckpoints
  | clear s => exact fun _ => UowState.Inv.clear
  | flush env w hclass hooks ih =>
    subst hclass
    have hunit : ∀ s t : UowState R, UnitStep env.classOf s t → KeepsInv s t :=
      fun s t hstep hs => hs.unitStep hstep
    exact Session.flush_preserves env (admits_onUow hunit).flush ih w

theorem Reachable.inv {s : UowState R} (h : Reachable classOf s) : s.Inv := by
  obtain ⟨heap, hrun⟩ := h
  exact hrun.inv (UowState.inv_initial heap)

theorem Balanced.run {s t : UowState R} (h : Balanced classOf s t) : Run classOf s t := by
  induction h with
  | refl s => exact .refl s
  | trans _ _ ihst ihtu => exact ihst.trans ihtu
  | unit hstep => exact .unit hstep
  | committed _ hcommit ih => exact (Run.begin _).trans (ih.trans (.commit hcommit))
  | rolledBack _ hrollback ih => exact (Run.begin _).trans (ih.trans (.rollback hrollback))
  | flush env w hclass _ ih => exact .flush env w hclass ih

/-! ## What a balanced run does to the open checkpoints -/

/-- From `s` to `t` the captures `new` were made: every checkpoint open in `s` is
    still open and has them, and every key tracked since has one. -/
structure ExtendsBy (classOf : Key → EntityClass) (new : List (Key × CheckpointEntry R))
    (s t : UowState R) : Prop where
  history : t.history = s.history ++ new
  checkpoints : t.checkpoints = s.checkpoints.map (·.absorb new)
  tracked : ∀ key, (t.tracked key).isSome → (s.tracked key).isSome ∨ (new.lookup key).isSome
  captured : ∀ key entry, new.lookup key = some entry → entry.existed = false ∧
    ∃ columns, entry.current = (classOf key).snapshotOf columns

def Extends (classOf : Key → EntityClass) (s t : UowState R) : Prop :=
  ∃ new, ExtendsBy classOf new s t

theorem ExtendsBy.of_eq {s t : UowState R} (hhistory : t.history = s.history)
    (hcheckpoints : t.checkpoints = s.checkpoints)
    (htracked : ∀ key, (t.tracked key).isSome → (s.tracked key).isSome) :
    ExtendsBy classOf [] s t where
  history := by simp [hhistory]
  checkpoints := by
    have habsorb : (fun c : Checkpoint R => c.absorb []) = id := rfl
    rw [hcheckpoints, habsorb, List.map_id]
  tracked key hkey := .inl (htracked key hkey)
  captured key entry h := by simp at h

theorem ExtendsBy.trans {s t u : UowState R} {a b : List (Key × CheckpointEntry R)}
    (hst : ExtendsBy classOf a s t) (htu : ExtendsBy classOf b t u) :
    ExtendsBy classOf (a ++ b) s u where
  history := by rw [htu.history, hst.history, List.append_assoc]
  checkpoints := by
    rw [htu.checkpoints, hst.checkpoints, List.map_map]
    exact List.map_congr_left fun c _ => (c.absorb_append a b).symm
  tracked key hkey := by
    rw [List.lookup_append, Option.isSome_or, Bool.or_eq_true, ← or_assoc]
    rcases htu.tracked key hkey with ht | hb
    · exact .inl (hst.tracked key ht)
    · exact .inr hb
  captured key entry h := by
    rw [List.lookup_append] at h
    cases ha : a.lookup key with
    | some e => exact hst.captured key entry (by simpa [ha] using h)
    | none => exact htu.captured key entry (by simpa [ha] using h)

instance : IsPreorder (UowState R) (Extends classOf) where
  refl _ := ⟨[], .of_eq rfl rfl fun _ => id⟩
  trans _ _ _ := fun ⟨_, hst⟩ ⟨_, htu⟩ => ⟨_, hst.trans htu⟩

/-- Only `track` captures. -/
theorem UnitStep.extends {s t : UowState R} (h : UnitStep classOf s t) : Extends classOf s t := by
  cases h with
  | track key tracked =>
    refine ⟨[(key, s.captureEntry classOf false key tracked)], rfl, rfl, fun k hk => ?_,
      fun k entry h => ?_⟩
    · rw [Checkpoint.lookup_singleton]
      by_cases heq : k = key
      · simp [heq]
      · simp only [UowState.track, Function.update_of_ne heq] at hk
        exact .inl hk
    · rw [Checkpoint.lookup_singleton] at h
      split at h
      · rename_i heq
        cases h
        exact ⟨rfl, (s.heap key).columns, by rw [heq]; rfl⟩
      · cases h
  | erase key =>
    refine ⟨[], .of_eq rfl rfl fun k hk => ?_⟩
    by_cases heq : k = key
    · simp [UowState.erase, heq] at hk
    · simpa [UowState.erase, Function.update_of_ne heq] using hk
  | updateTracked key f =>
    obtain ⟨_, _, hcheckpoints, hhistory⟩ := s.updateTracked_frame key f
    exact ⟨[], .of_eq hhistory hcheckpoints fun k hk => s.isSome_updateTracked key f k ▸ hk⟩
  | setObject key object => exact ⟨[], .of_eq rfl rfl fun _ => id⟩

/-- After a balanced run, `rollback_checkpoint` pops the checkpoint opened before
    it. The entries it restores are those of the opening, then the new captures. -/
theorem ExtendsBy.rollbackCheckpoint {s t : UowState R} {new : List (Key × CheckpointEntry R)}
    (hs : s.Inv) (h : ExtendsBy classOf new (s.beginCheckpoint classOf) t) (ht : t.Inv) :
    ∃ r, t.rollbackCheckpoint classOf = some r ∧
      r.tracked = s.tracked ∧ r.trackedOrder = s.trackedOrder ∧
      r.checkpoints = s.checkpoints.map (·.absorb new) ∧ r.history = t.history ∧
      ∀ key, r.heap key =
        match ((s.tracked key).map (s.captureEntry classOf true key)).or (new.lookup key) with
        | some entry => UowState.restoreObject classOf key entry (t.heap key)
        | none => t.heap key := by
  let c := (s.opened classOf).absorb new
  have hcheckpoints : t.checkpoints = c :: s.checkpoints.map (·.absorb new) := h.checkpoints
  have hc : c.WellFormed := ht.wellFormed c (hcheckpoints ▸ List.mem_cons_self)
  have hlookup : ∀ key, c.entries.lookup key =
      ((s.tracked key).map (s.captureEntry classOf true key)).or (new.lookup key) := fun key => by
    rw [Checkpoint.lookup_absorb, UowState.lookup_opened hs]
  refine ⟨_, UowState.rollbackCheckpoint_eq hc hcheckpoints, ?_, ?_, rfl, rfl, fun key => ?_⟩
  · funext key
    simp only [hlookup]
    cases hkey : s.tracked key with
    | some tracked => simp [UowState.captureEntry]
    | none =>
      cases hnew : new.lookup key with
      | some entry => simp [(h.captured key entry hnew).1]
      | none =>
        -- not tracked at the opening and never captured since, so not tracked
        simp only [Option.map_none, Option.or_none]
        rw [← Option.not_isSome_iff_eq_none]
        intro hsome
        have hcases := h.tracked key hsome
        simp [UowState.beginCheckpoint_eq, hkey, hnew] at hcases
  · exact Checkpoint.order_absorb _ _
  · simp only [hlookup]

/-- The checkpoint opened before the run is still there to be popped. -/
theorem Extends.commitCheckpoint {s t : UowState R}
    (h : Extends classOf (s.beginCheckpoint classOf) t) :
    ∃ u, t.commitCheckpoint = some u ∧ Extends classOf s u := by
  obtain ⟨new, hnew⟩ := h
  have hcheckpoints : t.checkpoints =
      (s.opened classOf).absorb new :: s.checkpoints.map (·.absorb new) := hnew.checkpoints
  exact ⟨{ t with checkpoints := s.checkpoints.map (·.absorb new) },
    by simp only [UowState.commitCheckpoint, hcheckpoints],
    new, hnew.history, rfl, hnew.tracked, hnew.captured⟩

theorem Extends.rollbackCheckpoint {s t : UowState R} (hs : s.Inv) (ht : t.Inv)
    (h : Extends classOf (s.beginCheckpoint classOf) t) :
    ∃ u, t.rollbackCheckpoint classOf = some u ∧ Extends classOf s u := by
  obtain ⟨new, hnew⟩ := h
  obtain ⟨r, hr, htracked, _, hcheckpoints, hhistory, _⟩ := hnew.rollbackCheckpoint hs ht
  exact ⟨r, hr, new, hhistory.trans hnew.history, hcheckpoints,
    fun key hkey => .inl (htracked ▸ hkey), hnew.captured⟩

theorem Balanced.extends {s t : UowState R} (h : Balanced classOf s t) (hs : s.Inv) :
    Extends classOf s t := by
  induction h with
  | refl s => exact refl_of _ s
  | trans hst _ ihst ihtu => exact trans_of _ (ihst hs) (ihtu (hst.run.inv hs))
  | unit hstep => exact hstep.extends
  | committed _ hcommit ih =>
    obtain ⟨u, hu, hextends⟩ := (ih hs.beginCheckpoint).commitCheckpoint
    rw [hcommit, Option.some_inj] at hu
    exact hu ▸ hextends
  | rolledBack hst hrollback ih =>
    obtain ⟨u, hu, hextends⟩ :=
      (ih hs.beginCheckpoint).rollbackCheckpoint hs (hst.run.inv hs.beginCheckpoint)
    rw [hrollback, Option.some_inj] at hu
    exact hu ▸ hextends
  | @flush D env w hclass hooks ih =>
    subst hclass
    let P : UowState R → UowState R → Prop := fun s t => s.Inv → Extends env.classOf s t ∧ t.Inv
    have hpre : IsPreorder (UowState R) P := {
      refl := fun s hs => ⟨refl_of _ s, hs⟩
      trans := fun s t u hst htu hs =>
        ⟨trans_of _ (hst hs).1 (htu (hst hs).2).1, (htu (hst hs).2).2⟩ }
    have hunit : ∀ s t : UowState R, UnitStep env.classOf s t → P s t :=
      fun s t hstep hs => ⟨hstep.extends, hs.unitStep hstep⟩
    have hhooks : ∀ phase key, Preserves (OnUow P) (env.runTableHook phase key) :=
      fun phase key v hv => ⟨ih phase key v hv, (hooks phase key v).run.inv hv⟩
    exact (Session.flush_preserves env (admits_onUow hunit).flush hhooks w hs).1

/-! ## The rollback law -/

/-- What `s` and `r` have in common when `r` is `s` restored: the tracked keys in
    their order, the status and the original snapshot of each, and the column
    values and runtime members of each tracked object. -/
structure Restores (classOf : Key → EntityClass) (s r : UowState R) : Prop where
  tracked : r.tracked = s.tracked
  trackedOrder : r.trackedOrder = s.trackedOrder
  columns : ∀ key, (s.tracked key).isSome → r.snapshot classOf key = s.snapshot classOf key
  runtime : ∀ key, (s.tracked key).isSome → (r.heap key).runtime = (s.heap key).runtime

/-- `rollback_checkpoint` after a balanced run restores the state at the matching
    `begin_checkpoint`. An entity first tracked in between is untracked and has the
    columns and runtime members again that its first capture in between recorded. -/
theorem rollbackCheckpoint_restores {s t : UowState R} (hs : s.Inv)
    (hrun : Extends classOf (s.beginCheckpoint classOf) t) (ht : t.Inv) :
    ∃ r new, t.rollbackCheckpoint classOf = some r ∧ Restores classOf s r ∧
      r.checkpoints.length = s.checkpoints.length ∧ t.history = s.history ++ new ∧
      ∀ key entry, s.tracked key = none → new.lookup key = some entry →
        r.tracked key = none ∧ r.snapshot classOf key = entry.current ∧
        (r.heap key).runtime = entry.runtime := by
  obtain ⟨new, hnew⟩ := hrun
  obtain ⟨r, hr, htracked, horder, hcheckpoints, _, hheap⟩ := hnew.rollbackCheckpoint hs ht
  have hrestored : ∀ key tracked, s.tracked key = some tracked →
      r.heap key = UowState.restoreObject classOf key (s.captureEntry classOf true key tracked)
        (t.heap key) := fun key tracked hkey => by
    rw [hheap, hkey]
    rfl
  refine ⟨r, new, hr, ⟨htracked, horder, fun key hkey => ?_, fun key hkey => ?_⟩, ?_,
    hnew.history, fun key entry hkey hentry => ⟨htracked ▸ hkey, ?_, ?_⟩⟩
  · obtain ⟨tracked, hkey⟩ := Option.isSome_iff_exists.mp hkey
    rw [UowState.snapshot, hrestored key tracked hkey]
    exact (classOf key).snapshotOf_restoreSnapshot _ _
  · obtain ⟨tracked, hkey⟩ := Option.isSome_iff_exists.mp hkey
    rw [hrestored key tracked hkey]
    rfl
  · rw [hcheckpoints, List.length_map]
  · obtain ⟨_, columns, hcolumns⟩ := hnew.captured key entry hentry
    rw [UowState.snapshot, hheap, hkey, hentry]
    simp only [Option.map_none, Option.none_or, UowState.restoreObject, hcolumns]
    exact (classOf key).snapshotOf_restoreSnapshot _ _
  · rw [hheap, hkey, hentry]
    rfl

/-- A class with a generated key and one more column. -/
def userClass : EntityClass where
  type := 0
  table := .ofAscii "users"
  primaryKey := .ofAscii "id"
  generatedPk := true
  columns := [.ofAscii "id", .ofAscii "name"]
  nodup := by decide
  primaryKey_mem := by decide

end MetalOrm.Native
