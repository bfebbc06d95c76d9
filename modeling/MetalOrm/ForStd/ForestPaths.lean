import Mathlib.Data.List.Chain
import Mathlib.Order.Defs.PartialOrder
import MetalOrm.ForStd.Forest

/-!
# Places in a forest

What lies below a node, what lies above it, and what stands beside it: `Below f x c` says that `c`
is the forest of the children of `x`, a lineage is the chain of parents that ends at a node, and a
list of siblings is the list of the roots or of the children of a node.

## Key results

- `Below.mem_nodes_iff`: the nodes below `x` are its descendants
- `exists_lineage`, `mem_lineage_iff`: the chain of parents from a root, and who stands in it
- `Siblings.pairwise_elder`: siblings stand in the order of the forest
-/

namespace MetalOrm.ForStd.Forest

open Relation

variable {α β : Type} {f : Forest α}

/-- Replace every node by its image. -/
def map (g : α → β) : Forest α → Forest β
  | nil => nil
  | cons a c s => cons (g a) (c.map g) (s.map g)

@[simp] theorem map_id (f : Forest α) : f.map id = f := by
  induction f with
  | nil => rfl
  | cons a c s ihc ihs => rw [map, ihc, ihs, id_eq]

/-! ## Descendants -/

/-- `c` is the forest of the children of `x`. -/
inductive Below : Forest α → α → Forest α → Prop
  | top {a : α} {c s : Forest α} : Below (cons a c s) a c
  | inside {a x : α} {c d s : Forest α} (h : Below c x d) : Below (cons a c s) x d
  | beside {a x : α} {c d s : Forest α} (h : Below s x d) : Below (cons a c s) x d

theorem exists_below {x : α} (h : x ∈ f.nodes) : ∃ c, f.Below x c := by
  induction f with
  | nil => cases h
  | cons a c s ihc ihs =>
    obtain rfl | h := List.mem_cons.mp h
    · exact ⟨c, .top⟩
    · obtain h | h := List.mem_append.mp h
      · obtain ⟨d, hd⟩ := ihc h
        exact ⟨d, .inside hd⟩
      · obtain ⟨d, hd⟩ := ihs h
        exact ⟨d, .beside hd⟩

/-- A node and what is below it stand together in preorder. -/
theorem Below.isInfix {x : α} {c : Forest α} (h : f.Below x c) : x :: c.nodes <:+: f.nodes := by
  induction h with
  | @top a c s => exact (List.prefix_append (a :: c.nodes) s.nodes).isInfix
  | @inside a x c d s _ ih =>
    exact (ih.trans (List.prefix_append c.nodes s.nodes).isInfix).trans
      (List.suffix_cons a _).isInfix
  | @beside a x c d s _ ih =>
    exact (ih.trans (List.suffix_append c.nodes s.nodes).isInfix).trans
      (List.suffix_cons a _).isInfix

theorem Below.mem {x : α} {c : Forest α} (h : f.Below x c) : x ∈ f.nodes :=
  h.isInfix.subset List.mem_cons_self

theorem Below.subset {x : α} {c : Forest α} (h : f.Below x c) : c.nodes ⊆ f.nodes :=
  fun _ hy => h.isInfix.subset (List.mem_cons_of_mem x hy)

theorem Below.child {x p b : α} {c : Forest α} (h : f.Below x c) (hb : c.Child p b) :
    f.Child p b := by
  induction h with
  | top => exact .inside hb
  | inside _ ih => exact .inside (ih hb)
  | beside _ ih => exact .beside (ih hb)

theorem Below.elder {x y z : α} {c : Forest α} (h : f.Below x c) (hyz : c.Elder y z) :
    f.Elder y z := by
  induction h with
  | top => exact .inside hyz
  | inside _ ih => exact .inside (ih hyz)
  | beside _ ih => exact .beside (ih hyz)

theorem Below.child_of_mem_roots {x b : α} {c : Forest α} (h : f.Below x c) (hb : b ∈ c.roots) :
    f.Child x b := by
  induction h with
  | top => exact .top hb
  | inside _ ih => exact .inside (ih hb)
  | beside _ ih => exact .beside (ih hb)

theorem Child.exists_below {p b : α} (h : f.Child p b) : ∃ c, f.Below p c ∧ b ∈ c.roots := by
  induction h with
  | @top a b c s hb => exact ⟨c, .top, hb⟩
  | inside _ ih =>
    obtain ⟨c, hc, hb⟩ := ih
    exact ⟨c, .inside hc, hb⟩
  | beside _ ih =>
    obtain ⟨c, hc, hb⟩ := ih
    exact ⟨c, .beside hc, hb⟩

/-- The children of the nodes of a part of the forest are the children they have there. -/
theorem Below.child_inside (hnodup : f.nodes.Nodup) {x p b : α} {c : Forest α} (h : f.Below x c)
    (hp : p = x ∨ p ∈ c.nodes) (hb : f.Child p b) : (cons x c nil).Child p b := by
  induction h with
  | @top a c s =>
    obtain ⟨ha, hcs⟩ := List.nodup_cons.mp hnodup
    obtain ⟨-, -, hapart⟩ := List.nodup_append.mp hcs
    cases hb with
    | top hb => exact .top hb
    | inside hb => exact .inside hb
    | beside hb =>
      obtain rfl | hp := hp
      · exact absurd (List.mem_append_right _ hb.mem_left) ha
      · exact absurd rfl (hapart p hp p hb.mem_left)
  | @inside a x c d s hd ih =>
    obtain ⟨ha, hcs⟩ := List.nodup_cons.mp hnodup
    obtain ⟨hc, -, hapart⟩ := List.nodup_append.mp hcs
    have hpc : p ∈ c.nodes := hp.elim (fun h => h ▸ hd.mem) fun h => hd.subset h
    cases hb with
    | top hb => exact absurd (List.mem_append_left _ hpc) ha
    | inside hb => exact ih hc hp hb
    | beside hb => exact absurd rfl (hapart p hpc p hb.mem_left)
  | @beside a x c d s hd ih =>
    obtain ⟨ha, hcs⟩ := List.nodup_cons.mp hnodup
    obtain ⟨-, hs, hapart⟩ := List.nodup_append.mp hcs
    have hps : p ∈ s.nodes := hp.elim (fun h => h ▸ hd.mem) fun h => hd.subset h
    cases hb with
    | top hb => exact absurd (List.mem_append_right _ hps) ha
    | inside hb => exact absurd rfl (hapart p hb.mem_left p hps)
    | beside hb => exact ih hs hp hb

theorem Below.mem_roots_iff (hnodup : f.nodes.Nodup) {x b : α} {c : Forest α} (h : f.Below x c) :
    b ∈ c.roots ↔ f.Child x b := by
  constructor
  · exact h.child_of_mem_roots
  · intro hb
    have hx : x ∉ c.nodes := (List.nodup_cons.mp (hnodup.sublist h.isInfix.sublist)).1
    cases h.child_inside hnodup (.inl rfl) hb with
    | top hb => exact hb
    | inside hb => exact absurd hb.mem_left hx
    | beside hb => cases hb

/-- The nodes below `x` are its descendants. -/
theorem Below.mem_nodes_iff (hnodup : f.nodes.Nodup) {x y : α} {c : Forest α}
    (h : f.Below x c) : y ∈ c.nodes ↔ TransGen f.Child x y := by
  constructor
  · intro hy
    obtain ⟨r, hr, hry⟩ := exists_root hy
    exact TransGen.head' (h.child_of_mem_roots hr) (hry.lift id fun _ _ => h.child)
  · intro hy
    induction hy with
    | single hb => exact roots_subset_nodes ((h.mem_roots_iff hnodup).mpr hb)
    | tail _ hb ih =>
      cases h.child_inside hnodup (.inr ih) hb with
      | top hb => exact roots_subset_nodes hb
      | inside hb => exact hb.mem_right
      | beside hb => cases hb

/-- The interval of a node has room for what is below it, and for nothing else. -/
theorem Below.exists_entry {x : α} {c : Forest α} (h : f.Below x c) (start depth : Nat) :
    ∃ e ∈ f.number start depth, e.node = x ∧ e.rght = e.lft + 2 * c.size + 1 := by
  induction h generalizing start depth with
  | top => exact ⟨_, List.mem_cons_self, rfl, rfl⟩
  | inside _ ih =>
    obtain ⟨e, he, hrest⟩ := ih (start + 1) (depth + 1)
    exact ⟨e, List.mem_cons_of_mem _ (List.mem_append_left _ he), hrest⟩
  | @beside a x c d s _ ih =>
    obtain ⟨e, he, hrest⟩ := ih (start + 2 * c.size + 2) depth
    exact ⟨e, List.mem_cons_of_mem _ (List.mem_append_right _ he), hrest⟩

/-- The numbers of the nodes increase in preorder. -/
theorem pairwise_lft (f : Forest α) (start depth : Nat) :
    (f.number start depth).Pairwise fun e e' => e.lft < e'.lft := by
  have hbounds : ∀ e ∈ f.number start depth, e.lft < e.rght :=
    fun e he => (bounds_of_mem_number he).2.1
  apply (pairwise_number f start depth).imp_of_mem
  intro e e' he _ h
  have := hbounds e he
  simp only [Entry.Contains] at h
  omega

/-- What holds along a sorted list holds of what is in order. -/
theorem rel_of_lt [Preorder β] {key : α → β} {R : α → α → Prop} {l : List α}
    (hsorted : l.Pairwise fun a b => key a < key b) (h : l.Pairwise R) {a b : α} (ha : a ∈ l)
    (hb : b ∈ l) (hlt : key a < key b) : R a b := by
  induction l with
  | nil => cases ha
  | cons x l ih =>
    obtain ⟨hx, hl⟩ := List.pairwise_cons.mp hsorted
    obtain ⟨hRx, hRl⟩ := List.pairwise_cons.mp h
    obtain rfl | hal := List.mem_cons.mp ha
    · obtain rfl | hbl := List.mem_cons.mp hb
      · exact absurd hlt (lt_irrefl _)
      · exact hRx b hbl
    · obtain rfl | hbl := List.mem_cons.mp hb
      · exact absurd hlt (lt_asymm (hx a hal))
      · exact ih hl hRl hal hbl

/-- Of two nodes, the second is apart from the first or below it. -/
theorem apart_or_contains {start depth : Nat} {e e' : Entry α} (he : e ∈ f.number start depth)
    (he' : e' ∈ f.number start depth) (hlt : e.lft < e'.lft) :
    e.rght < e'.lft ∨ e.Contains e' :=
  rel_of_lt (pairwise_lft f start depth) (pairwise_number f start depth) he he' hlt

/-! ## Ancestors -/

theorem not_transGen_self (hnodup : f.nodes.Nodup) {x : α} : ¬ TransGen f.Child x x := by
  intro h
  obtain ⟨b, hb, -⟩ := TransGen.head'_iff.mp h
  obtain ⟨e, he, -, -, rfl, -⟩ := exists_of_child hb 0 0
  have := ((contains_iff hnodup he he).mpr h).1
  omega

/-- An ancestor of a child is the parent or an ancestor of the parent. -/
theorem transGen_child (hnodup : f.nodes.Nodup) {q p b : α} (hp : f.Child p b)
    (hq : TransGen f.Child q b) : q = p ∨ TransGen f.Child q p := by
  obtain ⟨p', hqp, hp'⟩ := TransGen.tail'_iff.mp hq
  obtain rfl := Child.unique hnodup hp' hp
  obtain rfl | hqp := reflTransGen_iff_eq_or_transGen.mp hqp
  · exact .inl rfl
  · exact .inr hqp

/-- Every node ends a chain of parents that starts at a root and is as long as the node is
    deep. -/
theorem exists_lineage {x : α} (h : x ∈ f.nodes) :
    ∃ above : List α, (above ++ [x]).IsChain f.Child ∧
      (∀ r ∈ (above ++ [x]).head?, r ∈ f.roots) ∧
      ∀ start depth, ∃ e ∈ f.number start depth, e.node = x ∧ e.depth = depth + above.length := by
  induction f with
  | nil => cases h
  | cons a c s ihc ihs =>
    obtain rfl | h := List.mem_cons.mp h
    · refine ⟨[], .singleton x, ?_, fun _ _ => ⟨_, List.mem_cons_self, rfl, rfl⟩⟩
      intro r hr
      obtain rfl : x = r := by simpa using hr
      exact List.mem_cons_self
    · obtain h | h := List.mem_append.mp h
      · obtain ⟨above, hchain, htop, hdepth⟩ := ihc h
        refine ⟨a :: above, ?_, ?_, ?_⟩
        · rw [List.cons_append, List.isChain_cons]
          exact ⟨fun r hr => .top (htop r hr), hchain.imp fun _ _ => .inside⟩
        · intro r hr
          obtain rfl : a = r := by simpa using hr
          exact List.mem_cons_self
        · intro start depth
          obtain ⟨e, he, hnode, hd⟩ := hdepth (start + 1) (depth + 1)
          refine ⟨e, List.mem_cons_of_mem _ (List.mem_append_left _ he), hnode, ?_⟩
          rw [hd, List.length_cons]
          omega
      · obtain ⟨above, hchain, htop, hdepth⟩ := ihs h
        refine ⟨above, hchain.imp fun _ _ => .beside,
          fun r hr => List.mem_cons_of_mem a (htop r hr), ?_⟩
        intro start depth
        obtain ⟨e, he, hrest⟩ := hdepth (start + 2 * c.size + 2) depth
        exact ⟨e, List.mem_cons_of_mem _ (List.mem_append_right _ he), hrest⟩

/-- Whoever is the parent of a node of a chain stands in it, unless the node is the first. -/
private theorem parent_mem_chain (hnodup : f.nodes.Nodup) {a q z : α} {l : List α}
    (hchain : (a :: l).IsChain f.Child) (hz : z ∈ l) (hq : f.Child q z) : q ∈ a :: l := by
  induction l generalizing a with
  | nil => cases hz
  | cons b l ih =>
    obtain ⟨hab, hchain⟩ := List.isChain_cons_cons.mp hchain
    obtain rfl | hz := List.mem_cons.mp hz
    · rw [Child.unique hnodup hq hab]
      exact List.mem_cons_self
    · exact List.mem_cons_of_mem a (ih hchain hz)

/-- The nodes of a chain of parents from a root are the ancestors of its last one. -/
theorem mem_lineage_iff (hnodup : f.nodes.Nodup) {x q : α} {above : List α}
    (hchain : (above ++ [x]).IsChain f.Child) (htop : ∀ r ∈ (above ++ [x]).head?, r ∈ f.roots) :
    q ∈ above ↔ TransGen f.Child q x := by
  have hpairwise : (above ++ [x]).Pairwise (TransGen f.Child) :=
    (hchain.imp fun _ _ => TransGen.single).pairwise
  constructor
  · intro hq
    exact (List.pairwise_append.mp hpairwise).2.2 q hq x (List.mem_singleton_self x)
  · intro hq
    -- the way up from `x` stays in the chain
    have hmem : ∀ z ∈ above ++ [x], ∀ q, f.Child q z → q ∈ above ++ [x] := by
      intro z hz q hq
      cases hl : above ++ [x] with
      | nil => simp at hl
      | cons r l =>
        rw [hl] at hchain htop hz
        obtain rfl | hz := List.mem_cons.mp hz
        · exact absurd hq (not_child_of_root hnodup (htop z rfl))
        · exact parent_mem_chain hnodup hchain hz hq
    have hall : ∀ q, ReflTransGen f.Child q x → q ∈ above ++ [x] := by
      intro q hq
      induction hq using ReflTransGen.head_induction_on with
      | refl => exact List.mem_append_right _ (List.mem_singleton_self x)
      | head hqz _ ih => exact hmem _ ih _ hqz
    obtain hmem | hmem := List.mem_append.mp (hall q hq.to_reflTransGen)
    · exact hmem
    · obtain rfl := List.mem_singleton.mp hmem
      exact absurd hq (not_transGen_self hnodup)

/-! ## Siblings -/

theorem Elder.mem_left {x y : α} (h : f.Elder x y) : x ∈ f.nodes := by
  induction h with
  | top => exact List.mem_cons_self
  | inside _ ih => exact List.mem_cons_of_mem _ (List.mem_append_left _ ih)
  | beside _ ih => exact List.mem_cons_of_mem _ (List.mem_append_right _ ih)

theorem Elder.mem_right {x y : α} (h : f.Elder x y) : y ∈ f.nodes := by
  induction h with
  | top hy => exact List.mem_cons_of_mem _ (List.mem_append_right _ (roots_subset_nodes hy))
  | inside _ ih => exact List.mem_cons_of_mem _ (List.mem_append_left _ ih)
  | beside _ ih => exact List.mem_cons_of_mem _ (List.mem_append_right _ ih)

/-- The lists of siblings: the roots, and the children of a node. -/
inductive Siblings (f : Forest α) : List α → Prop
  | roots : Siblings f f.roots
  | below {p : α} {c : Forest α} (h : f.Below p c) : Siblings f c.roots

theorem pairwise_elder_roots (f : Forest α) : f.roots.Pairwise f.Elder := by
  induction f with
  | nil => exact .nil
  | cons a c s _ ihs =>
    exact .cons (fun y hy => .top hy) (ihs.imp fun h => .beside h)

/-- Siblings stand in the order of the forest. -/
theorem Siblings.pairwise_elder {l : List α} (h : f.Siblings l) : l.Pairwise f.Elder := by
  cases h with
  | roots => exact pairwise_elder_roots f
  | below h => exact (pairwise_elder_roots _).imp h.elder

theorem Siblings.subset {l : List α} (h : f.Siblings l) : l ⊆ f.nodes := by
  cases h with
  | roots => exact fun _ => roots_subset_nodes
  | below h => exact fun _ hb => h.subset (roots_subset_nodes hb)

end MetalOrm.ForStd.Forest
