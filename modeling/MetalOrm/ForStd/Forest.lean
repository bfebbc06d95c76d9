import Mathlib

/-!
# Ordered forests and their numbering

A forest is a list of trees, kept as the first tree's root, the forest below it and the forest
beside it. `number` walks it in preorder and gives every node the counter before and after its
descendants, so the interval of a node spans those of its descendants.

`Grown kids` says that a forest is what following `kids` from a list of roots gives.

## Key results

- `boundaries_number`: the numbers are used once each
- `contains_iff`: intervals are nested as the forest is
- `exists_of_child`, `exists_of_elder`: what parents and siblings are numbered
- `Grown.mem_nodes_iff`, `Grown.nodup_nodes`: which nodes a grown forest has, and how often
-/

namespace MetalOrm.ForStd

open Relation

/-- An ordered forest. -/
inductive Forest (α : Type) where
  | nil
  | cons (root : α) (children siblings : Forest α)
deriving DecidableEq

namespace Forest

variable {α : Type}

/-- The number of nodes. -/
def size : Forest α → Nat
  | nil => 0
  | cons _ c s => c.size + s.size + 1

/-- The roots, in order. -/
def roots : Forest α → List α
  | nil => []
  | cons a _ s => a :: s.roots

/-- The nodes in preorder. -/
def nodes : Forest α → List α
  | nil => []
  | cons a c s => a :: (c.nodes ++ s.nodes)

@[simp] theorem length_nodes (f : Forest α) : f.nodes.length = f.size := by
  induction f with
  | nil => rfl
  | cons a c s ihc ihs =>
    rw [nodes, List.length_cons, List.length_append, ihc, ihs, size]

theorem roots_subset_nodes {f : Forest α} {a : α} (h : a ∈ f.roots) : a ∈ f.nodes := by
  induction f with
  | nil => cases h
  | cons b c s _ ihs =>
    obtain rfl | h := List.mem_cons.mp h
    · exact List.mem_cons_self
    · exact List.mem_cons_of_mem b (List.mem_append_right c.nodes (ihs h))

/-! ## Parents and elder siblings -/

/-- `b` is a child of `p`. -/
inductive Child : Forest α → α → α → Prop
  | top {a b : α} {c s : Forest α} (h : b ∈ c.roots) : Child (cons a c s) a b
  | inside {a p b : α} {c s : Forest α} (h : Child c p b) : Child (cons a c s) p b
  | beside {a p b : α} {c s : Forest α} (h : Child s p b) : Child (cons a c s) p b

/-- `x` stands before its sibling `y`. -/
inductive Elder : Forest α → α → α → Prop
  | top {x y : α} {c s : Forest α} (h : y ∈ s.roots) : Elder (cons x c s) x y
  | inside {a x y : α} {c s : Forest α} (h : Elder c x y) : Elder (cons a c s) x y
  | beside {a x y : α} {c s : Forest α} (h : Elder s x y) : Elder (cons a c s) x y

theorem Child.mem_left {f : Forest α} {p b : α} (h : f.Child p b) : p ∈ f.nodes := by
  induction h with
  | top => exact List.mem_cons_self
  | inside _ ih => exact List.mem_cons_of_mem _ (List.mem_append_left _ ih)
  | beside _ ih => exact List.mem_cons_of_mem _ (List.mem_append_right _ ih)

theorem Child.mem_right {f : Forest α} {p b : α} (h : f.Child p b) : b ∈ f.nodes := by
  induction h with
  | top h => exact List.mem_cons_of_mem _ (List.mem_append_left _ (roots_subset_nodes h))
  | inside _ ih => exact List.mem_cons_of_mem _ (List.mem_append_left _ ih)
  | beside _ ih => exact List.mem_cons_of_mem _ (List.mem_append_right _ ih)

/-- Every node is a root or below one. -/
theorem exists_root {f : Forest α} {x : α} (h : x ∈ f.nodes) :
    ∃ r ∈ f.roots, ReflTransGen f.Child r x := by
  induction f with
  | nil => cases h
  | cons a c s ihc ihs =>
    obtain rfl | h := List.mem_cons.mp h
    · exact ⟨x, List.mem_cons_self, .refl⟩
    · obtain h | h := List.mem_append.mp h
      · obtain ⟨r, hr, hrx⟩ := ihc h
        exact ⟨a, List.mem_cons_self,
          (ReflTransGen.single (.top hr)).trans
            (hrx.lift id fun _ _ => .inside)⟩
      · obtain ⟨r, hr, hrx⟩ := ihs h
        exact ⟨r, List.mem_cons_of_mem a hr, hrx.lift id fun _ _ => .beside⟩

theorem transGen_root {a x : α} {c s : Forest α} (h : x ∈ c.nodes) :
    TransGen (cons a c s).Child a x := by
  obtain ⟨r, hr, hrx⟩ := exists_root h
  exact TransGen.head' (.top hr) (hrx.lift id fun _ _ => .inside)

/-- A root that occurs once is nobody's child. -/
theorem not_child_of_root {f : Forest α} (hnodup : f.nodes.Nodup) {b : α} (hb : b ∈ f.roots)
    {q : α} : ¬ f.Child q b := by
  induction f with
  | nil => cases hb
  | cons a c s _ ihs =>
    intro hq
    obtain ⟨ha, hcs⟩ := List.nodup_cons.mp hnodup
    obtain ⟨-, hs, hdisjoint⟩ := List.nodup_append.mp hcs
    have hc : b ∉ c.nodes := by
      intro hbc
      obtain rfl | hbs := List.mem_cons.mp hb
      · exact ha (List.mem_append_left _ hbc)
      · exact hdisjoint b hbc b (roots_subset_nodes hbs) rfl
    cases hq with
    | top h => exact hc (roots_subset_nodes h)
    | inside h => exact hc h.mem_right
    | beside h =>
      obtain rfl | hbs := List.mem_cons.mp hb
      · exact ha (List.mem_append_right _ h.mem_right)
      · exact ihs hs hbs h

/-- A node that occurs once has one parent. -/
theorem Child.unique {f : Forest α} (hnodup : f.nodes.Nodup) {p q b : α} (hp : f.Child p b)
    (hq : f.Child q b) : p = q := by
  induction f with
  | nil => cases hp
  | cons a c s ihc ihs =>
    obtain ⟨-, hcs⟩ := List.nodup_cons.mp hnodup
    obtain ⟨hc, hs, hdisjoint⟩ := List.nodup_append.mp hcs
    have hapart : b ∈ c.nodes → b ∉ s.nodes := fun h h' => hdisjoint b h b h' rfl
    cases hp with
    | top h =>
      cases hq with
      | top => rfl
      | inside h' => exact absurd h' (not_child_of_root hc h)
      | beside h' => exact absurd h'.mem_right (hapart (roots_subset_nodes h))
    | inside h =>
      cases hq with
      | top h' => exact absurd h (not_child_of_root hc h')
      | inside h' => exact ihc hc h h'
      | beside h' => exact absurd h'.mem_right (hapart h.mem_right)
    | beside h =>
      cases hq with
      | top h' => exact absurd h.mem_right (hapart (roots_subset_nodes h'))
      | inside h' => exact absurd h.mem_right (hapart h'.mem_right)
      | beside h' => exact ihs hs h h'

/-! ## Numbering -/

/-- A node with the numbers it is given. -/
structure Entry (α : Type) where
  node : α
  lft : Nat
  rght : Nat
  depth : Nat
deriving DecidableEq

/-- The interval of `e` strictly spans that of `e'`. -/
def Entry.Contains (e e' : Entry α) : Prop := e.lft < e'.lft ∧ e'.rght < e.rght

/-- Number the nodes in preorder, counting from `start` at depth `depth`. -/
def number : Forest α → Nat → Nat → List (Entry α)
  | nil, _, _ => []
  | cons a c s, start, depth =>
    ⟨a, start, start + 2 * c.size + 1, depth⟩ ::
      (c.number (start + 1) (depth + 1) ++ s.number (start + 2 * c.size + 2) depth)

theorem map_node_number (f : Forest α) (start depth : Nat) :
    (f.number start depth).map Entry.node = f.nodes := by
  induction f generalizing start depth with
  | nil => rfl
  | cons a c s ihc ihs => rw [number, List.map_cons, List.map_append, ihc, ihs, nodes]

/-- The numbers of a forest lie in one stretch. -/
theorem bounds_of_mem_number {f : Forest α} {start depth : Nat} {e : Entry α}
    (h : e ∈ f.number start depth) :
    start ≤ e.lft ∧ e.lft < e.rght ∧ e.rght < start + 2 * f.size := by
  induction f generalizing start depth with
  | nil => cases h
  | cons a c s ihc ihs =>
    simp only [size]
    obtain rfl | h := List.mem_cons.mp h
    · dsimp only
      omega
    · obtain h | h := List.mem_append.mp h
      · have := ihc h
        omega
      · have := ihs h
        omega

/-- Every number of the stretch is given out once. -/
theorem boundaries_number (f : Forest α) (start depth : Nat) :
    ((f.number start depth).flatMap fun e => [e.lft, e.rght]).Perm
      (List.range' start (2 * f.size)) := by
  induction f generalizing start depth with
  | nil => exact .nil
  | cons a c s ihc ihs =>
    have hc := ihc (start + 1) (depth + 1)
    have hs := ihs (start + 2 * c.size + 2) depth
    have hrange : List.range' start (2 * (cons a c s).size) =
        start :: (List.range' (start + 1) (2 * c.size) ++ (start + 2 * c.size + 1) ::
          List.range' (start + 2 * c.size + 2) (2 * s.size)) := by
      have hsize : 2 * (cons a c s).size = (2 * c.size + (2 * s.size + 1)) + 1 := by
        simp only [size]
        omega
      have hnext : start + 1 + 2 * c.size = start + 2 * c.size + 1 := by omega
      rw [hsize, List.range'_succ, ← List.range'_append_1, hnext, List.range'_succ]
    rw [hrange, number, List.flatMap_cons, List.flatMap_append]
    exact (List.perm_middle.symm.trans (hc.append (.cons _ hs))).cons _

/-- Two nodes that are numbered one after the other: apart, or one inside the other. -/
theorem pairwise_number (f : Forest α) (start depth : Nat) :
    (f.number start depth).Pairwise fun e e' => e.rght < e'.lft ∨ e.Contains e' := by
  induction f generalizing start depth with
  | nil => exact .nil
  | cons a c s ihc ihs =>
    rw [number, List.pairwise_cons, List.pairwise_append]
    refine ⟨?_, ihc _ _, ihs _ _, ?_⟩
    · intro e he
      simp only [Entry.Contains]
      obtain he | he := List.mem_append.mp he
      · have := bounds_of_mem_number he
        omega
      · have := bounds_of_mem_number he
        omega
    · intro e he e' he'
      have hc := bounds_of_mem_number he
      have hs := bounds_of_mem_number he'
      omega

/-- A node numbered inside another is a descendant of it. -/
theorem transGen_of_contains {f : Forest α} {start depth : Nat} {e e' : Entry α}
    (he : e ∈ f.number start depth) (he' : e' ∈ f.number start depth)
    (hlft : e.lft < e'.lft) (hrght : e'.rght < e.rght) : TransGen f.Child e.node e'.node := by
  induction f generalizing start depth with
  | nil => cases he
  | cons a c s ihc ihs =>
    have hnode : ∀ {e : Entry α}, e ∈ c.number (start + 1) (depth + 1) → e.node ∈ c.nodes :=
      fun h => map_node_number c _ _ ▸ List.mem_map_of_mem h
    rw [number, List.mem_cons, List.mem_append] at he he'
    obtain rfl | he | he := he
    · obtain rfl | he' | he' := he'
      · omega
      · exact transGen_root (hnode he')
      · have := bounds_of_mem_number he'
        dsimp only at hrght
        omega
    · have hb := bounds_of_mem_number he
      obtain rfl | he' | he' := he'
      · dsimp only at hlft
        omega
      · exact TransGen.lift id (fun _ _ => .inside) _ _ (ihc he he')
      · have := bounds_of_mem_number he'
        omega
    · have hb := bounds_of_mem_number he
      obtain rfl | he' | he' := he'
      · dsimp only at hlft
        omega
      · have := bounds_of_mem_number he'
        omega
      · exact TransGen.lift id (fun _ _ => .beside) _ _ (ihs he he')

/-- The roots are numbered one after the other, all at the top. -/
theorem exists_of_root {f : Forest α} {r : α} (h : r ∈ f.roots) (start depth : Nat) :
    ∃ e ∈ f.number start depth, e.node = r ∧ e.depth = depth := by
  induction f generalizing start depth with
  | nil => cases h
  | cons a c s _ ihs =>
    obtain rfl | h := List.mem_cons.mp h
    · exact ⟨_, List.mem_cons_self, rfl, rfl⟩
    · obtain ⟨e, he, hnode, hdepth⟩ := ihs h (start + 2 * c.size + 2) depth
      exact ⟨e, List.mem_cons_of_mem _ (List.mem_append_right _ he), hnode, hdepth⟩

/-- A node is numbered inside its parent, one deeper. -/
theorem exists_of_child {f : Forest α} {p b : α} (h : f.Child p b) (start depth : Nat) :
    ∃ e ∈ f.number start depth, ∃ e' ∈ f.number start depth,
      e.node = p ∧ e'.node = b ∧ e.Contains e' ∧ e'.depth = e.depth + 1 := by
  induction h generalizing start depth with
  | @top a b c s hb =>
    obtain ⟨e', he', hnode, hdepth⟩ := exists_of_root hb (start + 1) (depth + 1)
    have hbounds := bounds_of_mem_number he'
    refine ⟨_, List.mem_cons_self, e', ?_, rfl, hnode, ?_, hdepth⟩
    · exact List.mem_cons_of_mem _ (List.mem_append_left _ he')
    · simp only [Entry.Contains]
      omega
  | inside _ ih =>
    obtain ⟨e, he, e', he', hrest⟩ := ih (start + 1) (depth + 1)
    exact ⟨e, List.mem_cons_of_mem _ (List.mem_append_left _ he), e',
      List.mem_cons_of_mem _ (List.mem_append_left _ he'), hrest⟩
  | @beside a p b c s _ ih =>
    obtain ⟨e, he, e', he', hrest⟩ := ih (start + 2 * c.size + 2) depth
    exact ⟨e, List.mem_cons_of_mem _ (List.mem_append_right _ he), e',
      List.mem_cons_of_mem _ (List.mem_append_right _ he'), hrest⟩

/-- An elder sibling is numbered before. -/
theorem exists_of_elder {f : Forest α} {x y : α} (h : f.Elder x y) (start depth : Nat) :
    ∃ e ∈ f.number start depth, ∃ e' ∈ f.number start depth,
      e.node = x ∧ e'.node = y ∧ e.rght < e'.lft := by
  induction h generalizing start depth with
  | @top x y c s hy =>
    obtain ⟨e', he', hnode, -⟩ := exists_of_root hy (start + 2 * c.size + 2) depth
    have hbounds := bounds_of_mem_number he'
    refine ⟨_, List.mem_cons_self, e', ?_, rfl, hnode, ?_⟩
    · exact List.mem_cons_of_mem _ (List.mem_append_right _ he')
    · dsimp only
      omega
  | inside _ ih =>
    obtain ⟨e, he, e', he', hrest⟩ := ih (start + 1) (depth + 1)
    exact ⟨e, List.mem_cons_of_mem _ (List.mem_append_left _ he), e',
      List.mem_cons_of_mem _ (List.mem_append_left _ he'), hrest⟩
  | @beside a x y c s _ ih =>
    obtain ⟨e, he, e', he', hrest⟩ := ih (start + 2 * c.size + 2) depth
    exact ⟨e, List.mem_cons_of_mem _ (List.mem_append_right _ he), e',
      List.mem_cons_of_mem _ (List.mem_append_right _ he'), hrest⟩

/-! ### Nodes that occur once -/

/-- A node that occurs once is numbered once. -/
theorem entry_unique {f : Forest α} (hnodup : f.nodes.Nodup) {start depth : Nat} {e e' : Entry α}
    (he : e ∈ f.number start depth) (he' : e' ∈ f.number start depth)
    (hnode : e.node = e'.node) : e = e' := by
  rw [← map_node_number f start depth] at hnodup
  exact List.inj_on_of_nodup_map hnodup he he' hnode

/-- Intervals are nested as the forest is. -/
theorem contains_iff {f : Forest α} (hnodup : f.nodes.Nodup) {start depth : Nat} {e e' : Entry α}
    (he : e ∈ f.number start depth) (he' : e' ∈ f.number start depth) :
    e.Contains e' ↔ TransGen f.Child e.node e'.node := by
  constructor
  · exact fun h => transGen_of_contains he he' h.1 h.2
  · intro h
    generalize hb : e'.node = b at h
    induction h generalizing e' with
    | single hchild =>
      obtain ⟨p, hp, c, hc, hpnode, hcnode, hcontains, -⟩ := exists_of_child hchild start depth
      rw [entry_unique hnodup he hp hpnode.symm, entry_unique hnodup he' hc (hb.trans hcnode.symm)]
      exact hcontains
    | tail _ hchild ih =>
      obtain ⟨p, hp, c, hc, hpnode, hcnode, hcontains, -⟩ := exists_of_child hchild start depth
      rw [entry_unique hnodup he' hc (hb.trans hcnode.symm)]
      have hep := ih hp hpnode
      exact ⟨Nat.lt_trans hep.1 hcontains.1, Nat.lt_trans hcontains.2 hep.2⟩

/-! ## Forests that grow from child lists -/

/-- The forest that following `kids` from a list of roots gives. -/
inductive Grown (kids : α → List α) : List α → Forest α → Prop
  | nil : Grown kids [] nil
  | cons {a : α} {as : List α} {c s : Forest α} (children : Grown kids (kids a) c)
      (siblings : Grown kids as s) : Grown kids (a :: as) (cons a c s)

namespace Grown

variable {kids : α → List α} {as : List α} {f : Forest α}

theorem roots_eq (h : Grown kids as f) : f.roots = as := by
  induction h with
  | nil => rfl
  | cons _ _ _ ih => rw [roots, ih]

theorem mem_kids (h : Grown kids as f) {p b : α} (hchild : f.Child p b) : b ∈ kids p := by
  induction h with
  | nil => cases hchild
  | cons hc _ ihc ihs =>
    cases hchild with
    | top hb => exact hc.roots_eq ▸ hb
    | inside hb => exact ihc hb
    | beside hb => exact ihs hb

theorem child_of_mem (h : Grown kids as f) {p b : α} (hp : p ∈ f.nodes) (hb : b ∈ kids p) :
    f.Child p b := by
  induction h with
  | nil => cases hp
  | cons hc _ ihc ihs =>
    obtain rfl | hp := List.mem_cons.mp hp
    · exact .top (hc.roots_eq.symm ▸ hb)
    · obtain hp | hp := List.mem_append.mp hp
      · exact .inside (ihc hp)
      · exact .beside (ihs hp)

/-- A grown forest has the nodes that are reached from its roots. -/
theorem mem_nodes_iff (h : Grown kids as f) {x : α} :
    x ∈ f.nodes ↔ ∃ r ∈ as, ReflTransGen (fun p b => b ∈ kids p) r x := by
  constructor
  · intro hx
    obtain ⟨r, hr, hrx⟩ := exists_root hx
    exact ⟨r, h.roots_eq ▸ hr, ReflTransGen.lift id (fun _ _ => h.mem_kids) _ _ hrx⟩
  · rintro ⟨r, hr, hrx⟩
    induction hrx with
    | refl => exact roots_subset_nodes (h.roots_eq.symm ▸ hr)
    | tail _ hb ih => exact (h.child_of_mem ih hb).mem_right

/-- Siblings stand in the order of the list they come from. -/
theorem elder_of_sublist (h : Grown kids as f) {x y : α} (hxy : [x, y].Sublist as) :
    f.Elder x y := by
  induction h with
  | nil => cases hxy
  | cons _ hs _ ihs =>
    cases hxy with
    | cons _ hxy => exact .beside (ihs hxy)
    | cons_cons _ hy => exact .top (hs.roots_eq.symm ▸ List.singleton_sublist.mp hy)

theorem elder_of_kids (h : Grown kids as f) {p x y : α} (hp : p ∈ f.nodes)
    (hxy : [x, y].Sublist (kids p)) : f.Elder x y := by
  induction h with
  | nil => cases hp
  | cons hc _ ihc ihs =>
    obtain rfl | hp := List.mem_cons.mp hp
    · exact .inside (hc.elder_of_sublist hxy)
    · obtain hp | hp := List.mem_append.mp hp
      · exact .inside (ihc hp)
      · exact .beside (ihs hp)

/-! ### How often a node occurs

Where, among the nodes with a property, a child has one parent and is one deeper than it, nothing
is reached twice. -/

section Ranked

variable {P : α → Prop} (hclosed : ∀ p, P p → ∀ b ∈ kids p, P b) {rank : α → Nat}
  (hrank : ∀ p, P p → ∀ b ∈ kids p, rank b = rank p + 1)

include hclosed in
private theorem closed_reach {p x : α} (hp : P p)
    (h : ReflTransGen (fun p b => b ∈ kids p) p x) : P x := by
  induction h with
  | refl => exact hp
  | @tail y x _ hx ih => exact hclosed y ih x hx

include hclosed hrank in
private theorem rank_le {p x : α} (hp : P p) (h : ReflTransGen (fun p b => b ∈ kids p) p x) :
    rank p ≤ rank x := by
  induction h with
  | refl => exact Nat.le_refl _
  | @tail y x hy hx ih =>
    have := hrank y (closed_reach hclosed hp hy) x hx
    omega

include hclosed hrank in
private theorem ancestor_unique
    (hparent : ∀ p q b, P p → P q → b ∈ kids p → b ∈ kids q → p = q) {p q x : α} (hPp : P p)
    (hPq : P q) (hp : ReflTransGen (fun p b => b ∈ kids p) p x)
    (hq : ReflTransGen (fun p b => b ∈ kids p) q x) (heq : rank p = rank q) : p = q := by
  induction hp with
  | refl =>
    obtain rfl | ⟨y, hqy, hyx⟩ := ReflTransGen.cases_tail hq
    · rfl
    · -- `q` would be less deep than itself
      have := rank_le hclosed hrank hPq hqy
      have := hrank y (closed_reach hclosed hPq hqy) p hyx
      omega
  | @tail y x hpy hyx ih =>
    have hPy := closed_reach hclosed hPp hpy
    obtain rfl | ⟨z, hqz, hzx⟩ := ReflTransGen.cases_tail hq
    · have := rank_le hclosed hrank hPp hpy
      have := hrank y hPy x hyx
      omega
    · obtain rfl := hparent y z x hPy (closed_reach hclosed hPq hqz) hyx hzx
      exact ih hqz

include hclosed hrank in
theorem nodup_nodes (h : Grown kids as f)
    (hparent : ∀ p q b, P p → P q → b ∈ kids p → b ∈ kids q → p = q)
    (hkids : ∀ p, P p → (kids p).Nodup) (hP : ∀ r ∈ as, P r) {k : Nat}
    (hroots : ∀ r ∈ as, rank r = k) (hnodup : as.Nodup) : f.nodes.Nodup := by
  induction h generalizing k with
  | nil => exact List.nodup_nil
  | @cons a as c s hc hs ihc ihs =>
    rw [List.nodup_cons] at hnodup
    obtain ⟨hak, hask⟩ := List.forall_mem_cons.mp hroots
    obtain ⟨hPa, hPas⟩ := List.forall_mem_cons.mp hP
    have hbelow : ∀ x ∈ c.nodes, ∃ r ∈ kids a, ReflTransGen (fun p b => b ∈ kids p) r x :=
      fun x hx => hc.mem_nodes_iff.mp hx
    -- what is reached from `a` is reached from no other root
    have hapart : ∀ x, ReflTransGen (fun p b => b ∈ kids p) a x → x ∉ s.nodes := by
      intro x hax hx
      obtain ⟨r, hr, hrx⟩ := hs.mem_nodes_iff.mp hx
      obtain rfl := ancestor_unique hclosed hrank hparent hPa (hPas r hr) hax hrx
        (by rw [hak, hask r hr])
      exact hnodup.1 hr
    rw [nodes, List.nodup_cons, List.nodup_append]
    refine ⟨?_, ihc (hclosed a hPa) (fun r hr => (hrank a hPa r hr).trans (by rw [hak]))
      (hkids a hPa), ihs hPas hask hnodup.2, ?_⟩
    · intro ha
      obtain ha | ha := List.mem_append.mp ha
      · obtain ⟨r, hr, hra⟩ := hbelow a ha
        have := rank_le hclosed hrank (hclosed a hPa r hr) hra
        have := hrank a hPa r hr
        omega
      · exact hapart a .refl ha
    · rintro x hx _ hx' rfl
      obtain ⟨r, hr, hrx⟩ := hbelow x hx
      exact hapart x ((ReflTransGen.single hr).trans hrx) hx'

end Ranked

end Grown

end Forest

end MetalOrm.ForStd
