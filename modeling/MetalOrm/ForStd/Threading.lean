import Mathlib.Order.Defs.LinearOrder
import MetalOrm.ForStd.ForestPaths

/-!
# Forests from intervals

A list of intervals is threaded into a forest by putting what follows an interval below it as long
as it starts before its end. `Threads limit l g rest` says that threading `l` until something
starts at `limit` gives `g` and leaves `rest`.

Whatever the intervals are, nothing is lost. Where they are those of some stretch of a forest `f`,
taken in preorder, the forest has the parents of `f`.

## Key results

- `Threads.nodes_append`: what is threaded and what is left is the list
- `Threads.child_iff`: the parents, for intervals that are nested as a forest is
-/

namespace MetalOrm.ForStd

open Relation

variable {α β : Type} [LinearOrder β] (lft rght : α → β)

/-- Threading a list until something starts at the limit. -/
inductive Threads : Option β → List α → Forest α → List α → Prop
  | nil {limit : Option β} : Threads limit [] .nil []
  | stop {limit : β} {a : α} {l : List α} (h : limit ≤ lft a) :
    Threads (some limit) (a :: l) .nil (a :: l)
  | node {limit : Option β} {a : α} {l l' rest : List α} {c s : Forest α}
    (h : ∀ b ∈ limit, lft a < b) (children : Threads (some (rght a)) l c l')
    (siblings : Threads limit l' s rest) : Threads limit (a :: l) (.cons a c s) rest

namespace Threads

variable {lft rght} {limit : Option β} {l rest : List α} {f g : Forest α}

/-- What is threaded and what is left is the list. -/
theorem nodes_append (h : Threads lft rght limit l g rest) : l = g.nodes ++ rest := by
  induction h with
  | nil => rfl
  | stop => rfl
  | @node limit a l l' rest c s _ _ _ ihc ihs =>
    rw [ihc, ihs, Forest.nodes, List.cons_append, List.append_assoc]

/-- Without a limit nothing is left. -/
theorem rest_eq_nil (h : Threads lft rght none l g rest) : rest = [] := by
  generalize hlimit : (none : Option β) = limit at h
  induction h with
  | nil => rfl
  | stop => cases hlimit
  | node _ _ _ _ ihs => exact ihs hlimit

theorem unique {rest' : List α} {g' : Forest α} (h : Threads lft rght limit l g rest)
    (h' : Threads lft rght limit l g' rest') : g = g' ∧ rest = rest' := by
  induction h generalizing g' rest' with
  | nil =>
    cases h'
    exact ⟨rfl, rfl⟩
  | stop hle =>
    cases h' with
    | stop => exact ⟨rfl, rfl⟩
    | node hlt => exact absurd (hlt _ rfl) (not_lt.mpr hle)
  | node hlt _ _ ihc ihs =>
    cases h' with
    | stop hle => exact absurd (hlt _ rfl) (not_lt.mpr hle)
    | node _ hc hs =>
      obtain ⟨rfl, rfl⟩ := ihc hc
      obtain ⟨rfl, rfl⟩ := ihs hs
      exact ⟨rfl, rfl⟩

/-! ## Intervals that are sorted -/

variable (hsorted : l.Pairwise fun a b => lft a < lft b)

include hsorted in
theorem sorted_rest (h : Threads lft rght limit l g rest) :
    rest.Pairwise fun a b => lft a < lft b :=
  hsorted.sublist (h.nodes_append ▸ List.sublist_append_right g.nodes rest)

include hsorted in
/-- What is left starts at the limit or behind it. -/
theorem le_of_mem_rest {b : β} (h : Threads lft rght limit l g rest) (hb : b ∈ limit) :
    ∀ y ∈ rest, b ≤ lft y := by
  induction h with
  | nil => simp
  | @stop limit a l hle =>
    obtain rfl : limit = b := by simpa using hb
    have hl := (List.pairwise_cons.mp hsorted).1
    exact List.forall_mem_cons.mpr ⟨hle, fun y hy => hle.trans (hl y hy).le⟩
  | node _ hc _ _ ihs =>
    exact ihs (hc.sorted_rest (List.pairwise_cons.mp hsorted).2) hb

include hsorted in
/-- What is left starts behind all that is threaded. -/
theorem rght_le_of_mem_rest (h : Threads lft rght limit l g rest) :
    ∀ q ∈ g.nodes, ∀ y ∈ rest, rght q ≤ lft y := by
  induction h with
  | nil => simp [Forest.nodes]
  | stop => simp [Forest.nodes]
  | @node limit a l l' rest c s _ hc hs ihc ihs =>
    have hl := (List.pairwise_cons.mp hsorted).2
    have hrest : ∀ y ∈ rest, y ∈ l' := fun y hy => hs.nodes_append ▸ List.mem_append_right _ hy
    intro q hq y hy
    obtain rfl | hq := List.mem_cons.mp hq
    · exact hc.le_of_mem_rest hl rfl y (hrest y hy)
    · obtain hq | hq := List.mem_append.mp hq
      · exact ihc hl q hq y (hrest y hy)
      · exact ihs (hc.sorted_rest hl) q hq y hy

include hsorted in
/-- What starts before the end of an interval is threaded below it. -/
theorem pairwise_transGen (h : Threads lft rght limit l g rest) :
    g.nodes.Pairwise fun q y => lft y < rght q → TransGen g.Child q y := by
  induction h with
  | nil => exact .nil
  | stop => exact .nil
  | @node limit a l l' rest c s _ hc hs ihc ihs =>
    have hl := (List.pairwise_cons.mp hsorted).2
    have hmem : ∀ y ∈ s.nodes, y ∈ l' := fun y hy => hs.nodes_append ▸ List.mem_append_left _ hy
    rw [Forest.nodes, List.pairwise_cons, List.pairwise_append]
    refine ⟨?_, (ihc hl).imp fun h hlt => (h hlt).lift id fun _ _ => .inside,
      (ihs (hc.sorted_rest hl)).imp fun h hlt => (h hlt).lift id fun _ _ => .beside, ?_⟩
    · intro y hy hlt
      obtain hy | hy := List.mem_append.mp hy
      · exact Forest.transGen_root hy
      · exact absurd hlt (not_lt.mpr (hc.le_of_mem_rest hl rfl y (hmem y hy)))
    · intro q hq y hy hlt
      exact absurd hlt (not_lt.mpr (hc.rght_le_of_mem_rest hl q hq y (hmem y hy)))

theorem lt_of_mem_roots {b : β} (h : Threads lft rght limit l g rest) (hb : b ∈ limit) :
    ∀ y ∈ g.roots, lft y < b := by
  induction h with
  | nil => simp [Forest.roots]
  | stop => simp [Forest.roots]
  | node hlt _ _ _ ihs => exact List.forall_mem_cons.mpr ⟨hlt b hb, ihs hb⟩

include hsorted in
/-- A child starts inside its parent. -/
theorem bounds_of_child {p y : α} (h : Threads lft rght limit l g rest) (hchild : g.Child p y) :
    lft p < lft y ∧ lft y < rght p := by
  induction h with
  | nil => cases hchild
  | stop => cases hchild
  | @node limit a l l' rest c s _ hc hs ihc ihs =>
    obtain ⟨ha, hl⟩ := List.pairwise_cons.mp hsorted
    cases hchild with
    | top hy =>
      have hyl : y ∈ l := hc.nodes_append ▸ List.mem_append_left _ (Forest.roots_subset_nodes hy)
      exact ⟨ha y hyl, hc.lt_of_mem_roots rfl y hy⟩
    | inside hy => exact ihc hl hy
    | beside hy => exact ihs (hc.sorted_rest hl) hy

/-! ## Intervals of a forest -/

omit hsorted in
/-- Of what is sorted, a stretch has everything between two of its elements. -/
private theorem mem_of_between {l' : List α} (hsorted : l'.Pairwise fun a b => lft a < lft b)
    (hstretch : l <:+: l') {a b z : α} (ha : a ∈ l) (hb : b ∈ l) (hz : z ∈ l')
    (haz : lft a < lft z) (hzb : lft z < lft b) : z ∈ l := by
  obtain ⟨u, v, rfl⟩ := hstretch
  obtain ⟨huv, -, hv⟩ := List.pairwise_append.mp hsorted
  obtain ⟨-, -, hu⟩ := List.pairwise_append.mp huv
  obtain hz | hz := List.mem_append.mp hz
  · obtain hz | hz := List.mem_append.mp hz
    · exact absurd (hu z hz a ha) (not_lt.mpr haz.le)
    · exact hz
  · exact absurd (hv b (List.mem_append_right u hb) z hz) (not_lt.mpr hzb.le)

omit hsorted in
/-- The intervals of a stretch of a forest are threaded below their parents. -/
theorem child_iff (h : Threads lft rght none l g rest) (hnodup : f.nodes.Nodup)
    (hsorted : f.nodes.Pairwise fun a b => lft a < lft b) (hstretch : l <:+: f.nodes)
    (hnested : ∀ q ∈ f.nodes, ∀ y ∈ f.nodes,
      TransGen f.Child q y ↔ lft q < lft y ∧ lft y < rght q) {p y : α} :
    g.Child p y ↔ p ∈ l ∧ y ∈ l ∧ f.Child p y := by
  have hsortedl := hsorted.sublist hstretch.sublist
  have hg : l = g.nodes := by rw [h.nodes_append, h.rest_eq_nil, List.append_nil]
  have hgnodup : g.nodes.Nodup := hg ▸ hnodup.sublist hstretch.sublist
  have hmem : ∀ z ∈ l, z ∈ f.nodes := hstretch.subset
  -- a descendant in the forest is threaded below
  have hdown : ∀ q ∈ l, ∀ z ∈ l, TransGen f.Child q z → TransGen g.Child q z := by
    intro q hq z hz hqz
    obtain ⟨hqz, hzq⟩ := (hnested q (hmem q hq) z (hmem z hz)).mp hqz
    have hpairwise := h.pairwise_transGen hsortedl
    rw [← hg] at hpairwise
    exact Forest.rel_of_lt hsortedl hpairwise hq hz hqz hzq
  -- what is threaded below a node is a descendant in the forest
  have hup : ∀ q z, g.Child q z → q ∈ l ∧ z ∈ l ∧ TransGen f.Child q z := by
    intro q z hqz
    have hq : q ∈ l := hg ▸ hqz.mem_left
    have hz : z ∈ l := hg ▸ hqz.mem_right
    exact ⟨hq, hz, (hnested q (hmem q hq) z (hmem z hz)).mpr (h.bounds_of_child hsortedl hqz)⟩
  constructor
  · intro hpy
    obtain ⟨hp, hy, hbelow⟩ := hup p y hpy
    obtain ⟨q, hpq, hqy⟩ := TransGen.tail'_iff.mp hbelow
    obtain rfl | hpq := reflTransGen_iff_eq_or_transGen.mp hpq
    · exact ⟨hp, hy, hqy⟩
    · -- the parent `q` would be threaded between `p` and `y`
      have hqf := hqy.mem_left
      have hq : q ∈ l := mem_of_between hsorted hstretch hp hy hqf
        ((hnested p (hmem p hp) q hqf).mp hpq).1
        ((hnested q hqf y (hmem y hy)).mp (.single hqy)).1
      have hgpq := hdown p hp q hq hpq
      obtain rfl | hgqp := Forest.transGen_child hgnodup hpy (hdown q hq y hy (.single hqy))
      · exact absurd hpq (Forest.not_transGen_self hnodup)
      · exact absurd (hgpq.trans hgqp) (Forest.not_transGen_self hgnodup)
  · rintro ⟨hp, hy, hpy⟩
    obtain ⟨q, hpq, hqy⟩ := TransGen.tail'_iff.mp (hdown p hp y hy (.single hpy))
    obtain rfl | hpq := reflTransGen_iff_eq_or_transGen.mp hpq
    · exact hqy
    · -- `p` would have the parent of `y` below it
      have hfpq : TransGen f.Child p q := TransGen.lift' id (fun _ _ h => (hup _ _ h).2.2) _ _ hpq
      obtain rfl | hqp := Forest.transGen_child hnodup hpy (hup q y hqy).2.2
      · exact hqy
      · exact absurd (hfpq.trans hqp) (Forest.not_transGen_self hnodup)

end Threads

end MetalOrm.ForStd
