import MetalOrm.Spec.TreeRecovery

/-!
# When a recovery is complete

Where every row is numbered once, the numbering of the forest is what the claim on `recover` asks
for, and the updates bring it into the table. Where some row is not numbered, or some row twice,
the count of the updates tells.

## Key results

- `recovered_of_nodup`: a table whose rows are numbered once each is recovered
- `recover_complete_iff`: the exact condition
-/

open Relation (ReflTransGen TransGen)

namespace MetalOrm.Native.Tree

open ForStd (Client StdSort Forest StrictWeakOrder)

/-! ## Forests are valid -/

/-- The bounds of a numbered node. -/
def boundsOfEntry {α : Type} (entry : Forest.Entry α) : NestedSetBounds :=
  ⟨Int64.ofNat entry.lft, Int64.ofNat entry.rght⟩

theorem toInt_ofNat {n : Nat} (h : n < 2 ^ 63) : (Int64.ofNat n).toInt = n :=
  Int64.toInt_ofNat_of_lt h

theorem validBounds_number {α : Type} (f : Forest α) (depth : Nat) (hsize : f.size < 2 ^ 62) :
    ValidBounds ((f.number 1 depth).map boundsOfEntry) where
  positive b hb := by
    obtain ⟨entry, hentry, rfl⟩ := List.mem_map.mp hb
    have hbounds := Forest.bounds_of_mem_number hentry
    simp only [boundsOfEntry, Int64.le_iff_toInt_le, toInt_ofNat (show entry.lft < 2 ^ 63 by omega)]
    have : (1 : Int64).toInt = 1 := rfl
    omega
  ordered b hb := by
    obtain ⟨entry, hentry, rfl⟩ := List.mem_map.mp hb
    have hbounds := Forest.bounds_of_mem_number hentry
    simp only [boundsOfEntry, Int64.lt_iff_toInt_lt, toInt_ofNat (show entry.lft < 2 ^ 63 by omega),
      toInt_ofNat (show entry.rght < 2 ^ 63 by omega)]
    omega
  distinct := by
    have hvalues : boundaryValues ((f.number 1 depth).map boundsOfEntry) =
        ((f.number 1 depth).flatMap fun e => [e.lft, e.rght]).map Int64.ofNat := by
      rw [boundaryValues, List.flatMap_map, List.map_flatMap]
      rfl
    have hperm := Forest.boundaries_number f 1 depth
    rw [hvalues]
    apply List.Nodup.map_on _ (hperm.nodup_iff.mpr List.nodup_range')
    intro a ha b hb heq
    have hamem := List.mem_range'_1.mp (hperm.mem_iff.mp ha)
    have hbmem := List.mem_range'_1.mp (hperm.mem_iff.mp hb)
    have hint := congrArg Int64.toInt heq
    rw [toInt_ofNat (by omega), toInt_ofNat (by omega)] at hint
    omega
  laminar := by
    rw [List.pairwise_map]
    apply (Forest.pairwise_number f 1 depth).imp_of_mem
    intro e e' he he' h
    have hb := Forest.bounds_of_mem_number he
    have hb' := Forest.bounds_of_mem_number he'
    simp only [NestedSetBounds.Laminar, NestedSetBounds.Before, NestedSetBounds.Within,
      boundsOfEntry, Int64.lt_iff_toInt_lt, Int64.le_iff_toInt_le,
      toInt_ofNat (show e.lft < 2 ^ 63 by omega), toInt_ofNat (show e.rght < 2 ^ 63 by omega),
      toInt_ofNat (show e'.lft < 2 ^ 63 by omega), toInt_ofNat (show e'.rght < 2 ^ 63 by omega)]
    simp only [Forest.Entry.Contains] at h
    omega

theorem ValidBounds.perm {bounds bounds' : List NestedSetBounds} (h : ValidBounds bounds)
    (hperm : bounds.Perm bounds') : ValidBounds bounds' where
  positive b hb := h.positive b (hperm.mem_iff.mpr hb)
  ordered b hb := h.ordered b (hperm.mem_iff.mpr hb)
  distinct := (hperm.flatMap_right _).nodup_iff.mp h.distinct
  laminar := (hperm.pairwise_iff fun h => h.symm).mp h.laminar

/-! ## The numbering of the rows -/

section Numbered

variable {t : TreeManager} {rows : List TableRow} {less : RecoverNode → RecoverNode → Bool}
  {sort : StdSort less} (hk : KeyedRows t (scopeRows t rows)) {f : Forest RecoverNode}
  (hf : Forest.Grown (kids sort (readNodes t rows))
    (childrenUnder sort (readNodes t rows) (valueKey .null)) f)
  (hnodup : f.nodes.Nodup) {entry : TableRow → Forest.Entry RecoverNode}
  (hentry : ∀ row ∈ scopeRows t rows,
    entry row ∈ f.number 1 0 ∧ (entry row).node = nodeOf t row)

include hk hf hnodup hentry in
/-- The entries of the rows are all there are. -/
theorem perm_entries : ((scopeRows t rows).map entry).Perm (f.number 1 0) := by
  have hnumber : (f.number 1 0).Nodup := by
    apply List.Nodup.of_map Forest.Entry.node
    rw [Forest.map_node_number]
    exact hnodup
  have hmap : ((scopeRows t rows).map entry).Nodup := by
    apply List.Nodup.map_on _ (nodup_live hk)
    intro row hrow row' hrow' heq
    apply row_eq_of_nodeOf hk hrow hrow'
    rw [← (hentry row hrow).2, ← (hentry row' hrow').2, heq]
  apply (List.perm_ext_iff_of_nodup hmap hnumber).mpr
  intro e
  constructor
  · intro he
    obtain ⟨row, hrow, rfl⟩ := List.mem_map.mp he
    exact (hentry row hrow).1
  · intro he
    have hnode : e.node ∈ f.nodes := by
      rw [← Forest.map_node_number f 1 0]
      exact List.mem_map_of_mem he
    obtain ⟨row, hrow, heq⟩ := row_of_mem_nodes hf hnode
    obtain rfl := Forest.entry_unique hnodup (hentry row hrow).1 he ((hentry row hrow).2.trans heq)
    exact List.mem_map_of_mem hrow

include hk hf hnodup hentry in
theorem size_eq_length : f.size = (scopeRows t rows).length := by
  have hlength := (perm_entries hk hf hnodup hentry).length_eq
  rw [List.length_map] at hlength
  rw [hlength, ← Forest.length_nodes f, ← Forest.map_node_number f 1 0, List.length_map]

variable (hrooted : ∀ row ∈ scopeRows t rows, ∃ depth, Depth t (scopeRows t rows) row depth)
  (hlinks : ∀ parent ∈ scopeRows t rows, ∀ row ∈ scopeRows t rows,
    f.Child (nodeOf t parent) (nodeOf t row) → row t.mapping.parent = parent t.mapping.pk)

include hf hrooted in
theorem child_of_parentOf {parent row : TableRow} (h : ParentOf t (scopeRows t rows) parent row) :
    f.Child (nodeOf t parent) (nodeOf t row) := by
  obtain ⟨depth, hdepth⟩ := hrooted parent h.1
  apply hf.child_of_mem (mem_nodes_of_depth hf hdepth)
  rw [mem_kids h.2.1, h.2.2]

include hf hrooted hlinks in
/-- The forest has the ancestors of the parent links. -/
theorem transGen_child_iff {a b : TableRow} (ha : a ∈ scopeRows t rows)
    (hb : b ∈ scopeRows t rows) : TransGen f.Child (nodeOf t a) (nodeOf t b) ↔
      TransGen (ParentOf t (scopeRows t rows)) a b := by
  constructor
  · intro h
    generalize hx : nodeOf t b = x at h
    induction h generalizing b with
    | single hchild =>
      subst hx
      exact .single ⟨ha, hb, hlinks a ha b hb hchild⟩
    | @tail y x hay hchild ih =>
      subst hx
      obtain ⟨row, hrow, rfl⟩ := row_of_mem_nodes hf hchild.mem_left
      exact .tail (ih hrow rfl) ⟨hrow, hb, hlinks row hrow b hb hchild⟩
  · intro h
    clear hb
    induction h with
    | single hlink => exact .single (child_of_parentOf hf hrooted hlink)
    | tail _ hlink ih => exact .tail ih (child_of_parentOf hf hrooted hlink)

include hk hf hnodup hentry hrooted hlinks in
theorem numbering_of_nodup (hless : StrictWeakOrder less) :
    Numbering t (scopeRows t rows) less (fun row => (entry row).lft) (fun row => (entry row).rght)
      (fun row => (entry row).depth) where
  boundaries := by
    have hperm := perm_entries hk hf hnodup hentry
    rw [← size_eq_length hk hf hnodup hentry]
    refine List.Perm.trans ?_ (Forest.boundaries_number f 1 0)
    have hmap : (scopeRows t rows).flatMap (fun row => [(entry row).lft, (entry row).rght]) =
        ((scopeRows t rows).map entry).flatMap fun e => [e.lft, e.rght] := by
      rw [List.flatMap_map]
    rw [hmap]
    exact hperm.flatMap_right _
  ordered row hrow := (Forest.bounds_of_mem_number (hentry row hrow).1).2.1
  nested a ha b hb := by
    obtain ⟨hamem, hanode⟩ := hentry a ha
    obtain ⟨hbmem, hbnode⟩ := hentry b hb
    have hiff := Forest.contains_iff hnodup hamem hbmem
    rw [hanode, hbnode, transGen_child_iff hf hrooted hlinks ha hb] at hiff
    exact hiff
  siblings a ha b hb hparent hlt := by
    -- both stand in one list of siblings, in this order
    have hne : nodeOf t a ≠ nodeOf t b := by
      intro heq
      rw [heq, hless.irrefl] at hlt
      cases hlt
    have helder : f.Elder (nodeOf t a) (nodeOf t b) := by
      have hsub : ∀ key, valueKey (a t.mapping.parent) = valueKey key →
          [nodeOf t a, nodeOf t b].Sublist
            (childrenUnder sort (readNodes t rows) (valueKey key)) := by
        intro key hkey
        apply sort.sublist_run _ _ hne hlt
        · simpa [hkey] using mem_readNodes.mpr ⟨a, ha, rfl⟩
        · simpa [← hparent, hkey] using mem_readNodes.mpr ⟨b, hb, rfl⟩
      obtain ⟨depth, hdepth⟩ := hrooted a ha
      cases hdepth with
      | root _ hroot => exact hf.elder_of_sublist (hsub .null (by rw [hroot]))
      | @child parent _ _ hdepth hlink =>
        apply hf.elder_of_kids (mem_nodes_of_depth hf hdepth)
        rw [kids, nodeOf_pk]
        exact hsub _ (by rw [hlink.2.2])
    obtain ⟨e, he, e', he', hnode, hnode', hlt⟩ := Forest.exists_of_elder helder 1 0
    rw [Forest.entry_unique hnodup (hentry a ha).1 he ((hentry a ha).2.trans hnode.symm),
      Forest.entry_unique hnodup (hentry b hb).1 he' ((hentry b hb).2.trans hnode'.symm)]
    exact hlt
  depth row hrow := by
    obtain ⟨depth, hdepth⟩ := hrooted row hrow
    suffices heq : (entry row).depth = depth by rw [heq]; exact hdepth
    clear hrow
    induction hdepth with
    | @root row hmem hroot =>
      have hroots : nodeOf t row ∈ f.roots := by
        rw [hf.roots_eq, mem_children hmem, hroot]
      obtain ⟨e, he, hnode, hdepth⟩ := Forest.exists_of_root hroots 1 0
      rw [Forest.entry_unique hnodup (hentry _ hmem).1 he ((hentry _ hmem).2.trans hnode.symm)]
      exact hdepth
    | child _ hlink ih =>
      obtain ⟨e, he, e', he', hnode, hnode', -, hdepth⟩ :=
        Forest.exists_of_child (child_of_parentOf hf hrooted hlink) 1 0
      rw [Forest.entry_unique hnodup (hentry _ hlink.2.1).1 he'
        ((hentry _ hlink.2.1).2.trans hnode'.symm), hdepth,
        ← Forest.entry_unique hnodup (hentry _ hlink.1).1 he
          ((hentry _ hlink.1).2.trans hnode.symm), ih]

/-! ### The updates in the table -/

variable {updates : List RecoverUpdate}
  (hupdates : updates.Perm ((f.number 1 0).map updateOf))

include hk hf hnodup hentry hupdates in
theorem foldl_updates {row : TableRow} (hrow : row ∈ scopeRows t rows) :
    updates.foldl (applyUpdate t) row =
      renumbered t (entry row).lft (entry row).rght (entry row).depth row := by
  have hperm : updates.Perm ((scopeRows t rows).map fun row => updateOf (entry row)) := by
    have hmap : ((scopeRows t rows).map entry).map updateOf =
        (scopeRows t rows).map fun row => updateOf (entry row) := by
      rw [List.map_map]
      rfl
    rw [← hmap]
    exact hupdates.trans ((perm_entries hk hf hnodup hentry).symm.map updateOf)
  have hpk : ∀ row ∈ scopeRows t rows, (updateOf (entry row)).pk = row t.mapping.pk := by
    intro row hrow
    rw [updateOf, (hentry row hrow).2, nodeOf_pk]
  have hdistinct : updates.Nodup := by
    apply hperm.nodup_iff.mpr
    apply List.Nodup.map_on _ (nodup_live hk)
    intro row hrow row' hrow' heq
    apply row_eq_of_pk hk hrow hrow'
    rw [← hpk row hrow, ← hpk row' hrow', heq]
  have hmem : updateOf (entry row) ∈ updates := hperm.mem_iff.mpr (List.mem_map_of_mem hrow)
  apply foldl_applyUpdate hk hdistinct (List.mem_filter.mp hrow).2 hmem
  · rw [hpk row hrow]
    exact t.engine.compare_eq_self _ (hk.keyed row hrow)
  · intro other hother hne
    obtain ⟨row', hrow', rfl⟩ := List.mem_map.mp (hperm.mem_iff.mp hother)
    rw [hpk row' hrow']
    exact compare_of_ne hk hrow hrow' fun h => hne (by rw [h])

end Numbered

/-! ## The table afterwards -/

section After

variable {t : TreeManager} {rows : List TableRow} (hk : KeyedRows t (scopeRows t rows))

include hk in
theorem boundsOf_renumbered (lft rght depth : Nat) (row : TableRow) :
    boundsOf t.mapping.left t.mapping.right
      (t.mapping.resultRow (renumbered t lft rght depth row)) =
        some ⟨Int64.ofNat lft, Int64.ofNat rght⟩ := by
  have hroles := hk.roles
  simp only [List.nodup_cons, List.mem_cons, not_or] at hroles
  have hne : t.mapping.right ≠ t.mapping.left := Ne.symm hroles.2.2.1.1
  have hleft : renumbered t lft rght depth row t.mapping.left = .int64 (Int64.ofNat lft) := by
    rw [renumbered, if_pos rfl]
  have hright : renumbered t lft rght depth row t.mapping.right = .int64 (Int64.ofNat rght) := by
    rw [renumbered, if_neg hne, if_pos rfl]
  rw [boundsOf, TreeMapping.lookup_resultRow _ _ t.mapping.left_mem,
    TreeMapping.lookup_resultRow _ _ t.mapping.right_mem, hleft, hright]

/-- The rows with their new numbers. -/
def renumberAll (t : TreeManager) (lft rght depth : TableRow → Nat) (rows : List TableRow) :
    List TableRow :=
  rows.map fun row =>
    if inScope t row then renumbered t (lft row) (rght row) (depth row) row else row

include hk in
theorem scopeRows_renumberAll (lft rght depth : TableRow → Nat) (all : List TableRow) :
    scopeRows t (renumberAll t lft rght depth all) =
      (scopeRows t all).map fun row => renumbered t (lft row) (rght row) (depth row) row := by
  induction all with
  | nil => rfl
  | cons row all ih =>
    unfold scopeRows renumberAll at ih ⊢
    rw [List.map_cons]
    cases h : inScope t row with
    | true =>
      rw [if_pos rfl, List.filter_cons_of_pos h, List.filter_cons_of_pos, ih, List.map_cons]
      rw [inScope_renumbered hk, h]
    | false =>
      rw [if_neg (by simp), List.filter_cons_of_neg (by simp [h]),
        List.filter_cons_of_neg (by simp [h]), ih]

include hk in
/-- Rows with the numbers of a forest pass the validation. -/
theorem run_validate_renumberAll {lft rght depth : TableRow → Nat}
    (hvalid : ValidBounds ((scopeRows t rows).map fun row =>
      ⟨Int64.ofNat (lft row), Int64.ofNat (rght row)⟩)) (sort : StdSort Item.before) :
    (t.validate sort).run t.serve (renumberAll t lft rght depth rows) =
      (.ok [], renumberAll t lft rght depth rows) := by
  let sorted := t.engine.orderBy true t.mapping.left
    (scopeRows t (renumberAll t lft rght depth rows))
  have hsorted : ∀ row ∈ sorted, ∃ row₀ ∈ scopeRows t rows,
      row = renumbered t (lft row₀) (rght row₀) (depth row₀) row₀ := by
    intro row hrow
    have hmem := (t.engine.orderBy_perm _ _ _).mem_iff.mp hrow
    rw [scopeRows_renumberAll hk] at hmem
    obtain ⟨row₀, hrow₀, rfl⟩ := List.mem_map.mp hmem
    exact ⟨row₀, hrow₀, rfl⟩
  have hinteger : IntegerBoundaries (sorted.map t.mapping.resultRow) t.mapping.pk t.mapping.left
      t.mapping.right := by
    intro result hresult
    obtain ⟨row, hrow, rfl⟩ := List.mem_map.mp hresult
    obtain ⟨row₀, -, rfl⟩ := hsorted row hrow
    rw [TreeMapping.lookup_resultRow _ _ t.mapping.pk_mem, boundsOf_renumbered hk]
    exact ⟨rfl, rfl⟩
  obtain ⟨items, hitems, hbounds⟩ := mapM_itemOf hinteger
  have hitemsvalid : ValidBounds (items.map Item.bounds) := by
    rw [← hbounds]
    apply hvalid.perm
    have hperm := ((t.engine.orderBy_perm true t.mapping.left
      (scopeRows t (renumberAll t lft rght depth rows))).map t.mapping.resultRow).filterMap
        (boundsOf t.mapping.left t.mapping.right)
    refine List.Perm.trans ?_ hperm.symm
    rw [scopeRows_renumberAll hk, List.map_map, List.filterMap_map, ← List.filterMap_eq_map]
    apply List.Perm.of_eq
    apply List.filterMap_congr
    intro row _
    exact (boundsOf_renumbered hk (lft row) (rght row) (depth row) row).symm
  have hnil := (validate_iff_of_nodup sort hitemsvalid.distinct).mpr hitemsvalid
  have hlist : (execute t.findTreeList).run t.serve (renumberAll t lft rght depth rows) =
      (.ok { rows := sorted.map t.mapping.resultRow }, renumberAll t lft rght depth rows) := rfl
  rw [TreeManager.validate, Client.run_bind_ok t.serve hlist, Client.run_lift,
    validateTree_of_mapM hitems, hnil]

end After

/-! ## Loops of keys -/

section KeyLoops

variable {t : TreeManager} {rows : List TableRow} {less : RecoverNode → RecoverNode → Bool}
  {sort : StdSort less} (hk : KeyedRows t (scopeRows t rows))

theorem kid_of_keyLink {a b : TableRow} (h : KeyLink t (scopeRows t rows) a b) :
    nodeOf t b ∈ kids sort (readNodes t rows) (nodeOf t a) := (mem_kids h.1).mpr h.2

theorem exists_keyLink {a : TableRow} {x : RecoverNode}
    (h : x ∈ kids sort (readNodes t rows) (nodeOf t a)) :
    ∃ b, nodeOf t b = x ∧ KeyLink t (scopeRows t rows) a b := by
  obtain ⟨b, hb, rfl⟩ := mem_readNodes.mp (mem_childrenUnder.mp h).1
  exact ⟨b, rfl, hb, (mem_kids hb).mp h⟩

theorem exists_reflTransGen_keyLink {a : TableRow} {x : RecoverNode}
    (h : ReflTransGen (fun a b => b ∈ kids sort (readNodes t rows) a) (nodeOf t a) x) :
    ∃ b, nodeOf t b = x ∧ ReflTransGen (KeyLink t (scopeRows t rows)) a b := by
  induction h with
  | refl => exact ⟨a, rfl, .refl⟩
  | tail _ hkid ih =>
    obtain ⟨b, rfl, hab⟩ := ih
    obtain ⟨c, hc, hbc⟩ := exists_keyLink hkid
    exact ⟨c, hc, hab.tail hbc⟩

theorem mem_of_reflTransGen_keyLink {live : List TableRow} {a b : TableRow} (ha : a ∈ live)
    (h : ReflTransGen (KeyLink t live) a b) : b ∈ live := by
  obtain rfl | ⟨_, -, hlink⟩ := ReflTransGen.cases_tail h
  · exact ha
  · exact hlink.1

include hk in
/-- The recursion has an end exactly without a loop of keys. -/
theorem keyLoop_iff : KeyLoop t (scopeRows t rows) ↔
    ∃ root ∈ childrenUnder sort (readNodes t rows) (valueKey .null),
      Endless sort (readNodes t rows) root := by
  constructor
  · rintro ⟨root, hroot, hnull, row, hreach, hloop⟩
    refine ⟨nodeOf t root, (mem_children hroot).mpr (by rw [hnull]), nodeOf t row, ?_, ?_⟩
    · exact hreach.lift (nodeOf t) fun _ _ => kid_of_keyLink
    · exact TransGen.lift (nodeOf t) (fun _ _ => kid_of_keyLink) _ _ hloop
  · rintro ⟨node, hnode, x, hreach, hloop⟩
    obtain ⟨root, hroot, rfl⟩ := mem_readNodes.mp (mem_childrenUnder.mp hnode).1
    have hnull := valueKey_eq_null.mp ((mem_children hroot).mp hnode)
    obtain ⟨row, rfl, hlinks⟩ := exists_reflTransGen_keyLink hreach
    have hrow := mem_of_reflTransGen_keyLink hroot hlinks
    refine ⟨root, hroot, hnull, row, hlinks, ?_⟩
    obtain ⟨kid, hkid, hrest⟩ := TransGen.head'_iff.mp hloop
    obtain ⟨next, rfl, hlink⟩ := exists_keyLink hkid
    obtain ⟨last, hlast, hback⟩ := exists_reflTransGen_keyLink hrest
    -- the row that the loop ends at is the one it starts at
    have hlastmem := mem_of_reflTransGen_keyLink hlink.1 hback
    obtain rfl := row_eq_of_nodeOf hk hlastmem hrow hlast
    exact .head' hlink hback

end KeyLoops

/-! ## The exact condition -/

section Exact

variable {t : TreeManager} {rows : List TableRow} {less : RecoverNode → RecoverNode → Bool}
  {sort : StdSort less} (hk : KeyedRows t (scopeRows t rows))

/-- Updates are the numbering of a forest. -/
theorem forest_of_recover {fuel : Nat} {updates : List RecoverUpdate}
    (h : recover sort fuel (readNodes t rows) = some updates) :
    ∃ f, Forest.Grown (kids sort (readNodes t rows))
        (childrenUnder sort (readNodes t rows) (valueKey .null)) f ∧
      updates.Perm ((f.number 1 0).map updateOf) := by
  obtain ⟨⟨right, _⟩, htraverse, rfl⟩ := Option.map_eq_some_iff.mp h
  obtain ⟨f, hf, -, hperm⟩ := traverse_numbers sort (readNodes t rows) htraverse
  exact ⟨f, hf, hperm⟩

theorem length_updates {updates : List RecoverUpdate} {f : Forest RecoverNode}
    (hupdates : updates.Perm ((f.number 1 0).map updateOf)) : updates.length = f.size := by
  rw [hupdates.length_eq, List.length_map, ← Forest.length_nodes f,
    ← Forest.map_node_number f 1 0, List.length_map]

include hk in
/-- Where every row is numbered once, the table has been recovered. -/
theorem recovered_of_nodup {updates : List RecoverUpdate} {f : Forest RecoverNode}
    (hf : Forest.Grown (kids sort (readNodes t rows))
      (childrenUnder sort (readNodes t rows) (valueKey .null)) f)
    (hupdates : updates.Perm ((f.number 1 0).map updateOf)) (hnodup : f.nodes.Nodup)
    (hrooted : ∀ row ∈ scopeRows t rows, ∃ depth, Depth t (scopeRows t rows) row depth)
    (hapart : ApartKeys t (scopeRows t rows)) (hless : StrictWeakOrder less) :
    Recovered t less rows (rows.map fun row => updates.foldl (applyUpdate t) row)
      updates.length := by
  have hexists : ∀ row, ∃ entry : Forest.Entry RecoverNode, row ∈ scopeRows t rows →
      entry ∈ f.number 1 0 ∧ entry.node = nodeOf t row := by
    intro row
    by_cases hrow : row ∈ scopeRows t rows
    · obtain ⟨depth, hdepth⟩ := hrooted row hrow
      have hmem := mem_nodes_of_depth hf hdepth
      rw [← Forest.map_node_number f 1 0] at hmem
      obtain ⟨entry, hentry, hnode⟩ := List.mem_map.mp hmem
      exact ⟨entry, fun _ => ⟨hentry, hnode⟩⟩
    · exact ⟨⟨nodeOf t row, 0, 0, 0⟩, fun h => absurd h hrow⟩
  choose entry hentry using hexists
  have hlinks : ∀ parent ∈ scopeRows t rows, ∀ row ∈ scopeRows t rows,
      f.Child (nodeOf t parent) (nodeOf t row) → row t.mapping.parent = parent t.mapping.pk :=
    fun parent hparent row hrow hchild =>
      parent_of_key hk hrooted hapart hparent hrow ((mem_kids hrow).mp (hf.mem_kids hchild))
  have hsize := size_eq_length hk hf hnodup hentry
  have htable : (rows.map fun row => updates.foldl (applyUpdate t) row) =
      renumberAll t (fun row => (entry row).lft) (fun row => (entry row).rght)
        (fun row => (entry row).depth) rows := by
    apply List.map_congr_left
    intro row hrow
    cases hin : inScope t row with
    | true =>
      rw [if_pos rfl]
      exact foldl_updates hk hf hnodup hentry hupdates (List.mem_filter.mpr ⟨hrow, hin⟩)
    | false =>
      rw [if_neg (by simp)]
      exact foldl_applyUpdate_outside hin
  have hvalid : ValidBounds ((scopeRows t rows).map fun row =>
      ⟨Int64.ofNat (entry row).lft, Int64.ofNat (entry row).rght⟩) := by
    apply (validBounds_number f 0 (by rw [hsize]; exact hk.size_lt)).perm
    have hperm := ((perm_entries hk hf hnodup hentry).map boundsOfEntry).symm
    rwa [List.map_map] at hperm
  refine ⟨_, _, _, numbering_of_nodup hk hf hnodup hentry hrooted hlinks hless, ?_, htable, ?_⟩
  · rw [length_updates hupdates, hsize]
  · intro sort
    rw [htable]
    exact run_validate_renumberAll hk hvalid sort

include hk in
/-- Where a table has been recovered, every row was numbered once. -/
theorem apart_of_recovered {updates : List RecoverUpdate} {f : Forest RecoverNode}
    (hf : Forest.Grown (kids sort (readNodes t rows))
      (childrenUnder sort (readNodes t rows) (valueKey .null)) f)
    (hupdates : updates.Perm ((f.number 1 0).map updateOf))
    (hrooted : ∀ row ∈ scopeRows t rows, ∃ depth, Depth t (scopeRows t rows) row depth)
    (hcount : updates.length = (scopeRows t rows).length) : ApartKeys t (scopeRows t rows) := by
  have hsub : readNodes t rows ⊆ f.nodes := by
    intro node hnode
    obtain ⟨row, hrow, rfl⟩ := mem_readNodes.mp hnode
    obtain ⟨depth, hdepth⟩ := hrooted row hrow
    exact mem_nodes_of_depth hf hdepth
  have hlength : f.nodes.length ≤ (readNodes t rows).length := by
    rw [Forest.length_nodes, ← length_updates hupdates, hcount, readNodes, List.length_map,
      readRows, (t.engine.orderBy_perm _ _ _).length_eq]
  have hperm := (List.subperm_of_subset (nodup_readNodes hk) hsub).perm_of_length_le hlength
  have hnodup : f.nodes.Nodup := hperm.nodup_iff.mp (nodup_readNodes hk)
  intro p hp q hq hkey hne row hrow hparent
  -- the row would be numbered below both
  have hchild : ∀ parent ∈ scopeRows t rows,
      valueKey (row t.mapping.parent) = valueKey (parent t.mapping.pk) →
        f.Child (nodeOf t parent) (nodeOf t row) := by
    intro parent hparent hlink
    apply hf.child_of_mem (hsub (mem_readNodes.mpr ⟨parent, hparent, rfl⟩))
    exact (mem_kids hrow).mpr hlink
  apply hne
  apply row_eq_of_nodeOf hk hp hq
  exact Forest.Child.unique hnodup (hchild p hp (by rw [hparent]))
    (hchild q hq (by rw [hparent, hkey]))

end Exact

/-! ### A category and an orphan -/

/-- Siblings in the order of their old boundaries. -/
def byLeft (a b : RecoverNode) : Bool := a.lft < b.lft

theorem strictWeakOrder_byLeft : StrictWeakOrder byLeft where
  irrefl a := by simp [byLeft, Int64.lt_irrefl]
  trans a b c := by
    simp only [byLeft, decide_eq_true_eq, Int64.lt_iff_toInt_lt]
    omega
  incomparable_trans a b c := by
    simp only [byLeft, decide_eq_false_iff_not, Int64.lt_iff_toInt_lt]
    omega

theorem left_trans (a b c : RecoverNode) : decide (a.lft ≤ b.lft) = true →
    decide (b.lft ≤ c.lft) = true → decide (a.lft ≤ c.lft) = true := by
  simp only [decide_eq_true_eq, Int64.le_iff_toInt_le]
  omega

theorem left_total (a b : RecoverNode) :
    (decide (a.lft ≤ b.lft) || decide (b.lft ≤ a.lft)) = true := by
  simp only [Bool.or_eq_true, decide_eq_true_eq, Int64.le_iff_toInt_le]
  omega

theorem byLeft_eq_false (a b : RecoverNode) :
    decide (a.lft ≤ b.lft) = true → byLeft b a = false := by
  simp only [byLeft, decide_eq_true_eq, decide_eq_false_iff_not, Int64.le_iff_toInt_le,
    Int64.lt_iff_toInt_lt]
  omega

/-- An arrangement that `std::sort` may choose. -/
def sortByLeft : StdSort byLeft :=
  .ofOrder (fun a b => a.lft ≤ b.lft) left_trans left_total byLeft_eq_false

theorem keyedRows_category (parentId : Value) :
    KeyedRows (tenantTree 1) (scopeRows (tenantTree 1) [category 2 parentId 1 2 0 1]) where
  roles := by decide
  scope := by decide
  keyed := by
    intro row hrow
    obtain rfl := List.mem_singleton.mp (List.mem_filter.mp hrow).1
    show Value.int64 2 ≠ .null
    exact nofun
  distinct := List.pairwise_singleton _ _
  size_lt := by
    have := List.length_filter_le (inScope (tenantTree 1)) [category 2 parentId 1 2 0 1]
    simp only [List.length_singleton] at this
    rw [scopeRows]
    omega

theorem run_recover_orphan :
    ((tenantTree 1).recover sortByLeft 1).run (tenantTree 1).serve
        [category 2 (.int64 9) 1 2 0 1] =
      (.ok (some ⟨0, true, []⟩), [category 2 (.int64 9) 1 2 0 1]) := by
  have hscope : scopeRows (tenantTree 1) [category 2 (.int64 9) 1 2 0 1] =
      [category 2 (.int64 9) 1 2 0 1] := rfl
  have hread : readRows (tenantTree 1) [category 2 (.int64 9) 1 2 0 1] =
      [category 2 (.int64 9) 1 2 0 1] := by
    rw [readRows, hscope]
    exact List.mergeSort_singleton _
  rw [run_recover_of_readable, hread]
  · -- nothing is below null
    have hchildren : childrenUnder sortByLeft
        [nodeOf (tenantTree 1) (category 2 (.int64 9) 1 2 0 1)] (valueKey .null) = [] := by
      rw [childrenUnder]
      exact List.mergeSort_nil
    rw [List.map_singleton, recover, traverse, hchildren]
    rfl
  · intro row hrow
    rw [hscope, List.mem_singleton] at hrow
    rw [hrow]
    exact ⟨_, rfl⟩

end MetalOrm.Native.Tree
