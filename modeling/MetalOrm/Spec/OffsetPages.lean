import MetalOrm.ForStd.FirstBy
import MetalOrm.Native.OffsetPage

/-!
# Pages of distinct roots

A page by offsets is a slice of the distinct roots. Where it begins and ends is computed in
`size_t`, and the roots are told apart by the texts of their keys.

## Key results

- `distinctRootRows_eq`: what the loop over the rows keeps
- `pageRows_eq_ok_iff`: when the slice is the one that was asked for
- `exact_page_iff`: when both kinds of pages are exact
-/

namespace MetalOrm.Native.Paging

open ForStd ForStd.Prog
open Loader (PageOptions distinctRootRows pageRows)
open Cursor (BoundSql)

/-! ## What a page is -/

/-- The distinct roots of the rows, in the order of their first rows. -/
def distinctRoots (primaryKey : Name) (rows : List Row) : List Row :=
  firstBy (·.lookup primaryKey) rows

/-- Where a page begins, as an unbounded integer. -/
def offsetOf (options : PageOptions) : Nat :=
  (options.page.toNat - 1) * options.pageSize.toNat

/-- The roots of a page. -/
def rootsOfPage (primaryKey : Name) (rows : List Row) (page size : Nat) : List Row :=
  ((distinctRoots primaryKey rows).drop ((page - 1) * size)).take size

/-- Both kinds of pages are exact: the entities are those of the roots of the page, whatever makes
    them of rows, and the rows are asked for at the offset of the page. -/
structure ExactPage (primaryKey : Name) (rows : List Row) (options : PageOptions) : Prop where
  entities : ∀ {σ Entity : Type} (execute : Prog Exn σ (List Row))
    (hydrate : Row → Prog Exn σ Entity) (s s' : σ), exec execute s = (.ok rows, s') →
    exec (executePagedEntities primaryKey execute hydrate options) s =
      exec (do
        let items ← (rootsOfPage primaryKey rows options.page.toNat
          options.pageSize.toNat).mapM hydrate
        return {
          items
          totalItems := UInt64.ofNat (distinctRoots primaryKey rows).length
          page := options.page
          pageSize := options.pageSize }) s'
  rows : ∀ base, pageSql base options =
    sliceSql base options.pageSize.toNat (offsetOf options)

/-- Different keys have different texts. -/
def KeysApart (primaryKey : Name) (rows : List Row) : Prop :=
  ∀ a ∈ rows, ∀ b ∈ rows, (a.lookup primaryKey).map valueKey = (b.lookup primaryKey).map valueKey →
    a.lookup primaryKey = b.lookup primaryKey

/-- Keys that are no doubles have their own texts. -/
theorem keysApart_of_not_double {primaryKey : Name} {rows : List Row}
    (h : ∀ row ∈ rows, ∀ key, row.lookup primaryKey = some key → key.isDouble = false) :
    KeysApart primaryKey rows := by
  intro a ha b hb heq
  cases hx : a.lookup primaryKey with
  | none =>
    cases hy : b.lookup primaryKey with
    | none => rfl
    | some y =>
      rw [hx, hy] at heq
      cases heq
  | some x =>
    cases hy : b.lookup primaryKey with
    | none =>
      rw [hx, hy] at heq
      cases heq
    | some y =>
      rw [hx, hy] at heq
      rw [valueKey_injective (h a ha x hx) (h b hb y hy) (Option.some.inj heq)]

/-- The pages of one size are disjoint, cover the roots, and are empty in the end. -/
structure PagesPartition (primaryKey : Name) (rows : List Row) : Prop where
  distinct : ((distinctRoots primaryKey rows).map (·.lookup primaryKey)).Nodup
  covers : ∀ row ∈ rows, ∃ root ∈ distinctRoots primaryKey rows,
    root.lookup primaryKey = row.lookup primaryKey
  pages : ∀ size count, (distinctRoots primaryKey rows).length ≤ count * size →
    (List.range count).flatMap (fun i => rootsOfPage primaryKey rows (i + 1) size) =
      distinctRoots primaryKey rows
  beyond : ∀ size page, (distinctRoots primaryKey rows).length ≤ (page - 1) * size →
    rootsOfPage primaryKey rows page size = []

theorem pagesPartition (primaryKey : Name) (rows : List Row) : PagesPartition primaryKey rows where
  distinct := nodup_map_firstBy
  covers row hrow := by
    have hmem : row.lookup primaryKey ∈ (distinctRoots primaryKey rows).map (·.lookup primaryKey) :=
      mem_map_firstBy.mpr (List.mem_map_of_mem hrow)
    exact List.mem_map.mp hmem
  pages size count h := by
    have hslices := flatMap_slices (distinctRoots primaryKey rows) size count
    rwa [List.take_of_length_le h] at hslices
  beyond size page h := by
    rw [rootsOfPage, List.drop_eq_nil_of_le h, List.take_nil]

/-! ## What the code does -/

/-- The text by which the code knows the root of a row. -/
def rootText (primaryKey : Name) (row : Row) : Option (List UInt8) :=
  (row.lookup primaryKey).map valueKey

/-- The loop keeps the first row of each text that it has not seen. -/
theorem distinctRootRows_eq {primaryKey : Name} {rows : List Row}
    (hkeys : ∀ row ∈ rows, (row.lookup primaryKey).isSome) (seen : List (List UInt8)) :
    distinctRootRows primaryKey rows seen =
      .ok (firstUnseen (rootText primaryKey) (seen.map some) rows) := by
  induction rows generalizing seen with
  | nil => rfl
  | cons row rows ih =>
    obtain ⟨key, hkey⟩ := Option.isSome_iff_exists.mp (hkeys row List.mem_cons_self)
    have hrows : ∀ row ∈ rows, (row.lookup primaryKey).isSome := fun r hr =>
      hkeys r (List.mem_cons_of_mem row hr)
    have htext : rootText primaryKey row = some (valueKey key) := by
      rw [rootText, hkey]
      rfl
    have hseen : rootText primaryKey row ∈ seen.map some ↔ valueKey key ∈ seen := by simp [htext]
    rw [firstUnseen_cons, distinctRootRows, hkey]
    dsimp only
    by_cases hmem : valueKey key ∈ seen
    · rw [if_pos hmem, if_pos (hseen.mpr hmem)]
      exact ih hrows seen
    · rw [if_neg hmem, if_neg (mt hseen.mp hmem), ih hrows, htext]
      rfl

/-- The offset of the code is that of the page up to a multiple of `2 ^ 64`. -/
theorem toNat_offset {options : PageOptions} (hpage : 1 ≤ options.page) :
    ((options.page - 1) * options.pageSize).toNat = offsetOf options % 2 ^ 64 := by
  rw [UInt64.toNat_mul, UInt64.toNat_sub_of_le _ _ hpage]
  rfl

/-- The texts of different offsets differ. -/
theorem sliceSql_injective {base : BoundSql} {size : Nat} {m n : Nat}
    (h : sliceSql base size m = sliceSql base size n) : m = n :=
  decimal_injective (List.append_cancel_left (List.append_cancel_right h))

/-- The slice is the one that was asked for, if it begins behind the roots or ends in bounds. -/
theorem pageRows_eq_ok_iff {options : PageOptions} (hpage : 1 ≤ options.page)
    (hsize : 1 ≤ options.pageSize) {unique : List Row} (hunique : unique.length < 2 ^ 63) :
    pageRows options unique =
        .ok ((unique.drop (offsetOf options)).take options.pageSize.toNat) ↔
      unique.length ≤ offsetOf options % 2 ^ 64 ∨
        offsetOf options + options.pageSize.toNat < 2 ^ 64 := by
  have hsize : 1 ≤ options.pageSize.toNat := UInt64.le_iff_toNat_le.mp hsize
  have hbound := options.pageSize.toNat_lt
  have hoffset := toNat_offset hpage
  have hend : ((options.page - 1) * options.pageSize + options.pageSize).toNat =
      (offsetOf options % 2 ^ 64 + options.pageSize.toNat) % 2 ^ 64 := by
    rw [UInt64.toNat_add, hoffset]
  unfold pageRows
  dsimp only
  rw [hend, hoffset]
  generalize offsetOf options = offset at *
  generalize options.pageSize.toNat = size at *
  by_cases hbehind : unique.length ≤ offset % 2 ^ 64
  · -- the page is empty, and so is the one that was asked for
    have hempty : unique.drop offset = [] := List.drop_eq_nil_of_le (by omega)
    rw [if_pos hbehind, hempty, List.take_nil]
    exact iff_of_true rfl (.inl hbehind)
  · rw [if_neg hbehind]
    by_cases hfits : offset + size < 2 ^ 64
    · have hmod : offset % 2 ^ 64 = offset := by omega
      rw [hmod, Nat.mod_eq_of_lt hfits, if_neg (by omega), Nat.min_comm,
        ← List.take_eq_take_min, List.drop_take, Nat.add_sub_cancel_left]
      exact iff_of_true rfl (.inr hfits)
    · refine iff_of_false ?_ (by omega)
      by_cases hwraps : offset % 2 ^ 64 + size < 2 ^ 64
      · -- the offset alone has wrapped around: roots are returned where there are none
        have hempty : unique.drop offset = [] := List.drop_eq_nil_of_le (by omega)
        rw [Nat.mod_eq_of_lt hwraps, if_neg (by omega), hempty, List.take_nil]
        intro h
        have hlength := congrArg List.length (Except.ok.inj h)
        rw [List.length_drop, List.length_take, List.length_nil] at hlength
        omega
      · -- the end has wrapped around, so that it is before the offset
        rw [if_pos (by omega)]
        nofun

/-! ## Exact pages -/

theorem length_distinctRoots_le (primaryKey : Name) (rows : List Row) :
    (distinctRoots primaryKey rows).length ≤ rows.length :=
  firstBy_sublist.length_le

/-- What the code makes of the rows that a query returned. -/
theorem exec_executePagedEntities {primaryKey : Name} {rows : List Row} {options : PageOptions}
    (hkeys : ∀ row ∈ rows, (row.lookup primaryKey).isSome) (hpage : 1 ≤ options.page)
    (hsize : 1 ≤ options.pageSize) {σ Entity : Type} {execute : Prog Exn σ (List Row)}
    (hydrate : Row → Prog Exn σ Entity) {s s' : σ} (h : exec execute s = (.ok rows, s')) :
    exec (executePagedEntities primaryKey execute hydrate options) s =
      exec (do
        let page ← orThrow (pageRows options (firstBy (rootText primaryKey) rows))
        let items ← page.mapM hydrate
        return {
          items
          totalItems := UInt64.ofNat (firstBy (rootText primaryKey) rows).length
          page := options.page
          pageSize := options.pageSize }) s' := by
  have hvalid : validate options = .ok () := by
    unfold validate
    rw [if_neg (UInt64.not_lt.mpr hpage), if_neg (UInt64.not_lt.mpr hsize)]
  have hunique := distinctRootRows_eq hkeys []
  rw [List.map_nil, firstUnseen_of_nil] at hunique
  unfold executePagedEntities
  rw [hvalid, exec_bind_ok (by rfl), exec_bind_ok h, hunique, exec_bind_ok (by rfl)]

/-- Pages are exact if and only if keys have their own texts, the offset is less than `2 ^ 64`, and
    so is the end of a page that is not behind the roots. The pages of one size partition the
    roots. -/
theorem exact_page_iff {primaryKey : Name} {rows : List Row} {options : PageOptions}
    (hkeys : ∀ row ∈ rows, (row.lookup primaryKey).isSome) (hrows : rows.length < 2 ^ 63)
    (hpage : 1 ≤ options.page) (hsize : 1 ≤ options.pageSize) :
    (ExactPage primaryKey rows options ↔
      KeysApart primaryKey rows ∧ offsetOf options < 2 ^ 64 ∧
        ((distinctRoots primaryKey rows).length ≤ offsetOf options ∨
          offsetOf options + options.pageSize.toNat < 2 ^ 64)) ∧
      PagesPartition primaryKey rows := by
  refine ⟨?_, pagesPartition primaryKey rows⟩
  have hunique : (firstBy (rootText primaryKey) rows).length < 2 ^ 63 :=
    lt_of_le_of_lt firstBy_sublist.length_le hrows
  have htotal : (distinctRoots primaryKey rows).length < 2 ^ 63 :=
    lt_of_le_of_lt (length_distinctRoots_le primaryKey rows) hrows
  have hapart : (firstBy (rootText primaryKey) rows).length =
      (distinctRoots primaryKey rows).length ↔ KeysApart primaryKey rows :=
    @length_firstBy_comp_iff _ _ _ _ _ (fun row : Row => row.lookup primaryKey) rows
      (Option.map valueKey)
  have hsame : KeysApart primaryKey rows →
      firstBy (rootText primaryKey) rows = distinctRoots primaryKey rows := fun happart =>
    firstBy_congr fun a ha b hb => ⟨happart a ha b hb, congrArg (Option.map valueKey)⟩
  constructor
  · intro hexact
    -- the page of a query whose rows are taken as they are
    have hquery : exec (pure rows : Prog Exn Unit (List Row)) () = (.ok rows, ()) := rfl
    have hrun := hexact.entities (pure rows) pure () () hquery
    rw [exec_executePagedEntities hkeys hpage hsize pure hquery] at hrun
    have hmapM : ∀ l : List Row, l.mapM (pure : Row → Prog Exn Unit Row) = pure l := fun l => by
      simpa using List.mapM_pure (m := Prog Exn Unit) (l := l) (f := id)
    cases hslice : pageRows options (firstBy (rootText primaryKey) rows) with
    | error e =>
      rw [hslice, hmapM] at hrun
      cases hrun
    | ok page =>
      rw [hslice, exec_bind_ok (by rfl), hmapM, hmapM] at hrun
      have hresult := Except.ok.inj (congrArg Prod.fst hrun)
      have hitems : page = rootsOfPage primaryKey rows _ _ := congrArg PageResult.items hresult
      have hlength := congrArg (fun r => r.totalItems.toNat) hresult
      dsimp only at hlength
      rw [UInt64.toNat_ofNat', UInt64.toNat_ofNat', Nat.mod_eq_of_lt (by omega),
        Nat.mod_eq_of_lt (by omega)] at hlength
      have happart := hapart.mp hlength
      have hoffset : offsetOf options < 2 ^ 64 := by
        have hsql := hexact.rows ([], [])
        rw [pageSql, toNat_offset hpage] at hsql
        have hmod := sliceSql_injective hsql
        omega
      refine ⟨happart, hoffset, ?_⟩
      have hbounds := (pageRows_eq_ok_iff hpage hsize htotal).mp (by
        rw [hsame happart] at hslice
        rw [hslice, hitems]
        rfl)
      rwa [Nat.mod_eq_of_lt hoffset] at hbounds
  · rintro ⟨happart, hoffset, hend⟩
    constructor
    · intro σ Entity execute hydrate s s' h
      have hslice := (pageRows_eq_ok_iff hpage hsize htotal).mpr
        (by rwa [Nat.mod_eq_of_lt hoffset])
      rw [exec_executePagedEntities hkeys hpage hsize hydrate h, hsame happart, hslice,
        exec_bind_ok (by rfl)]
      rfl
    · intro base
      rw [pageSql, toNat_offset hpage, Nat.mod_eq_of_lt hoffset]

/-- Three rows of two users. -/
def userRows : List Row :=
  [AList.singleton (.ofAscii "id") (.int64 1), AList.singleton (.ofAscii "id") (.int64 2),
    AList.singleton (.ofAscii "id") (.int64 1)]

theorem userRows_keys : ∀ row ∈ userRows, (row.lookup (.ofAscii "id")).isSome := by decide

/-- The second page of one user. -/
theorem exact_page_iff_second :
    (ExactPage (.ofAscii "id") userRows ⟨2, 1⟩ ↔
      KeysApart (.ofAscii "id") userRows ∧ offsetOf ⟨2, 1⟩ < 2 ^ 64 ∧
        ((distinctRoots (.ofAscii "id") userRows).length ≤ offsetOf ⟨2, 1⟩ ∨
          offsetOf ⟨2, 1⟩ + (1 : UInt64).toNat < 2 ^ 64)) ∧
      PagesPartition (.ofAscii "id") userRows :=
  exact_page_iff userRows_keys (by decide) (by decide) (by decide)

/-- A page far behind the roots is the first one, and the rows are asked for from the start. -/
theorem page_wraps_around :
    let options : Loader.PageOptions := ⟨4294967297, 4294967296⟩
    exec (executePagedEntities (.ofAscii "id") (pure userRows : Prog Exn Unit _) pure options) () =
        (.ok ⟨userRows.take 2, 2, 4294967297, 4294967296⟩, ()) ∧
      rootsOfPage (.ofAscii "id") userRows options.page.toNat options.pageSize.toNat = [] ∧
      pageSql ([], []) options = sliceSql ([], []) 4294967296 0 ∧
      offsetOf options = 18446744073709551616 := by
  exact ⟨rfl, rfl, rfl, rfl⟩

end MetalOrm.Native.Paging
