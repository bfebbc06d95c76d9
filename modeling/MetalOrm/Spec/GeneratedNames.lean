import MetalOrm.Native.EntityNames

/-!
# Names of generated classes and members

The name of a class is capitalised and has no underscore behind its first letter; a name that was made
distinct by a number has one, unless it is that of a class. So a member is called like its class only
if its column is, and the steps in which a name is made leave it valid, except that the name of a
view may begin with a digit and that of a relation may be a keyword.

## Key results

- `identifier_valid`, `ClassLike.className`: what the single steps guarantee
- `header_names_iff`: when all names of a header are valid and distinct
-/

namespace MetalOrm.Native.Generator

open ForStd

/-! ## Identifiers -/

/-- A C++ identifier that is no keyword. -/
structure ValidIdentifier (name : Text) : Prop where
  word : ∀ c ∈ name, isWordByte c = true
  nonempty : name ≠ []
  head : name.head?.any isDigit = false
  keyword : isCppKeyword name = false

/-- An identifier, which may be a keyword. -/
structure WordLike (name : Text) : Prop where
  word : ∀ c ∈ name, isWordByte c = true
  nonempty : name ≠ []
  head : name.head?.any isDigit = false

theorem ValidIdentifier.wordLike {name : Text} (h : ValidIdentifier name) : WordLike name :=
  ⟨h.word, h.nonempty, h.head⟩

theorem WordLike.valid {name : Text} (h : WordLike name) (hkeyword : isCppKeyword name = false) :
    ValidIdentifier name :=
  ⟨h.word, h.nonempty, h.head, hkeyword⟩

theorem WordLike.append {name more : Text} (h : WordLike name)
    (hmore : ∀ c ∈ more, isWordByte c = true) : WordLike (name ++ more) := by
  obtain ⟨hword, hne, hhead⟩ := h
  refine ⟨fun c hc => (List.mem_append.mp hc).elim (hword c) (hmore c), by simp [hne], ?_⟩
  rw [List.head?_append_of_ne_nil _ hne]
  exact hhead

theorem word_of_all {name : Text} (h : name.all isWordByte = true) :
    ∀ c ∈ name, isWordByte c = true :=
  List.all_eq_true.mp h

theorem isWordByte_of_isDigit {c : UInt8} (h : isDigit c = true) : isWordByte c = true := by
  simp [isWordByte, h]

theorem wordLike_guardDigit {name : Text} (hword : ∀ c ∈ name, isWordByte c = true)
    (hne : name ≠ []) : WordLike (guardDigit name) := by
  unfold guardDigit
  split
  · refine ⟨fun c hc => ?_, by simp, rfl⟩
    obtain rfl | hc := List.mem_cons.mp hc
    · decide
    · exact hword c hc
  · rename_i hdigit
    exact ⟨hword, hne, Bool.not_eq_true _ ▸ hdigit⟩

/-- A small letter. -/
def isLower (c : UInt8) : Bool := 97 ≤ c && c ≤ 122

/-- A keyword begins with a small letter, and ends with one. -/
def KeywordLike (name : Text) : Bool := name.head?.any isLower && name.getLast?.any isLower

theorem keywordLike_of_mem {name : Text} (h : isCppKeyword name = true) :
    KeywordLike name = true ∧ endsWith name (lit "_relation") = false := by
  have hall : ∀ k ∈ cppKeywords, KeywordLike k = true ∧ endsWith k (lit "_relation") = false := by
    decide +kernel
  exact hall name (List.contains_iff_mem.mp h)

/-- A name that ends with no small letter is no keyword. -/
theorem not_keyword_concat (name : Text) {c : UInt8} (hc : isLower c = false) :
    isCppKeyword (name ++ [c]) = false := by
  rw [← Bool.not_eq_true]
  intro h
  have hlike := (keywordLike_of_mem h).1
  simp [KeywordLike, hc] at hlike

/-- An underscore behind a keyword makes it none. -/
theorem identifier_valid (input : Text) {fallback : Text}
    (hword : ∀ c ∈ fallback, isWordByte c = true) (hne : fallback ≠ []) :
    ValidIdentifier (identifier input fallback) := by
  unfold identifier
  have hmap : ∀ c ∈ input.map (fun c => if isWordByte c then c else 95), isWordByte c = true := by
    intro c hc
    obtain ⟨d, -, rfl⟩ := List.mem_map.mp hc
    split
    · assumption
    · decide
  have hguard : WordLike (guardDigit
      (if (input.map fun c => if isWordByte c then c else 95).isEmpty then fallback
        else input.map fun c => if isWordByte c then c else 95)) := by
    split
    · exact wordLike_guardDigit hword hne
    · rename_i hsome
      exact wordLike_guardDigit hmap fun hnil => hsome (List.isEmpty_iff.mpr hnil)
  dsimp only
  generalize guardDigit _ = out at hguard ⊢
  split
  · exact (hguard.append (word_of_all (by decide))).valid (not_keyword_concat _ rfl)
  · rename_i hkeyword
    exact hguard.valid (Bool.not_eq_true _ ▸ hkeyword)

theorem column_valid (name : Text) : ValidIdentifier (identifier name (lit "field")) :=
  identifier_valid name (word_of_all (by decide)) (by decide)

/-! ## Names of classes -/

/-- The name of a class: no small letter in front, and no underscore behind that. -/
structure ClassLike (name : Text) : Prop where
  word : ∀ c ∈ name, isWordByte c = true
  nonempty : name ≠ []
  head : name.head?.any isLower = false
  tail : 95 ∉ name.tail

namespace ClassLike

variable {name more : Text}

theorem append (h : ClassLike name) (hword : ∀ c ∈ more, isWordByte c = true) (hmore : 95 ∉ more) :
    ClassLike (name ++ more) := by
  obtain ⟨c, rest, rfl⟩ := List.exists_cons_of_ne_nil h.nonempty
  refine ⟨fun d hd => (List.mem_append.mp hd).elim (h.word d) (hword d), by simp, h.head, ?_⟩
  rw [List.cons_append, List.tail_cons, List.mem_append]
  exact not_or.mpr ⟨h.tail, hmore⟩

theorem append_decimal (h : ClassLike name) (n : Nat) : ClassLike (name ++ decimal n) := by
  refine h.append (fun c hc => isWordByte_of_isDigit (isDigit_of_mem_decimal hc)) fun hmem => ?_
  exact absurd (isDigit_of_mem_decimal hmem) (by decide)

/-- The name of a class is no keyword, so it is valid if no digit is in front. -/
theorem valid (h : ClassLike name) (hdigit : name.head?.any isDigit = false) :
    ValidIdentifier name := by
  refine ⟨h.word, h.nonempty, hdigit, ?_⟩
  rw [← Bool.not_eq_true]
  intro hkeyword
  have hlike := (keywordLike_of_mem hkeyword).1
  rw [KeywordLike, h.head] at hlike
  cases hlike

end ClassLike

theorem head_append {name : Text} (hne : name ≠ []) (more : Text) :
    (name ++ more).head?.any isDigit = name.head?.any isDigit := by
  rw [List.head?_append_of_ne_nil _ hne]

/-- A capital or a digit: what stands in front of a name that is capitalised. -/
theorem toUpper_spec (c : UInt8) : isWordByte c = true → c ≠ 95 →
    isWordByte (toUpper c) = true ∧ toUpper c ≠ 95 ∧ isLower (toUpper c) = false := by
  have hall : ∀ n : Fin 256, isWordByte (.ofFin n) = true → UInt8.ofFin n ≠ 95 →
      isWordByte (toUpper (.ofFin n)) = true ∧ toUpper (.ofFin n) ≠ 95 ∧
        isLower (toUpper (.ofFin n)) = false := by decide +kernel
  simpa using hall c.toFin

theorem mem_capitalized {name : Text} (hword : ∀ c ∈ name, isWordByte c = true) (capitalize : Bool)
    {c : UInt8} (hc : c ∈ capitalized capitalize name) : isWordByte c = true ∧ c ≠ 95 := by
  induction name generalizing capitalize with
  | nil => cases hc
  | cons d name ih =>
    obtain ⟨hd, hname⟩ := List.forall_mem_cons.mp hword
    rw [capitalized] at hc
    split at hc
    · exact ih hname true hc
    · rename_i hne
      obtain rfl | hc := List.mem_cons.mp hc
      · split
        · exact ⟨(toUpper_spec d hd hne).1, (toUpper_spec d hd hne).2.1⟩
        · exact ⟨hd, hne⟩
      · exact ih hname false hc

theorem head_capitalized {name : Text} (hword : ∀ c ∈ name, isWordByte c = true) :
    (capitalized true name).head?.any isLower = false := by
  induction name with
  | nil => rfl
  | cons d name ih =>
    obtain ⟨hd, hname⟩ := List.forall_mem_cons.mp hword
    rw [capitalized]
    split
    · exact ih hname
    · rename_i hne
      exact (toUpper_spec d hd hne).2.2

theorem classLike_capitalized {name : Text} (hword : ∀ c ∈ name, isWordByte c = true)
    (hne : capitalized true name ≠ []) : ClassLike (capitalized true name) where
  word _ hc := (mem_capitalized hword true hc).1
  nonempty := hne
  head := head_capitalized hword
  tail hmem := (mem_capitalized hword true (List.mem_of_mem_tail hmem)).2 rfl

/-- An underscore in front of a digit leaves no other one. -/
theorem classLike_guardDigit {name : Text} (h : ClassLike name) (hfirst : name.head? ≠ some 95) :
    ClassLike (guardDigit name) := by
  unfold guardDigit
  split
  · refine ⟨fun c hc => ?_, by simp, rfl, fun hmem => ?_⟩
    · obtain rfl | hc := List.mem_cons.mp hc
      · decide
      · exact h.word c hc
    · obtain ⟨c, rest, rfl⟩ := List.exists_cons_of_ne_nil h.nonempty
      obtain rfl | hmem := List.mem_cons.mp hmem
      · exact hfirst rfl
      · exact h.tail hmem
  · exact h

theorem word_of_isWordByte_append {name more : Text} (h : ∀ c ∈ name, isWordByte c = true)
    (hmore : ∀ c ∈ more, isWordByte c = true) : ∀ c ∈ name ++ more, isWordByte c = true :=
  fun c hc => (List.mem_append.mp hc).elim (h c) (hmore c)

/-- The singular of a word is a word. -/
theorem word_singularize {name : Text} (h : ∀ c ∈ name, isWordByte c = true) :
    ∀ c ∈ singularize name, isWordByte c = true := by
  have hirregular : ∀ p ∈ irregular, ∀ c ∈ p.2, isWordByte c = true := by decide +kernel
  unfold singularize
  dsimp only
  split
  · rename_i singular hlookup
    obtain ⟨_, _, hirregularList, -⟩ := List.lookup_eq_some_iff.mp hlookup
    exact hirregular (_, singular) (hirregularList ▸ List.mem_append_right _ List.mem_cons_self)
  · split_ifs
    · exact h
    · exact word_of_isWordByte_append (fun c hc => h c (List.mem_of_mem_take hc))
        (word_of_all (by decide))
    · exact fun c hc => h c (List.dropLast_subset _ hc)
    · exact h

/-- The name of a table's class: it is class-like, and begins with no digit. -/
theorem className_classLike (table : Text) :
    ClassLike (className table) ∧ (className table).head?.any isDigit = false := by
  have hword : ∀ c ∈ singularize (identifier table (lit "Entity")), isWordByte c = true :=
    word_singularize (identifier_valid table (word_of_all (by decide)) (by decide)).word
  unfold className
  dsimp only
  generalize hout : capitalized true (singularize (identifier table (lit "Entity"))) = out
  have hbase : ClassLike (guardDigit (if out.isEmpty then lit "Entity" else out)) ∧
      WordLike (guardDigit (if out.isEmpty then lit "Entity" else out)) := by
    split
    · exact ⟨⟨word_of_all (by decide), by decide, by decide, by decide⟩,
        wordLike_guardDigit (word_of_all (by decide)) (by decide)⟩
    · rename_i hsome
      have hne : out ≠ [] := fun hnil => hsome (List.isEmpty_iff.mpr hnil)
      subst hout
      have hlike := classLike_capitalized hword hne
      refine ⟨classLike_guardDigit hlike fun hfirst => ?_, wordLike_guardDigit hlike.word hne⟩
      exact (mem_capitalized hword true (List.mem_of_mem_head? hfirst)).2 rfl
  generalize guardDigit _ = name at hbase ⊢
  -- no name of this kind is a keyword
  rw [if_neg (by rw [(hbase.1.valid hbase.2.head).keyword]; decide)]
  exact ⟨hbase.1, hbase.2.head⟩

/-- The name of a view's class is class-like, but may begin with a digit. -/
theorem viewTypeName_classLike (name : Text) : ClassLike (viewTypeName name) := by
  have hword : ∀ c ∈ identifier name (lit "View"), isWordByte c = true :=
    (identifier_valid name (word_of_all (by decide)) (by decide)).word
  unfold viewTypeName
  dsimp only
  generalize hout : capitalized true (identifier name (lit "View")) = out
  have hbase : ClassLike (if out.isEmpty then lit "View" else out) := by
    split
    · exact ⟨word_of_all (by decide), by decide, by decide, by decide⟩
    · rename_i hsome
      subst hout
      exact classLike_capitalized hword fun hnil => hsome (List.isEmpty_iff.mpr hnil)
  generalize (if out.isEmpty then lit "View" else out) = base at hbase ⊢
  split
  · exact hbase
  · exact hbase.append (word_of_all (by decide)) (by decide)

/-! ## Names with numbers -/

theorem freeClass_not_mem (used : List Text) (base : Text) : freeClass used base ∉ used :=
  freeName_not_mem fun _ _ h => decimal_injective (List.append_cancel_left h)

theorem freeMember_not_mem (used : List Text) (base : Text) : freeMember used base ∉ used :=
  freeName_not_mem fun _ _ h => decimal_injective (List.append_cancel_left h)

theorem freeClass_eq (used : List Text) (base : Text) :
    freeClass used base = base ∨ ∃ n, freeClass used base = base ++ decimal n :=
  freeName_eq.elim (fun h => .inl h.1) fun ⟨_, n, _, h, _⟩ => .inr ⟨n, h⟩

theorem freeMember_eq (used : List Text) (base : Text) : freeMember used base = base ∧ base ∉ used ∨
    base ∈ used ∧ ∃ n, freeMember used base = base ++ lit "_" ++ decimal n :=
  freeName_eq.imp_right fun ⟨hused, n, _, h, _⟩ => ⟨hused, n, h⟩

theorem freeClass_first (used : List Text) (base : Text) :
    id base ∈ used ∨ freeClass used base = id base :=
  freeName_eq.elim (fun h => .inr h.1) fun h => .inl h.1

theorem freeMember_first (used : List Text) (base : Text) :
    id base ∈ used ∨ freeMember used base = id base :=
  freeName_eq.elim (fun h => .inr h.1) fun h => .inl h.1

/-- A number behind a name leaves it class-like, and its first letter as it is. -/
theorem freeClass_classLike {base : Text} (h : ClassLike base) (used : List Text) :
    ClassLike (freeClass used base) ∧
      (freeClass used base).head?.any isDigit = base.head?.any isDigit := by
  obtain heq | ⟨n, heq⟩ := freeClass_eq used base
  · rw [heq]
    exact ⟨h, rfl⟩
  · rw [heq]
    exact ⟨h.append_decimal n, head_append h.nonempty _⟩

/-- The type name of a view does not end in a digit. -/
theorem viewTypeName_last (name : Text) : (viewTypeName name).getLast?.any isDigit = false := by
  have hending : lit "View" <:+ viewTypeName name := by
    unfold viewTypeName
    dsimp only
    generalize (if (capitalized true (identifier name (lit "View"))).isEmpty then lit "View"
      else capitalized true (identifier name (lit "View"))) = base
    split
    · rename_i hending
      exact List.isSuffixOf_iff_suffix.mp hending
    · exact List.suffix_append _ _
  obtain ⟨front, hfront⟩ := hending
  rw [← hfront, List.getLast?_append]
  rfl

/-- A name that ends in no digit has none of the digits behind it. -/
theorem nil_of_digits {name front more : Text} (hlast : name.getLast?.any isDigit = false)
    (hname : name = front ++ more) (hdigits : ∀ c ∈ more, isDigit c = true) : more = [] := by
  by_contra hne
  subst hname
  rw [List.getLast?_append_of_ne_nil _ hne, List.getLast?_eq_some_getLast hne, Option.any_some,
    hdigits _ (List.getLast_mem hne)] at hlast
  cases hlast

/-- So its number can be told from it. -/
theorem numbered_unique {name other : Text} {k l : Nat} (hname : name.getLast?.any isDigit = false)
    (hother : other.getLast?.any isDigit = false) (h : name ++ decimal k = other ++ decimal l) :
    name = other ∧ k = l := by
  have hsame : name = other := by
    obtain ⟨more, heq, hdigits⟩ | ⟨more, heq, hdigits⟩ := List.append_eq_append_iff.mp h
    · obtain rfl := nil_of_digits hother heq fun c hc =>
        isDigit_of_mem_decimal (hdigits ▸ List.mem_append_left _ hc)
      rw [heq, List.append_nil]
    · obtain rfl := nil_of_digits hname heq fun c hc =>
        isDigit_of_mem_decimal (hdigits ▸ List.mem_append_left _ hc)
      rw [heq, List.append_nil]
  subst hsame
  exact ⟨rfl, decimal_injective (List.append_cancel_left h)⟩

/-- An underscore behind the first letter: the name of no class. -/
theorem not_classLike_append {base more : Text} (hne : base ≠ []) (hmore : 95 ∈ more) :
    ¬ClassLike (base ++ more) := by
  intro h
  obtain ⟨c, rest, rfl⟩ := List.exists_cons_of_ne_nil hne
  exact h.tail (List.mem_append_right _ hmore)

theorem underscore_mem (n : Nat) : (95 : UInt8) ∈ lit "_" ++ decimal n :=
  List.mem_append_left _ (by decide)

/-- A number behind an underscore makes a valid name of any word. -/
theorem WordLike.numbered {base : Text} (h : WordLike base) (n : Nat) :
    ValidIdentifier (base ++ lit "_" ++ decimal n) := by
  have hdigit : ∀ c ∈ decimal n, isDigit c = true := fun c hc => isDigit_of_mem_decimal hc
  refine ((h.append (word_of_all (by decide))).append fun c hc => isWordByte_of_isDigit (hdigit c hc)).valid ?_
  -- the last digit is no letter
  rw [← List.dropLast_append_getLast (decimal_ne_nil n), ← List.append_assoc]
  have hlast := hdigit _ (List.getLast_mem (decimal_ne_nil n))
  refine not_keyword_concat _ ?_
  rw [← Bool.not_eq_true]
  intro hlower
  simp only [isLower, isDigit, Bool.and_eq_true, decide_eq_true_eq, UInt8.le_iff_toNat_le] at hlower hlast
  have h97 : (97 : UInt8).toNat = 97 := rfl
  have h57 : (57 : UInt8).toNat = 57 := rfl
  omega

/-- A member is called like a column, or has an underscore behind its first letter. -/
theorem of_mem_memberNames {columns : List DatabaseColumn} {member : Text}
    (h : member ∈ memberNames columns) : ValidIdentifier member ∧
      (ClassLike member → ∃ column ∈ columns, identifier column.name (lit "field") = member) := by
  obtain ⟨base, hbase, used, rfl⟩ := of_mem_assignFresh h
  obtain ⟨column, hcolumn, rfl⟩ := List.mem_map.mp hbase
  have hvalid := column_valid column.name
  obtain ⟨heq, -⟩ | ⟨-, n, heq⟩ := freeMember_eq used (identifier column.name (lit "field"))
  · rw [heq]
    exact ⟨hvalid, fun _ => ⟨column, hcolumn, rfl⟩⟩
  · rw [heq]
    refine ⟨hvalid.wordLike.numbered n, fun hclass => absurd hclass ?_⟩
    rw [List.append_assoc]
    exact not_classLike_append hvalid.nonempty (underscore_mem n)

theorem mem_memberNames {columns : List DatabaseColumn} {column : DatabaseColumn}
    (h : column ∈ columns) : identifier column.name (lit "field") ∈ memberNames columns := by
  have hbase : identifier column.name (lit "field") ∈
      columns.map fun column => identifier column.name (lit "field") := List.mem_map_of_mem h
  have hcovers : identifier column.name (lit "field") ∈ [] ++ memberNames columns :=
    assignFresh_covers freeMember_first hbase
  exact hcovers

/-! ## Names of relations -/

/-- The name of a relation is a word, which may be a keyword. -/
theorem relationName_wordLike (column target : Text) : WordLike (relationName column target) := by
  have hbase : ∀ input, ValidIdentifier (identifier input (lit "relation")) :=
    fun input => identifier_valid input (word_of_all (by decide)) (by decide)
  unfold relationName
  have hstem : WordLike
      (if (identifier column (lit "relation")).length > 3 &&
          endsWith (identifier column (lit "relation")) (lit "_id") then
        (identifier column (lit "relation")).take ((identifier column (lit "relation")).length - 3)
      else identifier column (lit "relation")) := by
    split
    · -- what is in front of the ending has a letter
      rename_i hending
      simp only [Bool.and_eq_true, decide_eq_true_eq] at hending
      obtain ⟨hword, -, hhead⟩ := (hbase column).wordLike
      refine ⟨fun c hc => hword c (List.mem_of_mem_take hc), fun hnil => ?_, ?_⟩
      · have hlength := congrArg List.length hnil
        rw [List.length_take, List.length_nil] at hlength
        omega
      · rw [List.head?_take, if_neg (by omega)]
        exact hhead
    · exact (hbase column).wordLike
  dsimp only
  generalize (if (identifier column (lit "relation")).length > 3 &&
      endsWith (identifier column (lit "relation")) (lit "_id") then
    (identifier column (lit "relation")).take ((identifier column (lit "relation")).length - 3)
    else identifier column (lit "relation")) = stem at hstem ⊢
  split
  · exact (hbase _).wordLike
  · exact hstem

/-- The property of a relation: its first choice, or a valid name of no class. -/
theorem relationProperty_spec {base : Text} (h : WordLike base) (used : List Text) :
    WordLike (relationProperty used base) ∧
      (relationProperty used base = base ∨
        isCppKeyword (relationProperty used base) = false ∧ ¬ClassLike (relationProperty used base)) := by
  unfold relationProperty
  split
  · -- an ending of its own
    have hending : WordLike (base ++ lit "_relation") := h.append (word_of_all (by decide))
    obtain ⟨heq, -⟩ | ⟨-, n, heq⟩ := freeMember_eq used (base ++ lit "_relation")
    · rw [heq]
      refine ⟨hending, .inr ⟨?_, not_classLike_append h.nonempty (by decide)⟩⟩
      rw [← Bool.not_eq_true]
      intro hkeyword
      have hnone := (keywordLike_of_mem hkeyword).2
      rw [endsWith, List.isSuffixOf_iff_suffix.mpr ⟨base, rfl⟩] at hnone
      cases hnone
    · rw [heq]
      refine ⟨(hending.numbered n).wordLike, .inr ⟨(hending.numbered n).keyword, ?_⟩⟩
      rw [List.append_assoc]
      exact not_classLike_append hending.nonempty (underscore_mem n)
  · rename_i hfree
    obtain ⟨heq, -⟩ | ⟨hused, -⟩ := freeMember_eq used base
    · rw [heq]
      exact ⟨h, .inl rfl⟩
    · exact absurd hused hfree

theorem relationProperty_not_mem (used : List Text) (base : Text) :
    relationProperty used base ∉ used :=
  freeMember_not_mem used _

theorem relationProperty_first (used : List Text) (base : Text) :
    id base ∈ used ∨ relationProperty used base = id base := by
  by_cases hused : base ∈ used
  · exact .inl hused
  · rw [relationProperty, if_neg hused]
    exact freeMember_first used base

variable {schema : DatabaseSchema} {table : DatabaseTable}

theorem relationBases_wordLike {base : Text} (h : base ∈ relationBases schema table) :
    WordLike base := by
  obtain ⟨column, -, hbase⟩ := List.mem_filterMap.mp h
  obtain ⟨target, -, rfl⟩ := Option.map_eq_some_iff.mp hbase
  exact relationName_wordLike _ _

theorem of_mem_relationNames {relation : Text} (h : relation ∈ relationNames schema table) :
    WordLike relation ∧ (relation ∈ relationBases schema table ∨
      isCppKeyword relation = false ∧ ¬ClassLike relation) := by
  obtain ⟨base, hbase, used, rfl⟩ := of_mem_assignFresh h
  obtain ⟨hword, heq | hother⟩ := relationProperty_spec (relationBases_wordLike hbase) used
  · exact ⟨hword, .inl (by rw [heq]; exact hbase)⟩
  · exact ⟨hword, .inr hother⟩

theorem mem_relationNames {base : Text} (h : base ∈ relationBases schema table) :
    base ∈ memberNames table.columns ++ relationNames schema table :=
  assignFresh_covers relationProperty_first h

theorem nodup_members (schema : DatabaseSchema) (table : DatabaseTable) :
    (memberNames table.columns ++ relationNames schema table).Nodup := by
  refine List.nodup_append'.mpr ⟨nodup_assignFresh freeMember_not_mem _ _,
    nodup_assignFresh relationProperty_not_mem _ _, fun name hmember hrelation => ?_⟩
  exact not_mem_of_mem_assignFresh relationProperty_not_mem hrelation hmember

/-! ## Headers -/

/-- The names of a header are valid, and distinct where they have to be. -/
structure HeaderNames (classes : List GeneratedClass) : Prop where
  classes_distinct : (classes.map (·.name)).Nodup
  members_distinct : ∀ c ∈ classes, (c.members ++ c.relations).Nodup
  members_apart : ∀ c ∈ classes, c.name ∉ c.members ++ c.relations
  valid : ∀ c ∈ classes, ∀ name ∈ c.name :: (c.members ++ c.relations), ValidIdentifier name

/-- How many views have a type name. -/
def viewCount (schema : DatabaseSchema) (name : Text) : Nat :=
  schema.views.countP fun view => viewTypeName view.name = name

/-- No step undoes what another one has done: no table has a class named like the type of a view, or
    like that with a number that this view may get; no type of a view begins with a digit; no column
    and no relation is called like its class, and no relation is called like a keyword. -/
structure NamesApart (schema : DatabaseSchema) (emitRelations : Bool) : Prop where
  views : ∀ view ∈ schema.views, viewTypeName view.name ∉ classNames schema.tables
  numbers : ∀ view ∈ schema.views, ∀ k, 2 ≤ k → k ≤ viewCount schema (viewTypeName view.name) →
    viewTypeName view.name ++ decimal k ∉ classNames schema.tables
  digits : ∀ view ∈ schema.views, (viewTypeName view.name).head?.any isDigit = false
  columns : ∀ p ∈ schema.tables.zip (classNames schema.tables), ∀ column ∈ p.1.columns,
    identifier column.name (lit "field") ≠ p.2
  viewColumns : ∀ p ∈ schema.views.zip (viewNames schema.views), ∀ column ∈ p.1.columns,
    identifier column.name (lit "field") ≠ p.2
  relations : emitRelations = true → ∀ p ∈ schema.tables.zip (classNames schema.tables),
    ∀ base ∈ relationBases schema p.1, base ≠ p.2 ∧ isCppKeyword base = false

theorem classNames_classLike {name : Text} (h : name ∈ classNames schema.tables) :
    ClassLike name ∧ ValidIdentifier name := by
  obtain ⟨base, hbase, used, rfl⟩ := of_mem_assignFresh h
  obtain ⟨table, -, rfl⟩ := List.mem_map.mp hbase
  obtain ⟨hlike, hdigit⟩ := className_classLike table.name
  obtain ⟨hclass, hhead⟩ := freeClass_classLike hlike used
  exact ⟨hclass, hclass.valid (hhead.trans hdigit)⟩

theorem viewNames_classLike {name : Text} (h : name ∈ viewNames schema.views) :
    ClassLike name ∧ ∃ view ∈ schema.views,
      name.head?.any isDigit = (viewTypeName view.name).head?.any isDigit := by
  obtain ⟨base, hbase, used, rfl⟩ := of_mem_assignFresh h
  obtain ⟨view, hview, rfl⟩ := List.mem_map.mp hbase
  obtain ⟨hclass, hhead⟩ := freeClass_classLike (viewTypeName_classLike view.name) used
  exact ⟨hclass, view, hview, hhead⟩

/-- The names of the views' classes: the type names, with as many numbers as there are views. -/
theorem mem_viewNames {name : Text} : name ∈ viewNames schema.views ↔
    ∃ view ∈ schema.views, name = viewTypeName view.name ∨
      ∃ k, 2 ≤ k ∧ k ≤ viewCount schema (viewTypeName view.name) ∧
        name = viewTypeName view.name ++ decimal k := by
  have hapart : Apart (fun base suffix => base ++ decimal suffix)
      (schema.views.map fun view => viewTypeName view.name) := by
    have hlast : ∀ base ∈ schema.views.map fun view => viewTypeName view.name,
        base.getLast?.any isDigit = false := by
      intro base hbase
      obtain ⟨view, -, rfl⟩ := List.mem_map.mp hbase
      exact viewTypeName_last view.name
    refine ⟨fun a ha b hb k heq => ?_, fun a ha b hb k l heq =>
      numbered_unique (hlast a ha) (hlast b hb) heq⟩
    exact decimal_ne_nil k (nil_of_digits (hlast b hb) heq.symm fun c hc => isDigit_of_mem_decimal hc)
  have hcount : ∀ base, copies (schema.views.map fun view => viewTypeName view.name) base =
      viewCount schema base := by
    intro base
    rw [copies, List.countP_map]
    rfl
  have hnames := mem_assignFresh_freeName hapart
    (fun base k l h => decimal_injective (List.append_cancel_left h)) name
  simp only [hcount] at hnames
  refine hnames.trans ⟨?_, ?_⟩
  · rintro (hbase | ⟨base, k, hk, hle, rfl⟩)
    · obtain ⟨view, hview, rfl⟩ := List.mem_map.mp hbase
      exact ⟨view, hview, .inl rfl⟩
    · obtain ⟨view, hview, rfl⟩ := List.mem_map.mp (mem_of_copies hk ((hcount base).symm ▸ hle))
      exact ⟨view, hview, .inr ⟨k, hk, hle, rfl⟩⟩
  · rintro ⟨view, hview, rfl | ⟨k, hk, hle, rfl⟩⟩
    · exact .inl (List.mem_map_of_mem hview)
    · exact .inr ⟨viewTypeName view.name, k, hk, hle, rfl⟩

theorem map_name_header (emitRelations : Bool) :
    (generateModelHeader schema emitRelations).map (·.name) =
      classNames schema.tables ++ viewNames schema.views := by
  have htables : (classNames schema.tables).length ≤ schema.tables.length := by simp [classNames]
  have hviews : (viewNames schema.views).length ≤ schema.views.length := by simp [viewNames]
  rw [generateModelHeader, generateEntityHeader, generateViewBody, List.map_append, List.map_map,
    List.map_map]
  exact congrArg₂ (· ++ ·) (List.map_snd_zip htables) (List.map_snd_zip hviews)

theorem forall_header {P : GeneratedClass → Prop} {emitRelations : Bool} :
    (∀ c ∈ generateModelHeader schema emitRelations, P c) ↔
      (∀ p ∈ schema.tables.zip (classNames schema.tables),
        P ⟨p.2, memberNames p.1.columns, if emitRelations then relationNames schema p.1 else []⟩) ∧
      ∀ p ∈ schema.views.zip (viewNames schema.views), P ⟨p.2, memberNames p.1.columns, []⟩ := by
  rw [generateModelHeader, generateEntityHeader, generateViewBody, List.forall_mem_append,
    List.forall_mem_map, List.forall_mem_map]

/-- The relations of a table's class, which may be left out. -/
theorem nodup_emitted (schema : DatabaseSchema) (table : DatabaseTable) (emitRelations : Bool) :
    (memberNames table.columns ++
      if emitRelations then relationNames schema table else []).Nodup := by
  cases emitRelations
  · exact (List.append_nil _).symm ▸ nodup_assignFresh freeMember_not_mem _ _
  · exact nodup_members schema table

/-- A class-like name that no column has is no member. -/
theorem not_mem_memberNames {columns : List DatabaseColumn} {name : Text} (hclass : ClassLike name)
    (h : ∀ column ∈ columns, identifier column.name (lit "field") ≠ name) :
    name ∉ memberNames columns := by
  intro hmem
  obtain ⟨column, hcolumn, heq⟩ := (of_mem_memberNames hmem).2 hclass
  exact h column hcolumn heq

/-- All names of a header are valid and distinct if and only if no step undoes another one. -/
theorem header_names_iff (schema : DatabaseSchema) (emitRelations : Bool) :
    HeaderNames (generateModelHeader schema emitRelations) ↔ NamesApart schema emitRelations := by
  constructor
  · rintro ⟨hdistinct, -, hapart, hvalid⟩
    rw [map_name_header, List.nodup_append'] at hdistinct
    rw [forall_header] at hapart
    have hviews : ∀ name ∈ viewNames schema.views, name ∉ classNames schema.tables :=
      fun name hview htable => hdistinct.2.2 htable hview
    refine ⟨fun view hview => hviews _ (mem_viewNames.mpr ⟨view, hview, .inl rfl⟩),
      fun view hview k hk hle => hviews _ (mem_viewNames.mpr ⟨view, hview, .inr ⟨k, hk, hle, rfl⟩⟩),
      fun view hview => ?_,
      fun p hp column hcolumn heq => ?_, fun p hp column hcolumn heq => ?_,
      fun hemit p hp base hbase => ?_⟩
    · -- the first choice for a view is the name of some class
      have hfirst : viewTypeName view.name ∈ [] ++ viewNames schema.views :=
        assignFresh_covers freeClass_first (List.mem_map_of_mem hview)
      have hname : viewTypeName view.name ∈ (generateModelHeader schema emitRelations).map (·.name) := by
        rw [map_name_header]
        exact List.mem_append_right _ hfirst
      obtain ⟨c, hc, heq⟩ := List.mem_map.mp hname
      rw [← heq]
      exact (hvalid c hc c.name List.mem_cons_self).head
    · refine hapart.1 p hp (List.mem_append_left _ ?_)
      rw [← heq]
      exact mem_memberNames hcolumn
    · refine hapart.2 p hp (List.mem_append_left _ ?_)
      rw [← heq]
      exact mem_memberNames hcolumn
    · -- the first choice for a relation is a member or a relation
      subst hemit
      have hmember := mem_relationNames hbase
      refine ⟨fun heq => hapart.1 p hp ?_, ?_⟩
      · rw [← heq]
        exact hmember
      · exact ((forall_header.mp hvalid).1 p hp base (List.mem_cons_of_mem _ hmember)).keyword
  · intro h
    have hclasses : ∀ p ∈ schema.tables.zip (classNames schema.tables),
        ClassLike p.2 ∧ ValidIdentifier p.2 :=
      fun p hp => classNames_classLike (List.of_mem_zip hp).2
    have hviews : ∀ p ∈ schema.views.zip (viewNames schema.views),
        ClassLike p.2 ∧ ValidIdentifier p.2 := by
      intro p hp
      obtain ⟨hclass, view, hview, hdigit⟩ := viewNames_classLike (List.of_mem_zip hp).2
      exact ⟨hclass, hclass.valid (hdigit.trans (h.digits view hview))⟩
    have hrelations : emitRelations = true → ∀ p ∈ schema.tables.zip (classNames schema.tables),
        ∀ relation ∈ relationNames schema p.1, ValidIdentifier relation ∧ relation ≠ p.2 := by
      intro hemit p hp relation hrelation
      obtain ⟨hword, hbase | ⟨hkeyword, hclass⟩⟩ := of_mem_relationNames hrelation
      · obtain ⟨hne, hkeyword⟩ := h.relations hemit p hp relation hbase
        exact ⟨hword.valid hkeyword, hne⟩
      · refine ⟨hword.valid hkeyword, fun heq => hclass ?_⟩
        rw [heq]
        exact (hclasses p hp).1
    refine ⟨?_, forall_header.mpr ⟨fun p _ => nodup_emitted schema p.1 emitRelations, fun p _ => ?_⟩,
      forall_header.mpr ⟨fun p hp hmem => ?_, fun p hp hmem => ?_⟩,
      forall_header.mpr ⟨fun p hp name hname => ?_, fun p hp name hname => ?_⟩⟩
    · rw [map_name_header]
      refine List.nodup_append'.mpr ⟨nodup_assignFresh freeClass_not_mem _ _,
        nodup_assignFresh freeClass_not_mem _ _, ?_⟩
      intro name htable hview
      obtain ⟨view, hmem, rfl | ⟨k, hk, hle, rfl⟩⟩ := mem_viewNames.mp hview
      · exact h.views view hmem htable
      · exact h.numbers view hmem k hk hle htable
    · rw [List.append_nil]
      exact nodup_assignFresh freeMember_not_mem _ _
    · obtain hmember | hrelation := List.mem_append.mp hmem
      · exact not_mem_memberNames (hclasses p hp).1 (h.columns p hp) hmember
      · split at hrelation
        · rename_i hemit
          exact (hrelations hemit p hp p.2 hrelation).2 rfl
        · cases hrelation
    · rw [List.append_nil] at hmem
      exact not_mem_memberNames (hviews p hp).1 (h.viewColumns p hp) hmem
    · obtain rfl | hmem := List.mem_cons.mp hname
      · exact (hclasses p hp).2
      · obtain hmember | hrelation := List.mem_append.mp hmem
        · exact (of_mem_memberNames hmember).1
        · split at hrelation
          · rename_i hemit
            exact (hrelations hemit p hp name hrelation).1
          · cases hrelation
    · obtain rfl | hmem := List.mem_cons.mp hname
      · exact (hviews p hp).2
      · rw [List.append_nil] at hmem
        exact (of_mem_memberNames hmem).1

/-- A table `ab` with a column `class_id` that references a table `classes`: the relation is named by
    a keyword. -/
def classSchema : DatabaseSchema where
  tables := [
    { name := lit "ab", nodup := by decide,
      columns := [{ name := lit "class_id", references := some (lit "classes") }] },
    { name := lit "classes", nodup := by decide, columns := [{ name := lit "id" }],
      primaryKey := [lit "id"] }]
  views := []
  nodup := by decide

/-- Not all names of a header are valid. -/
theorem keyword_relation : ¬HeaderNames (generateModelHeader classSchema true) := by
  intro h
  have hclass : ∃ c ∈ generateModelHeader classSchema true, lit "class" ∈ c.relations := by
    decide +kernel
  obtain ⟨c, hc, hrelation⟩ := hclass
  have hvalid := h.valid c hc _ (List.mem_cons_of_mem _ (List.mem_append_right _ hrelation))
  exact absurd hvalid.keyword (by decide +kernel)

end MetalOrm.Native.Generator
