import MetalOrm.Native.DefaultAnnotation
import MetalOrm.Spec.DdlTexts

/-!
# Defaults of generated columns keep their meaning

The default of a generated column is read from the text of the database's default, and is printed
again in the `CREATE TABLE` of the generated type. What comes between keeps it unless one of the
readings goes wrong: parentheses are counted without regard to quotes, a text is taken for a literal
by its first and its last character, and an annotation has to fit the member.

## Key results

- `enclosed_strip_iff`: when `strip_outer_parentheses` removes pairs of parentheses
- `keeps_default_iff`: when a generated default is that of the database
-/

namespace MetalOrm.Native.Ddl

open Schema (DatabaseColumn)

/-! ## Blanks -/

theorem head_trimSqlView {value : List Char} {ch : Char} (h : ch ∈ (trimSqlView value).head?) :
    ch ∈ (value.dropWhile isSpace).head? := by
  unfold trimSqlView at h
  obtain ⟨more, hmore⟩ := List.rdropWhile_prefix isSpace (l := value.dropWhile isSpace)
  rw [← hmore, List.head?_append, h]
  rfl

/-- A text that neither begins nor ends with a blank. -/
theorem trimSqlView_of_ends {value : List Char} (hhead : ∀ ch ∈ value.head?, isSpace ch = false)
    (hlast : ∀ ch ∈ value.getLast?, isSpace ch = false) : trimSqlView value = value := by
  have hdrop : value.dropWhile isSpace = value := by
    cases value with
    | nil => rfl
    | cons ch rest => rw [List.dropWhile_cons_of_neg]; simp [hhead ch rfl]
  unfold trimSqlView
  rw [hdrop, List.rdropWhile_eq_self_iff]
  intro hne
  have := hlast _ (List.getLast?_eq_some_getLast hne)
  simp [this]

theorem trimSqlView_trimSqlView (value : List Char) :
    trimSqlView (trimSqlView value) = trimSqlView value := by
  refine trimSqlView_of_ends (fun ch hch => ?_) fun ch hch => ?_
  · have hnot := List.head?_dropWhile_not isSpace value
    rw [head_trimSqlView hch] at hnot
    exact hnot
  · obtain ⟨hne, rfl⟩ := List.mem_getLast?_eq_getLast hch
    exact Bool.not_eq_true _ ▸ List.rdropWhile_last_not isSpace _ hne

theorem trimSqlView_delimited {first last : Char} (hfirst : isSpace first = false)
    (hlast : isSpace last = false) (inside : List Char) :
    trimSqlView (first :: (inside ++ [last])) = first :: (inside ++ [last]) := by
  refine trimSqlView_of_ends (fun ch hch => ?_) fun ch hch => ?_
  · obtain rfl := Option.some.inj hch
    exact hfirst
  · rw [← List.cons_append, List.getLast?_concat] at hch
    obtain rfl := Option.some.inj hch
    exact hlast

theorem length_trimSqlView_le (value : List Char) : (trimSqlView value).length ≤ value.length :=
  (List.rdropWhile_prefix isSpace _).length_le.trans (List.dropWhile_suffix isSpace).length_le

/-! ## Enclosing parentheses -/

/-- A pair of parentheses around a text, as the parser of `CREATE TABLE` finds it. -/
def Wrapped (inside : List Char) : Prop :=
  (findSqlMatchingParen (.start ('(' :: (inside ++ [')'])))).map (·.pos) = some (inside.length + 1)

/-- A default is another text with parentheses and blanks around it. -/
inductive Enclosed (value : List Char) : List Char → Prop where
  | bare : Enclosed value value
  | blanks {default : List Char} (h : Enclosed value (trimSqlView default)) :
    Enclosed value default
  | parens {inside : List Char} (hwrapped : Wrapped inside) (h : Enclosed value inside) :
    Enclosed value ('(' :: (inside ++ [')']))

/-- The pairs of parentheses that `strip_outer_parentheses` removes are ones: the condition in one
    round of its loop. -/
def pairsLoop : Nat → List Char → Prop
  | 0, _ => True
  | fuel + 1, value =>
    parenthesized (trimSqlView value) = true →
      Wrapped (inner (trimSqlView value)) ∧ pairsLoop fuel (inner (trimSqlView value))

/-- The pairs of parentheses that `strip_outer_parentheses` removes are ones. -/
def PairsMatch (value : List Char) : Prop := pairsLoop (value.length + 1) value

theorem delimited_of_ends {first last : Char} {value : List Char} (hlength : 2 ≤ value.length)
    (hfirst : value.head? = some first) (hlast : value.getLast? = some last) :
    value = first :: (inner value ++ [last]) := by
  cases value with
  | nil => cases hfirst
  | cons ch rest =>
    obtain rfl := Option.some.inj hfirst
    have hne : rest ≠ [] := by
      rintro rfl
      simp at hlength
    rw [List.getLast?_cons_of_ne_nil hne, List.getLast?_eq_some_getLast hne] at hlast
    obtain rfl := Option.some.inj hlast
    rw [inner, List.tail_cons, List.dropLast_append_getLast hne]

theorem inner_delimited (first last : Char) (inside : List Char) :
    inner (first :: (inside ++ [last])) = inside := by
  rw [inner, List.tail_cons, List.dropLast_concat]

theorem parenthesized_iff {value : List Char} : parenthesized value = true ↔
    value = '(' :: (inner value ++ [')']) ∧ balancedLoop 0 value = true := by
  unfold parenthesized
  simp only [Bool.and_eq_true, Bool.not_eq_true', Bool.or_eq_false_iff, decide_eq_false_iff_not,
    not_not, not_lt]
  refine and_congr_left fun _ => ⟨fun ⟨⟨hlength, hfirst⟩, hlast⟩ =>
    delimited_of_ends hlength hfirst hlast, fun h => ?_⟩
  rw [h]
  exact ⟨⟨by simp, rfl⟩, by rw [← List.cons_append, List.getLast?_concat]⟩

theorem length_inner_lt {value : List Char} (h : parenthesized (trimSqlView value) = true) :
    (inner (trimSqlView value)).length < value.length := by
  have hlength := congrArg List.length (parenthesized_iff.mp h).1
  have hle := length_trimSqlView_le value
  rw [List.length_cons, List.length_append, List.length_singleton] at hlength
  omega

theorem stripLoop_fuel {fuel fuel' : Nat} {value : List Char} (h : value.length < fuel)
    (h' : value.length < fuel') : stripLoop fuel value = stripLoop fuel' value := by
  induction fuel generalizing fuel' value with
  | zero => omega
  | succ fuel ih =>
    obtain ⟨fuel', rfl⟩ := Nat.exists_eq_succ_of_ne_zero (Nat.ne_zero_of_lt h')
    rw [stripLoop, stripLoop]
    split
    · rename_i hparens
      have hlt := length_inner_lt hparens
      exact ih (by omega) (by omega)
    · rfl

theorem pairsLoop_fuel {fuel fuel' : Nat} {value : List Char} (h : value.length < fuel)
    (h' : value.length < fuel') : pairsLoop fuel value ↔ pairsLoop fuel' value := by
  induction fuel generalizing fuel' value with
  | zero => omega
  | succ fuel ih =>
    obtain ⟨fuel', rfl⟩ := Nat.exists_eq_succ_of_ne_zero (Nat.ne_zero_of_lt h')
    rw [pairsLoop, pairsLoop]
    refine forall_congr' fun hparens => and_congr_right fun _ => ?_
    have hlt := length_inner_lt hparens
    exact ih (by omega) (by omega)

/-- A round of `strip_outer_parentheses`. -/
theorem stripOuterParentheses_eq (value : List Char) : stripOuterParentheses value =
    if parenthesized (trimSqlView value) then stripOuterParentheses (inner (trimSqlView value))
    else trimSqlView value := by
  rw [stripOuterParentheses, stripLoop]
  split
  · rename_i hparens
    exact stripLoop_fuel (length_inner_lt hparens) (Nat.lt_succ_self _)
  · rfl

theorem pairsMatch_iff {value : List Char} : PairsMatch value ↔
    (parenthesized (trimSqlView value) = true →
      Wrapped (inner (trimSqlView value)) ∧ PairsMatch (inner (trimSqlView value))) := by
  rw [PairsMatch, pairsLoop]
  refine forall_congr' fun hparens => and_congr_right fun _ => ?_
  exact pairsLoop_fuel (length_inner_lt hparens) (Nat.lt_succ_self _)

theorem stripOuterParentheses_trim (value : List Char) :
    stripOuterParentheses (trimSqlView value) = stripOuterParentheses value := by
  rw [stripOuterParentheses_eq, trimSqlView_trimSqlView, ← stripOuterParentheses_eq]

theorem pairsMatch_trim {value : List Char} : PairsMatch (trimSqlView value) ↔ PairsMatch value := by
  rw [pairsMatch_iff, trimSqlView_trimSqlView, ← pairsMatch_iff]

theorem trimSqlView_parens (inside : List Char) :
    trimSqlView ('(' :: (inside ++ [')'])) = '(' :: (inside ++ [')']) :=
  trimSqlView_delimited (by decide) (by decide) inside

/-- The text in a pair of parentheses that is removed. -/
theorem strip_parens {inside : List Char} (h : parenthesized ('(' :: (inside ++ [')'])) = true) :
    stripOuterParentheses ('(' :: (inside ++ [')'])) = stripOuterParentheses inside ∧
      (PairsMatch ('(' :: (inside ++ [')'])) ↔ Wrapped inside ∧ PairsMatch inside) := by
  rw [stripOuterParentheses_eq, pairsMatch_iff, trimSqlView_parens, if_pos h, inner_delimited]
  exact ⟨rfl, forall_prop_of_true h⟩

/-- A pair of parentheses that is not removed. -/
theorem strip_kept {inside : List Char}
    (h : ¬parenthesized ('(' :: (inside ++ [')'])) = true) :
    stripOuterParentheses ('(' :: (inside ++ [')'])) = '(' :: (inside ++ [')']) ∧
      PairsMatch ('(' :: (inside ++ [')'])) := by
  rw [stripOuterParentheses_eq, pairsMatch_iff, trimSqlView_parens, if_neg h]
  exact ⟨rfl, fun hparens => absurd hparens h⟩

/-- What is left when pairs are removed that are ones. -/
theorem enclosed_of_pairsMatch {default : List Char} (h : PairsMatch default) :
    Enclosed (stripOuterParentheses default) default := by
  induction hlength : default.length using Nat.strong_induction_on generalizing default with
  | _ n ih =>
    rw [pairsMatch_iff] at h
    rw [stripOuterParentheses_eq]
    refine .blanks ?_
    split
    · rename_i hparens
      obtain ⟨hwrapped, hinner⟩ := h hparens
      have hlt := length_inner_lt hparens
      have henclosed := Enclosed.parens hwrapped (ih _ (hlength ▸ hlt) hinner rfl)
      rwa [← (parenthesized_iff.mp hparens).1] at henclosed
    · exact .bare

theorem length_strip_le (value : List Char) :
    (stripOuterParentheses value).length ≤ value.length := by
  induction hlength : value.length using Nat.strong_induction_on generalizing value with
  | _ n ih =>
    rw [stripOuterParentheses_eq]
    split
    · rename_i hparens
      have hlt := length_inner_lt hparens
      exact (ih _ (hlength ▸ hlt) _ rfl).trans (hlength ▸ hlt.le)
    · exact hlength ▸ length_trimSqlView_le value

/-- The pairs are ones if and only if what is left is the default without them. -/
theorem enclosed_strip_iff (default : List Char) :
    Enclosed (stripOuterParentheses default) default ↔ PairsMatch default := by
  refine ⟨fun h => ?_, enclosed_of_pairsMatch⟩
  generalize hvalue : stripOuterParentheses default = value at h
  induction h with
  | bare =>
    rw [pairsMatch_iff]
    intro hparens
    -- the text would be shorter
    have hlt := length_inner_lt hparens
    have hle := length_strip_le (inner (trimSqlView value))
    rw [stripOuterParentheses_eq, if_pos hparens] at hvalue
    rw [hvalue] at hle
    omega
  | blanks _ ih =>
    exact pairsMatch_trim.mp (ih ((stripOuterParentheses_trim _).trans hvalue))
  | @parens inside hwrapped _ ih =>
    by_cases hparens : parenthesized ('(' :: (inside ++ [')'])) = true
    · obtain ⟨hstrip, hpairs⟩ := strip_parens hparens
      exact hpairs.mpr ⟨hwrapped, ih (hstrip.symm.trans hvalue)⟩
    · exact (strip_kept hparens).2

/-- A text that does not begin with a parenthesis is what is left, or something in parentheses is. -/
theorem Enclosed.strip {value default : List Char} (h : Enclosed value default)
    (hparen : (trimSqlView value).head? ≠ some '(') :
    stripOuterParentheses default = trimSqlView value ∧ PairsMatch default ∨
      (stripOuterParentheses default).head? = some '(' := by
  induction h with
  | bare =>
    have hnone : ¬parenthesized (trimSqlView value) = true := by
      intro hparens
      rw [(parenthesized_iff.mp hparens).1] at hparen
      exact hparen rfl
    rw [stripOuterParentheses_eq, pairsMatch_iff, if_neg hnone]
    exact .inl ⟨rfl, fun hparens => absurd hparens hnone⟩
  | blanks _ ih =>
    rw [← stripOuterParentheses_trim, ← pairsMatch_trim]
    exact ih
  | @parens inside hwrapped _ ih =>
    by_cases hparens : parenthesized ('(' :: (inside ++ [')'])) = true
    · obtain ⟨hstrip, hpairs⟩ := strip_parens hparens
      rw [hstrip, hpairs]
      exact ih.imp_left fun ⟨hvalue, hmatch⟩ => ⟨hvalue, hwrapped, hmatch⟩
    · rw [(strip_kept hparens).1]
      exact .inr rfl

/-- What is left does not begin with a parenthesis: then it is the default without the pairs around
    it. -/
theorem Enclosed.strip_eq {value default : List Char} (h : Enclosed value default)
    (hvalue : (trimSqlView value).head? ≠ some '(')
    (hstrip : (stripOuterParentheses default).head? ≠ some '(') :
    stripOuterParentheses default = trimSqlView value ∧ PairsMatch default :=
  (h.strip hvalue).resolve_right hstrip

/-! ## Other characters -/

/-- A character that is no blank is kept. -/
theorem mem_trimSqlView {value : List Char} {ch : Char} (h : ch ∈ value)
    (hblank : isSpace ch = false) : ch ∈ trimSqlView value := by
  have hdrop : ∀ value : List Char, ch ∈ value → ch ∈ value.dropWhile isSpace := by
    intro value hmem
    rw [← List.takeWhile_append_dropWhile (p := isSpace) (l := value), List.mem_append] at hmem
    refine hmem.resolve_left fun htake => ?_
    have hspace := List.mem_takeWhile_imp htake
    rw [hblank] at hspace
    cases hspace
  unfold trimSqlView List.rdropWhile
  exact List.mem_reverse.mpr (hdrop _ (List.mem_reverse.mpr (hdrop _ h)))

/-- A character that is no blank and no parenthesis stands in the text itself. -/
theorem Enclosed.mem {value default : List Char} (h : Enclosed value default) {ch : Char}
    (hmem : ch ∈ default) (hblank : isSpace ch = false) (hopen : ch ≠ '(') (hclose : ch ≠ ')') :
    ch ∈ value := by
  induction h with
  | bare => exact hmem
  | blanks _ ih =>
    exact ih (mem_trimSqlView hmem hblank)
  | parens _ _ ih =>
    simp only [List.mem_cons, List.mem_append, List.not_mem_nil, or_false, hopen, hclose,
      false_or] at hmem
    exact ih hmem

theorem mem_of_mem_strip {value : List Char} {ch : Char} (h : ch ∈ stripOuterParentheses value) :
    ch ∈ value := by
  induction hlength : value.length using Nat.strong_induction_on generalizing value with
  | _ n ih =>
    have htrim : ∀ {ch}, ch ∈ trimSqlView value → ch ∈ value := fun hmem =>
      (List.dropWhile_suffix isSpace).subset ((List.rdropWhile_prefix isSpace _).subset hmem)
    rw [stripOuterParentheses_eq] at h
    split at h
    · rename_i hparens
      have hmem := ih _ (hlength ▸ length_inner_lt hparens) h rfl
      exact htrim (List.mem_of_mem_tail (List.mem_of_mem_dropLast hmem))
    · exact htrim h

/-! ## String literals -/

/-- The compiler reads what was escaped. -/
theorem readCppString_cppString (value : List Char) :
    readCppString (cppString value) = some value := by
  induction value with
  | nil => rfl
  | cons ch value ih =>
    have hcons : cppString (ch :: value) = cppString [ch] ++ cppString value := by simp [cppString]
    rw [hcons]
    by_cases hback : ch = '\\'
    · subst hback
      show (readCppString (cppString value)).map _ = _
      rw [ih]
      rfl
    · by_cases hquote : ch = '"'
      · subst hquote
        show (readCppString (cppString value)).map _ = _
        rw [ih]
        rfl
      · by_cases hline : ch = '\n'
        · subst hline
          show (readCppString (cppString value)).map _ = _
          rw [ih]
          rfl
        · by_cases hreturn : ch = '\x0d'
          · subst hreturn
            show (readCppString (cppString value)).map _ = _
            rw [ih]
            rfl
          · by_cases htab : ch = '\t'
            · subst htab
              show (readCppString (cppString value)).map _ = _
              rw [ih]
              rfl
            · have hsingle : cppString [ch] = [ch] := by
                simp [cppString, hback, hquote, hline, hreturn, htab]
              rw [hsingle, List.singleton_append, readCppString.eq_def]
              split
              · rename_i heq
                cases heq
              · rename_i heq
                exact absurd (List.cons.inj heq).1 hback
              · rename_i heq
                obtain ⟨rfl, rfl⟩ := List.cons.inj heq
                rw [if_neg (by simp [hquote, hline]), ih]
                rfl

/-- What fits into an annotation: `fixed_text<256>` with the zero at its end. -/
def Fits (value : List Char) : Prop :=
  (String.ofList value).utf8ByteSize + 1 ≤ 256 ∧ '\x00' ∉ value

theorem fixedText_cppString (value : List Char) : fixedText (cppString value) =
    if (String.ofList value).utf8ByteSize + 1 ≤ 256 then some (value.takeWhile (· ≠ '\x00'))
    else none := by
  unfold fixedText
  rw [readCppString_cppString]
  show (guard ((String.ofList value).utf8ByteSize + 1 ≤ 256) : Option Unit).bind
    (fun _ => some (value.takeWhile (· ≠ '\x00'))) = _
  split
  · rename_i hsize
    rw [guard, if_pos hsize]
    rfl
  · rename_i hsize
    rw [guard, if_neg hsize]
    rfl

theorem takeWhile_of_fits {value : List Char} (h : '\x00' ∉ value) :
    value.takeWhile (· ≠ '\x00') = value := by
  rw [List.takeWhile_eq_self_iff]
  intro ch hch
  simp only [decide_eq_true_eq]
  rintro rfl
  exact h hch

/-- The text in quotes, where each quote is doubled. -/
theorem unquoteLoop_doubled (text : List Char) : unquoteLoop (doubled '\'' text) = text := by
  induction text with
  | nil => rfl
  | cons ch text ih =>
    have hcons : doubled '\'' (ch :: text) =
        (if ch = '\'' then ['\'', '\''] else [ch]) ++ doubled '\'' text := rfl
    rw [hcons]
    by_cases hch : ch = '\''
    · subst hch
      rw [if_pos rfl]
      show '\'' :: unquoteLoop (doubled '\'' text) = _
      rw [ih]
    · rw [if_neg hch]
      cases hrest : doubled '\'' text with
      | nil =>
        rw [hrest] at ih
        rw [← ih]
        rfl
      | cons next rest =>
        rw [hrest] at ih
        show unquoteLoop (ch :: next :: rest) = _
        rw [unquoteLoop, if_neg (by simp [hch]), ih]

theorem quotedText_iff {value : List Char} :
    quotedText value = true ↔ value = '\'' :: (inner value ++ ['\'']) := by
  unfold quotedText
  simp only [Bool.not_eq_true', Bool.or_eq_false_iff, decide_eq_false_iff_not, not_not, not_lt]
  refine ⟨fun ⟨⟨hlength, hfirst⟩, hlast⟩ => delimited_of_ends hlength hfirst hlast, fun h => ?_⟩
  rw [h]
  exact ⟨⟨by simp, rfl⟩, by rw [← List.cons_append, List.getLast?_concat]⟩

/-! ## Numbers -/

/-- The digits of a number are read. -/
theorem digits_read (n : Nat) : ((Nat.toDigits 10 n).isEmpty || !(Nat.toDigits 10 n).all Char.isDigit) =
    false ∧ Nat.ofDigitChars 10 (Nat.toDigits 10 n) 0 = n := by
  have hdigit : (Nat.toDigits 10 n).all Char.isDigit = true :=
    List.all_eq_true.mpr fun ch hch => Nat.isDigit_of_mem_toDigits (by decide) (by decide) hch
  have hpos := @Nat.length_toDigits_pos 10 n
  have hne : (Nat.toDigits 10 n).isEmpty = false := by
    rw [List.isEmpty_eq_false_iff]
    exact List.length_pos_iff.mp hpos
  rw [hdigit, hne]
  exact ⟨rfl, Nat.ofDigitChars_ten_toDigits⟩

theorem integerLiteral_toString (n : Int) : integerLiteral (toString n).toList = some n := by
  cases n with
  | ofNat n =>
    obtain ⟨hdigits, hvalue⟩ := digits_read n
    have htext : (toString (Int.ofNat n)).toList = Nat.toDigits 10 n := Nat.toList_repr
    rw [htext]
    unfold integerLiteral
    split
    · rename_i digits heq
      have hsign : ('-' :: digits).all Char.isDigit = false := rfl
      rw [heq, hsign] at hdigits
      cases hdigits
    · rw [hdigits, if_neg Bool.false_ne_true, hvalue]
      rfl
  | negSucc n =>
    obtain ⟨hdigits, hvalue⟩ := digits_read (n + 1)
    have htext : (toString (Int.negSucc n)).toList = '-' :: Nat.toDigits 10 (n + 1) := by
      have hrepr : toString (Int.negSucc n) = "-" ++ Nat.repr (n + 1) := rfl
      rw [hrepr, String.toList_append, Nat.toList_repr]
      rfl
    rw [htext]
    show (if (Nat.toDigits 10 (n + 1)).isEmpty || _ then none else _) = _
    rw [hdigits, if_neg Bool.false_ne_true, hvalue]
    rfl

/-! ## What a default denotes -/

/-- `0`, `1`, `TRUE` or `FALSE`. -/
def booleanLiteral (value : List Char) : Option Bool :=
  if value = "1".toList ∨ uppercase value = "TRUE".toList then some true
  else if value = "0".toList ∨ uppercase value = "FALSE".toList then some false
  else none

def IsNull (value : List Char) : Prop := uppercase value = "NULL".toList

/-- A text is a literal with the value of a declared default, or the expression itself. -/
def Denotes (doubles : Doubles) (value : List Char) : ColumnDefault → Prop
  | .text text => value = '\'' :: (doubled '\'' text.toList ++ ['\''])
  | .sql expression => value = expression.toList ∨ IsNull value ∧ IsNull expression.toList
  | .null => IsNull value
  | .boolean b => booleanLiteral value = some b
  | .integer n => integerLiteral value = some n
  | .real text => ∃ x, doubles.strtod value = some x ∧ doubles.strtod text.toList = some x

/-- The member has a default that the database's denotes, less parentheses and blanks around it, and
    what is printed for it denotes it too. -/
def Keeps (doubles : Doubles) (optional : Bool) (kind : ScalarKind) (default : List Char)
    (generated : MappingDefault) : Prop :=
  ∃ declared, generated.declared doubles kind optional = some declared ∧
    (∃ value, Enclosed value default ∧ Denotes doubles value declared) ∧
    Denotes doubles (columnDefaultSql declared).toList declared

/-- A generated column keeps its default. -/
def KeepsDefault (doubles : Doubles) (column : DatabaseColumn) (kind : ScalarKind) : Prop :=
  ∀ default annotation, column.defaultValue = some default →
    defaultAnnotation doubles column kind = some annotation →
      Keeps doubles (!column.notNull) kind default.toList annotation

/-- A text that is given as an expression: no `NULL`, no literal of the kind, and no text in quotes. -/
structure IsRaw (doubles : Doubles) (kind : ScalarKind) (value : List Char) : Prop where
  null : ¬IsNull value
  boolean : kind = .boolean → booleanLiteral value = none
  integer : kind = .integer → fromChars value = none
  real : kind = .real → doubles.strtod value = none
  text : kind ≠ .blob → quotedText value = false

/-- Nothing goes wrong: the pairs of parentheses that are removed are ones, what stands in quotes is
    one literal of a text column, an integer has a literal, a real number is printed as one, and the
    text fits. -/
structure Kept (doubles : Doubles) (kind : ScalarKind) (default : List Char) : Prop where
  pairs : PairsMatch default
  quoted : kind ≠ .blob → ∀ content, stripOuterParentheses default = '\'' :: (content ++ ['\'']) →
    kind = .text ∧ ∃ text, content = doubled '\'' text ∧ Fits text
  integer : kind = .integer → fromChars (stripOuterParentheses default) ≠ some (-2 ^ 63)
  real : kind = .real → ∀ x, doubles.strtod (stripOuterParentheses default) = some x →
    integerLiteral (doubles.digits17 x) = none
  raw : IsRaw doubles kind (stripOuterParentheses default) →
    stripOuterParentheses default ≠ [] ∧ Fits (stripOuterParentheses default)

/-! ## Texts that are literals -/

theorem trimSqlView_strip (value : List Char) :
    trimSqlView (stripOuterParentheses value) = stripOuterParentheses value := by
  induction hlength : value.length using Nat.strong_induction_on generalizing value with
  | _ n ih =>
    rw [stripOuterParentheses_eq]
    split
    · rename_i hparens
      exact ih _ (hlength ▸ length_inner_lt hparens) _ rfl
    · exact trimSqlView_trimSqlView value

theorem head_trim_ne {value : List Char} (h : '(' ∉ value) :
    (trimSqlView value).head? ≠ some '(' := by
  intro hhead
  have hmem := List.mem_of_mem_head? (head_trimSqlView hhead)
  exact h ((List.dropWhile_suffix isSpace).subset hmem)

/-- A character that is not changed stands in a text if it does in capital letters. -/
theorem not_mem_of_uppercase {value word : List Char} (h : uppercase value = word) {ch : Char}
    (hch : ch.toUpper ∉ word) : ch ∉ value := by
  intro hmem
  exact hch (h ▸ List.mem_map_of_mem hmem)

theorem IsNull.not_mem {value : List Char} (h : IsNull value) :
    '(' ∉ value ∧ '\'' ∉ value ∧ '\x00' ∉ value :=
  ⟨not_mem_of_uppercase h (by decide), not_mem_of_uppercase h (by decide),
    not_mem_of_uppercase h (by decide)⟩

theorem not_mem_of_booleanLiteral {value : List Char} {b : Bool}
    (h : booleanLiteral value = some b) : '(' ∉ value ∧ '\'' ∉ value := by
  unfold booleanLiteral at h
  split at h
  · rename_i hfalse
    obtain rfl | hupper := hfalse
    · decide
    · exact ⟨not_mem_of_uppercase hupper (by decide), not_mem_of_uppercase hupper (by decide)⟩
  · split at h
    · rename_i htrue
      obtain rfl | hupper := htrue
      · decide
      · exact ⟨not_mem_of_uppercase hupper (by decide), not_mem_of_uppercase hupper (by decide)⟩
    · cases h

/-- An integer is made of digits and a sign. -/
theorem not_mem_of_integerLiteral {value : List Char} {n : Int} (h : integerLiteral value = some n)
    {ch : Char} (hdigit : ch.isDigit = false) (hsign : ch ≠ '-') : ch ∉ value := by
  have hall : ∀ digits : List Char, ¬(digits.isEmpty || !digits.all Char.isDigit) = true →
      ch ∉ digits := by
    intro digits hdigits hmem
    have hdigits' : digits.all Char.isDigit = true := by
      cases hall : digits.all Char.isDigit with
      | true => rfl
      | false => exact absurd (by rw [hall]; simp) hdigits
    have := List.all_eq_true.mp hdigits' ch hmem
    rw [hdigit] at this
    cases this
  unfold integerLiteral at h
  split at h
  · split at h
    · cases h
    · rename_i hdigits
      rw [List.mem_cons, not_or]
      exact ⟨hsign, hall _ hdigits⟩
  · split at h
    · cases h
    · rename_i hdigits
      exact hall _ hdigits

section

variable {doubles : Doubles} {default : List Char}

/-- A number does not begin with such a character. -/
theorem head_trim_of_strtod {value : List Char} {x : doubles.Number}
    (h : doubles.strtod value = some x) {ch : Char} (hdigit : ch.isDigit = false)
    (hother : ch ∉ ['+', '-', '.']) : (trimSqlView value).head? ≠ some ch := by
  intro hhead
  obtain h | h := doubles.head_of_strtod value x h ch (head_trimSqlView hhead)
  · rw [hdigit] at h
    cases h
  · exact hother h

/-- The default is a literal of a kind if that is what is left of it, and the pairs are ones. -/
theorem exists_enclosed_iff {p : List Char → Prop}
    (hp : ∀ value, p value → (trimSqlView value).head? ≠ some '(')
    (h : p (stripOuterParentheses default)) :
    (∃ value, Enclosed value default ∧ p value) ↔ PairsMatch default := by
  refine ⟨?_, fun hpairs => ⟨_, enclosed_of_pairsMatch hpairs, h⟩⟩
  rintro ⟨value, henclosed, hvalue⟩
  have hhead := hp _ h
  rw [trimSqlView_strip] at hhead
  exact (henclosed.strip_eq (hp value hvalue) hhead).2

/-- For a literal only the pairs of parentheses count. -/
theorem kept_iff_pairs {kind : ScalarKind} (hquote : '\'' ∉ stripOuterParentheses default)
    (hinteger : kind = .integer → fromChars (stripOuterParentheses default) = none)
    (hreal : kind = .real → doubles.strtod (stripOuterParentheses default) = none)
    (hraw : ¬IsRaw doubles kind (stripOuterParentheses default)) :
    Kept doubles kind default ↔ PairsMatch default := by
  refine ⟨Kept.pairs, fun hpairs => ⟨hpairs, fun _ content heq => ?_, fun hkind => ?_,
    fun hkind x hx => ?_, fun h => absurd h hraw⟩⟩
  · rw [heq] at hquote
    exact absurd List.mem_cons_self hquote
  · rw [hinteger hkind]
    exact Option.some_ne_none _ ∘ Eq.symm
  · rw [hreal hkind] at hx
    cases hx

end

/-! ## The branches -/

section

variable {doubles : Doubles} {notNull : Bool} {kind : ScalarKind} {value : List Char}

theorem annotationOf_null (h : IsNull value) : annotationOf doubles notNull kind value =
    if !notNull then .null else .sql "NULL".toList := by
  unfold annotationOf
  exact if_pos h

theorem annotationOf_boolean (hkind : kind = .boolean) (hnull : ¬IsNull value) {b : Bool}
    (h : booleanLiteral value = some b) : annotationOf doubles notNull kind value =
      .value (if b then "true".toList else "false".toList) := by
  unfold annotationOf
  refine (if_neg hnull).trans ?_
  unfold booleanLiteral at h
  by_cases htrue : value = "1".toList ∨ uppercase value = "TRUE".toList
  · rw [if_pos htrue] at h
    obtain rfl := Option.some.inj h
    rw [if_pos (by simp only [Bool.and_eq_true, Bool.or_eq_true, decide_eq_true_eq]; tauto),
      if_pos (by simpa using htrue)]
    rfl
  · rw [if_neg htrue] at h
    by_cases hfalse : value = "0".toList ∨ uppercase value = "FALSE".toList
    · rw [if_pos hfalse] at h
      obtain rfl := Option.some.inj h
      rw [if_pos (by simp only [Bool.and_eq_true, Bool.or_eq_true, decide_eq_true_eq]; tauto),
        if_neg (by simpa using htrue)]
      rfl
    · rw [if_neg hfalse] at h
      cases h

/-- What is no `NULL` and no boolean literal. -/
theorem annotationOf_other (hnull : ¬IsNull value)
    (hboolean : kind = .boolean → booleanLiteral value = none) :
    annotationOf doubles notNull kind value =
      match if kind = .integer then fromChars value else none with
      | some n => .value (toString n).toList
      | none =>
        match if kind = .real then doubles.strtod value else none with
        | some x => .value (doubles.digits17 x)
        | none =>
          match if kind ≠ .blob then unquoteSqlText value else none with
          | some t => .text (cppString t)
          | none => .sql (cppString value) := by
  unfold annotationOf
  refine (if_neg hnull).trans (if_neg fun h => ?_)
  simp only [Bool.and_eq_true, Bool.or_eq_true, decide_eq_true_eq] at h
  have hnone := hboolean h.1
  unfold booleanLiteral at hnone
  by_cases htrue : value = "1".toList ∨ uppercase value = "TRUE".toList
  · rw [if_pos htrue] at hnone
    cases hnone
  · rw [if_neg htrue, if_pos (by tauto)] at hnone
    cases hnone

theorem annotationOf_integer (hkind : kind = .integer) (hnull : ¬IsNull value) {n : Int}
    (h : fromChars value = some n) :
    annotationOf doubles notNull kind value = .value (toString n).toList := by
  rw [annotationOf_other hnull (by rw [hkind]; nofun), if_pos hkind, h]

theorem annotationOf_real (hkind : kind = .real) (hnull : ¬IsNull value) {x : doubles.Number}
    (h : doubles.strtod value = some x) :
    annotationOf doubles notNull kind value = .value (doubles.digits17 x) := by
  rw [annotationOf_other hnull (by rw [hkind]; nofun), hkind, if_neg (by decide), if_pos rfl, h]

/-- The readers that find nothing are passed over. -/
theorem ite_eq_none {α : Type} {c : Prop} [Decidable c] {o : Option α} (h : c → o = none) :
    (if c then o else none) = none := by
  split
  · exact h ‹_›
  · rfl

theorem annotationOf_text (hkind : kind ≠ .blob) (hnull : ¬IsNull value)
    (hboolean : kind = .boolean → booleanLiteral value = none)
    (hinteger : kind = .integer → fromChars value = none)
    (hreal : kind = .real → doubles.strtod value = none) (h : quotedText value = true) :
    annotationOf doubles notNull kind value = .text (cppString (unquoteLoop (inner value))) := by
  rw [annotationOf_other hnull hboolean, ite_eq_none hinteger, ite_eq_none hreal, if_pos hkind,
    unquoteSqlText, if_pos h]

theorem annotationOf_sql (h : IsRaw doubles kind value) :
    annotationOf doubles notNull kind value = .sql (cppString value) := by
  have htext : kind ≠ .blob → unquoteSqlText value = none := by
    intro hkind
    rw [unquoteSqlText, h.text hkind, if_neg Bool.false_ne_true]
  rw [annotationOf_other h.null h.boolean, ite_eq_none h.integer, ite_eq_none h.real,
    ite_eq_none htext]

end

/-! ## The declared defaults -/

/-- The first letter of `NULL` begins no number. -/
theorem IsNull.head {value : List Char} (h : IsNull value) : ∃ ch rest, value = ch :: rest ∧
    ch.isDigit = false ∧ ch ∉ ['+', '-', '.'] ∧ isSpace ch = false := by
  cases value with
  | nil => cases h
  | cons ch rest =>
    have hupper : ch.toUpper = 'N' := (List.cons.inj h).1
    refine ⟨ch, rest, rfl, ?_, fun hmem => ?_, ?_⟩
    · rw [Bool.eq_false_iff]
      intro hdigit
      rw [toUpper_of_isDigit hdigit] at hupper
      subst hupper
      cases hdigit
    · simp only [List.mem_cons, List.not_mem_nil, or_false] at hmem
      obtain rfl | rfl | rfl := hmem <;> cases hupper
    · rw [isSpace, decide_eq_false_iff_not]
      intro hmem
      simp only [List.mem_cons, List.not_mem_nil, or_false] at hmem
      obtain rfl | rfl | rfl | rfl | rfl | rfl := hmem <;> cases hupper

theorem fromChars_eq_some {value : List Char} {n : Int} (h : fromChars value = some n) :
    integerLiteral value = some n ∧ -2 ^ 63 ≤ n ∧ n < 2 ^ 63 := by
  obtain ⟨hvalue, hrange⟩ := Option.filter_eq_some_iff.mp h
  simp only [Bool.and_eq_true, decide_eq_true_eq] at hrange
  exact ⟨hvalue, hrange⟩

section

variable {doubles : Doubles} {notNull : Bool} {kind : ScalarKind} {default : List Char}

theorem strtod_null {value : List Char} (h : IsNull value) : doubles.strtod value = none := by
  rw [Option.eq_none_iff_forall_ne_some]
  intro x hx
  obtain ⟨ch, rest, rfl, hdigit, hother, hblank⟩ := h.head
  refine (doubles.head_of_strtod _ x hx ch ?_).elim (fun h => ?_) hother
  · rw [List.dropWhile_cons_of_neg (by simp [hblank])]
    exact rfl
  · rw [hdigit] at h
    cases h

theorem fromChars_null {value : List Char} (h : IsNull value) : fromChars value = none := by
  rw [Option.eq_none_iff_forall_ne_some]
  intro n hn
  obtain ⟨ch, rest, rfl, hdigit, hother, -⟩ := h.head
  have hsign : ch ≠ '-' := by
    rintro rfl
    exact hother (by decide)
  exact not_mem_of_integerLiteral (fromChars_eq_some hn).1 hdigit hsign List.mem_cons_self

theorem isNull_null : IsNull "NULL".toList := by
  unfold IsNull
  decide

/-- `NULL`. -/
theorem keeps_null_iff (hnull : IsNull (stripOuterParentheses default)) :
    Keeps doubles (!notNull) kind default
        (annotationOf doubles notNull kind (stripOuterParentheses default)) ↔
      Kept doubles kind default := by
  rw [kept_iff_pairs hnull.not_mem.2.1 (fun _ => fromChars_null hnull) (fun _ => strtod_null hnull)
      fun h => h.null hnull,
    ← exists_enclosed_iff (p := IsNull) (fun value h => head_trim_ne h.not_mem.1) hnull,
    annotationOf_null hnull]
  cases notNull with
  | false =>
    constructor
    · rintro ⟨declared, hdeclared, hvalue, -⟩
      obtain rfl := Option.some.inj hdeclared
      exact hvalue
    · intro hvalue
      exact ⟨.null, rfl, hvalue, isNull_null⟩
  | true =>
    have hdeclared : (MappingDefault.sql "NULL".toList).declared doubles kind false =
        some (.sql "NULL") := rfl
    have hsql : ∀ value, Denotes doubles value (.sql "NULL") ↔ IsNull value := by
      intro value
      refine ⟨fun h => h.elim (fun heq => heq ▸ isNull_null) (·.1), fun h => .inr ⟨h, isNull_null⟩⟩
    constructor
    · rintro ⟨declared, h, ⟨value, henclosed, hvalue⟩, -⟩
      obtain rfl := Option.some.inj (hdeclared.symm.trans h)
      exact ⟨value, henclosed, (hsql value).mp hvalue⟩
    · rintro ⟨value, henclosed, hvalue⟩
      exact ⟨.sql "NULL", hdeclared, ⟨value, henclosed, (hsql value).mpr hvalue⟩, .inl rfl⟩

/-- A boolean literal. -/
theorem keeps_boolean_iff (hkind : kind = .boolean)
    (hnull : ¬IsNull (stripOuterParentheses default)) {b : Bool}
    (hboolean : booleanLiteral (stripOuterParentheses default) = some b) :
    Keeps doubles (!notNull) kind default
        (annotationOf doubles notNull kind (stripOuterParentheses default)) ↔
      Kept doubles kind default := by
  have hraw : ¬IsRaw doubles kind (stripOuterParentheses default) := by
    intro h
    cases hboolean.symm.trans (h.boolean hkind)
  rw [kept_iff_pairs (not_mem_of_booleanLiteral hboolean).2 (by rw [hkind]; nofun)
      (by rw [hkind]; nofun) hraw,
    ← exists_enclosed_iff (p := fun value => booleanLiteral value = some b)
      (fun value h => head_trim_ne (not_mem_of_booleanLiteral h).1) hboolean,
    annotationOf_boolean hkind hnull hboolean]
  have hdeclared : ∀ optional, (MappingDefault.value
      (if b then "true".toList else "false".toList)).declared doubles kind optional =
        some (.boolean b) := by
    intro optional
    rw [hkind]
    cases b <;> rfl
  have hprinted : Denotes doubles (columnDefaultSql (.boolean b)).toList (.boolean b) := by
    cases b <;> rfl
  constructor
  · rintro ⟨declared, h, hvalue, -⟩
    obtain rfl := Option.some.inj ((hdeclared _).symm.trans h)
    exact hvalue
  · intro hvalue
    exact ⟨.boolean b, hdeclared _, hvalue, hprinted⟩

/-- An integer. -/
theorem keeps_integer_iff (hkind : kind = .integer)
    (hnull : ¬IsNull (stripOuterParentheses default)) {n : Int}
    (hinteger : fromChars (stripOuterParentheses default) = some n) :
    Keeps doubles (!notNull) kind default
        (annotationOf doubles notNull kind (stripOuterParentheses default)) ↔
      Kept doubles kind default := by
  obtain ⟨hliteral, hlow, hhigh⟩ := fromChars_eq_some hinteger
  have hquote : '\'' ∉ stripOuterParentheses default :=
    not_mem_of_integerLiteral hliteral rfl (by decide)
  have hkept : Kept doubles kind default ↔ PairsMatch default ∧ n ≠ -2 ^ 63 := by
    refine ⟨fun h => ⟨h.pairs, fun hn => h.integer hkind (hn ▸ hinteger)⟩,
      fun ⟨hpairs, hn⟩ => ⟨hpairs, fun _ content heq => ?_, fun _ h => ?_, by rw [hkind]; nofun,
        fun h => ?_⟩⟩
    · rw [heq] at hquote
      exact absurd List.mem_cons_self hquote
    · exact hn (Option.some.inj (hinteger.symm.trans h))
    · cases hinteger.symm.trans (h.integer hkind)
  have hwords : ¬((toString n).toList = "true".toList ∨ (toString n).toList = "false".toList) := by
    have hread := integerLiteral_toString n
    rintro (heq | heq) <;> (rw [heq] at hread; cases hread)
  have hdeclared : ∀ optional, (MappingDefault.value (toString n).toList).declared doubles kind
      optional = if n.natAbs < 2 ^ 63 then some (.integer n) else none := by
    intro optional
    unfold MappingDefault.declared
    simp only [Bool.or_eq_true, decide_eq_true_eq, if_neg hwords, integerLiteral_toString, hkind,
      decide_true, Bool.true_and]
  -- the only integer without a literal is the least one
  have hfits : n.natAbs < 2 ^ 63 ↔ n ≠ -2 ^ 63 := by omega
  rw [hkept, annotationOf_integer hkind hnull hinteger,
    ← exists_enclosed_iff (p := fun value => integerLiteral value = some n)
      (fun value h => head_trim_ne (not_mem_of_integerLiteral h rfl (by decide))) hliteral]
  constructor
  · rintro ⟨declared, h, hvalue, -⟩
    rw [hdeclared] at h
    split at h
    · obtain rfl := Option.some.inj h
      exact ⟨hvalue, hfits.mp ‹_›⟩
    · cases h
  · rintro ⟨hvalue, hn⟩
    exact ⟨.integer n, (hdeclared _).trans (if_pos (hfits.mpr hn)), hvalue,
      integerLiteral_toString n⟩

/-- A real number. -/
theorem keeps_real_iff (hkind : kind = .real) (hnull : ¬IsNull (stripOuterParentheses default))
    {x : doubles.Number} (hreal : doubles.strtod (stripOuterParentheses default) = some x) :
    Keeps doubles (!notNull) kind default
        (annotationOf doubles notNull kind (stripOuterParentheses default)) ↔
      Kept doubles kind default := by
  have hread := doubles.strtod_digits17 x
  have hkept : Kept doubles kind default ↔
      PairsMatch default ∧ integerLiteral (doubles.digits17 x) = none := by
    refine ⟨fun h => ⟨h.pairs, h.real hkind x hreal⟩,
      fun ⟨hpairs, hx⟩ => ⟨hpairs, fun _ content heq => ?_, by rw [hkind]; nofun,
        fun _ y hy => ?_, fun h => ?_⟩⟩
    · have hhead : _ ≠ some '\'' := head_trim_of_strtod hreal rfl (by decide)
      rw [trimSqlView_strip, heq] at hhead
      exact absurd rfl hhead
    · obtain rfl := Option.some.inj (hreal.symm.trans hy)
      exact hx
    · cases hreal.symm.trans (h.real hkind)
  have hwords : ¬(doubles.digits17 x = "true".toList ∨ doubles.digits17 x = "false".toList) := by
    rintro (heq | heq)
    · have hhead : _ ≠ some 't' := head_trim_of_strtod hread rfl (by decide)
      rw [heq] at hhead
      exact hhead rfl
    · have hhead : _ ≠ some 'f' := head_trim_of_strtod hread rfl (by decide)
      rw [heq] at hhead
      exact hhead rfl
  have hdeclared : ∀ optional, (MappingDefault.value (doubles.digits17 x)).declared doubles kind
      optional = if integerLiteral (doubles.digits17 x) = none then
        some (.real (String.ofList (doubles.digits17 x))) else none := by
    intro optional
    unfold MappingDefault.declared
    simp only [Bool.or_eq_true, decide_eq_true_eq, if_neg hwords, hkind, hread]
    cases integerLiteral (doubles.digits17 x) <;> rfl
  have hdenotes : ∀ value, Denotes doubles value (.real (String.ofList (doubles.digits17 x))) ↔
      doubles.strtod value = some x := by
    intro value
    refine ⟨fun ⟨y, hvalue, hy⟩ => ?_, fun h => ⟨x, h, ?_⟩⟩
    · rw [String.toList_ofList, hread] at hy
      rw [hvalue, hy]
    · rw [String.toList_ofList, hread]
  rw [hkept, annotationOf_real hkind hnull hreal,
    ← exists_enclosed_iff (p := fun value => doubles.strtod value = some x)
      (fun value h => head_trim_of_strtod h rfl (by decide)) hreal]
  constructor
  · rintro ⟨declared, h, ⟨value, henclosed, hvalue⟩, -⟩
    rw [hdeclared] at h
    split at h
    · obtain rfl := Option.some.inj h
      exact ⟨⟨value, henclosed, (hdenotes value).mp hvalue⟩, ‹_›⟩
    · cases h
  · rintro ⟨⟨value, henclosed, hvalue⟩, hx⟩
    refine ⟨.real (String.ofList (doubles.digits17 x)), (hdeclared _).trans (if_pos hx),
      ⟨value, henclosed, (hdenotes value).mpr hvalue⟩, (hdenotes _).mpr ?_⟩
    show doubles.strtod (String.ofList (doubles.digits17 x)).toList = some x
    rw [String.toList_ofList, hread]

/-- What becomes of a text: it has to fit, and is cut at a zero. -/
theorem declared_text (optional : Bool) (text : List Char) :
    (MappingDefault.text (cppString text)).declared doubles kind optional =
      if kind = .text ∧ (String.ofList text).utf8ByteSize + 1 ≤ 256 then
        some (.text (String.ofList (text.takeWhile (· ≠ '\x00')))) else none := by
  unfold MappingDefault.declared
  simp only [fixedText_cppString]
  by_cases hkind : kind = .text
  · by_cases hsize : (String.ofList text).utf8ByteSize + 1 ≤ 256
    · rw [if_pos hsize, if_pos ⟨hkind, hsize⟩, guard, if_pos hkind]
      rfl
    · rw [if_neg hsize, if_neg (fun h => hsize h.2), guard, if_pos hkind]
      rfl
  · have hnone : ¬(kind = .text ∧ (String.ofList text).utf8ByteSize + 1 ≤ 256) := fun h => hkind h.1
    rw [if_neg hnone, guard, if_neg hkind]
    rfl

/-- What becomes of an expression. -/
theorem declared_sql (optional : Bool) (expression : List Char) :
    (MappingDefault.sql (cppString expression)).declared doubles kind optional =
      if (String.ofList expression).utf8ByteSize + 1 ≤ 256 ∧
          expression.takeWhile (· ≠ '\x00') ≠ [] then
        some (.sql (String.ofList (expression.takeWhile (· ≠ '\x00')))) else none := by
  unfold MappingDefault.declared
  simp only [fixedText_cppString]
  by_cases hsize : (String.ofList expression).utf8ByteSize + 1 ≤ 256
  · rw [if_pos hsize]
    show (guard _ : Option Unit).bind _ = _
    by_cases hempty : expression.takeWhile (· ≠ '\x00') = []
    · rw [if_neg (fun h => h.2 hempty), hempty]
      rfl
    · rw [if_pos ⟨hsize, hempty⟩, guard, if_pos (by simpa using hempty)]
      rfl
  · rw [if_neg hsize, if_neg (fun h => hsize h.1)]
    rfl

/-- A text in quotes. -/
theorem keeps_text_iff (hblob : kind ≠ .blob) (hnull : ¬IsNull (stripOuterParentheses default))
    (hboolean : kind = .boolean → booleanLiteral (stripOuterParentheses default) = none)
    (hinteger : kind = .integer → fromChars (stripOuterParentheses default) = none)
    (hreal : kind = .real → doubles.strtod (stripOuterParentheses default) = none)
    (htext : quotedText (stripOuterParentheses default) = true) :
    Keeps doubles (!notNull) kind default
        (annotationOf doubles notNull kind (stripOuterParentheses default)) ↔
      Kept doubles kind default := by
  have hdelimited := quotedText_iff.mp htext
  rw [annotationOf_text hblob hnull hboolean hinteger hreal htext]
  generalize inner (stripOuterParentheses default) = content at hdelimited
  have hprinted : ∀ text : List Char, (columnDefaultSql (.text (String.ofList text))).toList =
      '\'' :: (doubled '\'' text ++ ['\'']) := by
    intro text
    simp [columnDefaultSql, quoteSqlText, doubled]
  constructor
  · rintro ⟨declared, h, ⟨value, henclosed, hvalue⟩, -⟩
    rw [declared_text] at h
    split at h
    case isFalse => cases h
    case isTrue hfits =>
    obtain rfl := Option.some.inj h
    have hvalue : value = '\'' :: (doubled '\'' ((unquoteLoop content).takeWhile (· ≠ '\x00')) ++
        ['\'']) := by
      rw [← String.toList_ofList (l := (unquoteLoop content).takeWhile _)]
      exact hvalue
    -- the database's literal is what is left, and so there is no zero in it
    obtain ⟨hstrip, hpairs⟩ := henclosed.strip_eq
      (by rw [hvalue, trimSqlView_delimited (by decide) (by decide)]; simp)
      (by rw [hdelimited]; simp)
    rw [hvalue, trimSqlView_delimited (by decide) (by decide), hdelimited] at hstrip
    have hcontent := List.append_cancel_right (List.cons.inj hstrip).2
    have hcut := congrArg unquoteLoop hcontent
    rw [unquoteLoop_doubled] at hcut
    have hzero : '\x00' ∉ unquoteLoop content := by
      rw [hcut]
      intro hmem
      have := List.mem_takeWhile_imp hmem
      cases this
    refine ⟨hpairs, fun _ other heq => ⟨hfits.1, unquoteLoop content, ?_, hfits.2, hzero⟩,
      fun hkind => ?_, fun hkind x hx => ?_, fun hraw => ?_⟩
    · rw [hdelimited] at heq
      rw [← List.append_cancel_right (List.cons.inj heq).2, hcontent, unquoteLoop_doubled]
    · rw [hinteger hkind]
      exact Option.some_ne_none _ ∘ Eq.symm
    · cases (hreal hkind).symm.trans hx
    · cases htext.symm.trans (hraw.text hblob)
  · intro h
    obtain ⟨hkind, text, rfl, hsize, hzero⟩ := h.quoted hblob content hdelimited
    rw [unquoteLoop_doubled]
    refine ⟨.text (String.ofList text), ?_, ⟨stripOuterParentheses default,
      enclosed_of_pairsMatch h.pairs, ?_⟩, ?_⟩
    · rw [declared_text, if_pos ⟨hkind, hsize⟩, takeWhile_of_fits hzero]
    · rw [hdelimited]
      show _ = '\'' :: (doubled '\'' (String.ofList text).toList ++ ['\''])
      rw [String.toList_ofList]
    · rw [hprinted]
      show _ = '\'' :: (doubled '\'' (String.ofList text).toList ++ ['\''])
      rw [String.toList_ofList]

/-- Another expression. -/
theorem keeps_sql_iff (hraw : IsRaw doubles kind (stripOuterParentheses default)) :
    Keeps doubles (!notNull) kind default
        (annotationOf doubles notNull kind (stripOuterParentheses default)) ↔
      Kept doubles kind default := by
  rw [annotationOf_sql hraw]
  have hkept : Kept doubles kind default ↔ PairsMatch default ∧
      stripOuterParentheses default ≠ [] ∧ Fits (stripOuterParentheses default) := by
    refine ⟨fun h => ⟨h.pairs, h.raw hraw⟩, fun ⟨hpairs, hfits⟩ => ⟨hpairs, fun hblob content heq => ?_,
      fun hkind h => ?_, fun hkind x hx => ?_, fun _ => hfits⟩⟩
    · have hquoted := hraw.text hblob
      rw [heq, Bool.eq_false_iff] at hquoted
      exact absurd (quotedText_iff.mpr (by rw [inner_delimited])) hquoted
    · cases (hraw.integer hkind).symm.trans h
    · cases (hraw.real hkind).symm.trans hx
  rw [hkept]
  constructor
  · rintro ⟨declared, h, ⟨value, henclosed, hvalue⟩, -⟩
    rw [declared_sql] at h
    split at h
    case isFalse => cases h
    case isTrue hfits =>
    obtain rfl := Option.some.inj h
    -- a zero would stand in the database's default, and is cut off
    have hzero : '\x00' ∉ stripOuterParentheses default := by
      intro hmem
      have hin := henclosed.mem (mem_of_mem_strip hmem) (by decide) (by decide) (by decide)
      obtain heq | ⟨hnull, -⟩ := hvalue
      · rw [heq, String.toList_ofList] at hin
        have := List.mem_takeWhile_imp hin
        cases this
      · exact hnull.not_mem.2.2 hin
    rw [takeWhile_of_fits hzero] at hvalue hfits
    obtain heq | ⟨-, hnull⟩ := hvalue
    · rw [String.toList_ofList] at heq
      exact ⟨(enclosed_strip_iff default).mp (heq ▸ henclosed), hfits.2, hfits.1, hzero⟩
    · rw [String.toList_ofList] at hnull
      exact absurd hnull hraw.null
  · rintro ⟨hpairs, hne, hsize, hzero⟩
    refine ⟨.sql (String.ofList (stripOuterParentheses default)), ?_,
      ⟨_, enclosed_of_pairsMatch hpairs, .inl String.toList_ofList.symm⟩, .inl rfl⟩
    rw [declared_sql, takeWhile_of_fits hzero, if_pos ⟨hsize, hne⟩]

/-- An annotation keeps the default. -/
theorem keeps_iff : Keeps doubles (!notNull) kind default
      (annotationOf doubles notNull kind (stripOuterParentheses default)) ↔
    Kept doubles kind default := by
  by_cases hnull : IsNull (stripOuterParentheses default)
  · exact keeps_null_iff hnull
  -- the readers in the order in which they are tried
  have hread : ∀ {α : Type} (c : Prop) (o : Option α), (c → o = none) ∨ c ∧ ∃ x, o = some x := by
    intro α c o
    by_cases hc : c
    · cases o with
      | none => exact .inl fun _ => rfl
      | some x => exact .inr ⟨hc, x, rfl⟩
    · exact .inl fun h => absurd h hc
  obtain hboolean | ⟨hkind, b, hb⟩ := hread (kind = .boolean)
    (booleanLiteral (stripOuterParentheses default))
  case inr => exact keeps_boolean_iff hkind hnull hb
  obtain hinteger | ⟨hkind, n, hn⟩ := hread (kind = .integer)
    (fromChars (stripOuterParentheses default))
  case inr => exact keeps_integer_iff hkind hnull hn
  obtain hreal | ⟨hkind, x, hx⟩ := hread (kind = .real)
    (doubles.strtod (stripOuterParentheses default))
  case inr => exact keeps_real_iff hkind hnull hx
  by_cases htext : kind ≠ .blob ∧ quotedText (stripOuterParentheses default) = true
  · exact keeps_text_iff htext.1 hnull hboolean hinteger hreal htext.2
  · refine keeps_sql_iff ⟨hnull, hboolean, hinteger, hreal, fun hblob => ?_⟩
    exact Bool.eq_false_iff.mpr fun h => htext ⟨hblob, h⟩

end

/-- Whole numbers, without an exponent. -/
def wholeNumbers : Doubles where
  Number := Int
  strtod := integerLiteral
  digits17 n := (toString n).toList
  strtod_digits17 := integerLiteral_toString
  head_of_strtod value n h ch hch := by
    have hmem := (List.dropWhile_suffix isSpace).subset (List.mem_of_mem_head? hch)
    by_contra hother
    rw [not_or, Bool.not_eq_true] at hother
    refine not_mem_of_integerLiteral h hother.1 ?_ hmem
    rintro rfl
    exact hother.2 (by decide)

end MetalOrm.Native.Ddl
