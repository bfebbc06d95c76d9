import MetalOrm.Native.SqliteDdlParser
import MetalOrm.Spec.DdlTexts

/-!
# The constraints of a column come back from its text

Each parser reads one segment for each column. What it does with it depends on one clause of the
column: the other clauses are plain for the keyword it looks for.

## Key results

- `constraintNameBefore_naming`, `constraintNameBefore_second`: the name of a constraint
- `parseUnique_column`, `parseCheck_column`, `parseReference_column`: the effect of a segment
-/

namespace MetalOrm.Native.Ddl

open Query (sqliteDialect)
open Schema (DatabaseTable DatabaseColumn DatabaseCheck ForeignKeyReference)

/-! ## The beginning of a segment -/

/-- No keyword begins with a quote. -/
theorem keywordAt_quote {keyword : String} (hkeyword : IsKeyword keyword) (pos : Nat)
    (prev : Option Char) (rest : List Char) :
    sqlKeywordAt ⟨pos, prev, '"' :: rest⟩ keyword = false := by
  cases h : sqlKeywordAt ⟨pos, prev, '"' :: rest⟩ keyword with
  | false => rfl
  | true =>
    have hword := (wordAt_of_keywordAt hkeyword h).2
    exact absurd hword.symm hkeyword.nonempty

/-- One keyword is not another. -/
theorem keywordAt_other {keyword word : String} (hkeyword : IsKeyword keyword)
    (hword : IsKeyword word) (hne : word.toList ≠ keyword.toList) (pos : Nat)
    (prev : Option Char) {rest : List Char}
    (hrest : ∀ ch ∈ rest.head?, sqlIdentifierChar ch = false) :
    sqlKeywordAt ⟨pos, prev, word.toList ++ rest⟩ keyword = false := by
  cases h : sqlKeywordAt ⟨pos, prev, word.toList ++ rest⟩ keyword with
  | false => rfl
  | true =>
    have hfound := (wordAt_of_keywordAt hkeyword h).2
    rw [wordAt_eq hword.identifier hrest, hword.upper] at hfound
    exact absurd hfound hne

theorem endsIdentifier_of_identifierChar {ch : Char} (h : sqlIdentifierChar ch = true) :
    endsIdentifier ch = false := by
  have hparen := ordinary_ne_paren (ordinary_of_identifierChar h)
  have hspace : isSpace ch = false := by
    cases hspace : isSpace ch with
    | false => rfl
    | true =>
      rw [not_identifierChar_of_isSpace hspace] at h
      exact absurd h Bool.false_ne_true
  have hcomma : ch ≠ ',' := by
    rintro rfl
    exact absurd h (by decide)
  simp [endsIdentifier, hspace, hparen, hcomma]

/-- A word begins with no blank. -/
theorem IsKeyword.head_not_space {word : String} (hword : IsKeyword word) (rest : List Char) :
    ∀ ch ∈ (word.toList ++ rest).head?, isSpace ch = false := by
  obtain ⟨first, letters, hletters⟩ := List.exists_cons_of_ne_nil hword.nonempty
  rw [hletters]
  intro ch hch
  obtain rfl : first = ch := by simpa using hch
  have hidentifier := hword.identifier first (by simp [hletters])
  have := endsIdentifier_of_identifierChar hidentifier
  simp only [endsIdentifier, Bool.or_eq_false_iff] at this
  exact this.1.1.1

section Segment

variable (name : String) (rest : List Char)

/-- A column begins with its name, and no constraint of the table. -/
theorem tableConstraint_quotedName :
    tableConstraint (quotedName name ++ rest) = (none, .start (quotedName name ++ rest)) := by
  have hstop : skipSqlSpace (.start (quotedName name ++ rest)) =
      .start (quotedName name ++ rest) := by
    apply skipSqlSpace_stop
    intro ch hch
    obtain rfl : '"' = ch := by simpa [quotedName] using hch
    decide
  have hnot : sqlKeywordAt (.start (quotedName name ++ rest)) "CONSTRAINT" = false :=
    keywordAt_quote (by decide) 0 none _
  unfold tableConstraint
  dsimp only
  rw [hstop, hnot]
  rfl

variable {rest} in
/-- The name of a column. -/
theorem readSqlIdentifier_quotedName (hnext : rest.head? ≠ some '"') :
    readSqlIdentifier (.start (quotedName name ++ rest)) =
      (some name.toList, ⟨(quotedName name).length, some '"', rest⟩) := by
  have hread := readSqlIdentifier_quoted name.toList hnext 0 none
  have hlength : (quotedName name).length = 0 + (doubled '"' name.toList).length + 2 := by
    simp [quotedName]
  rw [quotedName_append, hlength]
  exact hread

end Segment

/-! ## The name of a constraint -/

/-- `CONSTRAINT` and a name are found after a text in which the word does not stand. -/
theorem find_naming {before : List Char} (hbefore : Plain (IsWord "CONSTRAINT") before)
    (constraint : String) (pos : Nat) (prev : Option Char) (rest : List Char) :
    findSqlKeywordTopLevel ⟨pos, prev, before ++ (naming (some constraint) ++ ' ' :: rest)⟩
        "CONSTRAINT" =
      some ⟨pos + before.length + 1, some ' ',
        "CONSTRAINT".toList ++ ' ' :: (quotedName constraint ++ ' ' :: rest)⟩ := by
  have htext : naming (some constraint) ++ ' ' :: rest =
      ' ' :: ("CONSTRAINT".toList ++ ' ' :: (quotedName constraint ++ ' ' :: rest)) := by
    simp [naming, spaced]
  rw [htext]
  exact find_after (by decide) hbefore (separated_cons (by decide) _).not_identifierChar pos prev

/-- What follows `CONSTRAINT`: the name, and the position of the next word. -/
theorem readSqlIdentifier_naming (constraint : String) {rest : List Char}
    (hrest : ∀ ch ∈ rest.head?, isSpace ch = false) (pos : Nat) (prev : Option Char) :
    ∃ c, readSqlIdentifier ⟨pos, prev, ' ' :: (quotedName constraint ++ ' ' :: rest)⟩ =
        (some constraint.toList, c) ∧
      skipSqlSpace c = ⟨pos + (quotedName constraint).length + 2, some ' ', rest⟩ := by
  have hread := readSqlIdentifier_quoted constraint.toList (by simp : (' ' :: rest).head? ≠ some '"')
    (pos + 1) (some ' ')
  have hlength : (quotedName constraint).length = (doubled '"' constraint.toList).length + 2 := by
    simp [quotedName]
  rw [quotedName_append]
  refine ⟨_, hread, ?_⟩
  rw [skipSqlSpace_space, skipSqlSpace_stop hrest, hlength]
  congr 1
  omega

/-- The name that stands right before the position is found. -/
theorem constraintNameBefore_hit {before : List Char}
    (hbefore : Plain (IsWord "CONSTRAINT") before) (constraint : String) {rest : List Char}
    (hrest : ∀ ch ∈ rest.head?, isSpace ch = false) (fuel pos : Nat) (prev : Option Char)
    {target : Cursor}
    (htarget : target.pos = pos + before.length + (naming (some constraint)).length + 1) :
    constraintNameBefore target (fuel + 1)
        ⟨pos, prev, before ++ (naming (some constraint) ++ ' ' :: rest)⟩ =
      some constraint.toList := by
  have hlength : (naming (some constraint)).length = 12 + (quotedName constraint).length := by
    simp [naming, spaced]
    omega
  have hword : "CONSTRAINT".length = 10 := by decide
  obtain ⟨c, hread, hskip⟩ := readSqlIdentifier_naming constraint hrest
    (pos + before.length + 1 + "CONSTRAINT".length) (lastOf "CONSTRAINT".toList (some ' '))
  rw [constraintNameBefore, if_pos (by dsimp only; omega), find_naming hbefore]
  dsimp only
  rw [if_neg (by omega), advance_word, hread]
  dsimp only
  rw [hskip, if_pos (by dsimp only; omega)]

/-- A name that stands before another position is passed by. -/
theorem constraintNameBefore_miss {before : List Char}
    (hbefore : Plain (IsWord "CONSTRAINT") before) (constraint : String) {rest : List Char}
    (hrest : ∀ ch ∈ rest.head?, isSpace ch = false) (fuel pos : Nat) (prev : Option Char)
    {target : Cursor}
    (htarget : pos + before.length + (naming (some constraint)).length + 1 < target.pos) :
    constraintNameBefore target (fuel + 1)
        ⟨pos, prev, before ++ (naming (some constraint) ++ ' ' :: rest)⟩ =
      constraintNameBefore target fuel ⟨pos + before.length + 11,
        lastOf "CONSTRAINT".toList (some ' '), ' ' :: (quotedName constraint ++ ' ' :: rest)⟩ := by
  have hlength : (naming (some constraint)).length = 12 + (quotedName constraint).length := by
    simp [naming, spaced]
    omega
  have hword : "CONSTRAINT".length = 10 := by decide
  obtain ⟨c, hread, hskip⟩ := readSqlIdentifier_naming constraint hrest
    (pos + before.length + 1 + "CONSTRAINT".length) (lastOf "CONSTRAINT".toList (some ' '))
  rw [constraintNameBefore, if_pos (by dsimp only; omega), find_naming hbefore]
  dsimp only
  rw [if_neg (by omega), advance_word, hread]
  dsimp only
  rw [hskip, if_neg (by dsimp only; omega), hword]

/-- No name is found where none stands before the position. -/
theorem constraintNameBefore_none {before : List Char}
    (hbefore : Plain (IsWord "CONSTRAINT") before) (rest : List Char) (fuel pos : Nat)
    (prev : Option Char) {target : Cursor} (htarget : target.pos = pos + before.length + 1) :
    constraintNameBefore target fuel ⟨pos, prev, before ++ ' ' :: rest⟩ = none := by
  cases fuel with
  | zero => rfl
  | succ fuel =>
    rw [constraintNameBefore]
    split
    · rw [find_plain (by decide) hbefore (separated_cons (by decide) _), find_space (by decide)]
      split
      · rfl
      · rename_i found hfound
        have := find_pos_le hfound
        rw [if_pos (by dsimp only at this; omega)]
    · rfl

/-- The name before a position, or none, after a text in which none stands. -/
theorem constraintNameBefore_naming {before : List Char}
    (hbefore : Plain (IsWord "CONSTRAINT") before) (constraint : Option String) {rest : List Char}
    (hrest : ∀ ch ∈ rest.head?, isSpace ch = false) (fuel pos : Nat) (prev : Option Char)
    {target : Cursor}
    (htarget : target.pos = pos + before.length + (naming constraint).length + 1) :
    constraintNameBefore target (fuel + 1)
        ⟨pos, prev, before ++ (naming constraint ++ ' ' :: rest)⟩ =
      constraint.map String.toList := by
  cases constraint with
  | none => exact constraintNameBefore_none hbefore rest (fuel + 1) pos prev htarget
  | some constraint =>
    exact constraintNameBefore_hit hbefore constraint hrest fuel pos prev htarget

/-- The name before a position, after a text in which another one stands. -/
theorem constraintNameBefore_second {first second : List Char}
    (hfirst : Plain (IsWord "CONSTRAINT") first) (hsecond : Plain (IsWord "CONSTRAINT") second)
    (other : String) (constraint : Option String) {rest : List Char}
    (hspace : ∀ ch ∈ (second ++ (naming constraint ++ ' ' :: rest)).head?, isSpace ch = false)
    (hrest : ∀ ch ∈ rest.head?, isSpace ch = false) (fuel pos : Nat) (prev : Option Char)
    {target : Cursor}
    (htarget : target.pos = pos + first.length + (naming (some other)).length + 1 + second.length +
      (naming constraint).length + 1) :
    constraintNameBefore target (fuel + 2) ⟨pos, prev, first ++ (naming (some other) ++
        ' ' :: (second ++ (naming constraint ++ ' ' :: rest)))⟩ =
      constraint.map String.toList := by
  have hlength : (naming (some other)).length = 12 + (quotedName other).length := by
    simp [naming, spaced]
    omega
  rw [constraintNameBefore_miss hfirst other hspace (fuel + 1) pos prev (by omega)]
  -- the second search begins before the name of the first constraint
  have hbetween : Plain (IsWord "CONSTRAINT") (' ' :: (quotedName other ++ ' ' :: second)) :=
    plain_space (by decide) ((plain_quotedName _ other).append (plain_space (by decide) hsecond)
      (separated_cons (by decide) _))
  have htext : ' ' :: (quotedName other ++ ' ' :: (second ++ (naming constraint ++ ' ' :: rest))) =
      ' ' :: (quotedName other ++ ' ' :: second) ++ (naming constraint ++ ' ' :: rest) := by
    simp only [List.cons_append, List.append_assoc]
  rw [htext]
  apply constraintNameBefore_naming hbetween constraint hrest
  simp only [List.length_cons, List.length_append]
  omega

/-- The expression of a check. -/
theorem extractCheckExpression_group {expression : List Char} (h : Balanced expression) (pos : Nat)
    (prev : Option Char) (rest : List Char) :
    extractCheckExpression
        ⟨pos, prev, "CHECK".toList ++ ' ' :: '(' :: (expression ++ ')' :: rest)⟩ =
      some (trimSqlView expression) := by
  have hopen : ∀ ch ∈ ('(' :: (expression ++ ')' :: rest)).head?, isSpace ch = false := by
    intro ch hch
    obtain rfl : '(' = ch := by simpa using hch
    decide
  unfold extractCheckExpression
  rw [advance_word, skipSqlSpace_space, skipSqlSpace_stop hopen]
  dsimp only
  rw [matchingParen_group h]
  dsimp only [Cursor.next]
  have hlength : pos + "CHECK".length + 1 + 1 + expression.length - (pos + "CHECK".length + 1) - 1 =
      expression.length := by
    omega
  rw [hlength, List.take_left]

/-- What the deferral of a reference is read from. -/
theorem sqliteReferenceIsDeferred_target (reference : ReferenceAnnotation) (pos : Nat)
    (prev : Option Char) :
    sqliteReferenceIsDeferred
        ⟨pos, prev, "REFERENCES".toList ++ (referenceTarget reference ++ deferral reference)⟩ =
      reference.deferrable := by
  have htarget : Plain (IsWord "DEFERRABLE") (referenceTarget reference) :=
    plain_referenceTarget (by decide) (by decide) reference
  unfold sqliteReferenceIsDeferred
  rw [advance_word]
  dsimp only
  generalize pos + "REFERENCES".length = start
  generalize lastOf "REFERENCES".toList prev = last
  cases hdeferrable : reference.deferrable with
  | false =>
    have hnone : deferral reference = [] := by simp [deferral, hdeferrable]
    rw [hnone, List.append_nil, find_none (by decide) htarget]
  | true =>
    have hdeferral : deferral reference = ' ' :: ("DEFERRABLE".toList ++
        ' ' :: ("INITIALLY".toList ++ ' ' :: ("DEFERRED".toList ++ []))) := by
      simp [deferral, hdeferrable, spaced]
    have hnot : Plain (IsWord "NOT") (referenceTarget reference ++ deferral reference) :=
      (plain_referenceTarget (by decide) (by decide) reference).append
        (plain_deferral (by decide) (by decide) reference) (separated_deferral reference)
    have hspace : ∀ rest, Separated (' ' :: rest) := separated_cons (by decide)
    rw [find_none (by decide) hnot, hdeferral,
      find_after (by decide) htarget (hspace _).not_identifierChar]
    dsimp only
    -- the two words after `DEFERRABLE`
    have hinitially := (by decide : IsKeyword "INITIALLY").head_not_space
      (' ' :: ("DEFERRED".toList ++ []))
    have hdeferred := (by decide : IsKeyword "DEFERRED").head_not_space []
    rw [if_neg Bool.false_ne_true, advance_word, skipSqlSpace_space, skipSqlSpace_stop hinitially,
      keywordAt_of_word "INITIALLY" _ (by decide) (hspace _).not_identifierChar, if_pos rfl,
      advance_word, skipSqlSpace_space, skipSqlSpace_stop hdeferred,
      keywordAt_of_word "DEFERRED" _ (by decide) (by simp)]

/-! ## One segment of a column -/

section Column

variable (table : DatabaseTable) (name : String) {rest : List Char}

/-- The position after the name of a column. -/
def afterName (name : String) (rest : List Char) : Cursor :=
  ⟨(quotedName name).length, some '"', rest⟩

theorem parseUniqueSegment_column (hrest : Separated rest) :
    parseUniqueSegment table (quotedName name ++ rest) =
      match findSqlKeywordTopLevel (afterName name rest) "UNIQUE" with
      | none => table
      | some unique =>
        applySqliteColumnUnique table name.toList
          (constraintNameForUnique (quotedName name ++ rest) unique) := by
  have hnot : sqlKeywordAt (.start (quotedName name ++ rest)) "UNIQUE" = false :=
    keywordAt_quote (by decide) 0 none _
  have hnext : rest.head? ≠ some '"' := fun h => absurd (hrest '"' h) (by decide)
  unfold parseUniqueSegment
  rw [if_neg (by simp [quotedName]), tableConstraint_quotedName]
  dsimp only
  rw [hnot, readSqlIdentifier_quotedName name hnext]
  rfl

theorem parseCheckSegment_column (hrest : Separated rest) :
    parseCheckSegment table (quotedName name ++ rest) =
      match findSqlKeywordTopLevel (afterName name rest) "CHECK" with
      | none => table
      | some check =>
        match extractCheckExpression check with
        | none => table
        | some expression =>
          { table with
            columns := updateColumn name.toList (fun column =>
              { column with check := some (String.ofList expression) }) table.columns } := by
  have hnot : sqlKeywordAt (.start (quotedName name ++ rest)) "CHECK" = false :=
    keywordAt_quote (by decide) 0 none _
  have hnext : rest.head? ≠ some '"' := fun h => absurd (hrest '"' h) (by decide)
  unfold parseCheckSegment
  rw [if_neg (by simp [quotedName]), tableConstraint_quotedName]
  dsimp only
  rw [hnot, readSqlIdentifier_quotedName name hnext]
  rfl

theorem parseReferenceSegment_column (hrest : Separated rest) :
    parseReferenceSegment table (quotedName name ++ rest) =
      match findSqlKeywordTopLevel (afterName name rest) "REFERENCES" with
      | none => table
      | some reference =>
        applySqliteReferenceModifiers table name.toList (quotedName name ++ rest) reference
          none := by
  have hnot : sqlKeywordAt (.start (quotedName name ++ rest)) "FOREIGN" = false :=
    keywordAt_quote (by decide) 0 none _
  have hnext : rest.head? ≠ some '"' := fun h => absurd (hrest '"' h) (by decide)
  unfold parseReferenceSegment
  rw [if_neg (by simp [quotedName]), tableConstraint_quotedName]
  dsimp only
  rw [hnot, readSqlIdentifier_quotedName name hnext]
  rfl

variable {before : List Char} (after : List Char) (hbefore : Separated before)
  (hafter : Separated after)

include hbefore hafter in
/-- The `UNIQUE` of a column and its name. -/
theorem parseUniqueSegment_found (hunique : Plain (IsWord "UNIQUE") before)
    (hconstraint : Plain (IsWord "CONSTRAINT") before) (constraint : Option String) :
    parseUniqueSegment table (quotedName name ++
        (before ++ (naming constraint ++ ' ' :: ("UNIQUE".toList ++ after)))) =
      applySqliteColumnUnique table name.toList (constraint.map String.toList) := by
  have hrest : Separated (before ++ (naming constraint ++ ' ' :: ("UNIQUE".toList ++ after))) :=
    hbefore.append ((separated_naming constraint).append (separated_cons (by decide) _))
  have hnaming := plain_naming (by decide : ¬IsWord "UNIQUE" [' ']) (by decide) constraint
  have hfind := find_after (by decide) (hunique.append hnaming (separated_naming constraint))
    hafter.not_identifierChar (quotedName name).length (some '"')
  rw [List.append_assoc, List.length_append] at hfind
  rw [parseUniqueSegment_column table name hrest, afterName, hfind]
  dsimp only
  congr 1
  -- the name is looked for from the beginning of the segment
  have hname := (plain_quotedName (IsWord "CONSTRAINT") name).append hconstraint hbefore
  unfold constraintNameForUnique Cursor.start
  rw [← List.append_assoc (quotedName name)]
  apply constraintNameBefore_naming hname
  · intro ch hch
    obtain rfl : 'U' = ch := by simpa using hch
    decide
  · simp only [List.length_append]
    omega

include hbefore in
/-- The `CHECK` of a column. -/
theorem parseCheckSegment_found (hcheck : Plain (IsWord "CHECK") before) {expression : List Char}
    (hexpression : Balanced expression) :
    parseCheckSegment table (quotedName name ++
        (before ++ ' ' :: ("CHECK".toList ++ ' ' :: '(' :: (expression ++ ')' :: after)))) =
      { table with
        columns := updateColumn name.toList (fun column =>
          { column with check := some (String.ofList (trimSqlView expression)) })
          table.columns } := by
  have hrest : Separated (before ++ ' ' :: ("CHECK".toList ++ ' ' :: '(' ::
      (expression ++ ')' :: after))) :=
    hbefore.append (separated_cons (by decide) _)
  have hspace : Separated (' ' :: '(' :: (expression ++ ')' :: after)) :=
    separated_cons (by decide) _
  have hfind := find_after (by decide) hcheck hspace.not_identifierChar (quotedName name).length
    (some '"')
  rw [parseCheckSegment_column table name hrest, afterName, hfind]
  dsimp only
  rw [extractCheckExpression_group hexpression]

/-- What a reference modifies in a column. -/
def modifyReference (reference : ReferenceAnnotation) (column : DatabaseColumn) : DatabaseColumn :=
  { column with
    references := column.references.map fun references =>
      { references with
        name := optionalText reference.constraintName
        deferrable := reference.deferrable } }

include hbefore in
/-- The reference of a column: its name is found from the beginning of the segment. -/
theorem parseReferenceSegment_found (hreferences : Plain (IsWord "REFERENCES") before)
    (reference : ReferenceAnnotation)
    (hname : ∀ c : Cursor, c.pos = (quotedName name).length + before.length +
        (naming (optionalText reference.constraintName)).length + 1 →
      constraintNameForReference (quotedName name ++ (before ++
          (naming (optionalText reference.constraintName) ++ ' ' :: ("REFERENCES".toList ++
            (referenceTarget reference ++ deferral reference))))) c =
        (optionalText reference.constraintName).map String.toList) :
    parseReferenceSegment table (quotedName name ++ (before ++
        (naming (optionalText reference.constraintName) ++ ' ' :: ("REFERENCES".toList ++
          (referenceTarget reference ++ deferral reference))))) =
      { table with
        columns := updateColumn name.toList (modifyReference reference) table.columns } := by
  have htarget : Separated (referenceTarget reference ++ deferral reference) :=
    (separated_referenceTarget reference).append (separated_deferral reference)
  have hrest : Separated (before ++ (naming (optionalText reference.constraintName) ++
      ' ' :: ("REFERENCES".toList ++ (referenceTarget reference ++ deferral reference)))) :=
    hbefore.append ((separated_naming _).append (separated_cons (by decide) _))
  have hnaming := plain_naming (by decide : ¬IsWord "REFERENCES" [' ']) (by decide)
    (optionalText reference.constraintName)
  have hfind := find_after (by decide) (hreferences.append hnaming (separated_naming _))
    htarget.not_identifierChar (quotedName name).length (some '"')
  rw [List.append_assoc] at hfind
  rw [parseReferenceSegment_column table name hrest, afterName, hfind]
  dsimp only
  unfold applySqliteReferenceModifiers
  rw [hname _ (by simp only [List.length_append]; omega), sqliteReferenceIsDeferred_target]
  have hback : ((none : Option (List Char)).or
      ((optionalText reference.constraintName).map String.toList)).map String.ofList =
        optionalText reference.constraintName := by
    cases optionalText reference.constraintName with
    | none => rfl
    | some text => simp
  rw [hback]
  rfl

end Column

/-! ## Blanks at the end of a segment -/

/-- A text that does not end with a blank. -/
def Trimmed (text : List Char) : Prop := ∀ ch ∈ text.getLast?, isSpace ch = false

theorem Trimmed.append {first second : List Char} (hfirst : Trimmed first)
    (hsecond : Trimmed second) : Trimmed (first ++ second) := by
  intro ch hch
  rw [List.getLast?_append] at hch
  cases hlast : second.getLast? with
  | none =>
    rw [hlast] at hch
    exact hfirst ch hch
  | some last =>
    rw [hlast] at hch
    exact hsecond ch (hlast ▸ hch)

/-- Only the last part of a text matters, where there is one. -/
theorem Trimmed.after {text : List Char} (hne : text ≠ []) (h : Trimmed text)
    (first : List Char) : Trimmed (first ++ text) := by
  intro ch hch
  rw [List.getLast?_append_of_ne_nil first hne] at hch
  exact h ch hch

theorem trimmed_concat {ch : Char} (h : isSpace ch = false) (text : List Char) :
    Trimmed (text ++ [ch]) := by
  intro last hlast
  obtain rfl : ch = last := by simpa using hlast
  exact h

/-- Words do not end with a blank. -/
theorem trimmed_spaced {words : List String} (h : ∀ word ∈ words, IsKeyword word) :
    Trimmed (spaced words) := by
  induction words with
  | nil => simp [Trimmed, spaced]
  | cons word words ih =>
    obtain ⟨hword, hwords⟩ := List.forall_mem_cons.mp h
    have hlast : Trimmed word.toList := by
      intro ch hch
      have hidentifier := hword.identifier ch (List.mem_of_getLast? hch)
      cases hspace : isSpace ch with
      | false => rfl
      | true =>
        rw [not_identifierChar_of_isSpace hspace] at hidentifier
        exact absurd hidentifier Bool.false_ne_true
    exact (hlast.after hword.nonempty [' ']).append (ih hwords)

/-- A reference does not end with a blank. -/
theorem trimmed_reference (reference : ReferenceAnnotation) :
    Trimmed (referenceTarget reference ++ deferral reference) := by
  have haction : ∀ event ∈ ["DELETE", "UPDATE"], ∀ action : ReferentialAction,
      Trimmed (spaced (action.words event)) := by
    intro event hevent action
    apply trimmed_spaced
    simp only [List.mem_cons, List.not_mem_nil, or_false] at hevent
    obtain rfl | rfl := hevent <;> cases action <;> decide
  have hdeferral : Trimmed (deferral reference) := by
    unfold deferral
    split
    · exact trimmed_spaced (by decide)
    · simp [Trimmed]
  have htext : referenceTarget reference = (' ' :: (quotedName reference.table ++
      ' ' :: '(' :: quotedName reference.column)) ++ [')'] ++
        (spaced (reference.onDelete.words "DELETE") ++
          spaced (reference.onUpdate.words "UPDATE")) := by
    simp only [referenceTarget, List.append_assoc, List.cons_append, List.nil_append]
  rw [htext]
  exact ((trimmed_concat (by decide) _).append ((haction _ (by simp) _).append
    (haction _ (by simp) _))).append hdeferral

theorem trimmed_quotedName (name : String) : Trimmed (quotedName name) :=
  trimmed_concat (by decide) ('"' :: doubled '"' name.toList)

theorem rdropWhile_append_of_trimmed {text : List Char} (htext : Trimmed text)
    (rest : List Char) :
    (text ++ rest).rdropWhile isSpace = text ++ rest.rdropWhile isSpace := by
  induction rest using List.reverseRecOn with
  | nil =>
    rw [List.append_nil, List.rdropWhile_nil, List.append_nil, List.rdropWhile_eq_self_iff]
    intro hne
    have := htext (text.getLast hne) (List.getLast?_eq_some_getLast hne)
    simp [this]
  | append_singleton rest ch ih =>
    rw [← List.append_assoc]
    by_cases hch : isSpace ch = true
    · rw [List.rdropWhile_concat_pos _ _ _ hch, List.rdropWhile_concat_pos _ _ _ hch, ih]
    · rw [List.rdropWhile_concat_neg _ _ _ hch, List.rdropWhile_concat_neg _ _ _ hch,
        List.append_assoc]

/-- Only blanks after the first part of a segment are left out. -/
theorem trimSqlView_append {text : List Char} (hne : text ≠ []) (htext : Trimmed text)
    (hhead : ∀ ch ∈ text.head?, isSpace ch = false) (rest : List Char) :
    trimSqlView (text ++ rest) = text ++ rest.rdropWhile isSpace := by
  obtain ⟨ch, text, rfl⟩ := List.exists_cons_of_ne_nil hne
  have hstop : ((ch :: text) ++ rest).dropWhile isSpace = (ch :: text) ++ rest := by
    rw [List.cons_append, List.dropWhile_cons_of_neg]
    simp [hhead ch rfl]
  unfold trimSqlView
  rw [hstop, rdropWhile_append_of_trimmed htext]

/-- A segment that begins with a name. -/
theorem trimSqlView_quotedName (name : String) (rest : List Char) :
    trimSqlView (quotedName name ++ rest) = quotedName name ++ rest.rdropWhile isSpace := by
  apply trimSqlView_append (by simp [quotedName]) (trimmed_quotedName name)
  intro ch hch
  obtain rfl : '"' = ch := by simpa [quotedName] using hch
  decide

theorem Separated.rdropWhile {rest : List Char} (h : Separated rest) :
    Separated (rest.rdropWhile isSpace) := by
  intro ch hch
  obtain ⟨blanks, hblanks⟩ := List.rdropWhile_prefix isSpace (l := rest)
  apply h ch
  rw [← hblanks, List.head?_append, hch]
  rfl

/-- A keyword that does not stand in a text does not stand in it without its last blanks. -/
theorem find_rdropWhile {keyword : String} (hkeyword : IsKeyword keyword) {text : List Char}
    (h : Plain (IsWord keyword) text) (pos : Nat) (prev : Option Char) :
    findSqlKeywordTopLevel ⟨pos, prev, text.rdropWhile isSpace⟩ keyword = none := by
  have hblanks : ∀ ch ∈ text.rtakeWhile isSpace, isSpace ch = true :=
    fun ch hch => List.mem_rtakeWhile_imp hch
  apply find_trimmed hblanks
  rw [List.rdropWhile_append_rtakeWhile]
  exact find_none hkeyword h pos prev

/-! ## The segment of a column -/

/-- What the parsers may find in a column: the declared `UNIQUE`. -/
def MappedColumn.declareUnique (mapped : MappedColumn) (column : DatabaseColumn) :
    DatabaseColumn :=
  match mapped.unique with
  | none => column
  | some name => { column with unique := true, uniqueName := name }

/-- The declared check, less the blanks around it. -/
def MappedColumn.declareCheck (mapped : MappedColumn) (column : DatabaseColumn) :
    DatabaseColumn :=
  match mapped.check with
  | none => column
  | some expression =>
    { column with check := some (String.ofList (trimSqlView expression.toList)) }

/-- The declared name and deferral of a reference. -/
def MappedColumn.declareReference (mapped : MappedColumn) (column : DatabaseColumn) :
    DatabaseColumn :=
  match mapped.reference with
  | none => column
  | some reference => modifyReference reference column

theorem updateColumn_id (name : List Char) (columns : List DatabaseColumn) :
    updateColumn name (fun column => column) columns = columns := by
  induction columns with
  | nil => rfl
  | cons column columns ih =>
    rw [updateColumn, ih]
    exact ite_self _

/-- The segment of a column. -/
def columnSegment (pkCount : Nat) (column : MappedColumn) : List Char :=
  trimSqlView (columnSql sqliteDialect pkCount column).toList

section Columns

variable {column : MappedColumn} (h : column.Readable) (pkCount : Nat) (table : DatabaseTable)

/-- What stands after the name of a column. -/
def afterNameText (pkCount : Nat) (column : MappedColumn) : List Char :=
  (typePart pkCount column).toList ++ ((uniquePart column).toList ++
    ((defaultPart column).toList ++ ((checkPart column).toList ++ (referencePart column).toList)))

theorem separated_afterNameText (column : MappedColumn) : Separated (afterNameText pkCount column) :=
  (separated_typePart pkCount column).append ((separated_uniquePart column).append
    ((separated_defaultPart column).append ((separated_checkPart column).append
      (separated_referencePart column))))

theorem columnSegment_eq (column : MappedColumn) : columnSegment pkCount column =
    quotedName column.name ++ (afterNameText pkCount column).rdropWhile isSpace := by
  rw [columnSegment, columnSql_toList, trimSqlView_quotedName]
  rfl

include h in
/-- The constraints of a column decide whether its text is plain. -/
theorem plain_afterNameText {bad : List Char → Prop} (hbad : ∀ token, bad token → Constrained token)
    (hunique : Plain bad (uniquePart column).toList) (hcheck : Plain bad (checkPart column).toList)
    (hreference : Plain bad (referencePart column).toList) :
    Plain bad (afterNameText pkCount column) :=
  ((plain_typePart h pkCount).mono hbad).append
    (hunique.append
      (((plain_defaultPart h).mono hbad).append
        (hcheck.append hreference (separated_referencePart column))
        ((separated_checkPart column).append (separated_referencePart column)))
      ((separated_defaultPart column).append ((separated_checkPart column).append
        (separated_referencePart column))))
    ((separated_uniquePart column).append ((separated_defaultPart column).append
      ((separated_checkPart column).append (separated_referencePart column))))

include h in
/-- What `parse_sqlite_unique_constraints` takes from a column. -/
theorem parseUnique_column :
    parseUniqueSegment table (columnSegment pkCount column) =
      { table with
        columns := updateColumn column.name.toList column.declareUnique table.columns } := by
  rw [columnSegment_eq]
  cases hunique : column.unique with
  | none =>
    have hid : column.declareUnique = fun column => column := by
      funext other
      simp [MappedColumn.declareUnique, hunique]
    have hnone : (uniquePart column).toList = [] := by simp [uniquePart, hunique]
    have hplain : Plain (IsWord "UNIQUE") (afterNameText pkCount column) :=
      plain_afterNameText h pkCount (constrained_word (by decide)) (hnone ▸ .nil)
        (plain_checkPart (by decide) (by decide) h) (plain_referencePart (by decide) (by decide) _)
    rw [parseUniqueSegment_column table _ (separated_afterNameText pkCount column).rdropWhile,
      afterName, find_rdropWhile (by decide) hplain, hid, updateColumn_id]
  | some constraint =>
    have htype := plain_typePart h pkCount
    have hpart : (uniquePart column).toList = naming constraint ++ ' ' :: "UNIQUE".toList := by
      simp [uniquePart, hunique, columnUniqueSql_toList]
    have hafter := (separated_defaultPart column).append
      ((separated_checkPart column).append (separated_referencePart column))
    -- the clause does not end with a blank, so blanks are only left out after it
    have hword : Trimmed (' ' :: "UNIQUE".toList) :=
      trimmed_concat (by decide : isSpace 'E' = false) " UNIQU".toList
    have htext : afterNameText pkCount column =
        ((typePart pkCount column).toList ++ naming constraint) ++ ' ' :: "UNIQUE".toList ++
          ((defaultPart column).toList ++
            ((checkPart column).toList ++ (referencePart column).toList)) := by
      unfold afterNameText
      rw [hpart]
      simp only [List.append_assoc]
    have hid : column.declareUnique =
        fun other => { other with unique := true, uniqueName := constraint } := by
      funext other
      simp [MappedColumn.declareUnique, hunique]
    have hfound := parseUniqueSegment_found table column.name _ (separated_typePart pkCount column)
      hafter.rdropWhile (htype.mono (constrained_word (by decide)))
      (htype.mono (constrained_word (by decide))) constraint
    rw [htext, rdropWhile_append_of_trimmed (hword.after (by simp) _)]
    simp only [List.append_assoc, List.cons_append] at hfound ⊢
    rw [hfound, hid]
    unfold applySqliteColumnUnique
    congr 2
    cases constraint with
    | none => rfl
    | some name => simp

include h in
/-- What `parse_sqlite_check_constraints` takes from a column. -/
theorem parseCheck_column :
    parseCheckSegment table (columnSegment pkCount column) =
      { table with
        columns := updateColumn column.name.toList column.declareCheck table.columns } := by
  rw [columnSegment_eq]
  cases hcheck : column.check with
  | none =>
    have hid : column.declareCheck = fun column => column := by
      funext other
      simp [MappedColumn.declareCheck, hcheck]
    have hnone : (checkPart column).toList = [] := by simp [checkPart, hcheck]
    have hplain : Plain (IsWord "CHECK") (afterNameText pkCount column) :=
      plain_afterNameText h pkCount (constrained_word (by decide))
        (plain_uniquePart (by decide) (by decide) (by decide) _) (hnone ▸ .nil)
        (plain_referencePart (by decide) (by decide) _)
    rw [parseCheckSegment_column table _ (separated_afterNameText pkCount column).rdropWhile,
      afterName, find_rdropWhile (by decide) hplain, hid, updateColumn_id]
  | some expression =>
    have hbefore : Plain (IsWord "CHECK") ((typePart pkCount column).toList ++
        ((uniquePart column).toList ++ (defaultPart column).toList)) :=
      ((plain_typePart h pkCount).mono (constrained_word (by decide))).append
        ((plain_uniquePart (by decide) (by decide) (by decide) _).append
          ((plain_defaultPart h).mono (constrained_word (by decide)))
          (separated_defaultPart column))
        ((separated_uniquePart column).append (separated_defaultPart column))
    have hbefore' : Separated ((typePart pkCount column).toList ++
        ((uniquePart column).toList ++ (defaultPart column).toList)) :=
      (separated_typePart pkCount column).append
        ((separated_uniquePart column).append (separated_defaultPart column))
    have hpart : (checkPart column).toList =
        ' ' :: ("CHECK".toList ++ ' ' :: '(' :: (expression.toList ++ [')'])) := by
      simp [checkPart, hcheck, columnCheckSql_toList]
    have htext : afterNameText pkCount column =
        ((typePart pkCount column).toList ++ ((uniquePart column).toList ++
          ((defaultPart column).toList ++
            ' ' :: ("CHECK".toList ++ ' ' :: '(' :: expression.toList)))) ++ [')'] ++
          (referencePart column).toList := by
      unfold afterNameText
      rw [hpart]
      simp only [List.append_assoc, List.cons_append]
    have hid : column.declareCheck = fun other =>
        { other with check := some (String.ofList (trimSqlView expression.toList)) } := by
      funext other
      simp [MappedColumn.declareCheck, hcheck]
    have hfound := parseCheckSegment_found table column.name
      ((referencePart column).toList.rdropWhile isSpace) hbefore' hbefore
      (h.check expression hcheck)
    rw [htext, rdropWhile_append_of_trimmed (trimmed_concat (by decide) _)]
    simp only [List.append_assoc, List.cons_append, List.nil_append] at hfound ⊢
    rw [hfound, hid]

include h in
/-- What stands before the reference of a column, for the words that do not stand there. -/
theorem plain_beforeReference {bad : List Char → Prop}
    (hbad : ∀ token, bad token → Constrained token) (hspace : ¬bad [' '])
    (hcheck : ¬bad "CHECK".toList) (hunique : Plain bad (uniquePart column).toList) :
    Plain bad ((typePart pkCount column).toList ++ ((uniquePart column).toList ++
      ((defaultPart column).toList ++ (checkPart column).toList))) :=
  ((plain_typePart h pkCount).mono hbad).append
    (hunique.append
      (((plain_defaultPart h).mono hbad).append (plain_checkPart hspace hcheck h)
        (separated_checkPart column))
      ((separated_defaultPart column).append (separated_checkPart column)))
    ((separated_uniquePart column).append
      ((separated_defaultPart column).append (separated_checkPart column)))

include h in
/-- The name of the reference is not taken for the name of the `UNIQUE`. -/
theorem constraintNameForReference_column (reference : ReferenceAnnotation) {target : Cursor}
    (htarget : target.pos = (quotedName column.name).length +
      ((typePart pkCount column).toList ++ ((uniquePart column).toList ++
        ((defaultPart column).toList ++ (checkPart column).toList))).length +
      (naming (optionalText reference.constraintName)).length + 1) (rest : List Char) :
    constraintNameForReference (quotedName column.name ++
        ((typePart pkCount column).toList ++ ((uniquePart column).toList ++
          ((defaultPart column).toList ++ (checkPart column).toList)) ++
            (naming (optionalText reference.constraintName) ++
              ' ' :: ("REFERENCES".toList ++ rest)))) target =
      (optionalText reference.constraintName).map String.toList := by
  have hname := plain_quotedName (IsWord "CONSTRAINT") column.name
  have htype := (plain_typePart h pkCount).mono
    (constrained_word (by decide : "CONSTRAINT" ∈ _))
  have hreferences : ∀ ch ∈ ("REFERENCES".toList ++ rest).head?, isSpace ch = false := by
    intro ch hch
    obtain rfl : 'R' = ch := by simpa using hch
    decide
  have hquiet : Plain (IsWord "CONSTRAINT") (uniquePart column).toList →
      constraintNameForReference (quotedName column.name ++
          ((typePart pkCount column).toList ++ ((uniquePart column).toList ++
            ((defaultPart column).toList ++ (checkPart column).toList)) ++
              (naming (optionalText reference.constraintName) ++
                ' ' :: ("REFERENCES".toList ++ rest)))) target =
        (optionalText reference.constraintName).map String.toList := by
    intro hunique
    have hbefore := plain_beforeReference h pkCount (constrained_word (by decide)) (by decide)
      (by decide) hunique
    unfold constraintNameForReference Cursor.start
    rw [← List.append_assoc]
    apply constraintNameBefore_naming (hname.append hbefore
      ((separated_typePart pkCount column).append ((separated_uniquePart column).append
        ((separated_defaultPart column).append (separated_checkPart column))))) _ hreferences
    simp only [htarget, List.length_append]
    omega
  cases hunique : column.unique with
  | none =>
    have hnone : (uniquePart column).toList = [] := by simp [uniquePart, hunique]
    exact hquiet (hnone ▸ .nil)
  | some constraint =>
    have hpart : (uniquePart column).toList = naming constraint ++ ' ' :: "UNIQUE".toList := by
      simp [uniquePart, hunique, columnUniqueSql_toList]
    have hword := plain_word "UNIQUE" (by decide) (by decide : ¬IsWord "CONSTRAINT" _) .nil
      separated_nil
    rw [List.append_nil] at hword
    cases constraint with
    | none => exact hquiet (hpart ▸ plain_space (by decide) hword)
    | some constraint =>
      have hsecond : Plain (IsWord "CONSTRAINT") ("UNIQUE".toList ++
          ((defaultPart column).toList ++ (checkPart column).toList)) :=
        hword.append
          (((plain_defaultPart h).mono (constrained_word (by decide))).append
            (plain_checkPart (by decide) (by decide) h) (separated_checkPart column))
          ((separated_defaultPart column).append (separated_checkPart column))
      have hspace : ∀ ch ∈ ("UNIQUE".toList ++ ((defaultPart column).toList ++
          (checkPart column).toList) ++ (naming (optionalText reference.constraintName) ++
            ' ' :: ("REFERENCES".toList ++ rest))).head?, isSpace ch = false := by
        intro ch hch
        obtain rfl : 'U' = ch := by simpa using hch
        decide
      have htext : quotedName column.name ++
          ((typePart pkCount column).toList ++ ((uniquePart column).toList ++
            ((defaultPart column).toList ++ (checkPart column).toList)) ++
              (naming (optionalText reference.constraintName) ++
                ' ' :: ("REFERENCES".toList ++ rest))) =
          quotedName column.name ++ (typePart pkCount column).toList ++ (naming (some constraint) ++
            ' ' :: ("UNIQUE".toList ++ ((defaultPart column).toList ++ (checkPart column).toList) ++
              (naming (optionalText reference.constraintName) ++
                ' ' :: ("REFERENCES".toList ++ rest)))) := by
        rw [hpart]
        simp only [List.append_assoc, List.cons_append]
      obtain ⟨n, hn⟩ : ∃ n, (quotedName column.name ++ (typePart pkCount column).toList ++
          (naming (some constraint) ++ ' ' :: ("UNIQUE".toList ++
            ((defaultPart column).toList ++ (checkPart column).toList) ++
              (naming (optionalText reference.constraintName) ++
                ' ' :: ("REFERENCES".toList ++ rest))))).length = n + 1 :=
        Nat.exists_eq_succ_of_ne_zero (by simp [quotedName])
      rw [htext]
      unfold constraintNameForReference Cursor.start
      rw [hn]
      apply constraintNameBefore_second
        (hname.append htype (separated_typePart pkCount column)) hsecond constraint _ hspace
        hreferences
      rw [htarget, hpart]
      simp only [List.length_append, List.length_cons]
      omega

include h in
/-- What `parse_sqlite_foreign_key_modifiers` takes from a column. -/
theorem parseReference_column :
    parseReferenceSegment table (columnSegment pkCount column) =
      { table with
        columns := updateColumn column.name.toList column.declareReference table.columns } := by
  rw [columnSegment_eq]
  cases hreference : column.reference with
  | none =>
    have hid : column.declareReference = fun column => column := by
      funext other
      simp [MappedColumn.declareReference, hreference]
    have hnone : (referencePart column).toList = [] := by simp [referencePart, hreference]
    have hplain : Plain (IsWord "REFERENCES") (afterNameText pkCount column) :=
      plain_afterNameText h pkCount (constrained_word (by decide))
        (plain_uniquePart (by decide) (by decide) (by decide) _)
        (plain_checkPart (by decide) (by decide) h) (hnone ▸ .nil)
    rw [parseReferenceSegment_column table _ (separated_afterNameText pkCount column).rdropWhile,
      afterName, find_rdropWhile (by decide) hplain, hid, updateColumn_id]
  | some reference =>
    have hpart : (referencePart column).toList =
        naming (optionalText reference.constraintName) ++
          ' ' :: ("REFERENCES".toList ++ (referenceTarget reference ++ deferral reference)) := by
      simp [referencePart, hreference, physicalReferenceSql_toList]
    have htext : afterNameText pkCount column =
        (typePart pkCount column).toList ++ ((uniquePart column).toList ++
          ((defaultPart column).toList ++ (checkPart column).toList)) ++
            (naming (optionalText reference.constraintName) ++
              ' ' :: ("REFERENCES".toList ++ (referenceTarget reference ++ deferral reference))) := by
      unfold afterNameText
      rw [hpart]
      simp only [List.append_assoc]
    have htrimmed : (afterNameText pkCount column).rdropWhile isSpace =
        afterNameText pkCount column := by
      have htarget : Trimmed (afterNameText pkCount column) := by
        rw [htext]
        have hne : referenceTarget reference ++ deferral reference ≠ [] := by
          simp [referenceTarget]
        have hlast := (trimmed_reference reference).after hne (' ' :: "REFERENCES".toList)
        exact (hlast.after (by simp) (naming _)).after (by simp) _
      have hdrop := rdropWhile_append_of_trimmed htarget []
      rwa [List.rdropWhile_nil, List.append_nil] at hdrop
    have hid : column.declareReference = modifyReference reference := by
      funext other
      simp [MappedColumn.declareReference, hreference]
    have hbefore := plain_beforeReference h pkCount (constrained_word
      (by decide : "REFERENCES" ∈ _)) (by decide) (by decide)
      (plain_uniquePart (by decide) (by decide) (by decide) column)
    have hbefore' := (separated_typePart pkCount column).append
      ((separated_uniquePart column).append
        ((separated_defaultPart column).append (separated_checkPart column)))
    rw [htrimmed, htext, hid]
    exact parseReferenceSegment_found table column.name hbefore' hbefore reference
      fun target htarget => constraintNameForReference_column h pkCount reference htarget _

end Columns

end MetalOrm.Native.Ddl
