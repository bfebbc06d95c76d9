import MetalOrm.ForStd.Keyed
import MetalOrm.Native.SqliteIntrospection
import MetalOrm.Spec.DdlRoundTrip

/-!
# Introspection of a fresh schema

`introspect_sqlite` looks for `WHERE` in the text of a partial index and for `AUTOINCREMENT` in the
text of a table, whatever stands before them: a name, a default or a check may contain the word.

## Key results

- `partialIndexWhere_iff`: when the predicate of an index is read back
- `hasAutoincrement_iff`: where a text of `create_table_sql` mentions `AUTOINCREMENT`
- `sqlite_introspection_iff`: when a fresh schema shows no difference
-/

namespace MetalOrm.Native.Ddl

open ForStd (find?_key findWord infix_append_cons findWord_isSome findWord_behind findWord_inside)
open Query (sqliteDialect quoteAnsiIdentifier)
open Schema

/-! ## Words in a text -/

/-- The word stands in the text, in capital letters. -/
def Mentions (word : String) (text : List Char) : Prop := word.toList <:+: uppercase text

instance (word : String) (text : List Char) : Decidable (Mentions word text) :=
  inferInstanceAs (Decidable (_ <:+: _))

/-- A word that neither a quote nor a comma is part of. -/
def NameWord (word : String) : Prop :=
  word.toList ≠ [] ∧ '"' ∉ word.toList ∧ ',' ∉ word.toList ∧ ¬ Mentions word [' ']

instance (word : String) : Decidable (NameWord word) := inferInstanceAs (Decidable (_ ∧ _))

section

variable {word : String} {before after : List Char}

theorem mentions_append_cons {ch : Char} (hch : ch.toUpper ∉ word.toList) :
    Mentions word (before ++ ch :: after) ↔ Mentions word before ∨ Mentions word after := by
  unfold Mentions uppercase
  rw [List.map_append, List.map_cons, infix_append_cons hch]

variable (hword : NameWord word)

include hword

theorem not_mentions_nil : ¬ Mentions word [] :=
  fun h => hword.1 (List.infix_nil.mp h)

/-- A name is written with its quotes doubled: this makes no word. -/
theorem mentions_doubled (name : List Char) :
    Mentions word (before ++ doubled '"' name) ↔ Mentions word (before ++ name) := by
  have hcut : '"'.toUpper ∉ word.toList := hword.2.1
  induction name generalizing before with
  | nil => rfl
  | cons ch name ih =>
    by_cases hch : ch = '"'
    · subst hch
      have htext : doubled '"' ('"' :: name) = '"' :: '"' :: doubled '"' name := rfl
      have hrest := @ih []
      rw [List.nil_append, List.nil_append] at hrest
      have hdouble : Mentions word ('"' :: doubled '"' name) ↔ Mentions word (doubled '"' name) := by
        rw [← List.nil_append ('"' :: _), mentions_append_cons hcut]
        simp [not_mentions_nil hword]
      rw [htext, mentions_append_cons hcut, mentions_append_cons hcut, hdouble]
      exact or_congr_right hrest
    · have htext : doubled '"' (ch :: name) = ch :: doubled '"' name := by simp [doubled, hch]
      rw [htext, List.append_cons, List.append_cons before ch name]
      exact ih

theorem mentions_quotedName (name : String) :
    Mentions word (before ++ (quotedName name ++ after)) ↔
      Mentions word before ∨ Mentions word name.toList ∨ Mentions word after := by
  have hcut : '"'.toUpper ∉ word.toList := hword.2.1
  have hname := @mentions_doubled word [] hword name.toList
  rw [List.nil_append, List.nil_append] at hname
  rw [quotedName_append, mentions_append_cons hcut, mentions_append_cons hcut, hname]

/-- Texts with commas between them. -/
theorem mentions_joined (first : List Char) (others : List (List Char)) :
    Mentions word (joined first others) ↔
      Mentions word first ∨ ∃ other ∈ others, Mentions word (' ' :: other) := by
  have hcut : ','.toUpper ∉ word.toList := hword.2.2.1
  induction others generalizing first with
  | nil => simp [joined]
  | cons second others ih =>
    rw [joined_cons, mentions_append_cons hcut]
    refine (or_congr_right (ih (' ' :: second))).trans ?_
    rw [List.exists_mem_cons_iff]

/-- Names with commas between them. -/
theorem mentions_names (names : List String) :
    Mentions word (before ++ (", ".intercalate (names.map quoteAnsiIdentifier)).toList) ↔
      Mentions word before ∨ ∃ name ∈ names, Mentions word name.toList := by
  have hnil := not_mentions_nil hword
  cases names with
  | nil => simp
  | cons name names =>
    have htexts : (names.map quoteAnsiIdentifier).map String.toList = names.map quotedName := by
      rw [List.map_map]
      exact List.map_congr_left fun name _ => quoteAnsiIdentifier_toList name
    have hjoined : before ++ joined (quotedName name) (names.map quotedName) =
        joined (before ++ (quotedName name ++ [])) (names.map quotedName) := by
      simp [joined]
    have hother : ∀ other : String, Mentions word (' ' :: quotedName other) ↔
        Mentions word other.toList := by
      intro other
      have h := @mentions_quotedName word [' '] [] hword other
      rw [List.append_nil] at h
      simpa [hword.2.2.2, hnil] using h
    rw [List.map_cons, intercalate_toList, quoteAnsiIdentifier_toList, htexts, hjoined,
      mentions_joined hword, mentions_quotedName hword]
    simp only [hnil, or_false, or_assoc, List.exists_mem_cons_iff, List.mem_map, exists_exists_and_eq_and, hother]

end

/-! ## The predicate of an index -/

/-- The text of an index as SQLite keeps it, without the semicolon. -/
def storedIndex (table : String) (index : DatabaseIndex) : String :=
  String.ofList (renderIndex table index sqliteDialect).toList.dropLast

/-- The names in the text of an index. -/
def indexNames (table : String) (index : DatabaseIndex) : List String :=
  index.name :: table :: index.columns

/-- What stands before the predicate, less the closing parenthesis. -/
def indexHead (table : String) (index : DatabaseIndex) : List Char :=
  "CREATE ".toList ++ (if index.unique then "UNIQUE " else "").toList ++
    "INDEX IF NOT EXISTS ".toList ++ (quotedName index.name ++ (" ON ".toList ++
      (quotedName table ++ (" (".toList ++
        (", ".intercalate (index.columns.map quoteAnsiIdentifier)).toList))))

theorem storedIndex_toList (table : String) (index : DatabaseIndex) {predicate : String}
    (h : index.where_ = some predicate) :
    (storedIndex table index).toList =
      indexHead table index ++ ')' :: (" WHERE ".toList ++ predicate.toList) := by
  have htext : (renderIndex table index sqliteDialect).toList =
      indexHead table index ++ ')' :: (" WHERE ".toList ++ predicate.toList) ++ [';'] := by
    unfold renderIndex indexHead
    simp only [h, String.toList_append, sqliteDialect, quoteAnsiIdentifier_toList,
      List.append_assoc]
    rfl
  rw [storedIndex, String.toList_ofList, htext, List.dropLast_concat]

/-- The predicate is looked for among the names that stand before it. -/
theorem mentions_indexHead (table : String) (index : DatabaseIndex) :
    Mentions " WHERE " (indexHead table index) ↔
      ∃ name ∈ indexNames table index, Mentions " WHERE " name.toList := by
  have hword : NameWord " WHERE " := by decide
  have hbegin : ¬ Mentions " WHERE " ("CREATE ".toList ++
      (if index.unique then "UNIQUE " else "").toList ++ "INDEX IF NOT EXISTS ".toList) := by
    cases index.unique <;> decide
  have hon : ¬ Mentions " WHERE " " ON ".toList := by decide
  have hopen : ¬ Mentions " WHERE " " (".toList := by decide
  unfold indexHead indexNames
  rw [mentions_quotedName hword, mentions_quotedName hword, mentions_names hword]
  simp only [hbegin, hon, hopen, false_or, List.exists_mem_cons_iff]

/-- The predicate of an index is read back exactly when no name before it has the word. -/
theorem partialIndexWhere_iff (table : String) (index : DatabaseIndex) {predicate : String}
    (h : index.where_ = some predicate) :
    partialIndexWhere (storedIndex table index) = some predicate ↔
      ∀ name ∈ indexNames table index, ¬ Mentions " WHERE " name.toList := by
  have hcut : ')' ∉ " WHERE ".toList := by decide
  have htext := storedIndex_toList table index h
  have hupper : uppercase (storedIndex table index).toList =
      uppercase (indexHead table index) ++ ')' :: (" WHERE ".toList ++ uppercase predicate.toList) := by
    rw [htext]
    simp [uppercase]
  have hnames : (∀ name ∈ indexNames table index, ¬ Mentions " WHERE " name.toList) ↔
      ¬ Mentions " WHERE " (indexHead table index) := by
    rw [mentions_indexHead]
    simp
  have hlength : (" WHERE ".toList).length = 7 := by decide
  rw [hnames]
  unfold partialIndexWhere
  rw [hupper]
  by_cases hmentions : Mentions " WHERE " (indexHead table index)
  · -- What is found begins before the predicate does, so the text that is left is longer.
    obtain ⟨i, hfound, hle⟩ := @findWord_inside _ _ " WHERE ".toList
      (uppercase (indexHead table index)) (')' :: (" WHERE ".toList ++ uppercase predicate.toList))
      hmentions
    rw [hfound, Option.map_some, Option.some_inj]
    refine iff_of_false (fun heq => ?_) (not_not_intro hmentions)
    have hrest : (storedIndex table index).toList.drop (i + 7) = predicate.toList := by
      rw [← heq, String.toList_ofList]
    have hcount := congrArg List.length hrest
    rw [htext, List.length_drop, List.length_append, List.length_cons, List.length_append,
      hlength] at hcount
    rw [hlength, uppercase, List.length_map] at hle
    omega
  · rw [findWord_behind hcut hmentions]
    have hdrop : (storedIndex table index).toList.drop
        ((uppercase (indexHead table index)).length + 1 + 7) = predicate.toList := by
      rw [htext, uppercase, List.length_map, Nat.add_assoc, ← List.drop_drop, List.drop_left]
      rfl
    rw [Option.map_some, hdrop, String.ofList_toList]
    exact iff_of_true rfl hmentions

/-! ## The identity of a table -/

/-- The text mentions `AUTOINCREMENT`. -/
def MentionsIdentity (text : List Char) : Prop := Mentions "AUTOINCREMENT" text

instance (text : List Char) : Decidable (MentionsIdentity text) :=
  inferInstanceAs (Decidable (Mentions _ _))

theorem hasAutoincrement_eq (sql : String) :
    hasAutoincrement sql = true ↔ MentionsIdentity sql.toList := findWord_isSome

/-- The texts that a member brings into the text of its column. -/
def MappedColumn.texts (column : MappedColumn) : List String :=
  [column.name, columnTypeName sqliteDialect column] ++ column.unique.join.toList ++
    (column.default.map columnDefaultSql).toList ++ column.check.toList ++
    (match column.reference with
      | some reference => [reference.constraintName, reference.table, reference.column]
      | none => [])

/-- The texts that a mapped type brings into the text of its table. -/
def MappedTable.texts (table : MappedTable) : List String :=
  table.name :: (table.columns.flatMap MappedColumn.texts ++
    table.checks.flatMap fun check => check.name.toList ++ [check.expression])

section

variable {before rest : List Char}

theorem identity_nil : ¬ MentionsIdentity [] := by decide

theorem identity_append_cons {ch : Char} (h : ch ∈ [' ', ',', '(', ')', ';']) :
    MentionsIdentity (before ++ ch :: rest) ↔ MentionsIdentity before ∨ MentionsIdentity rest := by
  have hcut : [' ', ',', '(', ')', ';'].all (·.toUpper ∉ "AUTOINCREMENT".toList) = true := by decide
  exact mentions_append_cons (by simpa using List.all_eq_true.mp hcut ch h)

theorem identity_cons {ch : Char} (h : ch ∈ [' ', ',', '(', ')', ';']) :
    MentionsIdentity (ch :: rest) ↔ MentionsIdentity rest := by
  rw [← List.nil_append (ch :: rest), identity_append_cons h]
  simp [identity_nil]

theorem identity_append (h : Separated rest) :
    MentionsIdentity (before ++ rest) ↔ MentionsIdentity before ∨ MentionsIdentity rest := by
  cases rest with
  | nil => simp [identity_nil]
  | cons ch rest =>
    have hch : ch ∈ [' ', ',', '(', ')'] := h ch rfl
    have hmem : ch ∈ [' ', ',', '(', ')', ';'] := by
      simp only [List.mem_cons, List.not_mem_nil, or_false] at hch ⊢
      tauto
    rw [identity_append_cons hmem, identity_cons hmem]

theorem identity_quotedName (name : String) :
    MentionsIdentity (before ++ (quotedName name ++ rest)) ↔
      MentionsIdentity before ∨ MentionsIdentity name.toList ∨ MentionsIdentity rest :=
  mentions_quotedName (by decide) name

theorem identity_naming (name : Option String) :
    MentionsIdentity (naming name) ↔ ∃ text ∈ name, MentionsIdentity text.toList := by
  cases name with
  | none => simp [naming, identity_nil]
  | some name =>
    have htext : naming (some name) = (spaced ["CONSTRAINT"] ++ [' ']) ++ (quotedName name ++ []) := by
      simp [naming]
    have hword : ¬ MentionsIdentity (spaced ["CONSTRAINT"] ++ [' ']) := by decide
    rw [htext, identity_quotedName]
    simp [hword, identity_nil]

end

/-! ## What a column mentions -/

theorem identity_typePart (pkCount : Nat) (column : MappedColumn) :
    MentionsIdentity (typePart pkCount column).toList ↔
      MentionsIdentity (columnTypeName sqliteDialect column).toList ∨ column.generated = true := by
  have hseparated : ∀ (condition : Prop) [Decidable condition] {text : String},
      text.toList.head? = some ' ' → Separated (if condition then text else "").toList := by
    intro condition _ text htext
    split
    · intro ch hch
      rw [htext] at hch
      obtain rfl : ' ' = ch := by simpa using hch
      simp
    · exact separated_nil
  have hkey : ¬ MentionsIdentity (if column.primaryKey && pkCount = 1 then " PRIMARY KEY"
      else "").toList := by
    split <;> decide
  have hidentity : MentionsIdentity (if column.generated then " AUTOINCREMENT" else "").toList ↔
      column.generated = true := by
    cases column.generated <;> simp only [if_true, if_false, Bool.false_eq_true] <;> decide
  have hnull : ¬ MentionsIdentity (if !column.optional && (!column.primaryKey || pkCount > 1) then
      " NOT NULL" else "").toList := by
    split <;> decide
  have hspace : " ".toList = [' '] := by decide
  unfold typePart
  simp only [String.toList_append]
  rw [identity_append (hseparated _ (by decide)), identity_append (hseparated _ (by decide)),
    identity_append (hseparated _ (by decide)), hidentity, hspace, List.cons_append,
    List.nil_append, identity_cons (by decide)]
  simp only [hkey, hnull, or_false]

theorem identity_uniquePart (column : MappedColumn) :
    MentionsIdentity (uniquePart column).toList ↔
      ∃ text ∈ column.unique.join, MentionsIdentity text.toList := by
  unfold uniquePart
  cases column.unique with
  | none => simp [identity_nil]
  | some name =>
    have hword : ¬ MentionsIdentity "UNIQUE".toList := by decide
    dsimp only
    rw [columnUniqueSql_toList, identity_append_cons (by decide), identity_naming]
    simp only [hword, or_false, Option.join_some]

theorem identity_defaultPart (column : MappedColumn) :
    MentionsIdentity (defaultPart column).toList ↔
      ∃ text ∈ column.default.map columnDefaultSql, MentionsIdentity text.toList := by
  unfold defaultPart
  cases column.default with
  | none => simp [identity_nil]
  | some value =>
    have hdefault : " DEFAULT ".toList = " DEFAULT".toList ++ [' '] := by decide
    have hword : ¬ MentionsIdentity " DEFAULT".toList := by decide
    dsimp only
    rw [String.toList_append, hdefault, List.append_assoc, List.singleton_append,
      identity_append_cons (by decide)]
    simp only [hword, false_or, Option.map_some, Option.mem_some_iff, exists_eq_left']

theorem identity_checkPart (column : MappedColumn) :
    MentionsIdentity (checkPart column).toList ↔
      ∃ text ∈ column.check, MentionsIdentity text.toList := by
  unfold checkPart
  cases column.check with
  | none => simp [identity_nil]
  | some expression =>
    have hword : ¬ MentionsIdentity "CHECK".toList := by decide
    dsimp only
    rw [columnCheckSql_toList, identity_cons (by decide), identity_append_cons (by decide),
      identity_cons (by decide), identity_append_cons (by decide)]
    simp only [hword, identity_nil, or_false, false_or, Option.mem_some_iff, exists_eq_left']

theorem identity_optionalText (text : String) :
    (∃ name ∈ optionalText text, MentionsIdentity name.toList) ↔ MentionsIdentity text.toList := by
  unfold optionalText
  split
  · rename_i hempty
    have hnil : text = "" := by simpa using hempty
    subst hnil
    simp [identity_nil]
  · simp

theorem identity_reference (reference : ReferenceAnnotation) :
    MentionsIdentity (physicalReferenceSql sqliteDialect reference).toList ↔
      MentionsIdentity reference.constraintName.toList ∨
        MentionsIdentity reference.table.toList ∨ MentionsIdentity reference.column.toList := by
  have hword : ¬ MentionsIdentity "REFERENCES".toList := by decide
  have hactions : ¬ MentionsIdentity (spaced (reference.onDelete.words "DELETE") ++
      spaced (reference.onUpdate.words "UPDATE")) := by
    cases reference.onDelete <;> cases reference.onUpdate <;> decide
  have hdeferral : ¬ MentionsIdentity (deferral reference) := by
    unfold deferral
    cases reference.deferrable <;> decide
  have htarget : MentionsIdentity (referenceTarget reference) ↔
      MentionsIdentity reference.table.toList ∨ MentionsIdentity reference.column.toList := by
    have htable := @identity_quotedName [] (' ' :: '(' :: (quotedName reference.column ++ ')' ::
      (spaced (reference.onDelete.words "DELETE") ++ spaced (reference.onUpdate.words "UPDATE"))))
      reference.table
    have hcolumn := @identity_quotedName [] (')' :: (spaced (reference.onDelete.words "DELETE") ++
      spaced (reference.onUpdate.words "UPDATE"))) reference.column
    rw [List.nil_append] at htable hcolumn
    unfold referenceTarget
    rw [identity_cons (by decide), htable, identity_cons (by decide), identity_cons (by decide),
      hcolumn, identity_cons (by decide)]
    simp only [hactions, identity_nil, or_false, false_or]
  rw [physicalReferenceSql_toList, identity_append_cons (by decide),
    identity_append ((separated_referenceTarget reference).append (separated_deferral reference)),
    identity_append (separated_deferral reference), identity_naming, identity_optionalText, htarget]
  simp only [hword, hdeferral, or_false, false_or]

theorem identity_referencePart (column : MappedColumn) :
    MentionsIdentity (referencePart column).toList ↔
      ∃ text ∈ (match column.reference with
        | some reference => [reference.constraintName, reference.table, reference.column]
        | none => []), MentionsIdentity text.toList := by
  unfold referencePart
  cases column.reference with
  | none => simp [identity_nil]
  | some reference => simp [identity_reference]

/-- A column mentions `AUTOINCREMENT` where it is generated, or one of its texts does. -/
theorem identity_columnSql (pkCount : Nat) (column : MappedColumn) :
    MentionsIdentity (columnSql sqliteDialect pkCount column).toList ↔
      column.generated = true ∨ ∃ text ∈ column.texts, MentionsIdentity text.toList := by
  have hreference := separated_referencePart column
  have hcheck := (separated_checkPart column).append hreference
  have hdefault := (separated_defaultPart column).append hcheck
  have hunique := (separated_uniquePart column).append hdefault
  have hname := @identity_quotedName [] ((typePart pkCount column).toList ++
    ((uniquePart column).toList ++ ((defaultPart column).toList ++
      ((checkPart column).toList ++ (referencePart column).toList)))) column.name
  rw [List.nil_append] at hname
  rw [columnSql_toList, hname, identity_append hunique, identity_append hdefault,
    identity_append hcheck, identity_append hreference, identity_typePart, identity_uniquePart,
    identity_defaultPart, identity_checkPart, identity_referencePart]
  simp only [identity_nil, MappedColumn.texts, List.mem_append, List.mem_cons, List.not_mem_nil,
    Option.mem_toList, or_false, false_or, or_and_right, exists_or, exists_eq_left, or_assoc]
  exact (or_congr_right or_left_comm).trans or_left_comm

/-! ## What a table mentions -/

theorem identity_primaryKeyText (names : List String) :
    MentionsIdentity (primaryKeyText names) ↔ ∃ name ∈ names, MentionsIdentity name.toList := by
  have hprimary : ¬ MentionsIdentity "PRIMARY".toList := by decide
  have hkey : ¬ MentionsIdentity "KEY".toList := by decide
  have hnames := @mentions_names "AUTOINCREMENT" [] (by decide) names
  rw [List.nil_append] at hnames
  unfold primaryKeyText
  rw [identity_append_cons (by decide), identity_append_cons (by decide), identity_cons (by decide),
    identity_append_cons (by decide)]
  unfold MentionsIdentity at hprimary hkey ⊢
  simp only [hprimary, hkey, hnames, not_mentions_nil (show NameWord "AUTOINCREMENT" by decide),
    or_false, false_or]

theorem identity_tableCheckText (check : TableCheck) :
    MentionsIdentity (tableCheckText check) ↔
      ∃ text ∈ check.name.toList ++ [check.expression], MentionsIdentity text.toList := by
  have hconstraint : ¬ MentionsIdentity ("CONSTRAINT".toList ++ [' ']) := by decide
  have hword : ¬ MentionsIdentity "CHECK".toList := by decide
  have hgroup : MentionsIdentity ("CHECK".toList ++ ' ' :: '(' :: (check.expression.toList ++ [')'])) ↔
      MentionsIdentity check.expression.toList := by
    rw [identity_append_cons (by decide), identity_cons (by decide), identity_append_cons (by decide)]
    simp only [hword, identity_nil, or_false, false_or]
  unfold tableCheckText
  cases check.name with
  | none => simpa using hgroup
  | some name =>
    have htext : "CONSTRAINT".toList ++ ' ' :: (quotedName name ++ [' ']) ++
        ("CHECK".toList ++ ' ' :: '(' :: (check.expression.toList ++ [')'])) =
          ("CONSTRAINT".toList ++ [' ']) ++ (quotedName name ++
            ' ' :: ("CHECK".toList ++ ' ' :: '(' :: (check.expression.toList ++ [')']))) := by
      simp
    dsimp only
    rw [htext, identity_quotedName, identity_cons (by decide), hgroup]
    simp only [hconstraint, false_or, Option.toList_some, List.singleton_append, List.mem_cons,
      List.not_mem_nil, or_false, or_and_right, exists_or, exists_eq_left]

theorem identity_joined (first : List Char) (others : List (List Char)) :
    MentionsIdentity (joined first others) ↔
      MentionsIdentity first ∨ ∃ other ∈ others, MentionsIdentity other := by
  have hspace : ∀ other, Mentions "AUTOINCREMENT" (' ' :: other) ↔ MentionsIdentity other :=
    fun other => identity_cons (by decide)
  have h := @mentions_joined "AUTOINCREMENT" (by decide) first others
  simp only [hspace] at h
  exact h

/-- The body of a table: its columns, and its own segments. -/
theorem identity_body (columns : List String) (others : List (List Char)) :
    MentionsIdentity ((", ".intercalate columns).toList ++
        others.flatMap fun text => ", ".toList ++ text) ↔
      (∃ column ∈ columns, MentionsIdentity column.toList) ∨
        ∃ other ∈ others, MentionsIdentity other := by
  cases columns with
  | nil =>
    have h := identity_joined [] others
    simp only [identity_nil, false_or] at h
    simpa [joined] using h
  | cons column columns =>
    have htext : (", ".intercalate (column :: columns)).toList ++
        (others.flatMap fun text => ", ".toList ++ text) =
          joined column.toList (columns.map String.toList ++ others) := by
      rw [intercalate_toList, joined, joined, List.flatMap_append, List.append_assoc]
    rw [htext, identity_joined]
    simp only [List.mem_append, List.mem_map, or_and_right, exists_or, exists_exists_and_eq_and,
      List.exists_mem_cons_iff, or_assoc]

/-- The segments of the table mention names of its columns, and what its checks mention. -/
theorem identity_tableTexts (table : MappedTable) :
    (∃ text ∈ tableTexts table, MentionsIdentity text) →
      ∃ text ∈ table.texts, MentionsIdentity text.toList := by
  rintro ⟨text, htext, hmentions⟩
  rw [tableTexts, List.mem_append] at htext
  obtain hkey | hcheck := htext
  · split at hkey
    · cases List.mem_singleton.mp hkey
      obtain ⟨name, hname, hmentions⟩ := (identity_primaryKeyText _).mp hmentions
      obtain ⟨column, hcolumn, rfl⟩ := List.mem_map.mp hname
      refine ⟨column.name, List.mem_cons_of_mem _ (List.mem_append_left _ ?_), hmentions⟩
      exact List.mem_flatMap.mpr ⟨column, (List.mem_filter.mp hcolumn).1, by simp [MappedColumn.texts]⟩
    · cases hkey
  · obtain ⟨check, hmem, rfl⟩ := List.mem_map.mp hcheck
    obtain ⟨text, htext, hmentions⟩ := (identity_tableCheckText check).mp hmentions
    refine ⟨text, List.mem_cons_of_mem _ (List.mem_append_right _ ?_), hmentions⟩
    exact List.mem_flatMap.mpr ⟨check, hmem, htext⟩

/-- `AUTOINCREMENT` is found where a column is generated, or a text of the mapping mentions it. -/
theorem hasAutoincrement_iff (table : MappedTable) :
    hasAutoincrement (createTableSql sqliteDialect table) = true ↔
      (∃ column ∈ table.columns, column.generated = true) ∨
        ∃ text ∈ table.texts, MentionsIdentity text.toList := by
  have hbegin : ¬ MentionsIdentity "CREATE TABLE IF NOT EXISTS ".toList := by decide
  have hend : ¬ MentionsIdentity [';'] := by decide
  have hcolumns : (∃ text ∈ table.columns.map (columnSql sqliteDialect (primaryKeyCount table)),
      MentionsIdentity text.toList) ↔ ∃ column ∈ table.columns, column.generated = true ∨
        ∃ text ∈ column.texts, MentionsIdentity text.toList := by
    simp only [List.mem_map, exists_exists_and_eq_and, identity_columnSql]
  rw [hasAutoincrement_eq, createTableSql_toList, identity_quotedName, identity_cons (by decide),
    identity_cons (by decide), identity_append_cons (by decide), identity_body, hcolumns]
  simp only [hbegin, hend, or_false, false_or]
  constructor
  · rintro (hname | ⟨column, hcolumn, hgenerated | ⟨text, htext, hmentions⟩⟩ | htexts)
    · exact .inr ⟨table.name, List.mem_cons_self, hname⟩
    · exact .inl ⟨column, hcolumn, hgenerated⟩
    · refine .inr ⟨text, List.mem_cons_of_mem _ (List.mem_append_left _ ?_), hmentions⟩
      exact List.mem_flatMap.mpr ⟨column, hcolumn, htext⟩
    · exact .inr (identity_tableTexts table htexts)
  · rintro (⟨column, hcolumn, hgenerated⟩ | ⟨text, htext, hmentions⟩)
    · exact .inr (.inl ⟨column, hcolumn, .inl hgenerated⟩)
    · obtain rfl | htext := List.mem_cons.mp htext
      · exact .inl hmentions
      · obtain hcolumn | hcheck := List.mem_append.mp htext
        · obtain ⟨column, hcolumn, htext⟩ := List.mem_flatMap.mp hcolumn
          exact .inr (.inl ⟨column, hcolumn, .inr ⟨text, htext, hmentions⟩⟩)
        · obtain ⟨check, hcheck, htext⟩ := List.mem_flatMap.mp hcheck
          refine .inr (.inr ⟨tableCheckText check, ?_, ?_⟩)
          · exact List.mem_append_right _ (List.mem_map_of_mem hcheck)
          · exact (identity_tableCheckText check).mpr ⟨text, htext, hmentions⟩

/-- What `create_table_sql` asserts of generated columns. -/
def MappedTable.KeysValid (table : MappedTable) : Prop :=
  ∀ column ∈ table.columns, column.generated = true →
    column.primaryKey = true ∧ primaryKeyCount table = 1

/-- The identity of a table can be told: a column is generated, or there is no primary key, or no
    text of the mapping mentions `AUTOINCREMENT`. -/
def MappedTable.IdentityClear (table : MappedTable) : Prop :=
  (∃ column ∈ table.columns, column.generated = true) ∨
    (∀ column ∈ table.columns, column.primaryKey = false) ∨
      ∀ text ∈ table.texts, ¬ MentionsIdentity text.toList

/-- Where a column is generated, it is the primary key. -/
theorem MappedTable.KeysValid.generated {table : MappedTable} (h : table.KeysValid)
    {column other : MappedColumn} (hcolumn : column ∈ table.columns)
    (hgenerated : column.generated = true) (hother : other ∈ table.columns)
    (hkey : other.primaryKey = true) : other = column := by
  obtain ⟨hcolumnKey, hcount⟩ := h column hcolumn hgenerated
  rw [primaryKeyCount, List.countP_eq_length_filter] at hcount
  obtain ⟨only, honly⟩ := List.length_eq_one_iff.mp hcount
  have hmem : ∀ c ∈ table.columns, c.primaryKey = true → c = only := by
    intro c hc hcKey
    have : c ∈ table.columns.filter (·.primaryKey) := List.mem_filter.mpr ⟨hc, hcKey⟩
    rw [honly] at this
    exact List.mem_singleton.mp this
  rw [hmem other hother hkey, hmem column hcolumn hcolumnKey]

/-- The detection is right for every column of the primary key exactly when the identity can be
    told. -/
theorem identityClear_iff {table : MappedTable} (h : table.KeysValid) :
    (∀ column ∈ table.columns, column.primaryKey = true →
      hasAutoincrement (createTableSql sqliteDialect table) = column.generated) ↔
        table.IdentityClear := by
  have hfound := hasAutoincrement_iff table
  constructor
  · intro hright
    by_cases hsome : ∃ column ∈ table.columns, column.generated = true
    · exact .inl hsome
    · by_cases hkey : ∀ column ∈ table.columns, column.primaryKey = false
      · exact .inr (.inl hkey)
      · -- A column of the primary key is not generated, so the word is not found.
        obtain ⟨column, hkey⟩ := not_forall.mp hkey
        obtain ⟨hcolumn, hkey⟩ := Classical.not_imp.mp hkey
        have hno := hright column hcolumn (by simpa using hkey)
        have hplain : column.generated = false := by
          by_contra hgenerated
          exact hsome ⟨column, hcolumn, by simpa using hgenerated⟩
        rw [hplain] at hno
        refine .inr (.inr fun text htext hmentions => ?_)
        rw [hfound.mpr (.inr ⟨text, htext, hmentions⟩)] at hno
        cases hno
  · rintro (⟨column, hcolumn, hgenerated⟩ | hkey | htexts) other hother hotherKey
    · rw [h.generated hcolumn hgenerated hother hotherKey, hgenerated]
      exact hfound.mpr (.inl ⟨column, hcolumn, hgenerated⟩)
    · rw [hkey other hother] at hotherKey
      cases hotherKey
    · cases hgenerated : other.generated with
      | true => exact hfound.mpr (.inl ⟨other, hother, hgenerated⟩)
      | false =>
        rw [← Bool.not_eq_true, hfound, not_or]
        refine ⟨?_, ?_⟩
        · rintro ⟨column, hcolumn, hcolumnGenerated⟩
          rw [h.generated hcolumn hcolumnGenerated hother hotherKey, hcolumnGenerated] at hgenerated
          cases hgenerated
        · rintro ⟨text, htext, hmentions⟩
          exact htexts text htext hmentions

/-! ## What is kept by the parsers -/

/-- What the parsers of the text leave as it is. -/
def identities (table : DatabaseTable) : List (String × Bool) :=
  table.columns.map fun column => (column.name, column.autoIncrement)

theorem identities_updateColumn (table : DatabaseTable) {name : List Char}
    {change : DatabaseColumn → DatabaseColumn}
    (hchange : ∀ column, (change column).name = column.name ∧
      (change column).autoIncrement = column.autoIncrement) :
    identities { table with columns := updateColumn name change table.columns } =
      identities table := by
  unfold identities
  dsimp only
  induction table.columns with
  | nil => rfl
  | cons column columns ih =>
    rw [updateColumn]
    split
    · rw [List.map_cons, List.map_cons, (hchange column).1, (hchange column).2]
    · rw [List.map_cons, List.map_cons, ih]

theorem identities_unique (table : DatabaseTable) (segment : List Char) :
    identities (parseUniqueSegment table segment) = identities table ∧
      (parseUniqueSegment table segment).name = table.name := by
  have hunique : ∀ name constraint, identities (applySqliteColumnUnique table name constraint) =
      identities table := fun _ _ => identities_updateColumn table fun _ => ⟨rfl, rfl⟩
  unfold parseUniqueSegment
  split
  · exact ⟨rfl, rfl⟩
  · dsimp only
    split_ifs <;> repeat' split
    all_goals first
      | exact ⟨rfl, rfl⟩
      | exact ⟨hunique _ _, rfl⟩

theorem identities_check (table : DatabaseTable) (segment : List Char) :
    identities (parseCheckSegment table segment) = identities table ∧
      (parseCheckSegment table segment).name = table.name := by
  unfold parseCheckSegment
  split
  · exact ⟨rfl, rfl⟩
  · dsimp only
    split_ifs <;> repeat' split
    all_goals first
      | exact ⟨rfl, rfl⟩
      | exact ⟨identities_updateColumn table fun _ => ⟨rfl, rfl⟩, rfl⟩

theorem identities_reference (table : DatabaseTable) (segment : List Char) :
    identities (parseReferenceSegment table segment) = identities table ∧
      (parseReferenceSegment table segment).name = table.name := by
  have hmodifiers : ∀ name reference constraint, identities (applySqliteReferenceModifiers table name
      segment reference constraint) = identities table :=
    fun _ _ _ => identities_updateColumn table fun _ => ⟨rfl, rfl⟩
  unfold parseReferenceSegment
  split
  · exact ⟨rfl, rfl⟩
  · dsimp only
    split_ifs <;> repeat' split
    all_goals first
      | exact ⟨rfl, rfl⟩
      | exact ⟨hmodifiers _ _ _, rfl⟩

theorem identities_foreignKey (table : DatabaseTable) (info : ForeignKeyInfo) :
    identities (introspectForeignKey table info) = identities table ∧
      (introspectForeignKey table info).name = table.name := by
  unfold introspectForeignKey
  split
  · exact ⟨identities_updateColumn table fun _ => ⟨rfl, rfl⟩, rfl⟩
  · exact ⟨rfl, rfl⟩

theorem identities_foldl {α : Type} {step : DatabaseTable → α → DatabaseTable}
    (hstep : ∀ table item, identities (step table item) = identities table ∧
      (step table item).name = table.name) (items : List α) (table : DatabaseTable) :
    identities (items.foldl step table) = identities table ∧
      (items.foldl step table).name = table.name := by
  induction items generalizing table with
  | nil => exact ⟨rfl, rfl⟩
  | cons item items ih =>
    obtain ⟨hidentities, hname⟩ := hstep table item
    obtain ⟨hrest, hrestName⟩ := ih (step table item)
    exact ⟨hrest.trans hidentities, hrestName.trans hname⟩

/-- The names of the columns and whether they are generated are those of the first pragma. -/
theorem identities_introspectTable (comments : SchemaComments) (rows : TableRows) :
    identities (introspectTable comments rows) = (rows.columns.filterMap (introspectColumn comments
        rows.name (hasAutoincrement (rows.sql.getD "")))).map
          (fun column => (column.name, column.autoIncrement)) ∧
      (introspectTable comments rows).name = rows.name := by
  unfold introspectTable parseSqliteForeignKeyModifiers parseSqliteCheckConstraints
    parseSqliteUniqueConstraints
  dsimp only
  refine ⟨?_, ?_⟩
  · refine (identities_foldl identities_reference _ _).1.trans ?_
    refine (identities_foldl identities_foreignKey _ _).1.trans ?_
    refine (identities_foldl identities_check _ _).1.trans ?_
    exact (identities_foldl identities_unique _ _).1
  · refine (identities_foldl identities_reference _ _).2.trans ?_
    refine (identities_foldl identities_foreignKey _ _).2.trans ?_
    refine (identities_foldl identities_check _ _).2.trans ?_
    exact (identities_foldl identities_unique _ _).2

/-! ## A fresh schema -/

/-- What SQLite tells of an index that it has just created. -/
def indexRow (table : String) (index : DatabaseIndex) : IndexInfo where
  name := some index.name
  unique := if index.unique then 1 else 0
  origin := some "c"
  partial_ := if index.where_.isSome then 1 else 0
  columns := index.columns.map some
  sql := some (storedIndex table index)

/-- A mapped type with its indexes, and what SQLite tells of the table when the statements have
    run: its own indexes are those of the keys, and the names that it reserves are not used. -/
structure FreshTable where
  table : MappedTable
  indexes : List DatabaseIndex
  rows : TableRows
  automatic : List IndexInfo
  keys : table.KeysValid
  name : rows.name = table.name
  sql : rows.sql = some (createTableSql sqliteDialect table)
  columns : List.Forall₂ (fun column info => info.name = some column.name ∧
    (0 < info.pk ↔ column.primaryKey = true)) table.columns rows.columns
  created : rows.indexes.Perm (indexes.map (indexRow table.name) ++ automatic)
  nodup : (indexes.map (·.name)).Nodup
  unreserved : ∀ index ∈ indexes, ¬ "sqlite_autoindex_".toList.isPrefixOf index.name.toList
  reserved : ∀ info ∈ automatic, introspectIndex info = none

/-- Mapped types with different names. -/
structure FreshSchema where
  tables : List FreshTable
  nodup : (tables.map (·.table.name)).Nodup

/-- The expected table, with its indexes. -/
def FreshTable.expected (fresh : FreshTable) : ExpectedTable where
  table := { expectedTable sqliteDialect fresh.table with indexes := fresh.indexes }
  createTableSql := createTableSql sqliteDialect fresh.table
  createIndexSql := fresh.indexes.map fun index =>
    renderIndex fresh.table.name index sqliteDialect

/-- `add_expected_index` makes the expected table of the one without indexes. -/
theorem foldl_addIndex (fresh : FreshTable) :
    fresh.indexes.foldl (addIndex sqliteDialect)
      { table := expectedTable sqliteDialect fresh.table
        createTableSql := createTableSql sqliteDialect fresh.table } = fresh.expected := by
  have hadd : ∀ (indexes : List DatabaseIndex) (entry : ExpectedTable),
      indexes.foldl (addIndex sqliteDialect) entry =
        { entry with
          table := { entry.table with indexes := entry.table.indexes ++ indexes }
          createIndexSql := entry.createIndexSql ++ indexes.map fun index =>
            renderIndex entry.table.name index sqliteDialect } := by
    intro indexes
    induction indexes with
    | nil => simp
    | cons index indexes ih =>
      intro entry
      rw [List.foldl_cons, ih]
      simp [addIndex]
  rw [hadd]
  rfl

/-- The schema that the mapped types declare. -/
def FreshSchema.expected (schema : FreshSchema) : ExpectedSchema :=
  { tables := schema.tables.map FreshTable.expected }

/-- The schema that is introspected. -/
def FreshSchema.introspected (schema : FreshSchema) (comments : SchemaComments) : DatabaseSchema :=
  { tables := schema.tables.map fun fresh => introspectTable comments fresh.rows }

/-- The diff shows no difference of an index. -/
def SameIndexes (expected actual : DatabaseTable) (options : SchemaDiffOptions) : Prop :=
  (∀ index ∈ expected.indexes, diffSqliteIndex expected actual index = .empty) ∧
    ∀ index ∈ actual.indexes, dropIndexChange expected options index = .empty

/-- The diff shows no difference of an identity. -/
def SameIdentity (expected actual : DatabaseTable) : Prop :=
  ∀ column ∈ expected.columns, ∀ old ∈ findColumn actual column.name,
    (diffColumn column old).autoIncrementChanged = false

/-- The diff of two schemas shows no difference of an index or an identity. -/
def NoDifference (expected : ExpectedSchema) (actual : DatabaseSchema)
    (options : SchemaDiffOptions) : Prop :=
  ∀ wanted ∈ expected.tables, ∀ table ∈ actual.tables.find? (·.name = wanted.table.name),
    SameIndexes wanted.table table options ∧ SameIdentity wanted.table table

/-- The names of the index leave the predicate readable. -/
def IndexClear (table : String) (index : DatabaseIndex) : Prop :=
  ∀ name ∈ indexNames table index, ¬ Mentions " WHERE " name.toList

/-- Nothing in the table is taken for something else. -/
def FreshTable.Clear (fresh : FreshTable) : Prop :=
  (∀ index ∈ fresh.indexes, index.where_.isSome = true → IndexClear fresh.table.name index) ∧
    fresh.table.IdentityClear

/-- The index as it is read back. -/
def readIndex (table : String) (index : DatabaseIndex) : DatabaseIndex :=
  { index with
    where_ := if index.where_.isSome then partialIndexWhere (storedIndex table index) else none }

theorem introspectIndex_indexRow (table : String) {index : DatabaseIndex}
    (h : ¬ "sqlite_autoindex_".toList.isPrefixOf index.name.toList) :
    introspectIndex (indexRow table index) = some (readIndex table index) := by
  have horigin : ¬ (some "c" : Option String).getD "" = "pk" := by decide
  unfold introspectIndex indexRow readIndex
  obtain ⟨name, columns, unique, where_⟩ := index
  dsimp only at h ⊢
  rw [Option.bind_some, if_neg (by simpa [horigin] using h)]
  cases unique <;> cases where_ <;> simp

section

variable (comments : SchemaComments) (fresh : FreshTable)

theorem indexes_introspectTable : (introspectTable comments fresh.rows).indexes.Perm
    (fresh.indexes.map (readIndex fresh.table.name)) := by
  have hperm := fresh.created.filterMap introspectIndex
  rw [List.filterMap_append] at hperm
  have hautomatic : fresh.automatic.filterMap introspectIndex = [] :=
    List.filterMap_eq_nil_iff.mpr fresh.reserved
  have hown : (fresh.indexes.map (indexRow fresh.table.name)).filterMap introspectIndex =
      fresh.indexes.map (readIndex fresh.table.name) := by
    rw [List.filterMap_map, ← List.filterMap_eq_map]
    exact List.filterMap_congr fun index hindex =>
      introspectIndex_indexRow _ (fresh.unreserved index hindex)
  rw [hautomatic, hown, List.append_nil] at hperm
  exact hperm

/-- An index is found under its name, as it was read back. -/
theorem findIndex_introspectTable {index : DatabaseIndex} (hindex : index ∈ fresh.indexes) :
    findIndex (introspectTable comments fresh.rows) index.name =
      some (readIndex fresh.table.name index) := by
  have hperm := indexes_introspectTable comments fresh
  have hmem : readIndex fresh.table.name index ∈ (introspectTable comments fresh.rows).indexes :=
    hperm.mem_iff.mpr (List.mem_map_of_mem hindex)
  have hnames : ((introspectTable comments fresh.rows).indexes.map (·.name)).Nodup := by
    rw [(hperm.map (·.name)).nodup_iff, List.map_map]
    exact fresh.nodup
  exact find?_key hnames hmem

theorem sameIndexes_iff (options : SchemaDiffOptions) :
    SameIndexes fresh.expected.table (introspectTable comments fresh.rows) options ↔
      ∀ index ∈ fresh.indexes, index.where_.isSome = true → IndexClear fresh.table.name index := by
  have hsame : ∀ index ∈ fresh.indexes, diffSqliteIndex fresh.expected.table
      (introspectTable comments fresh.rows) index = .empty ↔
        (index.where_.isSome = true → IndexClear fresh.table.name index) := by
    intro index hindex
    unfold diffSqliteIndex
    rw [findIndex_introspectTable comments fresh hindex]
    dsimp only
    have hindexes : sameIndex index (readIndex fresh.table.name index) = true ↔
        (index.where_.isSome = true → IndexClear fresh.table.name index) := by
      cases hwhere : index.where_ with
      | none => simp [sameIndex, readIndex, hwhere]
      | some predicate =>
        have hread := partialIndexWhere_iff fresh.table.name index hwhere
        simp only [sameIndex, readIndex, hwhere, Option.isSome_some, if_true, decide_true,
          Bool.true_and, decide_eq_true_eq, forall_const, IndexClear, ← hread]
        exact eq_comm
    rw [← hindexes]
    by_cases hequal : sameIndex index (readIndex fresh.table.name index) = true
    · simp [hequal]
    · simp [hequal, SchemaPlan.warning, SchemaPlan.empty]
  have hdrop : ∀ index ∈ (introspectTable comments fresh.rows).indexes,
      dropIndexChange fresh.expected.table options index = .empty := by
    intro index hindex
    obtain ⟨own, hown, rfl⟩ :=
      List.mem_map.mp ((indexes_introspectTable comments fresh).mem_iff.mp hindex)
    have hfound : (findIndex fresh.expected.table
        (readIndex fresh.table.name own).name).isSome = true := by
      unfold findIndex
      rw [List.find?_isSome]
      exact ⟨own, hown, by simp [readIndex]⟩
    unfold dropIndexChange
    rw [if_pos hfound]
  exact ⟨fun h index hindex => (hsame index hindex).mp (h.1 index hindex),
    fun h => ⟨fun index hindex => (hsame index hindex).mpr (h index hindex), hdrop⟩⟩

/-- A column is reported as generated where it is in the primary key and the word is found. -/
theorem identities_fresh : identities (introspectTable comments fresh.rows) =
    fresh.table.columns.map fun column => (column.name,
      hasAutoincrement (createTableSql sqliteDialect fresh.table) && column.primaryKey) := by
  rw [(identities_introspectTable comments fresh.rows).1, fresh.sql, Option.getD_some]
  have hcolumns := fresh.columns
  generalize fresh.table.columns = columns at hcolumns ⊢
  generalize fresh.rows.columns = infos at hcolumns ⊢
  induction hcolumns with
  | nil => rfl
  | cons hcolumn _ ih =>
    obtain ⟨hname, hkey⟩ := hcolumn
    rw [List.filterMap_cons, introspectColumn, hname, Option.map_some, List.map_cons, List.map_cons,
      ih]
    simp [hkey]

theorem sameIdentity_iff :
    SameIdentity fresh.expected.table (introspectTable comments fresh.rows) ↔
      fresh.table.IdentityClear := by
  rw [← identityClear_iff fresh.keys]
  have hidentities := identities_fresh comments fresh
  have hnames : ((introspectTable comments fresh.rows).columns.map (·.name)) =
      fresh.table.columns.map (·.name) := by
    have h := congrArg (List.map Prod.fst) hidentities
    simpa [identities, List.map_map, Function.comp_def] using h
  have hnodup : ((introspectTable comments fresh.rows).columns.map (·.name)).Nodup := by
    rw [hnames]
    exact fresh.table.nodup
  -- The column of the database for a column of the mapping.
  have hfind : ∀ column ∈ fresh.table.columns, ∃ old, findColumn (introspectTable comments fresh.rows)
      column.name = some old ∧ old.autoIncrement =
        (hasAutoincrement (createTableSql sqliteDialect fresh.table) && column.primaryKey) := by
    intro column hcolumn
    have hpair : (column.name, hasAutoincrement (createTableSql sqliteDialect fresh.table) &&
        column.primaryKey) ∈ identities (introspectTable comments fresh.rows) := by
      rw [hidentities]
      exact List.mem_map_of_mem hcolumn
    obtain ⟨old, hold, hequal⟩ := List.mem_map.mp hpair
    obtain ⟨hname, hidentity⟩ := Prod.mk.inj hequal
    refine ⟨old, ?_, hidentity⟩
    rw [← hname]
    exact find?_key hnodup hold
  constructor
  · intro hsame column hcolumn hkey
    obtain ⟨old, hfound, hidentity⟩ := hfind column hcolumn
    have hno := hsame (expectedColumn sqliteDialect column) (List.mem_map_of_mem hcolumn) old hfound
    have hequal : column.generated = old.autoIncrement := not_not.mp (of_decide_eq_false hno)
    rw [hequal, hidentity, hkey, Bool.and_true]
  · intro hright wanted hwanted old hold
    obtain ⟨column, hcolumn, rfl⟩ := List.mem_map.mp hwanted
    obtain ⟨other, hfound, hidentity⟩ := hfind column hcolumn
    obtain rfl : other = old := Option.some.inj (hfound.symm.trans hold)
    have hequal : column.generated = other.autoIncrement := by
      rw [hidentity]
      cases hkey : column.primaryKey with
      | true => rw [Bool.and_true, hright column hcolumn hkey]
      | false =>
        -- What is not in the primary key is not generated.
        rw [Bool.and_false]
        by_contra hgenerated
        have := (fresh.keys column hcolumn (by simpa using hgenerated)).1
        rw [hkey] at this
        cases this
    simp [diffColumn, expectedColumn, hequal]

end

/-- The recognisers are right, and a fresh schema shows no difference of an index or an identity,
    exactly where no text of the mapping is taken for the word that is looked for. -/
theorem sqlite_introspection_iff (name : String) (index : DatabaseIndex) (mapped : MappedTable)
    (schema : FreshSchema) (comments : SchemaComments) (options : SchemaDiffOptions) :
    (∀ predicate, index.where_ = some predicate →
      (partialIndexWhere (storedIndex name index) = some predicate ↔ IndexClear name index)) ∧
    (mapped.KeysValid →
      ((∀ column ∈ mapped.columns, column.primaryKey = true →
        hasAutoincrement (createTableSql sqliteDialect mapped) = column.generated) ↔
          mapped.IdentityClear)) ∧
    (NoDifference schema.expected (schema.introspected comments) options ↔
      ∀ fresh ∈ schema.tables, fresh.Clear) := by
  refine ⟨fun predicate h => partialIndexWhere_iff name index h, fun h => identityClear_iff h, ?_⟩
  -- Each expected table is compared with what was introspected of it.
  have hfind : ∀ fresh ∈ schema.tables, (schema.introspected comments).tables.find?
      (·.name = fresh.expected.table.name) = some (introspectTable comments fresh.rows) := by
    intro fresh hfresh
    have hname : ∀ t : FreshTable, (introspectTable comments t.rows).name = t.table.name :=
      fun t => (identities_introspectTable comments t.rows).2.trans t.name
    have hnodup : ((schema.introspected comments).tables.map (·.name)).Nodup := by
      rw [FreshSchema.introspected, List.map_map]
      have hnames : (DatabaseTable.name ∘ fun t : FreshTable => introspectTable comments t.rows) =
          fun t => t.table.name := funext hname
      rw [hnames]
      exact schema.nodup
    have h := find?_key hnodup (List.mem_map_of_mem hfresh)
    rw [hname] at h
    exact h
  have htable : ∀ fresh ∈ schema.tables, (SameIndexes fresh.expected.table
      (introspectTable comments fresh.rows) options ∧
        SameIdentity fresh.expected.table (introspectTable comments fresh.rows)) ↔ fresh.Clear :=
    fun fresh _ => and_congr (sameIndexes_iff comments fresh options) (sameIdentity_iff comments fresh)
  constructor
  · intro hsame fresh hfresh
    exact (htable fresh hfresh).mp
      (hsame fresh.expected (List.mem_map_of_mem hfresh) _ (hfind fresh hfresh))
  · intro hclear wanted hwanted table hfound
    obtain ⟨fresh, hfresh, rfl⟩ := List.mem_map.mp hwanted
    obtain rfl := Option.some.inj ((hfind fresh hfresh).symm.trans hfound)
    exact (htable fresh hfresh).mpr (hclear fresh hfresh)

/-- A table whose key is not generated, with a column that has both words in its name. -/
def flaggedTable : MappedTable where
  name := "t"
  columns := [
    { name := "id", type := .integral 8, optional := false, databaseType := none,
      primaryKey := true, generated := false, unique := none, default := none, check := none,
      reference := none },
    { name := "autoincrement where b", type := .integral 8, optional := true, databaseType := none,
      primaryKey := false, generated := false, unique := none, default := none, check := none,
      reference := none }]
  checks := []
  nodup := by decide

/-- A partial index over this column. -/
def flaggedIndex : DatabaseIndex where
  name := "i"
  columns := ["autoincrement where b"]
  where_ := some "id > 0"

/-- What SQLite tells of the table and its index. -/
def flaggedFresh : FreshTable where
  table := flaggedTable
  indexes := [flaggedIndex]
  rows :=
    { name := "t"
      sql := some (createTableSql sqliteDialect flaggedTable)
      columns := [
        { name := some "id", type := some "INTEGER", notnull := 0, dfltValue := none, pk := 1 },
        { name := some "autoincrement where b", type := some "INTEGER", notnull := 0,
          dfltValue := none, pk := 0 }]
      indexes := [indexRow "t" flaggedIndex] }
  automatic := []
  keys := by simp [MappedTable.KeysValid, flaggedTable]
  name := rfl
  sql := rfl
  columns := .cons ⟨rfl, by decide⟩ (.cons ⟨rfl, by decide⟩ .nil)
  created := .refl _
  nodup := by decide
  unreserved := by decide
  reserved := by simp

/-- The name of the column is taken for the beginning of the predicate, and makes of the key a
    generated one: the fresh schema shows a difference. -/
theorem introspection_misreads :
    partialIndexWhere (storedIndex "t" flaggedIndex) = some "b\") WHERE id > 0" ∧
    hasAutoincrement (createTableSql sqliteDialect flaggedTable) = true ∧
    ¬ NoDifference { tables := [flaggedFresh.expected] }
      { tables := [introspectTable {} flaggedFresh.rows] } {} := by
  refine ⟨by decide +kernel, by decide +kernel, fun hsame => ?_⟩
  have hname : (introspectTable {} flaggedFresh.rows).name = "t" :=
    (identities_introspectTable {} flaggedFresh.rows).2
  have hfind : [introspectTable {} flaggedFresh.rows].find?
      (·.name = flaggedFresh.expected.table.name) =
        some (introspectTable {} flaggedFresh.rows) := by
    rw [List.find?_cons_of_pos]
    simp only [hname, decide_eq_true_eq]
    rfl
  have hidentity := (sameIdentity_iff {} flaggedFresh).mp
    (hsame flaggedFresh.expected List.mem_cons_self _ hfind).2
  obtain ⟨column, hcolumn, hgenerated⟩ | hkey | htexts := hidentity
  · revert column
    decide
  · exact absurd (hkey _ List.mem_cons_self) (by decide)
  · exact htexts "autoincrement where b" (by decide) (by decide)

end MetalOrm.Native.Ddl
